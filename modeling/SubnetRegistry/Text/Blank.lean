/-!
# White space

The characters with the Unicode property `White_Space`, and text without them at its ends.

## Main definitions

* `isBlank` — the 25 characters of the property.
* `trim` — a text without the blanks at its two ends.
-/
namespace SubnetRegistry.Text

/-- Holds of the characters with the property `White_Space`. -/
def isBlank (c : Char) : Bool :=
  let n := c.toNat
  (9 ≤ n && n ≤ 13) || n == 0x20 || n == 0x85 || n == 0xA0 || n == 0x1680 ||
    (0x2000 ≤ n && n ≤ 0x200A) || n == 0x2028 || n == 0x2029 || n == 0x202F || n == 0x205F ||
    n == 0x3000

def trimEnd (cs : List Char) : List Char := (cs.reverse.dropWhile isBlank).reverse

def trim (cs : List Char) : List Char := trimEnd (cs.dropWhile isBlank)

end SubnetRegistry.Text
