import SubnetRegistry.Decimal.Integer
import SubnetRegistry.Decimal.Shortest

/-!
# Real numbers in messages

A double is shown by its shortest decimal: in positional notation while the exponent of the first
digit is between two bounds, with at least one digit after the point, and else in exponent
notation with the sign of a large exponent written out.
-/
namespace SubnetRegistry.Decimal

/-- How the digits of a real number are laid out. -/
structure Layout where
  /-- The least and the greatest exponent of the first digit in positional notation. -/
  least : Int
  greatest : Int
  /-- The mark before the exponent, and the sign of one that is not negative. -/
  mark : Char
  plus : List Char

/-- Messages write `0.00001` and `1000000000000000.0`, but `1e-6` and `1e+16`. -/
def Layout.message : Layout := ⟨-5, 15, 'e', ['+']⟩

/-- Digits with the point after the first `exponent + 1` of them. -/
def positional (digits : List Char) (exponent : Int) : List Char :=
  if exponent < 0 then
    ['0', '.'] ++ List.replicate (-exponent - 1).toNat '0' ++ digits
  else
    let wholes := exponent.toNat + 1
    let fraction := digits.drop wholes
    digits.take wholes ++ List.replicate (wholes - digits.length) '0' ++ ['.'] ++
      (if fraction = [] then ['0'] else fraction)

/-- Digits with the point after the first, and the exponent. -/
def Layout.exponential (l : Layout) (digits : List Char) (exponent : Int) : List Char :=
  let fraction := digits.drop 1
  digits.take 1 ++ (if fraction = [] then [] else '.' :: fraction) ++ [l.mark] ++
    (if exponent < 0 then [] else l.plus) ++ ofInt exponent

def Layout.write (l : Layout) (digits : List Char) (exponent : Int) : List Char :=
  if l.least ≤ exponent && exponent ≤ l.greatest then positional digits exponent
  else l.exponential digits exponent

/-- A double as the layout has it. The sign of a negative zero is kept. -/
def Layout.real (l : Layout) (x : Float) : List Char :=
  let bits := x.toBits.toNat
  let biased := bits / 0x10000000000000 % 2048
  let fraction := bits % 0x10000000000000
  let magnitude :=
    if biased = 2047 then (if fraction = 0 then ['i', 'n', 'f'] else ['N', 'a', 'N'])
    else if biased = 0 && fraction = 0 then ['0', '.', '0']
    else
      let (digits, exponent) := (Binary.ofFields biased fraction).shortest
      l.write digits exponent
  if bits < 0x8000000000000000 then magnitude else '-' :: magnitude

def realText (x : Float) : String := String.ofList (Layout.message.real x)

end SubnetRegistry.Decimal
