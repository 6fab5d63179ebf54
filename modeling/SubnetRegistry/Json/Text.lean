import SubnetRegistry.Json.Fault

/-!
# Texts of a JSON text

A text is written between double quotes. It is read in one of two ways: `read` turns its escapes
into the bytes they stand for and wants valid UTF-8, `skip` only looks for the closing quote. Both
take the bytes after the opening quote and the offset of the first of them.

## Main definitions

* `quote` — a text as it is written.
* `read`, `skip` — the two readers. Both give the offset after the closing quote.
-/
namespace SubnetRegistry.Json.Quoted

/-! ## Writing -/

/-- A character of a text as it is written: quotes, backslashes and controls are escaped. -/
def escape (c : Char) : List Char :=
  if c = '"' then ['\\', '"']
  else if c = '\\' then ['\\', '\\']
  else if c = '\x08' then ['\\', 'b']
  else if c = '\t' then ['\\', 't']
  else if c = '\n' then ['\\', 'n']
  else if c = '\x0c' then ['\\', 'f']
  else if c = '\r' then ['\\', 'r']
  else if c.toNat < 0x20 then
    ['\\', 'u', '0', '0', Nat.digitChar (c.toNat / 16), Nat.digitChar (c.toNat % 16)]
  else [c]

def quote (s : String) : List Char := '"' :: (s.toList.flatMap escape ++ ['"'])

/-! ## Reading -/

/-- The byte that a backslash and a letter stand for. -/
def escaped (letter : UInt8) : Option UInt8 :=
  if letter == 34 || letter == 92 || letter == 47 then some letter
  else if letter == 98 then some 8
  else if letter == 102 then some 12
  else if letter == 110 then some 10
  else if letter == 114 then some 13
  else if letter == 116 then some 9
  else none

def hexDigit (b : UInt8) : Option Nat :=
  if 48 ≤ b && b ≤ 57 then some (b - 48).toNat
  else if 97 ≤ b && b ≤ 102 then some (b - 87).toNat
  else if 65 ≤ b && b ≤ 70 then some (b - 55).toNat
  else none

def hexUnit (a b c d : UInt8) : Option Nat := do
  return ((← hexDigit a) * 16 + (← hexDigit b)) * 256 + (← hexDigit c) * 16 + (← hexDigit d)

def skip : List UInt8 → Nat → Except Fault Nat
  | [], offset => throw (.at .endInText offset)
  | 34 :: _, offset => return offset + 1
  | 92 :: 117 :: a :: b :: c :: d :: rest, offset =>
    if (hexUnit a b c d).isSome then skip rest (offset + 6)
    else throw (.at .badEscape (offset + 6))
  | 92 :: 117 :: rest, offset => throw (.at .endInText (offset + 2 + rest.length))
  | 92 :: letter :: rest, offset =>
    if (escaped letter).isSome then skip rest (offset + 2)
    else throw (.at .badEscape (offset + 2))
  | 92 :: [], offset => throw (.at .endInText (offset + 1))
  | b :: rest, offset =>
    if b < 0x20 then throw (.at .controlCharacter offset) else skip rest (offset + 1)

/-- Holds of the first halves of surrogate pairs. -/
def isLeading (n : Nat) : Bool := 0xD800 ≤ n && n ≤ 0xDBFF

/-- Holds of the second halves of surrogate pairs. -/
def isTrailing (n : Nat) : Bool := 0xDC00 ≤ n && n ≤ 0xDFFF

/-- The bytes of a code point. -/
def codePoint (n : Nat) : List UInt8 := String.utf8EncodeChar (Char.ofNat n)

/-- The code point of a surrogate pair. -/
def paired (leading trailing : Nat) : Nat :=
  (leading - 0xD800) * 0x400 + (trailing - 0xDC00) + 0x10000

/-- The fault of a text that ends, or goes on with `rest`, where the second half of a surrogate
pair is due. -/
def unpaired : List UInt8 → Nat → Fault
  | [], offset => .at .endInText offset
  | 92 :: [], offset => .at .endInText (offset + 1)
  | 92 :: 117 :: a :: b :: c :: d :: _, offset =>
    .at (if (hexUnit a b c d).isSome then .loneSurrogate else .badEscape) (offset + 6)
  | 92 :: 117 :: rest, offset => .at .endInText (offset + 2 + rest.length)
  | 92 :: _ :: _, offset => .at .unfinishedSurrogatePair (offset + 2)
  | _ :: _, offset => .at .unfinishedSurrogatePair (offset + 1)

/-- Reads the bytes that a text stands for. -/
def unescape : List UInt8 → Nat → Except Fault (List UInt8 × Nat)
  | [], offset => throw (.at .endInText offset)
  | 34 :: _, offset => return ([], offset + 1)
  | 92 :: 117 :: a :: b :: c :: d :: rest, offset =>
    match hexUnit a b c d with
    | none => throw (.at .badEscape (offset + 6))
    | some unit =>
      if isTrailing unit then throw (.at .loneSurrogate (offset + 6))
      else if !isLeading unit then do
        let (bytes, stop) ← unescape rest (offset + 6)
        return (codePoint unit ++ bytes, stop)
      else match rest with
        | 92 :: 117 :: a :: b :: c :: d :: after =>
          match hexUnit a b c d with
          | none => throw (unpaired rest (offset + 6))
          | some second =>
            if isTrailing second then do
              let (bytes, stop) ← unescape after (offset + 12)
              return (codePoint (paired unit second) ++ bytes, stop)
            else throw (unpaired rest (offset + 6))
        | _ => throw (unpaired rest (offset + 6))
  | 92 :: 117 :: rest, offset => throw (.at .endInText (offset + 2 + rest.length))
  | 92 :: letter :: rest, offset =>
    match escaped letter with
    | some byte => do
      let (bytes, stop) ← unescape rest (offset + 2)
      return (byte :: bytes, stop)
    | none => throw (.at .badEscape (offset + 2))
  | 92 :: [], offset => throw (.at .endInText (offset + 1))
  | b :: rest, offset =>
    if b < 0x20 then throw (.at .controlCharacter (offset + 1)) else do
      let (bytes, stop) ← unescape rest (offset + 1)
      return (b :: bytes, stop)

/-- The number of bytes before the first that is not part of valid UTF-8. -/
def validLength : List UInt8 → Nat
  | [] => 0
  | b :: rest =>
    match (b :: rest.take 3).toByteArray.utf8DecodeChar? 0 with
    | none => 0
    | some c => c.utf8Size + validLength (rest.drop (c.utf8Size - 1))
termination_by bytes => bytes.length
decreasing_by simp only [List.length_drop, List.length_cons]; omega

/-- Reads a text. The place of a byte that is not valid UTF-8 is counted back from the end of the
text by the bytes that it stands for. -/
def read (bytes : List UInt8) (offset : Nat) : Except Fault (String × Nat) := do
  let (content, stop) ← unescape bytes offset
  match String.fromUTF8? content.toByteArray with
  | some s => return (s, stop)
  | none => throw (.at .badUtf8 (stop - (content.length - validLength content)))

end SubnetRegistry.Json.Quoted
