import SubnetRegistry.Error

/-!
# Identifiers

The last segment of a subnet's name may be chosen by the client, of lower-case letters, digits and
hyphens. Where it is left empty, one is generated: the text of a version 7 UUID, which is 48 bits of
time and 74 bits of chance.
-/
namespace SubnetRegistry.Identifier

def isAllowed (c : Char) : Bool :=
  ('a' ≤ c && c ≤ 'z') || ('0' ≤ c && c ≤ '9') || c == '-'

/-- The first character that an identifier may not have, with its position counted from `start`. -/
def firstIllegal (start : Nat) : List Char → Option (Char × Nat)
  | [] => none
  | c :: rest => if isAllowed c then firstIllegal (start + 1) rest else some (c, start)

/-- Refuses an identifier with its first character that is not allowed. -/
def validate (id : String) : Except SubnetError Unit :=
  match firstIllegal 0 id.toList with
  | none => .ok ()
  | some (c, position) => .error (.invalidIdentifier c position)

/-- The last `count` hexadecimal digits of a number. -/
def hexDigits : Nat → Nat → List Char
  | 0, _ => []
  | count + 1, n => hexDigits count (n / 16) ++ [Nat.digitChar (n % 16)]

/-- The version 7 UUID of a time in milliseconds and some chance. -/
def generate (millis chance : Nat) : String :=
  let digits := hexDigits 12 millis ++ '7' :: hexDigits 3 chance ++
    Nat.digitChar (8 + chance / 4096 % 4) :: hexDigits 15 (chance / 16384)
  String.ofList <|
    digits.take 8 ++ '-' :: (digits.drop 8).take 4 ++ '-' :: (digits.drop 12).take 4 ++
      '-' :: (digits.drop 16).take 4 ++ '-' :: digits.drop 20

def isUuidV7 (id : String) : Bool :=
  let cs := id.toList
  let isHex (c : Char) : Bool := ('0' ≤ c && c ≤ '9') || ('a' ≤ c && c ≤ 'f')
  cs.length == 36 &&
    cs.zipIdx.all fun (c, i) =>
      if i == 8 || i == 13 || i == 18 || i == 23 then c == '-'
      else if i == 14 then c == '7'
      else if i == 19 then c == '8' || c == '9' || c == 'a' || c == 'b'
      else isHex c

end SubnetRegistry.Identifier
