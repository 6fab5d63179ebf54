import SubnetRegistry.Json.Fault

/-!
# Numbers of a JSON text

A numeral is split into sign, digits, fraction and exponent, and then valued. A numeral without
fraction and exponent is an integer while it fits 64 bits, unsigned if it has no sign and signed
if it has one; every other numeral is a double. Negative zero is a double.

## Main definitions

* `Numeral.scan` — the numeral at the start of a list of bytes, or where it breaks off.
* `Numeral.value` — its value, or where it turns out too large.
-/
namespace SubnetRegistry.Json

/-- A number as a reader sees it. -/
inductive Number where
  | integer (n : Int)
  | real (x : Float)

def isDigit (b : UInt8) : Bool := 48 ≤ b && b ≤ 57

/-- The digits at the start of a list of bytes as numbers, and the bytes after them. -/
def spanDigits : List UInt8 → List Nat × List UInt8
  | [] => ([], [])
  | b :: rest =>
    if isDigit b then
      let (digits, after) := spanDigits rest
      ((b - 48).toNat :: digits, after)
    else ([], b :: rest)

structure Exponent where
  negative : Bool
  digits : List Nat
  /-- The number of bytes of the numeral before the exponent's digits. -/
  offset : Nat

/-- A numeral taken apart. `whole` has at least one digit, and so has a fraction. -/
structure Numeral where
  negative : Bool
  whole : List Nat
  fraction : Option (List Nat)
  exponent : Option Exponent
  /-- The number of bytes of the whole numeral. -/
  length : Nat

/-- Where a numeral breaks off: after a byte that cannot stand there, or at the end of the text. -/
inductive Break where
  | after (length : Nat)
  | atEnd (length : Nat)

/-- Reads the exponent after its mark, which is the byte number `used - 1`. -/
def Numeral.scanExponent (negative : Bool) (whole : List Nat) (fraction : Option (List Nat))
    (used : Nat) (bytes : List UInt8) : Except Break Numeral :=
  let (minus, used, bytes) := match bytes with
    | 43 :: rest => (false, used + 1, rest)
    | 45 :: rest => (true, used + 1, rest)
    | _ => (false, used, bytes)
  match spanDigits bytes with
  | ([], []) => throw (.atEnd used)
  | ([], _ :: _) => throw (.after (used + 1))
  | (digits, _) =>
    return ⟨negative, whole, fraction, some ⟨minus, digits, used⟩, used + digits.length⟩

def isExponentMark (b : UInt8) : Bool := b == 101 || b == 69

/-- Reads what follows the digits before the point. -/
def Numeral.scanTail (negative : Bool) (whole : List Nat) (used : Nat) :
    List UInt8 → Except Break Numeral
  | 46 :: rest =>
    match spanDigits rest with
    | ([], []) => throw (.atEnd (used + 1))
    | ([], _ :: _) => throw (.after (used + 2))
    | (fraction, after) =>
      let used := used + 1 + fraction.length
      match after with
      | b :: after =>
        if isExponentMark b then scanExponent negative whole (some fraction) (used + 1) after
        else return ⟨negative, whole, some fraction, none, used⟩
      | [] => return ⟨negative, whole, some fraction, none, used⟩
  | b :: rest =>
    if isExponentMark b then scanExponent negative whole none (used + 1) rest
    else return ⟨negative, whole, none, none, used⟩
  | [] => return ⟨negative, whole, none, none, used⟩

/-- Reads a numeral after its sign, which is `used` bytes long. A leading zero stands alone. -/
def Numeral.scanUnsigned (negative : Bool) (used : Nat) (bytes : List UInt8) :
    Except Break Numeral :=
  match spanDigits bytes with
  | ([], []) => throw (.atEnd used)
  | ([], _ :: _) => throw (.after (used + 1))
  | (0 :: _ :: _, _) => throw (.after (used + 2))
  | (whole, after) => scanTail negative whole (used + whole.length) after

def Numeral.scan : List UInt8 → Except Break Numeral
  | 45 :: rest => scanUnsigned true 1 rest
  | bytes => scanUnsigned false 0 bytes

/-- Appends digits to a significand while the result fits 64 bits. Returns it with the number of
digits that were appended. -/
def appendDigits (significand : Nat) : List Nat → Nat × Nat
  | [] => (significand, 0)
  | d :: rest =>
    if significand * 10 + d < UInt64.size then
      let (result, taken) := appendDigits (significand * 10 + d) rest
      (result, taken + 1)
    else (significand, 0)

/-- `x * 10 ^ exponent` in doubles, dividing twice where the power of ten would be too large; none
if the result is. -/
def scaled (x : Float) (exponent : Int) : Option Float :=
  if 0 ≤ exponent then
    if exponent ≤ 308 then
      let y := x * Float.ofScientific 1 false exponent.toNat
      if y.isInf then none else some y
    else if x == 0 then some x
    else none
  else if -308 ≤ exponent then some (x / Float.ofScientific 1 false (-exponent).toNat)
  else if -616 ≤ exponent then
    some (x / Float.ofScientific 1 false 308 / Float.ofScientific 1 false (-exponent - 308).toNat)
  else some 0

/-- The value of an exponent's digits, or the number of them after which it exceeds 31 bits. -/
def exponentValue (value used : Nat) : List Nat → Except Nat Nat
  | [] => .ok value
  | d :: rest =>
    if value * 10 + d < 0x80000000 then exponentValue (value * 10 + d) (used + 1) rest
    else .error (used + 1)

def signed (negative : Bool) (x : Float) : Float := if negative then -x else x

/-- The value of a numeral, or the number of its bytes that show it to be too large. -/
def Numeral.value (n : Numeral) : Except Nat Number :=
  let (significand, taken) := appendDigits 0 n.whole
  let dropped : Int := n.whole.length - taken
  let double (significand : Nat) (exponent : Int) : Except Nat Number :=
    match scaled significand.toUInt64.toFloat exponent with
    | some x => .ok (.real (signed n.negative x))
    | none => .error n.length
  let (significand, exponent) : Nat × Int := match n.fraction with
    | none => (significand, dropped)
    | some fraction =>
      let (significand, taken) := appendDigits significand fraction
      (significand, dropped - taken)
  match n.fraction, n.exponent with
  | none, none =>
    if dropped ≠ 0 then double significand exponent
    else if !n.negative then .ok (.integer significand)
    else if significand = 0 || 0x8000000000000000 < significand then double significand 0
    else .ok (.integer (-significand))
  | _, none => double significand exponent
  | _, some e =>
    match exponentValue 0 0 e.digits with
    | .ok value => double significand (if e.negative then exponent - value else exponent + value)
    | .error used =>
      if significand ≠ 0 && !e.negative then .error (e.offset + used)
      else .ok (.real (signed n.negative 0))

end SubnetRegistry.Json
