import SubnetRegistry.Proofs.Json.Numeral

/-!
# All spellings of a number

A number is written with a sign, a natural number without leading zeros, a fraction and an exponent, of
which only the second must be there. The scanner takes it as a whole, whatever its value is.

## Main definitions

* `Figure` — the spellings of numbers.
* `Figure.ofInt` — an integer as it is written.

## Main statements

* `Numeral.takes_scan` — every spelling is taken as a whole.
-/
namespace SubnetRegistry.Json

/-- One or more decimal digits. -/
structure Digits where
  first : Fin 10
  more : List (Fin 10)

def Digits.chars (ds : Digits) : List Char := (ds.first :: ds.more).map fun d : Fin 10 => Nat.digitChar d

def Digits.bytes (ds : Digits) : List UInt8 := encoded ds.chars

/-- An exponent with the form of its mark and its sign, if it has one. -/
structure PowerOfTen where
  upper : Bool
  negative : Option Bool
  digits : Digits

def PowerOfTen.sign (e : PowerOfTen) : List UInt8 :=
  match e.negative with
  | none => []
  | some false => [43]
  | some true => [45]

def PowerOfTen.bytes (e : PowerOfTen) : List UInt8 :=
  (if e.upper then 69 else 101) :: (e.sign ++ e.digits.bytes)

/-- A number as it may be written. -/
structure Figure where
  negative : Bool
  whole : Nat
  fraction : Option Digits
  exponent : Option PowerOfTen

namespace Figure

/-- The bytes after the digits before the point. -/
def tail (f : Figure) : List UInt8 :=
  (f.fraction.elim [] fun ds => 46 :: ds.bytes) ++ f.exponent.elim [] PowerOfTen.bytes

def unsigned (f : Figure) : List UInt8 := encoded (Decimal.ofNat f.whole) ++ f.tail

def bytes (f : Figure) : List UInt8 := (if f.negative then [45] else []) ++ f.unsigned

def ofInt (n : Int) : Figure := ⟨n < 0, n.natAbs, none, none⟩

theorem ofInt_inj {m n : Int} (h : ofInt m = ofInt n) : m = n := by
  have hsign : m < 0 ↔ n < 0 := decide_eq_decide.1 (congrArg negative h)
  have habs : m.natAbs = n.natAbs := congrArg whole h
  omega

theorem bytes_ofInt (n : Int) : (ofInt n).bytes = encoded (Decimal.ofInt n) := by
  by_cases hn : n < 0
  · rw [Decimal.ofInt, if_pos hn, encoded_cons]
    simp [bytes, unsigned, tail, ofInt, hn]
    rfl
  · rw [Decimal.ofInt, if_neg hn]
    simp [bytes, unsigned, tail, ofInt, hn]

end Figure

theorem Digits.isDigit_of_mem (ds : Digits) : ∀ c ∈ ds.chars, c.isDigit = true := by
  have hdigit : ∀ d : Fin 10, (Nat.digitChar d).isDigit = true := by decide
  intro c hc
  obtain ⟨d, -, rfl⟩ := List.mem_map.1 hc
  exact hdigit d

theorem Digits.bytes_eq_cons (ds : Digits) :
    ∃ b bs, ds.bytes = b :: bs ∧ isDigit b = true := by
  obtain ⟨hdigit, -, hascii⟩ := isDigit_ofChar (ds.isDigit_of_mem (Nat.digitChar ds.first)
    List.mem_cons_self)
  refine ⟨UInt8.ofNat (Nat.digitChar ds.first).toNat,
    encoded (ds.more.map fun d : Fin 10 => Nat.digitChar d), ?_, hdigit⟩
  rw [Digits.bytes, Digits.chars, List.map_cons, encoded_cons, encoded_ascii hascii]
  rfl

/-- Digits are taken up to the first byte that is none. -/
theorem Digits.span (ds : Digits) {rest : List UInt8} (h : ∀ b ∈ rest.head?, isDigit b = false) :
    ∃ d more, spanDigits (ds.bytes ++ rest) = (d :: more, rest) ∧
      (d :: more).length = ds.bytes.length := by
  have hspan : spanDigits (ds.bytes ++ rest) = (ds.chars.map fun c => c.toNat - 48, rest) :=
    spanDigits_append ds.isDigit_of_mem h
  refine ⟨_, _, hspan, ?_⟩
  rw [Digits.bytes, encoded_of_ascii fun c hc => (isDigit_ofChar (ds.isDigit_of_mem c hc)).2.2]
  simp [Digits.chars]

namespace Numeral

/-- A numeral is taken that is this many bytes long. -/
def Takes (result : Except Break Numeral) (length : Nat) : Prop :=
  ∃ n, result = .ok n ∧ n.length = length

variable {negative : Bool} {whole : List Nat} {fraction : Option (List Nat)} {used : Nat}
  {rest : List UInt8}

/-- The sign and the digits of an exponent. -/
theorem takes_scanExponent (e : PowerOfTen) (hrest : Delimited rest) :
    Takes (scanExponent negative whole fraction used (e.sign ++ e.digits.bytes ++ rest))
      (used + (e.sign ++ e.digits.bytes).length) := by
  obtain ⟨upper, sign, ds⟩ := e
  obtain ⟨d, more, hspan, hlength⟩ := ds.span fun b hb => (hrest b hb).1
  obtain ⟨b, bs, hbytes, hdigit⟩ := ds.bytes_eq_cons
  rcases sign with _ | _ | _
  · have hplus : b ≠ 43 := by
      rintro rfl
      cases hdigit
    have hminus : b ≠ 45 := by
      rintro rfl
      cases hdigit
    show Takes (scanExponent negative whole fraction used (ds.bytes ++ rest)) (used + ds.bytes.length)
    rw [← hlength]
    rw [hbytes, List.cons_append] at hspan ⊢
    unfold scanExponent
    split
    next minus used' bytes hmatch =>
    obtain ⟨rfl, rfl, rfl⟩ : minus = false ∧ used' = used ∧ bytes = b :: (bs ++ rest) := by
      split at hmatch
      · next heq => exact absurd (List.cons.inj heq).1 hplus
      · next heq => exact absurd (List.cons.inj heq).1 hminus
      · simpa [eq_comm] using hmatch
    rw [hspan]
    exact ⟨_, rfl, rfl⟩
  · show Takes (scanExponent negative whole fraction used (43 :: (ds.bytes ++ rest))) _
    simp only [scanExponent, hspan]
    exact ⟨_, rfl, by simp [PowerOfTen.sign, ← hlength]; omega⟩
  · show Takes (scanExponent negative whole fraction used (45 :: (ds.bytes ++ rest))) _
    simp only [scanExponent, hspan]
    exact ⟨_, rfl, by simp [PowerOfTen.sign, ← hlength]; omega⟩

/-- An exponent with its mark. -/
theorem takes_mark (e : PowerOfTen) (hrest : Delimited rest) :
    ∃ b bytes, e.bytes ++ rest = b :: bytes ∧ isDigit b = false ∧ b ≠ 46 ∧ isExponentMark b = true ∧
      ∀ negative whole fraction used,
        Takes (scanExponent negative whole fraction (used + 1) bytes) (used + e.bytes.length) := by
  have hmark : ∀ upper : Bool, isDigit (if upper then 69 else 101) = false ∧
      (if upper then 69 else 101 : UInt8) ≠ 46 ∧
        isExponentMark (if upper then 69 else 101) = true := by
    decide
  obtain ⟨hdigit, hpoint, hexponent⟩ := hmark e.upper
  refine ⟨_, e.sign ++ e.digits.bytes ++ rest, rfl, hdigit, hpoint, hexponent, ?_⟩
  intro negative whole fraction used
  have hlength : used + e.bytes.length = used + 1 + (e.sign ++ e.digits.bytes).length := by
    rw [PowerOfTen.bytes, List.length_cons]
    omega
  rw [hlength]
  exact takes_scanExponent e hrest

/-- What follows the digits before the point. -/
theorem takes_scanTail (f : Figure) (hrest : Delimited rest) :
    Takes (scanTail negative whole used (f.tail ++ rest)) (used + f.tail.length) := by
  obtain ⟨minus, n, fraction, exponent⟩ := f
  cases fraction with
  | none =>
    cases exponent with
    | none => exact ⟨_, scanTail_of_delimited hrest, rfl⟩
    | some e =>
      obtain ⟨b, bytes, hbytes, -, hpoint, hmark, htakes⟩ := takes_mark e hrest
      show Takes (scanTail negative whole used (e.bytes ++ rest)) (used + e.bytes.length)
      rw [hbytes, scanTail.eq_2 _ _ _ _ _ hpoint, if_pos hmark]
      exact htakes _ _ _ _
  | some ds =>
    cases exponent with
    | none =>
      obtain ⟨d, more, hspan, hlength⟩ := ds.span fun b hb => (hrest b hb).1
      have htail : Figure.tail ⟨minus, n, some ds, none⟩ = 46 :: ds.bytes := List.append_nil _
      have hstop : used + (46 :: ds.bytes).length = used + 1 + (d :: more).length := by
        rw [hlength, List.length_cons]
        omega
      rw [htail, hstop, List.cons_append, scanTail, hspan]
      cases rest with
      | nil => exact ⟨_, rfl, rfl⟩
      | cons b rest =>
        obtain ⟨-, -, hmark⟩ := hrest b rfl
        simp only [hmark]
        exact ⟨_, rfl, rfl⟩
    | some e =>
      obtain ⟨b, bytes, hbytes, hdigit, -, hmark, htakes⟩ := takes_mark e hrest
      have hhead : ∀ c ∈ (e.bytes ++ rest).head?, isDigit c = false := by
        rw [hbytes]
        rintro c ⟨⟩
        exact hdigit
      obtain ⟨d, more, hspan, hlength⟩ := ds.span hhead
      have htail : Figure.tail ⟨minus, n, some ds, some e⟩ = 46 :: (ds.bytes ++ e.bytes) := rfl
      have hstop : used + (46 :: (ds.bytes ++ e.bytes)).length =
          used + 1 + (d :: more).length + e.bytes.length := by
        rw [hlength, List.length_cons, List.length_append]
        omega
      rw [htail, hstop, List.cons_append, List.append_assoc, scanTail, hspan, hbytes]
      simp only [hmark, if_true]
      exact htakes _ _ _ _

/-- What follows the digits before the point does not go on them. -/
theorem isDigit_head_tail (f : Figure) (hrest : Delimited rest) :
    ∀ b ∈ (f.tail ++ rest).head?, isDigit b = false := by
  obtain ⟨minus, n, fraction, exponent⟩ := f
  intro b hb
  cases fraction with
  | some ds =>
    cases hb
    rfl
  | none =>
    cases exponent with
    | none => exact (hrest b hb).1
    | some e =>
      obtain ⟨c, bytes, hbytes, hdigit, -⟩ := takes_mark e hrest
      have htail : Figure.tail ⟨minus, n, none, some e⟩ ++ rest = c :: bytes := hbytes
      rw [htail] at hb
      cases hb
      exact hdigit

/-- The digits before the point begin with a digit. -/
theorem unsigned_eq_cons (f : Figure) : ∃ b bytes, f.unsigned = b :: bytes ∧ isDigit b = true := by
  obtain ⟨c, cs, hcs⟩ := List.exists_cons_of_ne_nil (Nat.toDigits_ne_nil (n := f.whole) (b := 10))
  have hdigit : c.isDigit = true := Decimal.isDigit_of_mem_ofNat c (hcs ▸ List.mem_cons_self)
  obtain ⟨hbyte, -, hascii⟩ := isDigit_ofChar hdigit
  refine ⟨UInt8.ofNat c.toNat, encoded cs ++ f.tail, ?_, hbyte⟩
  rw [Figure.unsigned, Decimal.ofNat, hcs, encoded_cons, encoded_ascii hascii]
  rfl

/-- A number begins with a minus sign or a digit. -/
theorem bytes_eq_cons (f : Figure) :
    ∃ b bytes, f.bytes = b :: bytes ∧ (b = 45 ∨ isDigit b = true) := by
  rw [Figure.bytes]
  cases f.negative with
  | true => exact ⟨45, f.unsigned, rfl, .inl rfl⟩
  | false =>
    obtain ⟨b, bytes, hbytes, hdigit⟩ := unsigned_eq_cons f
    exact ⟨b, bytes, hbytes, .inr hdigit⟩

/-- Every spelling of a number is taken as a whole. -/
theorem takes_scan (f : Figure) (hrest : Delimited rest) :
    Takes (scan (f.bytes ++ rest)) f.bytes.length := by
  have hunsigned : ∀ negative used, Takes (scanUnsigned negative used (f.unsigned ++ rest))
      (used + f.unsigned.length) := by
    intro negative used
    rw [Figure.unsigned, List.append_assoc, scanUnsigned_append _ (isDigit_head_tail f hrest),
      List.length_append, ← Nat.add_assoc]
    exact takes_scanTail f hrest
  rw [Figure.bytes]
  cases f.negative with
  | true =>
    show Takes (scan (45 :: (f.unsigned ++ rest))) (f.unsigned.length + 1)
    rw [scan.eq_1, Nat.add_comm]
    exact hunsigned true 1
  | false =>
    obtain ⟨b, bytes, hbytes, hdigit⟩ := unsigned_eq_cons f
    show Takes (scan (f.unsigned ++ rest)) f.unsigned.length
    have hminus : ∀ bytes, f.unsigned ++ rest ≠ 45 :: bytes := by
      rintro after heq
      rw [hbytes] at heq
      cases heq
      cases hdigit
    rw [scan.eq_2 _ hminus, ← Nat.zero_add f.unsigned.length]
    exact hunsigned false 0

end Numeral
end SubnetRegistry.Json
