import SubnetRegistry.Json.Number
import SubnetRegistry.Proofs.Json.Quoted

/-!
# Integers are read as they are written

The decimal form of an integer that fits 64 bits, unsigned or signed, is one numeral, and its value is
the integer.

## Main definitions

* `Json.Delimited` — bytes that cannot go on a numeral.

## Main statements

* `Numeral.scan_ofInt`, `Numeral.value_ofInt` — an integer that was written is read.
-/
namespace SubnetRegistry.Json

/-- Bytes that cannot go on a numeral. -/
def Delimited (bytes : List UInt8) : Prop :=
  ∀ b ∈ bytes.head?, isDigit b = false ∧ b ≠ 46 ∧ isExponentMark b = false

theorem delimited_nil : Delimited [] := nofun

/-! ## Digits -/

def digitsOf (n : Nat) : List Nat := (Nat.toDigits 10 n).map fun c => c.toNat - 48

theorem digitsOf_ne_nil (n : Nat) : digitsOf n ≠ [] := by
  simp [digitsOf, Nat.toDigits_ne_nil]

theorem isDigit_ofChar {c : Char} (h : c.isDigit = true) :
    isDigit (UInt8.ofNat c.toNat) = true ∧ (UInt8.ofNat c.toNat - 48).toNat = c.toNat - 48 ∧
      c.toNat < 128 := by
  obtain ⟨hlow, hhigh⟩ : 48 ≤ c.toNat ∧ c.toNat ≤ 57 := by
    simpa [Char.isDigit, UInt32.le_iff_toNat_le] using h
  have hbyte : (UInt8.ofNat c.toNat).toNat = c.toNat := by
    rw [UInt8.toNat_ofNat']
    omega
  refine ⟨?_, ?_, by omega⟩
  · simp only [isDigit, Bool.and_eq_true, decide_eq_true_eq, UInt8.le_iff_toNat_le, hbyte]
    exact ⟨hlow, hhigh⟩
  · rw [UInt8.toNat_sub_of_le, hbyte]
    · rfl
    · rw [UInt8.le_iff_toNat_le, hbyte]
      exact hlow

theorem spanDigits_append {cs : List Char} (h : ∀ c ∈ cs, c.isDigit = true) {rest : List UInt8}
    (hrest : ∀ b ∈ rest.head?, isDigit b = false) :
    spanDigits (encoded cs ++ rest) = (cs.map fun c => c.toNat - 48, rest) := by
  induction cs with
  | nil =>
    cases rest with
    | nil => rfl
    | cons b rest => simp [spanDigits, hrest b rfl]
  | cons c cs ih =>
    obtain ⟨hdigit, hvalue, hascii⟩ := isDigit_ofChar (h c (by simp))
    rw [encoded_cons, encoded_ascii hascii, List.append_assoc, List.singleton_append, spanDigits,
      if_pos hdigit, ih fun d hd => h d (List.mem_cons_of_mem _ hd), hvalue]
    rfl

theorem spanDigits_ofNat (n : Nat) {rest : List UInt8} (h : ∀ b ∈ rest.head?, isDigit b = false) :
    spanDigits (encoded (Decimal.ofNat n) ++ rest) = (digitsOf n, rest) :=
  spanDigits_append Decimal.isDigit_of_mem_ofNat h

theorem length_encoded_ofNat (n : Nat) :
    (encoded (Decimal.ofNat n)).length = (digitsOf n).length := by
  rw [encoded_of_ascii fun c hc => (isDigit_ofChar (Decimal.isDigit_of_mem_ofNat c hc)).2.2]
  simp [digitsOf, Decimal.ofNat]

/-- Only zero starts with the digit zero. -/
theorem head_digitsOf {n : Nat} (h : 0 < n) : (digitsOf n).head? ≠ some 0 := by
  induction n using Nat.base_induction 10 (by decide) with
  | single m hm =>
    rw [digitsOf, Nat.toDigits_of_lt_base hm]
    simp [Nat.toNat_digitChar_sub_48_of_lt_ten hm]
    omega
  | digit m k hk hm ih =>
    have happend : digitsOf (10 * m + k) = digitsOf m ++ digitsOf k := by
      rw [digitsOf, ← Nat.toDigits_append_toDigits (by decide) hm hk, List.map_append]
      rfl
    obtain ⟨d, digits, hd⟩ := List.exists_cons_of_ne_nil (digitsOf_ne_nil m)
    rw [hd] at ih
    rw [happend, hd]
    exact ih hm

/-- The number of digits, after those that made `init`. -/
def ofDigits (init : Nat) (digits : List Nat) : Nat := digits.foldl (fun n d => n * 10 + d) init

theorem ofDigits_digitsOf (n : Nat) : ofDigits 0 (digitsOf n) = n := by
  have h : ofDigits 0 (digitsOf n) = Nat.ofDigitChars 10 (Nat.toDigits 10 n) 0 := by
    simp only [ofDigits, digitsOf, List.foldl_map, Nat.ofDigitChars_eq_foldl, Nat.mul_comm]
    rfl
  rw [h, Nat.ofDigitChars_ten_toDigits]

theorem le_ofDigits (init : Nat) (digits : List Nat) : init ≤ ofDigits init digits := by
  induction digits generalizing init with
  | nil => exact Nat.le_refl _
  | cons d digits ih =>
    have := ih (init * 10 + d)
    show init ≤ ofDigits (init * 10 + d) digits
    omega

/-- All digits of a number that fits are appended. -/
theorem appendDigits_eq {init : Nat} {digits : List Nat} (h : ofDigits init digits < UInt64.size) :
    appendDigits init digits = (ofDigits init digits, digits.length) := by
  induction digits generalizing init with
  | nil => rfl
  | cons d digits ih =>
    have hfits : init * 10 + d < UInt64.size := Nat.lt_of_le_of_lt (le_ofDigits _ digits) h
    rw [appendDigits, if_pos hfits, ih h]
    rfl

/-! ## Numerals -/

theorem Numeral.scanTail_of_delimited {negative : Bool} {whole : List Nat} {used : Nat}
    {rest : List UInt8} (h : Delimited rest) :
    scanTail negative whole used rest = .ok ⟨negative, whole, none, none, used⟩ := by
  cases rest with
  | nil => rfl
  | cons b rest =>
    obtain ⟨-, hpoint, hmark⟩ := h b rfl
    rw [scanTail.eq_2 _ _ _ _ _ hpoint, if_neg (by simp [hmark])]
    rfl

/-- The digits of a natural number after its sign, and what follows them. -/
theorem Numeral.scanUnsigned_append {negative : Bool} {used : Nat} (n : Nat) {rest : List UInt8}
    (h : ∀ b ∈ rest.head?, isDigit b = false) :
    scanUnsigned negative used (encoded (Decimal.ofNat n) ++ rest) =
      scanTail negative (digitsOf n) (used + (encoded (Decimal.ofNat n)).length) rest := by
  rw [scanUnsigned, spanDigits_ofNat n h, length_encoded_ofNat]
  have hne := digitsOf_ne_nil n
  have hhead : n = 0 ∨ (digitsOf n).head? ≠ some 0 :=
    (Nat.eq_zero_or_pos n).imp_right head_digitsOf
  split
  · next heq => exact absurd (Prod.mk.inj heq).1 hne
  · next heq => exact absurd (Prod.mk.inj heq).1 hne
  · next heq =>
    rw [(Prod.mk.inj heq).1] at hhead
    rcases hhead with rfl | hzero
    · cases heq
    · exact absurd rfl hzero
  · next heq =>
    obtain ⟨rfl, rfl⟩ := Prod.mk.inj heq
    rfl

/-- The numeral of a natural number after its sign. -/
theorem Numeral.scanUnsigned_ofNat {negative : Bool} {used : Nat} (n : Nat) {rest : List UInt8}
    (h : Delimited rest) :
    scanUnsigned negative used (encoded (Decimal.ofNat n) ++ rest) =
      .ok ⟨negative, digitsOf n, none, none, used + (encoded (Decimal.ofNat n)).length⟩ := by
  rw [scanUnsigned_append n fun b hb => (h b hb).1, scanTail_of_delimited h]

def numeralOf (n : Int) : Numeral :=
  ⟨n < 0, digitsOf n.natAbs, none, none, (encoded (Decimal.ofInt n)).length⟩

theorem Numeral.scan_ofInt (n : Int) {rest : List UInt8} (h : Delimited rest) :
    scan (encoded (Decimal.ofInt n) ++ rest) = .ok (numeralOf n) := by
  by_cases hn : n < 0
  · have hchars : Decimal.ofInt n = '-' :: Decimal.ofNat n.natAbs := by rw [Decimal.ofInt, if_pos hn]
    have hbytes : encoded (Decimal.ofInt n) = 45 :: encoded (Decimal.ofNat n.natAbs) := by
      rw [hchars, encoded_cons]
      rfl
    rw [numeralOf, hbytes, List.cons_append, scan.eq_1, scanUnsigned_ofNat _ h]
    simp [hn, Nat.add_comm]
  · have hchars : Decimal.ofInt n = Decimal.ofNat n.natAbs := by rw [Decimal.ofInt, if_neg hn]
    have hspan := spanDigits_ofNat n.natAbs fun b hb => (h b hb).1
    rw [numeralOf, hchars, scan.eq_2, scanUnsigned_ofNat _ h]
    · simp [hn]
    · intro after hafter
      rw [hafter] at hspan
      exact digitsOf_ne_nil _ (Prod.mk.inj hspan).1.symm

/-- An integer of 64 bits is read as it is. -/
theorem Numeral.value_ofInt {n : Int} (hlow : -0x8000000000000000 ≤ n)
    (hhigh : n < 0x10000000000000000) : (numeralOf n).value = .ok (.integer n) := by
  have hsize : UInt64.size = 0x10000000000000000 := rfl
  have hfits : ofDigits 0 (digitsOf n.natAbs) < UInt64.size := by
    rw [ofDigits_digitsOf]
    omega
  have happend := appendDigits_eq hfits
  rw [ofDigits_digitsOf] at happend
  simp only [value, numeralOf, happend, Int.sub_self, ne_eq, not_true_eq_false, if_false]
  by_cases hn : n < 0
  · have hne : n.natAbs ≠ 0 := by omega
    have hle : ¬ 0x8000000000000000 < n.natAbs := by omega
    have hneg : -(n.natAbs : Int) = n := by omega
    simp only [hn, hne, hle, hneg, decide_true, decide_false, Bool.not_true, Bool.or_self,
      Bool.false_eq_true, if_false]
  · have hpos : (n.natAbs : Int) = n := by omega
    simp only [hn, hpos, decide_false, Bool.not_false, if_true]

end SubnetRegistry.Json
