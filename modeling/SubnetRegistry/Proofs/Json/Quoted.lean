import SubnetRegistry.Json.Value

/-!
# Bytes between quotes

A character stands for itself or is escaped, by a letter or by its number. Both readers of a text pass
over either, and the one that turns escapes into bytes gives back the bytes of the character.

## Main definitions

* `Json.encoded` — the bytes of characters.
* `Quoted.Reads` — bytes between quotes that stand for others.

## Main statements

* `Quoted.Reads.plains`, `Quoted.Reads.letter`, `Quoted.Reads.unit`, `Quoted.Reads.pair` — the ways in
  which a character may stand there.
-/
namespace SubnetRegistry.Json

def encoded (cs : List Char) : List UInt8 := cs.flatMap String.utf8EncodeChar

@[simp] theorem encoded_nil : encoded [] = [] := rfl

@[simp] theorem encoded_append (cs ds : List Char) :
    encoded (cs ++ ds) = encoded cs ++ encoded ds := by
  simp [encoded]

theorem encoded_cons (c : Char) (cs : List Char) : encoded (c :: cs) = encoded [c] ++ encoded cs := by
  simp [encoded]

theorem toList_loop_eq (bytes : ByteArray) (i : Nat) (acc : List UInt8) :
    ByteArray.toList.loop bytes i acc = acc.reverse ++ bytes.data.toList.drop i := by
  fun_induction ByteArray.toList.loop bytes i acc with
  | case1 i acc hi ih =>
    have hlt : i < bytes.data.toList.length := hi
    rw [ih, List.drop_eq_getElem_cons hlt]
    simp [ByteArray.get!, hi]
  | case2 i acc hi =>
    have hle : bytes.data.toList.length ≤ i := Nat.not_lt.1 hi
    rw [List.drop_eq_nil_of_le hle, List.append_nil]

/-- The bytes of a text are those of its characters. -/
theorem toUTF8_toList (cs : List Char) : (String.ofList cs).toUTF8.toList = encoded cs := by
  have h : (String.ofList cs).toUTF8 = (encoded cs).toByteArray := rfl
  rw [h, ByteArray.toList, toList_loop_eq]
  simp

theorem fromUTF8?_encoded (cs : List Char) :
    String.fromUTF8? (encoded cs).toByteArray = some (String.ofList cs) := by
  have hv : (encoded cs).toByteArray.IsValidUTF8 := ⟨cs, rfl⟩
  rw [String.fromUTF8?, dif_pos hv]
  rfl

theorem Value.bytes_eq (v : Value) : v.bytes = encoded v.chars := toUTF8_toList v.chars

/-! ## Bytes of single characters -/

/-- Bytes that stand for themselves between quotes. -/
def IsPlain (b : UInt8) : Prop := 32 ≤ b.toNat ∧ b ≠ 34 ∧ b ≠ 92

theorem isPlain_of_le {b : UInt8} (h : 128 ≤ b.toNat) : IsPlain b := by
  refine ⟨by omega, ?_, ?_⟩
  · rintro rfl
    exact absurd h (by decide)
  · rintro rfl
    exact absurd h (by decide)

/-- A character of seven bits is one byte. -/
theorem encoded_ascii {c : Char} (h : c.toNat < 128) : encoded [c] = [UInt8.ofNat c.toNat] := by
  have hle : c.val.toNat ≤ 0x7f := Nat.lt_succ_iff.1 h
  simp only [encoded, List.flatMap_cons, List.flatMap_nil, List.append_nil, String.utf8EncodeChar,
    if_pos hle]
  rfl

theorem encoded_of_ascii {cs : List Char} (h : ∀ c ∈ cs, c.toNat < 128) :
    encoded cs = cs.map fun c => UInt8.ofNat c.toNat := by
  induction cs with
  | nil => rfl
  | cons c cs ih =>
    rw [encoded_cons, encoded_ascii (h c (by simp)), ih fun d hd => h d (List.mem_cons_of_mem _ hd)]
    rfl

/-- Every byte of another character has its highest bit set. -/
theorem le_of_mem_encoded {c : Char} (h : 128 ≤ c.toNat) : ∀ b ∈ encoded [c], 128 ≤ b.toNat := by
  have hgt : ¬ c.val.toNat ≤ 0x7f := Nat.not_le.2 h
  have hbyte : ∀ n, 128 ≤ n % 256 → 128 ≤ (UInt8.ofNat n).toNat := fun n hn => by
    simpa using hn
  intro b hb
  simp only [encoded, List.flatMap_cons, List.flatMap_nil, List.append_nil, String.utf8EncodeChar,
    if_neg hgt] at hb
  split at hb
  · simp only [List.mem_cons, List.not_mem_nil, or_false] at hb
    rcases hb with rfl | rfl <;> exact hbyte _ (by omega)
  · split at hb
    · simp only [List.mem_cons, List.not_mem_nil, or_false] at hb
      rcases hb with rfl | rfl | rfl <;> exact hbyte _ (by omega)
    · simp only [List.mem_cons, List.not_mem_nil, or_false] at hb
      rcases hb with rfl | rfl | rfl | rfl <;> exact hbyte _ (by omega)

/-- A character that is not escaped is written by bytes that stand for themselves. -/
theorem isPlain_of_mem_encoded {c : Char} (h : 32 ≤ c.toNat) (hquote : c ≠ '"')
    (hbackslash : c ≠ '\\') : ∀ b ∈ encoded [c], IsPlain b := by
  intro b hb
  by_cases hc : c.toNat < 128
  · rw [encoded_ascii hc, List.mem_singleton] at hb
    have hn : b.toNat = c.toNat := by
      rw [hb, UInt8.toNat_ofNat']
      omega
    refine ⟨hn ▸ h, ?_, ?_⟩
    · rintro rfl
      exact hquote (Char.toNat_inj.1 hn.symm)
    · rintro rfl
      exact hbackslash (Char.toNat_inj.1 hn.symm)
  · exact isPlain_of_le (le_of_mem_encoded (Nat.not_lt.1 hc) b hb)

namespace Quoted

/-! ## Readers -/

/-- Bytes between quotes that stand for others: both readers pass over them. -/
def Reads (bytes content : List UInt8) : Prop :=
  ∀ rest offset,
    skip (bytes ++ rest) offset = skip rest (offset + bytes.length) ∧
      unescape (bytes ++ rest) offset =
        (unescape rest (offset + bytes.length)).map fun r => (content ++ r.1, r.2)

namespace Reads

variable {bytes bytes' content content' : List UInt8}

theorem nil : Reads [] [] := by
  intro rest offset
  refine ⟨rfl, ?_⟩
  show unescape rest offset = (unescape rest offset).map _
  cases unescape rest offset <;> rfl

theorem append (h : Reads bytes content) (h' : Reads bytes' content') :
    Reads (bytes ++ bytes') (content ++ content') := by
  intro rest offset
  obtain ⟨hskip, hread⟩ := h (bytes' ++ rest) offset
  obtain ⟨hskip', hread'⟩ := h' rest (offset + bytes.length)
  rw [List.append_assoc, hskip, hread, hskip', hread', List.length_append, Nat.add_assoc]
  refine ⟨rfl, ?_⟩
  cases unescape rest (offset + (bytes.length + bytes'.length)) with
  | error fault => rfl
  | ok r => simp [Except.map]

theorem plain {b : UInt8} (h : IsPlain b) : Reads [b] [b] := by
  intro rest offset
  obtain ⟨hle, hquote, hbackslash⟩ := h
  have hlt : ¬ b < 32 := fun hb => by
    have := UInt8.lt_iff_toNat_lt.1 hb
    simp at this
    omega
  constructor
  · rw [List.singleton_append, skip.eq_7 _ _ _ hquote (by grind) (by grind) (by grind) (by grind),
      if_neg hlt]
    rfl
  · rw [List.singleton_append, unescape.eq_7 _ _ _ hquote (by grind) (by grind) (by grind) (by grind),
      if_neg hlt]
    show _ = (unescape rest (offset + 1)).map _
    cases unescape rest (offset + 1) <;> rfl

theorem plains (h : ∀ b ∈ bytes, IsPlain b) : Reads bytes bytes := by
  induction bytes with
  | nil => exact nil
  | cons b bytes ih =>
    exact (plain (h b (by simp))).append (ih fun c hc => h c (List.mem_cons_of_mem _ hc))

/-- A backslash and a letter. -/
theorem letter {l b : UInt8} (h : escaped l = some b) : Reads [92, l] [b] := by
  intro rest offset
  have hl : l ≠ 117 := by
    rintro rfl
    cases h
  constructor
  · show skip (92 :: l :: rest) offset = _
    rw [skip.eq_5 _ _ _ (by grind) hl, h]
    rfl
  · show unescape (92 :: l :: rest) offset = (unescape rest (offset + 2)).map _
    rw [unescape.eq_5 _ _ _ (by grind) hl, h]
    cases unescape rest (offset + 2) <;> rfl

/-- A backslash, a `u` and the four digits of a code point that is not a surrogate. -/
theorem unit {a b c d : UInt8} {n : Nat} (h : hexUnit a b c d = some n)
    (htrailing : isTrailing n = false) (hleading : isLeading n = false) :
    Reads [92, 117, a, b, c, d] (codePoint n) := by
  intro rest offset
  constructor
  · show skip (92 :: 117 :: a :: b :: c :: d :: rest) offset = _
    rw [skip.eq_3, h]
    rfl
  · show unescape (92 :: 117 :: a :: b :: c :: d :: rest) offset =
      (unescape rest (offset + 6)).map _
    rw [unescape.eq_3, h]
    simp only [htrailing, hleading, Bool.false_eq_true, Bool.not_false, if_false, if_true]
    cases unescape rest (offset + 6) <;> rfl

/-- The two halves of a surrogate pair. -/
theorem pair {a b c d a' b' c' d' : UInt8} {n m : Nat} (h : hexUnit a b c d = some n)
    (h' : hexUnit a' b' c' d' = some m) (htrailing : isTrailing n = false)
    (hleading : isLeading n = true) (hsecond : isTrailing m = true) :
    Reads [92, 117, a, b, c, d, 92, 117, a', b', c', d'] (codePoint (paired n m)) := by
  intro rest offset
  constructor
  · show skip (92 :: 117 :: a :: b :: c :: d :: 92 :: 117 :: a' :: b' :: c' :: d' :: rest) offset = _
    rw [skip.eq_3, h, Option.isSome_some, if_pos rfl, skip.eq_3, h']
    rfl
  · show unescape (92 :: 117 :: a :: b :: c :: d :: 92 :: 117 :: a' :: b' :: c' :: d' :: rest) offset =
      (unescape rest (offset + 12)).map _
    rw [unescape.eq_3, h]
    simp only [htrailing, hleading, h', hsecond, Bool.false_eq_true, Bool.not_true, if_false, if_true]
    cases unescape rest (offset + 12) <;> rfl

end Reads

/-! ## Written texts -/

def inner (s : String) : List UInt8 := encoded (s.toList.flatMap escape)

theorem encoded_quote (s : String) : encoded (quote s) = 34 :: (inner s ++ [34]) := by
  rw [quote, encoded_cons, encoded_append]
  rfl

end Quoted
end SubnetRegistry.Json
