import SubnetRegistry.Proofs.Except
import SubnetRegistry.Service

/-!
# Names of identifiers

No character of an identifier is a slash, be it chosen or generated. So the name that is built from one
has two segments, and where it passes as a name the identifier is a DNS label.

## Main definitions

* `Identifier.IsUuid` — the text of a UUID.

## Main statements

* `Identifier.isUuid_of_isUuidV7` — a generated identifier is the text of a UUID.
* `Identifier.isUuidV7_generate` — whatever the time and the chance, it is one of version 7.
* `Name.validate_eq_ok_iff` — a name passes where all its segments are labels.
* `CreateRequest.isLabel_identifier` — the identifier of a creation that passes is a label.
-/
namespace SubnetRegistry

variable {id name : String}

namespace Identifier

theorem firstIllegal_eq_none_iff (start : Nat) (cs : List Char) :
    firstIllegal start cs = none ↔ ∀ c ∈ cs, isAllowed c := by
  induction cs generalizing start with
  | nil => simp [firstIllegal]
  | cons c cs ih =>
    by_cases hc : isAllowed c
    · simp [firstIllegal, hc, ih]
    · simp [firstIllegal, hc]

theorem validate_eq_ok_iff : validate id = .ok () ↔ ∀ c ∈ id.toList, isAllowed c := by
  rw [← firstIllegal_eq_none_iff 0, validate]
  cases firstIllegal 0 id.toList <;> simp

/-! ## UUIDs -/

def IsHexDigit (c : Char) : Prop := '0' ≤ c ∧ c ≤ '9' ∨ 'a' ≤ c ∧ c ≤ 'f'

/-- The text of a UUID: 36 characters, hyphens in four places and lower-case hexadecimal digits in the
others. -/
structure IsUuid (id : String) : Prop where
  length_eq : id.length = 36
  hyphens : ∀ i ∈ [8, 13, 18, 23], id.toList[i]? = some '-'
  digits : ∀ i c, i ∉ [8, 13, 18, 23] → id.toList[i]? = some c → IsHexDigit c

theorem IsHexDigit.isAllowed {c : Char} (h : IsHexDigit c) : isAllowed c := by
  have hz : c ≤ 'f' → c ≤ 'z' := fun hf => Char.le_trans hf (by decide)
  grind [IsHexDigit, Identifier.isAllowed]

/-- The text of a UUID has allowed characters only. -/
theorem IsUuid.isAllowed (h : IsUuid id) : ∀ c ∈ id.toList, isAllowed c := by
  intro c hc
  obtain ⟨i, hi⟩ := List.mem_iff_getElem?.1 hc
  by_cases hplace : i ∈ [8, 13, 18, 23]
  · obtain rfl : c = '-' := Option.some.inj (hi.symm.trans (h.hyphens i hplace))
    rfl
  · exact (h.digits i c hplace hi).isAllowed

/-- A generated identifier is the text of a UUID. -/
theorem isUuid_of_isUuidV7 (h : isUuidV7 id) : IsUuid id := by
  simp only [isUuidV7, Bool.and_eq_true, List.all_eq_true, beq_iff_eq] at h
  obtain ⟨hlength, hall⟩ := h
  refine ⟨hlength, fun i hi => ?_, fun i c hi hc => ?_⟩
  · have hlt : i < id.toList.length := by
      rw [hlength]
      exact (by decide : ∀ j ∈ [8, 13, 18, 23], j < 36) i hi
    have hplace := hall (id.toList[i], i)
      (List.mem_zipIdx_iff_getElem?.2 (List.getElem?_eq_getElem hlt))
    rw [if_pos (by grind)] at hplace
    rw [List.getElem?_eq_getElem hlt]
    exact congrArg some (eq_of_beq hplace)
  · have hplace := hall (c, i) (List.mem_zipIdx_iff_getElem?.2 hc)
    dsimp only at hplace
    rw [if_neg (by grind)] at hplace
    -- the version, the variant and a digit
    split at hplace
    · obtain rfl : c = '7' := eq_of_beq hplace
      exact .inl (by decide)
    split at hplace
    · obtain ((rfl | rfl) | rfl) | rfl : ((c = '8' ∨ c = '9') ∨ c = 'a') ∨ c = 'b' := by
        simpa using hplace
      · exact .inl (by decide)
      · exact .inl (by decide)
      · exact .inr (by decide)
      · exact .inr (by decide)
    · simpa [IsHexDigit] using hplace

/-- A generated identifier has allowed characters only. -/
theorem isAllowed_of_isUuidV7 (h : isUuidV7 id) : ∀ c ∈ id.toList, isAllowed c :=
  (isUuid_of_isUuidV7 h).isAllowed

theorem digitChar_hex {d : Nat} (h : d < 16) :
    '0' ≤ Nat.digitChar d ∧ Nat.digitChar d ≤ '9' ∨
      'a' ≤ Nat.digitChar d ∧ Nat.digitChar d ≤ 'f' := by
  revert d
  decide

/-- Whatever the time and the chance, the form is that of a version 7 UUID. -/
theorem isUuidV7_generate (millis chance : Nat) : isUuidV7 (generate millis chance) := by
  have hdigit : ∀ n : Nat, '0' ≤ Nat.digitChar (n % 16) ∧ Nat.digitChar (n % 16) ≤ '9' ∨
      'a' ≤ Nat.digitChar (n % 16) ∧ Nat.digitChar (n % 16) ≤ 'f' :=
    fun n => digitChar_hex (Nat.mod_lt n (by decide))
  -- what is left is the digit of the variant, which is 8, 9, a or b
  simp [isUuidV7, generate, hexDigits, hdigit, List.zipIdx]
  omega

theorem slash_not_mem (h : ∀ c ∈ id.toList, isAllowed c) : '/' ∉ id.toList :=
  fun hm => absurd (h _ hm) (by decide)

end Identifier

namespace Name

/-- A name passes where all its segments are labels. -/
theorem validate_eq_ok_iff : validate name = .ok () ↔ ∀ s ∈ segments name, isLabel s := by
  unfold validate
  split
  · next h => simpa using List.find?_eq_none.1 h
  · next s h =>
    have hs := List.find?_some h
    have hm := List.mem_of_find?_eq_some h
    simp only [reduceCtorEq, false_iff]
    exact fun hall => by simp [hall s hm] at hs

theorem segments_build {collection : String} (hc : '/' ∉ collection.toList)
    (hi : '/' ∉ id.toList) : segments (build collection id) = [collection.toList, id.toList] := by
  have hname : (build collection id).toList = collection.toList ++ '/' :: id.toList := by
    simp [build, String.toList_append]
  rw [segments, hname, Text.split_append_cons hc, Text.split_of_not_mem hi]

end Name

namespace CreateRequest

variable {r : CreateRequest} {fresh : String}

theorem isAllowed_identifier (h : r.identifier fresh = .ok id) (hf : Identifier.isUuidV7 fresh) :
    ∀ c ∈ id.toList, Identifier.isAllowed c := by
  unfold identifier at h
  split at h
  · obtain rfl := Except.ok.inj h
    exact Identifier.isAllowed_of_isUuidV7 hf
  · obtain ⟨⟨⟩, hv, h⟩ := exists_of_bind_eq_ok h
    obtain rfl := Except.ok.inj h
    exact Identifier.validate_eq_ok_iff.1 hv

/-- The identifier of a creation that passes is a label. -/
theorem isLabel_identifier (h : r.identifier fresh = .ok id) (hf : Identifier.isUuidV7 fresh)
    (hn : Name.validate (Name.build Name.collection id) = .ok ()) : Name.isLabel id.toList := by
  have hslash := Identifier.slash_not_mem (isAllowed_identifier h hf)
  have hsegments := Name.segments_build (by decide : '/' ∉ Name.collection.toList) hslash
  refine Name.validate_eq_ok_iff.1 hn id.toList ?_
  rw [hsegments]
  exact List.mem_cons_of_mem _ (List.mem_singleton_self _)

end CreateRequest
end SubnetRegistry
