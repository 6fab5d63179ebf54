import SubnetRegistry.Proofs.Name.Grammar

/-!
# Identifiers in names

The name of an identifier passes exactly if the identifier is a label. What else is wrong with it is
found in two steps: first a character that no label has, then the form of the whole. The text of a
UUID, which is what is generated, is a label.

## Main statements

* `Identifier.validate_of_illegal` — the first character that no label has is reported with its place.
* `Identifier.IsUuid.dnsLabel` — UUIDs are labels.
* `Name.validate_build`, `Name.validate_build_of_not_dnsLabel` — the name of an identifier.
-/
namespace SubnetRegistry

variable {id : String}

namespace Identifier

/-! ## Characters -/

theorem firstIllegal_append {before : List Char} (h : ∀ c ∈ before, isAllowed c) (start : Nat)
    (cs : List Char) : firstIllegal start (before ++ cs) = firstIllegal (start + before.length) cs := by
  induction before generalizing start with
  | nil => rfl
  | cons c before ih =>
    obtain ⟨hc, hbefore⟩ := List.forall_mem_cons.1 h
    rw [List.cons_append, firstIllegal, if_pos hc, ih hbefore, List.length_cons]
    congr 1
    omega

/-- The first character that no label has is reported with its place. -/
theorem validate_of_illegal {before after : List Char} {c : Char}
    (hid : id.toList = before ++ c :: after) (hbefore : ∀ b ∈ before, Name.IsLabelChar b)
    (hc : ¬ Name.IsLabelChar c) : validate id = .error (.invalidIdentifier c before.length) := by
  have hillegal : firstIllegal 0 id.toList = some (c, before.length) := by
    rw [hid, firstIllegal_append (fun b hb => Name.isAllowed_iff.2 (hbefore b hb)), firstIllegal,
      if_neg (mt Name.isAllowed_iff.1 hc), Nat.zero_add]
  rw [validate, hillegal]

theorem validate_of_allowed (h : ∀ c ∈ id.toList, Name.IsLabelChar c) : validate id = .ok () :=
  validate_eq_ok_iff.2 fun c hc => Name.isAllowed_iff.2 (h c hc)

/-- Every character is one of a label, or there is a first one that is not. -/
theorem allowed_or_illegal (cs : List Char) :
    (∀ c ∈ cs, Name.IsLabelChar c) ∨ ∃ before c after, cs = before ++ c :: after ∧
      (∀ b ∈ before, Name.IsLabelChar b) ∧ ¬ Name.IsLabelChar c := by
  simp only [← Name.isAllowed_iff]
  cases h : cs.find? fun c => !isAllowed c with
  | none => exact .inl (by simpa using h)
  | some c =>
    obtain ⟨hc, before, after, hcs, hbefore⟩ := List.find?_eq_some_iff_append.1 h
    exact .inr ⟨before, c, after, hcs, by simpa using hbefore, by simpa using hc⟩

/-! ## UUIDs -/

theorem IsHexDigit.isAlphanumeric {c : Char} (h : IsHexDigit c) : Name.IsAlphanumeric c := by
  have hz : c ≤ 'f' → c ≤ 'z' := fun hf => Char.le_trans hf (by decide)
  grind [IsHexDigit, Name.IsAlphanumeric]

/-- UUIDs are labels. -/
theorem IsUuid.dnsLabel (h : IsUuid id) : Name.DnsLabel id := by
  have hlength : id.toList.length = 36 := h.length_eq
  have hdigit : ∀ i (hi : i < id.toList.length), i ∉ [8, 13, 18, 23] → id.toList[i] ≠ '-' :=
    fun i hi hplace => (Name.isAlphanumeric_iff.1
      (h.digits i _ hplace (List.getElem?_eq_getElem hi)).isAlphanumeric).2
  rw [Name.dnsLabel_iff, Name.isLabel_iff]
  refine ⟨List.ne_nil_of_length_pos (by omega), by omega, ?_, ?_, ?_⟩
  -- no hyphen has its place at either end
  · rw [List.head?_eq_getElem?, List.getElem?_eq_getElem (by omega)]
    simpa using hdigit 0 (by omega) (by decide)
  · rw [List.getLast?_eq_getElem?, hlength, List.getElem?_eq_getElem (by omega)]
    simpa using hdigit 35 (by omega) (by decide)
  · exact fun c hc => Name.isAllowed_iff.1 (h.isAllowed c hc)

end Identifier

namespace Name

/-! ## Names of identifiers -/

theorem build_collection (id : String) : build collection id = "subnets/" ++ id := rfl

theorem build_inj {id id' : String} (h : build collection id = build collection id') : id = id' := by
  simpa [build] using h

theorem segment_collection : Segment collection := by decide

/-- The name of a label passes. -/
theorem validate_build (h : DnsLabel id) : validate (build collection id) = .ok () := by
  refine validate_eq_ok_iff_path.2 ⟨[collection, id], List.cons_ne_nil _ _, ?_, rfl⟩
  have hid : Segment id := segment_iff.2 (dnsLabel_iff.1 h)
  simp [segment_collection, hid]

/-- The name of another identifier is refused for the identifier as a whole. -/
theorem validate_build_of_not_dnsLabel (hall : ∀ c ∈ id.toList, IsLabelChar c) (h : ¬ DnsLabel id) :
    validate (build collection id) = .error (.invalidName id) := by
  have hbad : ¬ Segment id := fun hid => h (dnsLabel_iff.2 (segment_iff.1 hid))
  have hslash := Identifier.slash_not_mem fun c hc => isAllowed_iff.2 (hall c hc)
  have hcut : Cut.Offends ⟨[collection], id, none⟩ := ⟨by simp [segment_collection], hslash, hbad⟩
  exact hcut.validate_whole

end Name
end SubnetRegistry
