import SubnetRegistry.Request

/-!
# Errors are told by their wording

Every wording has an opening that belongs to one kind of error, or to one facility, and no opening is the
beginning of another. What stands after the opening is free text or a character and a number, so the
wording of an error is not that of another. Of all errors two share one: the wording of a refused path is
the path, and a client can send the wording of the wildcard as a path.

## Main definitions

* `PrefixFree` — no opening is the beginning of another.
* `SubnetError.Twins` — the two errors with one wording.

## Main statements

* `SubnetError.message_eq_iff`, `InfrastructureError.message_eq_iff` — what errors with one wording are.
* `SubnetError.told_by_reply` — what replies tell of errors.
-/
namespace SubnetRegistry

/-! ## Openings -/

/-- No opening is the beginning of another. -/
def PrefixFree {ι : Type} (opening : ι → String) : Prop :=
  ∀ i j, (opening i).toList <+: (opening j).toList → i = j

/-- A text with an opening tells the opening and what comes after it. -/
theorem PrefixFree.append_eq_iff {ι : Type} {opening : ι → String} (h : PrefixFree opening) {i j : ι}
    {s t : String} : opening i ++ s = opening j ++ t ↔ i = j ∧ s = t := by
  constructor
  · intro heq
    have hlists : (opening i).toList ++ s.toList = (opening j).toList ++ t.toList := by
      rw [← String.toList_append, heq, String.toList_append]
    obtain rfl : i = j := by
      rcases List.prefix_or_prefix_of_prefix (List.prefix_append _ s.toList)
        (hlists ▸ List.prefix_append _ t.toList) with hij | hji
      · exact h i j hij
      · exact (h j i hji).symm
    exact ⟨rfl, String.toList_inj.1 (List.append_cancel_left hlists)⟩
  · rintro ⟨rfl, rfl⟩
    rfl

/-! ## Failures around the service -/

theorem Facility.prefixFree_heading : PrefixFree Facility.heading := by
  intro i j
  cases i <;> cases j <;> decide

theorem InfrastructureError.message_eq_iff {e e' : InfrastructureError} :
    e.message = e'.message ↔ e = e' := by
  rw [message, message, Facility.prefixFree_heading.append_eq_iff, InfrastructureError.mk.injEq]

/-! ## Failed requests -/

def ErrorKind.opening : ErrorKind → String
  | .invalidIdentifier =>
    "user-settable ID must only contain lowercase, numbers and hyphens (got: '"
  | .invalidName => "segment '"
  | .invalidFieldMask => "invalid field path: "
  | .notFound => "unable to find key "
  | .storage => "storage error: "

theorem ErrorKind.prefixFree_opening : PrefixFree ErrorKind.opening := by
  intro i j
  cases i <;> cases j <;> decide

namespace SubnetError

def remainder : SubnetError → String
  | .invalidIdentifier character position =>
    String.singleton character ++ ("' in position " ++ Decimal.natText position ++ ")")
  | .invalidName segment => segment ++ "': not a valid DNS name"
  | .invalidFieldMask reason => reason.message
  | .notFound name => name
  | .storage detail => detail

theorem message_eq (e : SubnetError) : e.message = e.kind.opening ++ e.remainder := by
  cases e with
  | invalidIdentifier character position =>
    have hassoc (a b c d e : String) : a ++ b ++ c ++ d ++ e = a ++ (b ++ (c ++ d ++ e)) := by
      simp only [String.append_assoc]
    exact hassoc _ _ _ _ _
  | invalidName segment => exact String.append_assoc
  | invalidFieldMask reason => rfl
  | notFound name => rfl
  | storage detail => rfl

/-- The refusal of the wildcard with other paths, and that of the path that reads like it. -/
def Twins (e e' : SubnetError) : Prop :=
  e = .invalidFieldMask .wildcardWithOtherPaths ∧
    e' = .invalidFieldMask (.unknownPath "'*' must not be used with other paths")

variable {e e' : SubnetError}

theorem Twins.message_eq (h : Twins e e') : e.message = e'.message := by
  rw [h.1, h.2]
  rfl

/-- A character and a number in decimal are told by the text they stand in. -/
theorem identifier_text_eq_iff {c c' : Char} {n n' : Nat} :
    String.singleton c ++ ("' in position " ++ Decimal.natText n ++ ")") =
      String.singleton c' ++ ("' in position " ++ Decimal.natText n' ++ ")") ↔ c = c' ∧ n = n' := by
  rw [← String.toList_inj]
  simp only [String.toList_append, String.toList_singleton, Decimal.natText, String.toList_ofList,
    List.singleton_append, List.cons.injEq, List.append_cancel_left_eq, List.append_cancel_right_eq,
    Decimal.ofNat_inj]

theorem fieldMask_message_eq_iff {r r' : FieldMaskError} :
    r.message = r'.message ↔ r = r' ∨ Twins (.invalidFieldMask r) (.invalidFieldMask r') ∨
      Twins (.invalidFieldMask r') (.invalidFieldMask r) := by
  cases r <;> cases r' <;> simp [Twins, FieldMaskError.message, eq_comm]

/-- Errors of one kind with one remainder are equal or the twins. -/
theorem eq_or_twins (hkind : e.kind = e'.kind) (h : e.remainder = e'.remainder) :
    e = e' ∨ Twins e e' ∨ Twins e' e := by
  cases e <;> cases e' <;> cases hkind
  case invalidIdentifier.invalidIdentifier.refl =>
    obtain ⟨rfl, rfl⟩ := identifier_text_eq_iff.1 h
    exact .inl rfl
  case invalidName.invalidName.refl =>
    exact .inl (congrArg invalidName (String.append_left_inj _ |>.1 h))
  case invalidFieldMask.invalidFieldMask.refl =>
    exact (fieldMask_message_eq_iff.1 h).imp_left (congrArg invalidFieldMask)
  case notFound.notFound.refl => exact .inl (congrArg notFound h)
  case storage.storage.refl => exact .inl (congrArg storage h)

theorem message_eq_iff : e.message = e'.message ↔ e = e' ∨ Twins e e' ∨ Twins e' e := by
  constructor
  · intro h
    rw [SubnetError.message_eq, SubnetError.message_eq,
      ErrorKind.prefixFree_opening.append_eq_iff] at h
    exact eq_or_twins h.1 h.2
  · rintro (rfl | htwins | htwins)
    · rfl
    · exact htwins.message_eq
    · exact htwins.message_eq.symm

theorem kind_eq_of_message_eq (h : e.message = e'.message) : e.kind = e'.kind := by
  rw [SubnetError.message_eq, SubnetError.message_eq, ErrorKind.prefixFree_opening.append_eq_iff] at h
  exact h.1

/-- Errors with one wording are equal, but for the twins, and so the wording tells the kind. A failure
around the service is told by the wording that the service gives it. Replies to failed requests are equal
only if the errors are or are the twins. -/
theorem told_by_reply :
    (∀ e e' : SubnetError, e.message = e'.message ↔ e = e' ∨ Twins e e' ∨ Twins e' e) ∧
    (∀ e e' : SubnetError, e.message = e'.message → e.kind = e'.kind) ∧
    (∀ i i' : InfrastructureError, i.toSubnetError.message = i'.toSubnetError.message ↔ i = i') ∧
    ∀ e e' : SubnetError, Response.ofResult (.error e) = Response.ofResult (.error e') ↔
      e = e' ∨ Twins e e' ∨ Twins e' e := by
  refine ⟨fun e e' => message_eq_iff, fun e e' => kind_eq_of_message_eq, fun i i' => ?_, fun e e' => ?_⟩
  · rw [InfrastructureError.toSubnetError, InfrastructureError.toSubnetError, SubnetError.message_eq,
      SubnetError.message_eq, ErrorKind.prefixFree_opening.append_eq_iff]
    exact (and_iff_right rfl).trans InfrastructureError.message_eq_iff
  · rw [Response.ofResult, Response.ofResult, Response.error.injEq, ← message_eq_iff]
    exact and_iff_right_of_imp kind_eq_of_message_eq

/-- The twins are two errors with one wording, one kind and one reply. -/
theorem told_by_reply_wildcard :
    let e := invalidFieldMask .wildcardWithOtherPaths
    let e' := invalidFieldMask (.unknownPath "'*' must not be used with other paths")
    e ≠ e' ∧ e.message = e'.message ∧ e.kind = e'.kind ∧
      Response.ofResult (.error e) = Response.ofResult (.error e') := by
  have hmessage : (invalidFieldMask .wildcardWithOtherPaths).message =
      (invalidFieldMask (.unknownPath "'*' must not be used with other paths")).message := rfl
  exact ⟨by decide, hmessage, told_by_reply.2.1 _ _ hmessage,
    (told_by_reply.2.2.2 _ _).2 (.inr (.inl ⟨rfl, rfl⟩))⟩

end SubnetError
end SubnetRegistry
