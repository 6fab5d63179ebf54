import SubnetRegistry.Proofs.Locks.Coherent

/-!
# Where an owner stands

What an owner can tell of its own ticket: the name it is for, and whether it holds the lock. What
another owner does never changes that; a promise is only seen by looking.

## Main definitions

* `Locks.standing?` — the name that an owner has a ticket for, and whether it holds the lock.

## Main statements

* `standing?_lock_of_ne`, `standing?_poll_of_ne`, `standing?_release_of_ne`, `standing?_cancel_of_ne` —
  the operations of others.
* `Coherent.eq_of_holding` — a name has one holder.
-/
namespace SubnetRegistry.Locks

variable {ι : Type} [DecidableEq ι] {l : Locks ι} {tickets : List (Ticket ι)} {owner other : ι}
  {name : String}

def standingOf (t : Ticket ι) : String × Bool := (t.name, t.phase = .holding)

def standingIn (tickets : List (Ticket ι)) (owner : ι) : Option (String × Bool) :=
  (tickets.find? fun t => t.owner = owner).map standingOf

/-- The name that an owner has a ticket for, and whether it holds the lock. -/
def standing? (l : Locks ι) (owner : ι) : Option (String × Bool) := standingIn l.tickets owner

theorem standing?_eq_none_iff : l.standing? owner = none ↔ l.ticket? owner = none := by
  simp [standing?, standingIn, ticket?]

theorem standing?_eq_some_iff {b : Bool} : l.standing? owner = some (name, b) ↔
    ∃ t, l.ticket? owner = some t ∧ t.name = name ∧ decide (t.phase = .holding) = b := by
  simp [standing?, standingIn, standingOf, ticket?]

/-! ## Among tickets -/

theorem standingIn_append_of_ne {t : Ticket ι} (h : t.owner ≠ other) :
    standingIn (tickets ++ [t]) other = standingIn tickets other := by
  simp [standingIn, List.find?_append, h]

theorem standingIn_append_self (h : standingIn tickets owner = none) (slot : Nat) (phase : Phase) :
    standingIn (tickets ++ [⟨owner, name, slot, phase⟩]) owner =
      some (name, decide (phase = .holding)) := by
  have hnone : (tickets.find? fun u => u.owner = owner) = none := by simpa [standingIn] using h
  rw [standingIn, List.find?_append, hnone]
  simp [standingOf]

theorem standingIn_withdraw_self : standingIn (withdraw owner tickets) owner = none := by
  simp [standingIn, withdraw]

theorem standingIn_withdraw_of_ne (h : other ≠ owner) :
    standingIn (withdraw owner tickets) other = standingIn tickets other := by
  induction tickets with
  | nil => rfl
  | cons t rest ih =>
    simp only [standingIn, withdraw] at ih ⊢
    by_cases ht : t.owner = owner
    · have hne : t.owner ≠ other := fun h' => h (h'.symm.trans ht)
      simpa [ht, Ne.symm h] using ih
    · by_cases ho : t.owner = other
      · simp [ho, h]
      · simpa [ht, ho] using ih

theorem standingIn_setPhase_of_ne (phase : Phase) (h : other ≠ owner) :
    standingIn (setPhase owner phase tickets) other = standingIn tickets other := by
  induction tickets with
  | nil => rfl
  | cons t rest ih =>
    simp only [standingIn, setPhase] at ih ⊢
    by_cases ht : t.owner = owner
    · simpa [ht, Ne.symm h] using ih
    · by_cases ho : t.owner = other
      · simp [ho, h]
      · simpa [ht, ho] using ih

theorem standingIn_setPhase_self {t : Ticket ι}
    (h : (tickets.find? fun t => t.owner = owner) = some t) :
    standingIn (setPhase owner .holding tickets) owner = some (t.name, true) := by
  induction tickets with
  | nil => simp at h
  | cons u rest ih =>
    by_cases hu : u.owner = owner
    · have hut : u = t := by simpa [List.find?_cons, hu] using h
      subst hut
      simp [standingIn, setPhase, hu, standingOf]
    · have hrest : (rest.find? fun t => t.owner = owner) = some t := by
        simpa [List.find?_cons, hu] using h
      simpa [standingIn, setPhase, hu] using ih hrest

/-- A promise is not seen. -/
theorem standingIn_promiseNext (slot : Nat) :
    standingIn (promiseNext slot tickets) other = standingIn tickets other := by
  induction tickets with
  | nil => rfl
  | cons t rest ih =>
    simp only [standingIn] at ih ⊢
    by_cases hq : t.slot = slot ∧ t.phase = .queued
    · rw [promiseNext, if_pos hq]
      by_cases ho : t.owner = other
      · simp [ho, standingOf, hq.2]
      · simp [ho]
    · rw [promiseNext, if_neg hq]
      by_cases ho : t.owner = other
      · simp [ho]
      · simpa [ho] using ih

/-! ## Asking for a lock -/

theorem standing?_lock_of_ne (h : other ≠ owner) :
    (l.lock owner name).2.standing? other = l.standing? other := by
  rw [lock_eq]
  exact standingIn_append_of_ne (Ne.symm h)

/-- Who asks for a lock holds it or waits for it, as the answer says. -/
theorem standing?_lock_self (name : String) (h : l.standing? owner = none) :
    ((l.lock owner name).1 = .acquired name ∧
        (l.lock owner name).2.standing? owner = some (name, true)) ∨
      ((l.lock owner name).1 = .waiting ∧
        (l.lock owner name).2.standing? owner = some (name, false)) := by
  rw [lock_eq]
  by_cases hfree : isTaken l.tickets (l.slotFor name) = true
  · refine .inr ⟨if_pos hfree, ?_⟩
    exact (standingIn_append_self h _ _).trans (by simp [phaseFor, hfree])
  · refine .inl ⟨if_neg hfree, ?_⟩
    exact (standingIn_append_self h _ _).trans (by simp [phaseFor, hfree])

/-! ## Looking again -/

theorem standing?_poll_of_ne (h : other ≠ owner) :
    (l.poll owner).2.standing? other = l.standing? other := by
  unfold poll
  split
  · split
    · rfl
    · exact standingIn_setPhase_of_ne _ h
    · rfl
  · rfl

/-- Who looks and is told so holds the lock that it waited for. -/
theorem standing?_poll_self {asked : String} (h : l.standing? owner = some (name, false))
    (ha : (l.poll owner).1 = .acquired asked) :
    (l.poll owner).2.standing? owner = some (name, true) := by
  obtain ⟨t, ht, rfl, hp⟩ := standing?_eq_some_iff.1 h
  simp only [poll, ht] at ha ⊢
  cases hphase : t.phase with
  | queued => simp [hphase] at ha
  | promised => exact standingIn_setPhase_self ht
  | holding => simp [hphase] at ha

/-! ## Giving back and giving up -/

@[simp] theorem standing?_dropIdle : (l.dropIdle name).standing? other = l.standing? other := by
  rw [standing?, tickets_dropIdle, standing?]

theorem standing?_release_of_ne (h : other ≠ owner) :
    (l.release owner).2.standing? other = l.standing? other := by
  unfold release
  split
  · split
    · rw [standing?_dropIdle]
      exact (standingIn_promiseNext _).trans (standingIn_withdraw_of_ne h)
    · rfl
  · rfl

theorem standing?_release_self (h : l.standing? owner = some (name, true)) :
    (l.release owner).2.standing? owner = none := by
  obtain ⟨t, ht, -, hp⟩ := standing?_eq_some_iff.1 h
  simp only [release, ht, of_decide_eq_true hp, if_true, standing?_dropIdle]
  exact (standingIn_promiseNext _).trans standingIn_withdraw_self

theorem standing?_cancel_of_ne (h : other ≠ owner) :
    (l.cancel owner).2.standing? other = l.standing? other := by
  unfold cancel
  split
  · split
    · exact standingIn_withdraw_of_ne h
    · exact (standingIn_promiseNext _).trans (standingIn_withdraw_of_ne h)
    · rfl
  · rfl

theorem standing?_cancel_self (h : l.standing? owner = some (name, false)) :
    (l.cancel owner).2.standing? owner = none := by
  obtain ⟨t, ht, -, hp⟩ := standing?_eq_some_iff.1 h
  simp only [cancel, ht]
  cases hphase : t.phase with
  | queued => exact standingIn_withdraw_self
  | promised => exact (standingIn_promiseNext _).trans standingIn_withdraw_self
  | holding => simp [hphase] at hp

/-! ## One holder -/

/-- A name has one holder. -/
theorem Coherent.eq_of_holding (h : Coherent l) (ho : l.standing? owner = some (name, true))
    (ho' : l.standing? other = some (name, true)) : owner = other := by
  obtain ⟨t, ht, htn, htp⟩ := standing?_eq_some_iff.1 ho
  obtain ⟨u, hu, hun, hup⟩ := standing?_eq_some_iff.1 ho'
  obtain ⟨htm, rfl⟩ := h.ticket?_eq_some_iff.1 ht
  obtain ⟨hum, rfl⟩ := h.ticket?_eq_some_iff.1 hu
  have hs := (h.slot_eq_iff htm hum).2 (htn.trans hun.symm)
  rw [h.inLine.eq_of_ne_queued htm hum hs (by simp [of_decide_eq_true htp])
    (by simp [of_decide_eq_true hup])]

end SubnetRegistry.Locks
