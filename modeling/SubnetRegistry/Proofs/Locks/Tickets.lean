import SubnetRegistry.Locks

/-!
# Tickets in line

The tickets of one slot form a line. The first of them is promised the lock or holds it, the others
are queued. Here it is shown that each change of the tickets keeps it so.

## Main definitions

* `InLine` — of two tickets for one slot, the later one is queued.
* `Headed` — a slot with a ticket has one that is promised the lock or holds it.

## Main statements

* `InLine.promiseNext`, `Headed.handOver` — what withdrawing the first ticket of a slot and promising
  the lock to the next one does.
-/
namespace SubnetRegistry.Locks

variable {ι : Type} {tickets : List (Ticket ι)} {t u : Ticket ι} {slot : Nat}

/-- Of two tickets for one slot, the later one is queued. -/
def InLine (tickets : List (Ticket ι)) : Prop :=
  tickets.Pairwise fun t u => t.slot = u.slot → u.phase = .queued

/-- A slot with a ticket has one that is promised the lock or holds it. -/
def Headed (tickets : List (Ticket ι)) : Prop :=
  ∀ t ∈ tickets, ∃ u ∈ tickets, u.slot = t.slot ∧ u.phase ≠ .queued

theorem isTaken_iff :
    isTaken tickets slot = true ↔ ∃ t ∈ tickets, t.slot = slot ∧ t.phase ≠ .queued := by
  simp [isTaken]

/-- At most one ticket of a slot has left the queue. -/
theorem InLine.eq_of_ne_queued (h : InLine tickets) (ht : t ∈ tickets) (hu : u ∈ tickets)
    (hs : t.slot = u.slot) (hpt : t.phase ≠ .queued) (hpu : u.phase ≠ .queued) : t = u := by
  induction tickets with
  | nil => simp at ht
  | cons v rest ih =>
    obtain ⟨hv, hrest⟩ := List.pairwise_cons.1 h
    rcases List.mem_cons.1 ht with ht | ht <;> rcases List.mem_cons.1 hu with hu | hu
    · rw [ht, hu]
    · exact absurd (hv u hu (ht ▸ hs)) hpu
    · exact absurd (hv t ht (hu ▸ hs.symm)) hpt
    · exact ih hrest ht hu

theorem InLine.append_queued (h : InLine tickets) (hu : u.phase = .queued) :
    InLine (tickets ++ [u]) := by
  refine List.pairwise_append.2 ⟨h, List.pairwise_singleton _ _, ?_⟩
  intro t _ v hv _
  rw [List.mem_singleton.1 hv, hu]

theorem InLine.append_first (h : InLine tickets) (hu : ∀ t ∈ tickets, t.slot ≠ u.slot) :
    InLine (tickets ++ [u]) := by
  refine List.pairwise_append.2 ⟨h, List.pairwise_singleton _ _, ?_⟩
  intro t ht v hv hs
  exact absurd (List.mem_singleton.1 hv ▸ hs) (hu t ht)

/-! ## Promising the lock to the next in the queue -/

/-- What a ticket is after the next one of a slot was promised the lock. -/
theorem mem_promiseNext (h : u ∈ promiseNext slot tickets) :
    u ∈ tickets ∨ ∃ t ∈ tickets, t.slot = slot ∧ t.phase = .queued ∧
      u = { t with phase := .promised } := by
  induction tickets with
  | nil => simp [promiseNext] at h
  | cons v rest ih =>
    by_cases hv : v.slot = slot ∧ v.phase = .queued
    · rw [promiseNext, if_pos hv] at h
      rcases List.mem_cons.1 h with rfl | h
      · exact .inr ⟨v, by simp, hv.1, hv.2, rfl⟩
      · exact .inl (List.mem_cons_of_mem _ h)
    · rw [promiseNext, if_neg hv] at h
      rcases List.mem_cons.1 h with rfl | h
      · exact .inl (by simp)
      · rcases ih h with h | ⟨t, ht, h⟩
        · exact .inl (List.mem_cons_of_mem _ h)
        · exact .inr ⟨t, List.mem_cons_of_mem _ ht, h⟩

/-- A ticket stays, or it is the one that is promised the lock. -/
theorem mem_promiseNext_of_mem (h : t ∈ tickets) :
    t ∈ promiseNext slot tickets ∨
      (t.slot = slot ∧ t.phase = .queued ∧
        { t with phase := .promised } ∈ promiseNext slot tickets) := by
  induction tickets with
  | nil => simp at h
  | cons v rest ih =>
    by_cases hv : v.slot = slot ∧ v.phase = .queued
    · rw [promiseNext, if_pos hv]
      rcases List.mem_cons.1 h with rfl | h
      · exact .inr ⟨hv.1, hv.2, by simp⟩
      · exact .inl (List.mem_cons_of_mem _ h)
    · rw [promiseNext, if_neg hv]
      rcases List.mem_cons.1 h with rfl | h
      · exact .inl (by simp)
      · rcases ih h with h | ⟨hs, hp, h⟩
        · exact .inl (List.mem_cons_of_mem _ h)
        · exact .inr ⟨hs, hp, List.mem_cons_of_mem _ h⟩

/-- A promise changes nothing but a phase. -/
theorem map_promiseNext {β : Type} {f : Ticket ι → β}
    (hf : ∀ (t : Ticket ι) (phase : Phase), f { t with phase } = f t) :
    (promiseNext slot tickets).map f = tickets.map f := by
  induction tickets with
  | nil => rfl
  | cons v rest ih =>
    by_cases hv : v.slot = slot ∧ v.phase = .queued
    · rw [promiseNext, if_pos hv, List.map_cons, List.map_cons, hf]
    · rw [promiseNext, if_neg hv, List.map_cons, List.map_cons, ih]

theorem InLine.promiseNext (h : InLine tickets)
    (hq : ∀ t ∈ tickets, t.slot = slot → t.phase = .queued) :
    InLine (promiseNext slot tickets) := by
  induction tickets with
  | nil => exact h
  | cons v rest ih =>
    obtain ⟨hv, hrest⟩ := List.pairwise_cons.1 h
    by_cases hs : v.slot = slot
    · rw [Locks.promiseNext, if_pos ⟨hs, hq v (by simp) hs⟩]
      exact List.pairwise_cons.2 ⟨hv, hrest⟩
    · rw [Locks.promiseNext, if_neg fun h => hs h.1]
      refine List.pairwise_cons.2 ⟨?_, ih hrest fun t ht => hq t (List.mem_cons_of_mem _ ht)⟩
      intro u hu hvu
      rcases mem_promiseNext hu with hu | ⟨t, _, ht, _, rfl⟩
      · exact hv u hu hvu
      · exact absurd (hvu.trans ht) hs

/-- If all tickets of a slot are queued, one of them is promised the lock. -/
theorem exists_promised (h : t ∈ tickets) (hs : t.slot = slot) (hp : t.phase = .queued) :
    ∃ u ∈ promiseNext slot tickets, u.slot = slot ∧ u.phase = .promised := by
  induction tickets with
  | nil => simp at h
  | cons v rest ih =>
    by_cases hv : v.slot = slot ∧ v.phase = .queued
    · rw [promiseNext, if_pos hv]
      exact ⟨_, List.mem_cons_self, hv.1, rfl⟩
    · rw [promiseNext, if_neg hv]
      have hrest : t ∈ rest := by
        rcases List.mem_cons.1 h with rfl | h
        · exact absurd ⟨hs, hp⟩ hv
        · exact h
      obtain ⟨u, hu, h⟩ := ih hrest
      exact ⟨u, List.mem_cons_of_mem _ hu, h⟩

section

variable [DecidableEq ι] {owner : ι}

/-! ## Changing a phase -/

theorem mem_setPhase {phase : Phase} : u ∈ setPhase owner phase tickets ↔
    ∃ t ∈ tickets, (if t.owner = owner then { t with phase } else t) = u := by
  simp [setPhase]

theorem map_setPhase {β : Type} {f : Ticket ι → β}
    (hf : ∀ (t : Ticket ι) (phase : Phase), f { t with phase } = f t) (phase : Phase) :
    (setPhase owner phase tickets).map f = tickets.map f := by
  rw [setPhase, List.map_map]
  refine List.map_congr_left fun t _ => ?_
  rw [Function.comp]
  split
  · exact hf t phase
  · rfl

/-- The phase of a ticket that has left the queue can change while it stays out of the queue. -/
theorem InLine.setPhase (h : InLine tickets) (phase : Phase)
    (ho : ∀ t ∈ tickets, t.owner = owner → t.phase ≠ .queued) :
    InLine (setPhase owner phase tickets) := by
  refine List.pairwise_map.2 (h.imp_of_mem ?_)
  intro t u _ hu hq hs
  have hsame : t.slot = u.slot := by
    by_cases ht : t.owner = owner <;> by_cases hu' : u.owner = owner <;> simpa [ht, hu'] using hs
  have hne : u.owner ≠ owner := fun hou => ho u hu hou (hq hsame)
  simpa [hne] using hq hsame

theorem Headed.setPhase (h : Headed tickets) {phase : Phase} (hp : phase ≠ .queued) :
    Headed (setPhase owner phase tickets) := by
  intro t' ht'
  obtain ⟨t, ht, rfl⟩ := mem_setPhase.1 ht'
  obtain ⟨u, hu, hs, hne⟩ := h t ht
  refine ⟨_, mem_setPhase.2 ⟨u, hu, rfl⟩, ?_, ?_⟩
  · by_cases h₁ : u.owner = owner <;> by_cases h₂ : t.owner = owner <;> simpa [h₁, h₂] using hs
  · by_cases h₁ : u.owner = owner
    · simpa [h₁] using hp
    · simpa [h₁] using hne

/-! ## Withdrawing a ticket -/

@[simp] theorem mem_withdraw : t ∈ withdraw owner tickets ↔ t ∈ tickets ∧ t.owner ≠ owner := by
  simp [withdraw]

theorem InLine.withdraw (h : InLine tickets) : InLine (withdraw owner tickets) :=
  List.Pairwise.filter _ h

/-- A queued ticket can go without any other taking its place. -/
theorem Headed.withdraw (h : Headed tickets)
    (ho : ∀ t ∈ tickets, t.owner = owner → t.phase = .queued) : Headed (withdraw owner tickets) := by
  intro t ht
  obtain ⟨u, hu, hs, hne⟩ := h t (mem_withdraw.1 ht).1
  exact ⟨u, mem_withdraw.2 ⟨hu, fun hou => hne (ho u hu hou)⟩, hs, hne⟩

/-! ## Handing the lock over -/

/-- When the first ticket of a slot goes, the lock is handed over to the next one. -/
theorem Headed.handOver (h : Headed tickets)
    (hq : ∀ t ∈ Locks.withdraw owner tickets, t.slot = slot → t.phase = .queued)
    (ho : ∀ t ∈ tickets, t.owner = owner → t.slot = slot) :
    Headed (Locks.promiseNext slot (Locks.withdraw owner tickets)) := by
  intro t' ht'
  obtain ⟨t, ht, hslot⟩ : ∃ t ∈ Locks.withdraw owner tickets, t.slot = t'.slot := by
    rcases mem_promiseNext ht' with ht | ⟨t, ht, _, _, rfl⟩
    · exact ⟨t', ht, rfl⟩
    · exact ⟨t, ht, rfl⟩
  by_cases hs : t.slot = slot
  · obtain ⟨u, hu, hus, hup⟩ := exists_promised ht hs (hq t ht hs)
    exact ⟨u, hu, hus.trans (hs.symm.trans hslot), by simp [hup]⟩
  · obtain ⟨u, hu, hus, hne⟩ := h t (mem_withdraw.1 ht).1
    have hstay : u ∈ Locks.withdraw owner tickets :=
      mem_withdraw.2 ⟨hu, fun hou => hs (hus ▸ ho u hu hou)⟩
    refine ⟨u, ?_, hus.trans hslot, hne⟩
    rcases mem_promiseNext_of_mem hstay with hu | ⟨_, hp, _⟩
    · exact hu
    · exact absurd hp hne

end

end SubnetRegistry.Locks
