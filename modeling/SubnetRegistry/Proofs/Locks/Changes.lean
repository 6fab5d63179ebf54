import SubnetRegistry.Proofs.Locks.Coherent

/-!
# What a step changes

Everything that a step of the locks can do, and the line of the tickets of one name, whose first ticket
has left the queue and whose others have not.

## Main definitions

* `Locks.Change` — the steps with their answers, one by one.
* `Locks.line` — the tickets of a name.

## Main statements

* `Locks.change_step` — there are no other steps.
* `Coherent.line_eq_cons` — the first ticket in the line of a name holds the lock or is promised it.
-/
namespace SubnetRegistry.Locks

variable {ι : Type} {l : Locks ι} {name : String} {t : Ticket ι}

/-! ## The line of a name -/

/-- The tickets of a name, in the order in which they were given out. -/
def line (l : Locks ι) (name : String) : List (Ticket ι) := l.tickets.filter fun t => t.name = name

theorem mem_line : t ∈ l.line name ↔ t ∈ l.tickets ∧ t.name = name := by simp [line]

/-- The first ticket in line has left the queue, the others have not. -/
theorem Coherent.line_eq_cons (h : Coherent l) {rest : List (Ticket ι)}
    (hl : l.line name = t :: rest) : t.phase ≠ .queued ∧ ∀ u ∈ rest, u.phase = .queued := by
  have hin : ∀ u ∈ t :: rest, u ∈ l.tickets ∧ u.name = name := fun u hu => mem_line.1 (hl ▸ hu)
  obtain ⟨htm, htn⟩ := hin t (by simp)
  have hslot : ∀ u ∈ rest, t.slot = u.slot := fun u hu => by
    obtain ⟨hum, hun⟩ := hin u (by simp [hu])
    exact (h.slot_eq_iff htm hum).2 (htn.trans hun.symm)
  have hqueued : ∀ u ∈ rest, u.phase = .queued := by
    have hline : InLine (l.line name) := List.Pairwise.filter _ h.inLine
    rw [hl] at hline
    intro u hu
    exact (List.pairwise_cons.1 hline).1 u hu (hslot u hu)
  refine ⟨?_, hqueued⟩
  obtain ⟨u, hu, hs, hp⟩ := h.headed t htm
  have hul : u ∈ t :: rest := hl ▸ mem_line.2 ⟨hu, ((h.slot_eq_iff hu htm).1 hs).trans htn⟩
  rcases List.mem_cons.1 hul with rfl | hur
  · exact hp
  · exact absurd (hqueued u hur) hp

/-- A ticket that has left the queue is the first in line. -/
theorem Coherent.exists_line_eq_cons (h : Coherent l) (ht : t ∈ l.tickets)
    (hp : t.phase ≠ .queued) : ∃ rest, l.line t.name = t :: rest := by
  have htl : t ∈ l.line t.name := mem_line.2 ⟨ht, rfl⟩
  cases hl : l.line t.name with
  | nil => simp [hl] at htl
  | cons u rest =>
    rw [hl] at htl
    rcases List.mem_cons.1 htl with rfl | htr
    · exact ⟨rest, rfl⟩
    · exact absurd ((h.line_eq_cons hl).2 t htr) hp

variable [DecidableEq ι]

/-! ## Steps -/

/-- Steps that change nothing, with their answers. -/
inductive Idle (l : Locks ι) : Step ι → Reply → Prop
  | queued {owner : ι} {t : Ticket ι} (ht : l.ticket? owner = some t) (hp : t.phase = .queued) :
      Idle l (.poll owner) (.answer .waiting)
  | poll {owner : ι} (hn : ∀ t, l.ticket? owner = some t → t.phase = .holding) :
      Idle l (.poll owner) (.answer .notWaiting)
  | release {owner : ι} (hn : ∀ t, l.ticket? owner = some t → t.phase ≠ .holding) :
      Idle l (.release owner) (.done false)
  | cancel {owner : ι} (hn : ∀ t, l.ticket? owner = some t → t.phase = .holding) :
      Idle l (.cancel owner) (.done false)
  | active : Idle l .active .none

/-- What a step does, and what it answers. -/
inductive Change (l : Locks ι) : Step ι → Reply → Locks ι → Prop
  | join {owner : ι} {name : String} (hnew : l.ticket? owner = none)
      (htaken : isTaken l.tickets (l.slotFor name) = true) :
      Change l (.lock owner name) (.answer .waiting)
        { l.opened name with tickets := l.tickets ++ [⟨owner, name, l.slotFor name, .queued⟩] }
  | enter {owner : ι} {name : String} (hnew : l.ticket? owner = none)
      (hfree : isTaken l.tickets (l.slotFor name) ≠ true) :
      Change l (.lock owner name) (.answer (.acquired name))
        { l.opened name with tickets := l.tickets ++ [⟨owner, name, l.slotFor name, .holding⟩] }
  | take {owner : ι} {t : Ticket ι} (ht : l.ticket? owner = some t) (hp : t.phase = .promised) :
      Change l (.poll owner) (.answer (.acquired t.name))
        { l with tickets := setPhase owner .holding l.tickets }
  | giveBack {owner : ι} {t : Ticket ι} (ht : l.ticket? owner = some t) (hp : t.phase = .holding) :
      Change l (.release owner) (.done true)
        ({ l with tickets := promiseNext t.slot (withdraw owner l.tickets) }.dropIdle t.name)
  | leave {owner : ι} {t : Ticket ι} (ht : l.ticket? owner = some t) (hp : t.phase = .queued) :
      Change l (.cancel owner) (.done true) { l with tickets := withdraw owner l.tickets }
  | decline {owner : ι} {t : Ticket ι} (ht : l.ticket? owner = some t) (hp : t.phase = .promised) :
      Change l (.cancel owner) (.done true)
        { l with tickets := promiseNext t.slot (withdraw owner l.tickets) }
  | idle {s : Step ι} {r : Reply} (h : Idle l s r) : Change l s r l

/-- There are no other steps. -/
theorem change_step {s : Step ι} (hs : l.Allowed s) : Change l s (l.step s).1 (l.step s).2 := by
  cases s with
  | lock owner name =>
    simp only [step, lock_eq, phaseFor]
    by_cases htaken : isTaken l.tickets (l.slotFor name) = true
    · simp only [htaken, if_true]
      exact .join hs htaken
    · simp only [htaken, Bool.false_eq_true, if_false]
      exact .enter hs htaken
  | poll owner =>
    simp only [step, poll]
    split
    · next t ht =>
      split
      · next hp => exact .idle (.queued ht hp)
      · next hp => exact .take ht hp
      · next hp => exact .idle (.poll (by simp [ht, hp]))
    · next hn => exact .idle (.poll (by simp [hn]))
  | release owner =>
    simp only [step, release]
    split
    · next t ht =>
      split
      · next hp => exact .giveBack ht hp
      · next hp => exact .idle (.release (by simp [ht, hp]))
    · next hn => exact .idle (.release (by simp [hn]))
  | cancel owner =>
    simp only [step, cancel]
    split
    · next t ht =>
      split
      · next hp => exact .leave ht hp
      · next hp => exact .decline ht hp
      · next hp => exact .idle (.cancel (by simp [ht, hp]))
    · next hn => exact .idle (.cancel (by simp [hn]))
  | active => exact .idle .active

end SubnetRegistry.Locks
