import SubnetRegistry.Proofs.Locks.Coherent

/-!
# Mutual exclusion by name

In every state that the locks can reach, one ticket of a name holds the lock or is promised it, and
all tickets of the name refer to the slot that the table has for it.
-/
namespace SubnetRegistry.Locks

variable {ι : Type} {l : Locks ι} {name : String}

def ticketsOf (l : Locks ι) (name : String) (phase : Phase) : List (Ticket ι) :=
  l.tickets.filter fun t => t.name = name ∧ t.phase = phase

theorem mem_ticketsOf {phase : Phase} {t : Ticket ι} :
    t ∈ l.ticketsOf name phase ↔ t ∈ l.tickets ∧ t.name = name ∧ t.phase = phase := by
  simp [ticketsOf]

def entriesOf (l : Locks ι) (name : String) : List (String × Nat) :=
  l.table.filter fun e => e.1 = name

theorem mem_entriesOf {e : String × Nat} : e ∈ l.entriesOf name ↔ e ∈ l.table ∧ e.1 = name := by
  simp [entriesOf]

theorem length_le_one_of_nodup_map {α β : Type} {f : α → β} {xs : List α}
    (hn : (xs.map f).Nodup) (h : ∀ x ∈ xs, ∀ y ∈ xs, f x = f y) : xs.length ≤ 1 := by
  match xs with
  | [] | [_] => simp
  | x :: y :: _ => simp [h x (by simp) y (by simp)] at hn

/-- Tickets of one name that have left the queue are one and the same. -/
theorem Coherent.eq_of_taken (h : Coherent l) {t u : Ticket ι} {p q : Phase}
    (ht : t ∈ l.ticketsOf name p) (hu : u ∈ l.ticketsOf name q) (hp : p ≠ .queued)
    (hq : q ≠ .queued) : t = u := by
  obtain ⟨htm, htn, rfl⟩ := mem_ticketsOf.1 ht
  obtain ⟨hum, hun, rfl⟩ := mem_ticketsOf.1 hu
  exact h.inLine.eq_of_ne_queued htm hum ((h.slot_eq_iff htm hum).2 (htn.trans hun.symm)) hp hq

theorem Coherent.length_ticketsOf_le (h : Coherent l) {phase : Phase} (hp : phase ≠ .queued) :
    (l.ticketsOf name phase).length ≤ 1 := by
  refine length_le_one_of_nodup_map (h.owners.sublist (List.filter_sublist.map _)) ?_
  intro t ht u hu
  rw [h.eq_of_taken ht hu hp hp]

theorem Coherent.ticketsOf_promised_eq_nil (h : Coherent l)
    (hheld : l.ticketsOf name .holding ≠ []) : l.ticketsOf name .promised = [] := by
  obtain ⟨t, ht⟩ := List.exists_mem_of_ne_nil _ hheld
  refine List.eq_nil_iff_forall_not_mem.2 fun u hu => ?_
  have htu := h.eq_of_taken ht hu (by decide) (by decide)
  have hphase := (mem_ticketsOf.1 hu).2.2
  rw [← htu, (mem_ticketsOf.1 ht).2.2] at hphase
  cases hphase

theorem Coherent.length_entriesOf_le (h : Coherent l) : (l.entriesOf name).length ≤ 1 := by
  refine length_le_one_of_nodup_map (h.names.sublist (List.filter_sublist.map _)) ?_
  intro e he f hf
  rw [(mem_entriesOf.1 he).2, (mem_entriesOf.1 hf).2]

variable [DecidableEq ι]

/-- After any run, a name has at most one holder and at most one promise, and not both, and its
tickets all refer to the one slot that the table has for it. -/
theorem mutual_exclusion {steps : List (Step ι)} (h : (empty : Locks ι).Proper steps)
    (name : String) :
    let l := (empty : Locks ι).after steps
    (l.ticketsOf name .holding).length ≤ 1 ∧
      (l.ticketsOf name .holding ≠ [] → l.ticketsOf name .promised = []) ∧
      (l.ticketsOf name .promised).length ≤ 1 ∧
      (∀ t ∈ l.tickets, t.name = name → l.slot? name = some t.slot) ∧
      (l.entriesOf name).length ≤ 1 := by
  intro l
  have hl : Coherent l := coherent_empty.after h
  refine ⟨hl.length_ticketsOf_le (by decide), hl.ticketsOf_promised_eq_nil,
    hl.length_ticketsOf_le (by decide), ?_, hl.length_entriesOf_le⟩
  rintro t ht rfl
  exact hl.current t ht

/-- A lock that is handed on twice, past a ticket that is given up while the lock is promised to it,
with another asking for it in between. -/
def handedOn : List (Step Nat) :=
  [.lock 1 "a", .lock 2 "a", .lock 3 "a", .release 1, .lock 4 "a", .cancel 2, .poll 3, .lock 1 "b",
    .release 3]

theorem mutual_exclusion_handedOn :
    (empty : Locks Nat).Proper handedOn ∧
      let l := (empty : Locks Nat).after handedOn
      (l.ticketsOf "a" .holding).length ≤ 1 ∧
        (l.ticketsOf "a" .holding ≠ [] → l.ticketsOf "a" .promised = []) ∧
        (l.ticketsOf "a" .promised).length ≤ 1 ∧
        (∀ t ∈ l.tickets, t.name = "a" → l.slot? "a" = some t.slot) ∧
        (l.entriesOf "a").length ≤ 1 := by
  have h : (empty : Locks Nat).Proper handedOn :=
    ⟨rfl, rfl, rfl, trivial, rfl, trivial, trivial, rfl, trivial, trivial⟩
  exact ⟨h, mutual_exclusion h "a"⟩

end SubnetRegistry.Locks
