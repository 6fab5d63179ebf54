import Mathlib.Data.List.Nodup
import Mathlib.Tactic.ByContra
import SubnetRegistry.Proofs.Locks.Tickets

/-!
# Coherent locks

The invariant of the locks ties the table and the tickets together: a name has one slot, which all its
tickets refer to, and the tickets of a slot are in line behind one that is promised the lock or holds
it. Every operation keeps it, as long as nobody asks for a lock who has a ticket already.

## Main definitions

* `Coherent` — the invariant.
* `Locks.Allowed`, `Locks.Proper` — steps and runs in which each owner has one ticket at a time.
* `Locks.after` — the locks after a run.

## Main statements

* `Coherent.step`, `Coherent.after` — steps and runs keep the invariant.
-/
namespace SubnetRegistry.Locks

variable {ι : Type} {l : Locks ι} {t u : Ticket ι} {owner : ι} {name : String}

/-- One slot for each name, one name for each slot, one ticket for each owner, and the tickets of a
slot in line. -/
structure Coherent (l : Locks ι) : Prop where
  names : (l.table.map Prod.fst).Nodup
  apart : ∀ {a b : String} {slot : Nat}, l.slot? a = some slot → l.slot? b = some slot → a = b
  fresh : ∀ {a : String} {slot : Nat}, l.slot? a = some slot → slot < l.nextSlot
  owners : (l.tickets.map Ticket.owner).Nodup
  current : ∀ t ∈ l.tickets, l.slot? t.name = some t.slot
  inLine : InLine l.tickets
  headed : Headed l.tickets

theorem coherent_empty : Coherent (empty : Locks ι) where
  names := List.nodup_nil
  apart h := by simp [empty, slot?] at h
  fresh h := by simp [empty, slot?] at h
  owners := List.nodup_nil
  current t ht := by simp [empty] at ht
  inLine := List.Pairwise.nil
  headed t ht := by simp [empty] at ht

namespace Coherent

theorem eq_of_owner (h : Coherent l) (ht : t ∈ l.tickets) (hu : u ∈ l.tickets)
    (ho : t.owner = u.owner) : t = u :=
  List.inj_on_of_nodup_map h.owners ht hu ho

theorem slot_eq_iff (h : Coherent l) (ht : t ∈ l.tickets) (hu : u ∈ l.tickets) :
    t.slot = u.slot ↔ t.name = u.name := by
  constructor
  · intro hs
    exact h.apart (h.current t ht) (hs ▸ h.current u hu)
  · intro hn
    have hu' := h.current u hu
    rw [← hn, h.current t ht] at hu'
    exact Option.some.inj hu'

/-- Other tickets under the same table, each of which stands for one that was there. -/
theorem withTickets (h : Coherent l) {tickets : List (Ticket ι)}
    (howners : (tickets.map Ticket.owner).Nodup)
    (hfrom : ∀ t ∈ tickets, ∃ u ∈ l.tickets, u.name = t.name ∧ u.slot = t.slot)
    (hline : InLine tickets) (hhead : Headed tickets) : Coherent { l with tickets } where
  names := h.names
  apart := h.apart
  fresh := h.fresh
  owners := howners
  current t ht := by
    obtain ⟨u, hu, hn, hs⟩ := hfrom t ht
    rw [← hn, ← hs]
    exact h.current u hu
  inLine := hline
  headed := hhead

end Coherent

/-! ## Dropping an entry -/

theorem lookup_filter_ne (table : List (String × Nat)) (name other : String) :
    (table.filter fun e => e.1 ≠ name).lookup other =
      if other = name then none else table.lookup other := by
  induction table with
  | nil => simp
  | cons e rest ih =>
    obtain ⟨k, v⟩ := e
    by_cases hk : k = name
    · subst hk
      by_cases ho : other = k
      · simpa [ho] using ih
      · simpa [ho, List.lookup_cons, beq_false_of_ne ho] using ih
    · by_cases ho : other = k
      · subst ho
        simp [hk]
      · simpa [hk, List.lookup_cons, beq_false_of_ne ho] using ih

theorem tickets_dropIdle : (l.dropIdle name).tickets = l.tickets := by
  unfold dropIdle
  split
  · split <;> rfl
  · rfl

theorem Coherent.dropIdle (h : Coherent l) (name : String) : Coherent (l.dropIdle name) := by
  unfold Locks.dropIdle
  split
  · next slot hs =>
    split
    · exact h
    · next hidle =>
      have hother : ∀ {a s}, ((l.table.filter fun e => e.1 ≠ name).lookup a = some s) →
          l.slot? a = some s := by
        intro a s ha
        rw [lookup_filter_ne] at ha
        split at ha
        · cases ha
        · exact ha
      refine ⟨h.names.sublist (List.filter_sublist.map _),
        fun ha hb => h.apart (hother ha) (hother hb), fun ha => h.fresh (hother ha), h.owners, ?_,
        h.inLine, h.headed⟩
      intro t ht
      have hne : t.name ≠ name := by
        intro hn
        have hts : t.slot = slot := Option.some.inj ((h.current t ht).symm.trans (hn ▸ hs))
        exact hidle (List.any_eq_true.2 ⟨t, ht, by simpa using hts⟩)
      exact (lookup_filter_ne l.table name t.name).trans ((if_neg hne).trans (h.current t ht))
  · exact h

/-! ## Asking for a lock -/

/-- The slot that a name has or would get. -/
def slotFor (l : Locks ι) (name : String) : Nat := (l.slot? name).getD l.nextSlot

def opened (l : Locks ι) (name : String) : Locks ι :=
  match l.slot? name with
  | some _ => l
  | none => { l with table := l.table ++ [(name, l.nextSlot)], nextSlot := l.nextSlot + 1 }

def phaseFor (l : Locks ι) (name : String) : Phase :=
  if isTaken l.tickets (l.slotFor name) then .queued else .holding

theorem lock_eq (l : Locks ι) (owner : ι) (name : String) :
    l.lock owner name =
      (if isTaken l.tickets (l.slotFor name) then .waiting else .acquired name,
        { l.opened name with
          tickets := l.tickets ++ [⟨owner, name, l.slotFor name, l.phaseFor name⟩] }) := by
  unfold lock phaseFor opened slotFor
  cases l.slot? name <;> simp only [Option.getD] <;> split <;> rfl

theorem tickets_opened : (l.opened name).tickets = l.tickets := by
  unfold opened
  split <;> rfl

theorem slot?_opened (l : Locks ι) (name other : String) :
    (l.opened name).slot? other = if other = name then some (l.slotFor name) else l.slot? other := by
  unfold opened slotFor
  split
  · next slot hs =>
    split
    · next ho => rw [ho, hs, Option.getD_some]
    · rfl
  · next hn =>
    simp only [slot?] at hn ⊢
    rw [List.lookup_append]
    split
    · next ho => simp [ho, hn]
    · next ho => simp [List.lookup_cons, beq_false_of_ne ho]

/-- Where a name has no slot yet, it gets the next one, and the others keep theirs. -/
theorem slot?_opened_cases {other : String} {slot : Nat} (hs : l.slot? name = none)
    (h : (l.opened name).slot? other = some slot) :
    other = name ∧ slot = l.nextSlot ∨ other ≠ name ∧ l.slot? other = some slot := by
  have hfor : l.slotFor name = l.nextSlot := by
    unfold slotFor
    rw [hs, Option.getD_none]
  rw [slot?_opened, hfor] at h
  split at h
  · next hn => exact .inl ⟨hn, (Option.some.inj h).symm⟩
  · next hn => exact .inr ⟨hn, h⟩

theorem Coherent.opened (h : Coherent l) (name : String) : Coherent (l.opened name) := by
  cases hs : l.slot? name with
  | some slot => rwa [Locks.opened, hs]
  | none =>
    have htable : (l.opened name).table = l.table ++ [(name, l.nextSlot)] := by
      rw [Locks.opened, hs]
    have hnext : (l.opened name).nextSlot = l.nextSlot + 1 := by rw [Locks.opened, hs]
    constructor
    case names =>
      rw [htable, List.map_append, List.nodup_append]
      refine ⟨h.names, List.nodup_singleton _, ?_⟩
      rintro a ha b hb rfl
      obtain ⟨e, he, rfl⟩ := List.mem_map.1 ha
      have hname : e.1 = name := by simpa using hb
      have hmiss := List.lookup_eq_none_iff.1 hs e he
      simp [hname] at hmiss
    case apart =>
      intro a b slot ha hb
      rcases slot?_opened_cases hs ha with ⟨hna, hsa⟩ | ⟨-, hsa⟩ <;>
        rcases slot?_opened_cases hs hb with ⟨hnb, hsb⟩ | ⟨-, hsb⟩
      · rw [hna, hnb]
      · have hlt := h.fresh hsb
        omega
      · have hlt := h.fresh hsa
        omega
      · exact h.apart hsa hsb
    case fresh =>
      intro a slot ha
      rw [hnext]
      rcases slot?_opened_cases hs ha with ⟨-, rfl⟩ | ⟨-, ha⟩
      · omega
      · have hlt := h.fresh ha
        omega
    case owners => rw [tickets_opened]; exact h.owners
    case current =>
      intro t ht
      rw [tickets_opened] at ht
      have hne : t.name ≠ name := by
        intro hn
        have hslot := h.current t ht
        rw [hn, hs] at hslot
        cases hslot
      rw [slot?_opened, if_neg hne]
      exact h.current t ht
    case inLine => rw [tickets_opened]; exact h.inLine
    case headed => rw [tickets_opened]; exact h.headed

/-- Where a slot is free, no ticket is left for it. -/
theorem Coherent.slot_ne_of_not_taken (h : Coherent l) {slot : Nat}
    (hfree : isTaken l.tickets slot ≠ true) : ∀ t ∈ l.tickets, t.slot ≠ slot := by
  intro t ht hs
  obtain ⟨u, hu, hus, hup⟩ := h.headed t ht
  exact hfree (isTaken_iff.2 ⟨u, hu, hus.trans hs, hup⟩)

variable [DecidableEq ι]

theorem Coherent.ticket?_eq_some_iff (h : Coherent l) :
    l.ticket? owner = some t ↔ t ∈ l.tickets ∧ t.owner = owner := by
  constructor
  · intro ht
    exact ⟨List.mem_of_find?_eq_some ht, by simpa using List.find?_some ht⟩
  · rintro ⟨ht, rfl⟩
    obtain ⟨u, hu⟩ := Option.isSome_iff_exists.1
      (List.find?_isSome (p := fun u : Ticket ι => u.owner = t.owner).2 ⟨t, ht, by simp⟩)
    have := h.eq_of_owner (List.mem_of_find?_eq_some hu) ht (by simpa using List.find?_some hu)
    rw [ticket?, hu, this]

theorem ticket?_eq_none_iff : l.ticket? owner = none ↔ ∀ t ∈ l.tickets, t.owner ≠ owner := by
  simp [ticket?]

theorem Coherent.lock (h : Coherent l) (hnew : l.ticket? owner = none) :
    Coherent (l.lock owner name).2 := by
  rw [lock_eq]
  have ho := h.opened name
  have hnone := ticket?_eq_none_iff.1 hnew
  constructor
  case names => exact ho.names
  case apart => exact ho.apart
  case fresh => exact ho.fresh
  case owners =>
    rw [List.map_append, List.nodup_append]
    refine ⟨h.owners, List.nodup_singleton _, ?_⟩
    rintro a ha b hb rfl
    obtain ⟨t, ht, rfl⟩ := List.mem_map.1 ha
    exact hnone t ht (by simpa using hb)
  case current =>
    intro t ht
    rcases List.mem_append.1 ht with ht | ht
    · exact ho.current t (by rwa [tickets_opened])
    · rw [List.mem_singleton.1 ht]
      exact (slot?_opened l name name).trans (if_pos rfl)
  case inLine =>
    by_cases hfree : isTaken l.tickets (l.slotFor name) = true
    · exact h.inLine.append_queued (by simp [phaseFor, hfree])
    · exact h.inLine.append_first (h.slot_ne_of_not_taken hfree)
  case headed =>
    intro t ht
    rcases List.mem_append.1 ht with ht | ht
    · obtain ⟨u, hu, hs⟩ := h.headed t ht
      exact ⟨u, List.mem_append_left _ hu, hs⟩
    · rw [List.mem_singleton.1 ht]
      by_cases hfree : isTaken l.tickets (l.slotFor name) = true
      · obtain ⟨u, hu, hs⟩ := isTaken_iff.1 hfree
        exact ⟨u, List.mem_append_left _ hu, hs⟩
      · exact ⟨_, List.mem_append_right _ (List.mem_singleton_self _), rfl,
          by simp [phaseFor, hfree]⟩

/-! ## Looking again, giving back and giving up -/

theorem Coherent.poll (h : Coherent l) : Coherent (l.poll owner).2 := by
  unfold Locks.poll
  split
  · next t ht =>
    obtain ⟨htm, hto⟩ := h.ticket?_eq_some_iff.1 ht
    split
    · exact h
    · next hp =>
      refine h.withTickets ?_ ?_ (h.inLine.setPhase _ ?_) (h.headed.setPhase (by decide))
      · rw [map_setPhase fun _ _ => rfl]
        exact h.owners
      · intro u hu
        obtain ⟨v, hv, rfl⟩ := mem_setPhase.1 hu
        exact ⟨v, hv, by split <;> rfl, by split <;> rfl⟩
      · intro u hu huo
        rw [h.eq_of_owner hu htm (huo.trans hto.symm), hp]
        decide
    · exact h
  · exact h

/-- Withdrawing a ticket that has left the queue, and handing the lock over. -/
theorem Coherent.handOver (h : Coherent l) (ht : t ∈ l.tickets) (hto : t.owner = owner)
    (hp : t.phase ≠ .queued) :
    Coherent { l with tickets := promiseNext t.slot (withdraw owner l.tickets) } := by
  have hq : ∀ u ∈ withdraw owner l.tickets, u.slot = t.slot → u.phase = .queued := by
    intro u hu hs
    obtain ⟨hu, huo⟩ := mem_withdraw.1 hu
    by_contra hne
    exact huo (h.inLine.eq_of_ne_queued hu ht hs hne hp ▸ hto)
  refine h.withTickets ?_ ?_ (h.inLine.withdraw.promiseNext hq) (h.headed.handOver hq ?_)
  · rw [map_promiseNext fun _ _ => rfl]
    exact h.owners.sublist (List.filter_sublist.map _)
  · intro u hu
    rcases mem_promiseNext hu with hu | ⟨v, hv, _, _, rfl⟩
    · exact ⟨u, (mem_withdraw.1 hu).1, rfl, rfl⟩
    · exact ⟨v, (mem_withdraw.1 hv).1, rfl, rfl⟩
  · intro u hu huo
    rw [h.eq_of_owner hu ht (huo.trans hto.symm)]

theorem Coherent.release (h : Coherent l) : Coherent (l.release owner).2 := by
  unfold Locks.release
  split
  · next t ht =>
    obtain ⟨htm, hto⟩ := h.ticket?_eq_some_iff.1 ht
    split
    · next hp => exact (h.handOver htm hto (by simp [hp])).dropIdle _
    · exact h
  · exact h

theorem Coherent.cancel (h : Coherent l) : Coherent (l.cancel owner).2 := by
  unfold Locks.cancel
  split
  · next t ht =>
    obtain ⟨htm, hto⟩ := h.ticket?_eq_some_iff.1 ht
    split
    · next hp =>
      refine h.withTickets (h.owners.sublist (List.filter_sublist.map _))
        (fun u hu => ⟨u, (mem_withdraw.1 hu).1, rfl, rfl⟩) h.inLine.withdraw
        (h.headed.withdraw fun u hu huo => ?_)
      rw [h.eq_of_owner hu htm (huo.trans hto.symm), hp]
    · next hp => exact h.handOver htm hto (by simp [hp])
    · exact h
  · exact h

/-! ## Runs -/

/-- A step in which nobody asks for a lock who has a ticket already. -/
def Allowed (l : Locks ι) : Step ι → Prop
  | .lock owner _ => l.ticket? owner = none
  | .poll _ | .release _ | .cancel _ | .active => True

def after (l : Locks ι) (steps : List (Step ι)) : Locks ι :=
  steps.foldl (fun l s => (l.step s).2) l

/-- A run in which each owner has one ticket at a time. -/
def Proper : Locks ι → List (Step ι) → Prop
  | _, [] => True
  | l, s :: rest => l.Allowed s ∧ (l.step s).2.Proper rest

theorem Coherent.step (h : Coherent l) {s : Step ι} (hs : l.Allowed s) : Coherent (l.step s).2 := by
  cases s with
  | lock owner name => exact h.lock hs
  | poll owner => exact h.poll
  | release owner => exact h.release
  | cancel owner => exact h.cancel
  | active => exact h

theorem Coherent.after (h : Coherent l) {steps : List (Step ι)} (hs : l.Proper steps) :
    Coherent (l.after steps) := by
  induction steps generalizing l with
  | nil => exact h
  | cons s rest ih => exact ih (h.step hs.1) hs.2

end SubnetRegistry.Locks
