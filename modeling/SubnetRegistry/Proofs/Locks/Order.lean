import SubnetRegistry.Proofs.Locks.Changes
import SubnetRegistry.Proofs.Locks.Standing

/-!
# First come, first served

What a run looks like from outside is the list of its steps with their answers. Who asked for a name
and did not give up is, in order, who has come to hold it and then who waits for it. The first of those
who wait is never forgotten: when nobody holds the lock, it is promised to that one.

## Main definitions

* `Locks.trace` — the steps of a run with their answers.
* `Locks.askers`, `Locks.takers` — who asks for a name and does not give up, and who comes to hold it.
* `Locks.waiters` — who waits for a name.

## Main statements

* `Coherent.turns_eq` — from any state on, askers are takers and then waiters.
* `Coherent.promised_of_waiters` — whom the lock is promised to.
* `first_come_first_served` — both, for every run.
-/
namespace SubnetRegistry.Locks

variable {ι : Type} {l : Locks ι} {tickets : List (Ticket ι)} {name : String} {t : Ticket ι}

/-! ## Who waits -/

def waitersIn (name : String) (tickets : List (Ticket ι)) : List ι :=
  (tickets.filter fun t => t.name = name ∧ t.phase ≠ .holding).map Ticket.owner

/-- Who waits for a name, in the order in which they asked for it. -/
def waiters (l : Locks ι) (name : String) : List ι := waitersIn name l.tickets

theorem mem_waiters {owner : ι} : owner ∈ l.waiters name ↔
    ∃ t ∈ l.tickets, t.name = name ∧ t.phase ≠ .holding ∧ t.owner = owner := by
  simp [waiters, waitersIn, and_assoc]

theorem waitersIn_append (us : List (Ticket ι)) :
    waitersIn name (tickets ++ us) = waitersIn name tickets ++ waitersIn name us := by
  simp [waitersIn]

theorem waitersIn_singleton :
    waitersIn name [t] = if t.name = name ∧ t.phase ≠ .holding then [t.owner] else [] := by
  unfold waitersIn
  split <;> simp_all

/-- A promise makes no difference to who waits. -/
theorem waitersIn_promiseNext (slot : Nat) :
    waitersIn name (promiseNext slot tickets) = waitersIn name tickets := by
  unfold waitersIn
  induction tickets with
  | nil => rfl
  | cons t rest ih =>
    by_cases hq : t.slot = slot ∧ t.phase = .queued
    · rw [promiseNext, if_pos hq]
      grind
    · rw [promiseNext, if_neg hq]
      grind

/-- Who waits is who is in line, but for the first if that one holds the lock. -/
theorem waiters_eq_line :
    l.waiters name = ((l.line name).filter fun t => t.phase ≠ .holding).map Ticket.owner := by
  rw [waiters, waitersIn, line, List.filter_filter]
  congr 1
  exact List.filter_congr fun t _ => by grind

/-- A line that does not begin with a holder. -/
theorem Coherent.waiters_eq_cons (h : Coherent l) {rest : List (Ticket ι)}
    (hl : l.line name = t :: rest) (hp : t.phase ≠ .holding) :
    l.waiters name = t.owner :: rest.map Ticket.owner := by
  have hkept : (t :: rest).filter (fun t => t.phase ≠ .holding) = t :: rest := by
    refine List.filter_eq_self.2 fun u hu => ?_
    rcases List.mem_cons.1 hu with rfl | hu
    · simpa using hp
    · simp [(h.line_eq_cons hl).2 u hu]
  rw [waiters_eq_line, hl, hkept, List.map_cons]

theorem Coherent.nodup_waiters (h : Coherent l) : (l.waiters name).Nodup :=
  h.owners.sublist (List.filter_sublist.map _)

/-- Where the lock of a name is free, nobody waits for it. -/
theorem Coherent.waiters_eq_nil (h : Coherent l)
    (hfree : isTaken l.tickets (l.slotFor name) ≠ true) : l.waiters name = [] := by
  refine List.eq_nil_iff_forall_not_mem.2 fun owner hw => ?_
  obtain ⟨t, ht, rfl, -, -⟩ := mem_waiters.1 hw
  have hslot : l.slotFor t.name = t.slot := by rw [slotFor, h.current t ht, Option.getD_some]
  exact h.slot_ne_of_not_taken hfree t ht hslot.symm

variable [DecidableEq ι] {owner other : ι}

theorem waitersIn_withdraw :
    waitersIn name (withdraw owner tickets) = (waitersIn name tickets).filter (· ≠ owner) := by
  simp only [waitersIn, withdraw, List.filter_map, List.filter_filter]
  congr 1
  exact List.filter_congr fun t _ => by grind

/-- Who comes to hold the lock waits no more. -/
theorem waitersIn_setPhase :
    waitersIn name (setPhase owner .holding tickets) = (waitersIn name tickets).filter (· ≠ owner) := by
  unfold waitersIn setPhase
  induction tickets with
  | nil => rfl
  | cons t rest ih => by_cases ho : t.owner = owner <;> grind

theorem Coherent.not_mem_waiters (h : Coherent l) (ht : l.ticket? owner = some t)
    (hne : t.name ≠ name ∨ t.phase = .holding) : owner ∉ l.waiters name := by
  obtain ⟨htm, rfl⟩ := h.ticket?_eq_some_iff.1 ht
  rintro hw
  obtain ⟨u, hu, hun, hup, huo⟩ := mem_waiters.1 hw
  have hut : u = t := h.eq_of_owner hu htm huo
  grind

/-! ## What a run looks like from outside -/

def trace (l : Locks ι) : List (Step ι) → List (Step ι × Reply)
  | [] => []
  | s :: rest => (s, (l.step s).1) :: (l.step s).2.trace rest

def takerOf (name : String) : Step ι × Reply → Option ι
  | (.lock owner _, .answer (.acquired n)) | (.poll owner, .answer (.acquired n)) =>
    if n = name then some owner else none
  | _ => none

/-- Who comes to hold a name, in order. -/
def takers (name : String) (events : List (Step ι × Reply)) : List ι :=
  events.filterMap (takerOf name)

/-- Whether the claim that an owner has before these events is given up in them. It is not if the lock
is given back first. -/
def givesUp (owner : ι) : List (Step ι × Reply) → Bool
  | [] => false
  | (.cancel other, .done true) :: rest => other = owner || givesUp owner rest
  | (.release other, .done true) :: rest => other ≠ owner && givesUp owner rest
  | _ :: rest => givesUp owner rest

/-- Who asks for a name and does not give up, in order. -/
def askers (name : String) : List (Step ι × Reply) → List ι
  | [] => []
  | (.lock owner n, _) :: rest =>
    if n = name ∧ givesUp owner rest = false then owner :: askers name rest else askers name rest
  | _ :: rest => askers name rest

/-- Who holds a lock does not give it up. -/
theorem givesUp_of_holding {steps : List (Step ι)} (h : l.standing? owner = some (name, true))
    (hs : l.Proper steps) : givesUp owner (l.trace steps) = false := by
  induction steps generalizing l with
  | nil => rfl
  | cons s rest ih =>
    obtain ⟨hallowed, hrest⟩ := hs
    obtain ⟨t, ht, -, hp⟩ := standing?_eq_some_iff.1 h
    replace hp : t.phase = .holding := of_decide_eq_true hp
    cases s with
    | lock other asked =>
      have hne : owner ≠ other := by
        rintro rfl
        rw [Allowed, ht] at hallowed
        cases hallowed
      exact ih ((standing?_lock_of_ne hne).trans h) hrest
    | poll other =>
      by_cases hne : owner = other
      · subst hne
        have hpoll : l.poll owner = (.notWaiting, l) := by simp [poll, ht, hp]
        simp only [trace, step, hpoll, givesUp] at hrest ⊢
        exact ih h hrest
      · exact ih ((standing?_poll_of_ne hne).trans h) hrest
    | release other =>
      by_cases hne : owner = other
      · subst hne
        simp [trace, step, release, ht, hp, givesUp]
      · have hstay := ih ((standing?_release_of_ne hne).trans h) hrest
        simp only [trace, step]
        cases (l.release other).1 <;> simp [givesUp, hstay]
    | cancel other =>
      by_cases hne : owner = other
      · subst hne
        have hcancel : l.cancel owner = (false, l) := by simp [cancel, ht, hp]
        simp only [trace, step, hcancel, givesUp] at hrest ⊢
        exact ih h hrest
      · have hstay := ih ((standing?_cancel_of_ne hne).trans h) hrest
        simp only [trace, step]
        cases (l.cancel other).1 <;> simp [givesUp, Ne.symm hne, hstay]
    | active => exact ih h hrest

/-! ## Askers are takers and then waiters -/

/-- Who waits for a name after a step: one more in a queue, or one less. -/
theorem waiters_change {s : Step ι} {r : Reply} {l' : Locks ι} (hc : Change l s r l')
    (name : String) :
    l'.waiters name = match s, r with
      | .lock owner asked, .answer .waiting =>
        if asked = name then l.waiters name ++ [owner] else l.waiters name
      | .poll owner, .answer (.acquired _) | .release owner, .done true
      | .cancel owner, .done true => (l.waiters name).filter (· ≠ owner)
      | _, _ => l.waiters name := by
  cases hc with
  | join | enter =>
    simp only [waiters, waitersIn_append, waitersIn_singleton]
    grind
  | take => exact waitersIn_setPhase
  | giveBack =>
    rw [waiters, tickets_dropIdle, waitersIn_promiseNext, waitersIn_withdraw, waiters]
  | leave => exact waitersIn_withdraw
  | decline => rw [waiters, waitersIn_promiseNext, waitersIn_withdraw, waiters]
  | idle hidle => cases hidle <;> rfl

/-- Who comes to hold the lock by looking was the first of those who waited for it. -/
theorem Coherent.waiters_of_promised (h : Coherent l) (ht : l.ticket? owner = some t)
    (hp : t.phase = .promised) :
    ∃ rest, l.waiters t.name = owner :: rest ∧ owner ∉ rest := by
  obtain ⟨htm, rfl⟩ := h.ticket?_eq_some_iff.1 ht
  obtain ⟨rest, hl⟩ := h.exists_line_eq_cons htm (by simp [hp])
  have hw := h.waiters_eq_cons hl (by simp [hp])
  exact ⟨_, hw, (List.nodup_cons.1 (hw ▸ h.nodup_waiters)).1⟩

/-- Who waits for a name or asks for it in these events and does not give up, in order. -/
def turns (l : Locks ι) (name : String) (events : List (Step ι × Reply)) : List ι :=
  (l.waiters name).filter (fun owner => !givesUp owner events) ++ askers name events

/-- An owner who leaves those who wait, or is not among them, is passed over. -/
theorem filter_givesUp (owner : ι) {owners : List ι} (e : Step ι × Reply)
    (events : List (Step ι × Reply))
    (hothers : ∀ other, other ≠ owner → givesUp other (e :: events) = givesUp other events)
    (hself : owner ∈ owners → givesUp owner (e :: events) = true) :
    owners.filter (fun other => !givesUp other (e :: events)) =
      (owners.filter (· ≠ owner)).filter fun other => !givesUp other events := by
  rw [List.filter_filter]
  refine List.filter_congr fun other ho => ?_
  by_cases hne : other = owner
  · subst hne
    simp [hself ho]
  · simp [hne, hothers other hne]

/-- By a step, the first in turn comes to hold the lock or nobody does. -/
theorem Coherent.turns_change (h : Coherent l) {s : Step ι} {r : Reply} {l' : Locks ι}
    (hc : Change l s r l') {events : List (Step ι × Reply)}
    (hkeep : ∀ owner name, l'.standing? owner = some (name, true) → givesUp owner events = false) :
    l.turns name ((s, r) :: events) = (takerOf name (s, r)).toList ++ l'.turns name events := by
  unfold turns
  rw [waiters_change hc]
  cases hc with
  | @join owner asked hnew htaken =>
    simp only [askers, takerOf]
    by_cases hn : asked = name <;> grind [givesUp]
  | @enter owner asked hnew hfree =>
    have hstay : givesUp owner events = false :=
      hkeep owner asked (standingIn_append_self (standing?_eq_none_iff.2 hnew) _ _)
    by_cases hn : asked = name
    · subst hn
      simp [h.waiters_eq_nil hfree, askers, takerOf, hstay]
    · simp [askers, takerOf, hn, givesUp]
  | @take owner t ht hp =>
    have hstay : givesUp owner events = false :=
      hkeep owner t.name (standingIn_setPhase_self ht)
    have hskip : ∀ owners : List ι, owner ∉ owners → owners.filter (fun other =>
        !givesUp other ((.poll owner, .answer (.acquired t.name)) :: events)) =
          (owners.filter (· ≠ owner)).filter fun other => !givesUp other events :=
      fun owners hout => filter_givesUp owner _ events (fun _ _ => rfl) fun hin => absurd hin hout
    by_cases hn : t.name = name
    · subst hn
      obtain ⟨rest, hw, hrest⟩ := h.waiters_of_promised ht hp
      have hfirst : givesUp owner ((.poll owner, .answer (.acquired t.name)) :: events) = false :=
        hstay
      simp [hw, hskip rest hrest, hfirst, askers, takerOf]
    · simp [hskip _ (h.not_mem_waiters ht (.inl hn)), hn, askers, takerOf]
  | @giveBack owner t ht hp =>
    have hout : owner ∉ l.waiters name := h.not_mem_waiters ht (.inr hp)
    have hskip := filter_givesUp owner (.release owner, .done true) events
      (fun other hne => by simp [givesUp, Ne.symm hne]) fun hin => absurd hin hout
    simp [hskip, askers, takerOf]
  | @leave owner t ht hp | @decline owner t ht hp =>
    have hskip := filter_givesUp owner (.cancel owner, .done true) events
      (fun other hne => by simp [givesUp, Ne.symm hne])
      fun _ : owner ∈ l.waiters name => by simp [givesUp]
    simp [hskip, askers, takerOf]
  | idle hidle => cases hidle <;> rfl

/-- From any state on, who has its turn is, in order, who comes to hold the lock and then who waits. -/
theorem Coherent.turns_eq (h : Coherent l) {steps : List (Step ι)} (hs : l.Proper steps) :
    l.turns name (l.trace steps) = takers name (l.trace steps) ++ (l.after steps).waiters name := by
  induction steps generalizing l with
  | nil => simp [turns, trace, givesUp, askers, takers, Locks.after]
  | cons s rest ih =>
    have hnext : (l.step s).2.Proper rest := hs.2
    have hturn : l.turns name (l.trace (s :: rest)) = _ := h.turns_change (change_step hs.1)
      fun owner name hstand => givesUp_of_holding hstand hnext
    have hrest := ih (h.step hs.1) hnext
    calc l.turns name (l.trace (s :: rest))
        = (takerOf name (s, (l.step s).1)).toList ++
            (l.step s).2.turns name ((l.step s).2.trace rest) := hturn
      _ = (takerOf name (s, (l.step s).1)).toList ++ (takers name ((l.step s).2.trace rest) ++
            ((l.step s).2.after rest).waiters name) := by rw [hrest]
      _ = takers name (l.trace (s :: rest)) ++ (l.after (s :: rest)).waiters name := by
          rw [← List.append_assoc, takers, takers, trace, List.filterMap_cons]
          cases takerOf name (s, (l.step s).1) <;> rfl

/-! ## The first of those who wait -/

/-- A new claim goes behind those who wait, even if nobody holds the lock. -/
theorem Coherent.lock_of_waiters (h : Coherent l) (hnew : l.ticket? owner = none)
    (hw : l.waiters name ≠ []) :
    (l.lock owner name).1 = .waiting ∧
      (l.lock owner name).2.waiters name = l.waiters name ++ [owner] := by
  have htaken : isTaken l.tickets (l.slotFor name) = true := by
    by_contra hfree
    exact hw (h.waiters_eq_nil hfree)
  have hlock := lock_eq l owner name
  simp only [phaseFor, htaken, if_true] at hlock
  rw [hlock]
  exact ⟨rfl, (waiters_change (.join hnew htaken) name).trans (if_pos rfl)⟩

/-- Where nobody holds the lock, the first of those who wait has the only promise. That one can take
the lock, and the others wait on. -/
theorem Coherent.promised_of_waiters (h : Coherent l) {first : ι} {rest : List ι}
    (hw : l.waiters name = first :: rest) (hfree : ∀ t ∈ l.line name, t.phase ≠ .holding) :
    ((l.line name).filter fun t => t.phase = .promised).map Ticket.owner = [first] ∧
      (l.poll first).1 = .acquired name ∧
      (l.poll first).2.standing? first = some (name, true) ∧
      ∀ other ∈ rest, l.poll other = (.waiting, l) := by
  cases hl : l.line name with
  | nil => simp [waiters_eq_line, hl] at hw
  | cons t queue =>
    have hin : ∀ u ∈ t :: queue, l.ticket? u.owner = some u := fun u hu =>
      h.ticket?_eq_some_iff.2 ⟨(mem_line.1 (hl ▸ hu)).1, rfl⟩
    obtain ⟨hhead, hqueue⟩ := h.line_eq_cons hl
    have hholds : t.phase ≠ .holding := hfree t (by simp [hl])
    have hp : t.phase = .promised := by
      cases hphase : t.phase <;> simp_all
    have htn : t.name = name := (mem_line.1 (hl ▸ List.mem_cons_self)).2
    rw [h.waiters_eq_cons hl hholds] at hw
    obtain ⟨rfl, rfl⟩ := List.cons.inj hw
    have hpoll : l.poll t.owner =
        (.acquired name, { l with tickets := setPhase t.owner .holding l.tickets }) := by
      simp only [Locks.poll, hin t (by simp), hp, htn]
    have hstand : l.standing? t.owner = some (name, false) :=
      standing?_eq_some_iff.2 ⟨t, hin t (by simp), htn, by simp [hp]⟩
    refine ⟨?_, by rw [hpoll], standing?_poll_self hstand (by rw [hpoll]), ?_⟩
    · have hnone : queue.filter (fun u => u.phase = .promised) = [] :=
        List.filter_eq_nil_iff.2 fun u hu => by simp [hqueue u hu]
      rw [List.filter_cons_of_pos (by simpa using hp), hnone, List.map_cons, List.map_nil]
    · intro other hother
      obtain ⟨u, hu, rfl⟩ := List.mem_map.1 hother
      simp only [Locks.poll, hin u (by simp [hu]), hqueue u hu]

/-- Locks are given in the order in which they were asked for, and the first of those who wait is never
forgotten. -/
theorem first_come_first_served {steps : List (Step ι)} (h : (empty : Locks ι).Proper steps)
    (name : String) :
    let l := (empty : Locks ι).after steps
    let events := (empty : Locks ι).trace steps
    askers name events = takers name events ++ l.waiters name ∧
      (∀ owner, l.ticket? owner = none → l.waiters name ≠ [] →
        (l.lock owner name).1 = .waiting ∧
          (l.lock owner name).2.waiters name = l.waiters name ++ [owner]) ∧
      ∀ first rest, l.waiters name = first :: rest → (∀ t ∈ l.line name, t.phase ≠ .holding) →
        ((l.line name).filter fun t => t.phase = .promised).map Ticket.owner = [first] ∧
          (l.poll first).1 = .acquired name ∧
          (l.poll first).2.standing? first = some (name, true) ∧
          ∀ other ∈ rest, l.poll other = (.waiting, l) := by
  intro l events
  have hl : Coherent l := coherent_empty.after h
  refine ⟨?_, fun owner hnew hw => hl.lock_of_waiters hnew hw,
    fun first rest hw hfree => hl.promised_of_waiters hw hfree⟩
  have hnobody : (empty : Locks ι).waiters name = [] := rfl
  have hturns : turns empty name events = takers name events ++ l.waiters name :=
    coherent_empty.turns_eq h
  rwa [turns, hnobody, List.filter_nil, List.nil_append] at hturns

/-- Two promises are given up one after the other, while the first holder asks again. -/
def passedOn : List (Step Nat) :=
  [.lock 1 "a", .lock 2 "a", .lock 3 "a", .lock 4 "a", .release 1, .lock 1 "a", .poll 3, .cancel 2,
    .cancel 3, .lock 5 "a"]

theorem first_come_first_served_passedOn :
    (empty : Locks Nat).Proper passedOn ∧
      let l := (empty : Locks Nat).after passedOn
      let events := (empty : Locks Nat).trace passedOn
      askers "a" events = takers "a" events ++ l.waiters "a" ∧ takers "a" events = [1] ∧
        l.waiters "a" = [4, 1, 5] ∧ l.ticket? 2 = none ∧
        ((l.lock 2 "a").1 = .waiting ∧ (l.lock 2 "a").2.waiters "a" = l.waiters "a" ++ [2]) ∧
        (∀ t ∈ l.line "a", t.phase ≠ .holding) ∧
        ((l.line "a").filter fun t => t.phase = .promised).map Ticket.owner = [4] ∧
        (l.poll 4).1 = .acquired "a" ∧ (l.poll 4).2.standing? 4 = some ("a", true) ∧
        ∀ other ∈ [1, 5], l.poll other = (.waiting, l) := by
  have h : (empty : Locks Nat).Proper passedOn :=
    ⟨rfl, rfl, rfl, rfl, trivial, rfl, trivial, trivial, trivial, rfl, trivial⟩
  obtain ⟨horder, hbehind, hfirst⟩ := first_come_first_served h "a"
  have hwaiters : ((empty : Locks Nat).after passedOn).waiters "a" = [4, 1, 5] := by decide
  have hfree : ∀ t ∈ ((empty : Locks Nat).after passedOn).line "a", t.phase ≠ .holding := by decide
  exact ⟨h, horder, by decide, hwaiters, rfl, hbehind 2 rfl (by decide), hfree,
    hfirst 4 [1, 5] hwaiters hfree⟩

end SubnetRegistry.Locks
