import Mathlib.Algebra.Order.BigOperators.Group.Finset
import SubnetRegistry.Proofs.Locks.Entries
import SubnetRegistry.Proofs.Session.Moves

/-!
# Progress of a session

A request that waits for its lock waits for another one that can go on, so that some request can go
on until none is under way. No request makes more than a few moves. Where none has given up, the
last one to give back the lock of a name takes the entry of the name with it.

## Main definitions

* `Program.CallsWithin`, `Progress.Within` — how many calls and moves are left at most.
* `Locks.AllClaimed` — no entry is left over.
* `Session.CanAdvance` — a request can go on, and not only get in line.
* `Session.Ticketed` — only requests of the session have tickets.
* `Session.moveLimit` — the most moves that are made of one request.

## Main statements

* `Session.Step.within`, `Session.count_task_le` — a move uses up one of those that are left.
* `Locks.Coherent.allClaimed_change` — where nobody gives up, no entry is left over.
* `Session.Accounted.exists_canAdvance` — some request can go on.
* `Session.no_deadlock` — what follows for runs from the start.
-/
namespace SubnetRegistry

/-! ## Moves that are left -/

namespace Program

variable {p : Program} {c : Call} {n : Nat}

/-- Programs that make no more than so many calls. -/
inductive CallsWithin : Nat → Program → Prop
  | answer (n : Nat) (result : Result) : CallsWithin n (.answer result)
  | get {n : Nat} {name : String} {next : Option Subnet → Program}
      (h : ∀ v, CallsWithin n (next v)) : CallsWithin (n + 1) (.get name next)
  | put {n : Nat} {name : String} {subnet : Subnet} {next : Program} (h : CallsWithin n next) :
      CallsWithin (n + 1) (.put name subnet next)
  | delete {n : Nat} {name : String} {next : Bool → Program} (h : ∀ b, CallsWithin n (next b)) :
      CallsWithin (n + 1) (.delete name next)

/-- A call uses up one of those that are left. -/
theorem CallsWithin.step (h : CallsWithin n p) (hc : p.call? = some c)
    (fails : Call → Option InfrastructureError) (store : Store) :
    ∃ k, n = k + 1 ∧ CallsWithin k (p.step fails store).1 := by
  cases h with
  | answer n result => cases hc
  | @get k name next h =>
    refine ⟨k, rfl, ?_⟩
    simp only [Program.step]
    split
    · exact .answer k _
    · exact h _
  | @put k name subnet next h =>
    refine ⟨k, rfl, ?_⟩
    simp only [Program.step]
    split
    · exact .answer k _
    · exact h
  | @delete k name next h =>
    refine ⟨k, rfl, ?_⟩
    simp only [Program.step]
    split
    · exact .answer k _
    · exact h _

theorem create_callsWithin (name : String) (subnet : Subnet) :
    (create name subnet).CallsWithin 2 := by
  refine .get fun v => ?_
  cases v with
  | none => exact .put (.answer 0 _)
  | some existing => exact .answer 1 _

theorem fetch_callsWithin (name : String) : (fetch name).CallsWithin 2 := by
  refine .get fun v => ?_
  cases v <;> exact .answer 1 _

theorem update_callsWithin (u : UpdateRequest) : (update u).CallsWithin 2 := by
  refine .get fun v => ?_
  cases v with
  | none =>
    cases u.allowMissing
    · exact .answer 1 _
    · exact .put (.answer 0 _)
  | some stored =>
    cases hm : FieldMask.apply u.updateMask stored u.subnet with
    | ok updated =>
      simp only [hm]
      exact .put (.answer 0 _)
    | error e =>
      simp only [hm]
      exact .answer 1 _

theorem remove_callsWithin (d : DeleteRequest) : (remove d).CallsWithin 2 := by
  refine .delete fun present => ?_
  split <;> exact .answer 1 _

end Program

theorem Request.plan_callsWithin {fresh : String} {r : Request} {plan : Plan}
    (h : r.plan fresh = .ok plan) : plan.program.CallsWithin 2 := by
  rcases plan_cases h with ⟨c, id, -, -, rfl⟩ | ⟨g, -, rfl⟩ | ⟨u, -, rfl⟩ | ⟨d, -, rfl⟩
  · exact Program.create_callsWithin _ _
  · exact Program.fetch_callsWithin g.name
  · exact Program.update_callsWithin u
  · exact Program.remove_callsWithin d

/-- A request that needs no more than so many moves: to ask for its lock and to take it, for its
calls, and to end. -/
def Progress.Within (n : Nat) : Progress → Prop
  | .ready plan => ∃ k, plan.program.CallsWithin k ∧ k + 3 ≤ n
  | .waiting plan => ∃ k, plan.program.CallsWithin k ∧ k + 2 ≤ n
  | .running _ program => ∃ k, program.CallsWithin k ∧ k + 1 ≤ n
  | .finished _ | .abandoned => True

/-! ## Locks -/

namespace Locks

variable {ι : Type} [DecidableEq ι] {l : Locks ι} {name : String}

/-- Where somebody has a claim, somebody holds the lock or can take it. -/
theorem Coherent.exists_head (h : l.Coherent) (hn : name ∈ l.claimed) :
    ∃ owner, l.standing? owner = some (name, true) ∨
      (l.standing? owner = some (name, false) ∧ (l.poll owner).1 = .acquired name) := by
  obtain ⟨t, ht, rfl⟩ := mem_claimed_iff.1 hn
  have htl : t ∈ l.line t.name := mem_line.2 ⟨ht, rfl⟩
  cases hl : l.line t.name with
  | nil => simp [hl] at htl
  | cons u rest =>
    obtain ⟨hum, hun⟩ := mem_line.1 (hl ▸ List.mem_cons_self : u ∈ l.line t.name)
    have hu : l.ticket? u.owner = some u := h.ticket?_eq_some_iff.2 ⟨hum, rfl⟩
    refine ⟨u.owner, ?_⟩
    cases hp : u.phase with
    | queued => exact absurd hp (h.line_eq_cons hl).1
    | promised =>
      refine .inr ⟨standing?_eq_some_iff.2 ⟨u, hu, hun, by simp [hp]⟩, ?_⟩
      simp only [Locks.poll, hu, hp, hun]
    | holding => exact .inl (standing?_eq_some_iff.2 ⟨u, hu, hun, by simp [hp]⟩)

theorem mem_claimed_of_standing? {owner : ι} {b : Bool} (h : l.standing? owner = some (name, b)) :
    name ∈ l.claimed := by
  obtain ⟨t, ht, hn, -⟩ := standing?_eq_some_iff.1 h
  exact mem_claimed_iff.2 ⟨t, List.mem_of_find?_eq_some ht, hn⟩

/-- No entry is left over. -/
def AllClaimed (l : Locks ι) : Prop := ∀ name ∈ l.names, name ∈ l.claimed

/-- Where nobody gives up, no entry is left over. -/
theorem Coherent.allClaimed_change (h : l.Coherent) (hl : l.AllClaimed) {s : Step ι} {r : Reply}
    {l' : Locks ι} (hc : Change l s r l') (hkept : ∀ owner, s ≠ .cancel owner) : l'.AllClaimed := by
  intro name hn
  replace hn := (h.mem_names_change hc name).1 hn
  refine (mem_claimed_change hc name).2 ?_
  cases hc with
  | join | enter => exact hn.imp_right (hl name)
  | take => exact hl name hn
  | giveBack => exact hn.2 (hl name hn.1)
  | @leave owner | @decline owner => exact absurd rfl (hkept owner)
  | idle hidle => cases hidle <;> exact hl name hn

/-- With nobody left, there is no entry. -/
theorem AllClaimed.active_eq_zero (h : l.AllClaimed) (hnone : ∀ owner, l.standing? owner = none) :
    l.active = 0 := by
  have hnames : l.names = [] := by
    refine List.eq_nil_iff_forall_not_mem.2 fun name hn => ?_
    obtain ⟨t, ht, -⟩ := mem_claimed_iff.1 (h name hn)
    exact ticket?_eq_none_iff.1 (standing?_eq_none_iff.1 (hnone t.owner)) t ht rfl
  rw [active, ← List.length_map Prod.fst]
  exact congrArg List.length hnames

end Locks

namespace Session

variable {fails : Nat → Call → Option InfrastructureError} {s s' : Session} {i j : Nat}
  {m : Move} {moves : List Move} {plans : List (Except SubnetError Plan)}

def Move.task : Move → Nat
  | .advance i | .abandon i => i

/-- A move is about a request of the session. -/
theorem Step.task_lt (hm : Step fails s m s') : m.task < s.tasks.length := by
  cases hm with
  | ask ht | enter ht | take ht | call ht | finish ht | abandon ht =>
    exact (List.getElem?_eq_some_iff.1 ht).1

/-- It changes how far that one has come, and no other. -/
theorem Step.exists_tasks_eq (hm : Step fails s m s') :
    ∃ new, s'.tasks = s.tasks.set m.task new := by
  cases hm <;> exact ⟨_, rfl⟩

theorem Step.length_tasks (hm : Step fails s m s') : s'.tasks.length = s.tasks.length := by
  obtain ⟨new, h⟩ := hm.exists_tasks_eq
  rw [h, List.length_set]

theorem Step.tasks_of_ne (hm : Step fails s m s') (hj : j ≠ m.task) :
    s'.tasks[j]? = s.tasks[j]? := by
  obtain ⟨new, h⟩ := hm.exists_tasks_eq
  rw [h, List.getElem?_set_ne hj.symm]

theorem Step.standing?_of_ne (hm : Step fails s m s') (hj : j ≠ m.task) :
    s'.locks.standing? j = s.locks.standing? j := by
  cases hm with
  | ask => exact Locks.standing?_lock_of_ne hj
  | enter | call => rfl
  | take => exact Locks.standing?_poll_of_ne hj
  | @finish i guarded =>
    cases guarded with
    | true => exact Locks.standing?_release_of_ne hj
    | false => rfl
  | abandon => exact Locks.standing?_cancel_of_ne hj

/-- A move uses up one of those that are left to its request. -/
theorem Step.within (hm : Step fails s m s') {task : Progress} {n : Nat}
    (ht : s.tasks[m.task]? = some task) (hw : task.Within n) :
    ∃ k task', n = k + 1 ∧ s'.tasks[m.task]? = some task' ∧ task'.Within k := by
  have hself : ∀ (new : Progress) (locks : Locks Nat),
      (s.settle m.task new locks).tasks[m.task]? = some new := tasks_settle_self ht
  cases hm with
  | @ask i plan ht' hg =>
    cases ht.symm.trans ht'
    obtain ⟨k, hk, hn⟩ := hw
    refine ⟨n - 1, _, by omega, hself _ _, ?_⟩
    cases (s.locks.lock i plan.name).1 with
    | acquired name => exact ⟨k, hk, by omega⟩
    | waiting | notWaiting => exact ⟨k, hk, by omega⟩
  | enter ht' hg | take ht' ha =>
    cases ht.symm.trans ht'
    obtain ⟨k, hk, hn⟩ := hw
    exact ⟨n - 1, _, by omega, hself _ _, k, hk, by omega⟩
  | @call i guarded program c ht' hc =>
    cases ht.symm.trans ht'
    obtain ⟨k, hk, hn⟩ := hw
    obtain ⟨left, rfl, hleft⟩ := hk.step hc (fails i) s.store
    exact ⟨n - 1, _, by omega, hself _ s.locks, left, hleft, by omega⟩
  | finish ht' =>
    cases ht.symm.trans ht'
    obtain ⟨k, hk, hn⟩ := hw
    exact ⟨n - 1, _, by omega, hself _ _, trivial⟩
  | abandon ht' =>
    cases ht.symm.trans ht'
    obtain ⟨k, hk, hn⟩ := hw
    exact ⟨n - 1, _, by omega, hself _ _, trivial⟩

/-- A request makes no more moves than are left to it. -/
theorem count_task_le (hr : s.run? fails moves = some s') {task : Progress} {n : Nat}
    (ht : s.tasks[i]? = some task) (hw : task.Within n) : (moves.map Move.task).count i ≤ n := by
  induction moves generalizing s task n with
  | nil => simp
  | cons m moves ih =>
    obtain ⟨t, hmove, hr⟩ := Option.bind_eq_some_iff.1 (run?_cons fails s m moves ▸ hr)
    have hm := step_of_move? hmove
    rw [List.map_cons, List.count_cons]
    by_cases hi : m.task = i
    · subst hi
      obtain ⟨k, task', rfl, ht', hw'⟩ := hm.within ht hw
      have hrest := ih hr ht' hw'
      simp only [BEq.rfl, if_true]
      omega
    · have hrest := ih hr ((hm.tasks_of_ne (Ne.symm hi)).trans ht) hw
      simp only [beq_false_of_ne hi, Bool.false_eq_true, if_false]
      omega

/-! ## Somebody can go on -/

/-- The requests that can go on, and not only get in line: the lock is free or was promised to them,
they hold it, or they need none. -/
inductive CanAdvance (s : Session) (i : Nat) : Prop
  | free {plan : Plan} (ht : s.tasks[i]? = some (.ready plan)) (hg : plan.guarded = true)
      (ha : (s.locks.lock i plan.name).1 = .acquired plan.name)
  | promised {plan : Plan} (ht : s.tasks[i]? = some (.waiting plan))
      (ha : (s.locks.poll i).1 = .acquired plan.name)
  | holding {name : String} {program : Program} (ht : s.tasks[i]? = some (.running true program))
      (hs : s.locks.standing? i = some (name, true))
  | ready {plan : Plan} (ht : s.tasks[i]? = some (.ready plan)) (hg : plan.guarded = false)
  | running {program : Program} (ht : s.tasks[i]? = some (.running false program))

theorem CanAdvance.exists_advance (h : s.CanAdvance i)
    (fails : Nat → Call → Option InfrastructureError) : ∃ t, s.advance? fails i = some t := by
  unfold advance?
  cases h with
  | free ht hg | ready ht hg =>
    rw [ht]
    simp only [hg]
    exact ⟨_, rfl⟩
  | @promised plan ht ha =>
    have hpoll : s.locks.poll i = (.acquired plan.name, (s.locks.poll i).2) := Prod.ext ha rfl
    rw [ht]
    simp only
    rw [hpoll]
    exact ⟨_, rfl⟩
  | @holding _ program ht | @running program ht =>
    rw [ht]
    cases program <;> exact ⟨_, rfl⟩

/-- A request that can go on has not ended. -/
theorem CanAdvance.exists_task (h : s.CanAdvance i) :
    ∃ task, s.tasks[i]? = some task ∧ task.isOver = false := by
  cases h with
  | free ht | promised ht | holding ht | ready ht | running ht => exact ⟨_, ht, rfl⟩

def Ticketed (s : Session) : Prop := ∀ i, s.tasks.length ≤ i → s.locks.standing? i = none

theorem Ticketed.step (h : s.Ticketed) (hm : Step fails s m s') : s'.Ticketed := by
  intro i hi
  rw [hm.length_tasks] at hi
  have hne : i ≠ m.task := by
    have := hm.task_lt
    omega
  rw [hm.standing?_of_ne hne]
  exact h i hi

/-- A request that stands in the locks waits for its lock or runs under it. -/
theorem Accounted.waiting_or_running (h : Accounted fails plans s) {task : Progress} {name : String}
    {b : Bool} (ht : s.tasks[i]? = some task) (hs : s.locks.standing? i = some (name, b)) :
    (b = false ∧ ∃ plan, task = .waiting plan ∧ plan.name = name) ∨
      b = true ∧ ∃ program, task = .running true program := by
  obtain ⟨plan?, hp⟩ := h.exists_plan ht
  have hfol := h.follows i plan? task hp ht
  rw [hs] at hfol
  match plan?, task, hfol with
  | .ok plan, .waiting _, ⟨hplan, _, hstand, _⟩ =>
    cases hstand
    exact .inl ⟨rfl, _, rfl, congrArg Plan.name hplan⟩
  | .ok plan, .running true program, ⟨_, hstand, _⟩ =>
    cases hstand
    exact .inr ⟨rfl, _, rfl⟩

/-- Where somebody claims a name, the first in line can go on. -/
theorem Accounted.canAdvance_of_claimed (h : Accounted fails plans s) (hticketed : s.Ticketed)
    {name : String} (hn : name ∈ s.locks.claimed) : ∃ i, s.CanAdvance i := by
  obtain ⟨j, hhead⟩ := h.coherent.exists_head hn
  have hj : j < s.tasks.length := by
    by_contra hout
    have hnone := hticketed j (by omega)
    rcases hhead with hj | ⟨hj, -⟩ <;> cases hnone.symm.trans hj
  have htj : s.tasks[j]? = some s.tasks[j] := List.getElem?_eq_getElem hj
  generalize s.tasks[j] = task at htj
  rcases hhead with hholds | ⟨hwaits, hpoll⟩
  · obtain ⟨hb, -⟩ | ⟨-, program, rfl⟩ := h.waiting_or_running htj hholds
    · cases hb
    · exact ⟨j, .holding htj hholds⟩
  · obtain ⟨-, plan, rfl, rfl⟩ | ⟨hb, -⟩ := h.waiting_or_running htj hwaits
    · exact ⟨j, .promised htj hpoll⟩
    · cases hb

/-- Until all requests have ended, one of those that have not can go on. -/
theorem Accounted.exists_canAdvance (h : Accounted fails plans s) (hticketed : s.Ticketed)
    (ho : s.isOver = false) : ∃ i, s.CanAdvance i := by
  obtain ⟨task, hmem, hover⟩ := List.all_eq_false.1 ho
  obtain ⟨i, ht⟩ := List.mem_iff_getElem?.1 hmem
  cases task with
  | ready plan =>
    cases hg : plan.guarded with
    | false => exact ⟨i, .ready ht hg⟩
    | true =>
      -- the lock is free, or else there is somebody in line for it
      by_cases hn : plan.name ∈ s.locks.claimed
      · exact h.canAdvance_of_claimed hticketed hn
      · exact ⟨i, .free ht hg (h.coherent.lock_of_not_mem_claimed hn i)⟩
  | waiting plan =>
    obtain ⟨plan', -, -, -, -, hstand, -⟩ := h.exists_sound_plan ht (by simp)
    exact h.canAdvance_of_claimed hticketed (Locks.mem_claimed_of_standing? hstand)
  | running guarded program =>
    cases guarded with
    | false => exact ⟨i, .running ht⟩
    | true =>
      obtain ⟨plan, -, -, -, hstand, -⟩ := h.exists_sound_plan ht (by simp)
      exact ⟨i, .holding ht hstand⟩
  | finished | abandoned => exact absurd rfl hover

/-! ## No entry is left over -/

/-- A move that gives nothing up leaves no entry over. -/
theorem Accounted.allClaimed_step (h : Accounted fails plans s) (hl : s.locks.AllClaimed)
    (hm : Step fails s m s') (hkept : ∀ i, m ≠ .abandon i) : s'.locks.AllClaimed := by
  cases hm with
  | @ask i plan ht hg =>
    obtain ⟨plan', -, -, -, hstand, -⟩ := h.exists_sound_plan ht (by simp)
    exact h.coherent.allClaimed_change hl
      (Locks.change_step (s := .lock i plan.name) (Locks.standing?_eq_none_iff.1 hstand)) nofun
  | enter | call => exact hl
  | @take i =>
    exact h.coherent.allClaimed_change hl (Locks.change_step (s := .poll i) trivial) nofun
  | @finish i guarded =>
    cases guarded with
    | true =>
      exact h.coherent.allClaimed_change hl (Locks.change_step (s := .release i) trivial) nofun
    | false => exact hl
  | @abandon i => exact absurd rfl (hkept i)

/-- Who has ended has given back what was asked for. -/
theorem Accounted.standing?_of_isOver (h : Accounted fails plans s) (hticketed : s.Ticketed)
    (ho : s.isOver = true) (i : Nat) : s.locks.standing? i = none := by
  by_cases hi : i < s.tasks.length
  · have ht : s.tasks[i]? = some s.tasks[i] := List.getElem?_eq_getElem hi
    have hover : (s.tasks[i]).isOver = true := List.all_eq_true.1 ho _ (List.getElem_mem hi)
    obtain ⟨plan?, hp⟩ := h.exists_plan ht
    have hfol := h.follows i plan? _ hp ht
    generalize s.tasks[i] = task at hover hfol
    match plan?, task, hfol with
    | .error _, .finished _, hfol => exact hfol.2.1
    | .ok _, .finished _, hfol | .ok _, .abandoned, hfol => exact hfol.1
    | .ok _, .ready _, _ | .ok _, .waiting _, _ | .ok _, .running .., _ => cases hover
  · exact hticketed i (by omega)

/-! ## Runs from the start -/

/-- A move is about a request of the session where the run began. -/
theorem task_lt_of_run? (hr : s.run? fails moves = some s') :
    ∀ m ∈ moves, m.task < s.tasks.length := by
  induction moves generalizing s with
  | nil => simp
  | cons m moves ih =>
    obtain ⟨t, hmove, hr⟩ := Option.bind_eq_some_iff.1 (run?_cons fails s m moves ▸ hr)
    have hm := step_of_move? hmove
    intro m' hm'
    rcases List.mem_cons.1 hm' with rfl | hm'
    · exact hm.task_lt
    · exact hm.length_tasks ▸ ih hr m' hm'

theorem run?_append (fails : Nat → Call → Option InfrastructureError) (s : Session)
    (moves more : List Move) :
    s.run? fails (moves ++ more) = (s.run? fails moves).bind fun t => t.run? fails more :=
  List.foldlM_append ..

theorem run?_singleton (fails : Nat → Call → Option InfrastructureError) (s : Session) (m : Move) :
    s.run? fails [m] = s.move? fails m := by
  simp [run?]

/-- The most moves that are made of one request, which asks for its lock, takes it, makes two calls
and ends. -/
def moveLimit : Nat := 5

variable {store : Store} {identifier : Nat → String} {requests : List Request} {task : Progress}

theorem within_start (ht : (start store identifier requests).tasks[i]? = some task) :
    task.Within moveLimit := by
  simp only [start_eq, List.getElem?_map, getElem?_plansOf, Option.map_map,
    Option.map_eq_some_iff] at ht
  obtain ⟨r, -, rfl⟩ := ht
  cases hp : r.plan (identifier i) with
  | ok plan => simpa [hp] using ⟨2, Request.plan_callsWithin hp, Nat.le_refl _⟩
  | error e => simp [hp, Progress.ofPlan, Progress.Within]

theorem length_tasks_start : (start store identifier requests).tasks.length = requests.length := by
  simp [start_eq, plansOf]

theorem ticketed_start : (start store identifier requests).Ticketed := by
  intro i _
  rw [start_eq]
  rfl

theorem Ticketed.run (h : s.Ticketed) (hr : s.run? fails moves = some s') : s'.Ticketed :=
  run?_induction (fun hs hm => hs.step hm) h hr

theorem count_task_le_moveLimit
    (hr : (start store identifier requests).run? fails moves = some s) (i : Nat) :
    (moves.map Move.task).count i ≤ moveLimit := by
  by_cases hi : i < (start store identifier requests).tasks.length
  · have ht := List.getElem?_eq_getElem hi
    exact count_task_le hr ht (within_start ht)
  · have hnone : i ∉ moves.map Move.task := by
      intro hmem
      obtain ⟨m, hm, rfl⟩ := List.mem_map.1 hmem
      exact hi (task_lt_of_run? hr m hm)
    rw [List.count_eq_zero_of_not_mem hnone]
    exact Nat.zero_le _

/-- No run goes on for longer. -/
theorem length_moves_le (hr : (start store identifier requests).run? fails moves = some s) :
    moves.length ≤ moveLimit * requests.length := by
  have hin : ∀ i ∈ (moves.map Move.task : Multiset Nat), i ∈ Finset.range requests.length := by
    intro i hi
    obtain ⟨m, hm, rfl⟩ := List.mem_map.1 (Multiset.mem_coe.1 hi)
    exact Finset.mem_range.2 (length_tasks_start ▸ task_lt_of_run? hr m hm)
  calc moves.length
      = ∑ i ∈ Finset.range requests.length, (moves.map Move.task : Multiset Nat).count i := by
        rw [Multiset.sum_count_eq_card hin, Multiset.coe_card, List.length_map]
    _ ≤ ∑ _i ∈ Finset.range requests.length, moveLimit :=
        Finset.sum_le_sum fun i _ => (Multiset.coe_count ..).trans_le (count_task_le_moveLimit hr i)
    _ = moveLimit * requests.length := by
        rw [Finset.sum_const_nat fun _ _ => rfl, Finset.card_range, Nat.mul_comm]

/-- Some request can go on in every session that was reached from the start and is not over. -/
theorem exists_canAdvance_of_run
    (hr : (start store identifier requests).run? fails moves = some s) (ho : s.isOver = false) :
    ∃ i, s.CanAdvance i :=
  ((accounted_start store identifier requests).run hr).exists_canAdvance (ticketed_start.run hr) ho

/-- However a session was reached from the start, all its requests can be brought to an end. -/
theorem exists_completion (hr : (start store identifier requests).run? fails moves = some s) :
    ∃ (more : List Nat) (t : Session),
      s.run? fails (more.map .advance) = some t ∧ t.isOver = true := by
  -- each move leaves fewer of those that a run from the start can have
  induction hleft : moveLimit * requests.length - moves.length using Nat.strong_induction_on
    generalizing moves s with
  | _ left ih =>
    cases ho : s.isOver with
    | true => exact ⟨[], s, rfl, ho⟩
    | false =>
      obtain ⟨i, hi⟩ := exists_canAdvance_of_run hr ho
      obtain ⟨next, hadvance⟩ := hi.exists_advance fails
      have hnext :
          (start store identifier requests).run? fails (moves ++ [.advance i]) = some next := by
        rw [run?_append, hr, Option.bind_some, run?_singleton]
        exact hadvance
      have hlimit := length_moves_le hnext
      rw [List.length_append, List.length_singleton] at hlimit
      obtain ⟨more, t, hmore, hover⟩ := ih _ (by
        rw [List.length_append, List.length_singleton]
        omega) hnext rfl
      refine ⟨i :: more, t, ?_, hover⟩
      rw [List.map_cons, run?_cons]
      exact Option.bind_eq_some_iff.2 ⟨next, hadvance, hmore⟩

/-- Without anybody who gives up no entry is left over. -/
theorem Accounted.allClaimed_run (h : Accounted fails plans s) (hl : s.locks.AllClaimed)
    (hr : s.run? fails moves = some s') (hkept : ∀ i, .abandon i ∉ moves) :
    s'.locks.AllClaimed := by
  induction moves generalizing s with
  | nil =>
    cases hr
    exact hl
  | cons m moves ih =>
    obtain ⟨t, hmove, hr⟩ := Option.bind_eq_some_iff.1 (run?_cons fails s m moves ▸ hr)
    have hm := step_of_move? hmove
    have hstep := h.allClaimed_step hl hm fun i hi => hkept i (by simp [hi])
    exact ih (h.step hm) hstep hr fun i hi => hkept i (List.mem_cons_of_mem m hi)

/-- Until all requests have ended, one of them can go on. Each makes but a few moves, so that every
run comes to an end, and can be brought there from wherever it is. Where none has given up, no entry
is left in the locks then. -/
theorem no_deadlock (hr : (start store identifier requests).run? fails moves = some s) :
    (s.isOver = false → ∃ i task t, s.tasks[i]? = some task ∧ task.isOver = false ∧
        s.CanAdvance i ∧ s.advance? fails i = some t) ∧
      ((∀ i, (moves.map Move.task).count i ≤ moveLimit) ∧
        moves.length ≤ moveLimit * requests.length) ∧
      (∃ (more : List Nat) (t : Session),
        s.run? fails (more.map .advance) = some t ∧ t.isOver = true) ∧
      (s.isOver = true → (∀ i, .abandon i ∉ moves) → s.locks.active = 0) := by
  refine ⟨fun ho => ?_, ⟨count_task_le_moveLimit hr, length_moves_le hr⟩, exists_completion hr,
    fun ho hkept => ?_⟩
  · obtain ⟨i, hi⟩ := exists_canAdvance_of_run hr ho
    obtain ⟨task, ht, hover⟩ := hi.exists_task
    obtain ⟨t, hadvance⟩ := hi.exists_advance fails
    exact ⟨i, task, t, ht, hover, hi, hadvance⟩
  · have hstart : Accounted fails (plansOf identifier requests) (start store identifier requests) :=
      accounted_start store identifier requests
    have hclaimed : s.locks.AllClaimed :=
      hstart.allClaimed_run (by rw [start_eq]; exact nofun) hr hkept
    have hnobody := (hstart.run hr).standing?_of_isOver (ticketed_start.run hr) ho
    exact hclaimed.active_eq_zero hnobody

/-- A name is created, deleted and fetched, and one request does not pass its checks. -/
def queued : List Request :=
  [.create ⟨"", "a", { name := "" }⟩, .delete ⟨"subnets/a", false⟩, .get ⟨"subnets/a"⟩,
    .get ⟨"subnets/A"⟩]

/-- The deletion waits for the creation. -/
def queuedMoves : List Move := [.advance 0, .advance 1, .advance 2, .advance 0, .advance 2]

/-- The store fails the deletion. -/
def lateFails (i : Nat) (_ : Call) : Option InfrastructureError :=
  if i = 1 then some ⟨.store, "late"⟩ else none

theorem no_deadlock_queued :
    (∃ s, (start .empty (fun _ => "x") queued).run? lateFails queuedMoves = some s ∧
        s.isOver = false ∧ s.advance? lateFails 1 = none ∧
        ∃ i task t, s.tasks[i]? = some task ∧ task.isOver = false ∧ s.CanAdvance i ∧
          s.advance? lateFails i = some t) ∧
      ∃ s, (start .empty (fun _ => "x") queued).run? lateFails
          (queuedMoves ++ [0, 0, 1, 2, 1, 1].map .advance) = some s ∧
        s.isOver = true ∧ s.result? 1 = some (.error (.storage "Store error: late")) ∧
        s.locks.active = 0 := by
  constructor
  · obtain ⟨s, hr, ho, hwaits⟩ : ∃ s,
        (start .empty (fun _ => "x") queued).run? lateFails queuedMoves = some s ∧
          s.isOver = false ∧ s.advance? lateFails 1 = none := ⟨_, rfl, rfl, rfl⟩
    exact ⟨s, hr, ho, hwaits, (no_deadlock hr).1 ho⟩
  · obtain ⟨s, hr, ho, hresult⟩ : ∃ s,
        (start .empty (fun _ => "x") queued).run? lateFails
            (queuedMoves ++ [0, 0, 1, 2, 1, 1].map .advance) = some s ∧
          s.isOver = true ∧ s.result? 1 = some (.error (.storage "Store error: late")) :=
      ⟨_, rfl, rfl, rfl⟩
    exact ⟨s, hr, ho, hresult, (no_deadlock hr).2.2.2 ho (by simp [queuedMoves])⟩

end Session
end SubnetRegistry
