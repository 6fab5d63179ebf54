import Mathlib.Tactic.ByContra
import SubnetRegistry.Session
import SubnetRegistry.Proofs.Locks.Standing
import SubnetRegistry.Proofs.Service.Program

/-!
# Moves of a session

Everything that a move can do, and what every move keeps: a request follows its plan, its ticket and
the calls it made are those of the place it has come to, and what it has read still holds.

## Main definitions

* `Session.Step` — the moves, one by one.
* `Session.Follows` — a request has come so far by its plan.
* `Session.Accounted` — all requests of a session follow their plans.

## Main statements

* `Session.step_of_move?` — there are no other moves.
* `Session.Accounted.step` — a move keeps the session accounted for.
-/
namespace SubnetRegistry.Session

variable {fails : Nat → Call → Option InfrastructureError} {s s' : Session} {i j : Nat}
  {task : Progress} {locks : Locks Nat}

inductive Step (fails : Nat → Call → Option InfrastructureError) (s : Session) :
    Move → Session → Prop
  | ask {i : Nat} {plan : Plan} (ht : s.tasks[i]? = some (.ready plan))
      (hg : plan.guarded = true) :
      Step fails s (.advance i)
        (s.settle i (.ofAnswer plan (s.locks.lock i plan.name).1) (s.locks.lock i plan.name).2)
  | enter {i : Nat} {plan : Plan} (ht : s.tasks[i]? = some (.ready plan))
      (hg : plan.guarded = false) :
      Step fails s (.advance i) (s.settle i (.running false plan.program) s.locks)
  | take {i : Nat} {plan : Plan} {name : String} (ht : s.tasks[i]? = some (.waiting plan))
      (ha : (s.locks.poll i).1 = .acquired name) :
      Step fails s (.advance i) (s.settle i (.running true plan.program) (s.locks.poll i).2)
  | call {i : Nat} {guarded : Bool} {program : Program} {c : Call}
      (ht : s.tasks[i]? = some (.running guarded program)) (hc : program.call? = some c) :
      Step fails s (.advance i)
        { s.settle i (.running guarded (program.step (fails i) s.store).1) s.locks with
          store := (program.step (fails i) s.store).2, calls := s.calls ++ [(i, c)] }
  | finish {i : Nat} {guarded : Bool} {result : Result}
      (ht : s.tasks[i]? = some (.running guarded (.answer result))) :
      Step fails s (.advance i)
        (s.settle i (.finished result) (if guarded then (s.locks.release i).2 else s.locks))
  | abandon {i : Nat} {plan : Plan} (ht : s.tasks[i]? = some (.waiting plan)) :
      Step fails s (.abandon i) (s.settle i .abandoned (s.locks.cancel i).2)

theorem step_of_move? {m : Move} (h : s.move? fails m = some s') : Step fails s m s' := by
  cases m with
  | abandon i =>
    simp only [move?, abandon?] at h
    split at h
    · next plan ht =>
      cases h
      exact .abandon ht
    · cases h
  | advance i =>
    simp only [move?, advance?] at h
    split at h
    · next plan ht =>
      split at h
      · next hg =>
        cases h
        exact .ask ht hg
      · next hg =>
        cases h
        exact .enter ht (Bool.not_eq_true _ ▸ hg)
    · next plan ht =>
      split at h
      · next name locks hp =>
        cases h
        have hl : locks = (s.locks.poll i).2 := by rw [hp]
        exact hl ▸ .take ht (by rw [hp])
      · cases h
    · next guarded result ht =>
      cases h
      exact .finish ht
    · next guarded program hne ht =>
      cases h
      cases hc : program.call? with
      | none =>
        obtain ⟨result, rfl⟩ := Program.exists_answer_of_call? hc
        exact absurd rfl (hne result)
      | some c => exact .call ht hc
    · cases h
    · cases h
    · cases h

/-! ## Tasks and calls -/

def callsOf (s : Session) (i : Nat) : List Call := (s.calls.filter fun e => e.1 = i).map Prod.snd

theorem tasks_settle_self (h : s.tasks[i]? = some task) (new : Progress) (locks : Locks Nat) :
    (s.settle i new locks).tasks[i]? = some new := by
  have hi : i < s.tasks.length := (List.getElem?_eq_some_iff.1 h).1
  simp [settle, hi]

theorem tasks_settle_of_ne (h : j ≠ i) (new : Progress) (locks : Locks Nat) :
    (s.settle i new locks).tasks[j]? = s.tasks[j]? := by
  simp [settle, Ne.symm h]

theorem callsOf_append_self {c : Call}
    (h : s'.calls = s.calls ++ [(i, c)]) : s'.callsOf i = s.callsOf i ++ [c] := by
  simp [callsOf, h]

theorem callsOf_append_of_ne {c : Call} (h : s'.calls = s.calls ++ [(i, c)]) (hj : j ≠ i) :
    s'.callsOf j = s.callsOf j := by
  simp [callsOf, h, Ne.symm hj]

/-! ## Requests that follow their plans -/

/-- The program of a request that runs by its plan: before its first call, after its last one, or in
between, where what it has read still holds. -/
def Going (fails : Call → Option InfrastructureError) (store : Store) (plan : Plan)
    (made : List Call) (program : Program) : Prop :=
  (program = plan.program ∧ made = []) ∨
    (made ≠ [] ∧ ∃ result, program = .answer result) ∨
    (made ≠ [] ∧ plan.guarded = true ∧ program.WritesLast plan.name ∧
      (∃ c, program.call? = some c) ∧
      plan.program.Resumes fails plan.name (store.get? plan.name) made program)

/-- A program with a call to make is what is left of its plan. -/
theorem Going.resumes {fails : Call → Option InfrastructureError} {store : Store} {plan : Plan}
    {made : List Call} {program : Program} {c : Call} (h : Going fails store plan made program)
    (hs : plan.Sound) (hc : program.call? = some c) :
    program.WritesLast plan.name ∧
      plan.program.Resumes fails plan.name (store.get? plan.name) made program := by
  rcases h with ⟨rfl, hnil⟩ | ⟨-, result, rfl⟩ | ⟨-, -, hw, -, hres⟩
  · exact ⟨hs.writesLast, hnil ▸ .start⟩
  · cases hc
  · exact ⟨hw, hres⟩

/-- How far a request has come by its plan, where its owner stands in the locks so and it has made
these calls. -/
def Follows (fails : Call → Option InfrastructureError) (store : Store)
    (standing : Option (String × Bool)) (made : List Call) :
    Except SubnetError Plan → Progress → Prop
  | .error e, .finished result => result = .error e ∧ standing = none ∧ made = []
  | .error _, _ => False
  | .ok plan, .ready p => p = plan ∧ standing = none ∧ made = []
  | .ok plan, .waiting p =>
    p = plan ∧ plan.guarded = true ∧ standing = some (plan.name, false) ∧ made = []
  | .ok plan, .running guarded program =>
    guarded = plan.guarded ∧ standing = (if guarded then some (plan.name, true) else none) ∧
      Going fails store plan made program
  | .ok _, .finished _ => standing = none ∧ made ≠ []
  | .ok _, .abandoned => standing = none ∧ made = []

/-- All requests of a session follow their plans, under coherent locks. -/
structure Accounted (fails : Nat → Call → Option InfrastructureError)
    (plans : List (Except SubnetError Plan)) (s : Session) : Prop where
  sound : ∀ (i : Nat) (plan : Plan), plans[i]? = some (.ok plan) → plan.Sound
  length : s.tasks.length = plans.length
  coherent : s.locks.Coherent
  callers : ∀ e ∈ s.calls, e.1 < plans.length
  follows : ∀ (i : Nat) (plan? : Except SubnetError Plan) (task : Progress),
    plans[i]? = some plan? → s.tasks[i]? = some task →
      Follows (fails i) s.store (s.locks.standing? i) (s.callsOf i) plan? task

namespace Accounted

variable {plans : List (Except SubnetError Plan)}

theorem exists_plan (h : Accounted fails plans s) (ht : s.tasks[i]? = some task) :
    ∃ plan?, plans[i]? = some plan? := by
  have hi : i < plans.length := h.length ▸ (List.getElem?_eq_some_iff.1 ht).1
  exact ⟨plans[i], List.getElem?_eq_getElem hi⟩

/-- A request that has more to do passed its checks. -/
theorem exists_sound_plan (h : Accounted fails plans s) (ht : s.tasks[i]? = some task)
    (hf : ∀ result, task ≠ .finished result) :
    ∃ plan, plans[i]? = some (.ok plan) ∧ plan.Sound ∧
      Follows (fails i) s.store (s.locks.standing? i) (s.callsOf i) (.ok plan) task := by
  obtain ⟨plan?, hp⟩ := h.exists_plan ht
  have hfol := h.follows i plan? task hp ht
  cases plan? with
  | ok plan => exact ⟨plan, hp, h.sound i plan hp, hfol⟩
  | error e =>
    cases task with
    | finished result => exact absurd rfl (hf result)
    | ready | waiting | running | abandoned => exact hfol.elim

/-- A move that makes no call: one request goes on, and nobody else sees a difference. -/
theorem settle (h : Accounted fails plans s) (ht : s.tasks[i]? = some task) {new : Progress}
    (hc : locks.Coherent) (ho : ∀ j, j ≠ i → locks.standing? j = s.locks.standing? j)
    (hi : ∀ plan?, plans[i]? = some plan? →
      Follows (fails i) s.store (locks.standing? i) (s.callsOf i) plan? new) :
    Accounted fails plans (s.settle i new locks) where
  sound := h.sound
  length := (List.length_set ..).trans h.length
  coherent := hc
  callers := h.callers
  follows j plan? task' hp ht' := by
    by_cases hj : j = i
    · subst hj
      rw [tasks_settle_self ht] at ht'
      cases ht'
      exact hi plan? hp
    · rw [tasks_settle_of_ne hj] at ht'
      have := h.follows j plan? task' hp ht'
      rw [← ho j hj] at this
      exact this

/-- A call of another request changes nothing of what a request has read. -/
theorem get?_call_of_ne (h : Accounted fails plans s) {guarded : Bool} {program : Program}
    (ht : s.tasks[i]? = some (.running guarded program)) (hj : j ≠ i) {name : String}
    (hs : s.locks.standing? j = some (name, true)) :
    (program.step (fails i) s.store).2.get? name = s.store.get? name := by
  obtain ⟨plan, -, hsound, hg, hstand, hgoing⟩ := h.exists_sound_plan ht (by simp)
  by_cases hguard : guarded = true
  · -- A request that may write holds the lock of its name, so the other name is a different one.
    have hne : name ≠ plan.name := by
      rintro rfl
      rw [if_pos hguard] at hstand
      exact hj (h.coherent.eq_of_holding hs hstand)
    rcases hgoing with ⟨rfl, -⟩ | ⟨-, result, rfl⟩ | ⟨-, -, hw, -⟩
    · exact hsound.writesLast.get?_step hne
    · rfl
    · exact hw.get?_step hne
  · have hfalse : plan.guarded = false := by rw [← hg]; simpa using hguard
    rcases hgoing with ⟨rfl, -⟩ | ⟨-, result, rfl⟩ | ⟨-, htrue, -⟩
    · obtain ⟨result, hstep⟩ := hsound.unguarded hfalse (fails i) s.store
      rw [hstep]
    · rfl
    · rw [hfalse] at htrue
      cases htrue

/-- What a running program is after its next call. -/
theorem going_call (h : Accounted fails plans s) {guarded : Bool} {program : Program} {c : Call}
    (ht : s.tasks[i]? = some (.running guarded program)) (hc : program.call? = some c) {plan : Plan}
    (hp : plans[i]? = some (.ok plan)) :
    Going (fails i) (program.step (fails i) s.store).2 plan (s.callsOf i ++ [c])
      (program.step (fails i) s.store).1 := by
  have hsound := h.sound i plan hp
  obtain ⟨hg, -, hgoing⟩ := h.follows i _ _ hp ht
  have hmade : s.callsOf i ++ [c] ≠ [] := by simp
  obtain ⟨hw, hres⟩ := hgoing.resumes hsound hc
  rcases hw.step_cases hc with hlast | ⟨next, rfl, rfl, hf⟩
  · exact .inr (.inl ⟨hmade, hlast⟩)
  · rw [Program.step_get hf]
    cases hcall : (next (s.store.get? plan.name)).call? with
    | none =>
      exact .inr (.inl ⟨hmade, Program.exists_answer_of_call? hcall⟩)
    | some c' =>
      refine .inr (.inr ⟨hmade, ?_, ?_, ⟨c', hcall⟩, hres.get hf⟩)
      · by_contra hfalse
        rcases hgoing with ⟨hprog, -⟩ | ⟨-, result, hans⟩ | ⟨-, hguard, -⟩
        · obtain ⟨result, hstep⟩ := hsound.unguarded (by simpa using hfalse) (fails i) s.store
          rw [← hprog, Program.step_get hf] at hstep
          rw [(Prod.mk.inj hstep).1] at hcall
          cases hcall
        · cases hans
        · exact hfalse hguard
      · have hstep : ((Program.get plan.name next).step (fails i) s.store).1.WritesLast plan.name :=
          hw.step
        rwa [Program.step_get hf] at hstep

/-- A move that makes a call: one request goes on, and what the others have read still holds. -/
theorem call (h : Accounted fails plans s) {guarded : Bool} {program : Program} {c : Call}
    (ht : s.tasks[i]? = some (.running guarded program)) (hc : program.call? = some c) :
    Accounted fails plans
      { s.settle i (.running guarded (program.step (fails i) s.store).1) s.locks with
        store := (program.step (fails i) s.store).2, calls := s.calls ++ [(i, c)] } := by
  refine ⟨h.sound, (List.length_set ..).trans h.length, h.coherent, ?_, ?_⟩
  · intro e he
    rcases List.mem_append.1 he with he | he
    · exact h.callers e he
    · rw [List.mem_singleton.1 he]
      exact h.length ▸ (List.getElem?_eq_some_iff.1 ht).1
  intro j plan? task hp hj
  by_cases hji : j = i
  · subst hji
    cases (tasks_settle_self ht _ s.locks).symm.trans hj
    rw [callsOf_append_self rfl]
    obtain ⟨plan, hp', -, hg, hstand, -⟩ := h.exists_sound_plan ht (by simp)
    cases hp.symm.trans hp'
    exact ⟨hg, hstand, h.going_call ht hc hp⟩
  · have hfol := h.follows j plan? task hp ((tasks_settle_of_ne hji _ s.locks).symm.trans hj)
    rw [callsOf_append_of_ne rfl hji]
    match plan?, task, hfol with
    | .error e, .finished result, hfol => exact hfol
    | .ok plan, .ready _, hfol | .ok plan, .waiting _, hfol | .ok plan, .finished _, hfol
    | .ok plan, .abandoned, hfol => exact hfol
    | .ok plan, .running guarded' program', ⟨hg, hstand, hgoing⟩ =>
      refine ⟨hg, hstand, ?_⟩
      rcases hgoing with hstart | hlast | ⟨hmade, hguard, hw, hcall, hres⟩
      · exact .inl hstart
      · exact .inr (.inl hlast)
      · refine .inr (.inr ⟨hmade, hguard, hw, hcall, ?_⟩)
        rw [if_pos (hg.trans hguard)] at hstand
        rwa [h.get?_call_of_ne ht hji hstand]

theorem step (h : Accounted fails plans s) {m : Move} (hm : Step fails s m s') :
    Accounted fails plans s' := by
  cases hm with
  | @ask i plan ht hg =>
    obtain ⟨plan', hp, -, rfl, hstand, hmade⟩ := h.exists_sound_plan ht (by simp)
    refine h.settle ht (h.coherent.lock (Locks.standing?_eq_none_iff.1 hstand))
      (fun j hj => Locks.standing?_lock_of_ne hj) fun plan? hp' => ?_
    cases hp.symm.trans hp'
    rcases Locks.standing?_lock_self plan.name hstand with ⟨ha, hs⟩ | ⟨ha, hs⟩
    · rw [ha]
      exact ⟨hg.symm, hs, .inl ⟨rfl, hmade⟩⟩
    · rw [ha]
      exact ⟨rfl, hg, hs, hmade⟩
  | @enter i plan ht hg =>
    obtain ⟨plan', hp, -, rfl, hstand, hmade⟩ := h.exists_sound_plan ht (by simp)
    refine h.settle ht h.coherent (fun _ _ => rfl) fun plan? hp' => ?_
    cases hp.symm.trans hp'
    exact ⟨hg.symm, hstand, .inl ⟨rfl, hmade⟩⟩
  | @take i plan name ht ha =>
    obtain ⟨plan', hp, -, rfl, hg, hstand, hmade⟩ := h.exists_sound_plan ht (by simp)
    refine h.settle ht h.coherent.poll (fun j hj => Locks.standing?_poll_of_ne hj) fun plan? hp' => ?_
    cases hp.symm.trans hp'
    exact ⟨hg.symm, Locks.standing?_poll_self hstand ha, .inl ⟨rfl, hmade⟩⟩
  | @finish i guarded result ht =>
    obtain ⟨plan, hp, hsound, hg, hstand, hgoing⟩ := h.exists_sound_plan ht (by simp)
    have hmade : s.callsOf i ≠ [] := by
      rcases hgoing with ⟨hprog, -⟩ | ⟨hmade, -⟩ | ⟨hmade, -⟩
      · obtain ⟨c, hc⟩ := hsound.calls
        rw [← hprog] at hc
        cases hc
      · exact hmade
      · exact hmade
    cases guarded with
    | true =>
      refine h.settle ht h.coherent.release (fun j hj => Locks.standing?_release_of_ne hj)
        fun plan? hp' => ?_
      cases hp.symm.trans hp'
      exact ⟨Locks.standing?_release_self hstand, hmade⟩
    | false =>
      refine h.settle ht h.coherent (fun _ _ => rfl) fun plan? hp' => ?_
      cases hp.symm.trans hp'
      exact ⟨hstand, hmade⟩
  | @abandon i plan ht =>
    obtain ⟨plan', hp, -, rfl, hg, hstand, hmade⟩ := h.exists_sound_plan ht (by simp)
    refine h.settle ht h.coherent.cancel (fun j hj => Locks.standing?_cancel_of_ne hj)
      fun plan? hp' => ?_
    cases hp.symm.trans hp'
    exact ⟨Locks.standing?_cancel_self hstand, hmade⟩
  | @call i guarded program c ht hc => exact h.call ht hc

end Accounted

/-! ## Runs -/

theorem run?_cons (fails : Nat → Call → Option InfrastructureError) (s : Session) (m : Move)
    (moves : List Move) :
    s.run? fails (m :: moves) = (s.move? fails m).bind fun t => t.run? fails moves := rfl

/-- What every move keeps, a run keeps. -/
theorem run?_induction {P : Session → Prop} {moves : List Move}
    (hstep : ∀ {s m s'}, P s → Step fails s m s' → P s') (h : P s)
    (hr : s.run? fails moves = some s') : P s' := by
  induction moves generalizing s with
  | nil =>
    cases hr
    exact h
  | cons m moves ih =>
    obtain ⟨t, ht, hr⟩ := Option.bind_eq_some_iff.1 (run?_cons fails s m moves ▸ hr)
    exact ih (hstep h (step_of_move? ht)) hr

theorem foldl_enter (plans : List (Except SubnetError Plan)) (s : Session) :
    plans.foldl enter s = { s with tasks := s.tasks ++ plans.map .ofPlan } := by
  induction plans generalizing s with
  | nil => simp
  | cons plan plans ih => simp [ih, enter]

def plansOf (identifier : Nat → String) (requests : List Request) :
    List (Except SubnetError Plan) :=
  requests.mapIdx fun i r => r.plan (identifier i)

theorem getElem?_plansOf (identifier : Nat → String) (requests : List Request) (i : Nat) :
    (plansOf identifier requests)[i]? = requests[i]?.map fun r => r.plan (identifier i) := by
  simp [plansOf]

theorem start_eq (store : Store) (identifier : Nat → String) (requests : List Request) :
    start store identifier requests =
      ⟨store, .empty, (plansOf identifier requests).map .ofPlan, []⟩ := by
  rw [start, foldl_enter]
  rfl

theorem accounted_start (store : Store) (identifier : Nat → String) (requests : List Request) :
    Accounted fails (plansOf identifier requests) (start store identifier requests) := by
  rw [start_eq]
  refine ⟨?_, List.length_map .., Locks.coherent_empty, nofun, ?_⟩
  · intro i plan hp
    rw [getElem?_plansOf] at hp
    obtain ⟨r, -, hr⟩ := Option.map_eq_some_iff.1 hp
    exact Request.plan_sound hr
  · intro i plan? task hp ht
    rw [List.getElem?_map, hp] at ht
    cases ht
    cases plan? <;> exact ⟨rfl, rfl, rfl⟩

theorem Accounted.run {plans : List (Except SubnetError Plan)} {moves : List Move}
    (h : Accounted fails plans s) (hr : s.run? fails moves = some s') :
    Accounted fails plans s' :=
  run?_induction (fun hs hm => hs.step hm) h hr

end SubnetRegistry.Session
