import Mathlib.Data.Set.Card
import SubnetRegistry.Store

/-!
# A store is a map

A store replies to every step as the function from names to subnets does that `get?` reads from it, and
does to that function what the step says. The function has under each name what the last step about the
name put there, and the store has as many entries as the function has names.

## Main definitions

* `View`, `View.step` — functions from names to subnets, and their replies.
* `Store.Step.run` — some steps, one after the other.
* `Store.Step.told`, `Store.Step.lastTold` — what one step says of a name, and what the last one says.

## Main statements

* `Store.step_view`, `Store.run_view` — a step and some steps, on a store and on its view.
* `View.run_eq` — what the last steps say is what the view has then.
* `Store.put_eq_self`, `Store.delete_eq_self` — steps that change nothing.
* `Store.size_eq_ncard`, `Store.size_step` — the number of entries, and what a step makes of it.
* `Store.answers_as_map` — all of it, from any seed.
-/
namespace SubnetRegistry

open Store (Step Reply)

abbrev View := String → Option Subnet

variable {name : String} {subnet : Subnet} {s : Store}

/-! ## Steps -/

namespace Store.Step

/-- The replies to some steps, one after the other, and what there is after them. -/
def run {σ : Type} (step : σ → Step → Reply × σ) (start : σ) : List Step → List Reply × σ
  | [] => ([], start)
  | x :: rest =>
    let (reply, next) := step start x
    let (replies, last) := run step next rest
    (reply :: replies, last)

/-- What a function of the state makes of every step, it makes of a run. -/
theorem run_map {σ τ : Type} {step : σ → Step → Reply × σ} {step' : τ → Step → Reply × τ} {f : σ → τ}
    (h : ∀ s x, step' (f s) x = Prod.map id f (step s x)) (start : σ) (steps : List Step) :
    run step' (f start) steps = Prod.map id f (run step start steps) := by
  induction steps generalizing start with
  | nil => rfl
  | cons x rest ih => simp only [run, h, ih, Prod.map_fst, Prod.map_snd, id, Prod.map_apply]

theorem run_append {σ : Type} (step : σ → Step → Reply × σ) (start : σ) (steps more : List Step) :
    (run step start (steps ++ more)).2 = (run step (run step start steps).2 more).2 := by
  induction steps generalizing start with
  | nil => rfl
  | cons x rest ih => exact ih _

/-- What a step says of a name: that a subnet is stored under it, that nothing is, or nothing. -/
def told (name : String) : Step → Option (Option Subnet)
  | .put key subnet => if key = name then some (some subnet) else none
  | .delete key => if key = name then some none else none
  | .get _ | .contains _ | .size => none

/-- What the last of the steps about a name says of it. If there are none, nothing is stored there. -/
def lastTold (steps : List Step) : View := fun name =>
  (steps.filterMap (told name)).getLast?.getD none

theorem lastTold_append_singleton (steps : List Step) (x : Step) (name : String) :
    lastTold (steps ++ [x]) name = (x.told name).getD (lastTold steps name) := by
  cases h : x.told name <;> simp [lastTold, h]

def ofEntry (e : String × Subnet) : Step := .put e.1 e.2

end Store.Step

/-! ## Views -/

namespace View

def names (view : View) : Set String := {name | view name ≠ none}

noncomputable def step (view : View) : Step → Reply × View
  | .get name => (.found (view name), view)
  | .put name subnet => (.done, Function.update view name (some subnet))
  | .delete name => (.present (view name).isSome, Function.update view name none)
  | .contains name => (.present (view name).isSome, view)
  | .size => (.count view.names.ncard, view)

theorem step_apply (view : View) (x : Step) (name : String) :
    (view.step x).2 name = (x.told name).getD (view name) := by
  cases x with
  | get | contains | size => rfl
  | put key subnet | delete key =>
    simp only [step, Step.told, Function.update_apply, eq_comm (a := name)]
    split <;> rfl

/-- After some steps, a name has what the last step about it says. -/
theorem run_eq (steps : List Step) : (Step.run step (fun _ => none) steps).2 = Step.lastTold steps := by
  -- from the end, since the last step about a name decides
  induction steps using List.reverseRecOn with
  | nil => rfl
  | append_singleton steps x ih =>
    funext name
    rw [Step.run_append, ih, Step.lastTold_append_singleton]
    exact step_apply _ x name

theorem names_put (view : View) (name : String) (subnet : Subnet) :
    names (Function.update view name (some subnet)) = insert name view.names := by
  ext other
  by_cases h : other = name <;> simp [names, h]

theorem names_delete (view : View) (name : String) :
    names (Function.update view name none) = view.names \ {name} := by
  ext other
  by_cases h : other = name <;> simp [names, h]

end View

/-! ## Stores -/

namespace Store

theorem view_put (s : Store) (name : String) (subnet : Subnet) :
    (s.put name subnet).get? = Function.update s.get? name (some subnet) := by
  funext other
  rw [get?_put, Function.update_apply]

theorem view_delete (s : Store) (name : String) :
    (s.delete name).get? = Function.update s.get? name none := by
  funext other
  rw [get?_delete, Function.update_apply]

theorem mem_names_iff : name ∈ View.names s.get? ↔ name ∈ s.entries.map Prod.fst := by
  simp [View.names, get?]

theorem contains_eq_true_iff : s.contains name = true ↔ name ∈ View.names s.get? :=
  Option.isSome_iff_ne_none

theorem contains_eq_false_iff : s.contains name = false ↔ s.get? name = none := by
  rw [contains, Option.isSome_eq_false_iff, Option.isNone_iff_eq_none]

theorem names_eq (s : Store) :
    View.names s.get? = ((s.entries.map Prod.fst).toFinset : Set String) := by
  ext name
  simp [mem_names_iff]

theorem finite_names (s : Store) : (View.names s.get?).Finite := by
  rw [names_eq]
  exact Finset.finite_toSet _

/-- There are as many entries as names with a subnet. -/
theorem size_eq_ncard (s : Store) : s.size = (View.names s.get?).ncard := by
  rw [names_eq, Set.ncard_coe_finset, List.toFinset_card_of_nodup s.nodup, List.length_map, size]

/-- A store replies as its view does, and its view changes as that one does. -/
theorem step_view (s : Store) (x : Step) : View.step s.get? x = Prod.map id get? (s.step x) := by
  cases x with
  | get | contains => rfl
  | put name subnet => exact congrArg (Prod.mk _) (s.view_put name subnet).symm
  | delete name => exact congrArg (Prod.mk _) (s.view_delete name).symm
  | size => exact congrArg (fun n => (Reply.count n, s.get?)) s.size_eq_ncard.symm

theorem run_view (s : Store) (steps : List Step) :
    Step.run View.step s.get? steps = Prod.map id get? (Step.run step s steps) :=
  Step.run_map step_view s steps

/-! ## Stores that are left alone -/

theorem insertEntry_eq_self {entries : List (String × Subnet)}
    (h : entries.lookup name = some subnet) : insertEntry name subnet entries = entries := by
  induction entries with
  | nil => cases h
  | cons entry rest ih =>
    obtain ⟨key, value⟩ := entry
    rw [lookup_cons_eq] at h
    by_cases hk : key = name
    · rw [if_pos hk.symm] at h
      cases h
      rw [insertEntry, if_pos hk, hk]
    · rw [if_neg fun hn => hk hn.symm] at h
      rw [insertEntry, if_neg hk, ih h]

/-- Nothing changes where the same is stored again. -/
theorem put_eq_self (h : s.get? name = some subnet) : s.put name subnet = s := by
  obtain ⟨entries, nodup⟩ := s
  simp only [put, insertEntry_eq_self h]

/-- Nothing is lost where there is nothing. -/
theorem delete_eq_self (h : s.contains name = false) : s.delete name = s := by
  have hnone : s.entries.lookup name = none := contains_eq_false_iff.1 h
  have herase : eraseEntry name s.entries = s.entries := by
    refine List.filter_eq_self.2 fun e he => ?_
    have hne := List.lookup_eq_none_iff.1 hnone e he
    exact bne_iff_ne.2 (bne_iff_ne.1 hne).symm
  obtain ⟨entries, nodup⟩ := s
  simp only [delete, herase]

/-! ## The number of entries -/

theorem size_put (s : Store) (name : String) (subnet : Subnet) :
    (s.put name subnet).size = if s.contains name then s.size else s.size + 1 := by
  rw [size_eq_ncard, view_put, View.names_put, size_eq_ncard s]
  split
  · next h => rw [Set.insert_eq_of_mem (contains_eq_true_iff.1 h)]
  · next h => exact Set.ncard_insert_of_notMem (mt contains_eq_true_iff.2 h) s.finite_names

theorem size_delete (s : Store) (name : String) :
    (s.delete name).size + (if s.contains name then 1 else 0) = s.size := by
  rw [size_eq_ncard, view_delete, View.names_delete, size_eq_ncard s]
  split
  · next h => exact Set.ncard_sdiff_singleton_add_one (contains_eq_true_iff.1 h) s.finite_names
  · next h => rw [Set.sdiff_singleton_eq_self (mt contains_eq_true_iff.2 h), Nat.add_zero]

/-- A store gains an entry by what is put under a new name, loses one by a deletion that finds something,
and has as many as before after any other step. -/
theorem size_step (s : Store) (x : Step) :
    let (reply, t) := s.step x
    (t.size = s.size + 1 ↔ ∃ name subnet, x = .put name subnet ∧ s.get? name = none) ∧
      (t.size + 1 = s.size ↔ ∃ name, x = .delete name ∧ reply = .present true) ∧
      (t.size = s.size + 1 ∨ t.size + 1 = s.size ∨ t.size = s.size) := by
  cases x with
  | get | contains | size => simp [step]
  | put name subnet =>
    have hput := s.size_put name subnet
    cases hc : s.contains name with
    | true =>
      have hsome : s.get? name ≠ none := contains_eq_true_iff.1 hc
      rw [hc, if_pos rfl] at hput
      simp [step, hput, hsome]
    | false =>
      rw [hc, if_neg Bool.false_ne_true] at hput
      have hmore : s.size + 1 + 1 ≠ s.size := by omega
      simp [step, hput, hmore, contains_eq_false_iff.1 hc]
  | delete name =>
    have hdelete := s.size_delete name
    cases hc : s.contains name with
    | true =>
      rw [hc, if_pos rfl] at hdelete
      have hless : (s.delete name).size ≠ s.size + 1 := by omega
      simp [step, hdelete, hless, hc]
    | false =>
      rw [hc, if_neg Bool.false_ne_true, Nat.add_zero] at hdelete
      simp [step, hdelete, hc]

/-! ## From a seed -/

theorem foldl_put_eq_run (s : Store) (seed : List (String × Subnet)) :
    seed.foldl (fun s e => s.put e.1 e.2) s = (Step.run step s (seed.map Step.ofEntry)).2 := by
  induction seed generalizing s with
  | nil => rfl
  | cons e rest ih => exact ih _

/-- A seed is as good as its entries put one after the other. -/
theorem run_ofSeed (seed : List (String × Subnet)) (steps : List Step) :
    (Step.run step (ofSeed seed) steps).2 =
      (Step.run step empty (seed.map Step.ofEntry ++ steps)).2 := by
  rw [Step.run_append, ofSeed, foldl_put_eq_run]

/-- What is stored after some steps is what the last steps say. -/
theorem get?_run (seed : List (String × Subnet)) (steps : List Step) :
    (Step.run step (ofSeed seed) steps).2.get? = Step.lastTold (seed.map Step.ofEntry ++ steps) := by
  have hview := congrArg Prod.snd (run_view empty (seed.map Step.ofEntry ++ steps))
  rw [run_ofSeed, ← View.run_eq]
  exact hview.symm

theorem get?_ofSeed (seed : List (String × Subnet)) :
    (ofSeed seed).get? = Step.lastTold (seed.map Step.ofEntry) := by
  have h := get?_run seed []
  rwa [List.append_nil] at h

/-- A store made of a seed replies to any steps as the function does that the seed makes up, and has then
under each name what the last step about the name left there. It has as many entries as names with a
subnet: one more after what is put under an absent name, and after nothing else; one less after a deletion
that finds something, and after nothing else; and as many as before after the rest. -/
theorem answers_as_map (seed : List (String × Subnet)) (steps : List Step) :
    let (replies, s) := Step.run step (ofSeed seed) steps
    (replies, s.get?) = Step.run View.step (Step.lastTold (seed.map Step.ofEntry)) steps ∧
      s.get? = Step.lastTold (seed.map Step.ofEntry ++ steps) ∧
      (View.names s.get?).Finite ∧ s.size = (View.names s.get?).ncard ∧
      ∀ x,
        let (reply, t) := s.step x
        (t.size = s.size + 1 ↔ ∃ name subnet, x = .put name subnet ∧ s.get? name = none) ∧
          (t.size + 1 = s.size ↔ ∃ name, x = .delete name ∧ reply = .present true) ∧
          (t.size = s.size + 1 ∨ t.size + 1 = s.size ∨ t.size = s.size) := by
  have hrun := run_view (ofSeed seed) steps
  rw [get?_ofSeed] at hrun
  exact ⟨hrun.symm, get?_run seed steps, finite_names _, size_eq_ncard _, size_step _⟩

example :
    (Step.run step (ofSeed [("a", {}), ("b", {}), ("a", { name := "x" })])
      [.get "a", .delete "a", .delete "a", .size, .put "a" {}, .contains "a", .size]).1 =
      [.found (some { name := "x" }), .present true, .present false, .count 1, .done, .present true,
        .count 2] := by
  decide

end Store
end SubnetRegistry
