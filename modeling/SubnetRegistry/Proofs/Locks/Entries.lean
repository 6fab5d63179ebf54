import Mathlib.Data.List.Dedup
import Mathlib.Data.List.Induction
import SubnetRegistry.Proofs.Locks.Changes

/-!
# The entries of the table

The table has an entry for each name that somebody holds or waits for. It has another one for each name
whose last claim was a promise that was given up; nobody is in the way there, and the entry goes when
the name is next locked and released.

## Main definitions

* `Locks.names`, `Locks.claimed` — the names in the table, and those that somebody holds or waits for.
* `LeftOver` — a name whose entry stays behind, told from the run.

## Main statements

* `mem_claimed_change`, `Coherent.mem_names_change`, `leftOver_change` — what a step does to each.
* `mem_names_after` — the names in the table after a run.
* `live_entries` — the same, with what it means for the number of entries and for later steps.
-/
namespace SubnetRegistry.Locks

variable {ι : Type} {l l' : Locks ι} {name : String} {t : Ticket ι} {owner : ι}

def names (l : Locks ι) : List String := l.table.map Prod.fst

/-- The names that somebody holds or waits for. -/
def claimed (l : Locks ι) : List String := l.tickets.map Ticket.name

def ClaimedByOther (l : Locks ι) (owner : ι) (name : String) : Prop :=
  ∃ t ∈ l.tickets, t.owner ≠ owner ∧ t.name = name

theorem mem_names_iff : name ∈ l.names ↔ (l.slot? name).isSome := by
  rw [slot?, List.lookup_isSome_iff, names, List.mem_map]
  exact exists_congr fun e => and_congr_right fun _ => by rw [beq_iff_eq, eq_comm]

theorem mem_claimed_iff : name ∈ l.claimed ↔ ∃ t ∈ l.tickets, t.name = name := by
  simp [claimed]

theorem ClaimedByOther.mem_claimed (h : l.ClaimedByOther owner name) : name ∈ l.claimed := by
  obtain ⟨t, ht, -, htn⟩ := h
  exact mem_claimed_iff.2 ⟨t, ht, htn⟩

theorem mem_names_opened {other : String} :
    other ∈ (l.opened name).names ↔ other = name ∨ other ∈ l.names := by
  rw [mem_names_iff, mem_names_iff, slot?_opened]
  split <;> simp_all

/-- A name that is claimed has an entry. -/
theorem Coherent.mem_names_of_mem_claimed (h : Coherent l) (hn : name ∈ l.claimed) :
    name ∈ l.names := by
  obtain ⟨t, ht, rfl⟩ := mem_claimed_iff.1 hn
  rw [mem_names_iff, h.current t ht, Option.isSome_some]

/-- Dropping an entry takes away one that is not claimed, and no other. -/
theorem Coherent.mem_names_dropIdle (h : Coherent l) (name other : String) :
    other ∈ (l.dropIdle name).names ↔ other ∈ l.names ∧ (other = name → name ∈ l.claimed) := by
  unfold Locks.dropIdle
  split
  · next slot hs =>
    have hclaimed : (l.tickets.any fun t => t.slot = slot) = true ↔ name ∈ l.claimed := by
      rw [mem_claimed_iff, List.any_eq_true]
      refine exists_congr fun t => and_congr_right fun ht => ?_
      rw [decide_eq_true_iff]
      constructor
      · rintro rfl
        exact h.apart (h.current t ht) hs
      · rintro rfl
        exact Option.some.inj ((h.current t ht).symm.trans hs)
    split
    · next hany => simp [hclaimed.1 hany]
    · next hidle =>
      have hfree : name ∉ l.claimed := fun hn => hidle (hclaimed.2 hn)
      simp only [Locks.names, List.mem_map, List.mem_filter, decide_eq_true_iff]
      grind
  · next hs =>
    have hout : name ∉ l.names := by simp [mem_names_iff, hs]
    grind

/-- A lock that is taken is claimed. -/
theorem Coherent.mem_claimed_of_taken (h : Coherent l)
    (htaken : isTaken l.tickets (l.slotFor name) = true) : name ∈ l.claimed := by
  obtain ⟨t, ht, hs, -⟩ := isTaken_iff.1 htaken
  refine mem_claimed_iff.2 ⟨t, ht, ?_⟩
  have hslot := h.current t ht
  rw [hs, slotFor] at hslot
  cases hfor : l.slot? name with
  | some slot =>
    rw [hfor, Option.getD_some] at hslot
    exact h.apart hslot hfor
  | none =>
    rw [hfor, Option.getD_none] at hslot
    exact absurd (h.fresh hslot) (Nat.lt_irrefl _)

/-- Nobody has to wait for a name that is not claimed. -/
theorem Coherent.lock_of_not_mem_claimed (h : Coherent l) (hn : name ∉ l.claimed) (owner : ι) :
    (l.lock owner name).1 = .acquired name := by
  rw [lock_eq]
  exact if_neg fun htaken => hn (h.mem_claimed_of_taken htaken)

variable [DecidableEq ι]

/-! ## What a step does -/

theorem mem_map_name_withdraw :
    name ∈ (withdraw owner l.tickets).map Ticket.name ↔ l.ClaimedByOther owner name := by
  simp [ClaimedByOther, and_assoc]

theorem mem_map_name_promiseNext (slot : Nat) :
    name ∈ (promiseNext slot (withdraw owner l.tickets)).map Ticket.name ↔
      l.ClaimedByOther owner name := by
  rw [map_promiseNext fun _ _ => rfl]
  exact mem_map_name_withdraw

/-- The names that are claimed after a step. -/
theorem mem_claimed_change {s : Step ι} {r : Reply} (hc : Change l s r l') (name : String) :
    name ∈ l'.claimed ↔ match s, r with
      | .lock _ asked, _ => name = asked ∨ name ∈ l.claimed
      | .release owner, .done true | .cancel owner, .done true => l.ClaimedByOther owner name
      | _, _ => name ∈ l.claimed := by
  cases hc with
  | join | enter => simp [claimed, or_comm]
  | take => rw [claimed, map_setPhase fun _ _ => rfl]; rfl
  | giveBack => rw [claimed, tickets_dropIdle]; exact mem_map_name_promiseNext _
  | leave => exact mem_map_name_withdraw
  | decline => exact mem_map_name_promiseNext _
  | idle hidle => cases hidle <;> rfl

/-- The names in the table after a step. -/
theorem Coherent.mem_names_change (h : Coherent l) {s : Step ι} {r : Reply} (hc : Change l s r l')
    (name : String) :
    name ∈ l'.names ↔ match s, r with
      | .lock _ asked, _ => name = asked ∨ name ∈ l.names
      | .release owner, .done true =>
        name ∈ l.names ∧ (name ∈ l.claimed → l.ClaimedByOther owner name)
      | _, _ => name ∈ l.names := by
  cases hc with
  | join | enter => exact mem_names_opened
  | take | leave | decline => rfl
  | @giveBack owner t ht hp =>
    obtain ⟨htm, hto⟩ := h.ticket?_eq_some_iff.1 ht
    have hdrop := (h.handOver htm hto (by simp [hp])).mem_names_dropIdle t.name name
    refine hdrop.trans (and_congr_right fun _ => ?_)
    rw [claimed, mem_map_name_promiseNext]
    constructor
    · intro hkept hn
      by_cases heq : name = t.name
      · exact heq ▸ hkept heq
      · obtain ⟨u, hu, hun⟩ := mem_claimed_iff.1 hn
        refine ⟨u, hu, fun huo => heq ?_, hun⟩
        rw [← hun, h.eq_of_owner hu htm (huo.trans hto.symm)]
    · rintro hkept rfl
      exact hkept (mem_claimed_iff.2 ⟨t, htm, rfl⟩)
  | idle hidle => cases hidle <;> rfl

/-! ## What a run leaves behind -/

/-- The last claim to a name was a promise, with nobody behind it, which was given up, and nobody has
asked for the name since. -/
def LeftOver (steps : List (Step ι)) (name : String) : Prop :=
  ∃ before owner slot since, steps = before ++ .cancel owner :: since ∧
    ((empty : Locks ι).after before).line name = [⟨owner, name, slot, .promised⟩] ∧
    ∀ other, .lock other name ∉ since

theorem leftOver_append {steps : List (Step ι)} {s : Step ι} :
    LeftOver (steps ++ [s]) name ↔
      (∃ owner slot, s = .cancel owner ∧
        ((empty : Locks ι).after steps).line name = [⟨owner, name, slot, .promised⟩]) ∨
      LeftOver steps name ∧ ∀ other, s ≠ .lock other name := by
  constructor
  · rintro ⟨before, owner, slot, since, hsteps, hline, hsince⟩
    rcases List.eq_nil_or_concat since with rfl | ⟨since, last, rfl⟩
    · obtain ⟨rfl, hs⟩ := List.append_inj' hsteps rfl
      exact .inl ⟨owner, slot, List.singleton_inj.1 hs, hline⟩
    · rw [List.concat_eq_append, ← List.cons_append, ← List.append_assoc] at hsteps
      obtain ⟨rfl, hs⟩ := List.append_inj' hsteps rfl
      obtain rfl := List.singleton_inj.1 hs
      refine .inr ⟨⟨before, owner, slot, since, rfl, hline, fun other hin => ?_⟩, ?_⟩
      · exact hsince other (by simp [hin])
      · rintro other rfl
        exact hsince other (by simp)
  · rintro (⟨owner, slot, rfl, hline⟩ | ⟨⟨before, owner, slot, since, rfl, hline, hsince⟩, hs⟩)
    · exact ⟨steps, owner, slot, [], rfl, hline, by simp⟩
    · refine ⟨before, owner, slot, since ++ [s], by simp, hline, fun other hin => ?_⟩
      rcases List.mem_append.1 hin with hin | hin
      · exact hsince other hin
      · exact hs other (List.mem_singleton.1 hin).symm

theorem after_append (steps : List (Step ι)) (s : Step ι) :
    l.after (steps ++ [s]) = ((l.after steps).step s).2 := by
  simp [after]

theorem proper_append {steps : List (Step ι)} {s : Step ι} :
    l.Proper (steps ++ [s]) ↔ l.Proper steps ∧ (l.after steps).Allowed s := by
  induction steps generalizing l with
  | nil => simp [Proper, after]
  | cons first rest ih => simp [Proper, ih, and_assoc, after]

/-- Who waits for a name that nobody else claims is promised the lock. -/
theorem Coherent.line_eq_singleton_iff (h : Coherent l) (ht : l.ticket? owner = some t)
    (hp : t.phase ≠ .holding) :
    (∃ slot, l.line name = [⟨owner, name, slot, .promised⟩]) ↔
      name ∈ l.claimed ∧ ¬ l.ClaimedByOther owner name := by
  obtain ⟨htm, rfl⟩ := h.ticket?_eq_some_iff.1 ht
  constructor
  · rintro ⟨slot, hl⟩
    refine ⟨mem_claimed_iff.2 ⟨_, mem_line.1 (hl ▸ List.mem_singleton_self _)⟩, ?_⟩
    rintro ⟨u, hu, huo, hun⟩
    have hul := mem_line.2 ⟨hu, hun⟩
    rw [hl, List.mem_singleton] at hul
    exact huo (hul ▸ rfl)
  · rintro ⟨hn, hlast⟩
    have heq : ∀ u ∈ l.line name, u = t := fun u hu => by
      obtain ⟨hum, hun⟩ := mem_line.1 hu
      exact h.eq_of_owner hum htm (by_contra fun huo => hlast ⟨u, hum, huo, hun⟩)
    obtain ⟨u, hu⟩ := mem_claimed_iff.1 hn
    obtain ⟨v, rest, hl⟩ := List.exists_cons_of_ne_nil (List.ne_nil_of_mem (mem_line.2 hu))
    obtain ⟨hhead, hqueue⟩ := h.line_eq_cons hl
    obtain rfl : v = t := heq v (by simp [hl])
    have hrest : rest = [] := by
      refine List.eq_nil_iff_forall_not_mem.2 fun w hw => hhead ?_
      rw [← heq w (by simp [hl, hw])]
      exact hqueue w hw
    have hvn : v.name = name := (mem_line.1 (hl ▸ List.mem_cons_self)).2
    have hpromised : v.phase = .promised := by
      cases hphase : v.phase <;> simp_all
    exact ⟨v.slot, by rw [hl, hrest, ← hvn, ← hpromised]⟩

/-- A name is left over after a step if it was before and is not asked for, or its last claim is given
up. -/
theorem leftOver_change {steps : List (Step ι)} {s : Step ι} {r : Reply}
    (hl : (empty : Locks ι).after steps = l) (h : Coherent l) (hc : Change l s r l')
    (name : String) :
    LeftOver (steps ++ [s]) name ↔ match s, r with
      | .lock _ asked, _ => LeftOver steps name ∧ name ≠ asked
      | .cancel owner, .done true =>
        LeftOver steps name ∨ name ∈ l.claimed ∧ ¬ l.ClaimedByOther owner name
      | _, _ => LeftOver steps name := by
  rw [leftOver_append, hl]
  cases hc with
  | @join owner asked | @enter owner asked =>
    have hother : (∀ other, Step.lock owner asked ≠ .lock other name) ↔ name ≠ asked := by
      simp [eq_comm]
    simp only [hother, reduceCtorEq, false_and, exists_false, false_or]
  | @leave owner t ht hp | @decline owner t ht hp =>
    have hlast : (∃ slot, l.line name = [⟨owner, name, slot, .promised⟩]) ↔ _ :=
      h.line_eq_singleton_iff ht (by simp [hp])
    simp [← hlast, or_comm]
  | take | giveBack => simp
  | idle hidle =>
    cases hidle with
    | queued | poll | release | active => simp
    | @cancel owner hn =>
      have hnot : ∀ slot, l.line name ≠ [⟨owner, name, slot, .promised⟩] := by
        intro slot hline
        have hin := (mem_line.1 (hline ▸ List.mem_singleton_self _)).1
        simpa using hn _ (h.ticket?_eq_some_iff.2 ⟨hin, rfl⟩)
      grind

/-- The names in the table after a run are those that are claimed and those that are left over, and no
name is both. -/
theorem mem_names_after {steps : List (Step ι)} (h : (empty : Locks ι).Proper steps)
    (name : String) :
    (name ∈ ((empty : Locks ι).after steps).names ↔
        name ∈ ((empty : Locks ι).after steps).claimed ∨ LeftOver steps name) ∧
      (LeftOver steps name → name ∉ ((empty : Locks ι).after steps).claimed) := by
  induction steps using List.reverseRecOn with
  | nil =>
    have hnone : ¬ LeftOver ([] : List (Step ι)) name := by
      rintro ⟨before, owner, slot, since, hsteps, -⟩
      simp at hsteps
    simp [hnone, after, empty, names, claimed]
  | append_singleton steps s ih =>
    obtain ⟨hproper, hallowed⟩ := proper_append.1 h
    obtain ⟨hiff, hdisjoint⟩ := ih hproper
    have hcoherent : Coherent ((empty : Locks ι).after steps) := coherent_empty.after hproper
    rw [after_append]
    generalize hl : (empty : Locks ι).after steps = l at *
    have hchange := change_step hallowed
    have hnames := hcoherent.mem_names_change hchange name
    have hclaimed := mem_claimed_change hchange name
    have hleft := leftOver_change hl hcoherent hchange name
    have hsub : ∀ owner, l.ClaimedByOther owner name → name ∈ l.claimed := fun _ => (·.mem_claimed)
    generalize (l.step s).1 = r at *
    generalize (l.step s).2 = l' at *
    cases hchange with
    | join | enter | giveBack | leave | decline =>
      simp only [hnames, hclaimed, hleft]
      grind
    | take =>
      simp only [hclaimed, hleft]
      exact ⟨hiff, hdisjoint⟩
    | idle hidle =>
      cases hidle <;> simp only [hleft] <;> exact ⟨hiff, hdisjoint⟩

/-! ## What becomes of an entry -/

/-- The entry of a name goes when the lock is given back and nobody is left to claim it. -/
theorem Coherent.not_mem_names_release (h : Coherent l) (ht : l.ticket? owner = some t)
    (hr : (l.release owner).1 = true) (hfree : t.name ∉ (l.release owner).2.claimed) :
    t.name ∉ (l.release owner).2.names := by
  have hp : t.phase = .holding := by
    by_contra hp
    simp [Locks.release, ht, hp] at hr
  have hstep : l.release owner = (true,
      ({ l with tickets := promiseNext t.slot (withdraw owner l.tickets) }.dropIdle t.name)) := by
    simp only [Locks.release, ht, hp, if_true]
  have hchange := Change.giveBack ht hp
  rw [hstep] at hfree ⊢
  rw [mem_claimed_change hchange] at hfree
  rw [h.mem_names_change hchange]
  have htn : t.name ∈ l.claimed :=
    mem_claimed_iff.2 ⟨t, (h.ticket?_eq_some_iff.1 ht).1, rfl⟩
  exact fun hn => hfree (hn.2 htn)

/-- The table has the names that are claimed and those that are left over. Where nobody gives up, it
has as many entries as there are names that somebody holds or waits for, and none at last. An entry
that is left over blocks nobody, and any entry goes with the last who gives the lock back. -/
theorem live_entries {steps : List (Step ι)} (h : (empty : Locks ι).Proper steps) :
    let l := (empty : Locks ι).after steps
    (l.names.Nodup ∧
      ∀ name, (name ∈ l.names ↔ name ∈ l.claimed ∨ LeftOver steps name) ∧
        (LeftOver steps name → name ∉ l.claimed)) ∧
      ((∀ owner, .cancel owner ∉ steps) →
        l.active = l.claimed.dedup.length ∧ (l.tickets = [] → l.active = 0)) ∧
      (∀ name, LeftOver steps name → ∀ owner, (l.lock owner name).1 = .acquired name) ∧
      ∀ owner t, l.ticket? owner = some t → (l.release owner).1 = true →
        t.name ∉ (l.release owner).2.claimed → t.name ∉ (l.release owner).2.names := by
  intro l
  have hl : Coherent l := coherent_empty.after h
  have hafter := mem_names_after h
  refine ⟨⟨hl.names, hafter⟩, fun hkept => ?_,
    fun name hleft owner => hl.lock_of_not_mem_claimed ((hafter name).2 hleft) owner,
    fun owner t ht hr hfree => hl.not_mem_names_release ht hr hfree⟩
  have hnone : ∀ name, ¬ LeftOver steps name := by
    rintro name ⟨before, owner, slot, since, rfl, -⟩
    exact hkept owner (by simp)
  have hperm : l.names.Perm l.claimed.dedup :=
    (List.perm_ext_iff_of_nodup hl.names (List.nodup_dedup _)).2 fun name => by
      rw [List.mem_dedup]
      exact (hafter name).1.trans (or_iff_left (hnone name))
  have hactive : l.active = l.claimed.dedup.length :=
    (List.length_map _).symm.trans hperm.length_eq
  refine ⟨hactive, fun hempty => ?_⟩
  rw [hactive, claimed, hempty]
  rfl

/-- The promise of one name is given up with nobody behind it, that of another with somebody behind
it. -/
def droppedPromises : List (Step Nat) :=
  [.lock 1 "a", .lock 2 "a", .lock 3 "b", .lock 4 "b", .lock 5 "b", .release 1, .release 3,
    .cancel 2, .cancel 4, .poll 5, .release 6]

theorem live_entries_droppedPromises :
    (empty : Locks Nat).Proper droppedPromises ∧ LeftOver droppedPromises "a" ∧
      let l := (empty : Locks Nat).after droppedPromises
      (l.names.Nodup ∧
        ∀ name, (name ∈ l.names ↔ name ∈ l.claimed ∨ LeftOver droppedPromises name) ∧
          (LeftOver droppedPromises name → name ∉ l.claimed)) ∧
        (l.lock 7 "a").1 = .acquired "a" ∧ l.ticket? 5 = some ⟨5, "b", 1, .holding⟩ ∧
        (l.release 5).1 = true ∧ "b" ∉ (l.release 5).2.claimed ∧
        "b" ∉ (l.release 5).2.names := by
  have h : (empty : Locks Nat).Proper droppedPromises :=
    ⟨rfl, rfl, rfl, rfl, rfl, trivial, trivial, trivial, trivial, trivial, trivial, trivial⟩
  have hleft : LeftOver droppedPromises "a" :=
    ⟨droppedPromises.take 7, 2, 0, droppedPromises.drop 8, rfl, by decide, by
      intro other
      simp [droppedPromises]⟩
  obtain ⟨hnames, -, hfree, hgone⟩ := live_entries h
  exact ⟨h, hleft, hnames, hfree "a" hleft 7, by decide, by decide, by decide,
    hgone 5 ⟨5, "b", 1, .holding⟩ (by decide) (by decide) (by decide)⟩

end SubnetRegistry.Locks
