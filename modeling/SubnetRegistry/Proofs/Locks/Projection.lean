import Mathlib.Algebra.GroupWithZero.Nat
import Mathlib.Data.List.Perm.Subperm
import SubnetRegistry.Proofs.Locks.Entries
import SubnetRegistry.Proofs.Locks.Order

/-!
# The lock of one name, alone

One table serves all names, and yet each name has a lock of its own. Here the lock of a single name is
a machine that knows of no table, no slots and no other names. The part of the locks that belongs to a
name does what this machine does, for as long as steps concern that name, and stands still while they
concern another. Therefore a run and its restriction to a name, which are two different runs on two
different tables, give the same answers.

## Main definitions

* `NameLock`, `NameLock.step` — the lock of one name.
* `Locks.project` — the part of the locks that belongs to a name.
* `Locks.concerns?` — the name that a step concerns.
* `Locks.eventsOf`, `Locks.restrict` — what is left of a run without the steps that concern another
  name.

## Main statements

* `Coherent.project_change`, `Coherent.project_change_of_ne` — a step on the machines of all names.
* `Coherent.restrict_run` — a run beside its restriction.
* `names_independent` — names do not interfere.
-/
namespace SubnetRegistry

/-! ## The machine -/

/-- Whether a name has an entry in the table, and who claims it, in the order in which it was asked
for. -/
structure NameLock (ι : Type) where
  entry : Bool
  claims : List (ι × Phase)

namespace NameLock

variable {ι : Type}

/-- The claims when nobody is in front of them any more: the lock is promised to the first of those
who are queued. -/
def advance : List (ι × Phase) → List (ι × Phase)
  | (owner, .queued) :: rest => (owner, .promised) :: rest
  | claims => claims

/-- A claim that is out of the queue is not promised the lock again. -/
theorem advance_eq_self {claims : List (ι × Phase)} (h : ∀ c ∈ claims.head?, c.2 ≠ .queued) :
    advance claims = claims := by
  unfold advance
  split
  · exact absurd rfl (h _ rfl)
  · rfl

@[simp] theorem advance_eq_nil_iff {claims : List (ι × Phase)} :
    advance claims = [] ↔ claims = [] := by
  unfold advance
  split <;> simp

variable [DecidableEq ι]

def without (owner : ι) (claims : List (ι × Phase)) : List (ι × Phase) :=
  claims.filter fun c => c.1 ≠ owner

def grant (owner : ι) (claims : List (ι × Phase)) : List (ι × Phase) :=
  claims.map fun c => if c.1 = owner then (c.1, .holding) else c

theorem without_eq_self {owner : ι} {claims : List (ι × Phase)}
    (h : ∀ phase, (owner, phase) ∉ claims) : without owner claims = claims := by
  refine List.filter_eq_self.2 fun c hc => ?_
  have hne : c.1 ≠ owner := by
    rintro rfl
    exact h c.2 hc
  simpa using hne

theorem grant_eq_self {owner : ι} {claims : List (ι × Phase)}
    (h : ∀ phase, (owner, phase) ∉ claims) : grant owner claims = claims := by
  refine (List.map_congr_left fun c hc => ?_).trans claims.map_id
  refine if_neg ?_
  rintro rfl
  exact h c.2 hc

def step (name : String) (k : NameLock ι) : Locks.Step ι → Locks.Reply × NameLock ι
  | .lock owner _ =>
    if k.claims = [] then (.answer (.acquired name), ⟨true, [(owner, .holding)]⟩)
    else (.answer .waiting, ⟨true, k.claims ++ [(owner, .queued)]⟩)
  | .poll owner =>
    if (owner, .promised) ∈ k.claims then
      (.answer (.acquired name), { k with claims := grant owner k.claims })
    else if (owner, .queued) ∈ k.claims then (.answer .waiting, k)
    else (.answer .notWaiting, k)
  | .release owner =>
    if (owner, .holding) ∈ k.claims then
      let claims := advance (without owner k.claims)
      (.done true, ⟨claims ≠ [], claims⟩)
    else (.done false, k)
  | .cancel owner =>
    if (owner, .queued) ∈ k.claims ∨ (owner, .promised) ∈ k.claims then
      (.done true, { k with claims := advance (without owner k.claims) })
    else (.done false, k)
  | .active => (.none, k)

end NameLock

namespace Locks

open NameLock

variable {ι : Type} {l l' m : Locks ι} {tickets : List (Ticket ι)} {name : String} {t : Ticket ι}

/-! ## The part of a name -/

def claimsIn (name : String) (tickets : List (Ticket ι)) : List (ι × Phase) :=
  (tickets.filter fun t => t.name = name).map fun t => (t.owner, t.phase)

/-- The part of the locks that belongs to a name. -/
def project (name : String) (l : Locks ι) : NameLock ι :=
  ⟨decide (name ∈ l.names), claimsIn name l.tickets⟩

theorem mem_claimsIn {c : ι × Phase} :
    c ∈ claimsIn name tickets ↔ ∃ t ∈ tickets, t.name = name ∧ (t.owner, t.phase) = c := by
  simp [claimsIn, and_assoc]

theorem claimsIn_eq_line : claimsIn name l.tickets = (l.line name).map fun t => (t.owner, t.phase) :=
  rfl

theorem claimsIn_append (us : List (Ticket ι)) :
    claimsIn name (tickets ++ us) = claimsIn name tickets ++ claimsIn name us := by
  simp [claimsIn]

theorem claimsIn_singleton :
    claimsIn name [t] = if t.name = name then [(t.owner, t.phase)] else [] := by
  by_cases h : t.name = name <;> simp [claimsIn, h]

theorem claimsIn_ne_nil_iff : claimsIn name tickets ≠ [] ↔ name ∈ tickets.map Ticket.name := by
  simp [claimsIn]

/-- A promise for a slot of another name. -/
theorem claimsIn_promiseNext_of_ne {slot : Nat} (h : ∀ t ∈ tickets, t.slot = slot → t.name ≠ name) :
    claimsIn name (promiseNext slot tickets) = claimsIn name tickets := by
  induction tickets with
  | nil => rfl
  | cons t rest ih =>
    have hrest := ih fun u hu => h u (List.mem_cons_of_mem _ hu)
    have hhead := h t List.mem_cons_self
    unfold claimsIn at hrest ⊢
    by_cases hq : t.slot = slot ∧ t.phase = .queued
    · rw [promiseNext, if_pos hq]
      simp [hhead hq.1]
    · rw [promiseNext, if_neg hq]
      by_cases hn : t.name = name <;> simp [hn, hrest]

/-- A promise for the slot of the name, where everybody is queued. -/
theorem claimsIn_promiseNext {slot : Nat} (h : ∀ t ∈ tickets, t.slot = slot ↔ t.name = name)
    (hq : ∀ t ∈ tickets, t.slot = slot → t.phase = .queued) :
    claimsIn name (promiseNext slot tickets) = advance (claimsIn name tickets) := by
  induction tickets with
  | nil => rfl
  | cons t rest ih =>
    have hrest := ih (fun u hu => h u (List.mem_cons_of_mem _ hu))
      fun u hu => hq u (List.mem_cons_of_mem _ hu)
    have hhead := h t List.mem_cons_self
    unfold claimsIn at hrest ⊢
    by_cases hs : t.slot = slot
    · have hphase := hq t List.mem_cons_self hs
      rw [promiseNext, if_pos ⟨hs, hphase⟩]
      simp [hhead.1 hs, hphase, advance]
    · rw [promiseNext, if_neg fun hq => hs hq.1]
      simp [mt hhead.2 hs, hrest]

/-- The first claim to a name is out of the queue. -/
theorem Coherent.head_claimsIn (h : Coherent l) (name : String) :
    ∀ c ∈ (claimsIn name l.tickets).head?, c.2 ≠ .queued := by
  rw [claimsIn_eq_line]
  cases hl : l.line name with
  | nil => simp
  | cons t rest => simpa using (h.line_eq_cons hl).1

/-- The lock of a name is free exactly if nobody claims it. -/
theorem Coherent.isTaken_iff_claimsIn (h : Coherent l) (name : String) :
    isTaken l.tickets (l.slotFor name) = true ↔ claimsIn name l.tickets ≠ [] := by
  constructor
  · exact fun htaken => claimsIn_ne_nil_iff.2 (h.mem_claimed_of_taken htaken)
  · intro hsome
    obtain ⟨t, ht, rfl⟩ := List.mem_map.1 (claimsIn_ne_nil_iff.1 hsome)
    obtain ⟨u, hu, hs, hp⟩ := h.headed t ht
    exact isTaken_iff.2 ⟨u, hu, by rw [hs, slotFor, h.current t ht, Option.getD_some], hp⟩

/-- Only this name has an entry or is claimed. -/
def Only (l : Locks ι) (name : String) : Prop :=
  ∀ other, other ≠ name → l.project other = ⟨false, []⟩

/-- Where only one name is in use, there is one entry or none. -/
theorem Coherent.active_of_only (h : Coherent l) (honly : l.Only name) :
    l.active = if name ∈ l.names then 1 else 0 := by
  have hall : ∀ other ∈ l.names, other = name := by
    intro other hin
    by_contra hne
    have hentry := congrArg NameLock.entry (honly other hne)
    simp [project, hin] at hentry
  have hactive : l.active = l.names.length := (List.length_map _).symm
  rw [hactive]
  split
  · next hin =>
    have hnodup : l.names.Nodup := h.names
    have hle : l.names.length ≤ [name].length := (hnodup.subperm fun other hother =>
      List.mem_singleton.2 (hall other hother)).length_le
    exact Nat.le_antisymm hle (List.length_pos_of_mem hin)
  · next hout =>
    refine List.length_eq_zero_iff.2 (List.eq_nil_iff_forall_not_mem.2 fun other hother => ?_)
    exact hout (hall other hother ▸ hother)

variable [DecidableEq ι] {owner : ι}

theorem claimsIn_withdraw :
    claimsIn name (withdraw owner tickets) = without owner (claimsIn name tickets) := by
  simp only [claimsIn, withdraw, without, List.filter_map, List.filter_filter]
  congr 1
  exact List.filter_congr fun t _ => by simp [Bool.and_comm]

theorem claimsIn_setPhase :
    claimsIn name (setPhase owner .holding tickets) = grant owner (claimsIn name tickets) := by
  unfold claimsIn setPhase grant
  induction tickets with
  | nil => rfl
  | cons t rest ih => by_cases ho : t.owner = owner <;> by_cases hn : t.name = name <;> simp_all

/-- The claims of an owner are its ticket. -/
theorem Coherent.mem_claimsIn_iff (h : Coherent l) {phase : Phase} :
    (owner, phase) ∈ claimsIn name l.tickets ↔
      ∃ t, l.ticket? owner = some t ∧ t.name = name ∧ t.phase = phase := by
  simp only [mem_claimsIn, h.ticket?_eq_some_iff, Prod.mk.injEq]
  grind

/-- If an owner who goes was not in front of the others, nothing is handed over. -/
theorem Coherent.advance_without (h : Coherent l)
    (ho : ∀ phase, (owner, phase) ∈ claimsIn name l.tickets → phase = .queued) :
    advance (without owner (claimsIn name l.tickets)) =
      without owner (claimsIn name l.tickets) := by
  refine advance_eq_self fun c hc => ?_
  cases hclaims : claimsIn name l.tickets with
  | nil => simp [hclaims, without] at hc
  | cons first rest =>
    have hfirst : first.2 ≠ .queued := h.head_claimsIn name first (by simp [hclaims])
    have hne : first.1 ≠ owner := by
      rintro rfl
      exact hfirst (ho first.2 (by simp [hclaims]))
    obtain rfl : first = c := by simpa [hclaims, without, hne] using hc
    exact hfirst

/-- The first in front of the others gives up or gives back. -/
theorem Coherent.claimsIn_handOver (h : Coherent l) (ht : l.ticket? owner = some t)
    (hp : t.phase ≠ .queued) (name : String) :
    claimsIn name (promiseNext t.slot (withdraw owner l.tickets)) =
      advance (without owner (claimsIn name l.tickets)) := by
  obtain ⟨htm, hto⟩ := h.ticket?_eq_some_iff.1 ht
  have hslot : ∀ u ∈ withdraw owner l.tickets, u.slot = t.slot ↔ u.name = t.name :=
    fun u hu => h.slot_eq_iff (mem_withdraw.1 hu).1 htm
  by_cases hn : t.name = name
  · subst hn
    rw [claimsIn_promiseNext hslot, claimsIn_withdraw]
    intro u hu hs
    obtain ⟨hum, huo⟩ := mem_withdraw.1 hu
    by_contra hne
    exact huo (h.inLine.eq_of_ne_queued hum htm hs hne hp ▸ hto)
  · rw [claimsIn_promiseNext_of_ne fun u hu hs => (hslot u hu).1 hs ▸ hn, claimsIn_withdraw,
      h.advance_without]
    intro phase hclaim
    obtain ⟨u, hu, hun, -⟩ := h.mem_claimsIn_iff.1 hclaim
    rw [ht] at hu
    exact absurd (Option.some.inj hu ▸ hun) hn

/-! ## What a step does to the claims -/

/-- The claims to a name after a step. -/
theorem Coherent.claimsIn_change (h : Coherent l) {s : Step ι} {r : Reply} (hc : Change l s r l')
    (name : String) :
    claimsIn name l'.tickets = match s, r with
      | .lock owner asked, .answer (.acquired _) =>
        claimsIn name l.tickets ++ if asked = name then [(owner, .holding)] else []
      | .lock owner asked, _ =>
        claimsIn name l.tickets ++ if asked = name then [(owner, .queued)] else []
      | .poll owner, .answer (.acquired _) => grant owner (claimsIn name l.tickets)
      | .release owner, .done true | .cancel owner, .done true =>
        advance (without owner (claimsIn name l.tickets))
      | _, _ => claimsIn name l.tickets := by
  cases hc with
  | join | enter => simp only [claimsIn_append, claimsIn_singleton]
  | take => exact claimsIn_setPhase
  | giveBack ht hp =>
    rw [tickets_dropIdle]
    exact h.claimsIn_handOver ht (by simp [hp]) name
  | @leave owner t ht hp =>
    refine claimsIn_withdraw.trans (h.advance_without fun phase hclaim => ?_).symm
    obtain ⟨u, hu, -, rfl⟩ := h.mem_claimsIn_iff.1 hclaim
    obtain rfl : t = u := Option.some.inj (ht.symm.trans hu)
    exact hp
  | decline ht hp => exact h.claimsIn_handOver ht (by simp [hp]) name
  | idle hidle => cases hidle <;> rfl

/-- The name that a step concerns: the one that is asked for, or the one that its owner has a ticket
for. -/
def concerns? (l : Locks ι) : Step ι → Option String
  | .lock _ name => some name
  | .poll owner | .release owner | .cancel owner => (l.ticket? owner).map Ticket.name
  | .active => none

/-! ## What a step does to the lock of a name -/

theorem claimedByOther_iff :
    l.ClaimedByOther owner name ↔ without owner (claimsIn name l.tickets) ≠ [] := by
  rw [← claimsIn_withdraw, claimsIn_ne_nil_iff, mem_map_name_withdraw]

/-- The claims of an owner whose ticket is for this name. -/
theorem Coherent.mem_claimsIn_ticket (h : Coherent l) (ht : l.ticket? owner = some t)
    (hn : t.name = name) (phase : Phase) :
    (owner, phase) ∈ claimsIn name l.tickets ↔ t.phase = phase := by
  simp [h.mem_claimsIn_iff, ht, hn]

/-- A step that concerns another name does nothing to the lock of this one. -/
theorem Coherent.project_change_of_ne (h : Coherent l) {s : Step ι} {r : Reply} {other : String}
    (hc : Change l s r l') (hs : l.concerns? s = some other) (hne : other ≠ name) :
    l'.project name = l.project name := by
  have hout : ∀ {owner}, (l.ticket? owner).map Ticket.name = some other →
      ∀ phase, (owner, phase) ∉ claimsIn name l.tickets := by
    intro owner hother phase hclaim
    obtain ⟨u, hu, hun, -⟩ := h.mem_claimsIn_iff.1 hclaim
    rw [hu] at hother
    exact hne (Option.some.inj hother ▸ hun)
  have hgone : ∀ {owner}, (l.ticket? owner).map Ticket.name = some other →
      advance (without owner (claimsIn name l.tickets)) = claimsIn name l.tickets := fun hother =>
    (h.advance_without fun phase hclaim => absurd hclaim (hout hother phase)).trans
      (without_eq_self (hout hother))
  have hnames := h.mem_names_change hc name
  have hclaims := h.claimsIn_change hc name
  suffices (name ∈ l'.names ↔ name ∈ l.names) ∧ claimsIn name l'.tickets = claimsIn name l.tickets by
    simp [project, this]
  cases hc with
  | @join owner asked | @enter owner asked =>
    obtain rfl : asked = other := Option.some.inj hs
    exact ⟨hnames.trans (or_iff_right (Ne.symm hne)), by simpa [hne] using hclaims⟩
  | take => exact ⟨hnames, hclaims.trans (grant_eq_self (hout hs))⟩
  | @giveBack owner t ht hp =>
    refine ⟨hnames.trans (and_iff_left fun hn => ?_), hclaims.trans (hgone hs)⟩
    obtain ⟨u, hu, hun⟩ := mem_claimed_iff.1 hn
    refine ⟨u, hu, ?_, hun⟩
    rintro rfl
    exact hout hs u.phase (mem_claimsIn.2 ⟨u, hu, hun, rfl⟩)
  | leave | decline => exact ⟨hnames, hclaims.trans (hgone hs)⟩
  | idle => exact ⟨Iff.rfl, rfl⟩

/-- A step that concerns no other name does what it does to the lock of this name alone. -/
theorem Coherent.project_change (h : Coherent l) {s : Step ι} {r : Reply} (hc : Change l s r l')
    (hs : ∀ other, l.concerns? s = some other → other = name) :
    (l.project name).step name s = (r, l'.project name) := by
  have hnames := h.mem_names_change hc name
  have hclaims := h.claimsIn_change hc name
  cases hc with
  | @join owner asked hnew htaken =>
    obtain rfl : asked = name := hs asked rfl
    have hsome := (h.isTaken_iff_claimsIn asked).1 htaken
    simp only [reduceIte] at hclaims
    simp [NameLock.step, project, hsome, hnames, hclaims]
  | @enter owner asked hnew hfree =>
    obtain rfl : asked = name := hs asked rfl
    have hnone : claimsIn asked l.tickets = [] :=
      by_contra fun hsome => hfree ((h.isTaken_iff_claimsIn asked).2 hsome)
    simp only [reduceIte] at hclaims
    simp [NameLock.step, project, hnone, hnames, hclaims]
  | @take owner t ht hp =>
    have hn : t.name = name := hs t.name (by simp [concerns?, ht])
    dsimp only at hnames hclaims
    simp [NameLock.step, project, h.mem_claimsIn_ticket ht hn, hp, hn, hnames, hclaims]
  | @giveBack owner t ht hp =>
    have hn : t.name = name := hs t.name (by simp [concerns?, ht])
    dsimp only at hnames hclaims
    have hclaimed : name ∈ l.claimed :=
      mem_claimed_iff.2 ⟨t, (h.ticket?_eq_some_iff.1 ht).1, hn⟩
    simp [NameLock.step, project, h.mem_claimsIn_ticket ht hn, hp, hclaims, hnames, hclaimed,
      h.mem_names_of_mem_claimed hclaimed, claimedByOther_iff]
  | @leave owner t ht hp | @decline owner t ht hp =>
    have hn : t.name = name := hs t.name (by simp [concerns?, ht])
    dsimp only at hnames hclaims
    simp [NameLock.step, project, h.mem_claimsIn_ticket ht hn, hp, hnames, hclaims]
  | idle hidle =>
    cases hidle with
    | @queued owner t ht hp =>
      have hn : t.name = name := hs t.name (by simp [concerns?, ht])
      simp [NameLock.step, project, h.mem_claimsIn_ticket ht hn, hp]
    | poll hidle | release hidle | cancel hidle =>
      simp only [NameLock.step, project, h.mem_claimsIn_iff]
      grind
    | active => rfl

/-! ## Runs and their restrictions -/

/-- The steps of a run that concern no other name than this one, with their answers in the whole
run. -/
def eventsOf (l : Locks ι) (name : String) : List (Step ι) → List (Step ι × Reply)
  | [] => []
  | s :: rest =>
    if ∀ other ∈ l.concerns? s, other = name then
      (s, (l.step s).1) :: (l.step s).2.eventsOf name rest
    else (l.step s).2.eventsOf name rest

def restrict (l : Locks ι) (name : String) (steps : List (Step ι)) : List (Step ι) :=
  (l.eventsOf name steps).map Prod.fst

def asked (steps : List (Step ι)) : List String :=
  steps.filterMap fun
    | .lock _ name => some name
    | _ => none

theorem eventsOf_sublist (name : String) (steps : List (Step ι)) :
    (l.eventsOf name steps).Sublist (l.trace steps) := by
  induction steps generalizing l with
  | nil => exact .slnil
  | cons s rest ih =>
    unfold eventsOf
    split
    · exact ih.cons_cons _
    · exact ih.cons _

/-- A step that concerns no name changes nothing. -/
theorem step_of_concerns?_eq_none {s : Step ι} (hs : l.concerns? s = none) : (l.step s).2 = l := by
  cases s with
  | lock owner name => simp [concerns?] at hs
  | poll owner => simp_all [concerns?, step, poll]
  | release owner => simp_all [concerns?, step, release]
  | cancel owner => simp_all [concerns?, step, cancel]
  | active => rfl

theorem Coherent.only_step (h : Coherent l) {s : Step ι} (hallowed : l.Allowed s)
    (hs : ∀ other ∈ l.concerns? s, other = name) (honly : l.Only name) :
    (l.step s).2.Only name := by
  intro other hne
  cases hc : l.concerns? s with
  | none =>
    rw [step_of_concerns?_eq_none hc]
    exact honly other hne
  | some about =>
    obtain rfl : about = name := hs about hc
    rw [h.project_change_of_ne (change_step hallowed) hc (Ne.symm hne)]
    exact honly other hne

/-- An owner whose ticket is found where only one name is in use has a ticket for it wherever the lock
of this name is the same. -/
theorem Coherent.ticket?_of_only (hl : Coherent l) (hm : Coherent m) (honly : m.Only name)
    (hproject : m.project name = l.project name) (ht : m.ticket? owner = some t) :
    t.name = name ∧ ∃ u, l.ticket? owner = some u ∧ u.name = name := by
  have hname : t.name = name := by
    by_contra hne
    have hclaim := hm.mem_claimsIn_iff.2 ⟨t, ht, rfl, rfl⟩
    have hnone : claimsIn t.name m.tickets = [] := congrArg NameLock.claims (honly t.name hne)
    simp [hnone] at hclaim
  have hclaim := hm.mem_claimsIn_iff.2 ⟨t, ht, hname, rfl⟩
  have hsame : claimsIn name m.tickets = claimsIn name l.tickets := congrArg NameLock.claims hproject
  obtain ⟨u, hu, hun, -⟩ := hl.mem_claimsIn_iff.1 (hsame ▸ hclaim)
  exact ⟨hname, u, hu, hun⟩

/-- A step that is allowed and concerns no other name is so wherever only this name is in use and is the
same. -/
theorem Coherent.step_of_only (hl : Coherent l) (hm : Coherent m) (honly : m.Only name)
    (hproject : m.project name = l.project name) {s : Step ι} (hallowed : l.Allowed s)
    (hs : ∀ other ∈ l.concerns? s, other = name) :
    m.Allowed s ∧ ∀ other ∈ m.concerns? s, other = name := by
  have hticket : ∀ {owner t}, m.ticket? owner = some t → _ := fun ht =>
    hl.ticket?_of_only hm honly hproject ht
  cases s with
  | lock owner asked =>
    refine ⟨Option.eq_none_iff_forall_ne_some.2 fun t ht => ?_, hs⟩
    obtain ⟨-, u, hu, -⟩ := hticket ht
    rw [Allowed, hu] at hallowed
    cases hallowed
  | poll owner | release owner | cancel owner =>
    refine ⟨trivial, fun other hother => ?_⟩
    obtain ⟨t, ht, rfl⟩ := Option.map_eq_some_iff.1 hother
    exact (hticket ht).1
  | active => exact ⟨trivial, hs⟩

/-- A run beside its restriction to a name, from locks on which that name is the same. -/
theorem Coherent.restrict_run (hl : Coherent l) (hm : Coherent m) (honly : m.Only name)
    (hproject : m.project name = l.project name) {steps : List (Step ι)} (hs : l.Proper steps) :
    m.Proper (l.restrict name steps) ∧
      m.trace (l.restrict name steps) = l.eventsOf name steps ∧
      (m.after (l.restrict name steps)).Only name ∧
      (m.after (l.restrict name steps)).project name = (l.after steps).project name := by
  induction steps generalizing l m with
  | nil => exact ⟨trivial, rfl, honly, hproject⟩
  | cons s rest ih =>
    obtain ⟨hallowed, hrest⟩ := hs
    by_cases habout : ∀ other ∈ l.concerns? s, other = name
    · obtain ⟨hallowed', habout'⟩ := hl.step_of_only hm honly hproject hallowed habout
      have hstep := hl.project_change (change_step hallowed) habout
      have hstep' := hm.project_change (change_step hallowed') habout'
      rw [hproject, hstep, Prod.mk.injEq] at hstep'
      obtain ⟨hreply, hsame⟩ := hstep'
      obtain ⟨hproper, htrace, hlast⟩ := ih (hl.step hallowed) (hm.step hallowed')
        (hm.only_step hallowed' habout' honly) hsame.symm hrest
      have hkeep : l.eventsOf name (s :: rest) =
          (s, (l.step s).1) :: (l.step s).2.eventsOf name rest := if_pos habout
      rw [restrict, hkeep, List.map_cons, trace, ← hreply]
      exact ⟨⟨hallowed', hproper⟩, congrArg _ htrace, hlast⟩
    · have hskip : l.eventsOf name (s :: rest) = (l.step s).2.eventsOf name rest := if_neg habout
      have hother : ∃ other, l.concerns? s = some other ∧ other ≠ name := by
        simpa using habout
      obtain ⟨other, hc, hne⟩ := hother
      have hsame := hl.project_change_of_ne (change_step hallowed) hc hne
      rw [restrict, hskip]
      exact ih (hl.step hallowed) hm honly (hproject.trans hsame.symm) hrest

/-! ## Names do not interfere -/

theorem Proper.of_prefix {before steps : List (Step ι)} (h : l.Proper steps)
    (hbefore : before <+: steps) : l.Proper before := by
  induction before generalizing l steps with
  | nil => trivial
  | cons s rest ih =>
    obtain ⟨more, rfl⟩ := hbefore
    exact ⟨h.1, ih h.2 ⟨more, rfl⟩⟩

/-- A name gets an entry by being asked for. -/
theorem Coherent.mem_names_step (h : Coherent l) {s : Step ι} (hs : l.Allowed s)
    (hin : name ∈ (l.step s).2.names) : name ∈ l.names ∨ name ∈ asked [s] := by
  have hchange := change_step hs
  have hnames := (h.mem_names_change hchange name).1 hin
  generalize (l.step s).1 = r at hchange hnames
  generalize (l.step s).2 = l' at hchange hnames
  cases hchange with
  | join | enter => exact .symm (hnames.imp_left fun heq => by simp [asked, heq])
  | giveBack => exact .inl hnames.1
  | take | leave | decline => exact .inl hnames
  | idle hidle => cases hidle <;> exact .inl hnames

/-- The names in the table are among those that were asked for. -/
theorem names_subset_asked {steps : List (Step ι)} (h : (empty : Locks ι).Proper steps) :
    ((empty : Locks ι).after steps).names ⊆ asked steps := by
  induction steps using List.reverseRecOn with
  | nil => simp [after, empty, names]
  | append_singleton steps s ih =>
    obtain ⟨hproper, hallowed⟩ := proper_append.1 h
    intro name hin
    rw [after_append] at hin
    rw [asked, List.filterMap_append, List.mem_append]
    exact ((coherent_empty.after hproper).mem_names_step hallowed hin).imp_left fun hin =>
      ih hproper hin

theorem length_filter_eq_sum (p : String → Prop) [DecidablePred p] (names : List String) :
    (names.filter p).length = (names.map fun name => if p name then 1 else 0).sum := by
  induction names with
  | nil => rfl
  | cons name rest ih =>
    by_cases h : p name
    · simp [h, ih, Nat.add_comm]
    · simp [h, ih]

/-- The table of a run has as many entries as those of its restrictions together. -/
theorem active_eq_sum {steps : List (Step ι)} (h : (empty : Locks ι).Proper steps) :
    ((empty : Locks ι).after steps).active = ((asked steps).dedup.map fun name =>
      ((empty : Locks ι).after ((empty : Locks ι).restrict name steps)).active).sum := by
  have hl := coherent_empty.after h
  have hsingle : ∀ name, ((empty : Locks ι).after ((empty : Locks ι).restrict name steps)).active =
      if name ∈ ((empty : Locks ι).after steps).names then 1 else 0 := by
    intro name
    have hempty : (empty : Locks ι).Only name := fun _ _ => rfl
    obtain ⟨hproper, -, honly, hproject⟩ :=
      coherent_empty.restrict_run coherent_empty hempty rfl h
    have hentry := congrArg NameLock.entry hproject
    simp only [project, decide_eq_decide] at hentry
    rw [(coherent_empty.after hproper).active_of_only honly]
    simp only [hentry]
  have hperm : ((empty : Locks ι).after steps).names.Perm
      ((asked steps).dedup.filter fun name => name ∈ ((empty : Locks ι).after steps).names) := by
    refine (List.perm_ext_iff_of_nodup hl.names ((List.nodup_dedup _).filter _)).2 fun name => ?_
    rw [List.mem_filter, List.mem_dedup, decide_eq_true_iff]
    exact ⟨fun hin => ⟨names_subset_asked h hin, hin⟩, And.right⟩
  calc ((empty : Locks ι).after steps).active
      = ((empty : Locks ι).after steps).names.length := (List.length_map _).symm
    _ = ((asked steps).dedup.filter fun name =>
          name ∈ ((empty : Locks ι).after steps).names).length := hperm.length_eq
    _ = ((asked steps).dedup.map fun name =>
          if name ∈ ((empty : Locks ι).after steps).names then 1 else 0).sum :=
        length_filter_eq_sum _ _
    _ = _ := by simp only [hsingle]

/-- Names do not interfere. Without the steps that concern other names, a run is still a run, and every
step that is left is answered as before. The table of the whole has as many entries as those of the
runs for single names together. -/
theorem names_independent {steps : List (Step ι)} (h : (empty : Locks ι).Proper steps) :
    (∀ name, ((empty : Locks ι).eventsOf name steps).Sublist ((empty : Locks ι).trace steps) ∧
      (empty : Locks ι).Proper ((empty : Locks ι).restrict name steps) ∧
      (empty : Locks ι).trace ((empty : Locks ι).restrict name steps) =
        (empty : Locks ι).eventsOf name steps) ∧
    ∀ before, before <+: steps → ((empty : Locks ι).after before).active =
      ((asked before).dedup.map fun name =>
        ((empty : Locks ι).after ((empty : Locks ι).restrict name before)).active).sum := by
  refine ⟨fun name => ⟨eventsOf_sublist name steps, ?_⟩, fun before hbefore => ?_⟩
  · have hempty : (empty : Locks ι).Only name := fun _ _ => rfl
    obtain ⟨hproper, htrace, -⟩ := coherent_empty.restrict_run coherent_empty hempty rfl h
    exact ⟨hproper, htrace⟩
  · exact active_eq_sum (h.of_prefix hbefore)

/-- Two names in turn: a lock is handed over, a promise is given up with nobody behind it, and an owner
who had one name asks for the other. -/
def twoNames : List (Step Nat) :=
  [.lock 1 "a", .lock 2 "b", .lock 3 "a", .poll 3, .release 1, .lock 1 "b", .poll 3, .cancel 1,
    .poll 9, .lock 4 "a", .release 2, .release 3, .cancel 4, .active]

theorem names_independent_twoNames :
    (empty : Locks Nat).Proper twoNames ∧
      (empty : Locks Nat).restrict "b" twoNames =
        [.lock 2 "b", .lock 1 "b", .cancel 1, .poll 9, .release 2, .active] ∧
      (empty : Locks Nat).trace ((empty : Locks Nat).restrict "b" twoNames) =
        (empty : Locks Nat).eventsOf "b" twoNames ∧
      ((empty : Locks Nat).after (twoNames.take 8)).active = 2 ∧
      ((asked (twoNames.take 8)).dedup.map fun name => ((empty : Locks Nat).after
        ((empty : Locks Nat).restrict name (twoNames.take 8))).active).sum = 2 := by
  have h : (empty : Locks Nat).Proper twoNames :=
    ⟨rfl, rfl, rfl, trivial, trivial, rfl, trivial, trivial, trivial, rfl, trivial, trivial, trivial,
      trivial, trivial⟩
  obtain ⟨hruns, hactive⟩ := names_independent h
  have htwo : ((empty : Locks Nat).after (twoNames.take 8)).active = 2 := by decide
  exact ⟨h, by rfl, (hruns "b").2.2, htwo, hactive _ (List.take_prefix 8 _) ▸ htwo⟩

end Locks
end SubnetRegistry
