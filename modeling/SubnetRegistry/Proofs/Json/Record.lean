import SubnetRegistry.Json.Record
import SubnetRegistry.Proofs.Except
import SubnetRegistry.Proofs.Json.Tree

/-!
# Records are read by the names of their fields

A part whose tree is an object that holds the fields of a record is read as that record: whatever the
order of its members, with other members among them, and without those that have their fallback.

## Main definitions

* `Shape.Holds` — members that hold fields of a record with given values.
* `Shape.Reads` — a reader that reads the fields of a record and nothing else.

## Main statements

* `Shape.read?_object` — an object that holds the fields of a record is read.
* `Shape.read?_cases` — a field that was read stands in the text or is the fallback.
-/
namespace SubnetRegistry.Json

/-! ## Single values -/

namespace Node

variable {node : Node} {α : Type}

theorem Is.asTextFor {read : Except Fault String} (h : node.Is (.text read))
    (expected : Expectation) : node.asTextFor expected = read := by
  cases h
  rfl

theorem Is.asText {read : Except Fault String} (h : node.Is (.text read)) : node.asText = read :=
  h.asTextFor .text

theorem Is.asBoolean {b : Bool} (h : node.Is (.boolean b)) : node.asBoolean = .ok b := by
  cases h
  rfl

theorem Is.asInteger {w : Width} {n : Int} (h : node.Is (.number (.ok (.integer n))))
    (hlow : w.least ≤ n) (hhigh : n ≤ w.greatest) : node.asInteger w = .ok n := by
  cases h
  simp [Node.asInteger, hlow, hhigh]

theorem Is.asOption_null (h : node.Is .null) (read : Node → Except Fault α) :
    node.asOption read = .ok none := by
  cases h
  rfl

theorem Is.asOption_eq {t : Tree} (h : node.Is t) (ht : t ≠ .null) (read : Node → Except Fault α) :
    node.asOption read = some <$> read node := by
  cases h with
  | null => exact absurd rfl ht
  | boolean | number | text | array | object => rfl

theorem Is.asOption {t : Tree} (h : node.Is t) (ht : t ≠ .null) {read : Node → Except Fault α}
    {a : α} (hread : read node = .ok a) : node.asOption read = .ok (some a) := by
  rw [h.asOption_eq ht, hread]
  rfl

/-- A value that was set was read. -/
theorem eq_ok_of_asOption {read : Node → Except Fault α} {a : α}
    (h : node.asOption read = .ok (some a)) : read node = .ok a := by
  cases node with
  | null => cases h
  | boolean | number | text | array | object | broken | absent =>
    obtain ⟨b, hb, hab⟩ := exists_of_map_eq_ok h
    cases hab
    exact hb

theorem Are.mapM {nodes : List Node} {as : List α} {tree : α → Tree} {read : Node → Except Fault α}
    (h : Node.Are nodes (as.map tree))
    (hread : ∀ a ∈ as, ∀ node : Node, node.Is (tree a) → read node = .ok a) :
    nodes.mapM read = .ok as := by
  induction as generalizing nodes with
  | nil =>
    cases h
    rfl
  | cons a as ih =>
    cases h with
    | cons hnode hnodes =>
      have hhead := hread a (by simp) _ hnode
      have htail := ih hnodes fun b hb => hread b (List.mem_cons_of_mem _ hb)
      rw [List.mapM_cons, hhead, htail]
      rfl

theorem Is.asList {as : List α} {tree : α → Tree} {read : Node → Except Fault α}
    (h : node.Is (.array (as.map tree)))
    (hread : ∀ a ∈ as, ∀ node : Node, node.Is (tree a) → read node = .ok a) :
    node.asList read = .ok as := by
  cases h with
  | array hnodes =>
    rw [Node.asList, hnodes.mapM hread]
    rfl

end Node

mutual

/-- A part that has a tree can be skipped. -/
theorem Node.Is.skip : {node : Node} → {t : Tree} → node.Is t → node.skip = .ok ()
  | _, _, .null .. | _, _, .boolean .. | _, _, .number .. | _, _, .text .. => rfl
  | _, _, .array h _ _ => by
    rw [Node.skip, Node.Are.skipItems h]
    rfl
  | _, _, .object h _ _ => by
    rw [Node.skip, Member.Are.skipMembers h]
    rfl

theorem Node.Are.skipItems : {nodes : List Node} → {items : List Tree} → Node.Are nodes items →
    Node.skipItems nodes = .ok ()
  | _, _, .nil => rfl
  | _, _, .cons h hs => by
    rw [Node.skipItems, Node.Is.skip h]
    exact Node.Are.skipItems hs

theorem Member.Are.skipMembers : {ms : List Member} →
    {members : List (Except Fault String × Tree)} → Member.Are ms members →
    Node.skipMembers ms = .ok ()
  | _, _, .nil => rfl
  | _, _, .cons h hs => by
    rw [Node.skipMembers, Member.skip, Node.Is.skip h]
    exact Member.Are.skipMembers hs

end

/-! ## Records -/

section

variable {F : Type} [DecidableEq F] {Value : F → Type} {s : Shape F Value} {o : Origin}
  {v : (f : F) → Value f} {members : List (Except Fault String × Tree)} {fields : List F}

/-- Members that hold these fields of a record, each once, with the values `v`; members of other names
may stand among them. -/
inductive Shape.Holds (s : Shape F Value) (o : Origin) (v : (f : F) → Value f) :
    List (Except Fault String × Tree) → List F → Prop
  | nil : Shape.Holds s o v [] []
  | field {name : String} {f : F} {t : Tree} {members : List (Except Fault String × Tree)}
      {fields : List F} (hname : s.field? name = some f)
      (hread : ∀ node : Node, node.Is t → s.read f o node = .ok (v f)) (hf : f ∉ fields)
      (h : Shape.Holds s o v members fields) :
      Shape.Holds s o v ((.ok name, t) :: members) (f :: fields)
  | other {name : String} {t : Tree} {members : List (Except Fault String × Tree)}
      {fields : List F} (hname : s.field? name = none) (h : Shape.Holds s o v members fields) :
      Shape.Holds s o v ((.ok name, t) :: members) fields

theorem Shape.Holds.foldlM (h : s.Holds o v members fields) {ms : List Member}
    (hms : Member.Are ms members) (found : Found Value) (hfound : ∀ f ∈ fields, found f = none) :
    ∃ found', ms.foldlM (s.addMember o) found = .ok found' ∧
      (∀ f ∈ fields, found' f = some (v f)) ∧ ∀ f, f ∉ fields → found' f = found f := by
  induction h generalizing ms found with
  | nil =>
    cases hms
    exact ⟨found, rfl, nofun, fun _ _ => rfl⟩
  | @field name f t members fields hname hread hf _ ih =>
    cases hms with
    | @cons _ stop settled node _ next ms _ hnode hms =>
      have hadd : s.addMember o found
          (.mk ⟨.ok name, .ok (), stop, settled, .ok ()⟩ node next) = .ok (found.set f (v f)) := by
        have hnone : found f = none := hfound f (by simp)
        simp only [Shape.addMember, Member.key, Member.value, pure, Except.pure, bind, Except.bind,
          hname, hnone, hread node hnode]
        rfl
      obtain ⟨found', hfold, hin, hout⟩ := ih hms (found.set f (v f)) fun g hg => by
        have hne : f ≠ g := by
          rintro rfl
          exact hf hg
        rw [Found.set_of_ne _ _ hne]
        exact hfound g (List.mem_cons_of_mem _ hg)
      refine ⟨found', ?_, fun g hg => ?_, fun g hg => ?_⟩
      · rw [List.foldlM_cons, hadd]
        exact hfold
      · rcases List.mem_cons.1 hg with rfl | hg
        · rw [hout g hf, Found.set_self]
        · exact hin g hg
      · simp only [List.mem_cons, not_or] at hg
        obtain ⟨hne, hg⟩ := hg
        rw [hout g hg, Found.set_of_ne _ _ (Ne.symm hne)]
  | @other name t members fields hnone _ ih =>
    cases hms with
    | @cons _ stop settled node _ next ms _ hnode hms =>
      have hadd : s.addMember o found
          (.mk ⟨.ok name, .ok (), stop, settled, .ok ()⟩ node next) = .ok found := by
        simp only [Shape.addMember, Member.key, Member.value, pure, Except.pure, bind, Except.bind,
          hnone, hnode.skip]
      obtain ⟨found', hfold, hin, hout⟩ := ih hms found hfound
      refine ⟨found', ?_, hin, hout⟩
      rw [List.foldlM_cons, hadd]
      exact hfold

/-- A reader of records reads every field, and nothing else. -/
structure Shape.Reads {R : Type} (s : Shape F Value) (o : Origin) (read : Node → Except Fault R)
    (field : R → (f : F) → Value f) : Prop where
  ok_iff {node : Node} {r : R} :
    read node = .ok r ↔ ∃ get, s.read? o node = .ok get ∧ ∀ f, get f = .ok (field r f)

/-- An object that holds the fields of a record is read as that record. -/
theorem Shape.read?_object {node : Node} (hnode : node.Is (.object members))
    (h : s.Holds o v members fields)
    (hfallback : ∀ f, f ∉ fields → s.fallback f = some (v f)) :
    ∃ get, s.read? o node = .ok get ∧ ∀ f, get f = .ok (v f) := by
  cases hnode with
  | @object ms _ hms start stop =>
    obtain ⟨found, hfold, hin, hout⟩ := h.foldlM hms Found.empty fun _ _ => rfl
    refine ⟨_, by rw [Shape.read?, hfold]; rfl, fun f => ?_⟩
    by_cases hf : f ∈ fields
    · rw [Shape.value, hin f hf]
      rfl
    · rw [Shape.value, hout f hf, hfallback f hf]
      rfl

/-- A member is added where it is no field and can be skipped, or a field that had not been found and is
read. -/
theorem Shape.addMember_eq_ok_iff {found found' : Found Value} {m : Member} :
    s.addMember o found m = .ok found' ↔
      ∃ name, m.key.read = .ok name ∧ m.key.colon = .ok () ∧
        (s.field? name = none ∧ m.value.skip = .ok () ∧ found' = found ∨
          ∃ f, s.field? name = some f ∧ found f = none ∧
            ∃ a, s.read f o m.value = .ok a ∧ found' = found.set f a) := by
  constructor
  · intro h
    obtain ⟨name, hname, h⟩ := exists_of_bind_eq_ok h
    refine ⟨name, hname, ?_⟩
    split at h
    · next hnone =>
      obtain ⟨⟨⟩, hcolon, h⟩ := exists_of_bind_eq_ok h
      obtain ⟨⟨⟩, hskip, h⟩ := exists_of_bind_eq_ok h
      exact ⟨hcolon, .inl ⟨hnone, hskip, (Except.ok.inj h).symm⟩⟩
    · next f hf =>
      by_cases hfound : (found f).isSome = true
      · rw [if_pos hfound] at h
        cases h
      · rw [if_neg hfound] at h
        obtain ⟨⟨⟩, hcolon, h⟩ := exists_of_bind_eq_ok h
        obtain ⟨a, ha, h⟩ := exists_of_bind_eq_ok h
        have hnone := Option.not_isSome_iff_eq_none.1 hfound
        exact ⟨hcolon, .inr ⟨f, hf, hnone, a, ha, (Except.ok.inj h).symm⟩⟩
  · rintro ⟨name, hname, hcolon, ⟨hnone, hskip, rfl⟩ | ⟨f, hf, hfound, a, ha, rfl⟩⟩
    · rw [addMember, bind_of_eq_ok hname]
      simp only [hnone, bind_of_eq_ok hcolon, bind_of_eq_ok hskip]
      rfl
    · rw [addMember, bind_of_eq_ok hname]
      simp only [hf, hfound, bind_of_eq_ok hcolon, bind_of_eq_ok ha]
      rfl

/-- What was found of a record was read from parts of the text. -/
def Found.FromText (s : Shape F Value) (o : Origin) (found : Found Value) : Prop :=
  ∀ f v, found f = some v → ∃ node, s.read f o node = .ok v

theorem Found.FromText.set {found : Found Value} (h : found.FromText s o) {f : F} {a : Value f}
    {node : Node} (ha : s.read f o node = .ok a) : (found.set f a).FromText s o := by
  intro g b hg
  by_cases hfg : f = g
  · subst hfg
    rw [Found.set_self] at hg
    cases hg
    exact ⟨node, ha⟩
  · rw [Found.set_of_ne _ _ hfg] at hg
    exact h g b hg

theorem Shape.addMember_fromText {found found' : Found Value} (h : found.FromText s o) {m : Member}
    (hm : s.addMember o found m = .ok found') : found'.FromText s o := by
  obtain ⟨-, -, -, ⟨-, -, rfl⟩ | ⟨f, -, -, a, ha, rfl⟩⟩ := addMember_eq_ok_iff.1 hm
  · exact h
  · exact h.set ha

theorem Shape.foldlM_fromText {found found' : Found Value} (h : found.FromText s o)
    {ms : List Member} (hms : ms.foldlM (s.addMember o) found = .ok found') :
    found'.FromText s o := by
  induction ms generalizing found with
  | nil =>
    cases hms
    exact h
  | cons m ms ih =>
    rw [List.foldlM_cons] at hms
    obtain ⟨next, hnext, hms⟩ := exists_of_bind_eq_ok hms
    exact ih (s.addMember_fromText h hnext) hms

theorem Shape.addItems_fromText {found : Found Value} (h : found.FromText s o) {fields : List F}
    {items : List Node} {r : Found Value × List F × List Node}
    (hr : s.addItems o found fields items = .ok r) : r.1.FromText s o := by
  induction fields generalizing found items with
  | nil =>
    cases hr
    exact h
  | cons f fields ih =>
    cases items with
    | nil =>
      cases hr
      exact h
    | cons node items =>
      obtain ⟨a, ha, hr⟩ := exists_of_bind_eq_ok hr
      exact ih (h.set ha) hr

/-- A field that was read was read from a part of the text, or it is the fallback. -/
theorem Shape.read?_cases {node : Node} {get : (f : F) → Except Fault (Value f)}
    (h : s.read? o node = .ok get) {f : F} {a : Value f} (ha : get f = .ok a) :
    (∃ part, s.read f o part = .ok a) ∨ s.fallback f = some a := by
  have hvalue : ∀ {found : Found Value} {absent : F → Fault}, found.FromText s o →
      s.value found absent f = .ok a → (∃ part, s.read f o part = .ok a) ∨ s.fallback f = some a := by
    intro found absent hfound hval
    rw [Shape.value] at hval
    cases hf : found f with
    | none =>
      rw [hf, Option.none_or] at hval
      split at hval
      · next hfallback =>
        cases hval
        exact .inr hfallback
      · cases hval
    | some b =>
      rw [hf, Option.some_or] at hval
      cases hval
      exact .inl (hfound f _ hf)
  have hempty : (Found.empty : Found Value).FromText s o := nofun
  cases node with
  | object ms ending start =>
    obtain ⟨found, hfold, h⟩ := exists_of_bind_eq_ok h
    obtain ⟨stop, -, h⟩ := exists_of_bind_eq_ok h
    cases h
    exact hvalue (s.foldlM_fromText hempty hfold) ha
  | array items ending start =>
    obtain ⟨r, hitems, h⟩ := exists_of_bind_eq_ok h
    obtain ⟨stop, -, h⟩ := exists_of_bind_eq_ok h
    cases h
    exact hvalue (s.addItems_fromText hempty hitems) ha
  | null | boolean | number | text | broken | absent => cases h

end

/-! ## Whole texts -/

theorem decode_map {α β : Type} (f : α → β) (read : Node → Except Fault α) (bytes : List UInt8) :
    decode (fun node => f <$> read node) bytes = f <$> decode read bytes := by
  simp only [decode]
  cases read (Outline.ofBytes bytes).root with
  | error fault => rfl
  | ok a => cases (Outline.ofBytes bytes).trailing <;> rfl

/-- A text is decoded where its tree is read and nothing follows. -/
theorem decode_eq_ok_iff {α : Type} {read : Node → Except Fault α} {bytes : List UInt8} {a : α} :
    decode read bytes = .ok a ↔
      read (Outline.ofBytes bytes).root = .ok a ∧ (Outline.ofBytes bytes).trailing = none := by
  simp only [decode]
  cases read (Outline.ofBytes bytes).root with
  | error fault => exact ⟨nofun, nofun⟩
  | ok b => cases (Outline.ofBytes bytes).trailing <;> simp [bind, Except.bind, pure, Except.pure]

/-- What a text is decoded to was read from some tree. -/
theorem exists_node_of_decode {α : Type} {read : Node → Except Fault α} {bytes : List UInt8} {a : α}
    (h : decode read bytes = .ok a) : ∃ node, read node = .ok a := ⟨_, (decode_eq_ok_iff.1 h).1⟩

end SubnetRegistry.Json
