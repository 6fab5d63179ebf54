import SubnetRegistry.Proofs.Json.Document
import SubnetRegistry.Proofs.Json.Record

/-!
# Edits of the text of a record

The text of a record says the same after its members were put in another order, members of other names
were put among them, and members that hold what they would be if absent were left out; in the record
and in the records inside it. A text in which a record has a member twice, or lacks one that must be
there, says nothing.

## Main definitions

* `Layout` — the members of a record and of the records inside it.
* `Edits` — a document that says the same as a value.
* `Broken` — a document that says nothing.
* `ReadsEdits`, `Rejects` — a reader that reads every edit of a value, and one that reads nothing broken.
* `Shape.layout` — the layout of the records of a shape.

## Main statements

* `Shape.readsEdits` — a record is read from every edit of its text.
* `Shape.rejects` — it is not read from a broken one.
-/
namespace SubnetRegistry.Json

/-- The members of a record, each with its name, what it is if it is absent, unless it must be there,
and its own layout. Any other value has a plain layout. -/
inductive Layout where
  | plain
  | record (fields : List (String × Option Value × Layout))

abbrev Layout.Fields : Type := List (String × Option Value × Layout)

mutual

/-- A document that says the same as a value: its members are those of the value, of which some are left
out, and others whose keys are no fields, in any order. -/
inductive Edits : Layout → Value → Document → Prop
  | plain (v : Value) : Edits .plain v v.document
  | null (fields : Layout.Fields) : Edits (.record fields) .null .null
  | record {fields : Layout.Fields} {written : List (String × Value)}
      {kept extra members : List (List Glyph × Document)} (hkept : EditsMembers fields written kept)
      (hextra : ∀ m ∈ extra, ∃ name, Glyph.denoted? m.1 = some name ∧ ∀ f ∈ fields, f.1 ≠ name)
      (hmembers : members.Perm (kept ++ extra)) :
      Edits (.record fields) (.object written) (.object members)

inductive EditsMembers : Layout.Fields → List (String × Value) →
    List (List Glyph × Document) → Prop
  | nil (fields : Layout.Fields) : EditsMembers fields [] []
  | keep {fields : Layout.Fields} {name : String} {default : Option Value}
      {layout : Layout} {v : Value} {d : Document} {written : List (String × Value)}
      {kept : List (List Glyph × Document)} (hfield : (name, default, layout) ∈ fields)
      (h : Edits layout v d) (hs : EditsMembers fields written kept) :
      EditsMembers fields ((name, v) :: written) ((Glyph.ofText name, d) :: kept)
  | drop {fields : Layout.Fields} {name : String} {v : Value}
      {layout : Layout} {written : List (String × Value)} {kept : List (List Glyph × Document)}
      (hfield : (name, some v, layout) ∈ fields) (hs : EditsMembers fields written kept) :
      EditsMembers fields ((name, v) :: written) kept

end

/-- A document in which a record has a member twice or lacks one that must be there. Records may be
written as arrays too, whose items are the fields in order. -/
inductive Broken : Layout → Document → Prop
  | twice {fields : Layout.Fields} {field : String × Option Value × Layout}
      {m m' : List Glyph × Document} {members : List (List Glyph × Document)}
      (hfield : field ∈ fields) (hm : Glyph.denoted? m.1 = some field.1)
      (hm' : Glyph.denoted? m'.1 = some field.1) (h : [m, m'].Sublist members) :
      Broken (.record fields) (.object members)
  | missing {fields : Layout.Fields} {name : String} {layout : Layout}
      {members : List (List Glyph × Document)} (hfield : (name, none, layout) ∈ fields)
      (h : ∀ m ∈ members, Glyph.denoted? m.1 ≠ some name) :
      Broken (.record fields) (.object members)
  | member {fields : Layout.Fields} {field : String × Option Value × Layout}
      {m : List Glyph × Document} {members : List (List Glyph × Document)}
      (hfield : field ∈ fields) (hm : m ∈ members) (hname : Glyph.denoted? m.1 = some field.1)
      (h : Broken field.2.2 m.2) : Broken (.record fields) (.object members)
  | item {fields : Layout.Fields} {field : String × Option Value × Layout}
      {d : Document} {items : List Document} {i : Nat} (hfield : fields[i]? = some field)
      (hitem : items[i]? = some d) (h : Broken field.2.2 d) : Broken (.record fields) (.array items)

/-! ## Single values -/

variable {α : Type} {read : Node → Except Fault α} {v : Value} {a : α}

/-- A value is read from every edit of its text, and its own text is one of them. -/
structure ReadsEdits (layout : Layout) (read : Node → Except Fault α) (v : Value) (a : α) : Prop where
  document : Edits layout v v.document
  reads : ∀ ⦃d : Document⦄ ⦃t : Tree⦄ ⦃node : Node⦄, Edits layout v d → d.Fits t → node.Is t →
    read node = .ok a

/-- No value is read from a broken text. -/
def Rejects (layout : Layout) (read : Node → Except Fault α) : Prop :=
  ∀ ⦃d : Document⦄ ⦃t : Tree⦄ ⦃node : Node⦄, Broken layout d → d.Fits t → node.Is t →
    ∀ a, read node ≠ .ok a

theorem ReadsEdits.of_tree {layout : Layout} (h : ReadsEdits layout read v a) {node : Node}
    (hnode : node.Is v.tree) : read node = .ok a :=
  h.reads h.document v.fits_tree hnode

theorem ReadsEdits.plain (hv : v.Narrow) (h : ∀ node : Node, node.Is v.tree → read node = .ok a) :
    ReadsEdits .plain read v a := by
  refine ⟨.plain v, fun d t node hedits hfits hnode => ?_⟩
  cases hedits
  rw [v.tree_of_fits t hv hfits] at hnode
  exact h node hnode

theorem Rejects.plain (read : Node → Except Fault α) : Rejects .plain read := by
  intro d t node hbroken
  cases hbroken

theorem ReadsEdits.unset (fields : Layout.Fields) :
    ReadsEdits (.record fields) (Node.asOption read) .null none := by
  refine ⟨.null fields, fun d t node hedits hfits hnode => ?_⟩
  cases hedits
  cases hfits
  exact hnode.asOption_null read

theorem ReadsEdits.set {fields : Layout.Fields}
    {written : List (String × Value)} (h : ReadsEdits (.record fields) read (.object written) a) :
    ReadsEdits (.record fields) (Node.asOption read) (.object written) (some a) := by
  refine ⟨h.document, fun d t node hedits hfits hnode => ?_⟩
  have hread := h.reads hedits hfits hnode
  cases hedits
  cases hfits
  exact hnode.asOption nofun hread

theorem Rejects.option {fields : Layout.Fields} (h : Rejects (.record fields) read) :
    Rejects (.record fields) (Node.asOption read) := by
  intro d t node hbroken hfits hnode a ha
  have hne : t ≠ .null := by
    rintro rfl
    cases hfits
    cases hbroken
  rw [hnode.asOption_eq hne] at ha
  obtain ⟨b, hb, -⟩ := exists_of_map_eq_ok ha
  exact h hbroken hfits hnode b hb

/-! ## Records -/

section

variable {F : Type} {V : F → Type} {s : Shape F V} {o : Origin}
  {entry : F → Option Value × Layout} {write : F → Option Value} {w : (f : F) → V f}

/-- The layout of the records of a shape, where `entry` says what a field is if it is absent, and gives
its own layout. -/
def Shape.layout (s : Shape F V) (entry : F → Option Value × Layout) : Layout :=
  .record (s.fields.map fun f => (s.name f, entry f))

def Shape.written (s : Shape F V) (write : F → Option Value) (fields : List F) :
    List (String × Value) :=
  fields.filterMap fun f => (write f).map fun v => (s.name f, v)

/-- Every field is found by its name, and stands in the list of fields once. -/
structure Shape.Regular (s : Shape F V) : Prop where
  field?_name : ∀ f, s.field? (s.name f) = some f
  nodup : s.fields.Nodup

/-- How a record with fields `w` is written: every member can be read, and a field that is not written,
or is written as what it is if it is absent, is the fallback. -/
structure Shape.Writes (s : Shape F V) (o : Origin) (entry : F → Option Value × Layout)
    (write : F → Option Value) (w : (f : F) → V f) : Prop where
  read : ∀ {f v}, write f = some v → ReadsEdits (entry f).2 (s.read f o) v (w f)
  fallback : ∀ {f}, write f = none ∨ write f = (entry f).1 → s.fallback f = some (w f)

def Shape.fieldOf (s : Shape F V) (m : List Glyph × Document) : Option F :=
  (Glyph.denoted? m.1).bind s.field?

theorem Shape.name_of_field? {name : String} {f : F} (h : s.field? name = some f) :
    s.name f = name := by
  simpa using List.find?_some h

theorem Shape.Regular.mem_fields (h : s.Regular) (f : F) : f ∈ s.fields :=
  List.mem_of_find?_eq_some (h.field?_name f)

theorem Shape.Regular.entry_eq (h : s.Regular) {f : F} {e : Option Value × Layout}
    (he : (s.name f, e) ∈ s.fields.map fun f => (s.name f, entry f)) : e = entry f := by
  obtain ⟨g, -, hg⟩ := List.mem_map.1 he
  obtain ⟨hname, rfl⟩ := Prod.mk.inj hg
  have hgf := h.field?_name g
  rw [hname, h.field?_name f] at hgf
  rw [Option.some.inj hgf]

/-- A key that is no field's name is not found. -/
theorem Shape.field?_eq_none {name : String}
    (h : ∀ f ∈ s.fields.map fun f => (s.name f, entry f), f.1 ≠ name) : s.field? name = none := by
  refine List.find?_eq_none.2 fun f hf => ?_
  simpa using h _ (List.mem_map.2 ⟨f, hf, rfl⟩)

/-- A member is read, if it is a field. -/
def Shape.Takes (s : Shape F V) (o : Origin) (w : (f : F) → V f) (m : List Glyph × Document) : Prop :=
  ∃ name, Glyph.denoted? m.1 = some name ∧ ∀ f, s.field? name = some f →
    ∀ {t : Tree} {node : Node}, m.2.Fits t → node.Is t → s.read f o node = .ok (w f)

theorem Shape.holds_of_fits {members : List (List Glyph × Document)}
    {trees : List (Except Fault String × Tree)} (hfits : Document.FitMembers members trees)
    (htakes : ∀ m ∈ members, s.Takes o w m) (hnodup : (members.filterMap s.fieldOf).Nodup) :
    s.Holds o w trees (members.filterMap s.fieldOf) := by
  induction members generalizing trees with
  | nil =>
    cases hfits
    exact .nil
  | cons m members ih =>
    cases hfits with
    | @cons key read d t _ trees hkey hd hfits =>
      obtain ⟨name, hname, hread⟩ := htakes (key, d) List.mem_cons_self
      obtain rfl : read = .ok name := (hkey name).2 hname
      have hrest := ih hfits fun m hm => htakes m (List.mem_cons_of_mem _ hm)
      cases hfield : s.field? name with
      | none =>
        have hskip : s.fieldOf (key, d) = none := by
          rw [fieldOf, hname, Option.bind_some, hfield]
        rw [List.filterMap_cons_none hskip] at hnodup ⊢
        exact .other hfield (hrest hnodup)
      | some f =>
        have htake : s.fieldOf (key, d) = some f := by
          rw [fieldOf, hname, Option.bind_some, hfield]
        rw [List.filterMap_cons_some htake, List.nodup_cons] at hnodup
        rw [List.filterMap_cons_some htake]
        exact .field hfield (fun node hnode => hread f hfield hd hnode) hnodup.1 (hrest hnodup.2)

theorem Shape.written_cons_none {f : F} {fields : List F} (h : write f = none) :
    s.written write (f :: fields) = s.written write fields := by
  rw [written, List.filterMap_cons_none (by rw [h, Option.map_none]), written]

theorem Shape.written_cons_some {f : F} {fields : List F} {v : Value} (h : write f = some v) :
    s.written write (f :: fields) = (s.name f, v) :: s.written write fields := by
  rw [written, List.filterMap_cons_some (by rw [h, Option.map_some]), written]

/-- Members that are kept are read, each once, and what is left out is the fallback. -/
theorem Shape.Regular.kept (h : s.Regular) (hw : s.Writes o entry write w) {fields : List F}
    {kept : List (List Glyph × Document)}
    (hkept : EditsMembers (s.fields.map fun f => (s.name f, entry f)) (s.written write fields) kept) :
    (∀ m ∈ kept, s.Takes o w m) ∧ (kept.filterMap s.fieldOf).Sublist fields ∧
      ∀ f ∈ fields, f ∉ kept.filterMap s.fieldOf → s.fallback f = some (w f) := by
  induction fields generalizing kept with
  | nil =>
    cases hkept
    exact ⟨nofun, .slnil, nofun⟩
  | cons f fields ih =>
    cases hwrite : write f with
    | none =>
      rw [written_cons_none hwrite] at hkept
      obtain ⟨htakes, hsub, hout⟩ := ih hkept
      refine ⟨htakes, hsub.cons f, fun g hg hnot => ?_⟩
      rcases List.mem_cons.1 hg with rfl | hg
      · exact hw.fallback (.inl hwrite)
      · exact hout g hg hnot
    | some v =>
      rw [written_cons_some hwrite] at hkept
      cases hkept with
      | @keep _ _ default layout _ d _ kept hfield hedits hkept =>
        obtain ⟨htakes, hsub, hout⟩ := ih hkept
        have hentry : layout = (entry f).2 := congrArg Prod.snd (h.entry_eq hfield)
        have hname := Glyph.denoted?_ofText (s.name f)
        have htake : s.fieldOf (Glyph.ofText (s.name f), d) = some f := by
          rw [fieldOf, hname, Option.bind_some, h.field?_name]
        rw [List.filterMap_cons_some htake]
        refine ⟨fun m hm => ?_, hsub.cons_cons f, fun g hg hnot => ?_⟩
        · rcases List.mem_cons.1 hm with rfl | hm
          · refine ⟨s.name f, hname, fun g hg t node hfits hnode => ?_⟩
            rw [h.field?_name] at hg
            cases hg
            exact (hw.read hwrite).reads (hentry ▸ hedits) hfits hnode
          · exact htakes m hm
        · rw [List.mem_cons, not_or] at hnot
          exact hout g ((List.mem_cons.1 hg).resolve_left hnot.1) hnot.2
      | @drop _ _ _ layout _ _ hfield hkept =>
        obtain ⟨htakes, hsub, hout⟩ := ih hkept
        have hentry : some v = (entry f).1 := congrArg Prod.fst (h.entry_eq hfield)
        refine ⟨htakes, hsub.cons f, fun g hg hnot => ?_⟩
        rcases List.mem_cons.1 hg with rfl | hg
        · exact hw.fallback (.inr (hwrite.trans hentry))
        · exact hout g hg hnot

/-- All members may be kept as they are. -/
theorem Shape.Writes.keepAll (hw : s.Writes o entry write w) {fields : List F}
    (hfields : fields ⊆ s.fields) :
    EditsMembers (s.fields.map fun f => (s.name f, entry f)) (s.written write fields)
      (Value.memberDocuments (s.written write fields)) := by
  induction fields with
  | nil => exact .nil _
  | cons f fields ih =>
    obtain ⟨hf, hfields⟩ := List.cons_subset.1 hfields
    cases hwrite : write f with
    | none =>
      rw [written_cons_none hwrite]
      exact ih hfields
    | some v =>
      rw [written_cons_some hwrite]
      exact .keep (List.mem_map.2 ⟨f, hf, rfl⟩) (hw.read hwrite).document (ih hfields)

/-- A record is read from every edit of its text. -/
theorem Shape.readsEdits [DecidableEq F] (h : s.Regular) {field : α → (f : F) → V f}
    (hw : s.Writes o entry write (field a)) (hread : s.Reads o read field) :
    ReadsEdits (s.layout entry) read (.object (s.written write s.fields)) a := by
  have hown := Edits.record (hw.keepAll (List.Subset.refl _)) (List.forall_mem_nil _)
    (.of_eq (List.append_nil _).symm)
  refine ⟨hown, fun d t node hedits hfits hnode => ?_⟩
  cases hedits with
  | @record _ _ kept extra members hkept hextra hmembers =>
    cases hfits with
    | object hfits =>
      obtain ⟨htakes, hsub, hout⟩ := h.kept hw hkept
      have hnone : extra.filterMap s.fieldOf = [] := by
        refine List.filterMap_eq_nil_iff.2 fun m hm => ?_
        obtain ⟨name, hname, hne⟩ := hextra m hm
        rw [fieldOf, hname, Option.bind_some, s.field?_eq_none hne]
      have hperm : (members.filterMap s.fieldOf).Perm (kept.filterMap s.fieldOf) := by
        have hfields := hmembers.filterMap s.fieldOf
        rwa [List.filterMap_append, hnone, List.append_nil] at hfields
      have hall : ∀ m ∈ members, s.Takes o (field a) m := by
        intro m hm
        rcases List.mem_append.1 (hmembers.mem_iff.1 hm) with hm | hm
        · exact htakes m hm
        · obtain ⟨name, hname, hne⟩ := hextra m hm
          refine ⟨name, hname, fun f hf => ?_⟩
          rw [s.field?_eq_none hne] at hf
          cases hf
      have hnodup : (members.filterMap s.fieldOf).Nodup :=
        hperm.nodup_iff.2 (h.nodup.sublist hsub)
      obtain ⟨get, hget, hfields⟩ := Shape.read?_object hnode (Shape.holds_of_fits hfits hall hnodup)
        fun f hf => hout f (h.mem_fields f) fun hin => hf (hperm.mem_iff.2 hin)
      exact hread.ok_iff.2 ⟨get, hget, hfields⟩

/-! ## Broken records -/

def Shape.treeField (s : Shape F V) (m : Except Fault String × Tree) : Option F :=
  m.1.toOption.bind s.field?

theorem Shape.filterMap_treeField {members : List (List Glyph × Document)}
    {trees : List (Except Fault String × Tree)} (hfits : Document.FitMembers members trees) :
    trees.filterMap s.treeField = members.filterMap s.fieldOf := by
  induction members generalizing trees with
  | nil =>
    cases hfits
    rfl
  | cons m members ih =>
    cases hfits with
    | @cons key read d t _ trees hkey _ hfits =>
      have hread : read.toOption = Glyph.denoted? key := by
        cases hname : Glyph.denoted? key with
        | some name => rw [(hkey name).2 hname]; rfl
        | none =>
          cases read with
          | error fault => rfl
          | ok name =>
            rw [(hkey name).1 rfl] at hname
            cases hname
      have hfield : s.treeField (read, t) = s.fieldOf (key, d) := by
        rw [treeField, fieldOf, hread]
      rw [List.filterMap_cons, List.filterMap_cons, hfield, ih hfits]

/-- Where all members are added, each field stands among them once and is read. -/
theorem Shape.foldlM_eq_ok [DecidableEq F] {ms : List Member}
    {trees : List (Except Fault String × Tree)} (hms : Member.Are ms trees) {found found' : Found V}
    (h : ms.foldlM (s.addMember o) found = .ok found') :
    (∀ m ∈ trees, ∀ f, s.treeField m = some f →
        ∃ node a, Node.Is node m.2 ∧ s.read f o node = .ok a) ∧
      (∀ f ∈ trees.filterMap s.treeField, found f = none) ∧ (trees.filterMap s.treeField).Nodup ∧
      ∀ f, f ∉ trees.filterMap s.treeField → found' f = found f := by
  induction trees generalizing ms found with
  | nil =>
    cases hms
    cases h
    exact ⟨nofun, nofun, .nil, fun _ _ => rfl⟩
  | cons m trees ih =>
    cases hms with
    | @cons key stop settled node t next ms _ hnode hms =>
      rw [List.foldlM_cons] at h
      obtain ⟨added, hadd, h⟩ := exists_of_bind_eq_ok h
      obtain ⟨hread, hfree, hnodup, hout⟩ := ih hms h
      obtain ⟨name, rfl, -, hadd⟩ := addMember_eq_ok_iff.1 hadd
      have hfield : s.treeField (.ok name, t) = s.field? name := rfl
      obtain ⟨hnone, -, rfl⟩ | ⟨f, hf, hfound, a, ha, rfl⟩ := hadd
      · rw [List.filterMap_cons_none (hfield.trans hnone)]
        refine ⟨List.forall_mem_cons.2 ⟨fun f hf => ?_, hread⟩, hfree, hnodup, hout⟩
        rw [hfield.trans hnone] at hf
        cases hf
      · have hnot : f ∉ trees.filterMap s.treeField := fun hin => by
          have hnone := hfree f hin
          rw [Found.set_self] at hnone
          cases hnone
        have hne : ∀ g ∈ trees.filterMap s.treeField, f ≠ g := by
          rintro g hg rfl
          exact hnot hg
        rw [List.filterMap_cons_some (hfield.trans hf)]
        refine ⟨List.forall_mem_cons.2 ⟨fun g hg => ?_, hread⟩,
          List.forall_mem_cons.2 ⟨hfound, fun g hg => ?_⟩, List.nodup_cons.2 ⟨hnot, hnodup⟩,
          fun g hg => ?_⟩
        · obtain rfl : f = g := Option.some.inj (hf.symm.trans hg)
          exact ⟨node, a, hnode, ha⟩
        · rw [← Found.set_of_ne found a (hne g hg)]
          exact hfree g hg
        · rw [List.mem_cons, not_or] at hg
          rw [hout g hg.2, Found.set_of_ne _ _ (Ne.symm hg.1)]

theorem Shape.addItems_eq_ok [DecidableEq F] {found : Found V} {fields : List F} {items : List Node}
    {r : Found V × List F × List Node} (h : s.addItems o found fields items = .ok r) {i : Nat} {f : F}
    {node : Node} (hf : fields[i]? = some f) (hnode : items[i]? = some node) :
    ∃ a, s.read f o node = .ok a := by
  induction fields generalizing found items i with
  | nil => cases hf
  | cons g fields ih =>
    cases items with
    | nil => cases hnode
    | cons item items =>
      obtain ⟨a, ha, h⟩ := exists_of_bind_eq_ok h
      cases i with
      | zero =>
        cases hf
        cases hnode
        exact ⟨a, ha⟩
      | succ i => exact ih h hf hnode

/-- A field that must be there is missing where no member was found for it. -/
theorem Shape.value_ne_ok {found : Found V} {absent : F → Fault} {f : F} (hfound : found f = none)
    (hfallback : s.fallback f = none) (a : V f) : s.value found absent f ≠ .ok a := by
  rw [Shape.value, hfound, hfallback]
  intro h
  cases h

theorem Document.FitMembers.exists_of_mem {members : List (List Glyph × Document)}
    {trees : List (Except Fault String × Tree)} (h : Document.FitMembers members trees)
    {m : List Glyph × Document} (hm : m ∈ members) :
    ∃ m' ∈ trees, (∀ s, m'.1 = .ok s ↔ Glyph.denoted? m.1 = some s) ∧ m.2.Fits m'.2 := by
  induction members generalizing trees with
  | nil => cases hm
  | cons first members ih =>
    cases h with
    | cons hkey hd h =>
      rcases List.mem_cons.1 hm with rfl | hm
      · exact ⟨_, List.mem_cons_self, hkey, hd⟩
      · obtain ⟨m', hm', hfits⟩ := ih h hm
        exact ⟨m', List.mem_cons_of_mem _ hm', hfits⟩

theorem Document.FitItems.exists_of_getElem? {items : List Document} {trees : List Tree}
    (h : Document.FitItems items trees) {nodes : List Node} (hnodes : Node.Are nodes trees) {i : Nat}
    {d : Document} (hd : items[i]? = some d) :
    ∃ t node, nodes[i]? = some node ∧ d.Fits t ∧ node.Is t := by
  induction items generalizing trees nodes i with
  | nil => cases hd
  | cons first items ih =>
    cases h with
    | cons hfits h =>
      cases hnodes with
      | cons hnode hnodes =>
        cases i with
        | zero =>
          cases hd
          exact ⟨_, _, rfl, hfits, hnode⟩
        | succ i => exact ih h hnodes hd

/-- A record is not read from a broken text. -/
theorem Shape.rejects [DecidableEq F] (h : s.Regular)
    (hentry : ∀ f, Rejects (entry f).2 (s.read f o))
    (hrequired : ∀ f, (entry f).1 = none → s.fallback f = none)
    {field : α → (f : F) → V f} (hreads : s.Reads o read field) : Rejects (s.layout entry) read := by
  intro d t node hbroken hfits hnode a ha
  obtain ⟨get, hread, hget⟩ := hreads.ok_iff.1 ha
  cases hfits with
  | null | boolean | number | text => cases hbroken
  | @array items trees hfits =>
    cases hbroken with
    | @item _ field d _ i hfield hitem hd =>
      cases hnode with
      | array hnodes =>
        obtain ⟨r, hitems, -⟩ := exists_of_bind_eq_ok hread
        rw [List.getElem?_map] at hfield
        obtain ⟨f, hf, rfl⟩ := Option.map_eq_some_iff.1 hfield
        obtain ⟨t, node, hnode, hfit, his⟩ := hfits.exists_of_getElem? hnodes hitem
        obtain ⟨a, ha⟩ := s.addItems_eq_ok hitems hf hnode
        exact hentry f hd hfit his a ha
  | @object members trees hfits =>
    cases hnode with
    | object hms =>
      obtain ⟨found, hfold, hread⟩ := exists_of_bind_eq_ok hread
      obtain ⟨stop, -, hread⟩ := exists_of_bind_eq_ok hread
      obtain rfl := Except.ok.inj hread
      obtain ⟨hparts, -, hnodup, hout⟩ := s.foldlM_eq_ok hms hfold
      rw [s.filterMap_treeField hfits] at hnodup hout
      cases hbroken with
      | @twice _ field m m' _ hfield hm hm' hsub =>
        obtain ⟨f, -, rfl⟩ := List.mem_map.1 hfield
        have hfirst : s.fieldOf m = some f := by rw [fieldOf, hm, Option.bind_some, h.field?_name]
        have hsecond : s.fieldOf m' = some f := by rw [fieldOf, hm', Option.bind_some, h.field?_name]
        have hpair := hnodup.sublist (hsub.filterMap s.fieldOf)
        simp [hfirst, hsecond] at hpair
      | @missing _ name layout _ hfield hmissing =>
        obtain ⟨f, -, heq⟩ := List.mem_map.1 hfield
        obtain ⟨rfl, hentryf⟩ := Prod.mk.inj heq
        have hnot : f ∉ members.filterMap s.fieldOf := by
          intro hin
          obtain ⟨m, hm, hfield⟩ := List.mem_filterMap.1 hin
          obtain ⟨name, hname, hf⟩ := Option.bind_eq_some_iff.1 hfield
          exact hmissing m hm (hname.trans (congrArg some (s.name_of_field? hf).symm))
        exact s.value_ne_ok (hout f hnot) (hrequired f (congrArg Prod.fst hentryf)) _ (hget f)
      | @member _ field m _ hfield hm hname hd =>
        obtain ⟨f, -, rfl⟩ := List.mem_map.1 hfield
        obtain ⟨m', hm', hkey, hfit⟩ := hfits.exists_of_mem hm
        have htake : s.treeField m' = some f := by
          rw [treeField, (hkey _).2 hname]
          exact h.field?_name f
        obtain ⟨node, a, his, ha⟩ := hparts m' hm' f htake
        exact hentry f hd hfit his a ha

end

/-! ## Whole texts -/

section

variable {layout : Layout} {d : Document} {bytes : List UInt8}

/-- A value is decoded from every edit of its text. -/
theorem ReadsEdits.decode (h : ReadsEdits layout read v a) (hd : Edits layout v d)
    (hbytes : Spaced d.pieces bytes) : decode read bytes = .ok a := by
  obtain ⟨t, node, hfits, hnode, hdecode⟩ := decode_spaced hbytes
  rw [hdecode]
  exact h.reads hd hfits hnode

/-- Nothing is decoded from a broken text. -/
theorem Rejects.decode (h : Rejects layout read) (hd : Broken layout d)
    (hbytes : Spaced d.pieces bytes) : ∃ fault, decode read bytes = .error fault := by
  obtain ⟨t, node, hfits, hnode, hdecode⟩ := decode_spaced hbytes
  rw [hdecode]
  cases hread : read node with
  | error fault => exact ⟨fault, rfl⟩
  | ok a => exact absurd hread (h hd hfits hnode a)

end

end SubnetRegistry.Json
