import Mathlib.Logic.Function.Basic
import SubnetRegistry.Proofs.Json.Edits
import SubnetRegistry.Proofs.Json.Reread

/-!
# Reading records that are alike

Of a record in which no number is swapped every field is read again. Where the number is swapped in one of
its fields, this field is read as it tracks the number, and the others are read again.

## Main definitions

* `Shape.step` — the step to a field of a record.
* `Found.over` — what has been found, with other values for some of it.
* `Shape.Rereads` — a reader of records, and a way to change one field of a record.

## Main statements

* `Shape.read?_again`, `Shape.read?_tracks` — the fields of the two parts.
* `Shape.Reads.keeps`, `Shape.Reads.tracks` — readers of records keep and track.
* `Shape.Rereads.tracks` — what a field tracks, a record tracks with that field changed.
-/
namespace SubnetRegistry.Json

section

variable {F : Type} [DecidableEq F] {V : F → Type} {f g : F}

/-! ## What has been found -/

/-- What has been found, with other values for some of it. -/
def Found.over (found more : Found V) : Found V := fun f => (more f).or (found f)

theorem Found.over_set_empty (found : Found V) (f : F) (v : V f) :
    found.over (Found.empty.set f v) = found.set f v := by
  funext g
  by_cases h : f = g
  · subst h
    simp [Found.over]
  · simp [Found.over, h, Found.empty]

theorem Found.set_set (found : Found V) (f : F) (v v' : V f) :
    (found.set f v).set f v' = found.set f v' := by
  funext g
  by_cases h : f = g
  · subst h
    simp
  · simp [h]

variable {found found' more : Found V}

/-- A field without another value is found with it. -/
theorem Found.set_over (h : more f = none) (v : V f) :
    (found.set f v).over more = (found.over more).set f v := by
  funext g
  by_cases hg : f = g
  · subst hg
    simp [Found.over, h]
  · simp [Found.over, hg]

/-! ## Members -/

variable {s : Shape F V} {o : Origin} {w : Swap} {z : Int} {fits : Prop}

/-- What has been found stays. -/
theorem Shape.addMember_found {m : Member} (h : s.addMember o found m = .ok found') {a : V g}
    (hg : found g = some a) : found' g = some a := by
  obtain ⟨-, -, -, ⟨-, -, rfl⟩ | ⟨f, -, hf, b, -, rfl⟩⟩ := addMember_eq_ok_iff.1 h
  · exact hg
  · have hne : f ≠ g := by
      rintro rfl
      cases hf.symm.trans hg
    rwa [Found.set_of_ne _ _ hne]

theorem Shape.foldlM_found {ms : List Member} (h : ms.foldlM (s.addMember o) found = .ok found')
    {a : V g} (hg : found g = some a) : found' g = some a := by
  induction ms generalizing found with
  | nil =>
    cases h
    exact hg
  | cons m ms ih =>
    rw [List.foldlM_cons] at h
    obtain ⟨next, hnext, h⟩ := exists_of_bind_eq_ok h
    exact ih h (addMember_found hnext hg)

section

variable (hkeeps : ∀ g, Keeps w (s.read g o))

include hkeeps

theorem Shape.addMember_again {key key' : Key} {value value' : Node} (next next' : Nat)
    (hkey : key.Alike key') (hvalue : value.Alike w 0 value')
    (hmore : ∀ g, found g = none → more g = none)
    (hadd : s.addMember o found (.mk key value next) = .ok found') :
    s.addMember o (found.over more) (.mk key' value' next') = .ok (found'.over more) := by
  obtain ⟨name, hname, hcolon, h⟩ := addMember_eq_ok_iff.1 hadd
  refine addMember_eq_ok_iff.2 ⟨name, hkey.read _ hname, hkey.colon _ hcolon, ?_⟩
  obtain ⟨hnone, hskip, rfl⟩ | ⟨g, hg, hfound, a, ha, rfl⟩ := h
  · exact .inl ⟨hnone, hvalue.skip _ hskip, rfl⟩
  · have hfree := hmore g hfound
    refine .inr ⟨g, hg, ?_, a, hkeeps g hvalue a ha, Found.set_over hfree a⟩
    rw [Found.over, hfree, Option.none_or, hfound]

theorem Shape.foldlM_again {ms ms' : List Member} (h : Member.AlikeAll w 0 ms ms')
    (hmore : ∀ g, found g = none → more g = none)
    (hfold : ms.foldlM (s.addMember o) found = .ok found') :
    ms'.foldlM (s.addMember o) (found.over more) = .ok (found'.over more) := by
  induction ms generalizing ms' found with
  | nil =>
    cases h
    cases hfold
    rfl
  | cons m ms ih =>
    cases h with
    | cons next next' hkey hvalue hs hn =>
      obtain ⟨rfl, rfl⟩ := Nat.add_eq_zero_iff.1 hn.symm
      rw [List.foldlM_cons] at hfold ⊢
      obtain ⟨added, hadd, hfold⟩ := exists_of_bind_eq_ok hfold
      rw [bind_of_eq_ok (addMember_again hkeeps next next' hkey hvalue hmore hadd)]
      refine ih hs (fun g hg => hmore g ?_) hfold
      by_contra hfound
      obtain ⟨a, ha⟩ := Option.ne_none_iff_exists'.1 hfound
      cases hg.symm.trans (addMember_found hadd ha)

omit hkeeps in
/-- A member in which the number is swapped and that is a field is found with what it tracks. -/
theorem Shape.addMember_tracks (hs : s.Regular) {path : List Step} {put : V f → V f}
    {get? : V f → Option Int} (htracks : Tracks w z fits (s.read f o) path put get?)
    {key key' : Key} {value value' : Node}
    (next next' : Nat) (hkey : key.Alike key') (hvalue : value.Alike w 1 value')
    (hname : key.read = .ok (s.name f)) (hpath : value.Leads w path)
    (hadd : s.addMember o found (.mk key value next) = .ok found') :
    ∃ a, found f = none ∧ found' = found.set f a ∧ (fits → get? (put a) = some z) ∧
      Yields fits (s.addMember o found (.mk key' value' next')) (found.set f (put a)) := by
  obtain ⟨name, hread, hcolon, h⟩ := addMember_eq_ok_iff.1 hadd
  obtain rfl : s.name f = name := Except.ok.inj (hname.symm.trans hread)
  rw [hs.field?_name] at h
  obtain ⟨hnone, -⟩ | ⟨g, hg, hfound, a, ha, rfl⟩ := h
  · cases hnone
  · obtain rfl := Option.some.inj hg
    obtain ⟨hz, hyields⟩ := htracks hvalue hpath ha
    refine ⟨a, hfound, rfl, hz, fun hfits => ?_, fun hfits => exists_error fun found' h => ?_⟩
    · exact addMember_eq_ok_iff.2 ⟨_, hkey.read _ hname, hkey.colon _ hcolon,
        .inr ⟨f, hs.field?_name f, hfound, _, hyields.taken hfits, rfl⟩⟩
    · obtain ⟨name, hread', -, h⟩ := addMember_eq_ok_iff.1 h
      obtain rfl : s.name f = name := Except.ok.inj ((hkey.read _ hname).symm.trans hread')
      rw [hs.field?_name] at h
      obtain ⟨hnone, -⟩ | ⟨g, hg, -, b, hb, -⟩ := h
      · cases hnone
      · obtain rfl := Option.some.inj hg
        exact hyields.ne_ok hfits b hb

/-- Where the number is swapped in a field, this field is found with what it tracks. -/
theorem Shape.foldlM_tracks (hs : s.Regular) {path : List Step} {put : V f → V f}
    {get? : V f → Option Int} (htracks : Tracks w z fits (s.read f o) path put get?) {ms ms' : List Member}
    (h : Member.AlikeAll w 1 ms ms') {m : Member}
    (hm : ms.find? (·.key.isName (s.name f)) = some m) (hpath : m.value.Leads w path)
    (hfold : ms.foldlM (s.addMember o) found = .ok found') :
    ∃ a, found' f = some a ∧ (fits → get? (put a) = some z) ∧
      Yields fits (ms'.foldlM (s.addMember o) found) (found'.set f (put a)) := by
  induction ms generalizing ms' found with
  | nil => cases hm
  | cons first ms ih =>
    cases h with
    | @cons _ k j key key' value value' _ ms' next next' hkey hvalue hms hn =>
      rw [List.foldlM_cons] at hfold ⊢
      obtain ⟨added, hadd, hfold⟩ := exists_of_bind_eq_ok hfold
      rw [List.find?_cons] at hm
      split at hm
      · next hname =>
        cases hm
        rw [Key.isName_iff] at hname
        have hpos := hvalue.pos hpath
        obtain ⟨rfl, rfl⟩ : k = 1 ∧ j = 0 := by omega
        obtain ⟨a, hfound, rfl, hz, hyields⟩ :=
          addMember_tracks hs htracks next next' hkey hvalue hname hpath hadd
        refine ⟨a, foldlM_found hfold (Found.set_self found f a), hz, hyields.bind ?_⟩
        have hmore : ∀ g, found.set f a g = none → Found.empty.set f (put a) g = none := by
          intro g hg
          by_cases hfg : f = g
          · subst hfg
            rw [Found.set_self] at hg
            cases hg
          · exact Found.set_of_ne _ _ hfg
        have hrest := foldlM_again hkeeps hms hmore hfold
        rwa [Found.over_set_empty, Found.over_set_empty, Found.set_set] at hrest
      · have hpos := hms.pos (List.mem_of_find?_eq_some hm) hpath
        obtain ⟨rfl, rfl⟩ : k = 0 ∧ j = 1 := by omega
        obtain ⟨a, ha, hz, hyields⟩ := ih hms hm hfold
        have hagain := addMember_again hkeeps next next' hkey hvalue (fun _ _ => rfl) hadd
        exact ⟨a, ha, hz, .of_bind hagain hyields⟩

/-! ## Items -/

omit hkeeps in
theorem Shape.addItems_found {fields rest : List F} {items left : List Node}
    (h : s.addItems o found fields items = .ok (found', rest, left)) (hg : g ∉ fields) :
    found' g = found g := by
  induction fields generalizing found items with
  | nil =>
    cases h
    rfl
  | cons f fields ih =>
    cases items with
    | nil =>
      cases h
      rfl
    | cons item items =>
      obtain ⟨a, -, h⟩ := exists_of_bind_eq_ok h
      obtain ⟨hne, hg⟩ := not_or.1 (mt List.mem_cons.2 hg)
      rw [ih h hg, Found.set_of_ne _ _ (Ne.symm hne)]

theorem Shape.addItems_again {fields rest : List F} {items items' left : List Node}
    (h : Node.AlikeItems w 0 items items') (hmore : ∀ g ∈ fields, more g = none)
    (hadd : s.addItems o found fields items = .ok (found', rest, left)) :
    ∃ left', (left = [] ↔ left' = []) ∧
      s.addItems o (found.over more) fields items' = .ok (found'.over more, rest, left') := by
  induction fields generalizing items items' found with
  | nil =>
    cases hadd
    refine ⟨items', ?_, rfl⟩
    cases h <;> simp
  | cons f fields ih =>
    cases h with
    | nil =>
      cases hadd
      exact ⟨[], Iff.rfl, rfl⟩
    | cons hitem hitems hn =>
      obtain ⟨rfl, rfl⟩ := Nat.add_eq_zero_iff.1 hn.symm
      obtain ⟨a, ha, hadd⟩ := exists_of_bind_eq_ok hadd
      obtain ⟨hfree, hmore⟩ := List.forall_mem_cons.1 hmore
      obtain ⟨left', hleft, hrest⟩ := ih hitems hmore hadd
      refine ⟨left', hleft, ?_⟩
      rw [addItems, bind_of_eq_ok (hkeeps f hitem a ha), ← Found.set_over hfree]
      exact hrest

/-- Where the number is swapped in a field, this field is found with what it tracks. -/
theorem Shape.addItems_tracks {path : List Step} {put : V f → V f}
    {get? : V f → Option Int} (htracks : Tracks w z fits (s.read f o) path put get?)
    {fields rest : List F} (hnodup : fields.Nodup)
    {items items' left : List Node} (h : Node.AlikeItems w 1 items items') {i : Nat} {part : Node}
    (hf : fields[i]? = some f) (hpart : items[i]? = some part) (hpath : part.Leads w path)
    (hadd : s.addItems o found fields items = .ok (found', rest, left)) :
    ∃ a, found' f = some a ∧ (fits → get? (put a) = some z) ∧ ∃ left', (left = [] ↔ left' = []) ∧
      Yields fits (s.addItems o found fields items') (found'.set f (put a), rest, left') := by
  induction fields generalizing items items' found i with
  | nil => cases hf
  | cons g fields ih =>
    obtain ⟨hg, hnodup⟩ := List.nodup_cons.1 hnodup
    cases h with
    | @cons _ k j item item' items items' hitem hitems hn =>
      obtain ⟨a, ha, hrest⟩ := exists_of_bind_eq_ok hadd
      rw [addItems]
      cases i with
      | zero =>
        cases hf
        cases hpart
        have hpos := hitem.pos hpath
        obtain ⟨rfl, rfl⟩ : k = 1 ∧ j = 0 := by omega
        have hmore : ∀ h ∈ fields, Found.empty.set f (put a) h = none := by
          intro h hh
          refine Found.set_of_ne _ _ ?_
          rintro rfl
          exact hg hh
        obtain ⟨left', hleft, hagain⟩ := addItems_again hkeeps hitems hmore hrest
        rw [Found.over_set_empty, Found.over_set_empty, Found.set_set] at hagain
        obtain ⟨hz, hyields⟩ := htracks hitem hpath ha
        refine ⟨a, ?_, hz, left', hleft, hyields.bind hagain⟩
        exact (addItems_found hrest hg).trans (Found.set_self found f a)
      | succ i =>
        have hpos := hitems.pos (List.mem_of_getElem? hpart) hpath
        obtain ⟨rfl, rfl⟩ : k = 0 ∧ j = 1 := by omega
        obtain ⟨b, hb, hz, left', hleft, hyields⟩ := ih hnodup hitems hf hpart hrest
        exact ⟨b, hb, hz, left', hleft, .of_bind (hkeeps g hitem a ha) hyields⟩

end

/-! ## Records -/

theorem Shape.value_set_self (s : Shape F V) (found : Found V) (absent : F → Fault) (f : F) (a : V f) :
    s.value (found.set f a) absent f = .ok a := by
  rw [value, Found.set_self]
  rfl

theorem Shape.value_set_of_ne (s : Shape F V) (found : Found V) (absent : F → Fault) (a : V f)
    (h : f ≠ g) : s.value (found.set f a) absent g = s.value found absent g := by
  rw [value, value, Found.set_of_ne _ _ h]

end

section

variable {F : Type} {V : F → Type} {s : Shape F V} {o : Origin} {found : Found V} {f : F}

/-- Of a field that is there it does not matter how its absence would be reported. -/
theorem Shape.value_again (s : Shape F V) (found : Found V) (absent absent' : F → Fault) (f : F) :
    Again (s.value found absent f) (s.value found absent' f) := by
  unfold Shape.value
  split
  · exact .refl _
  · exact again_error _

theorem Shape.value_of_found {absent : F → Fault} {a : V f} (h : found f = some a) :
    s.value found absent f = .ok a := by
  rw [value, h]
  rfl

theorem Shape.finishItems_again {ending ending' : Ending} (h : ending.passes = ending'.passes)
    {rest : List F} {left left' : List Node} (hleft : left = [] ↔ left' = []) {count stop : Nat}
    (hfinish : s.finishItems o count ending rest left = .ok stop) (count' : Nat) :
    ∃ stop', s.finishItems o count' ending' rest left' = .ok stop' := by
  cases rest with
  | cons f rest => exact Ending.readArray_again h hfinish
  | nil =>
    cases left with
    | nil =>
      rw [hleft.1 rfl]
      exact Ending.readFields_again h hfinish
    | cons node left => cases o <;> cases hfinish

end

section

variable {F : Type} [DecidableEq F] {V : F → Type} {s : Shape F V} {o : Origin} {w : Swap}
  {z : Int} {fits : Prop} {f : F} {node node' : Node} {get : (f : F) → Except Fault (V f)}

def Shape.step (s : Shape F V) (f : F) : Step := .field (s.name f) (s.fields.idxOf f)

/-- A record in which no number is swapped is read again. -/
theorem Shape.read?_again (hkeeps : ∀ g, Keeps w (s.read g o)) (h : node.Alike w 0 node')
    (hread : s.read? o node = .ok get) :
    ∃ get', s.read? o node' = .ok get' ∧ ∀ f, Again (get f) (get' f) := by
  cases h with
  | object start start' hmembers hending =>
    obtain ⟨found, hfold, hread⟩ := exists_of_bind_eq_ok hread
    obtain ⟨stop, hstop, hread⟩ := exists_of_bind_eq_ok hread
    cases hread
    obtain ⟨stop', hstop'⟩ := Ending.readObject_again hending hstop
    have hagain := foldlM_again hkeeps hmembers (fun _ _ => rfl) hfold
    refine ⟨_, (bind_of_eq_ok hagain _).trans (bind_of_eq_ok hstop' _), fun f => ?_⟩
    exact s.value_again found _ _ f
  | array start start' hitems hending =>
    obtain ⟨⟨found, rest, left⟩, hadd, hread⟩ := exists_of_bind_eq_ok hread
    obtain ⟨stop, hstop, hread⟩ := exists_of_bind_eq_ok hread
    cases hread
    obtain ⟨left', hleft, hagain⟩ := addItems_again hkeeps hitems (fun _ _ => rfl) hadd
    obtain ⟨stop', hstop'⟩ := finishItems_again hending hleft hstop _
    refine ⟨_, (bind_of_eq_ok hagain _).trans (bind_of_eq_ok hstop' _), fun f => ?_⟩
    exact s.value_again found _ _ f
  | null | boolean | number | text | broken | absent => cases hread

/-- A record in which the number is swapped in a field is read with what the field tracks. -/
theorem Shape.read?_tracks (hs : s.Regular) (hkeeps : ∀ g, Keeps w (s.read g o)) {path : List Step}
    {put : V f → V f} {get? : V f → Option Int} (htracks : Tracks w z fits (s.read f o) path put get?)
    (h : node.Alike w 1 node')
    (hpath : node.Leads w (s.step f :: path)) (hread : s.read? o node = .ok get) :
    ∃ a, get f = .ok a ∧ (fits → get? (put a) = some z) ∧
      ∃ get', Yields fits (s.read? o node') get' ∧ get' f = .ok (put a) ∧
        ∀ g, g ≠ f → Again (get g) (get' g) := by
  obtain ⟨part, hpart, hlast⟩ := Node.leads_cons_iff.1 hpath
  cases h with
  | swapped => cases hpart
  | object start start' hmembers hending =>
    obtain ⟨m, hm, rfl⟩ := Option.map_eq_some_iff.1 hpart
    obtain ⟨found, hfold, hread⟩ := exists_of_bind_eq_ok hread
    obtain ⟨stop, hstop, hread⟩ := exists_of_bind_eq_ok hread
    cases hread
    obtain ⟨stop', hstop'⟩ := Ending.readObject_again hending hstop
    obtain ⟨a, ha, hz, hyields⟩ := foldlM_tracks hkeeps hs htracks hmembers hm hlast hfold
    refine ⟨a, value_of_found ha, hz, _, hyields.bind (bind_of_eq_ok hstop' _), s.value_set_self _ _ _ _,
      fun g hg => ?_⟩
    rw [value_set_of_ne _ _ _ _ hg.symm]
    exact s.value_again found _ _ g
  | array start start' hitems hending =>
    obtain ⟨⟨found, rest, left⟩, hadd, hread⟩ := exists_of_bind_eq_ok hread
    obtain ⟨stop, hstop, hread⟩ := exists_of_bind_eq_ok hread
    cases hread
    have hf : s.fields[s.fields.idxOf f]? = some f := List.getElem?_idxOf (hs.mem_fields f)
    obtain ⟨a, ha, hz, left', hleft, hyields⟩ :=
      addItems_tracks hkeeps htracks hs.nodup hitems hf hpart hlast hadd
    obtain ⟨stop', hstop'⟩ := finishItems_again hending hleft hstop _
    refine ⟨a, value_of_found ha, hz, _, hyields.bind (bind_of_eq_ok hstop' _), s.value_set_self _ _ _ _,
      fun g hg => ?_⟩
    rw [value_set_of_ne _ _ _ _ hg.symm]
    exact s.value_again found _ _ g

/-! ## Readers of records -/

variable {R : Type} {read : Node → Except Fault R} {field : R → (f : F) → V f}

theorem Shape.Reads.keeps (h : s.Reads o read field) (hkeeps : ∀ f, Keeps w (s.read f o)) :
    Keeps w read := by
  intro node node' halike r hr
  obtain ⟨get, hread, hget⟩ := h.ok_iff.1 hr
  obtain ⟨get', hread', hagain⟩ := Shape.read?_again hkeeps halike hread
  exact h.ok_iff.2 ⟨get', hread', fun f => hagain f _ (hget f)⟩

theorem Shape.Reads.tracks (h : s.Reads o read field) (hs : s.Regular)
    (hkeeps : ∀ f, Keeps w (s.read f o)) {path : List Step} {put : V f → V f}
    {get? : V f → Option Int} (htracks : Tracks w z fits (s.read f o) path put get?) {put' : R → R}
    (hput : ∀ r, field (put' r) = Function.update (field r) f (put (field r f))) :
    Tracks w z fits read (s.step f :: path) put' fun r => get? (field r f) := by
  intro node node' r halike hpath hr
  obtain ⟨get, hread, hget⟩ := h.ok_iff.1 hr
  obtain ⟨a, ha, hz, get', hyields, hf, hagain⟩ :=
    Shape.read?_tracks hs hkeeps htracks halike hpath hread
  obtain rfl : field r f = a := Except.ok.inj ((hget f).symm.trans ha)
  have hself : field (put' r) f = put (field r f) := by rw [hput, Function.update_self]
  refine ⟨fun hfits => (congrArg get? hself).trans (hz hfits),
    fun hfits => h.ok_iff.2 ⟨get', hyields.taken hfits, fun g => ?_⟩, fun hfits => ?_⟩
  · by_cases hg : g = f
    · subst hg
      rw [hf, hself]
    · rw [hput, Function.update_of_ne hg]
      exact hagain g hg _ (hget g)
  · refine exists_error fun r' hr' => ?_
    obtain ⟨get'', hread'', -⟩ := h.ok_iff.1 hr'
    exact hyields.ne_ok hfits get'' hread''

/-- A reader of records that keeps, and a way to change one field of a record and no other. -/
structure Shape.Rereads (s : Shape F V) (w : Swap) (o : Origin) (read : Node → Except Fault R)
    (field : R → (f : F) → V f) (modify : R → (f : F) → (V f → V f) → R) : Prop where
  reads : s.Reads o read field
  regular : s.Regular
  keeps_read : ∀ f, Keeps w (s.read f o)
  field_modify : ∀ r f put, field (modify r f put) = Function.update (field r) f (put (field r f))

namespace Shape.Rereads

variable {modify : R → (f : F) → (V f → V f) → R}

theorem keeps (h : s.Rereads w o read field modify) : Keeps w read := h.reads.keeps h.keeps_read

theorem tracks (h : s.Rereads w o read field modify) {path : List Step} {put : V f → V f}
    {get? : V f → Option Int} (htracks : Tracks w z fits (s.read f o) path put get?) :
    Tracks w z fits read (s.step f :: path) (modify · f put) fun r => get? (field r f) :=
  h.reads.tracks h.regular h.keeps_read htracks fun r => h.field_modify r f put

end Shape.Rereads

end

end SubnetRegistry.Json
