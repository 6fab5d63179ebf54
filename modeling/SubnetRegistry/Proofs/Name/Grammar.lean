import Mathlib.Data.List.Induction
import SubnetRegistry.Proofs.Name
import SubnetRegistry.Proofs.Text

/-!
# The grammar of names

A name is a path of segments with single slashes between them. Where a text is none, it can be cut in
one way only around its first piece that is no segment. A label is said of bytes, a segment of characters;
they are the same.

## Main definitions

* `Name.Segment`, `Name.Path` — the grammar.
* `Name.DnsLabel` — the form of a label, with its size in bytes.
* `Name.Cut`, `Name.Cut.Offends` — a text around one of its pieces, which is the first that is no
  segment.

## Main statements

* `Name.segment_iff`, `Name.dnsLabel_iff` — segments and labels are what is taken for a label.
* `Name.validate_eq_ok_iff_path` — the names that pass are the paths.
* `Name.Cut.Offends.eq_of_whole_eq`, `Name.exists_cut` — any other text can be cut in one way.
* `Name.Cut.Offends.validate_whole` — it is refused with the piece it is cut at.
-/
namespace SubnetRegistry.Name

/-! ## Segments -/

def IsAlphanumeric (c : Char) : Prop := 'a' ≤ c ∧ c ≤ 'z' ∨ '0' ≤ c ∧ c ≤ '9'

def IsLabelChar (c : Char) : Prop := IsAlphanumeric c ∨ c = '-'

/-- One letter or digit, or 2 to 63 letters, digits and hyphens with no hyphen at either end. -/
inductive Segment : String → Prop
  | single {c : Char} (h : IsAlphanumeric c) : Segment (String.ofList [c])
  | longer {first last : Char} {inner : List Char} (hfirst : IsAlphanumeric first)
      (hinner : ∀ c ∈ inner, IsLabelChar c) (hlast : IsAlphanumeric last)
      (hlength : inner.length + 2 ≤ 63) : Segment (String.ofList (first :: inner ++ [last]))

/-- A text of 1 to 63 bytes, all of them letters, digits and hyphens, with no hyphen at either end. -/
structure DnsLabel (s : String) : Prop where
  ne_empty : 1 ≤ s.utf8ByteSize
  size_le : s.utf8ByteSize ≤ 63
  allowed : ∀ c ∈ s.toList, IsLabelChar c
  first_ne : s.toList.head? ≠ some '-'
  last_ne : s.toList.getLast? ≠ some '-'

theorem isAllowed_iff {c : Char} : Identifier.isAllowed c = true ↔ IsLabelChar c := by
  simp [Identifier.isAllowed, IsLabelChar, IsAlphanumeric]

theorem all_isAllowed_iff {cs : List Char} :
    cs.all Identifier.isAllowed = true ↔ ∀ c ∈ cs, IsLabelChar c := by
  simp only [List.all_eq_true, isAllowed_iff]

instance : DecidablePred IsLabelChar := fun _ => decidable_of_iff _ isAllowed_iff

theorem isAlphanumeric_iff {c : Char} : IsAlphanumeric c ↔ IsLabelChar c ∧ c ≠ '-' := by
  have hhyphen : ¬ IsAlphanumeric '-' := by
    unfold IsAlphanumeric
    decide
  grind [IsLabelChar]

theorem isLabel_iff {cs : List Char} :
    isLabel cs = true ↔ cs ≠ [] ∧ cs.length ≤ 63 ∧ cs.head? ≠ some '-' ∧ cs.getLast? ≠ some '-' ∧
      ∀ c ∈ cs, IsLabelChar c := by
  simp only [isLabel, Bool.and_eq_true, Bool.not_eq_true', List.isEmpty_eq_false_iff,
    decide_eq_true_eq, bne_iff_ne, all_isAllowed_iff, and_assoc]
  rfl

theorem isLabel_singleton {c : Char} : isLabel [c] = true ↔ IsAlphanumeric c := by
  simp [isLabel_iff, isAlphanumeric_iff, and_comm]

theorem isLabel_ends {first last : Char} {inner : List Char} :
    isLabel (first :: (inner ++ [last])) = true ↔
      IsAlphanumeric first ∧ (∀ c ∈ inner, IsLabelChar c) ∧ IsAlphanumeric last ∧
        inner.length + 2 ≤ 63 := by
  have hlast : (first :: (inner ++ [last])).getLast? = some last := by
    rw [← List.cons_append, List.getLast?_append]
    rfl
  simp only [isLabel_iff, hlast, isAlphanumeric_iff, List.head?_cons, List.length_cons,
    List.length_append, List.mem_cons, List.mem_append, List.not_mem_nil]
  grind

/-- Segments are what is taken for a label. -/
theorem segment_iff {s : String} : Segment s ↔ isLabel s.toList = true := by
  constructor
  · rintro (h | ⟨hfirst, hinner, hlast, hlength⟩)
    · rw [String.toList_ofList]
      exact isLabel_singleton.2 h
    · rw [String.toList_ofList]
      exact isLabel_ends.2 ⟨hfirst, hinner, hlast, hlength⟩
  · obtain ⟨cs, rfl⟩ : ∃ cs, s = String.ofList cs := ⟨s.toList, String.ofList_toList.symm⟩
    rw [String.toList_ofList]
    -- the two ends are what the constructors of a segment tell apart
    induction cs using List.bidirectionalRec with
    | nil => exact fun h => absurd rfl (isLabel_iff.1 h).1
    | singleton c => exact fun h => .single (isLabel_singleton.1 h)
    | cons_append first inner last =>
      intro h
      obtain ⟨hfirst, hinner, hlast, hlength⟩ := isLabel_ends.1 h
      exact .longer hfirst hinner hlast hlength

instance : DecidablePred Segment := fun _ => decidable_of_iff _ segment_iff.symm

/-- Characters of a label are one byte each. -/
theorem utf8Size_of_isLabelChar {c : Char} (h : IsLabelChar c) : c.utf8Size = 1 := by
  rw [Char.utf8Size_eq_one_iff]
  have hz : c ≤ 'z' := by
    rcases h with (h | h) | rfl
    · exact h.2
    · exact Char.le_trans h.2 (by decide)
    · decide
  exact UInt32.le_trans hz (by decide)

theorem utf8ByteSize_of_isLabelChar {cs : List Char} (h : ∀ c ∈ cs, IsLabelChar c) :
    (String.ofList cs).utf8ByteSize = cs.length := by
  induction cs with
  | nil => rfl
  | cons c cs ih =>
    obtain ⟨hc, hcs⟩ := List.forall_mem_cons.1 h
    rw [String.ofList_cons, String.utf8ByteSize_append, String.utf8ByteSize_singleton,
      utf8Size_of_isLabelChar hc, ih hcs, List.length_cons, Nat.add_comm]

/-- Labels are what is taken for a label. -/
theorem dnsLabel_iff {s : String} : DnsLabel s ↔ isLabel s.toList = true := by
  rw [isLabel_iff]
  have hsize (h : ∀ c ∈ s.toList, IsLabelChar c) : s.utf8ByteSize = s.toList.length := by
    rw [← utf8ByteSize_of_isLabelChar h, String.ofList_toList]
  constructor
  · rintro ⟨hne, hle, hallowed, hfirst, hlast⟩
    have hlength := hsize hallowed
    exact ⟨List.ne_nil_of_length_pos (by omega), by omega, hfirst, hlast, hallowed⟩
  · rintro ⟨hne, hle, hfirst, hlast, hallowed⟩
    have hlength := hsize hallowed
    have hpos := List.length_pos_iff.2 hne
    exact ⟨by omega, by omega, hallowed, hfirst, hlast⟩

instance : DecidablePred DnsLabel := fun _ => decidable_of_iff _ dnsLabel_iff.symm

/-! ## Paths -/

/-- Segments with single slashes between them. -/
def Path (name : String) : Prop :=
  ∃ segments : List String, segments ≠ [] ∧ (∀ s ∈ segments, Segment s) ∧
    name = "/".intercalate segments

variable {name : String}

theorem Segment.slash_not_mem {s : String} (h : Segment s) : '/' ∉ s.toList := by
  refine Identifier.slash_not_mem fun c hc => ?_
  exact isAllowed_iff.2 ((isLabel_iff.1 (segment_iff.1 h)).2.2.2.2 c hc)

theorem pieces_intercalate {strings : List String} (hne : strings ≠ []) :
    Text.pieces '/' ("/".intercalate strings) = strings.flatMap (Text.pieces '/') :=
  Text.pieces_intercalate hne

theorem flatMap_pieces_segments {segments : List String} (h : ∀ s ∈ segments, Segment s) :
    segments.flatMap (Text.pieces '/') = segments :=
  Text.flatMap_pieces_of_not_mem fun s hs => (h s hs).slash_not_mem

/-- A text is a path exactly if all of its pieces are segments. -/
theorem path_iff : Path name ↔ ∀ s ∈ Text.pieces '/' name, Segment s := by
  constructor
  · rintro ⟨segments, hne, hsegments, rfl⟩
    rwa [pieces_intercalate hne, flatMap_pieces_segments hsegments]
  · intro h
    exact ⟨Text.pieces '/' name, Text.pieces_ne_nil name, h, (Text.intercalate_pieces name).symm⟩

/-- The names that pass are the paths. -/
theorem validate_eq_ok_iff_path : validate name = .ok () ↔ Path name := by
  rw [validate_eq_ok_iff, path_iff, segments, ← Text.map_toList_pieces, List.forall_mem_map]
  simp only [segment_iff]

/-! ## Texts that are no paths -/

/-- A text around one of its pieces: the pieces before it, and what comes after it, if anything
does. -/
structure Cut where
  good : List String
  piece : String
  rest : Option String

namespace Cut

def whole (c : Cut) : String := "/".intercalate (c.good ++ c.piece :: c.rest.toList)

/-- The pieces before are segments and the piece is none. -/
structure Offends (c : Cut) : Prop where
  good : ∀ g ∈ c.good, Segment g
  slash_not_mem : '/' ∉ c.piece.toList
  bad : ¬ Segment c.piece

variable {c c' : Cut}

theorem Offends.pieces_whole (h : c.Offends) :
    Text.pieces '/' c.whole = c.good ++ c.piece :: c.rest.toList.flatMap (Text.pieces '/') := by
  rw [whole, pieces_intercalate (by simp), List.flatMap_append, flatMap_pieces_segments h.good,
    List.flatMap_cons, Text.pieces_of_not_mem h.slash_not_mem]
  rfl

/-- A text can be cut in one way only. -/
theorem Offends.eq_of_whole_eq (h : c.Offends) (h' : c'.Offends) (hwhole : c.whole = c'.whole) :
    c = c' := by
  have hpieces := congrArg (Text.pieces '/') hwhole
  rw [h.pieces_whole, h'.pieces_whole] at hpieces
  -- the good pieces are those before the first bad one, so they can be read off the pieces
  have htake (c : Cut) (h : c.Offends) (more : List String) :
      (c.good ++ c.piece :: more).takeWhile (fun s => isLabel s.toList) = c.good := by
    have hbad : ¬ isLabel c.piece.toList = true := mt segment_iff.2 h.bad
    rw [List.takeWhile_append_of_pos fun g hg => segment_iff.1 (h.good g hg)]
    simp [hbad]
  have hgood : c.good = c'.good := by
    rw [← htake c h, hpieces, htake c' h']
  rw [hgood, List.append_cancel_left_eq, List.cons.injEq] at hpieces
  obtain ⟨good, piece, rest⟩ := c
  obtain ⟨good', piece', rest'⟩ := c'
  obtain rfl := hgood
  obtain rfl := hpieces.1
  obtain rfl := Text.flatMap_pieces_inj hpieces.2
  rfl

end Cut

/-- A name is refused with its first piece that is no segment. -/
theorem exists_pieces_of_refused {e : SubnetError} (h : validate name = .error e) :
    ∃ good piece after, Text.pieces '/' name = good ++ piece :: after ∧
      (∀ g ∈ good, Segment g) ∧ ¬ Segment piece ∧ e = .invalidName piece := by
  unfold validate at h
  split at h
  · cases h
  · next piece hpiece =>
    cases h
    obtain ⟨hbad, before, after, hsegments, hgood⟩ := List.find?_eq_some_iff_append.1 hpiece
    refine ⟨before.map String.ofList, String.ofList piece, after.map String.ofList, ?_, ?_, ?_, rfl⟩
    · show (segments name).map String.ofList = _
      simp [hsegments]
    · intro g hg
      obtain ⟨cs, hcs, rfl⟩ := List.mem_map.1 hg
      rw [segment_iff, String.toList_ofList]
      simpa using hgood cs hcs
    · rw [segment_iff, String.toList_ofList]
      simpa using hbad

/-- A name that is refused can be cut at the piece it is refused with. -/
theorem exists_cut {e : SubnetError} (h : validate name = .error e) :
    ∃ c : Cut, c.Offends ∧ c.whole = name ∧ e = .invalidName c.piece := by
  obtain ⟨good, piece, after, hpieces, hgood, hbad, rfl⟩ := exists_pieces_of_refused h
  have hslash : ∀ s ∈ good ++ piece :: after, '/' ∉ s.toList := by
    rw [← hpieces]
    exact fun s hs => Text.not_mem_of_mem_pieces hs
  obtain ⟨rest, rfl⟩ : ∃ rest : Option String, rest.toList.flatMap (Text.pieces '/') = after :=
    Text.exists_flatMap_pieces fun s hs => hslash s (by simp [hs])
  have hcut : Cut.Offends ⟨good, piece, rest⟩ := ⟨hgood, hslash piece (by simp), hbad⟩
  exact ⟨_, hcut, Text.pieces_inj (hcut.pieces_whole.trans hpieces.symm), rfl⟩

/-- A text that can be cut is refused with the piece it is cut at. -/
theorem Cut.Offends.validate_whole {c : Cut} (h : c.Offends) :
    validate c.whole = .error (.invalidName c.piece) := by
  cases hv : validate c.whole with
  | ok =>
    have hall := path_iff.1 (validate_eq_ok_iff_path.1 hv)
    rw [h.pieces_whole] at hall
    exact absurd (hall c.piece (by simp)) h.bad
  | error e =>
    obtain ⟨c', h', hwhole, rfl⟩ := exists_cut hv
    rw [h'.eq_of_whole_eq h hwhole]

end SubnetRegistry.Name
