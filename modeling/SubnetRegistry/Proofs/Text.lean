import SubnetRegistry.Text.Separated

/-!
# Texts cut at a separator

What is cut at a separator can be put together again, as lists of characters and as strings. The pieces
of texts with the separator between them are the pieces of the texts.

## Main definitions

* `Text.pieces` — the strings between the occurrences of one character.

## Main statements

* `Text.intercalate_pieces` — the pieces of a string make up the whole again.
* `Text.pieces_intercalate` — the pieces of strings with the separator between them.
-/
namespace SubnetRegistry.Text

variable {sep : Char}

theorem split_append_sep (cs ds : List Char) :
    split sep (cs ++ sep :: ds) = split sep cs ++ split sep ds := by
  induction cs with
  | nil => simp [split]
  | cons c cs ih =>
    obtain ⟨piece, pieces, h⟩ := List.exists_cons_of_ne_nil (split_ne_nil sep cs)
    by_cases hc : c = sep
    · simp [split, hc, ih]
    · simp [split, hc, ih, h]

/-- A character of a piece is one of the text. -/
theorem mem_of_mem_split {cs piece : List Char} {c : Char} (h : piece ∈ split sep cs)
    (hc : c ∈ piece) : c ∈ cs := by
  have hjoin : ∀ pieces : List (List Char), piece ∈ pieces → c ∈ join sep pieces := by
    intro pieces hp
    induction pieces with
    | nil => cases hp
    | cons first pieces ih =>
      cases pieces with
      | nil => rwa [← List.mem_singleton.1 hp]
      | cons next pieces =>
        rw [join_cons_cons, List.mem_append, List.mem_cons]
        rcases List.mem_cons.1 hp with rfl | hp
        · exact .inl hc
        · exact .inr (.inr (ih hp))
  have hmem := hjoin _ h
  rwa [join_split] at hmem

theorem join_eq_intercalate (pieces : List (List Char)) :
    join sep pieces = [sep].intercalate pieces := by
  induction pieces with
  | nil => rfl
  | cons piece pieces ih => cases pieces <;> simp_all [join]

/-! ## Strings -/

def pieces (sep : Char) (s : String) : List String := (split sep s.toList).map String.ofList

variable {s t : String}

theorem map_toList_pieces (s : String) : (pieces sep s).map String.toList = split sep s.toList := by
  simp [pieces, Function.comp_def]

theorem pieces_ne_nil (s : String) : pieces sep s ≠ [] := by
  simp [pieces, split_ne_nil]

theorem not_mem_of_mem_pieces (h : t ∈ pieces sep s) : sep ∉ t.toList := by
  have ht : t.toList ∈ split sep s.toList := map_toList_pieces s ▸ List.mem_map_of_mem h
  exact not_mem_of_mem_split ht

/-- The pieces of a string make up the whole again. -/
theorem intercalate_pieces (s : String) : (String.singleton sep).intercalate (pieces sep s) = s := by
  rw [← String.toList_inj, String.toList_intercalate, map_toList_pieces, String.toList_singleton,
    ← join_eq_intercalate, join_split]

theorem pieces_inj (h : pieces sep s = pieces sep t) : s = t := by
  rw [← intercalate_pieces s, h, intercalate_pieces]

theorem pieces_of_not_mem (h : sep ∉ s.toList) : pieces sep s = [s] := by
  simp [pieces, split_of_not_mem h]

theorem pieces_append (s t : String) :
    pieces sep (s ++ String.singleton sep ++ t) = pieces sep s ++ pieces sep t := by
  simp [pieces, split_append_sep]

/-- The pieces of strings with the separator between them are the pieces of the strings. -/
theorem pieces_intercalate {strings : List String} (hne : strings ≠ []) :
    pieces sep ((String.singleton sep).intercalate strings) = strings.flatMap (pieces sep) := by
  induction strings with
  | nil => exact absurd rfl hne
  | cons s strings ih =>
    cases strings with
    | nil => simp
    | cons t strings =>
      rw [String.intercalate_cons_cons, pieces_append, ih (List.cons_ne_nil _ _)]
      rfl

theorem flatMap_pieces_of_not_mem {strings : List String} (h : ∀ s ∈ strings, sep ∉ s.toList) :
    strings.flatMap (pieces sep) = strings := by
  induction strings with
  | nil => rfl
  | cons s strings ih =>
    obtain ⟨hs, hrest⟩ := List.forall_mem_cons.1 h
    rw [List.flatMap_cons, pieces_of_not_mem hs, ih hrest]
    rfl

/-- A list of pieces is that of one string, or there are none. -/
theorem exists_flatMap_pieces {strings : List String} (h : ∀ s ∈ strings, sep ∉ s.toList) :
    ∃ whole : Option String, whole.toList.flatMap (pieces sep) = strings := by
  cases strings with
  | nil => exact ⟨none, rfl⟩
  | cons s strings =>
    refine ⟨some ((String.singleton sep).intercalate (s :: strings)), ?_⟩
    rw [Option.toList_some, List.flatMap_singleton, pieces_intercalate (List.cons_ne_nil _ _),
      flatMap_pieces_of_not_mem h]

/-- The pieces of a string tell it, and whether it is there. -/
theorem flatMap_pieces_inj {whole whole' : Option String}
    (h : whole.toList.flatMap (pieces sep) = whole'.toList.flatMap (pieces sep)) : whole = whole' := by
  match whole, whole' with
  | none, none => rfl
  | none, some s | some s, none => simp [pieces_ne_nil] at h
  | some s, some t =>
    simp only [Option.toList_some, List.flatMap_singleton] at h
    rw [pieces_inj h]

end SubnetRegistry.Text
