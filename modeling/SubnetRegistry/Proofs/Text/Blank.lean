import Mathlib.Data.List.TakeWhile
import SubnetRegistry.Text.Blank

/-!
# Texts without the blanks around them

A text is trimmed to the part between its first and its last character that are not blank. This part is
told by three things: what is around it is blank, and neither of its ends is.

## Main definitions

* `Text.Bare` — neither end is blank.
* `Text.TrimsTo` — a text is another with blanks around it.

## Main statements

* `Text.trim_eq_iff` — the text that is left is the only one without blanks at its ends.
-/
namespace SubnetRegistry.Text

/-- Neither end of a text is blank. -/
def Bare (cs : List Char) : Prop :=
  (∀ c ∈ cs.head?, isBlank c = false) ∧ ∀ c ∈ cs.getLast?, isBlank c = false

/-- A text has blanks around a part whose ends are not blank. -/
def TrimsTo (whole core : List Char) : Prop :=
  Bare core ∧ ∃ before after, whole = before ++ core ++ after ∧
    (∀ c ∈ before, isBlank c = true) ∧ ∀ c ∈ after, isBlank c = true

variable {cs whole core : List Char}

theorem Bare.dropWhile_append (h : Bare core) (after : List Char)
    (hafter : ∀ c ∈ after, isBlank c = true) :
    (core ++ after).dropWhile isBlank = if core = [] then [] else core ++ after := by
  cases core with
  | nil => exact List.dropWhile_eq_nil_iff.2 hafter
  | cons c core => simp [h.1 c rfl]

theorem Bare.reverse (h : Bare cs) : Bare cs.reverse := by
  refine ⟨fun c hc => h.2 c ?_, fun c hc => h.1 c ?_⟩
  · rwa [List.head?_reverse] at hc
  · rwa [List.getLast?_reverse] at hc

/-- Blanks at the end are cut off. -/
theorem Bare.trimEnd_append (h : Bare core) {after : List Char}
    (hafter : ∀ c ∈ after, isBlank c = true) : trimEnd (core ++ after) = core := by
  have hrev : ∀ c ∈ after.reverse, isBlank c = true := fun c hc => hafter c (List.mem_reverse.1 hc)
  have hcore := h.reverse.dropWhile_append [] nofun
  rw [List.append_nil] at hcore
  rw [trimEnd, List.reverse_append, List.dropWhile_append_of_pos hrev, hcore]
  split
  · next hnil => rw [List.reverse_eq_nil_iff.1 hnil, List.reverse_nil]
  · exact List.reverse_reverse core

theorem TrimsTo.trim_eq (h : TrimsTo whole core) : trim whole = core := by
  obtain ⟨hbare, before, after, rfl, hbefore, hafter⟩ := h
  rw [trim, List.append_assoc, List.dropWhile_append_of_pos hbefore,
    hbare.dropWhile_append after hafter]
  split
  · next hnil =>
    rw [hnil]
    rfl
  · exact hbare.trimEnd_append hafter

/-- What is left at the front after the blanks. -/
theorem head?_dropWhile_isBlank (cs : List Char) :
    ∀ c ∈ (cs.dropWhile isBlank).head?, isBlank c = false := by
  intro c hc
  have hnot := List.head?_dropWhile_not isBlank cs
  rw [Option.mem_def.1 hc] at hnot
  simpa using hnot

theorem trimsTo_trim (whole : List Char) : TrimsTo whole (trim whole) := by
  -- the blanks at the front, and those at the end of what comes after them
  have hfront := List.takeWhile_append_dropWhile (p := isBlank) (l := whole)
  generalize hrest : whole.dropWhile isBlank = rest at hfront
  have hback := congrArg List.reverse
    (List.takeWhile_append_dropWhile (p := isBlank) (l := rest.reverse))
  rw [List.reverse_append, List.reverse_reverse] at hback
  have htrim : trim whole = (rest.reverse.dropWhile isBlank).reverse := by
    rw [trim, hrest, trimEnd]
  have hlast : ∀ c ∈ (trim whole).getLast?, isBlank c = false := by
    rw [htrim, List.getLast?_reverse]
    exact head?_dropWhile_isBlank _
  have hhead : ∀ c ∈ (trim whole).head?, isBlank c = false := by
    intro c hc
    have hmem : c ∈ rest.head? := by
      rw [← hback, ← htrim, List.head?_append, Option.mem_def.1 hc]
      rfl
    rw [← hrest] at hmem
    exact head?_dropWhile_isBlank whole c hmem
  refine ⟨⟨hhead, hlast⟩, whole.takeWhile isBlank, (rest.reverse.takeWhile isBlank).reverse, ?_,
    fun c hc => List.mem_takeWhile_imp hc, fun c hc => List.mem_takeWhile_imp (List.mem_reverse.1 hc)⟩
  rw [List.append_assoc, htrim, hback, hfront]

/-- The text that is left of another is the only one without blanks at its ends. -/
theorem trim_eq_iff : trim whole = core ↔ TrimsTo whole core :=
  ⟨fun h => h ▸ trimsTo_trim whole, TrimsTo.trim_eq⟩

theorem bare_trim (whole : List Char) : Bare (trim whole) := (trimsTo_trim whole).1

theorem Bare.trim_eq (h : Bare cs) : trim cs = cs :=
  trim_eq_iff.2 ⟨h, [], [], (List.append_nil _).symm, nofun, nofun⟩

/-- Nothing is left of blanks only. -/
theorem trim_eq_nil_iff : trim cs = [] ↔ ∀ c ∈ cs, isBlank c = true := by
  rw [trim_eq_iff]
  constructor
  · rintro ⟨-, before, after, rfl, hbefore, hafter⟩ c hc
    rw [List.append_nil, List.mem_append] at hc
    exact hc.elim (hbefore c) (hafter c)
  · intro h
    exact ⟨⟨nofun, nofun⟩, cs, [], by simp, h, nofun⟩

theorem mem_of_mem_trim {c : Char} (h : c ∈ trim cs) : c ∈ cs := by
  obtain ⟨-, before, after, hcs, -⟩ := trimsTo_trim cs
  rw [hcs]
  simp [h]

end SubnetRegistry.Text
