import Mathlib.Data.List.Forall2
import SubnetRegistry.Config
import SubnetRegistry.Proofs.Text
import SubnetRegistry.Proofs.Text.Blank

/-!
# What the texts of a configuration say

A number of seconds is written with decimal digits, and servers are written with commas between them.
Blanks around either are not looked at.

## Main definitions

* `Config.SaysSeconds`, `Config.SaysServers` — what a text says.

## Main statements

* `Config.seconds?_eq_some_iff` — the number that is read of a text is the one it says, if that fits.
* `Config.servers?_eq_iff` — the servers that are read of a text are those it says.
-/
namespace SubnetRegistry.Config

/-! ## Seconds -/

/-- A text says a number of seconds: one or more decimal digits, with a plus sign before them or none,
and blanks around. -/
def SaysSeconds (text : String) (n : Nat) : Prop :=
  ∃ before plus digits after, text.toList = before ++ (plus ++ digits) ++ after ∧
    (∀ c ∈ before, Text.isBlank c = true) ∧ (plus = [] ∨ plus = ['+']) ∧ digits ≠ [] ∧
    (∀ c ∈ digits, c.isDigit = true) ∧ (∀ c ∈ after, Text.isBlank c = true) ∧
    Nat.ofDigitChars 10 digits 0 = n

theorem isBlank_of_isDigit {c : Char} (h : c.isDigit = true) : Text.isBlank c = false := by
  obtain ⟨hlow, hhigh⟩ : 48 ≤ c.toNat ∧ c.toNat ≤ 57 := by
    simpa [Char.isDigit, UInt32.le_iff_toNat_le] using h
  simp only [Text.isBlank]
  generalize c.toNat = n at hlow hhigh
  grind

theorem ne_plus_of_isDigit {c : Char} (h : c.isDigit = true) : c ≠ '+' := by
  rintro rfl
  cases h

/-- Neither a sign nor a digit is blank. -/
theorem bare_plus_append {plus digits : List Char} (hplus : plus = [] ∨ plus = ['+'])
    (hne : digits ≠ []) (hdigits : ∀ c ∈ digits, c.isDigit = true) : Text.Bare (plus ++ digits) := by
  obtain ⟨d, ds, rfl⟩ := List.exists_cons_of_ne_nil hne
  constructor
  · intro c hc
    rcases hplus with rfl | rfl
    · cases hc
      exact isBlank_of_isDigit (hdigits _ List.mem_cons_self)
    · cases hc
      rfl
  · intro c hc
    rw [List.getLast?_append, List.getLast?_cons, Option.some_or, ← List.getLast?_cons] at hc
    exact isBlank_of_isDigit (hdigits c (List.mem_of_getLast? hc))

theorem digits?_eq_some_iff {cs : List Char} {n : Nat} :
    digits? cs = some n ↔
      cs ≠ [] ∧ (∀ c ∈ cs, c.isDigit = true) ∧ Nat.ofDigitChars 10 cs 0 = n ∧ n < UInt64.size := by
  simp only [digits?, Option.filter_eq_some_iff, decide_eq_true_eq, Decimal.nat?, List.all_eq_true]
  split
  · next h =>
    rw [Option.some.injEq]
    exact ⟨fun hn => ⟨h.1, h.2, hn⟩, fun hn => hn.2.2⟩
  · next h => simp [← and_assoc, h]

/-- The number that is read is the one that the text says, if it fits. -/
theorem seconds?_eq_some_iff {text : String} {n : Nat} :
    seconds? text = some n ↔ SaysSeconds text n ∧ n < UInt64.size := by
  have hsplit : seconds? text = some n ↔ ∃ plus digits, (plus = [] ∨ plus = ['+']) ∧
      Text.trim text.toList = plus ++ digits ∧ digits? digits = some n := by
    rw [seconds?]
    split
    · next rest hrest =>
      rw [hrest]
      constructor
      · exact fun h => ⟨['+'], rest, .inr rfl, rfl, h⟩
      · rintro ⟨plus, digits, rfl | rfl, heq, h⟩
        · -- digits alone do not begin with the sign
          obtain ⟨-, hdigits, -⟩ := digits?_eq_some_iff.1 h
          rw [List.nil_append] at heq
          exact absurd rfl (ne_plus_of_isDigit (hdigits '+' (heq ▸ List.mem_cons_self)))
        · cases heq
          exact h
    · next hrest =>
      constructor
      · exact fun h => ⟨[], _, .inl rfl, rfl, h⟩
      · rintro ⟨plus, digits, rfl | rfl, heq, h⟩
        · rw [heq]
          exact h
        · exact absurd heq (hrest digits)
  rw [hsplit]
  constructor
  · rintro ⟨plus, digits, hplus, htrim, h⟩
    obtain ⟨hne, hdigits, hvalue, hlt⟩ := digits?_eq_some_iff.1 h
    obtain ⟨-, before, after, htext, hbefore, hafter⟩ := Text.trim_eq_iff.1 htrim
    exact ⟨⟨before, plus, digits, after, htext, hbefore, hplus, hne, hdigits, hafter, hvalue⟩, hlt⟩
  · rintro ⟨⟨before, plus, digits, after, htext, hbefore, hplus, hne, hdigits, hafter, hvalue⟩, hlt⟩
    refine ⟨plus, digits, hplus, Text.trim_eq_iff.2 ?_, ?_⟩
    · exact ⟨bare_plus_append hplus hne hdigits, before, after, htext, hbefore, hafter⟩
    · exact digits?_eq_some_iff.2 ⟨hne, hdigits, hvalue, hlt⟩

/-! ## Servers -/

/-- Holds of texts with a character that is not blank. -/
def NamesServer (piece : String) : Prop := ∃ c ∈ piece.toList, Text.isBlank c = false

instance : DecidablePred NamesServer := fun piece =>
  inferInstanceAs (Decidable (∃ c ∈ piece.toList, Text.isBlank c = false))

/-- A text says which servers there are: its pieces between commas that are not blank, in their order
and without the blanks around them. -/
def SaysServers (text : String) (servers : List String) : Prop :=
  List.Forall₂ (fun piece server => Text.TrimsTo piece.toList server.toList)
    ((Text.pieces ',' text).filter NamesServer) servers

theorem not_namesServer_iff {piece : String} :
    ¬ NamesServer piece ↔ Text.trim piece.toList = [] := by
  simp [NamesServer, Text.trim_eq_nil_iff]

/-- The servers that are read are those pieces. -/
theorem servers?_eq_map (text : String) :
    servers? text = ((Text.pieces ',' text).filter NamesServer).map fun piece =>
      String.ofList (Text.trim piece.toList) := by
  have hkeeps : ∀ piece : String,
      (!(Text.trim piece.toList).isEmpty) = decide (NamesServer piece) := by
    intro piece
    rw [Bool.eq_iff_iff, decide_eq_true_iff, ← Decidable.not_not (p := NamesServer piece),
      not_namesServer_iff, Bool.not_eq_true', List.isEmpty_eq_false_iff]
  rw [servers?, ← Text.map_toList_pieces, List.map_map, List.filter_map, List.map_map]
  exact congrArg _ (List.filter_congr fun piece _ => hkeeps piece)

/-- The servers that are read are those that the text says. -/
theorem servers?_eq_iff {text : String} {servers : List String} :
    servers? text = servers ↔ SaysServers text servers := by
  rw [servers?_eq_map, SaysServers]
  generalize (Text.pieces ',' text).filter NamesServer = pieces
  induction pieces generalizing servers with
  | nil => simp [eq_comm]
  | cons piece pieces ih =>
    rw [List.map_cons, List.forall₂_cons_left_iff]
    constructor
    · rintro rfl
      refine ⟨_, _, ?_, ih.1 rfl, rfl⟩
      rw [String.toList_ofList]
      exact Text.trimsTo_trim _
    · rintro ⟨server, rest, hserver, hrest, rfl⟩
      rw [ih.2 hrest, hserver.trim_eq, String.ofList_toList]

theorem servers?_eq_nil_iff {text : String} :
    servers? text = [] ↔ ∀ piece ∈ Text.pieces ',' text, ¬ NamesServer piece := by
  simp [servers?_eq_map]

end SubnetRegistry.Config
