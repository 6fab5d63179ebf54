import Mathlib.Data.List.Chain
import SubnetRegistry.Proofs.Json.Figure
import SubnetRegistry.Proofs.Json.Glyph
import SubnetRegistry.Proofs.Json.Tree

/-!
# Words with white space between them

A text is cut into its words wherever white space stands between them. Two numbers may not follow each
other, since without white space they would be one.

## Main definitions

* `Piece`, `Piece.bytes` — the words of a text in any spelling.
* `Spaced` — words with white space between them.
* `Piece.Gives` — what a word is to a reader.

## Main statements

* `Spaced.tokensFrom` — the tokens of a text are its words, one by one.
-/
namespace SubnetRegistry.Json

/-- A word of a text. -/
inductive Piece where
  | openBrace
  | closeBrace
  | openBracket
  | closeBracket
  | comma
  | colon
  | word (w : Word)
  | number (f : Figure)
  | text (gs : List Glyph)

namespace Piece

def bytes : Piece → List UInt8
  | .openBrace => [123]
  | .closeBrace => [125]
  | .openBracket => [91]
  | .closeBracket => [93]
  | .comma => [44]
  | .colon => [58]
  | .word .null => [110, 117, 108, 108]
  | .word (.boolean true) => [116, 114, 117, 101]
  | .word (.boolean false) => [102, 97, 108, 115, 101]
  | .number f => f.bytes
  | .text gs => 34 :: (gs.flatMap Glyph.bytes ++ [34])

def IsNumber : Piece → Prop
  | .number _ => True
  | _ => False

/-- What a word is to a reader: a number that is written as integers are is read as it is, and a text
is read if it denotes one. -/
def Gives : Piece → Lexeme → Prop
  | .openBrace, l => l = .openBrace
  | .closeBrace, l => l = .closeBrace
  | .openBracket, l => l = .openBracket
  | .closeBracket, l => l = .closeBracket
  | .comma, l => l = .comma
  | .colon, l => l = .colon
  | .word w, l => l = .word w
  | .number f, l => ∃ read, l = .number read ∧
      ∀ n : Int, f = .ofInt n → -0x8000000000000000 ≤ n → n < 0x10000000000000000 →
        read = .ok (.integer n)
  | .text gs, l => ∃ read, l = .text read (.ok ()) ∧ ∀ s, read = .ok s ↔ Glyph.denoted? gs = some s

end Piece

def blanks : List UInt8 := [32, 9, 10, 13]

/-- Words with white space before, between and after them. -/
inductive Spaced : List Piece → List UInt8 → Prop
  | nil {space : List UInt8} (h : ∀ b ∈ space, b ∈ blanks) : Spaced [] space
  | cons {space : List UInt8} {p : Piece} {ps : List Piece} {bytes : List UInt8}
      (h : ∀ b ∈ space, b ∈ blanks) (hs : Spaced ps bytes) :
      Spaced (p :: ps) (space ++ (p.bytes ++ bytes))

/-- Words of which no two numbers follow each other. -/
def Apart (ps : List Piece) : Prop := ps.IsChain fun p q => p.IsNumber → ¬ q.IsNumber

/-! ## Cutting -/

variable {bytes rest : List UInt8} {ps : List Piece}

theorem tokensFrom_pending (bytes rest : List UInt8) (offset : Nat) :
    tokensFrom offset bytes.length (bytes ++ rest) = tokensFrom (offset + bytes.length) 0 rest := by
  induction bytes generalizing offset with
  | nil => rfl
  | cons b bytes ih =>
    show tokensFrom (offset + 1) bytes.length (bytes ++ rest) = _
    rw [ih, List.length_cons, Nat.add_assoc, Nat.add_comm 1]

/-- One token, of a byte and those that belong to it. -/
theorem tokensFrom_first {b : UInt8} {l : Lexeme} {offset : Nat} (hspace : isSpace b = false)
    (hlast : ∀ start stop, Token.isLast ⟨start, stop, l⟩ = false)
    (h : Token.first offset b (bytes ++ rest) = ⟨offset, offset + bytes.length + 1, l⟩) :
    tokensFrom offset 0 (b :: bytes ++ rest) = ⟨offset, offset + bytes.length + 1, l⟩ ::
      tokensFrom (offset + (b :: bytes).length) 0 rest := by
  have hpending : offset + bytes.length + 1 - offset - 1 = bytes.length := by omega
  have hstop : offset + 1 + bytes.length = offset + (bytes.length + 1) := by omega
  rw [List.cons_append, tokensFrom]
  simp only [hspace, h, hlast, hpending, Bool.false_eq_true, if_false]
  rw [tokensFrom_pending, List.length_cons, hstop]

theorem tokensFrom_space {space : List UInt8} (h : ∀ b ∈ space, b ∈ blanks) (rest : List UInt8)
    (offset : Nat) :
    tokensFrom offset 0 (space ++ rest) = tokensFrom (offset + space.length) 0 rest := by
  induction space generalizing offset with
  | nil => rfl
  | cons b space ih =>
    have hspace : isSpace b = true := by
      have hb := h b List.mem_cons_self
      simp only [blanks, List.mem_cons, List.not_mem_nil, or_false] at hb
      rcases hb with rfl | rfl | rfl | rfl <;> rfl
    rw [List.cons_append, tokensFrom, if_pos hspace, ih fun c hc => h c (List.mem_cons_of_mem _ hc),
      List.length_cons, Nat.add_assoc, Nat.add_comm 1]

theorem delimited_of_blank {b : UInt8} (h : b ∈ blanks) : Delimited (b :: rest) := by
  simp only [blanks, List.mem_cons, List.not_mem_nil, or_false] at h
  intro c hc
  cases hc
  rcases h with rfl | rfl | rfl | rfl <;> exact ⟨rfl, by decide, rfl⟩

/-- A word that is no number does not go on one. -/
theorem Piece.delimited {p : Piece} (h : ¬ p.IsNumber) (rest : List UInt8) :
    Delimited (p.bytes ++ rest) := by
  intro b hb
  match p with
  | .openBrace | .closeBrace | .openBracket | .closeBracket | .comma | .colon | .word .null
  | .word (.boolean true) | .word (.boolean false) | .text gs =>
    cases hb
    exact ⟨rfl, by decide, rfl⟩
  | .number f => exact absurd trivial h

/-- What follows a number does not go on it. -/
theorem Spaced.delimited (h : Spaced ps bytes) (hps : ∀ p ∈ ps.head?, ¬ p.IsNumber) :
    Delimited bytes := by
  cases h with
  | nil hspace =>
    cases bytes with
    | nil => exact delimited_nil
    | cons b space => exact delimited_of_blank (hspace b List.mem_cons_self)
  | @cons space p ps bytes hspace =>
    cases space with
    | nil => exact Piece.delimited (hps p rfl) bytes
    | cons b space => exact delimited_of_blank (hspace b List.mem_cons_self)

/-- A word that is always written alike. -/
theorem exists_token_of_first {b : UInt8} {l : Lexeme} {offset : Nat} (hspace : isSpace b = false)
    (hlast : ∀ start stop, Token.isLast ⟨start, stop, l⟩ = false)
    (h : Token.first offset b (bytes ++ rest) = ⟨offset, offset + bytes.length + 1, l⟩) :
    ∃ t : Token, t.lexeme = l ∧ tokensFrom offset 0 (b :: bytes ++ rest) =
      t :: tokensFrom (offset + (b :: bytes).length) 0 rest :=
  ⟨_, rfl, tokensFrom_first hspace hlast h⟩

theorem beq_false_of_isDigit {b c : UInt8} (hb : isDigit b = true) (hc : isDigit c = false) :
    (b == c) = false := by
  refine beq_false_of_ne ?_
  rintro rfl
  rw [hb] at hc
  cases hc

theorem isSpace_of_numeral {b : UInt8} (h : b = 45 ∨ isDigit b = true) : isSpace b = false := by
  rcases h with rfl | h
  · rfl
  · have hne := fun {c : UInt8} => beq_false_of_isDigit (c := c) h
    simp only [isSpace, hne (c := 32) rfl, hne (c := 9) rfl, hne (c := 10) rfl,
      hne (c := 13) rfl, Bool.or_self]

/-- A token that starts with a minus sign or a digit is a numeral. -/
theorem first_of_numeral {b : UInt8} (h : b = 45 ∨ isDigit b = true) (offset : Nat)
    (rest : List UInt8) : Token.first offset b rest = Token.ofNumeral offset (b :: rest) := by
  rcases h with rfl | h
  · rfl
  · have hne := fun {c : UInt8} => beq_false_of_isDigit (c := c) h
    simp only [Token.first, h, Bool.or_true, if_true, Bool.false_eq_true, if_false,
      hne (c := 123) rfl, hne (c := 125) rfl, hne (c := 91) rfl, hne (c := 93) rfl,
      hne (c := 44) rfl, hne (c := 58) rfl, hne (c := 110) rfl, hne (c := 116) rfl,
      hne (c := 102) rfl, hne (c := 34) rfl]

/-- A number, of which only the spelling of an integer says what it is. -/
theorem exists_token_of_figure (f : Figure) (hrest : Delimited rest) (offset : Nat) :
    ∃ t : Token, (Piece.number f).Gives t.lexeme ∧
      tokensFrom offset 0 (f.bytes ++ rest) = t :: tokensFrom (offset + f.bytes.length) 0 rest := by
  obtain ⟨b, bytes, hbytes, hb⟩ := Numeral.bytes_eq_cons f
  obtain ⟨numeral, hscan, hlength⟩ := Numeral.takes_scan f hrest
  rw [hbytes] at hscan hlength
  have hfirst := first_of_numeral hb offset (bytes ++ rest)
  rw [← List.cons_append, Token.ofNumeral, hscan] at hfirst
  dsimp only at hfirst
  rw [hlength, List.length_cons, ← Nat.add_assoc] at hfirst
  rw [hbytes]
  refine ⟨_, ⟨_, rfl, ?_⟩, tokensFrom_first (isSpace_of_numeral hb) (fun _ _ => rfl) hfirst⟩
  rintro n rfl hlow hhigh
  rw [← hbytes, Figure.bytes_ofInt, Numeral.scan_ofInt n hrest] at hscan
  obtain rfl := Except.ok.inj hscan
  rw [Numeral.value_ofInt hlow hhigh]

/-- A text, of which the glyphs say what it is. -/
theorem exists_token_of_glyphs (gs : List Glyph) (rest : List UInt8) (offset : Nat) :
    ∃ t : Token, (Piece.text gs).Gives t.lexeme ∧
      tokensFrom offset 0 ((Piece.text gs).bytes ++ rest) =
        t :: tokensFrom (offset + (Piece.text gs).bytes.length) 0 rest := by
  have hskip := Quoted.skip_spelled gs rest (offset + 1)
  have hread := Quoted.read_spelled_iff gs rest (offset + 1)
  have hstop : offset + 1 + (gs.flatMap Glyph.bytes).length + 1 =
      offset + (gs.flatMap Glyph.bytes ++ [34]).length + 1 := by
    rw [List.length_append, List.length_singleton]
    omega
  have hfirst : Token.first offset 34 (gs.flatMap Glyph.bytes ++ [34] ++ rest) =
      ⟨offset, offset + (gs.flatMap Glyph.bytes ++ [34]).length + 1,
        .text ((Quoted.read (gs.flatMap Glyph.bytes ++ 34 :: rest) (offset + 1)).map Prod.fst)
          (.ok ())⟩ := by
    show Token.ofText offset _ = _
    rw [List.append_assoc, List.singleton_append, Token.ofText, hskip, ← hstop]
  exact ⟨_, ⟨_, rfl, hread⟩, tokensFrom_first rfl (fun _ _ => rfl) hfirst⟩

/-- A word is one token. -/
theorem Piece.exists_token (p : Piece) (hrest : p.IsNumber → Delimited rest) (offset : Nat) :
    ∃ t : Token, p.Gives t.lexeme ∧
      tokensFrom offset 0 (p.bytes ++ rest) = t :: tokensFrom (offset + p.bytes.length) 0 rest :=
  match p with
  | .openBrace | .closeBrace | .openBracket | .closeBracket | .comma | .colon | .word .null
  | .word (.boolean true) | .word (.boolean false) =>
    exists_token_of_first rfl (fun _ _ => rfl) rfl
  | .number f => exists_token_of_figure f (hrest trivial) offset
  | .text gs => exists_token_of_glyphs gs rest offset

/-- The tokens of a text are its words. -/
theorem Spaced.tokensFrom (h : Spaced ps bytes) (hapart : Apart ps) (offset : Nat) :
    List.Forall₂ (fun p t => p.Gives t.lexeme) ps (tokensFrom offset 0 bytes) := by
  induction h generalizing offset with
  | nil hspace =>
    have hnone := tokensFrom_space hspace [] offset
    rw [List.append_nil] at hnone
    rw [hnone]
    exact .nil
  | @cons space p ps bytes hspace hs ih =>
    have hdelimited : p.IsNumber → Delimited bytes := fun hp =>
      hs.delimited fun q hq => List.IsChain.rel_head? hapart hq hp
    obtain ⟨t, ht, htokens⟩ := p.exists_token hdelimited (offset + space.length)
    rw [tokensFrom_space hspace, htokens]
    exact .cons ht (ih hapart.tail _)

end SubnetRegistry.Json
