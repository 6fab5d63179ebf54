import SubnetRegistry.Proofs.Json.Quoted

/-!
# All spellings of a text

Between its quotes a text is a sequence of glyphs: characters that stand for themselves, escapes by a
letter, and units of sixteen bits in hexadecimal. Every such text can be passed over. It is read exactly
if its surrogates come in pairs, and then as the characters that the glyphs denote.

## Main definitions

* `Glyph` — what may stand between quotes.
* `Glyph.denoted?` — the characters that glyphs denote, if they denote any.
* `Glyph.ofText` — a text in the spelling that is written.

## Main statements

* `Quoted.skip_spelled`, `Quoted.read_spelled_iff` — the two readers on every spelling.
-/
namespace SubnetRegistry.Json

/-- A letter after a backslash. -/
inductive Escape where
  | quote
  | backslash
  | slash
  | backspace
  | formFeed
  | lineFeed
  | carriageReturn
  | tab

def Escape.letter : Escape → UInt8
  | .quote => 34
  | .backslash => 92
  | .slash => 47
  | .backspace => 98
  | .formFeed => 102
  | .lineFeed => 110
  | .carriageReturn => 114
  | .tab => 116

def Escape.char : Escape → Char
  | .quote => '"'
  | .backslash => '\\'
  | .slash => '/'
  | .backspace => '\x08'
  | .formFeed => '\x0c'
  | .lineFeed => '\n'
  | .carriageReturn => '\r'
  | .tab => '\t'

/-- A hexadecimal digit; those above nine have two forms. -/
structure HexDigit where
  value : Fin 16
  upper : Bool

def HexDigit.byte (d : HexDigit) : UInt8 :=
  UInt8.ofNat (d.value + if d.value < 10 then 48 else if d.upper then 55 else 87)

structure HexUnit where
  a : HexDigit
  b : HexDigit
  c : HexDigit
  d : HexDigit

def HexUnit.value (u : HexUnit) : Nat :=
  ((u.a.value * 16 + u.b.value) * 256 + u.c.value * 16 + u.d.value : Nat)

/-- What may stand between quotes. -/
inductive Glyph where
  | plain (c : { c : Char // 0x20 ≤ c.toNat ∧ c ≠ '"' ∧ c ≠ '\\' })
  | letter (e : Escape)
  | unit (u : HexUnit)

namespace Glyph

def bytes : Glyph → List UInt8
  | .plain c => encoded [c.1]
  | .letter e => [92, e.letter]
  | .unit u => [92, 117, u.a.byte, u.b.byte, u.c.byte, u.d.byte]

/-- The characters that glyphs denote. Two units that are a surrogate pair denote one character; any
other surrogate denotes none. -/
def chars? : List Glyph → Option (List Char)
  | [] => some []
  | .plain c :: rest => (c.1 :: ·) <$> chars? rest
  | .letter e :: rest => (e.char :: ·) <$> chars? rest
  | .unit u :: rest =>
    if Quoted.isTrailing u.value then none
    else if Quoted.isLeading u.value then
      match rest with
      | .unit v :: rest =>
        if Quoted.isTrailing v.value then
          (Char.ofNat (Quoted.paired u.value v.value) :: ·) <$> chars? rest
        else none
      | _ => none
    else (Char.ofNat u.value :: ·) <$> chars? rest

def denoted? (gs : List Glyph) : Option String := String.ofList <$> chars? gs

end Glyph

/-! ## Single glyphs -/

theorem Escape.escaped_letter (e : Escape) :
    ∃ b, Quoted.escaped e.letter = some b ∧ encoded [e.char] = [b] := by
  cases e <;> exact ⟨_, rfl, rfl⟩

theorem HexDigit.hexDigit_byte (d : HexDigit) : Quoted.hexDigit d.byte = some d.value := by
  obtain ⟨value, upper⟩ := d
  revert value upper
  decide

theorem HexUnit.hexUnit_bytes (u : HexUnit) :
    Quoted.hexUnit u.a.byte u.b.byte u.c.byte u.d.byte = some u.value := by
  simp only [Quoted.hexUnit, HexDigit.hexDigit_byte]
  rfl

namespace Quoted

theorem codePoint_eq (n : Nat) : codePoint n = encoded [Char.ofNat n] := by
  simp [codePoint, encoded]

theorem isPlain_of_mem_plain (c : { c : Char // 0x20 ≤ c.toNat ∧ c ≠ '"' ∧ c ≠ '\\' }) :
    ∀ b ∈ (Glyph.plain c).bytes, IsPlain b :=
  isPlain_of_mem_encoded c.2.1 c.2.2.1 c.2.2.2

theorem Reads.plain_glyph (c : { c : Char // 0x20 ≤ c.toNat ∧ c ≠ '"' ∧ c ≠ '\\' }) :
    Reads (Glyph.plain c).bytes (encoded [c.1]) :=
  .plains (isPlain_of_mem_plain c)

theorem Reads.escape (e : Escape) : Reads (Glyph.letter e).bytes (encoded [e.char]) := by
  obtain ⟨b, hletter, hchar⟩ := e.escaped_letter
  rw [hchar]
  exact .letter hletter

/-- Glyphs that denote characters are read as these. -/
theorem reads_of_chars? (gs : List Glyph) {cs : List Char} (h : Glyph.chars? gs = some cs) :
    Reads (gs.flatMap Glyph.bytes) (encoded cs) := by
  fun_induction Glyph.chars? gs generalizing cs with
  | case1 =>
    cases h
    exact .nil
  | case2 c rest ih =>
    obtain ⟨ds, hds, rfl⟩ := Option.map_eq_some_iff.1 h
    rw [encoded_cons]
    exact (Reads.plain_glyph c).append (ih hds)
  | case3 e rest ih =>
    obtain ⟨ds, hds, rfl⟩ := Option.map_eq_some_iff.1 h
    rw [encoded_cons]
    exact (Reads.escape e).append (ih hds)
  | case4 | case6 | case7 => cases h
  | case5 u htrailing hleading v rest hsecond ih =>
    obtain ⟨ds, hds, rfl⟩ := Option.map_eq_some_iff.1 h
    have hpair := Reads.pair u.hexUnit_bytes v.hexUnit_bytes (Bool.eq_false_iff.2 htrailing) hleading
      hsecond
    rw [encoded_cons, ← codePoint_eq]
    exact hpair.append (ih hds)
  | case8 u rest htrailing hleading ih =>
    obtain ⟨ds, hds, rfl⟩ := Option.map_eq_some_iff.1 h
    have hunit := Reads.unit u.hexUnit_bytes (Bool.eq_false_iff.2 htrailing)
      (Bool.eq_false_iff.2 hleading)
    rw [encoded_cons, ← codePoint_eq]
    exact hunit.append (ih hds)

/-- A second half of a surrogate pair without the first one. -/
theorem exists_error_of_trailing (u : HexUnit) (h : isTrailing u.value = true) (tail : List UInt8)
    (offset : Nat) : ∃ fault, unescape ((Glyph.unit u).bytes ++ tail) offset = .error fault := by
  show ∃ fault, unescape (92 :: 117 :: u.a.byte :: u.b.byte :: u.c.byte :: u.d.byte :: tail) offset =
    .error fault
  rw [unescape.eq_3, u.hexUnit_bytes]
  simp only [h, if_true]
  exact ⟨_, rfl⟩

/-- A first half of a surrogate pair without the second one. -/
theorem exists_error_of_leading (u : HexUnit) {tail : List UInt8} {offset : Nat}
    (htrailing : isTrailing u.value = false) (hleading : isLeading u.value = true)
    (htail : ∀ a b c d after m, tail = 92 :: 117 :: a :: b :: c :: d :: after →
      hexUnit a b c d = some m → isTrailing m = false) :
    ∃ fault, unescape ((Glyph.unit u).bytes ++ tail) offset = .error fault := by
  show ∃ fault, unescape (92 :: 117 :: u.a.byte :: u.b.byte :: u.c.byte :: u.d.byte :: tail) offset =
    .error fault
  rw [unescape.eq_3, u.hexUnit_bytes]
  simp only [htrailing, hleading, Bool.not_true, Bool.false_eq_true, if_false]
  split
  · next a b c d after =>
    split
    · exact ⟨_, rfl⟩
    · next m hm =>
      rw [htail a b c d after m rfl hm]
      exact ⟨_, rfl⟩
  · exact ⟨_, rfl⟩

/-- Other glyphs than a unit do not begin like one. -/
theorem ne_unit_of_glyphs {gs : List Glyph} (h : ∀ u rest, gs ≠ .unit u :: rest)
    (more bytes : List UInt8) : gs.flatMap Glyph.bytes ++ 34 :: more ≠ 92 :: 117 :: bytes := by
  cases gs with
  | nil => simp
  | cons g rest =>
    cases g with
    | plain c =>
      intro heq
      cases hbytes : (Glyph.plain c).bytes with
      | nil => simp [Glyph.bytes, encoded] at hbytes
      | cons b more =>
        rw [List.flatMap_cons, hbytes] at heq
        obtain ⟨-, -, hne⟩ := isPlain_of_mem_plain c b (by simp [hbytes])
        exact hne (List.cons.inj heq).1
    | letter e => cases e <;> simp [Glyph.bytes, Escape.letter]
    | unit u => exact absurd rfl (h u rest)

theorem exists_error_append {bytes content rest : List UInt8} (h : Reads bytes content)
    (hrest : ∀ offset, ∃ fault, unescape rest offset = .error fault) (offset : Nat) :
    ∃ fault, unescape (bytes ++ rest) offset = .error fault := by
  obtain ⟨fault, hfault⟩ := hrest (offset + bytes.length)
  rw [(h rest offset).2, hfault]
  exact ⟨fault, rfl⟩

/-- Glyphs that denote nothing are not read. -/
theorem exists_error_of_chars? (gs : List Glyph) (h : Glyph.chars? gs = none) (more : List UInt8)
    (offset : Nat) :
    ∃ fault, unescape (gs.flatMap Glyph.bytes ++ 34 :: more) offset = .error fault := by
  fun_induction Glyph.chars? gs generalizing offset with
  | case1 => cases h
  | case2 c rest ih =>
    rw [List.flatMap_cons, List.append_assoc]
    exact exists_error_append (.plain_glyph c) (ih (Option.map_eq_none_iff.1 h)) offset
  | case3 e rest ih =>
    rw [List.flatMap_cons, List.append_assoc]
    exact exists_error_append (.escape e) (ih (Option.map_eq_none_iff.1 h)) offset
  | case4 u rest htrailing =>
    rw [List.flatMap_cons, List.append_assoc]
    exact exists_error_of_trailing u htrailing _ offset
  | case5 u htrailing hleading v rest hsecond ih =>
    have hpair := Reads.pair u.hexUnit_bytes v.hexUnit_bytes (Bool.eq_false_iff.2 htrailing) hleading
      hsecond
    rw [List.flatMap_cons, List.flatMap_cons, ← List.append_assoc, List.append_assoc]
    exact exists_error_append hpair (ih (Option.map_eq_none_iff.1 h)) offset
  | case6 u htrailing hleading v rest hsecond =>
    rw [List.flatMap_cons, List.flatMap_cons, List.append_assoc, List.append_assoc]
    refine exists_error_of_leading u (Bool.eq_false_iff.2 htrailing) hleading ?_
    rintro a b c d after m heq hm
    obtain ⟨rfl, rfl, rfl, rfl, -⟩ : v.a.byte = a ∧ v.b.byte = b ∧ v.c.byte = c ∧ v.d.byte = d ∧ _ := by
      simpa [Glyph.bytes] using heq
    rw [v.hexUnit_bytes] at hm
    cases hm
    exact Bool.eq_false_iff.2 hsecond
  | case7 u rest htrailing hleading hrest =>
    rw [List.flatMap_cons, List.append_assoc]
    refine exists_error_of_leading u (Bool.eq_false_iff.2 htrailing) hleading ?_
    rintro a b c d after m heq
    exact absurd heq (ne_unit_of_glyphs hrest more _)
  | case8 u rest htrailing hleading ih =>
    have hunit := Reads.unit u.hexUnit_bytes (Bool.eq_false_iff.2 htrailing)
      (Bool.eq_false_iff.2 hleading)
    rw [List.flatMap_cons, List.append_assoc]
    exact exists_error_append hunit (ih (Option.map_eq_none_iff.1 h)) offset

/-! ## Whole texts -/

theorem skip_glyph (g : Glyph) (rest : List UInt8) (offset : Nat) :
    skip (g.bytes ++ rest) offset = skip rest (offset + g.bytes.length) := by
  cases g with
  | plain c => exact (Reads.plain_glyph c rest offset).1
  | letter e => exact (Reads.escape e rest offset).1
  | unit u =>
    show skip (92 :: 117 :: u.a.byte :: u.b.byte :: u.c.byte :: u.d.byte :: rest) offset = _
    rw [skip.eq_3, u.hexUnit_bytes]
    rfl

/-- Every text can be passed over. -/
theorem skip_spelled (gs : List Glyph) (rest : List UInt8) (offset : Nat) :
    skip (gs.flatMap Glyph.bytes ++ 34 :: rest) offset =
      .ok (offset + (gs.flatMap Glyph.bytes).length + 1) := by
  induction gs generalizing offset with
  | nil => rfl
  | cons g gs ih =>
    rw [List.flatMap_cons, List.append_assoc, skip_glyph, ih, List.length_append, Nat.add_assoc offset]

/-- A text is read as what its glyphs denote, if they denote anything. -/
theorem read_spelled_iff (gs : List Glyph) (rest : List UInt8) (offset : Nat) (s : String) :
    (read (gs.flatMap Glyph.bytes ++ 34 :: rest) offset).map Prod.fst = .ok s ↔
      Glyph.denoted? gs = some s := by
  cases hcs : Glyph.chars? gs with
  | none =>
    obtain ⟨fault, hfault⟩ := exists_error_of_chars? gs hcs rest offset
    simp [read, hfault, Glyph.denoted?, hcs, bind, Except.bind, Except.map]
  | some cs =>
    have hread : unescape (gs.flatMap Glyph.bytes ++ 34 :: rest) offset =
        .ok (encoded cs, offset + (gs.flatMap Glyph.bytes).length + 1) := by
      rw [(reads_of_chars? gs hcs (34 :: rest) offset).2, unescape.eq_2]
      simp [pure, Except.pure, Except.map]
    simp [read, hread, Glyph.denoted?, hcs, bind, Except.bind, fromUTF8?_encoded, Except.map, pure,
      Except.pure]

end Quoted

/-! ## The spelling that is written -/

namespace Glyph

def digit (n : Nat) : HexDigit := ⟨Fin.ofNat 16 n, false⟩

/-- The escape of a control character without a letter of its own. -/
def control (c : Char) : HexUnit :=
  ⟨digit 0, digit 0, digit (c.toNat / 16), digit (c.toNat % 16)⟩

def ofChar (c : Char) : Glyph :=
  if hquote : c = '"' then .letter .quote
  else if hbackslash : c = '\\' then .letter .backslash
  else if c = '\x08' then .letter .backspace
  else if c = '\t' then .letter .tab
  else if c = '\n' then .letter .lineFeed
  else if c = '\x0c' then .letter .formFeed
  else if c = '\r' then .letter .carriageReturn
  else if h : c.toNat < 0x20 then .unit (control c)
  else .plain ⟨c, Nat.not_lt.1 h, hquote, hbackslash⟩

def ofText (s : String) : List Glyph := s.toList.map ofChar

theorem byte_digit : ∀ n < 16, [(digit n).byte] = encoded [Nat.digitChar n] := by decide

theorem value_control {c : Char} (h : c.toNat < 0x20) : (control c).value = c.toNat := by
  have hdigit : ∀ n < 16, ((digit n).value : Nat) = n := by decide
  rw [HexUnit.value, control, hdigit 0 (by decide), hdigit _ (by omega), hdigit _ (by omega)]
  omega

theorem bytes_control {c : Char} (h : c.toNat < 0x20) :
    (Glyph.unit (control c)).bytes = encoded ['\\', 'u', '0', '0', Nat.digitChar (c.toNat / 16),
      Nat.digitChar (c.toNat % 16)] := by
  have hhigh := byte_digit (c.toNat / 16) (by omega)
  have hlow := byte_digit (c.toNat % 16) (by omega)
  calc (Glyph.unit (control c)).bytes
      = [92, 117, 48, 48] ++ ([(digit (c.toNat / 16)).byte] ++ [(digit (c.toNat % 16)).byte]) := rfl
    _ = _ := by
      rw [hhigh, hlow, ← encoded_append]
      rfl

theorem chars?_control {c : Char} (h : c.toNat < 0x20) (rest : List Glyph) :
    chars? (.unit (control c) :: rest) = (c :: ·) <$> chars? rest := by
  have htrailing : Quoted.isTrailing c.toNat = false := by
    simp [Quoted.isTrailing]
    omega
  have hleading : Quoted.isLeading c.toNat = false := by
    simp [Quoted.isLeading]
    omega
  rw [chars?.eq_def]
  simp only [htrailing, hleading, value_control h, Char.ofNat_toNat, Bool.false_eq_true, if_false]

/-- A character is written as its glyph, which denotes it. -/
theorem ofChar_spec (c : Char) :
    (ofChar c).bytes = encoded (Quoted.escape c) ∧
      ∀ rest, chars? (ofChar c :: rest) = (c :: ·) <$> chars? rest := by
  by_cases hquote : c = '"'
  · subst hquote
    exact ⟨rfl, fun _ => rfl⟩
  by_cases hbackslash : c = '\\'
  · subst hbackslash
    exact ⟨rfl, fun _ => rfl⟩
  by_cases hbackspace : c = '\x08'
  · subst hbackspace
    exact ⟨rfl, fun _ => rfl⟩
  by_cases htab : c = '\t'
  · subst htab
    exact ⟨rfl, fun _ => rfl⟩
  by_cases hline : c = '\n'
  · subst hline
    exact ⟨rfl, fun _ => rfl⟩
  by_cases hform : c = '\x0c'
  · subst hform
    exact ⟨rfl, fun _ => rfl⟩
  by_cases hreturn : c = '\r'
  · subst hreturn
    exact ⟨rfl, fun _ => rfl⟩
  by_cases h : c.toNat < 0x20
  · have hglyph : ofChar c = .unit (control c) := by
      simp only [ofChar, hquote, hbackslash, hbackspace, htab, hline, hform, hreturn, h, dif_neg,
        dif_pos, if_neg, not_false_eq_true]
    have hescape : Quoted.escape c = ['\\', 'u', '0', '0', Nat.digitChar (c.toNat / 16),
        Nat.digitChar (c.toNat % 16)] := by
      simp only [Quoted.escape, hquote, hbackslash, hbackspace, htab, hline, hform, hreturn, h,
        if_pos, if_neg, not_false_eq_true]
    rw [hglyph, hescape]
    exact ⟨bytes_control h, chars?_control h⟩
  · have hglyph : ofChar c = .plain ⟨c, Nat.not_lt.1 h, hquote, hbackslash⟩ := by
      simp only [ofChar, hquote, hbackslash, hbackspace, htab, hline, hform, hreturn, h, dif_neg,
        if_neg, not_false_eq_true]
    have hescape : Quoted.escape c = [c] := by
      simp only [Quoted.escape, hquote, hbackslash, hbackspace, htab, hline, hform, hreturn, h,
        if_neg, not_false_eq_true]
    rw [hglyph, hescape]
    exact ⟨rfl, fun _ => rfl⟩

theorem bytes_ofText (s : String) : (ofText s).flatMap bytes = Quoted.inner s := by
  rw [Quoted.inner, ofText]
  induction s.toList with
  | nil => rfl
  | cons c cs ih =>
    rw [List.map_cons, List.flatMap_cons, ih, List.flatMap_cons, encoded_append, (ofChar_spec c).1]

theorem denoted?_ofText (s : String) : denoted? (ofText s) = some s := by
  have hchars : ∀ cs : List Char, chars? (cs.map ofChar) = some cs := by
    intro cs
    induction cs with
    | nil => rfl
    | cons c cs ih =>
      rw [List.map_cons, (ofChar_spec c).2, ih]
      rfl
  rw [denoted?, ofText, hchars]
  exact congrArg some String.ofList_toList

end Glyph
end SubnetRegistry.Json
