import SubnetRegistry.Proofs.Json.Cut

/-!
# Texts with a gap for a number

A text has a gap into which an integer is written in decimal. Where the integer stands in it as a number,
by itself and not as a part of a longer one, any other integer does, and the two texts are alike but for
this number.

## Main definitions

* `Gap`, `Gap.fill` — a text with a gap, and the text with an integer in the gap.
* `Step`, `Node.at?` — the way to a part of a text.
* `Gap.LiesAt` — the gap is where a way leads.

## Main statements

* `Gap.LiesAt.alike` — the texts with two integers in one gap are alike but for these.
-/
namespace SubnetRegistry.Json

/-! ## Parts -/

/-- A step from a container to one of its parts: to the field of a name, which is also that of an index
where records are written as arrays, or to an item. -/
inductive Step where
  | field (name : String) (index : Nat)
  | item (index : Nat)

def Key.isName (key : Key) (name : String) : Bool :=
  match key.read with
  | .ok s => s == name
  | .error _ => false

@[simp] theorem Key.isName_iff {key : Key} {name : String} :
    key.isName name = true ↔ key.read = .ok name := by
  unfold Key.isName
  split <;> simp [*]

/-- The part of a container to which a step leads. -/
def Node.child? : Step → Node → Option Node
  | .field name _, .object members _ _ =>
    (members.find? (·.key.isName name)).map Member.value
  | .field _ index, .array items _ _ => items[index]?
  | .item index, .array items _ _ => items[index]?
  | _, _ => none

def Node.at? : List Step → Node → Option Node
  | [], node => some node
  | step :: path, node => (node.child? step).bind (Node.at? path)

variable {w : Swap} {n : Nat}

theorem Node.AlikeItems.exists_of_mem {items items' : List Node} (h : Node.AlikeItems w n items items')
    {node : Node} (hnode : node ∈ items) : ∃ k ≤ n, ∃ node', node.Alike w k node' := by
  induction items generalizing n items' with
  | nil => cases hnode
  | cons first items ih =>
    cases h with
    | cons h hs hn =>
      rcases List.mem_cons.1 hnode with rfl | hnode
      · exact ⟨_, by omega, _, h⟩
      · obtain ⟨k, hk, node', h⟩ := ih hs hnode
        exact ⟨k, by omega, node', h⟩

theorem Member.AlikeAll.exists_of_mem {members members' : List Member}
    (h : Member.AlikeAll w n members members') {m : Member} (hm : m ∈ members) :
    ∃ k ≤ n, ∃ node', m.value.Alike w k node' := by
  induction members generalizing n members' with
  | nil => cases hm
  | cons first members ih =>
    cases h with
    | cons next next' hkey h hs hn =>
      rcases List.mem_cons.1 hm with rfl | hm
      · exact ⟨_, by omega, _, h⟩
      · obtain ⟨k, hk, node', h⟩ := ih hs hm
        exact ⟨k, by omega, node', h⟩

theorem Node.Alike.child {node node' part : Node} {step : Step} (h : node.Alike w n node')
    (hpart : node.child? step = some part) : ∃ k ≤ n, ∃ part', part.Alike w k part' := by
  cases h with
  | array start start' hitems hending =>
    refine hitems.exists_of_mem ?_
    cases step <;> exact List.mem_of_getElem? hpart
  | object start start' hmembers hending =>
    cases step with
    | item index => cases hpart
    | field name index =>
      obtain ⟨m, hm, rfl⟩ := Option.map_eq_some_iff.1 hpart
      exact hmembers.exists_of_mem (List.mem_of_find?_eq_some hm)
  | null | boolean | number | swapped | text | broken | absent => cases step <;> cases hpart

/-- A number at the place is swapped. -/
theorem Node.Alike.of_at? {node node' : Node} {path : List Step} {read : Except Fault Number}
    {stop : Nat} (h : node.Alike w n node') (hat : node.at? path = some (.number read w.place stop)) :
    1 ≤ n ∧ stop = w.stop := by
  induction path generalizing n node node' with
  | nil =>
    cases Option.some.inj hat
    cases h with
    | number _ _ _ hplace => exact absurd rfl hplace
    | swapped _ _ _ _ hstop => exact ⟨Nat.le_refl 1, hstop⟩
  | cons step path ih =>
    obtain ⟨part, hpart, hat⟩ := Option.bind_eq_some_iff.1 hat
    obtain ⟨k, hk, part', h⟩ := h.child hpart
    obtain ⟨hle, hstop⟩ := ih h hat
    exact ⟨by omega, hstop⟩

/-! ## Integers -/

theorem encoded_ofInt_eq_cons (z : Int) :
    ∃ b bytes, encoded (Decimal.ofInt z) = b :: bytes ∧ (b = 45 ∨ isDigit b = true) := by
  rw [← Figure.bytes_ofInt]
  exact Numeral.bytes_eq_cons _

theorem length_encoded_ofInt_pos (z : Int) : 0 < (encoded (Decimal.ofInt z)).length := by
  obtain ⟨b, bytes, hbytes, -⟩ := encoded_ofInt_eq_cons z
  rw [hbytes]
  exact Nat.succ_pos _

/-- After an integer comes what may follow the digits of a number. -/
theorem exists_scanTail (z : Int) {rest : List UInt8} (h : ∀ b ∈ rest.head?, isDigit b = false) :
    ∃ negative whole used, Numeral.scan (encoded (Decimal.ofInt z) ++ rest) =
      Numeral.scanTail negative whole used rest := by
  obtain ⟨b, bytes, hbytes, hb⟩ := Numeral.unsigned_eq_cons (.ofInt z)
  have hdigits : encoded (Decimal.ofNat z.natAbs) = b :: bytes := by
    rw [← hbytes, Figure.unsigned]
    exact (List.append_nil _).symm
  rw [Decimal.ofInt]
  split
  · rw [encoded_cons, List.append_assoc]
    exact ⟨_, _, _, Numeral.scanUnsigned_append z.natAbs h⟩
  · rw [Numeral.scan.eq_2]
    · exact ⟨_, _, _, Numeral.scanUnsigned_append z.natAbs h⟩
    · intro after hafter
      rw [hdigits] at hafter
      cases hafter
      cases hb

/-- A number that is no longer than the integer at its start is that integer: nothing follows it that
goes on it. -/
theorem delimited_of_scan {z : Int} {after : List UInt8} {numeral : Numeral}
    (h : Numeral.scan (encoded (Decimal.ofInt z) ++ after) = .ok numeral)
    (hlength : numeral.length = (encoded (Decimal.ofInt z)).length) : Delimited after := by
  intro c hc
  obtain ⟨b, bytes, hbytes, -⟩ := encoded_ofInt_eq_cons z
  rw [hbytes] at h hlength
  obtain ⟨body, rest, heq, hbody, hrest, hlocal⟩ := Numeral.ends_scan h
  obtain ⟨rfl, rfl⟩ := List.append_inj heq (by rw [List.length_cons] at hlength; omega)
  have hdigit : ∀ b ∈ [c].head?, isDigit b = false := by
    rintro b ⟨⟩
    exact hrest c hc
  -- Of what follows only its first byte matters, and alone it would break the number off.
  have hshort := hlocal [c] hc.symm
  obtain ⟨negative, whole, used, htail⟩ := exists_scanTail z hdigit
  rw [hbytes] at htail
  have hscan := htail.symm.trans hshort
  refine ⟨hrest c hc, ?_, Bool.eq_false_iff.2 fun hmark => ?_⟩
  · rintro rfl
    cases hscan
  · simp only [isExponentMark, Bool.or_eq_true, beq_iff_eq] at hmark
    rcases hmark with rfl | rfl <;> cases hscan

/-- A minus sign or a digit starts a number or nothing. -/
theorem tokensFrom_numeral {b : UInt8} (hb : b = 45 ∨ isDigit b = true) (bytes : List UInt8)
    (offset : Nat) :
    (∃ stop read skip, tokensFrom offset 0 (b :: bytes) = [⟨offset, stop, .broken read skip⟩]) ∨
      ∃ n rest, Numeral.scan (b :: bytes) = .ok n ∧ tokensFrom offset 0 (b :: bytes) =
        ⟨offset, offset + n.length, .number (Token.readNumeral offset n)⟩ ::
          tokensFrom (offset + n.length) 0 rest := by
  have hspace := isSpace_of_numeral hb
  have hfirst := first_of_numeral hb offset
  cases hscan : Numeral.scan (b :: bytes) with
  | error fault =>
    refine .inl ?_
    rw [tokensFrom, if_neg (Bool.eq_false_iff.1 hspace), hfirst, Token.ofNumeral, hscan]
    cases fault <;> exact ⟨_, _, _, rfl⟩
  | ok n =>
    obtain ⟨body, rest, rfl, hlength, -, -⟩ := Numeral.ends_scan hscan
    refine .inr ⟨n, rest, rfl, ?_⟩
    have htoken : Token.first offset b (body ++ rest) =
        ⟨offset, offset + body.length + 1, .number (Token.readNumeral offset n)⟩ := by
      rw [hfirst, Token.ofNumeral_of_scan hscan, hlength, Nat.add_comm 1, Nat.add_assoc]
    rw [hlength, Nat.add_comm 1, ← Nat.add_assoc]
    exact tokensFrom_first hspace (fun _ _ => rfl) htoken

/-- The token of an integer. -/
theorem tokensFrom_ofInt (z : Int) {after : List UInt8} (h : Delimited after) (offset : Nat) :
    tokensFrom offset 0 (encoded (Decimal.ofInt z) ++ after) =
      ⟨offset, offset + (encoded (Decimal.ofInt z)).length,
        .number (Token.readNumeral offset (numeralOf z))⟩ ::
        tokensFrom (offset + (encoded (Decimal.ofInt z)).length) 0 after := by
  obtain ⟨b, bytes, hbytes, hb⟩ := encoded_ofInt_eq_cons z
  have hscan := Numeral.scan_ofInt z h
  have hlength : (numeralOf z).length = bytes.length + 1 := by
    rw [numeralOf, hbytes, List.length_cons]
  rw [hbytes] at hscan ⊢
  have hfirst : Token.first offset b (bytes ++ after) =
      ⟨offset, offset + bytes.length + 1, .number (Token.readNumeral offset (numeralOf z))⟩ := by
    rw [first_of_numeral hb, ← List.cons_append, Token.ofNumeral_of_scan hscan, hlength, Nat.add_assoc]
  exact tokensFrom_first (isSpace_of_numeral hb) (fun _ _ => rfl) hfirst

/-! ## Gaps -/

/-- A text with a gap for an integer. -/
structure Gap where
  before : List UInt8
  after : List UInt8

namespace Gap

variable {g : Gap} {path : List Step} {x z : Int}

def fill (g : Gap) (z : Int) : List UInt8 := g.before ++ (encoded (Decimal.ofInt z) ++ g.after)

/-- The integer in the gap is the part of the text to which the steps lead, from its first byte to its
last. -/
def LiesAt (g : Gap) (path : List Step) (z : Int) : Prop :=
  ∃ read, (Outline.ofBytes (g.fill z)).root.at? path =
    some (.number read g.before.length (g.before.length + (encoded (Decimal.ofInt z)).length))

/-- Where the tokens of another text are alike, its tree is alike and has another number in the gap. -/
theorem LiesAt.run (h : g.LiesAt path x) {w : Swap} (hw : w.place = g.before.length) {k : Nat}
    {ts : List Token} (hts : Token.AlikeAll w k (tokens (g.fill x)) ts) (size : Nat) :
    ∃ m ≤ k, 1 ≤ m ∧ w.stop = g.before.length + (encoded (Decimal.ofInt x)).length ∧
      Outline.Alike w m (Outline.ofBytes (g.fill x)) ((Stage.value .top).run size ts) := by
  obtain ⟨m, hm, halike⟩ := (Stage.Alike.value .top).run hts (g.fill x).length size
  obtain ⟨read, hat⟩ := h
  rw [← hw] at hat
  obtain ⟨hle, hstop⟩ := halike.root.of_at? hat
  exact ⟨m, hm, hle, by rw [← hstop, hw], halike⟩

/-- A number in the gap is a token of the text. -/
theorem LiesAt.exists_token (h : g.LiesAt path x) :
    ∃ t ∈ tokens (g.fill x), t.start = g.before.length ∧ ∃ read, t.lexeme = .number read := by
  by_contra hnone
  have hself : Token.AlikeAll ⟨g.before.length, 0, .ok (.integer x)⟩ 0 (tokens (g.fill x))
      (tokens (g.fill x)) :=
    .refl fun t ht read hread hstart => hnone ⟨t, ht, hstart, read, hread⟩
  obtain ⟨m, hm, hle, -⟩ := h.run rfl hself 0
  omega

/-- The text is cut into tokens where the gap is. What comes before it depends on what is in it only if
it ends with a number. -/
theorem LiesAt.cut (h : g.LiesAt path x) {w : Swap} (hw : w.place = g.before.length) :
    ∃ ts, tokens (g.fill x) = ts ++ tokensFrom w.place 0 (encoded (Decimal.ofInt x) ++ g.after) ∧
      (∀ t ∈ ts, t.start ≠ w.place) ∧
      ((∃ ts' t read, ts = ts' ++ [t] ∧ t.lexeme = .number read) ∨
        ∀ rest, ∃ ts', tokens (g.before ++ rest) = ts' ++ tokensFrom w.place 0 rest ∧
          Token.AlikeAll w 0 ts ts') := by
  obtain ⟨t, ht, hstart, -⟩ := h.exists_token
  obtain ⟨ts, hcut⟩ := Json.exists_cut (by rw [hw, Nat.zero_add]) ⟨t, ht, hstart.trans hw.symm⟩
  exact ⟨ts, hcut.tokens, hcut.apart, hcut.steady⟩

/-- The number that is scanned in the gap is the integer, and not a part of it or more. -/
theorem LiesAt.delimited (h : g.LiesAt path x) : Delimited g.after := by
  obtain ⟨t, ht, hstart, read, hread⟩ := h.exists_token
  obtain ⟨b, bytes, hbytes, hb⟩ := encoded_ofInt_eq_cons x
  rcases tokensFrom_numeral hb (bytes ++ g.after) g.before.length with
    ⟨stop, fault, fault', hbroken⟩ | ⟨n, rest, hscan, hnumeral⟩
  · obtain ⟨ts, htokens, hts, -⟩ := h.cut (w := ⟨g.before.length, 0, read⟩) rfl
    rw [htokens, hbytes, List.cons_append, hbroken, List.mem_append, List.mem_singleton] at ht
    rcases ht with ht | rfl
    · exact absurd hstart (hts t ht)
    · cases hread
  · obtain ⟨ts, htokens, hts, -⟩ := h.cut (w := ⟨g.before.length, g.before.length + n.length,
      Token.readNumeral g.before.length n⟩) rfl
    rw [hbytes, List.cons_append, hnumeral] at htokens
    have hpos : 0 < n.length := by
      obtain ⟨body, -, -, hlength, -⟩ := Numeral.ends_scan hscan
      omega
    have hself : Token.AlikeAll ⟨g.before.length, g.before.length + n.length,
        Token.readNumeral g.before.length n⟩ (0 + 1) (tokens (g.fill x)) (tokens (g.fill x)) := by
      rw [htokens]
      refine (Token.AlikeAll.refl fun t ht _ _ => hts t ht).append
        (.cons (.swapped rfl rfl rfl rfl) ?_ (Nat.add_zero 1).symm)
      exact alike_tokensFrom rest _ (Nat.lt_add_of_pos_right hpos)
    obtain ⟨m, -, -, hstop, -⟩ := h.run rfl hself 0
    have hown : Numeral.scan (encoded (Decimal.ofInt x) ++ g.after) = .ok n := by
      rw [hbytes]
      exact hscan
    exact delimited_of_scan hown (Nat.add_left_cancel hstop)

def token (g : Gap) (z : Int) : Token :=
  ⟨g.before.length, g.before.length + (encoded (Decimal.ofInt z)).length,
    .number (Token.readNumeral g.before.length (numeralOf z))⟩

/-- The change from an integer in the gap to another. -/
def swap (g : Gap) (x z : Int) : Swap :=
  ⟨g.before.length, g.before.length + (encoded (Decimal.ofInt x)).length,
    Token.readNumeral g.before.length (numeralOf z)⟩

theorem alike_token (g : Gap) (x z : Int) : Token.Alike (g.swap x z) 1 (g.token x) (g.token z) :=
  .swapped rfl rfl rfl rfl

theorem alike_after (g : Gap) (x z : Int) (offset : Nat) :
    Token.AlikeAll (g.swap x z) 0
      (tokensFrom (g.before.length + (encoded (Decimal.ofInt x)).length) 0 g.after)
      (tokensFrom offset 0 g.after) :=
  alike_tokensFrom g.after offset (Nat.lt_add_of_pos_right (length_encoded_ofInt_pos x))

/-- No number comes right before the gap: after it no value would be due, and what is in the gap would be
no part of the text. -/
theorem LiesAt.not_number (h : g.LiesAt path x) {ts : List Token} {t : Token}
    (htokens : tokens (g.fill x) = ts ++ t :: g.token x ::
      tokensFrom (g.before.length + (encoded (Decimal.ofInt x)).length) 0 g.after)
    (hts : ∀ t' ∈ ts, t'.start ≠ g.before.length) (ht : t.start ≠ g.before.length)
    (read : Except Fault Number) : t.lexeme ≠ .number read := by
  intro hread
  have hbefore : Token.AlikeAll (g.swap x x) 0 ts ts := .refl fun t' ht' _ _ => hts t' ht'
  have hself := (Stage.Alike.value .top).root_run_number hbefore (.same (fun _ _ => ht) (.refl _)) hread
    (g.alike_token x x) (g.alike_after x x (g.before.length + (encoded (Decimal.ofInt x)).length))
    (g.fill x).length (g.fill x).length
  rw [← htokens] at hself
  obtain ⟨read', hat⟩ := h
  exact absurd (hself.of_at? hat).1 (by decide)

/-- The texts with two integers in one gap are alike but for these. -/
theorem LiesAt.alike (h : g.LiesAt path x) (z : Int) :
    Outline.Alike (g.swap x z) 1 (Outline.ofBytes (g.fill x)) (Outline.ofBytes (g.fill z)) := by
  obtain ⟨ts, htokens, hts, ⟨ts', t, read, rfl, hread⟩ | hcut⟩ := h.cut (w := g.swap x z) rfl
  · rw [tokensFrom_ofInt x h.delimited, List.append_assoc] at htokens
    obtain ⟨hts, ht⟩ := List.forall_mem_append.1 hts
    exact absurd hread (h.not_number htokens hts (ht t List.mem_cons_self) read)
  · obtain ⟨ts', htokens', halike⟩ := hcut (encoded (Decimal.ofInt z) ++ g.after)
    have hall : Token.AlikeAll (g.swap x z) (0 + 1) (tokens (g.fill x)) (tokens (g.fill z)) := by
      rw [htokens, fill, htokens', tokensFrom_ofInt _ h.delimited, tokensFrom_ofInt _ h.delimited]
      exact halike.append (.cons (g.alike_token x z) (g.alike_after x z _) (Nat.add_zero 1).symm)
    obtain ⟨m, hle, hpos, -, halike⟩ := h.run rfl hall (g.fill z).length
    obtain rfl : m = 1 := by omega
    exact halike

end Gap
end SubnetRegistry.Json
