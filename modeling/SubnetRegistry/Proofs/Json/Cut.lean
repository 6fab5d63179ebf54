import SubnetRegistry.Proofs.Json.Alike
import SubnetRegistry.Proofs.Json.Extent
import SubnetRegistry.Proofs.Json.Piece

/-!
# Tokens wherever they stand

A token does not depend on what is before it but for its place, and on what is after it only if it is a
number. So the tokens after some place are the same further on, and those before it are the same whatever
stands there.

## Main definitions

* `Token.Steady` — how little a token depends on what is around it.
* `IsCut` — a text that is cut into tokens at a place.

## Main statements

* `alike_tokensFrom` — the tokens of the same bytes further on.
* `exists_cut` — where a token starts a text is cut.
-/
namespace SubnetRegistry.Json

/-! ## Tokens -/

namespace Token

/-- The kinds of token that a byte can start. -/
theorem first_cases (b : UInt8) :
    (∃ l, (∀ start rest, first start b rest = ⟨start, start + 1, l⟩) ∧
      ∀ start stop, Token.isLast ⟨start, stop, l⟩ = false) ∨
    (∃ w due, ∀ start rest, first start b rest = ofWord start w due rest (start + 1)) ∨
    (∀ start rest, first start b rest = ofText start rest) ∨
    (∀ start rest, first start b rest = ofNumeral start (b :: rest)) ∨
    ∀ start rest, first start b rest =
      ⟨start, start + 1, .broken (.at .valueExpected (start + 1)) (.at .valueExpected (start + 1))⟩ := by
  by_cases hnumeral : b = 45 ∨ isDigit b = true
  · exact .inr (.inr (.inr (.inl fun start rest => first_of_numeral hnumeral start rest)))
  by_cases hbyte : b ∈ [123, 125, 91, 93, 44, 58, 110, 116, 102, 34]
  · simp only [List.mem_cons, List.not_mem_nil, or_false] at hbyte
    rcases hbyte with rfl | rfl | rfl | rfl | rfl | rfl | rfl | rfl | rfl | rfl
    iterate 6 exact .inl ⟨_, fun _ _ => rfl, fun _ _ => rfl⟩
    iterate 3 exact .inr (.inl ⟨_, _, fun _ _ => rfl⟩)
    exact .inr (.inr (.inl fun _ _ => rfl))
  · refine .inr (.inr (.inr (.inr fun start rest => ?_)))
    simp only [List.mem_cons, List.not_mem_nil, or_false, not_or] at hbyte hnumeral
    simp only [first, beq_iff_eq, hbyte, hnumeral, Bool.or_eq_true, or_self, Bool.false_eq_true, if_false]

/-- How little a token depends on what is around it. One after which nothing is looked at is of the same
kind at every place. Any other is made of its own bytes, and a number also of the one after them. -/
def Steady (make : Nat → List UInt8 → Token) (bytes : List UInt8) (start : Nat) : Prop :=
  ∃ stop l, make start bytes = ⟨start, stop, l⟩ ∧
    (isLast ⟨start, stop, l⟩ = true ∧
        (∀ start', ∃ stop' l', make start' bytes = ⟨start', stop', l'⟩ ∧ l.Alike l') ∨
      isLast ⟨start, stop, l⟩ = false ∧
        ∃ body rest, bytes = body ++ rest ∧ stop = start + 1 + body.length ∧
          ∀ start' rest', ((∃ read, l = .number read) → rest'.head? = rest.head?) →
            ∃ l', make start' (body ++ rest') = ⟨start', start' + 1 + body.length, l'⟩ ∧ l.Alike l')

variable {start : Nat} {bytes : List UInt8}

theorem steady_ofWord (w : Word) (due : List UInt8) :
    Steady (fun start rest => ofWord start w due rest (start + 1)) bytes start := by
  have hcases (due bytes : List UInt8) :
      (∃ rest, bytes = due ++ rest ∧ ∀ start offset rest',
        ofWord start w due (due ++ rest') offset = ⟨start, offset + due.length, .word w⟩) ∨
      ∀ start offset, ∃ stop fault,
        ofWord start w due bytes offset = ⟨start, stop, .broken fault fault⟩ := by
    induction due generalizing bytes with
    | nil => exact .inl ⟨bytes, rfl, fun _ _ _ => rfl⟩
    | cons c due ih =>
      cases bytes with
      | nil => exact .inr fun start offset => ⟨_, _, rfl⟩
      | cons b bytes =>
        by_cases hb : (b == c) = true
        · obtain rfl := eq_of_beq hb
          rcases ih bytes with ⟨rest, rfl, hword⟩ | hbroken
          · refine .inl ⟨rest, rfl, fun start offset rest' => ?_⟩
            rw [List.cons_append, ofWord, if_pos hb, hword, List.length_cons, Nat.add_assoc,
              Nat.add_comm 1]
          · refine .inr fun start offset => ?_
            rw [ofWord, if_pos hb]
            exact hbroken start (offset + 1)
        · exact .inr fun start offset => ⟨_, _, by rw [ofWord, if_neg hb]⟩
  rcases hcases due bytes with ⟨rest, rfl, hword⟩ | hbroken
  · exact ⟨_, _, hword _ _ _, .inr ⟨rfl, due, rest, rfl, rfl, fun start' rest' _ =>
      ⟨_, hword _ _ _, .word w⟩⟩⟩
  · obtain ⟨stop, fault, h⟩ := hbroken start (start + 1)
    refine ⟨_, _, h, .inl ⟨rfl, fun start' => ?_⟩⟩
    obtain ⟨stop', fault', h'⟩ := hbroken start' (start' + 1)
    exact ⟨stop', _, h', .broken ..⟩

def readNumeral (start : Nat) (n : Numeral) : Except Fault Number :=
  match n.value with
  | .ok number => .ok number
  | .error length => .error (.at .numberOutOfRange (start + length))

theorem again_readNumeral (start start' : Nat) (n : Numeral) :
    Again (readNumeral start n) (readNumeral start' n) := by
  unfold readNumeral
  cases n.value with
  | ok number => exact .refl _
  | error length => exact again_error _

theorem ofNumeral_of_scan {n : Numeral} (h : Numeral.scan bytes = .ok n) (start : Nat) :
    ofNumeral start bytes = ⟨start, start + n.length, .number (readNumeral start n)⟩ := by
  rw [ofNumeral, h]
  rfl

theorem steady_ofNumeral (b : UInt8) :
    Steady (fun start rest => ofNumeral start (b :: rest)) bytes start := by
  cases hscan : Numeral.scan (b :: bytes) with
  | error fault =>
    have hbroken (start : Nat) : ∃ stop read skip,
        ofNumeral start (b :: bytes) = ⟨start, stop, .broken read skip⟩ := by
      rw [ofNumeral, hscan]
      cases fault <;> exact ⟨_, _, _, rfl⟩
    obtain ⟨stop, read, skip, h⟩ := hbroken start
    refine ⟨_, _, h, .inl ⟨rfl, fun start' => ?_⟩⟩
    obtain ⟨stop', read', skip', h'⟩ := hbroken start'
    exact ⟨stop', _, h', .broken ..⟩
  | ok n =>
    obtain ⟨body, rest, rfl, hlength, -, hlocal⟩ := Numeral.ends_scan hscan
    refine ⟨_, _, ofNumeral_of_scan hscan start, .inr ⟨rfl, body, rest, rfl, ?_, fun start' rest' h => ?_⟩⟩
    · rw [hlength, Nat.add_assoc]
    · have hscan' := hlocal rest' (h ⟨_, rfl⟩)
      refine ⟨_, ?_, .number (again_readNumeral start start' n)⟩
      show ofNumeral start' (b :: (body ++ rest')) = _
      rw [ofNumeral_of_scan hscan', hlength, Nat.add_assoc]

theorem steady_ofText : Steady ofText bytes start := by
  cases hskip : Quoted.skip bytes (start + 1) with
  | error fault =>
    have hfails (start' : Nat) : ∃ read fault',
        ofText start' bytes = ⟨start', start' + 1, .text (.error read) (.error fault')⟩ := by
      have hskip' : ∃ fault', Quoted.skip bytes (start' + 1) = .error fault' := by
        cases h : Quoted.skip bytes (start' + 1) with
        | error fault' => exact ⟨fault', rfl⟩
        | ok stop =>
          obtain ⟨body, rest, rfl, hbody, -⟩ := Quoted.closes_of_skip h
          rw [hbody.skip_quote] at hskip
          cases hskip
      obtain ⟨fault', hskip'⟩ := hskip'
      cases hread : Quoted.read bytes (start' + 1) with
      | error read =>
        refine ⟨read, fault', ?_⟩
        rw [ofText, hskip', hread]
        rfl
      | ok r =>
        obtain ⟨body, rest, rfl, ⟨hbody, -⟩, -⟩ := Quoted.closes_of_read hread
        rw [hbody.skip_quote] at hskip'
        cases hskip'
    obtain ⟨read, fault', h⟩ := hfails start
    refine ⟨_, _, h, .inl ⟨rfl, fun start' => ?_⟩⟩
    obtain ⟨read', fault'', h'⟩ := hfails start'
    exact ⟨_, _, h', .unended _ _ (again_error _)⟩
  | ok stop =>
    obtain ⟨body, rest, rfl, hbody, rfl⟩ := Quoted.closes_of_skip hskip
    have htext (start' : Nat) (rest' : List UInt8) : ofText start' (body ++ 34 :: rest') =
        ⟨start', start' + 1 + (body ++ [34]).length,
          .text ((Quoted.read (body ++ 34 :: rest') (start' + 1)).map (·.1)) (.ok ())⟩ := by
      rw [ofText, hbody.skip_quote, List.length_append, List.length_singleton, Nat.add_assoc _ body.length]
    refine ⟨_, _, htext start rest, .inr ⟨rfl, body ++ [34], rest, by simp, rfl, fun start' rest' _ => ?_⟩⟩
    refine ⟨_, by rw [List.append_assoc]; exact htext start' rest', .text fun s hs => ?_⟩
    obtain ⟨⟨s', stop⟩, hread, rfl⟩ := exists_of_map_eq_ok hs
    obtain ⟨body', rest'', heq, ⟨hbody', hlocal⟩, -⟩ := Quoted.closes_of_read hread
    obtain rfl := hbody.eq_of_append hbody' heq
    rw [hlocal]
    rfl

theorem steady_first (b : UInt8) (bytes : List UInt8) (start : Nat) :
    Steady (fun start rest => first start b rest) bytes start := by
  rcases first_cases b with ⟨l, h, hlast⟩ | ⟨w, due, h⟩ | h | h | h
  · exact ⟨_, l, h start bytes, .inr ⟨hlast _ _, [], bytes, rfl, rfl, fun start' rest' _ =>
      ⟨l, h start' rest', .refl l⟩⟩⟩
  · simp only [h]
    exact steady_ofWord w due
  · simp only [h]
    exact steady_ofText
  · simp only [h]
    exact steady_ofNumeral b
  · exact ⟨_, _, h start bytes, .inl ⟨rfl, fun start' => ⟨_, _, h start' bytes, .broken ..⟩⟩⟩

end Token

/-! ## Sequences of tokens -/

theorem Lexeme.Alike.isLast {l l' : Lexeme} (h : l.Alike l') (start stop start' stop' : Nat) :
    Token.isLast ⟨start, stop, l⟩ = Token.isLast ⟨start', stop', l'⟩ := by
  cases h <;> rfl

/-- A byte that is no space starts a token, which is the last one or is made of the next bytes. -/
theorem tokensFrom_cases {b : UInt8} (hspace : isSpace b = false) (bytes : List UInt8) (offset : Nat) :
    (∃ stop l, tokensFrom offset 0 (b :: bytes) = [⟨offset, stop, l⟩] ∧
      ∀ offset', ∃ stop' l', tokensFrom offset' 0 (b :: bytes) = [⟨offset', stop', l'⟩] ∧ l.Alike l') ∨
    ∃ body rest l, bytes = body ++ rest ∧
      tokensFrom offset 0 (b :: bytes) = ⟨offset, offset + 1 + body.length, l⟩ ::
        tokensFrom (offset + 1 + body.length) 0 rest ∧
      ∀ offset' rest', ((∃ read, l = .number read) → rest'.head? = rest.head?) →
        ∃ l', tokensFrom offset' 0 (b :: (body ++ rest')) = ⟨offset', offset' + 1 + body.length, l'⟩ ::
          tokensFrom (offset' + 1 + body.length) 0 rest' ∧ l.Alike l' := by
  have hlasts {bytes : List UInt8} {offset stop : Nat} {l : Lexeme}
      (h : Token.first offset b bytes = ⟨offset, stop, l⟩)
      (hlast : Token.isLast ⟨offset, stop, l⟩ = true) :
      tokensFrom offset 0 (b :: bytes) = [⟨offset, stop, l⟩] := by
    simp only [tokensFrom, hspace, h, hlast, Bool.false_eq_true, if_false, if_true]
  have hgoes {body rest : List UInt8} {offset : Nat} {l : Lexeme}
      (h : Token.first offset b (body ++ rest) = ⟨offset, offset + 1 + body.length, l⟩)
      (hlast : Token.isLast ⟨offset, offset + 1 + body.length, l⟩ = false) :
      tokensFrom offset 0 (b :: (body ++ rest)) = ⟨offset, offset + 1 + body.length, l⟩ ::
        tokensFrom (offset + 1 + body.length) 0 rest := by
    have hpending : offset + 1 + body.length - offset - 1 = body.length := by omega
    simp only [tokensFrom, hspace, h, hlast, Bool.false_eq_true, if_false, hpending,
      tokensFrom_pending]
  obtain ⟨stop, l, hfirst, ⟨hlast, halike⟩ | ⟨hlast, body, rest, rfl, rfl, halike⟩⟩ :=
    Token.steady_first b bytes offset
  · refine .inl ⟨stop, l, hlasts hfirst hlast, fun offset' => ?_⟩
    obtain ⟨stop', l', hfirst', hl⟩ := halike offset'
    exact ⟨stop', l', hlasts hfirst' (hl.isLast _ _ _ _ ▸ hlast), hl⟩
  · refine .inr ⟨body, rest, l, rfl, hgoes hfirst hlast, fun offset' rest' hhead => ?_⟩
    obtain ⟨l', hfirst', hl⟩ := halike offset' rest' hhead
    exact ⟨l', hgoes hfirst' (hl.isLast _ _ _ _ ▸ hlast), hl⟩

theorem length_lt_cons_append (b : UInt8) (body rest : List UInt8) :
    rest.length < (b :: (body ++ rest)).length := by
  rw [List.length_cons, List.length_append]
  omega

variable {w : Swap} {offset : Nat}

theorem le_start_of_mem_tokensFrom {bytes : List UInt8} {t : Token}
    (h : t ∈ tokensFrom offset 0 bytes) : offset ≤ t.start := by
  induction hlength : bytes.length using Nat.strong_induction_on generalizing bytes offset with
  | h length ih =>
    cases bytes with
    | nil => cases h
    | cons b bytes =>
      subst hlength
      cases hspace : isSpace b with
      | true =>
        rw [tokensFrom, if_pos hspace] at h
        exact Nat.le_of_succ_le (ih _ (Nat.lt_succ_self _) h rfl)
      | false =>
        rcases tokensFrom_cases hspace bytes offset with
          ⟨stop, l, htokens, -⟩ | ⟨body, rest, l, rfl, htokens, -⟩
        · rw [htokens, List.mem_singleton] at h
          rw [h]
        · rw [htokens, List.mem_cons] at h
          rcases h with rfl | h
          · exact Nat.le_refl _
          · have hle := ih rest.length (length_lt_cons_append b body rest) h rfl
            omega

/-- The same bytes further on. -/
theorem alike_tokensFrom (bytes : List UInt8) (offset' : Nat) (hplace : w.place < offset) :
    Token.AlikeAll w 0 (tokensFrom offset 0 bytes) (tokensFrom offset' 0 bytes) := by
  induction hlength : bytes.length using Nat.strong_induction_on generalizing bytes offset offset' with
  | h length ih =>
    cases bytes with
    | nil => exact .nil
    | cons b bytes =>
      subst hlength
      cases hspace : isSpace b with
      | true =>
        rw [tokensFrom, if_pos hspace, tokensFrom, if_pos hspace]
        exact ih _ (Nat.lt_succ_self _) bytes (offset' + 1) (by omega) rfl
      | false =>
        have hne : offset ≠ w.place := by omega
        rcases tokensFrom_cases hspace bytes offset with
          ⟨stop, l, htokens, halike⟩ | ⟨body, rest, l, rfl, htokens, halike⟩
        · obtain ⟨stop', l', htokens', hl⟩ := halike offset'
          rw [htokens, htokens']
          exact .cons (.same (fun _ _ => hne) hl) .nil rfl
        · obtain ⟨l', htokens', hl⟩ := halike offset' rest fun _ => rfl
          rw [htokens, htokens']
          have hshorter := length_lt_cons_append b body rest
          exact .cons (.same (fun _ _ => hne) hl) (ih rest.length hshorter rest _ (by omega) rfl) rfl

/-- The tokens of a text before a place: what stands there is cut into tokens of its own, and these do
not depend on it, unless the last of them is a number. -/
structure IsCut (w : Swap) (offset : Nat) (before rest : List UInt8) (ts : List Token) : Prop where
  tokens : tokensFrom offset 0 (before ++ rest) = ts ++ tokensFrom w.place 0 rest
  apart : ∀ t ∈ ts, t.start ≠ w.place
  steady : (∃ ts' t read, ts = ts' ++ [t] ∧ t.lexeme = .number read) ∨
    ∀ rest', ∃ ts', tokensFrom offset 0 (before ++ rest') = ts' ++ tokensFrom w.place 0 rest' ∧
      Token.AlikeAll w 0 ts ts'

namespace IsCut

variable {before rest : List UInt8} {ts : List Token} {b : UInt8}

theorem nil (hplace : w.place = offset) : IsCut w offset [] rest [] := by
  subst hplace
  exact ⟨rfl, List.forall_mem_nil _, .inr fun _ => ⟨[], rfl, .nil⟩⟩

theorem space (hspace : isSpace b = true) (h : IsCut w (offset + 1) before rest ts) :
    IsCut w offset (b :: before) rest ts := by
  have hskip (rest' : List UInt8) : tokensFrom offset 0 (b :: before ++ rest') =
      tokensFrom (offset + 1) 0 (before ++ rest') := by
    rw [List.cons_append, tokensFrom, if_pos hspace]
  refine ⟨(hskip rest).trans h.tokens, h.apart, h.steady.imp_right fun hcut rest' => ?_⟩
  rw [hskip]
  exact hcut rest'

/-- A token in front of a text that is cut. It may depend on the byte after it if it is a number, and so
on what stands at the place if nothing is between. -/
theorem token {body : List UInt8} {l : Lexeme} (hne : offset ≠ w.place)
    (hplace : w.place = offset + 1 + body.length + before.length)
    (htokens : tokensFrom offset 0 (b :: (body ++ (before ++ rest))) =
      ⟨offset, offset + 1 + body.length, l⟩ :: tokensFrom (offset + 1 + body.length) 0 (before ++ rest))
    (halike : ∀ rest', ((∃ read, l = .number read) → rest'.head? = (before ++ rest).head?) →
      ∃ l', tokensFrom offset 0 (b :: (body ++ rest')) = ⟨offset, offset + 1 + body.length, l'⟩ ::
        tokensFrom (offset + 1 + body.length) 0 rest' ∧ l.Alike l')
    (h : IsCut w (offset + 1 + body.length) before rest ts) :
    IsCut w offset (b :: (body ++ before)) rest (⟨offset, offset + 1 + body.length, l⟩ :: ts) where
  tokens := by
    rw [List.cons_append, List.append_assoc, htokens, h.tokens, List.cons_append]
  apart := List.forall_mem_cons.2 ⟨hne, h.apart⟩
  steady := by
    rcases h.steady with ⟨ts', t, read, rfl, hread⟩ | hcut
    · exact .inl ⟨_ :: ts', t, read, rfl, hread⟩
    by_cases hlast : (∃ read, l = .number read) ∧ before = []
    · obtain ⟨⟨read, rfl⟩, rfl⟩ := hlast
      have hts := h.tokens
      rw [List.length_nil, Nat.add_zero] at hplace
      rw [← hplace, List.nil_append, List.self_eq_append_left] at hts
      exact .inl ⟨[], _, read, by rw [hts, List.nil_append], rfl⟩
    · refine .inr fun rest' => ?_
      obtain ⟨l', htokens', hl⟩ := halike (before ++ rest') fun hread => by
        rw [List.head?_append_of_ne_nil _ (not_and.1 hlast hread),
          List.head?_append_of_ne_nil _ (not_and.1 hlast hread)]
      obtain ⟨ts', hts', halike'⟩ := hcut rest'
      refine ⟨⟨offset, offset + 1 + body.length, l'⟩ :: ts', ?_,
        .cons (.same (fun _ _ => hne) hl) halike' rfl⟩
      rw [List.cons_append, List.append_assoc, htokens', hts', List.cons_append]

end IsCut

/-- A text is cut at the place where one of its tokens starts. -/
theorem exists_cut {before rest : List UInt8} (hplace : w.place = offset + before.length)
    (h : ∃ t ∈ tokensFrom offset 0 (before ++ rest), t.start = w.place) :
    ∃ ts, IsCut w offset before rest ts := by
  induction hlength : before.length using Nat.strong_induction_on generalizing before offset with
  | h length ih =>
    subst hlength
    cases before with
    | nil => exact ⟨[], .nil hplace⟩
    | cons b before =>
      rw [List.length_cons] at hplace
      rw [List.cons_append] at h
      cases hspace : isSpace b with
      | true =>
        rw [tokensFrom, if_pos hspace] at h
        obtain ⟨ts, hcut⟩ := ih _ (Nat.lt_succ_self _) (by omega) h rfl
        exact ⟨ts, hcut.space hspace⟩
      | false =>
        obtain ⟨t, ht, hstart⟩ := h
        have hne : offset ≠ w.place := by omega
        rcases tokensFrom_cases hspace (before ++ rest) offset with
          ⟨stop, l, htokens, -⟩ | ⟨body, after, l, hbytes, htokens, halike⟩
        · rw [htokens, List.mem_singleton] at ht
          subst ht
          exact absurd hstart hne
        · rw [htokens] at ht
          rcases List.mem_cons.1 ht with rfl | ht
          · exact absurd hstart hne
          have hle := le_start_of_mem_tokensFrom ht
          -- The token at the place is a later one, so this one ends before it.
          obtain ⟨before', rfl⟩ : body <+: before := by
            have hprefix : body <+: before ++ rest := ⟨after, hbytes.symm⟩
            exact List.prefix_of_prefix_length_le hprefix (List.prefix_append _ _) (by omega)
          rw [List.append_assoc] at hbytes htokens
          obtain rfl : after = before' ++ rest := (List.append_cancel_left hbytes).symm
          rw [List.length_append] at hplace
          obtain ⟨ts, hcut⟩ := ih before'.length (length_lt_cons_append b body before') (by omega)
            ⟨t, ht, hstart⟩ rfl
          exact ⟨_, hcut.token hne (by omega) htokens (halike offset)⟩

end SubnetRegistry.Json
