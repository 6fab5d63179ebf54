import SubnetRegistry.Json.Number
import SubnetRegistry.Proofs.Except
import SubnetRegistry.Proofs.Json.Quoted

/-!
# Where texts and numbers end

A text that is passed over or read ends with the first closing quote, and nothing after it is looked at.
A numeral ends before a byte that is no digit, and of what follows it only that byte is looked at.

## Main definitions

* `Quoted.Passes`, `Quoted.Closes` — bytes between quotes, and bytes up to a closing quote.
* `Numeral.Ends` — bytes up to the end of a numeral.

## Main statements

* `Quoted.closes_of_skip`, `Quoted.closes_of_read` — a text goes up to the first closing quote.
* `Numeral.ends_scan` — a numeral is scanned wherever the same byte comes after it.
-/
namespace SubnetRegistry.Json

/-! ## Texts -/

namespace Quoted

variable {bytes content : List UInt8} {offset stop : Nat}

/-- Bytes between quotes that are passed over. -/
def Passes (bytes : List UInt8) : Prop :=
  ∀ rest offset, skip (bytes ++ rest) offset = skip rest (offset + bytes.length)

theorem Passes.append {bytes bytes' : List UInt8} (h : Passes bytes) (h' : Passes bytes') :
    Passes (bytes ++ bytes') := by
  intro rest offset
  rw [List.append_assoc, h, h', List.length_append, Nat.add_assoc]

theorem Reads.passes (h : Reads bytes content) : Passes bytes := fun rest offset => (h rest offset).1

theorem Passes.unit {a b c d : UInt8} (h : (hexUnit a b c d).isSome = true) :
    Passes [92, 117, a, b, c, d] := by
  intro rest offset
  show skip (92 :: 117 :: a :: b :: c :: d :: rest) offset = _
  rw [skip.eq_3, if_pos h]
  rfl

def Closes (inner : List UInt8 → Prop) (bytes : List UInt8) (offset stop : Nat) : Prop :=
  ∃ body rest, bytes = body ++ 34 :: rest ∧ inner body ∧ stop = offset + body.length + 1

theorem Closes.append {inner inner' : List UInt8 → Prop} (piece : List UInt8)
    (h : Closes inner bytes (offset + piece.length) stop)
    (hinner : ∀ body, inner body → inner' (piece ++ body)) :
    Closes inner' (piece ++ bytes) offset stop := by
  obtain ⟨body, rest, rfl, hbody, rfl⟩ := h
  refine ⟨piece ++ body, rest, (List.append_assoc _ _ _).symm, hinner body hbody, ?_⟩
  rw [List.length_append]
  omega

theorem isPlain_of_not_lt {b : UInt8} (hquote : b ≠ 34) (hbackslash : b ≠ 92) (h : ¬ b < 32) :
    IsPlain b := by
  refine ⟨?_, hquote, hbackslash⟩
  have hle : ¬ b.toNat < 32 := fun hlt => h (UInt8.lt_iff_toNat_lt.2 hlt)
  omega

/-- A text that is passed over goes up to the first closing quote. -/
theorem closes_of_skip (h : skip bytes offset = .ok stop) : Closes Passes bytes offset stop := by
  fun_induction skip bytes offset with
  | case1 | case4 | case5 | case7 | case8 | case9 => cases h
  | case2 tail offset =>
    cases h
    exact ⟨[], tail, rfl, Reads.nil.passes, rfl⟩
  | case3 a b c d rest offset hunit ih =>
    exact (ih h).append [92, 117, a, b, c, d] fun _ => (Passes.unit hunit).append
  | case6 letter rest offset _ _ hletter ih =>
    obtain ⟨byte, hbyte⟩ := Option.isSome_iff_exists.1 hletter
    exact (ih h).append [92, letter] fun _ => (Reads.letter hbyte).passes.append
  | case10 b rest offset hquote _ _ hletter hlast hb ih =>
    have hbackslash : b ≠ 92 := by
      rintro rfl
      cases rest with
      | nil => exact hlast rfl rfl
      | cons letter rest => exact hletter letter rest rfl rfl
    exact (ih h).append [b] fun _ =>
      (Reads.plain (isPlain_of_not_lt hquote hbackslash hb)).passes.append

/-- A text that is read goes up to the first closing quote. -/
theorem closes_of_unescape (h : unescape bytes offset = .ok (content, stop)) :
    Closes (Reads · content) bytes offset stop := by
  fun_induction unescape bytes offset generalizing content with
  | case1 | case3 | case4 | case6 | case8 | case9 | case10 | case12 | case13 | case14 => cases h
  | case2 tail offset =>
    cases h
    exact ⟨[], tail, rfl, .nil, rfl⟩
  | case5 a b c d rest offset n hunit htrailing hleading ih =>
    obtain ⟨⟨content, stop⟩, hrest, h⟩ := exists_of_bind_eq_ok h
    cases h
    exact (ih hrest).append [92, 117, a, b, c, d] fun _ =>
      (Reads.unit hunit (Bool.eq_false_iff.2 htrailing) (by simpa using hleading)).append
  | case7 a b c d offset n hunit htrailing hleading a' b' c' d' rest m hsecond hpair ih =>
    obtain ⟨⟨content, stop⟩, hrest, h⟩ := exists_of_bind_eq_ok h
    obtain ⟨rfl, rfl⟩ := Prod.mk.inj (Except.ok.inj h)
    have hreads := Reads.pair hunit hsecond (Bool.eq_false_iff.2 htrailing) (by simpa using hleading)
      hpair
    exact (ih hrest).append [92, 117, a, b, c, d, 92, 117, a', b', c', d'] fun _ => hreads.append
  | case11 letter rest offset _ _ byte hletter ih =>
    obtain ⟨⟨content, stop⟩, hrest, h⟩ := exists_of_bind_eq_ok h
    cases h
    exact (ih hrest).append [92, letter] fun _ => (Reads.letter hletter).append
  | case15 b rest offset hquote _ _ hletter hlast hb ih =>
    have hbackslash : b ≠ 92 := by
      rintro rfl
      cases rest with
      | nil => exact hlast rfl rfl
      | cons letter rest => exact hletter letter rest rfl rfl
    obtain ⟨⟨content, stop⟩, hrest, h⟩ := exists_of_bind_eq_ok h
    cases h
    exact (ih hrest).append [b] fun _ =>
      (Reads.plain (isPlain_of_not_lt hquote hbackslash hb)).append

theorem Passes.skip_quote (h : Passes bytes) (rest : List UInt8) (offset : Nat) :
    skip (bytes ++ 34 :: rest) offset = .ok (offset + bytes.length + 1) := by
  rw [h]
  rfl

/-- A text that is read is passed over, and it is read wherever its bytes stand. -/
theorem closes_of_read {s : String} (h : read bytes offset = .ok (s, stop)) :
    Closes (fun body => Passes body ∧
      ∀ rest offset, read (body ++ 34 :: rest) offset = .ok (s, offset + body.length + 1))
      bytes offset stop := by
  obtain ⟨⟨content, stop⟩, hunescape, h⟩ := exists_of_bind_eq_ok h
  obtain ⟨body, rest, rfl, hreads, rfl⟩ := closes_of_unescape hunescape
  cases hutf : String.fromUTF8? content.toByteArray with
  | none =>
    simp only [hutf] at h
    cases h
  | some s' =>
    simp only [hutf] at h
    obtain ⟨rfl, rfl⟩ := Prod.mk.inj (Except.ok.inj h)
    refine ⟨body, rest, rfl, ⟨hreads.passes, fun rest' offset' => ?_⟩, rfl⟩
    have hend : unescape (body ++ 34 :: rest') offset' = .ok (content, offset' + body.length + 1) := by
      rw [(hreads _ _).2, unescape.eq_2]
      show Except.ok (content ++ [], _) = _
      rw [List.append_nil]
    rw [read, hend, bind_of_eq_ok rfl]
    simp only [hutf]
    rfl

/-- Two bodies before a closing quote that are passed over are one. -/
theorem Passes.eq_of_append {body body' rest rest' : List UInt8} (h : Passes body) (h' : Passes body')
    (heq : body ++ 34 :: rest = body' ++ 34 :: rest') : body = body' := by
  have hskip := h.skip_quote rest 0
  rw [heq, h'.skip_quote rest' 0] at hskip
  have hlength : body.length = body'.length := by
    have := Except.ok.inj hskip
    omega
  exact List.append_inj_left heq hlength

end Quoted

/-! ## Numbers -/

theorem exists_of_spanDigits {bytes rest : List UInt8} {digits : List Nat}
    (h : spanDigits bytes = (digits, rest)) :
    ∃ body, bytes = body ++ rest ∧ body.length = digits.length ∧ (∀ b ∈ body, isDigit b = true) ∧
      (∀ b ∈ rest.head?, isDigit b = false) ∧
      ∀ rest', (∀ b ∈ rest'.head?, isDigit b = false) → spanDigits (body ++ rest') = (digits, rest') := by
  have hstop {rest' : List UInt8} (hrest : ∀ b ∈ rest'.head?, isDigit b = false) :
      spanDigits rest' = ([], rest') := by
    cases rest' with
    | nil => rfl
    | cons b rest' => rw [spanDigits, if_neg (by simp [hrest b rfl])]
  induction bytes generalizing digits with
  | nil =>
    cases h
    exact ⟨[], rfl, rfl, nofun, nofun, fun rest' => hstop⟩
  | cons b bytes ih =>
    by_cases hb : isDigit b = true
    · rw [spanDigits, if_pos hb] at h
      obtain ⟨rfl, rfl⟩ := Prod.mk.inj h
      obtain ⟨body, hbytes, hlength, hbody, hrest, hspan⟩ := ih rfl
      refine ⟨b :: body, congrArg (b :: ·) hbytes, congrArg (· + 1) hlength,
        List.forall_mem_cons.2 ⟨hb, hbody⟩, hrest, fun rest' hrest' => ?_⟩
      rw [List.cons_append, spanDigits, if_pos hb, hspan rest' hrest']
    · rw [spanDigits, if_neg hb] at h
      obtain ⟨rfl, rfl⟩ := Prod.mk.inj h
      refine ⟨[], rfl, rfl, nofun, ?_, fun rest' => hstop⟩
      rintro c ⟨⟩
      exact Bool.eq_false_iff.2 hb

namespace Numeral

variable {negative : Bool} {whole : List Nat} {fraction : Option (List Nat)} {used : Nat}
  {bytes : List UInt8} {n : Numeral}

/-- A numeral is scanned that is followed by no digit. The byte after it is all that is looked at of what
follows. -/
def Ends (scan : List UInt8 → Except Break Numeral) (used : Nat) (bytes : List UInt8) (n : Numeral) :
    Prop :=
  ∃ body rest, bytes = body ++ rest ∧ n.length = used + body.length ∧
    (∀ b ∈ rest.head?, isDigit b = false) ∧
    ∀ rest', rest'.head? = rest.head? → scan (body ++ rest') = .ok n

/-- Bytes before a numeral that is scanned from the next ones on. -/
theorem Ends.append {scan scan' : List UInt8 → Except Break Numeral} (piece : List UInt8)
    (h : Ends scan (used + piece.length) bytes n)
    (hscan : ∀ bytes', bytes'.head? = bytes.head? → scan bytes' = .ok n →
      scan' (piece ++ bytes') = .ok n) :
    Ends scan' used (piece ++ bytes) n := by
  obtain ⟨body, rest, rfl, hlength, hrest, hlocal⟩ := h
  refine ⟨piece ++ body, rest, (List.append_assoc _ _ _).symm, ?_, hrest, fun rest' hhead => ?_⟩
  · rw [hlength, List.length_append]
    omega
  · rw [List.append_assoc]
    refine hscan _ ?_ (hlocal rest' hhead)
    rw [List.head?_append, List.head?_append, hhead]

theorem ends_nil {scan : List UInt8 → Except Break Numeral} (hlength : n.length = used)
    (hbytes : ∀ b ∈ bytes.head?, isDigit b = false)
    (hscan : ∀ bytes', bytes'.head? = bytes.head? → scan bytes' = .ok n) : Ends scan used bytes n :=
  ⟨[], bytes, rfl, hlength, hbytes, hscan⟩

theorem cons_of_head? {b : UInt8} {bytes rest : List UInt8} (h : bytes.head? = (b :: rest).head?) :
    ∃ rest', bytes = b :: rest' := by
  cases bytes with
  | nil => cases h
  | cons c bytes =>
    cases h
    exact ⟨bytes, rfl⟩

def scanDigits (negative : Bool) (whole : List Nat) (fraction : Option (List Nat)) (minus : Bool)
    (used : Nat) (bytes : List UInt8) : Except Break Numeral :=
  match spanDigits bytes with
  | ([], []) => throw (.atEnd used)
  | ([], _ :: _) => throw (.after (used + 1))
  | (digits, _) => return ⟨negative, whole, fraction, some ⟨minus, digits, used⟩, used + digits.length⟩

theorem ends_scanDigits {minus : Bool}
    (h : scanDigits negative whole fraction minus used bytes = .ok n) :
    Ends (scanDigits negative whole fraction minus used) used bytes n ∧
      ∃ b rest, bytes = b :: rest ∧ isDigit b = true := by
  unfold scanDigits at h
  split at h
  · cases h
  · cases h
  · next digits rest hend hbyte hspan =>
    obtain ⟨body, rfl, hlength, hbody, hrest, hlocal⟩ := exists_of_spanDigits hspan
    obtain ⟨d, digits, rfl⟩ : ∃ d ds, digits = d :: ds := by
      cases digits with
      | cons d digits => exact ⟨d, digits, rfl⟩
      | nil =>
        cases rest with
        | nil => exact absurd rfl (hend rfl)
        | cons b rest => exact absurd rfl (hbyte b rest rfl)
    obtain ⟨b, body, rfl⟩ := List.exists_cons_of_length_eq_add_one hlength
    cases h
    refine ⟨⟨b :: body, rest, rfl, by rw [hlength], hrest, fun rest' hhead => ?_⟩,
      b, body ++ rest, rfl, hbody b List.mem_cons_self⟩
    rw [scanDigits, hlocal rest' (hhead ▸ hrest)]
    rfl

theorem scanExponent_of_ne (hplus : ∀ rest, bytes ≠ 43 :: rest) (hminus : ∀ rest, bytes ≠ 45 :: rest) :
    scanExponent negative whole fraction used bytes =
      scanDigits negative whole fraction false used bytes := by
  unfold scanExponent scanDigits
  split
  next minus used' bytes' hmatch =>
  split at hmatch
  · next rest => exact absurd rfl (hplus rest)
  · next rest => exact absurd rfl (hminus rest)
  · cases hmatch
    rfl

theorem ends_scanExponent (h : scanExponent negative whole fraction used bytes = .ok n) :
    Ends (scanExponent negative whole fraction used) used bytes n := by
  by_cases hplus : ∃ rest, bytes = 43 :: rest
  · obtain ⟨rest, rfl⟩ := hplus
    have hdigits : scanDigits negative whole fraction false (used + 1) rest = .ok n := h
    exact (ends_scanDigits hdigits).1.append [43] fun _ _ hscan => hscan
  · by_cases hminus : ∃ rest, bytes = 45 :: rest
    · obtain ⟨rest, rfl⟩ := hminus
      have hdigits : scanDigits negative whole fraction true (used + 1) rest = .ok n := h
      exact (ends_scanDigits hdigits).1.append [45] fun _ _ hscan => hscan
    · rw [scanExponent_of_ne (not_exists.1 hplus) (not_exists.1 hminus)] at h
      obtain ⟨hends, b, rest, rfl, hb⟩ := ends_scanDigits h
      refine hends.append [] fun bytes' hhead hscan => ?_
      obtain ⟨rest', rfl⟩ := cons_of_head? hhead
      rw [List.nil_append, scanExponent_of_ne]
      · exact hscan
      · rintro rest ⟨⟩
        cases hb
      · rintro rest ⟨⟩
        cases hb

/-- Reads what follows the digits after the point. -/
def scanMark (negative : Bool) (whole fraction : List Nat) (used : Nat) :
    List UInt8 → Except Break Numeral
  | b :: after =>
    if isExponentMark b then scanExponent negative whole (some fraction) (used + 1) after
    else return ⟨negative, whole, some fraction, none, used⟩
  | [] => return ⟨negative, whole, some fraction, none, used⟩

theorem scanTail_point {rest after : List UInt8} {d : Nat} {fraction : List Nat}
    (h : spanDigits rest = (d :: fraction, after)) : scanTail negative whole used (46 :: rest) =
      scanMark negative whole (d :: fraction) (used + 1 + (d :: fraction).length) after := by
  rw [scanTail, h]
  rfl

theorem ends_scanMark {digits : List Nat} (h : scanMark negative whole digits used bytes = .ok n)
    (hbytes : ∀ b ∈ bytes.head?, isDigit b = false) :
    Ends (scanMark negative whole digits used) used bytes n := by
  cases bytes with
  | nil =>
    cases h
    refine ends_nil rfl hbytes fun bytes' hhead => ?_
    rw [List.head?_eq_none_iff.1 hhead]
    rfl
  | cons b rest =>
    by_cases hmark : isExponentMark b = true
    · rw [scanMark, if_pos hmark] at h
      refine (ends_scanExponent h).append [b] fun bytes _ hscan => ?_
      rw [List.singleton_append, scanMark, if_pos hmark]
      exact hscan
    · rw [scanMark, if_neg hmark] at h
      cases h
      refine ends_nil rfl hbytes fun bytes' hhead => ?_
      obtain ⟨rest', rfl⟩ := cons_of_head? hhead
      rw [scanMark, if_neg hmark]
      rfl

theorem ends_scanTail (h : scanTail negative whole used bytes = .ok n)
    (hbytes : ∀ b ∈ bytes.head?, isDigit b = false) :
    Ends (scanTail negative whole used) used bytes n := by
  unfold scanTail at h
  split at h
  · next rest =>
    split at h
    · cases h
    · cases h
    · next digits after hend hbyte hspan =>
      obtain ⟨body, rfl, hlength, -, hafter, hlocal⟩ := exists_of_spanDigits hspan
      obtain ⟨d, digits, rfl⟩ : ∃ d ds, digits = d :: ds := by
        cases digits with
        | cons d digits => exact ⟨d, digits, rfl⟩
        | nil =>
          cases after with
          | nil => exact absurd rfl (hend rfl)
          | cons b after => exact absurd rfl (hbyte b after rfl)
      have hmark : scanMark negative whole (d :: digits) (used + 1 + (d :: digits).length) after =
        .ok n := h
      have hused : used + (46 :: body).length = used + 1 + (d :: digits).length := by
        rw [List.length_cons, hlength]
        omega
      rw [← hused] at hmark
      refine (ends_scanMark hmark hafter).append (46 :: body) fun bytes' hhead hscan => ?_
      rw [List.cons_append, scanTail_point (hlocal bytes' (hhead ▸ hafter)), ← hused]
      exact hscan
  · next b rest hpoint =>
    by_cases hmark : isExponentMark b = true
    · rw [if_pos hmark] at h
      refine (ends_scanExponent h).append [b] fun bytes _ hscan => ?_
      show scanTail negative whole used (b :: bytes) = _
      rw [scanTail.eq_2 _ _ _ _ _ hpoint, if_pos hmark]
      exact hscan
    · rw [if_neg hmark] at h
      cases h
      refine ends_nil rfl hbytes fun bytes' hhead => ?_
      obtain ⟨rest', rfl⟩ := cons_of_head? hhead
      rw [scanTail.eq_2 _ _ _ _ _ hpoint, if_neg hmark]
      rfl
  · cases h
    refine ends_nil rfl hbytes fun bytes' hhead => ?_
    rw [List.head?_eq_none_iff.1 hhead]
    rfl

theorem scanUnsigned_of_span {d : Nat} {digits : List Nat} {after : List UInt8}
    (h : spanDigits bytes = (d :: digits, after)) (hzero : d = 0 → digits = []) :
    scanUnsigned negative used bytes =
      scanTail negative (d :: digits) (used + (d :: digits).length) after := by
  rw [scanUnsigned, h]
  split
  · next heq => cases heq
  · next heq => cases heq
  · next heq =>
    cases heq
    cases hzero rfl
  · next heq =>
    cases heq
    rfl

theorem ends_scanUnsigned (h : scanUnsigned negative used bytes = .ok n) :
    Ends (scanUnsigned negative used) used bytes n ∧ ∃ b rest, bytes = b :: rest ∧ isDigit b = true := by
  cases hspan : spanDigits bytes with
  | mk digits after =>
    obtain ⟨body, rfl, hlength, hbody, hafter, hlocal⟩ := exists_of_spanDigits hspan
    unfold scanUnsigned at h
    rw [hspan] at h
    cases digits with
    | nil => cases after <;> cases h
    | cons d digits =>
      have hzero : d = 0 → digits = [] := by
        rintro rfl
        cases digits with
        | nil => rfl
        | cons e digits => cases h
      obtain ⟨b, body, rfl⟩ := List.exists_cons_of_length_eq_add_one hlength
      have htail : scanTail negative (d :: digits) (used + (b :: body).length) after = .ok n := by
        rw [hlength, ← scanUnsigned_of_span hspan hzero, scanUnsigned, hspan]
        exact h
      refine ⟨?_, b, body ++ after, rfl, hbody b List.mem_cons_self⟩
      refine (ends_scanTail htail hafter).append (b :: body) fun bytes' hhead hscan => ?_
      rw [scanUnsigned_of_span (hlocal bytes' (hhead ▸ hafter)) hzero, ← hlength]
      exact hscan

/-- A numeral that is scanned ends before a byte that is no digit, and it is scanned wherever the same
byte comes after it. -/
theorem ends_scan {b : UInt8} (h : scan (b :: bytes) = .ok n) :
    Ends (fun rest => scan (b :: rest)) 1 bytes n := by
  by_cases hminus : b = 45
  · subst hminus
    have hunsigned : scanUnsigned true 1 bytes = .ok n := h
    exact (ends_scanUnsigned hunsigned).1
  · have hne {b' : UInt8} {bytes' : List UInt8} (hb : b' = b) : ∀ rest, b' :: bytes' ≠ 45 :: rest :=
      fun rest heq => hminus (hb.symm.trans (List.cons.inj heq).1)
    rw [scan.eq_2 _ (hne rfl)] at h
    obtain ⟨⟨body, rest, hbytes, hlength, hrest, hlocal⟩, b', rest', heq, hb⟩ := ends_scanUnsigned h
    obtain ⟨rfl, rfl⟩ := List.cons.inj heq
    cases body with
    | nil =>
      rw [List.nil_append] at hbytes
      rw [hrest b (by rw [← hbytes]; rfl)] at hb
      cases hb
    | cons c body =>
      obtain ⟨rfl, rfl⟩ := List.cons.inj hbytes
      refine ⟨body, rest, rfl, by rw [hlength, List.length_cons]; omega, hrest, fun rest' hhead => ?_⟩
      show scan (b :: (body ++ rest')) = .ok n
      rw [scan.eq_2 _ (hne rfl)]
      exact hlocal rest' hhead

end Numeral

end SubnetRegistry.Json
