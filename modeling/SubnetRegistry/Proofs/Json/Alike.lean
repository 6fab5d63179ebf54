import SubnetRegistry.Json.Outline

/-!
# Texts that are alike but for one number

Two texts may have tokens of the same kinds at other places, and what is read of a token of the first is
read of that of the second; only a number at one place is another number in the second. Their trees are
alike in the same way, since a tree is built from the kinds of the tokens alone. How many parts of the
first tree are other numbers in the second is counted along.

## Main definitions

* `Swap` — the place of a number, and what is read there in the other text.
* `Token.Alike`, `Node.Alike`, `Stage.Alike` — tokens, trees and stages that are alike.

## Main statements

* `Stage.Alike.step` — a step leads from stages that are alike to such stages.
* `Stage.Alike.run` — texts whose tokens are alike have trees that are.
-/
namespace SubnetRegistry.Json

/-- What is read on the one side is read on the other. -/
def Again {α : Type} (read read' : Except Fault α) : Prop := ∀ a, read = .ok a → read' = .ok a

theorem Again.refl {α : Type} (read : Except Fault α) : Again read read := fun _ h => h

theorem again_error {α : Type} {fault : Fault} (read : Except Fault α) :
    Again (.error fault) read := nofun

/-- Whether reading goes on after the end of a container. -/
def Ending.passes : Ending → Bool
  | .closed _ | .inside => true
  | _ => false

/-- The place of a number, where it stops, and what is read in its place in the other text. -/
structure Swap where
  place : Nat
  stop : Nat
  read : Except Fault Number

/-! ## Tokens -/

inductive Lexeme.Alike : Lexeme → Lexeme → Prop
  | openBrace : Lexeme.Alike .openBrace .openBrace
  | closeBrace : Lexeme.Alike .closeBrace .closeBrace
  | openBracket : Lexeme.Alike .openBracket .openBracket
  | closeBracket : Lexeme.Alike .closeBracket .closeBracket
  | comma : Lexeme.Alike .comma .comma
  | colon : Lexeme.Alike .colon .colon
  | word (value : Word) : Lexeme.Alike (.word value) (.word value)
  | number {read read' : Except Fault Number} (h : Again read read') :
      Lexeme.Alike (.number read) (.number read')
  | text {read read' : Except Fault String} (h : Again read read') :
      Lexeme.Alike (.text read (.ok ())) (.text read' (.ok ()))
  | unended {read read' : Except Fault String} (fault fault' : Fault) (h : Again read read') :
      Lexeme.Alike (.text read (.error fault)) (.text read' (.error fault'))
  | broken (read skip read' skip' : Fault) : Lexeme.Alike (.broken read skip) (.broken read' skip')

theorem Lexeme.Alike.refl (l : Lexeme) : l.Alike l :=
  match l with
  | .openBrace => .openBrace
  | .closeBrace => .closeBrace
  | .openBracket => .openBracket
  | .closeBracket => .closeBracket
  | .comma => .comma
  | .colon => .colon
  | .word value => .word value
  | .number read => .number (.refl read)
  | .text read (.ok ()) => .text (.refl read)
  | .text read (.error fault) => .unended fault fault (.refl read)
  | .broken read skip => .broken read skip read skip

/-- Tokens that are alike, with the number of those among them that are swapped. -/
inductive Token.Alike (w : Swap) : Nat → Token → Token → Prop
  | same {t t' : Token} (hplace : ∀ read, t.lexeme = .number read → t.start ≠ w.place)
      (h : t.lexeme.Alike t'.lexeme) : Token.Alike w 0 t t'
  | swapped {t t' : Token} {read : Except Fault Number} (hplace : t.start = w.place)
      (hstop : t.stop = w.stop) (h : t.lexeme = .number read) (h' : t'.lexeme = .number w.read) :
      Token.Alike w 1 t t'

/-! ## Trees -/

/-- Keys of which the same is read. -/
structure Key.Alike (k k' : Key) : Prop where
  read : Again k.read k'.read
  skip : Again k.skip k'.skip
  colon : Again k.colon k'.colon

mutual

/-- Parts that are alike, with the number of numbers in them that are swapped. -/
inductive Node.Alike (w : Swap) : Nat → Node → Node → Prop
  | null (start stop start' stop' : Nat) : Node.Alike w 0 (.null start stop) (.null start' stop')
  | boolean (b : Bool) (start stop start' stop' : Nat) :
      Node.Alike w 0 (.boolean b start stop) (.boolean b start' stop')
  | number {read read' : Except Fault Number} {start : Nat} (stop start' stop' : Nat)
      (hplace : start ≠ w.place) (h : Again read read') :
      Node.Alike w 0 (.number read start stop) (.number read' start' stop')
  | swapped (read : Except Fault Number) {start stop : Nat} (start' stop' : Nat)
      (hplace : start = w.place) (hstop : stop = w.stop) :
      Node.Alike w 1 (.number read start stop) (.number w.read start' stop')
  | text {read read' : Except Fault String} {skip skip' : Except Fault Unit}
      (start stop start' stop' : Nat) (h : Again read read') (hskip : Again skip skip') :
      Node.Alike w 0 (.text read skip start stop) (.text read' skip' start' stop')
  | array {n : Nat} {items items' : List Node} {ending ending' : Ending} (start start' : Nat)
      (h : Node.AlikeItems w n items items') (hending : ending.passes = ending'.passes) :
      Node.Alike w n (.array items ending start) (.array items' ending' start')
  | object {n : Nat} {members members' : List Member} {ending ending' : Ending} (start start' : Nat)
      (h : Member.AlikeAll w n members members') (hending : ending.passes = ending'.passes) :
      Node.Alike w n (.object members ending start) (.object members' ending' start')
  | broken (read skip read' skip' : Fault) (start start' : Nat) :
      Node.Alike w 0 (.broken read skip start) (.broken read' skip' start')
  | absent (stop stop' : Nat) : Node.Alike w 0 (.absent stop) (.absent stop')

inductive Node.AlikeItems (w : Swap) : Nat → List Node → List Node → Prop
  | nil : Node.AlikeItems w 0 [] []
  | cons {n k m : Nat} {node node' : Node} {items items' : List Node} (h : Node.Alike w k node node')
      (hs : Node.AlikeItems w m items items') (hn : n = k + m) :
      Node.AlikeItems w n (node :: items) (node' :: items')

inductive Member.AlikeAll (w : Swap) : Nat → List Member → List Member → Prop
  | nil : Member.AlikeAll w 0 [] []
  | cons {n k m : Nat} {key key' : Key} {value value' : Node} {members members' : List Member}
      (next next' : Nat) (hkey : key.Alike key') (h : Node.Alike w k value value')
      (hs : Member.AlikeAll w m members members') (hn : n = k + m) :
      Member.AlikeAll w n (.mk key value next :: members) (.mk key' value' next' :: members')

end

variable {w : Swap} {n k m : Nat}

theorem Node.AlikeItems.append {as as' bs bs' : List Node} (h : Node.AlikeItems w n as as')
    (h' : Node.AlikeItems w m bs bs') : Node.AlikeItems w (n + m) (as ++ bs) (as' ++ bs') := by
  induction as generalizing n as' with
  | nil =>
    cases h
    rwa [Nat.zero_add]
  | cons a as ih =>
    cases h with
    | cons h hs hn => exact .cons h (ih hs) (by omega)

theorem Node.AlikeItems.reverse {as as' : List Node} (h : Node.AlikeItems w n as as') :
    Node.AlikeItems w n as.reverse as'.reverse := by
  induction as generalizing n as' with
  | nil =>
    cases h
    exact .nil
  | cons a as ih =>
    cases h with
    | cons h hs hn =>
      rw [List.reverse_cons, List.reverse_cons, hn, Nat.add_comm]
      exact (ih hs).append (.cons h .nil rfl)

theorem Member.AlikeAll.append {as as' bs bs' : List Member} (h : Member.AlikeAll w n as as')
    (h' : Member.AlikeAll w m bs bs') : Member.AlikeAll w (n + m) (as ++ bs) (as' ++ bs') := by
  induction as generalizing n as' with
  | nil =>
    cases h
    rwa [Nat.zero_add]
  | cons a as ih =>
    cases h with
    | cons next next' hkey h hs hn => exact .cons next next' hkey h (ih hs) (by omega)

theorem Member.AlikeAll.reverse {as as' : List Member} (h : Member.AlikeAll w n as as') :
    Member.AlikeAll w n as.reverse as'.reverse := by
  induction as generalizing n as' with
  | nil =>
    cases h
    exact .nil
  | cons a as ih =>
    cases h with
    | cons next next' hkey h hs hn =>
      rw [List.reverse_cons, List.reverse_cons, hn, Nat.add_comm]
      exact (ih hs).append (.cons next next' hkey h .nil rfl)

/-! ## Building -/

inductive Context.Alike (w : Swap) : Nat → Context → Context → Prop
  | top : Context.Alike w 0 .top .top
  | item {n k m : Nat} {before before' : List Node} {outer outer' : Context} (start start' : Nat)
      (h : Node.AlikeItems w k before before') (ho : Context.Alike w m outer outer') (hn : n = k + m) :
      Context.Alike w n (.item start before outer) (.item start' before' outer')
  | member {n k m : Nat} {before before' : List Member} {key key' : Key} {outer outer' : Context}
      (start start' : Nat) (h : Member.AlikeAll w k before before') (hkey : key.Alike key')
      (ho : Context.Alike w m outer outer') (hn : n = k + m) :
      Context.Alike w n (.member start before key outer) (.member start' before' key' outer')

inductive Stage.Alike (w : Swap) : Nat → Stage → Stage → Prop
  | value {n : Nat} {c c' : Context} (h : c.Alike w n c') : Stage.Alike w n (.value c) (.value c')
  | nextItem {n k m : Nat} {items items' : List Node} {outer outer' : Context} (start start' : Nat)
      (h : Node.AlikeItems w k items items') (ho : outer.Alike w m outer') (hn : n = k + m) :
      Stage.Alike w n (.nextItem start items outer) (.nextItem start' items' outer')
  | key {n k m : Nat} {members members' : List Member} {outer outer' : Context} (start start' : Nat)
      (h : Member.AlikeAll w k members members') (ho : outer.Alike w m outer') (hn : n = k + m) :
      Stage.Alike w n (.key start members outer) (.key start' members' outer')
  | colon {n k m : Nat} {members members' : List Member} {read read' : Except Fault String}
      {outer outer' : Context} (start start' stop stop' : Nat)
      (h : Member.AlikeAll w k members members') (hread : Again read read')
      (ho : outer.Alike w m outer') (hn : n = k + m) :
      Stage.Alike w n (.colon start members read stop outer) (.colon start' members' read' stop' outer')
  | nextMember {n k j m : Nat} {before before' : List Member} {key key' : Key} {value value' : Node}
      {outer outer' : Context} (start start' : Nat) (h : Member.AlikeAll w k before before')
      (hkey : key.Alike key') (hvalue : value.Alike w j value') (ho : outer.Alike w m outer')
      (hn : n = k + j + m) :
      Stage.Alike w n (.nextMember start before key value outer)
        (.nextMember start' before' key' value' outer')
  | finished {n : Nat} {node node' : Node} (h : node.Alike w n node') :
      Stage.Alike w n (.finished node) (.finished node')

variable {s s' : Stage} {c c' : Context} {t t' : Token} {node node' : Node}

namespace Context.Alike

/-- A part in its place, as the last thing of the tree. -/
theorem plug (hc : c.Alike w m c') (h : node.Alike w k node') (hn : n = k + m) :
    (c.plug node).Alike w n (c'.plug node') := by
  induction hc generalizing n k node node' with
  | top => exact hn ▸ h
  | item start start' hbefore ho hm ih =>
    exact ih (.array start start' (Node.AlikeItems.cons h hbefore rfl).reverse rfl) (by omega)
  | member start start' hbefore hkey ho hm ih =>
    exact ih (.object start start' (Member.AlikeAll.cons 0 0 hkey h hbefore rfl).reverse rfl)
      (by omega)

/-- A part in its place, with more to come. -/
theorem complete (hc : c.Alike w m c') (h : node.Alike w k node') (hn : n = k + m) :
    (c.complete node).Alike w n (c'.complete node') := by
  cases hc with
  | top => exact .finished (hn ▸ h)
  | item start start' hbefore ho hm => exact .nextItem start start' (.cons h hbefore rfl) ho (by omega)
  | member start start' hbefore hkey ho hm =>
    exact .nextMember start start' hbefore hkey h ho (by omega)

theorem breakOff (hc : c.Alike w m c') (h : node.Alike w k node') (hn : n = k + m) :
    (c.breakOff node).Alike w n (c'.breakOff node') := .finished (hc.plug h hn)

end Context.Alike

/-- A token where a value is due. -/
theorem Context.Alike.step (hc : c.Alike w n c') (ht : t.Alike w k t') :
    (c.step t).Alike w (k + n) (c'.step t') := by
  obtain ⟨place, stop, lexeme⟩ := t
  obtain ⟨place', stop', lexeme'⟩ := t'
  cases ht with
  | swapped hplace hstop h h' =>
    cases h
    cases h'
    exact hc.complete (.swapped _ _ _ hplace hstop) rfl
  | same hplace h =>
    cases h with
    | openBracket => exact .value (.item _ _ .nil hc rfl)
    | openBrace => exact .key _ _ .nil hc rfl
    | word value =>
      cases value with
      | null => exact hc.complete (.null ..) rfl
      | boolean b => exact hc.complete (.boolean ..) rfl
    | number h => exact hc.complete (.number _ _ _ (hplace _ rfl) h) rfl
    | text h => exact hc.complete (.text _ _ _ _ h (.refl _)) rfl
    | unended fault fault' h => exact hc.breakOff (.text _ _ _ _ h (again_error _)) rfl
    | broken => exact hc.breakOff (.broken ..) rfl
    | closeBrace | comma | colon => exact hc.breakOff (.broken ..) rfl
    | closeBracket =>
      rw [Nat.zero_add]
      cases hc with
      | top => exact Context.Alike.top.breakOff (.broken ..) rfl
      | member start start' hbefore hkey ho hn =>
        exact (Context.Alike.member start start' hbefore hkey ho hn).breakOff (.broken ..)
          (Nat.zero_add n).symm
      | item start start' hbefore ho hn =>
        cases hbefore with
        | nil => exact ho.complete (.array start start' .nil rfl) hn
        | cons h hs hk =>
          exact ho.breakOff (.array start start' (Node.AlikeItems.cons h hs hk).reverse rfl) hn

def Stage.takesValue : Stage → Bool
  | .value _ => true
  | _ => false

/-- A token where no value is due is never a part of the tree. -/
theorem Stage.Alike.step_of_not_takesValue (hs : s.Alike w n s') (hvalue : s.takesValue = false)
    (ht : t.Alike w k t') : (s.step t).Alike w n (s'.step t') := by
  obtain ⟨place, stop, lexeme⟩ := t
  obtain ⟨place', stop', lexeme'⟩ := t'
  have hkind : lexeme.Alike lexeme' ∨ ∃ read, lexeme = .number read ∧ lexeme' = .number w.read := by
    cases ht with
    | same hplace h => exact .inl h
    | swapped hplace hstop h h' => exact .inr ⟨_, h, h'⟩
  cases hs with
  | value hc => cases hvalue
  | nextItem start start' h ho hn =>
    rcases hkind with hkind | ⟨read, rfl, rfl⟩
    · cases hkind with
      | comma => exact .value (.item start start' h ho hn)
      | closeBracket => exact ho.complete (.array start start' h.reverse rfl) hn
      | _ => exact ho.breakOff (.array start start' h.reverse rfl) hn
    · exact ho.breakOff (.array start start' h.reverse rfl) hn
  | key start start' h ho hn =>
    rcases hkind with hkind | ⟨read, rfl, rfl⟩
    · cases hkind with
      | text hread => exact .colon start start' stop stop' h hread ho hn
      | @unended read read' fault fault' hread =>
        have hkey : Key.Alike ⟨read, .error fault, stop, stop, .ok ()⟩
            ⟨read', .error fault', stop', stop', .ok ()⟩ :=
          ⟨hread, again_error _, .refl _⟩
        have hmembers := h.cons stop stop' hkey (.absent stop stop') (Nat.zero_add _).symm
        exact ho.breakOff (.object start start' hmembers.reverse rfl) hn
      | closeBrace =>
        cases h with
        | nil => exact ho.complete (.object start start' .nil rfl) hn
        | cons next next' hkey h hs hk =>
          exact ho.breakOff (.object start start' (hs.cons next next' hkey h hk).reverse
            rfl) hn
      | _ => exact ho.breakOff (.object start start' h.reverse rfl) hn
    · exact ho.breakOff (.object start start' h.reverse rfl) hn
  | @colon _ _ members members' read read' _ _ start start' last last' h hread ho hn =>
    have hmembers (settled settled' : Nat) := by
      have hkey : Key.Alike ⟨read, .ok (), last, settled, .error (.at .colonExpected (place + 1))⟩
          ⟨read', .ok (), last', settled', .error (.at .colonExpected (place' + 1))⟩ :=
        ⟨hread, .refl _, again_error _⟩
      exact (h.cons place place' hkey (.absent place place') (Nat.zero_add _).symm).reverse
    rcases hkind with hkind | ⟨read, rfl, rfl⟩
    · cases hkind with
      | colon => exact .value (.member start start' h ⟨hread, .refl _, .refl _⟩ ho hn)
      | closeBrace => exact ho.breakOff (.object start start' (hmembers stop stop') rfl) hn
      | _ => exact ho.breakOff (.object start start' (hmembers place place') rfl) hn
    · exact ho.breakOff (.object start start' (hmembers place place') rfl) hn
  | nextMember start start' h hkey hpart ho hn =>
    have hmembers := (h.cons place place' hkey hpart (Nat.add_comm _ _)).reverse
    rcases hkind with hkind | ⟨read, rfl, rfl⟩
    · cases hkind with
      | comma => exact .key start start' (h.cons place place' hkey hpart (Nat.add_comm _ _)) ho hn
      | closeBrace => exact ho.complete (.object start start' hmembers rfl) hn
      | _ => exact ho.breakOff (.object start start' hmembers rfl) hn
    · exact ho.breakOff (.object start start' hmembers rfl) hn
  | finished h => exact .finished h

theorem Stage.Alike.step (hs : s.Alike w n s') (ht : t.Alike w k t') :
    ∃ m ≤ k + n, (s.step t).Alike w m (s'.step t') := by
  cases hvalue : s.takesValue with
  | false => exact ⟨n, Nat.le_add_left n k, hs.step_of_not_takesValue hvalue ht⟩
  | true =>
    cases hs with
    | value hc => exact ⟨k + n, Nat.le_refl _, hc.step ht⟩
    | nextItem | key | colon | nextMember | finished => cases hvalue

/-- What has been built when the text ends. -/
theorem Stage.Alike.atEnd (hs : s.Alike w n s') (size size' : Nat) :
    (s.atEnd size).Alike w n (s'.atEnd size') := by
  cases hs with
  | value hc =>
    cases hc with
    | top => exact Context.Alike.top.plug (.absent size size') rfl
    | member start start' hbefore hkey ho hn =>
      exact (Context.Alike.member start start' hbefore hkey ho hn).plug (.absent size size')
        (Nat.zero_add n).symm
    | item start start' hbefore ho hn =>
      cases hbefore with
      | nil => exact ho.plug (.array start start' .nil rfl) hn
      | cons h hs hk =>
        exact (Context.Alike.item start start' (.cons h hs hk) ho hn).plug (.absent size size')
          (Nat.zero_add n).symm
  | nextItem start start' h ho hn => exact ho.plug (.array start start' h.reverse rfl) hn
  | key start start' h ho hn =>
    cases h with
    | nil => exact ho.plug (.object start start' .nil rfl) hn
    | cons next next' hkey h hs hk =>
      exact ho.plug (.object start start' (hs.cons next next' hkey h hk).reverse rfl) hn
  | @colon _ _ _ _ read read' _ _ start start' last last' h hread ho hn =>
    have hkey : Key.Alike ⟨read, .ok (), last, size, .error (.at .endInObject size)⟩
        ⟨read', .ok (), last', size', .error (.at .endInObject size')⟩ :=
      ⟨hread, .refl _, again_error _⟩
    have hmembers := h.cons size size' hkey (.absent size size') (Nat.zero_add _).symm
    exact ho.plug (.object start start' hmembers.reverse rfl) hn
  | nextMember start start' h hkey hpart ho hn =>
    have hmembers := h.cons size size' hkey hpart (Nat.add_comm _ _)
    exact ho.plug (.object start start' hmembers.reverse rfl) hn
  | finished h => exact h

/-! ## Whole texts -/

inductive Token.AlikeAll (w : Swap) : Nat → List Token → List Token → Prop
  | nil : Token.AlikeAll w 0 [] []
  | cons {n k m : Nat} {t t' : Token} {ts ts' : List Token} (h : t.Alike w k t')
      (hs : Token.AlikeAll w m ts ts') (hn : n = k + m) : Token.AlikeAll w n (t :: ts) (t' :: ts')

theorem Token.AlikeAll.append {as as' bs bs' : List Token} (h : Token.AlikeAll w n as as')
    (h' : Token.AlikeAll w m bs bs') : Token.AlikeAll w (n + m) (as ++ bs) (as' ++ bs') := by
  induction h with
  | nil => rwa [Nat.zero_add]
  | cons h hs hn ih => exact .cons h ih (by omega)

/-- A text is like itself. -/
theorem Token.AlikeAll.refl {ts : List Token}
    (h : ∀ t ∈ ts, ∀ read, t.lexeme = .number read → t.start ≠ w.place) :
    Token.AlikeAll w 0 ts ts := by
  induction ts with
  | nil => exact .nil
  | cons t ts ih =>
    obtain ⟨ht, hts⟩ := List.forall_mem_cons.1 h
    exact .cons (.same ht (.refl _)) (ih hts) rfl

structure Outline.Alike (w : Swap) (n : Nat) (o o' : Outline) : Prop where
  root : o.root.Alike w n o'.root
  trailing : o.trailing = none ↔ o'.trailing = none

/-- Texts whose tokens are alike have trees that are alike. -/
theorem Stage.Alike.run (hs : s.Alike w n s') {ts ts' : List Token} (hts : Token.AlikeAll w k ts ts')
    (size size' : Nat) : ∃ m ≤ k + n, Outline.Alike w m (s.run size ts) (s'.run size' ts') := by
  induction hts generalizing n s s' with
  | nil =>
    refine ⟨n, Nat.le_add_left n 0, ?_⟩
    have hend := hs.atEnd size size'
    cases hs with
    | value | nextItem | key | colon | nextMember | finished => exact ⟨hend, Iff.rfl⟩
  | @cons count k rest t t' ts ts' ht hts hn ih =>
    obtain ⟨m, hm, hstep⟩ := hs.step ht
    obtain ⟨j, hj, hrest⟩ := ih hstep
    cases hs with
    | finished h => exact ⟨n, Nat.le_add_left n _, h, by simp [Stage.run]⟩
    | value | nextItem | key | colon | nextMember => exact ⟨j, by omega, hrest⟩

/-- After a number no value is due. -/
theorem Stage.takesValue_step_number {read : Except Fault Number} (h : t.lexeme = .number read) :
    (s.step t).takesValue = false := by
  obtain ⟨place, stop, lexeme⟩ := t
  cases h
  cases s with
  | value c => cases c <;> rfl
  | nextItem | key | colon | nextMember | finished => rfl

theorem Stage.root_run_cons (s : Stage) (size : Nat) (t : Token) (ts : List Token) :
    (s.run size (t :: ts)).root = ((s.step t).run size ts).root := by
  cases s with
  | finished node => rw [Stage.step, Stage.run, Stage.run]
  | value | nextItem | key | colon | nextMember => rfl

/-- A number right after a number is no part of the tree. -/
theorem Stage.Alike.root_run_number (hs : s.Alike w 0 s') {before before' after after' : List Token}
    {number number' : Token} {read : Except Fault Number} (hbefore : Token.AlikeAll w 0 before before')
    (hnumber : number.Alike w 0 number') (hread : number.lexeme = .number read) (ht : t.Alike w k t')
    (hafter : Token.AlikeAll w 0 after after') (size size' : Nat) :
    (s.run size (before ++ number :: t :: after)).root.Alike w 0
      (s'.run size' (before' ++ number' :: t' :: after')).root := by
  induction before generalizing before' s s' with
  | nil =>
    cases hbefore
    obtain ⟨m, hm, hstep⟩ := hs.step hnumber
    obtain rfl : m = 0 := by omega
    have hnext := hstep.step_of_not_takesValue (takesValue_step_number hread) ht
    obtain ⟨j, hj, hrun⟩ := hnext.run hafter size size'
    obtain rfl : j = 0 := by omega
    rw [List.nil_append, List.nil_append, root_run_cons, root_run_cons, root_run_cons, root_run_cons]
    exact hrun.root
  | cons first before ih =>
    cases hbefore with
    | @cons _ i j _ first' _ before' h hbefore hn =>
      obtain ⟨rfl, rfl⟩ : i = 0 ∧ j = 0 := by omega
      obtain ⟨m, hm, hstep⟩ := hs.step h
      obtain rfl : m = 0 := by omega
      rw [List.cons_append, List.cons_append, root_run_cons, root_run_cons]
      exact ih hstep hbefore

end SubnetRegistry.Json
