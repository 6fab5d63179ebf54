import SubnetRegistry.Json.Outline

/-!
# Trees of well-formed texts

What a well-formed text says without the places of its parts. The lexemes of a tree determine its
outline, whatever the places of the tokens are.

## Main definitions

* `Tree`, `Tree.lexemes` — a well-formed text and its words.
* `Node.Is` — a part of a text has a tree.

## Main statements

* `Outline.of_tokens` — tokens with the lexemes of a tree have that tree for their outline.
-/
namespace SubnetRegistry.Json

/-- A well-formed text without places. What comes of reading a number or a text is its own matter. -/
inductive Tree where
  | null
  | boolean (b : Bool)
  | number (read : Except Fault Number)
  | text (read : Except Fault String)
  | array (items : List Tree)
  | object (members : List (Except Fault String × Tree))

mutual

def Tree.lexemes : Tree → List Lexeme
  | .null => [.word .null]
  | .boolean b => [.word (.boolean b)]
  | .number read => [.number read]
  | .text read => [.text read (.ok ())]
  | .array items => .openBracket :: (Tree.itemsLexemes items ++ [.closeBracket])
  | .object members => .openBrace :: (Tree.membersLexemes members ++ [.closeBrace])

def Tree.itemsLexemes : List Tree → List Lexeme
  | [] => []
  | [t] => t.lexemes
  | t :: rest => t.lexemes ++ .comma :: Tree.itemsLexemes rest

def Tree.membersLexemes : List (Except Fault String × Tree) → List Lexeme
  | [] => []
  | [(key, t)] => .text key (.ok ()) :: .colon :: t.lexemes
  | (key, t) :: rest => .text key (.ok ()) :: .colon :: (t.lexemes ++ .comma ::
      Tree.membersLexemes rest)

end

theorem Tree.itemsLexemes_cons_cons (t u : Tree) (items : List Tree) :
    Tree.itemsLexemes (t :: u :: items) =
      t.lexemes ++ .comma :: Tree.itemsLexemes (u :: items) := by
  rw [Tree.itemsLexemes.eq_3 _ _ (List.cons_ne_nil _ _)]

theorem Tree.membersLexemes_cons_cons (key : Except Fault String) (t : Tree)
    (m : Except Fault String × Tree) (members : List (Except Fault String × Tree)) :
    Tree.membersLexemes ((key, t) :: m :: members) = .text key (.ok ()) :: .colon ::
      (t.lexemes ++ .comma :: Tree.membersLexemes (m :: members)) := by
  rw [Tree.membersLexemes.eq_3 _ _ _ (List.cons_ne_nil _ _)]

mutual

/-- A part of a text has a tree. -/
inductive Node.Is : Node → Tree → Prop
  | null (start stop : Nat) : Node.Is (.null start stop) .null
  | boolean (b : Bool) (start stop : Nat) : Node.Is (.boolean b start stop) (.boolean b)
  | number (read : Except Fault Number) (start stop : Nat) :
      Node.Is (.number read start stop) (.number read)
  | text (read : Except Fault String) (start stop : Nat) :
      Node.Is (.text read (.ok ()) start stop) (.text read)
  | array {nodes : List Node} {items : List Tree} (h : Node.Are nodes items) (start stop : Nat) :
      Node.Is (.array nodes (.closed stop) start) (.array items)
  | object {ms : List Member} {members : List (Except Fault String × Tree)}
      (h : Member.Are ms members) (start stop : Nat) :
      Node.Is (.object ms (.closed stop) start) (.object members)

inductive Node.Are : List Node → List Tree → Prop
  | nil : Node.Are [] []
  | cons {node : Node} {t : Tree} {nodes : List Node} {items : List Tree} (h : node.Is t)
      (hs : Node.Are nodes items) : Node.Are (node :: nodes) (t :: items)

inductive Member.Are : List Member → List (Except Fault String × Tree) → Prop
  | nil : Member.Are [] []
  | cons {key : Except Fault String} {stop settled : Nat} {node : Node} {t : Tree} {next : Nat}
      {ms : List Member} {members : List (Except Fault String × Tree)} (h : node.Is t)
      (hs : Member.Are ms members) :
      Member.Are (.mk ⟨key, .ok (), stop, settled, .ok ()⟩ node next :: ms) ((key, t) :: members)

end

/-! ## Building the outline -/

variable {size : Nat}

theorem Stage.run_value (c : Context) (t : Token) (ts : List Token) :
    (Stage.value c).run size (t :: ts) = (c.step t).run size ts := rfl

theorem Stage.run_nextItem (start : Nat) (items : List Node) (outer : Context) (t : Token)
    (ts : List Token) :
    (Stage.nextItem start items outer).run size (t :: ts) =
      ((Stage.nextItem start items outer).step t).run size ts := rfl

theorem Stage.run_nextMember (start : Nat) (before : List Member) (key : Key) (value : Node)
    (outer : Context) (t : Token) (ts : List Token) :
    (Stage.nextMember start before key value outer).run size (t :: ts) =
      ((Stage.nextMember start before key value outer).step t).run size ts := rfl

/-- A key and its colon. -/
theorem Stage.run_key {key : Except Fault String} {k colon : Token} {ts : List Token}
    (hk : k.lexeme = .text key (.ok ())) (hc : colon.lexeme = .colon) (start : Nat)
    (before : List Member) (outer : Context) :
    (Stage.key start before outer).run size (k :: colon :: ts) =
      (Stage.value (.member start before ⟨key, .ok (), k.stop, colon.start, .ok ()⟩ outer)).run
        size ts := by
  have hkey : (Stage.key start before outer).step k = .colon start before key k.stop outer := by
    simp only [Stage.step, hk]
  have hcolon : (Stage.colon start before key k.stop outer).step colon =
      .value (.member start before ⟨key, .ok (), k.stop, colon.start, .ok ()⟩ outer) := by
    simp only [Stage.step, hc]
  show ((Stage.key start before outer).step k).run size (colon :: ts) = _
  rw [hkey]
  show ((Stage.colon start before key k.stop outer).step colon).run size ts = _
  rw [hcolon]

/-- A value that is no container takes one token. -/
theorem Tree.run_single {l : Lexeme} {c : Context} {ts : List Token} {t : Tree}
    (h : ts.map Token.lexeme = [l])
    (hstep : ∀ tok : Token, tok.lexeme = l → ∃ node, node.Is t ∧ c.step tok = c.complete node)
    (rest : List Token) :
    ∃ node, node.Is t ∧ (Stage.value c).run size (ts ++ rest) = (c.complete node).run size rest := by
  obtain ⟨tok, rfl, htok⟩ := List.map_eq_singleton_iff.1 h
  obtain ⟨node, hnode, hc⟩ := hstep tok htok
  exact ⟨node, hnode, by rw [List.singleton_append, Stage.run_value, hc]⟩

mutual

/-- The tokens of a value put it in its place. -/
theorem Tree.run : (t : Tree) → (c : Context) → (ts rest : List Token) →
    ts.map Token.lexeme = t.lexemes →
    ∃ node, node.Is t ∧ (Stage.value c).run size (ts ++ rest) = (c.complete node).run size rest
  | .null, c, ts, rest, h =>
    run_single h (fun tok htok => ⟨_, .null tok.start tok.stop, by
      simp only [Context.step, htok]⟩) rest
  | .boolean b, c, ts, rest, h =>
    run_single h (fun tok htok => ⟨_, .boolean b tok.start tok.stop, by
      simp only [Context.step, htok]⟩) rest
  | .number read, c, ts, rest, h =>
    run_single h (fun tok htok => ⟨_, .number read tok.start tok.stop, by
      simp only [Context.step, htok]⟩) rest
  | .text read, c, ts, rest, h =>
    run_single h (fun tok htok => ⟨_, .text read tok.start tok.stop, by
      simp only [Context.step, htok]⟩) rest
  | .array [], c, ts, rest, h => by
    obtain ⟨o, ts, rfl, ho, h⟩ := List.map_eq_cons_iff.1 h
    obtain ⟨e, rfl, he⟩ := List.map_eq_singleton_iff.1 h
    refine ⟨_, .array .nil o.start e.stop, ?_⟩
    have hopen : c.step o = .value (.item o.start [] c) := by simp only [Context.step, ho]
    have hend : Context.step (.item o.start [] c) e =
        c.complete (.array [] (.closed e.stop) o.start) := by
      simp only [Context.step, he]
    rw [List.cons_append, Stage.run_value, hopen, List.singleton_append, Stage.run_value, hend]
  | .array (t :: items), c, ts, rest, h => by
    obtain ⟨o, ts, rfl, ho, h⟩ := List.map_eq_cons_iff.1 h
    obtain ⟨nodes, stop, hnodes, hrun⟩ :=
      Tree.runItems (t :: items) o.start [] c ts rest (List.cons_ne_nil _ _) h
    refine ⟨_, .array hnodes o.start stop, ?_⟩
    have hopen : c.step o = .value (.item o.start [] c) := by simp only [Context.step, ho]
    rw [List.cons_append, Stage.run_value, hopen, hrun]
    rfl
  | .object [], c, ts, rest, h => by
    obtain ⟨o, ts, rfl, ho, h⟩ := List.map_eq_cons_iff.1 h
    obtain ⟨e, rfl, he⟩ := List.map_eq_singleton_iff.1 h
    refine ⟨_, .object .nil o.start e.stop, ?_⟩
    have hopen : c.step o = .key o.start [] c := by simp only [Context.step, ho]
    have hend : (Stage.key o.start [] c).step e =
        c.complete (.object [] (.closed e.stop) o.start) := by
      simp only [Stage.step, he]
    rw [List.cons_append, Stage.run_value, hopen]
    show ((Stage.key o.start [] c).step e).run size rest = _
    rw [hend]
  | .object (m :: members), c, ts, rest, h => by
    obtain ⟨o, ts, rfl, ho, h⟩ := List.map_eq_cons_iff.1 h
    obtain ⟨ms, stop, hms, hrun⟩ :=
      Tree.runMembers (m :: members) o.start [] c ts rest (List.cons_ne_nil _ _) h
    refine ⟨_, .object hms o.start stop, ?_⟩
    have hopen : c.step o = .key o.start [] c := by simp only [Context.step, ho]
    rw [List.cons_append, Stage.run_value, hopen, hrun]
    rfl

/-- The tokens of items, up to the closing bracket. -/
theorem Tree.runItems : (items : List Tree) → (start : Nat) → (before : List Node) →
    (outer : Context) → (ts rest : List Token) → items ≠ [] →
    ts.map Token.lexeme = Tree.itemsLexemes items ++ [.closeBracket] →
    ∃ nodes stop, Node.Are nodes items ∧
      (Stage.value (.item start before outer)).run size (ts ++ rest) =
        (outer.complete (.array (before.reverse ++ nodes) (.closed stop) start)).run size rest
  | [], _, _, _, _, _, hne, _ => absurd rfl hne
  | [t], start, before, outer, ts, rest, _, h => by
    obtain ⟨ts, last, rfl, hts, hlast⟩ := List.map_eq_append_iff.1 h
    obtain ⟨e, rfl, he⟩ := List.map_eq_singleton_iff.1 hlast
    obtain ⟨node, hnode, hrun⟩ := Tree.run t (.item start before outer) ts (e :: rest) hts
    refine ⟨[node], e.stop, .cons hnode .nil, ?_⟩
    have hend : (Stage.nextItem start (node :: before) outer).step e =
        outer.complete (.array (node :: before).reverse (.closed e.stop) start) := by
      simp only [Stage.step, he]
    rw [List.append_assoc, List.singleton_append, hrun, Context.complete, Stage.run_nextItem, hend,
      List.reverse_cons]
  | t :: u :: items, start, before, outer, ts, rest, _, h => by
    rw [Tree.itemsLexemes_cons_cons, List.append_assoc] at h
    obtain ⟨ts, more, rfl, hts, hmore⟩ := List.map_eq_append_iff.1 h
    obtain ⟨comma, more, rfl, hcomma, hmore⟩ := List.map_eq_cons_iff.1 hmore
    obtain ⟨node, hnode, hrun⟩ :=
      Tree.run t (.item start before outer) ts (comma :: more ++ rest) hts
    obtain ⟨nodes, stop, hnodes, hrest⟩ := Tree.runItems (u :: items) start (node :: before) outer
      more rest (List.cons_ne_nil _ _) hmore
    refine ⟨node :: nodes, stop, .cons hnode hnodes, ?_⟩
    have hnext : (Stage.nextItem start (node :: before) outer).step comma =
        .value (.item start (node :: before) outer) := by
      simp only [Stage.step, hcomma]
    rw [List.append_assoc, hrun, Context.complete, List.cons_append, Stage.run_nextItem, hnext, hrest,
      List.reverse_cons, List.append_assoc, List.singleton_append]

/-- The tokens of members, up to the closing brace. -/
theorem Tree.runMembers : (members : List (Except Fault String × Tree)) → (start : Nat) →
    (before : List Member) → (outer : Context) → (ts rest : List Token) → members ≠ [] →
    ts.map Token.lexeme = Tree.membersLexemes members ++ [.closeBrace] →
    ∃ ms stop, Member.Are ms members ∧
      (Stage.key start before outer).run size (ts ++ rest) =
        (outer.complete (.object (before.reverse ++ ms) (.closed stop) start)).run size rest
  | [], _, _, _, _, _, hne, _ => absurd rfl hne
  | [(key, t)], start, before, outer, ts, rest, _, h => by
    rw [Tree.membersLexemes, List.cons_append, List.cons_append] at h
    obtain ⟨k, ts, rfl, hk, h⟩ := List.map_eq_cons_iff.1 h
    obtain ⟨colon, ts, rfl, hcolon, h⟩ := List.map_eq_cons_iff.1 h
    obtain ⟨ts, last, rfl, hts, hlast⟩ := List.map_eq_append_iff.1 h
    obtain ⟨e, rfl, he⟩ := List.map_eq_singleton_iff.1 hlast
    obtain ⟨node, hnode, hrun⟩ := Tree.run t
      (.member start before ⟨key, .ok (), k.stop, colon.start, .ok ()⟩ outer) ts (e :: rest) hts
    refine ⟨[.mk ⟨key, .ok (), k.stop, colon.start, .ok ()⟩ node e.start], e.stop,
      .cons hnode .nil, ?_⟩
    rw [List.cons_append, List.cons_append, Stage.run_key hk hcolon, List.append_assoc,
      List.singleton_append, hrun, Context.complete, Stage.run_nextMember]
    simp only [Stage.step, he, List.reverse_cons]
  | (key, t) :: m :: members, start, before, outer, ts, rest, _, h => by
    rw [Tree.membersLexemes_cons_cons, List.cons_append, List.cons_append, List.append_assoc] at h
    obtain ⟨k, ts, rfl, hk, h⟩ := List.map_eq_cons_iff.1 h
    obtain ⟨colon, ts, rfl, hcolon, h⟩ := List.map_eq_cons_iff.1 h
    obtain ⟨ts, more, rfl, hts, hmore⟩ := List.map_eq_append_iff.1 h
    obtain ⟨comma, more, rfl, hcomma, hmore⟩ := List.map_eq_cons_iff.1 hmore
    obtain ⟨node, hnode, hrun⟩ := Tree.run t
      (.member start before ⟨key, .ok (), k.stop, colon.start, .ok ()⟩ outer) ts
      (comma :: more ++ rest) hts
    obtain ⟨ms, stop, hms, hrest⟩ := Tree.runMembers (m :: members) start
      (.mk ⟨key, .ok (), k.stop, colon.start, .ok ()⟩ node comma.start :: before) outer
      more rest (List.cons_ne_nil _ _) hmore
    refine ⟨.mk ⟨key, .ok (), k.stop, colon.start, .ok ()⟩ node comma.start :: ms, stop,
      .cons hnode hms, ?_⟩
    rw [List.cons_append, List.cons_append, Stage.run_key hk hcolon, List.append_assoc, hrun,
      Context.complete, List.cons_append, Stage.run_nextMember]
    simp only [Stage.step, hcomma]
    rw [hrest, List.reverse_cons, List.append_assoc, List.singleton_append]

end

/-- Tokens with the lexemes of a tree have that tree for their outline. -/
theorem Outline.of_tokens {bytes : List UInt8} {t : Tree}
    (h : (tokens bytes).map Token.lexeme = t.lexemes) :
    ∃ node, node.Is t ∧ Outline.ofBytes bytes = ⟨node, none⟩ := by
  obtain ⟨node, hnode, hrun⟩ := Tree.run t .top (tokens bytes) [] h
  rw [List.append_nil] at hrun
  exact ⟨node, hnode, hrun⟩

end SubnetRegistry.Json
