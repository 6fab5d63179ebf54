import SubnetRegistry.Json.Record
import SubnetRegistry.Proofs.Json.Piece
import SubnetRegistry.Proofs.Json.Value

/-!
# Well-formed texts

A well-formed text is the sequence of the words of a document, with white space among them. Its outline
is there to the end, and says of every part what the document says.

## Main definitions

* `Document` — a JSON value with the spelling of its numbers and texts.
* `Document.pieces` — its words.
* `Value.document` — a value in the spelling that is written.
* `Document.Fits` — what a tree says of a document.

## Main statements

* `decode_spaced` — a text is decoded as its document is read.
* `Value.spaced` — the text of a value is that of its document.
-/
namespace SubnetRegistry.Json

/-- A JSON value with the spelling of its numbers and texts. -/
inductive Document where
  | null
  | boolean (b : Bool)
  | number (f : Figure)
  | text (gs : List Glyph)
  | array (items : List Document)
  | object (members : List (List Glyph × Document))

mutual

def Document.pieces : Document → List Piece
  | .null => [.word .null]
  | .boolean b => [.word (.boolean b)]
  | .number f => [.number f]
  | .text gs => [.text gs]
  | .array items => .openBracket :: (Document.itemPieces items ++ [.closeBracket])
  | .object members => .openBrace :: (Document.memberPieces members ++ [.closeBrace])

def Document.itemPieces : List Document → List Piece
  | [] => []
  | [d] => d.pieces
  | d :: rest => d.pieces ++ .comma :: Document.itemPieces rest

def Document.memberPieces : List (List Glyph × Document) → List Piece
  | [] => []
  | [(key, d)] => .text key :: .colon :: d.pieces
  | (key, d) :: rest => .text key :: .colon :: (d.pieces ++ .comma :: Document.memberPieces rest)

end

theorem Document.itemPieces_cons_cons (d e : Document) (items : List Document) :
    Document.itemPieces (d :: e :: items) = d.pieces ++ .comma :: Document.itemPieces (e :: items) := by
  rw [Document.itemPieces.eq_3 _ _ (List.cons_ne_nil _ _)]

theorem Document.memberPieces_cons_cons (key : List Glyph) (d : Document) (m : List Glyph × Document)
    (members : List (List Glyph × Document)) :
    Document.memberPieces ((key, d) :: m :: members) = .text key :: .colon ::
      (d.pieces ++ .comma :: Document.memberPieces (m :: members)) := by
  rw [Document.memberPieces.eq_3 _ _ _ (List.cons_ne_nil _ _)]

mutual

/-- A value in the spelling that is written. -/
def Value.document : Value → Document
  | .null => .null
  | .boolean b => .boolean b
  | .integer n => .number (.ofInt n)
  | .text s => .text (Glyph.ofText s)
  | .array items => .array (Value.itemDocuments items)
  | .object members => .object (Value.memberDocuments members)

def Value.itemDocuments : List Value → List Document
  | [] => []
  | v :: rest => v.document :: Value.itemDocuments rest

def Value.memberDocuments : List (String × Value) → List (List Glyph × Document)
  | [] => []
  | (key, v) :: rest => (Glyph.ofText key, v.document) :: Value.memberDocuments rest

end

mutual

/-- What a tree says of a document. -/
inductive Document.Fits : Document → Tree → Prop
  | null : Document.Fits .null .null
  | boolean (b : Bool) : Document.Fits (.boolean b) (.boolean b)
  | number {f : Figure} {read : Except Fault Number}
      (h : ∀ n : Int, f = .ofInt n → -0x8000000000000000 ≤ n → n < 0x10000000000000000 →
        read = .ok (.integer n)) :
      Document.Fits (.number f) (.number read)
  | text {gs : List Glyph} {read : Except Fault String}
      (h : ∀ s, read = .ok s ↔ Glyph.denoted? gs = some s) : Document.Fits (.text gs) (.text read)
  | array {items : List Document} {trees : List Tree} (h : Document.FitItems items trees) :
      Document.Fits (.array items) (.array trees)
  | object {members : List (List Glyph × Document)} {trees : List (Except Fault String × Tree)}
      (h : Document.FitMembers members trees) : Document.Fits (.object members) (.object trees)

inductive Document.FitItems : List Document → List Tree → Prop
  | nil : Document.FitItems [] []
  | cons {d : Document} {t : Tree} {items : List Document} {trees : List Tree} (h : d.Fits t)
      (hs : Document.FitItems items trees) : Document.FitItems (d :: items) (t :: trees)

inductive Document.FitMembers :
    List (List Glyph × Document) → List (Except Fault String × Tree) → Prop
  | nil : Document.FitMembers [] []
  | cons {key : List Glyph} {read : Except Fault String} {d : Document} {t : Tree}
      {members : List (List Glyph × Document)} {trees : List (Except Fault String × Tree)}
      (hkey : ∀ s, read = .ok s ↔ Glyph.denoted? key = some s) (h : d.Fits t)
      (hs : Document.FitMembers members trees) :
      Document.FitMembers ((key, d) :: members) ((read, t) :: trees)

end

/-! ## Numbers stay apart -/

theorem apart_cons {p : Piece} {ps : List Piece} (hp : ¬ p.IsNumber) (h : Apart ps) :
    Apart (p :: ps) := by
  cases ps with
  | nil => exact .singleton p
  | cons q ps => exact .cons_cons (fun hnumber => absurd hnumber hp) h

theorem apart_cons_of_head {p : Piece} {ps : List Piece} (hps : ∀ q ∈ ps.head?, ¬ q.IsNumber)
    (h : Apart ps) : Apart (p :: ps) := by
  cases ps with
  | nil => exact .singleton p
  | cons q ps => exact .cons_cons (fun _ => hps q rfl) h

mutual

/-- The words of a document, with others after them that do not begin with a number. -/
theorem Document.apart : (d : Document) → (rest : List Piece) → (∀ q ∈ rest.head?, ¬ q.IsNumber) →
    Apart rest → Apart (d.pieces ++ rest)
  | .null, _, _, h | .boolean _, _, _, h | .text _, _, _, h => apart_cons nofun h
  | .number _, _, hrest, h => apart_cons_of_head hrest h
  | .array items, rest, hrest, h => by
    rw [Document.pieces, List.cons_append, List.append_assoc]
    exact apart_cons nofun (Document.apartItems items _ nofun (apart_cons nofun h))
  | .object members, rest, hrest, h => by
    rw [Document.pieces, List.cons_append, List.append_assoc]
    exact apart_cons nofun (Document.apartMembers members _ nofun (apart_cons nofun h))

theorem Document.apartItems : (items : List Document) → (rest : List Piece) →
    (∀ q ∈ rest.head?, ¬ q.IsNumber) → Apart rest → Apart (Document.itemPieces items ++ rest)
  | [], _, _, h => h
  | [d], rest, hrest, h => Document.apart d rest hrest h
  | d :: e :: items, rest, hrest, h => by
    rw [Document.itemPieces_cons_cons, List.append_assoc]
    exact Document.apart d _ nofun
      (apart_cons nofun (Document.apartItems (e :: items) rest hrest h))

theorem Document.apartMembers : (members : List (List Glyph × Document)) → (rest : List Piece) →
    (∀ q ∈ rest.head?, ¬ q.IsNumber) → Apart rest → Apart (Document.memberPieces members ++ rest)
  | [], _, _, h => h
  | [(key, d)], rest, hrest, h =>
    apart_cons nofun (apart_cons nofun (Document.apart d rest hrest h))
  | (key, d) :: m :: members, rest, hrest, h => by
    rw [Document.memberPieces_cons_cons, List.cons_append, List.cons_append, List.append_assoc]
    exact apart_cons nofun (apart_cons nofun (Document.apart d _ nofun
      (apart_cons nofun (Document.apartMembers (m :: members) rest hrest h))))

end

/-! ## The tree of a document -/

theorem forall₂_append_left {α β : Type} {R : α → β → Prop} {as as' : List α} {bs : List β}
    (h : List.Forall₂ R (as ++ as') bs) :
    ∃ cs cs', bs = cs ++ cs' ∧ List.Forall₂ R as cs ∧ List.Forall₂ R as' cs' := by
  induction as generalizing bs with
  | nil => exact ⟨[], bs, rfl, .nil, h⟩
  | cons a as ih =>
    obtain ⟨b, bs, hb, hbs, rfl⟩ := List.forall₂_cons_left_iff.1 h
    obtain ⟨cs, cs', rfl, hcs, hcs'⟩ := ih hbs
    exact ⟨b :: cs, cs', rfl, .cons hb hcs, hcs'⟩

theorem forall₂_singleton_left {α β : Type} {R : α → β → Prop} {a : α} {bs : List β}
    (h : List.Forall₂ R [a] bs) : ∃ b, R a b ∧ bs = [b] := by
  obtain ⟨b, bs, hb, hbs, rfl⟩ := List.forall₂_cons_left_iff.1 h
  cases hbs
  exact ⟨b, hb, rfl⟩

variable {ls : List Lexeme}

/-- A key and its colon. -/
theorem exists_key {gs : List Glyph} {ps : List Piece}
    (h : List.Forall₂ Piece.Gives (.text gs :: .colon :: ps) ls) :
    ∃ read ls', ls = .text read (.ok ()) :: .colon :: ls' ∧
      (∀ s, read = .ok s ↔ Glyph.denoted? gs = some s) ∧ List.Forall₂ Piece.Gives ps ls' := by
  obtain ⟨_, ls, ⟨read, rfl, hread⟩, hcolon, rfl⟩ := List.forall₂_cons_left_iff.1 h
  obtain ⟨_, ls, rfl, hps, rfl⟩ := List.forall₂_cons_left_iff.1 hcolon
  exact ⟨read, ls, rfl, hread, hps⟩

mutual

/-- What the words of a document are to a reader makes a tree that fits. -/
theorem Document.exists_tree : (d : Document) → (ls : List Lexeme) →
    List.Forall₂ Piece.Gives d.pieces ls → ∃ t, d.Fits t ∧ t.lexemes = ls
  | .null, ls, h => by
    obtain ⟨_, rfl, rfl⟩ := forall₂_singleton_left h
    exact ⟨.null, .null, rfl⟩
  | .boolean b, ls, h => by
    obtain ⟨_, rfl, rfl⟩ := forall₂_singleton_left h
    exact ⟨.boolean b, .boolean b, rfl⟩
  | .number f, ls, h => by
    obtain ⟨_, ⟨read, rfl, hread⟩, rfl⟩ := forall₂_singleton_left h
    exact ⟨.number read, .number hread, rfl⟩
  | .text gs, ls, h => by
    obtain ⟨_, ⟨read, rfl, hread⟩, rfl⟩ := forall₂_singleton_left h
    exact ⟨.text read, .text hread, rfl⟩
  | .array items, ls, h => by
    obtain ⟨_, ls, rfl, hinner, rfl⟩ := List.forall₂_cons_left_iff.1 h
    obtain ⟨ls, last, rfl, hitems, hlast⟩ := forall₂_append_left hinner
    obtain ⟨_, rfl, rfl⟩ := forall₂_singleton_left hlast
    obtain ⟨trees, htrees, rfl⟩ := Document.exists_itemTrees items ls hitems
    exact ⟨.array trees, .array htrees, rfl⟩
  | .object members, ls, h => by
    obtain ⟨_, ls, rfl, hinner, rfl⟩ := List.forall₂_cons_left_iff.1 h
    obtain ⟨ls, last, rfl, hmembers, hlast⟩ := forall₂_append_left hinner
    obtain ⟨_, rfl, rfl⟩ := forall₂_singleton_left hlast
    obtain ⟨trees, htrees, rfl⟩ := Document.exists_memberTrees members ls hmembers
    exact ⟨.object trees, .object htrees, rfl⟩

theorem Document.exists_itemTrees : (items : List Document) → (ls : List Lexeme) →
    List.Forall₂ Piece.Gives (Document.itemPieces items) ls →
    ∃ trees, Document.FitItems items trees ∧ Tree.itemsLexemes trees = ls
  | [], ls, h => by
    cases h
    exact ⟨[], .nil, rfl⟩
  | [d], ls, h => by
    obtain ⟨t, ht, rfl⟩ := Document.exists_tree d ls h
    exact ⟨[t], .cons ht .nil, rfl⟩
  | d :: e :: items, ls, h => by
    rw [Document.itemPieces_cons_cons] at h
    obtain ⟨ls, more, rfl, hd, hcomma⟩ := forall₂_append_left h
    obtain ⟨_, more, rfl, hmore, rfl⟩ := List.forall₂_cons_left_iff.1 hcomma
    obtain ⟨t, ht, rfl⟩ := Document.exists_tree d ls hd
    obtain ⟨_, htrees, rfl⟩ := Document.exists_itemTrees (e :: items) more hmore
    cases htrees with
    | cons hu htrees =>
      exact ⟨_, .cons ht (.cons hu htrees), Tree.itemsLexemes_cons_cons ..⟩

theorem Document.exists_memberTrees : (members : List (List Glyph × Document)) →
    (ls : List Lexeme) → List.Forall₂ Piece.Gives (Document.memberPieces members) ls →
    ∃ trees, Document.FitMembers members trees ∧ Tree.membersLexemes trees = ls
  | [], ls, h => by
    cases h
    exact ⟨[], .nil, rfl⟩
  | [(key, d)], ls, h => by
    obtain ⟨read, ls, rfl, hread, h⟩ := exists_key h
    obtain ⟨t, ht, rfl⟩ := Document.exists_tree d ls h
    exact ⟨[(read, t)], .cons hread ht .nil, rfl⟩
  | (key, d) :: m :: members, ls, h => by
    rw [Document.memberPieces_cons_cons] at h
    obtain ⟨read, ls, rfl, hread, h⟩ := exists_key h
    obtain ⟨ls, more, rfl, hd, hcomma⟩ := forall₂_append_left h
    obtain ⟨_, more, rfl, hmore, rfl⟩ := List.forall₂_cons_left_iff.1 hcomma
    obtain ⟨t, ht, rfl⟩ := Document.exists_tree d ls hd
    obtain ⟨_, htrees, rfl⟩ := Document.exists_memberTrees (m :: members) more hmore
    cases htrees with
    | cons hkey hu htrees =>
      exact ⟨_, .cons hread ht (.cons hkey hu htrees), Tree.membersLexemes_cons_cons ..⟩

end

/-- The outline of a text has a tree that fits its document, and nothing follows it. -/
theorem Document.outline {d : Document} {bytes : List UInt8} (h : Spaced d.pieces bytes) :
    ∃ t node, d.Fits t ∧ node.Is t ∧ Outline.ofBytes bytes = ⟨node, none⟩ := by
  have hapart : Apart d.pieces := by
    have happend := d.apart [] nofun .nil
    rwa [List.append_nil] at happend
  have htokens := h.tokensFrom hapart 0
  obtain ⟨t, ht, hlexemes⟩ := d.exists_tree _ (List.forall₂_map_right_iff.2 htokens)
  obtain ⟨node, hnode, houtline⟩ := Outline.of_tokens hlexemes.symm
  exact ⟨t, node, ht, hnode, houtline⟩

/-- A text is decoded as its document is read. -/
theorem decode_spaced {d : Document} {bytes : List UInt8} (h : Spaced d.pieces bytes) :
    ∃ t node, d.Fits t ∧ node.Is t ∧
      ∀ {α : Type} (read : Node → Except Fault α), decode read bytes = read node := by
  obtain ⟨t, node, ht, hnode, houtline⟩ := Document.outline h
  refine ⟨t, node, ht, hnode, fun read => ?_⟩
  rw [decode, houtline]
  cases read node <;> rfl

/-! ## Written values -/

mutual

/-- The tree of a value is the only one that fits its document. -/
theorem Value.tree_of_fits : (v : Value) → (t : Tree) → v.Narrow → v.document.Fits t → t = v.tree
  | .null, _, _, .null | .boolean _, _, _, .boolean _ => rfl
  | .integer n, _, hv, .number h => by rw [h n rfl hv.1 hv.2]; rfl
  | .text s, _, _, .text h => by rw [(h s).2 (Glyph.denoted?_ofText s)]; rfl
  | .array items, _, hv, .array h => by rw [Value.tree, Value.itemTrees_of_fit items _ hv h]
  | .object members, _, hv, .object h => by rw [Value.tree, Value.memberTrees_of_fit members _ hv h]

theorem Value.itemTrees_of_fit : (items : List Value) → (trees : List Tree) →
    Value.NarrowItems items → Document.FitItems (Value.itemDocuments items) trees →
    trees = Value.itemTrees items
  | [], _, _, .nil => rfl
  | v :: items, _, hv, .cons h hs => by
    rw [Value.itemTrees, Value.tree_of_fits v _ hv.1 h, Value.itemTrees_of_fit items _ hv.2 hs]

theorem Value.memberTrees_of_fit : (members : List (String × Value)) →
    (trees : List (Except Fault String × Tree)) → Value.NarrowMembers members →
    Document.FitMembers (Value.memberDocuments members) trees → trees = Value.memberTrees members
  | [], _, _, .nil => rfl
  | (key, v) :: members, _, hv, .cons hkey h hs => by
    rw [Value.memberTrees, Value.tree_of_fits v _ hv.1 h, Value.memberTrees_of_fit members _ hv.2 hs,
      (hkey key).2 (Glyph.denoted?_ofText key)]

end

mutual

theorem Value.fits_tree : (v : Value) → v.document.Fits v.tree
  | .null => .null
  | .boolean b => .boolean b
  | .integer n => .number fun m hm _ _ => by rw [Figure.ofInt_inj hm]
  | .text s => .text fun r => by rw [Glyph.denoted?_ofText, Except.ok.injEq, Option.some.injEq]
  | .array items => .array (Value.fit_itemTrees items)
  | .object members => .object (Value.fit_memberTrees members)

theorem Value.fit_itemTrees : (items : List Value) →
    Document.FitItems (Value.itemDocuments items) (Value.itemTrees items)
  | [] => .nil
  | v :: items => .cons v.fits_tree (Value.fit_itemTrees items)

theorem Value.fit_memberTrees : (members : List (String × Value)) →
    Document.FitMembers (Value.memberDocuments members) (Value.memberTrees members)
  | [] => .nil
  | (key, v) :: members =>
    .cons (fun r => by rw [Glyph.denoted?_ofText, Except.ok.injEq, Option.some.injEq]) v.fits_tree
      (Value.fit_memberTrees members)

end

/-- Words with the same white space before each of them. -/
theorem spaced_flatMap {space : List UInt8} (h : ∀ b ∈ space, b ∈ blanks) (ps : List Piece) :
    Spaced ps (ps.flatMap fun p => space ++ p.bytes) := by
  induction ps with
  | nil => exact .nil nofun
  | cons p ps ih =>
    rw [List.flatMap_cons, List.append_assoc]
    exact .cons h ih

theorem bytes_text_ofText (s : String) :
    (Piece.text (Glyph.ofText s)).bytes = encoded (Quoted.quote s) := by
  rw [Quoted.encoded_quote, ← Glyph.bytes_ofText]
  rfl

mutual

/-- The words of a value, one after the other, are its text. -/
theorem Value.flatMap_pieces : (v : Value) → v.document.pieces.flatMap Piece.bytes = encoded v.chars
  | .null => rfl
  | .boolean true => rfl
  | .boolean false => rfl
  | .integer n => (List.append_nil _).trans (Figure.bytes_ofInt n)
  | .text s => (List.append_nil _).trans (bytes_text_ofText s)
  | .array items => by
    have hitems := Value.flatMap_itemPieces items
    calc (Value.array items).document.pieces.flatMap Piece.bytes
        = 91 :: ((Document.itemPieces (Value.itemDocuments items)).flatMap Piece.bytes ++ [93]) := by
          rw [Value.document, Document.pieces, List.flatMap_cons, List.flatMap_append]
          rfl
      _ = encoded (Value.array items).chars := by
          rw [hitems, Value.chars, encoded_cons, encoded_append]
          rfl
  | .object members => by
    have hmembers := Value.flatMap_memberPieces members
    calc (Value.object members).document.pieces.flatMap Piece.bytes
        = 123 :: ((Document.memberPieces (Value.memberDocuments members)).flatMap Piece.bytes ++
            [125]) := by
          rw [Value.document, Document.pieces, List.flatMap_cons, List.flatMap_append]
          rfl
      _ = encoded (Value.object members).chars := by
          rw [hmembers, Value.chars, encoded_cons, encoded_append]
          rfl

theorem Value.flatMap_itemPieces : (items : List Value) →
    (Document.itemPieces (Value.itemDocuments items)).flatMap Piece.bytes =
      encoded (Value.itemsChars items)
  | [] => rfl
  | [v] => Value.flatMap_pieces v
  | v :: w :: items => by
    have hitems := Value.flatMap_itemPieces (w :: items)
    rw [Value.itemsChars_cons_cons, encoded_append, encoded_cons, ← hitems, ← Value.flatMap_pieces v]
    show (Document.itemPieces (v.document :: w.document :: Value.itemDocuments items)).flatMap _ = _
    rw [Document.itemPieces_cons_cons, List.flatMap_append]
    rfl

theorem Value.flatMap_memberPieces : (members : List (String × Value)) →
    (Document.memberPieces (Value.memberDocuments members)).flatMap Piece.bytes =
      encoded (Value.membersChars members)
  | [] => rfl
  | [(key, v)] => by
    rw [Value.membersChars, encoded_append, encoded_cons, ← Value.flatMap_pieces v,
      ← bytes_text_ofText]
    rfl
  | (key, v) :: m :: members => by
    have hmembers := Value.flatMap_memberPieces (m :: members)
    rw [Value.membersChars_cons_cons, encoded_append, encoded_append, encoded_cons, encoded_cons ',',
      ← hmembers, ← Value.flatMap_pieces v, ← bytes_text_ofText]
    show (Document.memberPieces ((Glyph.ofText key, v.document) :: (Glyph.ofText m.1, m.2.document) ::
      Value.memberDocuments members)).flatMap _ = _
    rw [Document.memberPieces_cons_cons, List.flatMap_cons, List.flatMap_cons, List.flatMap_append,
      List.append_assoc]
    rfl

end

/-- The text of a value is that of its document, without white space. -/
theorem Value.spaced (v : Value) : Spaced v.document.pieces v.bytes := by
  rw [Value.bytes_eq, ← Value.flatMap_pieces]
  exact @spaced_flatMap [] nofun _

/-- A reader of all parts with the tree of a value reads its text. -/
theorem decode_bytes {α : Type} {read : Node → Except Fault α} {v : Value} {a : α} (hv : v.Narrow)
    (h : ∀ node : Node, node.Is v.tree → read node = .ok a) : decode read v.bytes = .ok a := by
  obtain ⟨t, node, hfits, hnode, hdecode⟩ := decode_spaced v.spaced
  rw [v.tree_of_fits t hv hfits] at hnode
  rw [hdecode, h node hnode]

end SubnetRegistry.Json
