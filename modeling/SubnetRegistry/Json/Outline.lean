import SubnetRegistry.Json.Token

/-!
# Outline of a JSON text

The tree of a text with the offsets of its parts. It is there for every text: where a text stops
being JSON, the tree says how, and holds everything before. Two ways of going through it share it,
reading and skipping; they differ in what they ask of numbers and texts, and in some of the faults.

## Main definitions

* `Node` — a part of a text.
* `Ending` — how a container ends.
* `Outline` — the tree of a text, and the offset of what follows it.
* `Outline.ofBytes` — the outline of a text, from its tokens.
* `Node.skip` — the first fault of a part that is skipped.
-/
namespace SubnetRegistry.Json

inductive Ending where
  | closed (stop : Nat)
  /-- The text ends where a comma or the closing bracket is due. -/
  | unfinished (stop : Nat)
  /-- A byte stands where a comma or the closing bracket is due. -/
  | unseparated (start : Nat)
  /-- The closing bracket follows a comma. -/
  | dangling (start : Nat)
  /-- Something else stands where a key is due. -/
  | keyless (start : Nat)
  /-- The text ends where a key is due after a comma. -/
  | expecting (stop : Nat)
  /-- The last part breaks off. -/
  | inside

def Ending.readArray : Ending → Except Fault Nat
  | .closed stop => .ok stop
  | .unfinished stop => .error (.at .endInList stop)
  | .dangling start => .error (.at .trailingComma (start + 1))
  | .unseparated start | .keyless start => .error (.at .commaOrBracketExpected (start + 1))
  | .expecting stop => .error (.at .endInValue stop)
  | .inside => .ok 0

def Ending.skipArray : Ending → Except Fault Unit
  | .dangling start => .error (.at .valueExpected (start + 1))
  | ending => ending.readArray.map fun _ => ()

/-- The offset after the closing bracket of an array that is read as a record, when its fields have
been read. -/
def Ending.readFields : Ending → Except Fault Nat
  | .unseparated start => .error (.at .trailingCharacters (start + 1))
  | ending => ending.readArray

def Ending.readObject : Ending → Except Fault Nat
  | .closed stop => .ok stop
  | .unfinished stop => .error (.at .endInObject stop)
  | .dangling start => .error (.at .trailingComma (start + 1))
  | .unseparated start => .error (.at .commaOrBraceExpected (start + 1))
  | .keyless start => .error (.at .keyNotText (start + 1))
  | .expecting stop => .error (.at .endInValue stop)
  | .inside => .ok 0

def Ending.skipObject : Ending → Except Fault Unit
  | .dangling start => .error (.at .keyNotText (start + 1))
  | .expecting stop => .error (.at .endInObject stop)
  | ending => ending.readObject.map fun _ => ()

/-- The key of a member. It ends at `stop`, and `settled` is the offset that is reached by looking for
the end of the object right after it. -/
structure Key where
  read : Except Fault String
  skip : Except Fault Unit
  stop : Nat
  settled : Nat
  colon : Except Fault Unit

mutual

/-- A part of a text. -/
inductive Node where
  | null (start stop : Nat)
  | boolean (b : Bool) (start stop : Nat)
  | number (read : Except Fault Number) (start stop : Nat)
  | text (read : Except Fault String) (skip : Except Fault Unit) (start stop : Nat)
  | array (items : List Node) (ending : Ending) (start : Nat)
  | object (members : List Member) (ending : Ending) (start : Nat)
  /-- A word or a number that breaks off, or a byte that starts nothing. -/
  | broken (read skip : Fault) (start : Nat)
  /-- The end of the text, where a value is due. -/
  | absent (stop : Nat)

/-- A key with its value, and the offset of what follows them. -/
inductive Member where
  | mk (key : Key) (value : Node) (next : Nat)

end

def Member.key : Member → Key
  | .mk key _ _ => key

def Member.value : Member → Node
  | .mk _ value _ => value

def Member.next : Member → Nat
  | .mk _ _ next => next

/-- The offset that a complaint about the first byte of a part gets. -/
def Node.firstByte : Node → Nat
  | .null start _ | .boolean _ start _ | .number _ start _ | .text _ _ start _ | .array _ _ start
  | .object _ _ start | .broken _ _ start => start + 1
  | .absent stop => stop

mutual

/-- The first fault of a part that is skipped. -/
def Node.skip : Node → Except Fault Unit
  | .null .. | .boolean .. | .number .. => .ok ()
  | .text _ skip _ _ => skip
  | .array items ending _ => do
    Node.skipItems items
    ending.skipArray
  | .object members ending _ => do
    Node.skipMembers members
    ending.skipObject
  | .broken _ fault _ => .error fault
  | .absent stop => .error (.at .endInValue stop)

def Node.skipItems : List Node → Except Fault Unit
  | [] => .ok ()
  | node :: rest => do
    node.skip
    Node.skipItems rest

def Member.skip : Member → Except Fault Unit
  | .mk key value _ => do
    key.skip
    key.colon
    value.skip

def Node.skipMembers : List Member → Except Fault Unit
  | [] => .ok ()
  | member :: rest => do
    member.skip
    Node.skipMembers rest

end

/-! ## Building -/

/-- The place of a value: the containers around it, with their parts so far in reverse. -/
inductive Context where
  | top
  | item (start : Nat) (before : List Node) (outer : Context)
  | member (start : Nat) (before : List Member) (key : Key) (outer : Context)

/-- The whole tree, if `node` stands in the place and is the last thing in it. -/
def Context.plug : Context → Node → Node
  | .top, node => node
  | .item start before outer, node =>
    outer.plug (.array (node :: before).reverse .inside start)
  | .member start before key outer, node =>
    outer.plug (.object (.mk key node 0 :: before).reverse .inside start)

/-- What has been built, and what may come next. -/
inductive Stage where
  | value (c : Context)
  | nextItem (start : Nat) (items : List Node) (outer : Context)
  | key (start : Nat) (members : List Member) (outer : Context)
  | colon (start : Nat) (members : List Member) (read : Except Fault String) (stop : Nat)
    (outer : Context)
  | nextMember (start : Nat) (before : List Member) (key : Key) (value : Node) (outer : Context)
  | finished (node : Node)

def Context.complete : Context → Node → Stage
  | .top, node => .finished node
  | .item start before outer, node => .nextItem start (node :: before) outer
  | .member start before key outer, node => .nextMember start before key node outer

/-- The tree in which the place holds something that breaks off. -/
def Context.breakOff (c : Context) (node : Node) : Stage := .finished (c.plug node)

/-- The stage after a token where a value is due. -/
def Context.step (c : Context) (t : Token) : Stage :=
  match t.lexeme with
  | .openBracket => .value (.item t.start [] c)
  | .openBrace => .key t.start [] c
  | .word .null => c.complete (.null t.start t.stop)
  | .word (.boolean b) => c.complete (.boolean b t.start t.stop)
  | .number read => c.complete (.number read t.start t.stop)
  | .text read (.ok ()) => c.complete (.text read (.ok ()) t.start t.stop)
  | .text read (.error fault) => c.breakOff (.text read (.error fault) t.start t.stop)
  | .broken read skip => c.breakOff (.broken read skip t.start)
  | .closeBracket =>
    match c with
    | .item start [] outer => outer.complete (.array [] (.closed t.stop) start)
    | .item start before outer =>
      outer.breakOff (.array before.reverse (.dangling t.start) start)
    | _ => c.breakOff (.broken (.at .valueExpected t.stop) (.at .valueExpected t.stop) t.start)
  | .closeBrace | .comma | .colon =>
    c.breakOff (.broken (.at .valueExpected t.stop) (.at .valueExpected t.stop) t.start)

def Stage.step (t : Token) : Stage → Stage
  | .value c => c.step t
  | .nextItem start items outer =>
    match t.lexeme with
    | .comma => .value (.item start items outer)
    | .closeBracket => outer.complete (.array items.reverse (.closed t.stop) start)
    | _ => outer.breakOff (.array items.reverse (.unseparated t.start) start)
  | .key start members outer =>
    match t.lexeme with
    | .text read (.ok ()) => .colon start members read t.stop outer
    | .text read (.error fault) =>
      let key := ⟨read, .error fault, t.stop, t.stop, .ok ()⟩
      outer.breakOff (.object (.mk key (.absent t.stop) t.stop :: members).reverse .inside start)
    | .closeBrace =>
      match members with
      | [] => outer.complete (.object [] (.closed t.stop) start)
      | _ => outer.breakOff (.object members.reverse (.dangling t.start) start)
    | _ => outer.breakOff (.object members.reverse (.keyless t.start) start)
  | .colon start members read stop outer =>
    match t.lexeme with
    | .colon => .value (.member start members ⟨read, .ok (), stop, t.start, .ok ()⟩ outer)
    | lexeme =>
      let settled := match lexeme with
        | .closeBrace => t.stop
        | _ => t.start
      let key := ⟨read, .ok (), stop, settled, .error (.at .colonExpected (t.start + 1))⟩
      outer.breakOff (.object (.mk key (.absent t.start) t.start :: members).reverse .inside start)
  | .nextMember start before k v outer =>
    let members := .mk k v t.start :: before
    match t.lexeme with
    | .comma => .key start members outer
    | .closeBrace => outer.complete (.object members.reverse (.closed t.stop) start)
    | _ => outer.breakOff (.object members.reverse (.unseparated t.start) start)
  | .finished node => .finished node

def Stage.atEnd (size : Nat) : Stage → Node
  | .value (.item start [] outer) => outer.plug (.array [] (.unfinished size) start)
  | .value c => c.plug (.absent size)
  | .nextItem start items outer => outer.plug (.array items.reverse (.unfinished size) start)
  | .key start [] outer => outer.plug (.object [] (.unfinished size) start)
  | .key start members outer => outer.plug (.object members.reverse (.expecting size) start)
  | .colon start members read stop outer =>
    let key := ⟨read, .ok (), stop, size, .error (.at .endInObject size)⟩
    outer.plug (.object (.mk key (.absent size) size :: members).reverse .inside start)
  | .nextMember start before k v outer =>
    outer.plug (.object (.mk k v size :: before).reverse (.unfinished size) start)
  | .finished node => node

/-- The tree of a text, and the offset of the first byte after it that is not white space. -/
structure Outline where
  root : Node
  trailing : Option Nat

/-- The outline of a text that goes on with the given tokens and ends at `size`. -/
def Stage.run (size : Nat) : Stage → List Token → Outline
  | .finished node, rest => ⟨node, rest.head?.map (·.start)⟩
  | stage, [] => ⟨stage.atEnd size, none⟩
  | stage, t :: rest => (stage.step t).run size rest

def Outline.ofBytes (bytes : List UInt8) : Outline :=
  (Stage.value .top).run bytes.length (tokens bytes)

end SubnetRegistry.Json
