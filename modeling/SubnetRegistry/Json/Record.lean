import SubnetRegistry.Json.Outline

/-!
# Reading values of a given shape

A record is written as an object or as an array of its fields in order. As an object it may hold
fields that the record does not have; they are skipped. A field of the record may stand in it once.
A field that is absent has its fallback, if it has one.

A part may have been set aside before its shape was known. It is then read by the same rules, save
that an array that is too long is reported by its length.

## Main definitions

* `Node.asText`, `Node.asInteger`, … — single values.
* `Shape` — the fields of a record and how each is read.
* `Shape.read` — the fields of a part that holds a record.
-/
namespace SubnetRegistry.Json

/-- Where a part is read from: the text itself, or what was set aside of it. -/
inductive Origin where
  | text
  | kept
  deriving DecidableEq, Repr

/-! ## Single values -/

/-- The fault of a part that is not what was expected. A number and a text are read first; of a
container not even the bracket is passed. -/
def Node.refuse (expected : Expectation) : Node → Fault
  | .null _ stop => .at (.wrongType .null expected) stop
  | .boolean b _ stop => .at (.wrongType (.boolean b) expected) stop
  | .number (.ok (.integer n)) _ stop => .at (.wrongType (.integer n) expected) stop
  | .number (.ok (.real x)) _ stop => .at (.wrongType (.real x) expected) stop
  | .number (.error fault) _ _ => fault
  | .text (.ok s) _ _ stop => .at (.wrongType (.text s) expected) stop
  | .text (.error fault) _ _ _ => fault
  | .array _ _ start => .at (.wrongType .sequence expected) start
  | .object _ _ start => .at (.wrongType .map expected) start
  | .broken fault _ _ => fault
  | .absent stop => .at .endInValue stop

/-- A text, where `expected` says what it is to be. -/
def Node.asTextFor (expected : Expectation) : Node → Except Fault String
  | .text read _ _ _ => read
  | node => .error (node.refuse expected)

def Node.asText (node : Node) : Except Fault String := node.asTextFor .text

def Node.asBoolean : Node → Except Fault Bool
  | .boolean b _ _ => .ok b
  | node => .error (node.refuse .boolean)

def Node.asInteger (w : Width) : Node → Except Fault Int
  | .number (.ok (.integer n)) _ stop =>
    if w.least ≤ n && n ≤ w.greatest then .ok n
    else .error (.at (.wrongValue (.integer n) (.integer w)) stop)
  | node => .error (node.refuse (.integer w))

/-- A value that may be unset, which is written as null. -/
def Node.asOption {α : Type} (read : Node → Except Fault α) : Node → Except Fault (Option α)
  | .null .. => .ok none
  | node => some <$> read node

def Node.asList {α : Type} (read : Node → Except Fault α) : Node → Except Fault (List α)
  | .array items ending _ => do
    let values ← items.mapM read
    let _ ← ending.readArray
    return values
  | node => .error (node.refuse .sequence)

/-! ## Records -/

/-- A record with fields of the types `Value`: its name in messages, its fields in order, and for
each field its name, how it is read and what it is if it is absent. -/
structure Shape (F : Type) (Value : F → Type) where
  title : String
  fields : List F
  name : F → String
  read : (f : F) → Origin → Node → Except Fault (Value f)
  fallback : (f : F) → Option (Value f)

/-- The fields of a record that have been found. -/
def Found {F : Type} (Value : F → Type) : Type := (f : F) → Option (Value f)

section

variable {F : Type} [DecidableEq F] {Value : F → Type}

def Found.empty : Found Value := fun _ => none

def Found.set (found : Found Value) (f : F) (v : Value f) : Found Value := fun g =>
  if h : f = g then some (h ▸ v) else found g

@[simp] theorem Found.set_self (found : Found Value) (f : F) (v : Value f) :
    found.set f v f = some v := by simp [Found.set]

@[simp] theorem Found.set_of_ne (found : Found Value) {f g : F} (v : Value f) (h : f ≠ g) :
    found.set f v g = found g := by simp [Found.set, h]

def Shape.field? (s : Shape F Value) (name : String) : Option F :=
  s.fields.find? fun f => s.name f == name

def Shape.addMember (s : Shape F Value) (o : Origin) (found : Found Value) (m : Member) :
    Except Fault (Found Value) := do
  let name ← m.key.read
  match s.field? name with
  | none =>
    m.key.colon
    m.value.skip
    return found
  | some f =>
    if (found f).isSome then throw (.at (.repeatedField name) m.key.settled)
    m.key.colon
    return found.set f (← s.read f o m.value)

/-- The fields found so far and the next items of an array, with the number of those that are
left over. -/
def Shape.addItems (s : Shape F Value) (o : Origin) (found : Found Value) :
    List F → List Node → Except Fault (Found Value × List F × List Node)
  | f :: fields, node :: items => do
    let v ← s.read f o node
    s.addItems o (found.set f v) fields items
  | fields, items => .ok (found, fields, items)

/-- The value of a field that may be absent. -/
def Shape.value (s : Shape F Value) (found : Found Value) (absent : F → Fault) (f : F) :
    Except Fault (Value f) :=
  match (found f).or (s.fallback f) with
  | some v => .ok v
  | none => .error (absent f)

/-- The offset after an array whose fields have been read, of which some items may be left over. -/
def Shape.finishItems (s : Shape F Value) (o : Origin) (count : Nat) (ending : Ending) :
    List F → List Node → Except Fault Nat
  | _ :: _, _ => ending.readArray
  | [], [] => ending.readFields
  | [], node :: _ =>
    match o with
    | .text => .error (.at .trailingCharacters node.firstByte)
    | .kept => .error ⟨.wrongLength count (.items s.fields.length), none⟩

/-- The fields of a record, each by itself. -/
def Shape.read? (s : Shape F Value) (o : Origin) (node : Node) :
    Except Fault ((f : F) → Except Fault (Value f)) :=
  match node with
  | .object members ending _ => do
    let found ← members.foldlM (s.addMember o) Found.empty
    let stop ← ending.readObject
    return s.value found fun f => .at (.missingField (s.name f)) stop
  | .array items ending _ => do
    let (found, fields, rest) ← s.addItems o Found.empty s.fields items
    let stop ← s.finishItems o items.length ending fields rest
    return s.value found fun f =>
      .at (.wrongLength (s.fields.idxOf f) (.fields s.title s.fields.length)) stop
  | node => .error (node.refuse (.titled s.title))

end

/-! ## Whole texts -/

/-- The value of a text that holds one value and nothing else. -/
def decode {α : Type} (read : Node → Except Fault α) (bytes : List UInt8) : Except Fault α := do
  let outline := Outline.ofBytes bytes
  let value ← read outline.root
  match outline.trailing with
  | none => return value
  | some start => throw (.at .trailingCharacters (start + 1))

end SubnetRegistry.Json
