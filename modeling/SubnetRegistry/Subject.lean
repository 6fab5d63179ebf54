import SubnetRegistry.Text.Separated

/-!
# Subjects

A subject is a list of tokens with dots between them. The operations on subnets have the subjects
`root.subnet.operation`; a service hears all of them under the pattern `root.subnet.*`, where a star
stands for one token.

## Main definitions

* `Operation` — the four operations and their names.
* `Subject.ofOperation`, `Subject.all` — the subject of an operation, and the pattern.
* `Subject.operation?` — the operation of a subject.
* `Subject.matches?` — whether a subject is of a pattern.
-/
namespace SubnetRegistry

inductive Operation where
  | create
  | get
  | update
  | delete
  deriving DecidableEq, Repr

def Operation.all : List Operation := [.create, .get, .update, .delete]

def Operation.text : Operation → String
  | .create => "create"
  | .get => "get"
  | .update => "update"
  | .delete => "delete"

inductive SubjectError where
  | notASubnetSubject (subject : String)
  | unknownOperation (name : String)
  deriving DecidableEq, Repr

def SubjectError.message : SubjectError → String
  | .notASubnetSubject subject => "subject '" ++ subject ++ "' is not a subnet subject"
  | .unknownOperation name => "unknown subnet operation '" ++ name ++ "'"

def Operation.ofText (name : String) : Except SubjectError Operation :=
  match Operation.all.find? fun op => op.text == name with
  | some op => .ok op
  | none => .error (.unknownOperation name)

theorem Operation.ofText_text (op : Operation) : Operation.ofText op.text = .ok op := by
  cases op <;> rfl

namespace Subject

def defaultRoot : String := "opi"

/-- What the subjects under a root start with. -/
def heading (root : String) : String := root ++ ".subnet."

def ofOperation (root : String) (op : Operation) : String := heading root ++ op.text

/-- The pattern of all subjects under a root. -/
def all (root : String) : String := heading root ++ "*"

/-- What follows `start` in a list of characters that begins with it. -/
def dropStart : List Char → List Char → Option (List Char)
  | [], cs => some cs
  | _ :: _, [] => none
  | s :: start, c :: cs => if s = c then dropStart start cs else none

theorem dropStart_eq_some_iff (start cs rest : List Char) :
    dropStart start cs = some rest ↔ cs = start ++ rest := by
  induction start generalizing cs with
  | nil => simp [dropStart]
  | cons s start ih =>
    cases cs with
    | nil => simp [dropStart]
    | cons c cs =>
      by_cases h : s = c
      · simp [dropStart, h, ih]
      · simp [dropStart, h, Ne.symm h]

/-- The operation of a subject under a root. -/
def operation? (root subject : String) : Except SubjectError Operation :=
  match dropStart (heading root).toList subject.toList with
  | some name => Operation.ofText (String.ofList name)
  | none => .error (.notASubnetSubject subject)

def tokens (subject : String) : List (List Char) := Text.split '.' subject.toList

def tokenMatches (pattern token : List Char) : Bool := pattern == ['*'] || pattern == token

def tokensMatch : List (List Char) → List (List Char) → Bool
  | [], [] => true
  | p :: pattern, t :: tokens => tokenMatches p t && tokensMatch pattern tokens
  | _, _ => false

/-- Whether a subject is of a pattern. -/
def matches? (pattern subject : String) : Bool := tokensMatch (tokens pattern) (tokens subject)

end Subject
end SubnetRegistry
