import SubnetRegistry.Identifier
import SubnetRegistry.Text.Separated

/-!
# Names

A name is a path of segments with slashes between them, each a DNS label: 1 to 63 lower-case letters,
digits and hyphens with no hyphen at either end.
-/
namespace SubnetRegistry.Name

/-- The first segment of the name of every subnet that is created. -/
def collection : String := "subnets"

def maxSegmentLength : Nat := 63

/-- Whether a segment is a DNS label. -/
def isLabel (segment : List Char) : Bool :=
  !segment.isEmpty && segment.length ≤ maxSegmentLength && segment.head? != some '-' &&
    segment.getLast? != some '-' && segment.all Identifier.isAllowed

def segments (name : String) : List (List Char) := Text.split '/' name.toList

/-- Refuses a name with its first segment that is not a DNS label. -/
def validate (name : String) : Except SubnetError Unit :=
  match (segments name).find? fun s => !isLabel s with
  | none => .ok ()
  | some segment => .error (.invalidName (String.ofList segment))

def build (collection id : String) : String := collection ++ "/" ++ id

end SubnetRegistry.Name
