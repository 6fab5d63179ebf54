import SubnetRegistry.Decimal.Layout
import SubnetRegistry.Text.Quoted

/-!
# Faults of a JSON text

What can be wrong with a text that is read as JSON of a given shape, where in the text it shows, and
how it is reported. A place is an offset in bytes; it is reported as a line and a column, both
counted from the last line feed before it.

## Main definitions

* `Cause` — what is wrong.
* `Fault` — a cause with its place, if it has one.
* `Fault.message` — the report, for the text that was read.
-/
namespace SubnetRegistry.Json

/-- The widths of integer that a field may have. -/
inductive Width where
  | u8 | u32 | i32
  deriving DecidableEq, Repr

def Width.least : Width → Int
  | .u8 | .u32 => 0
  | .i32 => -0x80000000

def Width.greatest : Width → Int
  | .u8 => 0xFF
  | .u32 => 0xFFFFFFFF
  | .i32 => 0x7FFFFFFF

def Width.text : Width → String
  | .u8 => "u8"
  | .u32 => "u32"
  | .i32 => "i32"

/-- A value found where another was expected. -/
inductive Sight where
  | null
  | boolean (b : Bool)
  | integer (n : Int)
  | real (x : Float)
  | text (s : String)
  | sequence
  | map

def Sight.describe : Sight → String
  | .null => "null"
  | .boolean b => "boolean `" ++ (if b then "true" else "false") ++ "`"
  | .integer n => "integer `" ++ Decimal.intText n ++ "`"
  | .real x => "floating point `" ++ Decimal.realText x ++ "`"
  | .text s => "string " ++ Text.quoted s
  | .sequence => "sequence"
  | .map => "map"

inductive Expectation where
  | text
  | integer (w : Width)
  | boolean
  | sequence
  | maskPaths
  | variantName
  | unit
  | textOrMap
  | singleEntry
  | titled (title : String)
  deriving DecidableEq, Repr

def Expectation.describe : Expectation → String
  | .text => "a string"
  | .integer w => w.text
  | .boolean => "a boolean"
  | .sequence => "a sequence"
  | .maskPaths => "a string with comma-separated field mask paths"
  | .variantName => "variant identifier"
  | .unit => "unit"
  | .textOrMap => "string or map"
  | .singleEntry => "map with a single key"
  | .titled title => title

/-- The length that a sequence had to have. -/
inductive Extent where
  | fields (title : String) (count : Nat)
  | items (count : Nat)
  deriving DecidableEq, Repr

def elements (count : Nat) : String :=
  if count = 1 then "1 element" else Decimal.natText count ++ " elements"

def Extent.describe : Extent → String
  | .fields title count => title ++ " with " ++ elements count
  | .items count => elements count ++ " in sequence"

/-- What is wrong with a text. -/
inductive Cause where
  | endInValue
  | endInList
  | endInObject
  | endInText
  | valueExpected
  | wordExpected
  | colonExpected
  | commaOrBracketExpected
  | commaOrBraceExpected
  | keyNotText
  | trailingComma
  | trailingCharacters
  | badNumber
  | numberOutOfRange
  | controlCharacter
  | badEscape
  | loneSurrogate
  | unfinishedSurrogatePair
  | badUtf8
  | tooDeep
  | wrongType (found : Sight) (expected : Expectation)
  | wrongValue (found : Sight) (expected : Expectation)
  | wrongLength (found : Nat) (expected : Extent)
  | missingField (name : String)
  | repeatedField (name : String)
  | unknownVariant (name : String) (known : List String)

/-- The report of a cause, without its place. -/
def Cause.describe : Cause → String
  | .endInValue => "EOF while parsing a value"
  | .endInList => "EOF while parsing a list"
  | .endInObject => "EOF while parsing an object"
  | .endInText => "EOF while parsing a string"
  | .valueExpected => "expected value"
  | .wordExpected => "expected ident"
  | .colonExpected => "expected `:`"
  | .commaOrBracketExpected => "expected `,` or `]`"
  | .commaOrBraceExpected => "expected `,` or `\x7d`"
  | .keyNotText => "key must be a string"
  | .trailingComma => "trailing comma"
  | .trailingCharacters => "trailing characters"
  | .badNumber => "invalid number"
  | .numberOutOfRange => "number out of range"
  | .controlCharacter => "control character (\\u0000-\\u001F) found while parsing a string"
  | .badEscape => "invalid escape"
  | .loneSurrogate => "lone leading surrogate in hex escape"
  | .unfinishedSurrogatePair => "unexpected end of hex escape"
  | .badUtf8 => "invalid unicode code point"
  | .tooDeep => "recursion limit exceeded"
  | .wrongType found expected =>
    "invalid type: " ++ found.describe ++ ", expected " ++ expected.describe
  | .wrongValue found expected =>
    "invalid value: " ++ found.describe ++ ", expected " ++ expected.describe
  | .wrongLength found expected =>
    "invalid length " ++ Decimal.natText found ++ ", expected " ++ expected.describe
  | .missingField name => "missing field `" ++ name ++ "`"
  | .repeatedField name => "duplicate field `" ++ name ++ "`"
  | .unknownVariant name known =>
    "unknown variant `" ++ name ++ "`, expected one of " ++
      ", ".intercalate (known.map fun k => "`" ++ k ++ "`")

/-- A cause, and the offset at which it shows. A fault of a value that was set aside and read later
has no place. -/
structure Fault where
  cause : Cause
  place : Option Nat

def Fault.at (cause : Cause) (offset : Nat) : Fault := ⟨cause, some offset⟩

def Fault.unplaced (f : Fault) : Fault := ⟨f.cause, none⟩

/-- The line of an offset, counted from 1, and the number of bytes since the line began. -/
def lineAndColumn (text : List UInt8) (offset : Nat) : Nat × Nat :=
  let before := text.take offset
  (1 + before.count 10, (before.reverse.takeWhile (· != 10)).length)

def Fault.message (text : List UInt8) (f : Fault) : String :=
  match f.place with
  | none => f.cause.describe
  | some offset =>
    let (line, column) := lineAndColumn text offset
    f.cause.describe ++ " at line " ++ Decimal.natText line ++ " column " ++
      Decimal.natText column

end SubnetRegistry.Json
