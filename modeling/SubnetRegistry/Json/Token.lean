import SubnetRegistry.Json.Number
import SubnetRegistry.Json.Text

/-!
# Tokens of a JSON text

The words of a text with their offsets. A number or a text token carries what comes of it in each of
the two ways of passing it: when its value is read, and when it is skipped. The last token may be
broken; what follows it is not looked at.

## Main definitions

* `Token` — a lexeme from `start` to `stop`.
* `tokens` — the tokens of a list of bytes, white space left out.
-/
namespace SubnetRegistry.Json

inductive Word where
  | null
  | boolean (b : Bool)
  deriving DecidableEq, Repr

inductive Lexeme where
  | openBrace
  | closeBrace
  | openBracket
  | closeBracket
  | comma
  | colon
  | word (w : Word)
  | number (read : Except Fault Number)
  | text (read : Except Fault String) (skip : Except Fault Unit)
  /-- A word or a number that breaks off, or a byte that starts nothing. -/
  | broken (read skip : Fault)

structure Token where
  start : Nat
  stop : Nat
  lexeme : Lexeme

/-- Whether nothing can be said of what follows the token. -/
def Token.isLast (t : Token) : Bool :=
  match t.lexeme with
  | .broken .. | .text _ (.error _) => true
  | _ => false

def isSpace (b : UInt8) : Bool := b == 32 || b == 9 || b == 10 || b == 13

/-- The token of a word whose first letter is at `start`, from the letters due after it. -/
def Token.ofWord (start : Nat) (w : Word) : List UInt8 → List UInt8 → Nat → Token
  | [], _, offset => ⟨start, offset, .word w⟩
  | _ :: _, [], offset =>
    ⟨start, offset, .broken (.at .endInValue offset) (.at .endInValue offset)⟩
  | due :: more, b :: rest, offset =>
    if b == due then ofWord start w more rest (offset + 1)
    else ⟨start, offset, .broken (.at .wordExpected (offset + 1)) (.at .wordExpected (offset + 1))⟩

/-- The token of a numeral. Where the text ends inside one, reading it and skipping it differ in the
fault. -/
def Token.ofNumeral (start : Nat) (bytes : List UInt8) : Token :=
  match Numeral.scan bytes with
  | .ok numeral =>
    let read := match numeral.value with
      | .ok number => .ok number
      | .error length => .error (.at .numberOutOfRange (start + length))
    ⟨start, start + numeral.length, .number read⟩
  | .error (.after length) =>
    let fault := Fault.at .badNumber (start + length)
    ⟨start, start + length, .broken fault fault⟩
  | .error (.atEnd length) =>
    let stop := start + length
    ⟨start, stop, .broken (.at .endInValue stop) (.at .badNumber stop)⟩

def Token.ofText (start : Nat) (bytes : List UInt8) : Token :=
  let read := (Quoted.read bytes (start + 1)).map (·.1)
  match Quoted.skip bytes (start + 1) with
  | .ok stop => ⟨start, stop, .text read (.ok ())⟩
  | .error fault => ⟨start, start + 1, .text read (.error fault)⟩

def Token.first (start : Nat) (b : UInt8) (rest : List UInt8) : Token :=
  if b == 123 then ⟨start, start + 1, .openBrace⟩
  else if b == 125 then ⟨start, start + 1, .closeBrace⟩
  else if b == 91 then ⟨start, start + 1, .openBracket⟩
  else if b == 93 then ⟨start, start + 1, .closeBracket⟩
  else if b == 44 then ⟨start, start + 1, .comma⟩
  else if b == 58 then ⟨start, start + 1, .colon⟩
  else if b == 110 then ofWord start .null [117, 108, 108] rest (start + 1)
  else if b == 116 then ofWord start (.boolean true) [114, 117, 101] rest (start + 1)
  else if b == 102 then ofWord start (.boolean false) [97, 108, 115, 101] rest (start + 1)
  else if b == 34 then ofText start rest
  else if b == 45 || isDigit b then ofNumeral start (b :: rest)
  else
    let fault := Fault.at .valueExpected (start + 1)
    ⟨start, start + 1, .broken fault fault⟩

/-- The tokens from `offset` on, after `pending` more bytes of the token before. -/
def tokensFrom (offset : Nat) : Nat → List UInt8 → List Token
  | _, [] => []
  | pending + 1, _ :: rest => tokensFrom (offset + 1) pending rest
  | 0, b :: rest =>
    if isSpace b then tokensFrom (offset + 1) 0 rest
    else
      let t := Token.first offset b rest
      if t.isLast then [t] else t :: tokensFrom (offset + 1) (t.stop - offset - 1) rest

def tokens (bytes : List UInt8) : List Token := tokensFrom 0 0 bytes

end SubnetRegistry.Json
