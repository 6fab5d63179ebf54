import SubnetRegistry.Json.Text

/-!
# JSON values and their text

The values that are written, and their one text: no white space, members in the order they are given,
integers in decimal.
-/
namespace SubnetRegistry.Json

/-- A JSON value with integers for numbers. -/
inductive Value where
  | null
  | boolean (b : Bool)
  | integer (n : Int)
  | text (s : String)
  | array (items : List Value)
  | object (members : List (String × Value))

namespace Value

mutual

def chars : Value → List Char
  | .null => ['n', 'u', 'l', 'l']
  | .boolean true => ['t', 'r', 'u', 'e']
  | .boolean false => ['f', 'a', 'l', 's', 'e']
  | .integer n => Decimal.ofInt n
  | .text s => Quoted.quote s
  | .array items => '[' :: (itemsChars items ++ [']'])
  | .object members => '\x7b' :: (membersChars members ++ ['\x7d'])

def itemsChars : List Value → List Char
  | [] => []
  | [v] => v.chars
  | v :: rest => v.chars ++ ',' :: itemsChars rest

def membersChars : List (String × Value) → List Char
  | [] => []
  | [(key, v)] => Quoted.quote key ++ ':' :: v.chars
  | (key, v) :: rest => Quoted.quote key ++ ':' :: v.chars ++ ',' :: membersChars rest

end

def render (v : Value) : String := String.ofList v.chars

def bytes (v : Value) : List UInt8 := v.render.toUTF8.toList

end Value
end SubnetRegistry.Json
