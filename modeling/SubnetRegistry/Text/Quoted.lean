import SubnetRegistry.Text.Unprintable

/-!
# Quoted text

How a text from outside is shown inside a message: between double quotes, with everything that
would not be seen, or be mistaken for a quote, written as an escape.
-/
namespace SubnetRegistry.Text

/-- The escape by code point, `\\u{…}` with the fewest hexadecimal digits. -/
def codePointEscape (c : Char) : List Char :=
  ['\\', 'u', '\x7b'] ++ Nat.toDigits 16 c.toNat ++ ['\x7d']

/-- A character as it stands between the quotes. -/
def shownChar (c : Char) : List Char :=
  if c = '\x00' then ['\\', '0']
  else if c = '\t' then ['\\', 't']
  else if c = '\r' then ['\\', 'r']
  else if c = '\n' then ['\\', 'n']
  else if c = '"' then ['\\', '"']
  else if c = '\\' then ['\\', '\\']
  else if isPlain c then [c]
  else codePointEscape c

def quoted (s : String) : String :=
  String.ofList ('"' :: (s.toList.flatMap shownChar ++ ['"']))

end SubnetRegistry.Text
