import RelDoc.Text.Hex

/-!
# Quoted text

A string between double quotes as JSON writes it: quotes, backslashes and control characters are
escaped, the common controls by a letter and the others by four hexadecimal digits; every other
character stands for itself.
-/

namespace RelDoc
namespace Quoted

/-- The characters that stand for one character of the text. -/
def escape (c : Char) : List Char :=
  if c = '"' then ['\\', '"']
  else if c = '\\' then ['\\', '\\']
  else if c.toNat = 8 then ['\\', 'b']
  else if c.toNat = 9 then ['\\', 't']
  else if c.toNat = 10 then ['\\', 'n']
  else if c.toNat = 12 then ['\\', 'f']
  else if c.toNat = 13 then ['\\', 'r']
  else if c.toNat < 32 then ['\\', 'u', '0', '0', Hex.digit (c.toNat / 16), Hex.digit (c.toNat % 16)]
  else [c]

def encodeChars : List Char → List Char
  | [] => []
  | c :: rest => escape c ++ encodeChars rest

/-- The text between double quotes, escaped. -/
def encode (s : String) : String := String.ofList ('"' :: encodeChars s.toList ++ ['"'])

end Quoted
end RelDoc
