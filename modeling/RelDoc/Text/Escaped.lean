import RelDoc.Text.Hex
import RelDoc.Text.Printable

/-!
# Text for inspection

A string between double quotes in which every character shows: quotes and backslashes are escaped,
and so are the characters without a visible form, four of them by a letter or digit and the others
by their code point between braces.
-/

namespace RelDoc
namespace Escaped

/-- The characters that stand for one character of the text. -/
def escape (c : Char) : List Char :=
  if c = '"' then ['\\', '"']
  else if c = '\\' then ['\\', '\\']
  else if c.toNat = 0 then ['\\', '0']
  else if c = '\t' then ['\\', 't']
  else if c = '\n' then ['\\', 'n']
  else if c = '\r' then ['\\', 'r']
  else if isHidden c then "\\u\x7b".toList ++ Nat.toDigits 16 c.toNat ++ ['\x7d']
  else [c]

/-- The text between double quotes, with nothing hidden in it. -/
def encode (s : String) : String := String.ofList ('"' :: s.toList.flatMap escape ++ ['"'])

end Escaped
end RelDoc
