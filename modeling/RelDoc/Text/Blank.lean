/-!
# Blank text

A text is blank if it holds nothing but characters with the Unicode property `White_Space`.
-/

namespace RelDoc

/-- The Unicode property `White_Space`. -/
def isBlankChar (c : Char) : Bool :=
  let n := c.toNat
  (9 ≤ n && n ≤ 13) || n = 0x20 || n = 0x85 || n = 0xa0 || n = 0x1680 || (0x2000 ≤ n && n ≤ 0x200a) ||
    n = 0x2028 || n = 0x2029 || n = 0x202f || n = 0x205f || n = 0x3000

/-- Nothing but white space. -/
def isBlank (s : String) : Bool := s.toList.all isBlankChar

end RelDoc
