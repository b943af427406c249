/-!
# Reading JSON text

A strict reader of JSON text: no comments, no comma behind the last item, no bare control
characters, no leading zeros and nothing behind the value. What it reads is a `JsonTree`, in which
object members stand in the order of the text, repeated ones included, numbers are not evaluated,
and strings are sequences of code units: an escape may name half of a surrogate pair, and only the
reader of a string that has to be a text (`JsonTree.text?`) minds.
-/

namespace RelDoc

/-- A JSON text read, with nothing evaluated. -/
inductive JsonTree where
  | null
  | bool (b : Bool)
  | number
  /-- Code points, and code units of surrogate halves that stand in escapes. -/
  | string (units : List Nat)
  | array (items : List JsonTree)
  | object (members : List (List Nat × JsonTree))

instance : Inhabited JsonTree := ⟨.null⟩

namespace JsonTree

def isHighSurrogate (n : Nat) : Bool := 0xd800 ≤ n && n ≤ 0xdbff

def isLowSurrogate (n : Nat) : Bool := 0xdc00 ≤ n && n ≤ 0xdfff

/-- The characters of code units, if every surrogate half has its other half behind or before it. -/
def chars? : List Nat → Option (List Char)
  | [] => some []
  | [n] => if isHighSurrogate n || isLowSurrogate n then none else some [Char.ofNat n]
  | n :: m :: rest =>
    if isHighSurrogate n then
      if isLowSurrogate m then
        (chars? rest).map (Char.ofNat (0x10000 + (n - 0xd800) * 0x400 + (m - 0xdc00)) :: ·)
      else none
    else if isLowSurrogate n then none
    else (chars? (m :: rest)).map (Char.ofNat n :: ·)

def text? (units : List Nat) : Option String := (chars? units).map String.ofList

def isBlank (c : Char) : Bool := c = ' ' || c = '\n' || c = '\t' || c = '\r'

def skipBlanks (cs : List Char) : List Char := cs.dropWhile isBlank

def hexValue? (c : Char) : Option Nat :=
  if '0' ≤ c ∧ c ≤ '9' then some (c.toNat - 48)
  else if 'a' ≤ c ∧ c ≤ 'f' then some (c.toNat - 87)
  else if 'A' ≤ c ∧ c ≤ 'F' then some (c.toNat - 55)
  else none

/-- The character behind a backslash that stands for a code unit, unless it is `u`. -/
def escapeValue? (c : Char) : Option Nat :=
  if c = '"' then some 34
  else if c = '\\' then some 92
  else if c = '/' then some 47
  else if c = 'b' then some 8
  else if c = 'f' then some 12
  else if c = 'n' then some 10
  else if c = 'r' then some 13
  else if c = 't' then some 9
  else none

/-- Reads the rest of a string up to its closing quote. -/
def readString : List Char → Option (List Nat × List Char)
  | [] => none
  | '"' :: rest => some ([], rest)
  | '\\' :: 'u' :: a :: b :: c :: d :: rest => do
    let unit := 4096 * (← hexValue? a) + 256 * (← hexValue? b) + 16 * (← hexValue? c) + (← hexValue? d)
    let (units, after) ← readString rest
    return (unit :: units, after)
  | '\\' :: c :: rest => do
    let unit ← escapeValue? c
    let (units, after) ← readString rest
    return (unit :: units, after)
  | c :: rest =>
    if c.toNat < 32 || c = '\\' then none
    else do
      let (units, after) ← readString rest
      return (c.toNat :: units, after)

/-- Drops at least one digit. -/
def dropDigits (cs : List Char) : Option (List Char) :=
  match cs with
  | c :: rest => if c.isDigit then some (rest.dropWhile Char.isDigit) else none
  | [] => none

/-- Drops the whole part of a number, which has no leading zero. -/
def dropWhole : List Char → Option (List Char)
  | '0' :: rest =>
    match rest with
    | c :: _ => if c.isDigit then none else some rest
    | [] => some rest
  | cs => dropDigits cs

def dropFraction : List Char → Option (List Char)
  | '.' :: rest => dropDigits rest
  | cs => some cs

def dropExponent : List Char → Option (List Char)
  | c :: rest =>
    if c = 'e' || c = 'E' then
      match rest with
      | s :: more => if s = '+' || s = '-' then dropDigits more else dropDigits rest
      | [] => none
    else some (c :: rest)
  | [] => some []

def dropNumber (cs : List Char) : Option (List Char) := do
  let unsigned :=
    match cs with
    | '-' :: rest => rest
    | _ => cs
  let afterWhole ← dropWhole unsigned
  let afterFraction ← dropFraction afterWhole
  dropExponent afterFraction

mutual
/-- Reads a value after blanks. The first argument bounds the nesting and the number of items; the
length of the text is enough. -/
def readValue : Nat → List Char → Option (JsonTree × List Char)
  | 0, _ => none
  | fuel + 1, cs =>
    match skipBlanks cs with
    | 'n' :: 'u' :: 'l' :: 'l' :: rest => some (null, rest)
    | 't' :: 'r' :: 'u' :: 'e' :: rest => some (bool true, rest)
    | 'f' :: 'a' :: 'l' :: 's' :: 'e' :: rest => some (bool false, rest)
    | '"' :: rest => do
      let (units, after) ← readString rest
      return (string units, after)
    | '[' :: rest =>
      match skipBlanks rest with
      | ']' :: after => some (array [], after)
      | other => do
        let (items, after) ← readItems fuel other
        return (array items, after)
    | '\x7b' :: rest =>
      match skipBlanks rest with
      | '\x7d' :: after => some (object [], after)
      | other => do
        let (members, after) ← readMembers fuel other
        return (object members, after)
    | other => do
      let after ← dropNumber other
      return (number, after)

/-- Reads at least one item and the closing bracket. -/
def readItems : Nat → List Char → Option (List JsonTree × List Char)
  | 0, _ => none
  | fuel + 1, cs => do
    let (item, after) ← readValue fuel cs
    match skipBlanks after with
    | ',' :: rest =>
      let (items, last) ← readItems fuel rest
      return (item :: items, last)
    | ']' :: rest => return ([item], rest)
    | _ => none

/-- Reads at least one member and the closing brace. -/
def readMembers : Nat → List Char → Option (List (List Nat × JsonTree) × List Char)
  | 0, _ => none
  | fuel + 1, cs =>
    match skipBlanks cs with
    | '"' :: inKey => do
      let (key, afterKey) ← readString inKey
      match skipBlanks afterKey with
      | ':' :: rest =>
        let (v, after) ← readValue fuel rest
        match skipBlanks after with
        | ',' :: more =>
          let (members, last) ← readMembers fuel more
          return ((key, v) :: members, last)
        | '\x7d' :: more => return ([(key, v)], more)
        | _ => none
      | _ => none
    | _ => none
end

def ofString? (s : String) : Option JsonTree := do
  let cs := s.toList
  let (tree, rest) ← readValue (cs.length + 1) cs
  if (skipBlanks rest).isEmpty then some tree else none

end JsonTree
end RelDoc
