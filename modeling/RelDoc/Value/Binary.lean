import RelDoc.Value.Basic

/-!
# Documents as bytes

The binary form of documents. A document is its length, its elements and a zero byte; an element is
a type byte, the name ended by a zero byte and the value; an array is a document whose names are
the positions. Integers are little-endian, strings carry their length and a final zero byte. A name
that holds a zero character has no such form.
-/

namespace RelDoc

/-- The `width` low-order bytes of a number, the least significant first. -/
def littleEndianBytes : (width : Nat) → Nat → List UInt8
  | 0, _ => []
  | width + 1, n => UInt8.ofNat n :: littleEndianBytes width (n / 256)

namespace Value

def utf8 (s : String) : List UInt8 := s.toUTF8.toList

/-- A text ended by a zero byte. -/
def zeroEnded (s : String) : List UInt8 := utf8 s ++ [0]

/-- A text with its length in front and a zero byte at its end. -/
def sized (s : String) : List UInt8 :=
  let data := zeroEnded s
  littleEndianBytes 4 data.length ++ data

/-- Elements with the total length in front and a zero byte at the end. -/
def framed (elements : List UInt8) : List UInt8 :=
  littleEndianBytes 4 (elements.length + 5) ++ elements ++ [0]

/-- The byte that announces the type of a value. -/
def typeByte : Value → UInt8
  | double _ => 0x01
  | string _ => 0x02
  | document _ => 0x03
  | array _ => 0x04
  | binary _ _ => 0x05
  | undefined => 0x06
  | objectId _ => 0x07
  | boolean _ => 0x08
  | dateTime _ => 0x09
  | null => 0x0a
  | regex _ _ => 0x0b
  | dbPointer _ _ => 0x0c
  | code _ => 0x0d
  | symbol _ => 0x0e
  | codeWithScope _ _ => 0x0f
  | int32 _ => 0x10
  | timestamp _ _ => 0x11
  | int64 _ => 0x12
  | decimal _ => 0x13
  | minKey => 0xff
  | maxKey => 0x7f

/-- Old binary data carries its length a second time. -/
def binaryBody (subtype : UInt8) (data : List UInt8) : List UInt8 :=
  if subtype = 2 then
    littleEndianBytes 4 (data.length + 4) ++ [subtype] ++ littleEndianBytes 4 data.length ++ data
  else littleEndianBytes 4 data.length ++ [subtype] ++ data

/-- A name as bytes; the error is a name that holds a zero character. -/
def nameBytes (name : String) : Except String (List UInt8) :=
  if name.toList.any (·.toNat = 0) then .error name else .ok (zeroEnded name)

mutual
def body : Value → Except String (List UInt8)
  | null | undefined | minKey | maxKey => .ok []
  | boolean b => .ok [if b then 1 else 0]
  | int32 n => .ok (littleEndianBytes 4 n.toUInt32.toNat)
  | int64 n => .ok (littleEndianBytes 8 n.toUInt64.toNat)
  | double d => .ok (littleEndianBytes 8 d.bits.toNat)
  | string s => .ok (sized s)
  | array items => return framed (← itemElements 0 items)
  | document fields => return framed (← fieldElements fields)
  | dateTime millis => .ok (littleEndianBytes 8 millis.toUInt64.toNat)
  | objectId id => .ok id.data
  | binary subtype data => .ok (binaryBody subtype data)
  | regex pattern options => .ok (zeroEnded pattern ++ zeroEnded options)
  | dbPointer collection id => .ok (sized collection ++ id.data)
  | code source => .ok (sized source)
  | codeWithScope source scope => do
    let inner := sized source ++ framed (← fieldElements scope)
    return littleEndianBytes 4 (inner.length + 4) ++ inner
  | timestamp time increment => .ok (littleEndianBytes 4 increment.toNat ++ littleEndianBytes 4 time.toNat)
  | symbol s => .ok (sized s)
  | decimal data => .ok data.data

/-- The items of an array from a position on, named by their positions. -/
def itemElements (position : Nat) : List Value → Except String (List UInt8)
  | [] => .ok []
  | v :: rest => do
    let data ← body v
    let more ← itemElements (position + 1) rest
    return typeByte v :: zeroEnded (toString position) ++ data ++ more

def fieldElements : List (String × Value) → Except String (List UInt8)
  | [] => .ok []
  | (k, v) :: rest => do
    let name ← nameBytes k
    let data ← body v
    let more ← fieldElements rest
    return typeByte v :: name ++ data ++ more
end

/-- The bytes of a document, or the first name that has none. -/
def documentBytes (d : Document) : Except String (List UInt8) := return framed (← fieldElements d)

end Value
end RelDoc
