import PhyLang.Text.Hex

namespace PhyLang.Text.Utf8

structure Range where
  least : UInt8
  most : UInt8
  deriving DecidableEq, Repr

def Range.has (r : Range) (b : UInt8) : Bool := r.least ≤ b && b ≤ r.most

/-- The range of the bytes after the second one of a character. -/
def tail : Range := ⟨0x80, 0xbf⟩

/-- A character of which some bytes are still to come: its first byte, the number of bytes read, the
number that their payloads form, and the ranges of the bytes to come. -/
structure Unfinished where
  first : UInt8
  size : Nat
  code : Nat
  next : Range
  later : List Range
  deriving DecidableEq, Repr

/-- A character after its first byte, which is none below 0x80. The first byte tells how many follow
and in which range the next one lies, so that no character has two forms and no half of a pair has
one. -/
def begin? (b : UInt8) : Option Unfinished :=
  if b < 0xc2 then none
  else if b < 0xe0 then some ⟨b, 1, b.toNat % 0x20, tail, []⟩
  else if b = 0xe0 then some ⟨b, 1, b.toNat % 0x10, ⟨0xa0, 0xbf⟩, [tail]⟩
  else if b = 0xed then some ⟨b, 1, b.toNat % 0x10, ⟨0x80, 0x9f⟩, [tail]⟩
  else if b < 0xf0 then some ⟨b, 1, b.toNat % 0x10, tail, [tail]⟩
  else if b = 0xf0 then some ⟨b, 1, b.toNat % 0x08, ⟨0x90, 0xbf⟩, [tail, tail]⟩
  else if b < 0xf4 then some ⟨b, 1, b.toNat % 0x08, tail, [tail, tail]⟩
  else if b = 0xf4 then some ⟨b, 1, b.toNat % 0x08, ⟨0x80, 0x8f⟩, [tail, tail]⟩
  else none

inductive Reason
  | start
  | continuation
  | ending
  deriving DecidableEq, Repr

def Reason.text : Reason → String
  | .start => "invalid start byte"
  | .continuation => "invalid continuation byte"
  | .ending => "unexpected end of data"

/-- The first bytes that are no text: the first of them, the number of bytes before it, and their
own number. -/
structure Fault where
  reason : Reason
  first : UInt8
  position : Nat
  size : Nat
  deriving DecidableEq, Repr

def Fault.message (f : Fault) : String :=
  if f.size = 1 then
    let byte := String.ofList (hexDigits 2 f.first.toNat)
    s!"'utf-8' codec can't decode byte 0x{byte} in position {f.position}: {f.reason.text}"
  else
    s!"'utf-8' codec can't decode bytes in position {f.position}-{f.position + f.size - 1}: {f.reason.text}"

/-- The text of the bytes from a position on; `done` holds the characters before it, last one first. -/
def decodeFrom (position : Nat) (done : List Char) : Option Unfinished → List UInt8 → Except Fault (List Char)
  | none, [] => .ok done.reverse
  | some u, [] => .error ⟨.ending, u.first, position - u.size, u.size⟩
  | none, b :: rest =>
    if b < 0x80 then decodeFrom (position + 1) (Char.ofNat b.toNat :: done) none rest
    else match begin? b with
      | none => .error ⟨.start, b, position, 1⟩
      | some u => decodeFrom (position + 1) done (some u) rest
  | some u, b :: rest =>
    if u.next.has b then
      let code := 0x40 * u.code + b.toNat % 0x40
      match u.later with
      | [] => decodeFrom (position + 1) (Char.ofNat code :: done) none rest
      | next :: later => decodeFrom (position + 1) done (some ⟨u.first, u.size + 1, code, next, later⟩) rest
    else .error ⟨.continuation, u.first, position - u.size, u.size⟩

def decode (bytes : List UInt8) : Except Fault (List Char) := decodeFrom 0 [] none bytes

def encode (text : String) : List UInt8 := text.toList.flatMap String.utf8EncodeChar

end PhyLang.Text.Utf8
