import Compression.Quoted

namespace Compression

inductive Utf8Error.Reason where
  | badStart
  | badContinuation
  | unexpectedEnd
deriving DecidableEq

/-- Bytes that are not text: from where on, which, and why. -/
structure Utf8Error where
  position : Nat
  bytes : Bytes
  reason : Utf8Error.Reason
deriving DecidableEq

def Utf8Error.Reason.text : Utf8Error.Reason → String
  | .badStart => "invalid start byte"
  | .badContinuation => "invalid continuation byte"
  | .unexpectedEnd => "unexpected end of data"

def Utf8Error.message (e : Utf8Error) : String :=
  let what :=
    match e.bytes with
    | [b] => s!"byte 0x{String.ofList (hexDigits 2 b.toNat)} in position {e.position}"
    | _ => s!"bytes in position {e.position}-{e.position + e.bytes.length - 1}"
  s!"'utf-8' codec can't decode {what}: {e.reason.text}"

/-- The bytes that may follow a first byte: how many in all, and the range of the next one. -/
def utf8Shape (b : UInt8) : Option (Nat × UInt8 × UInt8) :=
  if b < 0x80 then some (0, 0x80, 0xbf)
  else if b < 0xc2 then none
  else if b < 0xe0 then some (1, 0x80, 0xbf)
  else if b = 0xe0 then some (2, 0xa0, 0xbf)
  else if b = 0xed then some (2, 0x80, 0x9f)
  else if b < 0xf0 then some (2, 0x80, 0xbf)
  else if b = 0xf0 then some (3, 0x90, 0xbf)
  else if b < 0xf4 then some (3, 0x80, 0xbf)
  else if b = 0xf4 then some (3, 0x80, 0x8f)
  else none

/-- The bits that a first byte gives to a character of `more` further bytes. -/
def utf8Lead (b : UInt8) (more : Nat) : Nat :=
  if more = 0 then b.toNat else b.toNat % 2 ^ (6 - more)

/-- A character of which some bytes have been read, the last one first. -/
structure Utf8Open where
  read : Bytes
  value : Nat
  missing : Nat
  low : UInt8
  high : UInt8

/-- Decodes a piece of text, which may begin and end inside a character. Positions count from the
first byte of the character in which it begins. -/
def decodeUtf8From (position : Nat) : Option Utf8Open → Bytes → List Char →
    Except Utf8Error (List Char × Option Utf8Open)
  | cut, [], done => .ok (done.reverse, cut)
  | none, b :: rest, done =>
    match utf8Shape b with
    | none => .error ⟨position, [b], .badStart⟩
    | some (0, _, _) => decodeUtf8From (position + 1) none rest (Char.ofNat b.toNat :: done)
    | some (more, low, high) =>
      decodeUtf8From (position + 1) (some ⟨[b], utf8Lead b more, more, low, high⟩) rest done
  | some c, b :: rest, done =>
    if c.low ≤ b ∧ b ≤ c.high then
      let value := 64 * c.value + b.toNat % 64
      if c.missing ≤ 1 then decodeUtf8From (position + 1) none rest (Char.ofNat value :: done)
      else
        decodeUtf8From (position + 1) (some ⟨b :: c.read, value, c.missing - 1, 0x80, 0xbf⟩) rest
          done
    else .error ⟨position - c.read.length, c.read.reverse, .badContinuation⟩

/-- Decodes a piece of text behind a character that was cut. -/
def decodeUtf8Piece (cut : Option Utf8Open) (piece : Bytes) :
    Except Utf8Error (List Char × Option Utf8Open) :=
  decodeUtf8From ((cut.map fun c => c.read.length).getD 0) cut piece []

/-- No character may be cut by the end of all text. -/
def endUtf8 : Option Utf8Open → Except Utf8Error Unit
  | none => .ok ()
  | some c => .error ⟨0, c.read.reverse, .unexpectedEnd⟩

/-- The text that bytes encode. -/
def decodeUtf8 (data : Bytes) : Except Utf8Error (List Char) := do
  let (text, cut) ← decodeUtf8Piece none data
  endUtf8 cut
  return text

end Compression
