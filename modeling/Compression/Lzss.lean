import Compression.LzssSearch

namespace Compression

/-- One item of a stream. -/
inductive Token where
  | literal (byte : UInt8)
  | copy (m : Match)
deriving DecidableEq

/-- How many bytes of text a token stands for. -/
def Token.span : Token → Nat
  | .literal _ => 1
  | .copy m => m.length

/-- A token in bytes, unless a number of it does not fit its field. -/
def Token.toBytes : Token → Option Bytes
  | .literal byte => some [byte]
  | .copy m => do
    let offset ← field? 2 m.offset
    let length ← field? 1 m.length
    return offset ++ length

def Token.isCopy : Token → Bool
  | .literal _ => false
  | .copy _ => true

/-- Tokens that one flag byte describes. -/
def groupSize : Nat := 8

/-- The flags of a group, the first token in the lowest bit. -/
def flagByte (group : List Token) : UInt8 :=
  UInt8.ofNat (group.foldr (fun t n => t.isCopy.toNat + 2 * n) 0)

def groupBytes (group : List Token) : Option Bytes := do
  let items ← group.mapM Token.toBytes
  return flagByte group :: items.flatten

/-- Cuts a list into pieces of `size`; the last may be shorter. -/
def groupsOf {α : Type} (size : Nat) (h : 0 < size) : List α → List (List α)
  | [] => []
  | x :: xs => (x :: xs).take size :: groupsOf size h ((x :: xs).drop size)
termination_by xs => xs.length
decreasing_by simp; omega

/-- The stream of a list of tokens. -/
def tokenStream (tokens : List Token) : Option Bytes := do
  let groups ← (groupsOf groupSize (by decide) tokens).mapM groupBytes
  return groups.flatten

/-- Takes the best match at every position that has one, and the next byte at any other.
The tokens are added to those of `done`, the latest first. -/
def greedyTokens (params : LzssParams) (c : Cursor) (done : List Token) : List Token :=
  match _hc : c.here with
  | [] => done.reverse
  | b :: _ =>
    match _hm : findMatch params c with
    | some m => greedyTokens params (c.advance params.windowSize m.length) (.copy m :: done)
    | none => greedyTokens params (c.advance params.windowSize 1) (.literal b :: done)
termination_by c.here.length
decreasing_by
  · have := minMatch_le_of_findMatch _hm
    have := params.minMatch_range
    simp [Cursor.advance, _hc]; omega
  · simp [Cursor.advance, _hc]

inductive LzssError where
  /-- A copy needs three bytes, and the stream ends earlier. -/
  | cutCopy (position available : Nat)
  /-- A copy of nothing, or of what lies before the beginning. -/
  | badCopy (offset length decoded : Nat)
  /-- A number of a token does not fit its field. -/
  | unencodable

def LzssError.message : LzssError → String
  | .cutCopy position available =>
    s!"Match record at byte {position} needs 3 bytes, {available} left"
  | .badCopy offset length decoded =>
    s!"Invalid back-reference offset={offset} length={length} with {decoded} bytes decoded"
  | .unencodable => "No room for a match"

/-- The greedy tokens of the data as a stream. -/
def lzssEncode (params : LzssParams) (data : Bytes) : Except LzssError Bytes :=
  match tokenStream (greedyTokens params (.start data) []) with
  | none => .error .unencodable
  | some stream => .ok stream

/-- Appends `length` bytes one by one, each a repetition of the byte `offset` places before it. -/
def copyBack (offset : Nat) : Nat → Array UInt8 → Array UInt8
  | 0, out => out
  | length + 1, out => copyBack offset length (out.push (out.getD (out.size - offset) 0))

/-- Reads a stream from `position` on. In the present group `items` more tokens may follow, which
`flags` describes from its lowest bit on. -/
def decodeItems : Bytes → Nat → Nat → Nat → Array UInt8 → Except LzssError (Array UInt8)
  | [], _, _, _, out => .ok out
  | b :: rest, position, 0, _, out => decodeItems rest (position + 1) groupSize b.toNat out
  | b :: rest, position, items + 1, flags, out =>
    if flags % 2 = 0 then decodeItems rest (position + 1) items (flags / 2) (out.push b)
    else
      match rest with
      | high :: len :: rest =>
        let offset := b.toNat + 256 * high.toNat
        let length := len.toNat
        if offset = 0 ∨ length = 0 ∨ out.size < offset then
          .error (.badCopy offset length out.size)
        else decodeItems rest (position + 3) items (flags / 2) (copyBack offset length out)
      | _ => .error (.cutCopy position (rest.length + 1))

/-- The text of a stream. -/
def lzssDecode (stream : Bytes) : Except LzssError Bytes :=
  (decodeItems stream 0 0 0 #[]).map Array.toList

end Compression
