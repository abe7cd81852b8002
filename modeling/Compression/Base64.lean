import Compression.Bytes

namespace Compression

/-- The six bits that a character stands for. -/
def base64Value? (c : Char) : Option Nat :=
  if c.isUpper then some (c.toNat - 'A'.toNat)
  else if c.isLower then some (c.toNat - 'a'.toNat + 26)
  else if c.isDigit then some (c.toNat - '0'.toNat + 52)
  else if c = '+' then some 62
  else if c = '/' then some 63
  else none

/-- Decodes four characters to three bytes. `place` counts the characters of the group so far, and
`left` are the bits that have not filled a byte. Equals signs that fill a group up end the text;
all other characters are left out. A group may not be cut otherwise. -/
def decodeBase64From (place left fills : Nat) : List Char → Option Bytes
  | [] => if place = 0 then some [] else none
  | c :: rest =>
    if c = '=' then
      if place < 2 then decodeBase64From place left fills rest
      else if 4 ≤ place + fills + 1 then some []
      else decodeBase64From place left (fills + 1) rest
    else
      match base64Value? c with
      | none => decodeBase64From place left fills rest
      | some v =>
        let bits := 64 * left + v
        match place with
        | 0 => decodeBase64From 1 v 0 rest
        | 1 => (UInt8.ofNat (bits / 16) :: ·) <$> decodeBase64From 2 (bits % 16) 0 rest
        | 2 => (UInt8.ofNat (bits / 4) :: ·) <$> decodeBase64From 3 (bits % 4) 0 rest
        | _ => (UInt8.ofNat bits :: ·) <$> decodeBase64From 0 0 0 rest

/-- The bytes that text of base 64 stands for. -/
def decodeBase64 (cs : List Char) : Option Bytes :=
  decodeBase64From 0 0 0 cs

end Compression
