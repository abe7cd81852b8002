import Compression.Bytes
import Compression.Printable
import Compression.Text

namespace Compression

/-- The low `width` hexadecimal digits of a number, in lower case. -/
def hexDigits : Nat → Nat → List Char
  | 0, _ => []
  | width + 1, n => hexDigits width (n / 16) ++ [Nat.digitChar (n % 16)]

/-- Text stands between apostrophes, unless it holds some and no quotation mark. -/
def quoteMark (t : Text) : Char :=
  if t.contains (codePoint '\'') && !t.contains (codePoint '"') then '"' else '\''

/-- The number of a code point behind a backslash, in as many digits as it needs. -/
def escapeNumber (n : Nat) : List Char :=
  if n < 0x100 then ['\\', 'x'] ++ hexDigits 2 n
  else if n < 0x10000 then ['\\', 'u'] ++ hexDigits 4 n
  else ['\\', 'U'] ++ hexDigits 8 n

/-- How one code point is written between two marks. -/
def escapeChar (mark : Char) (p : CodePoint) : List Char :=
  match char? p with
  | none => escapeNumber p.val
  | some c =>
    if c = mark ∨ c = '\\' then ['\\', c]
    else if c = '\n' then ['\\', 'n']
    else if c = '\r' then ['\\', 'r']
    else if c = '\t' then ['\\', 't']
    else if isPrintable c then [c]
    else escapeNumber p.val

/-- Text between marks, with escapes for what does not print as itself. -/
def quoted (t : Text) : String :=
  let mark := quoteMark t
  String.ofList (mark :: t.flatMap (escapeChar mark) ++ [mark])

/-- The code point with the number of a byte. -/
def byteCodePoint (b : UInt8) : CodePoint :=
  ⟨b.toNat, Nat.lt_of_lt_of_le b.toNat_lt (by decide)⟩

/-- A byte stands for the character of its number; beyond the 128 basic ones it is escaped. -/
def escapeByte (mark : Char) (b : UInt8) : List Char :=
  if b < 0x80 then escapeChar mark (byteCodePoint b)
  else ['\\', 'x'] ++ hexDigits 2 b.toNat

/-- Bytes between marks, with a `b` in front. -/
def quotedBytes (data : Bytes) : String :=
  let mark := quoteMark (data.map byteCodePoint)
  String.ofList ('b' :: mark :: data.flatMap (escapeByte mark) ++ [mark])

/-- Text for a screen: surrogates, which no screen shows, are escaped. -/
def shownText (t : Text) : String :=
  String.ofList (t.flatMap fun p =>
    match char? p with
    | some c => [c]
    | none => escapeNumber p.val)

end Compression
