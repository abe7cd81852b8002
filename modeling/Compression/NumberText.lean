import Compression.Blank
import Compression.FloatValue
import Compression.Numerals
import Compression.Quoted

namespace Compression

/-- Why text does not write a number. -/
inductive NumberError where
  | notWhole (base : Nat) (text : Text)
  | tooManyDigits (count : Nat)
  | notDecimal (text : Text)

def NumberError.message : NumberError → String
  | .notWhole base text =>
    s!"invalid literal for int() with base {base}: " ++
      String.ofList ((quoted text).toList.take 200)
  | .tooManyDigits count =>
    s!"Exceeds the limit ({maxNumeralLength} digits) for integer string conversion: value has " ++
      s!"{count} digits; use sys.set_int_max_str_digits() to increase the limit"
  | .notDecimal text => "could not convert string to float: " ++ quoted text

/-- A digit or a blank of any script in basic Latin, and basic Latin as it is. -/
def latinForm? (p : CodePoint) : Option Char := do
  let c ← char? p
  if c.toNat < 0x7f then some c
  else if isBlank c then some ' '
  else (decimalDigit? c).map Nat.digitChar

/-- Text in basic Latin, up to the first character that has no form in it. That one ends the text
with a mark that stands in no number. -/
def latinForm : Text → List Char
  | [] => []
  | p :: rest =>
    match latinForm? p with
    | some c => c :: latinForm rest
    | none => ['?']

/-- White space that may surround a number in basic Latin. -/
def isNumberBlank (c : Char) : Bool :=
  c = ' ' || ('\t' ≤ c && c ≤ '\r')

def hexValue? (c : Char) : Option Nat :=
  if c.isDigit then some (c.toNat - '0'.toNat)
  else if 'a' ≤ c ∧ c ≤ 'f' then some (c.toNat - 'a'.toNat + 10)
  else if 'A' ≤ c ∧ c ≤ 'F' then some (c.toNat - 'A'.toNat + 10)
  else none

/-- The number that digits of a base write. -/
def valueOfDigits (base : Nat) (digits : List Char) : Nat :=
  digits.foldl (fun n c => base * n + (hexValue? c).getD 0) 0

/-- Whether a minus sign leads, and what follows the sign. -/
def splitSign : List Char → Bool × List Char
  | '+' :: rest => (false, rest)
  | '-' :: rest => (true, rest)
  | cs => (false, cs)

def signed (negative : Bool) (n : Nat) : Int :=
  if negative then -n else n

/-- The letters that may tell the base of a number behind a zero. -/
def baseLetters : Nat → List Char
  | 2 => ['b', 'B']
  | 8 => ['o', 'O']
  | 16 => ['x', 'X']
  | _ => []

def dropBaseMark (base : Nat) : List Char → List Char
  | '0' :: c :: rest => if (baseLetters base).contains c then rest else '0' :: c :: rest
  | cs => cs

/-- The whole number that text writes in a base, with a sign, a mark for the base, and white space
around it. In base ten there may not be too many digits. -/
def wholeOfText (base : Nat) (t : Text) : Except NumberError Int :=
  let (negative, body) := splitSign ((latinForm t).dropWhile isNumberBlank)
  let body := dropBaseMark base body
  let digits := body.takeWhile fun c => (hexValue? c).any (· < base)
  if base = 10 ∧ maxNumeralLength < digits.length then .error (.tooManyDigits digits.length)
  else if digits.isEmpty ∨ !(body.drop digits.length).all isNumberBlank then
    .error (.notWhole base t)
  else .ok (signed negative (valueOfDigits base digits))

/-- The double nearest to digits with a point among them and an exponent behind them. -/
def decimalFloat? (cs : List Char) : Option Float := do
  let whole := cs.takeWhile Char.isDigit
  let rest := cs.drop whole.length
  let (fraction, rest) :=
    match rest with
    | '.' :: rest => (rest.takeWhile Char.isDigit, rest.dropWhile Char.isDigit)
    | _ => ([], rest)
  if whole.isEmpty && fraction.isEmpty then none
  let exponent ←
    match rest with
    | [] => some 0
    | e :: rest =>
      let (negative, digits) := splitSign rest
      if (e = 'e' ∨ e = 'E') ∧ !digits.isEmpty ∧ digits.all Char.isDigit then
        some (signed negative (valueOfDigits 10 digits))
      else none
  return floatOfDecimal (valueOfDigits 10 (whole ++ fraction)) (exponent - fraction.length)

def trimNumberBlanks (cs : List Char) : List Char :=
  ((cs.dropWhile isNumberBlank).reverse.dropWhile isNumberBlank).reverse

/-- The double that text writes, with a sign and white space around it. Infinity and what is not a
number are written in words. -/
def floatOfText (t : Text) : Except NumberError Float :=
  let (negative, body) := splitSign (trimNumberBlanks (latinForm t))
  let word := String.ofList (body.map Char.toLower)
  let magnitude? :=
    if word = "inf" ∨ word = "infinity" then some infinity
    else if word = "nan" then some notANumber
    else decimalFloat? body
  match magnitude? with
  | some x => .ok (if negative then -x else x)
  | none => .error (.notDecimal t)

end Compression
