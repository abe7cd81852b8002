import Compression.FloatValue

namespace Compression

/-- How many decimal places the whole part of a positive fraction below `10 ^ 400` fills; minus
the number of zeros behind the point if it has none. -/
def decimalPlace (num den : Nat) : Int :=
  if den ≤ num then (Nat.toDigits 10 (num / den)).length
  else
    match (List.range 400).find? fun zeros => den ≤ num * 10 ^ (zeros + 1) with
    | some zeros => -(zeros : Int)
    | none => 0

/-- Of the two neighbours of `num / den` on the grid of the multiples of `10 ^ unit` the one that
lies between the bounds, all over the same denominator. If both do, the nearer one counts, and
from the middle the even one. -/
def gridPoint? (num low high den : Nat) (closed : Bool) (unit : Int) : Option Nat :=
  let scale := 10 ^ (-unit).toNat
  let step := den * 10 ^ unit.toNat
  let below := num * scale / step
  let inside := fun k =>
    if closed then low * scale ≤ k * step && k * step ≤ high * scale
    else low * scale < k * step && k * step < high * scale
  let nearest := roundedQuotient (num * scale) step
  if inside nearest then some nearest
  else if inside below then some below
  else if inside (below + 1) then some (below + 1)
  else none

/-- The fewest decimal digits that read back as the double `significand * 2 ^ exponent`, and the
place of the first: `(digits, place)` stands for `0.digits * 10 ^ place`. -/
def shortestDigits (significand : Nat) (exponent : Int) : List Char × Int :=
  let lowGap := if significand = leastFullSignificand ∧ -1074 < exponent then 1 else 2
  let scaled := fun n => (binaryFraction n (exponent - 2)).1
  let den := (binaryFraction 1 (exponent - 2)).2
  let num := scaled (4 * significand)
  let place := decimalPlace num den
  let point := (List.range 17).findSome? fun (n : Nat) =>
    (gridPoint? num (scaled (4 * significand - lowGap)) (scaled (4 * significand + 2)) den
      (significand % 2 = 0) (place - (n + 1))).map fun k => (k, place - (n + 1))
  match point with
  | none => (['0'], 1)
  | some (k, unit) =>
    let digits := Nat.toDigits 10 k
    ((digits.reverse.dropWhile (· = '0')).reverse, unit + digits.length)

/-- Digits with a point at `place`, and at least one digit on each side of it. -/
def positional (digits : List Char) (place : Int) : List Char :=
  if place ≤ 0 then ['0', '.'] ++ List.replicate (-place).toNat '0' ++ digits
  else
    let whole := digits.take place.toNat
    let rest := digits.drop place.toNat
    whole ++ List.replicate (place.toNat - whole.length) '0' ++ ['.'] ++
      if rest.isEmpty then ['0'] else rest

/-- Digits with a point behind the first, and an exponent of at least two digits. -/
def exponential (digits : List Char) (place : Int) : List Char :=
  let exponent := place - 1
  let written := Nat.toDigits 10 exponent.natAbs
  digits.take 1 ++ (if digits.length = 1 then [] else '.' :: digits.drop 1) ++
    ['e', if exponent < 0 then '-' else '+'] ++
    List.replicate (2 - written.length) '0' ++ written

/-- The shortest text that reads back as the double: positional from `10 ^ -4` to `10 ^ 16`,
with an exponent elsewhere. -/
def floatText (x : Float) : String :=
  match floatValue x with
  | .nan => "nan"
  | .infinite negative => if negative then "-inf" else "inf"
  | .finite negative significand exponent =>
    let sign := if negative then ['-'] else []
    if significand = 0 then String.ofList (sign ++ ['0', '.', '0'])
    else
      let (digits, place) := shortestDigits significand exponent
      String.ofList (sign ++
        if -4 < place ∧ place ≤ 16 then positional digits place else exponential digits place)

/-- A double with a fixed number of decimal places, from the middle to the even digit. -/
def fixedText (places : Nat) (x : Float) : String :=
  match floatValue x with
  | .nan => "nan"
  | .infinite negative => if negative then "-inf" else "inf"
  | .finite negative significand exponent =>
    let f := binaryFraction significand exponent
    let digits := Nat.toDigits 10 (roundedQuotient (f.1 * 10 ^ places) f.2)
    let digits := List.replicate (places + 1 - digits.length) '0' ++ digits
    let whole := digits.length - places
    String.ofList ((if negative then ['-'] else []) ++ digits.take whole ++
      if places = 0 then [] else '.' :: digits.drop whole)

end Compression
