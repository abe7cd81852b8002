namespace Compression

/-- What a double stands for. A finite one is `significand * 2 ^ exponent`, negated or not. -/
inductive FloatValue where
  | nan
  | infinite (negative : Bool)
  | finite (negative : Bool) (significand : Nat) (exponent : Int)
deriving DecidableEq

/-- The significands of full precision begin here. -/
def leastFullSignificand : Nat := 2 ^ 52

def floatValue (x : Float) : FloatValue :=
  let bits := x.toBits.toNat
  let negative := bits.testBit 63
  let exponentField := bits / leastFullSignificand % 2048
  let fraction := bits % leastFullSignificand
  if exponentField = 2047 then
    if fraction = 0 then .infinite negative else .nan
  else if exponentField = 0 then .finite negative fraction (-1074)
  else .finite negative (fraction + leastFullSignificand) (exponentField - 1075)

/-- A fraction `significand * 2 ^ exponent` as numerator and denominator. -/
def binaryFraction (significand : Nat) (exponent : Int) : Nat × Nat :=
  (significand * 2 ^ exponent.toNat, 2 ^ (-exponent).toNat)

/-- The quotient rounded to the nearest number, from the middle to the even one. -/
def roundedQuotient (num den : Nat) : Nat :=
  let q := num / den
  let twice := 2 * (num % den)
  if den < twice ∨ (twice = den ∧ q % 2 = 1) then q + 1 else q

/-- The exponent of two at or just below a positive fraction. -/
def floorLog2 (num den : Nat) : Int :=
  let guess : Int := (num.log2 : Int) - den.log2
  if den * 2 ^ guess.toNat ≤ num * 2 ^ (-guess).toNat then guess else guess - 1

/-- The double nearest to a fraction, from the middle to the one with even significand. -/
def nearestFloat (num den : Nat) : Float :=
  if num = 0 ∨ den = 0 then 0.0
  else
    let unit := max (floorLog2 num den - 52) (-1074)
    let significand := roundedQuotient (num * 2 ^ (-unit).toNat) (den * 2 ^ unit.toNat)
    let bits := (unit + 1074).toNat * leastFullSignificand + significand
    Float.ofBits (UInt64.ofNat (min bits (2047 * leastFullSignificand)))

/-- The double nearest to the quotient of two whole numbers. -/
def floatQuotient (num den : Int) : Float :=
  let magnitude := nearestFloat num.natAbs den.natAbs
  if (num < 0) = (den < 0) then magnitude else -magnitude

def infinity : Float := 1.0 / 0.0

def notANumber : Float := 0.0 / 0.0

/-- The double nearest to the quotient of two whole numbers, unless it lies beyond all doubles. -/
def floatQuotient? (num den : Int) : Option Float :=
  let q := floatQuotient num den
  if q == infinity || q == -infinity then none else some q

/-- The double nearest to a whole number, unless it lies beyond all doubles. -/
def floatOfInt? (n : Int) : Option Float :=
  floatQuotient? n 1

/-- No double is above ten to this power, and none but zero is below one over ten to it. -/
def maxDecimalExponent : Nat := 400

/-- The double nearest to `digits * 10 ^ exponent`. -/
def floatOfDecimal (digits : Nat) (exponent : Int) : Float :=
  if digits = 0 then 0.0
  else if (maxDecimalExponent : Int) < exponent then infinity
  else if exponent + (digits.log2 + 1) < -maxDecimalExponent then 0.0
  else nearestFloat (digits * 10 ^ exponent.toNat) (10 ^ (-exponent).toNat)

/-- The greatest whole number that is not above a finite double. -/
def floatFloor (x : Float) : Int :=
  match floatValue x with
  | .finite negative significand exponent =>
    let f := binaryFraction significand exponent
    Int.fdiv (if negative then -(f.1 : Int) else f.1) f.2
  | _ => 0

def floatAbs (x : Float) : Float :=
  if x < 0.0 then -x else x

/-- The nearest whole number, from the middle away from zero. -/
def roundAway (x : Float) : Int :=
  let n := floatFloor (floatAbs x + 0.5)
  if x < 0.0 then -n else n

/-- `roundAway` as a double; infinities and what is not a number stay as they are. -/
def roundAwayFloat (x : Float) : Float :=
  match floatValue x with
  | .finite .. => Float.ofInt (roundAway x)
  | _ => x

end Compression
