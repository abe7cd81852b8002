import Compression.FloatValue
import Compression.Plane

namespace Compression

/-- The numbers that blocks are transformed with. -/
class TransformArithmetic (α : Type) extends Add α, Sub α, Mul α, Div α, Min α, Max α where
  ofInt : Int → α
  /-- The cosine of `k` sixteenths of a half turn. -/
  cosine : Nat → α
  /-- The square root of one half. -/
  rootHalf : α
  /-- The nearest whole number, from the middle away from zero. -/
  nearest : α → Int

export TransformArithmetic (ofInt)

/-- The cosines of the first quarter turn, in sixteenths of a half turn. -/
def quarterCosines : List Float :=
  [1.0, 0.9807852804032304, 0.9238795325112867, 0.8314696123025452, 0.7071067811865476,
    0.5555702330196023, 0.38268343236508984, 0.19509032201612833, 0.0]

/-- The quarters of a turn repeat the first one, forwards or backwards, with either sign. -/
def floatCosine (k : Nat) : Float :=
  let r := k % 32
  let s := if r ≤ 16 then r else 32 - r
  if s ≤ 8 then quarterCosines.getD s 0.0 else -quarterCosines.getD (16 - s) 0.0

instance : TransformArithmetic Float where
  ofInt := Float.ofInt
  cosine := floatCosine
  rootHalf := 1.0 / Float.sqrt 2.0
  nearest := roundAway

section

variable {α : Type} [TransformArithmetic α]

def sumOfEight (f : Fin 8 → α) : α :=
  f 0 + f 1 + f 2 + f 3 + f 4 + f 5 + f 6 + f 7

/-- The `k`-th cosine wave at its `n`-th sample. -/
def basis (k n : Fin 8) : α :=
  TransformArithmetic.cosine ((2 * n.val + 1) * k.val)

def waveWeight (k : Fin 8) : α :=
  if k = 0 then TransformArithmetic.rootHalf else ofInt 1

/-- The weight of the coefficient of vertical wave `v` and horizontal wave `u`. -/
def waveScale (v u : Fin 8) : α :=
  ofInt 1 / ofInt 4 * (waveWeight v * waveWeight u)

/-- The coefficients of a block of samples around 128. -/
def forwardTransform (block : Block α) : Block α :=
  let centered := block.map fun s => s - ofInt 128
  let columns := Block.ofFn fun v x => sumOfEight fun y => basis v y * centered.at y x
  Block.ofFn fun v u => waveScale v u * sumOfEight fun x => columns.at v x * basis u x

/-- The samples around 128 of a block of coefficients. -/
def inverseTransform (coefficients : Block α) : Block α :=
  let scaled := Block.ofFn fun v u => waveScale v u * coefficients.at v u
  let columns := Block.ofFn fun y u => sumOfEight fun v => basis v y * scaled.at v u
  Block.ofFn fun y x => sumOfEight (fun u => columns.at y u * basis u x) + ofInt 128

theorem forwardTransform_at (block : Block α) (v u : Fin 8) :
    (forwardTransform block).at v u = waveScale v u * sumOfEight fun x =>
      (sumOfEight fun y => basis v y * (block.at y x - ofInt 128)) * basis u x := by
  simp only [forwardTransform, Block.at_ofFn, Block.at_map]

end

/-- The steps of the coefficients: fine for slow waves, coarse for fast ones. -/
def quantSteps : Block Int := ⟨#v[16, 11, 10, 16, 24, 40, 51, 61,
    12, 12, 14, 19, 26, 58, 60, 55,
    14, 13, 16, 24, 40, 57, 69, 56,
    14, 17, 22, 29, 51, 87, 80, 62,
    18, 22, 37, 56, 68, 109, 103, 77,
    24, 35, 55, 64, 81, 104, 113, 92,
    49, 64, 78, 87, 103, 121, 120, 101,
    72, 92, 95, 98, 112, 100, 103, 99]⟩

/-- The nearest number of 16 bits with sign. -/
def clampInt16 (n : Int) : Int :=
  max (-32768) (min 32767 n)

/-- Coefficients in whole steps. -/
def quantize {α : Type} [TransformArithmetic α] (coefficients : Block α) : Block Int :=
  Block.zipWith (fun c step => clampInt16 (TransformArithmetic.nearest (c / ofInt step)))
    coefficients quantSteps

/-- Whole steps as coefficients. -/
def dequantize {α : Type} [TransformArithmetic α] (steps : Block Int) : Block α :=
  Block.zipWith (fun n step => ofInt n * ofInt step) steps quantSteps

end Compression
