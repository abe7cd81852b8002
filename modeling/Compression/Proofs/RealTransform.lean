import Mathlib
import Compression.BlockTransform
import Compression.Bytes

namespace Compression

open Finset Matrix

/-- The nearest whole number, from the middle away from zero. -/
noncomputable def roundAwayReal (x : ℝ) : ℤ :=
  let n := ⌊|x| + 1 / 2⌋
  if x < 0 then -n else n

/-- Real numbers, of which none is rounded but by `nearest`. -/
noncomputable instance : TransformArithmetic ℝ where
  ofInt n := n
  cosine k := Real.cos (k * (Real.pi / 16))
  rootHalf := 1 / Real.sqrt 2
  nearest := roundAwayReal

/-- The samples of the `k`-th wave in its row, of length one. -/
noncomputable def waveMatrix : Matrix (Fin 8) (Fin 8) ℝ :=
  Matrix.of fun k n => waveWeight k / 2 * basis k n

def Block.toMatrix (b : Block ℝ) : Matrix (Fin 8) (Fin 8) ℝ :=
  Matrix.of b.at

@[simp] theorem Block.toMatrix_apply (b : Block ℝ) (y x : Fin 8) : b.toMatrix y x = b.at y x := rfl

theorem Block.toMatrix_injective {a b : Block ℝ} (h : a.toMatrix = b.toMatrix) : a = b :=
  Block.ext_at fun y x => congrFun (congrFun h y) x

/-- The steps from one sine to the next but one add up. -/
theorem sin_mul_sum_cos (x : ℝ) (count : ℕ) :
    2 * Real.sin x * ∑ n ∈ range count, Real.cos ((2 * n + 1) * x) =
      Real.sin (2 * count * x) := by
  induction count with
  | zero => simp
  | succ count ih =>
    have hprevious : 2 * (count : ℝ) * x = (2 * count + 1) * x - x := by ring
    have hnext : 2 * ((count + 1 : ℕ) : ℝ) * x = (2 * count + 1) * x + x := by
      push_cast
      ring
    rw [sum_range_succ, mul_add, ih, hprevious, hnext, Real.sin_sub, Real.sin_add]
    ring

/-- A wave that is not constant sums to zero over its samples. -/
theorem sum_wave_eq_zero {m : ℤ} (hm : ¬ (16 : ℤ) ∣ m) :
    ∑ n : Fin 8, Real.cos ((2 * (n : ℕ) + 1) * (m * (Real.pi / 16))) = 0 := by
  have hsin : Real.sin (m * (Real.pi / 16)) ≠ 0 := by
    intro h
    obtain ⟨n, hn⟩ := Real.sin_eq_zero_iff.mp h
    have hmultiple : (n : ℝ) * 16 = m := by
      have := Real.pi_ne_zero
      field_simp at hn
      linarith
    exact hm ⟨n, by rw [mul_comm]; exact_mod_cast hmultiple.symm⟩
  have hend : Real.sin (2 * (8 : ℕ) * (m * (Real.pi / 16))) = 0 := by
    have hwhole : 2 * ((8 : ℕ) : ℝ) * (m * (Real.pi / 16)) = m * Real.pi := by
      push_cast
      ring
    rw [hwhole, Real.sin_int_mul_pi]
  have hsum := sin_mul_sum_cos (m * (Real.pi / 16)) 8
  rw [hend, Finset.sum_range] at hsum
  exact (mul_eq_zero.mp hsum).resolve_left (mul_ne_zero two_ne_zero hsin)

theorem sum_wave_zero :
    ∑ n : Fin 8, Real.cos ((2 * (n : ℕ) + 1) * ((0 : ℤ) * (Real.pi / 16))) = 8 := by
  simp

theorem basis_real (k n : Fin 8) :
    (basis k n : ℝ) = Real.cos ((2 * (n : ℕ) + 1) * (((k : ℕ) : ℤ) * (Real.pi / 16))) := by
  change Real.cos (((2 * n.val + 1) * k.val : ℕ) * (Real.pi / 16)) = _
  push_cast
  ring_nf

/-- The product of two waves is half the sum of the waves of their difference and their sum. -/
theorem sum_basis_mul_basis (k l : Fin 8) :
    ∑ n, (basis k n * basis l n : ℝ) =
      (∑ n : Fin 8, Real.cos ((2 * (n : ℕ) + 1) * (((k.val - l.val : ℤ) : ℝ) * (Real.pi / 16))) +
        ∑ n : Fin 8,
          Real.cos ((2 * (n : ℕ) + 1) * (((k.val + l.val : ℤ) : ℝ) * (Real.pi / 16)))) / 2 := by
  rw [← sum_add_distrib, sum_div]
  refine sum_congr rfl fun n _ => ?_
  have hproduct (a b : ℝ) :
      Real.cos a * Real.cos b = (Real.cos (a - b) + Real.cos (a + b)) / 2 := by
    rw [Real.cos_sub, Real.cos_add]
    ring
  rw [basis_real, basis_real, hproduct]
  push_cast
  ring_nf

theorem waveWeight_sq_zero : (waveWeight 0 * waveWeight 0 : ℝ) = 1 / 2 := by
  change 1 / Real.sqrt 2 * (1 / Real.sqrt 2) = 1 / 2
  rw [div_mul_div_comm, one_mul, Real.mul_self_sqrt (by norm_num)]

theorem waveWeight_of_ne_zero {k : Fin 8} (hk : k ≠ 0) : (waveWeight k : ℝ) = 1 := by
  rw [waveWeight, if_neg hk]
  exact Int.cast_one

theorem waveMatrix_mul_transpose : waveMatrix * waveMatrixᵀ = 1 := by
  ext k l
  have hentry : (waveMatrix * waveMatrixᵀ) k l =
      waveWeight k * waveWeight l / 4 * ∑ n, (basis k n * basis l n : ℝ) := by
    rw [Matrix.mul_apply, mul_sum]
    refine sum_congr rfl fun n _ => ?_
    simp only [waveMatrix, transpose_apply, of_apply]
    ring
  rw [hentry, sum_basis_mul_basis]
  by_cases hkl : k = l
  · subst hkl
    rw [Matrix.one_apply_eq, sub_self, sum_wave_zero]
    by_cases hk : k = 0
    · subst hk
      rw [waveWeight_sq_zero]
      norm_num
    · rw [waveWeight_of_ne_zero hk, sum_wave_eq_zero (by omega)]
      norm_num
  · rw [Matrix.one_apply_ne hkl, sum_wave_eq_zero (by omega), sum_wave_eq_zero (by omega)]
    ring

theorem waveMatrix_transpose_mul : waveMatrixᵀ * waveMatrix = 1 :=
  mul_eq_one_comm.mp waveMatrix_mul_transpose

theorem sumOfEight_eq_sum (f : Fin 8 → ℝ) : sumOfEight f = ∑ i, f i :=
  (Fin.sum_univ_eight f).symm

/-- The samples of a block around 128. -/
noncomputable def Block.centered (b : Block ℝ) : Block ℝ :=
  b.map fun s => s - 128

theorem at_centered (b : Block ℝ) (y x : Fin 8) : b.centered.at y x = b.at y x - 128 :=
  Block.at_map _ b y x

theorem waveScale_eq (v u : Fin 8) :
    (waveScale v u : ℝ) = waveWeight v / 2 * (waveWeight u / 2) := by
  have hquarter : (waveScale v u : ℝ) = ((1 : ℤ) : ℝ) / ((4 : ℤ) : ℝ) *
      (waveWeight v * waveWeight u) := rfl
  rw [hquarter]
  push_cast
  ring

theorem forwardTransform_at_real (b : Block ℝ) (v u : Fin 8) :
    (forwardTransform b).at v u =
      waveScale v u * ∑ x, (∑ y, basis v y * b.centered.at y x) * basis u x := by
  have hbias : (ofInt 128 : ℝ) = 128 := Int.cast_ofNat 128
  simp only [forwardTransform_at, sumOfEight_eq_sum, at_centered, hbias]

theorem inverseTransform_at_real (coefficients : Block ℝ) (y x : Fin 8) :
    (inverseTransform coefficients).at y x =
      ∑ u, (∑ v, basis v y * (waveScale v u * coefficients.at v u)) * basis u x + 128 := by
  have hvalue : (inverseTransform coefficients).at y x =
      sumOfEight (fun u =>
        (sumOfEight fun v => basis v y * (waveScale v u * coefficients.at v u)) * basis u x) +
          ((128 : ℤ) : ℝ) := by
    simp only [inverseTransform, Block.at_ofFn]
    rfl
  simp only [hvalue, sumOfEight_eq_sum]
  norm_num

theorem toMatrix_forwardTransform (b : Block ℝ) :
    (forwardTransform b).toMatrix = waveMatrix * b.centered.toMatrix * waveMatrixᵀ := by
  ext v u
  rw [Block.toMatrix_apply, forwardTransform_at_real, Matrix.mul_apply, mul_sum]
  refine sum_congr rfl fun x _ => ?_
  rw [Matrix.mul_apply, waveScale_eq, transpose_apply, sum_mul, mul_sum, sum_mul]
  refine sum_congr rfl fun y _ => ?_
  simp only [waveMatrix, of_apply, Block.toMatrix_apply]
  ring

theorem toMatrix_inverseTransform (coefficients : Block ℝ) :
    (inverseTransform coefficients).centered.toMatrix =
      waveMatrixᵀ * coefficients.toMatrix * waveMatrix := by
  ext y x
  rw [Block.toMatrix_apply, at_centered, inverseTransform_at_real, add_sub_cancel_right,
    Matrix.mul_apply]
  refine sum_congr rfl fun u _ => ?_
  rw [Matrix.mul_apply, sum_mul, sum_mul]
  refine sum_congr rfl fun v _ => ?_
  simp only [waveMatrix, transpose_apply, of_apply, Block.toMatrix_apply, waveScale_eq]
  ring

theorem Block.centered_injective {a b : Block ℝ} (h : a.centered = b.centered) : a = b := by
  refine Block.ext_at fun y x => ?_
  have hvalue := congrArg (fun block => block.at y x) h
  simpa only [at_centered, sub_left_inj] using hvalue

theorem inverseTransform_forwardTransform (b : Block ℝ) :
    inverseTransform (forwardTransform b) = b := by
  apply Block.centered_injective
  apply Block.toMatrix_injective
  rw [toMatrix_inverseTransform, toMatrix_forwardTransform]
  calc
    waveMatrixᵀ * (waveMatrix * b.centered.toMatrix * waveMatrixᵀ) * waveMatrix =
        waveMatrixᵀ * waveMatrix * b.centered.toMatrix * (waveMatrixᵀ * waveMatrix) := by
      simp only [Matrix.mul_assoc]
    _ = b.centered.toMatrix := by rw [waveMatrix_transpose_mul, Matrix.one_mul, Matrix.mul_one]

theorem forwardTransform_inverseTransform (coefficients : Block ℝ) :
    forwardTransform (inverseTransform coefficients) = coefficients := by
  apply Block.toMatrix_injective
  rw [toMatrix_forwardTransform, toMatrix_inverseTransform]
  calc
    waveMatrix * (waveMatrixᵀ * coefficients.toMatrix * waveMatrix) * waveMatrixᵀ =
        waveMatrix * waveMatrixᵀ * coefficients.toMatrix * (waveMatrix * waveMatrixᵀ) := by
      simp only [Matrix.mul_assoc]
    _ = coefficients.toMatrix := by rw [waveMatrix_mul_transpose, Matrix.one_mul, Matrix.mul_one]

/-- The sum of the squares of all entries. -/
noncomputable def energy (m : Matrix (Fin 8) (Fin 8) ℝ) : ℝ :=
  ∑ y, ∑ x, m y x ^ 2

theorem energy_eq_trace (m : Matrix (Fin 8) (Fin 8) ℝ) : energy m = (m * mᵀ).trace := by
  refine sum_congr rfl fun y _ => ?_
  rw [diag_apply, Matrix.mul_apply]
  refine sum_congr rfl fun x _ => ?_
  rw [transpose_apply, sq]

theorem sq_le_energy (m : Matrix (Fin 8) (Fin 8) ℝ) (y x : Fin 8) : m y x ^ 2 ≤ energy m := by
  calc
    m y x ^ 2 ≤ ∑ x, m y x ^ 2 := single_le_sum (fun x _ => sq_nonneg (m y x)) (mem_univ x)
    _ ≤ energy m :=
      single_le_sum (fun y _ => sum_nonneg fun x _ => sq_nonneg (m y x)) (mem_univ y)

theorem energy_le {a b : Matrix (Fin 8) (Fin 8) ℝ} (h : ∀ y x, |a y x| ≤ b y x) :
    energy a ≤ energy b :=
  sum_le_sum fun y _ => sum_le_sum fun x _ =>
    sq_le_sq' (neg_le_of_abs_le (h y x)) (le_of_abs_le (h y x))

/-- Orthonormal waves in both directions keep the energy. -/
theorem energy_conjugate {w : Matrix (Fin 8) (Fin 8) ℝ} (hw : wᵀ * w = 1)
    (m : Matrix (Fin 8) (Fin 8) ℝ) : energy (w * m * wᵀ) = energy m := by
  rw [energy_eq_trace, energy_eq_trace]
  calc
    (w * m * wᵀ * (w * m * wᵀ)ᵀ).trace = (w * m * (wᵀ * w) * mᵀ * wᵀ).trace := by
      simp only [transpose_mul, transpose_transpose, Matrix.mul_assoc]
    _ = (w * (m * mᵀ) * wᵀ).trace := by
      rw [hw, Matrix.mul_one, Matrix.mul_assoc w]
    _ = (wᵀ * (w * (m * mᵀ))).trace := trace_mul_comm _ _
    _ = (m * mᵀ).trace := by
      rw [← Matrix.mul_assoc, hw, Matrix.one_mul]

theorem energy_forwardTransform (b : Block ℝ) :
    energy (forwardTransform b).toMatrix = energy b.centered.toMatrix := by
  rw [toMatrix_forwardTransform, energy_conjugate waveMatrix_transpose_mul]

/-- Two blocks are as far from each other as their coefficients. -/
theorem energy_inverseTransform_sub (a b : Block ℝ) :
    energy ((inverseTransform a).toMatrix - (inverseTransform b).toMatrix) =
      energy (a.toMatrix - b.toMatrix) := by
  have hbias : (inverseTransform a).toMatrix - (inverseTransform b).toMatrix =
      (inverseTransform a).centered.toMatrix - (inverseTransform b).centered.toMatrix := by
    ext y x
    simp only [Matrix.sub_apply, Block.toMatrix_apply, at_centered, sub_sub_sub_cancel_right]
  have hconjugate : waveMatrixᵀ * a.toMatrix * waveMatrix - waveMatrixᵀ * b.toMatrix * waveMatrix =
      waveMatrixᵀ * (a.toMatrix - b.toMatrix) * waveMatrixᵀᵀ := by
    rw [transpose_transpose, Matrix.mul_sub, Matrix.sub_mul]
  rw [hbias, toMatrix_inverseTransform, toMatrix_inverseTransform, hconjugate]
  exact energy_conjugate (by rw [transpose_transpose, waveMatrix_mul_transpose]) _

/-- Over the real numbers the two transforms undo each other, and no energy is lost. -/
theorem transform_orthonormal :
    (∀ b : Block ℝ, inverseTransform (forwardTransform b) = b) ∧
    (∀ coefficients : Block ℝ, forwardTransform (inverseTransform coefficients) = coefficients) ∧
    ∀ b : Block ℝ,
      ∑ y, ∑ x, (b.at y x - 128) ^ 2 = ∑ v, ∑ u, (forwardTransform b).at v u ^ 2 := by
  refine ⟨inverseTransform_forwardTransform, forwardTransform_inverseTransform, fun b => ?_⟩
  have henergy := energy_forwardTransform b
  simp only [energy, Block.toMatrix_apply, at_centered] at henergy
  exact henergy.symm

end Compression
