import Compression.Proofs.RealTransform
import Compression.Proofs.StoredSteps

namespace Compression

open Finset

/-- The nearest brightness that a sample can have. -/
noncomputable def clip (brightness : ℝ) : ℝ :=
  max 0 (min 255 brightness)

/-- A sample that a file tells, neither clipped nor rounded. -/
noncomputable def decodedSample (columns : Nat) (file : Bytes) (row column : Nat) (y x : Fin 8) :
    ℝ :=
  (decodeBlock (payloadSteps (blockPayload columns file row column))).at y x

theorem roundAwayReal_of_nonneg {x : ℝ} (hx : 0 ≤ x) : roundAwayReal x = ⌊x + 1 / 2⌋ := by
  rw [roundAwayReal, if_neg (not_lt.mpr hx), abs_of_nonneg hx]

theorem roundAwayReal_neg_of_pos {x : ℝ} (hx : 0 < x) : roundAwayReal (-x) = -⌊x + 1 / 2⌋ := by
  rw [roundAwayReal, if_pos (by linarith), abs_neg, abs_of_pos hx]

theorem abs_roundAwayReal_sub_le (x : ℝ) : |(roundAwayReal x : ℝ) - x| ≤ 1 / 2 := by
  have hfloor (z : ℝ) : |(⌊z + 1 / 2⌋ : ℝ) - z| ≤ 1 / 2 := by
    have hlow := Int.floor_le (z + 1 / 2)
    have hhigh := Int.lt_floor_add_one (z + 1 / 2)
    rw [abs_le]
    constructor <;> linarith
  by_cases hx : 0 ≤ x
  · rw [roundAwayReal_of_nonneg hx]
    exact hfloor x
  · have hneg := roundAwayReal_neg_of_pos (neg_pos.mpr (not_le.mp hx))
    rw [neg_neg] at hneg
    have hdifference : ((-⌊-x + 1 / 2⌋ : ℤ) : ℝ) - x = -((⌊-x + 1 / 2⌋ : ℝ) - -x) := by
      push_cast
      ring
    rw [hneg, hdifference, abs_neg]
    exact hfloor (-x)

theorem clip_range (x : ℝ) : 0 ≤ clip x ∧ clip x ≤ 255 := by
  have hhigh : min 255 x ≤ 255 := min_le_left 255 x
  exact ⟨le_max_left 0 _, max_le (by norm_num) hhigh⟩

/-- To clip does not lead away from a brightness that a sample can have. -/
theorem abs_clip_sub_le {x l : ℝ} (hl : 0 ≤ l) (hl' : l ≤ 255) : |clip x - l| ≤ |x - l| := by
  have hclip : clip l = l := by rw [clip, min_eq_right hl', max_eq_right hl]
  calc
    |clip x - l| = |max 0 (min 255 x) - max 0 (min 255 l)| := by rw [← clip, ← clip, hclip]
    _ ≤ |min 255 x - min 255 l| := by
      simpa using abs_max_sub_max_le_max 0 (min 255 x) 0 (min 255 l)
    _ ≤ |x - l| := by
      simpa using abs_min_sub_min_le_max 255 x 255 l

/-- A pixel is the nearest sample to a clipped brightness. -/
theorem abs_pixelOf_sub_le (x : ℝ) : |((pixelOf x).toNat : ℝ) - clip x| ≤ 1 / 2 := by
  obtain ⟨hlow, hhigh⟩ := clip_range x
  have hround := abs_roundAwayReal_sub_le (clip x)
  have hnonneg : 0 ≤ roundAwayReal (clip x) := by
    rw [roundAwayReal_of_nonneg hlow]
    exact Int.floor_nonneg.mpr (by linarith)
  have hle : roundAwayReal (clip x) ≤ 255 := by
    rw [roundAwayReal_of_nonneg hlow]
    exact Int.lt_add_one_iff.mp (Int.floor_lt.mpr (by push_cast; linarith))
  have hclip : max (ofInt 0) (min (ofInt 255) x) = clip x := by
    change max ((0 : ℤ) : ℝ) (min ((255 : ℤ) : ℝ) x) = clip x
    rw [clip]
    norm_num
  have hpixel : ((pixelOf x).toNat : ℤ) = roundAwayReal (clip x) := by
    rw [pixelOf, hclip]
    change ((UInt8.ofNat (roundAwayReal (clip x)).toNat).toNat : ℤ) = _
    have hlt : (roundAwayReal (clip x)).toNat < 256 := by omega
    rw [UInt8.toNat_ofNat_of_lt' hlt, Int.toNat_of_nonneg hnonneg]
  have hcast : ((pixelOf x).toNat : ℝ) = (roundAwayReal (clip x) : ℝ) := by exact_mod_cast hpixel
  rw [hcast]
  exact hround

theorem brightness_real (channels : Nat) (sample : Nat → UInt8) :
    (brightness channels sample : ℝ) =
      if channels = 1 then ((sample 0).toNat : ℝ)
      else (sample 0).toNat * (299 / 1000) + (sample 1).toNat * (587 / 1000) +
        (sample 2).toNat * (114 / 1000) := by
  have hcast (n : ℕ) : (ofInt (n : ℤ) : ℝ) = n := Int.cast_natCast n
  have hweight (n : ℕ) : (ofInt (n : ℤ) / ofInt 1000 : ℝ) = n / 1000 := by
    change ((n : ℤ) : ℝ) / ((1000 : ℤ) : ℝ) = n / 1000
    push_cast
    rfl
  rw [brightness]
  split
  · exact hcast _
  · have hred := hweight 299
    have hgreen := hweight 587
    have hblue := hweight 114
    push_cast at hred hgreen hblue
    rw [hred, hgreen, hblue, hcast, hcast, hcast]

/-- The weights of the three channels sum to one. -/
theorem brightness_range (channels : Nat) (sample : Nat → UInt8) :
    0 ≤ (brightness channels sample : ℝ) ∧ (brightness channels sample : ℝ) ≤ 255 := by
  have hnonneg (channel : Nat) : 0 ≤ ((sample channel).toNat : ℝ) := Nat.cast_nonneg _
  have hle (channel : Nat) : ((sample channel).toNat : ℝ) ≤ 255 := by
    have hlt := (sample channel).toNat_lt
    exact_mod_cast (by omega : (sample channel).toNat ≤ 255)
  have := hnonneg 0
  have := hnonneg 1
  have := hnonneg 2
  have := hle 0
  have := hle 1
  have := hle 2
  rw [brightness_real]
  split
  · exact ⟨hnonneg 0, hle 0⟩
  · constructor <;> linarith

theorem brightness_black_real (channels : Nat) :
    (brightness channels (fun _ => 0) : ℝ) = ofInt 0 := by
  have hzero : (ofInt 0 : ℝ) = 0 := Int.cast_zero
  rw [brightness_real, hzero]
  simp

theorem at_blockAt_range (image : Image) (row column : Nat) (y x : Fin 8) :
    0 ≤ (image.blockAt row column : Block ℝ).at y x ∧
      (image.blockAt row column : Block ℝ).at y x ≤ 255 := by
  rw [Image.blockAt, Block.at_ofFn]
  exact brightness_range _ _

theorem ten_le_quantSteps (v u : Fin 8) : 10 ≤ quantSteps.at v u := by
  revert v u
  decide

section

variable {coefficients : Block ℝ} (hcoefficients : ∀ v u, |coefficients.at v u| ≤ 1024)

include hcoefficients

/-- Such coefficients are quantized without being cut off. -/
theorem at_quantize_real (v u : Fin 8) :
    (quantize coefficients).at v u =
      roundAwayReal (coefficients.at v u / quantSteps.at v u) := by
  have hstep : (10 : ℝ) ≤ quantSteps.at v u := by exact_mod_cast ten_le_quantSteps v u
  have hquotient : |coefficients.at v u / quantSteps.at v u| ≤ 1024 / 10 := by
    rw [abs_div, abs_of_pos (by linarith : (0 : ℝ) < quantSteps.at v u)]
    exact div_le_div₀ (by norm_num) (hcoefficients v u) (by norm_num) hstep
  have hround := abs_roundAwayReal_sub_le (coefficients.at v u / quantSteps.at v u)
  rw [abs_le] at hround hquotient
  have hlow : (-32768 : ℝ) ≤ roundAwayReal (coefficients.at v u / quantSteps.at v u) := by
    linarith
  have hhigh : (roundAwayReal (coefficients.at v u / quantSteps.at v u) : ℝ) ≤ 32767 := by
    linarith
  rw [at_quantize]
  exact clampInt16_of_range (by exact_mod_cast hlow) (by exact_mod_cast hhigh)

/-- A coefficient comes back with an error of at most half a step. -/
theorem abs_dequantize_sub_le (v u : Fin 8) :
    |(dequantize (quantize coefficients)).at v u - coefficients.at v u| ≤
      quantSteps.at v u / 2 := by
  have hstep : (0 : ℝ) < quantSteps.at v u := by
    have := ten_le_quantSteps v u
    exact_mod_cast (by omega : 0 < quantSteps.at v u)
  rw [at_dequantize, at_quantize_real hcoefficients]
  generalize coefficients.at v u = c
  have hround := abs_roundAwayReal_sub_le (c / quantSteps.at v u)
  calc
    |(roundAwayReal (c / quantSteps.at v u) : ℝ) * quantSteps.at v u - c| =
        |(roundAwayReal (c / quantSteps.at v u) : ℝ) - c / quantSteps.at v u| *
          quantSteps.at v u := by
      rw [← abs_of_pos hstep, ← abs_mul, abs_of_pos hstep, sub_mul, div_mul_cancel₀ c hstep.ne']
    _ ≤ 1 / 2 * quantSteps.at v u := mul_le_mul_of_nonneg_right hround hstep.le
    _ = quantSteps.at v u / 2 := by ring

theorem energy_dequantize_sub_le :
    energy ((dequantize (quantize coefficients)).toMatrix - coefficients.toMatrix) ≤
      (∑ v, ∑ u, (quantSteps.at v u : ℝ) ^ 2) / 4 := by
  calc
    energy ((dequantize (quantize coefficients)).toMatrix - coefficients.toMatrix) ≤
        energy (fun v u => (quantSteps.at v u : ℝ) / 2) :=
      energy_le (abs_dequantize_sub_le hcoefficients)
    _ = (∑ v, ∑ u, (quantSteps.at v u : ℝ) ^ 2) / 4 := by
      simp only [energy, div_pow, ← sum_div]
      norm_num

end

section

variable {block : Block ℝ} (hblock : ∀ y x, 0 ≤ block.at y x ∧ block.at y x ≤ 255)

include hblock

/-- A coefficient is at most eight times as large as the greatest distance of a sample from 128. -/
theorem abs_forwardTransform_le (v u : Fin 8) : |(forwardTransform block).at v u| ≤ 1024 := by
  have hsample (y x : Fin 8) : |block.centered.toMatrix y x| ≤ 128 := by
    obtain ⟨hlow, hhigh⟩ := hblock y x
    rw [Block.toMatrix_apply, at_centered, abs_le]
    constructor <;> linarith
  have henergy : energy (fun _ _ => 128) = 1024 ^ 2 := by
    simp only [energy, sum_const, card_univ, Fintype.card_fin, nsmul_eq_mul]
    norm_num
  have hentry := sq_le_energy (forwardTransform block).toMatrix v u
  rw [Block.toMatrix_apply, energy_forwardTransform] at hentry
  have hle := energy_le hsample
  rw [henergy] at hle
  exact abs_le_of_sq_le_sq (hentry.trans hle) (by norm_num)

theorem energy_decodeBlock_sub_le :
    energy ((decodeBlock (quantize (forwardTransform block))).toMatrix - block.toMatrix) ≤
      (∑ v, ∑ u, (quantSteps.at v u : ℝ) ^ 2) / 4 := by
  have hcoefficients := abs_forwardTransform_le hblock
  have hsame := inverseTransform_forwardTransform block
  generalize forwardTransform block = coefficients at hcoefficients hsame ⊢
  rw [decodeBlock, ← hsame, energy_inverseTransform_sub]
  exact energy_dequantize_sub_le hcoefficients

/-- To clip the samples of a block and to leave some of them out brings it no further from the
block that it came from. -/
theorem sum_clip_sub_le (decoded : Block ℝ) (inside : Fin 8 → Fin 8 → Prop)
    [∀ y x, Decidable (inside y x)] :
    (∑ y, ∑ x, if inside y x then (clip (decoded.at y x) - block.at y x) ^ 2 else 0) ≤
      energy (decoded.toMatrix - block.toMatrix) := by
  refine sum_le_sum fun y _ => sum_le_sum fun x _ => ?_
  split
  · obtain ⟨hlow, hhigh⟩ := hblock y x
    exact sq_le_sq.mpr (abs_clip_sub_le hlow hhigh)
  · exact sq_nonneg _

end

/-- Over the real numbers no coefficient of an image is cut off. In each block the clipped samples
of the file are at a bounded distance from the brightness of the image, and the pixels are the
nearest whole numbers to them. -/
theorem decodedImage_distortion_le (image : Image) (hwidth : 1 ≤ image.width)
    (hwidthLe : image.width ≤ 65535) (hheight : 1 ≤ image.height)
    (hheightLe : image.height ≤ 65535) (hchannels : image.channels = 1 ∨ image.channels = 3) :
    ∃ (luma : Plane ℝ) (file : Bytes) (pixels : Plane UInt8),
      image.luma = .ok luma ∧ encodeImageWith ℝ image = .ok file ∧
      decodeImageWith ℝ file = .ok pixels ∧ pixels.height = image.height ∧
      pixels.width = image.width ∧
      ∀ row < (image.height + 7) / 8, ∀ column < (image.width + 7) / 8,
        let sample := decodedSample ((image.width + 7) / 8) file row column
        (∃ block, ((luma.padToBlocks 0).splitBlocks 0).get? row column = some block ∧
          ∀ v u, (quantize (forwardTransform block)).at v u =
            roundAwayReal ((forwardTransform block).at v u / quantSteps.at v u)) ∧
        (∑ y : Fin 8, ∑ x : Fin 8,
          if 8 * row + y < image.height ∧ 8 * column + x < image.width then
            (clip (sample y x) - luma.getD (8 * row + y) (8 * column + x) 0) ^ 2
          else 0) ≤ (∑ v, ∑ u, (quantSteps.at v u : ℝ) ^ 2) / 4 ∧
        ∀ y x : Fin 8, 8 * row + y < image.height → 8 * column + x < image.width →
          pixels.get? (8 * row + y) (8 * column + x) = some (pixelOf (sample y x)) ∧
            |((pixelOf (sample y x)).toNat : ℝ) - clip (sample y x)| ≤ 1 / 2 := by
  have hblack := brightness_black_real image.channels
  have hzero : (ofInt 0 : ℝ) = 0 := Int.cast_zero
  obtain ⟨luma, hluma, _⟩ := exists_luma (α := ℝ) hchannels
  obtain ⟨file, pixels, hfile, _, _, hpixels, hrows, hcolumns⟩ :=
    exists_decoded_encodeImageWith (α := ℝ) hwidth hwidthLe hheight hheightLe hchannels
  obtain ⟨file', hfile', hsteps⟩ := exists_stored_steps hblack hwidthLe hheightLe hchannels
  obtain rfl : file' = file := Except.ok.inj (hfile'.symm.trans hfile)
  refine ⟨luma, file', pixels, hluma, hfile, hpixels, hrows, hcolumns,
    fun row hrow column hcolumn => ⟨?_, ?_, fun y x hy hx => ?_⟩⟩
  · have hblock := Image.get?_blockAt hblack hluma hrow hcolumn
    rw [hzero] at hblock
    have hcoefficients := abs_forwardTransform_le (at_blockAt_range image row column)
    exact ⟨_, hblock, at_quantize_real hcoefficients⟩
  · have hrange := at_blockAt_range image row column
    have hluma (y x : Fin 8) : luma.getD (8 * row + y) (8 * column + x) 0 =
        (image.blockAt row column : Block ℝ).at y x := by
      rw [← hzero, Image.getD_luma hblack hluma, Image.blockAt, Block.at_ofFn]
    simp only [decodedSample, hsteps row hrow column hcolumn, hluma]
    exact (sum_clip_sub_le hrange _ _).trans (energy_decodeBlock_sub_le hrange)
  · rw [← hcolumns]
    exact ⟨get?_decodeImageWith hpixels (hrows ▸ hrow) (hcolumns ▸ hcolumn) y x (hrows ▸ hy)
      (hcolumns ▸ hx), abs_pixelOf_sub_le _⟩

/-- The last block of a color image, of which only one pixel is in the image. -/
theorem decodedImage_distortion_le_color :
    let image : Image := ⟨9, 17, 3, List.replicate 459 7, List.length_replicate⟩
    ∃ (luma : Plane ℝ) (file : Bytes) (pixels : Plane UInt8),
      image.luma = .ok luma ∧ encodeImageWith ℝ image = .ok file ∧
      decodeImageWith ℝ file = .ok pixels ∧
      (clip (decodedSample 2 file 2 1 0 0) - luma.getD 16 8 0) ^ 2 ≤ 72007 ∧
      pixels.get? 16 8 = some (pixelOf (decodedSample 2 file 2 1 0 0)) ∧
      |((pixelOf (decodedSample 2 file 2 1 0 0)).toNat : ℝ) -
        clip (decodedSample 2 file 2 1 0 0)| ≤ 1 / 2 := by
  intro image
  obtain ⟨luma, file, pixels, hluma, hfile, hpixels, _, _, hblocks⟩ :=
    decodedImage_distortion_le image (by decide) (by decide) (by decide) (by decide) (.inr rfl)
  have hcolumns : (image.width + 7) / 8 = 2 := by decide
  rw [hcolumns] at hblocks
  obtain ⟨_, hsum, hvalues⟩ := hblocks 2 (by decide) 1 (by decide)
  refine ⟨luma, file, pixels, hluma, hfile, hpixels, ?_, ?_⟩
  · have hsteps : ∑ v, ∑ u, (quantSteps.at v u : ℝ) ^ 2 = 288028 := by
      have hwhole : ∑ v, ∑ u, quantSteps.at v u ^ 2 = 288028 := by
        simp only [Fin.sum_univ_eight]
        rfl
      exact_mod_cast hwhole
    have hbound : (288028 / 4 : ℝ) = 72007 := by norm_num
    rw [hsteps, hbound] at hsum
    simpa [Fin.sum_univ_eight, image] using hsum
  · exact hvalues 0 0 (by decide) (by decide)

end Compression
