import Compression.Proofs.FloatArithmetic
import Compression.Proofs.StoredSteps

namespace Compression

/-! ### Three roundings -/

theorem representable_mul_pow {n : ℤ} (e : ℤ) (hn : |n| ≤ 2 ^ 53) (he : -1074 ≤ e) :
    Representable (n * 2 ^ e) :=
  ⟨n, e, hn, he, rfl⟩

/-- The weight of the constant term in doubles: an eighth, but for the last place. -/
def constantWeight : ℚ :=
  1 / 8 - 2 ^ (-55 : ℤ)

section

variable {S n : ℤ} {p q r : ℚ}

/-- What a sum is stored as, if no rounding on the way leads past the neighbours of its eighth, of
its share of 128, and of this share with a half added. -/
structure Rounded (S : ℤ) (p q r : ℚ) : Prop where
  product : RoundsTo (constantWeight * S) p
  quotient : RoundsTo (p / 16) q
  sum : RoundsTo (q + 1 / 2) r

theorem Rounded.ge (h : Rounded S p q r) (hn : 1 ≤ n) (hS : S ≤ 8192)
    (hlow : 128 * n - 63 ≤ S) : n ≤ r := by
  have hn' : n ≤ 65 := by omega
  have hS' : (S : ℚ) ≤ 8192 := by exact_mod_cast hS
  have hlow' : (128 : ℚ) * n - 63 ≤ S := by exact_mod_cast hlow
  have hp : ((16 * n - 8 : ℤ) : ℚ) ≤ p := by
    refine h.product.ge (representable_int (abs_le.mpr (by omega))) ?_
    have hsmall : (S : ℚ) * 2 ^ (-55 : ℤ) ≤ 1 / 8 := by
      norm_num
      linarith
    rw [constantWeight, sub_mul]
    push_cast
    linarith
  have hq : ((2 * n - 1 : ℤ) : ℚ) * 2 ^ (-1 : ℤ) ≤ q := by
    refine h.quotient.ge (representable_mul_pow _ (abs_le.mpr (by omega)) (by norm_num)) ?_
    push_cast at hp ⊢
    norm_num
    linarith
  refine h.sum.ge (representable_int (abs_le.mpr (by omega))) ?_
  push_cast at hq
  norm_num at hq
  linarith

theorem Rounded.lt_of_no_tie (h : Rounded S p q r) (hn : 0 ≤ n) (hn' : n ≤ 65) (hS : 0 ≤ S)
    (hhigh : S ≤ 128 * n + 63) : r < n + 1 := by
  have hS' : (0 : ℚ) ≤ S := by exact_mod_cast hS
  have hhigh' : (S : ℚ) ≤ 128 * n + 63 := by exact_mod_cast hhigh
  have hp : p ≤ ((128 * n + 63 : ℤ) : ℚ) * 2 ^ (-3 : ℤ) := by
    refine h.product.le (representable_mul_pow _ (abs_le.mpr (by omega)) (by norm_num)) ?_
    have hsmall : 0 ≤ (S : ℚ) * 2 ^ (-55 : ℤ) := by positivity
    rw [constantWeight, sub_mul]
    push_cast
    norm_num at hsmall ⊢
    linarith
  have hq : q ≤ ((128 * n + 63 : ℤ) : ℚ) * 2 ^ (-7 : ℤ) := by
    refine h.quotient.le (representable_mul_pow _ (abs_le.mpr (by omega)) (by norm_num)) ?_
    norm_num at hp ⊢
    linarith
  have hr : r ≤ ((128 * n + 127 : ℤ) : ℚ) * 2 ^ (-7 : ℤ) := by
    refine h.sum.le (representable_mul_pow _ (abs_le.mpr (by omega)) (by norm_num)) ?_
    push_cast at hq ⊢
    norm_num at hq ⊢
    linarith
  push_cast at hr
  norm_num at hr
  linarith

/-- The place of the last binary digit below the middle of two shares. The halves around the middle
are representable with one digit of this place taken away. -/
theorem exists_lastPlace {w : ℕ} (hw : w ≤ 63) :
    ∃ place : ℚ, 0 < place ∧ 16 * place ≤ (2 * w + 1) * 2 ^ (-49 : ℤ) ∧
      ∀ v : ℕ, 1 ≤ v → v ≤ 2 * w + 2 → Representable (v / 2 - place) := by
  have hpower : 2 ^ (2 * w + 1).log2 ≤ 2 * w + 1 := Nat.log2_self_le (by omega)
  have hnext : 2 * w + 1 < 2 ^ ((2 * w + 1).log2 + 1) := Nat.lt_log2_self
  generalize (2 * w + 1).log2 = k at hpower hnext
  have hk : k ≤ 6 := by
    by_contra hlarge
    have : 2 ^ 7 ≤ 2 ^ k := Nat.pow_le_pow_right two_pos (by omega)
    omega
  refine ⟨2 ^ ((k : ℤ) - 53), by positivity, ?_, fun v hv hv' => ?_⟩
  · have hsplit : (16 : ℚ) * 2 ^ ((k : ℤ) - 53) = 2 ^ k * 2 ^ (-49 : ℤ) := by
      have hsixteen : (2 : ℚ) ^ (-49 : ℤ) = 16 * 2 ^ (-53 : ℤ) := by norm_num
      rw [hsixteen, sub_eq_add_neg, zpow_add₀ two_ne_zero, zpow_natCast]
      ring
    rw [hsplit]
    gcongr
    exact_mod_cast hpower
  · have hhalf : (2 : ℚ) ^ (52 - k) * 2 ^ ((k : ℤ) - 53) = 1 / 2 := by
      have hexponent : ((52 - k : ℕ) : ℤ) + ((k : ℤ) - 53) = -1 := by omega
      rw [← zpow_natCast, ← zpow_add₀ two_ne_zero, hexponent]
      norm_num
    have hvalue : (v : ℚ) / 2 - 2 ^ ((k : ℤ) - 53) =
        ((v * 2 ^ (52 - k) - 1 : ℤ) : ℚ) * 2 ^ ((k : ℤ) - 53) := by
      push_cast
      rw [sub_mul, mul_assoc, hhalf]
      ring
    have hpos : 1 ≤ v * 2 ^ (52 - k) := Nat.mul_pos hv (by positivity)
    have hle : v * 2 ^ (52 - k) ≤ 2 ^ 53 := by
      have heven : 2 * w + 2 ≤ 2 ^ (k + 1) := by
        rw [pow_succ] at hnext ⊢
        omega
      calc v * 2 ^ (52 - k) ≤ 2 ^ (k + 1) * 2 ^ (52 - k) :=
            Nat.mul_le_mul_right _ (hv'.trans heven)
        _ = 2 ^ 53 := by rw [← pow_add]; congr 1; omega
    rw [hvalue]
    refine representable_mul_pow _ (abs_le.mpr ?_) (by omega)
    zify at hpos hle
    omega

/-- The product is below an eighth of the sum by a last place or more. In the quotient and in the
last sum this place still exists. -/
theorem Rounded.lt_of_tie (h : Rounded (128 * n + 64) p q r) (hn : 0 ≤ n) (hn' : n ≤ 63) :
    r < n + 1 := by
  obtain ⟨w, rfl⟩ := Int.eq_ofNat_of_zero_le hn
  obtain ⟨place, hpos, hlast, hplaces⟩ := exists_lastPlace (w := w) (by omega)
  have hp : p ≤ (((2 * w + 1 : ℕ) : ℚ) / 2 - place) * 2 ^ 4 := by
    refine h.product.le ((hplaces _ (by omega) (by omega)).mul_two_pow 4) ?_
    rw [constantWeight]
    push_cast
    norm_num at hlast ⊢
    linarith
  have hq : q ≤ ((2 * w + 1 : ℕ) : ℚ) / 2 - place := by
    refine h.quotient.le (hplaces _ (by omega) (by omega)) ?_
    linarith
  have hr : r ≤ ((2 * w + 2 : ℕ) : ℚ) / 2 - place := by
    refine h.sum.le (hplaces _ (by omega) le_rfl) ?_
    push_cast at hq ⊢
    linarith
  push_cast at hr ⊢
  linarith

theorem nonneg_of_roundsTo (hp : RoundsTo (constantWeight * S) p) (hq : RoundsTo (p / 16) q)
    (hS : 0 ≤ S) : 0 ≤ q := by
  have hweight : 0 ≤ constantWeight := by norm_num [constantWeight]
  have hS' : (0 : ℚ) ≤ S := by exact_mod_cast hS
  have hproduct : 0 ≤ p := hp.ge representable_zero (mul_nonneg hweight hS')
  exact hq.ge representable_zero (by positivity)

theorem pos_of_roundsTo (hp : RoundsTo (constantWeight * S) p) (hq : RoundsTo (p / 16) q)
    (hS : 0 < S) : 0 < q := by
  have hS' : (1 : ℚ) ≤ S := by exact_mod_cast hS
  have hpower (k : ℕ) (hk : k ≤ 100) : Representable (2 ^ (-k : ℤ)) := by
    simpa using representable_mul_pow (n := 1) (-k) (by norm_num) (by omega)
  have hproduct : 2 ^ (-(4 : ℕ) : ℤ) ≤ p := by
    refine hp.ge (hpower 4 (by norm_num)) ?_
    norm_num [constantWeight]
    linarith
  have hquotient : 2 ^ (-(8 : ℕ) : ℤ) ≤ q := by
    refine hq.ge (hpower 8 (by norm_num)) ?_
    norm_num at hproduct ⊢
    linarith
  exact lt_of_lt_of_le (by positivity) hquotient

theorem Rounded.half_le (h : Rounded S p q r) (hS : 0 ≤ S) : 1 / 2 ≤ r := by
  have hq := nonneg_of_roundsTo h.product h.quotient hS
  have hhalf : Representable (1 / 2) := ⟨1, -1, by norm_num, by norm_num, by norm_num⟩
  exact h.sum.ge hhalf (by linarith)

/-- The nearest share of 128, from the middle downwards. -/
theorem Rounded.floor_eq (h : Rounded S p q r) (hS : 0 ≤ S) (hS' : S ≤ 8192) :
    ⌊r⌋ = (S + 63) / 128 := by
  obtain ⟨n, hn⟩ : ∃ n, (S + 63) / 128 = n := ⟨_, rfl⟩
  rw [hn, Int.floor_eq_iff]
  constructor
  · obtain hzero | hpos := (show 0 ≤ n by omega).eq_or_lt
    · have := h.half_le hS
      rw [← hzero]
      push_cast
      linarith
    · exact h.ge hpos hS' (by omega)
  · by_cases htie : S = 128 * n + 64
    · subst htie
      exact h.lt_of_tie (by omega) (by omega)
    · exact h.lt_of_no_tie (by omega) (by omega) hS (by omega)

end

/-! ### The constant term of a block -/

theorem hasValue_waveScale : HasValue (waveScale 0 0) constantWeight := by
  have hbits : (waveScale 0 0 : Float) = Float.ofBits 0x3fbffffffffffffe := by decide +kernel
  have hvalue : signFactor .positive * (((2 ^ 53 - 2 : ℕ) : ℚ) * 2 ^ (-56 : ℤ)) =
      constantWeight := by
    norm_num [signFactor, constantWeight]
  rw [hbits, ← hvalue]
  exact Holds.finite .positive (by decide) ⟨by decide, by decide, by decide⟩

theorem hasValue_ofInt_small {n : ℤ} (h : |n| ≤ 2 ^ 40) : HasValue (ofInt n) n :=
  hasValue_ofInt (lt_of_le_of_lt h (by norm_num))

theorem hasValue_basis (n : Fin 8) : HasValue (basis 0 n) (1 : ℤ) := by
  have hone : (basis 0 n : Float) = 1.0 := by
    rw [basis, Fin.val_zero, Nat.mul_zero]
    rfl
  rw [hone, Int.cast_one]
  exact hasValue_one

theorem hasValue_sumOfEight {f : Fin 8 → Float} {g : Fin 8 → ℤ} (hf : ∀ i, HasValue (f i) (g i))
    (hg : ∀ i, |g i| ≤ 2 ^ 40) : HasValue (sumOfEight f) (∑ i, g i : ℤ) := by
  have h0 := abs_le.mp (hg 0)
  have h1 := abs_le.mp (hg 1)
  have h2 := abs_le.mp (hg 2)
  have h3 := abs_le.mp (hg 3)
  have h4 := abs_le.mp (hg 4)
  have h5 := abs_le.mp (hg 5)
  have h6 := abs_le.mp (hg 6)
  have h7 := abs_le.mp (hg 7)
  have htwo := (hf 0).add_int (hf 1) (abs_le.mpr (by omega))
  have hthree := htwo.add_int (hf 2) (abs_le.mpr (by omega))
  have hfour := hthree.add_int (hf 3) (abs_le.mpr (by omega))
  have hfive := hfour.add_int (hf 4) (abs_le.mpr (by omega))
  have hsix := hfive.add_int (hf 5) (abs_le.mpr (by omega))
  have hseven := hsix.add_int (hf 6) (abs_le.mpr (by omega))
  rw [Fin.sum_univ_eight]
  exact hseven.add_int (hf 7) (abs_le.mpr (by omega))

theorem abs_sum_eight_le {g : Fin 8 → ℤ} {bound : ℤ} (hg : ∀ i, |g i| ≤ bound) :
    |∑ i, g i| ≤ 8 * bound := by
  calc |∑ i, g i| ≤ ∑ i, |g i| := Finset.abs_sum_le_sum_abs g _
    _ ≤ ∑ _i : Fin 8, bound := Finset.sum_le_sum fun i _ => hg i
    _ = 8 * bound := by simp

section

variable {block : Block Float} {samples : Fin 8 → Fin 8 → ℤ}

theorem hasValue_constantSum (hblock : ∀ y x, HasValue (block.at y x) (samples y x))
    (hsamples : ∀ y x, |samples y x - 128| ≤ 128) :
    HasValue (sumOfEight fun x =>
        (sumOfEight fun y => basis 0 y * (block.at y x - ofInt 128)) * basis 0 x)
      (∑ y, ∑ x, (samples y x - 128) : ℤ) := by
  have hcentered (y x : Fin 8) :
      HasValue (basis 0 y * (block.at y x - ofInt 128)) (samples y x - 128 : ℤ) := by
    have hdifference := (hblock y x).sub_int (hasValue_ofInt_small (n := 128) (by norm_num))
      ((hsamples y x).trans (by norm_num))
    have hproduct := (hasValue_basis y).mul_int hdifference
      (by rw [one_mul]; exact (hsamples y x).trans (by norm_num))
    rwa [one_mul] at hproduct
  have hcolumn (x : Fin 8) : |∑ y, (samples y x - 128)| ≤ 1024 :=
    abs_sum_eight_le fun y => hsamples y x
  rw [Finset.sum_comm]
  refine hasValue_sumOfEight (fun x => ?_) fun x => (hcolumn x).trans (by norm_num)
  have hsum := hasValue_sumOfEight (fun y => hcentered y x) fun y =>
    (hsamples y x).trans (by norm_num)
  have hproduct := hsum.mul_int (hasValue_basis x)
    (by rw [mul_one]; exact (hcolumn x).trans (by norm_num))
  rwa [mul_one] at hproduct

end

/-- The three roundings on the way from the sum of a block to its share of 128. -/
theorem exists_roundings {x : Float} {S : ℤ} (hx : HasValue x S) (hS : |S| ≤ 8192) :
    ∃ p q r, RoundsTo (constantWeight * S) p ∧ RoundsTo (p / 16) q ∧ RoundsTo (|q| + 1 / 2) r ∧
      roundAway (waveScale 0 0 * x / ofInt 16) = if q < 0 then -⌊r⌋ else ⌊r⌋ := by
  have hlarge : (8192 : ℚ) ≤ 2 ^ 999 := by
    calc (8192 : ℚ) = 2 ^ 13 := by norm_num
      _ ≤ 2 ^ 999 := pow_le_pow_right₀ one_le_two (by norm_num)
  have hlarger : (8192 : ℚ) ≤ 2 ^ 1000 := hlarge.trans (pow_le_pow_right₀ one_le_two (by norm_num))
  have hS' : |(S : ℚ)| ≤ 8192 := by exact_mod_cast hS
  have hrepresentable : Representable 8192 := by
    simpa using representable_int (n := 8192) (by norm_num)
  have hproduct : |constantWeight * S| ≤ 8192 := by
    have hweight : |constantWeight| ≤ 1 := by norm_num [constantWeight, abs_le]
    rw [abs_mul]
    nlinarith [abs_nonneg (S : ℚ)]
  obtain ⟨p, hp, hpValue⟩ := hasValue_waveScale.mul hx (hproduct.trans hlarger)
  have hquotient : |p / (16 : ℤ)| ≤ 8192 := by
    have := hp.magnitude_le hrepresentable hproduct
    rw [abs_div]
    norm_num
    linarith [abs_nonneg p]
  obtain ⟨q, hq, hqValue⟩ := hpValue.div (hasValue_ofInt_small (n := 16) (by norm_num))
    (by norm_num) (hquotient.trans hlarger)
  obtain ⟨r, hr, hrounded⟩ := exists_roundAway hqValue
    ((hq.magnitude_le hrepresentable hquotient).trans hlarge)
  rw [Int.cast_ofNat] at hq
  exact ⟨p, q, r, hp, hq, hr, hrounded⟩

/-- What the sum of a block is stored as: a share of 128, to the nearest whole number, from the
middle toward zero. -/
theorem roundAway_constantTerm {x : Float} {S : ℤ} (hx : HasValue x S) (hS : |S| ≤ 8192) :
    roundAway (waveScale 0 0 * x / ofInt 16) = S.sign * ((|S| + 63) / 128) := by
  obtain ⟨p, q, r, hp, hq, hr, hrounded⟩ := exists_roundings hx hS
  rw [hrounded]
  by_cases hsign : 0 ≤ S
  · have hq_nonneg := nonneg_of_roundsTo hp hq hsign
    rw [abs_of_nonneg hq_nonneg] at hr
    rw [abs_of_nonneg hsign] at hS ⊢
    rw [if_neg (not_lt.mpr hq_nonneg), Rounded.floor_eq ⟨hp, hq, hr⟩ hsign hS]
    obtain rfl | hpos := hsign.eq_or_lt
    · rfl
    · rw [Int.sign_eq_one_of_pos hpos, one_mul]
  · have hneg : S < 0 := not_le.mp hsign
    have hp' : RoundsTo (constantWeight * (-S : ℤ)) (-p) := by
      simpa using hp.neg
    have hq' : RoundsTo (-p / 16) (-q) := by
      simpa [neg_div] using hq.neg
    have hq_neg : q < 0 := neg_pos.mp (pos_of_roundsTo hp' hq' (neg_pos.mpr hneg))
    rw [abs_of_neg hq_neg] at hr
    rw [abs_of_neg hneg] at hS ⊢
    rw [if_pos hq_neg, Rounded.floor_eq ⟨hp', hq', hr⟩ (neg_pos.mpr hneg).le hS,
      Int.sign_eq_neg_one_of_neg hneg, neg_one_mul]

/-- The sum of the samples of a block around 128, zero beyond the image. -/
def Image.constantSum (image : Image) (row column : Nat) : ℤ :=
  ∑ y : Fin 8, ∑ x : Fin 8, ((image.sampleAt (8 * row + y) (8 * column + x) 0).toNat - 128 : ℤ)

theorem abs_sample_sub_le (sample : UInt8) : |(sample.toNat - 128 : ℤ)| ≤ 128 := by
  have := sample.toNat_lt
  exact abs_le.mpr (by omega)

theorem Image.abs_constantSum_le (image : Image) (row column : Nat) :
    |image.constantSum row column| ≤ 8192 :=
  abs_sum_eight_le fun _ => abs_sum_eight_le fun _ => abs_sample_sub_le _

theorem share_range {S : ℤ} (h : |S| ≤ 8192) :
    -32768 ≤ S.sign * ((|S| + 63) / 128) ∧ S.sign * ((|S| + 63) / 128) ≤ 32767 := by
  have hnonneg := abs_nonneg S
  obtain hsign | hsign | hsign := Int.sign_trichotomy S
  all_goals
    rw [hsign]
    omega

theorem constantTerm_quantize {image : Image} (hchannels : image.channels = 1)
    (row column : Nat) :
    (quantize (forwardTransform (image.blockAt row column : Block Float))).at 0 0 =
      (image.constantSum row column).sign * ((|image.constantSum row column| + 63) / 128) := by
  have hblock (y x : Fin 8) : HasValue ((image.blockAt row column : Block Float).at y x)
      ((image.sampleAt (8 * row + y) (8 * column + x) 0).toNat : ℤ) := by
    have hlt := (image.sampleAt (8 * row + y) (8 * column + x) 0).toNat_lt
    rw [Image.blockAt, Block.at_ofFn, hchannels, brightness, if_pos rfl]
    refine hasValue_ofInt_small (le_trans ?_ (by norm_num : (255 : ℤ) ≤ 2 ^ 40))
    exact abs_le.mpr (by omega)
  have hsum := hasValue_constantSum hblock fun y x => abs_sample_sub_le _
  have hbound := image.abs_constantSum_le row column
  have hstep : quantSteps.at 0 0 = 16 := rfl
  have hrounded := roundAway_constantTerm hsum hbound
  rw [at_quantize, forwardTransform_at, hstep]
  obtain ⟨hlow, hhigh⟩ := share_range hbound
  exact (congrArg clampInt16 hrounded).trans (clampInt16_of_range hlow hhigh)

theorem exists_constantTerm {image : Image} (hwidth : image.width ≤ 65535)
    (hheight : image.height ≤ 65535) (hchannels : image.channels = 1) :
    ∃ file, encodeImage image = .ok file ∧
      ∀ row < (image.height + 7) / 8, ∀ column < (image.width + 7) / 8,
        int16Value ((blockPayload ((image.width + 7) / 8) file row column).take 2) =
          (image.constantSum row column).sign *
            ((|image.constantSum row column| + 63) / 128) := by
  have hblack := brightness_black (.inl hchannels)
  obtain ⟨file, hfile, hsteps⟩ :=
    exists_stored_steps (α := Float) hblack hwidth hheight (.inl hchannels)
  refine ⟨file, hfile, fun row hrow column hcolumn => ?_⟩
  rw [← constantTerm_quantize hchannels, ← hsteps row hrow column hcolumn, payloadSteps,
    Block.at_ofFn]
  rfl

/-- The first number of each block of a gray image is the sum of the block around 128, in shares of
128: the nearest whole number, and from the middle the one toward zero. So from the middle, and
only there, it is not the one away from zero. -/
theorem constantTerm_rounds {image : Image} (hwidth : image.width ≤ 65535)
    (hheight : image.height ≤ 65535) (hchannels : image.channels = 1) :
    ∃ file, encodeImage image = .ok file ∧
      ∀ row < (image.height + 7) / 8, ∀ column < (image.width + 7) / 8,
        let payload := blockPayload ((image.width + 7) / 8) file row column
        let sum := image.constantSum row column
        int16Value (payload.take 2) = sum.sign * ((|sum| + 63) / 128) ∧
          (int16Value (payload.take 2) = sum.sign * ((|sum| + 64) / 128) ↔ |sum| % 128 ≠ 64) := by
  obtain ⟨file, hfile, hterms⟩ := exists_constantTerm hwidth hheight hchannels
  refine ⟨file, hfile, fun row hrow column hcolumn => ?_⟩
  intro payload sum
  have hterm : int16Value (payload.take 2) = sum.sign * ((|sum| + 63) / 128) :=
    hterms row hrow column hcolumn
  refine ⟨hterm, ?_⟩
  rw [hterm]
  have hnonneg := abs_nonneg sum
  obtain hsign | hsign | hsign := Int.sign_trichotomy sum
  · rw [hsign]
    omega
  · rw [hsign, Int.sign_eq_zero_iff_zero.mp hsign]
    decide
  · rw [hsign]
    omega

/-- The last block of a row of nine pixels, of which only one is in the image. -/
theorem constantTerm_rounds_row :
    let image : Image := ⟨9, 1, 1, List.replicate 9 200, List.length_replicate⟩
    ∃ file, encodeImage image = .ok file ∧
      int16Value ((blockPayload 2 file 0 1).take 2) = -62 := by
  intro image
  obtain ⟨file, hfile, hterms⟩ :=
    @constantTerm_rounds image (by decide) (by decide) rfl
  have hcolumns : (image.width + 7) / 8 = 2 := by decide
  rw [hcolumns] at hterms
  obtain ⟨hterm, _⟩ := hterms 0 (by decide) 1 (by decide)
  have hsum : image.constantSum 0 1 = -7992 := by decide +kernel
  have hshare : (-7992 : ℤ).sign * ((|(-7992 : ℤ)| + 63) / 128) = -62 := by decide
  rw [hsum, hshare] at hterm
  exact ⟨file, hfile, hterm⟩

/-- A half is rounded to zero. -/
theorem constantTerm_half :
    let image : Image := ⟨8, 8, 1, List.replicate 64 129, List.length_replicate⟩
    let sum := image.constantSum 0 0
    ∃ file, encodeImage image = .ok file ∧ sum = 64 ∧
      int16Value ((blockPayload 1 file 0 0).take 2) = 0 ∧
      int16Value ((blockPayload 1 file 0 0).take 2) ≠ sum.sign * ((|sum| + 64) / 128) := by
  intro image sum
  obtain ⟨file, hfile, hterms⟩ :=
    @exists_constantTerm image (by decide) (by decide) rfl
  have hcolumns : (image.width + 7) / 8 = 1 := by decide
  rw [hcolumns] at hterms
  have hterm := hterms 0 (by decide) 0 (by decide)
  have hsum : sum = 64 := by decide +kernel
  have hshare : (64 : ℤ).sign * ((|(64 : ℤ)| + 63) / 128) = 0 := by decide
  have haway : (64 : ℤ).sign * ((|(64 : ℤ)| + 64) / 128) = 1 := by decide
  change _ = sum.sign * ((|sum| + 63) / 128) at hterm
  rw [hsum, hshare] at hterm
  refine ⟨file, hfile, hsum, hterm, ?_⟩
  rw [hterm, hsum, haway]
  decide

end Compression
