import Compression.FloatValue
import Compression.Proofs.FloatRounding

namespace Compression

open Float.Model Float.Model.UnpackedFloat

/-! ### Bits -/

theorem toNat_append_one (mantissa : BitVec 52) :
    (1#1 ++ mantissa).toNat = 2 ^ 52 + mantissa.toNat := by
  rw [BitVec.toNat_append, ← Nat.shiftLeft_add_eq_or_of_lt mantissa.isLt]
  rfl

/-- A double is told by its three fields. -/
theorem unpack_eq (b : BitVec 64) : UnpackedFloat.unpack Format.binary64 b =
    let s := Sign.ofBitVec (@unpackSign Format.binary64 b)
    let exponent := @unpackExponent Format.binary64 b
    let mantissa := @unpackMantissa Format.binary64 b
    if exponent = -1#11 then (if mantissa = 0#52 then .infinity s else .notANumber)
    else if exponent = 0#11 then unpackedOf s mantissa.toNat (-1074)
    else unpackedOf s (2 ^ 52 + mantissa.toNat) ((exponent.toNat : ℤ) - 1075) := by
  unfold UnpackedFloat.unpack
  dsimp only
  split
  next => rfl
  next =>
    split
    next hexponent =>
      split
      next hzero =>
        rw [hzero]
        rfl
      next hzero =>
        have hpos : 0 < (@unpackMantissa Format.binary64 b).toNat :=
          Nat.pos_of_ne_zero fun h => hzero (BitVec.eq_of_toNat_eq h)
        rw [unpackedOf_of_pos _ hpos]
        congr 1
        rw [hexponent]
        rfl
    next =>
      have hpos : 0 < 2 ^ 52 + (@unpackMantissa Format.binary64 b).toNat := by omega
      rw [unpackedOf_of_pos _ hpos]
      congr 1
      exact toNat_append_one _

theorem unpackSign_packComponents (s : Sign) (exponent : BitVec 11) (mantissa : BitVec 52) :
    unpackSign (packComponents Format.binary64 s exponent mantissa) = s.toBitVec := by
  simp only [unpackSign, packComponents, BitVec.extractLsb]
  rw [BitVec.extractLsb'_append_eq_of_le (by omega), BitVec.extractLsb'_append_eq_of_le (by omega)]
  cases s <;> rfl

theorem ofBitVec_toBitVec (s : Sign) : Sign.ofBitVec s.toBitVec = s := by
  cases s <;> rfl

theorem unpack_packComponents (s : Sign) (exponent : BitVec 11) (mantissa : BitVec 52) :
    UnpackedFloat.unpack Format.binary64 (packComponents Format.binary64 s exponent mantissa) =
      if exponent = -1#11 then (if mantissa = 0#52 then .infinity s else .notANumber)
      else if exponent = 0#11 then unpackedOf s mantissa.toNat (-1074)
      else unpackedOf s (2 ^ 52 + mantissa.toNat) ((exponent.toNat : ℤ) - 1075) := by
  rw [unpack_eq]
  simp only [unpackSign_packComponents, unpackExponent_packComponents,
    unpackMantissa_packComponents, ofBitVec_toBitVec]

theorem pack_finite (s : Sign) {m : ℕ} {e : ℤ} (hpos : 0 < m) (h : Canonical m e)
    (hhigh : e ≤ 971) : UnpackedFloat.pack Format.binary64 (.finite s m e hpos) =
      if 2 ^ 52 ≤ m then
        packComponents Format.binary64 s (BitVec.ofNat 11 (e + 1075).toNat) (BitVec.ofNat 52 m)
      else packComponents Format.binary64 s 0#11 (BitVec.ofNat 52 m) := by
  have hlow := h.low
  have hbias : (e + Format.binary64.exponentBias + Format.binary64.mantissaBitsWithoutImplicit) =
      e + 1075 := by
    show e + (1023 : ℕ) + (52 : ℕ) = e + 1075
    omega
  have hfits : ¬ 2 ^ Format.binary64.exponentBits ≤ (e + 1075).toNat + 1 := by
    show ¬ 2 ^ 11 ≤ _
    omega
  have hlog := log2_le_of_lt h.lt
  have hbits : m.log2 + 1 = Format.binary64.mantissaBits ↔ 2 ^ 52 ≤ m := by
    rw [← Nat.le_log2 hpos.ne']
    show m.log2 + 1 = 53 ↔ _
    omega
  unfold UnpackedFloat.pack
  dsimp only
  rw [hbias, if_neg hfits]
  simp only [hbits]

theorem unpack_pack (s : Sign) {m : ℕ} {e : ℤ} (hpos : 0 < m) (h : Canonical m e)
    (hhigh : e ≤ 971) : UnpackedFloat.unpack Format.binary64
      (UnpackedFloat.pack Format.binary64 (.finite s m e hpos)) = .finite s m e hpos := by
  obtain ⟨hlt, hlow, hfull⟩ := h
  rw [pack_finite s hpos ⟨hlt, hlow, hfull⟩ hhigh]
  split
  next hnormal =>
    have hexponent : (BitVec.ofNat 11 (e + 1075).toNat).toNat = (e + 1075).toNat :=
      Nat.mod_eq_of_lt (by omega)
    have hmantissa : 2 ^ 52 + (BitVec.ofNat 52 m).toNat = m := by
      rw [BitVec.toNat_ofNat]
      omega
    have hone : BitVec.ofNat 11 (e + 1075).toNat ≠ -1#11 := fun heq => by
      rw [heq] at hexponent
      have : (2047 : ℕ) = (e + 1075).toNat := hexponent
      omega
    have hzero : BitVec.ofNat 11 (e + 1075).toNat ≠ 0#11 := fun heq => by
      rw [heq] at hexponent
      have : (0 : ℕ) = (e + 1075).toNat := hexponent
      omega
    rw [unpack_packComponents, if_neg hone, if_neg hzero, hmantissa, hexponent,
      unpackedOf_of_pos s hpos]
    congr 1
    omega
  next hsub =>
    have hmantissa : (BitVec.ofNat 52 m).toNat = m := Nat.mod_eq_of_lt (by omega)
    rw [unpack_packComponents, if_neg (by decide), if_pos rfl, hmantissa,
      unpackedOf_of_pos s hpos]
    congr 1
    omega

/-- Numbers that are not too large are packed without loss. -/
theorem Holds.unpack_pack {u : UnpackedFloat} {q : ℚ} (h : Holds u q) (hq : |q| ≤ 2 ^ 1000) :
    UnpackedFloat.unpack Format.binary64 (UnpackedFloat.pack Format.binary64 u) = u := by
  cases h with
  | zero s => cases s <;> rfl
  | @finite s m e hpos hcanonical =>
    refine Compression.unpack_pack s hpos hcanonical ?_
    by_contra hhigh
    have hm : (2 : ℚ) ^ 52 ≤ m := by
      exact_mod_cast hcanonical.full.resolve_right (by omega)
    have habs : |signFactor s * ((m : ℚ) * 2 ^ e)| = m * 2 ^ e := by
      cases s
      · rw [signFactor, neg_one_mul, abs_neg, abs_of_nonneg (by positivity)]
      · rw [signFactor, one_mul, abs_of_nonneg (by positivity)]
    have hlarge : (2 : ℚ) ^ 1000 < m * 2 ^ e := by
      calc (2 : ℚ) ^ 1000 = 2 ^ (1000 : ℤ) := (zpow_natCast 2 1000).symm
        _ < 2 ^ (52 + e) := zpow_lt_zpow_right₀ one_lt_two (by omega)
        _ = 2 ^ 52 * 2 ^ e := zpow_add₀ two_ne_zero 52 e
        _ ≤ m * 2 ^ e := mul_le_mul_of_nonneg_right hm (by positivity)
    rw [habs] at hq
    exact absurd hq (not_le.mpr hlarge)

/-! ### Sums, products and quotients -/

section

variable {u v : UnpackedFloat} {p q : ℚ}

theorem Holds.neg (h : Holds u p) : Holds u.neg (-p) := by
  cases h with
  | zero s =>
    rw [neg_zero]
    exact .zero _
  | @finite s m e hpos hcanonical =>
    have hsign : -(signFactor s * ((m : ℚ) * 2 ^ e)) = signFactor (-s) * (m * 2 ^ e) := by
      cases s
      · show -(-1 * ((m : ℚ) * 2 ^ e)) = 1 * (m * 2 ^ e)
        ring
      · show -(1 * ((m : ℚ) * 2 ^ e)) = -1 * (m * 2 ^ e)
        ring
    rw [hsign]
    exact .finite _ hpos hcanonical

theorem applied_value (s : Sign) (m : ℕ) {e lower : ℤ} (h : lower ≤ e) :
    ((s.apply (m <<< (e - lower).toNat : ℕ) : ℤ) : ℚ) * 2 ^ lower =
      signFactor s * (m * 2 ^ e) := by
  have hlower : lower = e - (e - lower).toNat := by omega
  have hshift := shifted_value (m := m) (n := (e - lower).toNat) (e := e)
  rw [← hlower] at hshift
  rw [apply_eq, mul_assoc, Int.cast_natCast, hshift]

theorem Holds.add (hu : Holds u p) (hv : Holds v q) :
    ∃ r, RoundsTo (p + q) r ∧ Holds (UnpackedFloat.add Format.binary64 u v) r := by
  cases hu with
  | zero s =>
    cases hv with
    | zero s' =>
      rw [zero_add]
      refine ⟨0, .refl 0, ?_⟩
      cases s <;> cases s' <;> exact .zero _
    | finite s' hpos hcanonical =>
      rw [zero_add]
      exact ⟨_, .refl _, .finite s' hpos hcanonical⟩
  | @finite s m e hpos hcanonical =>
    cases hv with
    | zero s' =>
      rw [add_zero]
      exact ⟨_, .refl _, .finite s hpos hcanonical⟩
    | @finite s' m' e' hpos' hcanonical' =>
      rw [← applied_value s m (min_le_left e e'), ← applied_value s' m' (min_le_right e e'),
        ← add_mul, ← Int.cast_add]
      exact exists_holds_normalize _ _ .positive

theorem sub_eq_add (u v : UnpackedFloat) : UnpackedFloat.sub Format.binary64 u v =
    UnpackedFloat.add Format.binary64 u v.neg := by
  have happly : ∀ (s : Sign) (n : ℤ), (-s).apply n = -s.apply n := by
    intro s n
    cases s
    · exact (neg_neg n).symm
    · rfl
  cases u <;> cases v
  case finite.finite s m e hpos s' m' e' hpos' =>
    simp only [UnpackedFloat.sub, UnpackedFloat.add, UnpackedFloat.neg, happly, Int.sub_eq_add_neg]
  all_goals rfl

theorem Holds.mul (hu : Holds u p) (hv : Holds v q) :
    ∃ r, RoundsTo (p * q) r ∧ Holds (UnpackedFloat.mul Format.binary64 u v) r := by
  cases hu with
  | zero s =>
    rw [zero_mul]
    cases hv with
    | zero s' => exact ⟨0, .refl 0, .zero _⟩
    | finite s' hpos hcanonical => exact ⟨0, .refl 0, .zero _⟩
  | @finite s m e hpos hcanonical =>
    cases hv with
    | zero s' =>
      rw [mul_zero]
      exact ⟨0, .refl 0, .zero _⟩
    | @finite s' m' e' hpos' hcanonical' =>
      have hproduct : signFactor s * ((m : ℚ) * 2 ^ e) * (signFactor s' * (m' * 2 ^ e')) =
          signFactor (s * s') * ((m * m' : ℕ) * 2 ^ (e + e')) := by
        rw [signFactor_mul, zpow_add₀ two_ne_zero]
        push_cast
        ring
      rw [hproduct]
      refine exists_holds_rounded _ (approximates_exact _) ?_
      obtain hm | he := hcanonical.full
      · exact .inl (hm.trans (Nat.le_mul_of_pos_right m hpos'))
      · obtain hm' | he' := hcanonical'.full
        · exact .inl (hm'.trans (Nat.le_mul_of_pos_left m' hpos))
        · exact .inr (by omega)

theorem Holds.sub (hu : Holds u p) (hv : Holds v q) :
    ∃ r, RoundsTo (p - q) r ∧ Holds (UnpackedFloat.sub Format.binary64 u v) r := by
  rw [sub_eq_add, sub_eq_add_neg]
  exact hu.add hv.neg

theorem div_sign (s₁ s₂ : Sign) : s₁ / s₂ = s₁ * s₂ := by
  cases s₁ <;> cases s₂ <;> rfl

theorem signFactor_div (s₁ s₂ : Sign) : signFactor (s₁ / s₂) = signFactor s₁ / signFactor s₂ := by
  rw [div_sign, signFactor_mul]
  cases s₂
  · show signFactor s₁ * -1 = signFactor s₁ / -1
    ring
  · show signFactor s₁ * 1 = signFactor s₁ / 1
    ring

/-- The whole part of a quotient, with the bits of its remainder. -/
theorem approximates_quotient (n : ℕ) {d : ℕ} (hd : 0 < d) :
    Approximates (ExtendedMantissa.ofMantissaAndAccuracy (n / d) (accuracyOfFraction (n % d) d))
      (n / d) := by
  have hd' : (0 : ℚ) < d := by exact_mod_cast hd
  have hsplit : (n : ℚ) = d * (n / d : ℕ) + (n % d : ℕ) := by
    exact_mod_cast (Nat.div_add_mod n d).symm
  have hrest : ((n % d : ℕ) : ℚ) < d := by exact_mod_cast Nat.mod_lt n hd
  have hrest_nonneg : (0 : ℚ) ≤ (n % d : ℕ) := Nat.cast_nonneg _
  refine ⟨?_, ?_, fun hexact => ?_⟩
  · rw [mantissa_ofMantissaAndAccuracy, le_div_iff₀ hd']
    linarith
  · rw [mantissa_ofMantissaAndAccuracy, div_lt_iff₀ hd']
    linarith
  · rw [mantissa_ofMantissaAndAccuracy, div_eq_iff hd'.ne'] at hexact
    have hzero : n % d = 0 := by
      have : ((n % d : ℕ) : ℚ) = 0 := by linarith
      exact_mod_cast this
    rw [hzero]
    exact ⟨rfl, rfl⟩

/-- The exponent in which a quotient has enough places. -/
def quotientExponent (m : ℕ) (e : ℤ) (m' : ℕ) (e' : ℤ) : ℤ :=
  min (e - e') (max (m.log2 + 1 + e - (m'.log2 + 1 + e') - 53) (-1074))

theorem div_finite (s s' : Sign) {m m' : ℕ} {e e' : ℤ} (hpos : 0 < m) (hpos' : 0 < m') :
    UnpackedFloat.div Format.binary64 (.finite s m e hpos) (.finite s' m' e' hpos') =
      let n := m <<< (e - e' - quotientExponent m e m' e').toNat
      roundWithAccuracy Format.binary64 (s / s') (n / m') (quotientExponent m e m' e')
        (accuracyOfFraction (n % m') m') :=
  rfl

theorem quotient_places {m m' n : ℕ} {e e' : ℤ} (hpos : 0 < m) (hpos' : 0 < m')
    (hn : quotientExponent m e m' e' = e - e' - n) :
    2 ^ 52 ≤ (m <<< n) / m' ∨ quotientExponent m e m' e' ≤ -1074 := by
  have hexponent : quotientExponent m e m' e' =
    min (e - e') (max (m.log2 + 1 + e - (m'.log2 + 1 + e') - 53) (-1074)) := rfl
  rw [or_iff_not_imp_right]
  intro hhigh
  rw [Nat.shiftLeft_eq, Nat.le_div_iff_mul_le hpos']
  calc 2 ^ 52 * m' ≤ 2 ^ 52 * 2 ^ (m'.log2 + 1) := Nat.mul_le_mul_left _ Nat.lt_log2_self.le
    _ = 2 ^ (52 + (m'.log2 + 1)) := (pow_add ..).symm
    _ ≤ 2 ^ (m.log2 + n) := Nat.pow_le_pow_right two_pos (by omega)
    _ = 2 ^ m.log2 * 2 ^ n := pow_add ..
    _ ≤ m * 2 ^ n := Nat.mul_le_mul_right _ (Nat.log2_self_le hpos.ne')

theorem Holds.div (hu : Holds u p) (hv : Holds v q) (hq : q ≠ 0) :
    ∃ r, RoundsTo (p / q) r ∧ Holds (UnpackedFloat.div Format.binary64 u v) r := by
  cases hv with
  | zero s' => exact absurd rfl hq
  | @finite s' m' e' hpos' hcanonical' =>
    cases hu with
    | zero s =>
      rw [zero_div]
      exact ⟨0, .refl 0, .zero _⟩
    | @finite s m e hpos hcanonical =>
      rw [div_finite]
      dsimp only
      have hle : quotientExponent m e m' e' ≤ e - e' := min_le_left _ _
      generalize hn : (e - e' - quotientExponent m e m' e').toNat = n
      have hexponent : quotientExponent m e m' e' = e - e' - n := by omega
      have hvalue : signFactor s * ((m : ℚ) * 2 ^ e) / (signFactor s' * (m' * 2 ^ e')) =
          signFactor (s / s') * ((m <<< n : ℕ) / m' * 2 ^ quotientExponent m e m' e') := by
        have hshift := shifted_value (m := m) (n := n) (e := e - e')
        rw [← hexponent] at hshift
        rw [div_mul_eq_mul_div, hshift, signFactor_div, zpow_sub₀ two_ne_zero]
        field_simp
      rw [hvalue]
      exact exists_holds_rounded _ (approximates_quotient _ hpos')
        (quotient_places hpos hpos' hexponent)

end

/-! ### Doubles -/

/-- A double holds a rational number. -/
def HasValue (x : Float) (q : ℚ) : Prop :=
  Holds x.toModel.unpack q

theorem representable_bound : Representable (2 ^ 1000) := by
  refine ⟨1, 1000, by norm_num, by norm_num, ?_⟩
  rw [Int.cast_one, one_mul]
  exact (zpow_natCast 2 1000).symm

theorem hasValue_pack {u : UnpackedFloat} {q : ℚ} (h : Holds u q) (hq : |q| ≤ 2 ^ 1000) :
    HasValue (.ofModel (Float.Model.pack u)) q := by
  have hunpack : (Float.Model.pack u).unpack = u := h.unpack_pack hq
  rw [HasValue, hunpack]
  exact h

section

variable {x y : Float} {p q : ℚ}

/-- What an operation on unpacked floats rounds is what the operation on doubles does. -/
theorem exists_hasValue_pack {u : UnpackedFloat} {r : ℚ} (hr : |r| ≤ 2 ^ 1000)
    (h : ∃ q, RoundsTo r q ∧ Holds u q) :
    ∃ q, RoundsTo r q ∧ HasValue (.ofModel (Float.Model.pack u)) q := by
  obtain ⟨q, hrounds, hholds⟩ := h
  exact ⟨q, hrounds, hasValue_pack hholds (hrounds.magnitude_le representable_bound hr)⟩

theorem HasValue.add (hx : HasValue x p) (hy : HasValue y q) (h : |p + q| ≤ 2 ^ 1000) :
    ∃ r, RoundsTo (p + q) r ∧ HasValue (x + y) r :=
  exists_hasValue_pack h (Holds.add hx hy)

theorem HasValue.sub (hx : HasValue x p) (hy : HasValue y q) (h : |p - q| ≤ 2 ^ 1000) :
    ∃ r, RoundsTo (p - q) r ∧ HasValue (x - y) r :=
  exists_hasValue_pack h (Holds.sub hx hy)

theorem HasValue.mul (hx : HasValue x p) (hy : HasValue y q) (h : |p * q| ≤ 2 ^ 1000) :
    ∃ r, RoundsTo (p * q) r ∧ HasValue (x * y) r :=
  exists_hasValue_pack h (Holds.mul hx hy)

theorem HasValue.div (hx : HasValue x p) (hy : HasValue y q) (hq : q ≠ 0)
    (h : |p / q| ≤ 2 ^ 1000) : ∃ r, RoundsTo (p / q) r ∧ HasValue (x / y) r :=
  exists_hasValue_pack h (Holds.div hx hy hq)

theorem HasValue.neg (hx : HasValue x p) (h : |p| ≤ 2 ^ 1000) : HasValue (-x) (-p) :=
  hasValue_pack (Holds.neg hx) (by rwa [abs_neg])

/-! ### Whole numbers -/

theorem HasValue.of_rounds_int {x : Float} {n : ℤ} (hn : |n| ≤ 2 ^ 53)
    (h : ∃ q : ℚ, RoundsTo n q ∧ HasValue x q) : HasValue x n := by
  obtain ⟨q, hrounds, hvalue⟩ := h
  rwa [hrounds.eq (representable_int hn)] at hvalue

theorem abs_int_le {n : ℤ} (hn : |n| ≤ 2 ^ 53) : |(n : ℚ)| ≤ 2 ^ 1000 := by
  have h : |(n : ℚ)| ≤ 2 ^ 53 := by exact_mod_cast hn
  exact h.trans (pow_le_pow_right₀ one_le_two (by norm_num))

section

variable {m n : ℤ}

theorem HasValue.add_int (hx : HasValue x m) (hy : HasValue y n) (h : |m + n| ≤ 2 ^ 53) :
    HasValue (x + y) (m + n : ℤ) := by
  have hcast : ((m + n : ℤ) : ℚ) = m + n := Int.cast_add m n
  have hsum := abs_int_le h
  rw [hcast] at hsum
  exact .of_rounds_int h (hcast ▸ hx.add hy hsum)

theorem HasValue.sub_int (hx : HasValue x m) (hy : HasValue y n) (h : |m - n| ≤ 2 ^ 53) :
    HasValue (x - y) (m - n : ℤ) := by
  have hcast : ((m - n : ℤ) : ℚ) = m - n := Int.cast_sub m n
  have hdifference := abs_int_le h
  rw [hcast] at hdifference
  exact .of_rounds_int h (hcast ▸ hx.sub hy hdifference)

theorem HasValue.mul_int (hx : HasValue x m) (hy : HasValue y n) (h : |m * n| ≤ 2 ^ 53) :
    HasValue (x * y) (m * n : ℤ) := by
  have hcast : ((m * n : ℤ) : ℚ) = m * n := Int.cast_mul m n
  have hproduct := abs_int_le h
  rw [hcast] at hproduct
  exact .of_rounds_int h (hcast ▸ hx.mul hy hproduct)

end

theorem hasValue_one : HasValue 1.0 1 := by
  have hvalue : signFactor .positive * (((2 ^ 52 : ℕ) : ℚ) * 2 ^ (-52 : ℤ)) = 1 := by
    norm_num [signFactor]
  exact hvalue ▸ Holds.finite .positive (by decide) ⟨by decide, by decide, by decide⟩

theorem hasValue_half : HasValue 0.5 (1 / 2) := by
  have hvalue : signFactor .positive * (((2 ^ 52 : ℕ) : ℚ) * 2 ^ (-53 : ℤ)) = 1 / 2 := by
    norm_num [signFactor]
  exact hvalue ▸ Holds.finite .positive (by decide) ⟨by decide, by decide, by decide⟩

theorem hasValue_toFloat {n : UInt64} (h : n.toNat ≤ 2 ^ 53) :
    HasValue n.toFloat (n.toNat : ℤ) := by
  have hn : |(n.toNat : ℤ)| ≤ 2 ^ 53 := by
    rw [Nat.abs_cast]
    exact_mod_cast h
  have hrounds := exists_holds_normalize n.toNat 0 .positive
  rw [zpow_zero, mul_one] at hrounds
  exact .of_rounds_int hn (exists_hasValue_pack (abs_int_le hn) hrounds)

theorem hasValue_ofNat {n : ℕ} (h : n < 2 ^ 53) : HasValue (Float.ofNat n) (n : ℤ) := by
  have hcast : n.toUInt64.toNat = n := Nat.mod_eq_of_lt (by omega)
  have hproduct : Float.ofNat n = n.toUInt64.toFloat * 1.0 := by
    unfold Float.ofNat
    show Float.ofScientific n false 0 = _
    rw [Float.ofScientific, dif_pos ⟨h, by decide⟩]
    rfl
  have hvalue := hasValue_toFloat (n := n.toUInt64) (by omega)
  have hone : HasValue 1.0 (1 : ℤ) := by
    rw [Int.cast_one]
    exact hasValue_one
  rw [hcast] at hvalue
  rw [hproduct, ← mul_one (n : ℤ)]
  refine hvalue.mul_int hone ?_
  rw [mul_one, Nat.abs_cast]
  exact_mod_cast h.le

theorem hasValue_ofInt {n : ℤ} (h : |n| < 2 ^ 53) : HasValue (Float.ofInt n) n := by
  cases n with
  | ofNat n => exact hasValue_ofNat (by simpa using h)
  | negSucc n =>
    have hn : n + 1 < 2 ^ 53 := by
      rw [Int.abs_eq_natAbs, Int.natAbs_negSucc] at h
      exact_mod_cast h
    have habs : |((n + 1 : ℕ) : ℤ)| ≤ 2 ^ 53 := by
      rw [Nat.abs_cast]
      exact_mod_cast hn.le
    rw [Int.negSucc_eq, Int.cast_neg]
    exact (hasValue_ofNat hn).neg (abs_int_le habs)

/-! ### Order and floor -/

theorem HasValue.lt_zero_iff (hx : HasValue x q) : x < 0.0 ↔ q < 0 := by
  have hlt : x < 0.0 ↔ x.toModel.unpack.compare (.zero .positive) = some .lt := by
    have hdef : x < 0.0 ↔
        decide ((x.toModel.unpack.compare (.zero .positive) == some .lt) = true) = true := Iff.rfl
    rw [hdef, decide_eq_true_eq, beq_iff_eq]
  rw [hlt]
  unfold HasValue at hx
  generalize x.toModel.unpack = u at hx ⊢
  cases hx with
  | zero s => simp [UnpackedFloat.compare]
  | @finite s m e hpos hcanonical =>
    have hvalue : (0 : ℚ) < m * 2 ^ e := by positivity
    cases s
    · simp [UnpackedFloat.compare, signFactor, hvalue]
    · simp [UnpackedFloat.compare, signFactor, hvalue.le]

theorem Holds.eq_of_unpackedOf {s : Sign} {m : ℕ} {e : ℤ} (h : Holds (unpackedOf s m e) q) :
    q = signFactor s * (m * 2 ^ e) := by
  unfold unpackedOf at h
  split at h
  next hm =>
    cases h
    rw [hm, Nat.cast_zero, zero_mul, mul_zero]
  next =>
    cases h
    rfl

theorem signFactor_ofBitVec (b : BitVec 64) :
    signFactor (Sign.ofBitVec (@unpackSign Format.binary64 b)) =
      if b.toNat.testBit 63 = true then -1 else 1 := by
  have hsign : (@unpackSign Format.binary64 b).toNat = b.toNat / 2 ^ 63 % 2 := by
    show (b.toNat >>> 63) % 2 = _
    rw [Nat.shiftRight_eq_div_pow]
  have hzero : @unpackSign Format.binary64 b = 0#1 ↔ b.toNat / 2 ^ 63 % 2 = 0 := by
    rw [← hsign]
    exact BitVec.toNat_inj.symm
  rw [Nat.testBit_eq_decide_div_mod_eq, Sign.ofBitVec]
  by_cases h : b.toNat / 2 ^ 63 % 2 = 0
  · rw [if_pos (hzero.mpr h), h]
    rfl
  · rw [if_neg (mt hzero.mp h), if_pos (decide_eq_true (by omega))]
    rfl

theorem toNat_unpackExponent (b : BitVec 64) :
    (@unpackExponent Format.binary64 b).toNat = b.toNat / leastFullSignificand % 2048 := by
  show (b.toNat >>> 52) % 2 ^ 11 = _
  rw [Nat.shiftRight_eq_div_pow]
  rfl

theorem toNat_unpackMantissa (b : BitVec 64) :
    (@unpackMantissa Format.binary64 b).toNat = b.toNat % leastFullSignificand := by
  show (b.toNat >>> 0) % 2 ^ 52 = _
  rw [Nat.shiftRight_zero]
  rfl

/-- A number that is held is taken apart into these parts by `floatValue` too. -/
theorem HasValue.exists_floatValue (hx : HasValue x q) :
    ∃ negative significand exponent, floatValue x = .finite negative significand exponent ∧
      q = (if negative = true then -1 else 1) * (significand * 2 ^ exponent) := by
  have hexponent : (@unpackExponent Format.binary64 x.toModel.toBits.toBitVec).toNat =
      x.toBits.toNat / leastFullSignificand % 2048 := toNat_unpackExponent _
  have hmantissa : (@unpackMantissa Format.binary64 x.toModel.toBits.toBitVec).toNat =
      x.toBits.toNat % leastFullSignificand := toNat_unpackMantissa _
  have hsign := signFactor_ofBitVec x.toModel.toBits.toBitVec
  have hholds : Holds (UnpackedFloat.unpack Format.binary64 x.toModel.toBits.toBitVec) q := hx
  rw [unpack_eq] at hholds
  unfold floatValue
  dsimp only at hholds ⊢
  rw [← hexponent, ← hmantissa]
  split at hholds
  next =>
    split at hholds <;> cases hholds
  next hfinite =>
    have hfinite' : (@unpackExponent Format.binary64 x.toModel.toBits.toBitVec).toNat ≠ 2047 :=
      fun h => hfinite (BitVec.eq_of_toNat_eq h)
    rw [if_neg hfinite']
    split at hholds
    next hzero =>
      rw [if_pos (by rw [hzero]; rfl)]
      exact ⟨_, _, _, rfl, hsign ▸ hholds.eq_of_unpackedOf⟩
    next hzero =>
      have hzero' : (@unpackExponent Format.binary64 x.toModel.toBits.toBitVec).toNat ≠ 0 :=
        fun h => hzero (BitVec.eq_of_toNat_eq h)
      rw [if_neg hzero']
      refine ⟨_, _, _, rfl, ?_⟩
      rw [hholds.eq_of_unpackedOf, hsign, Nat.add_comm]
      rfl

theorem binaryFraction_eq (significand : ℕ) (exponent : ℤ) : (significand : ℚ) * 2 ^ exponent =
    (binaryFraction significand exponent).1 / (binaryFraction significand exponent).2 := by
  obtain hnonneg | hneg := le_or_gt 0 exponent
  · lift exponent to ℕ using hnonneg
    simp [binaryFraction]
  · obtain ⟨d, rfl⟩ := Int.exists_eq_neg_ofNat hneg.le
    simp [binaryFraction, div_eq_mul_inv]

theorem floatFloor_eq (hx : HasValue x q) : floatFloor x = ⌊q⌋ := by
  obtain ⟨negative, significand, exponent, hvalue, rfl⟩ := hx.exists_floatValue
  rw [floatFloor, hvalue]
  dsimp only
  have hpos : (0 : ℤ) ≤ (binaryFraction significand exponent).2 := Int.natCast_nonneg _
  rw [Int.fdiv_eq_ediv_of_nonneg _ hpos, binaryFraction_eq, ← Rat.floor_intCast_div_natCast]
  congr 1
  cases negative
  · simp
  · simp
    ring

theorem floatAbs_eq (hx : HasValue x q) (h : |q| ≤ 2 ^ 1000) : HasValue (floatAbs x) |q| := by
  unfold floatAbs
  split
  next hneg =>
    rw [abs_of_neg (hx.lt_zero_iff.mp hneg)]
    exact hx.neg h
  next hnonneg =>
    rw [abs_of_nonneg (not_lt.mp (mt hx.lt_zero_iff.mpr hnonneg))]
    exact hx

/-- Rounding a double to a whole number rounds one sum on the way. -/
theorem exists_roundAway (hx : HasValue x q) (h : |q| ≤ 2 ^ 999) :
    ∃ r, RoundsTo (|q| + 1 / 2) r ∧ roundAway x = if q < 0 then -⌊r⌋ else ⌊r⌋ := by
  have hbound : |q| + 1 / 2 ≤ 2 ^ 1000 := by
    have hhalf : (1 / 2 : ℚ) ≤ 2 ^ 999 := by
      calc (1 / 2 : ℚ) ≤ 1 := by norm_num
        _ ≤ 2 ^ 999 := one_le_pow₀ one_le_two
    calc |q| + 1 / 2 ≤ 2 ^ 999 + 2 ^ 999 := add_le_add h hhalf
      _ = 2 ^ 1000 := by rw [← mul_two, ← pow_succ]
  have habs := floatAbs_eq hx ((le_add_of_nonneg_right (by norm_num)).trans hbound)
  have hsum : |(|q| + 1 / 2)| ≤ 2 ^ 1000 := by
    rwa [abs_of_nonneg (by positivity)]
  obtain ⟨r, hrounds, hvalue⟩ := habs.add hasValue_half hsum
  refine ⟨r, hrounds, ?_⟩
  unfold roundAway
  dsimp only
  rw [floatFloor_eq hvalue]
  simp only [hx.lt_zero_iff]

end

end Compression
