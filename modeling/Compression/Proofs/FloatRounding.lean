import Mathlib
import Compression.Bytes

namespace Compression

open Float.Model Float.Model.UnpackedFloat

/-- What doubles can hold, but for the largest ones: few enough digits, none of them too low. -/
def Representable (q : ℚ) : Prop :=
  ∃ n e : ℤ, |n| ≤ 2 ^ 53 ∧ -1074 ≤ e ∧ q = n * 2 ^ e

/-- Rounding to one of the two representable neighbours, whichever of them. -/
def RoundsTo (r q : ℚ) : Prop :=
  ∀ b, Representable b → (b ≤ r → b ≤ q) ∧ (r ≤ b → q ≤ b)

theorem Representable.neg {q : ℚ} (h : Representable q) : Representable (-q) := by
  obtain ⟨n, e, hn, he, rfl⟩ := h
  exact ⟨-n, e, by rwa [abs_neg], he, by push_cast; ring⟩

theorem Representable.mul_two_pow {q : ℚ} (h : Representable q) (k : ℕ) :
    Representable (q * 2 ^ k) := by
  obtain ⟨n, e, hn, he, rfl⟩ := h
  refine ⟨n, e + k, hn, by omega, ?_⟩
  rw [zpow_add₀ two_ne_zero, zpow_natCast, mul_assoc]

theorem representable_zero : Representable 0 :=
  ⟨0, 0, by norm_num, by norm_num, by norm_num⟩

theorem representable_int {n : ℤ} (h : |n| ≤ 2 ^ 53) : Representable n :=
  ⟨n, 0, h, by norm_num, by norm_num⟩

section

variable {r q : ℚ}

theorem RoundsTo.le (h : RoundsTo r q) {b : ℚ} (hb : Representable b) (hr : r ≤ b) : q ≤ b :=
  (h b hb).2 hr

theorem RoundsTo.ge (h : RoundsTo r q) {b : ℚ} (hb : Representable b) (hr : b ≤ r) : b ≤ q :=
  (h b hb).1 hr

theorem RoundsTo.eq (h : RoundsTo r q) (hr : Representable r) : q = r :=
  le_antisymm (h.le hr le_rfl) (h.ge hr le_rfl)

theorem RoundsTo.magnitude_le (h : RoundsTo r q) {b : ℚ} (hb : Representable b) (hr : |r| ≤ b) :
    |q| ≤ b := by
  obtain ⟨hlow, hhigh⟩ := abs_le.mp hr
  exact abs_le.mpr ⟨h.ge hb.neg hlow, h.le hb hhigh⟩

theorem RoundsTo.neg (h : RoundsTo r q) : RoundsTo (-r) (-q) := by
  intro b hb
  obtain ⟨hge, hle⟩ := h (-b) hb.neg
  exact ⟨fun hr => le_neg_of_le_neg (hle (by linarith)), fun hr => neg_le.mp (hge (by linarith))⟩

/-- Nothing representable lies strictly between neighbours of full precision. -/
theorem succ_le_of_lt {k : ℕ} {t : ℤ} {b : ℚ} (hb : Representable b)
    (hfull : 2 ^ 52 ≤ k ∨ t = -1074) (h : (k : ℚ) * 2 ^ t < b) : ((k : ℚ) + 1) * 2 ^ t ≤ b := by
  obtain ⟨n, e, hn, he, rfl⟩ := hb
  have htwo : (2 : ℚ) ≠ 0 := by norm_num
  by_cases hte : t ≤ e
  · obtain ⟨d, rfl⟩ := Int.le.dest hte
    have hsplit : (n : ℚ) * 2 ^ (t + (d : ℤ)) = (n * 2 ^ d : ℤ) * 2 ^ t := by
      rw [zpow_add₀ htwo, zpow_natCast]
      push_cast
      ring
    have hpos : (0 : ℚ) < 2 ^ t := by positivity
    rw [hsplit] at h ⊢
    have hlt : (k : ℤ) < n * 2 ^ d := by
      exact_mod_cast lt_of_mul_lt_mul_right h hpos.le
    have hle : (k : ℤ) + 1 ≤ n * 2 ^ d := hlt
    exact mul_le_mul_of_nonneg_right (by exact_mod_cast hle) hpos.le
  · -- A number with digits below the last place of `k` is too small to reach it.
    have hk : 2 ^ 52 ≤ k := hfull.resolve_right (by omega)
    have hn' : (n : ℚ) ≤ 2 ^ 53 := by exact_mod_cast (abs_le.mp hn).2
    have hk' : (2 : ℚ) ^ 52 ≤ k := by exact_mod_cast hk
    have hbound : (n : ℚ) * 2 ^ e ≤ k * 2 ^ t := by
      calc (n : ℚ) * 2 ^ e ≤ 2 ^ 53 * 2 ^ e := by gcongr
        _ = 2 ^ 52 * 2 ^ (e + 1) := by
          rw [zpow_add₀ htwo]
          ring
        _ ≤ k * 2 ^ t := by
          gcongr
          · norm_num
          · omega
    exact absurd h (not_lt.mpr hbound)

/-- The whole part of a number in last places, or the next one if something is left. -/
theorem roundsTo_of_floor {k k' : ℕ} {t : ℤ} {x : ℚ} (hlow : (k : ℚ) ≤ x) (hhigh : x < k + 1)
    (hfull : 2 ^ 52 ≤ k ∨ t = -1074) (hk' : k' = k ∨ k' = k + 1 ∧ x ≠ k) :
    RoundsTo (x * 2 ^ t) (k' * 2 ^ t) := by
  have hpos : (0 : ℚ) < 2 ^ t := by positivity
  intro b hb
  constructor
  · intro hr
    have hbk : b ≤ k * 2 ^ t := by
      by_contra hlt
      have hnext := succ_le_of_lt hb hfull (not_le.mp hlt)
      have := lt_of_mul_lt_mul_right
        (lt_of_le_of_lt (hnext.trans hr) (mul_lt_mul_of_pos_right hhigh hpos)) hpos.le
      exact lt_irrefl _ this
    obtain rfl | ⟨rfl, _⟩ := hk'
    · exact hbk
    · push_cast
      linarith
  · intro hr
    obtain rfl | ⟨rfl, hne⟩ := hk'
    · exact (mul_le_mul_of_nonneg_right hlow hpos.le).trans hr
    · have hlt : (k : ℚ) * 2 ^ t < x * 2 ^ t :=
        mul_lt_mul_of_pos_right (lt_of_le_of_ne hlow hne.symm) hpos
      push_cast
      exact succ_le_of_lt hb hfull (hlt.trans_le hr)

end

/-! ### Extended mantissas -/

/-- An extended mantissa is the whole part of a number, and its bits are clear if nothing else is
left of it. -/
structure Approximates (em : ExtendedMantissa) (x : ℚ) : Prop where
  low : (em.mantissa : ℚ) ≤ x
  high : x < em.mantissa + 1
  exact : x = em.mantissa → em.roundBit = false ∧ em.stickyBit = false

theorem mantissa_ofMantissaAndAccuracy (m : ℕ) (accuracy : Accuracy) :
    (ExtendedMantissa.ofMantissaAndAccuracy m accuracy).mantissa = m := by
  cases accuracy with
  | exact => rfl
  | inexact half => cases half <;> rfl

theorem approximates_exact (m : ℕ) :
    Approximates (ExtendedMantissa.ofMantissaAndAccuracy m .exact) m :=
  ⟨le_rfl, lt_add_one _, fun _ => ⟨rfl, rfl⟩⟩

section

variable {em : ExtendedMantissa} {x : ℚ}

theorem Approximates.shiftRightOne (h : Approximates em x) :
    Approximates em.shiftRightOne (x / 2) := by
  obtain ⟨hlow, hhigh, hexact⟩ := h
  have hsplit : (em.mantissa : ℚ) = 2 * (em.mantissa / 2 : ℕ) + (em.mantissa % 2 : ℕ) := by
    exact_mod_cast (Nat.div_add_mod em.mantissa 2).symm
  have hbit : ((em.mantissa % 2 : ℕ) : ℚ) ≤ 1 := by
    exact_mod_cast Nat.le_of_lt_succ (Nat.mod_lt em.mantissa two_pos)
  have hbit_nonneg : (0 : ℚ) ≤ (em.mantissa % 2 : ℕ) := Nat.cast_nonneg _
  refine ⟨?_, ?_, fun hx => ?_⟩
  · show ((em.mantissa / 2 : ℕ) : ℚ) ≤ x / 2
    linarith
  · show x / 2 < ((em.mantissa / 2 : ℕ) : ℚ) + 1
    linarith
  · replace hx : x / 2 = ((em.mantissa / 2 : ℕ) : ℚ) := hx
    have heven : ((em.mantissa % 2 : ℕ) : ℚ) = 0 := by linarith
    obtain ⟨hround, hsticky⟩ := hexact (by linarith)
    have heven' : em.mantissa % 2 = 0 := by exact_mod_cast heven
    simp [ExtendedMantissa.shiftRightOne, heven', hround, hsticky]

theorem shiftRight_succ (em : ExtendedMantissa) (n : ℕ) :
    em >>> (n + 1) = (em >>> n).shiftRightOne :=
  rfl

theorem Approximates.shiftRight (h : Approximates em x) (n : ℕ) :
    Approximates (em >>> n) (x / 2 ^ n) := by
  induction n with
  | zero =>
    rw [pow_zero, div_one]
    exact h
  | succ n ih =>
    rw [shiftRight_succ, pow_succ, ← div_div]
    exact ih.shiftRightOne

theorem mantissa_shiftRight (em : ExtendedMantissa) (n : ℕ) :
    (em >>> n).mantissa = em.mantissa / 2 ^ n := by
  induction n with
  | zero => exact (Nat.div_one _).symm
  | succ n ih =>
    rw [shiftRight_succ, pow_succ, ← Nat.div_div_eq_div_mul, ← ih]
    rfl

theorem Approximates.roundedMantissa (h : Approximates em x) :
    em.roundedMantissa = em.mantissa ∨
      em.roundedMantissa = em.mantissa + 1 ∧ x ≠ em.mantissa := by
  obtain ⟨m, round, sticky⟩ := em
  have hexact := h.exact
  cases round <;> cases sticky
  · exact .inl rfl
  · exact .inl rfl
  · have hrounded : ExtendedMantissa.roundedMantissa ⟨m, true, false⟩ = m + m % 2 := rfl
    obtain heven | hodd := Nat.mod_two_eq_zero_or_one m
    · exact .inl (by rw [hrounded, heven, Nat.add_zero])
    · exact .inr ⟨by rw [hrounded, hodd], fun hx => by simpa using hexact hx⟩
  · exact .inr ⟨rfl, fun hx => by simpa using hexact hx⟩

end

/-! ### Rounding -/

/-- The mantissas and exponents of doubles, but for the largest exponents: full precision, or the
lowest places. -/
structure Canonical (m : ℕ) (e : ℤ) : Prop where
  lt : m < 2 ^ 53
  low : -1074 ≤ e
  full : 2 ^ 52 ≤ m ∨ e = -1074

/-- The exponent that a mantissa is rounded to. -/
def roundedExponent (m : ℕ) (e : ℤ) : ℤ :=
  max (m.log2 + 1 + e - 53) (-1074)

theorem shiftToTargetExponent_eq {m : ℕ} {e : ℤ} (accuracy : Accuracy) :
    shiftToTargetExponent Format.binary64 m e accuracy =
      (ExtendedMantissa.ofMantissaAndAccuracy m accuracy >>> (roundedExponent m e - e).toNat,
        e + (roundedExponent m e - e).toNat) :=
  rfl

theorem log2_le_of_lt {m : ℕ} (h : m < 2 ^ 53) : m.log2 ≤ 52 := by
  by_cases hm : m = 0
  · subst hm
    decide
  · exact Nat.le_of_lt_succ ((Nat.log2_lt hm).mpr h)

theorem le_log2_of_le {m : ℕ} (h : 2 ^ 52 ≤ m) : 52 ≤ m.log2 :=
  (Nat.le_log2 (by omega)).mpr h

/-- The number with a mantissa and an exponent; zero for the mantissa zero. -/
def unpackedOf (s : Sign) (m : ℕ) (e : ℤ) : UnpackedFloat :=
  if h : m = 0 then .zero s else .finite s m e (Nat.pos_of_ne_zero h)

theorem unpackedOf_of_pos (s : Sign) {m : ℕ} (hpos : 0 < m) (e : ℤ) :
    unpackedOf s m e = .finite s m e hpos :=
  dif_neg hpos.ne'

theorem roundWithAccuracy_eq (s : Sign) (m : ℕ) (e : ℤ) (accuracy : Accuracy) :
    roundWithAccuracy Format.binary64 s m e accuracy =
      let first := shiftToTargetExponent Format.binary64 m e accuracy
      let final := shiftToTargetExponent Format.binary64 first.1.roundedMantissa first.2 .exact
      unpackedOf s final.1.mantissa final.2 :=
  rfl

theorem roundedExponent_le {m : ℕ} {e : ℤ} (hm : m < 2 ^ 53) (he : -1074 ≤ e) :
    roundedExponent m e ≤ e := by
  have := log2_le_of_lt hm
  rw [roundedExponent]
  omega

theorem le_roundedExponent {m : ℕ} {e : ℤ} (h : 2 ^ 52 ≤ m ∨ e ≤ -1074) :
    e ≤ roundedExponent m e := by
  rw [roundedExponent]
  obtain hm | he := h
  · have := le_log2_of_le hm
    omega
  · omega

/-- The first shift leaves a mantissa of the right precision. -/
theorem mantissa_of_first_shift {m n : ℕ} {e : ℤ} (hn : roundedExponent m e = e + n) :
    m / 2 ^ n < 2 ^ 53 ∧ (2 ^ 52 ≤ m / 2 ^ n ∨ roundedExponent m e = -1074) := by
  have hexponent : roundedExponent m e = max (m.log2 + 1 + e - 53) (-1074) := rfl
  constructor
  · refine Nat.div_lt_of_lt_mul ?_
    rw [← pow_add]
    calc m < 2 ^ (m.log2 + 1) := Nat.lt_log2_self
      _ ≤ 2 ^ (n + 53) := Nat.pow_le_pow_right two_pos (by omega)
  · by_cases hmin : roundedExponent m e = -1074
    · exact .inr hmin
    · left
      have hlog : m.log2 = n + 52 := by omega
      have hm : m ≠ 0 := by
        rintro rfl
        rw [Nat.log2_zero] at hlog
        omega
      rw [Nat.le_div_iff_mul_le (by positivity), ← pow_add, Nat.add_comm, ← hlog]
      exact Nat.log2_self_le hm

/-- The second shift only undoes a carry. -/
theorem exists_final_shift {r : ℕ} {t : ℤ} (hr : r ≤ 2 ^ 53) (ht : -1074 ≤ t)
    (hfull : 2 ^ 52 ≤ r ∨ t = -1074) :
    ∃ k e, Canonical k e ∧ (k : ℚ) * 2 ^ e = r * 2 ^ t ∧
      (shiftToTargetExponent Format.binary64 r t .exact).1.mantissa = k ∧
      (shiftToTargetExponent Format.binary64 r t .exact).2 = e := by
  simp only [shiftToTargetExponent_eq, mantissa_shiftRight]
  obtain hlt | rfl := Nat.lt_or_eq_of_le hr
  · have hshift : (roundedExponent r t - t).toNat = 0 := by
      have := roundedExponent_le hlt ht
      omega
    rw [hshift, pow_zero, Nat.div_one, Nat.cast_zero, add_zero]
    exact ⟨r, t, ⟨hlt, ht, hfull⟩, rfl, rfl, rfl⟩
  · have hshift : (roundedExponent (2 ^ 53) t - t).toNat = 1 := by
      rw [roundedExponent, Nat.log2_two_pow]
      omega
    rw [hshift, pow_one]
    refine ⟨2 ^ 52, t + 1, ⟨by norm_num, by omega, .inl le_rfl⟩, ?_, by decide, rfl⟩
    rw [zpow_add₀ two_ne_zero]
    push_cast
    ring

theorem exists_rounded {m : ℕ} {e : ℤ} {accuracy : Accuracy} {x : ℚ} (s : Sign)
    (h : Approximates (ExtendedMantissa.ofMantissaAndAccuracy m accuracy) x)
    (hfine : 2 ^ 52 ≤ m ∨ e ≤ -1074) :
    ∃ k t, Canonical k t ∧ RoundsTo (x * 2 ^ e) (k * 2 ^ t) ∧
      roundWithAccuracy Format.binary64 s m e accuracy = unpackedOf s k t := by
  obtain ⟨n, hn⟩ := Int.le.dest (le_roundedExponent hfine)
  have hshift : (roundedExponent m e - e).toNat = n := by omega
  obtain ⟨hlt, hfull⟩ := mantissa_of_first_shift hn.symm
  have hlow : -1074 ≤ roundedExponent m e := le_max_right _ _
  have happrox := h.shiftRight n
  have hfloor := mantissa_shiftRight (ExtendedMantissa.ofMantissaAndAccuracy m accuracy) n
  rw [mantissa_ofMantissaAndAccuracy] at hfloor
  have hrounded := happrox.roundedMantissa
  have hscale : x * 2 ^ e = x / 2 ^ n * 2 ^ roundedExponent m e := by
    rw [← hn, zpow_add₀ two_ne_zero, zpow_natCast]
    field_simp
  rw [roundWithAccuracy_eq, shiftToTargetExponent_eq, hshift, hn, hscale]
  dsimp only
  generalize hr : (ExtendedMantissa.ofMantissaAndAccuracy m accuracy >>> n).roundedMantissa = r
    at hrounded ⊢
  rw [hfloor] at hrounded
  obtain ⟨k, t, hcanonical, hvalue, rfl, rfl⟩ := exists_final_shift (r := r) (by omega) hlow
    (by omega)
  refine ⟨_, _, hcanonical, ?_, rfl⟩
  rw [hvalue]
  exact roundsTo_of_floor (hfloor ▸ happrox.low) (hfloor ▸ happrox.high) hfull hrounded

/-! ### Numbers with a sign -/

def signFactor : Sign → ℚ
  | .negative => -1
  | .positive => 1

theorem signFactor_mul (s₁ s₂ : Sign) : signFactor (s₁ * s₂) = signFactor s₁ * signFactor s₂ := by
  cases s₁ <;> cases s₂
  · show (1 : ℚ) = -1 * -1
    norm_num
  · show (-1 : ℚ) = -1 * 1
    norm_num
  · show (-1 : ℚ) = 1 * -1
    norm_num
  · show (1 : ℚ) = 1 * 1
    norm_num

theorem apply_eq (s : Sign) (n : ℤ) : (s.apply n : ℚ) = signFactor s * n := by
  cases s
  · rw [Sign.apply, signFactor]
    push_cast
    ring
  · rw [Sign.apply, signFactor, one_mul]

theorem RoundsTo.signed {r q : ℚ} (h : RoundsTo r q) (s : Sign) :
    RoundsTo (signFactor s * r) (signFactor s * q) := by
  cases s
  · simpa [signFactor] using h.neg
  · simpa [signFactor] using h

theorem RoundsTo.refl (q : ℚ) : RoundsTo q q :=
  fun _ _ => ⟨id, id⟩

/-- The number that an unpacked float holds, if it is finite and rounded. -/
inductive Holds : UnpackedFloat → ℚ → Prop
  | zero (s : Sign) : Holds (.zero s) 0
  | finite (s : Sign) {m : ℕ} {e : ℤ} (hpos : 0 < m) (h : Canonical m e) :
    Holds (.finite s m e hpos) (signFactor s * (m * 2 ^ e))

theorem holds_unpackedOf (s : Sign) {m : ℕ} {e : ℤ} (h : Canonical m e) :
    Holds (unpackedOf s m e) (signFactor s * (m * 2 ^ e)) := by
  unfold unpackedOf
  split
  next hm =>
    rw [hm, Nat.cast_zero, zero_mul, mul_zero]
    exact .zero s
  next => exact .finite s _ h

theorem exists_holds_rounded {m : ℕ} {e : ℤ} {accuracy : Accuracy} {x : ℚ} (s : Sign)
    (h : Approximates (ExtendedMantissa.ofMantissaAndAccuracy m accuracy) x)
    (hfine : 2 ^ 52 ≤ m ∨ e ≤ -1074) :
    ∃ q, RoundsTo (signFactor s * (x * 2 ^ e)) q ∧
      Holds (roundWithAccuracy Format.binary64 s m e accuracy) q := by
  obtain ⟨k, t, hcanonical, hrounds, heq⟩ := exists_rounded s h hfine
  exact ⟨_, hrounds.signed s, heq ▸ holds_unpackedOf s hcanonical⟩

theorem round_eq (s : Sign) (m : ℕ) (e : ℤ) : UnpackedFloat.round Format.binary64 s m e =
    roundWithAccuracy Format.binary64 s (m <<< (e - roundedExponent m e).toNat)
      (e - (e - roundedExponent m e).toNat) .exact :=
  rfl

theorem shifted_value {m n : ℕ} {e : ℤ} :
    ((m <<< n : ℕ) : ℚ) * 2 ^ (e - n) = m * 2 ^ e := by
  rw [Nat.shiftLeft_eq, zpow_sub₀ two_ne_zero, zpow_natCast]
  push_cast
  field_simp

theorem exists_holds_round {m : ℕ} (s : Sign) (e : ℤ) (hm : m ≠ 0) :
    ∃ q, RoundsTo (signFactor s * (m * 2 ^ e)) q ∧
      Holds (UnpackedFloat.round Format.binary64 s m e) q := by
  rw [round_eq, ← shifted_value (n := (e - roundedExponent m e).toNat)]
  refine exists_holds_rounded s (approximates_exact _) ?_
  have hexponent : roundedExponent m e = max (m.log2 + 1 + e - 53) (-1074) := rfl
  generalize hn : (e - roundedExponent m e).toNat = n
  rw [or_iff_not_imp_right]
  intro hhigh
  rw [Nat.shiftLeft_eq]
  calc 2 ^ 52 ≤ 2 ^ (m.log2 + n) := Nat.pow_le_pow_right two_pos (by omega)
    _ = 2 ^ m.log2 * 2 ^ n := pow_add ..
    _ ≤ m * 2 ^ n := Nat.mul_le_mul_right _ (Nat.log2_self_le hm)

theorem exists_holds_normalize (n : ℤ) (e : ℤ) (zeroSign : Sign) :
    ∃ q, RoundsTo (n * 2 ^ e) q ∧
      Holds (UnpackedFloat.normalize Format.binary64 n e zeroSign) q := by
  unfold UnpackedFloat.normalize
  split
  next hlt =>
    have hneg : n < 0 := Int.compare_eq_lt.mp hlt
    have hvalue : (n : ℚ) * 2 ^ e = signFactor .negative * (((-n).toNat : ℕ) * 2 ^ e) := by
      have hcast : (((-n).toNat : ℕ) : ℚ) = -n := by
        exact_mod_cast Int.toNat_of_nonneg (by omega : 0 ≤ -n)
      rw [hcast, signFactor]
      ring
    rw [hvalue]
    exact exists_holds_round _ _ (by omega)
  next heq =>
    obtain rfl : n = 0 := Int.compare_eq_eq.mp heq
    refine ⟨0, ?_, .zero zeroSign⟩
    rw [Int.cast_zero, zero_mul]
    exact .refl 0
  next hgt =>
    have hpos : 0 < n := Int.compare_eq_gt.mp hgt
    have hvalue : (n : ℚ) * 2 ^ e = signFactor .positive * ((n.toNat : ℕ) * 2 ^ e) := by
      have hcast : ((n.toNat : ℕ) : ℚ) = n := by
        exact_mod_cast Int.toNat_of_nonneg hpos.le
      rw [hcast, signFactor, one_mul]
    rw [hvalue]
    exact exists_holds_round _ _ (by omega)

end Compression
