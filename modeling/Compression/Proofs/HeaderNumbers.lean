import Compression.Netpbm
import Compression.Proofs.ExceptSteps
import Mathlib.Data.List.Induction

namespace Compression

theorem length_skipBlanks (inComment : Bool) (data : Bytes) :
    (skipBlanks inComment data).length ≤ data.length := by
  induction data generalizing inComment with
  | nil => simp [skipBlanks]
  | cons b data ih =>
    have hskipped := ih (!isLineEndByte b)
    have hcomment := ih true
    have hblank := ih false
    unfold skipBlanks
    rw [List.length_cons]
    split
    next => omega
    next =>
      split
      next => omega
      next =>
        split
        next => omega
        next => exact Nat.le_refl _

theorem isDigitByte_iff {b : UInt8} : isDigitByte b = true ↔ 0x30 ≤ b.toNat ∧ b.toNat ≤ 0x39 := by
  simp [isDigitByte, UInt8.le_iff_toNat_le]

theorem digitsValue_concat (token : Bytes) (b : UInt8) :
    digitsValue (token ++ [b]) = 10 * digitsValue token + (b.toNat - 0x30) := by
  simp [digitsValue]

/-- A number of so many digits, leading zeros among them. -/
theorem digitsValue_lt {token : Bytes} (h : token.all isDigitByte = true) :
    digitsValue token < 10 ^ token.length := by
  induction token using List.reverseRecOn with
  | nil => simp [digitsValue]
  | append_singleton token b ih =>
    rw [List.all_append, Bool.and_eq_true] at h
    have hvalue := ih h.1
    have hdigit := isDigitByte_iff.mp (by simpa using h.2)
    rw [digitsValue_concat, List.length_append, List.length_singleton, Nat.pow_succ]
    omega

section

variable {field : NetpbmField} {data token rest : Bytes} {n : Nat}

theorem length_of_nextToken (h : nextToken data = .ok (token, rest)) :
    token.length + rest.length ≤ data.length := by
  have hblanks := length_skipBlanks false data
  have htaken := (List.takeWhile_prefix isTokenByte (l := skipBlanks false data)).length_le
  simp only [nextToken] at h
  split at h
  next => cases h
  next =>
    cases h
    rw [List.length_drop]
    omega

theorem nextToken_error {e : NetpbmError} (h : nextToken data = .error e) : e = .headerEnd := by
  simp only [nextToken] at h
  split at h
  next => cases h; rfl
  next => cases h

/-- A number is bounded by the bytes that are taken for it. -/
theorem nextNumber_lt (h : nextNumber field data = .ok (n, rest)) :
    ∃ digits, n < 10 ^ digits ∧ digits + rest.length ≤ data.length := by
  unfold nextNumber at h
  cases htoken : nextToken data with
  | error e => rw [htoken] at h; cases h
  | ok next =>
    obtain ⟨token, rest'⟩ := next
    simp only [htoken] at h
    split at h
    next => cases h
    next hdigits =>
      split at h
      next => cases h
      next =>
        cases h
        exact ⟨token.length, digitsValue_lt (by simpa using hdigits), length_of_nextToken htoken⟩

theorem length_of_nextNumber_long (h : nextNumber field data = .error .numeralTooLong) :
    maxNumeralLength < data.length := by
  unfold nextNumber at h
  cases htoken : nextToken data with
  | error e =>
    obtain rfl := nextToken_error htoken
    simp only [htoken] at h
    cases h
  | ok next =>
    obtain ⟨token, rest'⟩ := next
    have hlength := length_of_nextToken htoken
    simp only [htoken] at h
    split at h
    next => cases h
    next =>
      split at h
      next hlong => omega
      next => cases h

end

theorem channelsOf_eq_some {magic : Bytes} {channels : Nat} (h : channelsOf magic = some channels) :
    magic.length = 2 ∧ channels < 10 := by
  unfold channelsOf at h
  split at h
  next hgray => cases h; exact ⟨hgray ▸ rfl, by omega⟩
  next =>
    split at h
    next hcolor => cases h; exact ⟨hcolor ▸ rfl, by omega⟩
    next => cases h

theorem le_needed_of_readSamples_long {width height channels : Nat} {data : Bytes}
    (h : readSamples width height channels data = .error .numeralTooLong) :
    10 ^ maxNumeralLength ≤ width * height * channels := by
  cases data with
  | nil => cases h
  | cons b rest =>
    simp only [readSamples] at h
    split at h
    next => cases h
    next =>
      split at h
      next =>
        split at h
        next hlong => exact hlong
        next => cases h
      next => cases h

/-- A product needs no more digits than its factors have. -/
theorem le_add_of_pow_le_product {width height channels a b m : Nat} (hwidth : width < 10 ^ a)
    (hheight : height < 10 ^ b) (hchannels : channels < 10)
    (h : 10 ^ m ≤ width * height * channels) : m ≤ a + b := by
  have hproduct : width * height * channels < 10 ^ (a + b + 1) := by
    rw [Nat.pow_succ, Nat.pow_add]
    exact Nat.mul_lt_mul'' (Nat.mul_lt_mul'' hwidth hheight) hchannels
  have hpow := (Nat.pow_lt_pow_iff_right (by omega)).mp (Nat.lt_of_le_of_lt h hproduct)
  omega

/-- A file has a number that is too long to be read or told only if it is long itself. -/
theorem length_of_parseNetpbm_long {blob : Bytes}
    (h : parseNetpbm blob = .error .numeralTooLong) :
    isNetpbm blob = true ∧ maxNumeralLength < blob.length := by
  unfold parseNetpbm at h
  unfold isNetpbm
  cases hchannels : channelsOf (blob.take 2) with
  | none => simp only [hchannels] at h; cases h
  | some channels =>
    refine ⟨rfl, ?_⟩
    obtain ⟨hmagic, hfew⟩ := channelsOf_eq_some hchannels
    have hblob : blob.length = (blob.drop 2).length + 2 := by
      rw [List.length_take] at hmagic
      rw [List.length_drop]
      omega
    simp only [hchannels] at h
    -- The numbers stand one after the other, so each has what the ones before it leave.
    obtain hlong | ⟨⟨width, afterWidth⟩, hwidth, h⟩ := bind_eq_error_iff.mp h
    · have := length_of_nextNumber_long hlong
      omega
    obtain ⟨widthDigits, hwidthLt, hwidthLength⟩ := nextNumber_lt hwidth
    simp only at h
    obtain hlong | ⟨⟨height, afterHeight⟩, hheight, h⟩ := bind_eq_error_iff.mp h
    · have := length_of_nextNumber_long hlong
      omega
    obtain ⟨heightDigits, hheightLt, hheightLength⟩ := nextNumber_lt hheight
    simp only at h
    obtain hlong | ⟨⟨maxval, samples⟩, _, h⟩ := bind_eq_error_iff.mp h
    · have := length_of_nextNumber_long hlong
      omega
    simp only at h
    split at h
    next => cases h
    next =>
      split at h
      next => cases h
      next =>
        have hneeded := le_needed_of_readSamples_long h
        have := le_add_of_pow_le_product hwidthLt hheightLt hfew hneeded
        omega

theorem isTokenByte_of_isDigitByte {b : UInt8} (h : isDigitByte b = true) :
    isTokenByte b = true := by
  have hrange := isDigitByte_iff.mp h
  have hblank : isBlankByte b = false := by
    simp only [isBlankByte, Bool.or_eq_false_iff, Bool.and_eq_false_iff, decide_eq_false_iff_not,
      UInt8.le_iff_toNat_le, UInt8.ext_iff]
    simp
    omega
  have hcomment : isCommentByte b = false := by
    simp only [isCommentByte, decide_eq_false_iff_not, UInt8.ext_iff]
    simp
    omega
  rw [isTokenByte, hblank, hcomment]
  rfl

theorem nextToken_blank {b : UInt8} (h : isBlankByte b = true) (hcomment : isCommentByte b = false)
    (data : Bytes) : nextToken (b :: data) = nextToken data := by
  simp [nextToken, skipBlanks, h, hcomment]

/-- A token goes up to the first byte that is not of its kind. -/
theorem nextToken_append {token rest : Bytes} (hne : token ≠ [])
    (htoken : ∀ b ∈ token, isTokenByte b = true) (hrest : rest.takeWhile isTokenByte = []) :
    nextToken (token ++ rest) = .ok (token, rest) := by
  obtain ⟨b, tail, rfl⟩ := List.exists_cons_of_ne_nil hne
  have hfirst : isBlankByte b = false ∧ isCommentByte b = false := by
    simpa [isTokenByte] using htoken b List.mem_cons_self
  have hskip : skipBlanks false (b :: tail ++ rest) = b :: tail ++ rest := by
    simp [skipBlanks, hfirst]
  have htake : (b :: tail ++ rest).takeWhile isTokenByte = b :: tail := by
    rw [List.takeWhile_append_of_pos htoken, hrest, List.append_nil]
  simp only [nextToken, hskip, htake]
  rw [if_neg (by simp), List.drop_left]

/-- A width with too many digits ends the reading of a header, whatever follows it. -/
theorem parseNetpbm_of_long_width {token rest : Bytes} (hdigits : token.all isDigitByte = true)
    (hlong : maxNumeralLength < token.length) (hrest : rest.takeWhile isTokenByte = []) :
    parseNetpbm (grayMagic ++ 0x20 :: (token ++ rest)) = .error .numeralTooLong := by
  have hne : token ≠ [] := by
    rintro rfl
    exact absurd hlong (Nat.not_lt_zero _)
  have htoken : nextToken (0x20 :: (token ++ rest)) = .ok (token, rest) := by
    rw [nextToken_blank rfl rfl]
    refine nextToken_append hne (fun b hb => ?_) hrest
    exact isTokenByte_of_isDigitByte (List.all_eq_true.mp hdigits b hb)
  have hwidth : nextNumber .width (0x20 :: (token ++ rest)) = .error .numeralTooLong := by
    simp only [nextNumber, htoken, hdigits, if_pos hlong]
    rfl
  have hdrop : (grayMagic ++ 0x20 :: (token ++ rest)).drop 2 = 0x20 :: (token ++ rest) := rfl
  have hchannels : channelsOf ((grayMagic ++ 0x20 :: (token ++ rest)).take 2) = some 1 := rfl
  simp only [parseNetpbm, hchannels, hdrop, hwidth]
  rfl

end Compression
