import Compression.Proofs.EncodeFaults
import Compression.Proofs.NetpbmGrammar

namespace Compression

/-- An image is read from the bytes, whatever follows them, and none is read from fewer. -/
def HoldsExactly (file : Bytes) (image : Image) : Prop :=
  (∀ rest, parseNetpbm (file ++ rest) = .ok image) ∧
    ∀ size < file.length, ∃ e, parseNetpbm (file.take size) = .error e ∧
      e.code? = some .unsupportedInput

/-- With more bytes behind it a token may only become longer. -/
theorem exists_longer_token {data token rest : Bytes} (h : nextToken data = .ok (token, rest))
    (more : Bytes) :
    ∃ tail behind, nextToken (data ++ more) = .ok (token ++ tail, behind) := by
  obtain ⟨hne, htoken, _, gap, hgap, rfl⟩ := nextToken_eq_ok_iff.mp h
  refine ⟨(rest ++ more).takeWhile isTokenByte, (rest ++ more).dropWhile isTokenByte,
    nextToken_eq_ok_iff.mpr ⟨?_, ?_, endsRun_dropWhile _, gap, hgap, ?_⟩⟩
  · exact fun hnil => hne (List.append_eq_nil_iff.mp hnil).1
  · exact List.forall_mem_append.mpr ⟨htoken, fun b hb => List.mem_takeWhile_imp hb⟩
  · rw [List.append_assoc, List.append_assoc, List.append_assoc, List.takeWhile_append_dropWhile]

section

variable {field : NetpbmField} {data rest : Bytes} {n : Nat}

/-- A number that ended before the cut is not changed by what comes behind it. -/
theorem nextNumber_append (h : nextNumber field data = .ok (n, rest)) (hne : rest ≠ [])
    (more : Bytes) : nextNumber field (data ++ more) = .ok (n, rest ++ more) := by
  obtain ⟨number, rfl, hrest, rfl⟩ := exists_headerNumber h
  rw [List.append_assoc]
  exact nextNumber_bytes field number ((endsRun_append hne more).mpr hrest)

theorem nextNumber_append_ne_ok (h : nextNumber field data = .error .numeralTooLong)
    (more : Bytes) : nextNumber field (data ++ more) ≠ .ok (n, rest) := by
  intro hok
  obtain ⟨number, hbytes, hrest, _⟩ := exists_headerNumber hok
  have hwhole := nextToken_bytes number hrest
  rw [← hbytes] at hwhole
  unfold nextNumber at h
  cases htoken : nextToken data with
  | error e =>
    obtain rfl := nextToken_error htoken
    simp only [htoken] at h
    cases h
  | ok next =>
    obtain ⟨token, behind⟩ := next
    obtain ⟨tail, _, hlonger⟩ := exists_longer_token htoken more
    have hdigits : token ++ tail = number.digits :=
      (Prod.mk.inj (Except.ok.inj (hlonger.symm.trans hwhole))).1
    have hlength : (token ++ tail).length ≤ maxNumeralLength :=
      hdigits ▸ number.length_digits
    rw [List.length_append] at hlength
    simp only [htoken] at h
    split at h
    next => cases h
    next =>
      split at h
      next hlong => omega
      next => cases h

/-- If a step of the reading of a cut header is not where it ends, the whole header takes the same
step. -/
theorem exists_common_step {α : Type} {next : Nat × Bytes → Except NetpbmError α} {more : Bytes}
    {a : α} (hcut : nextNumber field data >>= next = .error .numeralTooLong)
    (hend : ∀ n, next (n, []) ≠ .error .numeralTooLong)
    (hwhole : nextNumber field (data ++ more) >>= next = .ok a) :
    ∃ n rest, next (n, rest) = .error .numeralTooLong ∧ next (n, rest ++ more) = .ok a := by
  obtain hlong | ⟨⟨n, rest⟩, hread, hcut⟩ := bind_eq_error_iff.mp hcut
  · obtain ⟨⟨n, rest⟩, hread, _⟩ := bind_eq_ok_iff.mp hwhole
    exact absurd hread (nextNumber_append_ne_ok hlong more)
  · have hne : rest ≠ [] := by
      rintro rfl
      exact hend n hcut
    rw [nextNumber_append hread hne more] at hwhole
    exact ⟨n, rest, hcut, hwhole⟩

end

/-- A cut file has too long a number only if the whole file has one. -/
theorem le_needed_of_cut {blob more : Bytes} {image : Image}
    (hcut : parseNetpbm blob = .error .numeralTooLong)
    (hwhole : parseNetpbm (blob ++ more) = .ok image) :
    10 ^ maxNumeralLength ≤ image.width * image.height * image.channels := by
  unfold parseNetpbm at hcut hwhole
  cases hchannels : channelsOf (blob.take 2) with
  | none => simp only [hchannels] at hcut; cases hcut
  | some channels =>
    have hmagic := (channelsOf_eq_some hchannels).1
    have hlength : 2 ≤ blob.length := by
      rw [List.length_take] at hmagic
      omega
    rw [List.take_append_of_le_length hlength, List.drop_append_of_le_length hlength] at hwhole
    simp only [hchannels] at hcut hwhole
    obtain ⟨width, afterWidth, hcut, hwhole⟩ :=
      exists_common_step hcut (fun n h => by cases h) hwhole
    obtain ⟨height, afterHeight, hcut, hwhole⟩ :=
      exists_common_step hcut (fun n h => by cases h) hwhole
    -- If nothing is left behind the last number, the bytes are too few, which is another error.
    have hend (n : Nat) : (if width = 0 ∨ height = 0 then .error (.badSize width height)
        else if n = 0 ∨ 255 < n then .error (.badMaxval n)
        else readSamples width height channels []) ≠ .error NetpbmError.numeralTooLong := by
      split
      next => simp
      next => split <;> simp [readSamples]
    obtain ⟨maxval, samples, hcut, hwhole⟩ := exists_common_step hcut hend hwhole
    split at hcut
    next => cases hcut
    next hsize =>
      rw [if_neg hsize] at hwhole
      split at hcut
      next => cases hcut
      next hrange =>
        rw [if_neg hrange] at hwhole
        obtain ⟨_, _, _, _, _, _, rfl⟩ := readSamples_eq_ok_iff.mp hwhole
        exact le_needed_of_readSamples_long hcut

def NetpbmText.append (text : NetpbmText) (more : Bytes) : NetpbmText :=
  { text with rest := text.rest ++ more }

theorem NetpbmText.bytes_append (text : NetpbmText) (more : Bytes) :
    (text.append more).bytes = text.bytes ++ more := by
  change text.magic ++ (text.width.bytes ++ (text.height.bytes ++ (text.maxval.bytes ++
    text.blank :: (text.samples ++ (text.rest ++ more))))) = text.bytes ++ more
  simp only [bytes, List.append_assoc, List.cons_append]

section

variable {text : NetpbmText} (hrest : text.rest = [])

include hrest

/-- A text that ends with its last sample cannot be read from fewer bytes. -/
theorem NetpbmText.parseNetpbm_take_ne_ok {size : Nat} (h : size < text.bytes.length)
    {image : Image} : parseNetpbm (text.bytes.take size) ≠ .ok image := by
  intro hread
  obtain ⟨cut, hcut, _⟩ := exists_netpbmText hread
  have hwhole : (cut.append (text.bytes.drop size)).bytes = text.bytes := by
    rw [bytes_append, hcut, List.take_append_drop]
  -- A file is the bytes of one text only, so what was cut off is the end of the rest.
  have hbehind : cut.rest ++ text.bytes.drop size = text.rest :=
    congrArg NetpbmText.rest (bytes_injective hwhole)
  rw [hrest] at hbehind
  have hshort := List.drop_eq_nil_iff.mp (List.append_eq_nil_iff.mp hbehind).2
  omega

theorem NetpbmText.holdsExactly
    (hsize : text.image.width * text.image.height * text.image.channels < 10 ^ maxNumeralLength) :
    HoldsExactly text.bytes text.image := by
  refine ⟨fun more => ?_, fun size hcut => ?_⟩
  · rw [← bytes_append]
    exact parseNetpbm_bytes (text.append more)
  · cases hread : parseNetpbm (text.bytes.take size) with
    | ok image => exact absurd hread (parseNetpbm_take_ne_ok hrest hcut)
    | error e =>
      -- Only a number that is too long to be read has no code.
      refine ⟨e, rfl, NetpbmError.code?_of_ne ?_⟩
      rintro rfl
      have hwhole : parseNetpbm (text.bytes.take size ++ text.bytes.drop size) =
          .ok text.image := by
        rw [List.take_append_drop]
        exact parseNetpbm_bytes text
      exact Nat.not_le_of_lt hsize (le_needed_of_cut hread hwhole)

end

/-- Of a raw image that is written, no byte is missing and none is too many. -/
theorem writtenImage_holdsExactly (image : Image) (hwidth : 1 ≤ image.width)
    (hheight : 1 ≤ image.height) (hsize : 3 * image.width * image.height < 10 ^ 4300) :
    (image.channels = 1 →
      HoldsExactly (encodePgm image.width image.height image.samples) image) ∧
    (image.channels = 3 →
      HoldsExactly (encodePpm image.width image.height image.samples) image) := by
  have hlimit : 10 ^ 4300 = 10 ^ maxNumeralLength := by rw [maxNumeralLength]
  rw [hlimit, Nat.mul_assoc] at hsize
  have hwidthLe := Nat.le_mul_of_pos_right image.width hheight
  have hheightLe := Nat.le_mul_of_pos_left image.height hwidth
  have hwritten (isColor : Bool) (hchannels : image.channels = if isColor then 3 else 1) :
      HoldsExactly (netpbmHeader (if isColor then colorMagic else grayMagic) image.width
        image.height ++ image.samples) image := by
    obtain ⟨text, hrest, himage, hbytes⟩ := exists_writtenText isColor hchannels hwidth hheight
      (by omega) (by omega)
    rw [← hbytes, ← himage]
    refine text.holdsExactly hrest ?_
    rw [himage]
    have hfew : image.channels ≤ 3 := by
      rw [hchannels]
      split <;> omega
    calc
      _ ≤ image.width * image.height * 3 := Nat.mul_le_mul_left _ hfew
      _ < 10 ^ maxNumeralLength := by rwa [Nat.mul_comm]
  exact ⟨hwritten false, hwritten true⟩

/-- Samples that are a blank and the sign of a comment. -/
theorem writtenImage_holdsExactly_blank :
    let image : Image := ⟨2, 1, 1, [0x20, 0x23], rfl⟩
    (1 ≤ image.width ∧ 1 ≤ image.height ∧ 3 * image.width * image.height < 10 ^ 4300) ∧
      HoldsExactly (encodePgm 2 1 [0x20, 0x23]) image := by
  intro image
  have hpow (digits : Nat) (h : 1 ≤ digits) : 3 * image.width * image.height < 10 ^ digits :=
    Nat.lt_of_lt_of_le (show 6 < 10 ^ 1 by decide) (Nat.pow_le_pow_right (by decide) h)
  have hsize := hpow 4300 (by decide)
  have hsides : 1 ≤ image.width ∧ 1 ≤ image.height := by decide
  exact ⟨⟨hsides.1, hsides.2, hsize⟩,
    (writtenImage_holdsExactly image hsides.1 hsides.2 hsize).1 rfl⟩

end Compression
