import Compression.Failure
import Compression.Proofs.BlockFile
import Compression.Proofs.NetpbmGrammar

namespace Compression

/-- Something that a file has to be, and the fault that is told of a file that is not. -/
structure FileCheck where
  passes : Bool
  fault : BlockImageError
  code : ErrorCode

/-- The checks of a file with these first bytes and this length, in the order in which they are
made. -/
def blockFileChecks (header : Bytes) (size : Nat) : List FileCheck :=
  let width := littleEndianValue ((header.drop 4).take 2)
  let height := littleEndianValue ((header.drop 6).take 2)
  let channels := littleEndianValue ((header.drop 8).take 1)
  let needed := blockFileSize width height
  [⟨9 ≤ size, .short size, .formatError⟩,
    ⟨header.take 4 = blockMagic, .badMagic (header.take 4), .formatError⟩,
    ⟨width ≠ 0 ∧ height ≠ 0, .badSize width height, .formatError⟩,
    ⟨channels = 1, .manyChannels channels, .unsupportedInput⟩,
    ⟨needed ≤ size, .cutBlocks ((size - 9) / 128) (blockCount width height), .truncated⟩,
    ⟨size ≤ needed, .trailing (size - needed), .formatError⟩]

def firstFailing (checks : List FileCheck) : Option FileCheck :=
  checks.find? fun check => !check.passes

/-- A file that passes all checks is decoded, and of any other the first that fails is told. -/
def DecidedBy (checks : List FileCheck) (answer : Except BlockImageError (Plane UInt8)) : Prop :=
  ((∃ pixels, answer = .ok pixels) ↔ ∀ check ∈ checks, check.passes = true) ∧
    ∀ check, firstFailing checks = some check →
      answer = .error check.fault ∧ check.fault.code? = some check.code

section

variable {checks : List FileCheck} {answer : Except BlockImageError (Plane UInt8)}

theorem decidedBy_nil {pixels : Plane UInt8} (h : answer = .ok pixels) : DecidedBy [] answer := by
  refine ⟨⟨fun _ check hmem => ?_, fun _ => ⟨pixels, h⟩⟩, fun check hfound => ?_⟩
  · cases hmem
  · cases hfound

theorem decidedBy_cons {p : Prop} [Decidable p] {fault : BlockImageError} {code : ErrorCode}
    (hcode : fault.code? = some code) (hfails : ¬ p → answer = .error fault)
    (hpasses : p → DecidedBy checks answer) : DecidedBy (⟨p, fault, code⟩ :: checks) answer := by
  by_cases h : p
  · obtain ⟨hok, hfault⟩ := hpasses h
    refine ⟨hok.trans ?_, fun found hfound => ?_⟩
    · rw [List.forall_mem_cons]
      exact (and_iff_right (decide_eq_true h)).symm
    · rw [firstFailing, List.find?_cons_of_neg (by simp [h])] at hfound
      exact hfault found hfound
  · refine ⟨⟨fun ⟨pixels, hok⟩ => ?_, fun hall => ?_⟩, fun found hfound => ?_⟩
    · cases hok.symm.trans (hfails h)
    · exact absurd (of_decide_eq_true (hall _ List.mem_cons_self)) h
    · rw [firstFailing, List.find?_cons_of_pos (by simp [h])] at hfound
      cases hfound
      exact ⟨hfails h, hcode⟩

theorem DecidedBy.exists_failing {e : BlockImageError} (h : DecidedBy checks answer)
    (herror : answer = .error e) : ∃ check ∈ checks, e.code? = some check.code := by
  cases hfound : firstFailing checks with
  | none =>
    rw [firstFailing, List.find?_eq_none] at hfound
    obtain ⟨pixels, hok⟩ := h.1.mpr fun check hmem => by simpa using hfound check hmem
    cases hok.symm.trans herror
  | some check =>
    obtain ⟨hfault, hcode⟩ := h.2 check hfound
    obtain rfl := Except.error.inj (hfault.symm.trans herror)
    exact ⟨check, List.mem_of_find?_eq_some hfound, hcode⟩

theorem DecidedBy.exists_fault {code : ErrorCode} (h : DecidedBy checks answer)
    (hcode : (firstFailing checks).map (fun check => check.code) = some code) :
    ∃ e, answer = .error e ∧ e.code? = some code := by
  obtain ⟨check, hfound, rfl⟩ := Option.map_eq_some_iff.mp hcode
  exact ⟨check.fault, h.2 check hfound⟩

end

section

variable {α : Type} [TransformArithmetic α] {blob : Bytes}

theorem decodeImageWith_of_parse_error {e : BlockImageError}
    (h : parseBlockHeader blob = .error e) : decodeImageWith α blob = .error e := by
  simp only [decodeImageWith, h]

/-- Behind a sound header only the length of the file is left to look at. -/
theorem decidedBy_length {header : BlockImageHeader} (hparse : parseBlockHeader blob = .ok header)
    (hheader : 9 ≤ blob.length) :
    let needed := blockFileSize header.width header.height
    DecidedBy
      [⟨needed ≤ blob.length, .cutBlocks ((blob.length - 9) / 128)
          (blockCount header.width header.height), .truncated⟩,
        ⟨blob.length ≤ needed, .trailing (blob.length - needed), .formatError⟩]
      (decodeImageWith α blob) := by
  intro needed
  have htotal := header.rows_mul_columns
  have hneeded : needed = 9 + 128 * blockCount header.width header.height := rfl
  refine decidedBy_cons rfl (fun hcut => ?_) fun hroom => ?_
  · have havailable : blob.length - blockHeaderSize <
        blockCount header.width header.height * blockBytes := by
      rw [blockHeaderSize, blockBytes]
      omega
    simp only [decodeImageWith, hparse, htotal, havailable, if_true]
    rfl
  have hnotCut : ¬ blob.length - blockHeaderSize <
      blockCount header.width header.height * blockBytes := by
    rw [blockHeaderSize, blockBytes]
    omega
  refine decidedBy_cons rfl (fun hlong => ?_) fun hend => ?_
  · have havailable : blockCount header.width header.height * blockBytes <
        blob.length - blockHeaderSize := by
      rw [blockHeaderSize, blockBytes]
      omega
    have hextra : blob.length - blockHeaderSize -
        blockCount header.width header.height * blockBytes = blob.length - needed := by
      rw [blockHeaderSize, blockBytes]
      omega
    simp only [decodeImageWith, hparse, htotal, hnotCut, havailable, hextra, if_false, if_true]
  · obtain ⟨pixels, hpixels, _⟩ := exists_pixels (α := α) hparse (Nat.le_antisymm hend hroom)
    exact decidedBy_nil hpixels

theorem field_of_take (blob : Bytes) {size start count : Nat} (h : start + count ≤ size) :
    ((blob.take size).drop start).take count = (blob.drop start).take count := by
  rw [List.drop_take, List.take_take, Nat.min_eq_left (by omega)]

/-- A decoder looks at nothing but the header of a file and its length to accept or refuse it. -/
theorem decidedBy_blockFileChecks (α : Type) [TransformArithmetic α] (blob : Bytes) :
    DecidedBy (blockFileChecks (blob.take 9) blob.length) (decodeImageWith α blob) := by
  have hmagic := field_of_take blob (show 0 + 4 ≤ 9 by omega)
  have hwidth := field_of_take blob (show 4 + 2 ≤ 9 by omega)
  have hheight := field_of_take blob (show 6 + 2 ≤ 9 by omega)
  have hchannels := field_of_take blob (show 8 + 1 ≤ 9 by omega)
  rw [List.drop_zero, List.drop_zero] at hmagic
  have hparse := parseBlockHeader.eq_1 blob
  simp only [blockFileChecks, hmagic, hwidth, hheight, hchannels] at hparse ⊢
  -- Each check that is passed settles one branch of the parser.
  generalize blob.take 4 = magic at hparse ⊢
  generalize littleEndianValue ((blob.drop 4).take 2) = width at hparse ⊢
  generalize littleEndianValue ((blob.drop 6).take 2) = height at hparse ⊢
  generalize littleEndianValue ((blob.drop 8).take 1) = channels at hparse ⊢
  have hrefused : ∀ {e}, parseBlockHeader blob = .error e → decodeImageWith α blob = .error e :=
    decodeImageWith_of_parse_error
  have hheader : blockHeaderSize = 9 := rfl
  refine decidedBy_cons rfl (fun h => hrefused (hparse.trans (if_pos (by omega)))) fun hlength => ?_
  rw [if_neg (by omega)] at hparse
  refine decidedBy_cons rfl (fun h => hrefused (hparse.trans (if_pos h))) fun hmagic => ?_
  rw [if_neg (not_not_intro hmagic)] at hparse
  refine decidedBy_cons rfl (fun h => hrefused (hparse.trans (if_pos (by omega)))) fun hsize => ?_
  rw [if_neg (by omega)] at hparse
  refine decidedBy_cons rfl (fun h => hrefused (hparse.trans (if_pos h))) fun hone => ?_
  rw [if_neg (not_not_intro hone)] at hparse
  exact decidedBy_length hparse hlength

end

theorem firstFailing_of_short (header : Bytes) {size : Nat} (h : size < 9) :
    (firstFailing (blockFileChecks header size)).map (fun check => check.code) =
      some .formatError := by
  have hshort : ¬ 9 ≤ size := by omega
  simp [firstFailing, blockFileChecks, hshort]

/-- Of a sound header the checks allow one length. -/
theorem firstFailing_of_other_length {header : Bytes} {size size' : Nat}
    (h : ∀ check ∈ blockFileChecks header size, check.passes = true) (hsize : 9 ≤ size')
    (hne : size' ≠ size) :
    (firstFailing (blockFileChecks header size')).map (fun check => check.code) =
      some (if size' < size then .truncated else .formatError) := by
  simp only [blockFileChecks, List.forall_mem_cons, decide_eq_true_eq] at h
  obtain ⟨_, hmagic, hzero, hchannels, hroom, hend, _⟩ := h
  simp only [blockFileChecks]
  generalize blockFileSize _ _ = needed at hroom hend ⊢
  split
  next hshorter =>
    have hcut : ¬ needed ≤ size' := by omega
    simp [firstFailing, hsize, hmagic, hzero, hchannels, hcut]
  next hlonger =>
    have hfits : needed ≤ size' := by omega
    have htrailing : ¬ size' ≤ needed := by omega
    simp [firstFailing, hsize, hmagic, hzero, hchannels, hfits, htrailing]

/-- The image that a plane of pixels is written to is read again with the same pixels. -/
theorem parseNetpbm_encodePgm {pixels : Plane UInt8} (hheight : 1 ≤ pixels.height)
    (hheightLe : pixels.height ≤ 65535) (hwidth : 1 ≤ pixels.width)
    (hwidthLe : pixels.width ≤ 65535) :
    ∃ gray : Image, parseNetpbm (encodePgm pixels.width pixels.height pixels.entries.toList) =
        .ok gray ∧ gray.width = pixels.width ∧ gray.height = pixels.height ∧ gray.channels = 1 ∧
      gray.samples = pixels.entries.toList := by
  have hlimit : 65535 < 10 ^ maxNumeralLength := by
    have hfive : 5 ≤ maxNumeralLength := by decide
    exact Nat.lt_of_lt_of_le (by decide) (Nat.pow_le_pow_right (by omega) hfive)
  have hsamples : pixels.entries.toList.length = pixels.width * pixels.height * 1 := by
    rw [Array.length_toList, pixels.size_eq, Nat.mul_one, Nat.mul_comm]
  let gray : Image :=
    ⟨pixels.width, pixels.height, 1, pixels.entries.toList, hsamples⟩
  obtain ⟨text, _, himage, hbytes⟩ := @exists_writtenText gray false rfl hwidth hheight
    (Nat.lt_of_le_of_lt hwidthLe hlimit) (Nat.lt_of_le_of_lt hheightLe hlimit)
  have hread := parseNetpbm_bytes text
  rw [himage, hbytes] at hread
  exact ⟨gray, hread, rfl, rfl, rfl, rfl⟩

theorem exists_decoded_encodeImage {image : Image} (hwidth : 1 ≤ image.width)
    (hwidthLe : image.width ≤ 65535) (hheight : 1 ≤ image.height)
    (hheightLe : image.height ≤ 65535) (hchannels : image.channels = 1 ∨ image.channels = 3) :
    ∃ file pixels, encodeImage image = .ok file ∧
      file.length = blockFileSize image.width image.height ∧
      parseBlockHeader file = .ok ⟨image.width, image.height, 1⟩ ∧
      decodeImage file = .ok pixels ∧ pixels.height = image.height ∧
      pixels.width = image.width :=
  exists_decoded_encodeImageWith hwidth hwidthLe hheight hheightLe hchannels

theorem decodeToPgm_of_decodeImage {file : Bytes} {pixels : Plane UInt8}
    (h : decodeImage file = .ok pixels) :
    decodeToPgm file = .ok (encodePgm pixels.width pixels.height pixels.entries.toList) := by
  rw [decodeToPgm, h]
  rfl

section

variable {blob : Bytes} (hpass : ∀ check ∈ blockFileChecks (blob.take 9) blob.length,
  check.passes = true)

include hpass

theorem decodeImage_take_of_checks {size : Nat} (hsize : size < blob.length) :
    ∃ e, decodeImage (blob.take size) = .error e ∧
      e.code? = some (if size < 9 then .formatError else .truncated) := by
  have hcut := decidedBy_blockFileChecks Float (blob.take size)
  rw [List.length_take_of_le (Nat.le_of_lt hsize)] at hcut
  split
  next hshort => exact hcut.exists_fault (firstFailing_of_short _ hshort)
  next hlong =>
    rw [List.take_take, Nat.min_eq_left (Nat.le_of_not_lt hlong)] at hcut
    have hfound := firstFailing_of_other_length hpass (Nat.le_of_not_lt hlong)
      (Nat.ne_of_lt hsize)
    rw [if_pos hsize] at hfound
    exact hcut.exists_fault hfound

theorem decodeImage_append_of_checks {extra : Bytes} (hextra : extra ≠ []) :
    ∃ e, decodeImage (blob ++ extra) = .error e ∧ e.code? = some .formatError := by
  have hheader : 9 ≤ blob.length := of_decide_eq_true (hpass _ List.mem_cons_self)
  have hlonger : blob.length < (blob ++ extra).length := by
    have := List.length_pos_iff.mpr hextra
    rw [List.length_append]
    omega
  have hmore := decidedBy_blockFileChecks Float (blob ++ extra)
  rw [List.take_append_of_le_length hheader] at hmore
  have hfound := firstFailing_of_other_length hpass (by omega) (Nat.ne_of_gt hlonger)
  rw [if_neg (by omega)] at hfound
  exact hmore.exists_fault hfound

end

/-- The file of an image has the length that its size asks for and is decoded to a gray image of
this size. Any file is decoded or refused by its first bytes and its length. -/
theorem blockFile_format :
    (∀ image : Image, 1 ≤ image.width → image.width ≤ 65535 → 1 ≤ image.height →
      image.height ≤ 65535 → image.channels = 1 ∨ image.channels = 3 →
      ∃ file pixels pgm gray, encodeImage image = .ok file ∧
        file.length = blockFileSize image.width image.height ∧
        parseBlockHeader file = .ok ⟨image.width, image.height, 1⟩ ∧
        decodeImage file = .ok pixels ∧
        pixels.height = image.height ∧ pixels.width = image.width ∧
        decodeToPgm file = .ok pgm ∧ parseNetpbm pgm = .ok gray ∧
        gray.width = image.width ∧ gray.height = image.height ∧ gray.channels = 1 ∧
        gray.samples = pixels.entries.toList) ∧
    ∀ blob, DecidedBy (blockFileChecks (blob.take 9) blob.length) (decodeImage blob) ∧
      ((∃ pixels, decodeImage blob = .ok pixels) →
        (∀ size < blob.length, ∃ e, decodeImage (blob.take size) = .error e ∧
          e.code? = some (if size < 9 then .formatError else .truncated)) ∧
        ∀ extra, extra ≠ [] →
          ∃ e, decodeImage (blob ++ extra) = .error e ∧ e.code? = some .formatError) := by
  refine ⟨fun image hwidth hwidthLe hheight hheightLe hchannels => ?_, fun blob => ?_⟩
  · obtain ⟨file, pixels, hencode, hlength, hparse, hdecode, hrows, hcolumns⟩ :=
      exists_decoded_encodeImage hwidth hwidthLe hheight hheightLe hchannels
    obtain ⟨gray, hgray, hgrayWidth, hgrayHeight, hgrayChannels, hgraySamples⟩ :=
      parseNetpbm_encodePgm (show 1 ≤ pixels.height by omega) (by omega) (by omega) (by omega)
    exact ⟨file, pixels, _, gray, hencode, hlength, hparse, hdecode, hrows, hcolumns,
      decodeToPgm_of_decodeImage hdecode, hgray, hgrayWidth.trans hcolumns,
      hgrayHeight.trans hrows, hgrayChannels, hgraySamples⟩
  · have hdecided := decidedBy_blockFileChecks Float blob
    refine ⟨hdecided, fun hok => ?_⟩
    have hpass := hdecided.1.mp hok
    exact ⟨fun size hsize => decodeImage_take_of_checks hpass hsize,
      fun extra hextra => decodeImage_append_of_checks hpass hextra⟩

/-- A color image whose sides are no multiples of eight, and a file that is cut in its header. -/
theorem blockFile_format_color :
    let image : Image := ⟨9, 17, 3, List.replicate 459 7, by rw [List.length_replicate]⟩
    (1 ≤ image.width ∧ image.width ≤ 65535 ∧ 1 ≤ image.height ∧ image.height ≤ 65535 ∧
      (image.channels = 1 ∨ image.channels = 3)) ∧
    (∃ file pixels, encodeImage image = .ok file ∧ file.length = 777 ∧
      parseBlockHeader file = .ok ⟨9, 17, 1⟩ ∧ decodeImage file = .ok pixels ∧
      pixels.height = 17 ∧ pixels.width = 9) ∧
    DecidedBy (blockFileChecks [0x44, 0x43, 0x54, 0x31, 9, 0] 6)
      (decodeImage [0x44, 0x43, 0x54, 0x31, 9, 0]) := by
  intro image
  have hsides : 1 ≤ image.width ∧ image.width ≤ 65535 ∧ 1 ≤ image.height ∧
      image.height ≤ 65535 ∧ (image.channels = 1 ∨ image.channels = 3) := by decide
  obtain ⟨hwidth, hwidthLe, hheight, hheightLe, hchannels⟩ := hsides
  have hsize : blockFileSize image.width image.height = 777 := by decide
  obtain ⟨file, pixels, _, _, hencode, hlength, hparse, hdecode, hrows, hcolumns, _⟩ :=
    blockFile_format.1 image hwidth hwidthLe hheight hheightLe hchannels
  exact ⟨⟨hwidth, hwidthLe, hheight, hheightLe, hchannels⟩,
    ⟨file, pixels, hencode, hlength.trans hsize, hparse, hdecode, hrows, hcolumns⟩,
    (blockFile_format.2 _).1⟩

end Compression
