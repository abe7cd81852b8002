import Compression.ErrorCode
import Compression.Failure
import Compression.Proofs.FieldBytes

namespace Compression

/-- How many blocks cover a size. -/
def blockCount (width height : Nat) : Nat :=
  (width + 7) / 8 * ((height + 7) / 8)

/-- The length of a file: the header, and two bytes for each place of each block. -/
def blockFileSize (width height : Nat) : Nat :=
  9 + 128 * blockCount width height

/-- The header of a file whose sides fit their fields. -/
def blockHeaderBytes (width height : Nat) : Bytes :=
  blockMagic ++ littleEndian 2 width ++ littleEndian 2 height ++ [1]

theorem toNat_blocksAcross (length : Nat) : (blocksAcross length).toNat = (length + 7) / 8 := by
  have hfloor : Int.fdiv (-(length : Int)) blockSide = -(length : Int) / 8 :=
    Int.fdiv_eq_ediv_of_nonneg _ (by decide)
  rw [blocksAcross, hfloor]
  omega

theorem BlockImageHeader.rows_mul_columns (header : BlockImageHeader) :
    header.rows * header.columns = blockCount header.width header.height := by
  rw [rows, columns, toNat_blocksAcross, toNat_blocksAcross, blockCount, Nat.mul_comm]

theorem blockHeader_eq {width height : Nat} (hwidth : width ≤ 65535) (hheight : height ≤ 65535) :
    blockHeader width height = some (blockHeaderBytes width height) := by
  have hwidthField : field? 2 width = some (littleEndian 2 width) := field?_natCast (by omega)
  have hheightField : field? 2 height = some (littleEndian 2 height) := field?_natCast (by omega)
  rw [blockHeader, hwidthField, hheightField]
  rfl

theorem length_blockHeaderBytes (width height : Nat) :
    (blockHeaderBytes width height).length = 9 := by
  simp [blockHeaderBytes, blockMagic, asciiBytes]

/-- The fields of a header, read where they stand. -/
theorem parseBlockHeader_of_fields {blob : Bytes} {width height : Nat} {rest : Bytes}
    (hblob : blob = blockHeaderBytes width height ++ rest) (hwidth : 1 ≤ width)
    (hwidthLe : width ≤ 65535) (hheight : 1 ≤ height) (hheightLe : height ≤ 65535) :
    parseBlockHeader blob = .ok ⟨width, height, 1⟩ := by
  have hlength : ¬ blob.length < blockHeaderSize := by
    rw [hblob, List.length_append, length_blockHeaderBytes, blockHeaderSize]
    omega
  have hmagic : blob.take 4 = blockMagic := by
    rw [hblob, blockHeaderBytes, List.append_assoc, List.append_assoc, List.append_assoc]
    exact List.take_left' rfl
  have hafterMagic : blob.drop 4 =
      littleEndian 2 width ++ (littleEndian 2 height ++ ([1] ++ rest)) := by
    rw [hblob, blockHeaderBytes, List.append_assoc, List.append_assoc, List.append_assoc]
    exact List.drop_left' rfl
  have hafterWidth : blob.drop 6 = littleEndian 2 height ++ ([1] ++ rest) := by
    have hdrop := drop_littleEndian 2 width (littleEndian 2 height ++ ([1] ++ rest))
    rwa [← hafterMagic, List.drop_drop] at hdrop
  have hafterHeight : blob.drop 8 = [1] ++ rest := by
    have hdrop := drop_littleEndian 2 height ([1] ++ rest)
    rwa [← hafterWidth, List.drop_drop] at hdrop
  have hwidthValue : littleEndianValue ((blob.drop 4).take 2) = width := by
    rw [hafterMagic, littleEndianValue_take (by omega)]
  have hheightValue : littleEndianValue ((blob.drop 6).take 2) = height := by
    rw [hafterWidth, littleEndianValue_take (by omega)]
  have hchannels : littleEndianValue ((blob.drop 8).take 1) = 1 := by
    rw [hafterHeight]
    rfl
  simp only [parseBlockHeader, hwidthValue, hheightValue, hchannels, hmagic]
  rw [if_neg hlength, if_neg (by simp), if_neg (by omega), if_neg (by simp)]

theorem length_flatMap_of_length {α β : Type} {f : α → List β} {size : Nat} {xs : List α}
    (h : ∀ x ∈ xs, (f x).length = size) : (xs.flatMap f).length = size * xs.length := by
  induction xs with
  | nil => rfl
  | cons x xs ih =>
    have hrest := ih fun y hy => h y (List.mem_cons_of_mem x hy)
    rw [List.flatMap_cons, List.length_append, h x List.mem_cons_self, hrest, List.length_cons,
      Nat.mul_succ, Nat.add_comm]

/-- Of runs of one length the `k`-th begins behind `k` of them. -/
theorem take_drop_flatMap {α β : Type} {f : α → List β} {size : Nat} {xs : List α}
    (h : ∀ x ∈ xs, (f x).length = size) {k : Nat} {x : α} (hx : xs[k]? = some x) :
    ((xs.flatMap f).drop (size * k)).take size = f x := by
  induction xs generalizing k with
  | nil => cases hx
  | cons first xs ih =>
    have hfirst := h first List.mem_cons_self
    cases k with
    | zero =>
      obtain rfl := Option.some.inj hx
      rw [Nat.mul_zero, List.drop_zero, List.flatMap_cons]
      exact List.take_left' hfirst
    | succ k =>
      have hplace : size * (k + 1) = (f first).length + size * k := by
        rw [hfirst, Nat.mul_succ, Nat.add_comm]
      rw [hplace, List.flatMap_cons, List.drop_length_add_append]
      exact ih (fun y hy => h y (List.mem_cons_of_mem first hy)) hx

theorem size_splitBlocks_padToBlocks {α : Type} (zero : α) (plane : Plane α) :
    ((plane.padToBlocks zero).splitBlocks zero).blocks.size =
      blockCount plane.width plane.height := by
  rw [BlockGrid.size_eq]
  have hrows : blockSide * ((plane.height + 7) / 8) / blockSide = (plane.height + 7) / 8 :=
    Nat.mul_div_cancel_left _ (by decide)
  have hcolumns : blockSide * ((plane.width + 7) / 8) / blockSide = (plane.width + 7) / 8 :=
    Nat.mul_div_cancel_left _ (by decide)
  simp only [Plane.splitBlocks, Plane.padToBlocks, Plane.ofFn, BlockGrid.ofFn, toNat_blocksAcross,
    hrows, hcolumns, blockCount]
  exact Nat.mul_comm _ _

section

variable {α : Type} [TransformArithmetic α]

theorem length_encodeBlock (block : Block α) : (encodeBlock block).length = 128 := by
  have htwo : ∀ n ∈ (quantize (forwardTransform block)).toList, (int16Bytes n).length = 2 :=
    fun n _ => length_littleEndian 2 _
  rw [encodeBlock, length_flatMap_of_length htwo, Block.toList, Vector.length_toList]

theorem exists_luma {image : Image} (h : image.channels = 1 ∨ image.channels = 3) :
    ∃ luma : Plane α, image.luma = .ok luma ∧ luma.height = image.height ∧
      luma.width = image.width := by
  rw [Image.luma]
  obtain hone | hthree := h
  · rw [if_pos hone]
    exact ⟨_, rfl, rfl, rfl⟩
  · rw [if_neg (by omega), if_pos hthree]
    exact ⟨_, rfl, rfl, rfl⟩

theorem encodeImageWith_of_luma {image : Image} (hwidth : image.width ≤ 65535)
    (hheight : image.height ≤ 65535) {luma : Plane α} (hluma : image.luma = .ok luma) :
    encodeImageWith α image = .ok (blockHeaderBytes image.width image.height ++
      ((luma.padToBlocks (ofInt 0)).splitBlocks (ofInt 0)).blocks.toList.flatMap encodeBlock) := by
  have hheader := blockHeader_eq hwidth hheight
  -- The header is taken out of sight, so that none of its bytes are worked out.
  generalize blockHeaderBytes image.width image.height = header at hheader ⊢
  unfold encodeImageWith
  rw [if_neg (by omega), hluma, hheader]

/-- The file of an image: its header, and behind it 128 bytes for each block. -/
theorem encodeImageWith_eq {image : Image} (hwidth : image.width ≤ 65535)
    (hheight : image.height ≤ 65535) (hchannels : image.channels = 1 ∨ image.channels = 3) :
    ∃ blocks, encodeImageWith α image =
        .ok (blockHeaderBytes image.width image.height ++ blocks) ∧
      blocks.length = 128 * blockCount image.width image.height := by
  obtain ⟨luma, hluma, hlumaHeight, hlumaWidth⟩ := exists_luma (α := α) hchannels
  refine ⟨_, encodeImageWith_of_luma hwidth hheight hluma, ?_⟩
  rw [length_flatMap_of_length fun block _ => length_encodeBlock block, Array.length_toList,
    size_splitBlocks_padToBlocks, hlumaHeight, hlumaWidth]

theorem exists_int16Values? {count : Nat} {data : Bytes} (h : 2 * count ≤ data.length) :
    ∃ values, int16Values? count data = some values :=
  ⟨_, dif_pos (by rwa [List.size_toArray])⟩

/-- A file of the right length has all its coefficients, and gives as many pixels as it says. -/
theorem exists_pixels {blob : Bytes} {header : BlockImageHeader}
    (hparse : parseBlockHeader blob = .ok header)
    (hlength : blob.length = blockFileSize header.width header.height) :
    ∃ pixels, decodeImageWith α blob = .ok pixels ∧ pixels.height = header.height ∧
      pixels.width = header.width := by
  have htotal := header.rows_mul_columns
  have hroom : 2 * (64 * (header.rows * header.columns)) ≤ (blob.drop blockHeaderSize).length := by
    rw [List.length_drop, hlength, htotal, blockFileSize, blockHeaderSize]
    omega
  obtain ⟨steps, hsteps⟩ := exists_int16Values? hroom
  have havailable : blob.length - blockHeaderSize = header.rows * header.columns * blockBytes := by
    rw [hlength, htotal, blockFileSize, blockHeaderSize, blockBytes]
    omega
  simp only [decodeImageWith, hparse, hsteps, havailable, Nat.lt_irrefl, if_false]
  exact ⟨_, rfl, rfl, rfl⟩

/-- The file of an image has the length that its header asks for, and so can be decoded. -/
theorem exists_decoded_encodeImageWith {image : Image} (hwidth : 1 ≤ image.width)
    (hwidthLe : image.width ≤ 65535) (hheight : 1 ≤ image.height)
    (hheightLe : image.height ≤ 65535) (hchannels : image.channels = 1 ∨ image.channels = 3) :
    ∃ file pixels, encodeImageWith α image = .ok file ∧
      file.length = blockFileSize image.width image.height ∧
      parseBlockHeader file = .ok ⟨image.width, image.height, 1⟩ ∧
      decodeImageWith α file = .ok pixels ∧ pixels.height = image.height ∧
      pixels.width = image.width := by
  obtain ⟨blocks, hencode, hblocks⟩ := encodeImageWith_eq (α := α) hwidthLe hheightLe hchannels
  have hparse : parseBlockHeader (blockHeaderBytes image.width image.height ++ blocks) =
      .ok ⟨image.width, image.height, 1⟩ :=
    parseBlockHeader_of_fields rfl hwidth hwidthLe hheight hheightLe
  have hlength : (blockHeaderBytes image.width image.height ++ blocks).length =
      blockFileSize image.width image.height := by
    rw [List.length_append, length_blockHeaderBytes, hblocks, blockFileSize]
  obtain ⟨pixels, hpixels, hrows, hcolumns⟩ := exists_pixels (α := α) hparse hlength
  exact ⟨_, pixels, hencode, hlength, hparse, hpixels, hrows, hcolumns⟩

end

end Compression
