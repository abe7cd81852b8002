import Compression.Proofs.BlockFileFormat
import Compression.Proofs.BlockPartition

namespace Compression

/-- A sample of a pixel. Beyond the image all are zero. -/
def Image.sampleAt (image : Image) (y x channel : Nat) : UInt8 :=
  if y < image.height ∧ x < image.width then
    image.samples.getD ((y * image.width + x) * image.channels + channel) 0
  else 0

/-- The part of an image that a block covers, black beyond the image. -/
def Image.tile (image : Image) (row column : Nat) : Image where
  width := 8
  height := 8
  channels := image.channels
  samples := List.ofFn fun i : Fin (8 * 8 * image.channels) =>
    let pixel := i.val / image.channels
    image.sampleAt (8 * row + pixel / 8) (8 * column + pixel % 8) (i.val % image.channels)
  length_samples := List.length_ofFn

@[simp] theorem Image.width_tile (image : Image) (row column : Nat) :
    (image.tile row column).width = 8 := rfl

@[simp] theorem Image.height_tile (image : Image) (row column : Nat) :
    (image.tile row column).height = 8 := rfl

@[simp] theorem Image.channels_tile (image : Image) (row column : Nat) :
    (image.tile row column).channels = image.channels := rfl

/-- The bytes of a block in a file with so many columns of blocks. -/
def blockPayload (columns : Nat) (file : Bytes) (row column : Nat) : Bytes :=
  (file.drop (9 + 128 * (row * columns + column))).take 128

/-- The file of eight by eight pixels that holds one block of a file. -/
def oneBlockFile (columns : Nat) (file : Bytes) (row column : Nat) : Bytes :=
  blockHeaderBytes 8 8 ++ blockPayload columns file row column

theorem Image.sampleAt_tile (image : Image) (row column : Nat) (y x : Fin 8) {channel : Nat}
    (h : channel < image.channels) :
    (image.tile row column).sampleAt y x channel =
      image.sampleAt (8 * row + y) (8 * column + x) channel := by
  have hpixel : 8 * y.val + x.val < 8 * 8 := by omega
  have hlt : (8 * y.val + x.val) * image.channels + channel < 8 * 8 * image.channels :=
    Plane.index_lt hpixel h
  have hdiv : ((8 * y.val + x.val) * image.channels + channel) / image.channels =
      8 * y.val + x.val := by
    rw [Nat.mul_comm, Nat.mul_add_div (by omega), Nat.div_eq_of_lt h, Nat.add_zero]
  have hmod : ((8 * y.val + x.val) * image.channels + channel) % image.channels = channel := by
    rw [Nat.mul_comm, Nat.mul_add_mod, Nat.mod_eq_of_lt h]
  have hrow : (8 * y.val + x.val) / 8 = y.val := by omega
  have hcolumn : (8 * y.val + x.val) % 8 = x.val := by omega
  rw [sampleAt, width_tile, height_tile, channels_tile, if_pos ⟨y.isLt, x.isLt⟩,
    Nat.mul_comm y.val 8, List.getD_eq_getElem?_getD]
  simp only [tile, List.getElem?_ofFn, hlt, dif_pos, Option.getD_some, hdiv, hmod, hrow, hcolumn]

section

variable {α : Type} [TransformArithmetic α]

/-- The brightness of a pixel with these samples. -/
def brightness (channels : Nat) (sample : Nat → UInt8) : α :=
  if channels = 1 then ofInt (sample 0).toNat
  else
    ofInt (sample 0).toNat * (ofInt 299 / ofInt 1000) +
      ofInt (sample 1).toNat * (ofInt 587 / ofInt 1000) +
      ofInt (sample 2).toNat * (ofInt 114 / ofInt 1000)

/-- A pixel has as many samples as there are channels. -/
theorem brightness_congr {channels : Nat} (h : channels = 1 ∨ channels = 3)
    {sample sample' : Nat → UInt8}
    (hsample : ∀ channel < channels, sample channel = sample' channel) :
    (brightness channels sample : α) = brightness channels sample' := by
  obtain rfl | rfl := h
  · simp only [brightness, if_true, hsample 0 (by omega)]
  · simp only [brightness, hsample 0 (by omega), hsample 1 (by omega), hsample 2 (by omega)]

variable {image : Image} {luma : Plane α}

theorem Image.luma_spec (h : image.luma = .ok luma) :
    luma.height = image.height ∧ luma.width = image.width ∧
      ∀ y < image.height, ∀ x < image.width,
        luma.get? y x = some (brightness image.channels (image.sampleAt y x)) := by
  have hsample {y x : Nat} (hy : y < image.height) (hx : x < image.width) (channel : Nat) :
      image.sampleAt y x channel =
        image.samples.toArray.getD ((y * image.width + x) * image.channels + channel) 0 := by
    rw [sampleAt, if_pos ⟨hy, hx⟩]
    simp
  simp only [Image.luma] at h
  split at h
  next hone =>
    cases h
    refine ⟨rfl, rfl, fun y hy x hx => ?_⟩
    rw [Plane.get?_ofFn _ hy hx]
    simp only [brightness, hsample hy hx, hone, if_true, Nat.mul_one, Nat.add_zero]
  next hone =>
    split at h
    next hthree =>
      cases h
      refine ⟨rfl, rfl, fun y hy x hx => ?_⟩
      rw [Plane.get?_ofFn _ hy hx, brightness, if_neg hone]
      simp only [hsample hy hx, hthree, Nat.mul_comm 3, Nat.add_zero]
    next => cases h

/-- If black has no brightness, an image goes on with black in all directions. -/
theorem Image.getD_luma (hblack : brightness image.channels (fun _ => 0) = (ofInt 0 : α))
    (h : image.luma = .ok luma) (y x : Nat) :
    luma.getD y x (ofInt 0) = brightness image.channels (image.sampleAt y x) := by
  obtain ⟨hheight, hwidth, hvalue⟩ := luma_spec h
  by_cases hinside : y < image.height ∧ x < image.width
  · exact Plane.getD_of_get? (hvalue y hinside.1 x hinside.2) _
  · have houtside : luma.get? y x = none := by
      rw [Plane.get?, if_neg (by rwa [hheight, hwidth])]
    have hsamples : image.sampleAt y x = fun _ => 0 := by
      funext channel
      rw [sampleAt, if_neg hinside]
    rw [Plane.getD, houtside, hsamples, hblack]
    rfl

def Image.blockAt (image : Image) (row column : Nat) : Block α :=
  Block.ofFn fun y x => brightness image.channels (image.sampleAt (8 * row + y) (8 * column + x))

theorem Image.get?_blockAt (hblack : brightness image.channels (fun _ => 0) = (ofInt 0 : α))
    (h : image.luma = .ok luma) {row column : Nat} (hrow : row < (image.height + 7) / 8)
    (hcolumn : column < (image.width + 7) / 8) :
    ((luma.padToBlocks (ofInt 0)).splitBlocks (ofInt 0)).get? row column =
      some (image.blockAt row column) := by
  obtain ⟨hheight, hwidth, _⟩ := luma_spec h
  have hrows := luma.height_padToBlocks (ofInt 0)
  have hcolumns := luma.width_padToBlocks (ofInt 0)
  rw [Plane.get?_splitBlocks _ (by omega) (by omega)]
  refine congrArg some (Block.ext_at fun y x => ?_)
  have hvalue := Plane.get?_padToBlocks (ofInt 0 : α) (p := luma) (y := 8 * row + y)
    (x := 8 * column + x) (by omega) (by omega)
  rw [Block.at_ofFn, Plane.getD_of_get? hvalue, getD_luma hblack h, blockAt, Block.at_ofFn]

theorem Image.blockAt_tile (hchannels : image.channels = 1 ∨ image.channels = 3)
    (row column : Nat) :
    (image.tile row column).blockAt 0 0 = (image.blockAt row column : Block α) := by
  refine Block.ext_at fun y x => ?_
  rw [blockAt, blockAt, Block.at_ofFn, Block.at_ofFn, Nat.mul_zero, Nat.zero_add, Nat.zero_add]
  exact brightness_congr hchannels fun channel hlt => image.sampleAt_tile row column y x hlt

/-- Behind its header the file of an image has the image block by block. -/
theorem exists_encoded_blocks
    (hblack : brightness image.channels (fun _ => 0) = (ofInt 0 : α))
    (hwidth : image.width ≤ 65535) (hheight : image.height ≤ 65535)
    (hchannels : image.channels = 1 ∨ image.channels = 3) :
    ∃ blocks : List (Block α), encodeImageWith α image =
        .ok (blockHeaderBytes image.width image.height ++ blocks.flatMap encodeBlock) ∧
      blocks.length = blockCount image.width image.height ∧
      ∀ row < (image.height + 7) / 8, ∀ column < (image.width + 7) / 8,
        blocks[row * ((image.width + 7) / 8) + column]? = some (image.blockAt row column) := by
  obtain ⟨luma, hluma, hlumaHeight, hlumaWidth⟩ := exists_luma (α := α) hchannels
  refine ⟨_, encodeImageWith_of_luma hwidth hheight hluma, ?_, fun row hrow column hcolumn => ?_⟩
  · rw [Array.length_toList, size_splitBlocks_padToBlocks, hlumaHeight, hlumaWidth]
  · have hblock := BlockGrid.getElem?_blocks (Image.get?_blockAt hblack hluma hrow hcolumn)
    rwa [luma.columns_splitBlocks_padToBlocks, hlumaWidth] at hblock

theorem blockPayload_encoded {width height columns row column : Nat} {blocks : List (Block α)}
    {block : Block α} (h : blocks[row * columns + column]? = some block) :
    blockPayload columns (blockHeaderBytes width height ++ blocks.flatMap encodeBlock) row column =
      encodeBlock block := by
  have hheader := length_blockHeaderBytes width height
  have hrun := take_drop_flatMap (fun b _ => length_encodeBlock b) h
  rw [blockPayload, ← hheader, List.drop_length_add_append, hrun]

theorem oneBlockFile_encoded {width height columns row column : Nat} {blocks : List (Block α)}
    {block : Block α} (h : blocks[row * columns + column]? = some block) :
    oneBlockFile columns (blockHeaderBytes width height ++ blocks.flatMap encodeBlock) row column =
      blockHeaderBytes 8 8 ++ encodeBlock block := by
  rw [oneBlockFile, blockPayload_encoded h]

theorem encodeImageWith_tile
    (hblack : brightness image.channels (fun _ => 0) = (ofInt 0 : α))
    (hwidth : image.width ≤ 65535) (hheight : image.height ≤ 65535)
    (hchannels : image.channels = 1 ∨ image.channels = 3) {file : Bytes}
    (hfile : encodeImageWith α image = .ok file) {row column : Nat}
    (hrow : row < (image.height + 7) / 8) (hcolumn : column < (image.width + 7) / 8) :
    encodeImageWith α (image.tile row column) =
      .ok (oneBlockFile ((image.width + 7) / 8) file row column) := by
  obtain ⟨blocks, hencode, _, hblocks⟩ := exists_encoded_blocks hblack hwidth hheight hchannels
  have hside : 8 ≤ 65535 := by decide
  obtain ⟨blocks', htile, hone, hblocks'⟩ :=
    @exists_encoded_blocks α _ (image.tile row column) hblack hside hside hchannels
  rw [Image.width_tile, Image.height_tile] at htile hone hblocks'
  have hcount : blockCount 8 8 = 1 := by decide
  -- The tile is one block, and this is the block of the image.
  obtain ⟨block, rfl⟩ := List.length_eq_one_iff.mp (hone.trans hcount)
  have hblock := hblocks' 0 (by omega) 0 (by omega)
  obtain rfl : block = (image.tile row column).blockAt 0 0 := Option.some.inj hblock
  obtain rfl := Except.ok.inj (hencode.symm.trans hfile)
  rw [htile, oneBlockFile_encoded (hblocks row hrow column hcolumn), List.flatMap_singleton,
    Image.blockAt_tile hchannels]

end

/-- The coefficients that the bytes of a block tell, in whole steps. -/
def payloadSteps (payload : Bytes) : Block Int :=
  Block.ofFn fun y x => int16Value ((payload.drop (2 * (8 * y.val + x.val))).take 2)

theorem length_of_int16Values {count : Nat} {data : Bytes} {values : Vector Int count}
    (h : int16Values? count data = some values) : 2 * count ≤ data.length := by
  simp only [int16Values?] at h
  split at h
  next hroom => rwa [List.size_toArray] at hroom
  next => cases h

theorem getElem_int16Values {count : Nat} {data : Bytes} {values : Vector Int count}
    (h : int16Values? count data = some values) {i : Nat} (hi : i < count) :
    values[i] = int16Value ((data.drop (2 * i)).take 2) := by
  have hroom := length_of_int16Values h
  simp only [int16Values?] at h
  split at h
  next =>
    cases h
    have hlow : 2 * i < data.length := by omega
    have hhigh : 2 * i + 1 < data.length := by omega
    have htwo : (data.drop (2 * i)).take 2 = [data[2 * i], data[2 * i + 1]] := by
      rw [List.drop_eq_getElem_cons hlow, List.drop_eq_getElem_cons hhigh]
      rfl
    rw [Vector.getElem_ofFn, htwo]
    rfl
  next => cases h

theorem get?_stepGrid {rows columns : Nat} {data : Bytes}
    {steps : Vector Int (64 * (rows * columns))}
    (h : int16Values? (64 * (rows * columns)) data = some steps) {row column : Nat}
    (hrow : row < rows) (hcolumn : column < columns) :
    (stepGrid rows columns steps).get? row column =
      some (payloadSteps ((data.drop (128 * (row * columns + column))).take 128)) := by
  have hk : row * columns + column < rows * columns := Plane.index_lt hrow hcolumn
  rw [BlockGrid.get?, if_pos ⟨hrow, hcolumn⟩]
  simp only [stepGrid, Array.getElem?_ofFn, hk, dif_pos]
  refine congrArg some (Block.ext_at fun y x => ?_)
  have hi : 8 * y.val + x.val < 64 := by omega
  have htwo : min 2 (128 - 2 * (8 * y.val + x.val)) = 2 := by omega
  have hplace : 2 * (64 * (row * columns + column) + (8 * y.val + x.val)) =
      128 * (row * columns + column) + 2 * (8 * y.val + x.val) := by omega
  rw [payloadSteps, Block.at_ofFn, List.drop_take, List.drop_drop, List.take_take, htwo]
  simp only [Block.at, Vector.getElem_ofFn]
  rw [getElem_int16Values h, hplace]

section

variable {α : Type} [TransformArithmetic α] {blob : Bytes} {pixels : Plane UInt8}

theorem exists_decoded_steps (h : decodeImageWith α blob = .ok pixels) :
    ∃ (rows columns : Nat) (steps : Vector Int (64 * (rows * columns))),
      rows = (pixels.height + 7) / 8 ∧ columns = (pixels.width + 7) / 8 ∧
      int16Values? (64 * (rows * columns)) (blob.drop 9) = some steps ∧
      pixels = ((((stepGrid rows columns steps).map (decodeBlock (α := α))).merge (ofInt 0)).crop
        (ofInt 0) pixels.height pixels.width).map pixelOf := by
  unfold decodeImageWith at h
  cases hparse : parseBlockHeader blob with
  | error e => simp only [hparse] at h; cases h
  | ok header =>
    simp only [hparse] at h
    split at h
    next => cases h
    next =>
      split at h
      next => cases h
      next =>
        split at h
        next => cases h
        next steps hsteps =>
          cases h
          exact ⟨header.rows, header.columns, steps, toNat_blocksAcross header.height,
            toNat_blocksAcross header.width, hsteps, rfl⟩

/-- A pixel of a file comes from the bytes of its block alone. -/
theorem get?_decodeImageWith (h : decodeImageWith α blob = .ok pixels) {row column : Nat}
    (hrow : row < (pixels.height + 7) / 8) (hcolumn : column < (pixels.width + 7) / 8) (y x : Fin 8)
    (hy : 8 * row + y < pixels.height) (hx : 8 * column + x < pixels.width) :
    pixels.get? (8 * row + y) (8 * column + x) =
      some (pixelOf ((decodeBlock (payloadSteps
        (blockPayload ((pixels.width + 7) / 8) blob row column)) : Block α).at y x)) := by
  obtain ⟨rows, columns, steps, rfl, rfl, hsteps, hpixels⟩ := exists_decoded_steps h
  let grid := (stepGrid _ _ steps).map (decodeBlock (α := α))
  have hblock : grid.get? row column = some (decodeBlock (payloadSteps
      (blockPayload ((pixels.width + 7) / 8) blob row column))) := by
    rw [BlockGrid.get?_map, get?_stepGrid hsteps hrow hcolumn, List.drop_drop]
    rfl
  have hvalue := BlockGrid.get?_merge (ofInt 0) hrow hcolumn hblock y x
  calc
    _ = (((grid.merge (ofInt 0)).crop (ofInt 0) pixels.height pixels.width).map pixelOf).get?
        (8 * row + y) (8 * column + x) := by rw [← hpixels]
    _ = _ := by
      rw [Plane.get?_map, Plane.crop, Plane.get?_ofFn _ hy hx, Option.map_some,
        Plane.getD_of_get? hvalue]

theorem length_blockPayload (h : decodeImageWith α blob = .ok pixels) {row column : Nat}
    (hrow : row < (pixels.height + 7) / 8) (hcolumn : column < (pixels.width + 7) / 8) :
    (blockPayload ((pixels.width + 7) / 8) blob row column).length = 128 := by
  obtain ⟨rows, columns, steps, rfl, rfl, hsteps, _⟩ := exists_decoded_steps h
  have hk := Plane.index_lt hrow hcolumn
  have hroom := length_of_int16Values hsteps
  rw [List.length_drop] at hroom
  rw [blockPayload, List.length_take, List.length_drop]
  omega

theorem blockPayload_oneBlockFile {columns row column : Nat}
    (h : (blockPayload columns blob row column).length = 128) :
    blockPayload 1 (oneBlockFile columns blob row column) 0 0 =
      blockPayload columns blob row column := by
  have hheader := length_blockHeaderBytes 8 8
  rw [blockPayload.eq_1 1, oneBlockFile, List.drop_left' hheader]
  exact List.take_of_length_le (Nat.le_of_eq h)

theorem exists_decoded_tile (h : decodeImageWith α blob = .ok pixels) {row column : Nat}
    (hrow : row < (pixels.height + 7) / 8) (hcolumn : column < (pixels.width + 7) / 8) :
    ∃ tile, decodeImageWith α (oneBlockFile ((pixels.width + 7) / 8) blob row column) = .ok tile ∧
      tile.height = 8 ∧ tile.width = 8 ∧
      ∀ y x : Fin 8, 8 * row + y < pixels.height → 8 * column + x < pixels.width →
        pixels.get? (8 * row + y) (8 * column + x) = tile.get? y x := by
  have hpayload := length_blockPayload h hrow hcolumn
  have hlength : (oneBlockFile ((pixels.width + 7) / 8) blob row column).length =
      blockFileSize 8 8 := by
    rw [oneBlockFile, List.length_append, length_blockHeaderBytes, hpayload]
    rfl
  have hparse : parseBlockHeader (oneBlockFile ((pixels.width + 7) / 8) blob row column) =
      .ok ⟨8, 8, 1⟩ :=
    parseBlockHeader_of_fields rfl (by omega) (by omega) (by omega) (by omega)
  obtain ⟨tile, htile, (hheight : tile.height = 8), (hwidth : tile.width = 8)⟩ :=
    exists_pixels (α := α) hparse hlength
  refine ⟨tile, htile, hheight, hwidth, fun y x hy hx => ?_⟩
  have hone : (tile.width + 7) / 8 = 1 := by omega
  have hrowZero : 0 < (tile.height + 7) / 8 := by omega
  -- Alone in its file the block has the same bytes, and so the same pixels.
  have hvalue := get?_decodeImageWith htile hrowZero (hone ▸ Nat.one_pos) y x (by omega) (by omega)
  rw [hone, blockPayload_oneBlockFile hpayload, Nat.mul_zero, Nat.zero_add, Nat.zero_add] at hvalue
  rw [hvalue]
  exact get?_decodeImageWith h hrow hcolumn y x hy hx

end

/-- With doubles, black has no brightness. -/
theorem brightness_black {channels : Nat} (h : channels = 1 ∨ channels = 3) :
    (brightness channels (fun _ => 0) : Float) = ofInt 0 := by
  obtain rfl | rfl := h
  · rfl
  · decide

/-- Every block of a file is that of the part of the image under it, and is decoded as if it were
alone in its file. The blocks stand row by row. -/
theorem blocks_independent :
    (∀ image : Image, image.width ≤ 65535 → image.height ≤ 65535 →
      image.channels = 1 ∨ image.channels = 3 →
      ∃ file, encodeImage image = .ok file ∧
        ∀ row < (image.height + 7) / 8, ∀ column < (image.width + 7) / 8,
          encodeImage (image.tile row column) =
            .ok (oneBlockFile ((image.width + 7) / 8) file row column)) ∧
    ∀ blob pixels, decodeImage blob = .ok pixels →
      ∀ row < (pixels.height + 7) / 8, ∀ column < (pixels.width + 7) / 8,
        ∃ tile, decodeImage (oneBlockFile ((pixels.width + 7) / 8) blob row column) = .ok tile ∧
          tile.height = 8 ∧ tile.width = 8 ∧
          ∀ y x : Fin 8, 8 * row + y < pixels.height → 8 * column + x < pixels.width →
            pixels.get? (8 * row + y) (8 * column + x) = tile.get? y x := by
  refine ⟨fun image hwidth hheight hchannels => ?_, fun blob pixels h row hrow column hcolumn => ?_⟩
  · have hblack := brightness_black hchannels
    obtain ⟨blocks, hencode, _⟩ := exists_encoded_blocks hblack hwidth hheight hchannels
    refine ⟨_, hencode, fun row hrow column hcolumn => ?_⟩
    exact encodeImageWith_tile hblack hwidth hheight hchannels hencode hrow hcolumn
  · exact exists_decoded_tile h hrow hcolumn

/-- The last block of a color image, of which only one pixel is in the image. -/
theorem blocks_independent_color :
    ∃ file, encodeImage ⟨9, 17, 3, List.replicate 459 7, List.length_replicate⟩ = .ok file ∧
      encodeImage (Image.tile ⟨9, 17, 3, List.replicate 459 7, List.length_replicate⟩ 2 1) =
        .ok (oneBlockFile 2 file 2 1) ∧
      ∃ pixels tile, decodeImage file = .ok pixels ∧
        decodeImage (oneBlockFile 2 file 2 1) = .ok tile ∧
        pixels.get? 16 8 = tile.get? 0 0 := by
  let image : Image := ⟨9, 17, 3, List.replicate 459 7, List.length_replicate⟩
  have hchannels : image.channels = 1 ∨ image.channels = 3 := .inr rfl
  obtain ⟨file, hfile, htiles⟩ := blocks_independent.1 image (by decide) (by decide) hchannels
  obtain ⟨file', pixels, hfile', _, _, hpixels, hheight, hwidth⟩ :=
    @exists_decoded_encodeImage image (by decide) (by decide) (by decide) (by decide) hchannels
  obtain rfl : file' = file := Except.ok.inj (hfile'.symm.trans hfile)
  have hcolumns : (image.width + 7) / 8 = 2 := by decide
  rw [hcolumns] at htiles
  have hpixelsHeight : pixels.height = 17 := hheight
  have hpixelsWidth : pixels.width = 9 := hwidth
  obtain ⟨tile, htile, _, _, hvalues⟩ :=
    blocks_independent.2 file' pixels hpixels 2 (by omega) 1 (by omega)
  rw [hpixelsWidth] at htile
  exact ⟨file', hfile, htiles 2 (by decide) 1 (by decide), pixels, tile, hpixels, htile,
    hvalues 0 0 (by omega) (by omega)⟩

end Compression
