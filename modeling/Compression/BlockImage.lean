import Compression.BlockTransform
import Compression.Netpbm

namespace Compression

inductive BlockImageError where
  | noLuma (channels : Nat)
  | tooLarge (width height : Nat)
  | short (available : Nat)
  | badMagic (found : Bytes)
  | badSize (width height : Nat)
  | manyChannels (channels : Nat)
  | cutBlocks (present total : Nat)
  | trailing (extra : Nat)
  /-- A side of the image does not fit its field. -/
  | unencodable
  /-- The file ends before its last coefficient. -/
  | undecodable
deriving DecidableEq

/-- Length of the header. -/
def blockHeaderSize : Nat := 9

/-- Length of a block in a file. -/
def blockBytes : Nat := 128

def BlockImageError.message : BlockImageError → String
  | .noLuma channels => s!"Cannot take luma of a {channels}-channel image"
  | .tooLarge width height => s!"Image {width}x{height} exceeds 65535 in a dimension"
  | .short available => s!"DCT header needs {blockHeaderSize} bytes, got {available}"
  | .badMagic found => s!"Bad DCT magic {quotedBytes found}"
  | .badSize width height => s!"Invalid DCT image size {width}x{height}"
  | .manyChannels channels => s!"Only single-channel DCT files are supported, got {channels}"
  | .cutBlocks present total =>
    s!"Coefficient stream truncated: {present} of {total} blocks present"
  | .trailing extra => s!"{extra} unexpected bytes after the last block"
  | .unencodable => "No room for the size of the image"
  | .undecodable => "No bytes for a coefficient"

/-- The brightness of every pixel: its only channel, or a weighted sum of three. -/
def Image.luma {α : Type} [TransformArithmetic α] (image : Image) :
    Except BlockImageError (Plane α) :=
  let samples := image.samples.toArray
  let sample := fun i => ofInt (samples.getD i 0).toNat
  if image.channels = 1 then
    .ok (Plane.ofFn image.height image.width fun y x => sample (y * image.width + x))
  else if image.channels = 3 then
    .ok (Plane.ofFn image.height image.width fun y x =>
      let i := 3 * (y * image.width + x)
      sample i * (ofInt 299 / ofInt 1000) + sample (i + 1) * (ofInt 587 / ofInt 1000) +
        sample (i + 2) * (ofInt 114 / ofInt 1000))
  else .error (.noLuma image.channels)

def blockMagic : Bytes := asciiBytes ['D', 'C', 'T', '1']

/-- A number of 16 bits with sign, the low byte first; a negative one counts from `2 ^ 16`. -/
def int16Bytes (n : Int) : Bytes :=
  littleEndian 2 (n % 65536).toNat

def int16Value (bytes : Bytes) : Int :=
  let n : Int := littleEndianValue bytes
  if n < 32768 then n else n - 65536

/-- What a file holds of a block of samples. -/
def encodeBlock {α : Type} [TransformArithmetic α] (block : Block α) : Bytes :=
  (quantize (forwardTransform block)).toList.flatMap int16Bytes

/-- The header of a file. There is none if a side does not fit its field. -/
def blockHeader (width height : Nat) : Option Bytes := do
  let widthField ← field? 2 width
  let heightField ← field? 2 height
  return blockMagic ++ widthField ++ heightField ++ [1]

/-- The image as a file: a header, then its blocks row by row. -/
def encodeImageWith (α : Type) [TransformArithmetic α] (image : Image) :
    Except BlockImageError Bytes :=
  if 65535 < image.width ∨ 65535 < image.height then
    .error (.tooLarge image.width image.height)
  else
    match image.luma (α := α) with
    | .error e => .error e
    | .ok luma =>
      let zero : α := ofInt 0
      let grid := (luma.padToBlocks zero).splitBlocks zero
      match blockHeader image.width image.height with
      | none => .error .unencodable
      | some header => .ok (header ++ grid.blocks.toList.flatMap encodeBlock)

/-- The image as a file, computed with doubles. -/
def encodeImage (image : Image) : Except BlockImageError Bytes :=
  encodeImageWith Float image

structure BlockImageHeader where
  width : Nat
  height : Nat
  channels : Nat

/-- The header of a file. Its faults are looked for in the order of the fields. -/
def parseBlockHeader (blob : Bytes) : Except BlockImageError BlockImageHeader :=
  let magic := blob.take 4
  let width := littleEndianValue ((blob.drop 4).take 2)
  let height := littleEndianValue ((blob.drop 6).take 2)
  let channels := littleEndianValue ((blob.drop 8).take 1)
  if blob.length < blockHeaderSize then .error (.short blob.length)
  else if magic ≠ blockMagic then .error (.badMagic magic)
  else if width = 0 ∨ height = 0 then .error (.badSize width height)
  else if channels ≠ 1 then .error (.manyChannels channels)
  else .ok ⟨width, height, channels⟩

def BlockImageHeader.rows (h : BlockImageHeader) : Nat :=
  (blocksAcross h.height).toNat

def BlockImageHeader.columns (h : BlockImageHeader) : Nat :=
  (blocksAcross h.width).toNat

/-- The numbers of 16 bits at the beginning of a run of bytes, unless it ends before `count` of
them. -/
def int16Values? (count : Nat) (data : Bytes) : Option (Vector Int count) :=
  let bytes := data.toArray
  if h : 2 * count ≤ bytes.size then
    some (Vector.ofFn fun i : Fin count => int16Value [bytes[2 * i.val], bytes[2 * i.val + 1]])
  else none

/-- Coefficients in whole steps, block by block. -/
def stepGrid (rows columns : Nat) (steps : Vector Int (64 * (rows * columns))) : BlockGrid Int where
  rows := rows
  columns := columns
  blocks := Array.ofFn fun k : Fin (rows * columns) =>
    ⟨Vector.ofFn fun i : Fin 64 => steps[64 * k.val + i.val]⟩
  size_eq := by simp

/-- The samples of a block, not yet rounded. -/
def decodeBlock {α : Type} [TransformArithmetic α] (steps : Block Int) : Block α :=
  inverseTransform (dequantize steps)

/-- The sample nearest to a brightness, which is first brought between 0 and 255. -/
def pixelOf {α : Type} [TransformArithmetic α] (brightness : α) : UInt8 :=
  UInt8.ofNat (TransformArithmetic.nearest (max (ofInt 0) (min (ofInt 255) brightness))).toNat

/-- The pixels of a file. Its length has to be what the header asks for. -/
def decodeImageWith (α : Type) [TransformArithmetic α] (blob : Bytes) :
    Except BlockImageError (Plane UInt8) :=
  match parseBlockHeader blob with
  | .error e => .error e
  | .ok header =>
    let total := header.rows * header.columns
    let available := blob.length - blockHeaderSize
    if available < total * blockBytes then .error (.cutBlocks (available / blockBytes) total)
    else if total * blockBytes < available then .error (.trailing (available - total * blockBytes))
    else
      match int16Values? (64 * total) (blob.drop blockHeaderSize) with
      | none => .error .undecodable
      | some steps =>
        let zero : α := ofInt 0
        let grid := (stepGrid header.rows header.columns steps).map (decodeBlock (α := α))
        .ok (((grid.merge zero).crop zero header.height header.width).map pixelOf)

/-- The pixels of a file, computed with doubles. -/
def decodeImage (blob : Bytes) : Except BlockImageError (Plane UInt8) :=
  decodeImageWith Float blob

/-- The pixels of a file as a raw gray image. -/
def decodeToPgm (blob : Bytes) : Except BlockImageError Bytes :=
  (decodeImage blob).map fun p => encodePgm p.width p.height p.entries.toList

end Compression
