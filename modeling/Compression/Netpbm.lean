import Compression.Numerals
import Compression.Quoted

namespace Compression

/-- An image of 8-bit samples. Rows follow each other, and the channels of a pixel. -/
structure Image where
  width : Nat
  height : Nat
  channels : Nat
  samples : Bytes
  length_samples : samples.length = width * height * channels
deriving DecidableEq

/-- Every sample three times. -/
def tripled (samples : Bytes) : Bytes :=
  samples.flatMap fun s => [s, s, s]

theorem length_tripled (samples : Bytes) : (tripled samples).length = samples.length * 3 := by
  induction samples with
  | nil => rfl
  | cons s samples ih =>
    rw [tripled, List.flatMap_cons, List.length_append, List.length_cons, ← tripled, ih]
    simp only [List.length_cons, List.length_nil]
    omega

/-- Every pixel as red, green and blue; a gray one has three equal channels. -/
def Image.toRgb (image : Image) : Image :=
  if h : image.channels = 1 then
    { width := image.width
      height := image.height
      channels := 3
      samples := tripled image.samples
      length_samples := by rw [length_tripled, image.length_samples, h, Nat.mul_one] }
  else image

inductive NetpbmField where
  | width
  | height
  | maxval
deriving DecidableEq

def NetpbmField.name : NetpbmField → String
  | .width => "width"
  | .height => "height"
  | .maxval => "maxval"

inductive NetpbmError where
  | notRaw (magic : Bytes)
  | headerEnd
  | notANumber (field : NetpbmField) (token : Bytes)
  | badSize (width height : Nat)
  | badMaxval (maxval : Nat)
  | noSeparator
  | cutSamples (needed available : Nat)
  /-- A number with more digits than are read or written, in the header or in a report on it. -/
  | numeralTooLong
deriving DecidableEq

def NetpbmError.message : NetpbmError → String
  | .notRaw magic => s!"Not a raw netpbm image (magic {quotedBytes magic})"
  | .headerEnd => "Netpbm header ends early"
  | .notANumber field token => s!"Netpbm {field.name} is not a number: {quotedBytes token}"
  | .badSize width height => s!"Invalid netpbm size {width}x{height}"
  | .badMaxval maxval => s!"Unsupported netpbm maxval {maxval}"
  | .noSeparator => "Missing separator before netpbm samples"
  | .cutSamples needed available =>
    s!"Netpbm samples truncated: need {needed} bytes, have {available}"
  | .numeralTooLong => s!"Exceeds the limit ({maxNumeralLength} digits) for numbers"

/-- Space, tab, line feed, vertical tab, form feed and carriage return. -/
def isBlankByte (b : UInt8) : Bool :=
  b = 0x20 || (0x09 ≤ b && b ≤ 0x0d)

/-- The number sign begins a comment. -/
def isCommentByte (b : UInt8) : Bool :=
  b = 0x23

def isLineEndByte (b : UInt8) : Bool :=
  b = 0x0a || b = 0x0d

def isTokenByte (b : UInt8) : Bool :=
  !isBlankByte b && !isCommentByte b

def isDigitByte (b : UInt8) : Bool :=
  0x30 ≤ b && b ≤ 0x39

/-- Leaves out blanks and comments. A comment runs to the end of its line. -/
def skipBlanks (inComment : Bool) : Bytes → Bytes
  | [] => []
  | b :: rest =>
    if inComment then skipBlanks (!isLineEndByte b) rest
    else if isCommentByte b then skipBlanks true rest
    else if isBlankByte b then skipBlanks false rest
    else b :: rest

/-- The next token of a header and what follows it. -/
def nextToken (data : Bytes) : Except NetpbmError (Bytes × Bytes) :=
  let rest := skipBlanks false data
  let token := rest.takeWhile isTokenByte
  if token.isEmpty then .error .headerEnd else .ok (token, rest.drop token.length)

/-- The number that decimal digits write. -/
def digitsValue (token : Bytes) : Nat :=
  token.foldl (fun n b => 10 * n + (b.toNat - 0x30)) 0

/-- A number of the header and what follows it. -/
def nextNumber (field : NetpbmField) (data : Bytes) : Except NetpbmError (Nat × Bytes) :=
  match nextToken data with
  | .error e => .error e
  | .ok (token, rest) =>
    if !token.all isDigitByte then .error (.notANumber field token)
    else if maxNumeralLength < token.length then .error .numeralTooLong
    else .ok (digitsValue token, rest)

def grayMagic : Bytes := asciiBytes ['P', '5']

def colorMagic : Bytes := asciiBytes ['P', '6']

/-- The channels that a magic number promises. -/
def channelsOf (magic : Bytes) : Option Nat :=
  if magic = grayMagic then some 1 else if magic = colorMagic then some 3 else none

def isNetpbm (blob : Bytes) : Bool :=
  (channelsOf (blob.take 2)).isSome

/-- The samples behind a header: one blank, then as many bytes as the size asks for. -/
def readSamples (width height channels : Nat) (data : Bytes) : Except NetpbmError Image :=
  match data with
  | [] => .error .noSeparator
  | b :: rest =>
    let needed := width * height * channels
    if !isBlankByte b then .error .noSeparator
    else if h : rest.length < needed then
      if 10 ^ maxNumeralLength ≤ needed then .error .numeralTooLong
      else .error (.cutSamples needed rest.length)
    else
      .ok ⟨width, height, channels, rest.take needed, List.length_take_of_le (Nat.le_of_not_lt h)⟩

/-- A raw gray or color image. What follows the samples is left alone. -/
def parseNetpbm (blob : Bytes) : Except NetpbmError Image :=
  let magic := blob.take 2
  match channelsOf magic with
  | none => .error (.notRaw magic)
  | some channels => do
    let (width, rest) ← nextNumber .width (blob.drop 2)
    let (height, rest) ← nextNumber .height rest
    let (maxval, rest) ← nextNumber .maxval rest
    if width = 0 ∨ height = 0 then .error (.badSize width height)
    else if maxval = 0 ∨ 255 < maxval then .error (.badMaxval maxval)
    else readSamples width height channels rest

/-- A number in decimal digits. -/
def digitBytes (n : Nat) : Bytes :=
  asciiBytes (Nat.toDigits 10 n)

/-- A raw image header that says 255 is the greatest sample value. -/
def netpbmHeader (magic : Bytes) (width height : Nat) : Bytes :=
  magic ++ asciiBytes ['\n'] ++ digitBytes width ++ asciiBytes [' '] ++ digitBytes height ++
    asciiBytes ['\n'] ++ digitBytes 255 ++ asciiBytes ['\n']

def encodePgm (width height : Nat) (pixels : Bytes) : Bytes :=
  netpbmHeader grayMagic width height ++ pixels

def encodePpm (width height : Nat) (samples : Bytes) : Bytes :=
  netpbmHeader colorMagic width height ++ samples

end Compression
