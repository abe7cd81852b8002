import Compression.Histogram
import Compression.Quoted

namespace Compression

/-- What a compressed file says before its code words: the length of the text, and how often
each symbol occurs in it. -/
structure HuffmanHeader where
  size : Nat
  histogram : Histogram

def huffmanMagic : Bytes := asciiBytes ['H', 'U', 'F', '1']

/-- Length of the part in front of the entries. -/
def huffmanFixedSize : Nat := 10

/-- Length of one entry: a symbol and its frequency. -/
def huffmanEntrySize : Nat := 5

inductive HuffmanHeader.Error where
  | short (available : Nat)
  | badMagic (found : Bytes)
  | tooManySymbols (count : Nat)
  | cutHistogram (count available : Nat)
  | duplicateSymbol (symbol : Int)
  | zeroFrequency (symbol : Int)
  | emptyHistogram (size : Nat)

def HuffmanHeader.Error.message : HuffmanHeader.Error → String
  | .short available => s!"Huffman header needs {huffmanFixedSize} bytes, got {available}"
  | .badMagic found => s!"Bad Huffman magic {quotedBytes found}"
  | .tooManySymbols count => s!"Symbol count {count} exceeds 256"
  | .cutHistogram count available =>
    s!"Histogram truncated: need {count} entries, have {available}"
  | .duplicateSymbol symbol => s!"Duplicate symbol {symbol} in histogram"
  | .zeroFrequency symbol => s!"Zero frequency for symbol {symbol}"
  | .emptyHistogram size => s!"Original size {size} with an empty histogram"

def packEntry (entry : Int × Int) : Option Bytes := do
  let symbol ← field? 1 entry.1
  let frequency ← field? 4 entry.2
  return symbol ++ frequency

/-- The header in bytes, entries in ascending order of their symbols. There is none if a number
does not fit its field. -/
def packHuffmanHeader (size : Int) (freqs : Histogram) : Option Bytes := do
  let sizeField ← field? 4 size
  let countField ← field? 2 freqs.length
  let entries ← freqs.sorted.mapM packEntry
  return huffmanMagic ++ sizeField ++ countField ++ entries.flatten

/-- Reads `count` entries. A symbol may occur once only and no frequency may be zero. -/
def readEntries : Nat → Bytes → Histogram → Except HuffmanHeader.Error Histogram
  | 0, _, seen => .ok seen.reverse
  | count + 1, data, seen =>
    let symbol : Int := littleEndianValue (data.take 1)
    let frequency : Int := littleEndianValue ((data.drop 1).take 4)
    if seen.symbols.contains symbol then .error (.duplicateSymbol symbol)
    else if frequency = 0 then .error (.zeroFrequency symbol)
    else readEntries count (data.drop huffmanEntrySize) ((symbol, frequency) :: seen)

/-- The header at the beginning of a file, entries in the order of the file. -/
def parseHuffmanHeader (blob : Bytes) : Except HuffmanHeader.Error HuffmanHeader :=
  let magic := blob.take 4
  let size := littleEndianValue ((blob.drop 4).take 4)
  let count := littleEndianValue ((blob.drop 8).take 2)
  let entries := blob.drop huffmanFixedSize
  if blob.length < huffmanFixedSize then .error (.short blob.length)
  else if magic ≠ huffmanMagic then .error (.badMagic magic)
  else if 256 < count then .error (.tooManySymbols count)
  else if entries.length < count * huffmanEntrySize then
    .error (.cutHistogram count (entries.length / huffmanEntrySize))
  else
    match readEntries count entries [] with
    | .error e => .error e
    | .ok histogram =>
      if 0 < size ∧ histogram.isEmpty then .error (.emptyHistogram size)
      else .ok ⟨size, histogram⟩

/-- Where the code words begin. -/
def HuffmanHeader.offset (h : HuffmanHeader) : Nat :=
  huffmanFixedSize + huffmanEntrySize * h.histogram.length

end Compression
