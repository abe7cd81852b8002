import Compression.BitWriter
import Compression.HuffmanHeader
import Compression.MergeRule

namespace Compression

/-- The longest text whose length the header can hold. -/
def maxHuffmanSize : Nat := 0xFFFFFFFF

inductive HuffmanError where
  | tooLong (size : Nat)
  | header (e : HuffmanHeader.Error)
  | codesEnd (bits : Nat)
  | noSuchChild
  /-- The table has no word for a byte, a word does not fit its length, or the header has no room
  for a number. -/
  | unencodable
  /-- There is no tree, a link leads out of its arena, or a symbol is no byte. -/
  | undecodable

def HuffmanError.message : HuffmanError → String
  | .tooLong size => s!"Input of {size} bytes exceeds the 32-bit size field"
  | .header e => e.message
  | .codesEnd bits => (BitReader.Error.codesEnd bits).message
  | .noSuchChild => "Bit 1 has no child in a single-leaf tree"
  | .unencodable => "No code for a symbol"
  | .undecodable => "No symbol for a code"

/-- Why no symbol can be read from a run of so many bits. -/
def HuffmanError.ofWalk (bits : Nat) : PrefixArena.WalkError → HuffmanError
  | .bitsEnd => .codesEnd bits
  | .noSuchChild => .noSuchChild
  | .lostLink => .undecodable

/-- Appends the code word of a byte: the number that it writes, in as many bits as it has. -/
def writeCode (table : CodeTable) (w : BitWriter) (b : UInt8) : Option BitWriter := do
  let word ← table.find? b.toNat
  (w.appendNumber (bitsValue word) word.length).toOption

/-- Appends the code words of the bytes, one after the other. -/
def writeCodes (table : CodeTable) (data : Bytes) (w : BitWriter) : Option BitWriter :=
  data.foldlM (writeCode table) w

/-- A header with the histogram of the text, then the code words of its bytes. -/
def huffmanEncode (data : Bytes) : Except HuffmanError Bytes :=
  if maxHuffmanSize < data.length then .error (.tooLong data.length)
  else
    let freqs := byteHistogram data
    match packHuffmanHeader data.length freqs with
    | none => .error .unencodable
    | some header =>
      match plantTree freqs with
      | none => .ok header
      | some arena =>
        match arena.codeTable.bind fun table => writeCodes table data .empty with
        | none => .error .unencodable
        | some w => .ok (header ++ w.toBytes)

/-- Reads `count` symbols with the tree. -/
def readSymbols (arena : PrefixArena) :
    Nat → BitReader → Array UInt8 → Except HuffmanError Bytes
  | 0, _, out => .ok out.toList
  | count + 1, r, out =>
    match arena.readSymbol r with
    | .error e => .error (.ofWalk r.totalBits e)
    | .ok (symbol, r) =>
      match byteOf? symbol with
      | none => .error .undecodable
      | some b => readSymbols arena count r (out.push b)

/-- The tree is planted anew from the histogram in the header. Reading stops after as many
symbols as the header says, and what follows is left alone. -/
def huffmanDecode (blob : Bytes) : Except HuffmanError Bytes :=
  match parseHuffmanHeader blob with
  | .error e => .error (.header e)
  | .ok header =>
    if header.size = 0 then .ok []
    else
      match plantTree header.histogram with
      | none => .error .undecodable
      | some arena => readSymbols arena header.size (.ofBytes (blob.drop header.offset)) #[]

end Compression
