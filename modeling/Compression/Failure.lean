import Compression.Algorithm
import Compression.BlockImage
import Compression.ErrorCode
import Compression.FileError
import Compression.Huffman
import Compression.Lzss

namespace Compression

/-- What can keep a call from writing its output. -/
inductive Failure where
  | selector (e : SelectorError)
  | unreadable (path : String) (e : FileError)
  | unopened (path : String) (e : FileError)
  | unwritten (path : String) (e : SystemError)
  /-- A file of which a part has been written stays there. -/
  | unremoved (path : String) (e : FileError)
  | emptyImage (path : String)
  | emptyBlockFile (path : String)
  | foreignImage (path reason : String)
  | huffman (e : HuffmanError)
  | lzss (e : LzssError)
  | netpbm (e : NetpbmError)
  | blockImage (e : BlockImageError)

def Failure.message : Failure → String
  | .selector e => e.message
  | .unreadable path e => s!"Cannot read input file: {path} ({e.message})"
  | .unopened path e => s!"Cannot open output file: {path} ({e.message})"
  | .unwritten path e => s!"Cannot write output file: {path} ({e.message})"
  | .unremoved _ e => e.message
  | .emptyImage path => s!"Image file is empty: {path}"
  | .emptyBlockFile path => s!"DCT file is empty: {path}"
  | .foreignImage path reason => s!"Cannot decode image {path}: {reason}"
  | .huffman e => e.message
  | .lzss e => e.message
  | .netpbm e => e.message
  | .blockImage e => e.message

def HuffmanError.code? : HuffmanError → Option ErrorCode
  | .tooLong _ => some .inputError
  | .header _ => some .formatError
  | .codesEnd _ => some .truncated
  | .noSuchChild => some .corrupt
  | .unencodable | .undecodable => none

def LzssError.code? : LzssError → Option ErrorCode
  | .cutCopy .. => some .truncated
  | .badCopy .. => some .corrupt
  | .unencodable => none

def NetpbmError.code? : NetpbmError → Option ErrorCode
  | .numeralTooLong => none
  | _ => some .unsupportedInput

def BlockImageError.code? : BlockImageError → Option ErrorCode
  | .noLuma _ | .tooLarge .. | .manyChannels _ => some .unsupportedInput
  | .short _ | .badMagic _ | .badSize .. | .trailing _ => some .formatError
  | .cutBlocks .. => some .truncated
  | .unencodable | .undecodable => none

def SelectorError.code? : SelectorError → Option ErrorCode
  | .unknown _ => some .unknownAlgorithm
  | .unshowable _ | .badNumber _ => none

/-- The code under which a call reports a failure. One without a code is not reported but ends
the call. -/
def Failure.code? : Failure → Option ErrorCode
  | .selector e => e.code?
  | .unreadable _ (.system _) => some .inputError
  | .unopened _ (.system _) | .unwritten .. => some .outputError
  | .unreadable _ .nullInPath | .unopened _ .nullInPath | .unremoved .. => none
  | .emptyImage _ | .emptyBlockFile _ => some .inputError
  | .foreignImage .. => some .unsupportedInput
  | .huffman e => e.code?
  | .lzss e => e.code?
  | .netpbm e => e.code?
  | .blockImage e => e.code?

end Compression
