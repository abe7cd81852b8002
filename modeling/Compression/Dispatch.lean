import Compression.Failure
import Compression.Host
import Compression.Naming

namespace Compression

/-- What came of a call. -/
structure Result where
  bytesIn : Int := 0
  bytesOut : Int := 0
  error : Int := 0
  outputPath : Option String := none

def Result.ok (r : Result) : Bool :=
  r.error = ErrorCode.ok.number

/-- Output per input, zero for no input, unless it lies beyond all doubles. -/
def Result.ratio? (r : Result) : Option Float :=
  if 0 < r.bytesIn then floatQuotient? r.bytesOut r.bytesIn else some 0.0

inductive Operation where
  | compress
  | decompress
deriving DecidableEq

def Operation.name : Operation → String
  | .compress => "compress"
  | .decompress => "decompress"

/-- The name under which calls write their log. -/
def engineSource : String := "compengine.engine"

/-- The name under which images write their log. -/
def imageSource : String := "compengine.netpbm"

section

variable {m : Type → Type} [Monad m] {Handle : Type}

/-- The contents of an input file. -/
def readInput (host : Host m Handle) (path : String) : m (Except Failure Bytes) := do
  match ← host.read path with
  | .ok data => return .ok data
  | .error e => return .error (.unreadable path e)

/-- Writes an output file. If that fails halfway, the file is removed. -/
def writeOutput (host : Host m Handle) (path : String) (data : Bytes) :
    m (Except Failure Unit) := do
  match ← host.create path with
  | .error e => return .error (.unopened path e)
  | .ok file =>
    match ← host.fill file data with
    | .ok () => return .ok ()
    | .error e =>
      match ← host.remove path with
      | .ok () => return .error (.unwritten path e)
      | .error e => return .error (.unremoved path e)

/-- An image of any kind, of which the contents have been read. -/
def readImage (host : Host m Handle) (path : String) (blob : Bytes) :
    m (Except Failure Image) := do
  if isNetpbm blob then
    match parseNetpbm blob with
    | .ok image => return .ok image
    | .error e => return .error (.netpbm e)
  else
    host.log ⟨.debug, imageSource, s!"Delegating {path} to Pillow"⟩
    match ← host.foreignImage path with
    | .ok image => return .ok image
    | .error reason => return .error (.foreignImage path reason)

/-- Encodes an image file of which the contents have been read. -/
def encodeImageFile (host : Host m Handle) (path : String) (blob : Bytes) :
    m (Except Failure Bytes) := do
  if blob.isEmpty then return .error (.emptyImage path)
  else
    match ← readImage host path blob with
    | .error e => return .error e
    | .ok image =>
      match encodeImage image with
      | .ok data => return .ok data
      | .error e => return .error (.blockImage e)

/-- What an algorithm makes of a file. -/
def encodeWith (host : Host m Handle) (algorithm : Algorithm) (config : EngineConfig)
    (path : String) (blob : Bytes) : m (Except Failure Bytes) := do
  match algorithm with
  | .huffman =>
    match huffmanEncode blob with
    | .ok data => return .ok data
    | .error e => return .error (.huffman e)
  | .lzss =>
    match lzssEncode config.lzss blob with
    | .ok data => return .ok data
    | .error e => return .error (.lzss e)
  | .dct => encodeImageFile host path blob

/-- What a file held before an algorithm compressed it. -/
def decodeWith (algorithm : Algorithm) (path : String) (blob : Bytes) : Except Failure Bytes :=
  match algorithm with
  | .huffman =>
    match huffmanDecode blob with
    | .ok data => .ok data
    | .error e => .error (.huffman e)
  | .lzss =>
    match lzssDecode blob with
    | .ok data => .ok data
    | .error e => .error (.lzss e)
  | .dct =>
    if blob.isEmpty then .error (.emptyBlockFile path)
    else
      match decodeToPgm blob with
      | .ok data => .ok data
      | .error e => .error (.blockImage e)

/-- Where the output of a call goes; an empty path is none. -/
def outputTarget (operation : Operation) (algorithm : Algorithm) (path : String)
    (output : Option String) : String :=
  match output with
  | some target => if target.isEmpty then outputTarget.default else target
  | none => outputTarget.default
where
  default : String :=
    match operation with
    | .compress => algorithm.compressedPath path
    | .decompress => algorithm.decompressedPath path

/-- Runs an algorithm from file to file. The answer holds the length of the input, once it has
been read, and the output with its place. -/
def transfer (host : Host m Handle) (operation : Operation) (algorithm : Algorithm)
    (path : String) (output : Option String) (config : EngineConfig) :
    m (Nat × Except Failure (Bytes × String)) := do
  host.log ⟨.debug, engineSource, s!"{operation.name} {algorithm.name}: {path}"⟩
  match ← readInput host path with
  | .error e => return (0, .error e)
  | .ok blob =>
    let target := outputTarget operation algorithm path output
    let coded ← match operation with
      | .compress => encodeWith host algorithm config path blob
      | .decompress => pure (decodeWith algorithm path blob)
    match coded with
    | .error e => return (blob.length, .error e)
    | .ok data =>
      match ← writeOutput host target data with
      | .error e => return (blob.length, .error e)
      | .ok () => return (blob.length, .ok (data, target))

/-- Turns a failure with a code into a result, and lets any other end the call. -/
def reportFailure (host : Host m Handle) (operation : Operation) (path : String) (bytesIn : Nat)
    (e : Failure) : m (Except Failure Result) := do
  match e.code? with
  | none => return .error e
  | some code =>
    host.log ⟨.warning, engineSource,
      s!"{operation.name} failed for {path}: {e.message} ({code.name})"⟩
    return .ok { bytesIn := bytesIn, error := code.number }

/-- Compresses or decompresses a file with the algorithm that a selector names. -/
def dispatch (host : Host m Handle) (operation : Operation) (selector : Value) (path : String)
    (output : Option String) (config : EngineConfig) : m (Except Failure Result) := do
  match Algorithm.parse host.room.selector selector with
  | .error e => reportFailure host operation path 0 (.selector e)
  | .ok algorithm =>
    match ← transfer host operation algorithm path output config with
    | (bytesIn, .error e) => reportFailure host operation path bytesIn e
    | (bytesIn, .ok (data, target)) =>
      host.log ⟨.debug, engineSource,
        s!"{operation.name} {algorithm.name}: {bytesIn} -> {data.length} bytes ({target})"⟩
      return .ok { bytesIn := bytesIn, bytesOut := data.length, outputPath := some target }

/-- Folders are not compressed. -/
def compressFolder (host : Host m Handle) (path : String) : m Result := do
  host.log ⟨.warning, engineSource,
    s!"Folder compression requested for {path}: not implemented"⟩
  return { error := ErrorCode.notImplemented.number }

end

end Compression
