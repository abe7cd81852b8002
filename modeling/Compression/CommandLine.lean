import Compression.ConfigFile
import Compression.Dispatch

namespace Compression

/-- What the arguments of a command ask for. -/
structure Options where
  decompress : Bool := false
  folder : Bool := false
  verbose : Bool := false
  algorithm : Option String := none
  config : Option String := none
  positional : List String := []

inductive UsageError where
  | missingValue (option : String)
  | unknownOption (option : String)

/-- Takes the arguments one after the other. An option with a value takes the next argument,
whatever it looks like; the last of several equal options counts. -/
def Options.read (o : Options) : List String → Except UsageError Options
  | [] => .ok { o with positional := o.positional.reverse }
  | arg :: rest =>
    if arg = "-d" then { o with decompress := true }.read rest
    else if arg = "--folder" then { o with folder := true }.read rest
    else if arg = "--verbose" then { o with verbose := true }.read rest
    else if arg = "-a" ∨ arg = "--algorithm" ∨ arg = "-c" then
      match rest with
      | [] => .error (.missingValue arg)
      | value :: rest =>
        if arg = "-c" then { o with config := some value }.read rest
        else { o with algorithm := some value }.read rest
    else if arg.toList.head? = some '-' ∧ arg ≠ "-" then .error (.unknownOption arg)
    else { o with positional := arg :: o.positional }.read rest

/-- The figures of a successful run. -/
structure Summary where
  operation : Operation
  algorithm : String
  inputPath : String
  outputPath : String
  bytesIn : Int
  bytesOut : Int

/-- How a command ends. -/
inductive Ending where
  | help (program : String) (status : Nat)
  | version
  | usage (e : UsageError)
  | wrongCount (program : String)
  | noConfig (path : String) (e : ConfigFileError)
  | noAlgorithm (e : SelectorError)
  | failed (activity : String) (code : Int)
  | done (summary : Summary)

/-- What ends a command without a message of its own. -/
inductive Escape where
  | config (e : ConfigFileError)
  | selector (e : SelectorError)
  | call (e : Failure)

def programVersion : String := "1.0.0"

def helpText (program : String) : String :=
  s!"compengine on-board compression codecs (v{programVersion})\n" ++
  "=================================================\n" ++
  "\n" ++
  "Usage:\n" ++
  s!"  {program} [-a <algorithm>] [-c <config.yaml>] <input> [output]\n" ++
  s!"  {program} -d [-a <algorithm>] [-c <config.yaml>] <input> [output]\n" ++
  s!"  {program} --folder [-a <algorithm>] <folder>\n" ++
  "\n" ++
  "Options:\n" ++
  "  -a, --algorithm <name>  huffman, lzss or dct (default from config: huffman)\n" ++
  "  -c <file>               YAML configuration file\n" ++
  "  -d                      Decompress (default is compress)\n" ++
  "  --folder                Compress a folder (not implemented)\n" ++
  "  --verbose               Enable debug logging\n" ++
  "  -h, --help              Show this help message\n" ++
  "  -v, --version           Show version information\n" ++
  "\n" ++
  "Output (when not given):\n" ++
  "  huffman:  <input>.huff   decompress: <base>_DC.<ext>\n" ++
  "  lzss:     <input>.lzss   decompress: <input> without .lzss (or .orig)\n" ++
  "  dct:      <input>.dct    decompress: <input>.pgm\n" ++
  "\n" ++
  "Examples:\n" ++
  s!"  {program} -a huffman notes.txt\n" ++
  s!"  {program} -d -a huffman notes.txt.huff\n" ++
  s!"  {program} -a dct frame.ppm\n" ++
  "\n"

def UsageError.message : UsageError → String
  | .missingValue option => s!"{option} requires a value"
  | .unknownOption option => s!"Unknown option: {option}"

/-- Output per input, zero for no input, unless it lies beyond all doubles. -/
def Summary.ratio? (s : Summary) : Option Float :=
  if 0 < s.bytesIn then floatQuotient? s.bytesOut s.bytesIn else some 0.0

/-- How the sizes compare: three places for what compression leaves, two for what comes back. -/
def Operation.comparison (ratio : Float) : Operation → String
  | .compress => s!"Ratio:       {fixedText 3 ratio}"
  | .decompress => s!"Expansion:   {fixedText 2 ratio}x"

/-- The summary with the ratio of the sizes and the time it took, as it is written. -/
def Summary.text (s : Summary) (ratio : Float) (time : String) : String :=
  s!"Algorithm:   {s.algorithm}\n" ++
  s!"Input:       {s.inputPath} ({s.bytesIn} bytes)\n" ++
  s!"Output:      {s.outputPath} ({s.bytesOut} bytes)\n" ++
  s!"{s.operation.comparison ratio}\n" ++
  s!"Time:        {time} ms\n"

/-- Seconds in thousandths, with one place. -/
def milliseconds (seconds : Float) : String :=
  fixedText 1 (seconds * 1000.0)

/-- The complaint about a result with an error code. -/
def failureText (activity : String) (code : Int) : String :=
  let name :=
    match ErrorCode.ofNumber? code with
    | some known => known.name
    | none => "UNKNOWN"
  s!"Error: {activity} failed with code {code} ({name})\n"

def Ending.status : Ending → Nat
  | .help _ status => status
  | .version | .done _ => 0
  | _ => 1

/-- What a command writes to its output, given the time it took. -/
def Ending.output (time : String) : Ending → String
  | .help program _ => helpText program
  | .version => s!"compengine {programVersion}\n"
  | .done summary => summary.text (summary.ratio?.getD infinity) time
  | _ => ""

/-- What a command writes to its error output. -/
def Ending.complaint : Ending → Text
  | .usage e => s!"Error: {e.message}\n"
  | .wrongCount program =>
    "Error: Expected <input> [output]\n" ++
      s!"Usage: {program} [-d] [-a <algorithm>] <input> [output]\n"
  | .noConfig path e =>
    textOf s!"Error: Cannot load config: {path} (" ++ e.message ++ textOf ")\n"
  | .noAlgorithm e => s!"Error: {e.message}\n"
  | .failed activity code => failureText activity code
  | _ => ""

section

variable {m : Type → Type} [Monad m] {Handle : Type}

/-- Runs a call on files. -/
def callFiles (host : Host m Handle) (o : Options) (algorithm : Algorithm) (config : EngineConfig)
    (input : String) (output : Option String) : m (Except Escape Ending) := do
  let operation : Operation := if o.decompress then .decompress else .compress
  match ← dispatch host operation (.int algorithm.number) input output config with
  | .error e => return .error (.call e)
  | .ok result =>
    if result.ok then
      return .ok (.done {
        operation
        algorithm := algorithm.name
        inputPath := input
        outputPath := result.outputPath.getD ""
        bytesIn := result.bytesIn
        bytesOut := result.bytesOut })
    else return .ok (.failed operation.name result.error)

/-- Chooses the algorithm, and runs the call that the options ask for. -/
def callWith (host : Host m Handle) (o : Options) (config : EngineConfig) (input : String)
    (output : Option String) : m (Except Escape Ending) := do
  let choice : Except SelectorError Algorithm :=
    match o.algorithm with
    | none => .ok config.defaultAlgorithm
    | some name => Algorithm.parse host.room.selector (.text name)
  match choice with
  | .error e =>
    match e.code? with
    | some _ => return .ok (.noAlgorithm e)
    | none => return .error (.selector e)
  | .ok algorithm =>
    if o.folder then
      let result ← compressFolder host input
      return .ok (.failed "folder compression" result.error)
    else callFiles host o algorithm config input output

/-- Loads the configuration first, then runs the call that the options ask for. -/
def callOptions (host : Host m Handle) (program : String) (o : Options) :
    m (Except Escape Ending) := do
  match o.positional with
  | [input] => withConfig input none
  | [input, output] => withConfig input (some output)
  | _ => return .ok (.wrongCount program)
where
  withConfig (input : String) (output : Option String) : m (Except Escape Ending) := do
    match ← loadConfig host o.config with
    | .error e =>
      if e.isReported then return .ok (.noConfig (o.config.getD "") e)
      else return .error (.config e)
    | .ok config => callWith host o config input output

/-- Runs a command. The first argument is the name of the program. Help and version are shown
only if they are asked for first. -/
def runCommand (host : Host m Handle) (args : List String) : m (Except Escape Ending) := do
  match args with
  | [] => return .ok (.help "cli.py" 1)
  | [program] => return .ok (.help program 1)
  | program :: first :: rest =>
    if first = "-h" ∨ first = "--help" then return .ok (.help program 0)
    else if first = "-v" ∨ first = "--version" then return .ok .version
    else
      match ({} : Options).read (first :: rest) with
      | .error e => return .ok (.usage e)
      | .ok o => callOptions (if o.verbose then host else host.quiet) program o

end

end Compression
