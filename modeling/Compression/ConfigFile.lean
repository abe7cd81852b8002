import Compression.Host

namespace Compression

/-- Why a configuration cannot be loaded from a file. -/
inductive ConfigFileError where
  | file (e : FileError)
  | malformed (path reason : String)
  | document (e : DocumentError)
  | config (e : ConfigError)

def ConfigFileError.message : ConfigFileError → Text
  | .file e => e.message
  | .malformed path reason => s!"Malformed YAML in {path}: {reason}"
  | .document e => e.message
  | .config e => e.message

/-- Whether an error is told as a fault of the configuration. All others end what asked for it. -/
def ConfigFileError.isReported : ConfigFileError → Bool
  | .file _ | .malformed .. => true
  | .document e => e.isReported
  | .config e => e.isReported

/-- The configuration in what has been loaded from a file. -/
def configOfLoaded (room : ShownRoom) (path : String) :
    Except LoadError Value → Except ConfigFileError EngineConfig
  | .error (.malformed reason) => .error (.malformed path reason)
  | .error (.document e) => .error (.document e)
  | .ok value =>
    match EngineConfig.ofDocument room value with
    | .error e => .error (.config e)
    | .ok config => .ok config

/-- The configuration in a file; without a file, the defaults. -/
def loadConfig {m : Type → Type} [Monad m] {Handle : Type} (host : Host m Handle)
    (path : Option String) : m (Except ConfigFileError EngineConfig) := do
  match path with
  | none => return .ok .initial
  | some path =>
    match ← host.read path with
    | .error e => return .error (.file e)
    | .ok data => return configOfLoaded host.room path (host.load data)

end Compression
