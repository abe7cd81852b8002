import Compression.Medium

namespace Compression

inductive LogLevel where
  | debug
  | warning
deriving DecidableEq

def LogLevel.name : LogLevel → String
  | .debug => "DEBUG"
  | .warning => "WARNING"

structure LogRecord where
  level : LogLevel
  source : String
  message : String

/-- A record on one line. -/
def LogRecord.line (r : LogRecord) : String :=
  s!"{r.level.name} {r.source}: {r.message}"

/-- What calls need from their surroundings, in which open files have handles. -/
structure Host (m : Type → Type) (Handle : Type) where
  /-- The contents of a file. -/
  read : String → m (Except FileError Bytes)
  /-- Opens a file to write it anew. -/
  create : String → m (Except FileError Handle)
  /-- Writes an open file. -/
  fill : Handle → Bytes → m (Except SystemError Unit)
  remove : String → m (Except FileError Unit)
  /-- Decodes an image file of another kind, or tells why not. -/
  foreignImage : String → m (Except String Image)
  log : LogRecord → m Unit
  /-- Reads a document. -/
  load : Bytes → Except LoadError Value
  room : ShownRoom

/-- The same surroundings without the log lines that only help to find faults. -/
def Host.quiet {m : Type → Type} {Handle : Type} [Monad m] (host : Host m Handle) :
    Host m Handle :=
  { host with
    log := fun r => match r.level with
      | .debug => pure ()
      | .warning => host.log r }

/-- Surroundings in memory. -/
structure World where
  store : FileStore := .start
  log : Array LogRecord := #[]

/-- Looks at the store of a world, and changes it. -/
def World.change {α : Type} (f : FileStore → α × FileStore) : StateM World α := fun world =>
  ((f world.store).1, { world with store := (f world.store).2 })

/-- Changes the store of a world, unless that fails. -/
def World.tryChange {ε α : Type} (f : FileStore → Except ε (α × FileStore)) :
    StateM World (Except ε α) :=
  World.change fun store =>
    match f store with
    | .ok (a, after) => (.ok a, after)
    | .error e => (.error e, store)

/-- A world in memory as surroundings. -/
def World.hostOn (medium : Medium) : Host (StateM World) Node where
  read path := World.change fun store => (medium.read store path, store)
  create path := World.tryChange fun store => medium.create store path
  fill node data := World.change fun store => medium.fill store node data
  remove path := World.tryChange fun store =>
    (medium.remove store path).map fun after => ((), after)
  foreignImage path := World.change fun store => (medium.decode store path, store)
  log r := modify fun world => { world with log := world.log.push r }
  load := medium.load
  room := medium.room

end Compression
