import Compression.CommandLine
import Std.Time

namespace Compression

/-- The number under which the system knows an error. -/
def errorNumber : IO.Error → Nat
  | .alreadyExists _ n _ | .otherError n _ | .resourceBusy n _ | .resourceVanished n _
  | .unsupportedOperation n _ | .hardwareFault n _ | .unsatisfiedConstraints n _
  | .illegalOperation n _ | .protocolError n _ | .timeExpired n _ | .interrupted _ n _
  | .noFileOrDirectory _ n _ | .invalidArgument _ n _ | .permissionDenied _ n _
  | .resourceExhausted _ n _ | .inappropriateType _ n _ | .noSuchThing _ n _ => n.toNat
  | .unexpectedEof | .userError _ => 0

def systemReasons : List SystemError.Reason :=
  [.notFound, .exists, .notDirectory, .isDirectory, .noSpace, .nameTooLong, .tooManyLinks]

def systemErrorOf (path : Option String) (e : IO.Error) : SystemError :=
  let n := errorNumber e
  { reason := (systemReasons.find? fun r => r.number = n).getD (.other n (toString e)), path }

/-- Does something, and answers the error of the system if there is one. -/
def attempt {α : Type} (path : Option String) (act : IO α) : IO (Except SystemError α) := do
  try return .ok (← act)
  catch e => return .error (systemErrorOf path e)

/-- Does something with what a path leads to. -/
def attemptAt {α : Type} (path : String) (act : IO α) : IO (Except FileError α) := do
  if path.contains '\x00' then return .error .nullInPath
  else return aboutPath path (← attempt (some path) act)

def writeLogLine (r : LogRecord) : IO Unit := do
  let now ← Std.Time.PlainDateTime.now
  let stamp := now.format "uuuu-MM-dd HH:mm:ss,SSS"
  IO.eprintln s!"{stamp} {r.line}"

/-- How deep values may lie in each other that are shown. -/
def usualRoom : ShownRoom :=
  { selector := 985, setting := 985, parameter := 985 }

/-- The file system of the machine. -/
def machine : Host IO IO.FS.Handle where
  read path := attemptAt path do return (← IO.FS.readBinFile path).toList
  create path := attemptAt path (IO.FS.Handle.mk path .write)
  fill file data := attempt none do
    file.write ⟨data.toArray⟩
    file.flush
  remove path := attemptAt path (IO.FS.removeFile path)
  foreignImage path := do
    match ← attemptAt path (IO.FS.readBinFile path) with
    | .error e => return .error e.message
    | .ok data => return decodeForeign data.toList
  log := writeLogLine
  load := loadSettings
  room := usualRoom

def Escape.message : Escape → Text
  | .config e => e.message
  | .selector e => e.message
  | .call e => e.message

end Compression

open Compression in
def main (args : List String) : IO UInt32 := do
  let program := toString (← IO.appPath)
  let start ← IO.monoNanosNow
  let ending ← runCommand machine (program :: args)
  let time := milliseconds (floatQuotient ((← IO.monoNanosNow) - start) 1000000000)
  match ending with
  | .ok ending =>
    IO.print (ending.output time)
    IO.eprint (shownText ending.complaint)
    return UInt32.ofNat ending.status
  | .error e =>
    IO.eprintln (shownText e.message)
    return 1
