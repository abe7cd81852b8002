import Compression.Quoted

namespace Compression

inductive SystemError.Reason where
  | notFound
  | exists
  | notDirectory
  | isDirectory
  | noSpace
  | nameTooLong
  | tooManyLinks
  | other (number : Nat) (text : String)
deriving DecidableEq

/-- What the system answers if it cannot do something with a file. -/
structure SystemError where
  reason : SystemError.Reason
  path : Option String := none
  /-- What a link at the path should lead to. -/
  target : Option String := none
deriving DecidableEq

/-- Why something cannot be done with a file. -/
inductive FileError where
  /-- The path holds the character with number zero. It is refused before any system sees it. -/
  | nullInPath
  | system (e : SystemError)
deriving DecidableEq

def SystemError.Reason.number : SystemError.Reason → Nat
  | .notFound => 2
  | .exists => 17
  | .notDirectory => 20
  | .isDirectory => 21
  | .noSpace => 28
  | .nameTooLong => 36
  | .tooManyLinks => 40
  | .other number _ => number

def SystemError.Reason.text : SystemError.Reason → String
  | .notFound => "No such file or directory"
  | .exists => "File exists"
  | .notDirectory => "Not a directory"
  | .isDirectory => "Is a directory"
  | .noSpace => "No space left on device"
  | .nameTooLong => "File name too long"
  | .tooManyLinks => "Too many levels of symbolic links"
  | .other _ text => text

def SystemError.message (e : SystemError) : String :=
  let names := e.target.toList ++ e.path.toList
  let about := if names.isEmpty then "" else ": "
  s!"[Errno {e.reason.number}] {e.reason.text}" ++ about ++
    " -> ".intercalate (names.map fun name => quoted (textOf name))

def FileError.message : FileError → String
  | .nullInPath => "embedded null byte"
  | .system e => e.message

/-- Tells what the system answers about a path, if the system sees it. -/
def aboutPath {α : Type} (path : String) (answer : Except SystemError α) : Except FileError α :=
  if path.toList.contains '\x00' then .error .nullInPath
  else
    match answer with
    | .ok a => .ok a
    | .error e => .error (.system e)

end Compression
