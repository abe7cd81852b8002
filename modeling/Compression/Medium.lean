import Compression.FileStore
import Compression.Netpbm
import Compression.Settings

namespace Compression

/-- What is asked of the system about a path. -/
inductive Access where
  | read
  | create
  | remove
deriving DecidableEq

/-- What files in memory leave open: the parts of the system and of the program that are not of
this library. -/
structure Medium where
  /-- Decodes an image file of another kind, or tells why not. -/
  decode : FileStore → String → Except String Image
  /-- Reads a document. -/
  load : Bytes → Except LoadError Value
  room : ShownRoom
  /-- Why the system does not do what it is asked, if it does not, though the names allow it. -/
  refuse : Access → FileStore → String → Option SystemError
  /-- Why an open file does not take all bytes, if it does not, and how many it has taken. -/
  stop : FileStore → Node → Bytes → Option (Nat × SystemError)
  /-- What there is to be read from a device. -/
  reading : Device → Bytes

/-- An image file that is decoded by its contents alone: raw gray and color images, as red, green
and blue. -/
def decodeForeign (data : Bytes) : Except String Image :=
  match parseNetpbm data with
  | .ok image => .ok image.toRgb
  | .error e => .error e.message

namespace Medium

/-- Asks the system first, then the names. -/
def ask {α : Type} (medium : Medium) (access : Access) (store : FileStore) (path : String)
    (answer : Except SystemError.Reason α) : Except FileError α :=
  aboutPath path <|
    match medium.refuse access store path with
    | some e => .error e
    | none => answer.mapError fun reason => { reason, path := some path }

def read (medium : Medium) (store : FileStore) (path : String) : Except FileError Bytes :=
  medium.ask .read store path (store.read medium.reading path)

def create (medium : Medium) (store : FileStore) (path : String) :
    Except FileError (Node × FileStore) :=
  medium.ask .create store path (store.create path)

def remove (medium : Medium) (store : FileStore) (path : String) : Except FileError FileStore :=
  medium.ask .remove store path (store.remove path)

/-- Writes an open file. What has been taken before the system stops stays there. -/
def fill (medium : Medium) (store : FileStore) (node : Node) (data : Bytes) :
    Except SystemError Unit × FileStore :=
  if store.item? node = some (.device .full) ∧ data ≠ [] then (.error { reason := .noSpace }, store)
  else
    match medium.stop store node data with
    | some (taken, e) => (.error e, store.fill node (data.take taken))
    | none => (.ok (), store.fill node data)

/-- A medium that refuses nothing. It decodes images by their contents alone, and `explain` says
why one cannot be decoded. There is nothing to be read from its devices, and no room to show values
that lie in each other. -/
def plain (explain : String → String) : Medium where
  decode store path :=
    match store.read (fun _ => []) path with
    | .error reason => .error (explain (SystemError.message { reason, path := some path }))
    | .ok data =>
      match decodeForeign data with
      | .error reason => .error (explain reason)
      | .ok image => .ok image
  load := loadSettings
  room := { selector := 0, setting := 0, parameter := 0 }
  refuse _ _ _ := none
  stop _ _ _ := none
  reading _ := []

end Medium

end Compression
