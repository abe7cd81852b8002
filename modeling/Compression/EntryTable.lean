import Compression.Document
import Std.Data.HashMap

namespace Compression

/-- What tells a key of a mapping from other keys. Numbers are one if their values are, and moments
if they are the same in universal time. -/
inductive KeyForm where
  | null
  | whole (n : Int)
  | fraction (bits : UInt64)
  | text (t : Text)
  | bytes (data : Bytes)
  | moment (second : Int) (micros : Nat)
  /-- A day, or a moment in a zone that is not known. -/
  | civil (t : Timestamp)
  /-- A key that equals no key of another origin. -/
  | origin (number : Nat)
deriving DecidableEq, Hashable

def Timestamp.keyForm (t : Timestamp) : KeyForm :=
  match t.universalSecond?, t.clock with
  | some second, some clock => .moment second clock.micros
  | _, _ => .civil t

/-- The form of a key that comes from a place of its own. -/
def Value.keyForm (origin : Nat) (v : Value) : KeyForm :=
  match v.whole?, v with
  | some n, _ => .whole n
  | none, .null => .null
  | none, .float x => if x == x then .fraction x.toBits else .origin origin
  | none, .text t => .text t
  | none, .bytes data => .bytes data
  | none, .timestamp t => t.keyForm
  | none, _ => .origin origin

/-- The entries of a mapping in the order of their keys, and the place of each key. -/
structure EntryTable where
  entries : Array (Value × DocumentItem) := #[]
  places : Std.HashMap KeyForm Nat := {}

/-- Adds an entry. A key that is there already keeps its place and gets the new value. -/
def EntryTable.put (table : EntryTable) (form : KeyForm) (key : Value) (value : DocumentItem) :
    EntryTable :=
  match table.places[form]? with
  | some place => { table with entries := table.entries.modify place fun e => (e.1, value) }
  | none =>
    { entries := table.entries.push (key, value)
      places := table.places.insert form table.entries.size }

end Compression
