import Compression.FloatText
import Compression.Numerals
import Compression.Quoted
import Compression.Timestamp

namespace Compression

/-- A value whose kind is not known beforehand, such as one that was read from a file. -/
inductive Value where
  | null
  | bool (b : Bool)
  | int (n : Int)
  | float (x : Float)
  | text (t : Text)
  | bytes (data : Bytes)
  | timestamp (t : Timestamp)
  | list (items : List Value)
  | map (entries : List (Value × Value))
  | set (members : List Value)
  | pair (first second : Value)
  /-- A list, or a mapping, inside of itself. -/
  | again (isList : Bool)

/-- The name of the kind of a value. -/
def Value.kind : Value → String
  | .null => "NoneType"
  | .bool _ => "bool"
  | .int _ => "int"
  | .float _ => "float"
  | .text _ => "str"
  | .bytes _ => "bytes"
  | .timestamp t => t.kind
  | .list _ => "list"
  | .map _ => "dict"
  | .set _ => "set"
  | .pair .. => "tuple"
  | .again isList => if isList then "list" else "dict"

/-- Pieces with commas between two marks. -/
def bracketed (first last : String) (pieces : List String) : String :=
  first ++ ", ".intercalate pieces ++ last

mutual

/-- A value on one line, text in quotation marks. -/
def Value.render : Value → String
  | .null => "None"
  | .bool b => if b then "True" else "False"
  | .int n => toString n
  | .float x => floatText x
  | .text t => quoted t
  | .bytes data => quotedBytes data
  | .timestamp t => t.render
  | .list items => bracketed "[" "]" (Value.renderItems items)
  | .map entries => bracketed "\x7b" "\x7d" (Value.renderEntries entries)
  | .set [] => "set()"
  | .set members => bracketed "\x7b" "\x7d" (Value.renderItems members)
  | .pair a b => bracketed "(" ")" [a.render, b.render]
  | .again isList => if isList then "[...]" else "\x7b...\x7d"

def Value.renderItems : List Value → List String
  | [] => []
  | v :: rest => v.render :: Value.renderItems rest

def Value.renderEntries : List (Value × Value) → List String
  | [] => []
  | (k, v) :: rest => (k.render ++ ": " ++ v.render) :: Value.renderEntries rest

end

/-- Why a value cannot be shown. -/
inductive Unshowable where
  | tooManyDigits
  | tooDeep
deriving DecidableEq

def Unshowable.message : Unshowable → String
  | .tooManyDigits => unwritableText
  | .tooDeep => "a value is nested too deeply"

/-- How deep values may lie in each other that are shown: the selector of a call, the default
algorithm of a configuration, and one of its parameters. -/
structure ShownRoom where
  selector : Nat
  setting : Nat
  parameter : Nat

mutual

/-- The first fault that keeps a value from being shown, if no more than so many values may lie in
each other. -/
def Value.unshowable? (room : Nat) : Value → Option Unshowable
  | .int n => if isWritable n then none else some .tooManyDigits
  | .list items =>
    match room with
    | 0 => some .tooDeep
    | room + 1 => Value.firstUnshowable? room items
  | .map entries =>
    match room with
    | 0 => some .tooDeep
    | room + 1 => Value.firstUnshowableEntry? room entries
  | .set members =>
    match room with
    | 0 => some .tooDeep
    | room + 1 => Value.firstUnshowable? room members
  | .pair a b =>
    match room with
    | 0 => some .tooDeep
    | room + 1 => (Value.unshowable? room a).or (Value.unshowable? room b)
  | _ => none

def Value.firstUnshowable? (room : Nat) : List Value → Option Unshowable
  | [] => none
  | v :: rest => (Value.unshowable? room v).or (Value.firstUnshowable? room rest)

def Value.firstUnshowableEntry? (room : Nat) : List (Value × Value) → Option Unshowable
  | [] => none
  | (k, v) :: rest =>
    ((Value.unshowable? room k).or (Value.unshowable? room v)).or
      (Value.firstUnshowableEntry? room rest)

end

/-- Nothing, zero, and empty text or collections. -/
def Value.isVoid : Value → Bool
  | .null => true
  | .bool b => !b
  | .int n => n = 0
  | .float x => x == 0.0
  | .text t => t.isEmpty
  | .bytes data => data.isEmpty
  | .timestamp _ => false
  | .list items => items.isEmpty
  | .map entries => entries.isEmpty
  | .set members => members.isEmpty
  | .pair .. => false
  | .again _ => false

/-- The whole number that a value equals. Truth equals one and falsehood zero. -/
def Value.whole? : Value → Option Int
  | .bool b => some (if b then 1 else 0)
  | .int n => some n
  | .float x =>
    match floatValue x with
    | .finite .. => if Float.ofInt (floatFloor x) == x then some (floatFloor x) else none
    | _ => none
  | _ => none

end Compression
