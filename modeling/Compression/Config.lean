import Compression.Algorithm
import Compression.LzssParams

namespace Compression

structure EngineConfig where
  lzss : LzssParams := {}
  defaultAlgorithm : Algorithm := .huffman

def EngineConfig.initial : EngineConfig := {}

inductive ConfigError where
  | notAMapping (found : Value)
  | unknownKeys (keys : List Text)
  | unknownLzssKeys (keys : List Text)
  /-- Keys that are unknown and not all text cannot be put in order. -/
  | unorderedKeys
  | selector (e : SelectorError)
  | lzssNotAMapping
  | notAnInteger (key : Text) (found : Value)
  /-- A value that should be a number and cannot be shown. -/
  | unshowable (e : Unshowable)
  | params (e : LzssParams.Error)

/-- Keys with commas between them. -/
def listedKeys (keys : List Text) : Text :=
  (keys.intersperse (textOf ", ")).flatten

def ConfigError.message : ConfigError → Text
  | .notAMapping found => s!"Config must be a mapping, got {found.kind}"
  | .unknownKeys keys => textOf "Unknown config keys: " ++ listedKeys keys
  | .unknownLzssKeys keys => textOf "Unknown lzss keys: " ++ listedKeys keys
  | .unorderedKeys => "Unknown keys that are not text"
  | .selector e => e.message
  | .lzssNotAMapping => "'lzss' must be a mapping"
  | .notAnInteger key found =>
    textOf "lzss." ++ key ++ textOf s!" must be an integer, got {found.render}"
  | .unshowable e => e.message
  | .params e => e.message

/-- Whether an error is told as a fault of the configuration. All others end what asked for it. -/
def ConfigError.isReported : ConfigError → Bool
  | .unorderedKeys | .unshowable .tooDeep | .selector (.unshowable .tooDeep) => false
  | _ => true

/-- The text of a value that is text. -/
def Value.text? : Value → Option Text
  | .text t => some t
  | _ => none

/-- The value of a key that is text. -/
def valueOf? (key : Text) (entries : List (Value × Value)) : Option Value :=
  (entries.find? fun e => e.1.text? = some key).map Prod.snd

/-- Refuses entries whose key is not among the known ones. Those keys are told in ascending
order. -/
def checkKeys (known : List Text) (report : List Text → ConfigError)
    (entries : List (Value × Value)) : Except ConfigError Unit :=
  let unknown := entries.filter fun e =>
    match e.1.text? with
    | some key => !known.contains key
    | none => true
  if unknown.isEmpty then .ok ()
  else
    match unknown.mapM fun e => e.1.text? with
    | some keys => .error (report (keys.mergeSort fun a b => !decide (b < a)))
    | none => .error .unorderedKeys

/-- Refuses the first entry whose value is not a whole number. -/
def checkIntegers (room : Nat) : List (Value × Value) → Except ConfigError Unit
  | [] => .ok ()
  | (key, value) :: rest =>
    match value with
    | .int _ => checkIntegers room rest
    | _ =>
      .error (match value.unshowable? room with
        | some e => .unshowable e
        | none => .notAnInteger (key.text?.getD []) value)

/-- A number among the entries, or the one that stands in for it. -/
def numberOf (key : Text) (instead : Nat) (entries : List (Value × Value)) : Int :=
  match valueOf? key entries with
  | some (.int n) => n
  | _ => instead

/-- Encoder parameters from entries that name them; what is not named keeps its default. -/
def lzssParamsOf (room : Nat) (entries : List (Value × Value)) : Except ConfigError LzssParams := do
  checkKeys ["window_size", "lookahead", "min_match"] .unknownLzssKeys entries
  checkIntegers room entries
  let defaults : LzssParams := {}
  match LzssParams.ofNumbers (numberOf "window_size" defaults.windowSize entries)
      (numberOf "lookahead" defaults.lookahead entries)
      (numberOf "min_match" defaults.minMatch entries) with
  | .ok params => .ok params
  | .error e => .error (.params e)

/-- The default algorithm that the entries name. -/
def defaultAlgorithmOf (room : Nat) (entries : List (Value × Value)) :
    Except ConfigError Algorithm :=
  match valueOf? "default_algorithm" entries with
  | none => .ok .huffman
  | some selector =>
    match Algorithm.parse room selector with
    | .ok a => .ok a
    | .error e => .error (.selector e)

/-- The configuration that a value describes. -/
def EngineConfig.ofValue (room : ShownRoom) (value : Value) : Except ConfigError EngineConfig :=
  match value with
  | .map entries => do
    checkKeys ["default_algorithm", "lzss"] .unknownKeys entries
    let algorithm ← defaultAlgorithmOf room.setting entries
    let encoder := (valueOf? "lzss" entries).getD .null
    let params ←
      if encoder.isVoid then lzssParamsOf room.parameter []
      else
        match encoder with
        | .map entries => lzssParamsOf room.parameter entries
        | _ => .error .lzssNotAMapping
    return { lzss := params, defaultAlgorithm := algorithm }
  | _ => .error (.notAMapping value)

/-- The configuration that a document describes. A void document describes the defaults. -/
def EngineConfig.ofDocument (room : ShownRoom) (value : Value) :
    Except ConfigError EngineConfig :=
  EngineConfig.ofValue room (if value.isVoid then .map [] else value)

end Compression
