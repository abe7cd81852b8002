import Compression.NumberText
import Compression.Timestamp

namespace Compression

/-- What a tag says of a node. -/
inductive YamlTag where
  | null
  | bool
  | int
  | float
  | binary
  | timestamp
  | orderedMap
  | pairs
  | set
  | text
  | sequence
  | mapping
  | merge
  | equals
  | indicator
  | other (uri : String)
deriving DecidableEq

def standardTags : List (String × YamlTag) :=
  [("null", .null), ("bool", .bool), ("int", .int), ("float", .float), ("binary", .binary),
    ("timestamp", .timestamp), ("omap", .orderedMap), ("pairs", .pairs), ("set", .set),
    ("str", .text), ("seq", .sequence), ("map", .mapping), ("merge", .merge), ("value", .equals),
    ("yaml", .indicator)]

def standardTagStart : String := "tag:yaml.org,2002:"

def YamlTag.ofUri (uri : String) : YamlTag :=
  match standardTags.find? fun t => standardTagStart ++ t.1 = uri with
  | some t => t.2
  | none => .other uri

/-! What plain text stands for by its form. -/

def trueWords : List String :=
  ["yes", "Yes", "YES", "true", "True", "TRUE", "on", "On", "ON"]

def falseWords : List String :=
  ["no", "No", "NO", "false", "False", "FALSE", "off", "Off", "OFF"]

def isPlainDigit (c : Char) : Bool :=
  c.isDigit || c = '_'

/-- A digit, then digits and low lines. -/
def isDigitRun : List Char → Bool
  | c :: rest => c.isDigit && rest.all isPlainDigit
  | [] => false

/-- Pieces of a list between the places of a separator. -/
def splitAt {α : Type} [DecidableEq α] (separator : α) : List α → List (List α)
  | [] => [[]]
  | c :: rest =>
    if c = separator then [] :: splitAt separator rest
    else
      match splitAt separator rest with
      | [] => [[c]]
      | piece :: pieces => (c :: piece) :: pieces

/-- One or two digits that write a number below sixty. -/
def isSixtieth : List Char → Bool
  | [c] => c.isDigit
  | [t, c] => '0' ≤ t && t ≤ '5' && c.isDigit
  | _ => false

def isIntText (cs : List Char) : Bool :=
  match (splitSign cs).2 with
  | ['0'] => true
  | '0' :: 'b' :: rest => !rest.isEmpty && rest.all fun c => c = '0' || c = '1' || c = '_'
  | '0' :: 'x' :: rest =>
    !rest.isEmpty && rest.all fun c => (hexValue? c).isSome || c = '_'
  | '0' :: rest => rest.all fun c => ('0' ≤ c && c ≤ '7') || c = '_'
  | body =>
    match splitAt ':' body with
    | first :: rest => isDigitRun first && rest.all isSixtieth
    | [] => false

/-- Nothing, or a letter E with a sign and digits. -/
def isExponentText : List Char → Bool
  | [] => true
  | e :: sign :: digits =>
    (e = 'e' || e = 'E') && (sign = '+' || sign = '-') && !digits.isEmpty &&
      digits.all Char.isDigit
  | _ => false

def isInfinityText (cs : List Char) : Bool :=
  [".inf", ".Inf", ".INF"].contains (String.ofList (splitSign cs).2)

def isNanText (cs : List Char) : Bool :=
  [".nan", ".NaN", ".NAN"].contains (String.ofList cs)

def isFloatText (cs : List Char) : Bool :=
  let body := (splitSign cs).2
  let whole := body.takeWhile (· ≠ '.')
  let hasPoint := whole.length < body.length
  let fraction := body.drop (whole.length + 1)
  let exponent := fraction.dropWhile isPlainDigit
  let simple := hasPoint && isDigitRun whole && isExponentText exponent
  let bare := cs.head? = some '.' && isDigitRun (fraction.takeWhile isPlainDigit) &&
    isExponentText exponent
  let sixtieths :=
    match splitAt ':' whole with
    | first :: rest =>
      hasPoint && isDigitRun first && !rest.isEmpty && rest.all isSixtieth &&
        fraction.all isPlainDigit
    | [] => false
  simple || bare || sixtieths || isInfinityText cs || isNanText cs

def nullWords : List String := ["~", "null", "Null", "NULL"]

/-- What text stands for by its form, if no line break ends it. -/
def tagOfWord (word : String) : YamlTag :=
  let cs := word.toList
  if trueWords.contains word || falseWords.contains word then .bool
  else if isFloatText cs then .float
  else if isIntText cs then .int
  else if word = "<<" then .merge
  else if nullWords.contains word then .null
  else if isTimestampText cs then .timestamp
  else if word = "=" then .equals
  else if ["!", "&", "*"].contains word then .indicator
  else .text

/-- What text stands for by its form. A line feed at its end does not count, and nothing at all
stands for nothing. -/
def tagOfText (text : Text) : YamlTag :=
  if text.isEmpty then .null
  else
    let word := if text.getLast? = some (codePoint '\n') then text.dropLast else text
    match string? word with
    | some word => tagOfWord word
    | none => .text

end Compression
