import Compression.Blank
import Compression.NumberText
import Compression.Value

namespace Compression

inductive Algorithm where
  | huffman
  | lzss
  | dct
deriving DecidableEq

def Algorithm.all : List Algorithm := [.huffman, .lzss, .dct]

def Algorithm.name : Algorithm → String
  | .huffman => "HUFFMAN"
  | .lzss => "LZSS"
  | .dct => "DCT"

def Algorithm.number : Algorithm → Int
  | .huffman => 0
  | .lzss => 1
  | .dct => 2

def Algorithm.ofName? (name : String) : Option Algorithm :=
  Algorithm.all.find? fun a => a.name = name

def Algorithm.ofNumber? (n : Int) : Option Algorithm :=
  Algorithm.all.find? fun a => a.number = n

/-- The characters beyond basic Latin whose capital form is written in basic Latin letters. -/
def latinCapitals : List (Nat × List Char) :=
  [(0xdf, ['S', 'S']), (0x131, ['I']), (0x17f, ['S']), (0xfb00, ['F', 'F']), (0xfb01, ['F', 'I']),
    (0xfb02, ['F', 'L']), (0xfb03, ['F', 'F', 'I']), (0xfb04, ['F', 'F', 'L']),
    (0xfb05, ['S', 'T']), (0xfb06, ['S', 'T'])]

/-- The capital form of a character, if basic Latin letters write it; else the character. -/
def capitals (c : Char) : List Char :=
  if c.toNat < 0x80 then [c.toUpper] else (latinCapitals.lookup c.toNat).getD [c]

/-- How a selector is compared: without white space at its ends, and in capitals. -/
def selectorName (s : String) : List Char :=
  (trimBlanks s.toList).flatMap capitals

/-- Why a selector does not lead to an algorithm. -/
inductive SelectorError where
  | unknown (selector : Value)
  /-- An unknown selector that cannot be shown. -/
  | unshowable (e : Unshowable)
  /-- All digits, but not all of them stand in places of ten, or there are too many. -/
  | badNumber (e : NumberError)

def SelectorError.message : SelectorError → String
  | .unknown selector => s!"Unknown algorithm {selector.render}"
  | .unshowable e => e.message
  | .badNumber e => e.message

/-- The error that reports a selector. -/
def reportSelector (room : Nat) (selector : Value) : SelectorError :=
  match selector.unshowable? room with
  | some e => .unshowable e
  | none => .unknown selector

/-- The algorithm with a number. -/
def algorithmOfNumber (room : Nat) (n : Int) : Except SelectorError Algorithm :=
  match Algorithm.ofNumber? n with
  | some a => .ok a
  | none => .error (reportSelector room (.int n))

/-- The algorithm that a word names, or the digits of its number. -/
def algorithmOfWord (room : Nat) (word : String) : Except SelectorError Algorithm :=
  let name := selectorName word
  match Algorithm.ofName? (String.ofList name) with
  | some a => .ok a
  | none =>
    if !name.isEmpty && name.all isDigit then
      match wholeOfText 10 (name.map codePoint) with
      | .ok n => algorithmOfNumber room n
      | .error e => .error (.badNumber e)
    else .error (.unknown (.text word))

/-- The algorithm that a value names, by its name or by its number. No more than so many values may
lie in each other to be reported. -/
def Algorithm.parse (room : Nat) (selector : Value) : Except SelectorError Algorithm :=
  match selector with
  | .text t =>
    match string? t with
    | some word => algorithmOfWord room word
    | none => .error (.unknown selector)
  | _ =>
    match selector.whole?.bind Algorithm.ofNumber? with
    | some a => .ok a
    | none => .error (reportSelector room selector)

end Compression
