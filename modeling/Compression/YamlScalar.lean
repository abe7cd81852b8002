import Compression.YamlReader

namespace Compression

namespace YamlScan

/-- The break at the end of a line, and those of the empty lines behind it, as the text of a
scalar: a lone line feed is a space, and the first of several is left out. -/
def foldBreaks (lineBreak breaks : List Char) : List Char :=
  (if lineBreak ≠ ['\n'] then lineBreak else if breaks.isEmpty then [' '] else []) ++ breaks

/-- Pieces of text in one, the last piece first in the list. -/
def joined {α : Type} (pieces : List (List α)) : List α :=
  pieces.reverse.flatten

/-! Plain scalars. -/

/-- What lies between two words of a plain scalar. None means that a separator of documents
ends it. -/
def plainGap : YamlScan (Option (List Char)) := do
  let spaces ← takeWhile (· = ' ')
  if isYamlBreak (← peek) then
    let lineBreak ← takeBreak
    setKeyAllowed true
    if ← atSeparator then return none
    let mut breaks : List (List Char) := []
    for _ in [0:← turns] do
      let c ← peek
      if c = ' ' then skip 1
      else if isYamlBreak c then
        breaks := (← takeBreak) :: breaks
        if ← atSeparator then return none
      else break
    return some (foldBreaks lineBreak (joined breaks))
  else return some spaces

/-- How far a word of a plain scalar reaches, if what has been read tells. -/
def plainLength? (inFlow : Bool) : List Char → Option Nat
  | [] => none
  | ':' :: [] => none
  | c :: rest =>
    let ends := isGapOrEnd c || (inFlow && (c = '?' || isFlowMark c)) ||
      (c = ':' && rest.head?.any fun next => isGapOrEnd next || (inFlow && isFlowMark next))
    if ends then some 0 else (plainLength? inFlow rest).map (· + 1)

def plainScalar : YamlScan YamlToken := do
  let indent := (← get).indent + 1
  let inFlow := 0 < (← get).flowLevel
  let mut pieces : List (List Char) := []
  let mut gap : List Char := []
  for _ in [0:← turns] do
    if (← peek) = '#' then break
    let length ← readUntil (plainLength? inFlow) 0
    if length = 0 then break
    setKeyAllowed false
    pieces := (← ahead length) :: gap :: pieces
    skip length
    match ← plainGap with
    | none => break
    | some [] => break
    | some spaces =>
      gap := spaces
      let column : Int := (← get).column
      if (← peek) = '#' || (!inFlow && column < indent) then break
  return .scalar ((joined pieces).map codePoint) true

/-! Quoted scalars. -/

/-- The number that exactly `width` hexadecimal digits write. They are not taken yet. -/
def hexNumber (width : Nat) : YamlScan Nat := do
  for k in [0:width] do
    if (hexValue? (← peekAt k)).isNone then fail .badEscape
  return valueOfDigits 16 ((← get).rest.take width)

/-- The line breaks within a quoted scalar, and the spaces around them, which do not count. -/
def quotedBreaks : YamlScan (List Char) := do
  let mut breaks : List (List Char) := []
  for _ in [0:← turns] do
    if ← atSeparator then fail .misplacedSeparator
    let _ ← takeWhile fun c => c = ' ' || c = '\t'
    if isYamlBreak (← peek) then breaks := (← takeBreak) :: breaks
    else break
  return joined breaks

/-- The code point that `width` hexadecimal digits write. -/
def numericEscape (width : Nat) : YamlScan CodePoint := do
  let n ← hexNumber width
  if h : n < 0x110000 then
    skip width
    return ⟨n, h⟩
  else throw (if n < 2 ^ 31 then .noCodePoint else .hugeCodePoint)

/-- An escape of a double quoted scalar. -/
def doubleEscape : YamlScan Text := do
  skip 1
  let c ← peek
  match simpleEscape? c, escapeWidth? c with
  | some e, _ =>
    skip 1
    return [codePoint e]
  | none, some width =>
    skip 1
    return [← numericEscape width]
  | none, none =>
    if !isYamlBreak c then fail .badEscape
    let _ ← takeBreak
    return (← quotedBreaks).map codePoint

def quotedWords (double : Bool) : YamlScan Text := do
  let mut pieces : List Text := []
  for _ in [0:← turns] do
    let word ← takeWhile fun c => !(isGapOrEnd c || c = '\'' || c = '"' || c = '\\')
    pieces := word.map codePoint :: pieces
    let c ← peek
    if !double && c = '\'' then
      if (← peekAt 1) ≠ '\'' then break
      pieces := [codePoint c] :: pieces
      skip 2
    else if (double && c = '\'') || (!double && (c = '"' || c = '\\')) then
      pieces := [codePoint c] :: pieces
      skip 1
    else if double && c = '\\' then pieces := (← doubleEscape) :: pieces
    else break
  return joined pieces

def quotedGap : YamlScan (List Char) := do
  let spaces ← takeWhile fun c => c = ' ' || c = '\t'
  let c ← peek
  if c = endChar then fail .unclosedScalar
  else if isYamlBreak c then
    let lineBreak ← takeBreak
    return foldBreaks lineBreak (← quotedBreaks)
  else return spaces

def quotedScalar (mark : Char) : YamlScan YamlToken := do
  let double := mark = '"'
  skip 1
  let mut pieces := [← quotedWords double]
  for _ in [0:← turns] do
    if (← peek) = mark then break
    pieces := (← quotedGap).map codePoint :: pieces
    pieces := (← quotedWords double) :: pieces
  skip 1
  return .scalar (joined pieces) false

/-! Block scalars. -/

/-- What becomes of the line breaks at the end of a block scalar. -/
inductive Chomping where
  | strip
  | clip
  | keep
deriving DecidableEq

def blockChomping? : YamlScan (Option Chomping) := do
  match ← peek with
  | '+' =>
    skip 1
    return some .keep
  | '-' =>
    skip 1
    return some .strip
  | _ => return none

def blockIndent? : YamlScan (Option Nat) := do
  let c ← peek
  if c.isDigit then
    if c = '0' then fail .badBlockScalar
    skip 1
    return some (c.toNat - '0'.toNat)
  else return none

def blockHead : YamlScan (Chomping × Option Nat) := do
  match ← blockChomping? with
  | some chomping => return (chomping, ← blockIndent?)
  | none =>
    let indent ← blockIndent?
    let chomping ← if indent.isSome then blockChomping? else pure none
    return (chomping.getD .clip, indent)

/-- Skips a comment and the end of a line on which nothing else may stand. -/
def restOfLine (reason : YamlError.Reason) : YamlScan Unit := do
  let _ ← takeWhile (· = ' ')
  if (← peek) = '#' then
    let _ ← takeWhile fun c => !isBreakOrEnd c
  if !isBreakOrEnd (← peek) then fail reason
  let _ ← takeBreak

/-- The empty lines before a block scalar, and how far the spaces before its text reach. -/
def blockLead : YamlScan (List Char × Nat) := do
  let mut breaks : List (List Char) := []
  let mut deepest := 0
  for _ in [0:← turns] do
    let c ← peek
    if c = ' ' then
      skip 1
      deepest := max deepest (← get).column
    else if isYamlBreak c then breaks := (← takeBreak) :: breaks
    else break
  return (joined breaks, deepest)

/-- Skips spaces up to a column. -/
def spacesTo (column : Nat) : YamlScan Unit := do
  for _ in [0:← turns] do
    if column ≤ (← get).column then break
    if (← peek) ≠ ' ' then break
    skip 1

/-- The empty lines between two lines of a block scalar. -/
def blockBreaks (indent : Nat) : YamlScan (List Char) := do
  let mut breaks : List (List Char) := []
  spacesTo indent
  for _ in [0:← turns] do
    if !isYamlBreak (← peek) then break
    breaks := (← takeBreak) :: breaks
    spacesTo indent
  return joined breaks

/-- Whether a line of a block scalar begins here. -/
def atBlockLine (indent : Nat) : YamlScan Bool := do
  if (← get).column ≠ indent then return false
  return (← peek) ≠ endChar

/-- The lines of a block scalar behind the first empty ones. Lines that begin with a word are
joined if the scalar is folded. -/
def blockLines (folded : Bool) (indent : Nat) (chomping : Chomping) (lead : List Char) :
    YamlScan (List Char) := do
  let mut pieces : List (List Char) := []
  let mut breaks := lead
  let mut lineBreak : List Char := []
  for _ in [0:← turns] do
    if !(← atBlockLine indent) then break
    pieces := breaks :: pieces
    let isWord := !isSpaceOrTab (← peek)
    pieces := (← takeWhile fun c => !isBreakOrEnd c) :: pieces
    lineBreak ← takeBreak
    breaks ← blockBreaks indent
    if !(← atBlockLine indent) then break
    if folded && lineBreak = ['\n'] && isWord && !isSpaceOrTab (← peek) then
      pieces := if breaks.isEmpty then [' '] :: pieces else pieces
    else pieces := lineBreak :: pieces
  if chomping ≠ .strip then pieces := lineBreak :: pieces
  if chomping = .keep then pieces := breaks :: pieces
  return joined pieces

def blockScalar (folded : Bool) : YamlScan YamlToken := do
  skip 1
  let (chomping, increment) ← blockHead
  if !isSpaceOrEnd (← peek) then fail .badBlockScalar
  restOfLine .badBlockScalar
  let least := max 1 ((← get).indent + 1).toNat
  let text ←
    match increment with
    | some n => do
      let indent := least + n - 1
      blockLines folded indent chomping (← blockBreaks indent)
    | none => do
      let (lead, deepest) ← blockLead
      blockLines folded (max least deepest) chomping lead
  return .scalar (text.map codePoint) false

end YamlScan

end Compression
