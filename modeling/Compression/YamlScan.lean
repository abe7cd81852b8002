import Compression.YamlScalar

namespace Compression

namespace YamlScan

/-! Names, tags and directives. -/

def anchorName : YamlScan String := do
  skip 1
  let name ← takeWhile isWordChar
  if name.isEmpty then fail .badName
  let c ← peek
  if !(isGapOrEnd c || "?:,]\x7d%@`".contains c) then fail .badName
  return String.ofList name

/-- A run of bytes in percent signs, each with two hexadecimal digits. -/
def percentText : YamlScan (List Char) := do
  let mut bytes : Bytes := []
  for _ in [0:← turns] do
    if (← peek) ≠ '%' then break
    skip 1
    bytes := bytes ++ [UInt8.ofNat (← hexNumber 2)]
    skip 2
  match decodeUtf8 bytes with
  | .ok text => return text
  | .error _ => fail .badTag

def tagUri : YamlScan String := do
  let mut text : List Char := []
  for _ in [0:← turns] do
    text := text ++ (← takeWhile fun c => c.isAlphanum || "-;/?:@&=+$,_.!~*'()[]".contains c)
    if (← peek) ≠ '%' then break
    text := text ++ (← percentText)
  if text.isEmpty then fail .badTag
  return String.ofList text

/-- A handle: an exclamation mark before a space, or a word between two of them. -/
def handleName : YamlScan String := do
  if (← peek) ≠ '!' then fail .badTag
  skip 1
  if (← peek) = ' ' then return "!"
  let word ← takeWhile isWordChar
  if (← peek) ≠ '!' then fail .badTag
  skip 1
  return String.ofList ('!' :: word ++ ['!'])

/-- Whether an exclamation mark stands in a word, if what has been read tells. -/
def holdsMark? : List Char → Option Bool
  | [] => none
  | c :: rest =>
    if c = '!' then some true
    else if isSpaceOrEnd c then some false
    else holdsMark? rest

def tagName : YamlScan YamlToken := do
  let next ← peekAt 1
  if next = '<' then
    skip 2
    let uri ← tagUri
    if (← peek) ≠ '>' then fail .badTag
    skip 1
    return .tag none uri
  else if isGapOrEnd next then
    skip 1
    return .tag none "!"
  else if ← readUntil (fun cs => holdsMark? (cs.drop 1)) false then
    let handle ← handleName
    return .tag (some handle) (← tagUri)
  else
    skip 1
    return .tag (some "!") (← tagUri)

def tagToken : YamlScan YamlToken := do
  let token ← tagName
  if !isSpaceOrEnd (← peek) then fail .badTag
  return token

def versionNumber : YamlScan Nat := do
  let digits ← takeWhile Char.isDigit
  if digits.isEmpty then fail .badDirective
  if maxNumeralLength < digits.length then throw (.badNumber (.tooManyDigits digits.length))
  return valueOfDigits 10 digits

def versionToken : YamlScan YamlToken := do
  let _ ← takeWhile (· = ' ')
  let major ← versionNumber
  if (← peek) ≠ '.' then fail .badDirective
  skip 1
  let minor ← versionNumber
  if !isSpaceOrEnd (← peek) then fail .badDirective
  return .version major minor

def tagHandleToken : YamlScan YamlToken := do
  let _ ← takeWhile (· = ' ')
  let handle ← handleName
  if (← peek) ≠ ' ' then fail .badDirective
  let _ ← takeWhile (· = ' ')
  let uri ← tagUri
  if !isSpaceOrEnd (← peek) then fail .badDirective
  return .tagHandle handle uri

def directive : YamlScan YamlToken := do
  skip 1
  let name ← takeWhile isWordChar
  if name.isEmpty then fail .badDirective
  if !isSpaceOrEnd (← peek) then fail .badDirective
  let token ← match String.ofList name with
    | "YAML" => versionToken
    | "TAG" => tagHandleToken
    | _ => do
      let _ ← takeWhile fun c => !isBreakOrEnd c
      pure YamlToken.otherDirective
  restOfLine .badDirective
  return token

/-! One token after the other. -/

def skipToToken : YamlScan Unit := do
  if (← get).index = 0 then
    if (← peek) = byteOrderMark then skip 1
  for _ in [0:← turns] do
    let _ ← takeWhile (· = ' ')
    if (← peek) = '#' then
      let _ ← takeWhile fun c => !isBreakOrEnd c
    if (← takeBreak).isEmpty then break
    if (← get).flowLevel = 0 then setKeyAllowed true

/-- Leaves all blocks, as the borders of documents do. -/
def leaveBlocks : YamlScan Unit := do
  unwind (-1)
  dropCandidate
  setKeyAllowed false

def separator (t : YamlToken) : YamlScan Unit := do
  leaveBlocks
  skip 3
  push t

def flowStart (t : YamlToken) : YamlScan Unit := do
  noteCandidate
  modify fun r => { r with flowLevel := r.flowLevel + 1 }
  setKeyAllowed true
  skip 1
  push t

def flowEnd (t : YamlToken) : YamlScan Unit := do
  dropCandidate
  modify fun r => { r with flowLevel := r.flowLevel - 1 }
  setKeyAllowed false
  skip 1
  push t

def flowComma : YamlScan Unit := do
  setKeyAllowed true
  dropCandidate
  skip 1
  push .flowEntry

/-- Where a mark may open a block: outside of brackets, at the place of a key. -/
def openBlock (start : YamlToken) (reason : YamlError.Reason) : YamlScan Unit := do
  if (← get).flowLevel = 0 then
    if !(← get).keyAllowed then fail reason
    if ← indentTo (← get).column then push start

def blockDash : YamlScan Unit := do
  openBlock .blockSequenceStart .misplacedEntry
  setKeyAllowed true
  dropCandidate
  skip 1
  push .blockEntry

def keyMark : YamlScan Unit := do
  openBlock .blockMappingStart .misplacedKey
  setKeyAllowed ((← get).flowLevel = 0)
  dropCandidate
  skip 1
  push .key

/-- Puts tokens in before the one with a number. -/
def insertTokens (number : Nat) (new : List YamlToken) : YamlScan Unit :=
  modify fun r =>
    let place := number - r.taken
    { r with tokens := r.tokens.take place ++ new ++ r.tokens.drop place }

def valueMark : YamlScan Unit := do
  let r ← get
  match r.candidates.lookup r.flowLevel with
  | some c =>
    set { r with candidates := r.candidates.filter fun e => e.1 ≠ r.flowLevel }
    let opened ← if r.flowLevel = 0 then indentTo c.column else pure false
    insertTokens c.token (if opened then [.blockMappingStart, .key] else [.key])
    setKeyAllowed false
  | none =>
    openBlock .blockMappingStart .misplacedValue
    setKeyAllowed ((← get).flowLevel = 0)
    dropCandidate
  skip 1
  push .value

/-- A token that can be a key. -/
def nodeToken (scan : YamlScan YamlToken) : YamlScan Unit := do
  noteCandidate
  setKeyAllowed false
  push (← scan)

def blockText (folded : Bool) : YamlScan Unit := do
  setKeyAllowed true
  dropCandidate
  push (← blockScalar folded)

/-- Whether the next character is a mark with a gap behind it. -/
def atMark (mark : Char) : YamlScan Bool := do
  if (← peek) ≠ mark then return false
  return isGapOrEnd (← peekAt 1)

/-- Whether the next character is a mark, which needs no gap behind it within brackets. -/
def atLooseMark (mark : Char) : YamlScan Bool := do
  if 0 < (← get).flowLevel then return (← peek) = mark
  else atMark mark

/-- Whether a line that divides documents begins here, in the first column. -/
def atOuterSeparator : YamlScan Bool := do
  if (← get).column ≠ 0 then return false
  let c ← peek
  if c = '-' || c = '.' then atSeparator else return false

/-- Characters that begin no plain scalar, or only before a character that is no gap. -/
def yamlIndicators : String := "-?:,[]\x7b\x7d#&*!|>'\"%@`"

/-- Whether a plain scalar begins here. -/
def atPlain : YamlScan Bool := do
  let c ← peek
  if !(isGapOrEnd c || yamlIndicators.contains c) then return true
  let next ← peekAt 1
  let inFlow := 0 < (← get).flowLevel
  return !isGapOrEnd next && (c = '-' || (!inFlow && (c = '?' || c = ':')))

/-- Reads one token, and those that it implies. -/
def fetch : YamlScan Unit := do
  skipToToken
  dropStale
  unwind (← get).column
  let c ← peek
  let inFlow := 0 < (← get).flowLevel
  if c = endChar then
    leaveBlocks
    push .streamEnd
    modify fun r => { r with finished := true, candidates := [] }
  else if c = '%' && (← get).column = 0 then
    leaveBlocks
    push (← directive)
  else if ← atOuterSeparator then
    separator (if c = '-' then .documentStart else .documentEnd)
  else if c = '[' then flowStart .flowSequenceStart
  else if c = '\x7b' then flowStart .flowMappingStart
  else if c = ']' then flowEnd .flowSequenceEnd
  else if c = '\x7d' then flowEnd .flowMappingEnd
  else if c = ',' then flowComma
  else if ← atMark '-' then blockDash
  else if ← atLooseMark '?' then keyMark
  else if ← atLooseMark ':' then valueMark
  else if c = '*' then nodeToken do return .alias (← anchorName)
  else if c = '&' then nodeToken do return .anchor (← anchorName)
  else if c = '!' then nodeToken tagToken
  else if c = '|' && !inFlow then blockText false
  else if c = '>' && !inFlow then blockText true
  else if c = '\'' || c = '"' then nodeToken (quotedScalar c)
  else if ← atPlain then nodeToken plainScalar
  else fail .unexpectedCharacter

/-- Whether the first token is not settled: there is none, or a mark may come in before it. -/
def needsMore : YamlScan Bool := do
  if (← get).finished then return false
  if (← get).tokens.isEmpty then return true
  dropStale
  let r ← get
  return r.candidates.any fun e => e.2.token = r.taken

/-- Reads on until the first token is settled. -/
def settle : YamlScan Unit := do
  for _ in [0:← turns] do
    if ← needsMore then fetch else break

/-- The next token. -/
def peekToken : YamlScan YamlToken := do
  settle
  return (← get).tokens.headD .streamEnd

def skipToken : YamlScan Unit := do
  settle
  modify fun r => { r with tokens := r.tokens.tail, taken := r.taken + 1 }

end YamlScan

/-- A reader at the beginning of a file. -/
def yamlReader (data : Bytes) : YamlReader where
  blocks := textBlocks data
  size := data.length + 1

end Compression
