import Compression.DocumentError
import Compression.TextBlock
import Compression.YamlToken

namespace Compression

/-- A place where a key may have begun that no mark announces. If a colon follows on the same
line, the mark is put in before the token with this number. -/
structure KeyCandidate where
  token : Nat
  required : Bool
  index : Nat
  line : Nat
  column : Nat

/-- The state of a reader of tokens, which reads no further than it has to. -/
structure YamlReader where
  /-- Blocks that have not been read yet. -/
  blocks : List TextBlock
  /-- More than the number of all characters. -/
  size : Nat
  /-- What has been read and not been taken yet. -/
  rest : List Char := []
  index : Nat := 0
  line : Nat := 0
  column : Nat := 0
  /-- Tokens that have not been taken yet. -/
  tokens : List YamlToken := []
  /-- How many tokens have been taken. -/
  taken : Nat := 0
  finished : Bool := false
  indent : Int := -1
  outerIndents : List Int := []
  flowLevel : Nat := 0
  keyAllowed : Bool := true
  candidates : List (Nat × KeyCandidate) := []

abbrev YamlScan := StateT YamlReader (Except DocumentError)

/-- The reader behind its next character. -/
def YamlReader.skip (r : YamlReader) : YamlReader :=
  match r.rest with
  | [] => r
  | c :: rest =>
    let r := { r with rest, index := r.index + 1 }
    if isYamlBreak c then { r with line := r.line + 1, column := 0 }
    else if c = byteOrderMark then r
    else { r with column := r.column + 1 }

def YamlReader.skipMany (n : Nat) (r : YamlReader) : YamlReader :=
  n.repeat YamlReader.skip r

namespace YamlScan

def fail {α : Type} (reason : YamlError.Reason) : YamlScan α := do
  throw (.malformed { reason, line := (← get).line })

/-- Reads one more block. Behind the last one stands the end of the text. -/
def load : YamlScan Unit := do
  let r ← get
  match r.blocks with
  | [] => return
  | .error e :: _ => throw (.notText e)
  | .ok block :: blocks =>
    if !block.all isYamlChar then fail .unprintable
    else if block.isEmpty then set { r with rest := r.rest ++ [endChar], blocks := [] }
    else set { r with rest := r.rest ++ block, blocks }

/-- Reads on until what is there tells an answer. -/
def readUntil {α : Type} (answer? : List Char → Option α) (instead : α) : YamlScan α := do
  for _ in [0:(← get).blocks.length + 1] do
    match answer? (← get).rest with
    | some a => return a
    | none => load
  return instead

/-- The character `k` places ahead. -/
def peekAt (k : Nat) : YamlScan Char :=
  readUntil (fun cs => cs[k]?) endChar

def peek : YamlScan Char :=
  peekAt 0

/-- Reads on until so many characters stand ahead, if there are so many. -/
def demand (n : Nat) : YamlScan Unit :=
  readUntil (fun cs => if n ≤ (cs.take n).length then some () else none) ()

/-- Takes characters. The one behind them is looked at, too. -/
def skip (n : Nat) : YamlScan Unit := do
  demand (n + 1)
  modify (YamlReader.skipMany n)

/-- The next characters, fewer than `n` at the end. -/
def ahead (n : Nat) : YamlScan (List Char) := do
  demand n
  return (← get).rest.take n

/-- Takes the longest run of characters of a class, in which the end is not. -/
def takeWhile (p : Char → Bool) : YamlScan (List Char) := do
  readUntil (fun cs => if cs.all p then none else some ()) ()
  let run := (← get).rest.takeWhile p
  skip run.length
  return run

/-- Takes a line break, if there is one, as a single character. -/
def takeBreak : YamlScan (List Char) := do
  let c ← peek
  if !isYamlBreak c then return []
  skip 1
  return [if c = '\x85' then '\n' else c]

/-- As many turns as there are characters, and one more. -/
def turns : YamlScan Nat :=
  return (← get).size + 1

/-- Whether a line of three equal marks that divides documents begins here. -/
def atSeparator : YamlScan Bool := do
  let marks ← ahead 3
  if marks = ['-', '-', '-'] || marks = ['.', '.', '.'] then return isGapOrEnd (← peekAt 3)
  else return false

def push (t : YamlToken) : YamlScan Unit :=
  modify fun r => { r with tokens := r.tokens ++ [t] }

/-! Candidates for keys and indentation. -/

def dropCandidate : YamlScan Unit := do
  let r ← get
  match r.candidates.lookup r.flowLevel with
  | none => return
  | some c =>
    if c.required then fail .missingColon
    else set { r with candidates := r.candidates.filter fun e => e.1 ≠ r.flowLevel }

/-- A key and its colon stand on one line, no more than 1024 characters apart. -/
def dropStale : YamlScan Unit := do
  let r ← get
  let stale := fun (c : KeyCandidate) => c.line ≠ r.line || c.index + 1024 < r.index
  if r.candidates.any fun e => stale e.2 && e.2.required then fail .missingColon
  else set { r with candidates := r.candidates.filter fun e => !stale e.2 }

def noteCandidate : YamlScan Unit := do
  if (← get).keyAllowed then
    dropCandidate
    modify fun r =>
      let candidate := {
        token := r.taken + r.tokens.length
        required := r.flowLevel = 0 ∧ r.indent = r.column
        index := r.index
        line := r.line
        column := r.column }
      { r with candidates := (r.flowLevel, candidate) :: r.candidates }

def setKeyAllowed (b : Bool) : YamlScan Unit :=
  modify fun r => { r with keyAllowed := b }

/-- Closes all blocks that are indented more than `column`. -/
def unwind (column : Int) : YamlScan Unit :=
  modify fun r =>
    if 0 < r.flowLevel then r
    else
      let closed := (r.indent :: r.outerIndents).takeWhile fun i => column < i
      let left := (r.indent :: r.outerIndents).drop closed.length
      { r with
        indent := left.headD (-1)
        outerIndents := left.tail
        tokens := r.tokens ++ List.replicate closed.length YamlToken.blockEnd }

/-- Opens a block at a column, unless one is open there. -/
def indentTo (column : Nat) : YamlScan Bool := do
  let r ← get
  if r.indent < column then
    set { r with indent := (column : Int), outerIndents := r.indent :: r.outerIndents }
    return true
  else return false

end YamlScan

end Compression
