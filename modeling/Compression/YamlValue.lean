import Compression.Base64
import Compression.EntryTable
import Compression.LowerCase
import Compression.NumberSet
import Compression.YamlNode

namespace Compression

/-! Values of text. -/

def dropLowLines (t : Text) : Text :=
  t.filter (· ≠ codePoint '_')

/-- Whether a minus sign leads, and what follows the sign. There has to be something to begin
with. -/
def splitTextSign (t : Text) : Except DocumentError (Bool × Text) :=
  match t with
  | [] => .error .emptyNumber
  | p :: rest =>
    if p = codePoint '-' then .ok (true, rest)
    else if p = codePoint '+' then .ok (false, rest)
    else .ok (false, t)

def wholeIn (base : Nat) (t : Text) : Except DocumentError Int :=
  match wholeOfText base t with
  | .ok n => .ok n
  | .error e => .error (.badNumber e)

def floatIn (t : Text) : Except DocumentError Float :=
  match floatOfText t with
  | .ok x => .ok x
  | .error e => .error (.badNumber e)

/-- The whole number that text writes: in base two, eight, ten or sixteen, or in places of
sixty. -/
def intOfDocument (t : Text) : Except DocumentError Int := do
  let (negative, body) ← splitTextSign (dropLowLines t)
  let zero := codePoint '0'
  let magnitude ←
    match body with
    | [] => .error .emptyNumber
    | first :: rest =>
      if body = [zero] then .ok 0
      else if first = zero && rest.head? = some (codePoint 'b') then wholeIn 2 rest.tail
      else if first = zero && rest.head? = some (codePoint 'x') then wholeIn 16 rest.tail
      else if first = zero then wholeIn 8 body
      else if body.contains (codePoint ':') then do
        let places ← (splitAt (codePoint ':') body).mapM (wholeIn 10)
        .ok (places.foldl (fun n d => 60 * n + d) 0)
      else wholeIn 10 body
  return if negative then -magnitude else magnitude

/-- The sum of places of sixty, the last one first. Each place is worked out on its own. -/
def sumSixtieths (sum : Float) (base : Nat) : List Float → Except DocumentError Float
  | [] => .ok sum
  | x :: rest =>
    match floatOfInt? base with
    | none => .error .tooManySixtieths
    | some b => sumSixtieths (sum + x * b) (60 * base) rest

/-- The text of a number without its sign, in lower case. -/
def floatBody (t : Text) : Except DocumentError (Bool × Text) :=
  splitTextSign (lowerText (dropLowLines t))

/-- The double that text writes, perhaps in places of sixty. -/
def floatOfDocument (t : Text) : Except DocumentError Float := do
  let (negative, body) ← floatBody t
  if body = textOf ".nan" then return notANumber
  let magnitude ←
    if body = textOf ".inf" then .ok infinity
    else if body.contains (codePoint ':') then do
      let places ← (splitAt (codePoint ':') body).mapM floatIn
      sumSixtieths 0.0 1 places.reverse
    else floatIn body
  return if negative then -magnitude else magnitude

def truthOfDocument (t : Text) : Except DocumentError Bool :=
  match string? (lowerText t) with
  | none => .error .notATruth
  | some word =>
    if trueWords.contains word then .ok true
    else if falseWords.contains word then .ok false
    else .error .notATruth

/-- The day or moment that text of its form writes. A line feed may end the text. -/
def timestampOfDocument (t : Text) : Except DocumentError Timestamp :=
  let body := if t.getLast? = some (codePoint '\n') then t.dropLast else t
  match (body.mapM char?).bind timestamp? with
  | none => .error .notATimestamp
  | some t =>
    match t.check with
    | .ok t => .ok t
    | .error e => .error (.badTimestamp e)

def malformed {α : Type} (reason : YamlError.Reason) : Except DocumentError α :=
  .error (.malformed { reason })

/-- The bytes that text of base 64 writes. There are only basic Latin characters in it. -/
def bytesOfDocument (t : Text) : Except DocumentError Bytes :=
  match (t.mapM char?).bind fun cs => if cs.all (·.toNat < 0x80) then decodeBase64 cs else none with
  | none => malformed .badBase64
  | some data => .ok data

/-! Values of nodes. -/

/-- Values that have been made of the nodes of a document. The nodes change, since a mapping takes
over the entries of others. -/
structure Construction where
  nodes : Array YamlNode
  /-- No way through the document has more steps, unless it goes round in a circle. -/
  limit : Nat
  made : Array (Option DocumentItem)
  boxes : Array DocumentBox := #[]
  /-- The nodes of the collections, in the order in which they are filled. -/
  sources : Array Nat := #[]

abbrev Construct := StateT Construction (Except DocumentError)

namespace Construct

def fail {α : Type} (reason : YamlError.Reason) : Construct α :=
  throw (.malformed { reason })

def nodeAt (number : Nat) : Construct YamlNode :=
  return (← get).nodes.getD number { tag := .null, content := .scalar [] }

def setEntries (number : Nat) (entries : List (Nat × Nat)) : Construct Unit :=
  modify fun c =>
    { c with nodes := c.nodes.modify number fun n => { n with content := .mapping entries } }

def setTag (number : Nat) (tag : YamlTag) : Construct Unit :=
  modify fun c => { c with nodes := c.nodes.modify number fun n => { n with tag } }

/-- The entries of a mapping. -/
def entriesOf (number : Nat) : Construct (List (Nat × Nat)) := do
  match (← nodeAt number).content with
  | .mapping entries => return entries
  | _ => fail .wrongKind

def itemsOf (number : Nat) : Construct (List Nat) := do
  match (← nodeAt number).content with
  | .sequence items => return items
  | _ => fail .wrongKind

/-- The text of a node. In place of text there may be a mapping, of which the value of the key
that is an equals sign counts. -/
def textOfNode : Nat → Nat → Construct Text
  | 0, _ => throw .tooDeep
  | fuel + 1, number => do
    match (← nodeAt number).content with
    | .scalar text => return text
    | .sequence _ => fail .wrongKind
    | .mapping entries =>
      match ← entries.findM? fun e => return (← nodeAt e.1).tag = .equals with
      | some e => textOfNode fuel e.2
      | none => fail .wrongKind

/-- The entries that a mapping takes over from a node: those of a mapping, or of all mappings of a
list, the last one first. -/
def entriesToMerge (flatten : Nat → Construct Unit) (number : Nat) :
    Construct (List (Nat × Nat)) := do
  match (← nodeAt number).content with
  | .scalar _ => fail .badMerge
  | .mapping _ =>
    flatten number
    entriesOf number
  | .sequence items =>
    let mut groups : List (List (Nat × Nat)) := []
    for item in items do
      match (← nodeAt item).content with
      | .mapping _ =>
        flatten item
        groups := (← entriesOf item) :: groups
      | _ => fail .badMerge
    return groups.flatten

/-- Makes text of the equals signs among the keys of a mapping. The answer is whether there are
merge keys. -/
def relabelKeys (number : Nat) : Construct Bool := do
  let mut merges := false
  for (key, _) in ← entriesOf number do
    match (← nodeAt key).tag with
    | .merge => merges := true
    | .equals => setTag key .text
    | _ => pure ()
  return merges

/-- Replaces the merge keys of a mapping by the entries that they ask for, in front of its own. An
equals sign as a key becomes text. -/
def flatten : Nat → Nat → Construct Unit
  | 0, _ => throw .tooDeep
  | fuel + 1, number => do
    if !(← relabelKeys number) then return
    let mut merged : List (Nat × Nat) := []
    let mut place := 0
    for _ in ← entriesOf number do
      let entries ← entriesOf number
      match entries[place]? with
      | none => break
      | some (key, value) =>
        if (← nodeAt key).tag = .merge then
          setEntries number (entries.eraseIdx place)
          merged := merged ++ (← entriesToMerge (flatten fuel) value)
        else place := place + 1
    if !merged.isEmpty then setEntries number (merged ++ (← entriesOf number))

/-- The value of a node that is no collection. -/
def plainValue (number : Nat) (tag : YamlTag) : Construct Value := do
  if [YamlTag.merge, .equals, .indicator].contains tag then fail .unknownTag
  if let .other _ := tag then fail .unknownTag
  let text ← textOfNode (← get).limit number
  match tag with
  | .null => return .null
  | .bool => return .bool (← truthOfDocument text)
  | .int => return .int (← intOfDocument text)
  | .float => return .float (← floatOfDocument text)
  | .binary => return .bytes (← bytesOfDocument text)
  | .timestamp =>
    match (← nodeAt number).content with
    | .scalar _ => return .timestamp (← timestampOfDocument text)
    | _ => throw .wrappedTimestamp
  | _ => return .text text

/-- The collection that a tag asks for, still empty. -/
def emptyBox? : YamlTag → Option DocumentBox
  | .sequence => some (.list [])
  | .mapping => some (.map [])
  | .set => some (.set [])
  | .orderedMap | .pairs => some (.pairs [])
  | _ => none

/-- The item of a node. Each node makes one item. A collection is filled later. -/
def item (number : Nat) : Construct DocumentItem := do
  match (← get).made.getD number none with
  | some made => return made
  | none =>
    let tag := (← nodeAt number).tag
    let new ← match emptyBox? tag with
      | none => pure (DocumentItem.leaf (← plainValue number tag))
      | some box => do
        let place := (← get).boxes.size
        modify fun c => { c with boxes := c.boxes.push box, sources := c.sources.push number }
        pure (DocumentItem.box place)
    modify fun c => { c with made := c.made.setIfInBounds number (some new) }
    return new

/-- The origin of a key is its node, save that the word for what is not a number always means the
same one. -/
def originOf (number : Nat) : Construct Nat := do
  let node ← nodeAt number
  if node.tag ≠ .float then return number
  match floatBody (← textOfNode (← get).limit number) with
  | .ok (_, body) =>
    if body = textOf ".nan" then return (← get).nodes.size
    else return number
  | .error _ => return number

/-- The entries of a mapping, in which no key is a collection. -/
def mappingEntries (number : Nat) : Construct (List (Value × DocumentItem)) := do
  let _ ← entriesOf number
  flatten (← get).limit number
  let mut table : EntryTable := {}
  for (key, value) in ← entriesOf number do
    match ← item key with
    | .box _ => fail .unhashableKey
    | .leaf v =>
      let form := v.keyForm (← originOf key)
      table := table.put form v (← item value)
  return table.entries.toList

/-- The only entry of a mapping, as a pair. -/
def onlyEntry (number : Nat) : Construct (DocumentItem × DocumentItem) := do
  match ← entriesOf number with
  | [(key, value)] =>
    let first ← item key
    return (first, ← item value)
  | _ => fail .wrongKind

/-- What belongs into a collection. -/
def contents (number : Nat) : DocumentBox → Construct DocumentBox
  | .list _ => return .list (← (← itemsOf number).mapM item)
  | .map _ => return .map (← mappingEntries number)
  | .set _ => return .set (listedMembers ((← mappingEntries number).map (·.1)))
  | .pairs _ => return .pairs (← (← itemsOf number).mapM onlyEntry)

/-- Fills the collections in the order in which they came up. Each comes from a node of its
own. -/
def fillAll : Construct Unit := do
  for place in [0:(← get).nodes.size] do
    let c ← get
    match c.sources[place]?, c.boxes[place]? with
    | some number, some box =>
      let full ← contents number box
      modify fun c => { c with boxes := c.boxes.setIfInBounds place full }
    | _, _ => break

end Construct

/-- How many entries and nodes there are, and one more. -/
def YamlDocument.size (d : YamlDocument) : Nat :=
  let size := fun n : YamlNode =>
    match n.content with
    | .mapping entries => entries.length + 1
    | _ => 1
  d.nodes.foldl (fun total n => total + size n) 1

/-- The values of a document. -/
def YamlDocument.construct (d : YamlDocument) : Except DocumentError Document := do
  let build : Construct DocumentItem := do
    let root ← Construct.item d.root
    Construct.fillAll
    return root
  let made := Array.replicate d.nodes.size none
  let (root, c) ← build.run { nodes := d.nodes, limit := d.size, made }
  return { boxes := c.boxes, root }

/-- The document that a file describes; an empty file describes nothing. -/
def readDocument (data : Bytes) : Except DocumentError Document := do
  match ← yamlDocument data with
  | none => return { boxes := #[], root := .leaf .null }
  | some d => d.construct

end Compression
