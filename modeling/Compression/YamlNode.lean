import Compression.YamlScan
import Compression.YamlTag

namespace Compression

/-- What a node holds; other nodes by their numbers. -/
inductive YamlContent where
  | scalar (text : Text)
  | sequence (items : List Nat)
  | mapping (entries : List (Nat × Nat))

/-- A node of a document. Since an alias can name a node again, also inside of itself, the nodes
form no tree. -/
structure YamlNode where
  tag : YamlTag
  content : YamlContent

/-- What is known while a document is read. -/
structure YamlContext where
  handles : List (String × String) := []
  anchors : List (String × Nat) := []
  nodes : Array YamlNode := #[]

abbrev YamlRead := StateT YamlContext YamlScan

def standardHandles : List (String × String) :=
  [("!", "!"), ("!!", standardTagStart)]

/-- How deep the nodes of a document may lie in each other. -/
def maxNesting : Nat := 488

namespace YamlRead

def fail {α : Type} (reason : YamlError.Reason) : YamlRead α :=
  YamlScan.fail reason

def peek : YamlRead YamlToken :=
  YamlScan.peekToken

def skip : YamlRead Unit :=
  YamlScan.skipToken

def turns : YamlRead Nat :=
  YamlScan.turns

/-- Takes the next token if it is the given one. -/
def accept (t : YamlToken) : YamlRead Bool := do
  if (← peek) ≠ t then return false
  skip
  return true

def expect (t : YamlToken) : YamlRead Unit := do
  if !(← accept t) then fail .unexpectedToken

/-- Adds a node and answers its number. -/
def addNode (tag : YamlTag) (content : YamlContent) : YamlRead Nat := do
  let number := (← get).nodes.size
  modify fun c => { c with nodes := c.nodes.push { tag, content } }
  return number

/-- What stands where a node is missing. -/
def emptyNode : YamlRead Nat :=
  addNode .null (.scalar [])

def takeAnchor : YamlRead (Option String) := do
  match ← peek with
  | .anchor name =>
    skip
    return some name
  | _ => return none

def takeTag : YamlRead (Option (Option String × String)) := do
  match ← peek with
  | .tag handle suffix =>
    skip
    return some (handle, suffix)
  | _ => return none

/-- A tag in full. A handle has to be known. -/
def fullTag : Option String × String → YamlRead String
  | (none, suffix) => return suffix
  | (some handle, suffix) => do
    match (← get).handles.lookup handle with
    | some uri => return uri ++ suffix
    | none => fail .unknownHandle

/-- The tag and the anchor in front of a node. -/
structure Properties where
  anchor : Option String
  tag : Option String

/-- Takes an anchor and a tag, in either order. -/
def properties : YamlRead Properties := do
  let first ← takeAnchor
  let tag ← takeTag
  let anchor ← if first.isNone && tag.isSome then takeAnchor else pure first
  return { anchor, tag := ← tag.mapM fullTag }

/-- The tag of a node. If there is none, or only an exclamation mark, the node itself tells. -/
def Properties.tagOr (p : Properties) (own : YamlTag) : YamlTag :=
  match p.tag with
  | none => own
  | some uri => if uri = "!" then own else .ofUri uri

/-- The tag of text. An exclamation mark makes it count as plain. -/
def Properties.tagOfScalar (p : Properties) (plain : Bool) (text : Text) : YamlTag :=
  p.tagOr (if plain || p.tag.isSome then tagOfText text else .text)

/-- Where a node may stand: in brackets, in a block, or as the value of a key in a block, where a
list need not be indented. -/
inductive Place where
  | flow
  | block
  | blockValue
deriving DecidableEq

/-- How a node goes on behind its properties. -/
inductive Opening where
  | text (text : Text) (plain : Bool)
  | blockItems
  | looseItems
  | flowItems
  | blockEntries
  | flowEntries

/-- Looks at how a node goes on. Properties alone make an empty node. -/
def opening (place : Place) (p : Properties) : YamlRead Opening := do
  match ← peek with
  | .blockEntry => if place = .blockValue then return .looseItems else nothing
  | .scalar text plain =>
    skip
    return .text text plain
  | .flowSequenceStart => return .flowItems
  | .flowMappingStart => return .flowEntries
  | .blockSequenceStart => if place ≠ .flow then return .blockItems else nothing
  | .blockMappingStart => if place ≠ .flow then return .blockEntries else nothing
  | _ => nothing
where
  nothing : YamlRead Opening :=
    if p.anchor.isSome || p.tag.isSome then return .text [] true else fail .unexpectedToken

/-- A node, or an empty one if one of the given tokens follows. -/
def nodeUnless (node : YamlRead Nat) (ends : List YamlToken) : YamlRead Nat := do
  if ends.contains (← peek) then emptyNode else node

/-- A value behind its mark; an empty node if there is none. -/
def valueUnless (node : YamlRead Nat) (ends : List YamlToken) : YamlRead Nat := do
  if ← accept .value then nodeUnless node ends else emptyNode

section

-- How the nodes within a node are read.
variable (node : Place → YamlRead Nat)

/-- The items of a list in a block, and its end. -/
def blockItems : YamlRead (List Nat) := do
  let mut items : Array Nat := #[]
  for _ in [0:← turns] do
    if !(← accept .blockEntry) then break
    items := items.push (← nodeUnless (node .block) [.blockEntry, .blockEnd])
  expect .blockEnd
  return items.toList

/-- The items of a list that is not indented, the end of which nothing tells. -/
def looseItems : YamlRead (List Nat) := do
  let mut items : Array Nat := #[]
  for _ in [0:← turns] do
    if !(← accept .blockEntry) then break
    items := items.push (← nodeUnless (node .block) [.blockEntry, .key, .value, .blockEnd])
  return items.toList

/-- The entries of a block, and its end. What is missing behind a mark is an empty node. -/
def blockEntries : YamlRead (List (Nat × Nat)) := do
  let ends := [YamlToken.key, .value, .blockEnd]
  let mut entries : Array (Nat × Nat) := #[]
  for _ in [0:← turns] do
    if !(← accept .key) then break
    let key ← nodeUnless (node .blockValue) ends
    entries := entries.push (key, ← valueUnless (node .blockValue) ends)
  expect .blockEnd
  return entries.toList

/-- Whether one more part follows in brackets, behind a comma unless it is the first. -/
def partFollows (first : Bool) (last : YamlToken) : YamlRead Bool := do
  if (← peek) = last then return false
  if !first then expect .flowEntry
  return (← peek) ≠ last

/-- The key and the value behind a mark in brackets. -/
def flowEntry (last : YamlToken) : YamlRead (Nat × Nat) := do
  let key ← nodeUnless (node .flow) [.value, .flowEntry, last]
  return (key, ← valueUnless (node .flow) [.flowEntry, last])

/-- The items of a list in brackets. A key in it begins a mapping of one entry. -/
def flowItems : YamlRead (List Nat) := do
  let last := YamlToken.flowSequenceEnd
  let mut items : Array Nat := #[]
  for _ in [0:← turns] do
    if !(← partFollows items.isEmpty last) then break
    if ← accept .key then
      let entry ← flowEntry node last
      items := items.push (← addNode .mapping (.mapping [entry]))
    else items := items.push (← node .flow)
  expect last
  return items.toList

/-- The entries of a mapping in brackets. -/
def flowEntries : YamlRead (List (Nat × Nat)) := do
  let last := YamlToken.flowMappingEnd
  let mut entries : Array (Nat × Nat) := #[]
  for _ in [0:← turns] do
    if !(← partFollows entries.isEmpty last) then break
    if ← accept .key then entries := entries.push (← flowEntry node last)
    else
      let key ← node .flow
      entries := entries.push (key, ← emptyNode)
  expect last
  return entries.toList

/-- Reads what a collection holds. -/
def collection : Opening → YamlRead YamlContent
  | .text text _ => return .scalar text
  | .looseItems => return .sequence (← looseItems node)
  | .blockItems => do
    skip
    return .sequence (← blockItems node)
  | .flowItems => do
    skip
    return .sequence (← flowItems node)
  | .blockEntries => do
    skip
    return .mapping (← blockEntries node)
  | .flowEntries => do
    skip
    return .mapping (← flowEntries node)

end

/-- The tag of a node, and what it holds before it has been read. -/
def Opening.begin (p : Properties) : Opening → YamlNode
  | .text t plain => { tag := p.tagOfScalar plain t, content := .scalar t }
  | .blockItems | .looseItems | .flowItems =>
    { tag := p.tagOr .sequence, content := .sequence [] }
  | .blockEntries | .flowEntries => { tag := p.tagOr .mapping, content := .mapping [] }

/-- Reads a node. Its anchor names it before it is read to its end. -/
def node : Nat → Place → YamlRead Nat
  | 0, _ => throw .tooDeep
  | fuel + 1, place => do
    match ← peek with
    | .alias name =>
      skip
      match (← get).anchors.lookup name with
      | some number => return number
      | none => fail .unknownAlias
    | _ =>
      let p ← properties
      let opening ← opening place p
      let known := (← get).anchors
      if p.anchor.any fun name => (known.lookup name).isSome then fail .duplicateAnchor
      let begun := opening.begin p
      let number ← addNode begun.tag begun.content
      modify fun c => { c with anchors := (p.anchor.map (·, number)).toList ++ c.anchors }
      let content ← collection (node fuel) opening
      modify fun c => { c with nodes := c.nodes.modify number fun n => { n with content } }
      return number

/-- The directives before a document, as the handles that they define. -/
def directives : YamlRead (List (String × String)) := do
  let mut versioned := false
  let mut handles : List (String × String) := []
  for _ in [0:← turns] do
    match ← peek with
    | .version major _ =>
      skip
      if versioned then fail .duplicateDirective
      if major ≠ 1 then fail .unknownVersion
      versioned := true
    | .tagHandle handle uri =>
      skip
      if (handles.lookup handle).isSome then fail .duplicateDirective
      handles := (handle, uri) :: handles
    | .otherDirective => skip
    | _ => break
  return handles

/-- What begins a document expressly: its directives, and a line of marks. -/
def documentHead : YamlRead Unit := do
  let handles ← directives
  expect .documentStart
  modify fun c => { c with handles := handles ++ standardHandles }

def isDirective : YamlToken → Bool
  | .version .. | .tagHandle .. | .otherDirective => true
  | _ => false

/-- The root of a document. One that began expressly may be empty. -/
def documentRoot : YamlRead (Option Nat) := do
  let first ← peek
  if first = .streamEnd then return none
  if !(isDirective first || first = .documentStart) then
    modify fun c => { c with handles := standardHandles }
    return some (← node maxNesting .block)
  documentHead
  let next ← peek
  if isDirective next || [.documentStart, .documentEnd, .streamEnd].contains next then
    return some (← emptyNode)
  else return some (← node maxNesting .block)

/-- The only document of a text, if there is one. -/
def document : YamlRead (Option Nat) := do
  match ← documentRoot with
  | none => return none
  | some root =>
    for _ in [0:← turns] do
      if !(← accept .documentEnd) then break
    if (← peek) ≠ .streamEnd then
      documentHead
      fail .severalDocuments
    return some root

end YamlRead

/-- The nodes of a document. -/
structure YamlDocument where
  nodes : Array YamlNode
  root : Nat

/-- The document that a file describes; none if it is empty. -/
def yamlDocument (data : Bytes) : Except DocumentError (Option YamlDocument) := do
  let ((root?, context), _) ← (YamlRead.document.run {}).run (yamlReader data)
  return root?.map fun root => { nodes := context.nodes, root }

end Compression
