import Compression.FileError

namespace Compression

abbrev FileName := List Char

/-- What tells a file from all others, whatever names it has: a number that it has been given, or
where it was made and how many had been made there before it. -/
inductive Node where
  | given (number : Nat)
  | made (folder : Node) (name : FileName) (earlier : Nat)
deriving DecidableEq

/-- A name in a folder. -/
structure Place where
  folder : Node
  name : FileName
deriving DecidableEq

inductive Device where
  /-- Takes all bytes and keeps none. -/
  | null
  /-- Takes no bytes. -/
  | full
  | other (number : Nat)
deriving DecidableEq

inductive FileItem where
  | file (data : Bytes)
  | folder
  /-- A link to wherever a path leads from its folder. -/
  | link (text : String)
  | device (device : Device)
deriving DecidableEq

/-- Names, and what they stand for. Several names can stand for one file. A folder has names for
itself and for the folder around it. What has no name is kept as long as it may be open. -/
structure FileStore where
  names : List (Place × Node)
  items : List (Node × FileItem)
  root : Node
  /-- The folder from which a path starts that does not start from the root. -/
  here : Node

/-- Entries without that of a key. -/
def entriesBut {α β : Type} [DecidableEq α] (key : α) (entries : List (α × β)) : List (α × β) :=
  entries.filter fun e => e.1 ≠ key

namespace FileStore

def named? (store : FileStore) (place : Place) : Option Node :=
  store.names.lookup place

def item? (store : FileStore) (node : Node) : Option FileItem :=
  store.items.lookup node

def itemAt? (store : FileStore) (place : Place) : Option FileItem :=
  (store.named? place).bind store.item?

/-- Takes a name away. -/
def unname (store : FileStore) (place : Place) : FileStore :=
  { store with names := entriesBut place store.names }

/-- Puts an item in the place of what a file was. -/
def put (store : FileStore) (node : Node) (item : FileItem) : FileStore :=
  { store with items := (node, item) :: entriesBut node store.items }

/-- How many files have been made under a name. -/
def madeAt (store : FileStore) (place : Place) : Nat :=
  store.items.foldr (fun e count =>
    match e.1 with
    | .made folder name earlier =>
      if folder = place.folder ∧ name = place.name then max (earlier + 1) count else count
    | .given _ => count) 0

/-- The next file that is made under a name. -/
def freshAt (store : FileStore) (place : Place) : Node :=
  .made place.folder place.name (store.madeAt place)

/-- Makes a file under a name. -/
def make (store : FileStore) (place : Place) (item : FileItem) : FileStore :=
  { store.put (store.freshAt place) item with
    names := (place, store.freshAt place) :: entriesBut place store.names }

end FileStore

/-! ### Paths -/

/-- The pieces of a path between its slashes. -/
def splitSlashes : List Char → List (List Char)
  | [] => [[]]
  | c :: rest =>
    if c = '/' then [] :: splitSlashes rest
    else
      match splitSlashes rest with
      | [] => [[c]]
      | piece :: pieces => (c :: piece) :: pieces

def pathNames (path : List Char) : List FileName :=
  (splitSlashes path).filter fun piece => !piece.isEmpty

/-- What a path spells. -/
structure Route where
  fromRoot : Bool
  names : List FileName
  /-- Whether a slash stands behind the last name, which then has to be that of a folder. -/
  slash : Bool

/-- Without names a path stands for the place where it starts. -/
def routeOf (path : String) : Route where
  fromRoot := path.toList.head? = some '/'
  names := if (pathNames path.toList).isEmpty then [['.']] else pathNames path.toList
  slash := path.toList.getLast? = some '/'

/-- The longest name that a file can have, in bytes. -/
def maxNameLength : Nat := 255

/-- The longest path that can be followed, in bytes. -/
def maxPathLength : Nat := 4095

/-- How many links can be followed on one path. -/
def maxLinks : Nat := 40

def isLongName (name : FileName) : Bool :=
  maxNameLength < (String.ofList name).utf8ByteSize

/-- Where a path ends. There need not be a file. -/
structure Goal where
  place : Place
  slash : Bool
deriving DecidableEq

namespace FileStore

/-- Asks for a folder. -/
def enter (store : FileStore) (node : Node) : Except SystemError.Reason Unit :=
  match store.item? node with
  | none => .error .notFound
  | some .folder => .ok ()
  | some _ => .error .notDirectory

/-- Where a route starts that is met in a folder. -/
def startOf (store : FileStore) (folder : Node) (route : Route) : Node :=
  if route.fromRoot then store.root else folder

/-- Follows names from a folder until a link has to be followed, which `onLink` does. A link that
the last name stands for is followed only if `last` says so. -/
def walk (store : FileStore) (last : Bool)
    (onLink : Node → List FileName → Bool → Except SystemError.Reason Goal) :
    Node → List FileName → Bool → Except SystemError.Reason Goal
  | _, [], _ => .error .notFound
  | folder, name :: rest, slash => do
    store.enter folder
    if rest.isEmpty && !last then .ok ⟨⟨folder, name⟩, slash⟩
    else if isLongName name then .error .nameTooLong
    else
      match store.itemAt? ⟨folder, name⟩ with
      | some (.link text) =>
        onLink (store.startOf folder (routeOf text)) ((routeOf text).names ++ rest)
          (slash || rest.isEmpty && (routeOf text).slash)
      | _ =>
        if rest.isEmpty then .ok ⟨⟨folder, name⟩, slash⟩
        else
          match store.named? ⟨folder, name⟩ with
          | none => .error .notFound
          | some node => store.walk last onLink node rest slash

/-- Follows names and no more than so many links. -/
def follow (store : FileStore) (last : Bool) :
    Nat → Node → List FileName → Bool → Except SystemError.Reason Goal
  | 0 => store.walk last fun _ _ _ => .error .tooManyLinks
  | links + 1 => store.walk last (store.follow last links)

/-- Where a path ends, or the name itself that it ends with. -/
def goal (store : FileStore) (last : Bool) (path : String) : Except SystemError.Reason Goal :=
  if maxPathLength < path.utf8ByteSize then .error .nameTooLong
  else if path.isEmpty then .error .notFound
  else
    store.follow last maxLinks (store.startOf store.here (routeOf path)) (routeOf path).names
      (routeOf path).slash

/-! ### Files -/

/-- The contents of a file, or what there is to be read from a device. -/
def read (store : FileStore) (reading : Device → Bytes) (path : String) :
    Except SystemError.Reason Bytes := do
  let goal ← store.goal true path
  match store.itemAt? goal.place with
  | none => .error .notFound
  | some .folder => .error .isDirectory
  | some (.link _) => .error .tooManyLinks
  | some (.file data) => if goal.slash then .error .notDirectory else .ok data
  | some (.device device) => if goal.slash then .error .notDirectory else .ok (reading device)

/-- Opens a file to write it anew, which leaves it empty. One that is not there is made. Of a name
with a slash behind it no more is asked than the folder that it is in. -/
def create (store : FileStore) (path : String) : Except SystemError.Reason (Node × FileStore) := do
  if (routeOf path).slash then
    let _ ← store.goal false path
    .error .isDirectory
  else
    let goal ← store.goal true path
    if goal.slash then .error .isDirectory
    else
      match store.named? goal.place with
      | none => .ok (store.freshAt goal.place, store.make goal.place (.file []))
      | some node =>
        match store.item? node with
        | none => .error .notFound
        | some .folder => .error .isDirectory
        | some (.link _) => .error .tooManyLinks
        | some (.file _) => .ok (node, store.put node (.file []))
        | some (.device _) => .ok (node, store)

/-- Gives an open file its contents. A device keeps none. -/
def fill (store : FileStore) (node : Node) (data : Bytes) : FileStore :=
  match store.item? node with
  | some (.device _) => store
  | _ => store.put node (.file data)

/-- Takes the name of a file away, or of a link or a device. -/
def remove (store : FileStore) (path : String) : Except SystemError.Reason FileStore := do
  let goal ← store.goal false path
  if isLongName goal.place.name then .error .nameTooLong
  else
    match store.itemAt? goal.place with
    | none => .error .notFound
    | some .folder => .error .isDirectory
    | some _ => if goal.slash then .error .notDirectory else .ok (store.unname goal.place)

/-- A root with the two common devices and an empty folder, in which one is. -/
def start : FileStore where
  root := .given 0
  here := .given 2
  names := [
    (⟨.given 0, ['.']⟩, .given 0), (⟨.given 0, ['.', '.']⟩, .given 0),
    (⟨.given 0, ['d', 'e', 'v']⟩, .given 1), (⟨.given 0, ['w', 'o', 'r', 'k']⟩, .given 2),
    (⟨.given 1, ['.']⟩, .given 1), (⟨.given 1, ['.', '.']⟩, .given 0),
    (⟨.given 1, ['n', 'u', 'l', 'l']⟩, .given 3), (⟨.given 1, ['f', 'u', 'l', 'l']⟩, .given 4),
    (⟨.given 2, ['.']⟩, .given 2), (⟨.given 2, ['.', '.']⟩, .given 0)]
  items := [(.given 0, .folder), (.given 1, .folder), (.given 2, .folder),
    (.given 3, .device .null), (.given 4, .device .full)]

end FileStore

end Compression
