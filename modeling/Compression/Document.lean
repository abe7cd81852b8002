import Compression.Value

namespace Compression

/-- A value within a document: a value on its own, or a collection by its number. -/
inductive DocumentItem where
  | leaf (v : Value)
  | box (number : Nat)

/-- A collection of a document. -/
inductive DocumentBox where
  | list (items : List DocumentItem)
  | map (entries : List (Value × DocumentItem))
  | set (members : List Value)
  | pairs (pairs : List (DocumentItem × DocumentItem))

def DocumentBox.isList : DocumentBox → Bool
  | .list _ | .pairs _ => true
  | .map _ | .set _ => false

/-- The values of a document. Collections can be shared, and can lie inside of themselves. -/
structure Document where
  boxes : Array DocumentBox
  root : DocumentItem

namespace Document

/-- Values of collections in which no collection repeats, each of them made once. -/
abbrev Unfolding := StateM (Array (Option Value))

/-- A value, and whether a collection repeats in it. -/
abbrev Unfolded := Value × Bool

/-- The value of a collection from the values of what lies in it. -/
def unfoldBox (unfold : DocumentItem → Unfolding Unfolded) :
    DocumentBox → Unfolding Unfolded
  | .list items => do
    let values ← items.mapM unfold
    return (.list (values.map (·.1)), values.any (·.2))
  | .map entries => do
    let values ← entries.mapM fun e => unfold e.2
    return (.map ((entries.map (·.1)).zip (values.map (·.1))), values.any (·.2))
  | .set members => return (.set members, false)
  | .pairs pairs => do
    let values ← pairs.mapM fun p => return (← unfold p.1, ← unfold p.2)
    return (.list (values.map fun v => .pair v.1.1 v.2.1), values.any fun v => v.1.2 || v.2.2)

/-- The value of an item. A collection inside of itself is not unfolded again, and none is left
that is open already, so the way down is no longer than there are collections. -/
def unfold (boxes : Array DocumentBox) : Nat → List Nat → DocumentItem → Unfolding Unfolded
  | _, _, .leaf v => return (v, false)
  | 0, _, .box _ => return (.null, true)
  | fuel + 1, opened, .box number => do
    match (← get).getD number none, boxes[number]? with
    | some v, _ => return (v, false)
    | none, none => return (.null, true)
    | none, some box =>
      if opened.contains number then return (.again box.isList, true)
      let (v, repeats) ← unfoldBox (unfold boxes fuel (number :: opened)) box
      if !repeats then modify fun made => made.setIfInBounds number (some v)
      return (v, repeats)

end Document

/-- The value of an item of a document, as it shows from that item on. -/
def Document.value (d : Document) (item : DocumentItem) : Value :=
  ((Document.unfold d.boxes (d.boxes.size + 1) [] item).run
    (Array.replicate d.boxes.size none)).1.1

/-- The entries of an item that is a mapping. -/
def Document.entries? (d : Document) : DocumentItem → Option (List (Value × DocumentItem))
  | .leaf _ => none
  | .box number =>
    match d.boxes[number]? with
    | some (.map entries) => some entries
    | _ => none

end Compression
