import Compression.Histogram
import Compression.PrefixArena

namespace Compression

/-- A tree that has not been merged yet: its weight, and the place of its root in the arena. -/
structure LiveRoot where
  weight : Int
  index : Nat

/-- The lighter root comes first, and of two equally heavy ones the older. -/
def LiveRoot.before (a b : LiveRoot) : Bool :=
  a.weight < b.weight || (a.weight == b.weight && a.index < b.index)

/-- Puts a root in its place in an ordered queue. -/
def LiveRoot.enqueue (r : LiveRoot) : List LiveRoot → List LiveRoot
  | [] => [r]
  | s :: rest => if r.before s then r :: s :: rest else s :: r.enqueue rest

@[simp] theorem LiveRoot.length_enqueue (r : LiveRoot) (queue : List LiveRoot) :
    (r.enqueue queue).length = queue.length + 1 := by
  induction queue with
  | nil => rfl
  | cons s rest ih => simp only [enqueue]; split <;> simp [ih]

/-- Merges the first two roots of the queue, the first as the left child, until one is left. -/
def mergeRoots (arena : PrefixArena) : List LiveRoot → Option PrefixArena
  | [] => none
  | [r] => some { arena with root := some r.index }
  | a :: b :: rest =>
    mergeRoots
      (arena.push { weight := a.weight + b.weight, left := some a.index, right := some b.index })
      (LiveRoot.enqueue ⟨a.weight + b.weight, arena.nodes.size⟩ rest)
termination_by queue => queue.length

/-- The leaf roots of entries, the first of them at place `index`. -/
def leafRoots (index : Nat) : Histogram → List LiveRoot
  | [] => []
  | (_, weight) :: rest => ⟨weight, index⟩ :: leafRoots (index + 1) rest

/-- The prefix tree of a histogram: leaves in ascending order of their symbols, then one node
for every merge of the two lightest roots. An empty histogram has none. -/
def plantTree (freqs : Histogram) : Option PrefixArena :=
  let entries := freqs.sorted
  let leaves := entries.map fun e => ({ weight := e.2, symbol := e.1 } : ArenaNode)
  mergeRoots { nodes := leaves.toArray } ((leafRoots 0 entries).foldr LiveRoot.enqueue [])

end Compression
