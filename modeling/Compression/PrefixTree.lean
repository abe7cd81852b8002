import Compression.CodeTable

namespace Compression

/-- A binary tree whose leaves carry symbols. -/
inductive PrefixTree where
  | leaf (symbol : Int)
  | node (left right : PrefixTree)

def PrefixTree.symbols : PrefixTree → List Int
  | .leaf s => [s]
  | .node l r => l.symbols ++ r.symbols

/-- The leaves from left to right, each with its path below `path`. -/
def PrefixTree.leavesBelow (path : CodeWord) : PrefixTree → List (Int × CodeWord)
  | .leaf s => [(s, path)]
  | .node l r => l.leavesBelow (path ++ [false]) ++ r.leavesBelow (path ++ [true])

/-- The leaves from left to right with their code words; a lone leaf has the word `0`. -/
def PrefixTree.leaves : PrefixTree → List (Int × CodeWord)
  | .leaf s => [(s, [false])]
  | t@(.node _ _) => t.leavesBelow []

/-- The table of all leaves; of two leaves with one symbol the right one counts. -/
def PrefixTree.codeTable (t : PrefixTree) : CodeTable :=
  t.leaves.foldl (fun table leaf => CodeTable.set leaf.1 leaf.2 table) []

@[simp] theorem PrefixTree.map_fst_leavesBelow (path : CodeWord) (t : PrefixTree) :
    (t.leavesBelow path).map Prod.fst = t.symbols := by
  induction t generalizing path with
  | leaf s => rfl
  | node l r ihl ihr => simp [leavesBelow, symbols, ihl, ihr]

@[simp] theorem PrefixTree.map_fst_leaves (t : PrefixTree) :
    t.leaves.map Prod.fst = t.symbols := by
  cases t with
  | leaf s => rfl
  | node l r => simp [leaves]

end Compression
