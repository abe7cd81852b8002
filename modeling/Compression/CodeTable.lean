import Compression.Bytes

namespace Compression

/-- The path from a root to a leaf: left is zero, right is one. -/
abbrev CodeWord := List Bool

/-- The code words of symbols, in ascending order of the symbols. -/
abbrev CodeTable := List (Int × CodeWord)

/-- Gives `symbol` the word; a word that it had before is replaced. -/
def CodeTable.set (symbol : Int) (word : CodeWord) : CodeTable → CodeTable
  | [] => [(symbol, word)]
  | (s, w) :: rest =>
    if symbol < s then (symbol, word) :: (s, w) :: rest
    else if symbol = s then (symbol, word) :: rest
    else (s, w) :: CodeTable.set symbol word rest

def CodeTable.find? (table : CodeTable) (symbol : Int) : Option CodeWord :=
  table.lookup symbol

end Compression
