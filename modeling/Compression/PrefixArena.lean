import Compression.BitReader
import Compression.CodeTable

namespace Compression

/-- A node of an arena. Children are named by their place in it. -/
structure ArenaNode where
  weight : Int
  symbol : Int := -1
  left : Option Nat := none
  right : Option Nat := none

def ArenaNode.isLeaf (n : ArenaNode) : Bool :=
  n.left.isNone && n.right.isNone

/-- Nodes in the order in which they were added, and the one chosen as root. -/
structure PrefixArena where
  nodes : Array ArenaNode := #[]
  root : Option Nat := none

def PrefixArena.push (a : PrefixArena) (n : ArenaNode) : PrefixArena :=
  { a with nodes := a.nodes.push n }

/-- The node behind a link; where no node has been chosen, the newest one stands in. -/
def PrefixArena.node? (a : PrefixArena) : Option Nat → Option ArenaNode
  | some i => a.nodes[i]?
  | none => a.nodes.back?

/-- A subtree that a walk has still to visit. No more than `depth` levels of it are opened. -/
structure PrefixArena.Visit where
  link : Option Nat
  word : CodeWord
  depth : Nat

/-- The number of nodes in the largest tree that a visit can pass through. -/
def PrefixArena.Visit.cost (v : PrefixArena.Visit) : Nat :=
  2 ^ (v.depth + 1) - 1

/-- Enters every leaf that the visits reach, from left to right, into the table. -/
def PrefixArena.walk (a : PrefixArena) : List PrefixArena.Visit → CodeTable → Option CodeTable
  | [], table => some table
  | v :: rest, table =>
    match a.node? v.link with
    | none => none
    | some n =>
      if n.isLeaf then a.walk rest (CodeTable.set n.symbol v.word table)
      else
        match _h : v.depth with
        | 0 => none
        | depth + 1 =>
          a.walk (⟨n.left, v.word ++ [false], depth⟩ :: ⟨n.right, v.word ++ [true], depth⟩ :: rest)
            table
termination_by visits => visits.foldr (fun v rest => v.cost + rest) 0
decreasing_by
  · have := Nat.two_pow_pos v.depth
    simp only [List.foldr_cons, PrefixArena.Visit.cost, Nat.pow_succ]
    omega
  · have hd : v.depth = depth + 1 := by assumption
    have := Nat.two_pow_pos depth
    simp only [List.foldr_cons, PrefixArena.Visit.cost, hd, Nat.pow_succ]
    omega

/-- The code words of the leaves below the root; a root that is a leaf has the word `0`.
There is none if a link leads out of the arena. A path without a cycle has fewer levels than
the arena has nodes, so none is cut short. -/
def PrefixArena.codeTable (a : PrefixArena) : Option CodeTable :=
  match a.node? a.root with
  | none => none
  | some n =>
    if n.isLeaf then some [(n.symbol, [false])]
    else a.walk [⟨a.root, [], a.nodes.size⟩] []

/-- What stops a walk from the root to a leaf. -/
inductive PrefixArena.WalkError where
  | bitsEnd
  | noSuchChild
  /-- A link leads out of the arena. -/
  | lostLink
deriving DecidableEq

/-- Follows the bits from a node down to a leaf. -/
def PrefixArena.descend (a : PrefixArena) (link : Option Nat) (r : BitReader) :
    Except PrefixArena.WalkError (Int × BitReader) :=
  match a.node? link with
  | none => .error .lostLink
  | some n =>
    if n.isLeaf then .ok (n.symbol, r)
    else
      match _h : r.read? with
      | none => .error .bitsEnd
      | some (true, s) => a.descend n.right s
      | some (false, s) => a.descend n.left s
termination_by r.remaining
decreasing_by
  all_goals exact BitReader.remaining_lt_of_read? _h

/-- Reads one code word. A root that is a leaf takes the bit zero and has nothing under the bit
one. -/
def PrefixArena.readSymbol (a : PrefixArena) (r : BitReader) :
    Except PrefixArena.WalkError (Int × BitReader) :=
  match a.node? a.root with
  | none => .error .lostLink
  | some n =>
    if n.isLeaf then
      match r.read? with
      | none => .error .bitsEnd
      | some (true, _) => .error .noSuchChild
      | some (false, r) => .ok (n.symbol, r)
    else a.descend a.root r

end Compression
