import Compression.FloatValue
import Compression.Value

namespace Compression

/-! A set of numbers lists its members in the order of their slots in a table. -/

/-- Numbers are told apart by their remainders, for which a half is `2 ^ 60`. -/
def slotModulus : Nat := 2 ^ 61 - 1

/-- The remainder of `significand * 2 ^ exponent`. -/
def slotRemainder (significand : Nat) (exponent : Int) : Nat :=
  significand * 2 ^ (exponent % 61).toNat % slotModulus

/-- A remainder with its sign, as a word of 64 bits. Minus one is taken for another purpose. -/
def slotWord (negative : Bool) (remainder : Nat) : Nat :=
  let n : Int := if negative then -remainder else remainder
  ((if n = -1 then -2 else n) % 2 ^ 64).toNat

/-- The remainder that stands for infinity. -/
def infinityRemainder : Nat := 314159

/-- The word that leads a number to its slot. -/
def Value.slotWord? : Value → Option Nat
  | .bool b => some (if b then 1 else 0)
  | .int n => some (slotWord (decide (n < 0)) (slotRemainder n.natAbs 0))
  | .float x =>
    match floatValue x with
    | .nan => none
    | .infinite negative => some (slotWord negative infinityRemainder)
    | .finite negative significand exponent =>
      some (slotWord negative (slotRemainder significand exponent))
  | _ => none

/-- How many slots a table for so many members has: more than twice as many, a power of two. -/
def slotCount (members : Nat) : Nat :=
  if members < 5 then 8 else 2 ^ ((2 * members).log2 + 1)

/-- So many slots in a row are tried, if the table does not end before. -/
def slotRun : Nat := 10

/-- The first free slot for a word. Where a run is taken, what is left of the word leads on; when
nothing is left of it the way goes through all slots. -/
def freeSlot (table : Array (Option Value)) : Nat → Nat → Nat → Nat
  | 0, place, _ => place
  | fuel + 1, place, word =>
    let run := if place + slotRun ≤ table.size then slotRun else 1
    match (List.range run).find? fun i => (table.getD (place + i) none).isNone with
    | some i => place + i
    | none =>
      let word := word / 32
      freeSlot table fuel ((5 * place + 1 + word) % table.size) word

def takeSlot (table : Array (Option Value)) (member : Value × Nat) : Array (Option Value) :=
  let (v, word) := member
  table.setIfInBounds (freeSlot table (table.size + 13) (word % table.size) word) (some v)

/-- The members of a set, none of which equals another, in the order in which it lists them. Those
that are not all numbers stay in their order. -/
def listedMembers (members : List Value) : List Value :=
  match members.mapM Value.slotWord? with
  | none => members
  | some words =>
    let table := Array.replicate (slotCount members.length) none
    ((members.zip words).foldl takeSlot table).toList.filterMap id

end Compression
