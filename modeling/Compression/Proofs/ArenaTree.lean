import Compression.Proofs.BitPacking
import Compression.Proofs.TreeWords

namespace Compression

/-- The tree `t` hangs at a place of an arena, and children lie in places before their parents. -/
inductive PrefixArena.Hangs (a : PrefixArena) : Nat → PrefixTree → Prop where
  | leaf {i : Nat} {n : ArenaNode} : a.nodes[i]? = some n → n.isLeaf = true →
      PrefixArena.Hangs a i (.leaf n.symbol)
  | node {i l r : Nat} {n : ArenaNode} {left right : PrefixTree} : a.nodes[i]? = some n →
      n.left = some l → n.right = some r → l < i → r < i →
      PrefixArena.Hangs a l left → PrefixArena.Hangs a r right →
      PrefixArena.Hangs a i (.node left right)

def PrefixArena.Carries (a : PrefixArena) (t : PrefixTree) : Prop :=
  ∃ i, a.root = some i ∧ a.Hangs i t

theorem ArenaNode.not_isLeaf_of_left {n : ArenaNode} {l : Nat} (h : n.left = some l) :
    n.isLeaf = false := by
  simp [isLeaf, h]

namespace PrefixArena

variable {a b : PrefixArena} {i : Nat} {t : PrefixTree}

theorem Hangs.lt_size (h : a.Hangs i t) : i < a.nodes.size := by
  cases h with
  | leaf hn => exact (Array.getElem?_eq_some_iff.mp hn).1
  | node hn => exact (Array.getElem?_eq_some_iff.mp hn).1

theorem Hangs.node? (h : a.Hangs i t) :
    ∃ n, a.node? (some i) = some n ∧ n.isLeaf = t.isLeaf := by
  cases h with
  | leaf hn hl => exact ⟨_, hn, hl⟩
  | node hn hl => exact ⟨_, hn, ArenaNode.not_isLeaf_of_left hl⟩

/-- A tree keeps hanging where it does as long as no node is changed. -/
theorem Hangs.mono (h : a.Hangs i t)
    (same : ∀ (j : Nat) (n : ArenaNode), a.nodes[j]? = some n → b.nodes[j]? = some n) :
    b.Hangs i t := by
  induction h with
  | leaf hn hl => exact .leaf (same _ _ hn) hl
  | node hn hl hr hli hri _ _ ihl ihr => exact .node (same _ _ hn) hl hr hli hri ihl ihr

theorem Hangs.push (h : a.Hangs i t) (n : ArenaNode) : (a.push n).Hangs i t := by
  apply h.mono
  intro j m hm
  have hj := (Array.getElem?_eq_some_iff.mp hm).1
  simpa only [PrefixArena.push, Array.getElem?_push, if_neg (Nat.ne_of_lt hj)] using hm

theorem Hangs.push_parent {l r : Nat} {left right : PrefixTree} (hl : a.Hangs l left)
    (hr : a.Hangs r right) (weight : Int) :
    (a.push { weight := weight, left := some l, right := some r }).Hangs a.nodes.size
      (.node left right) :=
  .node Array.getElem?_push_size rfl rfl hl.lt_size hr.lt_size (hl.push _) (hr.push _)

/-- The walk enters the leaves of a tree from left to right. Its depth is never spent, since the
places of the nodes on a path descend. -/
theorem Hangs.walk_eq (h : a.Hangs i t) (word : CodeWord) {depth : Nat} (hd : i ≤ depth)
    (rest : List Visit) (table : CodeTable) :
    a.walk (⟨some i, word, depth⟩ :: rest) table =
      a.walk rest
        ((t.leavesBelow word).foldl (fun table leaf => CodeTable.set leaf.1 leaf.2 table)
          table) := by
  induction h generalizing word depth rest table with
  | @leaf i n hn hl =>
    have hnode : a.node? (some i) = some n := hn
    rw [walk]
    simp only [hnode, hl, if_true, PrefixTree.leavesBelow, List.foldl_cons, List.foldl_nil]
  | @node i l r n left right hn hl hr hli hri _ _ ihl ihr =>
    have hnode : a.node? (some i) = some n := hn
    obtain ⟨d, rfl⟩ : ∃ d, depth = d + 1 := ⟨depth - 1, by omega⟩
    rw [walk]
    simp only [hnode, ArenaNode.not_isLeaf_of_left hl, Bool.false_eq_true, if_false, hl, hr]
    rw [ihl _ (by omega), ihr _ (by omega), PrefixTree.leavesBelow, List.foldl_append]

theorem Carries.codeTable_eq (h : a.Carries t) : a.codeTable = some t.codeTable := by
  obtain ⟨i, hroot, hi⟩ := h
  obtain ⟨n, hn, hleaf⟩ := hi.node?
  rw [codeTable, hroot, hn]
  cases hi with
  | leaf hm hl =>
    obtain rfl := Option.some.inj (hn.symm.trans hm)
    simp only [hl, if_true]
    rfl
  | node hm hl hr hli hri hleft hright =>
    have hlt := (Array.getElem?_eq_some_iff.mp hm).1
    simp only [hleaf, PrefixTree.isLeaf, Bool.false_eq_true, if_false]
    rw [(Hangs.node hm hl hr hli hri hleft hright).walk_eq [] (Nat.le_of_lt hlt) [] [], walk]
    rfl

/-- What a reader gives and leaves agrees with what a tree takes off its bits. -/
def Agrees (total : Nat) : Except WalkError (Int × BitReader) →
    Except WalkError (Int × List Bool) → Prop
  | .ok (s, r), .ok (s', bits) => s = s' ∧ r.toBits = bits ∧ r.totalBits = total
  | .error e, .error e' => e = e'
  | _, _ => False

theorem descend_of_leaf {link : Option Nat} {n : ArenaNode} (hn : a.node? link = some n)
    (hl : n.isLeaf = true) (r : BitReader) : a.descend link r = .ok (n.symbol, r) := by
  rw [descend]
  simp only [hn, hl, if_true]

theorem descend_of_end {link : Option Nat} {n : ArenaNode} {r : BitReader}
    (hn : a.node? link = some n) (hl : n.isLeaf = false) (hr : r.read? = none) :
    a.descend link r = .error .bitsEnd := by
  rw [descend]
  simp only [hn, hl, Bool.false_eq_true, if_false]
  split <;> simp_all

theorem descend_of_bit {link : Option Nat} {n : ArenaNode} {r s : BitReader} {bit : Bool}
    (hn : a.node? link = some n) (hl : n.isLeaf = false) (hr : r.read? = some (bit, s)) :
    a.descend link r = a.descend (if bit then n.right else n.left) s := by
  rw [descend]
  simp only [hn, hl, Bool.false_eq_true, if_false]
  split <;> simp_all

theorem Hangs.descend_agrees (h : a.Hangs i t) (r : BitReader) :
    Agrees r.totalBits (a.descend (some i) r)
      ((t.descend r.toBits).elim (.error .bitsEnd) .ok) := by
  induction h generalizing r with
  | @leaf i n hn hl =>
    have hnode : a.node? (some i) = some n := hn
    rw [descend_of_leaf hnode hl]
    simp [PrefixTree.descend, Agrees]
  | @node i l k n left right hn hl hr hli hri _ _ ihl ihr =>
    have hnode : a.node? (some i) = some n := hn
    have hleaf := ArenaNode.not_isLeaf_of_left hl
    cases hb : r.toBits with
    | nil =>
      rw [descend_of_end hnode hleaf (BitReader.read?_eq_none hb)]
      simp [PrefixTree.descend, Agrees]
    | cons bit bits =>
      obtain ⟨s, hread, rfl, htotal⟩ := BitReader.read?_of_toBits hb
      rw [descend_of_bit hnode hleaf hread, ← htotal]
      cases bit with
      | false => simpa [hl, PrefixTree.descend] using ihl s
      | true => simpa [hr, PrefixTree.descend] using ihr s

/-- Reading a symbol by links is taking a code word of the tree off the bits, and no link is
lost. -/
theorem Carries.readSymbol_agrees (h : a.Carries t) (r : BitReader) :
    Agrees r.totalBits (a.readSymbol r) (t.readWord r.toBits) := by
  obtain ⟨i, hroot, hi⟩ := h
  obtain ⟨n, hn, hleaf⟩ := hi.node?
  rw [readSymbol, hroot, hn]
  cases t with
  | leaf s =>
    have hsym : n.symbol = s := by
      cases hi with
      | leaf hm => rw [Option.some.inj (hn.symm.trans hm)]
    simp only [hleaf, PrefixTree.isLeaf, if_true]
    cases hb : r.toBits with
    | nil => simp [BitReader.read?_eq_none hb, PrefixTree.readWord, Agrees]
    | cons bit bits =>
      obtain ⟨s', hread, hrest, htotal⟩ := BitReader.read?_of_toBits hb
      cases bit <;> simp [hread, PrefixTree.readWord, Agrees, hsym, hrest, htotal]
  | node left right =>
    have hd := hi.descend_agrees r
    simp only [hleaf, PrefixTree.isLeaf, Bool.false_eq_true, if_false, PrefixTree.readWord]
    cases ht : (PrefixTree.node left right).descend r.toBits with
    | none => simpa [ht] using hd
    | some read => simpa [ht] using hd

end PrefixArena

end Compression
