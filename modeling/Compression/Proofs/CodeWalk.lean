import Compression.Proofs.ArenaTree
import Compression.Proofs.TableWords
import Mathlib.Logic.Function.Basic

namespace Compression

/-- A code as a number, and the count of its binary digits. -/
structure Code where
  value : Nat
  length : Nat
deriving DecidableEq

namespace Code

/-- The code of a child: on the left one more zero, on the right one more one. -/
def next (code : Code) (bit : Bool) : Code :=
  ⟨2 * code.value + bit.toNat, code.length + 1⟩

/-- The code that a word writes. -/
def ofWord (word : CodeWord) : Code :=
  ⟨bitsValue word, word.length⟩

theorem ofWord_concat (word : CodeWord) (bit : Bool) :
    ofWord (word ++ [bit]) = (ofWord word).next bit := by
  simp only [ofWord, next, bitsValue_concat, List.length_append, List.length_singleton]

/-- Codes of symbols after one visit more. A symbol that had a code before gets the new one. -/
def enter (codes : Int → Option Code) (visit : Int × Code) : Int → Option Code :=
  Function.update codes visit.1 (some visit.2)

end Code

namespace CodeTable

/-- Entering leaves into a table is visiting them one after the other. -/
theorem find?_foldl_set {leaves : List (Int × CodeWord)} {table : CodeTable}
    {codes : Int → Option Code} (h : ∀ s, (table.find? s).map Code.ofWord = codes s) (s : Int) :
    (CodeTable.find? (leaves.foldl (fun table leaf => CodeTable.set leaf.1 leaf.2 table) table)
        s).map Code.ofWord =
      (leaves.map fun leaf => (leaf.1, Code.ofWord leaf.2)).foldl Code.enter codes s := by
  induction leaves generalizing table codes with
  | nil => exact h s
  | cons leaf leaves ih =>
    rw [List.foldl_cons, List.map_cons, List.foldl_cons]
    refine ih fun s => ?_
    rw [find?_set, Code.enter, Function.update_apply, ← h]
    split <;> rfl

theorem mem_symbols_set {table : CodeTable} {s symbol : Int} {word : CodeWord}
    (h : s ∈ (CodeTable.set symbol word table).map Prod.fst) :
    s = symbol ∨ s ∈ table.map Prod.fst := by
  induction table with
  | nil => simpa [set] using h
  | cons entry rest ih =>
    obtain ⟨s', w⟩ := entry
    rw [set] at h
    split at h
    next => simpa using h
    next =>
      split at h
      next heq => simpa [heq] using h
      next =>
        rcases List.mem_cons.mp h with rfl | h
        · simp
        · exact (ih h).imp_right (List.mem_cons_of_mem s')

/-- A table stays in ascending order, with one entry for each symbol. -/
theorem ascending_set {table : CodeTable} (h : (table.map Prod.fst).Pairwise (· < ·))
    (symbol : Int) (word : CodeWord) :
    ((CodeTable.set symbol word table).map Prod.fst).Pairwise (· < ·) := by
  induction table with
  | nil => simp [set]
  | cons entry rest ih =>
    obtain ⟨s', w⟩ := entry
    obtain ⟨hfirst, hrest⟩ := List.pairwise_cons.mp h
    rw [set]
    split
    next hlt =>
      refine List.pairwise_cons.mpr ⟨fun s hs => ?_, h⟩
      rcases List.mem_cons.mp hs with rfl | hs
      · exact hlt
      · exact hlt.trans (hfirst s hs)
    next hle =>
      split
      next heq =>
        subst heq
        exact h
      next hne =>
        refine List.pairwise_cons.mpr ⟨fun s hs => ?_, ih hrest⟩
        rcases mem_symbols_set hs with rfl | hs
        · show s' < s
          omega
        · exact hfirst s hs

theorem ascending_foldl_set (leaves : List (Int × CodeWord)) {table : CodeTable}
    (h : (table.map Prod.fst).Pairwise (· < ·)) :
    ((leaves.foldl (fun table leaf => CodeTable.set leaf.1 leaf.2 table) table).map
      Prod.fst).Pairwise (· < ·) := by
  induction leaves generalizing table with
  | nil => exact h
  | cons leaf leaves ih => exact ih (ascending_set h leaf.1 leaf.2)

end CodeTable

namespace PrefixArena

/-- Every node that is no leaf has two children, which were added before it. They may be one node,
and any node may be a child of many. -/
def ChildrenFirst (a : PrefixArena) : Prop :=
  ∀ (i : Nat) (hi : i < a.nodes.size), a.nodes[i].isLeaf = false →
    ∃ l < i, ∃ r < i, a.nodes[i].left = some l ∧ a.nodes[i].right = some r

instance (a : PrefixArena) : Decidable a.ChildrenFirst :=
  inferInstanceAs (Decidable (∀ (i : Nat) (hi : i < a.nodes.size), a.nodes[i].isLeaf = false →
    ∃ l < i, ∃ r < i, a.nodes[i].left = some l ∧ a.nodes[i].right = some r))

/-- The leaves that can be reached from a place, those on the left before those on the right, with
the codes that their paths write behind `code`. -/
def visitsBelow (a : PrefixArena) (i : Nat) (code : Code) : List (Int × Code) :=
  match a.nodes[i]? with
  | none => []
  | some n =>
    match n.left, n.right with
    | some l, some r =>
      if _h : l < i ∧ r < i then
        a.visitsBelow l (code.next false) ++ a.visitsBelow r (code.next true)
      else []
    | _, _ => [(n.symbol, code)]
termination_by i
decreasing_by
  · exact _h.1
  · exact _h.2

/-- The leaves that can be reached from a root with their codes. A root that is a leaf has the
code `0`. -/
def visits (a : PrefixArena) (root : Nat) : List (Int × Code) :=
  match a.nodes[root]? with
  | none => []
  | some n => if n.isLeaf then [(n.symbol, ⟨0, 1⟩)] else a.visitsBelow root ⟨0, 0⟩

variable {a : PrefixArena} {i l r : Nat} {n : ArenaNode} {t : PrefixTree}

theorem visitsBelow_of_leaf (hn : a.nodes[i]? = some n) (hl : n.isLeaf = true) (code : Code) :
    a.visitsBelow i code = [(n.symbol, code)] := by
  simp only [ArenaNode.isLeaf, Bool.and_eq_true, Option.isNone_iff_eq_none] at hl
  rw [visitsBelow, hn]
  simp only [hl.1]

theorem visitsBelow_of_node (hn : a.nodes[i]? = some n) (hl : n.left = some l)
    (hr : n.right = some r) (hli : l < i) (hri : r < i) (code : Code) :
    a.visitsBelow i code =
      a.visitsBelow l (code.next false) ++ a.visitsBelow r (code.next true) := by
  rw [visitsBelow, hn]
  simp only [hl, hr]
  rw [dif_pos ⟨hli, hri⟩]

/-- A tree hangs at every place, in which shared nodes are there as often as they are reached. -/
theorem ChildrenFirst.exists_hangs (ha : a.ChildrenFirst) (hi : i < a.nodes.size) :
    ∃ t, a.Hangs i t := by
  induction i using Nat.strongRecOn with
  | ind i ih =>
    have hn : a.nodes[i]? = some a.nodes[i] := Array.getElem?_eq_getElem hi
    cases hleaf : a.nodes[i].isLeaf with
    | true => exact ⟨_, .leaf hn hleaf⟩
    | false =>
      -- Two children that are one node get two copies of its tree.
      obtain ⟨l, hli, r, hri, hl, hr⟩ := ha i hi hleaf
      obtain ⟨left, hleft⟩ := ih l hli (hli.trans hi)
      obtain ⟨right, hright⟩ := ih r hri (hri.trans hi)
      exact ⟨_, .node hn hl hr hli hri hleft hright⟩

theorem Hangs.visitsBelow_eq (h : a.Hangs i t) (word : CodeWord) :
    a.visitsBelow i (.ofWord word) =
      (t.leavesBelow word).map fun leaf => (leaf.1, Code.ofWord leaf.2) := by
  induction h generalizing word with
  | leaf hn hl => exact visitsBelow_of_leaf hn hl _
  | node hn hl hr hli hri _ _ ihl ihr =>
    rw [visitsBelow_of_node hn hl hr hli hri, ← Code.ofWord_concat, ← Code.ofWord_concat, ihl, ihr,
      PrefixTree.leavesBelow, List.map_append]

theorem Hangs.visits_eq (h : a.Hangs i t) :
    a.visits i = t.leaves.map fun leaf => (leaf.1, Code.ofWord leaf.2) := by
  have hbelow := h.visitsBelow_eq []
  cases h with
  | leaf hn hl =>
    rw [visits, hn]
    exact if_pos hl
  | node hn hl =>
    rw [visits, hn]
    simp only [ArenaNode.not_isLeaf_of_left hl]
    exact hbelow

end PrefixArena

/-- In an arena whose children come first the walk from any root comes to an end, and its table has
for each symbol the code of the last visit, if the leaves are visited from left to right. -/
theorem codeTable_of_visits {a : PrefixArena} {root : Nat} (ha : a.ChildrenFirst)
    (hroot : a.root = some root) (hlt : root < a.nodes.size) :
    ∃ table, a.codeTable = some table ∧ (table.map Prod.fst).Pairwise (· < ·) ∧
      ∀ s, (table.find? s).map Code.ofWord =
        (a.visits root).foldl Code.enter (fun _ => none) s := by
  obtain ⟨t, ht⟩ := ha.exists_hangs hlt
  have hcarries : a.Carries t := ⟨root, hroot, ht⟩
  refine ⟨t.codeTable, hcarries.codeTable_eq, ?_, fun s => ?_⟩
  · exact CodeTable.ascending_foldl_set t.leaves List.Pairwise.nil
  · rw [ht.visits_eq, PrefixTree.codeTable]
    exact CodeTable.find?_foldl_set (fun _ => rfl) s

/-- A pair of leaves that is reached twice, and a third leaf with the symbol of the first. -/
theorem codeTable_of_visits_shared :
    let a : PrefixArena := {
      nodes := #[{ weight := 1, symbol := 7 }, { weight := 2, symbol := 5 },
        { weight := 3, left := some 0, right := some 1 },
        { weight := 6, left := some 2, right := some 2 }, { weight := 1, symbol := 7 },
        { weight := 7, left := some 3, right := some 4 }]
      root := some 5 }
    (a.ChildrenFirst ∧ a.root = some 5 ∧ 5 < a.nodes.size) ∧
    a.visits 5 = [(7, ⟨0, 3⟩), (5, ⟨1, 3⟩), (7, ⟨2, 3⟩), (5, ⟨3, 3⟩), (7, ⟨1, 1⟩)] ∧
    ∃ table, a.codeTable = some table ∧ (table.map Prod.fst).Pairwise (· < ·) ∧
      ∀ s, (table.find? s).map Code.ofWord =
        (a.visits 5).foldl Code.enter (fun _ => none) s := by
  intro a
  have ha : a.ChildrenFirst := by decide +kernel
  exact ⟨⟨ha, rfl, by decide⟩, by decide +kernel, codeTable_of_visits ha rfl (by decide)⟩

end Compression
