import Compression.Proofs.MergedArena
import Compression.Proofs.PlantedTree

namespace Compression

namespace PrefixArena

def child? (a : PrefixArena) (i : Nat) (bit : Bool) : Option Nat :=
  a.nodes[i]?.bind fun n => if bit then n.right else n.left

/-- The place to which a word leads from the place `i`. -/
def follow? (a : PrefixArena) (i : Nat) (word : CodeWord) : Option Nat :=
  word.foldlM a.child? i

variable {a : PrefixArena} {i j : Nat}

theorem follow?_cons_eq_some {bit : Bool} {word : CodeWord}
    (h : a.follow? i (bit :: word) = some j) :
    ∃ c, a.child? i bit = some c ∧ a.follow? c word = some j := by
  unfold follow? at h
  rw [List.foldlM_cons] at h
  exact Option.bind_eq_some_iff.mp h

theorem follow?_concat_eq_some {bit : Bool} {word : CodeWord}
    (h : a.follow? i (word ++ [bit]) = some j) :
    ∃ p, a.follow? i word = some p ∧ a.child? p bit = some j := by
  unfold follow? at h
  rw [List.foldlM_append] at h
  obtain ⟨p, hp, hj⟩ := Option.bind_eq_some_iff.mp h
  exact ⟨p, hp, by simpa using hj⟩

theorem follow?_cons {bit : Bool} {c : Nat} (h : a.child? i bit = some c) (word : CodeWord) :
    a.follow? i (bit :: word) = a.follow? c word := by
  unfold follow?
  rw [List.foldlM_cons, h]
  rfl

/-- The words of a tree lead to its leaves. -/
theorem Hangs.follow? {t : PrefixTree} (h : a.Hangs i t) {s : Int} {word : CodeWord}
    (hm : (s, word) ∈ t.leavesBelow []) :
    ∃ j n, a.follow? i word = some j ∧ a.nodes[j]? = some n ∧ n.isLeaf = true ∧ n.symbol = s := by
  induction h generalizing word with
  | @leaf i n hn hl =>
    obtain ⟨rfl, rfl⟩ := Prod.mk.inj (List.mem_singleton.mp hm)
    exact ⟨i, n, rfl, hn, hl, rfl⟩
  | @node i l r n left right hn hl hr _ _ _ _ ihl ihr =>
    rcases PrefixTree.mem_leavesBelow_node.mp hm with ⟨rest, rfl, hrest⟩ | ⟨rest, rfl, hrest⟩
    · have hchild : a.child? i false = some l := by simp [child?, hn, hl]
      rw [follow?_cons hchild]
      exact ihl hrest
    · have hchild : a.child? i true = some r := by simp [child?, hn, hr]
      rw [follow?_cons hchild]
      exact ihr hrest

end PrefixArena

section

variable {entries : Histogram} {merges : List (LiveRoot × LiveRoot)} {queue : List LiveRoot}
variable {a : PrefixArena}

/-- A step down from a node goes to one of the roots that its merge took. -/
theorem exists_merge_of_child? (ha : a.nodes = (mergedNodes entries merges).toArray)
    {r : LiveRoot} (hr : r ∈ rootsOf (mergedNodes entries merges)) {bit : Bool} {j : Nat}
    (h : a.child? r.index bit = some j) :
    ∃ k x y, merges[k]? = some (x, y) ∧ r = ⟨x.weight + y.weight, entries.length + k⟩ ∧
      (if bit then y else x).index = j := by
  unfold PrefixArena.child? at h
  rw [ha, List.getElem?_toArray] at h
  obtain ⟨n, hn, hc⟩ := Option.bind_eq_some_iff.mp h
  have hchild : n.left = some j ∨ n.right = some j := by
    cases bit with
    | false => exact Or.inl hc
    | true => exact Or.inr hc
  obtain ⟨k, ⟨x, y⟩, hk, hm, rfl⟩ := exists_merge_of_child hn hchild
  obtain ⟨m, hm', hw⟩ := mem_rootsOf.mp hr
  obtain rfl := Option.some.inj (hn.symm.trans hm')
  obtain ⟨weight, index⟩ := r
  refine ⟨k, x, y, hm, ?_, ?_⟩
  · rw [LiveRoot.mk.injEq]
    exact ⟨hw.symm, hk⟩
  · cases bit with
    | false => exact Option.some.inj hc
    | true => exact Option.some.inj hc

theorem takenIn_of_bit {k : Nat} {x y : LiveRoot} (hk : merges[k]? = some (x, y)) (bit : Bool) :
    TakenIn merges k (if bit then y else x) := by
  cases bit with
  | false => exact takenIn_left hk
  | true => exact takenIn_right hk

end

theorem exists_planted_history {freqs : Histogram} (hne : freqs ≠ [])
    (hpos : ∀ e ∈ freqs, 0 < e.2) :
    ∃ merges root a t, MergeHistory freqs.sorted merges [root] ∧
      a.nodes = (mergedNodes freqs.sorted merges).toArray ∧ a.root = some root.index ∧
      Planted freqs a t := by
  obtain ⟨merges, root, hhistory, hplant⟩ := plantTree_history hne hpos
  obtain ⟨a, t, hplanted⟩ := exists_planted hne
  obtain rfl := Option.some.inj (hplant.symm.trans hplanted.plantTree_eq)
  exact ⟨merges, root, _, t, hhistory, rfl, rfl, hplanted⟩

theorem Planted.follow?_of_leaf {freqs : Histogram} {merges : List (LiveRoot × LiveRoot)}
    {a : PrefixArena} {t : PrefixTree} {i : Nat} (h : Planted freqs a t)
    (ha : a.nodes = (mergedNodes freqs.sorted merges).toArray) (hroot : a.root = some i)
    (htwo : 2 ≤ freqs.length) {s : Int} {word : CodeWord} (hm : (s, word) ∈ t.leaves) :
    ∃ j e, a.follow? i word = some j ∧ freqs.sorted[j]? = some e ∧ e.1 = s := by
  obtain ⟨i', hi', hhangs⟩ := h.carries
  obtain rfl := Option.some.inj (hi'.symm.trans hroot)
  have hnode : t.leaves = t.leavesBelow [] := by
    cases t with
    | leaf s =>
      have hlen := h.length_symbols
      simp only [PrefixTree.symbols, List.length_singleton] at hlen
      omega
    | node l r => rfl
  rw [hnode] at hm
  obtain ⟨j, n, hfollow, hn, hleaf, rfl⟩ := hhangs.follow? hm
  rw [ha, List.getElem?_toArray] at hn
  by_cases hj : j < freqs.sorted.length
  · rw [getElem?_mergedNodes_leaf merges hj] at hn
    obtain ⟨e, he, rfl⟩ := Option.map_eq_some_iff.mp hn
    exact ⟨j, e, hfollow, he, rfl⟩
  · obtain ⟨k, rfl⟩ := Nat.exists_eq_add_of_le (Nat.le_of_not_lt hj)
    rw [getElem?_mergedNodes_merge] at hn
    obtain ⟨m, _, rfl⟩ := Option.map_eq_some_iff.mp hn
    cases hleaf

end Compression
