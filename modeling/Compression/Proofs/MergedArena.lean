import Compression.Proofs.MergeHistory

namespace Compression

def PrefixArena.HasChild (a : PrefixArena) (j i : Nat) : Prop :=
  ∃ n, a.nodes[j]? = some n ∧ (n.left = some i ∨ n.right = some i)

/-- An arena with the entries of a histogram as leaves, in ascending order of their symbols, and a
full binary tree of nodes above them that grow in weight. -/
structure PrefixArena.MergedFrom (a : PrefixArena) (freqs : Histogram) : Prop where
  size_eq : a.nodes.size = 2 * freqs.length - 1
  root_eq : a.root = some (2 * freqs.length - 2)
  leaf_eq : ∀ (i : Nat) e, freqs.sorted[i]? = some e →
    a.nodes[i]? = some { weight := e.2, symbol := e.1 }
  children : ∀ i, freqs.length ≤ i → i < a.nodes.size →
    ∃ (l r : Nat) (left right : ArenaNode), l < i ∧ r < i ∧ l ≠ r ∧
      a.nodes[l]? = some left ∧ a.nodes[r]? = some right ∧ a.nodes[i]? =
        some { weight := left.weight + right.weight, left := some l, right := some r }
  parent : ∀ i, i < a.nodes.size → a.root ≠ some i → ∃! j, a.HasChild j i
  weight_le : ∀ (i j : Nat) n m, freqs.length ≤ i → i ≤ j → a.nodes[i]? = some n →
    a.nodes[j]? = some m → n.weight ≤ m.weight
  root_weight : ∃ n, a.node? a.root = some n ∧ n.weight = (freqs.map Prod.snd).sum

theorem eq_of_mem_rootsOf {nodes : List ArenaNode} {r s : LiveRoot} (hr : r ∈ rootsOf nodes)
    (hs : s ∈ rootsOf nodes) (h : r.index = s.index) : r = s := by
  obtain ⟨n, hn, hnw⟩ := mem_rootsOf.mp hr
  obtain ⟨m, hm, hmw⟩ := mem_rootsOf.mp hs
  rw [h] at hn
  obtain rfl := Option.some.inj (hn.symm.trans hm)
  obtain ⟨weight, index⟩ := r
  obtain ⟨weight', index'⟩ := s
  rw [LiveRoot.mk.injEq]
  exact ⟨hnw.symm.trans hmw, h⟩

namespace MergeHistory

variable {entries : Histogram} {merges : List (LiveRoot × LiveRoot)} {queue : List LiveRoot}
variable {i j k : Nat} {x y u v r root : LiveRoot}

theorem weight_over_le (h : MergeHistory entries merges queue) (hi : merges[i]? = some (x, y))
    (hj : merges[j]? = some (u, v)) (hij : i ≤ j) : x.weight + y.weight ≤ u.weight + v.weight := by
  rcases Nat.eq_or_lt_of_le hij with rfl | hlt
  · obtain ⟨rfl, rfl⟩ := Prod.mk.inj (Option.some.inj (hi.symm.trans hj))
    exact Int.le_refl _
  · have hx := h.before_of_lt (takenIn_left hi) (takenIn_left hj) hlt
    have hy := h.before_of_lt (takenIn_right hi) (takenIn_right hj) hlt
    exact Int.add_le_add (LiveRoot.weight_le_of_before hx) (LiveRoot.weight_le_of_before hy)

theorem node_weight_le (h : MergeHistory entries merges queue) {n m : ArenaNode}
    (hi : entries.length ≤ i) (hij : i ≤ j) (hn : (mergedNodes entries merges)[i]? = some n)
    (hm : (mergedNodes entries merges)[j]? = some m) : n.weight ≤ m.weight := by
  obtain ⟨k, rfl⟩ := Nat.exists_eq_add_of_le hi
  obtain ⟨k', rfl⟩ := Nat.exists_eq_add_of_le (hi.trans hij)
  rw [getElem?_mergedNodes_merge] at hn hm
  obtain ⟨⟨x, y⟩, hk, rfl⟩ := Option.map_eq_some_iff.mp hn
  obtain ⟨⟨u, v⟩, hk', rfl⟩ := Option.map_eq_some_iff.mp hm
  exact h.weight_over_le hk hk' (by omega)

theorem index_ne (h : MergeHistory entries merges queue) (hk : merges[k]? = some (x, y)) :
    x.index ≠ y.index := by
  intro heq
  have hx := h.mem_rootsOf_of_takenIn (takenIn_left hk)
  have hy := h.mem_rootsOf_of_takenIn (takenIn_right hk)
  have hbefore := h.left_before_right hk
  rw [eq_of_mem_rootsOf hx hy heq] at hbefore
  exact y.not_before_self hbefore

theorem eq_of_takenIn (h : MergeHistory entries merges queue) (hi : TakenIn merges i r)
    (hj : TakenIn merges j r) : i = j := by
  by_contra hne
  rcases Nat.lt_or_gt_of_ne hne with hlt | hlt
  · exact r.not_before_self (h.before_of_lt hi hj hlt)
  · exact r.not_before_self (h.before_of_lt hj hi hlt)

end MergeHistory

/-- A node has children only if it was put there by a merge, and then they are the roots taken. -/
theorem exists_merge_of_child {entries : Histogram} {merges : List (LiveRoot × LiveRoot)}
    {n : ArenaNode} {j i : Nat} (hn : (mergedNodes entries merges)[j]? = some n)
    (hc : n.left = some i ∨ n.right = some i) :
    ∃ k m, j = entries.length + k ∧ merges[k]? = some m ∧ n = m.1.over m.2 := by
  by_cases hj : j < entries.length
  · rw [getElem?_mergedNodes_leaf merges hj] at hn
    obtain ⟨e, _, rfl⟩ := Option.map_eq_some_iff.mp hn
    rcases hc with hc | hc <;> cases hc
  · obtain ⟨k, rfl⟩ := Nat.exists_eq_add_of_le (Nat.le_of_not_lt hj)
    rw [getElem?_mergedNodes_merge] at hn
    obtain ⟨m, hm, rfl⟩ := Option.map_eq_some_iff.mp hn
    exact ⟨k, m, rfl, hm, rfl⟩

section

variable {entries : Histogram} {merges : List (LiveRoot × LiveRoot)} {a : PrefixArena}

theorem hasChild_iff (ha : a.nodes = (mergedNodes entries merges).toArray) {j i : Nat} :
    a.HasChild j i ↔ ∃ k r, j = entries.length + k ∧ TakenIn merges k r ∧ r.index = i := by
  unfold PrefixArena.HasChild
  rw [ha, List.getElem?_toArray]
  constructor
  · rintro ⟨n, hn, hc⟩
    obtain ⟨k, m, rfl, hm, rfl⟩ := exists_merge_of_child hn hc
    rcases hc with hc | hc
    · exact ⟨k, m.1, rfl, ⟨m, hm, Or.inl rfl⟩, Option.some.inj hc⟩
    · exact ⟨k, m.2, rfl, ⟨m, hm, Or.inr rfl⟩, Option.some.inj hc⟩
  · rintro ⟨k, r, rfl, ⟨m, hm, hr⟩, rfl⟩
    refine ⟨m.1.over m.2, ?_, ?_⟩
    · rw [getElem?_mergedNodes_merge, hm]
      rfl
    · rcases hr with rfl | rfl
      · exact Or.inl rfl
      · exact Or.inr rfl

theorem MergeHistory.exists_children {queue : List LiveRoot}
    (h : MergeHistory entries merges queue) {i : Nat} (hi : entries.length ≤ i)
    (hsize : i < (mergedNodes entries merges).length) :
    ∃ (l r : Nat) (left right : ArenaNode), l < i ∧ r < i ∧ l ≠ r ∧
      (mergedNodes entries merges)[l]? = some left ∧
      (mergedNodes entries merges)[r]? = some right ∧ (mergedNodes entries merges)[i]? =
        some { weight := left.weight + right.weight, left := some l, right := some r } := by
  obtain ⟨k, rfl⟩ := Nat.exists_eq_add_of_le hi
  rw [length_mergedNodes] at hsize
  have hk : k < merges.length := by omega
  obtain ⟨⟨x, y⟩, hm⟩ : ∃ m, merges[k]? = some m := ⟨_, List.getElem?_eq_getElem hk⟩
  obtain ⟨hx, hy⟩ := h.older k x y hm
  obtain ⟨left, hleft, hlw⟩ := mem_rootsOf.mp (h.mem_rootsOf_of_takenIn (takenIn_left hm))
  obtain ⟨right, hright, hrw⟩ := mem_rootsOf.mp (h.mem_rootsOf_of_takenIn (takenIn_right hm))
  refine ⟨x.index, y.index, left, right, hx, hy, h.index_ne hm, hleft, hright, ?_⟩
  rw [getElem?_mergedNodes_merge, hm, hlw, hrw]
  rfl

theorem MergeHistory.existsUnique_parent {root : LiveRoot}
    (h : MergeHistory entries merges [root])
    (ha : a.nodes = (mergedNodes entries merges).toArray) {i : Nat} (hi : i < a.nodes.size)
    (hroot : root.index ≠ i) : ∃! j, a.HasChild j i := by
  rw [ha, List.size_toArray] at hi
  let r : LiveRoot := ⟨(mergedNodes entries merges)[i].weight, i⟩
  have hr : r ∈ rootsOf (mergedNodes entries merges) :=
    mem_rootsOf.mpr ⟨_, List.getElem?_eq_getElem hi, rfl⟩
  rcases h.takenIn_or_root hr with ⟨k, hk⟩ | heq
  · refine ⟨entries.length + k, (hasChild_iff ha).mpr ⟨k, r, rfl, hk, rfl⟩, ?_⟩
    intro j hj
    obtain ⟨k', s, rfl, hk', hs⟩ := (hasChild_iff ha).mp hj
    have hsame : s = r := eq_of_mem_rootsOf (h.mem_rootsOf_of_takenIn hk') hr hs
    rw [hsame] at hk'
    rw [h.eq_of_takenIn hk' hk]
  · exact absurd (congrArg LiveRoot.index heq).symm hroot

end

theorem MergeHistory.mergedFrom {freqs : Histogram} {merges : List (LiveRoot × LiveRoot)}
    {root : LiveRoot} (h : MergeHistory freqs.sorted merges [root]) :
    PrefixArena.MergedFrom
      { nodes := (mergedNodes freqs.sorted merges).toArray, root := some root.index } freqs := by
  have hlen : freqs.sorted.length = freqs.length := freqs.sorted_perm.length_eq
  have hmerges := h.length_merges
  have hindex := h.index_root
  have hsize : (mergedNodes freqs.sorted merges).toArray.size = 2 * freqs.length - 1 := by
    rw [List.size_toArray, length_mergedNodes]
    omega
  refine ⟨hsize, ?_, ?_, ?_, ?_, ?_, ?_⟩
  · show some root.index = some (2 * freqs.length - 2)
    rw [hindex, hlen]
  · intro i e he
    obtain ⟨hi, _⟩ := List.getElem?_eq_some_iff.mp he
    show (mergedNodes freqs.sorted merges).toArray[i]? = _
    rw [List.getElem?_toArray, getElem?_mergedNodes_leaf merges hi, he]
    rfl
  · intro i hi hbound
    rw [← hlen] at hi
    obtain ⟨l, r, left, right, hchildren⟩ := h.exists_children hi (by simpa using hbound)
    exact ⟨l, r, left, right, by simpa using hchildren⟩
  · intro i hi hne
    exact h.existsUnique_parent rfl hi fun heq => hne (congrArg some heq)
  · intro i j n m hi hij hn hm
    rw [← hlen] at hi
    exact h.node_weight_le hi hij (by simpa using hn) (by simpa using hm)
  · obtain ⟨n, hn, hw⟩ := mem_rootsOf.mp h.root_mem
    refine ⟨n, by simpa [PrefixArena.node?] using hn, ?_⟩
    rw [hw, h.root_weight]

/-- The arena of a histogram is the one that the naive rule gives, in whatever order the live roots
are kept and the entries of the histogram are listed. -/
theorem plantTree_merges_least {freqs : Histogram} (hne : freqs ≠ []) (hn : freqs.symbols.Nodup)
    (hpos : ∀ e ∈ freqs, 0 < e.2) :
    ∃ arena, plantTree freqs = some arena ∧
      (∀ freqs', freqs'.Perm freqs → plantTree freqs' = some arena) ∧
      (∀ live, live.Perm (leafRoots 0 freqs.sorted) →
        mergeLeast { nodes := (freqs.sorted.map leafNode).toArray } live = some arena) ∧
      (freqs.sorted.Perm freqs ∧ freqs.sorted.Pairwise fun e e' => e.1 < e'.1) ∧
      arena.MergedFrom freqs := by
  obtain ⟨merges, root, hhistory, hplant⟩ := plantTree_history hne hpos
  refine ⟨_, hplant, ?_, ?_, ⟨freqs.sorted_perm, Histogram.pairwise_lt_sorted hn⟩,
    hhistory.mergedFrom⟩
  · intro freqs' hp
    rw [← hplant]
    unfold plantTree
    rw [Histogram.sorted_eq_of_perm hn hp]
  · intro live hlive
    have hqueue := foldr_enqueue_perm (leafRoots 0 freqs.sorted)
    rw [← hplant]
    symm
    refine mergeRoots_eq_mergeLeast
      (ascending_foldr_enqueue (pairwise_index_leafRoots 0 freqs.sorted)) (fun r hr => ?_)
      (hlive.trans hqueue.symm)
    have hbound := (index_of_mem_leafRoots (hqueue.mem_iff.mp hr)).2
    simpa using hbound

theorem plantTree_merges_least_abracadabra :
    let freqs : Histogram := [(114, 2), (97, 5), (98, 2), (99, 1), (100, 1)]
    (freqs ≠ [] ∧ freqs.symbols.Nodup ∧ ∀ e ∈ freqs, 0 < e.2) ∧
    ∃ arena, plantTree freqs = some arena ∧
      (∀ freqs', freqs'.Perm freqs → plantTree freqs' = some arena) ∧
      (∀ live, live.Perm (leafRoots 0 freqs.sorted) →
        mergeLeast { nodes := (freqs.sorted.map leafNode).toArray } live = some arena) ∧
      (freqs.sorted.Perm freqs ∧ freqs.sorted.Pairwise fun e e' => e.1 < e'.1) ∧
      arena.MergedFrom freqs :=
  ⟨⟨by decide, by decide, by decide⟩,
    plantTree_merges_least (by decide) (by decide) (by decide)⟩

end Compression
