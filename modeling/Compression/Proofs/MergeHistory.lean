import Compression.Proofs.LeastRoots
import Mathlib.Algebra.BigOperators.Group.List.Lemmas
import Mathlib.Algebra.Ring.Int.Defs

namespace Compression

def leafNode (entry : Int × Int) : ArenaNode :=
  { weight := entry.2, symbol := entry.1 }

/-- The nodes of an arena that has a leaf for every entry and then a node for every merge. -/
def mergedNodes (entries : Histogram) (merges : List (LiveRoot × LiveRoot)) : List ArenaNode :=
  entries.map leafNode ++ merges.map fun m => m.1.over m.2

/-- Every node as the root that it is or has been. -/
def rootsOf (nodes : List ArenaNode) : List LiveRoot :=
  nodes.mapIdx fun i n => ⟨n.weight, i⟩

/-- The roots in the order in which the merges took them. -/
def takenRoots (merges : List (LiveRoot × LiveRoot)) : List LiveRoot :=
  merges.flatMap fun m => [m.1, m.2]

/-- The merges that have led to a queue: all roots, first those taken and then those in the queue,
are in ascending order, and the merge with the number `k` took roots older than its own node. -/
structure MergeHistory (entries : Histogram) (merges : List (LiveRoot × LiveRoot))
    (queue : List LiveRoot) : Prop where
  ascending : Ascending (takenRoots merges ++ queue)
  roots_perm : (takenRoots merges ++ queue).Perm (rootsOf (mergedNodes entries merges))
  older : ∀ k x y, merges[k]? = some (x, y) →
    x.index < entries.length + k ∧ y.index < entries.length + k
  weight_pos : ∀ r ∈ takenRoots merges ++ queue, 0 < r.weight
  sum_weight : (queue.map LiveRoot.weight).sum = (entries.map Prod.snd).sum

theorem mem_rootsOf {nodes : List ArenaNode} {r : LiveRoot} :
    r ∈ rootsOf nodes ↔ ∃ n, nodes[r.index]? = some n ∧ n.weight = r.weight := by
  unfold rootsOf
  rw [List.mem_mapIdx]
  constructor
  · rintro ⟨i, hi, rfl⟩
    exact ⟨nodes[i], List.getElem?_eq_getElem hi, rfl⟩
  · rintro ⟨n, hn, hw⟩
    obtain ⟨hi, rfl⟩ := List.getElem?_eq_some_iff.mp hn
    exact ⟨r.index, hi, by rw [hw]⟩

@[simp] theorem length_rootsOf (nodes : List ArenaNode) : (rootsOf nodes).length = nodes.length :=
  List.length_mapIdx

theorem rootsOf_concat (nodes : List ArenaNode) (n : ArenaNode) :
    rootsOf (nodes ++ [n]) = rootsOf nodes ++ [⟨n.weight, nodes.length⟩] :=
  List.mapIdx_concat

theorem map_weight_rootsOf (nodes : List ArenaNode) :
    (rootsOf nodes).map LiveRoot.weight = nodes.map ArenaNode.weight := by
  apply List.ext_getElem?
  intro i
  unfold rootsOf
  rw [List.getElem?_map, List.getElem?_mapIdx, List.getElem?_map, Option.map_map]
  rfl

@[simp] theorem length_mergedNodes (entries : Histogram) (merges : List (LiveRoot × LiveRoot)) :
    (mergedNodes entries merges).length = entries.length + merges.length := by
  simp [mergedNodes]

theorem mergedNodes_concat (entries : Histogram) (merges : List (LiveRoot × LiveRoot))
    (x y : LiveRoot) :
    mergedNodes entries (merges ++ [(x, y)]) = mergedNodes entries merges ++ [x.over y] := by
  simp [mergedNodes]

theorem getElem?_mergedNodes_leaf {entries : Histogram} (merges : List (LiveRoot × LiveRoot))
    {i : Nat} (h : i < entries.length) :
    (mergedNodes entries merges)[i]? = entries[i]?.map leafNode := by
  unfold mergedNodes
  rw [List.getElem?_append_left (by simpa using h), List.getElem?_map]

theorem getElem?_mergedNodes_merge (entries : Histogram) (merges : List (LiveRoot × LiveRoot))
    (k : Nat) :
    (mergedNodes entries merges)[entries.length + k]? = merges[k]?.map fun m => m.1.over m.2 := by
  unfold mergedNodes
  rw [List.getElem?_append_right (by simp), List.getElem?_map]
  simp

theorem takenRoots_concat (merges : List (LiveRoot × LiveRoot)) (x y : LiveRoot) :
    takenRoots (merges ++ [(x, y)]) = takenRoots merges ++ [x, y] := by
  simp [takenRoots]

theorem Ascending.weight_le {roots : List LiveRoot} {r : LiveRoot} {rest : List LiveRoot}
    (h : Ascending (roots ++ r :: rest)) {s : LiveRoot} (hs : s ∈ roots ++ [r]) :
    s.weight ≤ r.weight := by
  rcases List.mem_append.mp hs with hs | hs
  · exact LiveRoot.weight_le_of_before ((List.pairwise_append.mp h).2.2 s hs r List.mem_cons_self)
  · obtain rfl := List.mem_singleton.mp hs
    exact Int.le_refl _

theorem takenRoots_append (merges : List (LiveRoot × LiveRoot)) (x y : LiveRoot)
    (rest : List LiveRoot) :
    takenRoots merges ++ x :: y :: rest = takenRoots (merges ++ [(x, y)]) ++ rest := by
  rw [takenRoots_concat, List.append_assoc]
  rfl

namespace MergeHistory

variable {entries : Histogram} {merges : List (LiveRoot × LiveRoot)} {queue rest : List LiveRoot}
variable {x y : LiveRoot}

theorem index_lt_length (h : MergeHistory entries merges queue) {r : LiveRoot}
    (hr : r ∈ takenRoots merges ++ queue) : r.index < (mergedNodes entries merges).length := by
  obtain ⟨n, hn, _⟩ := mem_rootsOf.mp (h.roots_perm.mem_iff.mp hr)
  exact (List.getElem?_eq_some_iff.mp hn).1

/-- A new node is heavier than all roots taken before, since both of its children have weight. -/
theorem ascending_merge (h : MergeHistory entries merges (x :: y :: rest)) :
    Ascending (takenRoots (merges ++ [(x, y)]) ++
      LiveRoot.enqueue ⟨x.weight + y.weight, (mergedNodes entries merges).length⟩ rest) := by
  let parent : LiveRoot := ⟨x.weight + y.weight, (mergedNodes entries merges).length⟩
  have hall := h.ascending
  rw [takenRoots_append] at hall
  obtain ⟨htaken, hrest, hcross⟩ := List.pairwise_append.mp hall
  have hold : ∀ s ∈ rest, parent.index ≠ s.index := fun s hs =>
    Nat.ne_of_gt (h.index_lt_length (by simp [hs]))
  have hx := h.weight_pos x (by simp)
  refine List.pairwise_append.mpr ⟨htaken, Ascending.enqueue hrest hold, ?_⟩
  intro r hr s hs
  rcases List.mem_cons.mp ((parent.enqueue_perm rest).mem_iff.mp hs) with rfl | hs
  · have hsecond : Ascending ((takenRoots merges ++ [x]) ++ y :: rest) := by
      simpa using h.ascending
    have hle : r.weight ≤ y.weight := by
      rw [takenRoots_concat] at hr
      exact hsecond.weight_le (by simpa using hr)
    refine LiveRoot.before_iff.mpr (Or.inl ?_)
    show r.weight < x.weight + y.weight
    omega
  · exact hcross r hr s hs

theorem older_merge (h : MergeHistory entries merges (x :: y :: rest)) {k : Nat} {u v : LiveRoot}
    (hk : (merges ++ [(x, y)])[k]? = some (u, v)) :
    u.index < entries.length + k ∧ v.index < entries.length + k := by
  by_cases hlast : k < merges.length
  · rw [List.getElem?_append_left hlast] at hk
    exact h.older k u v hk
  · rw [List.getElem?_append_right (by omega), List.getElem?_singleton] at hk
    split at hk
    next hzero =>
      cases hk
      have hx : x.index < (mergedNodes entries merges).length := h.index_lt_length (by simp)
      have hy : y.index < (mergedNodes entries merges).length := h.index_lt_length (by simp)
      rw [length_mergedNodes] at hx hy
      omega
    next => cases hk

theorem merge (h : MergeHistory entries merges (x :: y :: rest)) :
    MergeHistory entries (merges ++ [(x, y)])
      (LiveRoot.enqueue ⟨x.weight + y.weight, (mergedNodes entries merges).length⟩ rest) := by
  let parent : LiveRoot := ⟨x.weight + y.weight, (mergedNodes entries merges).length⟩
  have hqueue := parent.enqueue_perm rest
  refine ⟨h.ascending_merge, ?_, fun k u v hk => h.older_merge hk, ?_, ?_⟩
  · have hroots := h.roots_perm
    rw [takenRoots_append] at hroots
    rw [mergedNodes_concat, rootsOf_concat]
    have hmiddle := (hqueue.append_left (takenRoots (merges ++ [(x, y)]))).trans List.perm_middle
    exact (hmiddle.trans (hroots.cons parent)).trans (List.perm_append_singleton parent _).symm
  · have hpos := h.weight_pos
    rw [takenRoots_append] at hpos
    intro r hr
    rcases List.mem_append.mp hr with hr | hr
    · exact hpos r (List.mem_append_left rest hr)
    · rcases List.mem_cons.mp (hqueue.mem_iff.mp hr) with rfl | hr
      · have hx := h.weight_pos x (by simp)
        have hy := h.weight_pos y (by simp)
        show 0 < x.weight + y.weight
        omega
      · exact hpos r (List.mem_append_right _ hr)
  · rw [(hqueue.map LiveRoot.weight).sum_eq, ← h.sum_weight]
    simp only [List.map_cons, List.sum_cons, parent]
    omega

end MergeHistory

theorem leafRoots_eq_mapIdx (index : Nat) (entries : Histogram) :
    leafRoots index entries =
      (entries.map leafNode).mapIdx fun i n => (⟨n.weight, index + i⟩ : LiveRoot) := by
  induction entries generalizing index with
  | nil => rfl
  | cons entry entries ih =>
    rw [leafRoots, ih, List.map_cons, List.mapIdx_cons]
    simp only [Nat.add_zero, Nat.add_assoc, Nat.add_comm 1]
    rfl

theorem leafRoots_eq_rootsOf (entries : Histogram) :
    leafRoots 0 entries = rootsOf (entries.map leafNode) := by
  rw [leafRoots_eq_mapIdx]
  simp only [Nat.zero_add]
  rfl

theorem mergeHistory_leaves {entries : Histogram} (hpos : ∀ e ∈ entries, 0 < e.2) :
    MergeHistory entries [] ((leafRoots 0 entries).foldr LiveRoot.enqueue []) := by
  have hperm := foldr_enqueue_perm (leafRoots 0 entries)
  refine ⟨ascending_foldr_enqueue (pairwise_index_leafRoots 0 entries), ?_, ?_, ?_, ?_⟩
  · have hnodes : mergedNodes entries [] = entries.map leafNode := by simp [mergedNodes]
    rw [hnodes, ← leafRoots_eq_rootsOf]
    exact hperm
  · intro k x y hk
    simp at hk
  · intro r hr
    have hr := hperm.mem_iff.mp hr
    rw [leafRoots_eq_rootsOf] at hr
    obtain ⟨n, hn, hw⟩ := mem_rootsOf.mp hr
    obtain ⟨e, he, rfl⟩ := List.mem_map.mp (List.mem_of_getElem? hn)
    rw [← hw]
    exact hpos e he
  · rw [(hperm.map LiveRoot.weight).sum_eq, leafRoots_eq_rootsOf, map_weight_rootsOf, List.map_map]
    rfl

/-- Merging goes on from any history until one root is left. -/
theorem mergeRoots_history {entries : Histogram} {merges : List (LiveRoot × LiveRoot)}
    {queue : List LiveRoot} (h : MergeHistory entries merges queue) (hne : queue ≠ []) :
    ∃ merges' r, MergeHistory entries merges' [r] ∧
      mergeRoots { nodes := (mergedNodes entries merges).toArray } queue =
        some { nodes := (mergedNodes entries merges').toArray, root := some r.index } := by
  generalize ha : ({ nodes := (mergedNodes entries merges).toArray } : PrefixArena) = a
  induction a, queue using mergeRoots.induct generalizing merges with
  | case1 a => exact absurd rfl hne
  | case2 a r =>
    subst ha
    refine ⟨merges, r, h, ?_⟩
    rw [mergeRoots]
  | case3 a x y rest ih =>
    subst ha
    have hnext := h.merge
    have hpush : ({ nodes := (mergedNodes entries (merges ++ [(x, y)])).toArray } : PrefixArena) =
        PrefixArena.push { nodes := (mergedNodes entries merges).toArray } (x.over y) := by
      rw [mergedNodes_concat]
      simp [PrefixArena.push]
    have hsize : (mergedNodes entries merges).toArray.size =
        (mergedNodes entries merges).length := List.size_toArray
    rw [← hsize] at hnext
    obtain ⟨merges', r, hlast, hroots⟩ := ih hnext (by
      intro hnil
      have := congrArg List.length hnil
      simp at this) hpush
    refine ⟨merges', r, hlast, ?_⟩
    rw [mergeRoots]
    exact hroots

/-- The arena of a histogram has its sorted entries as leaves and a history of merges that has left
one root. -/
theorem plantTree_history {freqs : Histogram} (hne : freqs ≠ []) (hpos : ∀ e ∈ freqs, 0 < e.2) :
    ∃ merges r, MergeHistory freqs.sorted merges [r] ∧
      plantTree freqs = some
        { nodes := (mergedNodes freqs.sorted merges).toArray, root := some r.index } := by
  have hsorted : ∀ e ∈ freqs.sorted, 0 < e.2 := fun e he =>
    hpos e (freqs.sorted_perm.mem_iff.mp he)
  have hqueue : (leafRoots 0 freqs.sorted).foldr LiveRoot.enqueue [] ≠ [] := by
    intro hnil
    have hleaves := (foldr_enqueue_perm (leafRoots 0 freqs.sorted)).length_eq
    rw [hnil, leafRoots_eq_rootsOf, length_rootsOf, List.length_map,
      freqs.sorted_perm.length_eq] at hleaves
    exact hne (List.length_eq_zero_iff.mp hleaves.symm)
  obtain ⟨merges, r, hlast, hroots⟩ := mergeRoots_history (mergeHistory_leaves hsorted) hqueue
  refine ⟨merges, r, hlast, ?_⟩
  unfold plantTree
  rw [← hroots]
  simp only [mergedNodes, List.map_nil, List.append_nil]
  rfl

/-- The root `r` is one of the two that the merge with the number `k` took. -/
def TakenIn (merges : List (LiveRoot × LiveRoot)) (k : Nat) (r : LiveRoot) : Prop :=
  ∃ m, merges[k]? = some m ∧ (r = m.1 ∨ r = m.2)

theorem takenIn_left {merges : List (LiveRoot × LiveRoot)} {k : Nat} {x y : LiveRoot}
    (h : merges[k]? = some (x, y)) : TakenIn merges k x :=
  ⟨(x, y), h, Or.inl rfl⟩

theorem takenIn_right {merges : List (LiveRoot × LiveRoot)} {k : Nat} {x y : LiveRoot}
    (h : merges[k]? = some (x, y)) : TakenIn merges k y :=
  ⟨(x, y), h, Or.inr rfl⟩

theorem mem_takenRoots {merges : List (LiveRoot × LiveRoot)} {r : LiveRoot} :
    r ∈ takenRoots merges ↔ ∃ k, TakenIn merges k r := by
  unfold takenRoots
  rw [List.mem_flatMap]
  constructor
  · rintro ⟨m, hm, hr⟩
    obtain ⟨k, hk⟩ := List.mem_iff_getElem?.mp hm
    exact ⟨k, m, hk, by simpa using hr⟩
  · rintro ⟨k, m, hk, hr⟩
    exact ⟨m, List.mem_of_getElem? hk, by simpa using hr⟩

namespace MergeHistory

variable {entries : Histogram} {merges : List (LiveRoot × LiveRoot)} {queue : List LiveRoot}
variable {i j k : Nat} {r s root : LiveRoot}

theorem index_lt (h : MergeHistory entries merges queue) (hr : TakenIn merges k r) :
    r.index < entries.length + k := by
  obtain ⟨⟨x, y⟩, hk, hr⟩ := hr
  obtain ⟨hx, hy⟩ := h.older k x y hk
  rcases hr with rfl | rfl
  · exact hx
  · exact hy

theorem before_of_lt (h : MergeHistory entries merges queue) (hr : TakenIn merges i r)
    (hs : TakenIn merges j s) (hij : i < j) : r.before s = true := by
  obtain ⟨m, hi, hr⟩ := hr
  obtain ⟨m', hj, hs⟩ := hs
  obtain ⟨hil, rfl⟩ := List.getElem?_eq_some_iff.mp hi
  obtain ⟨hjl, rfl⟩ := List.getElem?_eq_some_iff.mp hj
  have htaken := (List.pairwise_append.mp h.ascending).1
  have hpairs := (List.pairwise_flatMap.mp htaken).2
  exact List.pairwise_iff_getElem.mp hpairs i j hil hjl hij r (by simpa using hr) s
    (by simpa using hs)

theorem left_before_right (h : MergeHistory entries merges queue)
    (hk : merges[k]? = some (r, s)) : r.before s = true := by
  have htaken := (List.pairwise_append.mp h.ascending).1
  have hpair := (List.pairwise_flatMap.mp htaken).1 (r, s) (List.mem_of_getElem? hk)
  exact (List.pairwise_cons.mp hpair).1 s List.mem_cons_self

theorem before_root (h : MergeHistory entries merges [root]) (hr : TakenIn merges k r) :
    r.before root = true :=
  (List.pairwise_append.mp h.ascending).2.2 r (mem_takenRoots.mpr ⟨k, hr⟩) root
    List.mem_cons_self

theorem mem_rootsOf_of_takenIn (h : MergeHistory entries merges queue) (hr : TakenIn merges k r) :
    r ∈ rootsOf (mergedNodes entries merges) :=
  h.roots_perm.mem_iff.mp (List.mem_append_left queue (mem_takenRoots.mpr ⟨k, hr⟩))

theorem weight_pos_of_mem (h : MergeHistory entries merges queue)
    (hr : r ∈ rootsOf (mergedNodes entries merges)) : 0 < r.weight :=
  h.weight_pos r (h.roots_perm.mem_iff.mpr hr)

theorem root_mem (h : MergeHistory entries merges [root]) :
    root ∈ rootsOf (mergedNodes entries merges) :=
  h.roots_perm.mem_iff.mp (List.mem_append_right _ List.mem_cons_self)

theorem root_weight {freqs : Histogram} (h : MergeHistory freqs.sorted merges [root]) :
    root.weight = (freqs.map Prod.snd).sum := by
  have hsum := h.sum_weight
  rw [(freqs.sorted_perm.map Prod.snd).sum_eq] at hsum
  rw [← hsum]
  exact List.sum_singleton.symm

/-- Each merge takes two roots off and puts one in, so there is one merge less than leaves. -/
theorem length_merges (h : MergeHistory entries merges [root]) :
    merges.length + 1 = entries.length := by
  have hlen := h.roots_perm.length_eq
  have htaken : (takenRoots merges).length = 2 * merges.length := by
    simp [takenRoots, List.length_flatMap, Nat.mul_comm]
  simp only [List.length_append, List.length_singleton, length_rootsOf, length_mergedNodes,
    htaken] at hlen
  omega

theorem takenIn_or_root (h : MergeHistory entries merges [root])
    (hr : r ∈ rootsOf (mergedNodes entries merges)) : (∃ k, TakenIn merges k r) ∨ r = root := by
  rcases List.mem_append.mp (h.roots_perm.mem_iff.mpr hr) with hr | hr
  · exact Or.inl (mem_takenRoots.mp hr)
  · exact Or.inr (List.mem_singleton.mp hr)

/-- The newest node is left, since a merge takes only nodes older than its own. -/
theorem index_root (h : MergeHistory entries merges [root]) :
    root.index = 2 * entries.length - 2 := by
  have hlen := h.length_merges
  have hsize := length_mergedNodes entries merges
  have hlast : 2 * entries.length - 2 < (mergedNodes entries merges).length := by omega
  let newest : LiveRoot :=
    ⟨(mergedNodes entries merges)[2 * entries.length - 2].weight, 2 * entries.length - 2⟩
  have hnewest : newest ∈ rootsOf (mergedNodes entries merges) :=
    mem_rootsOf.mpr ⟨_, List.getElem?_eq_getElem hlast, rfl⟩
  rcases h.takenIn_or_root hnewest with ⟨k, hk⟩ | hroot
  · have hold := h.index_lt hk
    obtain ⟨m, hm, _⟩ := hk
    obtain ⟨hkl, _⟩ := List.getElem?_eq_some_iff.mp hm
    have hindex : newest.index = 2 * entries.length - 2 := rfl
    omega
  · rw [← hroot]

end MergeHistory

end Compression
