import Compression.Proofs.ArenaTree
import Compression.Proofs.LeastRoots

namespace Compression

/-- A live root with the tree below it. -/
structure LiveTree extends LiveRoot where
  tree : PrefixTree

/-- Puts a tree in its place in a queue that is ordered by the roots. -/
def LiveTree.enqueue (x : LiveTree) : List LiveTree → List LiveTree
  | [] => [x]
  | y :: rest =>
    if x.toLiveRoot.before y.toLiveRoot then x :: y :: rest else y :: x.enqueue rest

@[simp] theorem LiveTree.length_enqueue (x : LiveTree) (queue : List LiveTree) :
    (x.enqueue queue).length = queue.length + 1 := by
  induction queue with
  | nil => rfl
  | cons y rest ih => simp only [enqueue]; split <;> simp [ih]

/-- The tree with `x` on the left and `y` on the right, when its root is at `index`. -/
def LiveTree.join (x y : LiveTree) (index : Nat) : LiveTree :=
  ⟨⟨x.weight + y.weight, index⟩, .node x.tree y.tree⟩

/-- Merges the first two trees of the queue until one is left. The first merge puts its root at
`index`. -/
def mergeTrees (index : Nat) : List LiveTree → Option PrefixTree
  | [] => none
  | [x] => some x.tree
  | x :: y :: rest => mergeTrees (index + 1) ((x.join y index).enqueue rest)
termination_by queue => queue.length

/-- The leaves of entries, the first of them at place `index`. -/
def leafTrees (index : Nat) : Histogram → List LiveTree
  | [] => []
  | (symbol, weight) :: rest => ⟨⟨weight, index⟩, .leaf symbol⟩ :: leafTrees (index + 1) rest

/-- The leaves of a histogram in the order in which they are merged. -/
def Histogram.leafQueue (freqs : Histogram) : List LiveTree :=
  (leafTrees 0 freqs.sorted).foldr LiveTree.enqueue []

theorem LiveTree.map_enqueue (x : LiveTree) (queue : List LiveTree) :
    (x.enqueue queue).map toLiveRoot = x.toLiveRoot.enqueue (queue.map toLiveRoot) := by
  induction queue with
  | nil => rfl
  | cons y rest ih =>
    simp only [enqueue, List.map_cons, LiveRoot.enqueue]
    split
    next => rfl
    next => rw [List.map_cons, ih]

theorem LiveTree.enqueue_perm (x : LiveTree) (queue : List LiveTree) :
    (x.enqueue queue).Perm (x :: queue) := by
  induction queue with
  | nil => exact List.Perm.refl _
  | cons y rest ih =>
    rw [enqueue]
    split
    next => exact List.Perm.refl _
    next => exact (ih.cons y).trans (List.Perm.swap x y rest)

/-- The queue stays in ascending order of the weights. -/
theorem LiveTree.pairwise_enqueue {x : LiveTree} {queue : List LiveTree}
    (h : queue.Pairwise fun y z => y.weight ≤ z.weight) :
    (x.enqueue queue).Pairwise fun y z => y.weight ≤ z.weight := by
  induction queue with
  | nil => simp [enqueue]
  | cons y rest ih =>
    obtain ⟨hy, hrest⟩ := List.pairwise_cons.mp h
    rw [enqueue]
    split
    next hx =>
      have hxy := LiveRoot.weight_le_of_before hx
      refine List.pairwise_cons.mpr ⟨fun z hz => ?_, h⟩
      rcases List.mem_cons.mp hz with rfl | hz
      · exact hxy
      · exact hxy.trans (hy z hz)
    next hx =>
      refine List.pairwise_cons.mpr ⟨fun z hz => ?_, ih hrest⟩
      rcases List.mem_cons.mp ((x.enqueue_perm rest).mem_iff.mp hz) with rfl | hz
      · exact LiveRoot.weight_le_of_not_before hx
      · exact hy z hz

theorem Histogram.pairwise_leafQueue (freqs : Histogram) :
    freqs.leafQueue.Pairwise fun x y => x.weight ≤ y.weight := by
  rw [leafQueue]
  induction leafTrees 0 freqs.sorted with
  | nil => exact List.Pairwise.nil
  | cons x trees ih => exact LiveTree.pairwise_enqueue ih

theorem LiveTree.enqueue_ne_nil (x : LiveTree) (queue : List LiveTree) : x.enqueue queue ≠ [] :=
  List.ne_nil_of_length_pos (by rw [length_enqueue]; omega)

theorem map_leafTrees (index : Nat) (entries : Histogram) :
    (leafTrees index entries).map LiveTree.toLiveRoot = leafRoots index entries := by
  induction entries generalizing index with
  | nil => rfl
  | cons entry entries ih => rw [leafTrees, leafRoots, List.map_cons, ih]

theorem Histogram.leafQueue_perm (freqs : Histogram) :
    freqs.leafQueue.Perm (leafTrees 0 freqs.sorted) := by
  have h : ∀ trees : List LiveTree, (trees.foldr LiveTree.enqueue []).Perm trees := by
    intro trees
    induction trees with
    | nil => exact List.Perm.refl _
    | cons x trees ih => exact (x.enqueue_perm _).trans (ih.cons x)
  exact h _

theorem Histogram.map_leafQueue (freqs : Histogram) :
    freqs.leafQueue.map LiveTree.toLiveRoot =
      (leafRoots 0 freqs.sorted).foldr LiveRoot.enqueue [] := by
  rw [leafQueue, ← map_leafTrees]
  generalize leafTrees 0 freqs.sorted = trees
  induction trees with
  | nil => rfl
  | cons x trees ih =>
    rw [List.foldr_cons, LiveTree.map_enqueue, ih, List.map_cons, List.foldr_cons]

/-- Every tree of the queue hangs at its root in the arena. -/
def PrefixArena.Bears (a : PrefixArena) (queue : List LiveTree) : Prop :=
  ∀ x ∈ queue, a.Hangs x.index x.tree

theorem PrefixArena.Bears.join {a : PrefixArena} {x y : LiveTree} {rest : List LiveTree}
    (h : a.Bears (x :: y :: rest)) (weight : Int) :
    (a.push { weight := weight, left := some x.index, right := some y.index }).Bears
      ((x.join y a.nodes.size).enqueue rest) := by
  intro z hz
  have hx : a.Hangs x.index x.tree := h x List.mem_cons_self
  have hy : a.Hangs y.index y.tree := h y (List.mem_cons_of_mem x List.mem_cons_self)
  rcases List.mem_cons.mp ((LiveTree.enqueue_perm _ rest).mem_iff.mp hz) with rfl | hz
  · exact hx.push_parent hy weight
  · exact (h z (List.mem_cons_of_mem x (List.mem_cons_of_mem y hz))).push _

/-- Merging roots in an arena is merging the trees that hang from them. -/
theorem mergeRoots_carries {a : PrefixArena} {queue : List LiveTree} (h : a.Bears queue)
    (hne : queue ≠ []) :
    ∃ planted t, mergeRoots a (queue.map LiveTree.toLiveRoot) = some planted ∧
      mergeTrees a.nodes.size queue = some t ∧ planted.Carries t := by
  induction hn : a.nodes.size, queue using mergeTrees.induct generalizing a with
  | case1 => exact absurd rfl hne
  | case2 index x =>
    let planted : PrefixArena := { a with root := some x.index }
    have hx : planted.Hangs x.index x.tree := (h x List.mem_cons_self).mono fun _ _ hm => hm
    refine ⟨planted, x.tree, ?_, by rw [mergeTrees], x.index, rfl, hx⟩
    rw [List.map_cons, List.map_nil, mergeRoots]
  | case3 index x y rest ih =>
    subst hn
    obtain ⟨planted, t, hroots, htrees, hcarries⟩ :=
      ih (h.join (x.weight + y.weight)) (LiveTree.enqueue_ne_nil _ rest)
        (by simp [PrefixArena.push])
    refine ⟨planted, t, ?_, by rw [mergeTrees]; exact htrees, hcarries⟩
    rw [LiveTree.map_enqueue] at hroots
    rw [List.map_cons, List.map_cons, mergeRoots]
    exact hroots

/-- The merged tree has the symbols of all the trees merged. -/
theorem symbols_mergeTrees {index : Nat} {queue : List LiveTree} {t : PrefixTree}
    (h : mergeTrees index queue = some t) :
    t.symbols.Perm (queue.flatMap fun x => x.tree.symbols) := by
  fun_induction mergeTrees index queue with
  | case1 => cases h
  | case2 index x => cases h; simp
  | case3 index x y rest ih =>
    refine (ih h).trans ?_
    have hp := LiveTree.enqueue_perm (x.join y index) rest
    simpa [LiveTree.join, PrefixTree.symbols] using hp.flatMap_right fun z => z.tree.symbols

theorem leafTrees_bears {a : PrefixArena} (before : List ArenaNode) {entries : Histogram}
    (h : a.nodes.toList = before ++ entries.map fun e => { weight := e.2, symbol := e.1 }) :
    a.Bears (leafTrees before.length entries) := by
  induction entries generalizing before with
  | nil => intro x hx; cases hx
  | cons entry entries ih =>
    have hn : a.nodes[before.length]? = some { weight := entry.2, symbol := entry.1 } := by
      rw [← Array.getElem?_toList, h]
      simp
    have hrest : a.nodes.toList = (before ++ [{ weight := entry.2, symbol := entry.1 }]) ++
        entries.map fun e => { weight := e.2, symbol := e.1 } := by simpa using h
    have hlen : before.length + 1 =
        (before ++ [({ weight := entry.2, symbol := entry.1 } : ArenaNode)]).length := by simp
    intro x hx
    rcases List.mem_cons.mp hx with rfl | hx
    · exact .leaf hn rfl
    · rw [hlen] at hx
      exact ih _ hrest x hx

end Compression
