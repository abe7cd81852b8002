import Compression.MergeRule
import Mathlib.Data.List.Perm.Basic

namespace Compression

/-- Takes the least root, by weight and then by place, out of roots in any order. -/
def takeLeast : List LiveRoot → Option (LiveRoot × List LiveRoot)
  | [] => none
  | r :: rest =>
    match takeLeast rest with
    | none => some (r, [])
    | some (least, others) => if r.before least then some (r, rest) else some (least, r :: others)

theorem takeLeast_eq_none {live : List LiveRoot} (h : takeLeast live = none) : live = [] := by
  cases live with
  | nil => rfl
  | cons r rest =>
    unfold takeLeast at h
    split at h
    next => cases h
    next => split at h <;> cases h

theorem takeLeast_perm {live others : List LiveRoot} {x : LiveRoot}
    (h : takeLeast live = some (x, others)) : live.Perm (x :: others) := by
  induction live generalizing x others with
  | nil => cases h
  | cons r rest ih =>
    unfold takeLeast at h
    split at h
    next hrest =>
      cases h
      rw [takeLeast_eq_none hrest]
    next least others' hrest =>
      have hperm := ih hrest
      split at h
      next => cases h; exact List.Perm.refl _
      next => cases h; exact (hperm.cons r).trans (List.Perm.swap x r others')

theorem LiveRoot.before_iff {a b : LiveRoot} :
    a.before b = true ↔ a.weight < b.weight ∨ a.weight = b.weight ∧ a.index < b.index := by
  simp [before]

theorem LiveRoot.before_trans {a b c : LiveRoot} (hab : a.before b = true)
    (hbc : b.before c = true) : a.before c = true := by
  rw [before_iff] at *
  omega

theorem LiveRoot.not_before_self (r : LiveRoot) : ¬ r.before r = true := by
  rw [before_iff]
  omega

theorem LiveRoot.before_of_not_before {a b : LiveRoot} (h : ¬ a.before b = true)
    (hne : a.index ≠ b.index) : b.before a = true := by
  rw [before_iff] at *
  omega

theorem LiveRoot.weight_le_of_before {a b : LiveRoot} (h : a.before b = true) :
    a.weight ≤ b.weight := by
  rw [before_iff] at h
  omega

theorem LiveRoot.weight_le_of_not_before {a b : LiveRoot} (h : ¬ a.before b = true) :
    b.weight ≤ a.weight := by
  rw [before_iff] at h
  omega

theorem takeLeast_not_before {live others : List LiveRoot} {x : LiveRoot}
    (h : takeLeast live = some (x, others)) : ∀ r ∈ others, ¬ r.before x = true := by
  induction live generalizing x others with
  | nil => cases h
  | cons r rest ih =>
    unfold takeLeast at h
    split at h
    next => cases h; simp
    next least others' hrest =>
      have hleast := ih hrest
      split at h
      next hr =>
        cases h
        intro s hs hsr
        have hbefore := LiveRoot.before_trans hsr hr
        rcases List.mem_cons.mp ((takeLeast_perm hrest).mem_iff.mp hs) with rfl | hs
        · exact s.not_before_self hbefore
        · exact hleast s hs hbefore
      next hr =>
        cases h
        intro s hs
        rcases List.mem_cons.mp hs with rfl | hs
        · exact hr
        · exact hleast s hs

/-- The node over two roots, the first as the left child. -/
def LiveRoot.over (x y : LiveRoot) : ArenaNode :=
  { weight := x.weight + y.weight, left := some x.index, right := some y.index }

/-- The naive rule for roots in any order: the least becomes the left child and the next least the
right child of a new node, which takes their place, until one root is left. -/
def mergeLeast (a : PrefixArena) (live : List LiveRoot) : Option PrefixArena :=
  match _h : takeLeast live with
  | none => none
  | some (x, others) =>
    match _h' : takeLeast others with
    | none => some { a with root := some x.index }
    | some (y, rest) =>
      mergeLeast (a.push (x.over y)) (rest ++ [⟨x.weight + y.weight, a.nodes.size⟩])
termination_by live.length
decreasing_by
  have hx := (takeLeast_perm _h).length_eq
  have hy := (takeLeast_perm _h').length_eq
  simp only [List.length_cons, List.length_append, List.length_nil] at *
  omega

theorem mergeLeast_of_lone {live : List LiveRoot} {x : LiveRoot} (a : PrefixArena)
    (hx : takeLeast live = some (x, [])) :
    mergeLeast a live = some { a with root := some x.index } := by
  unfold mergeLeast
  split
  next hnone => rw [hx] at hnone; cases hnone
  next least others hsome =>
    cases hx.symm.trans hsome
    rfl

theorem mergeLeast_of_two {live others rest : List LiveRoot} {x y : LiveRoot} (a : PrefixArena)
    (hx : takeLeast live = some (x, others)) (hy : takeLeast others = some (y, rest)) :
    mergeLeast a live =
      mergeLeast (a.push (x.over y)) (rest ++ [⟨x.weight + y.weight, a.nodes.size⟩]) := by
  rw [mergeLeast]
  split
  next hnone => rw [hx] at hnone; cases hnone
  next least others' hsome =>
    cases hx.symm.trans hsome
    split
    next hnone => rw [hy] at hnone; cases hnone
    next next rest' hsome' =>
      cases hy.symm.trans hsome'
      rfl

/-- Roots from the lightest to the heaviest, of equally heavy ones the older first. -/
def Ascending (roots : List LiveRoot) : Prop :=
  roots.Pairwise fun r s => r.before s = true

theorem Ascending.takeLeast_eq {x : LiveRoot} {rest live : List LiveRoot}
    (h : Ascending (x :: rest)) (hp : live.Perm (x :: rest)) :
    ∃ others, takeLeast live = some (x, others) ∧ others.Perm rest := by
  cases hl : takeLeast live with
  | none =>
    rw [takeLeast_eq_none hl] at hp
    have := hp.length_eq
    simp at this
  | some taken =>
    obtain ⟨least, others⟩ := taken
    have hperm := (takeLeast_perm hl).symm.trans hp
    have hx : x ∈ least :: others := hperm.mem_iff.mpr List.mem_cons_self
    have hleast : least ∈ x :: rest := hperm.mem_iff.mp List.mem_cons_self
    have heq : least = x := by
      rcases List.mem_cons.mp hx with heq | hx
      · exact heq.symm
      · rcases List.mem_cons.mp hleast with heq | hrest
        · exact heq
        · have hbefore := (List.pairwise_cons.mp h).1 least hrest
          exact absurd hbefore (takeLeast_not_before hl x hx)
    subst heq
    exact ⟨others, rfl, hperm.cons_inv⟩

theorem LiveRoot.enqueue_perm (r : LiveRoot) (queue : List LiveRoot) :
    (r.enqueue queue).Perm (r :: queue) := by
  induction queue with
  | nil => exact List.Perm.refl _
  | cons s rest ih =>
    unfold enqueue
    split
    next => exact List.Perm.refl _
    next => exact (ih.cons s).trans (List.Perm.swap r s rest)

theorem Ascending.enqueue {r : LiveRoot} {queue : List LiveRoot} (h : Ascending queue)
    (hne : ∀ s ∈ queue, r.index ≠ s.index) : Ascending (r.enqueue queue) := by
  induction queue with
  | nil => exact List.pairwise_singleton _ r
  | cons s rest ih =>
    obtain ⟨hs, hrest⟩ := List.pairwise_cons.mp h
    unfold LiveRoot.enqueue
    split
    next hr =>
      refine List.pairwise_cons.mpr ⟨fun q hq => ?_, h⟩
      rcases List.mem_cons.mp hq with rfl | hq
      · exact hr
      · exact LiveRoot.before_trans hr (hs q hq)
    next hr =>
      have htail := ih hrest fun q hq => hne q (List.mem_cons_of_mem s hq)
      refine List.pairwise_cons.mpr ⟨fun q hq => ?_, htail⟩
      rcases List.mem_cons.mp ((r.enqueue_perm rest).mem_iff.mp hq) with rfl | hq
      · exact LiveRoot.before_of_not_before hr (hne s List.mem_cons_self)
      · exact hs q hq

theorem foldr_enqueue_perm (roots : List LiveRoot) :
    (roots.foldr LiveRoot.enqueue []).Perm roots := by
  induction roots with
  | nil => exact List.Perm.refl _
  | cons r roots ih => exact (r.enqueue_perm _).trans (ih.cons r)

theorem ascending_foldr_enqueue {roots : List LiveRoot}
    (hn : roots.Pairwise fun r s => r.index ≠ s.index) :
    Ascending (roots.foldr LiveRoot.enqueue []) := by
  induction roots with
  | nil => exact List.Pairwise.nil
  | cons r roots ih =>
    obtain ⟨hr, hrest⟩ := List.pairwise_cons.mp hn
    exact (ih hrest).enqueue fun s hs => hr s ((foldr_enqueue_perm roots).mem_iff.mp hs)

theorem index_of_mem_leafRoots {index : Nat} {entries : Histogram} {r : LiveRoot}
    (h : r ∈ leafRoots index entries) : index ≤ r.index ∧ r.index < index + entries.length := by
  induction entries generalizing index with
  | nil => cases h
  | cons entry entries ih =>
    rw [List.length_cons]
    rcases List.mem_cons.mp h with rfl | h
    · show index ≤ index ∧ index < index + (entries.length + 1)
      omega
    · have hbounds := ih h
      omega

theorem pairwise_index_leafRoots (index : Nat) (entries : Histogram) :
    (leafRoots index entries).Pairwise fun r s => r.index ≠ s.index := by
  induction entries generalizing index with
  | nil => exact List.Pairwise.nil
  | cons entry entries ih =>
    refine List.pairwise_cons.mpr ⟨fun s hs => ?_, ih (index + 1)⟩
    have hbounds := index_of_mem_leafRoots hs
    show index ≠ s.index
    omega

/-- Merging the first two roots of an ordered queue is merging the least two of the same roots in
any order. -/
theorem mergeRoots_eq_mergeLeast {a : PrefixArena} {queue live : List LiveRoot}
    (h : Ascending queue) (hlt : ∀ r ∈ queue, r.index < a.nodes.size) (hp : live.Perm queue) :
    mergeRoots a queue = mergeLeast a live := by
  -- The naive rule puts the new root at the end and the queue keeps it in order, so `live` varies.
  induction a, queue using mergeRoots.induct generalizing live with
  | case1 a =>
    rw [hp.eq_nil, mergeRoots]
    unfold mergeLeast
    rfl
  | case2 a r =>
    obtain ⟨others, htake, hothers⟩ := h.takeLeast_eq hp
    rw [hothers.eq_nil] at htake
    rw [mergeRoots, mergeLeast_of_lone a htake]
  | case3 a x y rest ih =>
    obtain ⟨others, hx, hothers⟩ := h.takeLeast_eq hp
    obtain ⟨_, htail⟩ := List.pairwise_cons.mp h
    obtain ⟨others', hy, hrest⟩ := Ascending.takeLeast_eq htail hothers
    let parent : LiveRoot := ⟨x.weight + y.weight, a.nodes.size⟩
    have hold : ∀ s ∈ rest, s.index < a.nodes.size := fun s hs =>
      hlt s (List.mem_cons_of_mem x (List.mem_cons_of_mem y hs))
    have hqueue : Ascending (parent.enqueue rest) :=
      Ascending.enqueue (List.pairwise_cons.mp htail).2 fun s hs => Nat.ne_of_gt (hold s hs)
    have hlive : (others' ++ [parent]).Perm (parent.enqueue rest) :=
      (List.perm_append_singleton parent others').trans
        ((hrest.cons parent).trans (parent.enqueue_perm rest).symm)
    have hbound : ∀ r ∈ parent.enqueue rest, r.index < (a.push (x.over y)).nodes.size := by
      intro r hr
      have hsize : (a.push (x.over y)).nodes.size = a.nodes.size + 1 := Array.size_push _
      rw [hsize]
      rcases List.mem_cons.mp ((parent.enqueue_perm rest).mem_iff.mp hr) with rfl | hr
      · exact Nat.lt_succ_self _
      · exact Nat.lt_succ_of_lt (hold r hr)
    rw [mergeRoots, mergeLeast_of_two a hx hy]
    exact ih hqueue hbound hlive

end Compression
