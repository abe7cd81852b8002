import Compression.Proofs.PlantedTree
import Compression.Proofs.PrefixCode

namespace Compression

/-- How many bits the words of a text with this histogram have in all. -/
def Histogram.codedLength (freqs : Histogram) (word : Int → CodeWord) : Int :=
  (freqs.map fun e => e.2 * ((word e.1).length : Int)).sum

def CodeTable.word (table : CodeTable) (s : Int) : CodeWord :=
  (table.find? s).getD []

def PrefixTree.weight (freq : Int → Int) : PrefixTree → Int
  | .leaf s => freq s
  | .node l r => l.weight freq + r.weight freq

/-- The weights of all nodes with children, which are the bits that the merges cost. -/
def PrefixTree.cost (freq : Int → Int) : PrefixTree → Int
  | .leaf _ => 0
  | .node l r => l.cost freq + r.cost freq + (l.weight freq + r.weight freq)

theorem PrefixTree.sum_leavesBelow (freq : Int → Int) (path : CodeWord) (t : PrefixTree) :
    ((t.leavesBelow path).map fun leaf => freq leaf.1 * (leaf.2.length : Int)).sum =
      t.cost freq + t.weight freq * path.length := by
  induction t generalizing path with
  | leaf s => simp [leavesBelow, cost, weight]
  | node l r ihl ihr =>
    simp only [leavesBelow, List.map_append, List.sum_append, ihl, ihr, cost, weight,
      List.length_append, List.length_singleton, Nat.cast_add, Nat.cast_one]
    ring

/-- The words of a tree that is more than a leaf cost what its merges cost. -/
theorem PrefixTree.sum_leaves (freq : Int → Int) {t : PrefixTree} (h : t.isLeaf = false) :
    (t.leaves.map fun leaf => freq leaf.1 * (leaf.2.length : Int)).sum = t.cost freq := by
  cases t with
  | leaf s => cases h
  | node l r => simpa [leaves] using sum_leavesBelow freq [] (.node l r)

/-- A queue in order, in which the weight of every root is that of its tree and not negative. -/
structure Weighed (freq : Int → Int) (queue : List LiveTree) : Prop where
  ascending : queue.Pairwise fun x y => x.weight ≤ y.weight
  weight_eq : ∀ x ∈ queue, x.weight = x.tree.weight freq
  nonneg : ∀ x ∈ queue, 0 ≤ x.weight

theorem Weighed.join {freq : Int → Int} {x y : LiveTree} {rest : List LiveTree}
    (h : Weighed freq (x :: y :: rest)) (index : Nat) :
    Weighed freq ((x.join y index).enqueue rest) := by
  have hperm := LiveTree.enqueue_perm (x.join y index) rest
  have hy : y ∈ x :: y :: rest := List.mem_cons_of_mem x List.mem_cons_self
  have hrest : ∀ z ∈ rest, z ∈ x :: y :: rest := fun z hz =>
    List.mem_cons_of_mem x (List.mem_cons_of_mem y hz)
  refine ⟨?_, fun z hz => ?_, fun z hz => ?_⟩
  · obtain ⟨_, hyrest⟩ := List.pairwise_cons.mp h.ascending
    exact LiveTree.pairwise_enqueue (List.pairwise_cons.mp hyrest).2
  · rcases List.mem_cons.mp (hperm.mem_iff.mp hz) with rfl | hz
    · simp only [LiveTree.join, PrefixTree.weight, h.weight_eq x List.mem_cons_self,
        h.weight_eq y hy]
    · exact h.weight_eq z (hrest z hz)
  · rcases List.mem_cons.mp (hperm.mem_iff.mp hz) with rfl | hz
    · exact add_nonneg (h.nonneg x List.mem_cons_self) (h.nonneg y hy)
    · exact h.nonneg z (hrest z hz)

/-- If the weights of a queue can be given code words within a bound, its merges stay within it
too. -/
theorem cost_mergeTrees_le {freq : Int → Int} {index : Nat} {queue : List LiveTree}
    {t : PrefixTree} {bound : Int} (h : mergeTrees index queue = some t)
    (hqueue : Weighed freq queue) (hcode : CodedWithin bound (queue.map fun x => x.weight)) :
    t.cost freq ≤ (queue.map fun x => x.tree.cost freq).sum + bound := by
  -- What a merge adds to the cost of the trees it takes off the bound for the weights.
  fun_induction mergeTrees index queue generalizing bound with
  | case1 => cases h
  | case2 index x =>
    cases h
    have hbound := hcode.nonneg (by simpa using hqueue.nonneg)
    simpa using hbound
  | case3 index x y rest ih =>
    have hperm := LiveTree.enqueue_perm (x.join y index) rest
    obtain ⟨hx, hyrest⟩ := List.pairwise_cons.mp hqueue.ascending
    have hy := (List.pairwise_cons.mp hyrest).1
    have hmerged : CodedWithin (bound - (x.weight + y.weight))
        (((x.join y index).enqueue rest).map fun z => z.weight) := by
      refine CodedWithin.perm ?_ (hperm.map fun z => z.weight).symm
      refine CodedWithin.merge hcode (hqueue.nonneg x List.mem_cons_self)
        (hx y List.mem_cons_self) fun w hw => ?_
      obtain ⟨z, hz, rfl⟩ := List.mem_map.mp hw
      exact hy z hz
    have hle := ih h (hqueue.join index) hmerged
    have hwx := hqueue.weight_eq x List.mem_cons_self
    have hwy := hqueue.weight_eq y (List.mem_cons_of_mem x List.mem_cons_self)
    rw [(hperm.map fun z => z.tree.cost freq).sum_eq] at hle
    simp only [List.map_cons, List.sum_cons, LiveTree.join, PrefixTree.cost] at hle ⊢
    omega

def Histogram.frequency (freqs : Histogram) (s : Int) : Int :=
  (freqs.lookup s).getD 0

theorem Histogram.frequency_of_mem {freqs : Histogram} (hn : freqs.symbols.Nodup) {e : Int × Int}
    (he : e ∈ freqs) : freqs.frequency e.1 = e.2 := by
  induction freqs with
  | nil => cases he
  | cons entry rest ih =>
    obtain ⟨hnew, hrest⟩ := List.nodup_cons.mp hn
    rcases List.mem_cons.mp he with rfl | he
    · rw [frequency, List.lookup_cons, beq_self_eq_true]
      rfl
    · have hne : e.1 ≠ entry.1 := fun heq => hnew (heq ▸ List.mem_map_of_mem he)
      have htail := ih hrest he
      simp only [frequency] at htail ⊢
      rw [List.lookup_cons, beq_eq_false_iff_ne.mpr hne]
      exact htail

theorem mem_leafTrees {index : Nat} {entries : Histogram} {x : LiveTree}
    (hx : x ∈ leafTrees index entries) : ∃ e ∈ entries, x.weight = e.2 ∧ x.tree = .leaf e.1 := by
  induction entries generalizing index with
  | nil => cases hx
  | cons entry entries ih =>
    rcases List.mem_cons.mp hx with rfl | hx
    · exact ⟨entry, List.mem_cons_self, rfl, rfl⟩
    · obtain ⟨e, he, h⟩ := ih hx
      exact ⟨e, List.mem_cons_of_mem entry he, h⟩

theorem weights_leafTrees (index : Nat) (entries : Histogram) :
    (leafTrees index entries).map (fun x => x.weight) = entries.map Prod.snd := by
  induction entries generalizing index with
  | nil => rfl
  | cons entry entries ih => rw [leafTrees, List.map_cons, List.map_cons, ih]

namespace Histogram

variable {freqs : Histogram}

theorem mem_leafQueue {x : LiveTree} (hx : x ∈ freqs.leafQueue) :
    ∃ e ∈ freqs, x.weight = e.2 ∧ x.tree = .leaf e.1 := by
  obtain ⟨e, he, h⟩ := mem_leafTrees (freqs.leafQueue_perm.mem_iff.mp hx)
  exact ⟨e, freqs.sorted_perm.mem_iff.mp he, h⟩

theorem weights_leafQueue (freqs : Histogram) :
    (freqs.leafQueue.map fun x => x.weight).Perm (freqs.map Prod.snd) := by
  have hleaves := freqs.leafQueue_perm.map fun x => x.weight
  rw [weights_leafTrees] at hleaves
  exact hleaves.trans (freqs.sorted_perm.map Prod.snd)

theorem leafQueue_weighed (hn : freqs.symbols.Nodup) (hpos : ∀ e ∈ freqs, 0 < e.2) :
    Weighed freqs.frequency freqs.leafQueue where
  ascending := freqs.pairwise_leafQueue
  weight_eq x hx := by
    obtain ⟨e, he, hweight, htree⟩ := mem_leafQueue hx
    rw [hweight, htree, PrefixTree.weight, frequency_of_mem hn he]
  nonneg x hx := by
    obtain ⟨e, he, hweight, _⟩ := mem_leafQueue hx
    rw [hweight]
    exact (hpos e he).le

theorem sum_cost_leafQueue (freqs : Histogram) (freq : Int → Int) :
    (freqs.leafQueue.map fun x => x.tree.cost freq).sum = 0 := by
  refine List.sum_eq_zero fun n hn => ?_
  obtain ⟨x, hx, rfl⟩ := List.mem_map.mp hn
  obtain ⟨e, _, _, htree⟩ := mem_leafQueue hx
  rw [htree, PrefixTree.cost]

/-- A prefix-free code of the symbols is one that the frequencies can be given. -/
theorem codedWithin (hn : freqs.symbols.Nodup) (htwo : 2 ≤ freqs.length) {word : Int → CodeWord}
    (h : PrefixFree freqs.symbols word) :
    CodedWithin (freqs.codedLength word) (freqs.map Prod.snd) := by
  let lengths := freqs.symbols.map fun s => (word s).length
  let code := freqs.map fun e => (e.2, (word e.1).length)
  have hsnd : code.map Prod.snd = lengths := by
    simp [code, lengths, symbols]
  have hfst : code.map Prod.fst = freqs.map Prod.snd := by simp [code]
  have hdepth : ∀ s ∈ freqs.symbols, (word s).length ≤ lengths.sum := fun s hs =>
    List.le_sum_of_mem (List.mem_map_of_mem hs)
  refine ⟨lengths.sum, code, ?_, hfst ▸ List.Perm.refl _, ?_⟩
  · rw [hsnd]
    exact h.fits hn (by simpa [symbols] using htwo) hdepth
  · simp [code, weightedSum, codedLength, Function.comp_def]

end Histogram

namespace Planted

variable {freqs : Histogram} {a : PrefixArena} {t : PrefixTree}

theorem word_of_leaf (h : Planted freqs a t) (hn : freqs.symbols.Nodup) {s : Int} {w : CodeWord}
    (hleaf : (s, w) ∈ t.leaves) : t.codeTable.word s = w := by
  rw [CodeTable.word, (h.find?_codeTable hn).mpr hleaf]
  rfl

theorem word_mem_leaves (h : Planted freqs a t) (hn : freqs.symbols.Nodup) {s : Int}
    (hs : s ∈ freqs.symbols) : (s, t.codeTable.word s) ∈ t.leaves := by
  obtain ⟨w, hw⟩ := (h.mem_symbols_iff hn).mp hs
  have hleaf := (h.find?_codeTable hn).mp hw
  rwa [h.word_of_leaf hn hleaf]

theorem prefixFree_word (h : Planted freqs a t) (hn : freqs.symbols.Nodup) :
    PrefixFree freqs.symbols t.codeTable.word := by
  intro s hs s' hs' hne hp
  exact hne (PrefixTree.symbol_eq_of_begins (h.word_mem_leaves hn hs) (h.word_mem_leaves hn hs') hp)

theorem codedLength_word (h : Planted freqs a t) (hn : freqs.symbols.Nodup)
    (htwo : 2 ≤ freqs.length) :
    freqs.codedLength t.codeTable.word = t.cost freqs.frequency := by
  have hleaf : t.isLeaf = false := by
    rw [← Bool.not_eq_true, t.isLeaf_iff, h.length_symbols]
    omega
  calc freqs.codedLength t.codeTable.word
      = (freqs.symbols.map fun s =>
          freqs.frequency s * ((t.codeTable.word s).length : Int)).sum := by
        rw [Histogram.codedLength, Histogram.symbols, List.map_map]
        congr 1
        refine List.map_congr_left fun e he => ?_
        simp only [Function.comp_apply, Histogram.frequency_of_mem hn he]
    _ = (t.symbols.map fun s =>
          freqs.frequency s * ((t.codeTable.word s).length : Int)).sum :=
        (h.symbols_perm.symm.map _).sum_eq
    _ = (t.leaves.map fun leaf => freqs.frequency leaf.1 * (leaf.2.length : Int)).sum := by
        rw [← t.map_fst_leaves, List.map_map]
        congr 1
        refine List.map_congr_left fun leaf hmem => ?_
        simp only [Function.comp_apply, h.word_of_leaf hn hmem]
    _ = t.cost freqs.frequency := PrefixTree.sum_leaves _ hleaf

end Planted

/-- The code table of a histogram is prefix-free, and no prefix-free code of its symbols has fewer
bits for a text with these frequencies. -/
theorem codeTable_minimal_codedLength (freqs : Histogram) (hn : freqs.symbols.Nodup)
    (htwo : 2 ≤ freqs.length) (hpos : ∀ e ∈ freqs, 0 < e.2) :
    ∃ arena table, plantTree freqs = some arena ∧ arena.codeTable = some table ∧
      (∀ s ∈ freqs.symbols, table.find? s = some (table.word s)) ∧
      PrefixFree freqs.symbols table.word ∧
      ∀ word, PrefixFree freqs.symbols word →
        freqs.codedLength table.word ≤ freqs.codedLength word := by
  have hne : freqs ≠ [] := List.ne_nil_of_length_pos (by omega)
  obtain ⟨arena, t, hplanted, hmerged⟩ := exists_planted_merged hne
  refine ⟨arena, t.codeTable, hplanted.plantTree_eq, hplanted.codeTable_eq, ?_,
    hplanted.prefixFree_word hn, ?_⟩
  · intro s hs
    exact (hplanted.find?_codeTable hn).mpr (hplanted.word_mem_leaves hn hs)
  · intro word hword
    have hcode := (Histogram.codedWithin hn htwo hword).perm freqs.weights_leafQueue.symm
    have hle := cost_mergeTrees_le hmerged (Histogram.leafQueue_weighed hn hpos) hcode
    rw [Histogram.sum_cost_leafQueue, zero_add] at hle
    rwa [hplanted.codedLength_word hn htwo]

theorem codeTable_minimal_codedLength_abracadabra :
    let freqs : Histogram := [(97, 5), (98, 2), (99, 1), (100, 1), (114, 2)]
    (freqs.symbols.Nodup ∧ 2 ≤ freqs.length ∧ ∀ e ∈ freqs, 0 < e.2) ∧
    ∃ arena table, plantTree freqs = some arena ∧ arena.codeTable = some table ∧
      (∀ s ∈ freqs.symbols, table.find? s = some (table.word s)) ∧
      PrefixFree freqs.symbols table.word ∧
      ∀ word, PrefixFree freqs.symbols word →
        freqs.codedLength table.word ≤ freqs.codedLength word :=
  ⟨⟨by decide, by decide, by decide⟩,
    codeTable_minimal_codedLength _ (by decide) (by decide) (by decide)⟩

end Compression
