import Compression.Proofs.MergedTrees
import Compression.Proofs.TableWords

namespace Compression

/-- The arena `a` is planted for a histogram, and the tree `t` that it carries has the symbols of
the histogram. -/
structure Planted (freqs : Histogram) (a : PrefixArena) (t : PrefixTree) : Prop where
  plantTree_eq : plantTree freqs = some a
  carries : a.Carries t
  symbols_perm : t.symbols.Perm freqs.symbols

theorem leafQueue_ne_nil {freqs : Histogram} (hne : freqs ≠ []) : freqs.leafQueue ≠ [] := by
  intro hnil
  have hleaves : leafTrees 0 freqs.sorted = [] :=
    List.perm_nil.mp (hnil ▸ freqs.leafQueue_perm.symm)
  cases hs : freqs.sorted with
  | nil => exact hne (List.perm_nil.mp (hs ▸ freqs.sorted_perm.symm))
  | cons entry entries => simp [hs, leafTrees] at hleaves

theorem symbols_leafTrees (index : Nat) (entries : Histogram) :
    ((leafTrees index entries).flatMap fun x => x.tree.symbols) = entries.symbols := by
  induction entries generalizing index with
  | nil => rfl
  | cons entry entries ih =>
    rw [leafTrees, List.flatMap_cons, ih]
    rfl

/-- The tree that a histogram gets is the one into which its leaves are merged. -/
theorem exists_planted_merged {freqs : Histogram} (hne : freqs ≠ []) :
    ∃ a t, Planted freqs a t ∧ mergeTrees freqs.length freqs.leafQueue = some t := by
  let leaves := freqs.sorted.map fun e => ({ weight := e.2, symbol := e.1 } : ArenaNode)
  let a : PrefixArena := { nodes := leaves.toArray }
  have hleaves : a.Bears (leafTrees 0 freqs.sorted) := leafTrees_bears [] rfl
  have hqueue : a.Bears freqs.leafQueue :=
    fun x hx => hleaves x (freqs.leafQueue_perm.mem_iff.mp hx)
  have hsize : a.nodes.size = freqs.length := by
    simp [a, leaves, freqs.sorted_perm.length_eq]
  obtain ⟨planted, t, hroots, htrees, hcarries⟩ := mergeRoots_carries hqueue (leafQueue_ne_nil hne)
  rw [Histogram.map_leafQueue] at hroots
  rw [hsize] at htrees
  refine ⟨planted, t, ⟨hroots, hcarries, ?_⟩, htrees⟩
  have hmerged := symbols_mergeTrees htrees
  have hleafs := freqs.leafQueue_perm.flatMap_right fun x => x.tree.symbols
  rw [symbols_leafTrees] at hleafs
  exact (hmerged.trans hleafs).trans (freqs.sorted_perm.map Prod.fst)

theorem exists_planted {freqs : Histogram} (hne : freqs ≠ []) : ∃ a t, Planted freqs a t := by
  obtain ⟨a, t, hplanted, _⟩ := exists_planted_merged hne
  exact ⟨a, t, hplanted⟩

namespace Planted

variable {freqs : Histogram} {a : PrefixArena} {t : PrefixTree}

theorem codeTable_eq (h : Planted freqs a t) : a.codeTable = some t.codeTable :=
  h.carries.codeTable_eq

theorem nodup (h : Planted freqs a t) (hn : freqs.symbols.Nodup) : t.symbols.Nodup :=
  h.symbols_perm.nodup_iff.mpr hn

theorem length_symbols (h : Planted freqs a t) : t.symbols.length = freqs.length := by
  rw [h.symbols_perm.length_eq, Histogram.symbols, List.length_map]

theorem find?_codeTable (h : Planted freqs a t) (hn : freqs.symbols.Nodup) {s : Int}
    {word : CodeWord} : t.codeTable.find? s = some word ↔ (s, word) ∈ t.leaves :=
  PrefixTree.find?_codeTable (h.nodup hn) s word

theorem mem_symbols_iff (h : Planted freqs a t) (hn : freqs.symbols.Nodup) {s : Int} :
    s ∈ freqs.symbols ↔ ∃ word, t.codeTable.find? s = some word := by
  simp only [h.find?_codeTable hn, ← h.symbols_perm.mem_iff, ← t.map_fst_leaves, List.mem_map]
  constructor
  · rintro ⟨⟨s, word⟩, hm, rfl⟩
    exact ⟨word, hm⟩
  · rintro ⟨word, hm⟩
    exact ⟨(s, word), hm, rfl⟩

theorem sorted (h : Planted freqs a t) : Planted freqs.sorted a t where
  plantTree_eq := by rw [← h.plantTree_eq, plantTree, plantTree, freqs.sorted_sorted]
  carries := h.carries
  symbols_perm := h.symbols_perm.trans (freqs.sorted_perm.map Prod.fst).symm

end Planted

end Compression
