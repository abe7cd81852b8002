import Compression.Proofs.ArenaPaths

namespace Compression

namespace MergeHistory

variable {entries : Histogram} {merges : List (LiveRoot × LiveRoot)} {a : PrefixArena}

/-- The last step of a path takes a root to which the path's end belongs. -/
theorem exists_last_merge {queue : List LiveRoot} (h : MergeHistory entries merges queue)
    (ha : a.nodes = (mergedNodes entries merges).toArray) {i : Nat} {word : CodeWord} {bit : Bool}
    {s : LiveRoot} (hs : s ∈ rootsOf (mergedNodes entries merges))
    (hfollow : a.follow? i (word ++ [bit]) = some s.index) :
    ∃ k x y, merges[k]? = some (x, y) ∧ TakenIn merges k s ∧
      a.follow? i word = some (entries.length + k) ∧
      (⟨x.weight + y.weight, entries.length + k⟩ : LiveRoot) ∈
        rootsOf (mergedNodes entries merges) := by
  obtain ⟨p, hp, hchild⟩ := PrefixArena.follow?_concat_eq_some hfollow
  have hnode := hchild
  unfold PrefixArena.child? at hnode
  rw [ha, List.getElem?_toArray] at hnode
  obtain ⟨n, hn, _⟩ := Option.bind_eq_some_iff.mp hnode
  have hroot : (⟨n.weight, p⟩ : LiveRoot) ∈ rootsOf (mergedNodes entries merges) :=
    mem_rootsOf.mpr ⟨n, hn, rfl⟩
  obtain ⟨k, x, y, hk, hparent, hindex⟩ := exists_merge_of_child? ha hroot hchild
  have htaken := takenIn_of_bit hk bit
  have hsame := eq_of_mem_rootsOf hs (h.mem_rootsOf_of_takenIn htaken) hindex.symm
  have hplace : p = entries.length + k := congrArg LiveRoot.index hparent
  refine ⟨k, x, y, hk, hsame ▸ htaken, hplace ▸ hp, ?_⟩
  rw [← hparent]
  exact hroot

/-- Of two nodes the one that was taken first lies no higher: its parent came first too. -/
theorem length_le_of_not_before {root : LiveRoot} (h : MergeHistory entries merges [root])
    (ha : a.nodes = (mergedNodes entries merges).toArray) {u v : CodeWord} {r s : LiveRoot}
    (hr : r ∈ rootsOf (mergedNodes entries merges)) (hs : s ∈ rootsOf (mergedNodes entries merges))
    (hu : a.follow? root.index u = some r.index) (hv : a.follow? root.index v = some s.index)
    (hrs : ¬ s.before r = true) : v.length ≤ u.length := by
  -- From the ends of both paths upward: the two parents were merged in the same order.
  induction v using List.reverseRecOn generalizing u r s with
  | nil => exact Nat.zero_le _
  | append_singleton v bit ih =>
    obtain ⟨k', x', y', hk', hs', hv', hq⟩ := h.exists_last_merge ha hs hv
    rcases List.eq_nil_or_concat u with rfl | ⟨u, bit', rfl⟩
    · have hsame : r = root := eq_of_mem_rootsOf hr h.root_mem (Option.some.inj hu).symm
      exact absurd (h.before_root hs') (hsame ▸ hrs)
    · rw [List.concat_eq_append] at hu ⊢
      obtain ⟨k, x, y, hk, hr', hu', hp⟩ := h.exists_last_merge ha hr hu
      have hkk : k ≤ k' := by
        by_contra hlt
        exact hrs (h.before_of_lt hs' hr' (by omega))
      have hweight := h.weight_over_le hk hk' hkk
      have hparents : ¬ LiveRoot.before ⟨x'.weight + y'.weight, entries.length + k'⟩
          ⟨x.weight + y.weight, entries.length + k⟩ = true := by
        rw [LiveRoot.before_iff]
        show ¬ (x'.weight + y'.weight < x.weight + y.weight ∨
          x'.weight + y'.weight = x.weight + y.weight ∧ entries.length + k' < entries.length + k)
        omega
      have hlen := ih hp hq hu' hv' hparents
      simp only [List.length_append, List.length_singleton]
      omega

end MergeHistory

theorem Histogram.eq_of_symbol_eq {freqs : Histogram} (hn : freqs.symbols.Nodup) {e e' : Int × Int}
    (he : e ∈ freqs) (he' : e' ∈ freqs) (h : e.1 = e'.1) : e = e' :=
  List.inj_on_of_nodup_map hn he he' h

theorem Planted.exists_follow? {freqs : Histogram} {merges : List (LiveRoot × LiveRoot)}
    {a : PrefixArena} {t : PrefixTree} {i : Nat} (h : Planted freqs a t)
    (ha : a.nodes = (mergedNodes freqs.sorted merges).toArray) (hroot : a.root = some i)
    (hn : freqs.symbols.Nodup) (htwo : 2 ≤ freqs.length) {e : Int × Int} (he : e ∈ freqs) :
    ∃ word j, t.codeTable.find? e.1 = some word ∧ a.follow? i word = some j ∧
      freqs.sorted[j]? = some e := by
  obtain ⟨word, hword⟩ := (h.mem_symbols_iff hn).mp (List.mem_map_of_mem he)
  obtain ⟨j, e', hfollow, he', hsymbol⟩ :=
    h.follow?_of_leaf ha hroot htwo ((h.find?_codeTable hn).mp hword)
  have hmem : e' ∈ freqs := freqs.sorted_perm.mem_iff.mp (List.mem_of_getElem? he')
  obtain rfl := Histogram.eq_of_symbol_eq hn hmem he hsymbol
  exact ⟨word, j, hword, hfollow, he'⟩

theorem mem_rootsOf_of_sorted {freqs : Histogram} (merges : List (LiveRoot × LiveRoot)) {j : Nat}
    {e : Int × Int} (h : freqs.sorted[j]? = some e) :
    (⟨e.2, j⟩ : LiveRoot) ∈ rootsOf (mergedNodes freqs.sorted merges) := by
  obtain ⟨hj, _⟩ := List.getElem?_eq_some_iff.mp h
  refine mem_rootsOf.mpr ⟨leafNode e, ?_, rfl⟩
  rw [getElem?_mergedNodes_leaf merges hj, h]
  rfl

/-- The more frequent of two symbols has a word no longer than the other's, and so has the greater
of two symbols that are equally frequent. -/
theorem codeTable_length_le_of_rarer {freqs : Histogram} (hne : freqs ≠ [])
    (hn : freqs.symbols.Nodup) (hpos : ∀ e ∈ freqs, 0 < e.2) :
    ∃ arena table, plantTree freqs = some arena ∧ arena.codeTable = some table ∧
      ∀ e ∈ freqs, ∀ e' ∈ freqs, e.2 < e'.2 ∨ e.2 = e'.2 ∧ e.1 < e'.1 →
        ∃ word word', table.find? e.1 = some word ∧ table.find? e'.1 = some word' ∧
          word'.length ≤ word.length := by
  obtain ⟨merges, root, a, t, hhistory, ha, hroot, hplanted⟩ := exists_planted_history hne hpos
  refine ⟨a, t.codeTable, hplanted.plantTree_eq, hplanted.codeTable_eq, ?_⟩
  intro e he e' he' hrarer
  have htwo : 2 ≤ freqs.length := by
    by_contra hlone
    have hlen : freqs.length = 1 := by
      have := List.length_pos_iff.mpr hne
      omega
    obtain ⟨only, rfl⟩ := List.length_eq_one_iff.mp hlen
    rw [List.mem_singleton.mp he, List.mem_singleton.mp he'] at hrarer
    omega
  obtain ⟨word, j, hword, hfollow, hj⟩ := hplanted.exists_follow? ha hroot hn htwo he
  obtain ⟨word', j', hword', hfollow', hj'⟩ := hplanted.exists_follow? ha hroot hn htwo he'
  refine ⟨word, word', hword, hword', ?_⟩
  refine hhistory.length_le_of_not_before ha (mem_rootsOf_of_sorted merges hj)
    (mem_rootsOf_of_sorted merges hj') hfollow hfollow' ?_
  -- The leaves stand in ascending order of their symbols, so places decide as symbols do.
  have hplace : e.1 < e'.1 → ¬ j' < j := by
    intro hlt hjj
    obtain ⟨hjl, hje⟩ := List.getElem?_eq_some_iff.mp hj
    obtain ⟨hjl', hje'⟩ := List.getElem?_eq_some_iff.mp hj'
    have hsorted := List.pairwise_iff_getElem.mp freqs.pairwise_sorted j' j hjl' hjl hjj
    rw [hje, hje'] at hsorted
    omega
  rw [LiveRoot.before_iff]
  show ¬ (e'.2 < e.2 ∨ e'.2 = e.2 ∧ j' < j)
  rcases hrarer with hlt | ⟨heq, hlt⟩
  · omega
  · have := hplace hlt
    omega

theorem codeTable_length_le_of_rarer_abracadabra :
    let freqs : Histogram := [(114, 2), (97, 5), (98, 2), (99, 1), (100, 1)]
    (freqs ≠ [] ∧ freqs.symbols.Nodup ∧ ∀ e ∈ freqs, 0 < e.2) ∧
    ∃ arena table, plantTree freqs = some arena ∧ arena.codeTable = some table ∧
      ∀ e ∈ freqs, ∀ e' ∈ freqs, e.2 < e'.2 ∨ e.2 = e'.2 ∧ e.1 < e'.1 →
        ∃ word word', table.find? e.1 = some word ∧ table.find? e'.1 = some word' ∧
          word'.length ≤ word.length :=
  ⟨⟨by decide, by decide, by decide⟩,
    codeTable_length_le_of_rarer (by decide) (by decide) (by decide)⟩

end Compression
