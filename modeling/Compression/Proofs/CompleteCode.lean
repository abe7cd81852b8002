import Compression.Proofs.PlantedTree
import Mathlib.Algebra.BigOperators.Group.List.Lemmas
import Mathlib.Algebra.Order.Ring.Rat
import Mathlib.Tactic.Linarith
import Mathlib.Tactic.Ring

namespace Compression

namespace PrefixTree

/-- What the words below a place take of all bit strings is what the path to it takes. -/
theorem sum_shares_leavesBelow (path : CodeWord) (t : PrefixTree) :
    ((t.leavesBelow path).map fun leaf => (1 / 2 : ℚ) ^ leaf.2.length).sum =
      (1 / 2) ^ path.length := by
  induction t generalizing path with
  | leaf s => simp [leavesBelow]
  | node l r ihl ihr =>
    rw [leavesBelow, List.map_append, List.sum_append, ihl, ihr]
    simp only [List.length_append, List.length_singleton, pow_succ]
    ring

/-- Every step down leaves at least one symbol aside. -/
theorem length_lt_of_mem_leavesBelow {t : PrefixTree} {path word : CodeWord} {s : Int}
    (h : (s, word) ∈ t.leavesBelow path) : word.length < path.length + t.symbols.length := by
  induction t generalizing path with
  | leaf s' =>
    obtain ⟨_, rfl⟩ : s = s' ∧ word = path := by simpa [leavesBelow] using h
    simp [symbols]
  | node l r ihl ihr =>
    have hl := l.length_symbols_pos
    have hr := r.length_symbols_pos
    simp only [symbols, List.length_append]
    rcases List.mem_append.mp h with h | h
    · have hbound := ihl h
      simp only [List.length_append, List.length_singleton] at hbound
      omega
    · have hbound := ihr h
      simp only [List.length_append, List.length_singleton] at hbound
      omega

theorem length_pos_of_mem_leavesBelow_node {l r : PrefixTree} {s : Int} {word : CodeWord}
    (h : (s, word) ∈ (PrefixTree.node l r).leavesBelow []) : 0 < word.length := by
  rcases mem_leavesBelow_node.mp h with ⟨rest, rfl, _⟩ | ⟨rest, rfl, _⟩
  · exact Nat.succ_pos rest.length
  · exact Nat.succ_pos rest.length

theorem exists_descend_of_long {t : PrefixTree} {bits : List Bool}
    (h : t.symbols.length ≤ bits.length + 1) : ∃ read, t.descend bits = some read := by
  induction t generalizing bits with
  | leaf s => exact ⟨_, rfl⟩
  | node l r ihl ihr =>
    have hl := l.length_symbols_pos
    have hr := r.length_symbols_pos
    simp only [symbols, List.length_append] at h
    cases bits with
    | nil =>
      simp only [List.length_nil] at h
      omega
    | cons bit bits =>
      simp only [List.length_cons] at h
      cases bit with
      | false => exact ihl (by omega)
      | true => exact ihr (by omega)

end PrefixTree

/-- A table with words of at most `longest` bits, each of which writes a code of that many bits. No
word begins another, and what the words take of all bit strings is the whole. -/
structure CodeTable.Complete (longest : Nat) (table : CodeTable) : Prop where
  length_range : ∀ e ∈ table, 1 ≤ e.2.length ∧ e.2.length ≤ longest
  code_lt : ∀ e ∈ table, bitsValue e.2 < 2 ^ e.2.length
  prefixFree : ∀ e ∈ table, ∀ e' ∈ table, e.1 ≠ e'.1 → ¬ e.2 <+: e'.2
  sum_shares : (table.map fun e => (1 / 2 : ℚ) ^ e.2.length).sum = 1
  exists_word : ∀ bits, longest ≤ bits.length → ∃ e ∈ table, e.2 <+: bits

theorem CodeTable.Complete.perm {longest : Nat} {table table' : CodeTable}
    (h : table.Complete longest) (hp : table.Perm table') : table'.Complete longest where
  length_range e he := h.length_range e (hp.mem_iff.mpr he)
  code_lt e he := h.code_lt e (hp.mem_iff.mpr he)
  prefixFree e he e' he' := h.prefixFree e (hp.mem_iff.mpr he) e' (hp.mem_iff.mpr he')
  sum_shares := (hp.symm.map _).sum_eq.trans h.sum_shares
  exists_word bits hlong := by
    obtain ⟨e, he, hprefix⟩ := h.exists_word bits hlong
    exact ⟨e, hp.mem_iff.mp he, hprefix⟩

/-- The words of a tree that is more than a leaf. The longest are those of a chain. -/
theorem PrefixTree.leaves_complete {t : PrefixTree} (h : 2 ≤ t.symbols.length) :
    CodeTable.Complete (t.symbols.length - 1) t.leaves := by
  cases t with
  | leaf s =>
    simp only [symbols, List.length_singleton] at h
    omega
  | node l r =>
    refine ⟨fun e he => ?_, fun e _ => bitsValue_lt e.2, fun e he e' he' hne hp => ?_, ?_,
      fun bits hlong => ?_⟩
    · have hpos := length_pos_of_mem_leavesBelow_node he
      have hbound := length_lt_of_mem_leavesBelow he
      simp only [List.length_nil, Nat.zero_add] at hbound
      omega
    · exact hne (symbol_eq_of_begins he he' hp)
    · have hall := sum_shares_leavesBelow [] (.node l r)
      rwa [List.length_nil, pow_zero] at hall
    · have hroom : (PrefixTree.node l r).symbols.length ≤ bits.length + 1 := by omega
      obtain ⟨⟨s, rest⟩, hread⟩ := exists_descend_of_long hroom
      obtain ⟨word, hleaf, hbits⟩ := descend_eq_some_iff.mp hread
      exact ⟨(s, word), hleaf, rest, hbits.symm⟩

/-- The code table of a histogram has a word for each of its symbols and for nothing else. The words
of two symbols or more are a complete code; a lone symbol has the word `0`. -/
theorem codeTable_complete {freqs : Histogram} (hne : freqs ≠ []) (hn : freqs.symbols.Nodup) :
    ∃ arena table, plantTree freqs = some arena ∧ arena.codeTable = some table ∧
      (table.map Prod.fst).Perm freqs.symbols ∧
      (2 ≤ freqs.length → table.Complete (freqs.length - 1)) ∧
      ∀ e, freqs = [e] → table = [(e.1, [false])] := by
  obtain ⟨arena, t, hplanted⟩ := exists_planted hne
  have hleaves := PrefixTree.codeTable_perm (hplanted.nodup hn)
  have hlength := hplanted.length_symbols
  refine ⟨arena, t.codeTable, hplanted.plantTree_eq, hplanted.codeTable_eq, ?_, fun htwo => ?_,
    fun e he => ?_⟩
  · have hkeys := hleaves.map Prod.fst
    rw [t.map_fst_leaves] at hkeys
    exact hkeys.trans hplanted.symbols_perm
  · rw [← hlength] at htwo ⊢
    exact (PrefixTree.leaves_complete htwo).perm hleaves.symm
  · subst he
    have hsymbols : t.symbols = [e.1] := List.perm_singleton.mp hplanted.symbols_perm
    cases t with
    | leaf s =>
      obtain rfl : s = e.1 := List.singleton_inj.mp hsymbols
      exact List.perm_singleton.mp hleaves
    | node l r =>
      have hl := l.length_symbols_pos
      have hr := r.length_symbols_pos
      simp only [PrefixTree.symbols, List.length_append, List.length_singleton] at hlength
      omega

/-- A chain, in which every merge takes the tree of the last one. -/
theorem codeTable_complete_chain :
    let freqs : Histogram := [(0, 1), (1, 1), (2, 2), (3, 4), (4, 8)]
    (freqs ≠ [] ∧ freqs.symbols.Nodup) ∧
    ∃ arena table, plantTree freqs = some arena ∧ arena.codeTable = some table ∧
      (table.map Prod.fst).Perm freqs.symbols ∧
      (2 ≤ freqs.length → table.Complete (freqs.length - 1)) ∧
      ∀ e, freqs = [e] → table = [(e.1, [false])] :=
  ⟨⟨by decide, by decide⟩, codeTable_complete (by decide) (by decide)⟩

end Compression
