import Compression.PrefixTree
import Mathlib.Data.List.Nodup

namespace Compression

theorem CodeTable.find?_set (table : CodeTable) (s symbol : Int) (word : CodeWord) :
    CodeTable.find? (CodeTable.set symbol word table) s =
      if s = symbol then some word else table.find? s := by
  induction table with
  | nil => by_cases h : s = symbol <;> simp [set, find?, h]
  | cons entry rest ih =>
    obtain ⟨s', word'⟩ := entry
    simp only [find?] at ih ⊢
    by_cases h : s = symbol
    · subst s
      simp only [set, if_true] at ih ⊢
      split
      next => simp
      next =>
        split
        next => simp
        next hne => simp only [List.lookup_cons, beq_eq_false_iff_ne.mpr hne, ih]
    · have hne : (s == symbol) = false := by simpa using h
      simp only [set, if_neg h] at ih ⊢
      split
      next => simp only [List.lookup_cons, hne]
      next =>
        split
        next heq => subst symbol; simp only [List.lookup_cons, hne]
        next => simp only [List.lookup_cons, ih]

/-- Of leaves with different symbols none replaces the word of another. -/
theorem CodeTable.find?_enter {leaves : List (Int × CodeWord)} (table : CodeTable)
    (hn : (leaves.map Prod.fst).Nodup) (s : Int) (word : CodeWord) :
    CodeTable.find? (leaves.foldl (fun table leaf => CodeTable.set leaf.1 leaf.2 table) table) s =
        some word ↔
      (s, word) ∈ leaves ∨ s ∉ leaves.map Prod.fst ∧ table.find? s = some word := by
  induction leaves generalizing table with
  | nil => simp
  | cons leaf leaves ih =>
    obtain ⟨symbol, word'⟩ := leaf
    have hn' := List.nodup_cons.mp hn
    rw [List.foldl_cons, ih _ hn'.2, find?_set]
    simp only [List.map_cons, List.mem_cons, Prod.mk.injEq, not_or]
    by_cases h : s = symbol
    · subst s
      have hnot : (symbol, word) ∉ leaves := fun hm =>
        hn'.1 (List.mem_map.mpr ⟨_, hm, rfl⟩)
      simp [hnot, hn'.1, eq_comm]
    · simp [h]

theorem PrefixTree.find?_codeTable {t : PrefixTree} (hn : t.symbols.Nodup) (s : Int)
    (word : CodeWord) : t.codeTable.find? s = some word ↔ (s, word) ∈ t.leaves := by
  rw [codeTable, CodeTable.find?_enter [] (by simpa using hn)]
  simp [CodeTable.find?]

theorem CodeTable.set_perm {table : CodeTable} {symbol : Int} (word : CodeWord)
    (h : symbol ∉ table.map Prod.fst) :
    (CodeTable.set symbol word table).Perm ((symbol, word) :: table) := by
  induction table with
  | nil => exact List.Perm.refl _
  | cons entry rest ih =>
    obtain ⟨s, w⟩ := entry
    simp only [List.map_cons, List.mem_cons, not_or] at h
    rw [set]
    split
    next => exact List.Perm.refl _
    next =>
      rw [if_neg h.1]
      exact ((ih h.2).cons (s, w)).trans (List.Perm.swap (symbol, word) (s, w) rest)

theorem CodeTable.enter_perm {leaves : List (Int × CodeWord)} (table : CodeTable)
    (hn : ((leaves ++ table).map Prod.fst).Nodup) :
    (leaves.foldl (fun table leaf => CodeTable.set leaf.1 leaf.2 table) table).Perm
      (leaves ++ table) := by
  induction leaves generalizing table with
  | nil => exact List.Perm.refl _
  | cons leaf leaves ih =>
    have hnew : leaf.1 ∉ table.map Prod.fst := by
      simp only [List.cons_append, List.map_cons, List.map_append, List.nodup_cons,
        List.mem_append, not_or] at hn
      exact hn.1.2
    have hset := (CodeTable.set_perm leaf.2 hnew).append_left leaves
    have hall := hset.trans List.perm_middle
    exact (ih _ ((hall.map Prod.fst).nodup_iff.mpr hn)).trans hall

/-- A table of different symbols has the leaves of its tree and nothing else. -/
theorem PrefixTree.codeTable_perm {t : PrefixTree} (hn : t.symbols.Nodup) :
    t.codeTable.Perm t.leaves := by
  have hleaves : ((t.leaves ++ []).map Prod.fst).Nodup := by simpa using hn
  have henter := CodeTable.enter_perm [] hleaves
  rwa [List.append_nil] at henter

end Compression
