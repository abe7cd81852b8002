import Compression.PrefixArena
import Compression.PrefixTree
import Mathlib.Data.List.Forall2

namespace Compression

/-- Follows the bits down to a leaf and leaves the others. -/
def PrefixTree.descend : PrefixTree → List Bool → Option (Int × List Bool)
  | .leaf s, bits => some (s, bits)
  | .node _ _, [] => none
  | .node l _, false :: bits => l.descend bits
  | .node _ r, true :: bits => r.descend bits

/-- Takes one code word off the bits. -/
def PrefixTree.readWord : PrefixTree → List Bool → Except PrefixArena.WalkError (Int × List Bool)
  | .leaf _, [] => .error .bitsEnd
  | .leaf _, true :: _ => .error .noSuchChild
  | .leaf s, false :: bits => .ok (s, bits)
  | .node l r, bits =>
    match (PrefixTree.node l r).descend bits with
    | none => .error .bitsEnd
    | some read => .ok read

/-- Takes `count` code words off the bits. -/
def PrefixTree.readWords (t : PrefixTree) :
    Nat → List Bool → Except PrefixArena.WalkError (List Int)
  | 0, _ => .ok []
  | count + 1, bits =>
    match t.readWord bits with
    | .error e => .error e
    | .ok (s, rest) => (t.readWords count rest).map (s :: ·)

def PrefixTree.isLeaf : PrefixTree → Bool
  | .leaf _ => true
  | .node _ _ => false

theorem PrefixTree.length_symbols_pos (t : PrefixTree) : 0 < t.symbols.length := by
  induction t with
  | leaf s => simp [symbols]
  | node l r ihl ihr => simp only [symbols, List.length_append]; omega

theorem PrefixTree.isLeaf_iff (t : PrefixTree) : t.isLeaf = true ↔ t.symbols.length = 1 := by
  cases t with
  | leaf s => simp [isLeaf, symbols]
  | node l r =>
    have := l.length_symbols_pos
    have := r.length_symbols_pos
    simp only [isLeaf, symbols, List.length_append, Bool.false_eq_true, false_iff]
    omega

theorem PrefixTree.word_eq_of_lone {t : PrefixTree} (h : t.symbols.length = 1) {s : Int}
    {word : CodeWord} (hm : (s, word) ∈ t.leaves) : word = [false] := by
  cases t with
  | leaf s' => simp_all [leaves]
  | node l r =>
    have := l.length_symbols_pos
    have := r.length_symbols_pos
    simp only [symbols, List.length_append] at h
    omega

theorem PrefixTree.leavesBelow_eq_map (path : CodeWord) (t : PrefixTree) :
    t.leavesBelow path = (t.leavesBelow []).map fun leaf => (leaf.1, path ++ leaf.2) := by
  induction t generalizing path with
  | leaf s => simp [leavesBelow]
  | node l r ihl ihr =>
    simp only [leavesBelow, List.nil_append, List.map_append]
    rw [ihl (path ++ [false]), ihr (path ++ [true]), ihl [false], ihr [true]]
    simp [Function.comp_def]

theorem PrefixTree.mem_leavesBelow_node {l r : PrefixTree} {s : Int} {word : CodeWord} :
    (s, word) ∈ (PrefixTree.node l r).leavesBelow [] ↔
      (∃ rest, word = false :: rest ∧ (s, rest) ∈ l.leavesBelow []) ∨
      (∃ rest, word = true :: rest ∧ (s, rest) ∈ r.leavesBelow []) := by
  rw [leavesBelow, List.nil_append, List.nil_append, leavesBelow_eq_map [false],
    leavesBelow_eq_map [true]]
  simp [and_comm, eq_comm]

/-- A walk ends at the leaf whose word it has followed. -/
theorem PrefixTree.descend_eq_some_iff {t : PrefixTree} {bits rest : List Bool} {s : Int} :
    t.descend bits = some (s, rest) ↔
      ∃ word, (s, word) ∈ t.leavesBelow [] ∧ bits = word ++ rest := by
  induction t generalizing bits with
  | leaf s' => simp [descend, leavesBelow, eq_comm]
  | node l r ihl ihr =>
    cases bits with
    | nil =>
      simp only [descend, reduceCtorEq, mem_leavesBelow_node, false_iff]
      rintro ⟨word, ⟨v, rfl, _⟩ | ⟨v, rfl, _⟩, h⟩ <;> simp at h
    | cons bit bits =>
      cases bit with
      | false =>
        rw [descend, ihl]
        constructor
        · rintro ⟨word, hm, rfl⟩
          exact ⟨false :: word, mem_leavesBelow_node.mpr (.inl ⟨word, rfl, hm⟩), rfl⟩
        · rintro ⟨word, hm, h⟩
          rcases mem_leavesBelow_node.mp hm with ⟨v, rfl, hv⟩ | ⟨v, rfl, hv⟩
          · exact ⟨v, hv, by simpa using h⟩
          · simp at h
      | true =>
        rw [descend, ihr]
        constructor
        · rintro ⟨word, hm, rfl⟩
          exact ⟨true :: word, mem_leavesBelow_node.mpr (.inr ⟨word, rfl, hm⟩), rfl⟩
        · rintro ⟨word, hm, h⟩
          rcases mem_leavesBelow_node.mp hm with ⟨v, rfl, hv⟩ | ⟨v, rfl, hv⟩
          · simp at h
          · exact ⟨v, hv, by simpa using h⟩

/-- A code word is read exactly where the bits begin with the word of a leaf. -/
theorem PrefixTree.readWord_eq_ok_iff {t : PrefixTree} {bits rest : List Bool} {s : Int} :
    t.readWord bits = .ok (s, rest) ↔ ∃ word, (s, word) ∈ t.leaves ∧ bits = word ++ rest := by
  cases t with
  | leaf s' =>
    simp only [leaves, List.mem_singleton, Prod.mk.injEq]
    cases bits with
    | nil => simp [readWord]
    | cons bit bits => cases bit <;> simp [readWord, eq_comm]
  | node l r =>
    rw [leaves, ← descend_eq_some_iff, readWord]
    split
    next h => simp [h]
    next read h => simp [h]

/-- Of two words neither begins the other, unless they lead to the same leaf. -/
theorem PrefixTree.symbol_eq_of_begins {t : PrefixTree} {s s' : Int} {word word' : CodeWord}
    (h : (s, word) ∈ t.leaves) (h' : (s', word') ∈ t.leaves) (hp : word <+: word') : s = s' := by
  obtain ⟨rest, hrest⟩ := hp
  have hread := readWord_eq_ok_iff.mpr ⟨word, h, hrest.symm⟩
  have hread' := readWord_eq_ok_iff.mpr ⟨word', h', (List.append_nil word').symm⟩
  rw [hread'] at hread
  simp only [Except.ok.injEq, Prod.mk.injEq] at hread
  exact hread.1.symm

theorem PrefixTree.readWord_eq_error {t : PrefixTree} {bits : List Bool}
    {e : PrefixArena.WalkError} (h : t.readWord bits = .error e) :
    (t.isLeaf = true ∧ bits.head? = some true ∧ e = .noSuchChild) ∨
      (¬ (t.isLeaf = true ∧ bits ≠ []) ∧ e = .bitsEnd) := by
  cases t with
  | leaf s =>
    cases bits with
    | nil => simp_all [readWord]
    | cons bit bits => cases bit <;> simp_all [readWord, isLeaf]
  | node l r =>
    rw [readWord] at h
    split at h
    next => cases h; exact .inr ⟨by simp [isLeaf], rfl⟩
    next => cases h

/-- The symbols that can be read are those whose words, one after the other, begin the bits. -/
theorem PrefixTree.readWords_eq_ok_iff {t : PrefixTree} {count : Nat} {bits : List Bool}
    {symbols : List Int} :
    t.readWords count bits = .ok symbols ↔ symbols.length = count ∧
      ∃ words, List.Forall₂ (fun s word => (s, word) ∈ t.leaves) symbols words ∧
        words.flatten <+: bits := by
  induction count generalizing bits symbols with
  | zero =>
    simp only [readWords, Except.ok.injEq, List.length_eq_zero_iff]
    constructor
    · rintro rfl
      exact ⟨rfl, [], .nil, List.nil_prefix⟩
    · exact fun h => h.1.symm
  | succ count ih =>
    rw [readWords]
    constructor
    · intro h
      split at h
      next => cases h
      next s rest hr =>
        obtain ⟨word, hm, rfl⟩ := readWord_eq_ok_iff.mp hr
        cases hs : t.readWords count rest with
        | error e => simp [hs, Except.map] at h
        | ok tail =>
          obtain ⟨hl, words, hf, hp⟩ := ih.mp hs
          have heq : s :: tail = symbols := by simpa [hs, Except.map] using h
          subst symbols
          refine ⟨by simp [hl], word :: words, .cons hm hf, ?_⟩
          simpa using hp
    · rintro ⟨hl, words, hf, hp⟩
      cases hf with
      | nil => simp at hl
      | @cons s word tail words hm hf =>
        obtain ⟨rest, rfl⟩ := hp
        have hr : t.readWord ((word :: words).flatten ++ rest) =
            .ok (s, words.flatten ++ rest) :=
          readWord_eq_ok_iff.mpr ⟨word, hm, by simp⟩
        have ht : t.readWords count (words.flatten ++ rest) = .ok tail :=
          ih.mpr ⟨by simpa using hl, words, hf, List.prefix_append _ _⟩
        rw [hr]
        simp only [ht, Except.map]

/-- Where reading stops early, it stops at the bit one under a lone leaf, or else at the end. -/
theorem PrefixTree.readWords_eq_error {t : PrefixTree} {count : Nat} {bits : List Bool}
    {e : PrefixArena.WalkError} (h : t.readWords count bits = .error e) :
    e = if t.isLeaf = true ∧ true ∈ bits.take count then .noSuchChild else .bitsEnd := by
  induction count generalizing bits with
  | zero => simp [readWords] at h
  | succ count ih =>
    rw [readWords] at h
    split at h
    next e' hr =>
      have he : e' = e := by simpa using h
      subst e'
      rcases readWord_eq_error hr with ⟨ht, hb, rfl⟩ | ⟨hn, rfl⟩
      · obtain ⟨rest, rfl⟩ := List.head?_eq_some_iff.mp hb
        simp [ht]
      · rw [if_neg]
        rintro ⟨ht, hm⟩
        exact hn ⟨ht, by rintro rfl; simp at hm⟩
    next s rest hr =>
      cases hs : t.readWords count rest with
      | ok tail => simp [hs, Except.map] at h
      | error e' =>
        have he : e' = e := by simpa [hs, Except.map] using h
        subst e'
        rw [ih hs]
        cases t with
        | node l r => simp [isLeaf]
        | leaf s' =>
          obtain ⟨word, hm, rfl⟩ := readWord_eq_ok_iff.mp hr
          have hw : word = [false] := by simp_all [leaves]
          simp [hw]

end Compression
