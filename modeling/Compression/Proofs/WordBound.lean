import Compression.Proofs.ArenaPaths
import Compression.Proofs.HuffmanRoundTrip
import Mathlib.Algebra.BigOperators.Ring.Finset
import Mathlib.Algebra.Order.BigOperators.Group.List
import Mathlib.Data.Nat.Fib.Basic

namespace Compression

/-- A root at the top of a path of `n` steps weighs no less than the Fibonacci number `n + 2`: its
child on the path does so for `n - 1` steps, and the other child is taken after the grandchild on
the path, so it weighs no less than that. -/
theorem MergeHistory.fib_le_weight {entries : Histogram} {merges : List (LiveRoot × LiveRoot)}
    {queue : List LiveRoot} {a : PrefixArena} (h : MergeHistory entries merges queue)
    (ha : a.nodes = (mergedNodes entries merges).toArray) :
    ∀ (word : CodeWord) (r : LiveRoot) (j : Nat), r ∈ rootsOf (mergedNodes entries merges) →
      a.follow? r.index word = some j → (Nat.fib (word.length + 2) : Int) ≤ r.weight
  | [], r, _, hr, _ => h.weight_pos_of_mem hr
  | [bit], r, j, hr, hj => by
    obtain ⟨c, hc, _⟩ := PrefixArena.follow?_cons_eq_some hj
    obtain ⟨k, x, y, hk, rfl, _⟩ := exists_merge_of_child? ha hr hc
    have hx := h.weight_pos_of_mem (h.mem_rootsOf_of_takenIn (takenIn_left hk))
    have hy := h.weight_pos_of_mem (h.mem_rootsOf_of_takenIn (takenIn_right hk))
    show (2 : Int) ≤ x.weight + y.weight
    omega
  | bit :: bit' :: word, r, j, hr, hj => by
    obtain ⟨_, hc, hcj⟩ := PrefixArena.follow?_cons_eq_some hj
    obtain ⟨k, x, y, hk, rfl, rfl⟩ := exists_merge_of_child? ha hr hc
    let child := if bit then y else x
    let sibling := if !bit then y else x
    have hchild : TakenIn merges k child := takenIn_of_bit hk bit
    have hsibling : TakenIn merges k sibling := takenIn_of_bit hk !bit
    have hsum : x.weight + y.weight = child.weight + sibling.weight := by
      cases bit with
      | false => rfl
      | true => exact Int.add_comm _ _
    have hchildRoot := h.mem_rootsOf_of_takenIn hchild
    have hfirst := h.fib_le_weight ha (bit' :: word) child j hchildRoot hcj
    obtain ⟨_, hg, hgj⟩ := PrefixArena.follow?_cons_eq_some hcj
    obtain ⟨k', x', y', hk', hindex, rfl⟩ := exists_merge_of_child? ha hchildRoot hg
    have hgrandchild := takenIn_of_bit hk' bit'
    have hearlier : k' < k := by
      have hlt := h.index_lt hchild
      rw [hindex] at hlt
      exact Nat.lt_of_add_lt_add_left hlt
    have hbefore := h.before_of_lt hgrandchild hsibling hearlier
    have hsecond := h.fib_le_weight ha word _ j (h.mem_rootsOf_of_takenIn hgrandchild) hgj
    have hle := hsecond.trans (LiveRoot.weight_le_of_before hbefore)
    have hfib : Nat.fib ((bit :: bit' :: word).length + 2) =
        Nat.fib (word.length + 2) + Nat.fib ((bit' :: word).length + 2) := Nat.fib_add_two
    show (Nat.fib ((bit :: bit' :: word).length + 2) : Int) ≤ x.weight + y.weight
    rw [hfib, hsum]
    omega

namespace Planted

variable {freqs : Histogram} {a : PrefixArena} {t : PrefixTree}

theorem fib_le_sum (h : Planted freqs a t) (hn : freqs.symbols.Nodup) (htwo : 2 ≤ freqs.length)
    (hpos : ∀ e ∈ freqs, 0 < e.2) {e : Int × CodeWord} (he : e ∈ t.codeTable) :
    (Nat.fib (e.2.length + 2) : Int) ≤ (freqs.map Prod.snd).sum := by
  have hne : freqs ≠ [] := List.ne_nil_of_length_pos (by omega)
  obtain ⟨merges, root, a', t', hhistory, ha, hroot, hplanted⟩ := exists_planted_history hne hpos
  obtain rfl := Option.some.inj (hplanted.plantTree_eq.symm.trans h.plantTree_eq)
  have hleaf : e ∈ t.leaves := (PrefixTree.codeTable_perm (h.nodup hn)).mem_iff.mp he
  obtain ⟨j, _, hfollow, _⟩ := h.follow?_of_leaf ha hroot htwo hleaf
  have hfib := hhistory.fib_le_weight ha e.2 root j hhistory.root_mem hfollow
  rwa [hhistory.root_weight] at hfib

theorem length_word_le (h : Planted freqs a t) (hn : freqs.symbols.Nodup)
    (hpos : ∀ e ∈ freqs, 0 < e.2) {longest : Nat} (hlongest : 0 < longest)
    (hsum : (freqs.map Prod.snd).sum < Nat.fib (longest + 3)) {e : Int × CodeWord}
    (he : e ∈ t.codeTable) : e.2.length ≤ longest := by
  by_cases htwo : 2 ≤ freqs.length
  · by_contra hlong
    have hfib := h.fib_le_sum hn htwo hpos he
    have hmono : Nat.fib (longest + 3) ≤ Nat.fib (e.2.length + 2) := Nat.fib_mono (by omega)
    omega
  · have hleaf : e ∈ t.leaves := (PrefixTree.codeTable_perm (h.nodup hn)).mem_iff.mp he
    have hsymbol : 0 < t.symbols.length := t.length_symbols_pos
    have hlone : t.symbols.length = 1 := by
      have hlen := h.length_symbols
      omega
    rw [PrefixTree.word_eq_of_lone hlone hleaf]
    exact hlongest

end Planted

/-- The histogram has a code table, its words have at most `longest` bits, and every code is a
number of 64 bits. -/
def Histogram.CodedUpTo (longest : Nat) (freqs : Histogram) : Prop :=
  ∃ arena table, plantTree freqs = some arena ∧ arena.codeTable = some table ∧
    ∀ e ∈ table, e.2.length ≤ longest ∧ bitsValue e.2 < 2 ^ 64

theorem Histogram.codedUpTo_of_sum_lt {freqs : Histogram} (hne : freqs ≠ [])
    (hn : freqs.symbols.Nodup) (hpos : ∀ e ∈ freqs, 0 < e.2) {longest : Nat}
    (hlongest : 0 < longest) (hword : longest ≤ 64)
    (hsum : (freqs.map Prod.snd).sum < Nat.fib (longest + 3)) : freqs.CodedUpTo longest := by
  obtain ⟨a, t, hplanted⟩ := exists_planted hne
  refine ⟨a, t.codeTable, hplanted.plantTree_eq, hplanted.codeTable_eq, ?_⟩
  intro e he
  have hle := hplanted.length_word_le hn hpos hlongest hsum he
  have hpow : 2 ^ e.2.length ≤ 2 ^ 64 := Nat.pow_le_pow_right (by omega) (by omega)
  exact ⟨hle, (bitsValue_lt e.2).trans_le hpow⟩

theorem symbols_byteHistogram_perm (data : Bytes) :
    (byteHistogram data).symbols.Perm (data.dedup.map fun b => (b.toNat : Int)) := by
  have hinjective : Function.Injective fun b : UInt8 => (b.toNat : Int) := by
    intro b b' h
    exact UInt8.toNat_inj.mp (Int.ofNat_inj.mp h)
  refine (List.perm_ext_iff_of_nodup (nodup_symbols_byteHistogram data)
    (data.nodup_dedup.map hinjective)).mpr fun s => ?_
  constructor
  · intro hs
    obtain ⟨e, he, rfl⟩ := List.mem_map.mp hs
    obtain ⟨v, hv, hcount, rfl⟩ := mem_byteHistogram he
    have hmem : UInt8.ofNat v ∈ data := List.count_pos_iff.mp (Nat.pos_of_ne_zero hcount)
    refine List.mem_map.mpr ⟨UInt8.ofNat v, List.mem_dedup.mpr hmem, ?_⟩
    show ((UInt8.ofNat v).toNat : Int) = v
    rw [UInt8.toNat_ofNat', Nat.mod_eq_of_lt hv]
  · intro hs
    obtain ⟨b, hb, rfl⟩ := List.mem_map.mp hs
    exact mem_symbols_byteHistogram (List.mem_dedup.mp hb)

/-- A sum over the symbols, each as often as its frequency says, is the sum over the text. -/
theorem sum_map_byteHistogram (data : Bytes) (f : Int → Int) :
    ((byteHistogram data).map fun e => e.2 * f e.1).sum =
      (data.map fun b => f b.toNat).sum := by
  have hcounts : ((byteHistogram data).map fun e => e.2 * f e.1) =
      (byteHistogram data).symbols.map fun s => (data.count (UInt8.ofNat s.toNat) : Int) * f s := by
    rw [Histogram.symbols, List.map_map]
    refine List.map_congr_left fun e he => ?_
    obtain ⟨v, _, _, rfl⟩ := mem_byteHistogram he
    rfl
  have hbytes : (data.map fun b => f b.toNat).sum =
      (data.dedup.map fun b => (data.count b : Int) * f b.toNat).sum := by
    have hdedup : data.dedup.toFinset = data.toFinset := List.toFinset.ext fun _ => List.mem_dedup
    have hcount := Finset.sum_list_map_count data fun b => f b.toNat
    rw [← hdedup, List.sum_toFinset _ data.nodup_dedup] at hcount
    simpa only [nsmul_eq_mul] using hcount
  rw [hcounts, ((symbols_byteHistogram_perm data).map _).sum_eq, List.map_map, hbytes]
  congr 1
  refine List.map_congr_left fun b _ => ?_
  simp

theorem sum_byteHistogram (data : Bytes) :
    ((byteHistogram data).map Prod.snd).sum = data.length := by
  simpa using sum_map_byteHistogram data fun _ => 1

theorem Histogram.Storable.sum_le {freqs : Histogram} (h : freqs.Storable) :
    (freqs.map Prod.snd).sum ≤ 256 * (2 ^ 32 - 1) := by
  have hle := List.sum_le_card_nsmul (freqs.map Prod.snd) (2 ^ 32 - 1) fun n hn => by
    obtain ⟨e, he, rfl⟩ := List.mem_map.mp hn
    have := (h.frequency_range e he).2
    omega
  have hlen := h.length_le
  rw [List.length_map, nsmul_eq_mul] at hle
  have hmul : (freqs.length : Int) * (2 ^ 32 - 1) ≤ 256 * (2 ^ 32 - 1) :=
    mul_le_mul_of_nonneg_right (by omega) (by omega)
  exact hle.trans hmul

/-- A word of `n` bits takes a total frequency of at least the Fibonacci number `n + 2`. So the
words of a text that can be packed have at most 45 bits, and those of a header that can be read at
most 57. -/
theorem codeTable_word_bound :
    (∀ freqs : Histogram, freqs.symbols.Nodup → 2 ≤ freqs.length → (∀ e ∈ freqs, 0 < e.2) →
      ∃ arena table, plantTree freqs = some arena ∧ arena.codeTable = some table ∧
        ∀ e ∈ table, (Nat.fib (e.2.length + 2) : Int) ≤ (freqs.map Prod.snd).sum) ∧
    (∀ data : Bytes, data ≠ [] → data.length ≤ 2 ^ 32 - 1 →
      (byteHistogram data).CodedUpTo 45) ∧
    ∀ blob header, parseHuffmanHeader blob = .ok header → header.histogram ≠ [] →
      header.histogram.CodedUpTo 57 := by
  refine ⟨?_, ?_, ?_⟩
  · intro freqs hn htwo hpos
    have hne : freqs ≠ [] := List.ne_nil_of_length_pos (by omega)
    obtain ⟨a, t, hplanted⟩ := exists_planted hne
    exact ⟨a, t.codeTable, hplanted.plantTree_eq, hplanted.codeTable_eq,
      fun e he => hplanted.fib_le_sum hn htwo hpos he⟩
  · intro data hne hlen
    have hstorable : (byteHistogram data).Storable := byteHistogram_storable (by omega)
    have hfib : Nat.fib 48 = 4807526976 := by decide
    refine Histogram.codedUpTo_of_sum_lt (byteHistogram_ne_nil hne) hstorable.nodup
      (fun e he => (hstorable.frequency_range e he).1) (by omega) (by omega) ?_
    rw [sum_byteHistogram, hfib]
    omega
  · intro blob header hparse hne
    obtain ⟨hstorable, _⟩ := parseHuffmanHeader_storable hparse
    have hfib : Nat.fib 60 = 1548008755920 := by decide
    have hsum := hstorable.sum_le
    refine Histogram.codedUpTo_of_sum_lt hne hstorable.nodup
      (fun e he => (hstorable.frequency_range e he).1) (by omega) (by omega) ?_
    rw [hfib]
    omega

/-- Frequencies that make a chain of four bits, a text of three bytes and a header with one
entry. -/
theorem codeTable_word_bound_chain :
    let freqs : Histogram := [(0, 1), (1, 1), (2, 1), (3, 3), (4, 4)]
    let data : Bytes := [7, 9, 7]
    let blob : Bytes := [72, 85, 70, 49, 3, 0, 0, 0, 1, 0, 97, 255, 255, 255, 255]
    let header : HuffmanHeader := ⟨3, [(97, 2 ^ 32 - 1)]⟩
    ((freqs.symbols.Nodup ∧ 2 ≤ freqs.length ∧ ∀ e ∈ freqs, 0 < e.2) ∧
      ∃ arena table, plantTree freqs = some arena ∧ arena.codeTable = some table ∧
        ∀ e ∈ table, (Nat.fib (e.2.length + 2) : Int) ≤ (freqs.map Prod.snd).sum) ∧
    ((data ≠ [] ∧ data.length ≤ 2 ^ 32 - 1) ∧ (byteHistogram data).CodedUpTo 45) ∧
    (parseHuffmanHeader blob = .ok header ∧ header.histogram ≠ []) ∧
      header.histogram.CodedUpTo 57 := by
  intro freqs data blob header
  have hparse : parseHuffmanHeader blob = .ok header := rfl
  have hchain : freqs.symbols.Nodup ∧ 2 ≤ freqs.length ∧ ∀ e ∈ freqs, 0 < e.2 :=
    ⟨by decide, by decide, by decide⟩
  refine ⟨⟨hchain, codeTable_word_bound.1 freqs hchain.1 hchain.2.1 hchain.2.2⟩, ?_, ?_⟩
  · exact ⟨⟨by decide, by decide⟩, codeTable_word_bound.2.1 data (by decide) (by decide)⟩
  · exact ⟨⟨hparse, by decide⟩, codeTable_word_bound.2.2 blob header hparse (by decide)⟩

end Compression
