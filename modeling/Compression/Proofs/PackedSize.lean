import Compression.Proofs.CutCodes
import Compression.Proofs.MinimalCode
import Compression.Proofs.WordBound

namespace Compression

namespace Histogram

variable {freqs : Histogram}

/-- Words of one length serve as many symbols as there are numbers of that many bits. -/
theorem codedWithin_of_length_le {depth : Nat} (h : freqs.length ≤ 2 ^ depth) :
    CodedWithin (depth * (freqs.map Prod.snd).sum) (freqs.map Prod.snd) := by
  let code := freqs.map fun e => (e.2, depth)
  have hfst : code.map Prod.fst = freqs.map Prod.snd := by simp [code]
  have hsnd : code.map Prod.snd = List.replicate freqs.length depth := by
    rw [List.map_map]
    exact List.map_const'
  refine ⟨depth, code, ⟨?_, ?_⟩, hfst ▸ List.Perm.refl _, le_of_eq ?_⟩
  · intro l hl
    rw [hsnd] at hl
    exact (List.eq_of_mem_replicate hl).le
  · rw [hsnd, placesTaken, List.map_replicate, List.sum_replicate]
    simpa using h
  · rw [weightedSum, List.map_map, ← List.sum_map_mul_left]
    congr 1
    exact List.map_congr_left fun e _ => mul_comm _ _

theorem codedLength_le_of_length_le (hpos : ∀ e ∈ freqs, 0 < e.2) {word : Int → CodeWord}
    {depth : Nat} (h : ∀ s ∈ freqs.symbols, (word s).length ≤ depth) :
    freqs.codedLength word ≤ depth * (freqs.map Prod.snd).sum := by
  rw [codedLength, ← List.sum_map_mul_left]
  refine List.sum_le_sum fun e he => ?_
  have hlength : ((word e.1).length : Int) ≤ depth :=
    Int.ofNat_le.mpr (h e.1 (List.mem_map_of_mem he))
  rw [mul_comm]
  exact mul_le_mul_of_nonneg_right hlength (hpos e he).le

/-- No text takes more bits than it does with words of one length. -/
theorem exists_planted_codedLength_le (hne : freqs ≠ []) (hn : freqs.symbols.Nodup)
    (hpos : ∀ e ∈ freqs, 0 < e.2) (depth : Nat) (hdepth : 1 ≤ depth)
    (hroom : freqs.length ≤ 2 ^ depth) :
    ∃ a t, Planted freqs a t ∧
      freqs.codedLength t.codeTable.word ≤ depth * (freqs.map Prod.snd).sum := by
  obtain ⟨a, t, hplanted, hmerged⟩ := exists_planted_merged hne
  refine ⟨a, t, hplanted, ?_⟩
  by_cases htwo : 2 ≤ freqs.length
  · have hcode := (codedWithin_of_length_le hroom).perm freqs.weights_leafQueue.symm
    have hle := cost_mergeTrees_le hmerged (leafQueue_weighed hn hpos) hcode
    rw [sum_cost_leafQueue, zero_add] at hle
    rwa [hplanted.codedLength_word hn htwo]
  · have hlone : t.symbols.length = 1 := by
      have := hplanted.length_symbols
      have := t.length_symbols_pos
      omega
    refine codedLength_le_of_length_le hpos fun s hs => ?_
    rw [PrefixTree.word_eq_of_lone hlone (hplanted.word_mem_leaves hn hs)]
    exact hdepth

end Histogram

theorem length_flatten_words {table : CodeTable} {data : Bytes} {words : List CodeWord}
    (h : List.Forall₂ (fun b word => table.find? b.toNat = some word) data words) :
    words.flatten.length = (data.map fun b => (table.word b.toNat).length).sum := by
  induction h with
  | nil => rfl
  | cons hb _ ih =>
    rw [List.flatten_cons, List.length_append, ih, List.map_cons, List.sum_cons, CodeTable.word, hb]
    rfl

theorem length_of_bitsOf_eq {payload : Bytes} {bits : List Bool} {padding : Nat}
    (hpadding : padding < 8) (h : bitsOf payload = bits ++ List.replicate padding false) :
    payload.length = (bits.length + 7) / 8 := by
  have hlength := congrArg List.length h
  rw [length_bitsOf, List.length_append, List.length_replicate] at hlength
  omega

theorem codedLength_byteHistogram (data : Bytes) (word : Int → CodeWord) :
    (byteHistogram data).codedLength word = (data.map fun b => (word b.toNat).length).sum := by
  rw [Histogram.codedLength, sum_map_byteHistogram data fun s => ((word s).length : Int),
    Nat.cast_list_sum, List.map_map]
  rfl

/-- Packing a text takes ten bytes, five for each byte value that occurs in it, and its code words
without a gap between them. These have no more bits than the text itself. -/
theorem huffmanEncode_size (data : Bytes) (h : data.length ≤ 2 ^ 32 - 1) :
    ∃ packed table, huffmanEncode data = .ok packed ∧
      (data ≠ [] → ∃ arena, plantTree (byteHistogram data) = some arena ∧
        arena.codeTable = some table) ∧
      (∀ b ∈ data, table.find? b.toNat = some (table.word b.toNat)) ∧
      let values := data.toFinset.card
      let bits := ∑ b ∈ data.toFinset, data.count b * (table.word b.toNat).length
      packed.length = 10 + 5 * values + (bits + 7) / 8 ∧
      bits ≤ 8 * data.length ∧
      packed.length ≤ data.length + 10 + 5 * values ∧
      data.length + 10 + 5 * values ≤ data.length + 1290 := by
  have hlen : data.length < 2 ^ 32 := by omega
  have hstorable := byteHistogram_storable hlen
  have hvalues := length_byteHistogram data
  have hmost := hstorable.length_le
  by_cases hne : data = []
  · subst hne
    refine ⟨headerBytes 0 [], [], huffmanEncode_nil, by simp, by simp, ?_⟩
    simp [length_headerBytes, huffmanFixedSize]
  · obtain ⟨a, t, hplanted, hcost⟩ := Histogram.exists_planted_codedLength_le
      (byteHistogram_ne_nil hne) hstorable.nodup
      (fun e he => (hstorable.frequency_range e he).1) 8 (by omega) hmost
    obtain ⟨words, hwords⟩ :=
      hplanted.exists_words hstorable.nodup fun b hb => mem_symbols_byteHistogram hb
    obtain ⟨payload, padding, hpadding, hencode, hpayload⟩ :=
      huffmanEncode_padded hplanted hlen hwords
    have hfind : ∀ b ∈ data, t.codeTable.find? b.toNat = some (t.codeTable.word b.toNat) :=
      fun b hb => (hplanted.find?_codeTable hstorable.nodup).mpr
        (hplanted.word_mem_leaves hstorable.nodup (mem_symbols_byteHistogram hb))
    refine ⟨_, t.codeTable, hencode,
      fun _ => ⟨a, hplanted.plantTree_eq, hplanted.codeTable_eq⟩, hfind, ?_⟩
    intro values bits
    have hbits : words.flatten.length = bits := by
      rw [length_flatten_words hwords, Finset.sum_list_map_count]
      simp only [bits, smul_eq_mul]
    have hpacked : (headerBytes data.length (byteHistogram data) ++ payload).length =
        10 + 5 * values + (bits + 7) / 8 := by
      rw [List.length_append, length_headerBytes, hvalues, length_of_bitsOf_eq hpadding hpayload,
        hbits]
      rfl
    have hfixed : bits ≤ 8 * data.length := by
      rw [codedLength_byteHistogram, sum_byteHistogram, ← length_flatten_words hwords, hbits]
        at hcost
      exact_mod_cast hcost
    have hcount : values ≤ 256 := hvalues.symm.le.trans hmost
    exact ⟨hpacked, hfixed, by omega, by omega⟩

theorem huffmanEncode_size_abracadabra :
    (asciiBytes "abracadabra".toList).length ≤ 2 ^ 32 - 1 ∧
      ∃ packed table, huffmanEncode (asciiBytes "abracadabra".toList) = .ok packed ∧
        (asciiBytes "abracadabra".toList ≠ [] → ∃ arena,
          plantTree (byteHistogram (asciiBytes "abracadabra".toList)) = some arena ∧
            arena.codeTable = some table) ∧
        (∀ b ∈ asciiBytes "abracadabra".toList,
          table.find? b.toNat = some (table.word b.toNat)) ∧
        let values := (asciiBytes "abracadabra".toList).toFinset.card
        let bits := ∑ b ∈ (asciiBytes "abracadabra".toList).toFinset,
          (asciiBytes "abracadabra".toList).count b * (table.word b.toNat).length
        packed.length = 10 + 5 * values + (bits + 7) / 8 ∧
        bits ≤ 8 * (asciiBytes "abracadabra".toList).length ∧
        packed.length ≤ (asciiBytes "abracadabra".toList).length + 10 + 5 * values ∧
        (asciiBytes "abracadabra".toList).length + 10 + 5 * values ≤
          (asciiBytes "abracadabra".toList).length + 1290 :=
  ⟨by decide, huffmanEncode_size (asciiBytes "abracadabra".toList) (by decide)⟩

end Compression
