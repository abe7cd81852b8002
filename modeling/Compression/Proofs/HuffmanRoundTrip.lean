import Compression.Proofs.HuffmanDecoding

namespace Compression

theorem symbols_byteHistogram (data : Bytes) :
    (byteHistogram data).symbols =
      ((List.range 256).filter fun v => data.count (UInt8.ofNat v) ≠ 0).map Nat.cast := by
  rw [Histogram.symbols, byteHistogram, List.map_filterMap, ← List.filterMap_eq_map',
    List.filterMap_filter]
  congr 1
  funext v
  by_cases h : data.count (UInt8.ofNat v) = 0 <;> simp [h]

theorem mem_symbols_byteHistogram {data : Bytes} {b : UInt8} (h : b ∈ data) :
    (b.toNat : Int) ∈ (byteHistogram data).symbols := by
  have hb := b.toNat_lt
  have hcount : data.count b ≠ 0 := Nat.ne_of_gt (List.count_pos_iff.mpr h)
  rw [symbols_byteHistogram]
  refine List.mem_map_of_mem (List.mem_filter.mpr ⟨List.mem_range.mpr (by omega), ?_⟩)
  simpa using hcount

theorem byteHistogram_ne_nil {data : Bytes} (h : data ≠ []) : byteHistogram data ≠ [] := by
  obtain ⟨b, rest, rfl⟩ := List.exists_cons_of_ne_nil h
  intro hn
  have := mem_symbols_byteHistogram (List.mem_cons_self (a := b) (l := rest))
  simp [hn, Histogram.symbols] at this

theorem mem_byteHistogram {data : Bytes} {entry : Int × Int} (h : entry ∈ byteHistogram data) :
    ∃ v < 256, data.count (UInt8.ofNat v) ≠ 0 ∧
      entry = ((v : Int), (data.count (UInt8.ofNat v) : Int)) := by
  obtain ⟨v, hv, he⟩ := List.mem_filterMap.mp h
  refine ⟨v, List.mem_range.mp hv, ?_⟩
  simp only at he
  split at he
  next => cases he
  next hcount => exact ⟨hcount, (Option.some.inj he).symm⟩

theorem nodup_symbols_byteHistogram (data : Bytes) : (byteHistogram data).symbols.Nodup := by
  rw [symbols_byteHistogram]
  exact (List.nodup_range.filter _).map Nat.cast_injective

/-- The histogram of a text that is not too long fits into a header. -/
theorem byteHistogram_storable {data : Bytes} (h : data.length < 2 ^ 32) :
    (byteHistogram data).Storable where
  nodup := nodup_symbols_byteHistogram data
  symbol_range := by
    intro e he
    obtain ⟨v, hv, _, rfl⟩ := mem_byteHistogram he
    exact ⟨by omega, by omega⟩
  frequency_range := by
    intro e he
    obtain ⟨v, _, hcount, rfl⟩ := mem_byteHistogram he
    have hle : data.count (UInt8.ofNat v) ≤ data.length := List.count_le_length
    exact ⟨by omega, by omega⟩

theorem writeCodes_eq {table : CodeTable} {data : Bytes} {words : List CodeWord}
    (h : List.Forall₂ (fun b word => table.find? b.toNat = some word) data words) (w : BitWriter) :
    ∃ w', writeCodes table data w = some w' ∧ w'.toBits = w.toBits ++ words.flatten := by
  induction h generalizing w with
  | nil => exact ⟨w, rfl, by simp⟩
  | @cons b word data words hb _ ih =>
    obtain ⟨w', hw, hbits⟩ := ih (w.appendAll word)
    have hcode : writeCode table w b = some (w.appendAll word) := by
      simp [writeCode, hb, BitWriter.appendNumber_bitsValue, Except.toOption]
    refine ⟨w', ?_, ?_⟩
    · rw [writeCodes, List.foldlM_cons, hcode]
      exact hw
    · rw [hbits, BitWriter.toBits_appendAll, List.flatten_cons, List.append_assoc]

theorem Planted.exists_words {freqs : Histogram} {a : PrefixArena} {t : PrefixTree}
    (h : Planted freqs a t) (hn : freqs.symbols.Nodup) {data : Bytes}
    (hdata : ∀ b ∈ data, (b.toNat : Int) ∈ freqs.symbols) :
    ∃ words, List.Forall₂ (fun b word => t.codeTable.find? b.toNat = some word) data words := by
  refine ⟨data.map fun b => (t.codeTable.find? b.toNat).getD [], ?_⟩
  rw [List.forall₂_map_right_iff, List.forall₂_same]
  intro b hb
  obtain ⟨word, hw⟩ := (h.mem_symbols_iff hn).mp (hdata b hb)
  rw [hw]
  rfl

theorem plantTree_nil : plantTree [] = none := by
  simp [plantTree, Histogram.sorted, leafRoots, mergeRoots]

theorem huffmanEncode_nil : huffmanEncode [] = .ok (headerBytes 0 []) := by
  have hempty : byteHistogram [] = [] := by simp [byteHistogram]
  have hpack := packHuffmanHeader_of_storable Histogram.storable_nil (show 0 < 2 ^ 32 by omega)
  simp only [huffmanEncode, hempty, plantTree_nil, List.length_nil, hpack]
  rfl

/-- A text that is not empty is packed as its header and the words of its bytes, filled up with zero
bits to a whole byte. -/
theorem huffmanEncode_padded {data : Bytes} {a : PrefixArena} {t : PrefixTree}
    (h : Planted (byteHistogram data) a t) (hlen : data.length < 2 ^ 32) {words : List CodeWord}
    (hw : List.Forall₂ (fun b word => t.codeTable.find? b.toNat = some word) data words) :
    ∃ payload padding, padding < 8 ∧ huffmanEncode data =
        .ok (headerBytes data.length (byteHistogram data) ++ payload) ∧
      bitsOf payload = words.flatten ++ List.replicate padding false := by
  obtain ⟨w, hwrite, hbits⟩ := writeCodes_eq hw .empty
  obtain ⟨padding, hpadding, hpacked⟩ := w.bitsOf_toBytes
  have hpack := packHuffmanHeader_of_storable (byteHistogram_storable hlen) hlen
  have hshort : ¬ maxHuffmanSize < data.length := by
    rw [maxHuffmanSize]
    omega
  refine ⟨w.toBytes, padding, hpadding, ?_, ?_⟩
  · simp only [huffmanEncode, if_neg hshort, hpack, h.plantTree_eq, h.codeTable_eq,
      Option.bind_some, hwrite]
  · rw [hpacked, hbits]
    rfl

theorem huffmanEncode_of_planted {data : Bytes} {a : PrefixArena} {t : PrefixTree}
    (h : Planted (byteHistogram data) a t) (hlen : data.length < 2 ^ 32) {words : List CodeWord}
    (hw : List.Forall₂ (fun b word => t.codeTable.find? b.toNat = some word) data words) :
    ∃ payload, huffmanEncode data =
        .ok (headerBytes data.length (byteHistogram data) ++ payload) ∧
      words.flatten <+: bitsOf payload := by
  obtain ⟨payload, padding, _, hencode, hbits⟩ := huffmanEncode_padded h hlen hw
  exact ⟨payload, hencode, hbits ▸ List.prefix_append _ _⟩

/-- A packed text is read back, whatever follows it. -/
theorem huffmanDecode_huffmanEncode (data : Bytes) (h : data.length ≤ 2 ^ 32 - 1) :
    ∃ packed, huffmanEncode data = .ok packed ∧
      ∀ tail, huffmanDecode (packed ++ tail) = .ok data := by
  have hlen : data.length < 2 ^ 32 := by omega
  by_cases hne : data = []
  · subst hne
    refine ⟨_, huffmanEncode_nil, fun tail => ?_⟩
    rw [huffmanDecode, parseHuffmanHeader_headerBytes Histogram.storable_nil (by omega) (by omega)]
    rfl
  · have hstorable := byteHistogram_storable hlen
    obtain ⟨a, t, hplanted⟩ := exists_planted (byteHistogram_ne_nil hne)
    obtain ⟨words, hwords⟩ :=
      hplanted.exists_words hstorable.nodup fun b hb => mem_symbols_byteHistogram hb
    obtain ⟨payload, hencode, hprefix⟩ := huffmanEncode_of_planted hplanted hlen hwords
    refine ⟨_, hencode, fun tail => ?_⟩
    let header : HuffmanHeader := ⟨data.length, (byteHistogram data).sorted⟩
    have hsorted : header.histogram.Storable := hstorable.perm (Histogram.sorted_perm _)
    have hpos : header.size ≠ 0 := fun hz => hne (List.length_eq_zero_iff.mp hz)
    have hspells : header.Spells t.codeTable (bitsOf (payload ++ tail)) data := by
      refine ⟨rfl, fun b hb => ?_, words, hwords, ?_⟩
      · exact ((Histogram.sorted_perm _).map Prod.fst).mem_iff.mpr (mem_symbols_byteHistogram hb)
      · rw [bitsOf_append]
        exact hprefix.trans (List.prefix_append _ _)
    rw [huffmanDecode, List.append_assoc,
      parseHuffmanHeader_headerBytes hstorable hlen (fun _ => byteHistogram_ne_nil hne)]
    change (if header.size = 0 then _ else _) = _
    rw [if_neg hpos]
    simp only [hplanted.sorted.plantTree_eq, drop_headerBytes]
    exact (Planted.readSymbols_eq_ok_iff_spells hplanted.sorted hsorted _ _).mpr hspells

theorem huffmanDecode_huffmanEncode_abracadabra :
    (asciiBytes "abracadabra".toList).length ≤ 2 ^ 32 - 1 ∧
      ∃ packed, huffmanEncode (asciiBytes "abracadabra".toList) = .ok packed ∧
        ∀ tail, huffmanDecode (packed ++ tail) = .ok (asciiBytes "abracadabra".toList) :=
  ⟨by decide, huffmanDecode_huffmanEncode (asciiBytes "abracadabra".toList) (by decide)⟩

end Compression
