import Compression.Proofs.HuffmanRoundTrip
import Mathlib.Data.Finset.Card
import Mathlib.Data.Finset.Image

namespace Compression

theorem toFinset_symbols_byteHistogram (data : Bytes) :
    (byteHistogram data).symbols.toFinset = data.toFinset.image fun b => (b.toNat : Int) := by
  ext s
  rw [List.mem_toFinset, Finset.mem_image]
  constructor
  · intro hs
    obtain ⟨entry, hentry, rfl⟩ := List.mem_map.mp hs
    obtain ⟨v, hv, hcount, rfl⟩ := mem_byteHistogram hentry
    have hmem : UInt8.ofNat v ∈ data := List.count_pos_iff.mp (Nat.pos_of_ne_zero hcount)
    have hvalue : (UInt8.ofNat v).toNat = v := by
      rw [UInt8.toNat_ofNat']
      exact Nat.mod_eq_of_lt hv
    exact ⟨UInt8.ofNat v, List.mem_toFinset.mpr hmem, congrArg Nat.cast hvalue⟩
  · rintro ⟨b, hb, rfl⟩
    exact mem_symbols_byteHistogram (List.mem_toFinset.mp hb)

/-- A histogram has as many entries as there are distinct bytes. -/
theorem length_byteHistogram (data : Bytes) :
    (byteHistogram data).length = data.toFinset.card := by
  have hinjective : Function.Injective fun b : UInt8 => (b.toNat : Int) := by
    intro b b' h
    exact UInt8.toNat_inj.mp (Int.ofNat_inj.mp h)
  have hcard := Finset.card_image_of_injective data.toFinset hinjective
  rw [← toFinset_symbols_byteHistogram,
    List.toFinset_card_of_nodup (nodup_symbols_byteHistogram data), Histogram.symbols,
    List.length_map] at hcard
  exact hcard

section

variable {data payload : Bytes} {a : PrefixArena} {t : PrefixTree} {words : List CodeWord}
  {padding j : Nat}

theorem words_unique {words' : List CodeWord}
    (h : List.Forall₂ (fun b word => t.codeTable.find? b.toNat = some word) data words)
    (h' : List.Forall₂ (fun b word => t.codeTable.find? b.toNat = some word) data words') :
    words = words' := by
  induction h generalizing words' with
  | nil => cases h'; rfl
  | cons hb _ ih =>
    cases h' with
    | cons hb' h' =>
      obtain rfl := Option.some.inj (hb.symm.trans hb')
      rw [ih h']

theorem prefix_bitsOf_take (payload : Bytes) (j : Nat) :
    bitsOf (payload.take j) <+: bitsOf payload := by
  conv_rhs => rw [← List.take_append_drop j payload]
  rw [bitsOf_append]
  exact List.prefix_append _ _

/-- Without its last byte a payload has no room for all the words. -/
theorem not_spells_take (h : Planted (byteHistogram data) a t) (hlen : data.length < 2 ^ 32)
    (hw : List.Forall₂ (fun b word => t.codeTable.find? b.toNat = some word) data words)
    (hpadding : padding < 8)
    (hbits : bitsOf payload = words.flatten ++ List.replicate padding false)
    (hj : j < payload.length) :
    ¬ ∃ out, HuffmanHeader.Spells ⟨data.length, (byteHistogram data).sorted⟩ t.codeTable
      (bitsOf (payload.take j)) out := by
  rintro ⟨out, hout⟩
  let header : HuffmanHeader := ⟨data.length, (byteHistogram data).sorted⟩
  have hstorable : header.histogram.Storable :=
    (byteHistogram_storable hlen).perm (Histogram.sorted_perm _)
  have hplanted : Planted header.histogram a t := h.sorted
  have hread := hplanted.readSymbols_eq_ok_iff_spells hstorable payload
  obtain ⟨words', hw', hprefix⟩ := hout.words_prefix
  have hlong : header.Spells t.codeTable (bitsOf payload) out :=
    ⟨hout.length_eq, hout.symbol_mem, words', hw', hprefix.trans (prefix_bitsOf_take payload j)⟩
  have hdata : header.Spells t.codeTable (bitsOf payload) data := by
    refine ⟨rfl, fun b hb => ?_, words, hw, hbits ▸ List.prefix_append _ _⟩
    exact ((Histogram.sorted_perm _).map Prod.fst).mem_iff.mpr (mem_symbols_byteHistogram hb)
  obtain rfl : out = data :=
    Except.ok.inj (((hread out).mpr hlong).symm.trans ((hread data).mpr hdata))
  obtain rfl := words_unique hw hw'
  have hroom := hprefix.length_le
  have hfull := congrArg List.length hbits
  rw [length_bitsOf, List.length_take_of_le hj.le] at hroom
  rw [length_bitsOf, List.length_append, List.length_replicate] at hfull
  omega

/-- The words of a lone symbol are all zero. -/
theorem true_not_mem_of_lone (h : Planted (byteHistogram data) a t)
    (hw : List.Forall₂ (fun b word => t.codeTable.find? b.toNat = some word) data words)
    (hbits : bitsOf payload = words.flatten ++ List.replicate padding false)
    (hlone : (byteHistogram data).length = 1) : true ∉ bitsOf payload := by
  intro hmem
  rw [hbits] at hmem
  rcases List.mem_append.mp hmem with hmem | hmem
  · obtain ⟨word, hword, htrue⟩ := List.mem_flatten.mp hmem
    obtain ⟨b, hb⟩ := exists_of_forall₂_of_mem hw.flip hword
    have hleaf := (h.find?_codeTable (nodup_symbols_byteHistogram data)).mp hb
    obtain rfl := PrefixTree.word_eq_of_lone (h.length_symbols.trans hlone) hleaf
    simp at htrue
  · simp at hmem

end

/-- The bits of a cut payload end before the last word. -/
theorem huffmanDecode_take_payload {data payload : Bytes} {a : PrefixArena} {t : PrefixTree}
    {words : List CodeWord} {padding j : Nat} (h : Planted (byteHistogram data) a t)
    (hne : data ≠ []) (hlen : data.length < 2 ^ 32)
    (hw : List.Forall₂ (fun b word => t.codeTable.find? b.toNat = some word) data words)
    (hpadding : padding < 8)
    (hbits : bitsOf payload = words.flatten ++ List.replicate padding false)
    (hj : j < payload.length) :
    huffmanDecode (headerBytes data.length (byteHistogram data) ++ payload.take j) =
      .error (.codesEnd (8 * j)) := by
  let header : HuffmanHeader := ⟨data.length, (byteHistogram data).sorted⟩
  have hstorable := byteHistogram_storable hlen
  have hparse := parseHuffmanHeader_headerBytes hstorable hlen (fun _ => byteHistogram_ne_nil hne)
    (payload.take j)
  have hsize : header.size ≠ 0 := fun hz => hne (List.length_eq_zero_iff.mp hz)
  have hplanted : Planted header.histogram a t := h.sorted
  have hcut := hplanted.readSymbols_eq_error_of_not_spells
    (hstorable.perm (Histogram.sorted_perm _)) (not_spells_take h hlen hw hpadding hbits hj)
  have hzeros : ¬ (header.histogram.length = 1 ∧ true ∈ (bitsOf (payload.take j)).take
      (min header.size (bitsOf (payload.take j)).length)) := by
    rintro ⟨hlone, hmem⟩
    have hlone' : (byteHistogram data).length = 1 := by
      rw [← (Histogram.sorted_perm (byteHistogram data)).length_eq]
      exact hlone
    exact true_not_mem_of_lone h hw hbits hlone'
      ((prefix_bitsOf_take payload j).subset (List.mem_of_mem_take hmem))
  have hbitsEnd : (bitsOf (payload.take j)).length = 8 * j := by
    rw [length_bitsOf, List.length_take_of_le hj.le]
  rw [if_neg hzeros, hbitsEnd] at hcut
  rw [hplanted.huffmanDecode_eq hparse hsize, drop_headerBytes]
  exact hcut

/-- A packed text is a header, and behind it the words of its bytes, if there are any. -/
theorem exists_payload_of_huffmanEncode {data packed : Bytes}
    (h : huffmanEncode data = .ok packed) :
    data.length < 2 ^ 32 ∧
      ∃ payload, packed = headerBytes data.length (byteHistogram data) ++ payload ∧
        ∀ j < payload.length,
          huffmanDecode (headerBytes data.length (byteHistogram data) ++ payload.take j) =
            .error (.codesEnd (8 * j)) := by
  have hlen : data.length < 2 ^ 32 := by
    by_contra hlong
    rw [huffmanEncode, if_pos (by rw [maxHuffmanSize]; omega)] at h
    cases h
  refine ⟨hlen, ?_⟩
  by_cases hne : data = []
  · subst hne
    obtain rfl := Except.ok.inj (huffmanEncode_nil.symm.trans h)
    exact ⟨[], by simp [byteHistogram], fun j hj => absurd hj (Nat.not_lt_zero j)⟩
  · have hstorable := byteHistogram_storable hlen
    obtain ⟨a, t, hplanted⟩ := exists_planted (byteHistogram_ne_nil hne)
    obtain ⟨words, hw⟩ :=
      hplanted.exists_words hstorable.nodup fun b hb => mem_symbols_byteHistogram hb
    obtain ⟨payload, padding, hpadding, hencode, hbits⟩ := huffmanEncode_padded hplanted hlen hw
    obtain rfl := Except.ok.inj (hencode.symm.trans h)
    exact ⟨payload, rfl, fun j hj =>
      huffmanDecode_take_payload hplanted hne hlen hw hpadding hbits hj⟩

theorem exists_ok_of_any {ε α : Type} {answer : Except ε (List α)} {n : Nat}
    (h : answer.toOption.any (fun xs => xs.length == n) = true) :
    ∃ xs, answer = .ok xs ∧ xs.length = n := by
  cases answer with
  | error e => cases h
  | ok xs => exact ⟨xs, rfl, eq_of_beq h⟩

/-- A packed text that is cut anywhere is refused: for its header, if the cut goes through it, and
as truncated behind it. -/
theorem huffmanDecode_take {data packed : Bytes} (h : huffmanEncode data = .ok packed) {k : Nat}
    (hk : k < packed.length) :
    ∃ e, huffmanDecode (packed.take k) = .error e ∧
      e.code? = some (if k < 10 + 5 * data.toFinset.card then .formatError else .truncated) := by
  obtain ⟨hlen, payload, rfl, hcut⟩ := exists_payload_of_huffmanEncode h
  have hheader : (headerBytes data.length (byteHistogram data)).length =
      10 + 5 * data.toFinset.card := by
    rw [length_headerBytes, length_byteHistogram]
    rfl
  rw [List.take_append, ← hheader]
  split
  next hshort =>
    have hnone : k - (headerBytes data.length (byteHistogram data)).length = 0 := by omega
    rw [hnone, List.take_zero, List.append_nil]
    rw [length_headerBytes] at hshort
    obtain ⟨e, he⟩ := parseHuffmanHeader_take_headerBytes (byteHistogram_storable hlen) hlen hshort
    exact ⟨.header e, by rw [huffmanDecode, he], rfl⟩
  next hlong =>
    rw [List.length_append] at hk
    rw [List.take_of_length_le (by omega), hcut _ (by omega)]
    exact ⟨_, rfl, rfl⟩

/-- Twelve bytes of one kind, cut behind the eighth code word, and in the only entry. -/
theorem huffmanDecode_take_lone :
    let data : Bytes := List.replicate 12 97
    ∃ packed, huffmanEncode data = .ok packed ∧ 16 < packed.length ∧ 14 < packed.length ∧
      (∃ e, huffmanDecode (packed.take 16) = .error e ∧
        e.code? = some (if 16 < 10 + 5 * data.toFinset.card then .formatError else .truncated)) ∧
      ∃ e, huffmanDecode (packed.take 14) = .error e ∧
        e.code? = some (if 14 < 10 + 5 * data.toFinset.card then .formatError else .truncated) := by
  intro data
  obtain ⟨packed, hpacked, hlen⟩ : ∃ packed, huffmanEncode data = .ok packed ∧
      packed.length = 17 := exists_ok_of_any (by decide +kernel)
  exact ⟨packed, hpacked, by omega, by omega, huffmanDecode_take hpacked (by omega),
    huffmanDecode_take hpacked (by omega)⟩

end Compression
