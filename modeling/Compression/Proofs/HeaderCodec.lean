import Compression.Failure
import Compression.Proofs.HeaderEntries

namespace Compression

theorem littleEndian_littleEndianValue (data : Bytes) :
    littleEndian data.length (littleEndianValue data) = data := by
  induction data with
  | nil => rfl
  | cons b data ih =>
    have hb := b.toNat_lt
    have hlow : UInt8.ofNat (b.toNat + 256 * littleEndianValue data) = b := by
      apply UInt8.toNat_inj.mp
      rw [UInt8.toNat_ofNat']
      omega
    have hhigh : (b.toNat + 256 * littleEndianValue data) / 256 = littleEndianValue data := by
      omega
    rw [List.length_cons, littleEndianValue, littleEndian, hlow, hhigh, ih]

theorem littleEndian_take {size : Nat} {data : Bytes} (h : size ≤ data.length) :
    littleEndian size (littleEndianValue (data.take size)) = data.take size := by
  have hlen : (data.take size).length = size := List.length_take_of_le h
  have hfield := littleEndian_littleEndianValue (data.take size)
  rwa [hlen] at hfield

theorem entryBytes_take {data : Bytes} (h : huffmanEntrySize ≤ data.length) :
    entryBytes (littleEndianValue (data.take 1), littleEndianValue ((data.drop 1).take 4)) =
      data.take huffmanEntrySize := by
  have hsize : huffmanEntrySize = 1 + 4 := rfl
  rw [hsize] at h
  unfold entryBytes
  rw [Int.toNat_natCast, Int.toNat_natCast, littleEndian_take (by omega),
    littleEndian_take (by rw [List.length_drop]; omega), hsize, List.take_add]

/-- Entries that are read stand in the bytes, one behind the other. -/
theorem exists_rest_of_readEntries {count : Nat} {data : Bytes} {seen freqs : Histogram}
    (h : readEntries count data seen = .ok freqs) (hlen : count * huffmanEntrySize ≤ data.length) :
    ∃ entries rest, freqs = seen.reverse ++ entries ∧ entries.length = count ∧
      data = entries.flatMap entryBytes ++ rest := by
  induction count generalizing data seen with
  | zero =>
    cases Except.ok.inj h
    exact ⟨[], data, by simp, rfl, rfl⟩
  | succ count ih =>
    rw [Nat.succ_mul] at hlen
    rw [readEntries] at h
    split at h
    next => cases h
    next =>
      split at h
      next => cases h
      next =>
        have hrest : count * huffmanEntrySize ≤ (data.drop huffmanEntrySize).length := by
          rw [List.length_drop]
          omega
        obtain ⟨entries, rest, rfl, hcount, hdata⟩ := ih h hrest
        refine ⟨(littleEndianValue (data.take 1), littleEndianValue ((data.drop 1).take 4)) ::
          entries, rest, by simp, by rw [List.length_cons, hcount], ?_⟩
        rw [List.flatMap_cons, entryBytes_take (by omega), List.append_assoc, ← hdata,
          List.take_append_drop]

/-- The header stands at the beginning of the bytes, with its entries in the order in which they
are listed. -/
structure HuffmanHeader.Begins (header : HuffmanHeader) (blob : Bytes) : Prop where
  size_lt : header.size < 2 ^ 32
  storable : header.histogram.Storable
  nonempty : 0 < header.size → header.histogram ≠ []
  bytes_prefix : fixedBytes header.size header.histogram.length ++
    header.histogram.flatMap entryBytes <+: blob

theorem fixedBytes_of_fields {blob : Bytes} (hlen : huffmanFixedSize ≤ blob.length)
    (hmagic : blob.take 4 = huffmanMagic) :
    fixedBytes (littleEndianValue ((blob.drop 4).take 4))
      (littleEndianValue ((blob.drop 8).take 2)) = blob.take huffmanFixedSize := by
  have hfixed : huffmanFixedSize = 4 + (4 + 2) := rfl
  rw [hfixed] at hlen
  rw [fixedBytes, littleEndian_take (by rw [List.length_drop]; omega),
    littleEndian_take (by rw [List.length_drop]; omega), ← hmagic, hfixed, List.take_add,
    List.take_add, List.drop_drop]

theorem HuffmanHeader.begins_of_parse {blob : Bytes} {header : HuffmanHeader}
    (h : parseHuffmanHeader blob = .ok header) : header.Begins blob := by
  obtain ⟨hstorable, hnonempty⟩ := parseHuffmanHeader_storable h
  simp only [parseHuffmanHeader] at h
  split at h
  next => cases h
  next hlong =>
    split at h
    next => cases h
    next hmagic =>
      split at h
      next => cases h
      next =>
        split at h
        next => cases h
        next henough =>
          split at h
          next => cases h
          next freqs hread =>
            split at h
            next => cases h
            next =>
              cases Except.ok.inj h
              obtain ⟨entries, rest, hfreqs, hcount, hrest⟩ :=
                exists_rest_of_readEntries hread (Nat.le_of_not_lt henough)
              rw [List.reverse_nil, List.nil_append] at hfreqs
              subst hfreqs
              have hfixed := fixedBytes_of_fields (Nat.le_of_not_lt hlong)
                (Decidable.of_not_not hmagic)
              refine ⟨littleEndianValue_take_lt 4 _, hstorable, hnonempty, rest, ?_⟩
              show fixedBytes _ freqs.length ++ freqs.flatMap entryBytes ++ rest = blob
              rw [hcount, hfixed, List.append_assoc, ← hrest, List.take_append_drop]

theorem HuffmanHeader.Begins.parse {header : HuffmanHeader} {blob : Bytes}
    (h : header.Begins blob) : parseHuffmanHeader blob = .ok header := by
  obtain ⟨rest, hblob⟩ := h.bytes_prefix
  obtain ⟨size, freqs⟩ := header
  have hread : readEntries freqs.length (freqs.flatMap entryBytes ++ rest) [] = .ok freqs := by
    have hstorable : Histogram.Storable (freqs.reverse ++ []) := by
      rw [List.append_nil]
      exact h.storable.perm (List.reverse_perm _)
    exact readEntries_entryBytes hstorable rest
  have hentries : (freqs.flatMap entryBytes).length = freqs.length * huffmanEntrySize := by
    simp [List.length_flatMap]
  have henough : ¬ (freqs.flatMap entryBytes ++ rest).length < freqs.length * huffmanEntrySize := by
    rw [List.length_append]
    omega
  have hfull : ¬ (0 < size ∧ freqs.isEmpty = true) :=
    fun hempty => h.nonempty hempty.1 (List.isEmpty_iff.mp hempty.2)
  rw [← hblob, List.append_assoc,
    parseHuffmanHeader_fixedBytes h.size_lt h.storable.length_le, if_neg henough, hread]
  simp only [if_neg hfull]

/-- Exactly the bytes that begin with a header are read, and the header is the one read. -/
theorem parseHuffmanHeader_eq_ok_iff {blob : Bytes} {header : HuffmanHeader} :
    parseHuffmanHeader blob = .ok header ↔ header.Begins blob :=
  ⟨HuffmanHeader.begins_of_parse, HuffmanHeader.Begins.parse⟩

/-- The entries at the beginning of a run of bytes, one piece for each. -/
def entryPieces : Nat → Bytes → List Bytes
  | 0, _ => []
  | count + 1, data =>
    data.take huffmanEntrySize :: entryPieces count (data.drop huffmanEntrySize)

/-- The header in front of a file with its entries in ascending order of their first bytes. -/
def sortedHeader (count : Nat) (blob : Bytes) : Bytes :=
  let pieces := entryPieces count (blob.drop huffmanFixedSize)
  blob.take huffmanFixedSize ++ (pieces.mergeSort fun p q => p.headD 0 ≤ q.headD 0).flatten

theorem entryPieces_entryBytes (entries : Histogram) (rest : Bytes) :
    entryPieces entries.length (entries.flatMap entryBytes ++ rest) = entries.map entryBytes := by
  induction entries with
  | nil => rfl
  | cons entry entries ih =>
    have hlen := length_entryBytes entry
    rw [List.length_cons, List.flatMap_cons, List.append_assoc, entryPieces, List.map_cons,
      List.take_left' hlen, List.drop_left' hlen, ih]

theorem headD_entryBytes_le {e e' : Int × Int} (h : 0 ≤ e.1 ∧ e.1 < 256)
    (h' : 0 ≤ e'.1 ∧ e'.1 < 256) :
    (entryBytes e).headD 0 ≤ (entryBytes e').headD 0 ↔ e.1 ≤ e'.1 := by
  show UInt8.ofNat e.1.toNat ≤ UInt8.ofNat e'.1.toNat ↔ e.1 ≤ e'.1
  rw [UInt8.le_iff_toNat_le, UInt8.toNat_ofNat', UInt8.toNat_ofNat']
  omega

theorem sortedHeader_eq (size : Nat) {freqs : Histogram} (h : freqs.Storable) (rest : Bytes) :
    sortedHeader freqs.length (fixedBytes size freqs.length ++ freqs.flatMap entryBytes ++ rest) =
      headerBytes size freqs := by
  have hfixed := length_fixedBytes size freqs.length
  have hsort : (freqs.map entryBytes).mergeSort (fun p q => p.headD 0 ≤ q.headD 0) =
      freqs.sorted.map entryBytes := by
    symm
    refine List.map_mergeSort fun e he e' he' => ?_
    exact decide_eq_decide.mpr
      (headD_entryBytes_le (h.symbol_range e he) (h.symbol_range e' he')).symm
  rw [sortedHeader, List.append_assoc, List.take_left' hfixed, List.drop_left' hfixed,
    entryPieces_entryBytes]
  show fixedBytes size freqs.length ++ List.flatten _ = _
  rw [hsort, headerBytes_eq, List.flatMap_def]

theorem HuffmanHeader.length_bytes (header : HuffmanHeader) :
    (fixedBytes header.size header.histogram.length ++
      header.histogram.flatMap entryBytes).length = header.offset := by
  simp [List.length_flatMap, HuffmanHeader.offset, Nat.mul_comm]

namespace HuffmanHeader.Begins

variable {header : HuffmanHeader} {blob : Bytes}

theorem count_field (h : header.Begins blob) :
    littleEndianValue ((blob.drop 8).take 2) = header.histogram.length := by
  obtain ⟨rest, hblob⟩ := h.bytes_prefix
  have hfields : (huffmanMagic ++ littleEndian 4 header.size).length = 8 := by
    rw [List.length_append, length_littleEndian]
    rfl
  have hcount := h.storable.length_le
  rw [← hblob, fixedBytes, ← List.append_assoc, List.append_assoc, List.append_assoc,
    List.drop_left' hfields, littleEndianValue_take (by omega)]

theorem offset_le (h : header.Begins blob) : header.offset ≤ blob.length := by
  rw [← header.length_bytes]
  exact h.bytes_prefix.length_le

theorem take_offset (h : header.Begins blob) :
    blob.take header.offset = fixedBytes header.size header.histogram.length ++
      header.histogram.flatMap entryBytes := by
  rw [← header.length_bytes]
  exact (List.prefix_iff_eq_take.mp h.bytes_prefix).symm

theorem pack (h : header.Begins blob) :
    packHuffmanHeader header.size header.histogram =
      some (sortedHeader header.histogram.length (blob.take header.offset)) := by
  have hsorted := sortedHeader_eq header.size h.storable []
  rw [List.append_nil, ← h.take_offset] at hsorted
  rw [hsorted]
  exact packHuffmanHeader_of_storable h.storable h.size_lt

theorem pack_of_ascending (h : header.Begins blob)
    (hasc : header.histogram.Pairwise fun e e' => e.1 < e'.1) :
    packHuffmanHeader header.size header.histogram = some (blob.take header.offset) := by
  have hsorted := Histogram.eq_sorted_of_pairwise_lt hasc (List.Perm.refl _)
  rw [packHuffmanHeader_of_storable h.storable h.size_lt, headerBytes_eq, ← hsorted,
    h.take_offset]

end HuffmanHeader.Begins

/-- A header is read back from in front of any tail. What is read is packed into the bytes that it
was read from, with their entries in ascending order, and all bytes that do not begin with a header
are refused. -/
theorem huffmanHeader_round_trips :
    (∀ (size : Nat) (freqs : Histogram) (tail : Bytes), size < 2 ^ 32 → freqs.Storable →
      (0 < size → freqs ≠ []) →
      ∃ packed, packHuffmanHeader size freqs = some packed ∧
        parseHuffmanHeader (packed ++ tail) = .ok ⟨size, freqs.sorted⟩ ∧
        freqs.sorted.Perm freqs ∧ packed.length = 10 + 5 * freqs.length ∧
        HuffmanHeader.offset ⟨size, freqs.sorted⟩ = 10 + 5 * freqs.length) ∧
    (∀ blob header, parseHuffmanHeader blob = .ok header →
      (header.offset = 10 + 5 * header.histogram.length ∧ header.offset ≤ blob.length ∧
        littleEndianValue ((blob.drop 8).take 2) = header.histogram.length) ∧
      (header.size < 2 ^ 32 ∧ header.histogram.Storable ∧
        (0 < header.size → header.histogram ≠ [])) ∧
      packHuffmanHeader header.size header.histogram =
        some (sortedHeader header.histogram.length (blob.take header.offset)) ∧
      ((header.histogram.Pairwise fun e e' => e.1 < e'.1) →
        packHuffmanHeader header.size header.histogram = some (blob.take header.offset))) ∧
    ∀ blob, (∃ header, header.Begins blob ∧ parseHuffmanHeader blob = .ok header) ∨
      (∀ header, ¬ HuffmanHeader.Begins header blob) ∧
        ∃ e, parseHuffmanHeader blob = .error e ∧
          (HuffmanError.header e).code? = some .formatError := by
  refine ⟨?_, ?_, ?_⟩
  · intro size freqs tail hsize hstorable hne
    have hlen := length_headerBytes size freqs
    have hoffset : HuffmanHeader.offset ⟨size, freqs.sorted⟩ = 10 + 5 * freqs.length := by
      rw [HuffmanHeader.offset, freqs.sorted_perm.length_eq]
      rfl
    exact ⟨headerBytes size freqs, packHuffmanHeader_of_storable hstorable hsize,
      parseHuffmanHeader_headerBytes hstorable hsize hne tail, freqs.sorted_perm, hlen, hoffset⟩
  · intro blob header hparse
    have hbegins := parseHuffmanHeader_eq_ok_iff.mp hparse
    exact ⟨⟨rfl, hbegins.offset_le, hbegins.count_field⟩,
      ⟨hbegins.size_lt, hbegins.storable, hbegins.nonempty⟩, hbegins.pack,
      hbegins.pack_of_ascending⟩
  · intro blob
    cases hparse : parseHuffmanHeader blob with
    | ok header => exact .inl ⟨header, parseHuffmanHeader_eq_ok_iff.mp hparse, rfl⟩
    | error e =>
      refine .inr ⟨?_, e, rfl, rfl⟩
      intro header hbegins
      rw [parseHuffmanHeader_eq_ok_iff.mpr hbegins] at hparse
      cases hparse

/-- A histogram that is listed in descending order, and a header that lists it so. -/
theorem huffmanHeader_round_trips_descending :
    let freqs : Histogram := [(98, 2), (97, 1)]
    let blob : Bytes := [72, 85, 70, 49, 3, 0, 0, 0, 2, 0, 98, 2, 0, 0, 0, 97, 1, 0, 0, 0, 64]
    let header : HuffmanHeader := ⟨3, freqs⟩
    let lone : Bytes := [72, 85, 70, 49, 1, 0, 0, 0, 1, 0, 97, 1, 0, 0, 0, 0]
    let loneHeader : HuffmanHeader := ⟨1, [(97, 1)]⟩
    ((3 < 2 ^ 32 ∧ freqs.Storable ∧ (0 < 3 → freqs ≠ [])) ∧
      ∃ packed, packHuffmanHeader (3 : Nat) freqs = some packed ∧
        parseHuffmanHeader (packed ++ [64]) = .ok ⟨3, freqs.sorted⟩) ∧
    (parseHuffmanHeader blob = .ok header ∧
      packHuffmanHeader header.size header.histogram =
        some (sortedHeader header.histogram.length (blob.take header.offset))) ∧
    (parseHuffmanHeader lone = .ok loneHeader ∧
      (loneHeader.histogram.Pairwise fun e e' => e.1 < e'.1) ∧
      packHuffmanHeader loneHeader.size loneHeader.histogram =
        some (lone.take loneHeader.offset)) := by
  intro freqs blob header lone loneHeader
  have hstorable : freqs.Storable := ⟨by decide, by decide, by decide⟩
  have hparse : parseHuffmanHeader blob = .ok header := rfl
  have hlone : parseHuffmanHeader lone = .ok loneHeader := rfl
  have hasc : loneHeader.histogram.Pairwise fun e e' => e.1 < e'.1 := List.pairwise_singleton _ _
  obtain ⟨packed, hpack, hread, _⟩ :=
    huffmanHeader_round_trips.1 3 freqs [64] (by decide) hstorable (by simp [freqs])
  obtain ⟨_, _, hsorted, _⟩ := huffmanHeader_round_trips.2.1 blob header hparse
  obtain ⟨_, _, _, hsame⟩ := huffmanHeader_round_trips.2.1 lone loneHeader hlone
  exact ⟨⟨⟨by decide, hstorable, by simp [freqs]⟩, packed, hpack, hread⟩, ⟨hparse, hsorted⟩,
    ⟨hlone, hasc, hsame hasc⟩⟩

end Compression
