import Compression.HuffmanHeader
import Compression.Proofs.FieldBytes
import Mathlib.Data.Int.Interval
import Mathlib.Data.List.Nodup

namespace Compression

/-- What a header can tell of a text: each entry is a byte with a frequency of four bytes, no byte
has two entries, and no frequency is zero. -/
structure Histogram.Storable (freqs : Histogram) : Prop where
  nodup : freqs.symbols.Nodup
  symbol_range : ∀ e ∈ freqs, 0 ≤ e.1 ∧ e.1 < 256
  frequency_range : ∀ e ∈ freqs, 0 < e.2 ∧ e.2 < 2 ^ 32

theorem Histogram.storable_nil : Histogram.Storable [] :=
  ⟨List.nodup_nil, by simp, by simp⟩

theorem Histogram.Storable.perm {freqs freqs' : Histogram} (h : freqs.Storable)
    (hp : freqs'.Perm freqs) : freqs'.Storable where
  nodup := (hp.map Prod.fst).nodup_iff.mpr h.nodup
  symbol_range e he := h.symbol_range e (hp.mem_iff.mp he)
  frequency_range e he := h.frequency_range e (hp.mem_iff.mp he)

theorem Histogram.Storable.cons {freqs : Histogram} (h : freqs.Storable) {entry : Int × Int}
    (hs : 0 ≤ entry.1 ∧ entry.1 < 256) (hf : 0 < entry.2 ∧ entry.2 < 2 ^ 32)
    (hnew : entry.1 ∉ freqs.symbols) : Histogram.Storable (entry :: freqs) where
  nodup := List.nodup_cons.mpr ⟨hnew, h.nodup⟩
  symbol_range := List.forall_mem_cons.mpr ⟨hs, h.symbol_range⟩
  frequency_range := List.forall_mem_cons.mpr ⟨hf, h.frequency_range⟩

theorem Histogram.Storable.symbols_range {freqs : Histogram} (h : freqs.Storable) :
    ∀ s ∈ freqs.symbols, 0 ≤ s ∧ s < 256 := by
  intro s hs
  obtain ⟨e, he, rfl⟩ := List.mem_map.mp hs
  exact h.symbol_range e he

theorem Histogram.Storable.length_le {freqs : Histogram} (h : freqs.Storable) :
    freqs.length ≤ 256 := by
  have hsub : freqs.symbols.toFinset ⊆ Finset.Ico (0 : Int) 256 := by
    intro s hs
    exact Finset.mem_Ico.mpr (h.symbols_range s (List.mem_toFinset.mp hs))
  have hcard := Finset.card_le_card hsub
  rw [List.toFinset_card_of_nodup h.nodup, Int.card_Ico] at hcard
  simpa [Histogram.symbols] using hcard

/-- Entries that are read keep what the earlier ones had. -/
theorem readEntries_storable {count : Nat} {data : Bytes} {seen freqs : Histogram}
    (h : readEntries count data seen = .ok freqs) (hs : seen.Storable) :
    freqs.Storable ∧ freqs.length = seen.length + count := by
  induction count generalizing data seen with
  | zero =>
    cases Except.ok.inj h
    exact ⟨hs.perm seen.reverse_perm, by simp⟩
  | succ count ih =>
    rw [readEntries] at h
    split at h
    next => cases h
    next hnew =>
      split at h
      next => cases h
      next hpos =>
        have hsymbol := littleEndianValue_take_lt 1 data
        have hfrequency := littleEndianValue_take_lt 4 (data.drop 1)
        obtain ⟨hstorable, hlen⟩ :=
          ih h (hs.cons ⟨by omega, by omega⟩ ⟨by omega, by omega⟩ (by simpa using hnew))
        exact ⟨hstorable, by rw [hlen, List.length_cons]; omega⟩

/-- A header that is accepted has a histogram that could be stored, and no text without one. -/
theorem parseHuffmanHeader_storable {blob : Bytes} {header : HuffmanHeader}
    (h : parseHuffmanHeader blob = .ok header) :
    header.histogram.Storable ∧ (0 < header.size → header.histogram ≠ []) := by
  simp only [parseHuffmanHeader] at h
  iterate 4 split at h; next => cases h
  split at h
  next => cases h
  next freqs hread =>
    split at h
    next => cases h
    next hsize =>
      cases Except.ok.inj h
      refine ⟨(readEntries_storable hread Histogram.storable_nil).1, ?_⟩
      rintro hpos rfl
      exact hsize ⟨hpos, rfl⟩

def entryBytes (entry : Int × Int) : Bytes :=
  littleEndian 1 entry.1.toNat ++ littleEndian 4 entry.2.toNat

@[simp] theorem length_entryBytes (entry : Int × Int) :
    (entryBytes entry).length = huffmanEntrySize := by
  simp [entryBytes, huffmanEntrySize]

theorem packEntry_of_range {entry : Int × Int} (hs : 0 ≤ entry.1 ∧ entry.1 < 256)
    (hf : 0 < entry.2 ∧ entry.2 < 2 ^ 32) : packEntry entry = some (entryBytes entry) := by
  rw [packEntry, field?_of_lt 1 hs.1 (by omega), field?_of_lt 4 (by omega) (by omega)]
  rfl

theorem readEntries_succ {entry : Int × Int} (hs : 0 ≤ entry.1 ∧ entry.1 < 256)
    (hf : 0 < entry.2 ∧ entry.2 < 2 ^ 32) {seen : Histogram} (hnew : entry.1 ∉ seen.symbols)
    (count : Nat) (rest : Bytes) :
    readEntries (count + 1) (entryBytes entry ++ rest) seen =
      readEntries count rest (entry :: seen) := by
  have htail : (entryBytes entry ++ rest).drop huffmanEntrySize = rest :=
    List.drop_left' (length_entryBytes entry)
  have hsymbol : (littleEndianValue ((entryBytes entry ++ rest).take 1) : Int) = entry.1 := by
    rw [entryBytes, List.append_assoc, littleEndianValue_take (by omega),
      Int.toNat_of_nonneg hs.1]
  have hfrequency :
      (littleEndianValue (((entryBytes entry ++ rest).drop 1).take 4) : Int) = entry.2 := by
    rw [entryBytes, List.append_assoc, drop_littleEndian, littleEndianValue_take (by omega),
      Int.toNat_of_nonneg hf.1.le]
  rw [readEntries, hsymbol, hfrequency, htail, if_neg (by simpa using hnew), if_neg hf.1.ne']

/-- Entries in bytes are read back one by one, whatever follows them. -/
theorem readEntries_entryBytes {entries seen : Histogram}
    (h : Histogram.Storable (entries.reverse ++ seen)) (tail : Bytes) :
    readEntries entries.length (entries.flatMap entryBytes ++ tail) seen =
      .ok (seen.reverse ++ entries) := by
  induction entries generalizing seen with
  | nil => simp [readEntries]
  | cons entry entries ih =>
    have hmem : entry ∈ (entry :: entries).reverse ++ seen := by simp
    have hrest : Histogram.Storable (entries.reverse ++ entry :: seen) := by simpa using h
    have hnew : entry.1 ∉ seen.symbols := by
      have hn := hrest.nodup
      simp only [Histogram.symbols, List.map_append, List.map_cons] at hn
      exact (List.nodup_cons.mp (List.nodup_append.mp hn).2.1).1
    rw [List.length_cons, List.flatMap_cons, List.append_assoc,
      readEntries_succ (h.symbol_range entry hmem) (h.frequency_range entry hmem) hnew, ih hrest,
      List.reverse_cons, List.append_assoc, List.singleton_append]

def headerBytes (size : Nat) (freqs : Histogram) : Bytes :=
  huffmanMagic ++ (littleEndian 4 size ++ (littleEndian 2 freqs.length ++
    freqs.sorted.flatMap entryBytes))

theorem length_headerBytes (size : Nat) (freqs : Histogram) :
    (headerBytes size freqs).length = huffmanFixedSize + huffmanEntrySize * freqs.length := by
  have hentries : (freqs.sorted.flatMap entryBytes).length = huffmanEntrySize * freqs.length := by
    simp [List.length_flatMap, freqs.sorted_perm.length_eq, Nat.mul_comm]
  simp only [headerBytes, List.length_append, length_littleEndian, hentries]
  simp only [huffmanMagic, asciiBytes, List.length_map, List.length_cons, List.length_nil,
    huffmanFixedSize]
  omega

theorem packHuffmanHeader_of_storable {size : Nat} {freqs : Histogram} (h : freqs.Storable)
    (hs : size < 2 ^ 32) : packHuffmanHeader size freqs = some (headerBytes size freqs) := by
  have hlen := h.length_le
  have hentries : freqs.sorted.mapM packEntry = some (freqs.sorted.map entryBytes) :=
    mapM_eq_some_map fun e he =>
      have hf := freqs.sorted_perm.mem_iff.mp he
      packEntry_of_range (h.symbol_range e hf) (h.frequency_range e hf)
  rw [packHuffmanHeader, field?_of_lt 4 (by omega) (by omega), field?_of_lt 2 (by omega) (by omega),
    hentries]
  simp [headerBytes, List.flatMap_def]

/-- The part of a header in front of its entries. -/
def fixedBytes (size count : Nat) : Bytes :=
  huffmanMagic ++ (littleEndian 4 size ++ littleEndian 2 count)

@[simp] theorem length_fixedBytes (size count : Nat) :
    (fixedBytes size count).length = huffmanFixedSize := by
  simp only [fixedBytes, List.length_append, length_littleEndian]
  rfl

theorem headerBytes_eq (size : Nat) (freqs : Histogram) :
    headerBytes size freqs = fixedBytes size freqs.length ++ freqs.sorted.flatMap entryBytes := by
  simp [headerBytes, fixedBytes]

/-- The fixed part of a header says how many entries to read behind it. -/
theorem parseHuffmanHeader_fixedBytes {size count : Nat} (hs : size < 2 ^ 32) (hc : count ≤ 256)
    (entries : Bytes) :
    parseHuffmanHeader (fixedBytes size count ++ entries) =
      if entries.length < count * huffmanEntrySize then
        .error (.cutHistogram count (entries.length / huffmanEntrySize))
      else
        match readEntries count entries [] with
        | .error e => .error e
        | .ok histogram =>
          if 0 < size ∧ histogram.isEmpty then .error (.emptyHistogram size)
          else .ok ⟨size, histogram⟩ := by
  let blob := fixedBytes size count ++ entries
  have hblob : blob =
      huffmanMagic ++ (littleEndian 4 size ++ (littleEndian 2 count ++ entries)) := by
    simp [blob, fixedBytes]
  have hmagic : blob.take 4 = huffmanMagic := by
    rw [hblob]
    exact List.take_left' rfl
  have hdrop4 : blob.drop 4 = littleEndian 4 size ++ (littleEndian 2 count ++ entries) := by
    rw [hblob]
    exact List.drop_left' rfl
  have hdrop8 : blob.drop 8 = littleEndian 2 count ++ entries := by
    rw [show 8 = 4 + 4 from rfl, ← List.drop_drop, hdrop4, drop_littleEndian]
  have hdrop10 : blob.drop huffmanFixedSize = entries := List.drop_left' (length_fixedBytes _ _)
  have hsize : littleEndianValue ((blob.drop 4).take 4) = size := by
    rw [hdrop4, littleEndianValue_take (by omega)]
  have hcount : littleEndianValue ((blob.drop 8).take 2) = count := by
    rw [hdrop8, littleEndianValue_take (by omega)]
  have hlong : ¬ blob.length < huffmanFixedSize := by
    simp only [blob, List.length_append, length_fixedBytes]
    omega
  change parseHuffmanHeader blob = _
  simp only [parseHuffmanHeader]
  rw [hmagic, hdrop10, hsize, hcount, if_neg hlong, if_neg (by simp)]
  exact if_neg (by omega)

/-- A header is read back from in front of whatever follows it. -/
theorem parseHuffmanHeader_headerBytes {size : Nat} {freqs : Histogram} (h : freqs.Storable)
    (hs : size < 2 ^ 32) (hne : 0 < size → freqs ≠ []) (tail : Bytes) :
    parseHuffmanHeader (headerBytes size freqs ++ tail) = .ok ⟨size, freqs.sorted⟩ := by
  let entries := freqs.sorted.flatMap entryBytes ++ tail
  have hread : readEntries freqs.length entries [] = .ok freqs.sorted := by
    have hstorable : Histogram.Storable (freqs.sorted.reverse ++ []) := by
      rw [List.append_nil]
      exact h.perm ((List.reverse_perm _).trans freqs.sorted_perm)
    have := readEntries_entryBytes hstorable tail
    rwa [freqs.sorted_perm.length_eq] at this
  have henough : ¬ entries.length < freqs.length * huffmanEntrySize := by
    have hheader := length_headerBytes size freqs
    rw [headerBytes_eq, List.length_append, length_fixedBytes] at hheader
    simp only [entries, List.length_append]
    rw [Nat.mul_comm]
    omega
  have hfull : ¬ (0 < size ∧ freqs.sorted.isEmpty = true) := by
    rintro ⟨hpos, hempty⟩
    have hnil : freqs.sorted = [] := List.isEmpty_iff.mp hempty
    exact hne hpos (List.perm_nil.mp (hnil ▸ freqs.sorted_perm.symm))
  rw [headerBytes_eq, List.append_assoc, parseHuffmanHeader_fixedBytes hs h.length_le,
    if_neg henough, hread]
  simp only [if_neg hfull]

/-- A header that is cut anywhere is no header. -/
theorem parseHuffmanHeader_take_headerBytes {size k : Nat} {freqs : Histogram} (h : freqs.Storable)
    (hs : size < 2 ^ 32) (hk : k < huffmanFixedSize + huffmanEntrySize * freqs.length) :
    ∃ e, parseHuffmanHeader ((headerBytes size freqs).take k) = .error e := by
  by_cases hfixed : k < huffmanFixedSize
  · have hshort : ((headerBytes size freqs).take k).length < huffmanFixedSize := by
      rw [List.length_take]
      omega
    rw [parseHuffmanHeader, if_pos hshort]
    exact ⟨_, rfl⟩
  · have hcut : (headerBytes size freqs).take k = fixedBytes size freqs.length ++
        (freqs.sorted.flatMap entryBytes).take (k - huffmanFixedSize) := by
      have hall : ((fixedBytes size freqs.length).take k) = fixedBytes size freqs.length :=
        List.take_of_length_le (by rw [length_fixedBytes]; omega)
      rw [headerBytes_eq, List.take_append, hall, length_fixedBytes]
    have hless : ((freqs.sorted.flatMap entryBytes).take (k - huffmanFixedSize)).length <
        freqs.length * huffmanEntrySize := by
      rw [List.length_take, Nat.mul_comm]
      omega
    rw [hcut, parseHuffmanHeader_fixedBytes hs h.length_le, if_pos hless]
    exact ⟨_, rfl⟩

theorem drop_headerBytes (size : Nat) (freqs : Histogram) (tail : Bytes) :
    (headerBytes size freqs ++ tail).drop (HuffmanHeader.offset ⟨size, freqs.sorted⟩) = tail := by
  apply List.drop_left'
  rw [length_headerBytes, HuffmanHeader.offset, freqs.sorted_perm.length_eq]

end Compression
