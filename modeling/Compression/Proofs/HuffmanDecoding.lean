import Compression.Failure
import Compression.Proofs.HeaderEntries
import Compression.Proofs.PlantedTree

namespace Compression

/-- The text `out` is what a header and the bits behind it tell: it is as long as the header says,
its bytes are symbols of the histogram, and their code words, one after the other, begin the
bits. -/
structure HuffmanHeader.Spells (header : HuffmanHeader) (table : CodeTable) (bits : List Bool)
    (out : Bytes) : Prop where
  length_eq : out.length = header.size
  symbol_mem : ∀ b ∈ out, (b.toNat : Int) ∈ header.histogram.symbols
  words_prefix : ∃ words, List.Forall₂ (fun b word => table.find? b.toNat = some word) out words ∧
    words.flatten <+: bits

theorem exists_of_forall₂_of_mem {α β : Type} {R : α → β → Prop} {xs : List α} {ys : List β}
    (h : List.Forall₂ R xs ys) {x : α} (hx : x ∈ xs) : ∃ y, R x y := by
  induction h with
  | nil => simp at hx
  | @cons a b _ _ hr _ ih =>
    rcases List.mem_cons.mp hx with rfl | hx
    · exact ⟨b, hr⟩
    · exact ih hx

theorem PrefixTree.mem_symbols_of_leaves {t : PrefixTree} {s : Int} {word : CodeWord}
    (h : (s, word) ∈ t.leaves) : s ∈ t.symbols := by
  rw [← t.map_fst_leaves]
  exact List.mem_map.mpr ⟨_, h, rfl⟩

section

variable {a : PrefixArena} {t : PrefixTree}

/-- Symbols are read by links as the tree takes them off the bits; all are bytes, and no link is
lost. -/
theorem readSymbols_eq (h : a.Carries t) (hb : ∀ s ∈ t.symbols, 0 ≤ s ∧ s < 256) (count : Nat)
    (r : BitReader) (out : Array UInt8) :
    readSymbols a count r out =
      match t.readWords count r.toBits with
      | .error e => .error (.ofWalk r.totalBits e)
      | .ok symbols => .ok (out.toList ++ symbols.map fun s => UInt8.ofNat s.toNat) := by
  induction count generalizing r out with
  | zero => simp [readSymbols, PrefixTree.readWords]
  | succ count ih =>
    have hagree := h.readSymbol_agrees r
    rw [readSymbols, PrefixTree.readWords]
    cases hw : t.readWord r.toBits with
    | error e =>
      cases hr : a.readSymbol r with
      | ok read => simp [hr, hw, PrefixArena.Agrees] at hagree
      | error e' =>
        have he : e' = e := by simpa [hr, hw, PrefixArena.Agrees] using hagree
        simp [he]
    | ok read =>
      obtain ⟨s, rest⟩ := read
      cases hr : a.readSymbol r with
      | error e => simp [hr, hw, PrefixArena.Agrees] at hagree
      | ok read' =>
        obtain ⟨s', r'⟩ := read'
        have hsame : s' = s ∧ r'.toBits = rest ∧ r'.totalBits = r.totalBits := by
          simpa [hr, hw, PrefixArena.Agrees] using hagree
        obtain ⟨rfl, rfl, htotal⟩ := hsame
        obtain ⟨word, hm, _⟩ := PrefixTree.readWord_eq_ok_iff.mp hw
        obtain ⟨hs0, hs⟩ := hb s' (PrefixTree.mem_symbols_of_leaves hm)
        have hbyte : byteOf? s' = some (UInt8.ofNat s'.toNat) := by rw [byteOf?, if_pos ⟨hs0, hs⟩]
        simp only [hbyte, ih, htotal]
        cases t.readWords count r'.toBits <;> simp [Except.map]

/-- Reading `count` symbols gives `out` exactly where `out` has as many bytes and their words begin
the bits. -/
theorem readSymbols_eq_ok_iff (h : a.Carries t) (hn : t.symbols.Nodup)
    (hb : ∀ s ∈ t.symbols, 0 ≤ s ∧ s < 256) (count : Nat) (r : BitReader) (out : Bytes) :
    readSymbols a count r #[] = .ok out ↔ out.length = count ∧
      ∃ words, List.Forall₂ (fun b word => t.codeTable.find? b.toNat = some word) out words ∧
        words.flatten <+: r.toBits := by
  rw [readSymbols_eq h hb]
  have hbyte : ∀ s ∈ t.symbols, ((UInt8.ofNat s.toNat).toNat : Int) = s := by
    intro s hs
    obtain ⟨hs0, hs⟩ := hb s hs
    rw [UInt8.toNat_ofNat', Nat.mod_eq_of_lt (by omega), Int.toNat_of_nonneg hs0]
  constructor
  · intro hread
    cases hw : t.readWords count r.toBits with
    | error e => simp [hw] at hread
    | ok symbols =>
      have hout : symbols.map (fun s => UInt8.ofNat s.toNat) = out := by simpa [hw] using hread
      obtain ⟨hlen, words, hf, hp⟩ := PrefixTree.readWords_eq_ok_iff.mp hw
      refine ⟨by rw [← hout, List.length_map, hlen], words, ?_, hp⟩
      rw [← hout, List.forall₂_map_left_iff]
      refine hf.imp fun s word hm => ?_
      rw [hbyte s (PrefixTree.mem_symbols_of_leaves hm), PrefixTree.find?_codeTable hn]
      exact hm
  · rintro ⟨hlen, words, hf, hp⟩
    have hw : t.readWords count r.toBits = .ok (out.map fun b => (b.toNat : Int)) := by
      apply PrefixTree.readWords_eq_ok_iff.mpr
      refine ⟨by rw [List.length_map, hlen], words, ?_, hp⟩
      rw [List.forall₂_map_left_iff]
      exact hf.imp fun b word hfind => (PrefixTree.find?_codeTable hn _ _).mp hfind
    simp [hw, Function.comp_def]

/-- Reading that stops early stops at a bit one under a lone leaf, or else at the end. -/
theorem readSymbols_eq_error (h : a.Carries t) (hb : ∀ s ∈ t.symbols, 0 ≤ s ∧ s < 256)
    {count : Nat} {r : BitReader} (hno : ∀ out, readSymbols a count r #[] ≠ .ok out) :
    readSymbols a count r #[] = .error
      (if t.symbols.length = 1 ∧ true ∈ r.toBits.take count then .noSuchChild
        else .codesEnd r.totalBits) := by
  rw [readSymbols_eq h hb] at hno ⊢
  cases hw : t.readWords count r.toBits with
  | ok symbols => exact absurd (by rw [hw]) (hno _)
  | error e =>
    have he := PrefixTree.readWords_eq_error hw
    simp only [t.isLeaf_iff] at he
    subst e
    by_cases hc : t.symbols.length = 1 ∧ true ∈ r.toBits.take count
    · rw [if_pos hc, if_pos hc]; rfl
    · rw [if_neg hc, if_neg hc]; rfl

end

namespace Planted

variable {header : HuffmanHeader} {a : PrefixArena} {t : PrefixTree}

theorem huffmanDecode_eq (h : Planted header.histogram a t) {blob : Bytes}
    (hparse : parseHuffmanHeader blob = .ok header) (hsize : header.size ≠ 0) :
    huffmanDecode blob =
      readSymbols a header.size (.ofBytes (blob.drop header.offset)) #[] := by
  simp only [huffmanDecode, hparse, if_neg hsize, h.plantTree_eq]

theorem symbols_range (h : Planted header.histogram a t) (hs : header.histogram.Storable) :
    ∀ s ∈ t.symbols, 0 ≤ s ∧ s < 256 :=
  fun s hm => hs.symbols_range s (h.symbols_perm.mem_iff.mp hm)

theorem readSymbols_eq_ok_iff_spells (h : Planted header.histogram a t)
    (hs : header.histogram.Storable) (payload out : Bytes) :
    readSymbols a header.size (.ofBytes payload) #[] = .ok out ↔
      header.Spells t.codeTable (bitsOf payload) out := by
  rw [readSymbols_eq_ok_iff h.carries (h.nodup hs.nodup) (h.symbols_range hs),
    BitReader.toBits_ofBytes]
  constructor
  · rintro ⟨hsize, words, hf, hp⟩
    refine ⟨hsize, fun b hb => ?_, words, hf, hp⟩
    exact (h.mem_symbols_iff hs.nodup).mpr (exists_of_forall₂_of_mem hf hb)
  · exact fun hspells => ⟨hspells.length_eq, hspells.words_prefix⟩

theorem readSymbols_eq_error_of_not_spells (h : Planted header.histogram a t)
    (hs : header.histogram.Storable) {payload : Bytes}
    (hno : ¬ ∃ out, header.Spells t.codeTable (bitsOf payload) out) :
    readSymbols a header.size (.ofBytes payload) #[] = .error
      (if header.histogram.length = 1 ∧
          true ∈ (bitsOf payload).take (min header.size (bitsOf payload).length)
        then .noSuchChild else .codesEnd (bitsOf payload).length) := by
  have hne : ∀ out, readSymbols a header.size (.ofBytes payload) #[] ≠ .ok out :=
    fun out hread => hno ⟨out, (h.readSymbols_eq_ok_iff_spells hs payload out).mp hread⟩
  have he := readSymbols_eq_error h.carries (h.symbols_range hs) hne
  rwa [BitReader.toBits_ofBytes, BitReader.totalBits_ofBytes, h.length_symbols,
    List.take_eq_take_min] at he

end Planted

/-- Decoding agrees with the code table of the histogram. A malformed header is a format error.
Otherwise a text is the answer exactly where the header, the table and the bits spell it, and there
is at most one; where there is none, the stream is corrupt if the histogram has one symbol and a bit
one is among the bits to read, and truncated if not. -/
theorem huffmanDecode_matches_codeTable (blob : Bytes) :
    match parseHuffmanHeader blob with
    | .error e =>
      huffmanDecode blob = .error (.header e) ∧
        (HuffmanError.header e).code? = some .formatError
    | .ok header =>
      (header.size = 0 → huffmanDecode blob = .ok []) ∧
      (header.size ≠ 0 → ∃ arena table, plantTree header.histogram = some arena ∧
        arena.codeTable = some table ∧
        let bits := bitsOf (blob.drop header.offset)
        (∀ out, huffmanDecode blob = .ok out ↔ header.Spells table bits out) ∧
        (∀ out out', header.Spells table bits out → header.Spells table bits out' → out = out') ∧
        ((¬ ∃ out, header.Spells table bits out) →
          let corrupt := header.histogram.length = 1 ∧
            true ∈ bits.take (min header.size bits.length)
          ∃ e, huffmanDecode blob = .error e ∧
            e = (if corrupt then .noSuchChild else .codesEnd bits.length) ∧
            e.code? = some (if corrupt then .corrupt else .truncated))) := by
  cases hparse : parseHuffmanHeader blob with
  | error e => exact ⟨by rw [huffmanDecode, hparse], rfl⟩
  | ok header =>
    obtain ⟨hstorable, hnonempty⟩ := parseHuffmanHeader_storable hparse
    refine ⟨fun hzero => by simp [huffmanDecode, hparse, hzero], fun hsize => ?_⟩
    obtain ⟨arena, t, hplanted⟩ := exists_planted (hnonempty (by omega))
    have hdecode : huffmanDecode blob =
        readSymbols arena header.size (.ofBytes (blob.drop header.offset)) #[] := by
      simp only [huffmanDecode, hparse, if_neg hsize, hplanted.plantTree_eq]
    have hok := hplanted.readSymbols_eq_ok_iff_spells hstorable (blob.drop header.offset)
    refine ⟨arena, t.codeTable, hplanted.plantTree_eq, hplanted.codeTable_eq, ?_⟩
    rw [hdecode]
    refine ⟨hok, ?_, ?_⟩
    · intro out out' h h'
      exact Except.ok.inj (((hok out).mpr h).symm.trans ((hok out').mpr h'))
    · intro hno corrupt
      refine ⟨_, hplanted.readSymbols_eq_error_of_not_spells hstorable hno, rfl, ?_⟩
      split <;> rfl

end Compression
