import Compression.Proofs.CallAnswers
import Compression.Proofs.HuffmanRoundTrip
import Compression.Proofs.LzssRoundTrip

namespace Compression

theorem huffmanDecode_of_spells {blob out : Bytes} {header : HuffmanHeader} {a : PrefixArena}
    {t : PrefixTree} (hparse : parseHuffmanHeader blob = .ok header)
    (hplanted : Planted header.histogram a t) (hstorable : header.histogram.Storable)
    (h : header.Spells t.codeTable (bitsOf (blob.drop header.offset)) out) :
    huffmanDecode blob = .ok out := by
  by_cases hsize : header.size = 0
  · obtain rfl := List.length_eq_zero_iff.mp (h.length_eq.trans hsize)
    rw [huffmanDecode, hparse]
    exact if_pos hsize
  · rw [hplanted.huffmanDecode_eq hparse hsize]
    exact (hplanted.readSymbols_eq_ok_iff_spells hstorable _ _).mpr h

theorem huffmanDecode_of_encode {data packed : Bytes} (hlen : data.length < 2 ^ 32)
    (h : huffmanEncode data = .ok packed) : huffmanDecode packed = .ok data := by
  by_cases hne : data = []
  · subst hne
    obtain rfl := Except.ok.inj (huffmanEncode_nil.symm.trans h)
    rfl
  · have hstorable := byteHistogram_storable hlen
    obtain ⟨a, t, hplanted⟩ := exists_planted (byteHistogram_ne_nil hne)
    obtain ⟨words, hwords⟩ :=
      hplanted.exists_words hstorable.nodup fun b hb => mem_symbols_byteHistogram hb
    obtain ⟨payload, hencode, hprefix⟩ := huffmanEncode_of_planted hplanted hlen hwords
    obtain rfl := Except.ok.inj (hencode.symm.trans h)
    have hparse := parseHuffmanHeader_headerBytes hstorable hlen
      (fun _ => byteHistogram_ne_nil hne) payload
    refine huffmanDecode_of_spells hparse hplanted.sorted
      (hstorable.perm (Histogram.sorted_perm _)) ⟨rfl, fun b hb => ?_, words, hwords, ?_⟩
    · exact ((Histogram.sorted_perm _).map Prod.fst).mem_iff.mpr (mem_symbols_byteHistogram hb)
    · rwa [drop_headerBytes]

theorem lzssDecode_of_encode {params : LzssParams} {data stream : Bytes}
    (h : lzssEncode params data = .ok stream) : lzssDecode stream = .ok data := by
  obtain ⟨tokens, stream', hfitting, htext, hstream', hencode⟩ :=
    lzssEncode_eq_tokenStream params data
  obtain rfl := Except.ok.inj (hencode.symm.trans h)
  obtain ⟨stream'', hstream'', hdecode⟩ := lzssDecode_tokenStream hfitting
  obtain rfl := Option.some.inj (hstream'.symm.trans hstream'')
  rw [hdecode, htext]

/-- What an algorithm other than that for images makes of a file it takes back. -/
theorem decodeWith_of_code {call : Call} {medium : Medium} {store : FileStore}
    {algorithm : Algorithm} {data packed : Bytes} (hop : call.operation = .compress)
    (halgorithm : algorithm ≠ .dct) (hlen : algorithm = .huffman → data.length < 2 ^ 32)
    (h : call.code medium store algorithm data = .ok packed) (path : String) :
    decodeWith algorithm path packed = .ok data := by
  simp only [Call.code, hop] at h
  cases algorithm with
  | huffman =>
    cases hencode : huffmanEncode data with
    | error e => simp only [encodeWith, hencode] at h; cases h
    | ok packed' =>
      simp only [encodeWith, hencode] at h
      obtain rfl : packed' = packed := Except.ok.inj h
      rw [decodeWith, huffmanDecode_of_encode (hlen rfl) hencode]
  | lzss =>
    cases hencode : lzssEncode call.config.lzss data with
    | error e => simp only [encodeWith, hencode] at h; cases h
    | ok packed' =>
      simp only [encodeWith, hencode] at h
      obtain rfl : packed' = packed := Except.ok.inj h
      rw [decodeWith, lzssDecode_of_encode hencode]
  | dct => exact absurd rfl halgorithm

/-- What a call that decompresses answers if `data` has been packed into `size` bytes: an error of
the output, or the data in a file. A device keeps nothing. -/
def Call.GivesBack (data : Bytes) (size : Int) (answer : Except Failure Result)
    (after : FileStore) : Prop :=
  ∃ r, answer = .ok r ∧ (r.error = ErrorCode.outputError.number ∨
    r.ok = true ∧ r.bytesIn = size ∧ r.bytesOut = data.length ∧
      ∃ restored, r.outputPath = some restored ∧
        (after.Has restored (.file data) ∨ ∃ device, after.Has restored (.device device)))

/-- A file that its algorithm decodes is given back. -/
theorem givesBack_of_decode {call : Call} {algorithm : Algorithm} {medium : Medium} {world : World}
    {coded data : Bytes} (hdecompress : call.operation = .decompress)
    (hchoice : call.choice medium = .ok algorithm) (hnull : call.NullFree)
    (htake : call.CanTakeBack medium) (hread : medium.read world.store call.path = .ok coded)
    (hdecode : decodeWith algorithm call.path coded = .ok data) :
    Call.GivesBack data coded.length (world.call medium call).1
      (world.call medium call).2.store := by
  have hcode : call.code medium world.store algorithm coded = .ok data := by
    simp only [Call.code, hdecompress, hdecode]
  obtain ⟨r, hr, hok | herror⟩ :=
    (call_answers medium world hchoice hnull htake).exists_result hread hcode
  · have hfine : r.ok = true := decide_eq_true hok
    obtain ⟨blob, data', place, node, opened, hproduces, hopens, hfill, hresult⟩ :=
      exists_written hchoice (Prod.ext hr rfl) hfine
    obtain rfl := Except.ok.inj (hread.symm.trans hproduces.read_eq)
    obtain rfl := Except.ok.inj (hcode.symm.trans hproduces.code_eq)
    obtain ⟨hwritten, _⟩ := Medium.written_of_fill hopens.written hfill
    refine ⟨r, hr, .inr ⟨hfine, ?_, ?_, call.target algorithm, ?_, hopens.has hwritten⟩⟩ <;>
      rw [hresult]
  · exact ⟨r, hr, .inl herror⟩

/-- A file that one call has packed is given back by another, whatever places and parameters the
two are given. -/
theorem decompress_compress {algorithm : Algorithm} {compress decompress : Call}
    {medium medium' : Medium} {world packed : World} {r : Result} {data contents blob : Bytes}
    {target : String} (halgorithm : algorithm ≠ .dct)
    (hcompress : compress.operation = .compress)
    (hchoice : compress.choice medium = .ok algorithm)
    (hdata : world.store.Has compress.path (.file data))
    (hlen : algorithm = .huffman → data.length < 2 ^ 32)
    (hcall : world.call medium compress = (.ok r, packed)) (hok : r.ok = true)
    (htarget : r.outputPath = some target) (hregular : packed.store.Has target (.file contents))
    (hread : medium'.read packed.store target = .ok blob)
    (hdecompress : decompress.operation = .decompress) (hpath : decompress.path = target)
    (hchoice' : decompress.choice medium' = .ok algorithm)
    (hnull : ¬ decompress.HasNullOutput) (htake : decompress.CanTakeBack medium') :
    Call.GivesBack data r.bytesOut (packed.call medium' decompress).1
      (packed.call medium' decompress).2.store := by
  obtain ⟨blob', coded, place, node, opened, hproduces, hopens, hfill, rfl⟩ :=
    exists_written hchoice hcall hok
  obtain rfl : blob' = data := Medium.read_eq_of_has hdata hproduces.read_eq
  obtain rfl : compress.target algorithm = target := Option.some.inj htarget
  -- The first call may have written over its input, but not to a device.
  have hcoded : packed.store.Has (compress.target algorithm) (.file coded) := by
    obtain ⟨hwritten, _⟩ := Medium.written_of_fill hopens.written hfill
    obtain hfile | ⟨device, hdevice⟩ := hopens.has hwritten
    · exact hfile
    · cases hdevice.unique hregular
  obtain rfl := Medium.read_eq_of_has hcoded hread
  have hpathNull : '\x00' ∉ decompress.path.toList :=
    hpath ▸ (Medium.ask_eq_ok_iff.mp hread).1
  exact givesBack_of_decode hdecompress hchoice' ⟨hpathNull, hnull⟩ htake (hpath ▸ hread)
    (decodeWith_of_code hcompress halgorithm hlen hproduces.code_eq _)

theorem exists_fine_of_any {answer : Except Failure Result} {target : String}
    (h : answer.toOption.any (fun r => r.ok && r.outputPath == some target) = true) :
    ∃ r, answer = .ok r ∧ r.ok = true ∧ r.outputPath = some target := by
  obtain ⟨r, hr, hfine⟩ := exists_result_of_any h
  obtain ⟨hok, htarget⟩ := Bool.and_eq_true_iff.mp hfine
  exact ⟨r, hr, hok, eq_of_beq htarget⟩

theorem decompress_compress_aaa :
    let world : World := { store := FileStore.start.make ⟨.given 2, ['a']⟩ (.file [97, 97, 97]) }
    let decompress : Call := ⟨.decompress, .text "huffman", "a.huff", some "b", {}⟩
    ∃ r packed, world.call (.plain id) ⟨.compress, .int 0, "a", none, {}⟩ = (.ok r, packed) ∧
      r.ok = true ∧ Call.GivesBack [97, 97, 97] r.bytesOut
        (packed.call (.plain id) decompress).1 (packed.call (.plain id) decompress).2.store := by
  intro world decompress
  let medium : Medium := .plain id
  let compress : Call := ⟨.compress, .int 0, "a", none, {}⟩
  let packed := (world.call medium compress).2
  obtain ⟨r, hr, hok, htarget⟩ : ∃ r, (world.call medium compress).1 = .ok r ∧
      r.ok = true ∧ r.outputPath = some "a.huff" := exists_fine_of_any (by decide +kernel)
  have hcall : world.call medium compress = (.ok r, packed) := Prod.ext hr rfl
  have hdata : world.store.Has compress.path (.file [97, 97, 97]) :=
    ⟨⟨.given 2, ['a']⟩, eq_ok_of_toOption (by decide +kernel), by decide +kernel⟩
  have hregular : packed.store.Has "a.huff"
      (.file [72, 85, 70, 49, 3, 0, 0, 0, 1, 0, 97, 3, 0, 0, 0, 0]) :=
    ⟨⟨.given 2, "a.huff".toList⟩, eq_ok_of_toOption (by decide +kernel), by decide +kernel⟩
  have hread : medium.read packed.store "a.huff" = .ok _ :=
    Medium.read_of_has (by decide) rfl hregular
  have hnull : ¬ decompress.HasNullOutput := by
    rintro ⟨given, hgiven, hmem⟩
    cases hgiven
    exact absurd hmem (by decide)
  exact ⟨r, packed, hcall, hok, decompress_compress (by decide) rfl rfl hdata (fun _ => by decide)
    hcall hok htarget hregular hread rfl rfl rfl hnull fun _ _ => rfl⟩

/-- A file is not given back by a device, and not from a file that may not be read. -/
theorem decompress_compress_not_to_device_or_unread :
    let world : World := { store := FileStore.start.make ⟨.given 2, ['a']⟩ (.file [97]) }
    let medium : Medium := .plain id
    let unreadable : Medium :=
      { medium with refuse := fun access _ path =>
          if access = .read ∧ path = "a.huff" then some { reason := .other 13 "" } else none }
    let toDevice : Call := ⟨.decompress, .int 0, "a.huff", some "/dev/null", {}⟩
    let toFile : Call := ⟨.decompress, .int 0, "a.huff", some "b", {}⟩
    world.store.Has "a" (.file [97]) ∧
    ∃ r packed, world.call unreadable ⟨.compress, .int 0, "a", none, {}⟩ = (.ok r, packed) ∧
      r.ok = true ∧ r.outputPath = some "a.huff" ∧
      packed.store.Has "a.huff"
        (.file [72, 85, 70, 49, 1, 0, 0, 0, 1, 0, 97, 1, 0, 0, 0, 0]) ∧
      (∃ r', (packed.call medium toDevice).1 = .ok r' ∧ r'.ok = true ∧
        r'.outputPath = some "/dev/null" ∧
        ¬ (packed.call medium toDevice).2.store.Has "/dev/null" (.file [97])) ∧
      ∃ r', (packed.call unreadable toFile).1 = .ok r' ∧
        r'.error = ErrorCode.inputError.number := by
  intro world medium unreadable toDevice toFile
  let packed := (world.call unreadable ⟨.compress, .int 0, "a", none, {}⟩).2
  have hdata : world.store.Has "a" (.file [97]) :=
    ⟨⟨.given 2, ['a']⟩, eq_ok_of_toOption (by decide +kernel), by decide +kernel⟩
  obtain ⟨r, hr, hok, htarget⟩ : ∃ r,
      (world.call unreadable ⟨.compress, .int 0, "a", none, {}⟩).1 = .ok r ∧ r.ok = true ∧
        r.outputPath = some "a.huff" := exists_fine_of_any (by decide +kernel)
  have hregular : packed.store.Has "a.huff"
      (.file [72, 85, 70, 49, 1, 0, 0, 0, 1, 0, 97, 1, 0, 0, 0, 0]) :=
    ⟨⟨.given 2, "a.huff".toList⟩, eq_ok_of_toOption (by decide +kernel), by decide +kernel⟩
  obtain ⟨r', hr', hok', htarget'⟩ : ∃ r', (packed.call medium toDevice).1 = .ok r' ∧
      r'.ok = true ∧ r'.outputPath = some "/dev/null" := exists_fine_of_any (by decide +kernel)
  have hdevice : (packed.call medium toDevice).2.store.Has "/dev/null" (.device .null) :=
    ⟨⟨.given 1, "null".toList⟩, eq_ok_of_toOption (by decide +kernel), by decide +kernel⟩
  obtain ⟨r'', hr'', herror⟩ : ∃ r'', (packed.call unreadable toFile).1 = .ok r'' ∧
      decide (r''.error = ErrorCode.inputError.number) = true :=
    exists_result_of_any (by decide +kernel)
  refine ⟨hdata, r, packed, Prod.ext hr rfl, hok, htarget, hregular,
    ⟨r', hr', hok', htarget', fun hfile => ?_⟩, r'', hr'', of_decide_eq_true herror⟩
  cases hdevice.unique hfile

end Compression
