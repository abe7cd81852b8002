import Compression.Proofs.BlockFileFormat
import Compression.Proofs.CallAnswers
import Compression.Proofs.HuffmanDecoding
import Compression.Proofs.StreamItems

namespace Compression

/-- The codes under which a file may be refused by its decoder. -/
def Algorithm.faultCodes (algorithm : Algorithm) (blob : Bytes) : List ErrorCode :=
  match algorithm with
  | .huffman => [.formatError, .truncated, .corrupt]
  | .lzss => [.truncated, .corrupt]
  | .dct => if blob = [] then [.inputError] else [.formatError, .truncated, .unsupportedInput]

variable {blob : Bytes}

theorem huffmanDecode_fault {e : HuffmanError} (h : huffmanDecode blob = .error e) :
    ∃ code ∈ Algorithm.huffman.faultCodes blob, e.code? = some code := by
  cases hparse : parseHuffmanHeader blob with
  | error fault =>
    rw [huffmanDecode, hparse] at h
    obtain rfl : HuffmanError.header fault = e := Except.error.inj h
    exact ⟨.formatError, by simp [Algorithm.faultCodes], rfl⟩
  | ok header =>
    obtain ⟨hstorable, hnonempty⟩ := parseHuffmanHeader_storable hparse
    have hsize : header.size ≠ 0 := by
      intro hzero
      simp [huffmanDecode, hparse, hzero] at h
    obtain ⟨arena, t, hplanted⟩ := exists_planted (hnonempty (Nat.pos_of_ne_zero hsize))
    rw [hplanted.huffmanDecode_eq hparse hsize] at h
    have hno : ∀ out, readSymbols arena header.size (.ofBytes (blob.drop header.offset)) #[] ≠
        .ok out := by
      intro out hout
      cases hout.symm.trans h
    -- The tree of a header has only bytes for symbols and loses no link.
    have hread := readSymbols_eq_error hplanted.carries (hplanted.symbols_range hstorable) hno
    obtain rfl := Except.error.inj (hread.symm.trans h)
    split
    next => exact ⟨.corrupt, by simp [Algorithm.faultCodes], rfl⟩
    next => exact ⟨.truncated, by simp [Algorithm.faultCodes], rfl⟩

theorem lzssDecode_fault {e : LzssError} (h : lzssDecode blob = .error e) :
    ∃ code ∈ Algorithm.lzss.faultCodes blob, e.code? = some code := by
  have hnot : ¬ SoundItems (streamItems blob) := by
    intro hsound
    rw [lzssDecode_eq_addItems, addItems_of_sound _ hsound] at h
    cases h
  obtain ⟨_, item, e', herror, hfault⟩ := lzssDecode_of_not_sound hnot
  obtain rfl := Except.error.inj (herror.symm.trans h)
  refine ⟨item.faultCode, ?_, Item.code?_of_fault? hfault⟩
  cases item with
  | whole t => simp [Algorithm.faultCodes, Item.faultCode]
  | cut available => simp [Algorithm.faultCodes, Item.faultCode]

theorem decodeImageWith_fault {α : Type} [TransformArithmetic α] {e : BlockImageError}
    (hne : blob ≠ []) (h : decodeImageWith α blob = .error e) :
    ∃ code ∈ Algorithm.dct.faultCodes blob, e.code? = some code := by
  obtain ⟨check, hmem, hcode⟩ := (decidedBy_blockFileChecks α blob).exists_failing h
  refine ⟨check.code, ?_, hcode⟩
  rw [Algorithm.faultCodes, if_neg hne]
  simp only [blockFileChecks, List.mem_cons, List.not_mem_nil, or_false] at hmem
  rcases hmem with rfl | rfl | rfl | rfl | rfl | rfl <;> simp

theorem decodeWith_fault {algorithm : Algorithm} {path : String} {e : Failure}
    (h : decodeWith algorithm path blob = .error e) :
    ∃ code ∈ algorithm.faultCodes blob, e.code? = some code := by
  cases algorithm with
  | huffman =>
    rw [decodeWith] at h
    split at h
    next => cases h
    next fault hfault => cases h; exact huffmanDecode_fault hfault
  | lzss =>
    rw [decodeWith] at h
    split at h
    next => cases h
    next fault hfault => cases h; exact lzssDecode_fault hfault
  | dct =>
    rw [decodeWith] at h
    split at h
    next hempty =>
      cases h
      rw [Algorithm.faultCodes, if_pos (List.isEmpty_iff.mp hempty)]
      exact ⟨.inputError, by simp, rfl⟩
    next hne =>
      cases hdecode : decodeImage blob with
      | error fault =>
        simp only [decodeToPgm, hdecode, Except.map] at h
        cases h
        exact decodeImageWith_fault (by simpa using hne) hdecode
      | ok pixels =>
        simp only [decodeToPgm, hdecode, Except.map] at h
        cases h

/-- Any file whatever is decompressed, or the call reports what keeps it from being so. -/
theorem decompress_reports {call : Call} {algorithm : Algorithm} (medium : Medium) (world : World)
    (hdecompress : call.operation = .decompress) (hchoice : call.choice medium = .ok algorithm)
    (hnull : call.NullFree) (htake : call.CanTakeBack medium) :
    ∃ r code, (world.call medium call).1 = .ok r ∧ r.error = code.number ∧
      match medium.read world.store call.path with
      | .error _ => code = .inputError
      | .ok blob =>
        match decodeWith algorithm call.path blob with
        | .ok _ => code = .ok ∨ code = .outputError
        | .error e => e.code? = some code ∧ code ∈ algorithm.faultCodes blob := by
  have hcodec : ∀ blob, call.code medium world.store algorithm blob =
      decodeWith algorithm call.path blob := by
    intro blob
    rw [Call.code, hdecompress]
  have hanswers := call_answers medium world hchoice hnull htake
  generalize (world.call medium call).1 = answer at hanswers ⊢
  cases hanswers with
  | @unread e r hread herror =>
    refine ⟨r, .inputError, rfl, herror, ?_⟩
    rw [hread]
  | @uncoded blob e hread hcode =>
    rw [hcodec] at hcode
    obtain ⟨code, hmem, hcode?⟩ := decodeWith_fault hcode
    refine ⟨{ bytesIn := blob.length, error := code.number }, code, ?_, rfl, ?_⟩
    · rw [Failure.report, hcode?]
    · simp only [hread, hcode]
      exact ⟨hcode?, hmem⟩
  | @coded blob data r hproduces herror =>
    have hcode := hproduces.code_eq
    rw [hcodec] at hcode
    simp only [hproduces.read_eq, hcode]
    obtain herror | herror := herror
    · exact ⟨r, .ok, rfl, herror, .inl rfl⟩
    · exact ⟨r, .outputError, rfl, herror, .inr rfl⟩

/-- A copy that is cut behind its offset. -/
theorem decompress_reports_cut_copy :
    let world : World := { store := FileStore.start.make ⟨.given 2, ['a']⟩ (.file [1, 5, 0]) }
    let call : Call := ⟨.decompress, .int 1, "a", none, {}⟩
    (call.operation = .decompress ∧ call.choice (.plain id) = .ok .lzss ∧ call.NullFree ∧
      call.CanTakeBack (.plain id)) ∧
      ∃ r, (world.call (.plain id) call).1 = .ok r ∧ r.error = ErrorCode.truncated.number := by
  intro world call
  have hnull : call.NullFree := Call.nullFree_of_no_output (by decide) rfl
  have hfile : world.store.Has "a" (.file [1, 5, 0]) :=
    ⟨⟨.given 2, ['a']⟩, eq_ok_of_toOption (by decide +kernel), by decide +kernel⟩
  have hread : (Medium.plain id).read world.store "a" = .ok [1, 5, 0] :=
    Medium.read_of_has hnull.1 rfl hfile
  have hdecode : decodeWith .lzss "a" [1, 5, 0] = .error (.lzss (.cutCopy 1 2)) := rfl
  have hdecompress : call.operation = .decompress := rfl
  have hchoice : call.choice (.plain id) = .ok .lzss := rfl
  have htake : call.CanTakeBack (.plain id) := fun _ _ => rfl
  obtain ⟨r, code, hr, herror, hcode⟩ :=
    decompress_reports (.plain id) world hdecompress hchoice hnull htake
  simp only [call, hread, hdecode] at hcode
  obtain rfl : ErrorCode.truncated = code := Option.some.inj hcode.1
  exact ⟨⟨hdecompress, hchoice, hnull, htake⟩, r, hr, herror⟩

end Compression
