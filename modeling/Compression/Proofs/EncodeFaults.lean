import Compression.Proofs.BlockFile
import Compression.Proofs.CallAnswers
import Compression.Proofs.HeaderNumbers
import Compression.Proofs.HuffmanRoundTrip
import Compression.Proofs.LzssRoundTrip

namespace Compression

theorem huffmanEncode_fault {data : Bytes} {e : HuffmanError} (h : huffmanEncode data = .error e) :
    e.code? = some .inputError := by
  by_cases hlong : maxHuffmanSize < data.length
  · rw [huffmanEncode, if_pos hlong] at h
    cases h
    rfl
  · have hlen : data.length < 2 ^ 32 := by
      rw [maxHuffmanSize] at hlong
      omega
    by_cases hne : data = []
    · subst hne
      cases huffmanEncode_nil.symm.trans h
    · obtain ⟨a, t, hplanted⟩ := exists_planted (byteHistogram_ne_nil hne)
      obtain ⟨words, hwords⟩ := hplanted.exists_words (nodup_symbols_byteHistogram data)
        fun b hb => mem_symbols_byteHistogram hb
      obtain ⟨payload, hencode, _⟩ := huffmanEncode_of_planted hplanted hlen hwords
      cases hencode.symm.trans h

theorem luma_fault {α : Type} [TransformArithmetic α] {image : Image} {e : BlockImageError}
    (h : image.luma (α := α) = .error e) : e.code? = some .unsupportedInput := by
  simp only [Image.luma] at h
  split at h
  next => cases h
  next =>
    split at h
    next => cases h
    next => cases h; rfl

theorem encodeImageWith_fault {α : Type} [TransformArithmetic α] {image : Image}
    {e : BlockImageError} (h : encodeImageWith α image = .error e) :
    e.code? = some .unsupportedInput := by
  unfold encodeImageWith at h
  split at h
  next => cases h; rfl
  next hsmall =>
    cases hluma : image.luma (α := α) with
    | error fault =>
      simp only [hluma] at h
      obtain rfl := Except.error.inj h
      exact luma_fault hluma
    | ok luma =>
      have hwidth : image.width ≤ 65535 := by omega
      have hheight : image.height ≤ 65535 := by omega
      have hheader := blockHeader_eq hwidth hheight
      -- The header is taken out of sight, so that none of its bytes are worked out.
      generalize blockHeader image.width image.height = found at h hheader
      subst hheader
      simp only [hluma] at h
      cases h

/-- The image that a call finds in its input. -/
def imageIn (medium : Medium) (store : FileStore) (path : String) (blob : Bytes) :
    Except Failure Image :=
  if isNetpbm blob then
    match parseNetpbm blob with
    | .ok image => .ok image
    | .error e => .error (.netpbm e)
  else
    match medium.decode store path with
    | .ok image => .ok image
    | .error reason => .error (.foreignImage path reason)

/-- The block file that a call makes of its input. -/
def blockFileOf (medium : Medium) (store : FileStore) (path : String) (blob : Bytes) :
    Except Failure Bytes :=
  if blob.isEmpty then .error (.emptyImage path)
  else
    match imageIn medium store path blob with
    | .error e => .error e
    | .ok image =>
      match encodeImage image with
      | .ok data => .ok data
      | .error e => .error (.blockImage e)

section

variable {medium : Medium} {store : FileStore} {path : String} {blob : Bytes}

theorem readImage_run (medium : Medium) (path : String) (blob : Bytes) (world : World) :
    ∃ log, (readImage (World.hostOn medium) path blob).run world =
      (imageIn medium world.store path blob, ⟨world.store, log⟩) := by
  unfold readImage imageIn
  split
  next =>
    cases parseNetpbm blob with
    | ok image => exact ⟨world.log, rfl⟩
    | error e => exact ⟨world.log, rfl⟩
  next =>
    obtain ⟨log, hlog⟩ := (looksOnly_log medium
      ⟨.debug, imageSource, s!"Delegating {path} to Pillow"⟩).run world
    have hforeign : ((World.hostOn medium).foreignImage path).run ⟨world.store, log⟩ =
        (medium.decode world.store path, ⟨world.store, log⟩) := rfl
    refine ⟨log, (run_bind_of_run hlog).trans ((run_bind_of_run hforeign).trans ?_)⟩
    cases medium.decode world.store path with
    | ok image => rfl
    | error reason => rfl

theorem encodeImageFile_run (medium : Medium) (path : String) (blob : Bytes) (world : World) :
    ∃ log, (encodeImageFile (World.hostOn medium) path blob).run world =
      (blockFileOf medium world.store path blob, ⟨world.store, log⟩) := by
  obtain ⟨log, hread⟩ := readImage_run medium path blob world
  unfold encodeImageFile blockFileOf
  split
  next => exact ⟨world.log, rfl⟩
  next =>
    refine ⟨log, (run_bind_of_run hread).trans ?_⟩
    cases imageIn medium world.store path blob with
    | error e => rfl
    | ok image =>
      simp only
      cases encodeImage image with
      | ok data => rfl
      | error e => rfl

theorem code_dct_eq_blockFileOf {call : Call} (medium : Medium) (store : FileStore)
    (hcompress : call.operation = .compress) (blob : Bytes) :
    call.code medium store .dct blob = blockFileOf medium store call.path blob := by
  obtain ⟨log, hrun⟩ := encodeImageFile_run medium call.path blob { store := store }
  rw [Call.code, hcompress]
  exact congrArg Prod.fst hrun

theorem NetpbmError.code?_of_ne {e : NetpbmError} (h : e ≠ .numeralTooLong) :
    e.code? = some .unsupportedInput := by
  cases e with
  | numeralTooLong => exact absurd rfl h
  | _ => rfl

/-- A fault in a raw image is told as it is. -/
theorem blockFileOf_of_parse_error {e : NetpbmError} (hnetpbm : isNetpbm blob = true)
    (h : parseNetpbm blob = .error e) :
    blockFileOf medium store path blob = .error (.netpbm e) := by
  have hne : blob.isEmpty = false := by
    cases blob with
    | nil => cases hnetpbm
    | cons b rest => rfl
  simp only [blockFileOf, imageIn, hne, hnetpbm, h]
  rfl

theorem imageIn_fault {e : Failure} (h : imageIn medium store path blob = .error e)
    (hlong : parseNetpbm blob ≠ .error .numeralTooLong) : e.code? = some .unsupportedInput := by
  unfold imageIn at h
  split at h
  next =>
    cases hparse : parseNetpbm blob with
    | ok image => simp only [hparse] at h; cases h
    | error fault =>
      simp only [hparse] at h
      obtain rfl := Except.error.inj h
      exact NetpbmError.code?_of_ne fun he => hlong (he ▸ hparse)
  next =>
    cases hdecode : medium.decode store path with
    | ok image => simp only [hdecode] at h; cases h
    | error reason => simp only [hdecode] at h; cases h; rfl

theorem blockFileOf_fault {e : Failure} (h : blockFileOf medium store path blob = .error e)
    (hlong : parseNetpbm blob ≠ .error .numeralTooLong) :
    e.code? = some .inputError ∨ e.code? = some .unsupportedInput := by
  unfold blockFileOf at h
  split at h
  next => cases h; exact .inl rfl
  next =>
    cases himage : imageIn medium store path blob with
    | error fault =>
      simp only [himage] at h
      obtain rfl := Except.error.inj h
      exact .inr (imageIn_fault himage hlong)
    | ok image =>
      simp only [himage] at h
      split at h
      next => cases h
      next fault hfault => cases h; exact .inr (encodeImageWith_fault hfault)

end

namespace Call

variable {call : Call} {medium : Medium} {store : FileStore} {algorithm : Algorithm} {blob : Bytes}

theorem code_of_parse_error {e : NetpbmError} (hcompress : call.operation = .compress)
    (hnetpbm : isNetpbm blob = true) (h : parseNetpbm blob = .error e) :
    call.code medium store .dct blob = .error (.netpbm e) := by
  rw [code_dct_eq_blockFileOf medium store hcompress]
  exact blockFileOf_of_parse_error hnetpbm h

theorem code_fault {e : Failure} (hcompress : call.operation = .compress)
    (h : call.code medium store algorithm blob = .error e)
    (hlong : ¬ (algorithm = .dct ∧ parseNetpbm blob = .error .numeralTooLong)) :
    e.code? = some .inputError ∨ e.code? = some .unsupportedInput := by
  cases algorithm with
  | huffman =>
    simp only [code, hcompress, encodeWith] at h
    cases hencode : huffmanEncode blob with
    | ok packed => rw [hencode] at h; cases h
    | error fault => rw [hencode] at h; cases h; exact .inl (huffmanEncode_fault hencode)
  | lzss =>
    obtain ⟨_, stream, _, _, _, hencode⟩ := lzssEncode_eq_tokenStream call.config.lzss blob
    simp only [code, hcompress, encodeWith, hencode] at h
    cases h
  | dct =>
    rw [code_dct_eq_blockFileOf medium store hcompress] at h
    exact blockFileOf_fault h fun hnumber => hlong ⟨rfl, hnumber⟩

/-- A codec that fails is reported, and as told of an image whose header is at fault, unless a
number there is too long to be read or told. -/
theorem exists_code_of_fault {e : Failure} (hcompress : call.operation = .compress)
    (h : call.code medium store algorithm blob = .error e)
    (hlong : ¬ (algorithm = .dct ∧ parseNetpbm blob = .error .numeralTooLong)) :
    ∃ code, e.code? = some code ∧ (code = .inputError ∨ code = .unsupportedInput) ∧
      (algorithm = .dct → isNetpbm blob = true → ∀ fault, parseNetpbm blob = .error fault →
        code = .unsupportedInput) := by
  have hheader : algorithm = .dct → isNetpbm blob = true → ∀ fault,
      parseNetpbm blob = .error fault → e.code? = some .unsupportedInput := by
    rintro rfl hnetpbm fault hfault
    rw [code_of_parse_error hcompress hnetpbm hfault] at h
    obtain rfl := Except.error.inj h
    exact NetpbmError.code?_of_ne fun he => hlong ⟨rfl, he ▸ hfault⟩
  obtain hcode | hcode := code_fault hcompress h hlong
  · refine ⟨_, hcode, .inl rfl, fun hdct hnetpbm fault hfault => ?_⟩
    exact Option.some.inj (hcode.symm.trans (hheader hdct hnetpbm fault hfault))
  · exact ⟨_, hcode, .inr rfl, fun _ _ _ _ => rfl⟩

theorem Produces.parse_ne_error {data : Bytes} (h : call.Produces medium .dct store blob data)
    (hcompress : call.operation = .compress) (hnetpbm : isNetpbm blob = true) (e : NetpbmError) :
    parseNetpbm blob ≠ .error e := by
  intro hfault
  cases h.code_eq.symm.trans (code_of_parse_error hcompress hnetpbm hfault)

end Call

/-- Any file whatever is compressed, or the call reports what keeps it from being so, but for an
image with a number in its header that is too long to be read or told. -/
theorem compress_reports_but_long_numbers {call : Call} {algorithm : Algorithm} (medium : Medium)
    (world : World) (hcompress : call.operation = .compress)
    (hchoice : call.choice medium = .ok algorithm) (hnull : call.NullFree)
    (htake : call.CanTakeBack medium) :
    match medium.read world.store call.path with
    | .error _ =>
      ∃ r, (world.call medium call).1 = .ok r ∧ r.error = ErrorCode.inputError.number
    | .ok blob =>
      if algorithm = .dct ∧ parseNetpbm blob = .error .numeralTooLong then
        (world.call medium call).1 = .error (.netpbm .numeralTooLong) ∧
          maxNumeralLength < blob.length
      else
        ∃ r code, (world.call medium call).1 = .ok r ∧ r.error = code.number ∧
          code ∈ [ErrorCode.ok, .inputError, .outputError, .unsupportedInput] ∧
          (algorithm = .dct → isNetpbm blob = true → ∀ e, parseNetpbm blob = .error e →
            code = .unsupportedInput) := by
  have hanswers := call_answers medium world hchoice hnull htake
  generalize (world.call medium call).1 = answer at hanswers ⊢
  cases hread : medium.read world.store call.path with
  | error e =>
    cases hanswers with
    | unread _ herror => exact ⟨_, rfl, herror⟩
    | uncoded hread' => cases hread.symm.trans hread'
    | coded hproduces => cases hread.symm.trans hproduces.read_eq
  | ok blob =>
    simp only
    split
    next hlong =>
      obtain ⟨rfl, hnumber⟩ := hlong
      obtain ⟨hnetpbm, hlength⟩ := length_of_parseNetpbm_long hnumber
      exact ⟨hanswers.eq_report hread (Call.code_of_parse_error hcompress hnetpbm hnumber), hlength⟩
    next hlong =>
      cases hanswers with
      | unread hread' => cases hread.symm.trans hread'
      | @uncoded blob' e hread' hcode =>
        obtain rfl := Except.ok.inj (hread.symm.trans hread')
        obtain ⟨code, hcode?, hmem, hheader⟩ := Call.exists_code_of_fault hcompress hcode hlong
        refine ⟨{ bytesIn := blob.length, error := code.number }, code, ?_, rfl, ?_, hheader⟩
        · rw [Failure.report, hcode?]
        · obtain rfl | rfl := hmem <;> simp
      | coded hproduces herror =>
        obtain rfl := Except.ok.inj (hread.symm.trans hproduces.read_eq)
        have hheader : ∀ code : ErrorCode, algorithm = .dct → isNetpbm blob = true →
            ∀ e, parseNetpbm blob = .error e → code = .unsupportedInput := by
          rintro code rfl hnetpbm e hfault
          exact absurd hfault (hproduces.parse_ne_error hcompress hnetpbm e)
        obtain herror | herror := herror
        · exact ⟨_, .ok, rfl, herror, by simp, hheader _⟩
        · exact ⟨_, .outputError, rfl, herror, by simp, hheader _⟩

/-- An image without columns. -/
theorem compress_reports_no_columns :
    let blob := asciiBytes "P5 0 1 255 x".toList
    let world : World := { store := FileStore.start.make ⟨.given 2, ['a']⟩ (.file blob) }
    let call : Call := ⟨.compress, .int 2, "a", none, {}⟩
    (call.operation = .compress ∧ call.choice (.plain id) = .ok .dct ∧ call.NullFree ∧
      call.CanTakeBack (.plain id)) ∧ parseNetpbm blob = .error (.badSize 0 1) ∧
      ∃ r, (world.call (.plain id) call).1 = .ok r ∧
        r.error = ErrorCode.unsupportedInput.number := by
  intro blob world call
  have hcompress : call.operation = .compress := rfl
  have hchoice : call.choice (.plain id) = .ok .dct := rfl
  have hnull : call.NullFree := Call.nullFree_of_no_output (by decide) rfl
  have htake : call.CanTakeBack (.plain id) := fun _ _ => rfl
  have hfile : world.store.Has "a" (.file blob) :=
    ⟨⟨.given 2, ['a']⟩, eq_ok_of_toOption (by decide +kernel), rfl⟩
  have hread : (Medium.plain id).read world.store "a" = .ok blob :=
    Medium.read_of_has hnull.1 rfl hfile
  have hfault : parseNetpbm blob = .error (.badSize 0 1) := rfl
  have hreports :=
    compress_reports_but_long_numbers (.plain id) world hcompress hchoice hnull htake
  simp only [call, hread, hfault] at hreports
  rw [if_neg (by simp)] at hreports
  obtain ⟨r, code, hr, herror, _, hheader⟩ := hreports
  obtain rfl := hheader trivial rfl _ rfl
  exact ⟨⟨hcompress, hchoice, hnull, htake⟩, hfault, r, hr, herror⟩

/-- A header that writes zero with too many digits ends the call. -/
theorem compress_ends_at_long_zero :
    let blob := grayMagic ++ 0x20 :: (List.replicate 4301 0x30 ++ asciiBytes " 1 255 x".toList)
    let world : World := { store := FileStore.start.make ⟨.given 2, ['a']⟩ (.file blob) }
    let call : Call := ⟨.compress, .int 2, "a", none, {}⟩
    (call.operation = .compress ∧ call.choice (.plain id) = .ok .dct ∧ call.NullFree ∧
      call.CanTakeBack (.plain id)) ∧ world.store.Has "a" (.file blob) ∧ isNetpbm blob = true ∧
      (world.call (.plain id) call).1 = .error (.netpbm .numeralTooLong) := by
  intro blob world call
  have hcompress : call.operation = .compress := rfl
  have hchoice : call.choice (.plain id) = .ok .dct := rfl
  have hnull : call.NullFree := Call.nullFree_of_no_output (by decide) rfl
  have htake : call.CanTakeBack (.plain id) := fun _ _ => rfl
  have hfile : world.store.Has "a" (.file blob) :=
    ⟨⟨.given 2, ['a']⟩, eq_ok_of_toOption (by decide +kernel), rfl⟩
  have hread : (Medium.plain id).read world.store "a" = .ok blob :=
    Medium.read_of_has hnull.1 rfl hfile
  have hlong : parseNetpbm blob = .error .numeralTooLong := by
    refine parseNetpbm_of_long_width ?_ ?_ rfl
    · exact List.all_eq_true.mpr fun b hb => List.eq_of_mem_replicate hb ▸ rfl
    · rw [List.length_replicate]
      decide
  obtain ⟨hnetpbm, _⟩ := length_of_parseNetpbm_long hlong
  have hanswers := call_answers (.plain id) world hchoice hnull htake
  have hends := hanswers.eq_report hread (Call.code_of_parse_error hcompress hnetpbm hlong)
  exact ⟨⟨hcompress, hchoice, hnull, htake⟩, hfile, hnetpbm, hends⟩

end Compression
