import Compression.Proofs.NetpbmHeader
import Mathlib.Data.List.TakeWhile
import Mathlib.Data.Nat.Digits.Defs

namespace Compression

def blankBytes : Bytes := asciiBytes [' ', '\t', '\n', '\r', '\x0b', '\x0c']

def lineEndBytes : Bytes := asciiBytes ['\n', '\r']

def decimalBytes : Bytes := asciiBytes ['0', '1', '2', '3', '4', '5', '6', '7', '8', '9']

def commentByte : UInt8 := 0x23

/-- What may stand in front of a number: blanks, and comments up to the end of their line. -/
inductive IsGap : Bytes → Prop
  | nil : IsGap []
  | blank {b : UInt8} {gap : Bytes} (hb : b ∈ blankBytes) (hgap : IsGap gap) : IsGap (b :: gap)
  | comment {text gap : Bytes} {stop : UInt8} (htext : ∀ b ∈ text, b ∉ lineEndBytes)
      (hstop : stop ∈ lineEndBytes) (hgap : IsGap gap) :
      IsGap (commentByte :: (text ++ stop :: gap))

/-- A run of bytes is maximal in front of a blank, of a comment, and at the end. -/
def EndsRun (following : Bytes) : Prop :=
  ∀ b ∈ following.head?, b ∈ blankBytes ∨ b = commentByte

/-- The number that digits write in places of ten, the last digit in the place of ones. -/
def decimalValue (digits : Bytes) : Nat :=
  Nat.ofDigits 10 (digits.reverse.map fun b => b.toNat - 0x30)

structure HeaderNumber where
  gap : Bytes
  digits : Bytes
  isGap_gap : IsGap gap
  digits_ne_nil : digits ≠ []
  mem_decimalBytes : ∀ b ∈ digits, b ∈ decimalBytes
  length_digits : digits.length ≤ 4300

def HeaderNumber.bytes (number : HeaderNumber) : Bytes :=
  number.gap ++ number.digits

def HeaderNumber.value (number : HeaderNumber) : Nat :=
  decimalValue number.digits

/-- A raw image as it is written, and what follows it. -/
structure NetpbmText where
  isColor : Bool
  width : HeaderNumber
  height : HeaderNumber
  maxval : HeaderNumber
  blank : UInt8
  samples : Bytes
  rest : Bytes
  endsRun_height : EndsRun height.bytes
  endsRun_maxval : EndsRun maxval.bytes
  one_le_width : 1 ≤ width.value
  one_le_height : 1 ≤ height.value
  one_le_maxval : 1 ≤ maxval.value
  maxval_le : maxval.value ≤ 255
  mem_blankBytes : blank ∈ blankBytes
  length_samples : samples.length = width.value * height.value * if isColor then 3 else 1

def NetpbmText.magic (text : NetpbmText) : Bytes :=
  if text.isColor then asciiBytes ['P', '6'] else asciiBytes ['P', '5']

def NetpbmText.bytes (text : NetpbmText) : Bytes :=
  text.magic ++ (text.width.bytes ++ (text.height.bytes ++ (text.maxval.bytes ++
    text.blank :: (text.samples ++ text.rest))))

def NetpbmText.image (text : NetpbmText) : Image where
  width := text.width.value
  height := text.height.value
  channels := if text.isColor then 3 else 1
  samples := text.samples
  length_samples := text.length_samples

theorem isBlankByte_iff {b : UInt8} : isBlankByte b = true ↔ b ∈ blankBytes := by
  rw [isBlankByte, blankBytes, asciiBytes]
  grind

theorem isLineEndByte_iff {b : UInt8} : isLineEndByte b = true ↔ b ∈ lineEndBytes := by
  simp [isLineEndByte, lineEndBytes, asciiBytes]

theorem isCommentByte_iff {b : UInt8} : isCommentByte b = true ↔ b = commentByte :=
  decide_eq_true_iff

theorem isDigitByte_iff_mem {b : UInt8} : isDigitByte b = true ↔ b ∈ decimalBytes := by
  simp only [isDigitByte_iff, decimalBytes, asciiBytes, ↓Char.isValue, List.map_cons,
    Char.reduceToNat, UInt8.reduceOfNat, List.map_nil, List.mem_cons, List.not_mem_nil, or_false,
    UInt8.ext_iff, UInt8.reduceToNat]
  omega

theorem isTokenByte_eq_false_iff {b : UInt8} :
    isTokenByte b = false ↔ b ∈ blankBytes ∨ b = commentByte := by
  rw [← isBlankByte_iff, ← isCommentByte_iff, isTokenByte, Bool.and_eq_false_iff,
    Bool.not_eq_false', Bool.not_eq_false']

theorem endsRun_iff {following : Bytes} :
    EndsRun following ↔ following.takeWhile isTokenByte = [] := by
  cases following with
  | nil => simp [EndsRun]
  | cons b following =>
    simp only [EndsRun, List.head?_cons, Option.mem_some_iff, forall_eq',
      ← isTokenByte_eq_false_iff]
    cases hb : isTokenByte b <;> simp [hb]

theorem endsRun_append {following : Bytes} (h : following ≠ []) (rest : Bytes) :
    EndsRun (following ++ rest) ↔ EndsRun following := by
  obtain ⟨b, behind, rfl⟩ := List.exists_cons_of_ne_nil h
  exact Iff.rfl

theorem endsRun_dropWhile (data : Bytes) : EndsRun (data.dropWhile isTokenByte) := by
  rw [endsRun_iff, List.takeWhile_eq_nil_iff]
  exact fun hl => List.dropWhile_get_zero_not isTokenByte data hl

theorem endsRun_cons_of_blank {blank : UInt8} (h : blank ∈ blankBytes) (rest : Bytes) :
    EndsRun (blank :: rest) := by
  intro b hb
  obtain rfl := Option.mem_some_iff.mp hb
  exact .inl h

theorem digitsValue_eq_decimalValue (digits : Bytes) :
    digitsValue digits = decimalValue digits := by
  induction digits using List.reverseRecOn with
  | nil => rfl
  | append_singleton digits b ih =>
    rw [digitsValue_concat, ih, decimalValue, decimalValue, List.reverse_append,
      List.reverse_singleton, List.singleton_append, List.map_cons, Nat.ofDigits_cons]
    exact Nat.add_comm _ _

theorem skipBlanks_comment {text : Bytes} (h : ∀ b ∈ text, b ∉ lineEndBytes) {stop : UInt8}
    (hstop : stop ∈ lineEndBytes) (rest : Bytes) :
    skipBlanks true (text ++ stop :: rest) = skipBlanks false rest := by
  induction text with
  | nil => simp [skipBlanks, isLineEndByte_iff.mpr hstop]
  | cons b text ih =>
    have hb : isLineEndByte b = false := by
      simpa [← isLineEndByte_iff] using h b List.mem_cons_self
    simpa [skipBlanks, hb] using ih fun c hc => h c (List.mem_cons_of_mem b hc)

theorem skipBlanks_gap {gap : Bytes} (h : IsGap gap) (rest : Bytes) :
    skipBlanks false (gap ++ rest) = skipBlanks false rest := by
  induction h with
  | nil => rfl
  | @blank b gap hb _ ih =>
    have hblank := isBlankByte_iff.mpr hb
    have hcomment := isCommentByte_of_isBlankByte hblank
    simpa [skipBlanks, hblank, hcomment] using ih
  | @comment text gap stop htext hstop _ ih =>
    have hsign : isCommentByte commentByte = true := rfl
    rw [List.cons_append, List.append_assoc, List.cons_append]
    simpa [skipBlanks, hsign] using (skipBlanks_comment htext hstop (gap ++ rest)).trans ih

theorem IsGap.comment_cons {b : UInt8} {gap : Bytes} (hb : b ∉ lineEndBytes)
    (h : IsGap (commentByte :: gap)) : IsGap (commentByte :: b :: gap) := by
  cases h with
  | blank hblank => exact absurd hblank (by decide)
  | @comment text rest stop htext hstop hgap =>
    rw [← List.cons_append]
    exact .comment (List.forall_mem_cons.mpr ⟨hb, htext⟩) hstop hgap

/-- What is skipped is a gap, unless a comment goes on to the end. -/
theorem exists_gap {inComment : Bool} {data : Bytes} (h : skipBlanks inComment data ≠ []) :
    ∃ gap, IsGap (if inComment then commentByte :: gap else gap) ∧
      data = gap ++ skipBlanks inComment data := by
  fun_induction skipBlanks inComment data with
  | case1 => exact absurd rfl h
  | case2 b data ih =>
    -- A byte of a comment: up to here only the sign and the bytes together are a gap.
    obtain ⟨gap, hgap, hdata⟩ := ih h
    refine ⟨b :: gap, ?_, by rw [List.cons_append, ← hdata]⟩
    cases hb : isLineEndByte b with
    | true =>
      rw [hb] at hgap
      have hnone : ∀ c ∈ ([] : Bytes), c ∉ lineEndBytes := fun c hc => absurd hc List.not_mem_nil
      exact .comment hnone (isLineEndByte_iff.mp hb) hgap
    | false =>
      rw [hb] at hgap
      have hmem : b ∉ lineEndBytes := by simpa [← isLineEndByte_iff] using hb
      exact .comment_cons hmem hgap
  | case3 inComment b data hcomment hsign ih =>
    obtain ⟨gap, hgap, hdata⟩ := ih h
    obtain rfl := isCommentByte_iff.mp hsign
    refine ⟨commentByte :: gap, ?_, by rw [List.cons_append, ← hdata]⟩
    rw [if_neg hcomment]
    exact hgap
  | case4 inComment b data hcomment hsign hblank ih =>
    obtain ⟨gap, hgap, hdata⟩ := ih h
    refine ⟨b :: gap, ?_, by rw [List.cons_append, ← hdata]⟩
    rw [if_neg hcomment]
    exact .blank (isBlankByte_iff.mp hblank) hgap
  | case5 inComment b data hcomment =>
    refine ⟨[], ?_, rfl⟩
    rw [if_neg hcomment]
    exact .nil

/-- A token stands behind a gap and goes up to the first byte that is not of its kind. -/
theorem nextToken_eq_ok_iff {data token rest : Bytes} :
    nextToken data = .ok (token, rest) ↔ token ≠ [] ∧ (∀ b ∈ token, isTokenByte b = true) ∧
      EndsRun rest ∧ ∃ gap, IsGap gap ∧ data = gap ++ (token ++ rest) := by
  constructor
  · intro h
    simp only [nextToken] at h
    split at h
    next => cases h
    next hempty =>
      cases h
      have hne : (skipBlanks false data).takeWhile isTokenByte ≠ [] := by simpa using hempty
      have hsplit := List.takeWhile_append_dropWhile (p := isTokenByte) (l := skipBlanks false data)
      have hdrop := List.prefix_iff_eq_append.mp (List.takeWhile_prefix isTokenByte
        (l := skipBlanks false data))
      have hrest := List.append_cancel_left (hdrop.trans hsplit.symm)
      have hskip : skipBlanks false data ≠ [] := by
        intro hnil
        rw [hnil] at hne
        exact hne rfl
      obtain ⟨gap, hgap, hdata⟩ := exists_gap hskip
      refine ⟨hne, fun b hb => List.mem_takeWhile_imp hb, ?_, gap, hgap, ?_⟩
      · rw [hrest]
        exact endsRun_dropWhile _
      · rw [hdrop]
        exact hdata
  · rintro ⟨hne, htoken, hrest, gap, hgap, rfl⟩
    have hread := nextToken_append hne htoken (endsRun_iff.mp hrest)
    simp only [nextToken, skipBlanks_gap hgap] at hread ⊢
    exact hread

theorem HeaderNumber.all_isDigitByte (number : HeaderNumber) :
    number.digits.all isDigitByte = true :=
  List.all_eq_true.mpr fun b hb => isDigitByte_iff_mem.mpr (number.mem_decimalBytes b hb)

theorem nextToken_bytes (number : HeaderNumber) {rest : Bytes} (hrest : EndsRun rest) :
    nextToken (number.bytes ++ rest) = .ok (number.digits, rest) := by
  refine nextToken_eq_ok_iff.mpr ⟨number.digits_ne_nil, fun b hb => ?_, hrest, number.gap,
    number.isGap_gap, List.append_assoc _ _ _⟩
  exact isTokenByte_of_isDigitByte (List.all_eq_true.mp number.all_isDigitByte b hb)

theorem nextNumber_bytes (field : NetpbmField) (number : HeaderNumber) {rest : Bytes}
    (hrest : EndsRun rest) :
    nextNumber field (number.bytes ++ rest) = .ok (number.value, rest) := by
  have htoken := nextToken_bytes number hrest
  have hlength : ¬ maxNumeralLength < number.digits.length :=
    Nat.not_lt.mpr number.length_digits
  simp only [nextNumber, htoken, number.all_isDigitByte, hlength, if_false]
  rw [HeaderNumber.value, ← digitsValue_eq_decimalValue]
  rfl

theorem exists_headerNumber {field : NetpbmField} {data rest : Bytes} {n : Nat}
    (h : nextNumber field data = .ok (n, rest)) :
    ∃ number : HeaderNumber, data = number.bytes ++ rest ∧ EndsRun rest ∧ number.value = n := by
  unfold nextNumber at h
  cases htoken : nextToken data with
  | error e => rw [htoken] at h; cases h
  | ok next =>
    obtain ⟨token, rest'⟩ := next
    obtain ⟨hne, _, hrest, gap, hgap, hdata⟩ := nextToken_eq_ok_iff.mp htoken
    simp only [htoken] at h
    split at h
    next => cases h
    next hdigits =>
      split at h
      next => cases h
      next hlength =>
        cases h
        have hdecimal : ∀ b ∈ token, b ∈ decimalBytes := by
          simpa [← isDigitByte_iff_mem] using hdigits
        refine ⟨⟨gap, token, hgap, hne, hdecimal, Nat.le_of_not_lt hlength⟩, ?_, hrest,
          (digitsValue_eq_decimalValue token).symm⟩
        rw [HeaderNumber.bytes, List.append_assoc]
        exact hdata

theorem HeaderNumber.bytes_ne_nil (number : HeaderNumber) : number.bytes ≠ [] := by
  intro h
  exact number.digits_ne_nil (List.append_eq_nil_iff.mp h).2

theorem readSamples_eq_ok_iff {width height channels : Nat} {data : Bytes} {image : Image} :
    readSamples width height channels data = .ok image ↔
      ∃ (blank : UInt8) (samples rest : Bytes)
        (hlength : samples.length = width * height * channels),
        blank ∈ blankBytes ∧ data = blank :: (samples ++ rest) ∧
          image = ⟨width, height, channels, samples, hlength⟩ := by
  constructor
  · intro h
    cases data with
    | nil => cases h
    | cons blank behind =>
      simp only [readSamples] at h
      split at h
      next => cases h
      next hblank =>
        split at h
        next => split at h <;> cases h
        next =>
          cases h
          refine ⟨blank, _, behind.drop (width * height * channels), _, ?_, ?_, rfl⟩
          · simpa [← isBlankByte_iff] using hblank
          · rw [List.take_append_drop]
  · rintro ⟨blank, samples, rest, hlength, hblank, rfl, rfl⟩
    exact readSamples_append (isBlankByte_iff.mpr hblank) hlength rest

theorem channelsOf_eq_some_iff {magic : Bytes} {channels : Nat} :
    channelsOf magic = some channels ↔ ∃ isColor : Bool,
      magic = (if isColor then colorMagic else grayMagic) ∧
        channels = if isColor then 3 else 1 := by
  rw [Bool.exists_bool]
  unfold channelsOf
  constructor
  · intro h
    split at h
    next hgray => exact .inl ⟨hgray, (Option.some.inj h).symm⟩
    next =>
      split at h
      next hcolor => exact .inr ⟨hcolor, (Option.some.inj h).symm⟩
      next => cases h
  · rintro (⟨rfl, rfl⟩ | ⟨rfl, rfl⟩) <;> rfl

theorem NetpbmText.length_magic (text : NetpbmText) : text.magic.length = 2 := by
  unfold NetpbmText.magic
  split <;> rfl

theorem parseNetpbm_bytes (text : NetpbmText) : parseNetpbm text.bytes = .ok text.image := by
  have hchannels : channelsOf text.magic = some text.image.channels :=
    channelsOf_eq_some_iff.mpr ⟨text.isColor, rfl, rfl⟩
  have hlength := text.length_magic
  have hwidth (rest : Bytes) := nextNumber_bytes .width text.width
    ((endsRun_append text.height.bytes_ne_nil rest).mpr text.endsRun_height)
  have hheight (rest : Bytes) := nextNumber_bytes .height text.height
    ((endsRun_append text.maxval.bytes_ne_nil rest).mpr text.endsRun_maxval)
  have hmaxval := nextNumber_bytes .maxval text.maxval
    (endsRun_cons_of_blank text.mem_blankBytes (text.samples ++ text.rest))
  have hsamples := readSamples_eq_ok_iff.mpr ⟨text.blank, text.samples, text.rest,
    text.length_samples, text.mem_blankBytes, rfl, rfl⟩
  have hwidthOne := text.one_le_width
  have hheightOne := text.one_le_height
  have hmaxvalOne := text.one_le_maxval
  have hmaxvalLe := text.maxval_le
  rw [NetpbmText.bytes, parseNetpbm, List.take_left' hlength, List.drop_left' hlength]
  simp only [hchannels, hwidth, hheight, hmaxval, bind, Except.bind]
  rw [if_neg (by omega), if_neg (by omega)]
  exact hsamples

theorem exists_netpbmText {blob : Bytes} {image : Image} (h : parseNetpbm blob = .ok image) :
    ∃ text : NetpbmText, text.bytes = blob ∧ text.image = image := by
  unfold parseNetpbm at h
  cases hchannels : channelsOf (blob.take 2) with
  | none => simp only [hchannels] at h; cases h
  | some channels =>
    simp only [hchannels] at h
    obtain ⟨isColor, hmagic, rfl⟩ := channelsOf_eq_some_iff.mp hchannels
    obtain ⟨⟨_, afterWidth⟩, hwidth, h⟩ := bind_eq_ok_iff.mp h
    obtain ⟨width, hwidthBytes, hwidthEnd, rfl⟩ := exists_headerNumber hwidth
    simp only at h
    obtain ⟨⟨_, afterHeight⟩, hheight, h⟩ := bind_eq_ok_iff.mp h
    obtain ⟨height, rfl, hheightEnd, rfl⟩ := exists_headerNumber hheight
    simp only at h
    obtain ⟨⟨_, afterMaxval⟩, hmaxval, h⟩ := bind_eq_ok_iff.mp h
    obtain ⟨maxval, rfl, _, rfl⟩ := exists_headerNumber hmaxval
    simp only at h
    split at h
    next => cases h
    next hsize =>
      split at h
      next => cases h
      next hrange =>
        obtain ⟨blank, samples, rest, hlength, hblank, rfl, rfl⟩ := readSamples_eq_ok_iff.mp h
        refine ⟨⟨isColor, width, height, maxval, blank, samples, rest,
          (endsRun_append height.bytes_ne_nil _).mp hwidthEnd,
          (endsRun_append maxval.bytes_ne_nil _).mp hheightEnd,
          by omega, by omega, by omega, by omega, hblank, hlength⟩, ?_, rfl⟩
        calc
          _ = blob.take 2 ++ blob.drop 2 := by rw [hmagic, hwidthBytes]; rfl
          _ = blob := List.take_append_drop 2 blob

theorem HeaderNumber.eq_of_append_eq {number number' : HeaderNumber} {rest rest' : Bytes}
    (hrest : EndsRun rest) (hrest' : EndsRun rest')
    (h : number.bytes ++ rest = number'.bytes ++ rest') : number = number' ∧ rest = rest' := by
  -- Both are read from the same bytes, so the digits agree, and from behind so does the gap.
  have hread := (nextToken_bytes number hrest).symm.trans (h ▸ nextToken_bytes number' hrest')
  obtain ⟨hdigits, rfl⟩ := Prod.mk.inj (Except.ok.inj hread)
  have hbytes := List.append_cancel_right h
  obtain ⟨gap, digits, _⟩ := number
  obtain ⟨gap', digits', _⟩ := number'
  obtain rfl : digits = digits' := hdigits
  obtain rfl : gap = gap' := List.append_cancel_right hbytes
  exact ⟨rfl, rfl⟩

theorem NetpbmText.isColor_eq (text : NetpbmText) :
    text.isColor = decide (text.magic = colorMagic) := by
  unfold NetpbmText.magic
  cases text.isColor <;> rfl

theorem NetpbmText.bytes_injective : Function.Injective NetpbmText.bytes := by
  intro text text' h
  have hends (number : HeaderNumber) (h : EndsRun number.bytes) (rest : Bytes) :=
    (endsRun_append number.bytes_ne_nil rest).mpr h
  have hmagic : text.magic.length = text'.magic.length := by
    rw [length_magic, length_magic]
  obtain ⟨hmagic, h⟩ := List.append_inj h hmagic
  have hcolor : text.isColor = text'.isColor := by
    rw [isColor_eq, isColor_eq, hmagic]
  obtain ⟨hwidth, h⟩ := HeaderNumber.eq_of_append_eq (hends text.height text.endsRun_height _)
    (hends text'.height text'.endsRun_height _) h
  obtain ⟨hheight, h⟩ := HeaderNumber.eq_of_append_eq (hends text.maxval text.endsRun_maxval _)
    (hends text'.maxval text'.endsRun_maxval _) h
  obtain ⟨hmaxval, h⟩ := HeaderNumber.eq_of_append_eq
    (endsRun_cons_of_blank text.mem_blankBytes _) (endsRun_cons_of_blank text'.mem_blankBytes _) h
  obtain ⟨hblank, h⟩ := List.cons.inj h
  -- The samples need no end of their own: the numbers before them say how many there are.
  have hlength : text.samples.length = text'.samples.length := by
    rw [text.length_samples, text'.length_samples, hwidth, hheight, hcolor]
  obtain ⟨hsamples, hrest⟩ := List.append_inj h hlength
  obtain ⟨isColor, width, height, maxval, blank, samples, rest, _⟩ := text
  obtain ⟨isColor', width', height', maxval', blank', samples', rest', _⟩ := text'
  simp only at hcolor hwidth hheight hmaxval hblank hsamples hrest
  subst hcolor hwidth hheight hmaxval hblank hsamples hrest
  rfl

/-- A file is read as an image if the image is written at its beginning, in one way. -/
theorem parseNetpbm_eq_ok_iff (blob : Bytes) (image : Image) :
    parseNetpbm blob = .ok image ↔
      ∃! text : NetpbmText, text.bytes = blob ∧ text.image = image := by
  constructor
  · intro h
    obtain ⟨text, hbytes, himage⟩ := exists_netpbmText h
    refine ⟨text, ⟨hbytes, himage⟩, fun other hother => ?_⟩
    exact NetpbmText.bytes_injective (hother.1.trans hbytes.symm)
  · rintro ⟨text, ⟨rfl, rfl⟩, _⟩
    exact parseNetpbm_bytes text

/-- A comment ends a number, and what follows the samples is left. -/
example : parseNetpbm (asciiBytes ['P', '5', '#', '9', '\r', '2', '#', 'x', '\n', '1', '\t', '2',
    '5', '5', '\n', '#', ' ', '!']) = .ok ⟨2, 1, 1, asciiBytes ['#', ' '], rfl⟩ := rfl

def writtenNumber (blank : UInt8) (n : Nat) (hblank : blank ∈ blankBytes)
    (h : n < 10 ^ maxNumeralLength) : HeaderNumber where
  gap := [blank]
  digits := digitBytes n
  isGap_gap := .blank hblank .nil
  digits_ne_nil := digitBytes_ne_nil n
  mem_decimalBytes b hb :=
    isDigitByte_iff_mem.mp (List.all_eq_true.mp (all_isDigitByte_digitBytes n) b hb)
  length_digits := by
    have hlength := length_digitBytes_le (show 0 < maxNumeralLength by decide) h
    exact hlength

theorem writtenNumber_value {blank : UInt8} {n : Nat} (hblank : blank ∈ blankBytes)
    (h : n < 10 ^ maxNumeralLength) : (writtenNumber blank n hblank h).value = n :=
  (digitsValue_eq_decimalValue (digitBytes n)).symm.trans (digitsValue_digitBytes n)

/-- What is written for an image is a text of it that ends with its last sample. -/
theorem exists_writtenText {image : Image} (isColor : Bool)
    (hchannels : image.channels = if isColor then 3 else 1) (hwidth : 1 ≤ image.width)
    (hheight : 1 ≤ image.height) (hwidthLt : image.width < 10 ^ maxNumeralLength)
    (hheightLt : image.height < 10 ^ maxNumeralLength) :
    ∃ text : NetpbmText, text.rest = [] ∧ text.image = image ∧
      text.bytes = netpbmHeader (if isColor then colorMagic else grayMagic) image.width
        image.height ++ image.samples := by
  have hline : (0x0a : UInt8) ∈ blankBytes := by decide
  have hspace : (0x20 : UInt8) ∈ blankBytes := by decide
  have hmaxvalLt : 255 < 10 ^ maxNumeralLength := by
    have hthree : 3 ≤ maxNumeralLength := by decide
    exact Nat.lt_of_lt_of_le (by decide) (Nat.pow_le_pow_right (by omega) hthree)
  have hwidthValue := writtenNumber_value hline hwidthLt
  have hheightValue := writtenNumber_value hspace hheightLt
  have hmaxvalValue := writtenNumber_value hline hmaxvalLt
  refine ⟨{
    isColor := isColor
    width := writtenNumber 0x0a image.width hline hwidthLt
    height := writtenNumber 0x20 image.height hspace hheightLt
    maxval := writtenNumber 0x0a 255 hline hmaxvalLt
    blank := 0x0a
    samples := image.samples
    rest := []
    endsRun_height := endsRun_cons_of_blank hspace _
    endsRun_maxval := endsRun_cons_of_blank hline _
    one_le_width := by omega
    one_le_height := by omega
    one_le_maxval := by omega
    maxval_le := by omega
    mem_blankBytes := hline
    length_samples := by
      rw [hwidthValue, hheightValue, ← hchannels]
      exact image.length_samples }, rfl, ?_, ?_⟩
  · obtain ⟨width, height, channels, samples, hlength⟩ := image
    simp only at hchannels hwidthValue hheightValue
    simp only [NetpbmText.image, hwidthValue, hheightValue, ← hchannels]
  · simp [NetpbmText.bytes, NetpbmText.magic, HeaderNumber.bytes, writtenNumber, netpbmHeader,
      asciiBytes, colorMagic, grayMagic]

end Compression
