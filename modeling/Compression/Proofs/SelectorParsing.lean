import Compression.Algorithm
import Compression.Proofs.WrittenDigits

namespace Compression

theorem Algorithm.ofName?_eq_some_iff {name : String} {a : Algorithm} :
    Algorithm.ofName? name = some a ↔ a.name = name := by
  unfold Algorithm.ofName?
  constructor
  · intro h
    simpa using List.find?_some h
  · rintro rfl
    cases a <;> decide

theorem Algorithm.ofNumber?_eq_some_iff {n : Int} {a : Algorithm} :
    Algorithm.ofNumber? n = some a ↔ a.number = n := by
  unfold Algorithm.ofNumber?
  constructor
  · intro h
    simpa using List.find?_some h
  · rintro rfl
    cases a <;> decide

section

variable {c : Char} {cs : List Char}

/-! ### Capitals -/

theorem capitals_of_isDigit (h : isDigit c = true) : capitals c = [c] := by
  have hlatin : ∀ n < 0x80, isDigit (Char.ofNat n) = true →
      (Char.ofNat n).toUpper = Char.ofNat n := by
    decide +kernel
  have hbeyond : ∀ p ∈ latinCapitals, isDigit (Char.ofNat p.1) = false := by
    decide +kernel
  unfold capitals
  split
  next hlow =>
    have hupper := hlatin c.toNat hlow
    rw [Char.ofNat_toNat] at hupper
    rw [hupper h]
  next =>
    cases hlookup : latinCapitals.lookup c.toNat with
    | none => rfl
    | some letters =>
      obtain ⟨front, back, heq, _⟩ := List.lookup_eq_some_iff.mp hlookup
      have hletter := hbeyond (c.toNat, letters) (by rw [heq]; simp)
      rw [Char.ofNat_toNat, h] at hletter
      cases hletter

theorem exists_mem_capitals (h : isDigit c = false) : ∃ l ∈ capitals c, isDigit l = false := by
  have hlatin : ∀ n < 0x80, isDigit (Char.ofNat n) = false →
      isDigit (Char.ofNat n).toUpper = false := by
    decide +kernel
  have hbeyond : ∀ p ∈ latinCapitals, p.2.all isDigit = false := by
    decide +kernel
  unfold capitals
  split
  next hlow =>
    have hupper := hlatin c.toNat hlow
    rw [Char.ofNat_toNat] at hupper
    exact ⟨_, List.mem_singleton.mpr rfl, hupper h⟩
  next =>
    cases hlookup : latinCapitals.lookup c.toNat with
    | none => exact ⟨c, List.mem_singleton.mpr rfl, h⟩
    | some letters =>
      obtain ⟨front, back, heq, _⟩ := List.lookup_eq_some_iff.mp hlookup
      have hletters := hbeyond (c.toNat, letters) (by rw [heq]; simp)
      simpa using List.all_eq_false.mp hletters

theorem flatMap_capitals_of_digits (h : ∀ c ∈ cs, isDigit c = true) :
    cs.flatMap capitals = cs := by
  induction cs with
  | nil => rfl
  | cons c cs ih =>
    rw [List.flatMap_cons, capitals_of_isDigit (h c List.mem_cons_self),
      ih fun d hd => h d (List.mem_cons_of_mem c hd)]
    rfl

/-- Capitals are all digits just where what they stand for is. -/
theorem all_isDigit_capitals (cs : List Char) :
    (∀ c ∈ cs.flatMap capitals, isDigit c = true) ↔ ∀ c ∈ cs, isDigit c = true := by
  constructor
  · intro h c hc
    by_contra hdigit
    obtain ⟨l, hl, hletter⟩ := exists_mem_capitals (Bool.eq_false_iff.mpr hdigit)
    have := h l (List.mem_flatMap.mpr ⟨c, hc, hl⟩)
    rw [hletter] at this
    cases this
  · intro h
    rwa [flatMap_capitals_of_digits h]

theorem not_all_isDigit_name (a : Algorithm) : a.name.toList.all isDigit = false := by
  cases a <;> decide +kernel

theorem codePoint_of_char? {p : CodePoint} (h : char? p = some c) : codePoint c = p := by
  unfold char? at h
  by_cases hvalid : p.val.isValidChar
  · rw [dif_pos hvalid] at h
    obtain rfl := Option.some.inj h
    rfl
  · rw [dif_neg hvalid] at h
    cases h

theorem textOf_of_string? {t : Text} {word : String} (h : string? t = some word) :
    textOf word = t := by
  obtain ⟨cs, hcs, rfl⟩ := Option.map_eq_some_iff.mp h
  rw [textOf, String.toList_ofList]
  clear h
  induction t generalizing cs with
  | nil =>
    cases hcs
    rfl
  | cons p t ih =>
    rw [List.mapM_cons] at hcs
    obtain ⟨c, hc, hrest⟩ := Option.bind_eq_some_iff.mp hcs
    obtain ⟨rest, hmap, heq⟩ := Option.bind_eq_some_iff.mp hrest
    obtain rfl := Option.some.inj heq
    rw [List.map_cons, ih rest hmap, codePoint_of_char? hc]

end

/-! ### Selectors -/

/-- What stands between the white space at the ends of a text selector. -/
def Value.trimmed? : Value → Option (List Char)
  | .text t => (string? t).map fun word => trimBlanks word.toList
  | _ => none

/-- The number that the digits of a text selector write, or that another selector equals. -/
def Value.number? (selector : Value) : Option Int :=
  match selector.trimmed? with
  | some cs => (numeral? cs).map fun n : Nat => (n : Int)
  | none => selector.whole?

/-- A selector that leads to an algorithm by its name, in letters of either case, or by its
number. -/
def Value.Selects (selector : Value) (a : Algorithm) : Prop :=
  (∃ cs, selector.trimmed? = some cs ∧ cs.flatMap capitals = a.name.toList) ∨
    selector.number? = some a.number

/-- Text that is all digits, of which one does not stand in places of ten, or too many. -/
def Value.DigitsWithoutNumber (selector : Value) : Prop :=
  ∃ cs, selector.trimmed? = some cs ∧ cs ≠ [] ∧ (∀ c ∈ cs, isDigit c = true) ∧
    (maxNumeralLength < cs.length ∨ ∃ c ∈ cs, decimalDigit? c = none)

/-- What is reported of a selector: the number of its digits, else the selector. -/
def Value.reported (selector : Value) : Value :=
  match selector.trimmed?.bind numeral? with
  | some n => .int n
  | none => selector

variable {selector : Value} {a : Algorithm} {room : Nat}

theorem algorithmOfWord_of_name {word : String} (h : selectorName word = a.name.toList) :
    algorithmOfWord room word = .ok a := by
  have hname : Algorithm.ofName? (String.ofList (selectorName word)) = some a :=
    Algorithm.ofName?_eq_some_iff.mpr (by rw [h, String.ofList_toList])
  unfold algorithmOfWord
  dsimp only
  rw [hname]

section

variable {word : String} {cs : List Char}

theorem algorithmOfWord_of_no_name (hname : ∀ a : Algorithm, selectorName word ≠ a.name.toList)
    (hcs : trimBlanks word.toList = cs) (hdigits : ¬ (cs ≠ [] ∧ ∀ c ∈ cs, isDigit c = true)) :
    algorithmOfWord room word = .error (.unknown (.text (textOf word))) := by
  have hnone : Algorithm.ofName? (String.ofList (selectorName word)) = none := by
    refine Option.eq_none_iff_forall_ne_some.mpr fun a ha => hname a ?_
    rw [Algorithm.ofName?_eq_some_iff.mp ha, String.toList_ofList]
  have hother : ¬ (!(selectorName word).isEmpty && (selectorName word).all isDigit) = true := by
    rw [selectorName, hcs, Bool.and_eq_true, List.all_eq_true, all_isDigit_capitals]
    rintro ⟨hne, hall⟩
    rw [flatMap_capitals_of_digits hall] at hne
    exact hdigits ⟨by simpa using hne, hall⟩
  simp only [algorithmOfWord, hnone, if_neg hother]

theorem not_name_of_digits (h : ∀ c ∈ cs, isDigit c = true) (a : Algorithm) :
    cs.flatMap capitals ≠ a.name.toList := by
  intro hname
  have hletters := not_all_isDigit_name a
  rw [← hname, flatMap_capitals_of_digits h, List.all_eq_true.mpr h] at hletters
  cases hletters

/-- A word of digits is read as a number. -/
theorem algorithmOfWord_of_digits (hcs : trimBlanks word.toList = cs) (hne : cs ≠ [])
    (h : ∀ c ∈ cs, isDigit c = true) :
    (∀ n, wholeOfText 10 (cs.map codePoint) = .ok n →
        algorithmOfWord room word = algorithmOfNumber room n) ∧
      ∀ e, wholeOfText 10 (cs.map codePoint) = .error e →
        algorithmOfWord room word = .error (.badNumber e) := by
  have hname : selectorName word = cs := by
    rw [selectorName, hcs, flatMap_capitals_of_digits h]
  have hnone : Algorithm.ofName? (String.ofList cs) = none := by
    refine Option.eq_none_iff_forall_ne_some.mpr fun a ha => not_name_of_digits h a ?_
    rw [flatMap_capitals_of_digits h, Algorithm.ofName?_eq_some_iff.mp ha, String.toList_ofList]
  have hall : (!cs.isEmpty && cs.all isDigit) = true := by
    simpa [hne] using h
  refine ⟨fun n hn => ?_, fun e he => ?_⟩
  · simp only [algorithmOfWord, hname, hnone, if_pos hall, hn]
  · simp only [algorithmOfWord, hname, hnone, if_pos hall, he]

theorem algorithmOfWord_of_numeral {n : Nat} (hcs : trimBlanks word.toList = cs)
    (h : numeral? cs = some n) : algorithmOfWord room word = algorithmOfNumber room n := by
  have hne := (numeral?_eq_some_iff.mp h).1
  have hdigits : ∀ c ∈ cs, isDigit c = true := fun c hc => isDigit_of_numeral h hc
  obtain ⟨m, hm, hread⟩ | ⟨hbad, _⟩ := wholeOfText_digits hdigits hne
  · obtain rfl := Option.some.inj (h.symm.trans hm)
    exact (algorithmOfWord_of_digits hcs hne hdigits).1 n hread
  · exact absurd hbad (not_bad_of_numeral h)

theorem algorithmOfNumber_of_some {n : Int} (h : Algorithm.ofNumber? n = some a) :
    algorithmOfNumber room n = .ok a := by
  simp only [algorithmOfNumber, h]

theorem algorithmOfNumber_of_none {n : Int} (h : Algorithm.ofNumber? n = none)
    (hn : isWritable n = true) : algorithmOfNumber room n = .error (.unknown (.int n)) := by
  have hshown : (Value.int n).unshowable? room = none := by
    rw [Value.unshowable?, hn]
    rfl
  simp only [algorithmOfNumber, h, reportSelector, hshown]

end

theorem parse_word {t : Text} {word : String} (h : string? t = some word) :
    Algorithm.parse room (.text t) = algorithmOfWord room word := by
  simp only [Algorithm.parse, h]

/-- What is not text, or holds surrogates, is taken for the number that it equals. -/
theorem parse_of_untrimmed (h : selector.trimmed? = none) :
    Algorithm.parse room selector =
      match selector.whole?.bind Algorithm.ofNumber? with
      | some a => .ok a
      | none => .error (reportSelector room selector) := by
  cases selector with
  | text t =>
    have hstring : string? t = none := Option.map_eq_none_iff.mp h
    simp only [Algorithm.parse, hstring]
    rfl
  | _ => rfl

theorem exists_word_of_trimmed {cs : List Char} (h : selector.trimmed? = some cs) :
    ∃ t word, selector = .text t ∧ string? t = some word ∧ trimBlanks word.toList = cs := by
  cases selector with
  | text t =>
    obtain ⟨word, hstring, hcs⟩ := Option.map_eq_some_iff.mp h
    exact ⟨t, word, rfl, hstring, hcs⟩
  | _ => cases h

theorem number?_of_trimmed {cs : List Char} (h : selector.trimmed? = some cs) :
    selector.number? = (numeral? cs).map fun n : Nat => (n : Int) := by
  rw [Value.number?, h]

theorem number?_of_untrimmed (h : selector.trimmed? = none) :
    selector.number? = selector.whole? := by
  rw [Value.number?, h]

theorem unshowable?_of_trimmed {cs : List Char} (h : selector.trimmed? = some cs) :
    selector.unshowable? room = none := by
  obtain ⟨t, word, rfl, _, _⟩ := exists_word_of_trimmed h
  rfl

variable (room) in
theorem parse_of_selects (h : selector.Selects a) : Algorithm.parse room selector = .ok a := by
  obtain ⟨cs, hcs, hname⟩ | hnumber := h
  · obtain ⟨t, word, rfl, hstring, rfl⟩ := exists_word_of_trimmed hcs
    rw [parse_word hstring]
    exact algorithmOfWord_of_name hname
  · cases hcs : selector.trimmed? with
    | some cs =>
      rw [number?_of_trimmed hcs] at hnumber
      obtain ⟨n, hn, heq⟩ := Option.map_eq_some_iff.mp hnumber
      obtain ⟨t, word, rfl, hstring, htrim⟩ := exists_word_of_trimmed hcs
      rw [parse_word hstring, algorithmOfWord_of_numeral htrim hn]
      exact algorithmOfNumber_of_some (Algorithm.ofNumber?_eq_some_iff.mpr heq.symm)
    | none =>
      rw [number?_of_untrimmed hcs] at hnumber
      rw [parse_of_untrimmed hcs, hnumber, Option.bind_some,
        Algorithm.ofNumber?_eq_some_iff.mpr rfl]

variable (room) in
theorem parse_of_digitsWithoutNumber (h : selector.DigitsWithoutNumber) :
    ∃ e, Algorithm.parse room selector = .error (.badNumber e) := by
  obtain ⟨cs, hcs, hne, hdigits, hbad⟩ := h
  obtain ⟨t, word, rfl, hstring, htrim⟩ := exists_word_of_trimmed hcs
  obtain ⟨n, hn, _⟩ | ⟨_, e, hread⟩ := wholeOfText_digits hdigits hne
  · exact absurd hbad (not_bad_of_numeral hn)
  · exact ⟨e, (parse_word hstring).trans ((algorithmOfWord_of_digits htrim hne hdigits).2 e hread)⟩

theorem parse_untrimmed_otherwise (hcs : selector.trimmed? = none)
    (hselects : ∀ a, ¬ selector.Selects a) :
    Algorithm.parse room selector = .error (reportSelector room selector) := by
  have hnone : selector.whole?.bind Algorithm.ofNumber? = none := by
    refine Option.eq_none_iff_forall_ne_some.mpr fun a ha => hselects a (.inr ?_)
    obtain ⟨n, hn, hna⟩ := Option.bind_eq_some_iff.mp ha
    rw [number?_of_untrimmed hcs, hn, Algorithm.ofNumber?_eq_some_iff.mp hna]
  rw [parse_of_untrimmed hcs, hnone]

theorem parse_trimmed_otherwise {cs : List Char} (hcs : selector.trimmed? = some cs)
    (hselects : ∀ a, ¬ selector.Selects a) (hdigits : ¬ selector.DigitsWithoutNumber) :
    Algorithm.parse room selector = .error (.unknown selector.reported) := by
  rw [Value.reported, hcs, Option.bind_some]
  obtain ⟨t, word, rfl, hstring, htrim⟩ := exists_word_of_trimmed hcs
  rw [parse_word hstring]
  cases hn : numeral? cs with
  | some n =>
    have hnone : Algorithm.ofNumber? n = none := by
      refine Option.eq_none_iff_forall_ne_some.mpr fun a ha => hselects a (.inr ?_)
      rw [number?_of_trimmed hcs, hn, Algorithm.ofNumber?_eq_some_iff.mp ha]
      rfl
    rw [algorithmOfWord_of_numeral htrim hn]
    exact algorithmOfNumber_of_none hnone (isWritable_of_numeral hn)
  | none =>
    have hname : ∀ a : Algorithm, selectorName word ≠ a.name.toList := fun a hname =>
      hselects a (.inl ⟨cs, hcs, by rwa [selectorName, htrim] at hname⟩)
    have hother : ¬ (cs ≠ [] ∧ ∀ c ∈ cs, isDigit c = true) := by
      rintro ⟨hne, hall⟩
      obtain ⟨n, hsome, _⟩ | ⟨hbad, _⟩ := wholeOfText_digits hall hne
      · cases hn.symm.trans hsome
      · exact hdigits ⟨cs, hcs, hne, hall, hbad⟩
    rw [algorithmOfWord_of_no_name hname htrim hother, textOf_of_string? hstring]

variable (room) in
theorem parse_otherwise (hselects : ∀ a, ¬ selector.Selects a)
    (hdigits : ¬ selector.DigitsWithoutNumber) :
    Algorithm.parse room selector = .error (match selector.unshowable? room with
      | some e => .unshowable e
      | none => .unknown selector.reported) := by
  cases hcs : selector.trimmed? with
  | none =>
    have hreported : selector.reported = selector := by
      rw [Value.reported, hcs]
      rfl
    rw [parse_untrimmed_otherwise hcs hselects, hreported]
    rfl
  | some cs =>
    rw [parse_trimmed_otherwise hcs hselects hdigits, unshowable?_of_trimmed hcs]

/-- What comes of every selector. One that leads to an algorithm gives it. Of the others, digits
that write no number, and what cannot be shown, are not reported as unknown. -/
theorem Algorithm.parse_resolves (room : Nat) (selector : Value) :
    (∀ a, Algorithm.parse room selector = .ok a ↔ selector.Selects a) ∧
      (∀ shown, Algorithm.parse room selector = .error (.unknown shown) ↔
        (∀ a, ¬ selector.Selects a) ∧ ¬ selector.DigitsWithoutNumber ∧
          selector.unshowable? room = none ∧ shown = selector.reported) ∧
      ((∃ e, Algorithm.parse room selector = .error (.badNumber e)) ↔
        selector.DigitsWithoutNumber) ∧
      ∀ e, Algorithm.parse room selector = .error (.unshowable e) ↔
        (∀ a, ¬ selector.Selects a) ∧ selector.unshowable? room = some e := by
  by_cases hselects : ∃ a, selector.Selects a
  · obtain ⟨a, ha⟩ := hselects
    have hparse := parse_of_selects room ha
    have hunique : ∀ b, selector.Selects b ↔ a = b := fun b =>
      ⟨fun hb => Except.ok.inj (hparse.symm.trans (parse_of_selects room hb)), fun hb => hb ▸ ha⟩
    have hdigits : ¬ selector.DigitsWithoutNumber := fun h => by
      obtain ⟨e, he⟩ := parse_of_digitsWithoutNumber room h
      cases hparse.symm.trans he
    simp [hparse, hunique, hdigits]
  · rw [not_exists] at hselects
    by_cases hdigits : selector.DigitsWithoutNumber
    · obtain ⟨e, hparse⟩ := parse_of_digitsWithoutNumber room hdigits
      obtain ⟨cs, hcs, _⟩ := id hdigits
      simp [hparse, hselects, hdigits, unshowable?_of_trimmed hcs]
    · have hparse := parse_otherwise room hselects hdigits
      cases hshown : selector.unshowable? room with
      | none =>
        rw [hshown] at hparse
        simp [hparse, hselects, hdigits, eq_comm]
      | some e =>
        rw [hshown] at hparse
        simp [hparse, hselects, hdigits]

/-- A raised two is a digit, but it neither leads to an algorithm nor is reported as unknown. -/
theorem Algorithm.parse_raised_two :
    (∀ room a, Algorithm.parse room (.text (textOf "\u00b2")) ≠ .ok a) ∧
      ∀ room shown, Algorithm.parse room (.text (textOf "\u00b2")) ≠ .error (.unknown shown) := by
  have hdigits : (Value.text (textOf "\u00b2")).DigitsWithoutNumber :=
    ⟨['\u00b2'], rfl, List.cons_ne_nil _ _, List.forall_mem_singleton.mpr (by decide),
      .inr ⟨'\u00b2', List.mem_singleton.mpr rfl, by decide⟩⟩
  refine ⟨fun room => ?_, fun room => ?_⟩ <;>
    obtain ⟨e, hparse⟩ := parse_of_digitsWithoutNumber room hdigits <;> rw [hparse]
  · exact nofun
  · exact nofun

end Compression
