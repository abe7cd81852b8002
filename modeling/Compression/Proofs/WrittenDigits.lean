import Compression.NumberText
import Mathlib.Data.List.Induction
import Mathlib.Tactic.IntervalCases

namespace Compression

variable {c : Char} {cs : List Char} {d : Nat} {ds : List Nat}

theorem decimalDigit?_eq_some (h : decimalDigit? c = some d) :
    ∃ z ∈ decimalZeros, c.toNat = z + d ∧ d < 10 := by
  obtain ⟨z, hfind, rfl⟩ := Option.map_eq_some_iff.mp h
  have hrange := List.find?_some hfind
  simp only [Bool.and_eq_true, decide_eq_true_eq] at hrange
  exact ⟨z, List.mem_of_find?_eq_some hfind, by omega, by omega⟩

theorem isDigit_of_decimal (h : decimalDigit? c = some d) : isDigit c = true := by
  rw [isDigit, h, Option.isSome_some, Bool.true_or]

theorem exists_looseDigitRange (h : isDigit c = true) (hloose : decimalDigit? c = none) :
    ∃ r ∈ looseDigitRanges, r.1 ≤ c.toNat ∧ c.toNat ≤ r.2 := by
  rw [isDigit, hloose, Option.isSome_none, Bool.false_or, List.any_eq_true] at h
  simpa using h

theorem isBlank_of_isDigit (h : isDigit c = true) : isBlank c = false := by
  have hzeros : ∀ z ∈ decimalZeros, ∀ r ∈ blankRanges, z + 9 < r.1 ∨ r.2 < z := by
    decide +kernel
  have hloose : ∀ l ∈ looseDigitRanges, ∀ r ∈ blankRanges, l.2 < r.1 ∨ r.2 < l.1 := by
    decide +kernel
  refine List.any_eq_false.mpr fun r hr hrange => ?_
  simp only [Bool.and_eq_true, decide_eq_true_eq] at hrange
  cases hdecimal : decimalDigit? c with
  | some d =>
    obtain ⟨z, hz, hc, _⟩ := decimalDigit?_eq_some hdecimal
    have := hzeros z hz r hr
    omega
  | none =>
    obtain ⟨l, hl, hc⟩ := exists_looseDigitRange h hdecimal
    have := hloose l hl r hr
    omega

/-! ### The number that digits write -/

/-- The number with the given digits, the greatest place first. -/
def numberOfPlaces (ds : List Nat) : Nat :=
  ds.foldl (fun n d => 10 * n + d) 0

theorem numberOfPlaces_lt (h : ∀ d ∈ ds, d < 10) : numberOfPlaces ds < 10 ^ ds.length := by
  induction ds using List.reverseRecOn with
  | nil => exact Nat.one_pos
  | append_singleton ds d ih =>
    have hfront := ih fun e he => h e (List.mem_append_left _ he)
    have hlast := h d (by simp)
    have hstep : numberOfPlaces (ds ++ [d]) = 10 * numberOfPlaces ds + d := by
      simp [numberOfPlaces]
    rw [hstep, List.length_append, List.length_singleton, Nat.pow_succ]
    omega

theorem foldlM_places (h : cs.map decimalDigit? = ds.map some) (start : Nat) :
    cs.foldlM (fun n c => (decimalDigit? c).map fun d => 10 * n + d) start =
      some (ds.foldl (fun n d => 10 * n + d) start) := by
  induction cs generalizing ds start with
  | nil =>
    cases ds with
    | nil => rfl
    | cons d ds => cases h
  | cons c cs ih =>
    cases ds with
    | nil => cases h
    | cons d ds =>
      rw [List.map_cons, List.map_cons, List.cons.injEq] at h
      rw [List.foldlM_cons, h.1]
      exact ih h.2 _

theorem exists_places_of_foldlM {start n : Nat}
    (h : cs.foldlM (fun n c => (decimalDigit? c).map fun d => 10 * n + d) start = some n) :
    ∃ ds : List Nat, cs.map decimalDigit? = ds.map some := by
  induction cs generalizing start with
  | nil => exact ⟨[], rfl⟩
  | cons c cs ih =>
    rw [List.foldlM_cons] at h
    cases hdecimal : decimalDigit? c with
    | none =>
      rw [hdecimal] at h
      cases h
    | some d =>
      rw [hdecimal] at h
      obtain ⟨ds, hplaces⟩ := ih h
      exact ⟨d :: ds, by rw [List.map_cons, hdecimal, hplaces, List.map_cons]⟩

theorem numeral?_eq_some_iff {n : Nat} : numeral? cs = some n ↔
    cs ≠ [] ∧ cs.length ≤ maxNumeralLength ∧
      ∃ ds : List Nat, cs.map decimalDigit? = ds.map some ∧ numberOfPlaces ds = n := by
  unfold numeral?
  split
  next hbad =>
    rw [List.isEmpty_iff] at hbad
    refine ⟨nofun, fun ⟨hne, hlength, _⟩ => ?_⟩
    have := hbad.resolve_left hne
    omega
  next hgood =>
    rw [List.isEmpty_iff, not_or, Nat.not_lt] at hgood
    constructor
    · intro h
      obtain ⟨ds, hplaces⟩ := exists_places_of_foldlM h
      rw [foldlM_places hplaces] at h
      exact ⟨hgood.1, hgood.2, ds, hplaces, Option.some.inj h⟩
    · rintro ⟨_, _, ds, hplaces, rfl⟩
      exact foldlM_places hplaces 0

theorem exists_decimal_of_numeral {n : Nat} (h : numeral? cs = some n) (hc : c ∈ cs) :
    ∃ d, decimalDigit? c = some d := by
  obtain ⟨_, _, ds, hplaces, _⟩ := numeral?_eq_some_iff.mp h
  have hmem : decimalDigit? c ∈ ds.map some := hplaces ▸ List.mem_map_of_mem hc
  obtain ⟨d, _, heq⟩ := List.mem_map.mp hmem
  exact ⟨d, heq.symm⟩

theorem isDigit_of_numeral {n : Nat} (h : numeral? cs = some n) (hc : c ∈ cs) :
    isDigit c = true := by
  obtain ⟨d, hd⟩ := exists_decimal_of_numeral h hc
  exact isDigit_of_decimal hd

theorem not_bad_of_numeral {n : Nat} (h : numeral? cs = some n) :
    ¬ (maxNumeralLength < cs.length ∨ ∃ c ∈ cs, decimalDigit? c = none) := by
  rintro (hlong | ⟨c, hc, hloose⟩)
  · have := (numeral?_eq_some_iff.mp h).2.1
    omega
  · obtain ⟨d, hd⟩ := exists_decimal_of_numeral h hc
    cases hloose.symm.trans hd

theorem char?_codePoint (c : Char) : char? (codePoint c) = some c := by
  have hvalid : (codePoint c).val.isValidChar := c.valid
  rw [char?, dif_pos hvalid]
  rfl

theorem latinForm?_codePoint (c : Char) : latinForm? (codePoint c) =
    if c.toNat < 0x7f then some c
    else if isBlank c = true then some ' '
    else (decimalDigit? c).map Nat.digitChar := by
  rw [latinForm?, char?_codePoint]
  rfl

theorem latinForm?_of_decimal (h : decimalDigit? c = some d) :
    latinForm? (codePoint c) = some (Nat.digitChar d) := by
  have hlatin : ∀ z ∈ decimalZeros, z = 0x30 ∨ 0x7f ≤ z := by decide
  obtain ⟨z, hz, hc, hd⟩ := decimalDigit?_eq_some h
  rw [latinForm?_codePoint, isBlank_of_isDigit (isDigit_of_decimal h), h]
  obtain rfl | hhigh := hlatin z hz
  · have hchar : c = Char.ofNat (0x30 + d) := by rw [← hc, Char.ofNat_toNat]
    rw [if_pos (by omega), hchar]
    interval_cases d <;> rfl
  · rw [if_neg (by omega)]
    rfl

theorem latinForm?_of_loose (h : isDigit c = true) (hloose : decimalDigit? c = none) :
    latinForm? (codePoint c) = none := by
  have hlatin : ∀ r ∈ looseDigitRanges, 0x7f ≤ r.1 := by decide
  obtain ⟨r, hr, hc⟩ := exists_looseDigitRange h hloose
  have := hlatin r hr
  rw [latinForm?_codePoint, isBlank_of_isDigit h, hloose, if_neg (by omega)]
  rfl

/-- Digits have a form in basic Latin up to the first one that does not stand in places of
ten. -/
theorem exists_latinForm_of_digits (h : ∀ c ∈ cs, isDigit c = true) :
    ∃ ds : List Nat, (∀ d ∈ ds, d < 10) ∧
      (cs.map decimalDigit? = ds.map some ∧
          latinForm (cs.map codePoint) = ds.map Nat.digitChar ∨
        (∃ c ∈ cs, decimalDigit? c = none) ∧
          latinForm (cs.map codePoint) = ds.map Nat.digitChar ++ ['?']) := by
  induction cs with
  | nil => exact ⟨[], by simp, .inl ⟨rfl, rfl⟩⟩
  | cons c cs ih =>
    have hc := h c List.mem_cons_self
    cases hdecimal : decimalDigit? c with
    | none =>
      refine ⟨[], by simp, .inr ⟨⟨c, List.mem_cons_self, hdecimal⟩, ?_⟩⟩
      rw [List.map_cons, latinForm, latinForm?_of_loose hc hdecimal]
      rfl
    | some d =>
      obtain ⟨_, _, _, hlt⟩ := decimalDigit?_eq_some hdecimal
      obtain ⟨ds, hds, hforms⟩ := ih fun e he => h e (List.mem_cons_of_mem c he)
      refine ⟨d :: ds, List.forall_mem_cons.mpr ⟨hlt, hds⟩, ?_⟩
      simp only [List.map_cons, latinForm, latinForm?_of_decimal hdecimal, hdecimal]
      obtain ⟨hplaces, hform⟩ | ⟨⟨e, he, hloose⟩, hform⟩ := hforms
      · exact .inl ⟨by rw [hplaces], by rw [hform]⟩
      · exact .inr ⟨⟨e, List.mem_cons_of_mem c he, hloose⟩, by rw [hform]; rfl⟩

/-! ### Reading digits -/

theorem hexValue?_digitChar (h : d < 10) : hexValue? (Nat.digitChar d) = some d := by
  interval_cases d <;> rfl

theorem valueOfDigits_digitChars (h : ∀ d ∈ ds, d < 10) :
    valueOfDigits 10 (ds.map Nat.digitChar) = numberOfPlaces ds := by
  have hfold : ∀ start,
      (ds.map Nat.digitChar).foldl (fun n c => 10 * n + (hexValue? c).getD 0) start =
        ds.foldl (fun n d => 10 * n + d) start := by
    induction ds with
    | nil => exact fun _ => rfl
    | cons d ds ih =>
      obtain ⟨hd, hds⟩ := List.forall_mem_cons.mp h
      intro start
      rw [List.map_cons, List.foldl_cons, hexValue?_digitChar hd, ih hds]
      rfl
  exact hfold 0

theorem digitChar_leads_number (h : d < 10) : isNumberBlank (Nat.digitChar d) = false ∧
    Nat.digitChar d ≠ '+' ∧ Nat.digitChar d ≠ '-' := by
  interval_cases d <;> decide

theorem splitSign_of_unsigned (hplus : c ≠ '+') (hminus : c ≠ '-') :
    splitSign (c :: cs) = (false, c :: cs) := by
  unfold splitSign
  split
  next heq => exact absurd (List.cons.inj heq).1 hplus
  next heq => exact absurd (List.cons.inj heq).1 hminus
  next => rfl

theorem dropBaseMark_ten (cs : List Char) : dropBaseMark 10 cs = cs := by
  unfold dropBaseMark
  split <;> rfl

/-- Text that begins with decimal digits, and ends with them or with the mark of a character
without a form in basic Latin. -/
theorem wholeOfText_of_digitChars {t : Text} {rest : List Char} (h : ∀ d ∈ ds, d < 10)
    (hrest : rest = [] ∨ rest = ['?']) (hform : latinForm t = ds.map Nat.digitChar ++ rest) :
    wholeOfText 10 t =
      if maxNumeralLength < ds.length then .error (.tooManyDigits ds.length)
      else if ds = [] ∨ rest ≠ [] then .error (.notWhole 10 t)
      else .ok (numberOfPlaces ds) := by
  have hlead : (latinForm t).dropWhile isNumberBlank = latinForm t ∧
      splitSign (latinForm t) = (false, latinForm t) := by
    cases ds with
    | nil => obtain rfl | rfl := hrest <;> rw [hform] <;> exact ⟨rfl, rfl⟩
    | cons d ds =>
      obtain ⟨hblank, hplus, hminus⟩ := digitChar_leads_number (h d List.mem_cons_self)
      rw [hform, List.map_cons, List.cons_append]
      exact ⟨List.dropWhile_cons_of_neg (by simp [hblank]), splitSign_of_unsigned hplus hminus⟩
  have hdigits : (latinForm t).takeWhile (fun c => (hexValue? c).any (· < 10)) =
      ds.map Nat.digitChar := by
    have hall : ∀ c ∈ ds.map Nat.digitChar, (hexValue? c).any (· < 10) = true := by
      rintro _ hc
      obtain ⟨d, hd, rfl⟩ := List.mem_map.mp hc
      rw [hexValue?_digitChar (h d hd)]
      exact decide_eq_true (h d hd)
    rw [hform, List.takeWhile_append_of_pos hall]
    obtain rfl | rfl := hrest <;> exact List.append_nil _
  have hbehind : ((latinForm t).drop ds.length).all isNumberBlank = rest.isEmpty := by
    rw [hform, List.drop_left' (List.length_map _)]
    obtain rfl | rfl := hrest <;> rfl
  rw [wholeOfText, hlead.1, hlead.2]
  simp only [dropBaseMark_ten, hdigits, true_and, List.length_map, hbehind,
    valueOfDigits_digitChars h, signed]
  simp

/-- Digits are read as the number they write, unless one does not stand in places of ten or there
are too many. -/
theorem wholeOfText_digits (h : ∀ c ∈ cs, isDigit c = true) (hne : cs ≠ []) :
    (∃ n, numeral? cs = some n ∧ wholeOfText 10 (cs.map codePoint) = .ok n) ∨
      (maxNumeralLength < cs.length ∨ ∃ c ∈ cs, decimalDigit? c = none) ∧
        ∃ e, wholeOfText 10 (cs.map codePoint) = .error e := by
  obtain ⟨ds, hds, ⟨hplaces, hform⟩ | ⟨hloose, hform⟩⟩ := exists_latinForm_of_digits h
  · have hlength : cs.length = ds.length := by simpa using congrArg List.length hplaces
    have hds_ne : ds ≠ [] := by
      rintro rfl
      exact hne (List.eq_nil_of_length_eq_zero hlength)
    have hread := wholeOfText_of_digitChars hds (.inl rfl) (by rw [hform, List.append_nil])
    by_cases hlong : maxNumeralLength < ds.length
    · rw [if_pos hlong] at hread
      exact .inr ⟨.inl (by omega), _, hread⟩
    · rw [if_neg hlong, if_neg (by simp [hds_ne])] at hread
      exact .inl ⟨_, numeral?_eq_some_iff.mpr ⟨hne, by omega, ds, hplaces, rfl⟩, hread⟩
  · have hread := wholeOfText_of_digitChars hds (.inr rfl) hform
    refine .inr ⟨.inr hloose, ?_⟩
    by_cases hlong : maxNumeralLength < ds.length
    · rw [if_pos hlong] at hread
      exact ⟨_, hread⟩
    · rw [if_neg hlong, if_pos (.inr (List.cons_ne_nil _ _))] at hread
      exact ⟨_, hread⟩

theorem isWritable_of_numeral {n : Nat} (h : numeral? cs = some n) : isWritable n = true := by
  obtain ⟨_, hlength, ds, hplaces, rfl⟩ := numeral?_eq_some_iff.mp h
  have hds : ∀ d ∈ ds, d < 10 := by
    intro d hd
    have hmem : some d ∈ cs.map decimalDigit? := hplaces ▸ List.mem_map_of_mem hd
    obtain ⟨c, _, hc⟩ := List.mem_map.mp hmem
    obtain ⟨_, _, _, hlt⟩ := decimalDigit?_eq_some hc
    exact hlt
  have hcount : ds.length = cs.length := by simpa using (congrArg List.length hplaces).symm
  rw [isWritable, decide_eq_true_eq, Int.natAbs_natCast]
  calc numberOfPlaces ds < 10 ^ ds.length := numberOfPlaces_lt hds
    _ ≤ 10 ^ maxNumeralLength := Nat.pow_le_pow_right (by omega) (by omega)

end Compression
