import Compression.Config
import Compression.Proofs.ExceptSteps
import Compression.Proofs.SelectorParsing

namespace Compression

/-! ### What a value says under its keys -/

namespace Value

/-- The entries of a mapping. Other values have none. -/
def entries : Value → List (Value × Value)
  | .map entries => entries
  | _ => []

/-- What stands under a key that is text. -/
def setting? (v : Value) (key : String) : Option Value :=
  valueOf? (textOf key) v.entries

/-- All keys are among these. -/
def KeysAmong (known : List String) (v : Value) : Prop :=
  ∀ e ∈ v.entries, ∃ key ∈ known, e.1 = .text (textOf key)

/-- A mapping with a key that is not text. -/
def HasOddKey (v : Value) : Prop :=
  ∃ e ∈ v.entries, e.1.text? = none

/-- The whole number under a key, or the one that stands in for it. -/
def Gives (v : Value) (key : String) (default n : Int) : Prop :=
  v.setting? key = some (.int n) ∨ v.setting? key = none ∧ n = default

theorem text?_eq_some_iff {v : Value} {t : Text} : v.text? = some t ↔ v = .text t := by
  cases v <;> simp [text?]

theorem valueOf?_entries (v : Value) (key : String) :
    valueOf? (textOf key) v.entries = v.setting? key :=
  rfl

theorem mem_of_setting? {v value : Value} {key : String} (h : v.setting? key = some value) :
    (.text (textOf key), value) ∈ v.entries := by
  obtain ⟨e, hfind, rfl⟩ := Option.map_eq_some_iff.mp h
  have hkey : e.1.text? = some (textOf key) := by simpa using List.find?_some hfind
  rw [← text?_eq_some_iff.mp hkey]
  exact List.mem_of_find?_eq_some hfind

end Value

/-! ### Faults that are not reported -/

/-- An answer whose fault ends what asked for it, and is not told as one of the configuration. -/
def BreaksOff {α : Type} (answer : Except ConfigError α) : Prop :=
  ∃ e, answer = .error e ∧ e.isReported = false

theorem not_breaksOff_ok {α : Type} (a : α) : ¬ BreaksOff (.ok a) :=
  fun ⟨_, h, _⟩ => nomatch h

theorem breaksOff_error_iff {α : Type} {e : ConfigError} :
    BreaksOff (.error e : Except ConfigError α) ↔ e.isReported = false := by
  simp [BreaksOff]

theorem breaksOff_bind_iff {α β : Type} {answer : Except ConfigError α}
    {next : α → Except ConfigError β} :
    BreaksOff (answer >>= next) ↔ BreaksOff answer ∨ ∃ a, answer = .ok a ∧ BreaksOff (next a) := by
  cases answer <;> simp [BreaksOff, bind, Except.bind]

theorem breaksOff_check_bind_iff {β : Type} {check : Except ConfigError Unit}
    {next : Unit → Except ConfigError β} :
    BreaksOff (check >>= next) ↔ BreaksOff check ∨ check = .ok () ∧ BreaksOff (next ()) := by
  cases check <;> simp [BreaksOff, bind, Except.bind]

/-! ### The checks one by one -/

section

variable {room : Nat} {known : List Text} {report : List Text → ConfigError}
  {entries : List (Value × Value)}

/-- The entries whose key is none of those. -/
def unknownEntries (known : List Text) (entries : List (Value × Value)) : List (Value × Value) :=
  entries.filter fun e =>
    match e.1.text? with
    | some key => !known.contains key
    | none => true

theorem checkKeys_eq : checkKeys known report entries =
    if (unknownEntries known entries).isEmpty then .ok ()
    else
      match (unknownEntries known entries).mapM fun e => e.1.text? with
      | some keys => .error (report (keys.mergeSort fun a b => !decide (b < a)))
      | none => .error .unorderedKeys :=
  rfl

theorem mem_unknownEntries_iff {e : Value × Value} : e ∈ unknownEntries known entries ↔
    e ∈ entries ∧ ¬ ∃ key ∈ known, e.1 = .text key := by
  rw [unknownEntries, List.mem_filter]
  refine and_congr_right fun _ => ?_
  cases htext : e.1.text? with
  | some key =>
    rw [Value.text?_eq_some_iff.mp htext]
    simp
  | none =>
    have hne : ∀ key, e.1 ≠ .text key := fun key hkey =>
      nomatch htext.symm.trans (Value.text?_eq_some_iff.mpr hkey)
    simp [hne]

theorem unknownEntries_isEmpty_iff : (unknownEntries known entries).isEmpty = true ↔
    ∀ e ∈ entries, ∃ key ∈ known, e.1 = .text key := by
  rw [List.isEmpty_iff, List.eq_nil_iff_forall_not_mem]
  refine forall_congr' fun e => ?_
  rw [mem_unknownEntries_iff, not_and, not_not]

theorem checkKeys_eq_ok_iff :
    checkKeys known report entries = .ok () ↔ ∀ e ∈ entries, ∃ key ∈ known, e.1 = .text key := by
  rw [checkKeys_eq, ← unknownEntries_isEmpty_iff]
  split
  next h => simp [h]
  next h => split <;> simp [h]

theorem mapM_eq_none_iff {α β : Type} {f : α → Option β} {xs : List α} :
    xs.mapM f = none ↔ ∃ x ∈ xs, f x = none := by
  induction xs with
  | nil => simp
  | cons x xs ih =>
    rw [List.mapM_cons]
    cases hx : f x with
    | none => simp [hx]
    | some y => cases hxs : xs.mapM f <;> simp [hx, ← ih, hxs]

/-- Unknown keys are told in order, unless one of them is no text. -/
theorem breaksOff_checkKeys_iff (hreport : ∀ keys, (report keys).isReported = true) :
    BreaksOff (checkKeys known report entries) ↔ ∃ e ∈ entries, e.1.text? = none := by
  have hodd : (∃ e ∈ entries, e.1.text? = none) ↔
      ∃ e ∈ unknownEntries known entries, e.1.text? = none := by
    refine exists_congr fun e => and_congr_left fun htext => ?_
    rw [mem_unknownEntries_iff, iff_self_and]
    rintro _ ⟨key, _, hkey⟩
    cases htext.symm.trans (Value.text?_eq_some_iff.mpr hkey)
  rw [checkKeys_eq, hodd, ← mapM_eq_none_iff]
  split
  next h => simp [List.isEmpty_iff.mp h, not_breaksOff_ok]
  next =>
    split
    next keys hkeys => simp [breaksOff_error_iff, hreport, hkeys]
    next hkeys => simp [breaksOff_error_iff, hkeys, ConfigError.isReported]

theorem unshowable?_int_ne_tooDeep (room : Nat) (n : Int) :
    (Value.int n).unshowable? room ≠ some .tooDeep := by
  rw [Value.unshowable?]
  split <;> simp

theorem checkIntegers_eq_ok_iff :
    checkIntegers room entries = .ok () ↔ ∀ e ∈ entries, ∃ n, e.2 = .int n := by
  induction entries with
  | nil => simp [checkIntegers]
  | cons e rest ih =>
    obtain ⟨key, value⟩ := e
    cases value <;> simp [checkIntegers, ih]

/-- The first value that is no whole number is nested too deeply to be told. -/
def StopsTooDeep (room : Nat) (entries : List (Value × Value)) : Prop :=
  ∃ front key value back, entries = front ++ (key, value) :: back ∧
    (∀ e ∈ front, ∃ n, e.2 = .int n) ∧ value.unshowable? room = some .tooDeep

section

variable {key value : Value} {rest : List (Value × Value)}

theorem stopsTooDeep_cons_of_whole {n : Int} :
    StopsTooDeep room ((key, .int n) :: rest) ↔ StopsTooDeep room rest := by
  constructor
  · rintro ⟨front, key', value', back, heq, hfront, hdeep⟩
    cases front with
    | nil =>
      cases heq
      exact absurd hdeep (unshowable?_int_ne_tooDeep room n)
    | cons e front =>
      cases heq
      exact ⟨front, key', value', back, rfl,
        fun e he => hfront e (List.mem_cons_of_mem _ he), hdeep⟩
  · rintro ⟨front, key', value', back, rfl, hfront, hdeep⟩
    exact ⟨(key, .int n) :: front, key', value', back, rfl, by simpa using hfront, hdeep⟩

theorem stopsTooDeep_cons_of_not_whole (h : ¬ ∃ n, value = .int n) :
    StopsTooDeep room ((key, value) :: rest) ↔ value.unshowable? room = some .tooDeep := by
  constructor
  · rintro ⟨front, key', value', back, heq, hfront, hdeep⟩
    cases front with
    | nil =>
      cases heq
      exact hdeep
    | cons e front =>
      cases heq
      exact absurd (hfront _ List.mem_cons_self) h
  · intro hdeep
    exact ⟨[], key, value, rest, rfl, by simp, hdeep⟩

theorem breaksOff_checkIntegers_cons_of_not_whole (h : ¬ ∃ n, value = .int n) :
    BreaksOff (checkIntegers room ((key, value) :: rest)) ↔
      value.unshowable? room = some .tooDeep := by
  rw [checkIntegers, breaksOff_error_iff]
  · cases value.unshowable? room with
    | none => simp [ConfigError.isReported]
    | some e => cases e <;> simp [ConfigError.isReported]
  · exact fun n hn => h ⟨n, hn⟩

end

theorem breaksOff_checkIntegers_iff :
    BreaksOff (checkIntegers room entries) ↔ StopsTooDeep room entries := by
  induction entries with
  | nil => simp [checkIntegers, not_breaksOff_ok, StopsTooDeep]
  | cons e rest ih =>
    obtain ⟨key, value⟩ := e
    by_cases hwhole : ∃ n, value = .int n
    · obtain ⟨n, rfl⟩ := hwhole
      rw [checkIntegers, ih, stopsTooDeep_cons_of_whole]
    · rw [breaksOff_checkIntegers_cons_of_not_whole hwhole, stopsTooDeep_cons_of_not_whole hwhole]

end

theorem ofNumbers_eq_ok_iff {windowSize lookahead minMatch : Int} {params : LzssParams} :
    LzssParams.ofNumbers windowSize lookahead minMatch = .ok params ↔
      params.windowSize = windowSize ∧ params.lookahead = lookahead ∧
        params.minMatch = minMatch := by
  obtain ⟨w, l, m, hw, hl, hm⟩ := params
  unfold LzssParams.ofNumbers
  constructor
  · intro h
    split at h
    next =>
      split at h
      next =>
        split at h
        next =>
          cases h
          simp only
          omega
        next => cases h
      next => cases h
    next => cases h
  · rintro ⟨rfl, rfl, rfl⟩
    simp only at *
    rw [dif_pos (by omega), dif_pos (by omega), dif_pos (by omega)]
    simp

/-! ### Parameters and the default algorithm -/

namespace Value

def paramKeys : List String := ["window_size", "lookahead", "min_match"]

def configKeys : List String := ["default_algorithm", "lzss"]

/-- A mapping, or a value that counts as nothing. -/
def IsGroup (nothing : Value → Prop) (v : Value) : Prop :=
  nothing v ∨ ∃ entries, v = .map entries

/-- The group of parameters in a configuration. -/
def params (raw : Value) : Value :=
  (raw.setting? "lzss").getD .null

variable {v : Value} {key : String} {n n' default : Int}

theorem entries_of_not_map (h : ¬ ∃ entries, v = .map entries) : v.entries = [] := by
  cases v with
  | map entries => exact absurd ⟨entries, rfl⟩ h
  | _ => rfl

theorem entries_of_isVoid (h : v.isVoid = true) : v.entries = [] := by
  cases v with
  | map entries => exact List.isEmpty_iff.mp h
  | _ => rfl

theorem Gives.unique (h : v.Gives key default n) (h' : v.Gives key default n') : n = n' := by
  obtain h | ⟨h, rfl⟩ := h <;> obtain h' | ⟨h', rfl⟩ := h' <;> cases h.symm.trans h' <;> rfl

theorem gives_numberOf (hwhole : ∀ e ∈ v.entries, ∃ n, e.2 = .int n) (key : String)
    (instead : Nat) : v.Gives key instead (numberOf (textOf key) instead v.entries) := by
  rw [Gives, numberOf, valueOf?_entries]
  cases hvalue : v.setting? key with
  | none => exact .inr ⟨rfl, rfl⟩
  | some value =>
    obtain ⟨n, hn⟩ := hwhole _ (mem_of_setting? hvalue)
    cases hn
    exact .inl rfl

end Value

section

variable {room : Nat} {v : Value}

theorem lzssParamsOf_eq (room : Nat) (v : Value) : lzssParamsOf room v.entries = (do
    checkKeys (Value.paramKeys.map textOf) .unknownLzssKeys v.entries
    checkIntegers room v.entries
    match LzssParams.ofNumbers (numberOf "window_size" 4096 v.entries)
        (numberOf "lookahead" 18 v.entries) (numberOf "min_match" 3 v.entries) with
    | .ok params => .ok params
    | .error e => .error (.params e)) :=
  rfl

theorem keysAmong_iff {known : List String} : v.KeysAmong known ↔
    ∀ e ∈ v.entries, ∃ key ∈ known.map textOf, e.1 = .text key := by
  simp [Value.KeysAmong]

theorem lzssParamsOf_eq_ok_iff {params : LzssParams} : lzssParamsOf room v.entries = .ok params ↔
    v.KeysAmong Value.paramKeys ∧ (∀ e ∈ v.entries, ∃ n, e.2 = .int n) ∧
      v.Gives "window_size" 4096 params.windowSize ∧ v.Gives "lookahead" 18 params.lookahead ∧
        v.Gives "min_match" 3 params.minMatch := by
  rw [lzssParamsOf_eq, check_bind_eq_ok_iff, check_bind_eq_ok_iff, checkKeys_eq_ok_iff,
    checkIntegers_eq_ok_iff, ← keysAmong_iff]
  refine and_congr_right fun _ => and_congr_right fun hwhole => ?_
  have hw := Value.gives_numberOf hwhole "window_size" 4096
  have hl := Value.gives_numberOf hwhole "lookahead" 18
  have hm := Value.gives_numberOf hwhole "min_match" 3
  constructor
  · intro h
    split at h
    next params' hparams =>
      cases h
      obtain ⟨hw', hl', hm'⟩ := ofNumbers_eq_ok_iff.mp hparams
      exact ⟨hw'.symm ▸ hw, hl'.symm ▸ hl, hm'.symm ▸ hm⟩
    next => cases h
  · rintro ⟨hw', hl', hm'⟩
    rw [ofNumbers_eq_ok_iff.mpr ⟨hw'.unique hw, hl'.unique hl, hm'.unique hm⟩]

theorem breaksOff_lzssParamsOf_iff : BreaksOff (lzssParamsOf room v.entries) ↔
    v.HasOddKey ∨ v.KeysAmong Value.paramKeys ∧ StopsTooDeep room v.entries := by
  rw [lzssParamsOf_eq, breaksOff_check_bind_iff, breaksOff_check_bind_iff,
    breaksOff_checkKeys_iff fun _ => rfl, breaksOff_checkIntegers_iff, checkKeys_eq_ok_iff,
    ← keysAmong_iff]
  refine or_congr_right (and_congr_right fun _ => or_iff_left ?_)
  rintro ⟨_, hbreaks⟩
  -- A number out of its range is always told.
  split at hbreaks
  next => exact not_breaksOff_ok _ hbreaks
  next => cases breaksOff_error_iff.mp hbreaks

/-- The parameters in what stands for a group of them. -/
def groupParams (room : Nat) (group : Value) : Except ConfigError LzssParams :=
  if group.isVoid then lzssParamsOf room []
  else
    match group with
    | .map entries => lzssParamsOf room entries
    | _ => .error .lzssNotAMapping

theorem groupParams_of_isGroup (h : v.IsGroup (·.isVoid = true)) :
    groupParams room v = lzssParamsOf room v.entries := by
  unfold groupParams
  obtain hvoid | ⟨entries, rfl⟩ := h
  · rw [if_pos hvoid, Value.entries_of_isVoid hvoid]
  · split
    next hvoid => rw [Value.entries_of_isVoid hvoid]
    next => rfl

theorem groupParams_of_not_isGroup (h : ¬ v.IsGroup (·.isVoid = true)) :
    groupParams room v = .error .lzssNotAMapping := by
  obtain ⟨hvoid, hmap⟩ := not_or.mp h
  unfold groupParams
  rw [if_neg hvoid]
  cases v with
  | map entries => exact absurd ⟨entries, rfl⟩ hmap
  | _ => rfl

end

section

variable {room : Nat} {raw : Value}

theorem defaultAlgorithmOf_eq_ok_iff {a : Algorithm} : defaultAlgorithmOf room raw.entries = .ok a ↔
    (∀ selector, raw.setting? "default_algorithm" = some selector →
      Algorithm.parse room selector = .ok a) ∧
      (raw.setting? "default_algorithm" = none → a = .huffman) := by
  rw [defaultAlgorithmOf, Value.valueOf?_entries]
  cases raw.setting? "default_algorithm" with
  | none => simp [eq_comm]
  | some selector => cases hparse : Algorithm.parse room selector <;> simp [hparse]

/-- A selector is not resolved for being nested too deeply just if it is. -/
theorem parse_eq_tooDeep_iff {selector : Value} :
    Algorithm.parse room selector = .error (.unshowable .tooDeep) ↔
      selector.unshowable? room = some .tooDeep := by
  have hdeep : selector.unshowable? room = some .tooDeep → ∀ a, ¬ selector.Selects a := by
    intro h a hselects
    obtain ⟨cs, hcs, _⟩ | hnumber := hselects
    · cases h.symm.trans (unshowable?_of_trimmed hcs)
    · cases selector with
      | text t => cases h
      | int n => exact unshowable?_int_ne_tooDeep room n h
      | bool b => cases h
      | float x => cases h
      | _ => cases hnumber
  constructor
  · intro h
    have hselects : ∀ a, ¬ selector.Selects a := fun a ha =>
      nomatch h.symm.trans (parse_of_selects room ha)
    have hdigits : ¬ selector.DigitsWithoutNumber := fun hbad => by
      obtain ⟨e, he⟩ := parse_of_digitsWithoutNumber room hbad
      cases h.symm.trans he
    rw [parse_otherwise room hselects hdigits] at h
    split at h
    next e he =>
      cases h
      exact he
    next => cases h
  · intro h
    have hdigits : ¬ selector.DigitsWithoutNumber := by
      rintro ⟨cs, hcs, _⟩
      cases h.symm.trans (unshowable?_of_trimmed hcs)
    rw [parse_otherwise room (hdeep h) hdigits, h]

theorem breaksOff_defaultAlgorithmOf_iff : BreaksOff (defaultAlgorithmOf room raw.entries) ↔
    ∃ selector, raw.setting? "default_algorithm" = some selector ∧
      selector.unshowable? room = some .tooDeep := by
  rw [defaultAlgorithmOf, Value.valueOf?_entries]
  cases raw.setting? "default_algorithm" with
  | none => simp [not_breaksOff_ok]
  | some selector =>
    simp only [Option.some.injEq, exists_eq_left']
    rw [← parse_eq_tooDeep_iff]
    cases hparse : Algorithm.parse room selector with
    | ok a => simp [not_breaksOff_ok]
    | error e =>
      simp only [breaksOff_error_iff, Except.error.injEq]
      cases e with
      | unshowable e => cases e <;> simp [ConfigError.isReported]
      | _ => simp [ConfigError.isReported]

theorem ofValue_map (room : ShownRoom) (raw : Value) :
    EngineConfig.ofValue room (.map raw.entries) = (do
    checkKeys (Value.configKeys.map textOf) .unknownKeys raw.entries
    let algorithm ← defaultAlgorithmOf room.setting raw.entries
    let params ← groupParams room.parameter raw.params
    return { lzss := params, defaultAlgorithm := algorithm }) := by
  rw [EngineConfig.ofValue]
  refine congrArg (bind _) (funext fun _ => congrArg (bind _) (funext fun algorithm => ?_))
  have hparams : (valueOf? "lzss" raw.entries).getD .null = raw.params := rfl
  dsimp only [groupParams]
  rw [hparams]
  generalize raw.params = group
  by_cases hvoid : group.isVoid = true
  · rw [if_pos hvoid, if_pos hvoid]
  · rw [if_neg hvoid, if_neg hvoid]
    cases group <;> rfl

theorem ofValue_map_eq_ok_iff {room : ShownRoom} {config : EngineConfig} :
    EngineConfig.ofValue room (.map raw.entries) = .ok config ↔
      raw.KeysAmong Value.configKeys ∧
        defaultAlgorithmOf room.setting raw.entries = .ok config.defaultAlgorithm ∧
          groupParams room.parameter raw.params = .ok config.lzss := by
  rw [ofValue_map, check_bind_eq_ok_iff, checkKeys_eq_ok_iff, ← keysAmong_iff]
  refine and_congr_right fun _ => ?_
  simp only [bind_eq_ok_iff, pure, Except.pure, Except.ok.injEq]
  constructor
  · rintro ⟨a, halgorithm, params, hparams, rfl⟩
    exact ⟨halgorithm, hparams⟩
  · rintro ⟨halgorithm, hparams⟩
    exact ⟨_, halgorithm, _, hparams, rfl⟩

theorem breaksOff_ofValue_map_iff {room : ShownRoom} :
    BreaksOff (EngineConfig.ofValue room (.map raw.entries)) ↔
      raw.HasOddKey ∨ raw.KeysAmong Value.configKeys ∧
      (BreaksOff (defaultAlgorithmOf room.setting raw.entries) ∨
        (∃ a, defaultAlgorithmOf room.setting raw.entries = .ok a) ∧
          BreaksOff (groupParams room.parameter raw.params)) := by
  rw [ofValue_map, breaksOff_check_bind_iff, breaksOff_checkKeys_iff fun _ => rfl,
    checkKeys_eq_ok_iff, ← keysAmong_iff]
  simp only [breaksOff_bind_iff, pure, Except.pure, not_breaksOff_ok, and_false, exists_false,
    or_false, exists_and_right]
  rfl

end

end Compression
