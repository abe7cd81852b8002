import Compression.ConfigFile
import Compression.Proofs.CallRuns
import Compression.Proofs.ConfigChecks

namespace Compression

namespace Value

/-- Parameters of the encoder that fit together with the defaults of those that are not given. -/
structure DescribesParams (nothing : Value → Prop) (v : Value) : Prop where
  isGroup : v.IsGroup nothing
  keysAmong : v.KeysAmong paramKeys
  whole : ∀ e ∈ v.entries, ∃ n, e.2 = .int n
  inRange : ∃ windowSize lookahead minMatch, v.Gives "window_size" 4096 windowSize ∧
    v.Gives "lookahead" 18 lookahead ∧ v.Gives "min_match" 3 minMatch ∧
      (1 ≤ windowSize ∧ windowSize ≤ 65535) ∧ (1 ≤ lookahead ∧ lookahead ≤ 255) ∧
        1 ≤ minMatch ∧ minMatch ≤ lookahead

/-- The default algorithm, if it is given, is one. -/
def Resolves (room : ShownRoom) (raw : Value) : Prop :=
  ∀ selector, raw.setting? "default_algorithm" = some selector →
    ∃ a, Algorithm.parse room.setting selector = .ok a

/-- A configuration, if these values count as nothing. -/
structure DescribesConfig (room : ShownRoom) (nothing : Value → Prop) (raw : Value) : Prop where
  isGroup : raw.IsGroup nothing
  keysAmong : raw.KeysAmong configKeys
  resolves : raw.Resolves room
  params : ∀ group, raw.setting? "lzss" = some group → group.DescribesParams nothing

variable {room : ShownRoom} {v raw : Value}

theorem IsGroup.mono {nothing nothing' : Value → Prop} (h : v.IsGroup nothing)
    (himp : ∀ v, nothing v → nothing' v) : v.IsGroup nothing' :=
  h.imp_left (himp v)

theorem exists_groupParams_iff {depth : Nat} :
    (∃ params, groupParams depth v = .ok params) ↔ v.DescribesParams (·.isVoid = true) := by
  constructor
  · rintro ⟨params, hparams⟩
    by_cases hgroup : v.IsGroup (·.isVoid = true)
    · rw [groupParams_of_isGroup hgroup, lzssParamsOf_eq_ok_iff] at hparams
      obtain ⟨hkeys, hwhole, hw, hl, hm⟩ := hparams
      have hwindow := params.windowSize_range
      have hlookahead := params.lookahead_range
      have hminMatch := params.minMatch_range
      exact ⟨hgroup, hkeys, hwhole, _, _, _, hw, hl, hm, by omega, by omega, by omega, by omega⟩
    · rw [groupParams_of_not_isGroup hgroup] at hparams
      cases hparams
  · rintro ⟨hgroup, hkeys, hwhole, w, l, m, hw, hl, hm, hwindow, hlookahead, hminMatch⟩
    refine ⟨⟨w.toNat, l.toNat, m.toNat, by omega, by omega, by omega⟩, ?_⟩
    rw [groupParams_of_isGroup hgroup, lzssParamsOf_eq_ok_iff]
    simp only
    rw [Int.toNat_of_nonneg (by omega), Int.toNat_of_nonneg (by omega),
      Int.toNat_of_nonneg (by omega)]
    exact ⟨hkeys, hwhole, hw, hl, hm⟩

theorem describesParams_null : Value.null.DescribesParams (·.isVoid = true) :=
  exists_groupParams_iff.mp ⟨{}, show groupParams 0 .null = .ok {} from rfl⟩

theorem exists_defaultAlgorithmOf_iff :
    (∃ a, defaultAlgorithmOf room.setting raw.entries = .ok a) ↔ raw.Resolves room := by
  simp only [defaultAlgorithmOf_eq_ok_iff, Resolves]
  cases raw.setting? "default_algorithm" with
  | none => simp
  | some selector => simp

end Value

/-- A configuration with the algorithm and the parameters that are given, and defaults for those
that are not. -/
structure EngineConfig.Follows (config : EngineConfig) (room : ShownRoom) (raw : Value) :
    Prop where
  algorithm : ∀ selector, raw.setting? "default_algorithm" = some selector →
    Algorithm.parse room.setting selector = .ok config.defaultAlgorithm
  algorithm_default : raw.setting? "default_algorithm" = none → config.defaultAlgorithm = .huffman
  windowSize : raw.params.Gives "window_size" 4096 config.lzss.windowSize
  lookahead : raw.params.Gives "lookahead" 18 config.lzss.lookahead
  minMatch : raw.params.Gives "min_match" 3 config.lzss.minMatch

/-! ### Configurations in files -/

/-- The configuration in a file. -/
def Medium.configAt (medium : Medium) (store : FileStore) (path : String) :
    Except ConfigFileError EngineConfig :=
  match medium.read store path with
  | .error e => .error (.file e)
  | .ok data => configOfLoaded medium.room path (medium.load data)

/-- With and without the log lines for faults, configurations are read alike. -/
theorem loadConfig_run {medium : Medium} {host : Host (StateM World) Node} {world : World}
    {path : String} (hread : host.read = (World.hostOn medium).read)
    (hload : host.load = medium.load) (hroom : host.room = medium.room) :
    (loadConfig host (some path)).run world = (medium.configAt world.store path, world) := by
  have hrun : (host.read path).run world = (medium.read world.store path, world) := by
    rw [hread]
    rfl
  rw [loadConfig, run_bind_of_run hrun, Medium.configAt]
  cases medium.read world.store path with
  | error e => rfl
  | ok data =>
    dsimp only
    rw [hload, hroom]
    rfl

/-! ### Documents -/

namespace EngineConfig

variable {room : ShownRoom} {raw : Value} {config : EngineConfig}

theorem ofDocument_of_isGroup (h : raw.IsGroup (·.isVoid = true)) :
    ofDocument room raw = ofValue room (.map raw.entries) := by
  unfold ofDocument
  obtain hvoid | ⟨entries, rfl⟩ := h
  · rw [if_pos hvoid, Value.entries_of_isVoid hvoid]
  · split
    next hvoid => rw [Value.entries_of_isVoid hvoid]
    next => rfl

theorem ofValue_of_not_map (h : ¬ ∃ entries, raw = .map entries) :
    ofValue room raw = .error (.notAMapping raw) := by
  cases raw with
  | map entries => exact absurd ⟨entries, rfl⟩ h
  | _ => rfl

theorem ofDocument_of_not_isGroup (h : ¬ raw.IsGroup (·.isVoid = true)) :
    ofDocument room raw = .error (.notAMapping raw) := by
  obtain ⟨hvoid, hmap⟩ := not_or.mp h
  unfold ofDocument
  rw [if_neg hvoid]
  exact ofValue_of_not_map hmap

theorem ofDocument_eq_ok_iff : ofDocument room raw = .ok config ↔
    raw.IsGroup (·.isVoid = true) ∧ raw.KeysAmong Value.configKeys ∧
      defaultAlgorithmOf room.setting raw.entries = .ok config.defaultAlgorithm ∧
        groupParams room.parameter raw.params = .ok config.lzss := by
  by_cases hgroup : raw.IsGroup (·.isVoid = true)
  · rw [ofDocument_of_isGroup hgroup, ofValue_map_eq_ok_iff, iff_true_intro hgroup, true_and]
  · simp [ofDocument_of_not_isGroup hgroup, hgroup]

theorem exists_ofDocument_iff :
    (∃ config, ofDocument room raw = .ok config) ↔ raw.DescribesConfig room (·.isVoid = true) := by
  have hparams : (∃ params, groupParams room.parameter raw.params = .ok params) ↔
      ∀ group, raw.setting? "lzss" = some group → group.DescribesParams (·.isVoid = true) := by
    rw [Value.exists_groupParams_iff, Value.params]
    cases raw.setting? "lzss" with
    | none => simpa using Value.describesParams_null
    | some group => simp
  constructor
  · rintro ⟨config, hconfig⟩
    obtain ⟨hgroup, hkeys, halgorithm, hlzss⟩ := ofDocument_eq_ok_iff.mp hconfig
    exact ⟨hgroup, hkeys, Value.exists_defaultAlgorithmOf_iff.mp ⟨_, halgorithm⟩,
      hparams.mp ⟨_, hlzss⟩⟩
  · rintro ⟨hgroup, hkeys, hresolves, hgroupParams⟩
    obtain ⟨a, ha⟩ := Value.exists_defaultAlgorithmOf_iff.mpr hresolves
    obtain ⟨params, hlzss⟩ := hparams.mpr hgroupParams
    exact ⟨⟨params, a⟩, ofDocument_eq_ok_iff.mpr ⟨hgroup, hkeys, ha, hlzss⟩⟩

theorem follows_of_ofDocument (h : ofDocument room raw = .ok config) : config.Follows room raw := by
  obtain ⟨_, _, halgorithm, hlzss⟩ := ofDocument_eq_ok_iff.mp h
  obtain ⟨hgiven, hdefault⟩ := defaultAlgorithmOf_eq_ok_iff.mp halgorithm
  have hgroup := (Value.exists_groupParams_iff.mp ⟨_, hlzss⟩).isGroup
  rw [groupParams_of_isGroup hgroup, lzssParamsOf_eq_ok_iff] at hlzss
  obtain ⟨_, _, hw, hl, hm⟩ := hlzss
  exact ⟨hgiven, hdefault, hw, hl, hm⟩

/-- What describes a configuration where only `null` counts as nothing does so too where all void
values do, and differs in nothing but this. -/
theorem describesConfig_null_iff : raw.DescribesConfig room (· = .null) ↔
    raw.DescribesConfig room (·.isVoid = true) ∧ raw.IsGroup (· = .null) ∧
      ∀ group, raw.setting? "lzss" = some group → group.IsGroup (· = .null) := by
  have himp : ∀ v : Value, v = .null → v.isVoid = true := by
    rintro _ rfl
    rfl
  constructor
  · rintro ⟨hgroup, hkeys, hresolves, hparams⟩
    refine ⟨⟨hgroup.mono himp, hkeys, hresolves, fun group hsetting => ?_⟩, hgroup,
      fun group hsetting => (hparams group hsetting).isGroup⟩
    obtain ⟨hparamsGroup, hparamKeys, hwhole, hrange⟩ := hparams group hsetting
    exact ⟨hparamsGroup.mono himp, hparamKeys, hwhole, hrange⟩
  · rintro ⟨⟨_, hkeys, hresolves, hparams⟩, hgroup, hnull⟩
    refine ⟨hgroup, hkeys, hresolves, fun group hsetting => ?_⟩
    obtain ⟨_, hparamKeys, hwhole, hrange⟩ := hparams group hsetting
    exact ⟨hnull group hsetting, hparamKeys, hwhole, hrange⟩

/-- The documents that describe a configuration, and which one. A document, or its group of
parameters, that is void but not `null`, such as a zero or an empty list, is taken for an empty
one. -/
theorem ofDocument_accepts (room : ShownRoom) (raw : Value) :
    ((∃ config, ofDocument room raw = .ok config) ↔ raw.DescribesConfig room (·.isVoid = true)) ∧
      (raw.DescribesConfig room (· = .null) ↔ (∃ config, ofDocument room raw = .ok config) ∧
        raw.IsGroup (· = .null) ∧
          ∀ group, raw.setting? "lzss" = some group → group.IsGroup (· = .null)) ∧
      (∀ config, ofDocument room raw = .ok config → config.Follows room raw) ∧
      ∀ (medium : Medium) (world : World) (path : String) (data : Bytes),
        medium.read world.store path = .ok data → medium.load data = .ok raw → ∀ config,
          (loadConfig (World.hostOn medium) (some path)).run world = (.ok config, world) ↔
            ofDocument medium.room raw = .ok config := by
  refine ⟨exists_ofDocument_iff, ?_, fun config => follows_of_ofDocument, ?_⟩
  · rw [describesConfig_null_iff, exists_ofDocument_iff]
  · intro medium world path data hread hload config
    have hrun : (loadConfig (World.hostOn medium) (some path)).run world =
        (medium.configAt world.store path, world) := loadConfig_run rfl rfl rfl
    have hconfig : medium.configAt world.store path = .ok config ↔
        ofDocument medium.room raw = .ok config := by
      simp only [Medium.configAt, hread, hload, configOfLoaded]
      cases ofDocument medium.room raw <;> simp
    rw [hrun, ← hconfig]
    exact ⟨congrArg Prod.fst, congrArg (·, world)⟩

/-- An empty list is no configuration, and falsehood no group of parameters, but they are taken
for such. -/
theorem ofDocument_void :
    (∀ room, ofDocument room (.list []) = .ok .initial ∧
      ¬ (Value.list []).DescribesConfig room (· = .null)) ∧
      ∀ room, ofDocument room (.map [(.text (textOf "lzss"), .bool false)]) = .ok .initial ∧
        ¬ (Value.map [(.text (textOf "lzss"), .bool false)]).DescribesConfig room (· = .null) := by
  refine ⟨fun room => ⟨rfl, fun h => ?_⟩, fun room => ⟨rfl, fun h => ?_⟩⟩
  · obtain hnull | ⟨entries, hmap⟩ := h.isGroup
    · cases hnull
    · cases hmap
  · obtain hnull | ⟨entries, hmap⟩ := (h.params (.bool false) (by rfl)).isGroup
    · cases hnull
    · cases hmap

end EngineConfig

end Compression
