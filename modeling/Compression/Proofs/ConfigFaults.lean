import Compression.CommandLine
import Compression.Proofs.ConfigAcceptance

namespace Compression

/-! ### Faults of a value -/

/-- A value that is no configuration, where this is not told but ends what asked for it: it has a
key that is no text, or what would be shown of it is nested too deeply. The checks before have to
be passed. -/
inductive Value.Unreportable (room : ShownRoom) (raw : Value) : Prop where
  | oddKey : raw.HasOddKey → Unreportable room raw
  | deepSelector {selector : Value} : raw.KeysAmong configKeys →
      raw.setting? "default_algorithm" = some selector →
      selector.unshowable? room.setting = some .tooDeep → Unreportable room raw
  | oddParamKey : raw.KeysAmong configKeys → raw.Resolves room → raw.params.HasOddKey →
      Unreportable room raw
  | deepParam : raw.KeysAmong configKeys → raw.Resolves room → raw.params.KeysAmong paramKeys →
      StopsTooDeep room.parameter raw.params.entries → Unreportable room raw

theorem breaksOff_groupParams_iff {depth : Nat} {v : Value} : BreaksOff (groupParams depth v) ↔
    v.HasOddKey ∨ v.KeysAmong Value.paramKeys ∧ StopsTooDeep depth v.entries := by
  by_cases hgroup : v.IsGroup (·.isVoid = true)
  · rw [groupParams_of_isGroup hgroup, breaksOff_lzssParamsOf_iff]
  · have hentries := Value.entries_of_not_map (not_or.mp hgroup).2
    rw [groupParams_of_not_isGroup hgroup, breaksOff_error_iff]
    simp [Value.HasOddKey, StopsTooDeep, hentries, ConfigError.isReported]

namespace EngineConfig

variable {room : ShownRoom} {raw : Value}

theorem breaksOff_ofValue_iff : BreaksOff (ofValue room raw) ↔ raw.Unreportable room := by
  by_cases hmap : ∃ entries, raw = .map entries
  · have hraw : ofValue room raw = ofValue room (.map raw.entries) := by
      obtain ⟨entries, rfl⟩ := hmap
      rfl
    rw [hraw, breaksOff_ofValue_map_iff, breaksOff_defaultAlgorithmOf_iff,
      Value.exists_defaultAlgorithmOf_iff, breaksOff_groupParams_iff]
    constructor
    · rintro (hodd | ⟨hkeys, ⟨selector, hsetting, hdeep⟩ | ⟨hresolves, hodd | ⟨hparamKeys, hdeep⟩⟩⟩)
      · exact .oddKey hodd
      · exact .deepSelector hkeys hsetting hdeep
      · exact .oddParamKey hkeys hresolves hodd
      · exact .deepParam hkeys hresolves hparamKeys hdeep
    · intro h
      cases h with
      | oddKey hodd => exact .inl hodd
      | deepSelector hkeys hsetting hdeep => exact .inr ⟨hkeys, .inl ⟨_, hsetting, hdeep⟩⟩
      | oddParamKey hkeys hresolves hodd => exact .inr ⟨hkeys, .inr ⟨hresolves, .inl hodd⟩⟩
      | deepParam hkeys hresolves hparamKeys hdeep =>
        exact .inr ⟨hkeys, .inr ⟨hresolves, .inr ⟨hparamKeys, hdeep⟩⟩⟩
  · rw [ofValue_of_not_map hmap, breaksOff_error_iff]
    have hentries := Value.entries_of_not_map hmap
    have hsetting : ∀ key, raw.setting? key = none := fun key => by
      simp [Value.setting?, valueOf?, hentries]
    have hparams : raw.params = .null := by rw [Value.params, hsetting]; rfl
    refine iff_of_false (by simp [ConfigError.isReported]) fun h => ?_
    cases h with
    | oddKey hodd => simp [Value.HasOddKey, hentries] at hodd
    | deepSelector _ hselector _ => cases (hsetting _).symm.trans hselector
    | oddParamKey _ _ hodd => simp [Value.HasOddKey, hparams, Value.entries] at hodd
    | deepParam _ _ _ hdeep => simp [StopsTooDeep, hparams, Value.entries] at hdeep

theorem reported_iff : ((∃ config, ofValue room raw = .ok config) ∨
    ∃ e, ofValue room raw = .error e ∧ e.isReported = true) ↔ ¬ raw.Unreportable room := by
  rw [← breaksOff_ofValue_iff, BreaksOff]
  cases ofValue room raw with
  | ok config => simp
  | error e => simp

end EngineConfig

/-! ### Commands -/

/-- A command that asks neither for help nor for the version, whose arguments can be taken and name
a file for the configuration beside one or two other paths. -/
inductive LoadsConfig : List String → String → Prop
  | intro {program first path : String} {rest : List String} {o : Options} :
      first ∉ ["-h", "--help", "-v", "--version"] → ({} : Options).read (first :: rest) = .ok o →
      o.config = some path →
      ((∃ input, o.positional = [input]) ∨ ∃ input output, o.positional = [input, output]) →
      LoadsConfig (program :: first :: rest) path

section

variable {medium : Medium} {host : Host (StateM World) Node} {world : World} {path : String}
variable {e : ConfigFileError}

theorem withConfig_run {o : Options} (input : String) (output : Option String)
    (h : (loadConfig host o.config).run world = (.error e, world)) :
    (callOptions.withConfig host o input output).run world =
      (if e.isReported then .ok (.noConfig (o.config.getD "") e) else .error (.config e),
        world) := by
  rw [callOptions.withConfig, run_bind_of_run h]
  dsimp only
  cases e.isReported <;> rfl

/-- A file that gives no configuration ends a command before it touches any other. -/
theorem LoadsConfig.run {args : List String} (h : LoadsConfig args path)
    (hfault : medium.configAt world.store path = .error e) :
    (runCommand (World.hostOn medium) args).run world =
      (if e.isReported then .ok (.noConfig path e) else .error (.config e), world) := by
  cases h with
  | @intro program first path rest o hfirst hread hconfig hcount =>
    simp only [List.mem_cons, List.not_mem_nil, or_false, not_or] at hfirst
    obtain ⟨hh, hhelp, hv, hversion⟩ := hfirst
    have hrun : ∀ host : Host (StateM World) Node, host.read = (World.hostOn medium).read →
        host.load = medium.load → host.room = medium.room →
          (callOptions host program o).run world =
            (if e.isReported then .ok (.noConfig path e) else .error (.config e), world) := by
      intro host hhost hload hroom
      have hloaded : (loadConfig host o.config).run world = (.error e, world) := by
        rw [hconfig, loadConfig_run hhost hload hroom, hfault]
      have hwith := fun input output => withConfig_run input output hloaded
      simp only [hconfig, Option.getD_some] at hwith
      obtain ⟨input, hinput⟩ | ⟨input, output, hboth⟩ := hcount
      · simp only [callOptions, hinput]
        exact hwith input none
      · simp only [callOptions, hboth]
        exact hwith input (some output)
    simp only [runCommand, hh, hhelp, hv, hversion, or_self, if_false, hread]
    cases o.verbose with
    | true => exact hrun _ rfl rfl rfl
    | false => exact hrun _ rfl rfl rfl

end

theorem EngineConfig.ofValue_of_ofDocument {room : ShownRoom} {raw : Value} {e : ConfigError}
    (h : ofDocument room raw = .error e) : ofValue room raw = .error e := by
  by_cases hvoid : raw.isVoid = true
  · rw [ofDocument, if_pos hvoid] at h
    cases h
  · rwa [ofDocument, if_neg hvoid] at h

/-- Which values are no configuration without this being told as a fault of the configuration, and
what becomes of a command whose file holds a value that is none. -/
theorem EngineConfig.ofValue_reports (raw : Value) :
    (∀ room, ((∃ config, ofValue room raw = .ok config) ∨
      ∃ e, ofValue room raw = .error e ∧ e.isReported = true) ↔ ¬ raw.Unreportable room) ∧
      ∀ (medium : Medium) (world : World) (args : List String) (path : String) (data : Bytes)
        (e : ConfigError), LoadsConfig args path →
        medium.read world.store path = .ok data → medium.load data = .ok raw →
        ofDocument medium.room raw = .error e →
          (¬ raw.Unreportable medium.room → ∃ ending,
            (runCommand (World.hostOn medium) args).run world = (.ok ending, world) ∧
              ending.status = 1 ∧ ending.complaint =
                textOf s!"Error: Cannot load config: {path} (" ++ e.message ++ textOf ")\n") ∧
          (raw.Unreportable medium.room → (runCommand (World.hostOn medium) args).run world =
            (.error (.config (.config e)), world)) := by
  refine ⟨fun room => reported_iff, ?_⟩
  intro medium world args path data e hloads hread hload he
  have hfault : medium.configAt world.store path = .error (.config e) := by
    simp only [Medium.configAt, hread, hload, configOfLoaded, he]
  have hrun := hloads.run hfault
  have hreported : (ConfigFileError.config e).isReported = true ↔
      ¬ raw.Unreportable medium.room := by
    rw [← reported_iff, ofValue_of_ofDocument he]
    simp [ConfigFileError.isReported]
  refine ⟨fun h => ⟨.noConfig path (.config e), ?_, rfl, rfl⟩, fun h => ?_⟩
  · rw [hrun, if_pos (hreported.mpr h)]
  · rw [hrun, if_neg fun hr => hreported.mp hr h]

/-- A key that is a number is no fault of the configuration that is told. -/
theorem EngineConfig.ofValue_odd_key :
    (∃ e, ∀ room, ofValue room (.map [(.int 1, .int 2)]) = .error e) ∧
      ∀ room e, ofValue room (.map [(.int 1, .int 2)]) = .error e → e.isReported = false := by
  refine ⟨⟨.unorderedKeys, fun room => rfl⟩, fun room e h => ?_⟩
  cases h
  rfl

end Compression
