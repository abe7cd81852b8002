import Compression.Proofs.ArgumentGroups
import Compression.Proofs.ConfigFaults
import Compression.Proofs.LogLines

namespace Compression

/-- How a command ends with a selector that leads to no algorithm. -/
def SelectorError.answer (e : SelectorError) : Except Escape Ending :=
  match e.code? with
  | some _ => .ok (.noAlgorithm e)
  | none => .error (.selector e)

theorem SelectorError.status_of_answer {e : SelectorError} {ending : Ending}
    (h : e.answer = .ok ending) : ending.status = 1 := by
  rw [answer] at h
  split at h
  next => cases h; rfl
  next => cases h

/-- How a command ends with what its call answers. -/
def Call.ended (call : Call) (algorithm : Algorithm) :
    Except Failure Result → Except Escape Ending
  | .error e => .error (.call e)
  | .ok r =>
    if r.ok then
      .ok (.done {
        operation := call.operation
        algorithm := algorithm.name
        inputPath := call.path
        outputPath := r.outputPath.getD ""
        bytesIn := r.bytesIn
        bytesOut := r.bytesOut })
    else .ok (.failed call.operation.name r.error)

/-- Options with an input, and perhaps an output. -/
structure Command where
  options : Options
  input : String
  output : Option String

namespace Command

variable (command : Command)

/-- The configuration in the file that is named; without one, the defaults. -/
def configIn (medium : Medium) (store : FileStore) : Except ConfigFileError EngineConfig :=
  match command.options.config with
  | none => .ok .initial
  | some path => medium.configAt store path

/-- The algorithm that is named; without one, that of the configuration. -/
def algorithmBy (medium : Medium) (config : EngineConfig) : Except SelectorError Algorithm :=
  match command.options.algorithm with
  | none => .ok config.defaultAlgorithm
  | some name => Algorithm.parse medium.room.selector (.text name)

def unloaded (e : ConfigFileError) : Except Escape Ending :=
  if e.isReported then .ok (.noConfig (command.options.config.getD "") e) else .error (.config e)

/-- The stages before the run, or how the command ends with the first that fails. -/
def prepare (medium : Medium) (store : FileStore) :
    Except (Except Escape Ending) (EngineConfig × Algorithm) :=
  match command.configIn medium store with
  | .error e => .error (command.unloaded e)
  | .ok config =>
    match command.algorithmBy medium config with
    | .error e => .error e.answer
    | .ok algorithm => .ok (config, algorithm)

/-- The run, for files. -/
def call (config : EngineConfig) (algorithm : Algorithm) : Call where
  operation := if command.options.decompress then .decompress else .compress
  selector := .int algorithm.number
  path := command.input
  output := command.output
  config

/-- What a command answers and the store that it leaves, stage by stage. -/
def effect (medium : Medium) (world : World) : Except Escape Ending × FileStore :=
  match command.prepare medium world.store with
  | .error answer => (answer, world.store)
  | .ok (config, algorithm) =>
    if command.options.folder then
      (.ok (.failed "folder compression" ErrorCode.notImplemented.number), world.store)
    else
      let (answer, after) := world.call medium (command.call config algorithm)
      ((command.call config algorithm).ended algorithm answer, after.store)

/-- All stages succeed, and the result is fine. -/
def Succeeds (medium : Medium) (world : World) : Prop :=
  ∃ config algorithm r, command.prepare medium world.store = .ok (config, algorithm) ∧
    (world.call medium (command.call config algorithm)).1 = .ok r ∧ r.ok = true

variable {command} {medium : Medium} {world : World}

section

variable {store : FileStore} {config : EngineConfig} {algorithm : Algorithm}

theorem prepare_of_config_error {e : ConfigFileError}
    (h : command.configIn medium store = .error e) :
    command.prepare medium store = .error (command.unloaded e) := by
  simp only [prepare, h]

theorem prepare_of_algorithm_error {e : SelectorError}
    (h : command.configIn medium store = .ok config)
    (ha : command.algorithmBy medium config = .error e) :
    command.prepare medium store = .error e.answer := by
  simp only [prepare, h, ha]

theorem prepare_of_ok (h : command.configIn medium store = .ok config)
    (ha : command.algorithmBy medium config = .ok algorithm) :
    command.prepare medium store = .ok (config, algorithm) := by
  simp only [prepare, h, ha]

theorem status_of_unloaded {e : ConfigFileError} {ending : Ending}
    (h : command.unloaded e = .ok ending) : ending.status = 1 := by
  rw [unloaded] at h
  split at h
  next => cases h; rfl
  next => cases h

/-- A command that ends before the run does not end well. -/
theorem status_of_prepare_error {answer : Except Escape Ending} {ending : Ending}
    (h : command.prepare medium store = .error answer) (hending : answer = .ok ending) :
    ending.status = 1 := by
  cases hconfig : command.configIn medium store with
  | error e =>
    obtain rfl := Except.error.inj (h.symm.trans (prepare_of_config_error hconfig))
    exact status_of_unloaded hending
  | ok config =>
    cases halgorithm : command.algorithmBy medium config with
    | error e =>
      obtain rfl := Except.error.inj (h.symm.trans (prepare_of_algorithm_error hconfig halgorithm))
      exact SelectorError.status_of_answer hending
    | ok algorithm => cases h.symm.trans (prepare_of_ok hconfig halgorithm)

end

theorem effect_of_prepare_error {answer : Except Escape Ending}
    (h : command.prepare medium world.store = .error answer) :
    command.effect medium world = (answer, world.store) := by
  rw [effect, h]

section

variable {config : EngineConfig} {algorithm : Algorithm}
  (h : command.prepare medium world.store = .ok (config, algorithm))

include h

theorem effect_of_folder (hfolder : command.options.folder = true) :
    command.effect medium world =
      (.ok (.failed "folder compression" ErrorCode.notImplemented.number), world.store) := by
  simp only [effect, h, hfolder, if_true]

theorem effect_of_files (hfolder : command.options.folder = false) :
    command.effect medium world =
      ((command.call config algorithm).ended algorithm
        (world.call medium (command.call config algorithm)).1,
        (world.call medium (command.call config algorithm)).2.store) := by
  simp only [effect, h, hfolder, Bool.false_eq_true, if_false]

theorem succeeds_iff : command.Succeeds medium world ↔
    ∃ r, (world.call medium (command.call config algorithm)).1 = .ok r ∧ r.ok = true := by
  constructor
  · rintro ⟨config', algorithm', r, hprepare, hr⟩
    cases h.symm.trans hprepare
    exact ⟨r, hr⟩
  · rintro ⟨r, hr⟩
    exact ⟨config, algorithm, r, h, hr⟩

end

/-- Without a folder, a command that ends does so well just if all its stages succeed. -/
theorem status_of_effect (hfolder : command.options.folder = false) {ending : Ending}
    (h : (command.effect medium world).1 = .ok ending) :
    (ending.status = 0 ↔ command.Succeeds medium world) ∧
      (ending.status = 1 ↔ ¬ command.Succeeds medium world) := by
  cases hprepare : command.prepare medium world.store with
  | error answer =>
    rw [effect_of_prepare_error hprepare] at h
    have hstatus := status_of_prepare_error hprepare h
    have hnot : ¬ command.Succeeds medium world := by
      rintro ⟨_, _, _, hok, _⟩
      cases hprepare.symm.trans hok
    simp [hstatus, hnot]
  | ok stages =>
    obtain ⟨config, algorithm⟩ := stages
    rw [effect_of_files hprepare hfolder] at h
    rw [succeeds_iff hprepare]
    cases hcall : (world.call medium (command.call config algorithm)).1 with
    | error e =>
      rw [hcall] at h
      cases h
    | ok r =>
      rw [hcall, Call.ended] at h
      cases hok : r.ok with
      | true =>
        rw [hok, if_pos rfl] at h
        cases h
        simp [Ending.status, hok]
      | false =>
        rw [hok, if_neg Bool.false_ne_true] at h
        cases h
        simp [Ending.status, hok]

theorem folder_of_effect (hfolder : command.options.folder = true) :
    (command.effect medium world).2 = world.store ∧
      ∀ ending, (command.effect medium world).1 = .ok ending → ending.status = 1 := by
  cases hprepare : command.prepare medium world.store with
  | error answer =>
    rw [effect_of_prepare_error hprepare]
    exact ⟨rfl, fun ending h => status_of_prepare_error hprepare h⟩
  | ok stages =>
    rw [effect_of_folder hprepare hfolder]
    refine ⟨rfl, fun ending h => ?_⟩
    cases h
    rfl

/-- What a command answers and the store that it leaves are those of its stages. -/
structure Obeyed (command : Command) (medium : Medium) (world : World)
    (answer : Except Escape Ending) (store : FileStore) : Prop where
  answer_eq : answer = (command.effect medium world).1
  store_eq : store = (command.effect medium world).2
  status : command.options.folder = false → ∀ ending, answer = .ok ending →
    (ending.status = 0 ↔ command.Succeeds medium world) ∧
      (ending.status = 1 ↔ ¬ command.Succeeds medium world)
  unprepared : ∀ ended, command.prepare medium world.store = .error ended → store = world.store
  folder : command.options.folder = true →
    store = world.store ∧ ∀ ending, answer = .ok ending → ending.status = 1

variable (command medium world) in
theorem obeyed_effect : command.Obeyed medium world (command.effect medium world).1
    (command.effect medium world).2 where
  answer_eq := rfl
  store_eq := rfl
  status hfolder _ h := status_of_effect hfolder h
  unprepared _ h := by rw [effect_of_prepare_error h]
  folder hfolder := folder_of_effect hfolder

/-! ### Runs -/

theorem loadConfig_run (command : Command) (medium : Medium) (world : World) :
    (Compression.loadConfig (World.hostOn medium) command.options.config).run world =
      (command.configIn medium world.store, world) := by
  rw [configIn]
  cases command.options.config with
  | none => rfl
  | some path => exact Compression.loadConfig_run rfl rfl rfl

section

variable {config : EngineConfig}

theorem callWith_of_error {e : SelectorError} (h : command.algorithmBy medium config = .error e) :
    callWith (World.hostOn medium) command.options config command.input command.output =
      pure e.answer := by
  rw [algorithmBy] at h
  unfold callWith
  cases hname : command.options.algorithm with
  | none => rw [hname] at h; cases h
  | some name =>
    rw [hname] at h
    dsimp only at h
    dsimp only [World.hostOn]
    simp only [h, SelectorError.answer]
    cases e.code? <;> rfl

theorem callWith_of_ok {algorithm : Algorithm}
    (h : command.algorithmBy medium config = .ok algorithm) :
    callWith (World.hostOn medium) command.options config command.input command.output =
      if command.options.folder then do
        let result ← compressFolder (World.hostOn medium) command.input
        return .ok (.failed "folder compression" result.error)
      else callFiles (World.hostOn medium) command.options algorithm config command.input
        command.output := by
  rw [algorithmBy] at h
  unfold callWith
  cases hname : command.options.algorithm with
  | none =>
    rw [hname] at h
    obtain rfl := Except.ok.inj h
    rfl
  | some name =>
    rw [hname] at h
    dsimp only at h
    dsimp only [World.hostOn]
    simp only [h]

theorem callFiles_run (algorithm : Algorithm) :
    (callFiles (World.hostOn medium) command.options algorithm config command.input
        command.output).run world =
      ((command.call config algorithm).ended algorithm
        (world.call medium (command.call config algorithm)).1,
        (world.call medium (command.call config algorithm)).2) := by
  have hrun : (dispatch (World.hostOn medium) (command.call config algorithm).operation
      (.int algorithm.number) command.input command.output config).run world =
        ((world.call medium (command.call config algorithm)).1,
          (world.call medium (command.call config algorithm)).2) := rfl
  refine (run_bind_of_run hrun).trans ?_
  cases (world.call medium (command.call config algorithm)).1 with
  | error e => rfl
  | ok r =>
    rw [Call.ended]
    dsimp only
    cases r.ok <;> rfl

variable (medium) in
theorem callWith_run (hconfig : command.configIn medium world.store = .ok config) :
    ∃ log, (callWith (World.hostOn medium) command.options config command.input
        command.output).run world =
      ((command.effect medium world).1, ⟨(command.effect medium world).2, log⟩) := by
  cases halgorithm : command.algorithmBy medium config with
  | error e =>
    rw [effect_of_prepare_error (prepare_of_algorithm_error hconfig halgorithm),
      callWith_of_error halgorithm]
    exact ⟨world.log, rfl⟩
  | ok algorithm =>
    have hprepare := prepare_of_ok hconfig halgorithm
    rw [callWith_of_ok halgorithm]
    cases hfolder : command.options.folder with
    | true =>
      rw [effect_of_folder hprepare hfolder]
      exact ⟨_, rfl⟩
    | false =>
      rw [effect_of_files hprepare hfolder]
      exact ⟨_, callFiles_run algorithm⟩

end

variable (command medium world)

theorem withConfig_run : ∃ log, (callOptions.withConfig (World.hostOn medium) command.options
      command.input command.output).run world =
    ((command.effect medium world).1, ⟨(command.effect medium world).2, log⟩) := by
  have hload := command.loadConfig_run medium world
  cases hconfig : command.configIn medium world.store with
  | error e =>
    rw [hconfig] at hload
    rw [effect_of_prepare_error (prepare_of_config_error hconfig)]
    exact ⟨world.log, Compression.withConfig_run command.input command.output hload⟩
  | ok config =>
    rw [hconfig] at hload
    obtain ⟨log, hrun⟩ := callWith_run medium hconfig
    exact ⟨log, (run_bind_of_run hload).trans hrun⟩

variable {command}

theorem callOptions_run (program : String)
    (hpaths : command.options.positional = command.input :: command.output.toList) :
    ∃ log, (callOptions (World.hostOn medium) program command.options).run world =
      ((command.effect medium world).1, ⟨(command.effect medium world).2, log⟩) := by
  obtain ⟨log, hrun⟩ := command.withConfig_run medium world
  refine ⟨log, ?_⟩
  cases houtput : command.output with
  | none =>
    rw [houtput] at hpaths hrun
    simpa only [callOptions, hpaths, Option.toList_none] using hrun
  | some output =>
    rw [houtput] at hpaths hrun
    simpa only [callOptions, hpaths, Option.toList_some] using hrun

end Command

variable {groups groups' : List ArgumentGroup} {input : String} {output : Option String}

/-- A command does the same for its arguments in any order that it need not tell apart, and what
it does is what the last options of each kind ask for, stage by stage. -/
theorem runCommand_stages (medium : Medium) (program : String) (world : World)
    (hpaths : groups.filterMap ArgumentGroup.operandPath? = input :: output.toList)
    (hreorders : ArgumentGroup.Reorders groups groups') :
    runCommand (World.hostOn medium) (program :: groups'.flatMap ArgumentGroup.arguments) =
        runCommand (World.hostOn medium) (program :: groups.flatMap ArgumentGroup.arguments) ∧
      ∃ answer after,
        (runCommand (World.hostOn medium)
          (program :: groups.flatMap ArgumentGroup.arguments)).run world = (answer, after) ∧
        Command.Obeyed ⟨.ofGroups groups, input, output⟩ medium world answer after.store := by
  have hne : groups ≠ [] := by
    rintro rfl
    cases hpaths
  let command : Command := ⟨.ofGroups groups, input, output⟩
  obtain ⟨log, hrun⟩ := command.callOptions_run medium world program hpaths
  -- What is logged with and without `--verbose` makes no difference to the rest.
  have hagree := callOptions_agree
    (Host.sameButLog_of_verbose medium command.options.verbose) program command.options
  obtain ⟨log', hrun'⟩ := hagree.run_of_run hrun
  refine ⟨(hreorders.runCommand_eq _ program).symm, (command.effect medium world).1,
    ⟨(command.effect medium world).2, log'⟩, ?_, command.obeyed_effect medium world⟩
  rw [runCommand_groups _ program hne]
  exact hrun'

/-- Values that look like options, and a path between two algorithms. -/
theorem runCommand_stages_interleaved :
    let groups : List ArgumentGroup := [.algorithm false "-d", .operand ⟨"-", fun _ => rfl⟩,
      .config "--folder", .algorithm true "dct", .decompress, .operand ⟨"b", by decide⟩]
    let groups' : List ArgumentGroup := [.decompress, .algorithm false "-d",
      .algorithm true "dct", .operand ⟨"-", fun _ => rfl⟩, .operand ⟨"b", by decide⟩,
      .config "--folder"]
    (groups.filterMap ArgumentGroup.operandPath? = ["-", "b"] ∧
      ArgumentGroup.Reorders groups groups') ∧
    runCommand (World.hostOn (.plain id))
          ("compengine" :: groups'.flatMap ArgumentGroup.arguments) =
        runCommand (World.hostOn (.plain id))
          ("compengine" :: groups.flatMap ArgumentGroup.arguments) ∧
      ∃ answer after,
        (runCommand (World.hostOn (.plain id))
          ("compengine" :: groups.flatMap ArgumentGroup.arguments)).run {} = (answer, after) ∧
        Command.Obeyed
          ⟨⟨true, false, false, some "dct", some "--folder", ["-", "b"]⟩, "-", some "b"⟩
          (.plain id) {} answer after.store := by
  intro groups groups'
  have hreorders : ArgumentGroup.Reorders groups groups' := ⟨by decide, rfl, rfl, rfl⟩
  exact ⟨⟨rfl, hreorders⟩, runCommand_stages (.plain id) "compengine" {} rfl hreorders⟩

end Compression
