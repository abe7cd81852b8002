import Compression.CommandLine
import Compression.Proofs.CallRuns

namespace Compression

/-- Two steps in memory that answer the same and leave the same store, whatever the logs hold. -/
def AgreeButLog {α : Type} (step step' : StateM World α) : Prop :=
  ∀ store log log', ∃ answer after logged logged',
    step.run ⟨store, log⟩ = (answer, ⟨after, logged⟩) ∧
      step'.run ⟨store, log'⟩ = (answer, ⟨after, logged'⟩)

namespace AgreeButLog

variable {α β : Type}

theorem pure (a : α) : AgreeButLog (Pure.pure a) (Pure.pure a) :=
  fun store log log' => ⟨a, store, log, log', rfl, rfl⟩

theorem bind {step step' : StateM World α} {next next' : α → StateM World β}
    (hs : AgreeButLog step step') (hn : ∀ a, AgreeButLog (next a) (next' a)) :
    AgreeButLog (step >>= next) (step' >>= next') := by
  intro store log log'
  obtain ⟨answer, after, logged, logged', hstep, hstep'⟩ := hs store log log'
  obtain ⟨answer', after', last, last', hnext, hnext'⟩ := hn answer after logged logged'
  exact ⟨answer', after', last, last', (run_bind_of_run hstep).trans hnext,
    (run_bind_of_run hstep').trans hnext'⟩

theorem change (f : FileStore → α × FileStore) :
    AgreeButLog (World.change f) (World.change f) :=
  fun store log log' => ⟨(f store).1, (f store).2, log, log', rfl, rfl⟩

theorem tryChange {ε : Type} (f : FileStore → Except ε (α × FileStore)) :
    AgreeButLog (World.tryChange f) (World.tryChange f) :=
  change _

theorem of_looksOnly {step step' : StateM World Unit} (h : LooksOnly step)
    (h' : LooksOnly step') : AgreeButLog step step' := by
  intro store log log'
  obtain ⟨_, hrun⟩ := h
  obtain ⟨_, hrun'⟩ := h'
  obtain ⟨logged, hstep⟩ := hrun ⟨store, log⟩
  obtain ⟨logged', hstep'⟩ := hrun' ⟨store, log'⟩
  exact ⟨(), store, logged, logged', hstep, hstep'⟩

theorem run_of_run {step step' : StateM World α} (h : AgreeButLog step step') {world : World}
    {a : α} {after : FileStore} {log : Array LogRecord}
    (hrun : step.run world = (a, ⟨after, log⟩)) :
    ∃ log', step'.run world = (a, ⟨after, log'⟩) := by
  obtain ⟨answer, after', logged, logged', hstep, hstep'⟩ := h world.store world.log world.log
  cases hrun.symm.trans hstep
  exact ⟨logged', hstep'⟩

end AgreeButLog

/-- Surroundings that are the same but for what they log. -/
structure Host.SameButLog (host host' : Host (StateM World) Node) : Prop where
  read : ∀ path, AgreeButLog (host.read path) (host'.read path)
  create : ∀ path, AgreeButLog (host.create path) (host'.create path)
  fill : ∀ node data, AgreeButLog (host.fill node data) (host'.fill node data)
  remove : ∀ path, AgreeButLog (host.remove path) (host'.remove path)
  foreignImage : ∀ path, AgreeButLog (host.foreignImage path) (host'.foreignImage path)
  log : ∀ r, AgreeButLog (host.log r) (host'.log r)
  load_eq : host'.load = host.load
  room_eq : host'.room = host.room

theorem Host.sameButLog_of_log (medium : Medium) {log log' : LogRecord → StateM World Unit}
    (h : ∀ r, LooksOnly (log r)) (h' : ∀ r, LooksOnly (log' r)) :
    Host.SameButLog { World.hostOn medium with log } { World.hostOn medium with log := log' } where
  read path := .change fun store => (medium.read store path, store)
  create path := .tryChange (medium.create · path)
  fill node data := .change (medium.fill · node data)
  remove path := .tryChange fun store => (medium.remove store path).map fun after => ((), after)
  foreignImage path := .change fun store => (medium.decode store path, store)
  log r := .of_looksOnly (h r) (h' r)
  load_eq := rfl
  room_eq := rfl

/-- What `--verbose` makes of the surroundings is a matter of the log. -/
theorem Host.sameButLog_of_verbose (medium : Medium) (verbose : Bool) :
    (World.hostOn medium).SameButLog
      (if verbose then World.hostOn medium else (World.hostOn medium).quiet) := by
  have hlog := looksOnly_log medium
  cases verbose with
  | true => exact sameButLog_of_log medium hlog hlog
  | false =>
    refine sameButLog_of_log medium hlog fun r => ?_
    cases r.level with
    | debug => exact .pure ()
    | warning => exact hlog r

section

variable {host host' : Host (StateM World) Node} (h : host.SameButLog host')

include h

theorem readInput_agree (path : String) :
    AgreeButLog (readInput host path) (readInput host' path) := by
  refine (h.read path).bind fun data => ?_
  cases data <;> exact .pure _

theorem writeOutput_agree (path : String) (data : Bytes) :
    AgreeButLog (writeOutput host path data) (writeOutput host' path data) := by
  refine (h.create path).bind fun opened => ?_
  cases opened with
  | error e => exact .pure _
  | ok node =>
    refine (h.fill node data).bind fun filled => ?_
    cases filled with
    | ok _ => exact .pure _
    | error e =>
      refine (h.remove path).bind fun removed => ?_
      cases removed <;> exact .pure _

theorem readImage_agree (path : String) (blob : Bytes) :
    AgreeButLog (readImage host path blob) (readImage host' path blob) := by
  unfold readImage
  split
  next => split <;> exact .pure _
  next =>
    refine (h.log _).bind fun _ => (h.foreignImage path).bind fun image => ?_
    cases image <;> exact .pure _

theorem encodeWith_agree (algorithm : Algorithm) (config : EngineConfig) (path : String)
    (blob : Bytes) :
    AgreeButLog (encodeWith host algorithm config path blob)
      (encodeWith host' algorithm config path blob) := by
  cases algorithm with
  | huffman => simp only [encodeWith]; split <;> exact .pure _
  | lzss => simp only [encodeWith]; split <;> exact .pure _
  | dct =>
    simp only [encodeWith, encodeImageFile]
    split
    next => exact .pure _
    next =>
      refine (readImage_agree h path blob).bind fun image => ?_
      split
      next => exact .pure _
      next => split <;> exact .pure _

theorem writeCoded_agree (target : String) (bytesIn : Nat) (coded : Except Failure Bytes) :
    AgreeButLog (writeCoded host target bytesIn coded) (writeCoded host' target bytesIn coded) := by
  cases coded with
  | error e => exact .pure _
  | ok data =>
    refine (writeOutput_agree h target data).bind fun written => ?_
    cases written <;> exact .pure _

theorem transfer_agree (operation : Operation) (algorithm : Algorithm) (path : String)
    (output : Option String) (config : EngineConfig) :
    AgreeButLog (transfer host operation algorithm path output config)
      (transfer host' operation algorithm path output config) := by
  refine (h.log _).bind fun _ => (readInput_agree h path).bind fun input => ?_
  cases input with
  | error e => exact .pure _
  | ok blob =>
    have hwrite := writeCoded_agree h (outputTarget operation algorithm path output) blob.length
    cases operation with
    | compress => exact (encodeWith_agree h algorithm config path blob).bind hwrite
    | decompress => exact hwrite (decodeWith algorithm path blob)

theorem reportFailure_agree (operation : Operation) (path : String) (bytesIn : Nat)
    (e : Failure) :
    AgreeButLog (reportFailure host operation path bytesIn e)
      (reportFailure host' operation path bytesIn e) := by
  unfold reportFailure
  cases e.code? with
  | none => exact .pure _
  | some code => exact (h.log _).bind fun _ => .pure _

/-- What a call logs has no part in its answer or in the files that it leaves. -/
theorem dispatch_agree (operation : Operation) (selector : Value) (path : String)
    (output : Option String) (config : EngineConfig) :
    AgreeButLog (dispatch host operation selector path output config)
      (dispatch host' operation selector path output config) := by
  unfold dispatch
  rw [h.room_eq]
  cases Algorithm.parse host.room.selector selector with
  | error e => exact reportFailure_agree h operation path 0 (.selector e)
  | ok algorithm =>
    refine (transfer_agree h operation algorithm path output config).bind ?_
    rintro ⟨bytesIn, answer⟩
    cases answer with
    | error e => exact reportFailure_agree h operation path bytesIn e
    | ok out => exact (h.log _).bind fun _ => .pure _

theorem loadConfig_agree (path : Option String) :
    AgreeButLog (loadConfig host path) (loadConfig host' path) := by
  cases path with
  | none => exact .pure _
  | some path =>
    refine (h.read path).bind fun data => ?_
    cases data with
    | error e => exact .pure _
    | ok data =>
      dsimp only
      rw [h.load_eq, h.room_eq]
      exact .pure _

theorem callWith_agree (o : Options) (config : EngineConfig) (input : String)
    (output : Option String) :
    AgreeButLog (callWith host o config input output)
      (callWith host' o config input output) := by
  unfold callWith
  rw [h.room_eq]
  dsimp only
  split
  next => split <;> exact .pure _
  next =>
    split
    next => exact ((h.log _).bind fun _ => .pure _).bind fun _ => .pure _
    next =>
      refine (dispatch_agree h _ _ input output config).bind fun answer => ?_
      cases answer with
      | error e => exact .pure _
      | ok r =>
        dsimp only
        split <;> exact .pure _

theorem callOptions_agree (program : String) (o : Options) :
    AgreeButLog (callOptions host program o) (callOptions host' program o) := by
  have hwith : ∀ input output, AgreeButLog (callOptions.withConfig host o input output)
      (callOptions.withConfig host' o input output) := by
    intro input output
    refine (loadConfig_agree h o.config).bind fun loaded => ?_
    cases loaded with
    | error e => dsimp only; split <;> exact .pure _
    | ok config => exact callWith_agree h o config input output
  unfold callOptions
  split
  next => exact hwith _ none
  next => exact hwith _ _
  next => exact .pure _

end

end Compression
