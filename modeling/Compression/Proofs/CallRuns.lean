import Compression.Dispatch
import Compression.Proofs.MediumSteps
import Mathlib.Tactic.Choose

namespace Compression

/-- A step in memory that leaves the store alone and answers by what it holds. -/
def LooksOnly {α : Type} (step : StateM World α) : Prop :=
  ∃ answer : FileStore → α, ∀ world, ∃ log,
    step.run world = (answer world.store, ⟨world.store, log⟩)

theorem LooksOnly.pure {α : Type} (a : α) : LooksOnly (Pure.pure a : StateM World α) :=
  ⟨fun _ => a, fun world => ⟨world.log, rfl⟩⟩

theorem LooksOnly.bind {α β : Type} {step : StateM World α} {next : α → StateM World β}
    (hs : LooksOnly step) (hn : ∀ a, LooksOnly (next a)) : LooksOnly (step >>= next) := by
  obtain ⟨answer, hanswer⟩ := hs
  choose answers hanswers using hn
  refine ⟨fun store => answers (answer store) store, fun world => ?_⟩
  obtain ⟨log, hstep⟩ := hanswer world
  obtain ⟨log', hnext⟩ := hanswers (answer world.store) ⟨world.store, log⟩
  exact ⟨log', by rw [StateT.run_bind, hstep]; exact hnext⟩

theorem LooksOnly.run {α : Type} {step : StateM World α} (h : LooksOnly step) (world : World) :
    ∃ log, step.run world = ((step.run { store := world.store }).1, ⟨world.store, log⟩) := by
  obtain ⟨answer, hanswer⟩ := h
  obtain ⟨log, hrun⟩ := hanswer world
  obtain ⟨log', hfresh⟩ := hanswer { store := world.store }
  exact ⟨log, by rw [hrun, hfresh]⟩

section

variable (medium : Medium)

theorem looksOnly_log (r : LogRecord) : LooksOnly ((World.hostOn medium).log r) :=
  ⟨fun _ => (), fun world => ⟨world.log.push r, rfl⟩⟩

theorem looksOnly_foreignImage (path : String) :
    LooksOnly ((World.hostOn medium).foreignImage path) :=
  ⟨fun store => medium.decode store path, fun world => ⟨world.log, rfl⟩⟩

theorem looksOnly_readImage (path : String) (blob : Bytes) :
    LooksOnly (readImage (World.hostOn medium) path blob) := by
  unfold readImage
  split
  next => split <;> exact .pure _
  next =>
    refine (looksOnly_log medium _).bind fun _ => (looksOnly_foreignImage medium path).bind ?_
    intro image
    split <;> exact .pure _

theorem looksOnly_encodeWith (algorithm : Algorithm) (config : EngineConfig) (path : String)
    (blob : Bytes) : LooksOnly (encodeWith (World.hostOn medium) algorithm config path blob) := by
  cases algorithm with
  | huffman => simp only [encodeWith]; split <;> exact .pure _
  | lzss => simp only [encodeWith]; split <;> exact .pure _
  | dct =>
    simp only [encodeWith, encodeImageFile]
    split
    next => exact .pure _
    next =>
      refine (looksOnly_readImage medium path blob).bind fun image => ?_
      split
      next => exact .pure _
      next => split <;> exact .pure _

end

structure Call where
  operation : Operation
  selector : Value
  path : String
  output : Option String
  config : EngineConfig

namespace Call

def choice (call : Call) (medium : Medium) : Except SelectorError Algorithm :=
  Algorithm.parse medium.room.selector call.selector

def target (call : Call) (algorithm : Algorithm) : String :=
  outputTarget call.operation algorithm call.path call.output

/-- What an algorithm makes of the contents of the input. -/
def code (call : Call) (medium : Medium) (store : FileStore) (algorithm : Algorithm)
    (blob : Bytes) : Except Failure Bytes :=
  match call.operation with
  | .compress =>
    ((encodeWith (World.hostOn medium) algorithm call.config call.path blob).run
      { store := store }).1
  | .decompress => decodeWith algorithm call.path blob

/-- The input is read and its codec comes to an end. -/
structure Produces (call : Call) (medium : Medium) (algorithm : Algorithm) (store : FileStore)
    (blob data : Bytes) : Prop where
  read_eq : medium.read store call.path = .ok blob
  code_eq : call.code medium store algorithm blob = .ok data

/-- The output is opened. -/
structure OpensTarget (call : Call) (medium : Medium) (algorithm : Algorithm) (store : FileStore)
    (place : Place) (node : Node) (opened : FileStore) : Prop where
  create_eq : medium.create store (call.target algorithm) = .ok (node, opened)
  opens : store.Opens (call.target algorithm) place node opened

/-- An output is begun and its name taken away again. -/
theorem OpensTarget.exists_unnamed {call : Call} {medium : Medium} {algorithm : Algorithm}
    {store opened part after : FileStore} {place : Place} {node : Node} {data : Bytes}
    {answer : Except SystemError Unit}
    (h : call.OpensTarget medium algorithm store place node opened)
    (hfill : medium.fill opened node data = (answer, part))
    (hremove : medium.remove part (call.target algorithm) = .ok after) :
    ∃ begun entry, begun <+: data ∧ store.Written place begun node part ∧
      store.goal false (call.target algorithm) = .ok ⟨entry, false⟩ ∧
        store.EndsAt entry place ∧ part.Unnamed entry after := by
  obtain ⟨begun, hbegun, hwritten⟩ := Medium.exists_written_of_fill h.opens.written hfill
  obtain ⟨entry, hentry, hends, hunnamed, hanswer⟩ :=
    Medium.remove_of_written h.create_eq h.opens hwritten
  rw [hremove] at hanswer
  split at hanswer
  next => cases hanswer
  next =>
    obtain rfl := Except.ok.inj hanswer
    exact ⟨begun, entry, hbegun, hwritten, hentry, hends, hunnamed⟩

/-- How a call goes from file to file: the length of the input, as far as it has been read, the
output with its place, and the store that is left. -/
inductive Transfers (call : Call) (medium : Medium) (algorithm : Algorithm) (store : FileStore) :
    Nat → Except Failure (Bytes × String) → FileStore → Prop
  | unread {e : FileError} : medium.read store call.path = .error e →
      Transfers call medium algorithm store 0 (.error (.unreadable call.path e)) store
  | uncoded {blob : Bytes} {e : Failure} : medium.read store call.path = .ok blob →
      call.code medium store algorithm blob = .error e →
      Transfers call medium algorithm store blob.length (.error e) store
  | unopened {blob data : Bytes} {e : FileError} :
      call.Produces medium algorithm store blob data →
      medium.create store (call.target algorithm) = .error e →
      Transfers call medium algorithm store blob.length
        (.error (.unopened (call.target algorithm) e)) store
  | unwritten {blob data : Bytes} {place : Place} {node : Node} {opened part after : FileStore}
      {e : SystemError} : call.Produces medium algorithm store blob data →
      call.OpensTarget medium algorithm store place node opened →
      medium.fill opened node data = (.error e, part) →
      medium.remove part (call.target algorithm) = .ok after →
      Transfers call medium algorithm store blob.length
        (.error (.unwritten (call.target algorithm) e)) after
  | unremoved {blob data : Bytes} {place : Place} {node : Node} {opened part : FileStore}
      {e : SystemError} {e' : FileError} : call.Produces medium algorithm store blob data →
      call.OpensTarget medium algorithm store place node opened →
      medium.fill opened node data = (.error e, part) →
      medium.remove part (call.target algorithm) = .error e' →
      Transfers call medium algorithm store blob.length
        (.error (.unremoved (call.target algorithm) e')) part
  | written {blob data : Bytes} {place : Place} {node : Node} {opened after : FileStore} :
      call.Produces medium algorithm store blob data →
      call.OpensTarget medium algorithm store place node opened →
      medium.fill opened node data = (.ok (), after) →
      Transfers call medium algorithm store blob.length (.ok (data, call.target algorithm)) after

end Call

theorem run_bind_of_run {α β : Type} {step : StateM World α} {next : α → StateM World β}
    {world after : World} {a : α} (h : step.run world = (a, after)) :
    (step >>= next).run world = (next a).run after := by
  rw [StateT.run_bind, h]
  rfl

theorem World.change_run {α : Type} (f : FileStore → α × FileStore) {world : World} {a : α}
    {after : FileStore} (h : f world.store = (a, after)) :
    (World.change f).run world = (a, ⟨after, world.log⟩) := by
  change ((f world.store).1, World.mk (f world.store).2 world.log) = _
  rw [h]

section

variable {ε α : Type} (f : FileStore → Except ε (α × FileStore)) {world : World}

theorem World.tryChange_run_ok {a : α} {after : FileStore} (h : f world.store = .ok (a, after)) :
    (World.tryChange f).run world = (.ok a, ⟨after, world.log⟩) :=
  World.change_run _ (by rw [h])

theorem World.tryChange_run_error {e : ε} (h : f world.store = .error e) :
    (World.tryChange f).run world = (.error e, world) :=
  World.change_run _ (by rw [h])

end

theorem readInput_run (medium : Medium) (path : String) (world : World) :
    (readInput (World.hostOn medium) path).run world =
      ((medium.read world.store path).mapError (.unreadable path), world) := by
  have hread : ((World.hostOn medium).read path).run world =
      (medium.read world.store path, world) := rfl
  refine (run_bind_of_run hread).trans ?_
  cases medium.read world.store path with
  | error e => rfl
  | ok data => rfl

section

variable {medium : Medium} {target : String} {data : Bytes} {world : World}

theorem writeOutput_unopened {e : FileError} (h : medium.create world.store target = .error e) :
    (writeOutput (World.hostOn medium) target data).run world =
      (.error (.unopened target e), world) := by
  have hopen : ((World.hostOn medium).create target).run world = (.error e, world) :=
    World.tryChange_run_error (medium.create · target) h
  exact run_bind_of_run hopen

variable {node : Node} {opened : FileStore}
  (hcreate : medium.create world.store target = .ok (node, opened))

include hcreate

theorem writeOutput_written {after : FileStore}
    (hfill : medium.fill opened node data = (.ok (), after)) :
    (writeOutput (World.hostOn medium) target data).run world = (.ok (), ⟨after, world.log⟩) := by
  have hopen : ((World.hostOn medium).create target).run world = (.ok node, ⟨opened, world.log⟩) :=
    World.tryChange_run_ok (medium.create · target) hcreate
  have hwrite : ((World.hostOn medium).fill node data).run ⟨opened, world.log⟩ =
      (.ok (), ⟨after, world.log⟩) := World.change_run (medium.fill · node data) hfill
  exact (run_bind_of_run hopen).trans (run_bind_of_run hwrite)

theorem writeOutput_stopped {part : FileStore} {e : SystemError}
    (hfill : medium.fill opened node data = (.error e, part)) :
    (writeOutput (World.hostOn medium) target data).run world =
      match medium.remove part target with
      | .ok after => (.error (.unwritten target e), ⟨after, world.log⟩)
      | .error e' => (.error (.unremoved target e'), ⟨part, world.log⟩) := by
  have hopen : ((World.hostOn medium).create target).run world = (.ok node, ⟨opened, world.log⟩) :=
    World.tryChange_run_ok (medium.create · target) hcreate
  have hwrite : ((World.hostOn medium).fill node data).run ⟨opened, world.log⟩ =
      (.error e, ⟨part, world.log⟩) := World.change_run (medium.fill · node data) hfill
  refine (run_bind_of_run hopen).trans ((run_bind_of_run hwrite).trans ?_)
  let f := fun store => (medium.remove store target).map fun after => ((), after)
  cases h : medium.remove part target with
  | ok after =>
    have hf : f part = .ok ((), after) := by simp only [f, h, Except.map]
    exact run_bind_of_run (World.tryChange_run_ok f hf)
  | error e' =>
    have hf : f part = .error e' := by simp only [f, h, Except.map]
    exact run_bind_of_run (World.tryChange_run_error f hf)

end

/-- What a call does once its codec is done. -/
def writeCoded {m : Type → Type} [Monad m] {Handle : Type} (host : Host m Handle)
    (target : String) (bytesIn : Nat) (coded : Except Failure Bytes) :
    m (Nat × Except Failure (Bytes × String)) := do
  match coded with
  | .error e => return (bytesIn, .error e)
  | .ok data =>
    match ← writeOutput host target data with
    | .error e => return (bytesIn, .error e)
    | .ok () => return (bytesIn, .ok (data, target))

theorem writeCoded_run (call : Call) (medium : Medium) (algorithm : Algorithm) (world : World)
    {blob : Bytes} (hread : medium.read world.store call.path = .ok blob) :
    ∃ answer after, (writeCoded (World.hostOn medium) (call.target algorithm) blob.length
        (call.code medium world.store algorithm blob)).run world =
          ((blob.length, answer), after) ∧
      call.Transfers medium algorithm world.store blob.length answer after.store := by
  cases hcode : call.code medium world.store algorithm blob with
  | error e => exact ⟨_, _, rfl, .uncoded hread hcode⟩
  | ok data =>
    have hproduces : call.Produces medium algorithm world.store blob data := ⟨hread, hcode⟩
    cases hcreate : medium.create world.store (call.target algorithm) with
    | error e =>
      exact ⟨_, _, run_bind_of_run (writeOutput_unopened hcreate),
        .unopened hproduces hcreate⟩
    | ok out =>
      obtain ⟨node, opened⟩ := out
      obtain ⟨_, _, place, hopens⟩ := Medium.create_eq_ok_iff.mp hcreate
      obtain ⟨⟨answer, part⟩, hfill⟩ : ∃ out, medium.fill opened node data = out := ⟨_, rfl⟩
      cases answer with
      | ok =>
        exact ⟨_, _, run_bind_of_run (writeOutput_written hcreate hfill),
          .written hproduces ⟨hcreate, hopens⟩ hfill⟩
      | error e =>
        have hrun := writeOutput_stopped hcreate hfill
        cases hremove : medium.remove part (call.target algorithm) with
        | ok after =>
          rw [hremove] at hrun
          exact ⟨_, _, run_bind_of_run hrun, .unwritten hproduces ⟨hcreate, hopens⟩ hfill hremove⟩
        | error e' =>
          rw [hremove] at hrun
          exact ⟨_, _, run_bind_of_run hrun, .unremoved hproduces ⟨hcreate, hopens⟩ hfill hremove⟩

theorem transfer_run (call : Call) (medium : Medium) (algorithm : Algorithm) (world : World) :
    ∃ bytesIn answer after,
      (transfer (World.hostOn medium) call.operation algorithm call.path call.output
        call.config).run world = ((bytesIn, answer), after) ∧
      call.Transfers medium algorithm world.store bytesIn answer after.store := by
  obtain ⟨log, hlog⟩ := (looksOnly_log medium ⟨.debug, engineSource,
    s!"{call.operation.name} {algorithm.name}: {call.path}"⟩).run world
  have hinput := readInput_run medium call.path ⟨world.store, log⟩
  cases hread : medium.read world.store call.path with
  | error e =>
    rw [hread] at hinput
    exact ⟨_, _, _, (run_bind_of_run hlog).trans (run_bind_of_run hinput), .unread hread⟩
  | ok blob =>
    rw [hread] at hinput
    -- A codec leaves no more behind than lines of the log.
    obtain ⟨log', hcoded⟩ : ∃ log',
        (transfer (World.hostOn medium) call.operation algorithm call.path call.output
          call.config).run world =
          (writeCoded (World.hostOn medium) (call.target algorithm) blob.length
            (call.code medium world.store algorithm blob)).run ⟨world.store, log'⟩ := by
      obtain ⟨operation, selector, path, output, config⟩ := call
      cases operation with
      | compress =>
        obtain ⟨log', hencode⟩ :=
          (looksOnly_encodeWith medium algorithm config path blob).run ⟨world.store, log⟩
        exact ⟨log', (run_bind_of_run hlog).trans
          ((run_bind_of_run hinput).trans (run_bind_of_run hencode))⟩
      | decompress => exact ⟨log, (run_bind_of_run hlog).trans (run_bind_of_run hinput)⟩
    obtain ⟨answer, after, hrun, htransfers⟩ :=
      writeCoded_run call medium algorithm ⟨world.store, log'⟩ hread
    exact ⟨_, answer, after, hcoded.trans hrun, htransfers⟩

/-- What a call answers to a failure. -/
def Failure.report (e : Failure) (bytesIn : Nat) : Except Failure Result :=
  match e.code? with
  | none => .error e
  | some code => .ok { bytesIn := bytesIn, error := code.number }

theorem ErrorCode.number_eq_ok_iff {code : ErrorCode} :
    code.number = ErrorCode.ok.number ↔ code = .ok := by
  cases code <;> decide

theorem Failure.code?_ne_ok (e : Failure) : e.code? ≠ some .ok := by
  intro h
  cases e with
  | selector e => cases e <;> cases h
  | unreadable path e => cases e <;> cases h
  | unopened path e => cases e <;> cases h
  | unwritten path e => cases h
  | unremoved path e => cases h
  | emptyImage path => cases h
  | emptyBlockFile path => cases h
  | foreignImage path reason => cases h
  | huffman e => cases e <;> cases h
  | lzss e => cases e <;> cases h
  | netpbm e => cases e <;> cases h
  | blockImage e => cases e <;> cases h

/-- A reported failure is never a result that is fine. -/
theorem Failure.report_eq (e : Failure) (bytesIn : Nat) :
    e.report bytesIn = .error e ∧ e.code? = none ∨
      ∃ code, e.code? = some code ∧ e.report bytesIn = .ok { bytesIn, error := code.number } ∧
        Result.ok { bytesIn, error := code.number } = false := by
  rw [report]
  cases hcode : e.code? with
  | none => exact .inl ⟨rfl, rfl⟩
  | some code =>
    refine .inr ⟨code, rfl, rfl, decide_eq_false fun hok => ?_⟩
    exact e.code?_ne_ok (ErrorCode.number_eq_ok_iff.mp hok ▸ hcode)

theorem reportFailure_run (medium : Medium) (operation : Operation) (path : String) (bytesIn : Nat)
    (e : Failure) (world : World) :
    ∃ log, (reportFailure (World.hostOn medium) operation path bytesIn e).run world =
      (e.report bytesIn, ⟨world.store, log⟩) := by
  rw [reportFailure, Failure.report]
  cases e.code? with
  | none => exact ⟨world.log, rfl⟩
  | some code => exact ⟨_, rfl⟩

/-- What a call answers once it has gone from file to file. -/
def callAnswer (bytesIn : Nat) : Except Failure (Bytes × String) → Except Failure Result
  | .error e => e.report bytesIn
  | .ok (data, target) =>
    .ok { bytesIn := bytesIn, bytesOut := data.length, outputPath := some target }

/-- A call in memory: its answer, and the world that it leaves. -/
def World.call (world : World) (medium : Medium) (call : Call) : Except Failure Result × World :=
  (dispatch (World.hostOn medium) call.operation call.selector call.path call.output
    call.config).run world

theorem exists_result_of_any {answer : Except Failure Result} {p : Result → Bool}
    (h : answer.toOption.any p = true) : ∃ r, answer = .ok r ∧ p r = true := by
  cases answer with
  | error e => cases h
  | ok r => exact ⟨r, rfl, h⟩

theorem call_of_choice_error (medium : Medium) (world : World) {call : Call} {e : SelectorError}
    (h : call.choice medium = .error e) :
    ∃ log, world.call medium call = ((Failure.selector e).report 0, ⟨world.store, log⟩) := by
  rw [Call.choice] at h
  simp only [World.call, dispatch, World.hostOn, h]
  exact reportFailure_run medium call.operation call.path 0 (.selector e) world

theorem call_of_choice (medium : Medium) (world : World) {call : Call} {algorithm : Algorithm}
    (h : call.choice medium = .ok algorithm) :
    ∃ bytesIn answer after, world.call medium call = (callAnswer bytesIn answer, after) ∧
      call.Transfers medium algorithm world.store bytesIn answer after.store := by
  obtain ⟨bytesIn, answer, after, hrun, htransfers⟩ := transfer_run call medium algorithm world
  rw [Call.choice] at h
  simp only [World.call, dispatch, World.hostOn, h]
  cases answer with
  | error e =>
    obtain ⟨log, hreport⟩ := reportFailure_run medium call.operation call.path bytesIn e after
    exact ⟨bytesIn, .error e, ⟨after.store, log⟩, (run_bind_of_run hrun).trans hreport,
      htransfers⟩
  | ok out => exact ⟨bytesIn, .ok out, ⟨after.store, _⟩, run_bind_of_run hrun, htransfers⟩

/-- A call that is fine has written its output. -/
theorem exists_written {medium : Medium} {world after : World} {call : Call} {r : Result}
    {algorithm : Algorithm} (hchoice : call.choice medium = .ok algorithm)
    (hcall : world.call medium call = (.ok r, after)) (hok : r.ok = true) :
    ∃ blob data place node opened, call.Produces medium algorithm world.store blob data ∧
      world.store.Opens (call.target algorithm) place node opened ∧
      medium.fill opened node data = (.ok (), after.store) ∧
      r = { bytesIn := blob.length, bytesOut := data.length,
            outputPath := some (call.target algorithm) } := by
  obtain ⟨bytesIn, answer, after', hcall', htransfers⟩ := call_of_choice medium world hchoice
  rw [hcall, Prod.mk.injEq] at hcall'
  obtain ⟨hr, rfl⟩ := hcall'
  cases answer with
  | error e =>
    obtain ⟨hreport, _⟩ | ⟨code, _, hreport, hfalse⟩ := e.report_eq bytesIn
    · cases hr.trans hreport
    · obtain rfl := Except.ok.inj (hr.trans hreport)
      cases hok.symm.trans hfalse
  | ok out =>
    cases htransfers with
    | written hproduces hopens hfill =>
      exact ⟨_, _, _, _, _, hproduces, hopens.opens, hfill, Except.ok.inj hr⟩

end Compression
