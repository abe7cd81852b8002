import Compression.Proofs.CallRuns

namespace Compression

namespace FileStore

variable {store after : FileStore} {place : Place} {node : Node} {data : Bytes}

/-- Two stores that differ at most in what some names stand for and in one file. -/
structure AlikeBut (store : FileStore) (places : List Place) (node : Node) (after : FileStore) :
    Prop where
  root_eq : after.root = store.root
  here_eq : after.here = store.here
  named?_eq : ∀ other, other ∉ places → after.named? other = store.named? other
  item?_eq : ∀ other, other ≠ node → after.item? other = store.item? other

/-- A name stands for a file, or it is free and the file is not there yet. -/
def Provides (store : FileStore) (place : Place) (node : Node) : Prop :=
  store.named? place = some node ∨ store.named? place = none ∧ store.item? node = none

theorem Written.provides (h : store.Written place data node after) : store.Provides place node := by
  obtain ⟨hnone, hitem, _⟩ | ⟨hnamed, _⟩ := h.before
  · exact .inr ⟨hnone, hitem⟩
  · exact .inl hnamed

theorem Written.alikeBut (h : store.Written place data node after) :
    store.AlikeBut [place] node after where
  root_eq := h.root_eq
  here_eq := h.here_eq
  named?_eq other hother := h.named?_ne (by simpa using hother)
  item?_eq other hother := h.item?_ne hother

/-- A file has been written, and then a name has been taken away. -/
theorem Written.alikeBut_unnamed {part : FileStore} {entry : Place}
    (h : store.Written place data node part) (hafter : part.Unnamed entry after) :
    store.AlikeBut [entry, place] node after where
  root_eq := hafter.root_eq.trans h.root_eq
  here_eq := hafter.here_eq.trans h.here_eq
  named?_eq other hother := by
    simp only [List.mem_cons, List.not_mem_nil, or_false, not_or] at hother
    rw [hafter.named?_ne hother.1, h.named?_ne hother.2]
  item?_eq other hother := (hafter.item?_eq other).trans (h.item?_ne hother)

end FileStore

namespace Call

def bytesRead (call : Call) (medium : Medium) (store : FileStore) : Nat :=
  match call.choice medium, medium.read store call.path with
  | .ok _, .ok blob => blob.length
  | _, _ => 0

/-- The output is opened, but the system does not take all of it. -/
structure StopsHalfway (call : Call) (medium : Medium) (algorithm : Algorithm) (store : FileStore)
    (place : Place) (node : Node) (data : Bytes) (part : FileStore) : Prop where
  choice_eq : call.choice medium = .ok algorithm
  produces : ∃ blob, call.Produces medium algorithm store blob data
  opens : ∃ opened e, call.OpensTarget medium algorithm store place node opened ∧
    medium.fill opened node data = (.error e, part)

/-- The file to which the target leads holds the output, and all else is as it was. A device keeps
nothing. -/
structure Delivers (call : Call) (algorithm : Algorithm) (store : FileStore) (data : Bytes)
    (after : FileStore) : Prop where
  frame : ∃ place node, store.goal true (call.target algorithm) = .ok ⟨place, false⟩ ∧
    store.Provides place node ∧ store.AlikeBut [place] node after
  holds : after.Has (call.target algorithm) (.file data) ∨
    after = store ∧ ∃ device, store.Has (call.target algorithm) (.device device) ∧
      (device = .full → data = [])

/-- The name with which the target ends is gone, and all else is as it was, but for the file to
which the target led. That may have other names, and holds a beginning of the output. -/
structure TakesBack (call : Call) (algorithm : Algorithm) (store : FileStore) (place : Place)
    (node : Node) (data : Bytes) (after : FileStore) : Prop where
  provides : store.Provides place node
  frame : ∃ entry, store.goal false (call.target algorithm) = .ok ⟨entry, false⟩ ∧
    after.named? entry = none ∧ (place ≠ entry → after.named? place = some node) ∧
      store.AlikeBut [entry, place] node after
  holds : (∃ part, part <+: data ∧ after.item? node = some (.file part)) ∨
    ∃ device, store.item? node = some (.device device) ∧
      after.item? node = some (.device device)

/-- What a call leaves of a store, by its answer. One that is fine leaves its output. One that
reports a failure takes the target back if it has opened it, and leaves all as it was otherwise. So
does one that ends in a failure, unless the system does not let it take the target back. -/
def Leaves (call : Call) (medium : Medium) (store : FileStore) (answer : Except Failure Result)
    (after : FileStore) : Prop :=
  match answer with
  | .error _ => after = store ∨ ∃ algorithm place node data part e,
      call.StopsHalfway medium algorithm store place node data part ∧
        medium.remove part (call.target algorithm) = .error e
  | .ok r =>
    if r.ok then
      ∃ algorithm blob data, call.choice medium = .ok algorithm ∧
        call.Produces medium algorithm store blob data ∧
        r.bytesIn = blob.length ∧ r.bytesOut = data.length ∧
        r.outputPath = some (call.target algorithm) ∧ call.Delivers algorithm store data after
    else
      r.bytesIn = call.bytesRead medium store ∧ r.bytesOut = 0 ∧ r.outputPath = none ∧
        ((∃ algorithm place node data part,
            call.StopsHalfway medium algorithm store place node data part ∧
              call.TakesBack algorithm store place node data after) ∨
          (∀ algorithm place node data part,
            ¬ call.StopsHalfway medium algorithm store place node data part) ∧ after = store)

variable {call : Call} {medium : Medium} {algorithm : Algorithm} {store part after : FileStore}
  {place : Place} {node : Node} {opened : FileStore} {data : Bytes}

theorem OpensTarget.delivers (h : call.OpensTarget medium algorithm store place node opened)
    (hfill : medium.fill opened node data = (.ok (), after)) :
    call.Delivers algorithm store data after := by
  obtain ⟨hwritten, hfull⟩ := Medium.written_of_fill h.opens.written hfill
  refine ⟨⟨place, node, h.opens.goal_eq, hwritten.provides, hwritten.alikeBut⟩, ?_⟩
  obtain ⟨hfile, _⟩ | ⟨device, hdevice, rfl⟩ := hwritten.item?_self
  · refine .inl ⟨place, hwritten.sameWays.goal_iff.mp h.opens.goal_eq, ?_⟩
    rw [FileStore.itemAt?, hwritten.named?_self]
    exact hfile
  · refine .inr ⟨rfl, device, ⟨place, h.opens.goal_eq, ?_⟩, ?_⟩
    · rw [FileStore.itemAt?, hwritten.named?_self]
      exact hdevice
    · rintro rfl
      refine hfull ?_
      obtain ⟨_, hno⟩ | ⟨_, _, rfl⟩ := h.opens.written.item?_self
      · exact absurd hdevice (hno .full)
      · exact hdevice

theorem OpensTarget.takesBack (h : call.OpensTarget medium algorithm store place node opened)
    {answer : Except SystemError Unit} (hfill : medium.fill opened node data = (answer, part))
    (hremove : medium.remove part (call.target algorithm) = .ok after) :
    call.TakesBack algorithm store place node data after := by
  obtain ⟨begun, entry, hbegun, hwritten, hentry, _, hunnamed⟩ := h.exists_unnamed hfill hremove
  refine ⟨hwritten.provides, ⟨entry, hentry, hunnamed.named?_self, fun hne => ?_,
    hwritten.alikeBut_unnamed hunnamed⟩, ?_⟩
  · rw [hunnamed.named?_ne hne, hwritten.named?_self]
  · rw [hunnamed.item?_eq]
    obtain ⟨hfile, _⟩ | ⟨device, hdevice, rfl⟩ := hwritten.item?_self
    · exact .inl ⟨begun, hbegun, hfile⟩
    · exact .inr ⟨device, hdevice, hdevice⟩

theorem leaves_report {bytesIn : Nat} (hbytes : bytesIn = call.bytesRead medium store)
    (hno : ∀ algorithm place node data part,
      ¬ call.StopsHalfway medium algorithm store place node data part) (e : Failure) :
    call.Leaves medium store (e.report bytesIn) store := by
  obtain ⟨hreport, _⟩ | ⟨code, _, hreport, hok⟩ := e.report_eq bytesIn
  · rw [hreport]
    exact .inl rfl
  · simp only [hreport, Leaves, hok]
    exact ⟨by rw [hbytes], trivial, trivial, .inr ⟨hno, trivial⟩⟩

theorem Transfers.leaves {bytesIn : Nat} {answer : Except Failure (Bytes × String)}
    (hchoice : call.choice medium = .ok algorithm)
    (h : call.Transfers medium algorithm store bytesIn answer after) :
    call.Leaves medium store (callAnswer bytesIn answer) after := by
  have hbytes : ∀ {blob}, medium.read store call.path = .ok blob →
      blob.length = call.bytesRead medium store := by
    intro blob hread
    rw [bytesRead, hchoice, hread]
  -- Only what has been produced and opened can be stopped.
  have hstops : ∀ {algorithm' place node data part},
      call.StopsHalfway medium algorithm' store place node data part →
        (∃ blob, call.Produces medium algorithm store blob data) ∧
          ∃ opened, medium.create store (call.target algorithm) = .ok (node, opened) := by
    rintro algorithm' place node data part ⟨hchoice', hproduces, opened, _, hopens, _⟩
    obtain rfl := Except.ok.inj (hchoice.symm.trans hchoice')
    exact ⟨hproduces, opened, hopens.create_eq⟩
  cases h with
  | @unread e hread =>
    refine leaves_report (by rw [bytesRead, hchoice, hread]) (fun _ _ _ _ _ h => ?_) _
    obtain ⟨⟨blob, hproduces⟩, _⟩ := hstops h
    cases hread.symm.trans hproduces.read_eq
  | @uncoded blob e hread hcode =>
    refine leaves_report (hbytes hread) (fun _ _ _ _ _ h => ?_) _
    obtain ⟨⟨blob', hproduces⟩, _⟩ := hstops h
    obtain rfl : blob = blob' := Except.ok.inj (hread.symm.trans hproduces.read_eq)
    cases hcode.symm.trans hproduces.code_eq
  | @unopened blob data e hproduces hcreate =>
    refine leaves_report (hbytes hproduces.read_eq) (fun _ _ _ _ _ h => ?_) _
    obtain ⟨_, _, hcreate'⟩ := hstops h
    cases hcreate.symm.trans hcreate'
  | @unwritten blob data place node opened part _ e hproduces hopens hfill hremove =>
    have hreport : Failure.report (.unwritten (call.target algorithm) e) blob.length =
        .ok { bytesIn := blob.length, error := ErrorCode.outputError.number } := rfl
    have hstopped : call.StopsHalfway medium algorithm store place node data part :=
      ⟨hchoice, ⟨blob, hproduces⟩, opened, e, hopens, hfill⟩
    rw [callAnswer, hreport]
    exact ⟨by rw [← hbytes hproduces.read_eq], rfl, rfl,
      .inl ⟨algorithm, place, node, data, part, hstopped, hopens.takesBack hfill hremove⟩⟩
  | unremoved hproduces hopens hfill hremove =>
    exact .inr ⟨algorithm, _, _, _, _, _, ⟨hchoice, ⟨_, hproduces⟩, _, _, hopens, hfill⟩, hremove⟩
  | @written blob data place node opened after hproduces hopens hfill =>
    exact ⟨algorithm, blob, data, hchoice, hproduces, rfl, rfl, rfl, hopens.delivers hfill⟩

end Call

end Compression
