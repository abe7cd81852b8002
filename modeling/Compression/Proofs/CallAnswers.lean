import Compression.Proofs.CallRuns
import Compression.Proofs.PathNames

namespace Compression

namespace Call

def HasNullOutput (call : Call) : Prop :=
  ∃ given, call.output = some given ∧ '\x00' ∈ given.toList

/-- No path of a call has a null, which the system would not see. -/
def NullFree (call : Call) : Prop :=
  '\x00' ∉ call.path.toList ∧ ¬ call.HasNullOutput

/-- The system lets a call take back an output of which a part has been written. -/
def CanTakeBack (call : Call) (medium : Medium) : Prop :=
  ∀ algorithm store, medium.refuse .remove store (call.target algorithm) = none

theorem NullFree.target {call : Call} (h : call.NullFree) (algorithm : Algorithm) :
    '\x00' ∉ (call.target algorithm).toList := by
  obtain ⟨hpath, houtput⟩ := h
  exact mt (null_mem_outputTarget_iff hpath).mp houtput

theorem nullFree_of_no_output {call : Call} (hpath : '\x00' ∉ call.path.toList)
    (houtput : call.output = none) : call.NullFree := by
  refine ⟨hpath, ?_⟩
  rintro ⟨given, hgiven, _⟩
  cases houtput.symm.trans hgiven

/-- The answers of a call that has no null in its paths and can take back its output. What the
system refuses is reported, so nothing but a failure of the codec can end the call. -/
inductive Answers (call : Call) (medium : Medium) (algorithm : Algorithm) (store : FileStore) :
    Except Failure Result → Prop
  | unread {e : FileError} {r : Result} : medium.read store call.path = .error e →
      r.error = ErrorCode.inputError.number → Answers call medium algorithm store (.ok r)
  | uncoded {blob : Bytes} {e : Failure} : medium.read store call.path = .ok blob →
      call.code medium store algorithm blob = .error e →
      Answers call medium algorithm store (e.report blob.length)
  | coded {blob data : Bytes} {r : Result} : call.Produces medium algorithm store blob data →
      r.error = ErrorCode.ok.number ∨ r.error = ErrorCode.outputError.number →
      Answers call medium algorithm store (.ok r)

variable {call : Call} {medium : Medium} {algorithm : Algorithm} {store after : FileStore}

theorem OpensTarget.exists_remove {place : Place} {node : Node} {opened part : FileStore}
    {data : Bytes} {answer : Except SystemError Unit}
    (h : call.OpensTarget medium algorithm store place node opened)
    (htake : call.CanTakeBack medium)
    (hfill : medium.fill opened node data = (answer, part)) :
    ∃ after, medium.remove part (call.target algorithm) = .ok after := by
  obtain ⟨_, _, hwritten⟩ := Medium.exists_written_of_fill h.opens.written hfill
  obtain ⟨entry, _, _, _, hremove⟩ := Medium.remove_of_written h.create_eq h.opens hwritten
  rw [htake algorithm part] at hremove
  exact ⟨_, hremove⟩

theorem Transfers.answers {bytesIn : Nat} {answer : Except Failure (Bytes × String)}
    (hnull : call.NullFree) (htake : call.CanTakeBack medium)
    (h : call.Transfers medium algorithm store bytesIn answer after) :
    call.Answers medium algorithm store (callAnswer bytesIn answer) := by
  cases h with
  | unread hread =>
    obtain ⟨_, rfl⟩ := Medium.exists_system_of_ask hnull.1 hread
    exact .unread hread rfl
  | uncoded hread hcode => exact .uncoded hread hcode
  | unopened hproduces hcreate =>
    obtain ⟨_, rfl⟩ := Medium.exists_system_of_ask (hnull.target algorithm) hcreate
    exact .coded hproduces (.inr rfl)
  | unwritten hproduces => exact .coded hproduces (.inr rfl)
  | unremoved _ hopens hfill hremove =>
    obtain ⟨_, hremove'⟩ := hopens.exists_remove htake hfill
    cases hremove.symm.trans hremove'
  | written hproduces => exact .coded hproduces (.inl rfl)

theorem Answers.eq_report {answer : Except Failure Result} {blob : Bytes} {e : Failure}
    (h : call.Answers medium algorithm store answer)
    (hread : medium.read store call.path = .ok blob)
    (hcode : call.code medium store algorithm blob = .error e) : answer = e.report blob.length := by
  cases h with
  | unread hread' => cases hread.symm.trans hread'
  | uncoded hread' hcode' =>
    obtain rfl := Except.ok.inj (hread.symm.trans hread')
    obtain rfl := Except.error.inj (hcode.symm.trans hcode')
    rfl
  | coded hproduces =>
    obtain rfl := Except.ok.inj (hread.symm.trans hproduces.read_eq)
    cases hcode.symm.trans hproduces.code_eq

theorem Answers.exists_result {answer : Except Failure Result} {blob data : Bytes}
    (h : call.Answers medium algorithm store answer)
    (hread : medium.read store call.path = .ok blob)
    (hcode : call.code medium store algorithm blob = .ok data) :
    ∃ r, answer = .ok r ∧
      (r.error = ErrorCode.ok.number ∨ r.error = ErrorCode.outputError.number) := by
  cases h with
  | unread hread' => cases hread.symm.trans hread'
  | uncoded hread' hcode' =>
    obtain rfl := Except.ok.inj (hread.symm.trans hread')
    cases hcode.symm.trans hcode'
  | coded _ herror => exact ⟨_, rfl, herror⟩

end Call

theorem call_answers {call : Call} {algorithm : Algorithm} (medium : Medium) (world : World)
    (hchoice : call.choice medium = .ok algorithm) (hnull : call.NullFree)
    (htake : call.CanTakeBack medium) :
    call.Answers medium algorithm world.store (world.call medium call).1 := by
  obtain ⟨bytesIn, answer, after, hcall, htransfers⟩ := call_of_choice medium world hchoice
  rw [hcall]
  exact htransfers.answers hnull htake

end Compression
