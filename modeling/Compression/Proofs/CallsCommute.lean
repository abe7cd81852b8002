import Compression.Proofs.EncodeFaults
import Compression.Proofs.StoreAgreement

namespace Compression

/-- A medium on which the fate of a file hangs on this file alone: an image is decoded by its
contents, a path is refused by what it leads to, and bytes are taken by what the file holds. A
medium on which files share what room there is does not answer so. -/
structure Medium.Local (medium : Medium) : Prop where
  decode_eq : ∀ {store store' path blob}, medium.read store path = .ok blob →
    medium.read store' path = .ok blob → medium.decode store path = medium.decode store' path
  refuse_eq : ∀ {access store store' path}, store.AgreesOn store' path →
    medium.refuse access store path = medium.refuse access store' path
  stop_eq : ∀ {store store' node data}, store.item? node = store'.item? node →
    medium.stop store node data = medium.stop store' node data

namespace Medium.Local

variable {medium : Medium} {store store' opened opened' part : FileStore} {path : String}
  {place : Place} {node : Node} {data : Bytes}

theorem read_eq (hlocal : medium.Local) (h : store.AgreesOn store' path)
    (hread : medium.read store path = .ok data) : medium.read store' path = .ok data := by
  obtain ⟨hnull, hrefuse, hread⟩ := ask_eq_ok_iff.mp hread
  exact ask_eq_ok_iff.mpr ⟨hnull, (hlocal.refuse_eq h).symm.trans hrefuse, h.read_eq hread⟩

/-- What cannot be read is not read elsewhere either, and the answers are reported alike. -/
theorem exists_read_error (hlocal : medium.Local) (h : store.AgreesOn store' path) {e : FileError}
    (hread : medium.read store path = .error e) :
    ∃ e', medium.read store' path = .error e' ∧ ∀ bytesIn,
      (Failure.unreadable path e').report bytesIn = (Failure.unreadable path e).report bytesIn := by
  cases hread' : medium.read store' path with
  | ok data => cases hread.symm.trans (hlocal.read_eq h.symm hread')
  | error e' =>
    refine ⟨e', rfl, fun bytesIn => ?_⟩
    obtain ⟨rfl, rfl⟩ | ⟨⟨_, rfl⟩, _, rfl⟩ := ask_error_alike hread hread' <;> rfl

theorem exists_opens (hlocal : medium.Local) (h : store.AgreesOn store' path)
    (hcreate : medium.create store path = .ok (node, opened))
    (hopens : store.Opens path place node opened) :
    ∃ opened', medium.create store' path = .ok (node, opened') ∧
      store'.Opens path place node opened' ∧ opened.item? node = opened'.item? node := by
  obtain ⟨hnull, hrefuse, _⟩ := Medium.create_eq_ok_iff.mp hcreate
  obtain ⟨hnamed, hitem⟩ := h.place_eq hopens.goal_eq
  obtain ⟨opened', hwritten'⟩ :=
    hopens.written.exists_alike hnamed hitem (h.nodeAt_eq _ hopens.goal_eq)
  have hopens' : store'.Opens path place node opened' :=
    ⟨(h.goal_iff true _).mp hopens.goal_eq, hwritten'⟩
  refine ⟨opened', ?_, hopens', hopens.written.item?_eq hwritten' hitem⟩
  exact Medium.create_eq_ok_iff.mpr
    ⟨hnull, (hlocal.refuse_eq h).symm.trans hrefuse, place, hopens'⟩

theorem exists_create_error (hlocal : medium.Local) (h : store.AgreesOn store' path)
    {e : FileError} (hcreate : medium.create store path = .error e) :
    ∃ e', medium.create store' path = .error e' ∧ ∀ bytesIn,
      (Failure.unopened path e').report bytesIn = (Failure.unopened path e).report bytesIn := by
  cases hcreate' : medium.create store' path with
  | ok out =>
    obtain ⟨node, opened'⟩ := out
    obtain ⟨_, _, place, hopens'⟩ := Medium.create_eq_ok_iff.mp hcreate'
    obtain ⟨opened, hcreated, _⟩ := hlocal.exists_opens h.symm hcreate' hopens'
    cases hcreate.symm.trans hcreated
  | error e' =>
    refine ⟨e', rfl, fun bytesIn => ?_⟩
    obtain ⟨rfl, rfl⟩ | ⟨⟨_, rfl⟩, _, rfl⟩ := ask_error_alike hcreate hcreate' <;> rfl

/-- An open file that holds the same takes the same bytes. -/
theorem exists_fill (hlocal : medium.Local) (h : store.Written place [] node opened)
    (h' : store'.Written place [] node opened') (hitem : opened.item? node = opened'.item? node)
    {answer : Except SystemError Unit} (hfill : medium.fill opened node data = (answer, part)) :
    ∃ begun part', medium.fill opened' node data = (answer, part') ∧
      store.Written place begun node part ∧ store'.Written place begun node part' := by
  unfold Medium.fill at hfill ⊢
  rw [← hitem, ← hlocal.stop_eq hitem]
  split at hfill
  next hfull =>
    cases hfill
    exact ⟨[], opened', if_pos hfull, h, h'⟩
  next hfull =>
    rw [if_neg hfull]
    cases hstop : medium.stop opened node data with
    | some stopped =>
      rw [hstop] at hfill
      cases hfill
      exact ⟨_, _, rfl, h.fill _, h'.fill _⟩
    | none =>
      rw [hstop] at hfill
      cases hfill
      exact ⟨_, _, rfl, h.fill _, h'.fill _⟩

end Medium.Local

namespace Call

variable {call : Call} {medium : Medium} {algorithm : Algorithm} {store store' after : FileStore}

/-- How a call goes from file to file, step by step. -/
def course (call : Call) (medium : Medium) (algorithm : Algorithm) (store : FileStore) :
    Nat × Except Failure (Bytes × String) × FileStore :=
  let target := call.target algorithm
  match medium.read store call.path with
  | .error e => (0, .error (.unreadable call.path e), store)
  | .ok blob =>
    match call.code medium store algorithm blob with
    | .error e => (blob.length, .error e, store)
    | .ok data =>
      match medium.create store target with
      | .error e => (blob.length, .error (.unopened target e), store)
      | .ok (node, opened) =>
        match medium.fill opened node data with
        | (.ok (), after) => (blob.length, .ok (data, target), after)
        | (.error e, part) =>
          match medium.remove part target with
          | .ok after => (blob.length, .error (.unwritten target e), after)
          | .error e' => (blob.length, .error (.unremoved target e'), part)

theorem Transfers.course_eq {bytesIn : Nat} {answer : Except Failure (Bytes × String)}
    (h : call.Transfers medium algorithm store bytesIn answer after) :
    call.course medium algorithm store = (bytesIn, answer, after) := by
  cases h with
  | unread hread => simp only [course, hread]
  | uncoded hread hcode => simp only [course, hread, hcode]
  | unopened hproduces hcreate =>
    simp only [course, hproduces.read_eq, hproduces.code_eq, hcreate]
  | unwritten hproduces hopens hfill hremove =>
    simp only [course, hproduces.read_eq, hproduces.code_eq, hopens.create_eq, hfill, hremove]
  | unremoved hproduces hopens hfill hremove =>
    simp only [course, hproduces.read_eq, hproduces.code_eq, hopens.create_eq, hfill, hremove]
  | written hproduces hopens hfill =>
    simp only [course, hproduces.read_eq, hproduces.code_eq, hopens.create_eq, hfill]

theorem code_eq_of_read (hlocal : medium.Local) (algorithm : Algorithm) {blob : Bytes}
    (hread : medium.read store call.path = .ok blob)
    (hread' : medium.read store' call.path = .ok blob) :
    call.code medium store algorithm blob = call.code medium store' algorithm blob := by
  cases hop : call.operation with
  | decompress => simp only [code, hop]
  | compress =>
    cases algorithm with
    | huffman =>
      simp only [code, hop, encodeWith]
      cases huffmanEncode blob <;> rfl
    | lzss =>
      simp only [code, hop, encodeWith]
      cases lzssEncode call.config.lzss blob <;> rfl
    | dct =>
      rw [code_dct_eq_blockFileOf medium store hop, code_dct_eq_blockFileOf medium store' hop]
      simp only [blockFileOf, imageIn, hlocal.decode_eq hread hread']

theorem Produces.transport {blob data : Bytes} (hlocal : medium.Local)
    (hinput : store.AgreesOn store' call.path)
    (h : call.Produces medium algorithm store blob data) :
    call.Produces medium algorithm store' blob data := by
  have hread' := hlocal.read_eq hinput h.read_eq
  exact ⟨hread', (code_eq_of_read hlocal algorithm hread' h.read_eq).trans h.code_eq⟩

/-- What a call does between the stores of two worlds at once. -/
abbrev MovesAlike (call : Call) (algorithm : Algorithm) (store after store' after' : FileStore) :
    Prop :=
  FileStore.Parallel (store.NamedBy (call.target algorithm)) (store.FiledBy (call.target algorithm))
    store after store' after'

/-- A target that is written in two stores, and perhaps taken back. -/
theorem OpensTarget.transport {place : Place} {node : Node} {opened part : FileStore}
    {data : Bytes} {answer : Except SystemError Unit} (hlocal : medium.Local)
    (htarget : store.AgreesOn store' (call.target algorithm))
    (h : call.OpensTarget medium algorithm store place node opened)
    (hfill : medium.fill opened node data = (answer, part)) :
    ∃ opened' part', call.OpensTarget medium algorithm store' place node opened' ∧
      medium.fill opened' node data = (answer, part') ∧
      call.MovesAlike algorithm store part store' part' ∧
      (∀ e, medium.remove part (call.target algorithm) = .error e →
        medium.remove part' (call.target algorithm) = .error e) ∧
      ∀ after, medium.remove part (call.target algorithm) = .ok after →
        ∃ after', medium.remove part' (call.target algorithm) = .ok after' ∧
          call.MovesAlike algorithm store after store' after' := by
  obtain ⟨opened', hcreate', hopens', hitem⟩ := hlocal.exists_opens htarget h.create_eq h.opens
  obtain ⟨begun, part', hfill', hwritten, hwritten'⟩ :=
    hlocal.exists_fill h.opens.written hopens'.written hitem hfill
  have hgoal := h.opens.goal_eq
  have hleads := FileStore.leadsTo_of_goal hgoal
  have hself : store.EndsAt place place := .inl ⟨rfl, FileStore.not_link_of_goal hgoal⟩
  have hsame := hwritten.item?_eq hwritten' (htarget.place_eq hgoal).2
  have hmoves : call.MovesAlike algorithm store part store' part' :=
    .of_written hwritten hwritten' hsame ⟨place, hleads, hself⟩
      ⟨place, hleads, hwritten.nodeAt_eq.symm⟩
  obtain ⟨entry, hentry, hends, hunnamed, hremove⟩ :=
    Medium.remove_of_written h.create_eq h.opens hwritten
  obtain ⟨entry', hentry', _, hunnamed', hremove'⟩ :=
    Medium.remove_of_written hcreate' hopens' hwritten'
  cases hentry'.symm.trans ((htarget.goal_iff false _).mp hentry)
  rw [← hlocal.refuse_eq (hwritten.agreesOn hwritten' htarget hgoal)] at hremove'
  refine ⟨opened', part', ⟨hcreate', hopens'⟩, hfill', hmoves, ?_⟩
  rw [hremove, hremove']
  cases medium.refuse .remove part (call.target algorithm) with
  | some e => exact ⟨fun _ herror => herror, nofun⟩
  | none =>
    refine ⟨nofun, fun after hafter => ⟨_, rfl, ?_⟩⟩
    obtain rfl := Except.ok.inj hafter
    exact hmoves.unnamed hunnamed hunnamed' ⟨place, hleads, hends⟩

/-- What a call does hangs on its input and its target: where they are the same, its answer is the
same, and so is its change of the store. -/
theorem Transfers.transport {bytesIn : Nat} {answer : Except Failure (Bytes × String)}
    (hlocal : medium.Local) (hinput : store.AgreesOn store' call.path)
    (htarget : store.AgreesOn store' (call.target algorithm))
    (h : call.Transfers medium algorithm store bytesIn answer after) :
    ∃ answer' after', call.Transfers medium algorithm store' bytesIn answer' after' ∧
      callAnswer bytesIn answer' = callAnswer bytesIn answer ∧
      call.MovesAlike algorithm store after store' after' := by
  cases h with
  | unread hread =>
    obtain ⟨e', hread', hreport⟩ := hlocal.exists_read_error hinput hread
    exact ⟨_, _, .unread hread', hreport 0, .refl _ _ _ _⟩
  | uncoded hread hcode =>
    have hread' := hlocal.read_eq hinput hread
    have hcode' := code_eq_of_read hlocal algorithm hread' hread
    exact ⟨_, _, .uncoded hread' (hcode'.trans hcode), rfl, .refl _ _ _ _⟩
  | unopened hproduces hcreate =>
    obtain ⟨e', hcreate', hreport⟩ := hlocal.exists_create_error htarget hcreate
    exact ⟨_, _, .unopened (hproduces.transport hlocal hinput) hcreate', hreport _,
      .refl _ _ _ _⟩
  | unwritten hproduces hopens hfill hremove =>
    obtain ⟨_, _, hopens', hfill', _, _, hremoved⟩ := hopens.transport hlocal htarget hfill
    obtain ⟨after', hremove', hmoves⟩ := hremoved _ hremove
    exact ⟨_, _, .unwritten (hproduces.transport hlocal hinput) hopens' hfill' hremove', rfl,
      hmoves⟩
  | unremoved hproduces hopens hfill hremove =>
    obtain ⟨_, _, hopens', hfill', hmoves, hrefused, _⟩ := hopens.transport hlocal htarget hfill
    exact ⟨_, _, .unremoved (hproduces.transport hlocal hinput) hopens' hfill'
      (hrefused _ hremove), rfl, hmoves⟩
  | written hproduces hopens hfill =>
    obtain ⟨_, _, hopens', hfill', hmoves, _⟩ := hopens.transport hlocal htarget hfill
    exact ⟨_, _, .written (hproduces.transport hlocal hinput) hopens' hfill', rfl, hmoves⟩

theorem Transfers.touches {bytesIn : Nat} {answer : Except Failure (Bytes × String)}
    (h : call.Transfers medium algorithm store bytesIn answer after) :
    store.Touches (call.target algorithm) after := by
  cases h with
  | unread | uncoded | unopened => exact .refl _ _
  | unwritten _ hopens hfill hremove =>
    obtain ⟨_, _, _, hwritten, _, hends, hunnamed⟩ := hopens.exists_unnamed hfill hremove
    exact .of_unnamed hopens.opens.goal_eq hwritten hends hunnamed
  | unremoved _ hopens hfill | written _ hopens hfill =>
    obtain ⟨_, _, hwritten⟩ := Medium.exists_written_of_fill hopens.opens.written hfill
    exact .of_written hopens.opens.goal_eq hwritten

/-- The outputs of two calls are files of their own, whatever their names, and neither is an input
of the other call. The inputs may be one file, and each call may write over its own. -/
structure Independent (call other : Call) (medium : Medium) (store : FileStore) : Prop where
  targets : ∀ a b, call.choice medium = .ok a → other.choice medium = .ok b →
    ¬ store.Meet (call.target a) (other.target b)
  input : ∀ b, other.choice medium = .ok b → ¬ store.Meet call.path (other.target b)
  input_other : ∀ a, call.choice medium = .ok a → ¬ store.Meet other.path (call.target a)

theorem Independent.symm {other : Call} (h : call.Independent other medium store) :
    other.Independent call medium store where
  targets a b ha hb hmeet := h.targets b a hb ha hmeet.symm
  input := h.input_other
  input_other := h.input

/-- Calls whose inputs and outputs all have their places are independent if the outputs are apart
from each other and from the input of the other call. -/
theorem Independent.of_goals {other : Call} {algorithm' : Algorithm}
    {target target' input input' : Goal}
    (hchoice : call.choice medium = .ok algorithm)
    (hchoice' : other.choice medium = .ok algorithm')
    (htarget : store.goal true (call.target algorithm) = .ok target)
    (htarget' : store.goal true (other.target algorithm') = .ok target')
    (hinput : store.goal true call.path = .ok input)
    (hinput' : store.goal true other.path = .ok input')
    (hne : store.nodeAt target.place ≠ store.nodeAt target'.place ∧
      store.nodeAt input.place ≠ store.nodeAt target'.place ∧
        store.nodeAt input'.place ≠ store.nodeAt target.place) :
    call.Independent other medium store where
  targets a b ha hb := by
    cases hchoice.symm.trans ha
    cases hchoice'.symm.trans hb
    exact FileStore.not_meet_of_goal htarget htarget' hne.1
  input b hb := by
    cases hchoice'.symm.trans hb
    exact FileStore.not_meet_of_goal hinput htarget' hne.2.1
  input_other a ha := by
    cases hchoice.symm.trans ha
    exact FileStore.not_meet_of_goal hinput' htarget hne.2.2

/-- The names and the files that a call may change. -/
def MayName (call : Call) (medium : Medium) (store : FileStore) (entry : Place) : Prop :=
  ∃ a, call.choice medium = .ok a ∧ store.NamedBy (call.target a) entry

def MayFile (call : Call) (medium : Medium) (store : FileStore) (node : Node) : Prop :=
  ∃ a, call.choice medium = .ok a ∧ store.FiledBy (call.target a) node

end Call

/-- Behind a call those paths lead where they did that do not meet its target. -/
theorem call_agreesOn {call : Call} {medium : Medium} {world : World} {path : String}
    (hapart : ∀ a, call.choice medium = .ok a → ¬ world.store.Meet path (call.target a)) :
    world.store.AgreesOn (world.call medium call).2.store path := by
  cases hchoice : call.choice medium with
  | error e =>
    obtain ⟨log, hcall⟩ := call_of_choice_error medium world hchoice
    rw [hcall]
    exact .refl _ _
  | ok algorithm =>
    obtain ⟨bytesIn, answer, after, hcall, htransfers⟩ := call_of_choice medium world hchoice
    rw [hcall]
    exact htransfers.touches.agreesOn (hapart algorithm hchoice)

theorem call_transport {call : Call} {medium : Medium} (hlocal : medium.Local)
    (world world' : World) (hinput : world.store.AgreesOn world'.store call.path)
    (htarget : ∀ a, call.choice medium = .ok a →
      world.store.AgreesOn world'.store (call.target a)) :
    (world'.call medium call).1 = (world.call medium call).1 ∧
      FileStore.Parallel (call.MayName medium world.store) (call.MayFile medium world.store)
        world.store (world.call medium call).2.store
        world'.store (world'.call medium call).2.store := by
  cases hchoice : call.choice medium with
  | error e =>
    obtain ⟨log, hcall⟩ := call_of_choice_error medium world hchoice
    obtain ⟨log', hcall'⟩ := call_of_choice_error medium world' hchoice
    rw [hcall, hcall']
    exact ⟨rfl, .refl _ _ _ _⟩
  | ok algorithm =>
    obtain ⟨bytesIn, answer, after, hcall, htransfers⟩ := call_of_choice medium world hchoice
    obtain ⟨bytesIn', answer', after', hcall', htransfers'⟩ := call_of_choice medium world' hchoice
    obtain ⟨_, _, hsame, hanswer, hmoves⟩ :=
      htransfers.transport hlocal hinput (htarget algorithm hchoice)
    -- A call has one course, so what has been carried over is what it does in this world.
    have hcourse := hsame.course_eq.symm.trans htransfers'.course_eq
    simp only [Prod.mk.injEq] at hcourse
    obtain ⟨rfl, rfl, rfl⟩ := hcourse
    rw [hcall, hcall']
    exact ⟨hanswer, hmoves.mono (fun _ h => ⟨algorithm, hchoice, h⟩)
      fun _ h => ⟨algorithm, hchoice, h⟩⟩

/-- Behind a call another one that is independent of it does what it would have done before. -/
theorem Call.Independent.call_behind {call other : Call} {medium : Medium} (hlocal : medium.Local)
    {world : World} (h : call.Independent other medium world.store) :
    let behind := (world.call medium call).2
    (behind.call medium other).1 = (world.call medium other).1 ∧
      FileStore.Parallel (other.MayName medium world.store) (other.MayFile medium world.store)
        world.store (world.call medium other).2.store
        behind.store (behind.call medium other).2.store :=
  call_transport hlocal world _ (call_agreesOn h.input_other) fun b hb =>
    call_agreesOn fun a ha hmeet => h.targets a b ha hb hmeet.symm

/-- Two calls that are independent of each other answer the same and leave the same files in either
order, however each of them ends, if the fate of each file hangs on this file alone. -/
theorem calls_commute {call other : Call} {medium : Medium} {world : World}
    (hlocal : medium.Local) (h : call.Independent other medium world.store) :
    let first := world.call medium call
    let first' := world.call medium other
    (first.2.call medium other).1 = first'.1 ∧ (first'.2.call medium call).1 = first.1 ∧
      (first.2.call medium other).2.store.Same (first'.2.call medium call).2.store := by
  intro first first'
  obtain ⟨hother, hmoves'⟩ := h.call_behind hlocal
  obtain ⟨hcall, hmoves⟩ := h.symm.call_behind hlocal
  refine ⟨hother, hcall, hmoves.comm hmoves' ?_ ?_⟩
  · rintro entry ⟨a, ha, hnamed⟩ ⟨b, hb, hnamed'⟩
    exact FileStore.not_namedBy_of_not_meet (h.targets a b ha hb) hnamed hnamed'
  · rintro node ⟨a, ha, hfiled⟩ ⟨b, hb, hfiled'⟩
    exact FileStore.not_filedBy_of_not_meet (h.targets a b ha hb) hfiled hfiled'

/-- Bytes may be refused by what the file holds. -/
theorem Medium.plain_local (explain : String → String)
    (stop : FileStore → Node → Bytes → Option (Nat × SystemError))
    (hstop : ∀ {store store' node data}, store.item? node = store'.item? node →
      stop store node data = stop store' node data) :
    Medium.Local { Medium.plain explain with stop } where
  decode_eq hread hread' := by
    obtain ⟨_, _, hread⟩ := Medium.ask_eq_ok_iff.mp hread
    obtain ⟨_, _, hread'⟩ := Medium.ask_eq_ok_iff.mp hread'
    simp only [plain] at hread hread' ⊢
    rw [hread, hread']
  refuse_eq _ := rfl
  stop_eq := hstop

/-- Two calls on one file under two names. The output of one is too long for the medium and is
taken back. -/
theorem calls_commute_too_long :
    let medium : Medium := { Medium.plain id with
      stop := fun _ _ data => if data.length ≤ 8 then none else some (8, { reason := .noSpace }) }
    let world : World := { store := FileStore.start.make ⟨.given 2, ['a']⟩ (.file [97, 97]) }
    let call : Call := ⟨.compress, .int 0, "a", none, {}⟩
    let other : Call := ⟨.compress, .int 1, "./a", none, {}⟩
    let first := world.call medium call
    let first' := world.call medium other
    (medium.Local ∧ call.Independent other medium world.store ∧
      ∃ r, first.1 = .ok r ∧ r.error = ErrorCode.outputError.number) ∧
      (first.2.call medium other).1 = first'.1 ∧ (first'.2.call medium call).1 = first.1 ∧
      (first.2.call medium other).2.store.Same (first'.2.call medium call).2.store := by
  intro medium world call other first first'
  have hlocal : medium.Local := Medium.plain_local id _ fun _ => rfl
  have hinput : world.store.goal true call.path = .ok ⟨⟨.given 2, ['a']⟩, false⟩ :=
    eq_ok_of_toOption (by decide +kernel)
  have hinput' : world.store.goal true other.path = .ok ⟨⟨.given 2, ['a']⟩, false⟩ :=
    eq_ok_of_toOption (by decide +kernel)
  have htarget : world.store.goal true (call.target .huffman) =
      .ok ⟨⟨.given 2, "a.huff".toList⟩, false⟩ := eq_ok_of_toOption (by decide +kernel)
  have htarget' : world.store.goal true (other.target .lzss) =
      .ok ⟨⟨.given 2, "a.lzss".toList⟩, false⟩ := eq_ok_of_toOption (by decide +kernel)
  have hindependent : call.Independent other medium world.store :=
    .of_goals rfl rfl htarget htarget' hinput hinput' (by decide +kernel)
  obtain ⟨r, hr, herror⟩ : ∃ r, first.1 = .ok r ∧
      decide (r.error = ErrorCode.outputError.number) = true :=
    exists_result_of_any (by decide +kernel)
  exact ⟨⟨hlocal, hindependent, r, hr, of_decide_eq_true herror⟩,
    calls_commute hlocal hindependent⟩

/-- Two spellings of one path, two names of one file, and two files that share what room there is:
the call that comes last decides what the file holds, and the one that comes first gets the room. -/
theorem calls_meet_under_other_names :
    let place (name : Char) : Place := ⟨.given 2, [name]⟩
    let store := ((FileStore.start.make (place 'a') (.file [97])).make
      (place 'c') (.file [99])).make (place 'b') (.file [])
    let world : World :=
      { store := { store with names := (place 'd', .made (.given 2) ['b'] 0) :: store.names } }
    let medium : Medium := .plain id
    let crowded : Medium := { medium with
      stop := fun store _ _ =>
        if store.names.length ≤ 15 then none else some (0, { reason := .noSpace }) }
    let call (path output : String) : Call := ⟨.compress, .int 1, path, some output, {}⟩
    let after (first second : Call) := ((world.call medium first).2.call medium second).2.store
    ((after (call "a" "b") (call "c" "./b")).Has "b" (.file [0, 99]) ∧
      (after (call "c" "./b") (call "a" "b")).Has "b" (.file [0, 97])) ∧
    ((after (call "a" "b") (call "c" "d")).Has "b" (.file [0, 99]) ∧
      (after (call "c" "d") (call "a" "b")).Has "b" (.file [0, 97])) ∧
    (∃ r, (world.call crowded (call "c" "f")).1 = .ok r ∧ r.error = ErrorCode.ok.number) ∧
      ∃ r, ((world.call crowded (call "a" "e")).2.call crowded (call "c" "f")).1 = .ok r ∧
        r.error = ErrorCode.outputError.number := by
  intro place store world medium crowded call after
  have hplace : ∀ {store : FileStore} {data : Bytes},
      (store.goal true "b").toOption = some ⟨place 'b', false⟩ →
        store.itemAt? (place 'b') = some (.file data) → store.Has "b" (.file data) :=
    fun hgoal hitem => ⟨place 'b', eq_ok_of_toOption hgoal, hitem⟩
  obtain ⟨r, hr, hfine⟩ : ∃ r, (world.call crowded (call "c" "f")).1 = .ok r ∧
      decide (r.error = ErrorCode.ok.number) = true := exists_result_of_any (by decide +kernel)
  obtain ⟨r', hr', herror⟩ : ∃ r,
      ((world.call crowded (call "a" "e")).2.call crowded (call "c" "f")).1 = .ok r ∧
        decide (r.error = ErrorCode.outputError.number) = true :=
    exists_result_of_any (by decide +kernel)
  refine ⟨⟨hplace ?_ ?_, hplace ?_ ?_⟩, ⟨hplace ?_ ?_, hplace ?_ ?_⟩,
    ⟨r, hr, of_decide_eq_true hfine⟩, r', hr', of_decide_eq_true herror⟩ <;> decide +kernel

end Compression
