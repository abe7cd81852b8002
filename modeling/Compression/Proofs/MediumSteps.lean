import Compression.Medium
import Compression.Proofs.WrittenFiles

namespace Compression

section

variable {α : Type} {path : String} {answer : Except SystemError α}

theorem aboutPath_eq_ok_iff {a : α} :
    aboutPath path answer = .ok a ↔ '\x00' ∉ path.toList ∧ answer = .ok a := by
  unfold aboutPath
  split
  next hnull => simp_all
  next hnull => cases answer <;> simp_all

/-- Only a path with a null is refused before the system sees it. -/
theorem aboutPath_eq_error {e : FileError} (h : aboutPath path answer = .error e) :
    '\x00' ∈ path.toList ∧ e = .nullInPath ∨
      '\x00' ∉ path.toList ∧ ∃ fault, e = .system fault ∧ answer = .error fault := by
  unfold aboutPath at h
  split at h
  next hnull => cases h; exact .inl ⟨by simpa using hnull, rfl⟩
  next hnull =>
    cases answer with
    | ok a => cases h
    | error fault => cases h; exact .inr ⟨by simpa using hnull, fault, rfl, rfl⟩

end

/-! ### What is asked of a medium -/

namespace Medium

variable {medium : Medium} {access : Access} {store : FileStore} {path : String}

section

variable {α : Type} {answer : Except SystemError.Reason α}

theorem ask_eq_ok_iff {a : α} : medium.ask access store path answer = .ok a ↔
    '\x00' ∉ path.toList ∧ medium.refuse access store path = none ∧ answer = .ok a := by
  rw [ask, aboutPath_eq_ok_iff]
  refine and_congr_right fun _ => ?_
  cases medium.refuse access store path with
  | some e => simp
  | none => simp [mapError_eq_ok_iff]

/-- Two answers of the system to the same question are not told apart, if neither gives what was
asked for. -/
theorem ask_error_alike {medium' : Medium} {store' : FileStore}
    {answer' : Except SystemError.Reason α} {e e' : FileError}
    (h : medium.ask access store path answer = .error e)
    (h' : medium'.ask access store' path answer' = .error e') :
    e = .nullInPath ∧ e' = .nullInPath ∨
      (∃ fault, e = .system fault) ∧ ∃ fault', e' = .system fault' := by
  obtain ⟨hnull, rfl⟩ | ⟨hnull, fault, rfl, _⟩ := aboutPath_eq_error h <;>
    obtain ⟨hnull', rfl⟩ | ⟨hnull', fault', rfl, _⟩ := aboutPath_eq_error h'
  · exact .inl ⟨rfl, rfl⟩
  · exact absurd hnull hnull'
  · exact absurd hnull' hnull
  · exact .inr ⟨⟨fault, rfl⟩, fault', rfl⟩

theorem exists_system_of_ask {e : FileError} (hnull : '\x00' ∉ path.toList)
    (h : medium.ask access store path answer = .error e) : ∃ fault, e = .system fault := by
  obtain ⟨hmem, _⟩ | ⟨_, fault, rfl, _⟩ := aboutPath_eq_error h
  · exact absurd hmem hnull
  · exact ⟨fault, rfl⟩

end

/-! ### Files on a medium -/

variable {place : Place} {node : Node} {opened after : FileStore} {data : Bytes}

theorem create_eq_ok_iff : medium.create store path = .ok (node, opened) ↔
    '\x00' ∉ path.toList ∧ medium.refuse .create store path = none ∧
      ∃ place, store.Opens path place node opened := by
  rw [create, ask_eq_ok_iff, FileStore.create_eq_ok_iff]

theorem read_eq_of_has {blob : Bytes} (hfile : store.Has path (.file data))
    (h : medium.read store path = .ok blob) : blob = data := by
  obtain ⟨_, _, hread⟩ := ask_eq_ok_iff.mp h
  obtain ⟨place, hgoal, hitem⟩ := FileStore.read_eq_ok_iff.mp hread
  obtain hitem | ⟨device, hitem, _⟩ := hitem
  · exact FileItem.file.inj (FileStore.Has.unique ⟨place, hgoal, hitem⟩ hfile)
  · cases FileStore.Has.unique ⟨place, hgoal, hitem⟩ hfile

theorem read_of_has (hnull : '\x00' ∉ path.toList) (hrefuse : medium.refuse .read store path = none)
    (h : store.Has path (.file data)) : medium.read store path = .ok data := by
  obtain ⟨place, hgoal, hitem⟩ := h
  exact ask_eq_ok_iff.mpr ⟨hnull, hrefuse,
    FileStore.read_eq_ok_iff.mpr ⟨place, hgoal, .inl hitem⟩⟩

/-- Whatever the system answers, the file holds a beginning of the bytes. -/
theorem exists_written_of_fill {answer : Except SystemError Unit}
    (h : store.Written place [] node opened)
    (hfill : medium.fill opened node data = (answer, after)) :
    ∃ part, part <+: data ∧ store.Written place part node after := by
  rw [fill] at hfill
  split at hfill
  next => cases hfill; exact ⟨[], List.nil_prefix, h⟩
  next =>
    split at hfill
    next taken _ _ => cases hfill; exact ⟨_, List.take_prefix taken data, h.fill _⟩
    next => cases hfill; exact ⟨data, List.prefix_refl data, h.fill _⟩

theorem written_of_fill {taken : Bytes} (h : store.Written place taken node opened)
    (hfill : medium.fill opened node data = (.ok (), after)) :
    store.Written place data node after ∧
      (opened.item? node = some (.device .full) → data = []) := by
  rw [fill] at hfill
  split at hfill
  next => cases hfill
  next hfull =>
    split at hfill
    next => cases hfill
    next =>
      cases hfill
      refine ⟨h.fill data, fun hdevice => ?_⟩
      exact Decidable.byContradiction fun hne => hfull ⟨hdevice, hne⟩

/-- The name of a file that has been written goes, unless the system refuses this. -/
theorem remove_of_written {taken : Bytes} (hcreate : medium.create store path = .ok (node, opened))
    (hopens : store.Opens path place node opened)
    (hwritten : store.Written place taken node after) :
    ∃ entry, store.goal false path = .ok ⟨entry, false⟩ ∧ store.EndsAt entry place ∧
      after.Unnamed entry (after.unname entry) ∧
      medium.remove after path =
        match medium.refuse .remove after path with
        | some e => .error (.system e)
        | none => .ok (after.unname entry) := by
  obtain ⟨hnull, _⟩ := create_eq_ok_iff.mp hcreate
  obtain ⟨entry, hentry, hends, hremove, hfolder⟩ := hopens.exists_remove hwritten
  refine ⟨entry, hentry, hends, FileStore.unnamed_unname hfolder, ?_⟩
  unfold remove ask aboutPath
  rw [if_neg (by simpa using hnull), hremove]
  cases medium.refuse .remove after path <;> rfl

end Medium

end Compression
