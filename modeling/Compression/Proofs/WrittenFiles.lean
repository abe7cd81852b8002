import Compression.Proofs.StoreEffects

namespace Compression

namespace FileStore

variable {store after : FileStore} {place other : Place} {node : Node} {item item' : FileItem}

/-! ### Files that are written -/

/-- A file in a place has been written, or made if there was none. A device keeps nothing. -/
inductive Written (store : FileStore) (place : Place) (data : Bytes) : Node → FileStore → Prop
  | made : store.named? place = none →
      Written store place data (store.freshAt place) (store.make place (.file data))
  | file {node : Node} {old : Bytes} : store.named? place = some node →
      store.item? node = some (.file old) →
      Written store place data node (store.put node (.file data))
  | device {node : Node} {device : Device} : store.named? place = some node →
      store.item? node = some (.device device) → Written store place data node store

namespace Written

variable {data : Bytes}

theorem fill (h : store.Written place data node after) (data' : Bytes) :
    store.Written place data' node (after.fill node data') := by
  cases h with
  | made hnone =>
    rw [FileStore.fill, item?_make, if_pos rfl]
    dsimp only
    rw [put_make]
    exact .made hnone
  | file hnamed hitem =>
    rw [FileStore.fill, item?_put, if_pos rfl]
    dsimp only
    rw [put_put]
    exact .file hnamed hitem
  | device hnamed hitem =>
    rw [FileStore.fill, hitem]
    exact .device hnamed hitem

theorem root_eq (h : store.Written place data node after) : after.root = store.root := by
  cases h <;> rfl

theorem here_eq (h : store.Written place data node after) : after.here = store.here := by
  cases h <;> rfl

theorem named?_self (h : store.Written place data node after) :
    after.named? place = some node := by
  cases h with
  | made => rw [named?_make, if_pos rfl]
  | file hnamed => exact hnamed
  | device hnamed => exact hnamed

theorem named?_ne (h : store.Written place data node after) (hne : other ≠ place) :
    after.named? other = store.named? other := by
  cases h with
  | made => rw [named?_make, if_neg hne]
  | file => rfl
  | device => rfl

theorem item?_ne {node' : Node} (h : store.Written place data node after) (hne : node' ≠ node) :
    after.item? node' = store.item? node' := by
  cases h with
  | made => rw [item?_make, if_neg hne]
  | file => rw [item?_put, if_neg hne]
  | device => rfl

/-- What stood in the place before, if anything, was no folder and no link. -/
theorem before (h : store.Written place data node after) :
    store.named? place = none ∧ store.item? node = none ∧ node = store.freshAt place ∨
      store.named? place = some node ∧ ((∃ old, store.item? node = some (.file old)) ∨
        ∃ device, store.item? node = some (.device device)) := by
  cases h with
  | made hnone => exact .inl ⟨hnone, item?_freshAt store place, rfl⟩
  | file hnamed hitem => exact .inr ⟨hnamed, .inl ⟨_, hitem⟩⟩
  | device hnamed hitem => exact .inr ⟨hnamed, .inr ⟨_, hitem⟩⟩

/-- The file holds the data, unless it is a device, which is as it was. -/
theorem item?_self (h : store.Written place data node after) :
    (after.item? node = some (.file data) ∧ ∀ device, store.item? node ≠ some (.device device)) ∨
      ∃ device, store.item? node = some (.device device) ∧ after = store := by
  cases h with
  | made =>
    rw [item?_make, if_pos rfl, item?_freshAt]
    exact .inl ⟨rfl, nofun⟩
  | file _ hitem =>
    rw [item?_put, if_pos rfl, hitem]
    exact .inl ⟨rfl, nofun⟩
  | device _ hitem => exact .inr ⟨_, hitem, rfl⟩

theorem not_folder_before (h : store.Written place data node after) :
    store.item? node ≠ some .folder ∧ store.itemAt? place ≠ some .folder := by
  rw [itemAt?]
  obtain ⟨hnone, hitem, _⟩ | ⟨hnamed, ⟨_, hitem⟩ | ⟨_, hitem⟩⟩ := h.before
  · simp [hnone, hitem]
  · simp [hnamed, hitem]
  · simp [hnamed, hitem]

theorem itemAt?_self (h : store.Written place data node after) :
    after.itemAt? place = some (.file data) ∨
      ∃ device, after.itemAt? place = some (.device device) := by
  rw [itemAt?, h.named?_self, Option.bind_some]
  obtain ⟨hfile, _⟩ | ⟨device, hdevice, rfl⟩ := h.item?_self
  · exact .inl hfile
  · exact .inr ⟨device, hdevice⟩

/-- What is no file stays what it is. -/
theorem item?_iff (h : store.Written place data node after) (hitem : ∀ data, item ≠ .file data)
    (node' : Node) : store.item? node' = some item ↔ after.item? node' = some item := by
  by_cases hne : node' = node
  · subst hne
    obtain ⟨hfile, hno⟩ | ⟨device, hdevice, rfl⟩ := h.item?_self
    · rw [hfile]
      refine iff_of_false (fun hsame => ?_) fun hsame => hitem data (Option.some.inj hsame).symm
      obtain ⟨_, hnone, _⟩ | ⟨_, ⟨old, hold⟩ | ⟨device, hdevice⟩⟩ := h.before
      · cases hnone.symm.trans hsame
      · exact hitem old (Option.some.inj (hold.symm.trans hsame)).symm
      · exact hno device hdevice
    · exact Iff.rfl
  · rw [h.item?_ne hne]

theorem link_iff (h : store.Written place data node after) (other : Place) (text : String) :
    store.itemAt? other = some (.link text) ↔ after.itemAt? other = some (.link text) := by
  have hitem : ∀ node', store.item? node' = some (.link text) ↔
      after.item? node' = some (.link text) := h.item?_iff nofun
  by_cases hne : other = place
  · subst hne
    refine iff_of_false (fun hlink => ?_) fun hlink => ?_
    · obtain ⟨node', hnamed, hlink⟩ := Option.bind_eq_some_iff.mp hlink
      obtain ⟨hnone, _⟩ | ⟨hnamed', hold⟩ := h.before
      · cases hnone.symm.trans hnamed
      · cases hnamed.symm.trans hnamed'
        obtain ⟨_, hold⟩ | ⟨_, hold⟩ := hold <;> cases hlink.symm.trans hold
    · obtain hfile | ⟨device, hdevice⟩ := h.itemAt?_self
      · cases hlink.symm.trans hfile
      · cases hlink.symm.trans hdevice
  · simp only [itemAt?, Option.bind_eq_some_iff, h.named?_ne hne, hitem]

theorem sameWays (h : store.Written place data node after) : store.SameWays after where
  root_eq := h.root_eq.symm
  here_eq := h.here_eq.symm
  folder_iff := h.item?_iff nofun
  link_iff := h.link_iff
  named_iff other node' hfolder := by
    by_cases hne : other = place
    · subst hne
      have hnode : node' ≠ node := fun heq => h.not_folder_before.1 (heq ▸ hfolder)
      rw [h.named?_self]
      obtain ⟨hnone, _⟩ | ⟨hnamed, _⟩ := h.before
      · simp [hnone, Ne.symm hnode]
      · rw [hnamed]
    · rw [h.named?_ne hne]

end Written

/-! ### Files that are opened -/

/-- A path is opened to write the file in a place anew. -/
structure Opens (store : FileStore) (path : String) (place : Place) (node : Node)
    (opened : FileStore) : Prop where
  goal_eq : store.goal true path = .ok ⟨place, false⟩
  written : store.Written place [] node opened

variable {path : String} {opened : FileStore}

theorem create_eq_ok_iff : store.create path = .ok (node, opened) ↔
    ∃ place, store.Opens path place node opened := by
  rw [create]
  constructor
  · intro h
    split at h
    next =>
      obtain ⟨_, _, h⟩ := bind_eq_ok_iff.mp h
      cases h
    next hslash =>
      obtain ⟨⟨place, slash⟩, hgoal, h⟩ := bind_eq_ok_iff.mp h
      split at h
      next => cases h
      next hslash' =>
        obtain rfl : slash = false := eq_false_of_ne_true hslash'
        refine ⟨place, hgoal, ?_⟩
        split at h
        next hnone => cases h; exact .made hnone
        next node' hnamed =>
          split at h
          next => cases h
          next => cases h
          next => cases h
          next old hitem => cases h; exact .file hnamed hitem
          next device hitem => cases h; exact .device hnamed hitem
  · rintro ⟨place, hgoal, hwritten⟩
    rw [if_neg (by simp [slash_of_goal hgoal]), hgoal]
    cases hwritten with
    | made hnone => simp [bind, Except.bind, hnone]
    | file hnamed hitem => simp [bind, Except.bind, hnamed, hitem]
    | device hnamed hitem => simp [bind, Except.bind, hnamed, hitem]

/-- The name of a file that has been opened and written can be taken away. It need not be in the
place of the file. -/
theorem Opens.exists_remove {data : Bytes} (h : store.Opens path place node opened)
    (hwritten : store.Written place data node after) :
    ∃ entry, store.goal false path = .ok ⟨entry, false⟩ ∧ store.EndsAt entry place ∧
      after.remove path = .ok (after.unname entry) ∧ after.itemAt? entry ≠ some .folder := by
  obtain ⟨entry, hentry, hshort, hends⟩ := exists_entry_of_goal h.goal_eq
  rw [slash_of_goal h.goal_eq] at hentry
  refine ⟨entry, hentry, hends, ?_⟩
  rw [remove, hwritten.sameWays.goal_iff.mp hentry]
  simp only [bind, Except.bind, hshort]
  obtain ⟨rfl, _⟩ | ⟨text, htext, _⟩ := hends
  · obtain hfile | ⟨device, hdevice⟩ := hwritten.itemAt?_self
    · simp [hfile]
    · simp [hdevice]
  · simp [(hwritten.link_iff entry text).mp htext]

theorem read_eq_ok_iff {reading : Device → Bytes} {data : Bytes} :
    store.read reading path = .ok data ↔ ∃ place, store.goal true path = .ok ⟨place, false⟩ ∧
      (store.itemAt? place = some (.file data) ∨
        ∃ device, store.itemAt? place = some (.device device) ∧ reading device = data) := by
  rw [read, bind_eq_ok_iff]
  constructor
  · rintro ⟨⟨place, slash⟩, hgoal, h⟩
    split at h
    next => cases h
    next => cases h
    next => cases h
    next data' hitem =>
      split at h
      next => cases h
      next hslash =>
        obtain rfl : slash = false := eq_false_of_ne_true hslash
        cases h
        exact ⟨place, hgoal, .inl hitem⟩
    next device hitem =>
      split at h
      next => cases h
      next hslash =>
        obtain rfl : slash = false := eq_false_of_ne_true hslash
        exact ⟨place, hgoal, .inr ⟨device, hitem, Except.ok.inj h⟩⟩
  · rintro ⟨place, hgoal, hitem | ⟨device, hitem, rfl⟩⟩
    · exact ⟨_, hgoal, by simp [hitem]⟩
    · exact ⟨_, hgoal, by simp [hitem]⟩

/-- What a path leads to, where it does not ask for a folder. -/
def Has (store : FileStore) (path : String) (item : FileItem) : Prop :=
  ∃ place, store.goal true path = .ok ⟨place, false⟩ ∧ store.itemAt? place = some item

theorem Has.unique (h : store.Has path item) (h' : store.Has path item') : item = item' := by
  obtain ⟨place, hgoal, hitem⟩ := h
  obtain ⟨place', hgoal', hitem'⟩ := h'
  cases hgoal.symm.trans hgoal'
  exact Option.some.inj (hitem.symm.trans hitem')

/-- A file that has been written holds its data, unless it is a device. -/
theorem Opens.has {data : Bytes} (h : store.Opens path place node opened)
    (hwritten : store.Written place data node after) :
    after.Has path (.file data) ∨ ∃ device, after.Has path (.device device) := by
  have hgoal := hwritten.sameWays.goal_iff.mp h.goal_eq
  obtain hfile | ⟨device, hdevice⟩ := hwritten.itemAt?_self
  · exact .inl ⟨place, hgoal, hfile⟩
  · exact .inr ⟨device, place, hgoal, hdevice⟩

end FileStore

end Compression
