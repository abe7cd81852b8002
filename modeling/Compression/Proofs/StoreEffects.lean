import Compression.Proofs.PathEnds

namespace Compression

section

variable {α β : Type} [DecidableEq α] {key other : α} {entries : List (α × β)}

theorem lookup_entriesBut_self : (entriesBut key entries).lookup key = none := by
  rw [List.lookup_eq_none_iff]
  intro e he
  have hne := of_decide_eq_true (List.mem_filter.mp he).2
  exact bne_iff_ne.mpr (Ne.symm hne)

theorem lookup_entriesBut (h : other ≠ key) :
    (entriesBut key entries).lookup other = entries.lookup other := by
  rw [entriesBut]
  induction entries with
  | nil => rfl
  | cons e rest ih =>
    by_cases he : e.1 = key
    · have hother : (other == e.1) = false := beq_eq_false_iff_ne.mpr (he ▸ h)
      rw [List.filter_cons_of_neg (by simpa using he), ih, List.lookup_cons, hother]
    · rw [List.filter_cons_of_pos (by simpa using he), List.lookup_cons, List.lookup_cons, ih]

end

namespace FileStore

variable {store after : FileStore} {place other : Place} {node : Node} {item item' : FileItem}

theorem item?_put (store : FileStore) (node other : Node) (item : FileItem) :
    (store.put node item).item? other = if other = node then some item else store.item? other := by
  rw [item?, put, List.lookup_cons]
  split
  next heq => rw [if_pos (eq_of_beq heq)]
  next hne =>
    have hother := beq_eq_false_iff_ne.mp hne
    rw [if_neg hother, lookup_entriesBut hother, item?]

theorem put_put (store : FileStore) (node : Node) (item item' : FileItem) :
    (store.put node item).put node item' = store.put node item' := by
  simp [put, entriesBut]

theorem item?_make (store : FileStore) (place : Place) (item : FileItem) (other : Node) :
    (store.make place item).item? other =
      if other = store.freshAt place then some item else store.item? other :=
  item?_put store (store.freshAt place) other item

theorem put_make (store : FileStore) (place : Place) (item item' : FileItem) :
    (store.make place item).put (store.freshAt place) item' = store.make place item' := by
  simp [make, put, entriesBut]

theorem named?_make (store : FileStore) (place other : Place) (item : FileItem) :
    (store.make place item).named? other =
      if other = place then some (store.freshAt place) else store.named? other := by
  rw [named?, make, List.lookup_cons]
  split
  next heq => rw [if_pos (eq_of_beq heq)]
  next hne =>
    have hother := beq_eq_false_iff_ne.mp hne
    rw [if_neg hother, lookup_entriesBut hother, named?]

theorem unnamed_unname (h : store.itemAt? place ≠ some .folder) :
    store.Unnamed place (store.unname place) where
  root_eq := rfl
  here_eq := rfl
  item?_eq _ := rfl
  named?_self := lookup_entriesBut_self
  named?_ne := lookup_entriesBut
  not_folder := h

/-! ### New files -/

theorem isSome_item?_iff : (store.item? node).isSome ↔ ∃ item, (node, item) ∈ store.items := by
  simp [item?]

theorem madeAt_le_iff {bound : Nat} : store.madeAt place ≤ bound ↔
    ∀ earlier, (store.item? (.made place.folder place.name earlier)).isSome → earlier < bound := by
  simp only [isSome_item?_iff]
  unfold madeAt
  induction store.items with
  | nil => simp
  | cons e rest ih =>
    obtain ⟨node, item⟩ := e
    rw [List.foldr_cons]
    cases node with
    | given number => simpa using ih
    | made folder name earlier =>
      dsimp only
      split
      next hplace =>
        obtain ⟨rfl, rfl⟩ := hplace
        rw [Nat.max_le, ih]
        constructor
        · rintro ⟨hbound, hrest⟩ earlier' ⟨item', hmem⟩
          obtain heq | hmem := List.mem_cons.mp hmem
          · cases heq
            exact hbound
          · exact hrest earlier' ⟨item', hmem⟩
        · intro h
          exact ⟨h earlier ⟨item, List.mem_cons_self⟩, fun earlier' ⟨item', hmem⟩ =>
            h earlier' ⟨item', List.mem_cons_of_mem _ hmem⟩⟩
      next hplace =>
        rw [ih]
        refine forall_congr' fun earlier' => imp_congr_left (exists_congr fun item' => ?_)
        rw [List.mem_cons, or_iff_right]
        intro heq
        cases heq
        exact hplace ⟨rfl, rfl⟩

theorem item?_freshAt (store : FileStore) (place : Place) :
    store.item? (store.freshAt place) = none := by
  cases hitem : store.item? (store.freshAt place) with
  | none => rfl
  | some item =>
    have hlt := madeAt_le_iff.mp (Nat.le_refl (store.madeAt place)) (store.madeAt place)
      (Option.isSome_of_eq_some hitem)
    omega

/-- The number of a new file hangs on no more than which files have been made under its name. -/
theorem madeAt_eq_of {store' : FileStore} (h : ∀ earlier,
    (store.item? (.made place.folder place.name earlier)).isSome =
      (store'.item? (.made place.folder place.name earlier)).isSome) :
    store.madeAt place = store'.madeAt place := by
  refine Nat.le_antisymm ?_ ?_ <;> rw [madeAt_le_iff] <;> intro earlier hsome
  · rw [h] at hsome
    exact madeAt_le_iff.mp (Nat.le_refl _) earlier hsome
  · rw [← h] at hsome
    exact madeAt_le_iff.mp (Nat.le_refl _) earlier hsome

end FileStore

end Compression
