import Compression.FileStore
import Compression.Proofs.ExceptSteps

namespace Compression

namespace FileStore

/-- How names are followed from a folder: where they end, and how many links that takes. -/
inductive Leads (store : FileStore) (last : Bool) :
    Node → List FileName → Bool → Nat → Goal → Prop
  | stop {folder : Node} {name : FileName} {slash : Bool} :
      store.item? folder = some .folder →
      (last = true → isLongName name = false ∧
        ∀ text, store.itemAt? ⟨folder, name⟩ ≠ some (.link text)) →
      Leads store last folder [name] slash 0 ⟨⟨folder, name⟩, slash⟩
  | step {folder node : Node} {name : FileName} {rest : List FileName} {slash : Bool} {links : Nat}
      {goal : Goal} :
      store.item? folder = some .folder → isLongName name = false → rest ≠ [] →
      (∀ text, store.itemAt? ⟨folder, name⟩ ≠ some (.link text)) →
      store.named? ⟨folder, name⟩ = some node →
      Leads store last node rest slash links goal →
      Leads store last folder (name :: rest) slash links goal
  | link {folder : Node} {name : FileName} {rest : List FileName} {slash : Bool} {links : Nat}
      {goal : Goal} {text : String} :
      store.item? folder = some .folder → isLongName name = false → (rest = [] → last = true) →
      store.itemAt? ⟨folder, name⟩ = some (.link text) →
      Leads store last (store.startOf folder (routeOf text)) ((routeOf text).names ++ rest)
        (slash || rest.isEmpty && (routeOf text).slash) links goal →
      Leads store last folder (name :: rest) slash (links + 1) goal

variable {store : FileStore} {last slash : Bool} {folder : Node} {name : FileName}
  {names rest : List FileName} {links limit : Nat} {goal : Goal}
  {onLink : Node → List FileName → Bool → Except SystemError.Reason Goal}

theorem enter_eq_ok_iff {node : Node} :
    store.enter node = .ok () ↔ store.item? node = some .folder := by
  rw [enter]
  split <;> simp_all

/-! ### Walks and what they lead to -/

theorem walk_stop (hfolder : store.item? folder = some .folder)
    (hname : last = true → isLongName name = false ∧
      ∀ text, store.itemAt? ⟨folder, name⟩ ≠ some (.link text)) :
    store.walk last onLink folder [name] slash = .ok ⟨⟨folder, name⟩, slash⟩ := by
  rw [walk, enter_eq_ok_iff.mpr hfolder]
  cases last with
  | false => rfl
  | true =>
    obtain ⟨hshort, hlink⟩ := hname rfl
    simp only [bind, Except.bind, List.isEmpty_nil, Bool.not_true, Bool.and_false,
      Bool.false_eq_true, hshort, ↓reduceIte]

theorem walk_step {node : Node} (hfolder : store.item? folder = some .folder)
    (hshort : isLongName name = false) (hrest : rest ≠ [])
    (hlink : ∀ text, store.itemAt? ⟨folder, name⟩ ≠ some (.link text))
    (hnamed : store.named? ⟨folder, name⟩ = some node) :
    store.walk last onLink folder (name :: rest) slash =
      store.walk last onLink node rest slash := by
  have hempty : rest.isEmpty = false := by simpa using hrest
  rw [walk, enter_eq_ok_iff.mpr hfolder]
  simp only [bind, Except.bind, hempty, Bool.false_and, Bool.false_eq_true, hshort, hnamed,
    ↓reduceIte]

theorem walk_link {text : String} (hfolder : store.item? folder = some .folder)
    (hshort : isLongName name = false) (hlast : rest = [] → last = true)
    (hlink : store.itemAt? ⟨folder, name⟩ = some (.link text)) :
    store.walk last onLink folder (name :: rest) slash =
      onLink (store.startOf folder (routeOf text)) ((routeOf text).names ++ rest)
        (slash || rest.isEmpty && (routeOf text).slash) := by
  have hon : (rest.isEmpty && !last) = false := by
    cases rest with
    | nil => simp [hlast rfl]
    | cons => rfl
  rw [walk, enter_eq_ok_iff.mpr hfolder]
  simp [bind, Except.bind, hon, hshort, hlink]

theorem leads_of_walk
    (hlink : ∀ {folder names slash goal}, onLink folder names slash = .ok goal →
      ∃ links < limit, store.Leads last folder names slash links goal)
    (h : store.walk last onLink folder names slash = .ok goal) :
    ∃ links ≤ limit, store.Leads last folder names slash links goal := by
  induction names generalizing folder with
  | nil => cases h
  | cons name rest ih =>
    rw [walk, check_bind_eq_ok_iff, enter_eq_ok_iff] at h
    obtain ⟨hfolder, h⟩ := h
    split at h
    next hend =>
      obtain ⟨hrest, hlast⟩ : rest = [] ∧ last = false := by simpa using hend
      cases h
      subst hrest
      exact ⟨0, Nat.zero_le _, .stop hfolder fun htrue => by simp [hlast] at htrue⟩
    next hend =>
      split at h
      next => cases h
      next hshort =>
        have hshort' : isLongName name = false := eq_false_of_ne_true hshort
        split at h
        next text htext =>
          obtain ⟨links, hlinks, hleads⟩ := hlink h
          refine ⟨links + 1, hlinks, .link hfolder hshort' (fun hrest => ?_) htext hleads⟩
          simpa [hrest] using hend
        next hnot =>
          split at h
          next hempty =>
            cases h
            obtain rfl : rest = [] := by simpa using hempty
            exact ⟨0, Nat.zero_le _, .stop hfolder fun _ => ⟨hshort', hnot⟩⟩
          next hempty =>
            split at h
            next => cases h
            next node hnamed =>
              obtain ⟨links, hlinks, hleads⟩ := ih h
              have hrest : rest ≠ [] := by simpa using hempty
              exact ⟨links, hlinks, .step hfolder hshort' hrest hnot hnamed hleads⟩

/-- However many links may be followed, following is a walk. -/
theorem exists_follow_eq_walk (store : FileStore) (last : Bool) (limit : Nat) :
    ∃ onLink, store.follow last limit = store.walk last onLink := by
  cases limit with
  | zero => exact ⟨_, rfl⟩
  | succ limit => exact ⟨_, rfl⟩

theorem follow_eq_ok_iff : store.follow last limit folder names slash = .ok goal ↔
    ∃ links ≤ limit, store.Leads last folder names slash links goal := by
  constructor
  · intro h
    induction limit generalizing folder names slash goal with
    | zero => exact leads_of_walk (fun hlink => by cases hlink) h
    | succ limit ih =>
      refine leads_of_walk (fun hlink => ?_) h
      obtain ⟨links, hlinks, hleads⟩ := ih hlink
      exact ⟨links, Nat.lt_succ_of_le hlinks, hleads⟩
  · rintro ⟨links, hlinks, hleads⟩
    induction hleads generalizing limit with
    | stop hfolder hname =>
      obtain ⟨onLink, hfollow⟩ := exists_follow_eq_walk store last limit
      rw [hfollow]
      exact walk_stop hfolder hname
    | step hfolder hshort hrest hlink hnamed _ ih =>
      have hrest' := ih hlinks
      obtain ⟨onLink, hfollow⟩ := exists_follow_eq_walk store last limit
      rw [hfollow] at hrest' ⊢
      rw [walk_step hfolder hshort hrest hlink hnamed]
      exact hrest'
    | link hfolder hshort hlast hlink _ ih =>
      cases limit with
      | zero => cases hlinks
      | succ limit =>
        rw [follow, walk_link hfolder hshort hlast hlink]
        exact ih (Nat.le_of_succ_le_succ hlinks)

namespace Leads

theorem unique {links' : Nat} {goal' : Goal} (h : store.Leads last folder names slash links goal)
    (h' : store.Leads last folder names slash links' goal') : goal = goal' := by
  have hfollow := follow_eq_ok_iff.mpr ⟨links, Nat.le_max_left links links', h⟩
  have hfollow' := follow_eq_ok_iff.mpr ⟨links', Nat.le_max_right links links', h'⟩
  exact Except.ok.inj (hfollow.symm.trans hfollow')

theorem folder_eq (h : store.Leads last folder names slash links goal) :
    store.item? folder = some .folder := by
  cases h <;> assumption

/-- Where names end does not hang on the slash behind them. -/
theorem exists_slash (h : store.Leads last folder names slash links goal) (slash' : Bool) :
    ∃ b, store.Leads last folder names slash' links ⟨goal.place, b⟩ := by
  induction h generalizing slash' with
  | stop hfolder hname => exact ⟨slash', .stop hfolder hname⟩
  | step hfolder hshort hrest hlink hnamed _ ih =>
    obtain ⟨b, hleads⟩ := ih slash'
    exact ⟨b, .step hfolder hshort hrest hlink hnamed hleads⟩
  | link hfolder hshort hlast hlink _ ih =>
    obtain ⟨b, hleads⟩ := ih _
    exact ⟨b, .link hfolder hshort hlast hlink hleads⟩

/-- A name that is not followed keeps the slash behind it. -/
theorem slash_eq (h : store.Leads false folder names slash links goal) : goal.slash = slash := by
  induction h with
  | stop => rfl
  | step _ _ _ _ _ _ ih => exact ih
  | @link _ _ rest _ _ _ _ _ _ hlast _ _ ih =>
    have hempty : rest.isEmpty = false := by
      cases rest with
      | nil => cases hlast rfl
      | cons => rfl
    rwa [hempty, Bool.false_and, Bool.or_false] at ih

theorem slash_of_slash (h : store.Leads last folder names slash links goal)
    (hslash : slash = true) : goal.slash = true := by
  induction h with
  | stop => exact hslash
  | step _ _ _ _ _ _ ih => exact ih hslash
  | link _ _ _ _ _ ih => exact ih (by simp [hslash])

/-- A path that is followed to its end ends with a name that is looked up and is no link. -/
theorem short_and_not_link (h : store.Leads true folder names slash links goal) :
    isLongName goal.place.name = false ∧
      ∀ text, store.itemAt? goal.place ≠ some (.link text) := by
  induction h with
  | stop _ hname => exact hname rfl
  | step _ _ _ _ _ _ ih => exact ih
  | link _ _ _ _ _ ih => exact ih

/-- Names that lead to no folder lead nowhere if more names stand behind them. -/
theorem not_append {last' slash' : Bool} {links' : Nat} {goal' : Goal}
    (h : store.Leads true folder names slash links goal)
    (hgoal : store.itemAt? goal.place ≠ some .folder) (hrest : rest ≠ []) :
    ¬ store.Leads last' folder (names ++ rest) slash' links' goal' := by
  intro h'
  induction h generalizing slash' links' with
  | stop hfolder hname =>
    cases h' with
    | stop => exact hrest rfl
    | step _ _ _ _ hnamed hleads =>
      refine hgoal ?_
      rw [itemAt?, hnamed]
      exact hleads.folder_eq
    | link _ _ _ hlink => exact (hname rfl).2 _ hlink
  | step _ _ hmore hlink hnamed _ ih =>
    rw [List.cons_append] at h'
    generalize hall : _ ++ rest = all at h'
    cases h' with
    | stop => exact hmore (List.append_eq_nil_iff.mp hall).1
    | step _ _ _ _ hnamed' hleads' =>
      cases hnamed.symm.trans hnamed'
      exact ih hgoal (hall ▸ hleads')
    | link _ _ _ hlink' => exact hlink _ hlink'
  | link _ _ _ hlink _ ih =>
    rw [List.cons_append] at h'
    generalize hall : _ ++ rest = all at h'
    cases h' with
    | stop => exact hrest (List.append_eq_nil_iff.mp hall).2
    | step _ _ _ hnot => exact hnot _ hlink
    | link _ _ _ hlink' hleads' =>
      cases hlink.symm.trans hlink'
      rw [← hall, ← List.append_assoc] at hleads'
      exact ih hgoal hleads'

/-- What the last name is makes no difference to the folder that it is in. -/
theorem exists_folder (h : store.Leads false folder (names ++ [name]) slash links goal) :
    ∃ place, goal.place = ⟨place, name⟩ ∧ ∀ name',
      store.Leads false folder (names ++ [name']) slash links ⟨⟨place, name'⟩, goal.slash⟩ := by
  generalize hall : names ++ [name] = all at h
  induction h generalizing names with
  | stop hfolder =>
    obtain ⟨rfl, rfl⟩ : names = [] ∧ name = _ := List.append_singleton_inj.mp hall
    exact ⟨_, rfl, fun name' => .stop hfolder nofun⟩
  | step hfolder hshort hrest hno hnamed _ ih =>
    cases names with
    | nil => exact absurd (List.cons.inj hall).2.symm hrest
    | cons first names =>
      obtain ⟨rfl, hnames⟩ := List.cons.inj hall
      obtain ⟨place, hplace, hleads⟩ := ih hnames
      exact ⟨place, hplace, fun name' => .step hfolder hshort (by simp) hno hnamed (hleads name')⟩
  | link hfolder hshort hlast hlink _ ih =>
    cases names with
    | nil => cases hlast (List.cons.inj hall).2.symm
    | cons first names =>
      rw [List.cons_append] at hall
      obtain ⟨rfl, rfl⟩ := List.cons.inj hall
      obtain ⟨place, hplace, hleads⟩ := ih (List.append_assoc _ _ _)
      refine ⟨place, hplace, fun name' => ?_⟩
      have hempty : ∀ name, (names ++ [name]).isEmpty = false := fun name => by simp
      rw [List.cons_append]
      refine .link hfolder hshort (by simp) hlink ?_
      rw [hempty, Bool.false_and, Bool.or_false] at hleads ⊢
      rw [← List.append_assoc]
      exact hleads name'

end Leads

end FileStore

end Compression
