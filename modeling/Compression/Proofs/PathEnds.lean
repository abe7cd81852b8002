import Compression.Proofs.PathWalks

namespace Compression

namespace FileStore

variable {store : FileStore} {last slash : Bool} {folder : Node} {name : FileName}
  {names rest : List FileName} {links : Nat} {goal : Goal}

/-! ### Places that names reach -/

/-- Names reach a place if enough links are followed, also that at the end. -/
def Reaches (store : FileStore) (folder : Node) (names : List FileName) (place : Place) : Prop :=
  ∃ slash links b, store.Leads true folder names slash links ⟨place, b⟩

/-- What a name stands for is in a place: in its own or, for a link, in the one that the link
leads to. -/
def EndsAt (store : FileStore) (entry place : Place) : Prop :=
  entry = place ∧ (∀ text, store.itemAt? entry ≠ some (.link text)) ∨
    ∃ text, store.itemAt? entry = some (.link text) ∧
      store.Reaches (store.startOf entry.folder (routeOf text)) (routeOf text).names place

variable {entry place place' : Place} {node : Node} {text : String}

theorem Leads.reaches (h : store.Leads true folder names slash links goal) :
    store.Reaches folder names goal.place :=
  ⟨slash, links, goal.slash, h⟩

theorem Reaches.unique (h : store.Reaches folder names place)
    (h' : store.Reaches folder names place') : place = place' := by
  obtain ⟨slash, links, b, h⟩ := h
  obtain ⟨slash', links', b', h'⟩ := h'
  obtain ⟨_, h''⟩ := h'.exists_slash slash
  exact congrArg Goal.place (h.unique h'')

theorem Reaches.step (hfolder : store.item? folder = some .folder)
    (hshort : isLongName name = false) (hrest : rest ≠ [])
    (hlink : ∀ text, store.itemAt? ⟨folder, name⟩ ≠ some (.link text))
    (hnamed : store.named? ⟨folder, name⟩ = some node) (h : store.Reaches node rest place) :
    store.Reaches folder (name :: rest) place := by
  obtain ⟨slash, links, b, h⟩ := h
  exact ⟨slash, links, b, .step hfolder hshort hrest hlink hnamed h⟩

theorem Reaches.link (hfolder : store.item? folder = some .folder)
    (hshort : isLongName name = false)
    (hlink : store.itemAt? ⟨folder, name⟩ = some (.link text))
    (h : store.Reaches (store.startOf folder (routeOf text)) ((routeOf text).names ++ rest) place) :
    store.Reaches folder (name :: rest) place := by
  obtain ⟨slash, links, b, h⟩ := h
  obtain ⟨b', h⟩ := h.exists_slash (false || rest.isEmpty && (routeOf text).slash)
  exact ⟨false, links + 1, b', .link hfolder hshort (fun _ => rfl) hlink h⟩

theorem EndsAt.unique (h : store.EndsAt entry place) (h' : store.EndsAt entry place') :
    place = place' := by
  obtain ⟨rfl, hno⟩ | ⟨text, htext, hreaches⟩ := h <;>
    obtain ⟨rfl, hno'⟩ | ⟨text', htext', hreaches'⟩ := h'
  · rfl
  · exact absurd htext' (hno text')
  · exact absurd htext (hno' text)
  · cases htext.symm.trans htext'
    exact hreaches.unique hreaches'

/-- A last name that is looked up reaches what it stands for. -/
theorem EndsAt.reaches (h : store.EndsAt ⟨folder, name⟩ place)
    (hfolder : store.item? folder = some .folder) (hshort : isLongName name = false) :
    store.Reaches folder [name] place := by
  obtain ⟨rfl, hno⟩ | ⟨text, htext, hreaches⟩ := h
  · exact ⟨false, 0, false, .stop hfolder fun _ => ⟨hshort, hno⟩⟩
  · exact .link hfolder hshort htext (by rwa [List.append_nil])

/-- Names that lead to a place lead to an entry of which the place is the end, if the last of them
is not followed. -/
theorem Leads.exists_entry (h : store.Leads true folder names slash links goal) :
    ∃ entry, (∃ links' ≤ links, store.Leads false folder names slash links' entry) ∧
      isLongName entry.place.name = false ∧ store.EndsAt entry.place goal.place := by
  induction h with
  | stop hfolder hname =>
    obtain ⟨hshort, hno⟩ := hname rfl
    exact ⟨_, ⟨0, Nat.le_refl 0, .stop hfolder nofun⟩, hshort, .inl ⟨rfl, hno⟩⟩
  | step hfolder hshort hrest hlink hnamed _ ih =>
    obtain ⟨entry, ⟨links', hlinks, hleads⟩, hends⟩ := ih
    exact ⟨entry, ⟨links', hlinks, .step hfolder hshort hrest hlink hnamed hleads⟩, hends⟩
  | @link folder name rest slash links goal text hfolder hshort _ hlink hleads ih =>
    cases rest with
    | nil =>
      rw [List.append_nil] at hleads
      exact ⟨_, ⟨0, Nat.zero_le _, .stop hfolder nofun⟩, hshort,
        .inr ⟨text, hlink, hleads.reaches⟩⟩
    | cons next rest =>
      obtain ⟨entry, ⟨links', hlinks, hleads'⟩, hends⟩ := ih
      exact ⟨entry, ⟨links' + 1, Nat.succ_le_succ hlinks, .link hfolder hshort nofun hlink hleads'⟩,
        hends⟩

/-- Names that lead to what ends in a place reach it. -/
theorem Leads.reaches_of_endsAt (h : store.Leads last folder names slash links goal)
    (hshort : isLongName goal.place.name = false) (hends : store.EndsAt goal.place place) :
    store.Reaches folder names place := by
  induction h with
  | stop hfolder => exact hends.reaches hfolder hshort
  | step hfolder hshort' hrest hlink hnamed _ ih =>
    exact .step hfolder hshort' hrest hlink hnamed (ih hshort hends)
  | link hfolder hshort' _ hlink _ ih => exact .link hfolder hshort' hlink (ih hshort hends)

/-! ### Stores in which paths lead alike -/

/-- Two stores with the same folders and the same links in the same places. -/
structure SameWays (store store' : FileStore) : Prop where
  root_eq : store.root = store'.root
  here_eq : store.here = store'.here
  folder_iff : ∀ node, store.item? node = some .folder ↔ store'.item? node = some .folder
  link_iff : ∀ place text, store.itemAt? place = some (.link text) ↔
    store'.itemAt? place = some (.link text)
  named_iff : ∀ place node, store.item? node = some .folder →
    (store.named? place = some node ↔ store'.named? place = some node)

variable {store' : FileStore}

namespace SameWays

theorem symm (h : store.SameWays store') : store'.SameWays store where
  root_eq := h.root_eq.symm
  here_eq := h.here_eq.symm
  folder_iff node := (h.folder_iff node).symm
  link_iff place text := (h.link_iff place text).symm
  named_iff place node hfolder := (h.named_iff place node ((h.folder_iff node).mpr hfolder)).symm

theorem startOf_eq (h : store.SameWays store') (folder : Node) (route : Route) :
    store.startOf folder route = store'.startOf folder route := by
  rw [startOf, startOf, h.root_eq]

theorem leads (h : store.SameWays store')
    (hleads : store.Leads last folder names slash links goal) :
    store'.Leads last folder names slash links goal := by
  induction hleads with
  | stop hfolder hname =>
    refine .stop ((h.folder_iff _).mp hfolder) fun hlast => ⟨(hname hlast).1, fun text htext => ?_⟩
    exact (hname hlast).2 text ((h.link_iff _ text).mpr htext)
  | step hfolder hshort hrest hlink hnamed hnext ih =>
    refine .step ((h.folder_iff _).mp hfolder) hshort hrest (fun text htext => ?_)
      ((h.named_iff _ _ hnext.folder_eq).mp hnamed) ih
    exact hlink text ((h.link_iff _ text).mpr htext)
  | link hfolder hshort hlast hlink _ ih =>
    refine .link ((h.folder_iff _).mp hfolder) hshort hlast ((h.link_iff _ _).mp hlink) ?_
    rwa [← h.startOf_eq]

theorem leads_iff (h : store.SameWays store') :
    store.Leads last folder names slash links goal ↔
      store'.Leads last folder names slash links goal :=
  ⟨h.leads, h.symm.leads⟩

theorem reaches_iff (h : store.SameWays store') :
    store.Reaches folder names place ↔ store'.Reaches folder names place := by
  unfold Reaches
  simp only [h.leads_iff]

theorem endsAt_iff (h : store.SameWays store') :
    store.EndsAt entry place ↔ store'.EndsAt entry place := by
  unfold EndsAt
  simp only [h.link_iff, h.startOf_eq, h.reaches_iff, ne_eq]

end SameWays

/-! ### A name less -/

/-- A name is gone that did not stand for a folder. -/
structure Unnamed (store : FileStore) (entry : Place) (after : FileStore) : Prop where
  root_eq : after.root = store.root
  here_eq : after.here = store.here
  item?_eq : ∀ node, after.item? node = store.item? node
  named?_self : after.named? entry = none
  named?_ne : ∀ {other}, other ≠ entry → after.named? other = store.named? other
  not_folder : store.itemAt? entry ≠ some .folder

namespace Unnamed

variable {after : FileStore}

theorem itemAt?_self (h : store.Unnamed entry after) : after.itemAt? entry = none := by
  rw [itemAt?, h.named?_self]
  rfl

theorem itemAt?_ne (h : store.Unnamed entry after) {other : Place} (hne : other ≠ entry) :
    after.itemAt? other = store.itemAt? other := by
  rw [itemAt?, itemAt?, h.named?_ne hne, funext h.item?_eq]

theorem startOf_eq (h : store.Unnamed entry after) (folder : Node) (route : Route) :
    after.startOf folder route = store.startOf folder route := by
  rw [startOf, startOf, h.root_eq]

/-- Without a name all those paths lead where they did that do not reach what the name stood
for. -/
theorem leads_iff (h : store.Unnamed entry after) (hends : store.EndsAt entry place)
    (hplace : store.itemAt? place ≠ some .folder) (hapart : ¬ store.Reaches folder names place) :
    after.Leads last folder names slash links goal ↔
      store.Leads last folder names slash links goal := by
  constructor
  · intro hleads
    induction hleads with
    | @stop folder name slash hfolder hname =>
      rw [h.item?_eq] at hfolder
      refine .stop hfolder fun hlast => ?_
      obtain ⟨hshort, hno⟩ := hname hlast
      have hne : ⟨folder, name⟩ ≠ entry := by
        rintro rfl
        exact hapart (hends.reaches hfolder hshort)
      exact ⟨hshort, fun text => h.itemAt?_ne hne ▸ hno text⟩
    | @step folder node name rest slash links goal hfolder hshort hrest hno hnamed _ ih =>
      rw [h.item?_eq] at hfolder
      have hne : ⟨folder, name⟩ ≠ entry := by
        rintro rfl
        cases h.named?_self.symm.trans hnamed
      have hno' : ∀ text, store.itemAt? ⟨folder, name⟩ ≠ some (.link text) :=
        fun text => h.itemAt?_ne hne ▸ hno text
      have hnamed' := (h.named?_ne hne).symm.trans hnamed
      exact .step hfolder hshort hrest hno' hnamed'
        (ih fun hreaches => hapart (.step hfolder hshort hrest hno' hnamed' hreaches))
    | @link folder name rest slash links goal text hfolder hshort hlast hlink _ ih =>
      rw [h.item?_eq] at hfolder
      have hne : ⟨folder, name⟩ ≠ entry := by
        rintro rfl
        cases h.itemAt?_self.symm.trans hlink
      have hlink' := (h.itemAt?_ne hne).symm.trans hlink
      rw [h.startOf_eq] at ih
      exact .link hfolder hshort hlast hlink'
        (ih fun hreaches => hapart (.link hfolder hshort hlink' hreaches))
  · intro hleads
    induction hleads with
    | @stop folder name slash hfolder hname =>
      refine .stop ((h.item?_eq _).trans hfolder) fun hlast => ?_
      obtain ⟨hshort, hno⟩ := hname hlast
      have hne : ⟨folder, name⟩ ≠ entry := by
        rintro rfl
        exact hapart (hends.reaches hfolder hshort)
      exact ⟨hshort, fun text => (h.itemAt?_ne hne).symm ▸ hno text⟩
    | @step folder node name rest slash links goal hfolder hshort hrest hno hnamed hnext ih =>
      have hne : ⟨folder, name⟩ ≠ entry := by
        rintro rfl
        refine h.not_folder ?_
        rw [itemAt?, hnamed]
        exact hnext.folder_eq
      exact .step ((h.item?_eq _).trans hfolder) hshort hrest
        (fun text => (h.itemAt?_ne hne).symm ▸ hno text) ((h.named?_ne hne).trans hnamed)
        (ih fun hreaches => hapart (.step hfolder hshort hrest hno hnamed hreaches))
    | @link folder name rest slash links goal text hfolder hshort hlast hlink hnext ih =>
      have hne : ⟨folder, name⟩ ≠ entry := by
        rintro rfl
        by_cases hrest : rest = []
        · subst hrest
          exact hapart (hends.reaches hfolder hshort)
        · obtain ⟨rfl, hno⟩ | ⟨text', htext', slash', links', b, hreaches⟩ := hends
          · exact hno text hlink
          · cases hlink.symm.trans htext'
            exact hreaches.not_append hplace hrest hnext
      refine .link ((h.item?_eq _).trans hfolder) hshort hlast ((h.itemAt?_ne hne).trans hlink) ?_
      rw [h.startOf_eq]
      exact ih fun hreaches => hapart (.link hfolder hshort hlink hreaches)

end Unnamed

/-! ### Paths -/

/-- A path ends in a place if enough links are followed. -/
def LeadsTo (store : FileStore) (path : String) (place : Place) : Prop :=
  store.Reaches (store.startOf store.here (routeOf path)) (routeOf path).names place

variable {path : String}

theorem goal_eq_ok_iff : store.goal last path = .ok goal ↔
    ¬ maxPathLength < path.utf8ByteSize ∧ path.isEmpty = false ∧
      ∃ links ≤ maxLinks, store.Leads last (store.startOf store.here (routeOf path))
        (routeOf path).names (routeOf path).slash links goal := by
  rw [FileStore.goal]
  split
  next hlong => simp [hlong]
  next hlong =>
    split
    next hempty => simp [hempty]
    next hempty =>
      rw [follow_eq_ok_iff, iff_true_intro hlong, eq_false_of_ne_true hempty]
      simp

theorem leadsTo_of_goal (h : store.goal true path = .ok goal) : store.LeadsTo path goal.place := by
  obtain ⟨_, _, _, _, hleads⟩ := goal_eq_ok_iff.mp h
  exact hleads.reaches

theorem not_link_of_goal (h : store.goal true path = .ok goal) (text : String) :
    store.itemAt? goal.place ≠ some (.link text) := by
  obtain ⟨_, _, _, _, hleads⟩ := goal_eq_ok_iff.mp h
  exact hleads.short_and_not_link.2 text

theorem short_of_goal (h : store.goal true path = .ok goal) :
    isLongName goal.place.name = false := by
  obtain ⟨_, _, _, _, hleads⟩ := goal_eq_ok_iff.mp h
  exact hleads.short_and_not_link.1

theorem leadsTo_of_endsAt {place : Place} (h : store.goal last path = .ok goal)
    (hshort : isLongName goal.place.name = false) (hends : store.EndsAt goal.place place) :
    store.LeadsTo path place := by
  obtain ⟨_, _, _, _, hleads⟩ := goal_eq_ok_iff.mp h
  exact hleads.reaches_of_endsAt hshort hends

theorem slash_of_goal {place : Place} (h : store.goal last path = .ok ⟨place, false⟩) :
    (routeOf path).slash = false := by
  obtain ⟨_, _, _, _, hleads⟩ := goal_eq_ok_iff.mp h
  exact eq_false_of_ne_true fun hslash => nomatch hleads.slash_of_slash hslash

theorem exists_entry_of_goal (h : store.goal true path = .ok goal) :
    ∃ entry, store.goal false path = .ok ⟨entry, (routeOf path).slash⟩ ∧
      isLongName entry.name = false ∧ store.EndsAt entry goal.place := by
  obtain ⟨hlong, hempty, links, hlinks, hleads⟩ := goal_eq_ok_iff.mp h
  obtain ⟨⟨entry, slash⟩, ⟨links', hlinks', hentry⟩, hshort, hends⟩ := hleads.exists_entry
  obtain rfl : slash = (routeOf path).slash := hentry.slash_eq
  exact ⟨entry,
    goal_eq_ok_iff.mpr ⟨hlong, hempty, links', Nat.le_trans hlinks' hlinks, hentry⟩, hshort, hends⟩

theorem SameWays.goal_iff (h : store.SameWays store') :
    store.goal last path = .ok goal ↔ store'.goal last path = .ok goal := by
  simp only [goal_eq_ok_iff, h.leads_iff, h.startOf_eq, h.here_eq]

theorem SameWays.leadsTo_iff (h : store.SameWays store') :
    store.LeadsTo path place ↔ store'.LeadsTo path place := by
  rw [LeadsTo, LeadsTo, h.reaches_iff, h.startOf_eq, h.here_eq]

theorem Unnamed.goal_iff {after : FileStore} (h : store.Unnamed entry after)
    (hends : store.EndsAt entry place) (hplace : store.itemAt? place ≠ some .folder)
    (hapart : ¬ store.LeadsTo path place) :
    after.goal last path = .ok goal ↔ store.goal last path = .ok goal := by
  simp only [goal_eq_ok_iff, h.startOf_eq, h.here_eq, h.leads_iff hends hplace hapart]

end FileStore

end Compression
