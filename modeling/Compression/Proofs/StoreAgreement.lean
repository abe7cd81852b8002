import Compression.Proofs.WrittenFiles

namespace Compression

namespace FileStore

/-- Two stores with the same names and the same files. -/
structure Same (store store' : FileStore) : Prop where
  root_eq : store.root = store'.root
  here_eq : store.here = store'.here
  named?_eq : ∀ place, store.named? place = store'.named? place
  item?_eq : ∀ node, store.item? node = store'.item? node

/-- The file for which a name stands, or the one that would be made under it. -/
def nodeAt (store : FileStore) (place : Place) : Node :=
  (store.named? place).getD (store.freshAt place)

/-- Two paths lead to one file, which need not be there yet. -/
def Meet (store : FileStore) (path path' : String) : Prop :=
  ∃ place place', store.LeadsTo path place ∧ store.LeadsTo path' place' ∧
    store.nodeAt place = store.nodeAt place'

/-- Two stores in which a path leads to the same names, if to any, and there to the same files. -/
structure AgreesOn (store store' : FileStore) (path : String) : Prop where
  goal_iff : ∀ last goal, store.goal last path = .ok goal ↔ store'.goal last path = .ok goal
  entry_eq : ∀ last goal, store.goal last path = .ok goal → isLongName goal.place.name = false →
    store.named? goal.place = store'.named? goal.place ∧
      store.itemAt? goal.place = store'.itemAt? goal.place
  nodeAt_eq : ∀ goal, store.goal true path = .ok goal →
    store.nodeAt goal.place = store'.nodeAt goal.place

variable {store store' after part opened : FileStore} {path path' : String}
  {place place' other : Place} {node : Node} {data : Bytes}

theorem Meet.symm (h : store.Meet path path') : store.Meet path' path := by
  obtain ⟨place, place', hleads, hleads', hnode⟩ := h
  exact ⟨place', place, hleads', hleads, hnode.symm⟩

/-- Paths that have been followed to different files do not meet. -/
theorem not_meet_of_goal {goal goal' : Goal} (h : store.goal true path = .ok goal)
    (h' : store.goal true path' = .ok goal')
    (hne : store.nodeAt goal.place ≠ store.nodeAt goal'.place) : ¬ store.Meet path path' := by
  rintro ⟨place, place', hleads, hleads', hnode⟩
  obtain rfl := hleads.unique (leadsTo_of_goal h)
  obtain rfl := hleads'.unique (leadsTo_of_goal h')
  exact hne hnode

namespace AgreesOn

theorem refl (store : FileStore) (path : String) : store.AgreesOn store path where
  goal_iff _ _ := Iff.rfl
  entry_eq _ _ _ _ := ⟨rfl, rfl⟩
  nodeAt_eq _ _ := rfl

theorem symm (h : store.AgreesOn store' path) : store'.AgreesOn store path where
  goal_iff last goal := (h.goal_iff last goal).symm
  entry_eq last goal hgoal hshort := by
    obtain ⟨hnamed, hitem⟩ := h.entry_eq last goal ((h.goal_iff last goal).mpr hgoal) hshort
    exact ⟨hnamed.symm, hitem.symm⟩
  nodeAt_eq goal hgoal := (h.nodeAt_eq goal ((h.goal_iff true goal).mpr hgoal)).symm

theorem place_eq {goal : Goal} (h : store.AgreesOn store' path)
    (hgoal : store.goal true path = .ok goal) :
    store.named? goal.place = store'.named? goal.place ∧
      store.itemAt? goal.place = store'.itemAt? goal.place :=
  h.entry_eq true goal hgoal (short_of_goal hgoal)

theorem read_eq {reading : Device → Bytes} (h : store.AgreesOn store' path)
    (hread : store.read reading path = .ok data) : store'.read reading path = .ok data := by
  obtain ⟨place, hgoal, hitem⟩ := read_eq_ok_iff.mp hread
  rw [(h.place_eq hgoal).2] at hitem
  exact read_eq_ok_iff.mpr ⟨place, (h.goal_iff true _).mp hgoal, hitem⟩

end AgreesOn

/-! ### Files that are written in two stores alike -/

namespace Written

theorem nodeAt_eq (h : store.Written place data node after) : store.nodeAt place = node := by
  rw [nodeAt]
  obtain ⟨hnone, _, hnode⟩ | ⟨hnamed, _⟩ := h.before
  · rw [hnone, hnode]
    rfl
  · rw [hnamed]
    rfl

theorem item?_before (h : store.Written place data node after) :
    store.item? node = store.itemAt? place := by
  rw [itemAt?]
  obtain ⟨hnone, hitem, _⟩ | ⟨hnamed, _⟩ := h.before
  · rw [hnone, hitem]
    rfl
  · rw [hnamed]
    rfl

variable {after' : FileStore}

/-- What a file holds that has been written hangs on what it was before. -/
theorem item?_eq (h : store.Written place data node after)
    (h' : store'.Written place data node after')
    (hitem : store.itemAt? place = store'.itemAt? place) :
    after.item? node = after'.item? node := by
  have hbefore : store.item? node = store'.item? node := by
    rw [h.item?_before, h'.item?_before, hitem]
  obtain ⟨hfile, hno⟩ | ⟨device, hdevice, rfl⟩ := h.item?_self <;>
    obtain ⟨hfile', hno'⟩ | ⟨device', hdevice', rfl⟩ := h'.item?_self
  · rw [hfile, hfile']
  · exact absurd (hbefore.trans hdevice') (hno device')
  · exact absurd (hbefore.symm.trans hdevice) (hno' device)
  · exact hbefore

theorem exists_alike (h : store.Written place data node after)
    (hnamed : store.named? place = store'.named? place)
    (hitem : store.itemAt? place = store'.itemAt? place)
    (hnode : store.nodeAt place = store'.nodeAt place) :
    ∃ after', store'.Written place data node after' := by
  rw [h.nodeAt_eq] at hnode
  rw [← h.item?_before] at hitem
  cases h with
  | made hnone =>
    rw [hnone] at hnamed
    rw [nodeAt, ← hnamed] at hnode
    rw [hnode]
    exact ⟨_, .made hnamed.symm⟩
  | file hself hold =>
    rw [hself] at hnamed
    rw [itemAt?, ← hnamed, hold] at hitem
    exact ⟨_, .file hnamed.symm hitem.symm⟩
  | device hself hold =>
    rw [hself] at hnamed
    rw [itemAt?, ← hnamed, hold] at hitem
    exact ⟨_, .device hnamed.symm hitem.symm⟩

theorem agreesOn (h : store.Written place data node after)
    (h' : store'.Written place data node after') (hagrees : store.AgreesOn store' path)
    (hgoal : store.goal true path = .ok ⟨place, false⟩) : after.AgreesOn after' path := by
  have hback : ∀ last goal, after.goal last path = .ok goal ↔ store.goal last path = .ok goal :=
    fun last goal => h.sameWays.goal_iff.symm
  have hitem := h.item?_eq h' (hagrees.place_eq hgoal).2
  refine ⟨fun last goal => ?_, fun last goal hlast hshort => ?_, fun goal hlast => ?_⟩
  · rw [hback, hagrees.goal_iff, h'.sameWays.goal_iff]
  · obtain ⟨hnamed, hbefore⟩ := hagrees.entry_eq last goal ((hback last goal).mp hlast) hshort
    by_cases hplace : goal.place = place
    · rw [hplace, itemAt?, itemAt?, h.named?_self, h'.named?_self]
      exact ⟨rfl, hitem⟩
    · rw [itemAt?, itemAt?, h.named?_ne hplace, h'.named?_ne hplace, ← hnamed]
      refine ⟨rfl, ?_⟩
      rw [itemAt?, itemAt?, ← hnamed] at hbefore
      cases hentry : store.named? goal.place with
      | none => rfl
      | some found =>
        rw [hentry] at hbefore
        by_cases hnode : found = node
        · exact hnode ▸ hitem
        · exact (h.item?_ne hnode).trans (hbefore.trans (h'.item?_ne hnode).symm)
  · cases ((hback true goal).mp hlast).symm.trans hgoal
    rw [nodeAt, nodeAt, h.named?_self, h'.named?_self]
    rfl

theorem freshAt_eq (h : store.Written place data node after) (hne : other ≠ place) :
    after.freshAt other = store.freshAt other := by
  rw [freshAt, freshAt]
  congr 1
  refine madeAt_eq_of fun earlier => ?_
  by_cases hnode : .made other.folder other.name earlier = node
  · obtain ⟨_, _, hfresh⟩ | ⟨_, hbefore⟩ := h.before
    · obtain ⟨hfolder, hname, _⟩ := Node.made.inj (hnode.trans hfresh)
      exact absurd (congrArg₂ Place.mk hfolder hname) hne
    · rw [hnode]
      obtain ⟨hfile, _⟩ | ⟨_, _, rfl⟩ := h.item?_self
      · obtain ⟨_, hold⟩ | ⟨_, hold⟩ := hbefore <;> rw [hfile, hold] <;> rfl
      · rfl
  · rw [h.item?_ne hnode]

end Written

theorem Unnamed.freshAt_eq {entry : Place} (h : store.Unnamed entry after) (other : Place) :
    after.freshAt other = store.freshAt other := by
  rw [freshAt, freshAt]
  congr 1
  exact madeAt_eq_of fun earlier => by rw [h.item?_eq]

/-! ### What a path gives access to -/

/-- The path leads to what a name stands for. -/
def NamedBy (store : FileStore) (path : String) (entry : Place) : Prop :=
  ∃ place, store.LeadsTo path place ∧ store.EndsAt entry place

/-- The path leads to a file, or to where it would be made. -/
def FiledBy (store : FileStore) (path : String) (node : Node) : Prop :=
  ∃ place, store.LeadsTo path place ∧ node = store.nodeAt place

theorem not_namedBy_of_not_meet (h : ¬ store.Meet path path') (hnamed : store.NamedBy path other) :
    ¬ store.NamedBy path' other := by
  rintro ⟨place', hleads', hends'⟩
  obtain ⟨place, hleads, hends⟩ := hnamed
  obtain rfl := hends.unique hends'
  exact h ⟨place, place, hleads, hleads', rfl⟩

theorem not_filedBy_of_not_meet (h : ¬ store.Meet path path') (hfiled : store.FiledBy path node) :
    ¬ store.FiledBy path' node := by
  rintro ⟨place', hleads', rfl⟩
  obtain ⟨place, hleads, hnode⟩ := hfiled
  exact h ⟨place, place', hleads, hleads', hnode.symm⟩

theorem FiledBy.not_link (h : store.FiledBy path node) (text : String) :
    store.item? node ≠ some (.link text) := by
  obtain ⟨place, ⟨_, _, _, hleads⟩, rfl⟩ := h
  have hlink := hleads.short_and_not_link.2 text
  rw [itemAt?] at hlink
  rw [nodeAt]
  cases hnamed : store.named? place with
  | none =>
    rw [Option.getD_none, item?_freshAt]
    exact (Option.some_ne_none _).symm
  | some node =>
    rw [hnamed] at hlink
    exact hlink

/-- A change to what a path gives access to, and to nothing else. -/
structure Touches (store : FileStore) (path : String) (after : FileStore) : Prop where
  goal_iff : ∀ {path'}, ¬ store.Meet path' path → ∀ last goal,
    store.goal last path' = .ok goal ↔ after.goal last path' = .ok goal
  named?_eq : ∀ {entry}, ¬ store.NamedBy path entry → store.named? entry = after.named? entry
  item?_eq : ∀ {node}, ¬ store.FiledBy path node → store.item? node = after.item? node
  freshAt_eq : ∀ {place}, ¬ store.LeadsTo path place → store.freshAt place = after.freshAt place

namespace Touches

theorem refl (store : FileStore) (path : String) : store.Touches path store where
  goal_iff _ _ _ := Iff.rfl
  named?_eq _ := rfl
  item?_eq _ := rfl
  freshAt_eq _ := rfl

theorem of_written (hgoal : store.goal true path = .ok ⟨place, false⟩)
    (h : store.Written place data node after) : store.Touches path after where
  goal_iff _ _ _ := h.sameWays.goal_iff
  named?_eq hnot := by
    refine (h.named?_ne ?_).symm
    rintro rfl
    exact hnot ⟨_, leadsTo_of_goal hgoal, .inl ⟨rfl, not_link_of_goal hgoal⟩⟩
  item?_eq hnot := by
    refine (h.item?_ne ?_).symm
    rintro rfl
    exact hnot ⟨_, leadsTo_of_goal hgoal, h.nodeAt_eq.symm⟩
  freshAt_eq hnot := by
    refine (h.freshAt_eq ?_).symm
    rintro rfl
    exact hnot (leadsTo_of_goal hgoal)

theorem of_unnamed {entry : Place} (hgoal : store.goal true path = .ok ⟨place, false⟩)
    (h : store.Written place data node part) (hends : store.EndsAt entry place)
    (hafter : part.Unnamed entry after) : store.Touches path after := by
  have hpart := of_written hgoal h
  have hleads := leadsTo_of_goal hgoal
  have hfolder : part.itemAt? place ≠ some .folder := by
    obtain hfile | ⟨device, hdevice⟩ := h.itemAt?_self
    · simp [hfile]
    · simp [hdevice]
  refine ⟨fun {path'} hapart last goal => ?_, fun {other} hnot => ?_, fun {node} hnot => ?_,
    fun {other} hnot => ?_⟩
  · have haway : ¬ part.LeadsTo path' place := fun hleads' =>
      hapart ⟨place, place, h.sameWays.leadsTo_iff.mpr hleads', hleads, rfl⟩
    rw [hpart.goal_iff hapart,
      hafter.goal_iff (h.sameWays.endsAt_iff.mp hends) hfolder haway]
  · rw [hpart.named?_eq hnot]
    refine (hafter.named?_ne ?_).symm
    rintro rfl
    exact hnot ⟨place, hleads, hends⟩
  · rw [hpart.item?_eq hnot, hafter.item?_eq]
  · rw [hpart.freshAt_eq hnot, hafter.freshAt_eq]

/-- A path that does not meet the changed one leads where it did. -/
theorem agreesOn (h : store.Touches path after) (hapart : ¬ store.Meet path' path) :
    store.AgreesOn after path' where
  goal_iff := h.goal_iff hapart
  entry_eq last goal hgoal hshort := by
    have hleads : ∀ {place}, store.EndsAt goal.place place → store.LeadsTo path' place :=
      leadsTo_of_endsAt hgoal hshort
    have hnamed : store.named? goal.place = after.named? goal.place := by
      refine h.named?_eq ?_
      rintro ⟨place, hplace, hends⟩
      exact hapart ⟨place, place, hleads hends, hplace, rfl⟩
    refine ⟨hnamed, ?_⟩
    rw [itemAt?, itemAt?, ← hnamed]
    cases hentry : store.named? goal.place with
    | none => rfl
    | some node =>
      refine h.item?_eq fun hfiled => ?_
      -- The file is no link, so the name stands for the file itself.
      have hself : store.EndsAt goal.place goal.place :=
        .inl ⟨rfl, fun text hlink => hfiled.not_link text (by rwa [itemAt?, hentry] at hlink)⟩
      obtain ⟨place, hplace, hnode⟩ := hfiled
      refine hapart ⟨goal.place, place, hleads hself, hplace, ?_⟩
      rw [nodeAt, hentry]
      exact hnode
  nodeAt_eq goal hgoal := by
    have hleads := leadsTo_of_goal hgoal
    have hends : store.EndsAt goal.place goal.place := .inl ⟨rfl, not_link_of_goal hgoal⟩
    rw [nodeAt, nodeAt, h.named?_eq, h.freshAt_eq]
    · intro hplace
      exact hapart ⟨_, _, hleads, hplace, rfl⟩
    · rintro ⟨place, hplace, hends'⟩
      exact hapart ⟨place, place, hends.unique hends' ▸ hleads, hplace, rfl⟩

end Touches

/-! ### Changes side by side -/

/-- Two changes that do the same to some names and files, or nothing, and nothing to any other. -/
structure Parallel (places : Place → Prop) (nodes : Node → Prop)
    (store after store' after' : FileStore) : Prop where
  root_eq : after.root = store.root ∧ after'.root = store'.root
  here_eq : after.here = store.here ∧ after'.here = store'.here
  named? : ∀ place, (after.named? place = store.named? place ∧
    after'.named? place = store'.named? place) ∨
      places place ∧ after.named? place = after'.named? place
  item? : ∀ node, (after.item? node = store.item? node ∧ after'.item? node = store'.item? node) ∨
    nodes node ∧ after.item? node = after'.item? node

namespace Parallel

variable {places places' : Place → Prop} {nodes nodes' : Node → Prop} {after' part' : FileStore}

theorem refl (places : Place → Prop) (nodes : Node → Prop) (store store' : FileStore) :
    Parallel places nodes store store store' store' where
  root_eq := ⟨rfl, rfl⟩
  here_eq := ⟨rfl, rfl⟩
  named? _ := .inl ⟨rfl, rfl⟩
  item? _ := .inl ⟨rfl, rfl⟩

theorem mono (h : Parallel places nodes store after store' after')
    (hplaces : ∀ place, places place → places' place) (hnodes : ∀ node, nodes node → nodes' node) :
    Parallel places' nodes' store after store' after' where
  root_eq := h.root_eq
  here_eq := h.here_eq
  named? place := (h.named? place).imp_right fun hplace => ⟨hplaces place hplace.1, hplace.2⟩
  item? node := (h.item? node).imp_right fun hnode => ⟨hnodes node hnode.1, hnode.2⟩

theorem of_written (h : store.Written place data node after)
    (h' : store'.Written place data node after') (hitem : after.item? node = after'.item? node)
    (hplace : places place) (hnode : nodes node) :
    Parallel places nodes store after store' after' where
  root_eq := ⟨h.root_eq, h'.root_eq⟩
  here_eq := ⟨h.here_eq, h'.here_eq⟩
  named? other := by
    by_cases hother : other = place
    · subst hother
      exact .inr ⟨hplace, h.named?_self.trans h'.named?_self.symm⟩
    · exact .inl ⟨h.named?_ne hother, h'.named?_ne hother⟩
  item? other := by
    by_cases hother : other = node
    · subst hother
      exact .inr ⟨hnode, hitem⟩
    · exact .inl ⟨h.item?_ne hother, h'.item?_ne hother⟩

theorem unnamed {entry : Place} (h : Parallel places nodes store part store' part')
    (hafter : part.Unnamed entry after) (hafter' : part'.Unnamed entry after')
    (hentry : places entry) : Parallel places nodes store after store' after' where
  root_eq := by rw [hafter.root_eq, hafter'.root_eq]; exact h.root_eq
  here_eq := by rw [hafter.here_eq, hafter'.here_eq]; exact h.here_eq
  named? other := by
    by_cases hother : other = entry
    · subst hother
      exact .inr ⟨hentry, hafter.named?_self.trans hafter'.named?_self.symm⟩
    · rw [hafter.named?_ne hother, hafter'.named?_ne hother]
      exact h.named? other
  item? other := by
    rw [hafter.item?_eq, hafter'.item?_eq]
    exact h.item? other

/-- Of two changes to different names and files it does not matter which comes first. -/
theorem comm {last last' : FileStore} (h : Parallel places nodes store after after' last')
    (h' : Parallel places' nodes' store after' after last)
    (hplaces : ∀ place, places place → ¬ places' place)
    (hnodes : ∀ node, nodes node → ¬ nodes' node) : last.Same last' where
  root_eq := by rw [h'.root_eq.2, h.root_eq.1, h.root_eq.2, h'.root_eq.1]
  here_eq := by rw [h'.here_eq.2, h.here_eq.1, h.here_eq.2, h'.here_eq.1]
  named?_eq place := by
    obtain ⟨hfirst, hlast⟩ | ⟨hplace, hsame⟩ := h.named? place <;>
      obtain ⟨hfirst', hlast'⟩ | ⟨hplace', hsame'⟩ := h'.named? place
    · rw [hlast', hfirst, hlast, hfirst']
    · rw [hlast, hsame']
    · rw [hlast', hsame]
    · exact absurd hplace' (hplaces place hplace)
  item?_eq node := by
    obtain ⟨hfirst, hlast⟩ | ⟨hnode, hsame⟩ := h.item? node <;>
      obtain ⟨hfirst', hlast'⟩ | ⟨hnode', hsame'⟩ := h'.item? node
    · rw [hlast', hfirst, hlast, hfirst']
    · rw [hlast, hsame']
    · rw [hlast', hsame]
    · exact absurd hnode' (hnodes node hnode)

end Parallel

end FileStore

end Compression
