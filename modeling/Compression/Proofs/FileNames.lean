import Compression.Naming
import Compression.Proofs.PathEnds
import Mathlib.Data.List.Induction
import Mathlib.Data.List.TakeWhile

namespace Compression

theorem takeWhile_append_of_stop {α : Type} {p : α → Bool} {front back : List α}
    (hfront : ∀ a ∈ front, p a = true) (hback : ∀ a ∈ back.head?, p a = false) :
    (front ++ back).takeWhile p = front := by
  rw [List.takeWhile_append_of_pos hfront]
  cases back with
  | nil => exact List.append_nil front
  | cons a back => simp [hback a rfl]

theorem ne_of_mem_reverse {word : List Char} {stop : Char} (h : stop ∉ word) :
    ∀ c ∈ word.reverse, decide (c ≠ stop) = true := by
  intro c hc
  rw [decide_eq_true_eq]
  rintro rfl
  exact h (List.mem_reverse.mp hc)

/-! ### Directories and names -/

/-- A file name with the directory it lies in, which is nothing or ends in a slash. -/
structure LiesIn (path directory name : List Char) : Prop where
  path_eq : path = directory ++ name
  slash_not_mem : '/' ∉ name
  directory_end : ∀ c ∈ directory.getLast?, c = '/'

theorem directoryPart_append_lastComponent (path : List Char) :
    directoryPart path ++ lastComponent path = path := by
  have hsuffix : lastComponent path <:+ path := by
    rw [lastComponent, ← List.reverse_prefix, List.reverse_reverse]
    exact List.takeWhile_prefix _
  have hdrop := congrArg (directoryPart path ++ ·) (List.suffix_iff_eq_drop.mp hsuffix)
  exact hdrop.trans (List.take_append_drop _ _)

theorem liesIn_parts (path : List Char) :
    LiesIn path (directoryPart path) (lastComponent path) := by
  have hdirectory : directoryPart path = (path.reverse.dropWhile (· ≠ '/')).reverse := by
    refine List.append_cancel_right (?_ : _ ++ lastComponent path = _)
    rw [directoryPart_append_lastComponent, lastComponent, ← List.reverse_append,
      List.takeWhile_append_dropWhile, List.reverse_reverse]
  refine ⟨(directoryPart_append_lastComponent path).symm, fun hmem => ?_, fun c hc => ?_⟩
  · rw [lastComponent, List.mem_reverse] at hmem
    simpa using List.mem_takeWhile_imp hmem
  · rw [hdirectory, List.getLast?_reverse] at hc
    have hhead := List.head?_dropWhile_not (· ≠ '/') path.reverse
    rw [Option.mem_def.mp hc] at hhead
    simpa using hhead

section

variable {path directory name directory' name' : List Char}

theorem LiesIn.lastComponent_eq (h : LiesIn path directory name) : lastComponent path = name := by
  obtain ⟨rfl, hslash, hend⟩ := h
  have hstop : ∀ c ∈ directory.reverse.head?, decide (c ≠ '/') = false := by
    intro c hc
    rw [List.head?_reverse] at hc
    simpa using hend c hc
  rw [lastComponent, List.reverse_append,
    takeWhile_append_of_stop (ne_of_mem_reverse hslash) hstop, List.reverse_reverse]

theorem LiesIn.directoryPart_eq (h : LiesIn path directory name) :
    directoryPart path = directory := by
  have hpath := directoryPart_append_lastComponent path
  rw [h.lastComponent_eq] at hpath
  exact List.append_cancel_right (hpath.trans h.path_eq)

theorem LiesIn.unique (h : LiesIn path directory name) (h' : LiesIn path directory' name') :
    directory = directory' ∧ name = name' :=
  ⟨h.directoryPart_eq.symm.trans h'.directoryPart_eq,
    h.lastComponent_eq.symm.trans h'.lastComponent_eq⟩

/-- Another name in the same directory. -/
theorem LiesIn.rename (h : LiesIn path directory name) (hslash : '/' ∉ name') :
    LiesIn (directory ++ name') directory name' :=
  ⟨rfl, hslash, h.directory_end⟩

theorem LiesIn.append {ending : List Char} (h : LiesIn path directory name)
    (hslash : '/' ∉ ending) : LiesIn (path ++ ending) directory (name ++ ending) := by
  rw [h.path_eq, List.append_assoc]
  refine h.rename fun hmem => ?_
  exact (List.mem_append.mp hmem).elim h.slash_not_mem hslash

end

/-! ### Extensions -/

/-- A file name taken apart where its extension begins: at its last point, unless nothing but
points stands before that. -/
inductive HasExtension : List Char → List Char → List Char → Prop
  | pointed {stem letters : List Char} : (∃ c ∈ stem, c ≠ '.') → '.' ∉ letters →
      HasExtension (stem ++ '.' :: letters) stem ('.' :: letters)
  | bare {points word : List Char} : (∀ c ∈ points, c = '.') → '.' ∉ word →
      HasExtension (points ++ word) (points ++ word) []

theorem splitExtension_of_not_mem {name : List Char} (h : '.' ∉ name) :
    splitExtension name = (name, []) := by
  have hending := List.takeWhile_eq_self_iff.mpr (ne_of_mem_reverse h)
  simp only [splitExtension, hending, List.length_reverse, lt_irrefl, false_and, if_false]

theorem splitExtension_of_last_point {stem letters : List Char} (h : '.' ∉ letters) :
    splitExtension (stem ++ '.' :: letters) =
      if stem.any (· ≠ '.') then (stem, '.' :: letters) else (stem ++ '.' :: letters, []) := by
  have hreverse : (stem ++ '.' :: letters).reverse = letters.reverse ++ '.' :: stem.reverse := by
    simp
  have hending : (stem ++ '.' :: letters).reverse.takeWhile (· ≠ '.') = letters.reverse := by
    rw [hreverse]
    exact takeWhile_append_of_stop (ne_of_mem_reverse h) (by simp)
  have hdrop : (stem ++ '.' :: letters).reverse.drop (letters.reverse.length + 1) =
      stem.reverse := by
    rw [hreverse, ← List.drop_drop, List.drop_left, List.drop_one, List.tail_cons]
  have hlength : letters.reverse.length < (stem ++ '.' :: letters).length := by
    rw [List.length_append, List.length_cons, List.length_reverse]
    omega
  simp only [splitExtension, hending, hdrop, hlength, List.reverse_reverse, true_and]

theorem hasExtension_splitExtension (name : List Char) :
    HasExtension name (splitExtension name).1 (splitExtension name).2 := by
  by_cases hpoint : '.' ∈ name
  · obtain ⟨back, front, hreverse, hback⟩ :=
      List.eq_append_cons_of_mem (List.mem_reverse.mpr hpoint)
    have hname : name = front.reverse ++ '.' :: back.reverse := by
      rw [← name.reverse_reverse, hreverse]
      simp
    have hletters : '.' ∉ back.reverse := mt List.mem_reverse.mp hback
    rw [hname, splitExtension_of_last_point hletters]
    split
    next h => exact .pointed (by simpa using h) hletters
    next h =>
      have hbare : HasExtension ((front.reverse ++ ['.']) ++ back.reverse) _ _ :=
        .bare (by simpa [or_imp, forall_and] using h) hletters
      rwa [List.append_assoc, List.singleton_append] at hbare
  · rw [splitExtension_of_not_mem hpoint]
    have hbare : HasExtension ([] ++ name) ([] ++ name) [] := .bare (by simp) hpoint
    exact hbare

section

variable {name stem extension stem' extension' mark : List Char}

theorem HasExtension.name_eq (h : HasExtension name stem extension) : name = stem ++ extension := by
  cases h with
  | pointed => rfl
  | bare => exact (List.append_nil _).symm

theorem HasExtension.splitExtension_eq (h : HasExtension name stem extension) :
    splitExtension name = (stem, extension) := by
  cases h with
  | pointed hstem hletters =>
    rw [splitExtension_of_last_point hletters, if_pos (by simpa using hstem)]
  | @bare points word hpoints hword =>
    cases points using List.reverseRecOn with
    | nil => exact splitExtension_of_not_mem hword
    | append_singleton points c =>
      obtain rfl : c = '.' := hpoints c (by simp)
      rw [List.append_assoc, List.singleton_append, splitExtension_of_last_point hword, if_neg]
      simpa using fun c hc => hpoints c (List.mem_append_left _ hc)

theorem HasExtension.unique (h : HasExtension name stem extension)
    (h' : HasExtension name stem' extension') : stem = stem' ∧ extension = extension' :=
  Prod.ext_iff.mp (h.splitExtension_eq.symm.trans h'.splitExtension_eq)

/-- A mark in front of the extension leaves the extension where it is. -/
theorem HasExtension.insert (h : HasExtension name stem extension) (hmark : '.' ∉ mark) :
    HasExtension (stem ++ mark ++ extension) (stem ++ mark) extension := by
  cases h with
  | @pointed stem letters hstem hletters =>
    obtain ⟨c, hc, hne⟩ := hstem
    exact .pointed ⟨c, List.mem_append_left mark hc, hne⟩ hletters
  | @bare points word hpoints hword =>
    rw [List.append_nil, List.append_assoc]
    refine .bare hpoints fun hmem => ?_
    exact (List.mem_append.mp hmem).elim hword hmark

end

/-! ### Places -/

theorem splitSlashes_of_not_mem {name : List Char} (h : '/' ∉ name) :
    splitSlashes name = [name] := by
  induction name with
  | nil => rfl
  | cons c name ih =>
    rw [List.mem_cons, not_or] at h
    rw [splitSlashes, if_neg (Ne.symm h.1), ih h.2]

theorem splitSlashes_append_slash (front back : List Char) :
    splitSlashes (front ++ '/' :: back) = splitSlashes front ++ splitSlashes back := by
  induction front with
  | nil => rfl
  | cons c front ih =>
    rw [List.cons_append, splitSlashes, splitSlashes, ih]
    split
    next => rfl
    next =>
      cases hfront : splitSlashes front with
      | nil =>
        unfold splitSlashes at hfront
        split at hfront
        next => cases hfront
        next => split at hfront <;> [cases hfront; split at hfront <;> cases hfront]
      | cons piece pieces => rfl

/-- The names of a path are those of its directory, and the last one. -/
theorem LiesIn.pathNames_eq {path directory name : List Char} (h : LiesIn path directory name)
    (hname : name ≠ []) : pathNames path = pathNames directory ++ [name] := by
  have hlast : [name].filter (fun piece => !piece.isEmpty) = [name] := by simp [hname]
  unfold pathNames
  obtain ⟨rfl, hslash, hend⟩ := h
  cases directory using List.reverseRecOn with
  | nil => rw [List.nil_append, splitSlashes_of_not_mem hslash, hlast]; rfl
  | append_singleton directory c =>
    obtain rfl : c = '/' := hend c (by simp)
    rw [List.append_assoc, List.singleton_append, splitSlashes_append_slash,
      splitSlashes_append_slash, splitSlashes_of_not_mem hslash, List.filter_append,
      List.filter_append, hlast]
    simp [splitSlashes]

/-- Where a path starts hangs on its directory. -/
theorem LiesIn.fromRoot_eq {path : String} {directory name : List Char}
    (h : LiesIn path.toList directory name) :
    (routeOf path).fromRoot = decide (directory.head? = some '/') := by
  rw [routeOf, h.path_eq]
  cases directory with
  | cons c directory => rfl
  | nil =>
    have hslash := h.slash_not_mem
    cases name with
    | nil => rfl
    | cons c name =>
      rw [List.mem_cons, not_or] at hslash
      simpa using Ne.symm hslash.1

theorem LiesIn.names_eq {path : String} {directory name : List Char}
    (h : LiesIn path.toList directory name) (hname : name ≠ []) :
    (routeOf path).names = pathNames directory ++ [name] := by
  rw [routeOf, h.pathNames_eq hname]
  simp

namespace FileStore

/-- Paths with one directory end in one folder. -/
theorem exists_folder_of_goal {store : FileStore} {path path' : String}
    {directory name name' : List Char} {goal goal' : Goal}
    (hlies : LiesIn path.toList directory name) (hlies' : LiesIn path'.toList directory name')
    (hname : name ≠ []) (hname' : name' ≠ []) (h : store.goal false path = .ok goal)
    (h' : store.goal false path' = .ok goal') :
    ∃ folder, goal.place = ⟨folder, name⟩ ∧ goal'.place = ⟨folder, name'⟩ := by
  obtain ⟨_, _, links, _, hleads⟩ := goal_eq_ok_iff.mp h
  obtain ⟨_, _, links', _, hleads'⟩ := goal_eq_ok_iff.mp h'
  have hstart : store.startOf store.here (routeOf path) =
      store.startOf store.here (routeOf path') := by
    rw [startOf, startOf, hlies.fromRoot_eq, hlies'.fromRoot_eq]
  rw [hlies.names_eq hname] at hleads
  rw [hlies'.names_eq hname', ← hstart] at hleads'
  obtain ⟨folder, hplace, hall⟩ := hleads.exists_folder
  obtain ⟨b, hsame⟩ := hleads'.exists_slash (routeOf path).slash
  exact ⟨folder, hplace, (congrArg Goal.place ((hall name').unique hsame)).symm⟩

end FileStore

end Compression
