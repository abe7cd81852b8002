import Compression.Proofs.FileNames
import Compression.Proofs.WrittenFiles
import Mathlib.Data.Set.Function

namespace Compression

/-! ### Derived names -/

theorem slash_not_mem_decodedMark : '/' ∉ decodedMark := by
  decide

theorem point_not_mem_decodedMark : '.' ∉ decodedMark := by
  decide

namespace Algorithm

variable {path base : List Char}

theorem slash_not_mem_suffix (a : Algorithm) : '/' ∉ a.suffix := by
  cases a <;> decide

theorem suffix_ne_nil (a : Algorithm) : a.suffix ≠ [] := by
  cases a <;> decide

theorem take_append_suffix (a : Algorithm) (base : List Char) :
    (base ++ a.suffix).take ((base ++ a.suffix).length - a.suffix.length) = base := by
  rw [List.length_append, Nat.add_sub_cancel, List.take_left]

theorem suffix_isSuffixOf (a : Algorithm) (base : List Char) :
    a.suffix.isSuffixOf (base ++ a.suffix) = true :=
  List.isSuffixOf_iff_suffix.mpr (List.suffix_append base a.suffix)

theorem decompressedChars_huffman_append (base : List Char) :
    huffman.decompressedChars (base ++ huffman.suffix) = markStem decodedMark base := by
  simp only [decompressedChars, suffix_isSuffixOf, take_append_suffix, if_true]

theorem decompressedChars_huffman_other (h : ∀ base, path ≠ base ++ huffman.suffix) :
    huffman.decompressedChars path = path ++ decodedMark := by
  have hother : ¬ huffman.suffix.isSuffixOf path = true := by
    rw [List.isSuffixOf_iff_suffix]
    rintro ⟨base, hbase⟩
    exact h base hbase.symm
  simp only [decompressedChars, if_neg hother]

theorem decompressedChars_lzss_append (h : base ≠ []) :
    lzss.decompressedChars (base ++ lzss.suffix) = base := by
  simp only [decompressedChars, suffix_isSuffixOf, take_append_suffix]
  exact if_pos ⟨trivial, h⟩

theorem decompressedChars_lzss_other (h : ∀ base, base ≠ [] → path ≠ base ++ lzss.suffix) :
    lzss.decompressedChars path = path ++ restoredSuffix := by
  simp only [decompressedChars]
  rw [if_neg]
  rintro ⟨hsuffix, hbase⟩
  obtain ⟨base, rfl⟩ := List.isSuffixOf_iff_suffix.mp hsuffix
  rw [take_append_suffix] at hbase
  exact h base hbase rfl

theorem decompressedChars_dct (path : List Char) :
    dct.decompressedChars path = path ++ pixelSuffix :=
  rfl

end Algorithm

theorem LiesIn.markStem {path directory name mark : List Char} (h : LiesIn path directory name)
    (hmark : '/' ∉ mark) :
    LiesIn (markStem mark path) directory
      ((splitExtension name).1 ++ mark ++ (splitExtension name).2) := by
  have hname := (hasExtension_splitExtension name).name_eq
  have hslash := h.slash_not_mem
  rw [hname, List.mem_append, not_or] at hslash
  have hrenamed : '/' ∉ (splitExtension name).1 ++ mark ++ (splitExtension name).2 := by
    simp [hslash, hmark]
  simpa [Compression.markStem, h.lastComponent_eq, h.directoryPart_eq] using h.rename hrenamed

theorem length_markStem (mark path : List Char) :
    (markStem mark path).length = path.length + mark.length := by
  have hpath := congrArg List.length (directoryPart_append_lastComponent path)
  have hname := congrArg List.length (hasExtension_splitExtension (lastComponent path)).name_eq
  simp only [markStem, List.length_append] at hpath hname ⊢
  omega

/-- A place for a decompressed file is in the directory of the file that was compressed. It has no
name only if the name was nothing but the suffix that is taken off. -/
theorem exists_liesIn_decompressed (a : Algorithm) (path : List Char) :
    ∃ name, LiesIn (a.decompressedChars path) (directoryPart path) name ∧
      (name = [] ↔ a = .lzss ∧ lastComponent path = a.suffix ∧ directoryPart path ≠ []) := by
  have hlies := liesIn_parts path
  cases a with
  | huffman =>
    by_cases hsuffix : ∃ base, path = base ++ Algorithm.huffman.suffix
    · obtain ⟨base, rfl⟩ := hsuffix
      rw [Algorithm.decompressedChars_huffman_append]
      have hbase := liesIn_parts base
      rw [(hbase.append Algorithm.huffman.slash_not_mem_suffix).directoryPart_eq]
      exact ⟨_, hbase.markStem slash_not_mem_decodedMark, by simp [decodedMark]⟩
    · rw [Algorithm.decompressedChars_huffman_other (not_exists.mp hsuffix)]
      exact ⟨_, hlies.append slash_not_mem_decodedMark, by simp [decodedMark]⟩
  | lzss =>
    by_cases hsuffix : ∃ base, base ≠ [] ∧ path = base ++ Algorithm.lzss.suffix
    · obtain ⟨base, hne, rfl⟩ := hsuffix
      rw [Algorithm.decompressedChars_lzss_append hne]
      have hbase := liesIn_parts base
      have happend := hbase.append Algorithm.lzss.slash_not_mem_suffix
      rw [happend.directoryPart_eq, happend.lastComponent_eq]
      refine ⟨lastComponent base, hbase, ?_⟩
      -- The directory is not empty, since the path is longer than the suffix.
      have hdirectory : lastComponent base = [] → directoryPart base ≠ [] := by
        intro hname hempty
        rw [hbase.path_eq, hname, hempty] at hne
        exact hne rfl
      simpa using hdirectory
    · rw [Algorithm.decompressedChars_lzss_other fun base hne heq => hsuffix ⟨base, hne, heq⟩]
      refine ⟨_, hlies.append (by decide), ?_⟩
      have hother : ¬ (lastComponent path = Algorithm.lzss.suffix ∧ directoryPart path ≠ []) := by
        rintro ⟨hname, hne⟩
        refine hsuffix ⟨directoryPart path, hne, ?_⟩
        rw [← hname]
        exact hlies.path_eq
      simpa [restoredSuffix] using hother
  | dct => exact ⟨_, hlies.append (by decide), by simp [pixelSuffix]⟩

/-- Files with default names lie beside their input, and have a name of their own. The only place
without a name is that of a decompressed file whose input has nothing but the suffix for a name and
lies in a directory that is told: there it is the directory itself. -/
theorem defaultPaths_beside (a : Algorithm) (path : String) :
    directoryPart (a.compressedPath path).toList = directoryPart path.toList ∧
      lastComponent (a.compressedPath path).toList ≠ [] ∧
      directoryPart (a.decompressedPath path).toList = directoryPart path.toList ∧
      (lastComponent (a.decompressedPath path).toList = [] ↔
        a = .lzss ∧ lastComponent path.toList = ".lzss".toList ∧
          directoryPart path.toList ≠ []) := by
  have hcompressed := (liesIn_parts path.toList).append a.slash_not_mem_suffix
  obtain ⟨name, hdecompressed, hname⟩ := exists_liesIn_decompressed a path.toList
  rw [Algorithm.compressedPath, Algorithm.decompressedPath, String.toList_ofList,
    String.toList_ofList, Algorithm.compressedChars, hcompressed.directoryPart_eq,
    hcompressed.lastComponent_eq, hdecompressed.directoryPart_eq, hdecompressed.lastComponent_eq]
  refine ⟨rfl, fun hempty => ?_, rfl, hname.trans ?_⟩
  · exact a.suffix_ne_nil (List.append_eq_nil_iff.mp hempty).2
  · refine and_congr_right fun ha => ?_
    rw [ha]
    rfl

/-- A file whose whole name is the suffix is decompressed to its directory. -/
theorem decompressedPath_lone_suffix :
    lastComponent "d/.lzss".toList ≠ [] ∧
      lastComponent (Algorithm.lzss.decompressedPath "d/.lzss").toList = [] ∧
      Algorithm.lzss.decompressedPath "d/.lzss" = "d/" := by
  decide +kernel

/-! ### Names of files that are compressed and decompressed -/

namespace Algorithm

/-- Where a file goes that is compressed and then decompressed without a given place. -/
def restoredPath (a : Algorithm) (path : String) : String :=
  a.decompressedPath (a.compressedPath path)

/-- The name of such a file in its directory. -/
def restoredName (name : List Char) : Algorithm → List Char
  | .huffman => (splitExtension name).1 ++ decodedMark ++ (splitExtension name).2
  | .lzss => name
  | .dct => name ++ dct.suffix ++ pixelSuffix

variable {path : String} {directory name name' : List Char} {a : Algorithm}

theorem liesIn_restored (h : LiesIn path.toList directory name) (hpath : a = .lzss → path ≠ "") :
    LiesIn (a.restoredPath path).toList directory (a.restoredName name) := by
  rw [restoredPath, decompressedPath, compressedPath, String.toList_ofList, String.toList_ofList,
    compressedChars]
  cases a with
  | huffman =>
    rw [decompressedChars_huffman_append]
    exact h.markStem slash_not_mem_decodedMark
  | lzss =>
    rw [decompressedChars_lzss_append (by simpa using hpath rfl)]
    exact h
  | dct =>
    rw [decompressedChars_dct]
    exact (h.append dct.slash_not_mem_suffix).append (by decide)

theorem restoredName_inj (h : a.restoredName name = a.restoredName name') : name = name' := by
  cases a with
  | huffman =>
    have hsplit := (hasExtension_splitExtension name).insert point_not_mem_decodedMark
    have hsplit' := (hasExtension_splitExtension name').insert point_not_mem_decodedMark
    rw [show _ ++ _ ++ _ = _ ++ _ ++ _ from h] at hsplit
    obtain ⟨hstem, hextension⟩ := hsplit.unique hsplit'
    rw [(hasExtension_splitExtension name).name_eq, (hasExtension_splitExtension name').name_eq,
      List.append_cancel_right hstem, hextension]
  | lzss => exact h
  | dct => exact List.append_cancel_right (List.append_cancel_right h)

/-- The longer names are neither steps up nor the place itself. -/
theorem length_restoredName (ha : a ≠ .lzss) (name : List Char) :
    2 < (a.restoredName name).length := by
  cases a with
  | huffman =>
    simp only [restoredName, decodedMark, List.length_append, List.length_cons]
    omega
  | lzss => exact absurd rfl ha
  | dct =>
    simp only [restoredName, pixelSuffix, List.length_append, List.length_cons]
    omega

theorem restoredPath_lzss (hpath : path ≠ "") : lzss.restoredPath path = path := by
  have h := liesIn_restored (a := .lzss) (liesIn_parts path.toList) fun _ => hpath
  exact String.toList_inj.mp (h.path_eq.trans (liesIn_parts path.toList).path_eq.symm)

theorem restoredPath_injOn (a : Algorithm) : Set.InjOn a.restoredPath {path | path ≠ ""} := by
  intro path hpath path' hpath' h
  have hlies := liesIn_restored (a := a) (liesIn_parts path.toList) fun _ => hpath
  have hlies' := liesIn_restored (a := a) (liesIn_parts path'.toList) fun _ => hpath'
  rw [h] at hlies
  obtain ⟨hdirectory, hname⟩ := hlies.unique hlies'
  refine String.toList_inj.mp ?_
  rw [← directoryPart_append_lastComponent path.toList, hdirectory, restoredName_inj hname,
    directoryPart_append_lastComponent]

theorem compressedPath_ne (a : Algorithm) (path : String) : a.compressedPath path ≠ path := by
  intro h
  have hchars := congrArg String.toList h
  rw [compressedPath, String.toList_ofList, compressedChars] at hchars
  exact a.suffix_ne_nil (List.append_right_eq_self.mp hchars)

theorem decompressedPath_ne (a : Algorithm) (path : String) : a.decompressedPath path ≠ path := by
  intro h
  have hchars := congrArg String.toList h
  rw [decompressedPath, String.toList_ofList] at hchars
  -- What is put to the path, and what is taken off, is of another length.
  cases a with
  | huffman =>
    by_cases hsuffix : ∃ base, path.toList = base ++ huffman.suffix
    · obtain ⟨base, hbase⟩ := hsuffix
      rw [hbase, decompressedChars_huffman_append] at hchars
      have hlength := congrArg List.length hchars
      rw [length_markStem, List.length_append, Nat.add_left_cancel_iff] at hlength
      exact absurd hlength (by decide)
    · rw [decompressedChars_huffman_other (not_exists.mp hsuffix)] at hchars
      cases List.append_right_eq_self.mp hchars
  | lzss =>
    by_cases hsuffix : ∃ base, base ≠ [] ∧ path.toList = base ++ lzss.suffix
    · obtain ⟨base, hne, hbase⟩ := hsuffix
      rw [hbase, decompressedChars_lzss_append hne] at hchars
      cases List.append_right_eq_self.mp hchars.symm
    · rw [decompressedChars_lzss_other fun base hne heq => hsuffix ⟨base, hne, heq⟩] at hchars
      cases List.append_right_eq_self.mp hchars
  | dct => cases List.append_right_eq_self.mp hchars

end Algorithm

namespace FileStore

variable {store : FileStore} {path path' : String} {item item' : FileItem} {goal goal' : Goal}
  {a : Algorithm}

theorem Has.path_ne (h : store.Has path item) : path ≠ "" := by
  rintro rfl
  obtain ⟨place, hgoal, _⟩ := h
  obtain ⟨_, hempty, _⟩ := goal_eq_ok_iff.mp hgoal
  cases hempty

theorem Has.lastComponent_ne (h : store.Has path item) : lastComponent path.toList ≠ [] := by
  intro hname
  have hlies := liesIn_parts path.toList
  have hdirectory := hlies.path_eq
  rw [hname, List.append_nil] at hdirectory
  cases hlast : path.toList.getLast? with
  | none => exact h.path_ne (String.toList_eq_nil_iff.mp (List.getLast?_eq_none_iff.mp hlast))
  | some c =>
    rw [hdirectory] at hlast
    obtain rfl := hlies.directory_end c hlast
    rw [← hdirectory] at hlast
    obtain ⟨place, hgoal, _⟩ := h
    have hslash := slash_of_goal hgoal
    simp [routeOf, hlast] at hslash

/-- A file that gets another name is restored in the folder that its name is in. -/
theorem Has.exists_folder (h : store.Has path item) (ha : a ≠ .lzss)
    (hrestored : store.goal false (a.restoredPath path) = .ok goal) :
    ∃ folder, store.goal false path = .ok ⟨⟨folder, lastComponent path.toList⟩, false⟩ ∧
      goal.place = ⟨folder, a.restoredName (lastComponent path.toList)⟩ := by
  have hlies := liesIn_parts path.toList
  have hne : a.restoredName (lastComponent path.toList) ≠ [] :=
    List.ne_nil_of_length_pos
      (Nat.lt_trans Nat.two_pos (Algorithm.length_restoredName ha (lastComponent path.toList)))
  have hpath := h.path_ne
  have hname := h.lastComponent_ne
  obtain ⟨place, hgoal, _⟩ := h
  obtain ⟨entry, hentry, _⟩ := exists_entry_of_goal hgoal
  rw [slash_of_goal hgoal] at hentry
  obtain ⟨folder, rfl, hplace⟩ := exists_folder_of_goal hlies
    (Algorithm.liesIn_restored hlies fun _ => hpath) hname hne hentry hrestored
  exact ⟨folder, hentry, hplace⟩

/-- Two files that are restored under one name are under one name themselves. -/
theorem goal_eq_of_restored (h : store.Has path item) (h' : store.Has path' item')
    (hrestored : store.goal false (a.restoredPath path) = .ok goal)
    (hrestored' : store.goal false (a.restoredPath path') = .ok goal) :
    store.goal false path = store.goal false path' := by
  by_cases ha : a = .lzss
  · rw [ha, Algorithm.restoredPath_lzss h.path_ne] at hrestored
    rw [ha, Algorithm.restoredPath_lzss h'.path_ne] at hrestored'
    rw [hrestored, hrestored']
  · obtain ⟨folder, hgoal, hplace⟩ := h.exists_folder ha hrestored
    obtain ⟨folder', hgoal', hplace'⟩ := h'.exists_folder ha hrestored'
    obtain ⟨rfl, hname⟩ := Place.mk.inj (hplace.symm.trans hplace')
    rw [hgoal, hgoal', Algorithm.restoredName_inj hname]

end FileStore

/-- Files that are compressed and decompressed with default names do not meet. The window coder
gives each its own name again, the prefix coder puts a mark in front of its extension. -/
theorem restoredPaths_distinct :
    (∀ a : Algorithm, Set.InjOn a.restoredPath {path | path ≠ ""} ∧
      ∀ (store : FileStore) (path path' : String) (item item' : FileItem) (goal : Goal),
        store.Has path item → store.Has path' item' →
          store.goal false path ≠ store.goal false path' →
            store.goal false (a.restoredPath path) = .ok goal →
              store.goal false (a.restoredPath path') ≠ .ok goal) ∧
      (∀ path, path ≠ "" → Algorithm.lzss.restoredPath path = path) ∧
      (∀ path, ∃ directory name stem extension, LiesIn path.toList directory name ∧
        HasExtension name stem extension ∧
          LiesIn (Algorithm.huffman.restoredPath path).toList directory
            (stem ++ "_DC".toList ++ extension)) ∧
      ∀ (a : Algorithm) (path : String), a.compressedPath path ≠ path ∧
        a.decompressedPath path ≠ path := by
  refine ⟨fun a => ⟨a.restoredPath_injOn, ?_⟩, fun path => Algorithm.restoredPath_lzss,
    fun path => ?_, fun a path => ⟨a.compressedPath_ne path, a.decompressedPath_ne path⟩⟩
  · intro store path path' item item' goal h h' hne hrestored hrestored'
    exact hne (FileStore.goal_eq_of_restored h h' hrestored hrestored')
  · have hlies := liesIn_parts path.toList
    exact ⟨_, _, _, _, hlies, hasExtension_splitExtension _,
      Algorithm.liesIn_restored hlies fun ha => by cases ha⟩

/-- Neither a mark at the end of an extension nor one in front of it leads to the name of the
other. -/
theorem restoredPaths_distinct_marked :
    "x.y_DC" ≠ "" ∧ "x_DC.y" ≠ "" ∧
      Algorithm.huffman.restoredPath "x.y_DC" ≠ Algorithm.huffman.restoredPath "x_DC.y" := by
  refine ⟨by decide, by decide, fun h => ?_⟩
  have hsame := (restoredPaths_distinct.1 .huffman).1 (by decide : "x.y_DC" ≠ "")
    (by decide : "x_DC.y" ≠ "") h
  exact absurd hsame (by decide)

end Compression
