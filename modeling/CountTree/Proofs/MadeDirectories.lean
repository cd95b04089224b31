import CountTree.Proofs.FilePlaces

/-!
What it is to make directories. `Files.MoreDirectories` says that a file system has become another
by new directories at some places and by nothing else, and then every path leads where it led
before. `Files.makeDirectories_cases` says this of a directory that is made together with those that
lead to it, whether or not that fails on the way, and that the directory is there if it does not.
-/

set_option autoImplicit false
set_option relaxedAutoImplicit false

namespace CountTree.Files

variable {files files' : Files} {path : Path} {location : Location} {places : List Location}
  {names : List String}

theorem isDirectory_iff : files.isDirectory path = true ↔
    ∃ location, files.place? path = some location ∧ files.get? location = some .directory := by
  rw [isDirectory, lookUp_eq]
  rcases files.place? path with _ | location
  · simp
  · rw [Option.bind_some]
    rcases hentry : files.get? location with _ | _ | _ | _ <;> simp [hentry]

/-! ### The places that names pass -/

theorem mem_along_self (location : Location) (names : List String) :
    location ∈ along location names := by
  cases names <;> exact List.mem_cons_self

theorem mem_along_of_walk {place : Location} (h : files.walk location names = .ok place) :
    place ∈ along location names := by
  induction names generalizing location with
  | nil =>
    cases h
    exact List.mem_cons_self
  | cons name names ih =>
    by_cases hdirectory : files.get? location = some .directory
    · rw [walk_cons_of_directory hdirectory] at h
      split at h
      · cases h
      · exact List.mem_cons_of_mem _ (ih h)
    · obtain ⟨cause, hcause⟩ := walk_cons_of_not_directory hdirectory name names
      rw [hcause] at h
      cases h

theorem mem_along_of_place (h : files.place? path = some location) :
    location ∈ along (files.start path) path.names :=
  mem_along_of_walk (place?_eq_some_iff.mp h).2.2.2

theorem along_subset_append (location : Location) (names rest : List String) :
    along location names ⊆ along location (names ++ rest) := by
  induction names generalizing location with
  | nil => exact List.cons_subset.mpr ⟨mem_along_self location rest, List.nil_subset _⟩
  | cons name names ih => exact List.cons_subset_cons _ (ih (step location name))

/-- Names that stay where they are pass no new place. -/
theorem along_filter_subset (location : Location) (names : List String) :
    along location (names.filter (· ≠ ".")) ⊆ along location names := by
  induction names generalizing location with
  | nil => exact List.Subset.refl _
  | cons name names ih =>
    by_cases hname : name = "."
    · have hstep : step location name = location := if_pos hname
      rw [List.filter_cons_of_neg (by simpa using hname), along, hstep]
      exact List.subset_cons_of_subset _ (ih location)
    · rw [List.filter_cons_of_pos (by simpa using hname)]
      exact List.cons_subset_cons _ (ih (step location name))

theorem along_above_subset (location : Location) (path : Path) :
    along location path.above ⊆ along location path.names := by
  have hsteps : along location (Path.steps path.names) ⊆ along location path.names := by
    rcases path.names with _ | ⟨name, names⟩
    · exact List.Subset.refl _
    · exact List.cons_subset_cons _ (along_filter_subset (step location name) names)
  obtain ⟨rest, hrest⟩ := List.dropLast_prefix (Path.steps path.names)
  refine List.Subset.trans ?_ hsteps
  rw [Path.above]
  nth_rewrite 2 [← hrest]
  exact along_subset_append location _ rest

/-! ### More directories -/

/-- Some of these places hold a new directory where nothing stood, and that is all the
difference. -/
structure MoreDirectories (places : List Location) (files files' : Files) : Prop where
  working_eq : files'.working = files.working
  limits_eq : files'.limits = files.limits
  get?_eq : ∀ location, files'.get? location = files.get? location ∨
    location ∈ places ∧ files.get? location = none ∧ files'.get? location = some .directory

namespace MoreDirectories

theorem refl (places : List Location) (files : Files) : MoreDirectories places files files :=
  ⟨rfl, rfl, fun _ ↦ .inl rfl⟩

theorem trans {files'' : Files} (h : MoreDirectories places files files')
    (h' : MoreDirectories places files' files'') : MoreDirectories places files files'' where
  working_eq := h'.working_eq.trans h.working_eq
  limits_eq := h'.limits_eq.trans h.limits_eq
  get?_eq location := by
    rcases h.get?_eq location with hsame | ⟨hplace, hnone, hnew⟩
    · rw [← hsame]
      exact h'.get?_eq location
    · rcases h'.get?_eq location with hsame' | ⟨-, hnone', -⟩
      · exact .inr ⟨hplace, hnone, hsame'.trans hnew⟩
      · rw [hnew] at hnone'
        cases hnone'

theorem mono {places' : List Location} (h : MoreDirectories places files files')
    (hplaces : places ⊆ places') : MoreDirectories places' files files' where
  working_eq := h.working_eq
  limits_eq := h.limits_eq
  get?_eq location := (h.get?_eq location).imp_right fun hnew ↦ ⟨hplaces hnew.1, hnew.2⟩

theorem put (hplace : location ∈ places) (h : files.get? location = none) :
    MoreDirectories places files (files.put location .directory) where
  working_eq := rfl
  limits_eq := rfl
  get?_eq other := by
    by_cases hother : other = location
    · subst hother
      exact .inr ⟨hplace, h, get?_put_self files _ (ne_nil_of_get? (by rw [h]; nofun))⟩
    · exact .inl (get?_put_of_ne files _ hother)

theorem get?_of_some (h : MoreDirectories places files files') {entry : FileEntry}
    (hentry : files.get? location = some entry) : files'.get? location = some entry := by
  rcases h.get?_eq location with hsame | ⟨-, hnone, -⟩
  · rw [hsame, hentry]
  · rw [hentry] at hnone
    cases hnone

/-- What is no directory was there before. -/
theorem get?_iff (h : MoreDirectories places files files') {entry : FileEntry}
    (hentry : entry ≠ .directory) :
    files'.get? location = some entry ↔ files.get? location = some entry := by
  refine ⟨fun hafter ↦ ?_, h.get?_of_some⟩
  rcases h.get?_eq location with hsame | ⟨-, -, hnew⟩
  · rw [← hsame, hafter]
  · exact absurd (Option.some.inj (hafter.symm.trans hnew)) hentry

theorem walk_eq (h : MoreDirectories places files files') {place : Location}
    (hwalk : files.walk location names = .ok place) : files'.walk location names = .ok place := by
  induction names generalizing location with
  | nil => exact hwalk
  | cons name names ih =>
    by_cases hdirectory : files.get? location = some .directory
    · rw [walk_cons_of_directory hdirectory] at hwalk
      rw [walk_cons_of_directory (h.get?_of_some hdirectory)]
      split at hwalk
      · cases hwalk
      · rename_i hlength
        rw [if_neg hlength]
        exact ih hwalk
    · obtain ⟨cause, hcause⟩ := walk_cons_of_not_directory hdirectory name names
      rw [hcause] at hwalk
      cases hwalk

theorem start_eq (h : MoreDirectories places files files') (path : Path) :
    files'.start path = files.start path := by
  rw [start, start, h.working_eq]

/-- A path that leads somewhere leads there still. -/
theorem place?_eq (h : MoreDirectories places files files')
    (hplace : files.place? path = some location) : files'.place? path = some location := by
  obtain ⟨hempty, hnul, hsize, hwalk⟩ := place?_eq_some_iff.mp hplace
  exact place?_eq_some_iff.mpr ⟨hempty, hnul, hsize, h.start_eq path ▸ h.walk_eq hwalk⟩

end MoreDirectories

/-! ### Making directories -/

theorem requireDirectory_cases (path : Path) (files : Files) :
    (∃ cause, requireDirectory path files = .error cause files) ∨
      ∃ made, requireDirectory path files = .ok () made ∧
        MoreDirectories (along (files.start path) path.names) files made ∧
        made.isDirectory path = true := by
  rw [requireDirectory, makeDirectory]
  rcases hplace : files.place? path with _ | location
  · obtain ⟨cause, hcause⟩ := locate_of_place_none hplace
    have hlookUp : files.isDirectory path = false := by
      rw [isDirectory, lookUp_of_place_none hplace]
    rw [hcause]
    simp [hlookUp]
  · rw [locate_of_place hplace]
    dsimp only
    rcases hentry : files.get? location with _ | entry
    · have hmore := MoreDirectories.put (mem_along_of_place hplace) hentry
      have hroot : location ≠ [] := ne_nil_of_get? (by rw [hentry]; nofun)
      exact .inr ⟨_, rfl, hmore, isDirectory_iff.mpr
        ⟨location, hmore.place?_eq hplace, get?_put_self files _ hroot⟩⟩
    · by_cases hdirectory : files.isDirectory path = true
      · exact .inr ⟨files, by simp [hdirectory], .refl _ files, hdirectory⟩
      · exact .inl ⟨.fileExists, by simp [hdirectory]⟩

theorem moreDirectories_makeAlong (location : Location) (names : List String) (files : Files) :
    MoreDirectories (along location names) files
      (Outcome.state (makeAlong location names files)) := by
  induction names generalizing location files with
  | nil => exact .refl _ files
  | cons name names ih =>
    rw [makeAlong]
    dsimp only
    rcases hwalk : files.walk location [name] with cause | next
    · exact .refl _ files
    · dsimp only
      obtain ⟨-, -, rfl⟩ := walk_singleton_iff.mp hwalk
      have hrest : along (step location name) names ⊆ along location (name :: names) :=
        List.subset_cons_self _ _
      rcases hentry : files.get? (step location name) with _ | _ | _ | _
      · exact (MoreDirectories.put (hrest (mem_along_self _ names)) hentry).trans
          ((ih _ _).mono hrest)
      · exact .refl _ files
      · exact (ih _ files).mono hrest
      · exact .refl _ files

/-- A directory is made with those that lead to it, or it is not; in any case nothing else has
changed. An empty path asks for nothing. -/
theorem makeDirectories_cases (path : Path) (files : Files) :
    (∃ cause made, makeDirectories path files = .error cause made ∧
        MoreDirectories (along (files.start path) path.names) files made) ∨
      ∃ made, makeDirectories path files = .ok () made ∧
        MoreDirectories (along (files.start path) path.names) files made ∧
        (path.isEmpty = true ∨ made.isDirectory path = true) := by
  rw [makeDirectories]
  split
  · rename_i hempty
    exact .inr ⟨files, rfl, .refl _ files, .inl hempty⟩
  · rcases requireDirectory_cases path files with ⟨cause, herror⟩ | ⟨made, hok, hmore, hmade⟩
    · rw [herror]
      by_cases hcause : cause = .noSuchFile
      · subst hcause
        dsimp only
        have halong := (moreDirectories_makeAlong (files.start path) path.above files).mono
          (along_above_subset _ path)
        rcases hmake : makeAlong (files.start path) path.above files with
          ⟨value, above⟩ | ⟨cause, above⟩ <;> rw [hmake] at halong
        · have hstart : above.start path = files.start path := halong.start_eq path
          dsimp only
          rcases requireDirectory_cases path above with
            ⟨cause, herror⟩ | ⟨made, hok, hmore, hmade⟩
          · exact .inl ⟨cause, above, herror, halong⟩
          · exact .inr ⟨made, hok, halong.trans (hstart ▸ hmore), .inr hmade⟩
        · exact .inl ⟨cause, above, rfl, halong⟩
      · refine .inl ⟨cause, files, ?_, .refl _ files⟩
        cases cause <;> first | rfl | exact absurd rfl hcause
    · rw [hok]
      exact .inr ⟨made, rfl, hmore, .inr hmade⟩

/-- A directory that is there is made without a change. -/
theorem makeDirectories_of_isDirectory
    (h : path.isEmpty = true ∨ files.isDirectory path = true) :
    makeDirectories path files = .ok () files := by
  rw [makeDirectories]
  by_cases hempty : path.isEmpty = true
  · rw [if_pos hempty]
  · have hdirectory := h.resolve_left hempty
    obtain ⟨location, hplace, hentry⟩ := isDirectory_iff.mp hdirectory
    have hrequire : requireDirectory path files = .ok () files := by
      rw [requireDirectory, makeDirectory, locate_of_place hplace]
      simp [hentry, hdirectory]
    rw [if_neg hempty, hrequire]

end CountTree.Files
