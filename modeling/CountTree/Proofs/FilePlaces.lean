import CountTree.Proofs.Steps
import CountTree.Writer
import Mathlib.Data.List.Basic

/-!
Where paths lead. `Files.place?` forgets why a path leads nowhere, and then depends on nothing but
the directories of a file system (`SameDirectories.place?_eq`): to remove a file leaves every path
where it led. The files of the reports of one directory lie side by side in it, each at a place of
its own (`Writer.place_inj`), and so what is done to one of them does not touch another.
-/

set_option autoImplicit false
set_option relaxedAutoImplicit false

namespace CountTree

namespace Files

variable {files files' : Files} {path : Path} {location : Location} {entry : FileEntry}

/-- Where a path leads, if it leads anywhere. -/
def place? (files : Files) (path : Path) : Option Location := (files.locate path).toOption

theorem locate_of_place (h : files.place? path = some location) :
    files.locate path = .ok location := by
  rw [place?] at h
  rcases hlocate : files.locate path with cause | location'
  · rw [hlocate] at h
    cases h
  · rw [hlocate] at h
    exact congrArg Except.ok (Option.some.inj h)

theorem locate_of_place_none (h : files.place? path = none) :
    ∃ cause, files.locate path = .error cause := by
  rw [place?] at h
  rcases hlocate : files.locate path with cause | location
  · exact ⟨cause, rfl⟩
  · rw [hlocate] at h
    cases h

/-- A path that leads somewhere is not empty, has no name with a zero byte and is not too long. -/
theorem place?_eq_some_iff : files.place? path = some location ↔
    path.isEmpty = false ∧ holdsNul path = false ∧ path.size ≤ longestPath ∧
      files.walk (files.start path) path.names = .ok location := by
  rw [place?, locate]
  by_cases hempty : path.isEmpty = true
  · simp [hempty, Except.toOption]
  · by_cases hnul : holdsNul path = true
    · simp [hnul, hempty, Except.toOption]
    · by_cases hsize : longestPath < path.size
      · simp [hempty, hnul, hsize, Except.toOption, Nat.not_le.mpr hsize]
      · rw [if_neg hempty, if_neg hnul, if_neg hsize]
        simp only [Bool.not_eq_true] at hempty hnul
        simp only [hempty, hnul, Nat.le_of_not_lt hsize, true_and]
        rcases files.walk (files.start path) path.names with _ | _ <;> simp [Except.toOption]

theorem lookUp_eq (files : Files) (path : Path) :
    files.lookUp path = (files.place? path).bind files.get? := by
  rw [lookUp, place?]
  rcases files.locate path with cause | location <;> rfl

theorem lookUp_of_place (h : files.place? path = some location) :
    files.lookUp path = files.get? location := by
  rw [lookUp_eq, h, Option.bind_some]

theorem lookUp_of_place_none (h : files.place? path = none) : files.lookUp path = none := by
  rw [lookUp_eq, h, Option.bind_none]

theorem isFile_iff :
    files.isFile path = true ↔ ∃ content, files.lookUp path = some (.file content) := by
  rw [isFile]
  rcases files.lookUp path with _ | _ | _ | _ <;> simp

theorem ne_nil_of_get? (h : files.get? location ≠ some .directory) : location ≠ [] :=
  fun hroot ↦ h (by rw [get?, if_pos hroot])

/-! ### The same directories -/

/-- The directories of both file systems are the same, the working directory included. -/
structure SameDirectories (files files' : Files) : Prop where
  working_eq : files'.working = files.working
  directory_iff : ∀ location,
    files'.get? location = some .directory ↔ files.get? location = some .directory

theorem SameDirectories.refl (files : Files) : SameDirectories files files :=
  ⟨rfl, fun _ ↦ .rfl⟩

theorem SameDirectories.trans {files'' : Files} (h : SameDirectories files files')
    (h' : SameDirectories files' files'') : SameDirectories files files'' :=
  ⟨h'.working_eq.trans h.working_eq, fun location ↦
    (h'.directory_iff location).trans (h.directory_iff location)⟩

theorem walk_cons_of_directory (h : files.get? location = some .directory) (name : String)
    (rest : List String) : files.walk location (name :: rest) =
      if longestName < name.utf8ByteSize then .error .nameTooLong
      else files.walk (step location name) rest := by
  rw [walk, h]

theorem walk_cons_of_not_directory (h : files.get? location ≠ some .directory) (name : String)
    (rest : List String) : ∃ cause, files.walk location (name :: rest) = .error cause := by
  rw [walk]
  rcases hentry : files.get? location with _ | _ | _ | _
  · exact ⟨_, rfl⟩
  · exact ⟨_, rfl⟩
  · exact absurd hentry h
  · exact ⟨_, rfl⟩

theorem SameDirectories.walk_eq (h : SameDirectories files files') (location : Location)
    (names : List String) :
    (files'.walk location names).toOption = (files.walk location names).toOption := by
  induction names generalizing location with
  | nil => rfl
  | cons name rest ih =>
    by_cases hdirectory : files.get? location = some .directory
    · rw [walk_cons_of_directory hdirectory,
        walk_cons_of_directory ((h.directory_iff location).mpr hdirectory)]
      split
      · rfl
      · exact ih _
    · obtain ⟨cause, hcause⟩ := walk_cons_of_not_directory hdirectory name rest
      obtain ⟨cause', hcause'⟩ :=
        walk_cons_of_not_directory (hdirectory ∘ (h.directory_iff location).mp) name rest
      rw [hcause, hcause']
      rfl

/-- Paths lead where the directories lead them. -/
theorem SameDirectories.place?_eq (h : SameDirectories files files') (path : Path) :
    files'.place? path = files.place? path := by
  rw [place?, place?, locate, locate, start, start, h.working_eq]
  split
  · rfl
  · split
    · rfl
    · split
      · rfl
      · exact h.walk_eq _ _

theorem SameDirectories.remove (h : files.get? location ≠ some .directory) :
    SameDirectories files (files.remove location) where
  working_eq := rfl
  directory_iff other := by
    have hroot := ne_nil_of_get? h
    by_cases hother : other = location
    · rw [hother, get?_remove_self files hroot]
      exact ⟨nofun, fun hdirectory ↦ absurd hdirectory h⟩
    · rw [get?_remove_of_ne files hother]

/-- What is removed at one place is there for a path that leads to another. -/
theorem lookUp_remove_of_ne (hdirectory : files.get? location ≠ some .directory)
    (h : files.place? path ≠ some location) :
    (files.remove location).lookUp path = files.lookUp path := by
  rw [lookUp_eq, lookUp_eq, (SameDirectories.remove hdirectory).place?_eq]
  rcases hplace : files.place? path with _ | other
  · rfl
  · exact get?_remove_of_ne files fun heq ↦ h (hplace.trans (congrArg some heq))

/-! ### Names in a directory -/

theorem walk_append (files : Files) (location : Location) (names rest : List String) :
    files.walk location (names ++ rest) =
      (files.walk location names).bind fun around ↦ files.walk around rest := by
  induction names generalizing location with
  | nil => rfl
  | cons name names ih =>
    by_cases hdirectory : files.get? location = some .directory
    · rw [List.cons_append, walk_cons_of_directory hdirectory, walk_cons_of_directory hdirectory]
      split
      · rfl
      · exact ih (step location name)
    · rw [List.cons_append, walk, walk]
      rcases hentry : files.get? location with _ | _ | _ | _ <;>
        first | rfl | exact absurd hentry hdirectory

/-- One name leads on from a directory. -/
theorem walk_singleton_iff {name : String} {place : Location} :
    files.walk location [name] = .ok place ↔ files.get? location = some .directory ∧
      name.utf8ByteSize ≤ longestName ∧ place = step location name := by
  by_cases hdirectory : files.get? location = some .directory
  · rw [walk_cons_of_directory hdirectory, walk]
    by_cases hlength : longestName < name.utf8ByteSize
    · simp [hlength, Nat.not_le.mpr hlength]
    · simp [hdirectory, hlength, Nat.le_of_not_lt hlength, eq_comm]
  · obtain ⟨cause, hcause⟩ := walk_cons_of_not_directory hdirectory name []
    simp [hcause, hdirectory]

theorem walk_append_singleton_iff {names : List String} {name : String} {place : Location} :
    files.walk location (names ++ [name]) = .ok place ↔
      ∃ around, files.walk location names = .ok around ∧ files.get? around = some .directory ∧
        name.utf8ByteSize ≤ longestName ∧ place = step around name := by
  rw [walk_append]
  rcases files.walk location names with cause | around
  · exact ⟨nofun, fun ⟨_, hnone, _⟩ ↦ nomatch hnone⟩
  · simp only [Except.ok.injEq, exists_eq_left']
    exact walk_singleton_iff

/-- The place of a name in a directory lies right below the place of the directory. -/
theorem place?_child {directory name : String} (hname : name ≠ "." ∧ name ≠ "..")
    (h : files.place? (Path.child directory name) = some location) :
    ∃ around, files.walk (files.start (Path.ofText directory)) (Path.ofText directory).names =
      .ok around ∧ location = around ++ [name] := by
  obtain ⟨-, -, -, hwalk⟩ := place?_eq_some_iff.mp h
  obtain ⟨around, haround, -, -, rfl⟩ := walk_append_singleton_iff.mp hwalk
  exact ⟨around, haround, by rw [step, if_neg hname.1, if_neg hname.2]⟩

end Files

namespace Writer

variable {writer : Writer} {files : Files} {kind kind' : ReportKind} {format format' : Format}
  {location : Location}

theorem fileName_ne_dots (kind : ReportKind) (format : Format) :
    fileName kind.stem format ≠ "." ∧ fileName kind.stem format ≠ ".." := by
  cases kind <;> cases format <;> decide

theorem fileName_inj (h : fileName kind.stem format = fileName kind'.stem format') :
    kind = kind' ∧ format = format' := by
  cases kind <;> cases format <;> cases kind' <;> cases format' <;>
    first | exact ⟨rfl, rfl⟩ | exact absurd h (by decide)

/-- Each report has a place of its own. -/
theorem place_inj (h : files.place? (writer.path kind format) = some location)
    (h' : files.place? (writer.path kind' format') = some location) :
    kind = kind' ∧ format = format' := by
  obtain ⟨around, haround, rfl⟩ := Files.place?_child (fileName_ne_dots kind format) h
  obtain ⟨around', haround', heq⟩ := Files.place?_child (fileName_ne_dots kind' format') h'
  exact fileName_inj (List.singleton_injective (List.append_inj_right' heq rfl))

end Writer

end CountTree
