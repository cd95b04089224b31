import CountTree.Proofs.FilePlaces

/-!
What a write does to a file system. A file is opened first: what is not there is made, and a file
that is not appended to is emptied. Then as much of the content is put behind what the file holds as
the file system takes, which is all of it unless the write breaks off. Either way the place of the
file is the only one that changes (`Files.Wrote`), and there is one write less to come
(`Files.writeBytes_cases`). A write that does not get as far changes nothing. To write one report
does not touch the file of another (`Writer.lookUp_write_of_ne`).
-/

set_option autoImplicit false
set_option relaxedAutoImplicit false

namespace CountTree

namespace Files

variable {files opened files' : Files} {path : Path} {location : Location} {append : Bool}
  {content : ByteArray}

/-! ### One place -/

/-- What a file that is to hold contents one after the other holds after one more. -/
def written (append : Bool) (old : Option FileEntry) (content : ByteArray) : FileEntry :=
  match old with
  | some (.file held) => .file (if append then held ++ content else content)
  | some (.device held) => .device held
  | _ => .file content

theorem written_ne_directory (append : Bool) (old : Option FileEntry) (content : ByteArray) :
    written append old content ≠ .directory := by
  rcases old with _ | _ | _ | _ <;> nofun

/-- A file keeps what is written behind what it holds by then, and a device keeps nothing. -/
theorem written_cases (append : Bool) {old : Option FileEntry} (h : old ≠ some .directory) :
    (∃ held, ∀ content, written append old content = .file (held ++ content)) ∨
      ∃ held, ∀ content, written append old content = .device held := by
  have hempty (content : ByteArray) : FileEntry.file content = .file (.empty ++ content) :=
    congrArg FileEntry.file ByteArray.empty_append.symm
  rcases old with _ | held | _ | held
  · exact .inl ⟨.empty, hempty⟩
  · cases append with
    | false => exact .inl ⟨.empty, hempty⟩
    | true => exact .inl ⟨held, fun _ ↦ rfl⟩
  · exact absurd rfl h
  · exact .inr ⟨held, fun _ ↦ rfl⟩

/-- A content was written to one place, and that is all the difference apart from the writes to
come. -/
structure Wrote (append : Bool) (content : ByteArray) (location : Location)
    (files files' : Files) : Prop where
  not_directory : files.get? location ≠ some .directory
  there : files'.get? location = some (written append (files.get? location) content)
  elsewhere : ∀ other, other ≠ location → files'.get? other = files.get? other
  working_eq : files'.working = files.working

theorem Wrote.sameDirectories (h : Wrote append content location files files') :
    SameDirectories files files' where
  working_eq := h.working_eq
  directory_iff other := by
    by_cases hother : other = location
    · rw [hother, h.there, Option.some.injEq]
      exact iff_of_false (written_ne_directory _ _ _) h.not_directory
    · rw [h.elsewhere other hother]

/-- To put the file that holds the content in its place is to write it. -/
theorem Wrote.put {held : ByteArray} (hdirectory : files.get? location ≠ some .directory)
    (hheld : written append (files.get? location) content = .file held) :
    Wrote append content location files (files.put location (.file held)) where
  not_directory := hdirectory
  there := by rw [get?_put_self files _ (ne_nil_of_get? hdirectory), hheld]
  elsewhere _ := get?_put_of_ne files _
  working_eq := rfl

/-- Where the content changes nothing there is nothing to be done. -/
theorem Wrote.same (hdirectory : files.get? location ≠ some .directory)
    (hsame : files.get? location = some (written append (files.get? location) content)) :
    Wrote append content location files files :=
  ⟨hdirectory, hsame, fun _ _ ↦ rfl, rfl⟩

/-! ### Opening -/

/-- A file that was opened holds what it held, or nothing; otherwise nothing has changed, and the
path leads nowhere or to a directory. -/
theorem openFile_cases (path : Path) (append : Bool) (files : Files) :
    (∃ cause, openFile path append files = .error cause files ∧
      (files.place? path = none ∨ files.lookUp path = some .directory)) ∨
    ∃ location opened, files.place? path = some location ∧
      openFile path append files = .ok location opened ∧ opened.limits = files.limits ∧
      Wrote append .empty location files opened := by
  rcases hplace : files.place? path with _ | location
  · obtain ⟨cause, hcause⟩ := locate_of_place_none hplace
    exact .inl ⟨cause, by rw [openFile, hcause], .inl rfl⟩
  · have hlocate := locate_of_place hplace
    have hlookUp := lookUp_of_place hplace
    rw [openFile, hlocate]
    dsimp only
    by_cases hdirectory : files.get? location = some .directory
    · rw [hdirectory]
      exact .inl ⟨.isADirectory, rfl, .inr (hlookUp.trans hdirectory)⟩
    · rcases hentry : files.get? location with _ | held | _ | held
      · exact .inr ⟨location, _, rfl, rfl, rfl, .put hdirectory (by rw [hentry]; rfl)⟩
      · cases append with
        | true =>
          have hheld : FileEntry.file held = .file (held ++ .empty) :=
            congrArg FileEntry.file ByteArray.append_empty.symm
          refine .inr ⟨location, files, rfl, rfl, rfl, .same hdirectory ?_⟩
          rw [hentry]
          exact congrArg some hheld
        | false => exact .inr ⟨location, _, rfl, rfl, rfl, .put hdirectory (by rw [hentry]; rfl)⟩
      · exact absurd hentry hdirectory
      · exact .inr ⟨location, files, rfl, rfl, rfl, .same hdirectory (by rw [hentry]; rfl)⟩

/-! ### Writing -/

theorem limit?_congr (h : files'.limits = files.limits) (content : ByteArray) :
    files'.limit? content = files.limit? content := by
  rw [limit?, limit?, h]

/-- How a write of a content ends that leads from some files to others: with a value, unless it is
broken off. -/
def ending {α : Type} (files : Files) (content : ByteArray) (value : α) (files' : Files) :
    Outcome FileError Files α :=
  match files.limit? content with
  | none => .ok value files'
  | some limit => .error limit.cause files'

theorem state_ending {α : Type} (files : Files) (content : ByteArray) (value : α)
    (files' : Files) : Outcome.state (files.ending content value files') = files' := by
  rw [ending]
  split <;> rfl

/-- What is written to an open file stands behind what it has held. -/
theorem writeOpened_eq (h : Wrote append .empty location files opened)
    (hlimits : opened.limits = files.limits) (content : ByteArray) :
    ∃ files', writeOpened location content opened = files.ending content () files' ∧
      files'.limits = files.limits.tail ∧
      Wrote append (files.taken content) location files files' := by
  have hlimit : opened.limit? content = files.limit? content := limit?_congr hlimits content
  have htaken : opened.taken content = files.taken content := by rw [taken, taken, hlimit]
  let rest : Files := { opened with limits := opened.limits.tail }
  have hrest : rest.limits = files.limits.tail := congrArg List.tail hlimits
  have hroot := ne_nil_of_get? h.not_directory
  have hthere := h.there
  rw [writeOpened, hlimit, htaken]
  rcases written_cases append h.not_directory with ⟨held, hwritten⟩ | ⟨held, hwritten⟩ <;>
    rw [hwritten] at hthere
  · rw [ByteArray.append_empty] at hthere
    rw [hthere]
    refine ⟨rest.put location (.file (held ++ files.taken content)), rfl, hrest, h.not_directory,
      ?_, fun other hother ↦ (get?_put_of_ne rest _ hother).trans (h.elsewhere other hother),
      h.working_eq⟩
    rw [get?_put_self rest _ hroot, hwritten]
  · rw [hthere]
    exact ⟨rest, rfl, hrest, h.not_directory, by rw [hwritten]; exact hthere, h.elsewhere,
      h.working_eq⟩

/-- A content, or its beginning, is written to the place of its path and makes no other difference.
Only where the file cannot be opened nothing changes, and then the path leads nowhere or to a
directory. -/
theorem writeBytes_cases (path : Path) (append : Bool) (content : ByteArray) (files : Files) :
    (∃ cause, openFile path append files = .error cause files ∧
      writeBytes path append content files = .error cause files ∧
      (files.place? path = none ∨ files.lookUp path = some .directory)) ∨
    ∃ location opened files', files.place? path = some location ∧
      openFile path append files = .ok location opened ∧
      writeBytes path append content files = files.ending content () files' ∧
      files'.limits = files.limits.tail ∧
      Wrote append (files.taken content) location files files' := by
  rw [writeBytes]
  rcases openFile_cases path append files with
    ⟨cause, herror, hreason⟩ | ⟨location, opened, hplace, hopen, hlimits, hopened⟩
  · exact .inl ⟨cause, herror, Run.bind_of_error herror, hreason⟩
  · obtain ⟨files', hend, hrest⟩ := writeOpened_eq hopened hlimits content
    exact .inr ⟨location, opened, files', hplace, hopen, (Run.bind_of_ok hopen).trans hend, hrest⟩

/-! ### Limits -/

theorem limit?_of_cons {limit : Limit} {rest : List (Option Limit)}
    (hlimits : files.limits = some limit :: rest) (hroom : limit.room < content.size) :
    files.limit? content = some limit := by
  rw [limit?, hlimits]
  exact Option.filter_some_pos (decide_eq_true hroom)

/-- No write to come is limited. -/
def Unlimited (files : Files) : Prop := ∀ limit ∈ files.limits, limit = none

theorem unlimited_empty : empty.Unlimited := fun _ hnone ↦ absurd hnone List.not_mem_nil

theorem Unlimited.limit?_eq (h : files.Unlimited) (content : ByteArray) :
    files.limit? content = none := by
  rw [limit?]
  rcases hlimits : files.limits with _ | ⟨limit, limits⟩
  · rfl
  · rw [h limit (hlimits ▸ List.mem_cons_self)]
    rfl

theorem Unlimited.tail (h : files.Unlimited) (hlimits : files'.limits = files.limits.tail) :
    files'.Unlimited := fun limit hlimit ↦
  h limit (List.mem_of_mem_tail (hlimits ▸ hlimit))

theorem taken_of_limit?_eq_none (h : files.limit? content = none) :
    files.taken content = content := by
  rw [taken, h]

/-- What is taken of a content that is broken off is only its beginning. -/
theorem taken_of_limit?_eq_some {limit : Limit} (h : files.limit? content = some limit) :
    limit.room < content.size ∧ files.taken content = content.extract 0 limit.room := by
  have hroom : limit.room < content.size := by
    rw [limit?, Option.filter_eq_some_iff] at h
    exact of_decide_eq_true h.2
  exact ⟨hroom, by rw [taken, h]⟩

end Files

namespace Writer

variable {writer : Writer} {files : Files} {kind kind' : ReportKind} {format' : Format}

/-- Opens the file of a report for writing. -/
abbrev openReport (writer : Writer) (kind : ReportKind) : Run FileError Files Location :=
  Files.openFile (writer.path kind writer.format) writer.append

/-- A report, or its beginning, is written to its own place and makes no other difference. Only
where its file cannot be opened nothing changes, and then its path leads nowhere or to a
directory. -/
theorem write_cases (writer : Writer) (kind : ReportKind) (document : Mapping) (files : Files) :
    let content := (writer.chunk document).toUTF8
    (∃ cause, writer.openReport kind files = .error cause files ∧
      writer.write kind document files = .error cause files ∧
      (files.place? (writer.path kind writer.format) = none ∨
        files.lookUp (writer.path kind writer.format) = some .directory)) ∨
    ∃ location opened files', files.place? (writer.path kind writer.format) = some location ∧
      writer.openReport kind files = .ok location opened ∧
      writer.write kind document files =
        files.ending content (writer.shownPath kind.stem writer.format) files' ∧
      files'.limits = files.limits.tail ∧
      Files.Wrote writer.append (files.taken content) location files files' := by
  intro content
  have hwrite : writer.write kind document = (fun _ ↦ writer.shownPath kind.stem writer.format) <$>
      Files.writeBytes (writer.path kind writer.format) writer.append content :=
    (map_eq_pure_bind _ _).symm
  rw [hwrite]
  rcases Files.writeBytes_cases (writer.path kind writer.format) writer.append content files with
    ⟨cause, hopen, herror, hreason⟩ | ⟨location, opened, files', hplace, hopen, hend, hrest⟩
  · exact .inl ⟨cause, hopen, Run.map_of_error herror, hreason⟩
  · refine .inr ⟨location, opened, files', hplace, hopen, ?_, hrest⟩
    rw [Files.ending] at hend ⊢
    rcases hlimit : files.limit? content with _ | limit <;> rw [hlimit] at hend
    · exact Run.map_of_ok hend
    · exact Run.map_of_error hend

theorem sameDirectories_write (writer : Writer) (kind : ReportKind) (document : Mapping)
    (files : Files) :
    Files.SameDirectories files (Outcome.state (writer.write kind document files)) := by
  rcases writer.write_cases kind document files with
    ⟨cause, -, herror, -⟩ | ⟨location, -, files', -, -, hend, -, hwrote⟩
  · rw [herror]
    exact .refl files
  · rw [hend, Files.state_ending]
    exact hwrote.sameDirectories

/-- Writing one report does not touch the file of another. -/
theorem lookUp_write_of_ne (h : ¬ (kind' = kind ∧ format' = writer.format)) (document : Mapping)
    (files : Files) :
    (Outcome.state (writer.write kind document files)).lookUp (writer.path kind' format') =
      files.lookUp (writer.path kind' format') := by
  rcases writer.write_cases kind document files with
    ⟨cause, -, herror, -⟩ | ⟨location, -, files', hplace, -, hend, -, hwrote⟩
  · rw [herror]
    rfl
  · rw [hend, Files.state_ending, Files.lookUp_eq, Files.lookUp_eq,
      hwrote.sameDirectories.place?_eq]
    rcases hplace' : files.place? (writer.path kind' format') with _ | location'
    · rfl
    · refine hwrote.elsewhere location' fun heq ↦ h ?_
      exact place_inj (heq ▸ hplace') hplace

/-! ### What is written -/

theorem getLast?_withFinalNewline (text : String) :
    (withFinalNewline text).toList.getLast? = some '\n' := by
  rw [withFinalNewline]
  split
  · assumption
  · rw [String.toList_append]
    exact List.getLast?_concat

theorem getLast?_chunk (writer : Writer) (document : Mapping) :
    (writer.chunk document).toList.getLast? = some '\n' := by
  rw [chunk]
  split
  · rw [String.toList_append, List.getLast?_append, getLast?_withFinalNewline, Option.some_or]
  · exact getLast?_withFinalNewline _

/-- There is always something to write, so that a disk without any room breaks the write off. -/
theorem size_chunk_pos (writer : Writer) (document : Mapping) :
    0 < (writer.chunk document).toUTF8.size := by
  have hne : writer.chunk document ≠ "" := fun hempty ↦ by
    have hlast := writer.getLast?_chunk document
    rw [hempty] at hlast
    cases hlast
  exact Nat.pos_of_ne_zero fun hsize ↦ hne (String.utf8ByteSize_eq_zero_iff.mp hsize)

end Writer

end CountTree
