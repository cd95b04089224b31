import CountTree.Proofs.Preparation

/-!
What it is to prepare a directory, exactly. `Writer.home?` is where the directory lies, and a report
lies in it under the name of its file (`Writer.placeIn`). The system looks at that file through the
directory's text and the name together, and takes no path of more than `Files.longestPath` bytes:
`Writer.Reaches` says that this one is not longer. `Writer.Prepared` describes the files afterwards,
`prepare_exact` is the main statement, and `unreached_report_stays` shows why a report has to be
within reach.
-/

set_option autoImplicit false
set_option relaxedAutoImplicit false

namespace CountTree

/-! ### The text of a directory -/

namespace Path

/-- Only the empty text gives nothing to look for. -/
theorem isEmpty_ofText_iff {text : String} : (ofText text).isEmpty = true ↔ text = "" := by
  refine ⟨fun hempty ↦ ?_, fun htext ↦ by rw [htext]; rfl⟩
  rw [isEmpty, Bool.and_eq_true, Bool.not_eq_true', List.isEmpty_iff] at hempty
  obtain ⟨hrooted, hnames⟩ := hempty
  have hparts : (parts text.toList).filter (· ≠ []) = [] := List.map_eq_nil_iff.mp hnames
  rw [← String.toList_eq_nil_iff]
  rcases hlist : text.toList with _ | ⟨c, rest⟩
  · rfl
  · have hslash : c ≠ '/' := by
      rintro rfl
      rw [ofText, startsWithSlash, hlist] at hrooted
      exact absurd hrooted (by simp)
    rw [hlist, parts, if_neg hslash] at hparts
    split at hparts <;> simp at hparts

end Path

namespace Writer

variable {writer : Writer} {files made prepared : Files} {home location : Location}
  {kind : ReportKind} {format : Format}

/-! ### Where reports lie -/

/-- Where the writer's directory lies. Without a text it is the working directory. -/
def home? (writer : Writer) (files : Files) : Option Location :=
  if writer.directory = "" then some files.working
  else files.place? (Path.ofText writer.directory)

/-- Where the file of a report lies in a directory. -/
def placeIn (home : Location) (report : ReportKind × Format) : Location :=
  home ++ [fileName report.1.stem report.2]

/-- The directory is there, and the path of the report's file is not too long. -/
def Reaches (writer : Writer) (files : Files) (home : Location) (report : ReportKind × Format) :
    Prop :=
  files.get? home = some .directory ∧
    (writer.path report.1 report.2).size ≤ Files.longestPath

theorem walk_of_home (h : writer.home? files = some home) :
    Files.holdsNul (Path.ofText writer.directory) = false ∧
      files.walk (files.start (Path.ofText writer.directory))
        (Path.ofText writer.directory).names = .ok home := by
  rw [home?] at h
  split at h
  · rename_i hempty
    rw [hempty]
    cases h
    exact ⟨rfl, rfl⟩
  · obtain ⟨-, hnul, -, hwalk⟩ := Files.place?_eq_some_iff.mp h
    exact ⟨hnul, hwalk⟩

theorem fileName_fits (kind : ReportKind) (format : Format) :
    (fileName kind.stem format).utf8ByteSize ≤ Files.longestName ∧
      '\x00' ∉ (fileName kind.stem format).toList := by
  cases kind <;> cases format <;> decide

/-- The path of a report that is within reach leads to its place, and no other path of a report
leads anywhere. -/
theorem place?_report (hhome : writer.home? files = some home) :
    files.place? (writer.path kind format) = some location ↔
      writer.Reaches files home (kind, format) ∧ location = placeIn home (kind, format) := by
  obtain ⟨hnul, hwalk⟩ := walk_of_home hhome
  obtain ⟨hlength, hname⟩ := fileName_fits kind format
  have hempty : (writer.path kind format).isEmpty = false := by
    simp [path, Path.child, Path.isEmpty]
  have hholds : Files.holdsNul (writer.path kind format) = false := by
    rw [Files.holdsNul] at hnul ⊢
    rw [path, Path.child, List.any_append, hnul]
    simpa using hname
  have hplace :
      files.walk (files.start (writer.path kind format)) (writer.path kind format).names =
          .ok location ↔
        files.get? home = some .directory ∧ location = placeIn home (kind, format) := by
    have hnames : (writer.path kind format).names =
        (Path.ofText writer.directory).names ++ [fileName kind.stem format] := rfl
    have hstart : files.start (writer.path kind format) =
        files.start (Path.ofText writer.directory) := rfl
    obtain ⟨hdot, hdots⟩ := fileName_ne_dots kind format
    rw [hnames, hstart, Files.walk_append_singleton_iff, hwalk]
    simp [hlength, placeIn, Files.step, hdot, hdots]
  rw [Files.place?_eq_some_iff, hempty, hholds, hplace, Reaches, and_assoc]
  simp only [true_and]
  exact and_left_comm

theorem isFile_report_iff (hhome : writer.home? files = some home) :
    files.isFile (writer.path kind format) = true ↔ writer.Reaches files home (kind, format) ∧
      ∃ content, files.get? (placeIn home (kind, format)) = some (.file content) := by
  rw [Files.isFile_iff_fileAt]
  constructor
  · rintro ⟨location, hplace, hfile⟩
    obtain ⟨hreaches, rfl⟩ := (place?_report hhome).mp hplace
    exact ⟨hreaches, hfile⟩
  · rintro ⟨hreaches, hfile⟩
    exact ⟨_, (place?_report hhome).mpr ⟨hreaches, rfl⟩, hfile⟩

/-- A directory that was made lies somewhere, and is a directory there; only without a text nothing
was made. -/
theorem exists_home (h : (Path.ofText writer.directory).isEmpty = true ∨
    made.isDirectory (Path.ofText writer.directory) = true) :
    ∃ home, writer.home? made = some home ∧
      (writer.directory = "" ∨ made.get? home = some .directory) := by
  rw [Path.isEmpty_ofText_iff] at h
  by_cases hempty : writer.directory = ""
  · exact ⟨made.working, if_pos hempty, .inl hempty⟩
  · obtain ⟨home, hplace, hentry⟩ := Files.isDirectory_iff.mp (h.resolve_left hempty)
    exact ⟨home, (if_neg hempty).trans hplace, .inr hentry⟩

theorem home?_eq (h : Files.SameDirectories files made) :
    writer.home? made = writer.home? files := by
  rw [home?, home?, h.working_eq, h.place?_eq]

/-! ### The directory afterwards -/

/-- The files after a directory was prepared. Some reports were stale: those within reach that were
regular files before. -/
structure Prepared (writer : Writer) (files prepared : Files) (home : Location)
    (stale : List (ReportKind × Format)) : Prop where
  home_eq : writer.home? prepared = some home
  /-- The directory has been made, if there is a text for it. -/
  directory : writer.directory = "" ∨ prepared.get? home = some .directory
  /-- The stale reports are in the order in which the reports are looked at. -/
  sublist : stale.Sublist reports
  stale_iff : ∀ report, report ∈ stale ↔ writer.Reaches prepared home report ∧
    ∃ content, files.get? (placeIn home report) = some (.file content)
  removed : ∀ report ∈ stale, prepared.get? (placeIn home report) = none
  not_file : ∀ report, writer.Reaches prepared home report → ∀ content,
    prepared.get? (placeIn home report) ≠ some (.file content)
  working_eq : prepared.working = files.working
  limits_eq : prepared.limits = files.limits
  /-- Apart from the stale reports there are at most new directories, on the way to this one. -/
  frame : ∀ location, (∀ report ∈ stale, location ≠ placeIn home report) →
    prepared.get? location = files.get? location ∨
      location ∈ writer.wayTo files ∧ files.get? location = none ∧
        prepared.get? location = some .directory
  /-- There is nothing left to be done. -/
  again : writer.prepare prepared = .ok [] prepared

/-- Making the directory and clearing the reports in it is all there is to be done. The reports that
are regular files once the directory is made were so before. -/
theorem prepared_of_cleared (hmore : Files.MoreDirectories (writer.wayTo files) files made)
    (hthere : (Path.ofText writer.directory).isEmpty = true ∨
      made.isDirectory (Path.ofText writer.directory) = true)
    (hcleared : writer.Cleared reports made prepared) :
    ∃ home, writer.home? made = some home ∧ writer.Prepared files prepared home
      (reports.filter fun report ↦ made.isFile (writer.path report.1 report.2)) := by
  obtain ⟨home, hhome, hdirectory⟩ := exists_home hthere
  have hsame := hcleared.same
  have hhome' : writer.home? prepared = some home := (home?_eq hsame).trans hhome
  have hreaches (report : ReportKind × Format) :
      writer.Reaches prepared home report ↔ writer.Reaches made home report := by
    rw [Reaches, Reaches, hsame.directory_iff]
  have hfile (location : Location) (content : ByteArray) :
      made.get? location = some (.file content) ↔ files.get? location = some (.file content) :=
    hmore.get?_iff nofun
  have hthere' : (Path.ofText writer.directory).isEmpty = true ∨
      prepared.isDirectory (Path.ofText writer.directory) = true := by
    simpa only [Files.isDirectory_iff, hsame.place?_eq, hsame.directory_iff] using hthere
  exact ⟨home, hhome, {
    home_eq := hhome'
    directory := hdirectory.imp_right (hsame.directory_iff home).mpr
    sublist := List.filter_sublist
    stale_iff := by
      rintro ⟨kind, format⟩
      rw [List.mem_filter, isFile_report_iff hhome, hreaches]
      simp only [mem_reports, true_and, hfile]
    removed := by
      rintro ⟨kind, format⟩ hstale
      obtain ⟨hreport, hstale⟩ := List.mem_filter.mp hstale
      obtain ⟨hreach, hfile⟩ := (isFile_report_iff hhome).mp hstale
      exact hcleared.gone _ hreport _ ⟨(place?_report hhome).mpr ⟨hreach, rfl⟩, hfile⟩
    not_file := by
      rintro ⟨kind, format⟩ hreach content hcontent
      have hnone := hcleared.isFile_eq_false (mem_reports kind format)
      rw [(isFile_report_iff hhome').mpr ⟨hreach, content, hcontent⟩] at hnone
      cases hnone
    working_eq := hsame.working_eq.trans hmore.working_eq
    limits_eq := hcleared.limits_eq.trans hmore.limits_eq
    frame := by
      intro location hother
      rw [hcleared.kept location]
      · exact hmore.get?_eq location
      · rintro ⟨kind, format⟩ hreport hstale
        exact hother (kind, format)
          (List.mem_filter.mpr ⟨hreport, Files.isFile_iff_fileAt.mpr ⟨location, hstale⟩⟩)
          ((place?_report hhome).mp hstale.1).2
    again := (Run.bind_of_ok (Files.makeDirectories_of_isDirectory hthere')).trans
      (removeReports_of_forall_not fun _ hreport ↦ hcleared.isFile_eq_false hreport) }⟩

/-- Preparing a directory removes the stale reports in it, and nothing else. If the directory cannot
be made, it fails with that cause, and there are at most new directories on the way. Otherwise it
succeeds and lists exactly the reports within reach that were regular files, in the order in which
they are looked at; none of those within reach is a regular file afterwards, every other place is as
it was or has become a directory on the way, and to prepare the directory again does nothing. -/
theorem prepare_exact (writer : Writer) (files : Files) :
    (∀ cause made, Files.makeDirectories (Path.ofText writer.directory) files =
        .error cause made → writer.prepare files = .error cause made ∧
          Files.MoreDirectories (writer.wayTo files) files made) ∧
      ∀ made, Files.makeDirectories (Path.ofText writer.directory) files = .ok () made →
        ∃ home stale prepared, writer.home? made = some home ∧ writer.prepare files =
            .ok (stale.map fun report ↦ writer.shownPath report.1.stem report.2) prepared ∧
          writer.Prepared files prepared home stale := by
  rcases writer.prepare_eq files with
    ⟨cause, failed, hmade, herror, hmore⟩ | ⟨made, prepared, hmade, hok, hmore, hthere, hcleared⟩
  · rw [hmade]
    refine ⟨fun _ _ heq ↦ ?_, nofun⟩
    cases heq
    exact ⟨herror, hmore⟩
  · rw [hmade]
    refine ⟨nofun, fun _ heq ↦ ?_⟩
    cases heq
    obtain ⟨home, hhome, hprepared⟩ := prepared_of_cleared hmore hthere hcleared
    exact ⟨home, _, prepared, hhome, hok, hprepared⟩

/-- Of the four names one is a regular file and one a directory, and another file lies beside them.
Below that file no directory can be made. -/
theorem prepare_exact_sample :
    let writer : Writer := ⟨"out", .yaml, false⟩
    let blocked : Writer := ⟨"out/notes/deep", .yaml, false⟩
    let text := "old".toUTF8
    let files := (((Files.empty.put ["out"] .directory).put ["out", "action_counts.json"]
      (.file text)).put ["out", "architecture_description.yaml"] .directory).put ["out", "notes"]
      (.file text)
    Files.makeDirectories (Path.ofText writer.directory) files = .ok () files ∧
      (∃ (stale : List (ReportKind × Format)) (prepared : Files), writer.prepare files =
          .ok (stale.map fun report ↦ writer.shownPath report.1.stem report.2) prepared ∧
        (.actionCounts, .json) ∈ stale ∧ (.architecture, .yaml) ∉ stale ∧
        prepared.get? ["out", "action_counts.json"] = none ∧
        writer.prepare prepared = .ok [] prepared) ∧
      Files.makeDirectories (Path.ofText blocked.directory) files = .error .notADirectory files ∧
      blocked.prepare files = .error .notADirectory files := by
  intro writer blocked text files
  have hpath : Path.ofText writer.directory = ⟨false, ["out"], 3⟩ := by decide
  have hpath' : Path.ofText blocked.directory = ⟨false, ["out", "notes", "deep"], 14⟩ := by decide
  have hmade : Files.makeDirectories (Path.ofText writer.directory) files = .ok () files :=
    Files.makeDirectories_of_isDirectory (.inr (hpath ▸ rfl))
  have hblocked : Files.makeDirectories (Path.ofText blocked.directory) files =
      .error .notADirectory files := by
    rw [hpath']
    rfl
  obtain ⟨home, stale, prepared, hhome, hok, hprepared⟩ :=
    (prepare_exact writer files).2 files hmade
  obtain rfl : ["out"] = home := by
    rw [home?, if_neg (by decide), hpath] at hhome
    exact Option.some.inj hhome
  have hcounts : placeIn ["out"] (.actionCounts, .json) = ["out", "action_counts.json"] := by
    decide
  have harchitecture : placeIn ["out"] (.architecture, .yaml) =
      ["out", "architecture_description.yaml"] := by decide
  have hdirectory : prepared.get? ["out"] = some .directory :=
    hprepared.directory.resolve_left (by decide)
  have hstale : (.actionCounts, .json) ∈ stale :=
    (hprepared.stale_iff _).mpr ⟨⟨hdirectory, by decide⟩, text, by rw [hcounts]; rfl⟩
  refine ⟨hmade, ⟨stale, prepared, hok, hstale, fun hmem ↦ ?_,
    hcounts ▸ hprepared.removed _ hstale, hprepared.again⟩, hblocked,
    ((prepare_exact blocked files).1 _ _ hblocked).1⟩
  obtain ⟨-, content, hcontent⟩ := (hprepared.stale_iff _).mp hmem
  rw [harchitecture] at hcontent
  cases hcontent

/-! ### Out of reach -/

/-- A directory with slashes at its end. -/
def slashed (n : Nat) : String := String.ofList ('o' :: List.replicate n '/')

theorem parts_replicate_slash (n : Nat) :
    Path.parts (List.replicate n '/') = List.replicate (n + 1) [] := by
  induction n with
  | zero => rfl
  | succ n ih => rw [List.replicate_succ, Path.parts, if_pos rfl, ih, ← List.replicate_succ]

theorem utf8ByteSize_slashed (n : Nat) : (slashed n).utf8ByteSize = n + 1 := by
  have hslashes : (String.ofList (List.replicate n '/')).utf8ByteSize = n := by
    induction n with
    | zero => rfl
    | succ n ih =>
      rw [List.replicate_succ, String.ofList_cons, String.utf8ByteSize_append, ih,
        String.utf8ByteSize_singleton, Nat.add_comm]
      rfl
  rw [slashed, String.ofList_cons, String.utf8ByteSize_append, hslashes,
    String.utf8ByteSize_singleton, Nat.add_comm]
  rfl

theorem ofText_slashed (n : Nat) : Path.ofText (slashed n) = ⟨false, ["o"], n + 1⟩ := by
  have hparts : Path.parts (slashed n).toList = ['o'] :: List.replicate n [] := by
    rw [slashed, String.toList_ofList, Path.parts, if_neg (by decide), parts_replicate_slash,
      List.replicate_succ]
  have hstart : Path.startsWithSlash (slashed n) = false := by
    rw [Path.startsWithSlash, slashed, String.toList_ofList, List.head?_cons]
    decide
  rw [Path.ofText, hstart, hparts, utf8ByteSize_slashed,
    List.filter_cons_of_pos (by decide), List.filter_eq_nil_iff.mpr]
  · rfl
  · intro part hpart
    simp [List.eq_of_mem_replicate hpart]

theorem size_child_slashed (n : Nat) (kind : ReportKind) (format : Format) :
    (Path.child (slashed (n + 1)) (fileName kind.stem format)).size =
      n + 2 + (fileName kind.stem format).utf8ByteSize := by
  have hfile : Path.startsWithSlash (fileName kind.stem format) = false := by
    cases kind <;> cases format <;> decide
  have hlast : Path.endsWithSlash (slashed (n + 1)) = true := by
    rw [Path.endsWithSlash, slashed, String.toList_ofList, List.getLast?_cons,
      List.getLast?_replicate, if_neg (Nat.succ_ne_zero n)]
    decide
  rw [Path.child, Path.join, hfile, hlast]
  simp [utf8ByteSize_slashed]

/-- A directory whose text has 4067 bytes can be prepared, but the path of a report in it has 4096
bytes. It is not seen, and stays. -/
theorem unreached_report_stays :
    let writer : Writer := ⟨slashed 4066, .yaml, false⟩
    let files := (Files.empty.put ["o"] .directory).put ["o", "architecture_description.yaml"]
      (.file "old".toUTF8)
    writer.prepare files = .ok [] files ∧ writer.home? files = some ["o"] ∧
      files.get? ["o"] = some .directory ∧
      files.get? (placeIn ["o"] (.architecture, .yaml)) = some (.file "old".toUTF8) := by
  intro writer files
  have hpath : Path.ofText writer.directory = ⟨false, ["o"], 4067⟩ := ofText_slashed 4066
  have hplace : files.place? ⟨false, ["o"], 4067⟩ = some ["o"] := rfl
  have hhome : writer.home? files = some ["o"] := by
    have htext : writer.directory ≠ "" := fun htext ↦ by
      have hsize : writer.directory.utf8ByteSize = 4067 := utf8ByteSize_slashed 4066
      rw [htext] at hsize
      cases hsize
    rw [home?, if_neg htext, hpath, hplace]
  have hmade : Files.makeDirectories (Path.ofText writer.directory) files = .ok () files := by
    refine Files.makeDirectories_of_isDirectory (.inr ?_)
    rw [hpath]
    rfl
  have hunseen : ∀ report ∈ reports,
      files.isFile (writer.path report.1 report.2) = false := by
    rintro ⟨kind, format⟩ -
    rw [← Bool.not_eq_true, isFile_report_iff hhome]
    rintro ⟨⟨-, hsize⟩, content, hcontent⟩
    have hsize : (Path.child (slashed 4066) (fileName kind.stem format)).size ≤ 4095 := hsize
    rw [size_child_slashed] at hsize
    cases kind with
    | architecture => cases format <;> exact absurd hsize (by decide)
    | actionCounts =>
      have hname : placeIn ["o"] (.actionCounts, format) ≠ ["o", "architecture_description.yaml"] ∧
          placeIn ["o"] (.actionCounts, format) ≠ ["o"] := by
        cases format <;> decide
      rw [Files.get?_put_of_ne _ _ hname.1, Files.get?_put_of_ne _ _ hname.2] at hcontent
      cases hcontent
  exact ⟨(Run.bind_of_ok hmade).trans (removeReports_of_forall_not hunseen), hhome, rfl, by
    have hname : placeIn ["o"] (.architecture, .yaml) =
      ["o", "architecture_description.yaml"] := by decide
    rw [hname]
    rfl⟩

end Writer

end CountTree
