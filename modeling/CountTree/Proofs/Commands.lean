import CountTree.Proofs.PrintedLines
import CountTree.Proofs.RunSuccess

/-!
How the command ends. Before the configuration has been read and its design created, nothing is
changed. After that the command succeeds exactly if both reports can be opened and are not broken
off and every job is in range, and then the results and the summary that it prints and the reports
that it leaves agree. A command that fails has printed no more than its configuration.
`execute_ends` is the main statement, and `counts_without_room` shows why it is not enough that a
report can be opened.
-/

set_option autoImplicit false
set_option relaxedAutoImplicit false

namespace CountTree

open Component

/-! ### Refusals that are no faults -/

/-- What may be refused, but never for lack of storage or range. -/
def WithoutFault {α : Type} (result : Except ModelError α) : Prop :=
  ∀ cause, result ≠ .error (.fault cause)

section WithoutFault

variable {α β : Type}

theorem withoutFault_ok (value : α) : WithoutFault (.ok value) := fun _ ↦ nofun

theorem WithoutFault.bind {result : Except ModelError α} {next : α → Except ModelError β}
    (h : WithoutFault result) (hnext : ∀ value, result = .ok value → WithoutFault (next value)) :
    WithoutFault (result >>= next) := by
  rcases result with cause | value
  · exact fun fault heq ↦ h fault (by cases heq; rfl)
  · exact hnext value rfl

theorem withoutFault_withChild (node child : Component) : WithoutFault (node.withChild child) := by
  intro fault heq
  rw [withChild, attach] at heq
  split at heq
  · cases heq
  split at heq <;> cases heq

end WithoutFault

/-- Only a memory without banks is refused. -/
theorem Memory.withoutFault_build {memory : Memory} (hlimit : memory.bankCount < storageLimit)
    (name : String) : WithoutFault (memory.build name) := by
  by_cases hbanks : 0 < memory.bankCount
  · obtain ⟨node, hnode⟩ := (exists_build_iff hlimit name).mpr hbanks
    exact hnode ▸ withoutFault_ok node
  · have hzero : memory.bankCount = 0 := by omega
    have hbuild : memory.build name = .error (.invalidCardinality readAction [0]) := by
      rw [build, hzero]
      rfl
    intro cause heq
    rw [hbuild] at heq
    cases heq

theorem ProcessingElement.withoutFault_build {element : ProcessingElement}
    (hlimit : element.scratchpad.bankCount < storageLimit) : WithoutFault element.build := by
  obtain ⟨mac, hmac⟩ := element.mac.exists_build macName
  refine WithoutFault.bind (hmac ▸ withoutFault_ok mac) fun _ _ ↦ ?_
  refine (withoutFault_withChild _ _).bind fun _ _ ↦ ?_
  exact (Memory.withoutFault_build hlimit _).bind fun _ _ ↦ withoutFault_withChild _ _

theorem Runner.withoutFault_create {configuration : Configuration}
    (hsizes : configuration.Storable) : WithoutFault (create configuration) := by
  have helement : ProcessingElement.create configuration.element =
      .ok configuration.freshElement := by
    rw [ProcessingElement.create, Memory.create_of_lt hsizes.element_depth]
    rfl
  rw [create, Memory.create_of_lt hsizes.buffer_depth]
  refine (withoutFault_ok _).bind fun buffer hbuffer ↦ ?_
  obtain rfl := Except.ok.inj hbuffer
  refine (Memory.withoutFault_build hsizes.buffer_banks _).bind fun _ _ ↦ ?_
  refine (withoutFault_withChild _ _).bind fun _ _ ↦ ?_
  rw [helement]
  refine (withoutFault_ok _).bind fun element helement ↦ ?_
  obtain rfl := Except.ok.inj helement
  refine (ProcessingElement.withoutFault_build hsizes.element_banks).bind fun _ _ ↦ ?_
  exact (withoutFault_withChild _ _).bind fun _ _ ↦ withoutFault_ok _

namespace CommandLine

variable {arguments : List String} {options : Options} {files : Files} {given : Configuration}
  {cause : RunError}

/-! ### How a command ends -/

/-- Sizes that a machine can hold: those of memories and tables, and the number of jobs. -/
structure Sized (configuration : Configuration) : Prop where
  storable : configuration.Storable
  jobs_lt : configuration.jobs.length < storageLimit

/-- A command that fails: these lines are all that it has printed, apart from an error, and there
is no result and no summary among them. -/
structure Fails (lines : List String) (transcript : Transcript) : Prop where
  exitCode_eq : transcript.exitCode = 1
  output_eq : transcript.output = printed lines
  plain : ∀ line ∈ lines, IsPlain line

/-- A command that succeeds: both reports are of the design. After the configuration it has printed
the result of each job, where the reports are, and a table whose rows are what the report of counts
adds up to and whose total is five for each job. -/
structure Succeeds (configuration : Configuration) (design : Component) (files : Files)
    (transcript : Transcript) : Prop where
  exitCode_eq : transcript.exitCode = 0
  reports : ∀ kind, (Writer.ofSettings configuration.output).Holds files transcript.files kind
    (Report.ofKind kind design)
  output_eq : transcript.output = printed (configurationLines configuration ++
    resultLines configuration.element.bitWidth configuration.jobs ++ placeLines configuration ++
    tableLines (design.places.flatMap (Summary.exactRows design))
      (5 * configuration.jobs.length))

theorem fails_failed (h : ∀ fault, cause ≠ .model (.fault fault)) {lines : List String}
    (hplain : ∀ line ∈ lines, IsPlain line) (files : Files) :
    Fails lines (failed lines files cause) := by
  unfold failed
  split
  · exact absurd rfl (h _)
  · exact ⟨rfl, rfl, hplain⟩

theorem files_failed (printed : List String) (files : Files) (cause : RunError) :
    (failed printed files cause).files = files := by
  unfold failed
  split <;> rfl

theorem readConfiguration_ne_model {path : String}
    (h : readConfiguration path files = .error cause) (fault : ModelError) :
    cause ≠ .model fault := by
  unfold readConfiguration at h
  split at h
  · cases h
    nofun
  · rename_i text _
    rcases hparse : Configuration.parse text with misfit | configuration <;> rw [hparse] at h <;>
      cases h
    nofun

/-! ### A design that was created -/

theorem sized_override (h : Sized given) (options : Options) : Sized (override options given) :=
  ⟨⟨h.storable.buffer_depth, h.storable.buffer_banks, h.storable.element_depth,
    h.storable.element_banks⟩, h.jobs_lt⟩

variable {configuration : Configuration} {start : Runner}

/-- What a command does with the design that it has created. -/
def finish (configuration : Configuration) (start : Runner) (files : Files) : Transcript :=
  match Runner.runAndReport (.ofSettings configuration.output) (start, files) with
  | .error cause (_, files) => failed (configurationLines configuration) files cause
  | .ok report (runner, files) =>
    ⟨0, unlines (configurationLines configuration ++
      reportLines report (Summary.ofTree runner.design)), "", files⟩

theorem runWith_of_unread
    (hread : readConfiguration (options.configPath.getD defaultConfigPath) files = .error cause) :
    runWith options files = failed [] files cause := by
  unfold runWith
  rw [hread]

theorem runWith_of_refused {refusal : ModelError}
    (hread : readConfiguration (options.configPath.getD defaultConfigPath) files = .ok given)
    (hcreate : Runner.create (override options given) = .error refusal) :
    runWith options files =
      failed (configurationLines (override options given)) files (.model refusal) := by
  unfold runWith
  rw [hread]
  dsimp only
  rw [hcreate]

theorem runWith_of_create
    (hread : readConfiguration (options.configPath.getD defaultConfigPath) files = .ok given)
    (hcreate : Runner.create (override options given) = .ok start) :
    runWith options files = finish (override options given) start files := by
  unfold runWith
  rw [hread]
  dsimp only
  rw [hcreate]
  rfl

theorem jobs_lt (hsized : Sized configuration) (hcreate : Runner.create configuration = .ok start) :
    ([] : List CompletedJob).length + start.jobs.length < 2 ^ 63 := by
  obtain ⟨buffer, mac, scratchpad, hcreated⟩ := (Runner.create_eq_ok_iff hsized.storable).mp hcreate
  have hjobs : configuration.jobs.length < 2 ^ 60 := hsized.jobs_lt
  rw [hcreated.jobs_eq, List.length_nil]
  omega

/-- The design of a configuration after its jobs. -/
def finalDesign (start : Runner) : Component := (Outcome.state (Runner.run start)).design

/-- Where both reports can be opened and are not broken off and all jobs are in range, the command
succeeds. -/
theorem finish_succeeds (hsized : Sized configuration)
    (hcreate : Runner.create configuration = .ok start)
    (hcan : (Writer.ofSettings configuration.output).CanReport files)
    (htakes : (Writer.ofSettings configuration.output).TakesReports files start.design
      (finalDesign start))
    (hjobs : ∀ job ∈ configuration.jobs, job.InRange configuration.element.depth) :
    (finalDesign start).skeleton = start.design.skeleton ∧
      Succeeds configuration (finalDesign start) files (finish configuration start files) := by
  obtain ⟨buffer, mac, scratchpad, hcreated⟩ := (Runner.create_eq_ok_iff hsized.storable).mp hcreate
  have hready := hcreated.ready
  have hbound := jobs_lt hsized hcreate
  obtain ⟨log, next, files', hlength, hserving, hnext, hreports, hrun⟩ :=
    (Runner.Serving.refl start).runAndReport_of_canReport hready hbound hcan htakes
      (by rwa [hcreated.jobs_eq, hcreated.depth_eq])
  rw [List.nil_append] at hserving
  rw [hcreated.jobs_eq] at hlength hbound
  have hwellFormed := hserving.wellFormed hready
  have hsum : next.design.cellSum = 5 * configuration.jobs.length := by
    rw [hserving.cellSum_eq hready (by rw [hlength]; simpa using hbound), hlength]
  have htop : next.design.cellSum ≤ Word.top := by
    have hlt : configuration.jobs.length < 2 ^ 60 := hsized.jobs_lt
    have htop : Word.top = 2 ^ 64 - 1 := rfl
    omega
  have hskeleton : next.design.skeleton = start.design.skeleton := by
    rw [hserving.design_eq, skeleton_runAll]
  have hwidth : start.element.mac.bitWidth = configuration.element.bitWidth := by
    rw [hcreated.element_eq]
    rfl
  have hrows := Summary.ofTree_eq_exactRows hwellFormed htop
  have htotal : (Summary.ofTree next.design).total = 5 * configuration.jobs.length := by
    rw [total_ofTree hwellFormed, Nat.min_eq_left htop, hsum]
  rw [finalDesign, hnext]
  refine ⟨hskeleton, ?_⟩
  unfold finish
  rw [hrun]
  exact {
    exitCode_eq := rfl
    reports := fun kind ↦ hreports.holds kind (by cases kind <;> decide)
    output_eq := by
      dsimp only
      rw [hcreated.jobs_eq, hwidth, reportLines_eq, htotal, hrows, List.append_assoc,
        List.append_assoc, List.append_assoc]
      rfl }

/-- Otherwise it fails, and not in a fault. -/
theorem finish_fails (hsized : Sized configuration)
    (hcreate : Runner.create configuration = .ok start)
    (hnot : ¬ ((Writer.ofSettings configuration.output).CanReport files ∧
      (Writer.ofSettings configuration.output).TakesReports files start.design
        (finalDesign start) ∧
      ∀ job ∈ configuration.jobs, job.InRange configuration.element.depth)) :
    Fails (configurationLines configuration) (finish configuration start files) := by
  obtain ⟨buffer, mac, scratchpad, hcreated⟩ := (Runner.create_eq_ok_iff hsized.storable).mp hcreate
  have hbound := jobs_lt hsized hcreate
  have hserving := Runner.Serving.refl start
  unfold finish
  rcases hrun : Runner.runAndReport (.ofSettings configuration.output) (start, files) with
    ⟨report, world⟩ | ⟨cause, world⟩
  · have hdone := hserving.canReport_of_runAndReport hcreated.ready hbound hrun
    rw [hcreated.jobs_eq, hcreated.depth_eq] at hdone
    exact absurd hdone hnot
  · refine fails_failed (fun fault ↦ ?_) (fun _ ↦ isPlain_of_mem_configurationLines) _
    have hprefix := (List.takeWhile_prefix (l := start.jobs)
      (·.InRange start.element.scratchpad.depth)).length_le
    rcases hserving.runAndReport_eq_error hcreated.ready (by omega) hrun with
      ⟨failure, rfl⟩ | ⟨_, _, _, -, -, -, rfl⟩
    · nofun
    · nofun

/-! ### The whole command -/

/-- How a command ends that asks for a run. If the configuration cannot be read, or is refused, the
command fails and changes nothing. Otherwise it ends with code 0 exactly if the output directory can
be made, the files of both reports can be opened in it, neither report is broken off and every job
is in range; on a disk with room for all that is written, the third of these always holds. Then it
has printed the results of all jobs and a summary that is, row by row, what the written report of
counts adds up to, and that has five for each job in total. If it fails it has printed the
configuration and no more. -/
theorem execute_ends (harguments : Request.ofArguments arguments = some (.run options))
    (files : Files) :
    let decoded := readConfiguration (options.configPath.getD defaultConfigPath) files
    let transcript := execute arguments files
    (∀ cause, decoded = .error cause → Fails [] transcript ∧ transcript.files = files) ∧
      ∀ given, decoded = .ok given → Sized given →
        let configuration := override options given
        let writer := Writer.ofSettings configuration.output
        (∀ cause, Runner.create configuration = .error cause →
          Fails (configurationLines configuration) transcript ∧ transcript.files = files) ∧
        ∀ start, Runner.create configuration = .ok start →
          (transcript.exitCode = 0 ↔ writer.CanReport files ∧
            writer.TakesReports files start.design (finalDesign start) ∧
            ∀ job ∈ configuration.jobs, job.InRange configuration.element.depth) ∧
          (files.Unlimited → (transcript.exitCode = 0 ↔ writer.CanReport files ∧
            ∀ job ∈ configuration.jobs, job.InRange configuration.element.depth)) ∧
          (transcript.exitCode = 0 → (finalDesign start).skeleton = start.design.skeleton ∧
            Succeeds configuration (finalDesign start) files transcript) ∧
          (transcript.exitCode ≠ 0 → Fails (configurationLines configuration) transcript) := by
  intro decoded transcript
  have htranscript : transcript = runWith options files := by
    simp only [transcript, execute, harguments]
  rw [htranscript]
  constructor
  · intro cause hread
    rw [runWith_of_unread hread]
    exact ⟨fails_failed (fun _ ↦ readConfiguration_ne_model hread _)
      (fun _ hnone ↦ absurd hnone List.not_mem_nil) _, files_failed _ _ _⟩
  intro given hread hgiven configuration writer
  have hsized : Sized configuration := sized_override hgiven options
  constructor
  · intro refusal hcreate
    rw [runWith_of_refused hread hcreate]
    refine ⟨fails_failed (fun fault heq ↦ ?_) (fun _ ↦ isPlain_of_mem_configurationLines) _,
      files_failed _ _ _⟩
    rw [RunError.model.inj heq] at hcreate
    exact Runner.withoutFault_create hsized.storable fault hcreate
  · intro start hcreate
    rw [runWith_of_create hread hcreate]
    have hiff : (finish configuration start files).exitCode = 0 ↔ writer.CanReport files ∧
        writer.TakesReports files start.design (finalDesign start) ∧
        ∀ job ∈ configuration.jobs, job.InRange configuration.element.depth := by
      refine ⟨fun hzero ↦ by_contra fun hnot ↦ ?_, fun ⟨hcan, htakes, hjobs⟩ ↦
        (finish_succeeds hsized hcreate hcan htakes hjobs).2.exitCode_eq⟩
      rw [(finish_fails hsized hcreate hnot).exitCode_eq] at hzero
      cases hzero
    refine ⟨hiff, fun hunlimited ↦ ?_, fun hzero ↦ ?_, fun hne ↦ ?_⟩
    · rw [hiff]
      exact and_congr_right fun _ ↦
        and_iff_right (Writer.takesReports_of_unlimited hunlimited _ _)
    · obtain ⟨hcan, htakes, hjobs⟩ := hiff.mp hzero
      exact finish_succeeds hsized hcreate hcan htakes hjobs
    · exact finish_fails hsized hcreate fun hgoal ↦ hne (hiff.mpr hgoal)

namespace Sample

/-- A working directory with one file, on a disk with these limits. -/
def directory (text : String) (limits : List (Option Limit)) : Files :=
  { Files.empty.put ["run.toml"] (.file text.toUTF8) with limits }

theorem readConfiguration_directory {text : String} {given : Configuration}
    (hparse : Configuration.parse text = .ok given) (limits : List (Option Limit)) :
    readConfiguration "run.toml" (directory text limits) = .ok given := by
  have hbytes : (directory text limits).readBytes (Path.fileOfText "run.toml") =
      .ok text.toUTF8 := rfl
  have htext : String.fromUTF8? text.toUTF8 = some text := dif_pos text.isValidUTF8
  have hread : (directory text limits).readText (Path.fileOfText "run.toml") = .ok text := by
    rw [Files.readText, hbytes]
    dsimp only
    rw [htext]
  unfold readConfiguration
  rw [hread]
  dsimp only
  rw [hparse]
  rfl

theorem canReport (text : String) (limits : List (Option Limit)) :
    (⟨"out", .yaml, true⟩ : Writer).CanReport (directory text limits) := by
  refine ⟨(directory text limits).put ["out"] .directory, rfl, fun kind ↦ ?_⟩
  refine Writer.opens_iff.mpr ?_
  cases kind with
  | architecture => exact ⟨["out", "architecture_description.yaml"], rfl, nofun⟩
  | actionCounts => exact ⟨["out", "action_counts.yaml"], rfl, nofun⟩

/-- Two jobs, of which the first has an offset past its sixteen bits. -/
def jobs : List Job := [⟨3, 0, 70000⟩, ⟨0, 19, -1⟩]

def text : String := "jobs = [[3, 0, 70000], [0, 19, -1]]\n"

theorem parse_text : Configuration.parse text = .ok { jobs } := by
  have hoption : (Configuration.parse text).toOption = some { jobs } := by decide +kernel
  generalize Configuration.parse text = parsed at hoption
  cases parsed with
  | error _ => cases hoption
  | ok found => exact congrArg Except.ok (Option.some.inj hoption)

theorem sized : Sized { jobs } := ⟨⟨by decide, by decide, by decide, by decide⟩, by decide⟩

def commandLine : List String := ["-c", "run.toml", "--output=out"]

def asked : Options := ⟨some "run.toml", some "out", none⟩

theorem ofArguments_commandLine : Request.ofArguments commandLine = some (.run asked) := by decide

theorem exists_create : ∃ start, Runner.create (override asked { jobs }) = .ok start :=
  (Runner.exists_create_iff (sized_override sized asked).storable).mpr
    ⟨by decide, by decide, by decide⟩

end Sample

/-- Two jobs, of which the first has an offset past its sixteen bits, in an output directory that
is not there yet. -/
theorem execute_ends_sample :
    let files := Sample.directory Sample.text []
    let configuration : Configuration := { output := { directory := "out" }, jobs := Sample.jobs }
    let transcript := execute Sample.commandLine files
    transcript.exitCode = 0 ∧ ∃ design, Succeeds configuration design files transcript ∧
      resultLines configuration.element.bitWidth configuration.jobs =
        ["[*] Job 0 result: 4464", "[*] Job 1 result: -1"] ∧
      totalText (5 * configuration.jobs.length) =
        "total                                                    10" := by
  intro files configuration transcript
  obtain ⟨start, hstart⟩ := Sample.exists_create
  have hunlimited : files.Unlimited := fun _ hnone ↦ absurd hnone List.not_mem_nil
  have hread := Sample.readConfiguration_directory Sample.parse_text []
  obtain ⟨-, hcode, hsucceeds, -⟩ :=
    ((execute_ends Sample.ofArguments_commandLine files).2 _ hread Sample.sized).2 start hstart
  have hzero : transcript.exitCode = 0 :=
    (hcode hunlimited).mpr ⟨Sample.canReport Sample.text [], by decide⟩
  obtain ⟨-, hdone⟩ := hsucceeds hzero
  exact ⟨hzero, finalDesign start, hdone, by decide, by decide⟩

/-- A disk without room for the counts. The output directory can be made, both files can be opened
in it and every job is in range, but the command fails. -/
theorem counts_without_room :
    let files := Sample.directory Sample.text [none, some ⟨0, .noSpace⟩]
    let configuration : Configuration := { output := { directory := "out" }, jobs := Sample.jobs }
    readConfiguration "run.toml" files = .ok { jobs := Sample.jobs } ∧
      (∃ start, Runner.create configuration = .ok start) ∧
      (Writer.ofSettings configuration.output).CanReport files ∧
      (∀ job ∈ configuration.jobs, job.InRange configuration.element.depth) ∧
      (execute Sample.commandLine files).exitCode = 1 := by
  intro files configuration
  obtain ⟨start, hstart⟩ := Sample.exists_create
  have hread := Sample.readConfiguration_directory Sample.parse_text files.limits
  have hexecute : execute Sample.commandLine files =
      finish (override Sample.asked { jobs := Sample.jobs }) start files := by
    simp only [execute, Sample.ofArguments_commandLine]
    exact runWith_of_create hread hstart
  refine ⟨hread, ⟨start, hstart⟩, Sample.canReport Sample.text _, by decide, ?_⟩
  rw [hexecute]
  refine (finish_fails (sized_override Sample.sized Sample.asked) hstart ?_).exitCode_eq
  exact fun hgoal ↦ Writer.not_takesReports_of_no_room rfl _ _ hgoal.2.1

end CommandLine

end CountTree
