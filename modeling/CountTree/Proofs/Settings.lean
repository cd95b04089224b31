import CountTree.Proofs.FieldOrder
import CountTree.Proofs.TomlDocuments

/-!
The settings that a document gives. The table `settings` lists the recognised keys of the sections,
each with what may stand under it and its default. `Describes` says which configuration a document
describes: every recognised key gives its setting, and a setting without its key, be it that the
whole section is missing, has its default. `Admissible` says of a document that all of its
recognised values fit. Neither asks where in the document a key stands. A document whose sections
and jobs are tables is read as the configuration that it describes (`ofEntries_eq_ok_iff`), and it
describes one if and only if it is admissible (`exists_describes_iff`).
-/

set_option autoImplicit false
set_option relaxedAutoImplicit false

namespace CountTree.Configuration

open Toml (Value Entries)

/-! ### Values of settings -/

def IsText (value : Value) (content : String) : Prop := value = .text content

def IsBoolean (value : Value) (b : Bool) : Prop := value = .boolean b

/-- A whole number from zero to a bound. -/
def IsNumber (bound : Int) (value : Value) (n : Nat) : Prop := value = .integer n ∧ n ≤ bound

def IsSigned (value : Value) (n : Int) : Prop :=
  value = .integer n ∧ Signed.least ≤ n ∧ n ≤ Signed.greatest

/-- The name of a format, or a table with nothing but an empty table under that name. -/
def IsFormat (value : Value) (format : Format) : Prop :=
  value = .text format.extension ∨ value = .table [(format.extension, .table [])]

/-- What the value under a key gives, or the default if there is none. -/
def Sets {β : Type} (reads : Value → β → Prop) (entries : Entries) (key : String)
    (standard given : β) : Prop :=
  match entries.get? key with
  | some value => reads value given
  | none => given = standard

/-! ### Documents -/

def IsTable (value : Value) : Prop := ∃ entries, value = .table entries

def entriesOf : Value → Entries
  | .table entries => entries
  | _ => []

/-- The entries of a section; a missing section has none. -/
def sectionOf (document : Entries) (name : String) : Entries :=
  ((document.get? name).map entriesOf).getD []

def jobItems (document : Entries) : List Value := ((document.get? "jobs").bind items?).getD []

/-- The tables of the jobs, in the order of the document. -/
def jobTables (document : Entries) : List Entries := (jobItems document).map entriesOf

def sectionNames : List String := ["design", "output", "glb", "pe"]

/-- The sections and the jobs that are there are written as tables. -/
@[mk_iff]
structure Tabular (document : Entries) : Prop where
  sections : ∀ name ∈ sectionNames, ∀ value, document.get? name = some value → IsTable value
  jobs : ∀ item ∈ jobItems document, IsTable item

/-- A key that is recognised in a section: what the values under it give, what holds without it,
and the part of the configuration that is set. -/
structure Setting where
  sectionName : String
  key : String
  Content : Type
  reads : Value → Content → Prop
  standard : Content
  part : Configuration → Content

def settings : List Setting :=
  [⟨"design", "name", String, IsText, "my_design", fun c ↦ c.designName⟩,
    ⟨"output", "dir", String, IsText, "output", fun c ↦ c.output.directory⟩,
    ⟨"output", "format", Format, IsFormat, .yaml, fun c ↦ c.output.format⟩,
    ⟨"output", "append", Bool, IsBoolean, true, fun c ↦ c.output.append⟩,
    ⟨"glb", "name", String, IsText, "glb", fun c ↦ c.buffer.name⟩,
    ⟨"glb", "width", Nat, IsNumber Signed.greatest, 16, fun c ↦ c.buffer.width⟩,
    ⟨"glb", "depth", Nat, IsNumber Signed.greatest, 2, fun c ↦ c.buffer.depth⟩,
    ⟨"glb", "nbanks", Nat, IsNumber Signed.greatest, 2, fun c ↦ c.buffer.bankCount⟩,
    ⟨"pe", "name", String, IsText, "my_PE", fun c ↦ c.element.name⟩,
    ⟨"pe", "bit_width", Nat, IsNumber Word.halfTop, 16, fun c ↦ c.element.bitWidth⟩,
    ⟨"pe", "mac_n_pipe_stage", Nat, IsNumber Word.halfTop, 2, fun c ↦ c.element.pipelineStages⟩,
    ⟨"pe", "mem_depth", Nat, IsNumber Signed.greatest, 20, fun c ↦ c.element.depth⟩,
    ⟨"pe", "nbanks", Nat, IsNumber Signed.greatest, 1, fun c ↦ c.element.bankCount⟩]

/-- Both addresses are given, the offset may be. -/
@[mk_iff]
structure DescribesJob (entries : Entries) (job : Job) : Prop where
  first : ∃ value, entries.get? "op0_addr" = some value ∧
    IsNumber Signed.greatest value job.first
  second : ∃ value, entries.get? "op1_addr" = some value ∧
    IsNumber Signed.greatest value job.second
  offset : Sets IsSigned entries "offset" 0 job.offset

@[mk_iff]
structure Describes (document : Entries) (configuration : Configuration) : Prop where
  settings : ∀ setting ∈ settings, Sets setting.reads (sectionOf document setting.sectionName)
    setting.key setting.standard (setting.part configuration)
  jobList : ∀ value, document.get? "jobs" = some value → (items? value).isSome
  jobs : List.Forall₂ DescribesJob (jobTables document) configuration.jobs

structure AdmissibleJob (entries : Entries) : Prop where
  first : ∃ value, entries.get? "op0_addr" = some value ∧ ∃ n, IsNumber Signed.greatest value n
  second : ∃ value, entries.get? "op1_addr" = some value ∧ ∃ n, IsNumber Signed.greatest value n
  offset : ∀ value, entries.get? "offset" = some value → ∃ n, IsSigned value n

/-- Every recognised key that is there has a value of its type and in its range, and every job has
both addresses. -/
structure Admissible (document : Entries) : Prop where
  settings : ∀ setting ∈ settings, ∀ value,
    (sectionOf document setting.sectionName).get? setting.key = some value →
      ∃ given, setting.reads value given
  jobList : ∀ value, document.get? "jobs" = some value → (items? value).isSome
  jobs : ∀ entries ∈ jobTables document, AdmissibleJob entries

/-! ### Settings one by one -/

/-- What a reader makes of a value. -/
def Decodes {β : Type} (decode : Decode β) (value : Value) (given : β) : Prop :=
  decode value = .ok given

section

variable {α β : Type} {reads reads' : Value → β → Prop} {entries : Entries} {key : String}
  {standard given : β}

theorem sets_none (h : entries.get? key = none) :
    Sets reads entries key standard given ↔ given = standard := by
  rw [Sets, h]

theorem sets_some {value : Value} (h : entries.get? key = some value) :
    Sets reads entries key standard given ↔ reads value given := by
  rw [Sets, h]

theorem sets_congr
    (h : ∀ value, entries.get? key = some value → (reads value given ↔ reads' value given)) :
    Sets reads entries key standard given ↔ Sets reads' entries key standard given := by
  rcases hget : entries.get? key with _ | value
  · rw [sets_none hget, sets_none hget]
  · rw [sets_some hget, sets_some hget, h value hget]

theorem exists_sets_iff : (∃ given, Sets reads entries key standard given) ↔
    ∀ value, entries.get? key = some value → ∃ given, reads value given := by
  rcases hget : entries.get? key with _ | value
  · simp [sets_none hget]
  · simp [sets_some hget]

variable {record record' : α} {decode : Decode β} {put : β → α → α}

theorem readFields_nil :
    readFields [] entries record = .ok record' ↔ record = record' := by
  simp [readFields, pure, Except.pure]

/-- Asking for a field sets one part of the record, and the others go on from there. -/
theorem readFields_cons {fields : List (Field α)} (part : α → β)
    (hpart : put (part record) record = record) :
    readFields (field key decode put :: fields) entries record = .ok record' ↔
      ∃ given, Sets (Decodes decode) entries key (part record) given ∧
        readFields fields entries (put given record) = .ok record' := by
  have hkey : (field key decode put).key = key := rfl
  rw [readFields, List.foldlM_cons, readField, hkey]
  rcases hget : entries.get? key with _ | value
  · simp [sets_none hget, hpart, bind_eq_ok_iff, readFields]
  · simp only [sets_some hget, field, Decodes]
    rcases decode value with cause | given <;>
      simp [Except.map, bind_eq_ok_iff, readFields]

end

/-! ### Values that are read -/

section

variable {value : Value}

theorem decodes_text {content : String} : Decodes text value content ↔ IsText value content := by
  cases value <;> simp [Decodes, text, IsText]

theorem decodes_boolean {b : Bool} : Decodes boolean value b ↔ IsBoolean value b := by
  cases value <;> simp [Decodes, boolean, IsBoolean]

theorem decodes_natural {expected : Expected} {bound n : Nat} :
    Decodes (natural expected bound) value n ↔ IsNumber bound value n := by
  cases value with
  | integer m =>
    simp only [Decodes, natural, IsNumber, Value.integer.injEq]
    split
    · rename_i hrange
      rw [Except.ok.injEq]
      omega
    · rename_i hrange
      simp only [reduceCtorEq, false_iff]
      omega
  | _ => simp [Decodes, natural, IsNumber]

/-- The signed words that are not negative are words. -/
theorem decodes_word (h : value.Sound) {n : Nat} :
    Decodes word value n ↔ IsNumber Signed.greatest value n := by
  rw [word, decodes_natural, IsNumber, IsNumber]
  refine and_congr_right ?_
  rintro rfl
  cases h with
  | integer _ hgreatest => exact iff_of_true (Int.le_trans hgreatest (by decide)) hgreatest

theorem decodes_signedWord (h : value.Sound) {n : Int} :
    Decodes signedWord value n ↔ IsSigned value n := by
  cases h with
  | integer hleast hgreatest =>
    simp only [Decodes, signedWord, IsSigned, Except.ok.injEq, Value.integer.injEq]
    constructor
    · rintro rfl
      exact ⟨rfl, hleast, hgreatest⟩
    · exact And.left
  | _ => simp [Decodes, signedWord, IsSigned]

theorem ofName?_eq_some_iff {name : String} {given : Format} :
    Format.ofName? name = some given ↔ name = given.extension := by
  by_cases hyaml : name = "yaml"
  · subst hyaml
    cases given <;> decide
  · by_cases hjson : name = "json"
    · subst hjson
      cases given <;> decide
    · have hnone : Format.ofName? name = none := by
        simp [Format.ofName?, Format.extension, Ne.symm hyaml, Ne.symm hjson]
      cases given <;> simp [hnone, Format.extension, hyaml, hjson]

theorem formatOfName_eq_ok_iff {name : String} {given : Format} :
    formatOfName name = .ok given ↔ name = given.extension := by
  rw [← ofName?_eq_some_iff, formatOfName]
  rcases Format.ofName? name with _ | found <;> simp

theorem decodes_format {given : Format} : Decodes format value given ↔ IsFormat value given := by
  cases value with
  | text name => simp [Decodes, format, IsFormat, formatOfName_eq_ok_iff]
  | table entries =>
    rcases entries with _ | ⟨⟨name, inner⟩, _ | ⟨second, rest⟩⟩
    · simp [Decodes, format, IsFormat]
    · have hname := @formatOfName_eq_ok_iff name given
      rcases hread : formatOfName name with cause | found
      · simp_all [Decodes, format, IsFormat]
      · cases inner with
        | table entries =>
          rcases entries with _ | ⟨entry, entries⟩ <;> simp_all [Decodes, format, IsFormat]
        | _ => simp_all [Decodes, format, IsFormat]
    · simp [Decodes, format, IsFormat]
  | _ => simp [Decodes, format, IsFormat]

end

/-! ### Sections -/

section

variable {entries : Entries}

theorem readEntries_design_iff (hentries : (Keyed.keys entries).Nodup) {standard name : String} :
    readEntries designFields entries standard = .ok name ↔
      Sets (Decodes text) entries "name" standard name := by
  have hcommutes : designFields.Pairwise Field.Commutes := List.pairwise_singleton _ _
  rw [readEntries_eq_ok_iff hcommutes (by decide) hentries]
  simp only [designFields, readFields_cons id, readFields_nil, id, exists_eq_right]

theorem readEntries_output_iff (hentries : (Keyed.keys entries).Nodup)
    {settings : OutputSettings} :
    readEntries outputFields entries {} = .ok settings ↔
      Sets (Decodes text) entries "dir" "output" settings.directory ∧
        Sets (Decodes format) entries "format" .yaml settings.format ∧
        Sets (Decodes boolean) entries "append" true settings.append := by
  have hcommutes : outputFields.Pairwise Field.Commutes := by simp [outputFields, commutes_field]
  rw [readEntries_eq_ok_iff hcommutes (by decide) hentries]
  simp only [outputFields, readFields_cons OutputSettings.directory,
    readFields_cons OutputSettings.format, readFields_cons OutputSettings.append, readFields_nil]
  constructor
  · rintro ⟨_, hdirectory, _, hformat, _, happend, rfl⟩
    exact ⟨hdirectory, hformat, happend⟩
  · rintro ⟨hdirectory, hformat, happend⟩
    exact ⟨_, hdirectory, _, hformat, _, happend, rfl⟩

theorem readEntries_buffer_iff (hentries : (Keyed.keys entries).Nodup)
    {settings : BufferSettings} :
    readEntries bufferFields entries {} = .ok settings ↔
      Sets (Decodes text) entries "name" "glb" settings.name ∧
        Sets (Decodes word) entries "width" 16 settings.width ∧
        Sets (Decodes word) entries "depth" 2 settings.depth ∧
        Sets (Decodes word) entries "nbanks" 2 settings.bankCount := by
  have hcommutes : bufferFields.Pairwise Field.Commutes := by simp [bufferFields, commutes_field]
  rw [readEntries_eq_ok_iff hcommutes (by decide) hentries]
  simp only [bufferFields, readFields_cons BufferSettings.name,
    readFields_cons BufferSettings.width, readFields_cons BufferSettings.depth,
    readFields_cons BufferSettings.bankCount, readFields_nil]
  constructor
  · rintro ⟨_, hname, _, hwidth, _, hdepth, _, hbanks, rfl⟩
    exact ⟨hname, hwidth, hdepth, hbanks⟩
  · rintro ⟨hname, hwidth, hdepth, hbanks⟩
    exact ⟨_, hname, _, hwidth, _, hdepth, _, hbanks, rfl⟩

theorem readEntries_element_iff (hentries : (Keyed.keys entries).Nodup)
    {settings : ElementSettings} :
    readEntries elementFields entries {} = .ok settings ↔
      Sets (Decodes text) entries "name" "my_PE" settings.name ∧
        Sets (Decodes halfWord) entries "bit_width" 16 settings.bitWidth ∧
        Sets (Decodes halfWord) entries "mac_n_pipe_stage" 2 settings.pipelineStages ∧
        Sets (Decodes word) entries "mem_depth" 20 settings.depth ∧
        Sets (Decodes word) entries "nbanks" 1 settings.bankCount := by
  have hcommutes : elementFields.Pairwise Field.Commutes := by
    simp [elementFields, commutes_field]
  rw [readEntries_eq_ok_iff hcommutes (by decide) hentries]
  simp only [elementFields, readFields_cons ElementSettings.name,
    readFields_cons ElementSettings.bitWidth, readFields_cons ElementSettings.pipelineStages,
    readFields_cons ElementSettings.depth, readFields_cons ElementSettings.bankCount,
    readFields_nil]
  constructor
  · rintro ⟨_, hname, _, hwidth, _, hstages, _, hdepth, _, hbanks, rfl⟩
    exact ⟨hname, hwidth, hstages, hdepth, hbanks⟩
  · rintro ⟨hname, hwidth, hstages, hdepth, hbanks⟩
    exact ⟨_, hname, _, hwidth, _, hstages, _, hdepth, _, hbanks, rfl⟩

theorem sets_text_iff {key : String} {standard given : String} :
    Sets (Decodes text) entries key standard given ↔ Sets IsText entries key standard given :=
  sets_congr fun _ _ ↦ decodes_text

theorem sets_boolean_iff {key : String} {standard given : Bool} :
    Sets (Decodes boolean) entries key standard given ↔ Sets IsBoolean entries key standard given :=
  sets_congr fun _ _ ↦ decodes_boolean

theorem sets_format_iff {key : String} {standard given : Format} :
    Sets (Decodes format) entries key standard given ↔ Sets IsFormat entries key standard given :=
  sets_congr fun _ _ ↦ decodes_format

theorem sets_halfWord_iff {key : String} {standard given : Nat} :
    Sets (Decodes halfWord) entries key standard given ↔
      Sets (IsNumber Word.halfTop) entries key standard given :=
  sets_congr fun _ _ ↦ decodes_natural

theorem sets_word_iff (h : entries.Sound) {key : String} {standard given : Nat} :
    Sets (Decodes word) entries key standard given ↔
      Sets (IsNumber Signed.greatest) entries key standard given :=
  sets_congr fun _ hvalue ↦ decodes_word (h.get? hvalue)

theorem sets_signedWord_iff (h : entries.Sound) {key : String} {standard given : Int} :
    Sets (Decodes signedWord) entries key standard given ↔
      Sets IsSigned entries key standard given :=
  sets_congr fun _ hvalue ↦ decodes_signedWord (h.get? hvalue)

end

/-! ### Jobs -/

section

variable {α β : Type} {entries : Entries}

/-- The reader of a setting that has no default: it starts out missing. -/
def optional (decode : Decode β) : Decode (Option β) := fun value ↦ (decode value).map some

theorem field_optional {key : String} {decode : Decode β} {put : Option β → α → α} :
    field key (optional decode) put = field key decode fun given ↦ put (some given) := by
  rw [field, field]
  congr 1
  funext value record
  rw [optional]
  rcases decode value with cause | given <;> rfl

theorem sets_optional_iff {key : String} {decode : Decode β} {given : β} :
    Sets (Decodes (optional decode)) entries key none (some given) ↔
      ∃ value, entries.get? key = some value ∧ Decodes decode value given := by
  rcases hget : entries.get? key with _ | value
  · simp [sets_none hget]
  · rw [sets_some hget]
    simp only [Option.some.injEq, exists_eq_left', Decodes, optional]
    rcases decode value with cause | found <;> simp [Except.map]

theorem jobFields_eq : jobFields =
    [field firstKey (optional word) fun first s ↦ { s with first },
      field secondKey (optional word) fun second s ↦ { s with second },
      field "offset" signedWord fun offset s ↦ { s with offset }] := by
  simp only [jobFields, field_optional]

theorem readEntries_job_iff (hentries : (Keyed.keys entries).Nodup) {read : PartialJob} :
    readEntries jobFields entries {} = .ok read ↔
      Sets (Decodes (optional word)) entries firstKey none read.first ∧
        Sets (Decodes (optional word)) entries secondKey none read.second ∧
        Sets (Decodes signedWord) entries "offset" 0 read.offset := by
  have hcommutes : jobFields.Pairwise Field.Commutes := by simp [jobFields, commutes_field]
  rw [readEntries_eq_ok_iff hcommutes (by decide) hentries, jobFields_eq]
  simp only [readFields_cons PartialJob.first, readFields_cons PartialJob.second,
    readFields_cons PartialJob.offset, readFields_nil]
  constructor
  · rintro ⟨_, hfirst, _, hsecond, _, hoffset, rfl⟩
    exact ⟨hfirst, hsecond, hoffset⟩
  · rintro ⟨hfirst, hsecond, hoffset⟩
    exact ⟨_, hfirst, _, hsecond, _, hoffset, rfl⟩

theorem finishJob_eq_ok_iff {missingFirst missingSecond : Misfit} {read : PartialJob} {job : Job} :
    finishJob missingFirst missingSecond read = .ok job ↔
      read.first = some job.first ∧ read.second = some job.second ∧ read.offset = job.offset := by
  obtain ⟨first, second, offset⟩ := read
  obtain ⟨first', second', offset'⟩ := job
  rcases first with _ | first <;> rcases second with _ | second <;> simp [finishJob]

theorem job_table_eq_ok_iff (h : entries.Sound) {result : Job} :
    job (.table entries) = .ok result ↔ DescribesJob entries result := by
  have hjob : job (.table entries) = readEntries jobFields entries {} >>=
      finishJob (.missingField firstKey) (.missingField secondKey) := rfl
  have haddress {key : String} {address : Nat} :
      Sets (Decodes (optional word)) entries key none (some address) ↔
        ∃ value, entries.get? key = some value ∧ IsNumber Signed.greatest value address := by
    rw [sets_optional_iff]
    exact exists_congr fun value ↦ and_congr_right fun hvalue ↦ decodes_word (h.get? hvalue)
  rw [hjob, bind_eq_ok_iff]
  simp only [readEntries_job_iff h.nodup, finishJob_eq_ok_iff, sets_signedWord_iff h]
  constructor
  · rintro ⟨read, ⟨hfirst, hsecond, hoffset⟩, heq, heq', heq''⟩
    exact ⟨haddress.mp (heq ▸ hfirst), haddress.mp (heq' ▸ hsecond), heq'' ▸ hoffset⟩
  · rintro ⟨hfirst, hsecond, hoffset⟩
    exact ⟨⟨some result.first, some result.second, result.offset⟩,
      ⟨haddress.mpr hfirst, haddress.mpr hsecond, hoffset⟩, rfl, rfl, rfl⟩

theorem mapM_eq_ok_iff {ε : Type} {f : α → Except ε β} {items : List α} {results : List β} :
    items.mapM f = .ok results ↔
      List.Forall₂ (fun item result ↦ f item = .ok result) items results := by
  induction items generalizing results with
  | nil => simp [pure, Except.pure, eq_comm]
  | cons item items ih =>
    simp only [List.mapM_cons, bind_eq_ok_iff, ih, List.forall₂_cons_left_iff, pure, Except.pure,
      Except.ok.injEq]
    constructor
    · rintro ⟨result, hresult, rest, hrest, rfl⟩
      exact ⟨result, rest, hresult, hrest, rfl⟩
    · rintro ⟨result, rest, hresult, hrest, rfl⟩
      exact ⟨result, hresult, rest, hrest, rfl⟩

end

/-! ### Documents that are read -/

section

variable {document : Entries} {configuration : Configuration}

theorem sound_entriesOf {value : Value} (h : value.Sound) : (entriesOf value).Sound := by
  cases h with
  | table hkeys h => exact ⟨hkeys, h⟩
  | _ => exact .nil

theorem sound_sectionOf (h : document.Sound) (name : String) : (sectionOf document name).Sound := by
  rw [sectionOf]
  rcases hget : document.get? name with _ | value
  · exact .nil
  · exact sound_entriesOf (h.get? hget)

theorem sound_items {value : Value} {items : List Value} (h : value.Sound)
    (hitems : items? value = some items) : ∀ item ∈ items, item.Sound := by
  cases h with
  | array h =>
    obtain rfl := Option.some.inj hitems
    exact h
  | arrayOfTables h =>
    obtain rfl := Option.some.inj hitems
    exact h
  | _ => cases hitems

theorem sound_jobItems (h : document.Sound) : ∀ item ∈ jobItems document, item.Sound := by
  rw [jobItems]
  rcases hget : document.get? "jobs" with _ | value
  · simp
  · rcases hitems : items? value with _ | items
    · simp [hitems]
    · simpa [hitems] using sound_items (h.get? hget) hitems

theorem sets_section_iff {α : Type} {name key : String} {fields : List (Field α)}
    {standard given : α}
    (htable : ∀ value, document.get? key = some value → IsTable value) :
    Sets (Decodes (section? name fields standard)) document key standard given ↔
      readEntries fields (sectionOf document key) standard = .ok given := by
  rw [sectionOf]
  rcases hget : document.get? key with _ | value
  · rw [sets_none hget, eq_comm]
    exact Except.ok.injEq _ _ ▸ Iff.rfl
  · obtain ⟨entries, rfl⟩ := htable value hget
    rw [sets_some hget]
    rfl

theorem forall₂_congr_of_mem {α β : Type} {R S : α → β → Prop} {items : List α} {results : List β}
    (h : ∀ item ∈ items, ∀ result, R item result ↔ S item result) :
    List.Forall₂ R items results ↔ List.Forall₂ S items results := by
  induction items generalizing results with
  | nil => simp
  | cons item items ih =>
    rw [List.forall_mem_cons] at h
    simp only [List.forall₂_cons_left_iff, h.1, ih h.2]

/-- The jobs are read from their tables one by one. -/
theorem sets_jobList_iff (h : document.Sound) (htables : Tabular document) {jobs : List Job} :
    Sets (Decodes jobList) document "jobs" [] jobs ↔
      (∀ value, document.get? "jobs" = some value → (items? value).isSome) ∧
        List.Forall₂ DescribesJob (jobTables document) jobs := by
  have hitem : ∀ item ∈ jobItems document, ∀ result,
      job item = .ok result ↔ DescribesJob (entriesOf item) result := by
    intro item hitem result
    obtain ⟨entries, rfl⟩ := htables.jobs item hitem
    exact job_table_eq_ok_iff (sound_jobItems h _ hitem).entries
  rw [jobTables, List.forall₂_map_left_iff, ← forall₂_congr_of_mem hitem, ← mapM_eq_ok_iff,
    jobItems]
  rcases hget : document.get? "jobs" with _ | value
  · simp [sets_none hget, pure, Except.pure]
  · rw [sets_some hget, Decodes, jobList]
    rcases hitems : items? value with _ | items <;> simp [hitems]

theorem readEntries_fields_iff (hkeys : (Keyed.keys document).Nodup) :
    readEntries fields document {} = .ok configuration ↔
      Sets (Decodes (section? "DesignConfig" designFields "my_design")) document "design"
          "my_design" configuration.designName ∧
        Sets (Decodes (section? "OutputConfig" outputFields {})) document "output" {}
          configuration.output ∧
        Sets (Decodes (section? "MemoryConfig" bufferFields {})) document "glb" {}
          configuration.buffer ∧
        Sets (Decodes (section? "PeConfig" elementFields {})) document "pe" {}
          configuration.element ∧
        Sets (Decodes jobList) document "jobs" [] configuration.jobs := by
  have hcommutes : fields.Pairwise Field.Commutes := by simp [fields, commutes_field]
  rw [readEntries_eq_ok_iff hcommutes (by decide) hkeys]
  simp only [fields, readFields_cons Configuration.designName, readFields_cons Configuration.output,
    readFields_cons Configuration.buffer, readFields_cons Configuration.element,
    readFields_cons Configuration.jobs, readFields_nil]
  constructor
  · rintro ⟨_, hdesign, _, houtput, _, hbuffer, _, helement, _, hjobs, rfl⟩
    exact ⟨hdesign, houtput, hbuffer, helement, hjobs⟩
  · rintro ⟨hdesign, houtput, hbuffer, helement, hjobs⟩
    exact ⟨_, hdesign, _, houtput, _, hbuffer, _, helement, _, hjobs, rfl⟩

/-- A document is read as the configuration that it describes. -/
theorem ofEntries_eq_ok_iff (h : document.Sound) (htables : Tabular document) :
    ofEntries document = .ok configuration ↔ Describes document configuration := by
  have hsection (name : String) := sound_sectionOf h name
  rw [ofEntries, readEntries_fields_iff h.nodup,
    sets_section_iff (htables.sections "design" (by decide)),
    sets_section_iff (htables.sections "output" (by decide)),
    sets_section_iff (htables.sections "glb" (by decide)),
    sets_section_iff (htables.sections "pe" (by decide)),
    readEntries_design_iff (hsection _).nodup, readEntries_output_iff (hsection _).nodup,
    readEntries_buffer_iff (hsection _).nodup, readEntries_element_iff (hsection _).nodup,
    sets_jobList_iff h htables]
  simp only [describes_iff, settings, List.forall_mem_cons, List.not_mem_nil, false_imp_iff,
    implies_true, sets_text_iff, sets_boolean_iff, sets_format_iff, sets_halfWord_iff,
    sets_word_iff (hsection _), and_assoc, true_and]

theorem parse_eq_ok_iff {text : String} (h : Toml.parse text = some document)
    (htables : Tabular document) :
    parse text = .ok configuration ↔ Describes document configuration := by
  rw [← ofEntries_eq_ok_iff (Toml.parse_sound h) htables, parse, h]
  simp only
  rcases ofEntries document with cause | found <;> simp [Except.mapError]

/-! ### Documents that are accepted -/

theorem exists_describesJob_iff {entries : Entries} :
    (∃ job, DescribesJob entries job) ↔ AdmissibleJob entries := by
  constructor
  · rintro ⟨job, ⟨value, hvalue, hfirst⟩, ⟨value', hvalue', hsecond⟩, hoffset⟩
    exact ⟨⟨value, hvalue, _, hfirst⟩, ⟨value', hvalue', _, hsecond⟩,
      exists_sets_iff.mp ⟨_, hoffset⟩⟩
  · rintro ⟨⟨value, hvalue, first, hfirst⟩, ⟨value', hvalue', second, hsecond⟩, hoffset⟩
    obtain ⟨offset, hoffset⟩ := exists_sets_iff.mpr hoffset
    exact ⟨⟨first, second, offset⟩, ⟨value, hvalue, hfirst⟩, ⟨value', hvalue', hsecond⟩, hoffset⟩

theorem exists_forall₂_iff {α β : Type} {R : α → β → Prop} {items : List α} :
    (∃ results, List.Forall₂ R items results) ↔ ∀ item ∈ items, ∃ result, R item result := by
  induction items with
  | nil => simp
  | cons item items ih =>
    rw [List.forall_mem_cons, ← ih]
    constructor
    · rintro ⟨_, hresults⟩
      obtain ⟨result, results, hresult, hrest, rfl⟩ := List.forall₂_cons_left_iff.mp hresults
      exact ⟨⟨result, hresult⟩, results, hrest⟩
    · rintro ⟨⟨result, hresult⟩, results, hrest⟩
      exact ⟨result :: results, .cons hresult hrest⟩

theorem exists_describes_iff : (∃ configuration, Describes document configuration) ↔
    Admissible document := by
  constructor
  · rintro ⟨configuration, h⟩
    exact ⟨fun setting hsetting ↦ exists_sets_iff.mp ⟨_, h.settings setting hsetting⟩, h.jobList,
      fun entries hentries ↦ exists_describesJob_iff.mp
        (exists_forall₂_iff.mp ⟨_, h.jobs⟩ entries hentries)⟩
  · intro h
    have hgiven : ∀ setting ∈ settings, ∃ given, Sets setting.reads
        (sectionOf document setting.sectionName) setting.key setting.standard given :=
      fun setting hsetting ↦ exists_sets_iff.mpr (h.settings setting hsetting)
    obtain ⟨jobs, hjobs⟩ := exists_forall₂_iff.mpr fun entries hentries ↦
      exists_describesJob_iff.mpr (h.jobs entries hentries)
    simp only [settings, List.forall_mem_cons, List.not_mem_nil, false_imp_iff, implies_true,
      and_true] at hgiven
    obtain ⟨⟨name, hname⟩, ⟨directory, hdirectory⟩, ⟨format, hformat⟩, ⟨append, happend⟩,
      ⟨buffer, hbuffer⟩, ⟨width, hwidth⟩, ⟨depth, hdepth⟩, ⟨banks, hbanks⟩, ⟨element, helement⟩,
      ⟨bits, hbits⟩, ⟨stages, hstages⟩, ⟨memory, hmemory⟩, ⟨banks', hbanks'⟩⟩ := hgiven
    refine ⟨⟨name, ⟨directory, format, append⟩, ⟨buffer, width, depth, banks⟩,
      ⟨element, bits, stages, memory, banks'⟩, jobs⟩, ?_, h.jobList, hjobs⟩
    simp only [settings, List.forall_mem_cons, List.not_mem_nil, false_imp_iff, implies_true,
      and_true]
    exact ⟨hname, hdirectory, hformat, happend, hbuffer, hwidth, hdepth, hbanks, helement, hbits,
      hstages, hmemory, hbanks'⟩

end

end CountTree.Configuration
