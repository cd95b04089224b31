import CountTree.Proofs.Settings
import Mathlib.Logic.Relation

/-!
Changes to a document that make no difference to its configuration. An `Edit` puts keys into another
order, puts a value under a key that is not recognised, or adds a section without entries; chains of
edits, each made or taken back, relate documents by `Relation.EqvGen Edit`. Of a document the reader
sees only whether its sections and jobs are tables and which recognised values they hold
(`SameSettings`). An edit leaves that alone (`Edit.sameSettings`), and so documents that edits lead
to describe the same configuration (`describes_iff_of_eqvGen`). `parse_settings` is the main
statement.
-/

set_option autoImplicit false
set_option relaxedAutoImplicit false

namespace CountTree

/-! ### Values up to the order of keys -/

namespace Toml.Value

/-- Two values that differ at most in the order in which the keys of their tables stand. -/
inductive Alike : Value → Value → Prop
  | text (content : String) : Alike (.text content) (.text content)
  | integer (n : Int) : Alike (.integer n) (.integer n)
  | float (x : Double) : Alike (.float x) (.float x)
  | boolean (b : Bool) : Alike (.boolean b) (.boolean b)
  | datetime (date : Option Date) : Alike (.datetime date) (.datetime date)
  | array {items items' : List Value} (h : List.Forall₂ Alike items items') :
      Alike (.array items) (.array items')
  | table {entries entries' : Entries} (hkeys : (Keyed.keys entries).Perm (Keyed.keys entries'))
      (h : ∀ key, Option.Rel Alike (entries.get? key) (entries'.get? key)) :
      Alike (.table entries) (.table entries')
  | arrayOfTables {items items' : List Value} (h : List.Forall₂ Alike items items') :
      Alike (.arrayOfTables items) (.arrayOfTables items')

namespace Alike

theorem refl : (value : Value) → Alike value value
  | .text content => .text content
  | .integer n => .integer n
  | .float x => .float x
  | .boolean b => .boolean b
  | .datetime date => .datetime date
  | .array items => .array (List.forall₂_same.mpr fun item hitem ↦
      have : sizeOf item < sizeOf items := List.sizeOf_lt_of_mem hitem
      refl item)
  | .table entries => .table (.refl _) fun key ↦ by
      rcases hget : Keyed.get? entries key with _ | value
      · exact .none
      · have : sizeOf value < sizeOf entries := Keyed.sizeOf_lt_of_get? hget
        exact .some (refl value)
  | .arrayOfTables items => .arrayOfTables (List.forall₂_same.mpr fun item hitem ↦
      have : sizeOf item < sizeOf items := List.sizeOf_lt_of_mem hitem
      refl item)

theorem exists_iff {value? value?' : Option Value} (h : Option.Rel Alike value? value?')
    {P : Value → Prop} (hP : ∀ value value', Alike value value' → (P value ↔ P value')) :
    (∃ value, value? = some value ∧ P value) ↔ ∃ value, value?' = some value ∧ P value := by
  cases h with
  | some h => simp [hP _ _ h]
  | none => rfl

theorem rel_refl (value? : Option Value) : Option.Rel Alike value? value? := by
  cases value? with
  | none => exact .none
  | some value => exact .some (refl value)

/-- Entries under different keys may stand in any order. -/
theorem of_perm {entries entries' : Entries} (hkeys : (Keyed.keys entries).Nodup)
    (h : entries.Perm entries') : Alike (.table entries) (.table entries') :=
  .table (h.map _) fun key ↦ by
    rw [Keyed.get?_eq_of_perm hkeys h]
    exact rel_refl _

end Alike

end Toml.Value

namespace Configuration

open Toml (Value Entries)

section

variable {value value' : Value}

theorem isText_iff_of_alike (h : value.Alike value') {content : String} :
    IsText value content ↔ IsText value' content := by
  cases h <;> simp [IsText]

theorem isBoolean_iff_of_alike (h : value.Alike value') {b : Bool} :
    IsBoolean value b ↔ IsBoolean value' b := by
  cases h <;> simp [IsBoolean]

theorem isNumber_iff_of_alike (h : value.Alike value') {bound : Int} {n : Nat} :
    IsNumber bound value n ↔ IsNumber bound value' n := by
  cases h <;> simp [IsNumber]

theorem isSigned_iff_of_alike (h : value.Alike value') {n : Int} :
    IsSigned value n ↔ IsSigned value' n := by
  cases h <;> simp [IsSigned]

theorem eq_table_nil_iff_of_alike (h : value.Alike value') :
    value = .table [] ↔ value' = .table [] := by
  cases h with
  | table hkeys _ =>
    have hlength := hkeys.length_eq
    simp only [Keyed.keys, List.length_map] at hlength
    simp only [Value.table.injEq, ← List.length_eq_zero_iff, hlength]
  | _ => simp

theorem isFormat_iff_of_alike (h : value.Alike value') {format : Format} :
    IsFormat value format ↔ IsFormat value' format := by
  cases h with
  | @table entries entries' hkeys h =>
    have hnames : Keyed.keys entries = [format.extension] ↔
        Keyed.keys entries' = [format.extension] := by
      rw [← List.perm_singleton, ← List.perm_singleton]
      exact ⟨hkeys.symm.trans, hkeys.trans⟩
    have hinner : entries.get? format.extension = some (.table []) ↔
        entries'.get? format.extension = some (.table []) := by
      simpa using Value.Alike.exists_iff (h format.extension) fun _ _ ↦ eq_table_nil_iff_of_alike
    simp only [IsFormat, reduceCtorEq, false_or, Value.table.injEq, Keyed.eq_singleton_iff, hnames,
      hinner]
  | _ => simp [IsFormat]

theorem reads_iff_of_alike {setting : Setting} (hsetting : setting ∈ settings)
    (h : value.Alike value') (given : setting.Content) :
    setting.reads value given ↔ setting.reads value' given := by
  revert setting
  simp only [settings, List.forall_mem_cons, List.not_mem_nil, false_imp_iff, implies_true,
    isText_iff_of_alike h, isFormat_iff_of_alike h, isBoolean_iff_of_alike h,
    isNumber_iff_of_alike h, and_self]

theorem isTable_iff_of_alike (h : value.Alike value') : IsTable value ↔ IsTable value' := by
  cases h <;> simp [IsTable]

end

/-! ### Tables with the same recognised values -/

/-- Under each of the keys, both tables have no value or values that are alike. -/
def Agree (keys : List String) (entries entries' : Entries) : Prop :=
  ∀ key ∈ keys, Option.Rel Value.Alike (entries.get? key) (entries'.get? key)

section

variable {keys : List String} {entries entries' : Entries} {key : String}

theorem Agree.refl (keys : List String) (entries : Entries) : Agree keys entries entries :=
  fun _ _ ↦ Value.Alike.rel_refl _

theorem Agree.insert (value : Value) (hkey : key ∉ keys) :
    Agree keys entries (entries.insert key value) := by
  intro other hother
  rw [Keyed.get?_insert_of_ne value entries (ne_of_mem_of_not_mem hother hkey)]
  exact Value.Alike.rel_refl _

theorem agree_of_alike {value value' : Value} (h : value.Alike value') :
    Agree keys (entriesOf value) (entriesOf value') := by
  cases h with
  | table _ h => exact fun key _ ↦ h key
  | _ => exact Agree.refl keys []

theorem Agree.sets_iff {β : Type} {reads : Value → β → Prop} {standard given : β}
    (h : Agree keys entries entries') (hkey : key ∈ keys)
    (hreads : ∀ value value', value.Alike value' → (reads value given ↔ reads value' given)) :
    Sets reads entries key standard given ↔ Sets reads entries' key standard given := by
  have hget := h key hkey
  rw [Sets, Sets]
  generalize entries.get? key = found, entries'.get? key = found' at hget ⊢
  cases hget with
  | some hvalue => exact hreads _ _ hvalue
  | none => rfl

end

/-! ### Documents with the same recognised values -/

/-- The keys that are recognised in a section. -/
def recognised (name : String) : List String :=
  (settings.filter (·.sectionName = name)).map (·.key)

def jobKeys : List String := ["op0_addr", "op1_addr", "offset"]

theorem key_mem_recognised {setting : Setting} (h : setting ∈ settings) :
    setting.key ∈ recognised setting.sectionName :=
  List.mem_map_of_mem (List.mem_filter.mpr ⟨h, decide_eq_true rfl⟩)

theorem sectionName_mem {setting : Setting} (h : setting ∈ settings) :
    setting.sectionName ∈ sectionNames := by
  revert setting
  simp [settings, sectionNames]

/-- What stands under the name of a section, if anything does, is a table in both or in neither, and
the recognised values are alike. -/
structure SameSection (name : String) (value? value?' : Option Value) : Prop where
  table : (∀ value, value? = some value → IsTable value) ↔
    ∀ value, value?' = some value → IsTable value
  agree : Agree (recognised name) ((value?.map entriesOf).getD []) ((value?'.map entriesOf).getD [])

structure SameJob (item item' : Value) : Prop where
  table : IsTable item ↔ IsTable item'
  agree : Agree jobKeys (entriesOf item) (entriesOf item')

/-- The same of the lists of jobs. -/
structure SameJobs (value? value?' : Option Value) : Prop where
  list : (∀ value, value? = some value → (items? value).isSome) ↔
    ∀ value, value?' = some value → (items? value).isSome
  items : List.Forall₂ SameJob ((value?.bind items?).getD []) ((value?'.bind items?).getD [])

structure SameSettings (document document' : Entries) : Prop where
  sections : ∀ name ∈ sectionNames, SameSection name (document.get? name) (document'.get? name)
  jobs : SameJobs (document.get? "jobs") (document'.get? "jobs")

section

variable {value? value?' : Option Value} {item item' : Value}

theorem SameSection.refl (name : String) (value? : Option Value) : SameSection name value? value? :=
  ⟨Iff.rfl, Agree.refl _ _⟩

theorem SameSection.of_rel (name : String) (h : Option.Rel Value.Alike value? value?') :
    SameSection name value? value?' := by
  cases h with
  | some h => exact ⟨by simp [isTable_iff_of_alike h], agree_of_alike h⟩
  | none => exact .refl name none

theorem SameJob.of_alike (h : item.Alike item') : SameJob item item' :=
  ⟨isTable_iff_of_alike h, agree_of_alike h⟩

theorem SameJob.refl (item : Value) : SameJob item item := of_alike (.refl item)

theorem SameJobs.of_rel (h : Option.Rel Value.Alike value? value?') :
    SameJobs value? value?' := by
  cases h with
  | some h =>
    cases h with
    | array h | arrayOfTables h => exact ⟨by simp [items?], h.imp fun _ _ ↦ SameJob.of_alike⟩
    | _ => exact ⟨by simp [items?], .nil⟩
  | none => exact ⟨Iff.rfl, .nil⟩

theorem SameJobs.refl (value? : Option Value) : SameJobs value? value? :=
  .of_rel (Value.Alike.rel_refl value?)

theorem SameJob.tables_iff {items items' : List Value} (h : List.Forall₂ SameJob items items') :
    (∀ item ∈ items, IsTable item) ↔ ∀ item ∈ items', IsTable item := by
  induction h with
  | nil => rfl
  | cons hitem _ ih => rw [List.forall_mem_cons, List.forall_mem_cons, hitem.table, ih]

theorem Agree.describesJob_iff {entries entries' : Entries} (h : Agree jobKeys entries entries')
    {job : Job} : DescribesJob entries job ↔ DescribesJob entries' job := by
  have haddress {key : String} (hkey : key ∈ jobKeys) (address : Nat) :
      (∃ value, entries.get? key = some value ∧ IsNumber Signed.greatest value address) ↔
        ∃ value, entries'.get? key = some value ∧ IsNumber Signed.greatest value address :=
    Value.Alike.exists_iff (h key hkey) fun _ _ halike ↦ isNumber_iff_of_alike halike
  rw [Configuration.describesJob_iff, Configuration.describesJob_iff, haddress (by decide),
    haddress (by decide),
    h.sets_iff (by decide) fun _ _ halike ↦ isSigned_iff_of_alike halike]

theorem SameJob.forall₂_describesJob_iff {items items' : List Value} {jobs : List Job}
    (h : List.Forall₂ SameJob items items') :
    List.Forall₂ DescribesJob (items.map entriesOf) jobs ↔
      List.Forall₂ DescribesJob (items'.map entriesOf) jobs := by
  induction h generalizing jobs with
  | nil => rfl
  | cons hitem _ ih =>
    simp only [List.map_cons, List.forall₂_cons_left_iff, hitem.agree.describesJob_iff, ih]

end

namespace SameSettings

variable {document document' : Entries}

theorem tabular_iff (h : SameSettings document document') :
    Tabular document ↔ Tabular document' := by
  rw [Configuration.tabular_iff, Configuration.tabular_iff]
  exact and_congr (forall₂_congr fun name hname ↦ (h.sections name hname).table)
    (SameJob.tables_iff h.jobs.items)

theorem describes_iff (h : SameSettings document document') (configuration : Configuration) :
    Describes document configuration ↔ Describes document' configuration := by
  rw [Configuration.describes_iff, Configuration.describes_iff]
  refine and_congr (forall₂_congr fun setting hsetting ↦ ?_)
    (and_congr h.jobs.list (SameJob.forall₂_describesJob_iff h.jobs.items))
  exact (h.sections _ (sectionName_mem hsetting)).agree.sets_iff (key_mem_recognised hsetting)
    fun _ _ halike ↦ reads_iff_of_alike hsetting halike _

theorem insert_unrecognised {key : String} (value : Value)
    (hkey : key ∉ sectionNames) (hjobs : key ≠ "jobs") :
    SameSettings document (document.insert key value) where
  sections name hname := by
    rw [Keyed.get?_insert_of_ne value document (ne_of_mem_of_not_mem hname hkey)]
    exact .refl _ _
  jobs := by
    rw [Keyed.get?_insert_of_ne value document (Ne.symm hjobs)]
    exact .refl _

theorem insert_section {name : String} {value : Value} (hname : name ∈ sectionNames)
    (h : SameSection name (document.get? name) (some value)) :
    SameSettings document (document.insert name value) where
  sections other hother := by
    by_cases heq : other = name
    · subst heq
      rwa [Keyed.get?_insert_self]
    · rw [Keyed.get?_insert_of_ne value document heq]
      exact .refl _ _
  jobs := by
    have hjobs : "jobs" ≠ name := by
      rintro rfl
      exact absurd hname (by decide)
    rw [Keyed.get?_insert_of_ne value document hjobs]
    exact .refl _

theorem insert_jobs {value : Value} (h : SameJobs (document.get? "jobs") (some value)) :
    SameSettings document (document.insert "jobs" value) where
  sections name hname := by
    have hjobs : name ≠ "jobs" := by
      rintro rfl
      exact absurd hname (by decide)
    rw [Keyed.get?_insert_of_ne value document hjobs]
    exact .refl _ _
  jobs := by rwa [Keyed.get?_insert_self]

end SameSettings

/-! ### Edits -/

/-- A change to a document that touches no recognised value. -/
inductive Edit : Entries → Entries → Prop
  /-- The keys of the document or of any table in it are put into another order. -/
  | reorder {document document' : Entries}
      (h : Value.Alike (.table document) (.table document')) : Edit document document'
  | unrecognised {document : Entries} {key : String} (value : Value)
      (hkey : key ∉ sectionNames) (hjobs : key ≠ "jobs") :
      Edit document (document.insert key value)
  | inSection {document entries : Entries} {name key : String} (value : Value)
      (hname : name ∈ sectionNames) (hget : document.get? name = some (.table entries))
      (hkey : key ∉ recognised name) :
      Edit document (document.insert name (.table (entries.insert key value)))
  | inJob {document entries : Entries} {write : List Value → Value} {before after : List Value}
      {key : String} (value : Value) (hwrite : write = .array ∨ write = .arrayOfTables)
      (hget : document.get? "jobs" = some (write (before ++ .table entries :: after)))
      (hkey : key ∉ jobKeys) :
      Edit document
        (document.insert "jobs" (write (before ++ .table (entries.insert key value) :: after)))
  | emptySection {document : Entries} {name : String} (hname : name ∈ sectionNames)
      (hget : document.get? name = none) : Edit document (document.insert name (.table []))
  | noJobs {document : Entries} (hget : document.get? "jobs" = none) :
      Edit document (document.insert "jobs" (.array []))

variable {document document' : Entries}

theorem Edit.sameSettings (h : Edit document document') : SameSettings document document' := by
  cases h with
  | reorder h =>
    cases h with
    | table _ h => exact ⟨fun name _ ↦ .of_rel name (h name), .of_rel (h "jobs")⟩
  | unrecognised value hkey hjobs => exact .insert_unrecognised value hkey hjobs
  | inSection value hname hget hkey =>
    refine .insert_section hname ?_
    rw [hget]
    exact ⟨by simp [IsTable], Agree.insert value hkey⟩
  | @inJob entries write before after key value hwrite hget hkey =>
    have hitems : ∀ items, items? (write items) = some items := by
      rcases hwrite with rfl | rfl <;> exact fun _ ↦ rfl
    have hjob : SameJob (.table entries) (.table (entries.insert key value)) :=
      ⟨by simp [IsTable], Agree.insert value hkey⟩
    -- the jobs before and after the one that is edited stay as they are
    have hrefl (items : List Value) : List.Forall₂ SameJob items items :=
      List.forall₂_same.mpr fun item _ ↦ .refl item
    refine .insert_jobs ?_
    rw [hget]
    refine ⟨by simp [hitems], ?_⟩
    simp only [Option.bind_some, hitems, Option.getD_some]
    exact List.rel_append (hrefl before) (.cons hjob (hrefl after))
  | emptySection hname hget =>
    refine .insert_section hname ?_
    rw [hget]
    exact ⟨by simp [IsTable], Agree.refl _ []⟩
  | noJobs hget =>
    refine .insert_jobs ?_
    rw [hget]
    exact ⟨by simp [items?], .nil⟩

/-- Edits and edits taken back, any number of them, leave the described configuration alone. -/
theorem describes_iff_of_eqvGen (h : Relation.EqvGen Edit document document') :
    (Tabular document ↔ Tabular document') ∧
      ∀ configuration, Describes document configuration ↔ Describes document' configuration := by
  induction h with
  | rel _ _ h => exact ⟨h.sameSettings.tabular_iff, h.sameSettings.describes_iff⟩
  | refl => exact ⟨Iff.rfl, fun _ ↦ Iff.rfl⟩
  | symm _ _ _ ih => exact ⟨ih.1.symm, fun configuration ↦ (ih.2 configuration).symm⟩
  | trans _ _ _ _ _ ih ih' =>
    exact ⟨ih.1.trans ih'.1, fun configuration ↦ (ih.2 configuration).trans (ih'.2 configuration)⟩

/-- A document with sections and jobs that are tables is accepted if and only if all of its
recognised values fit, it is read as the configuration that it describes, and a document that edits
lead to is read no differently. -/
theorem parse_settings {text : String} (hparse : Toml.parse text = some document)
    (htables : Tabular document) :
    ((∃ configuration, parse text = .ok configuration) ↔ Admissible document) ∧
      (∀ configuration, parse text = .ok configuration ↔ Describes document configuration) ∧
      ∀ text' document', Toml.parse text' = some document' →
        Relation.EqvGen Edit document document' →
          ∀ configuration, parse text' = .ok configuration ↔ parse text = .ok configuration := by
  have hdescribes (configuration : Configuration) :
      parse text = .ok configuration ↔ Describes document configuration :=
    parse_eq_ok_iff hparse htables
  refine ⟨?_, hdescribes, fun text' document' hparse' hedits configuration ↦ ?_⟩
  · rw [← exists_describes_iff]
    exact exists_congr hdescribes
  · obtain ⟨htabular, hsame⟩ := describes_iff_of_eqvGen hedits
    rw [parse_eq_ok_iff hparse' (htabular.mp htables), hdescribes, hsame]

/-- An unknown key, an empty section and another order of the tables. -/
theorem parse_settings_sample :
    let text := "[pe]\nmem_depth = 7\n[[jobs]]\nop0_addr = 1\nop1_addr = 2\n"
    let text' := "[[jobs]]\nop0_addr = 1\nop1_addr = 2\n[pe]\nmem_depth = 7\nvoltage = 3\n" ++
      "[output]\n"
    let configuration : Configuration := { element := { depth := 7 }, jobs := [⟨1, 2, 0⟩] }
    parse text = .ok configuration ∧ parse text' = .ok configuration := by
  intro text text' configuration
  let element : Entries := [("mem_depth", .integer 7)]
  let job : Entries := [("op0_addr", .integer 1), ("op1_addr", .integer 2)]
  let document : Entries := [("pe", .table element), ("jobs", .arrayOfTables [.table job])]
  let document' : Entries := [("jobs", .arrayOfTables [.table job]),
    ("pe", .table (element ++ [("voltage", .integer 3)])), ("output", .table [])]
  have hparse : Toml.parse text = some document := by
    simp only [text, Toml.parse, String.reduceToList]
    rfl
  have hparse' : Toml.parse text' = some document' := by
    simp only [text', Toml.parse, String.reduceAppend, String.reduceToList]
    rfl
  have htables : Tabular document := ⟨by simp [sectionNames, document, Keyed.get?, IsTable],
    by simp [document, jobItems, Keyed.get?, items?, IsTable]⟩
  have hdescribes : Describes document configuration := by
    refine ⟨?_, by simp [document, Keyed.get?, items?], .cons ⟨?_, ?_, ?_⟩ .nil⟩
    · simp [settings, Sets, sectionOf, document, element, Keyed.get?, entriesOf, IsNumber,
        configuration, Signed.greatest]
    · exact ⟨_, rfl, rfl, by decide⟩
    · exact ⟨_, rfl, rfl, by decide⟩
    · rfl
  have hname : "pe" ∈ sectionNames := by decide
  have hkey : "voltage" ∉ recognised "pe" := by decide
  let added := document.insert "pe" (.table (element.insert "voltage" (.integer 3)))
  let widened := added.insert "output" (.table [])
  have hvoltage : Edit document added := .inSection (.integer 3) hname rfl hkey
  have hsection : Edit added widened := .emptySection (by decide) rfl
  have horder : Edit widened document' := .reorder (.of_perm (by decide) (.swap _ _ _))
  have hedits : Relation.EqvGen Edit document document' :=
    .trans _ _ _ (.rel _ _ hvoltage) (.trans _ _ _ (.rel _ _ hsection) (.rel _ _ horder))
  obtain ⟨-, hread, hsame⟩ := parse_settings hparse htables
  have htext : parse text = .ok configuration := (hread _).mpr hdescribes
  exact ⟨htext, (hsame _ _ hparse' hedits _).mpr htext⟩

end Configuration

end CountTree
