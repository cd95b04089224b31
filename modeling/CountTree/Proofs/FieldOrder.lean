import CountTree.Config.Reader
import CountTree.Proofs.Entries
import CountTree.Proofs.Steps

/-!
Records that are read from the entries of a table. The entries are read as the document gives them,
and an entry that belongs to no field is passed over. As long as no key comes twice and the fields
keep out of each other's way (`Field.Commutes`), that comes to the same as asking for each field in
turn, by its key (`readEntries_eq_ok_iff`): neither the order of the entries nor the entries under
other keys make a difference.
-/

set_option autoImplicit false
set_option relaxedAutoImplicit false

namespace CountTree.Configuration

open Toml (Value Entries)

variable {α β γ : Type} {fields : List (Field α)} {entries : Entries} {record record' : α}

/-! ### One field at a time -/

/-- Reading a value into one field and another into the other comes out the same either way. -/
def Field.Commutes (first second : Field α) : Prop :=
  ∀ value value' record record',
    (first.read value record >>= second.read value') = .ok record' ↔
      (second.read value' record >>= first.read value) = .ok record'

theorem commutes_field {key key' : String} {decode : Decode β} {decode' : Decode γ}
    {put : β → α → α} {put' : γ → α → α}
    (h : ∀ given given' record, put' given' (put given record) = put given (put' given' record)) :
    (field key decode put).Commutes (field key' decode' put') := by
  intro value value' record record'
  rcases hvalue : decode value with cause | given
  · rcases hvalue' : decode' value' with cause' | given' <;>
      simp [field, hvalue, hvalue', bind_eq_ok_iff, Except.map]
  · rcases hvalue' : decode' value' with cause' | given' <;>
      simp [field, hvalue, hvalue', bind_eq_ok_iff, Except.map, h]

/-- Asks for a field by its key. -/
def readField (entries : Entries) (record : α) (field : Field α) : Except Misfit α :=
  match entries.get? field.key with
  | some value => field.read value record
  | none => .ok record

/-- Asks for the fields in turn. -/
def readFields (fields : List (Field α)) (entries : Entries) (record : α) : Except Misfit α :=
  fields.foldlM (readField entries) record

theorem readField_cons_self {field : Field α} {value : Value} :
    readField ((field.key, value) :: entries) record field = field.read value record := by
  simp [readField, Keyed.get?]

theorem readField_cons_of_ne {field : Field α} {entry : String × Value} (h : entry.1 ≠ field.key) :
    readField (entry :: entries) record field = readField entries record field := by
  simp [readField, Keyed.get?, h]

theorem readEntry_cons_self {field : Field α} {value : Value} :
    readEntry (field :: fields) record (field.key, value) = field.read value record := by
  rw [readEntry, List.find?_cons_of_pos (by simp)]

theorem readEntry_of_notMem {entry : String × Value} (h : entry.1 ∉ fields.map (·.key)) :
    readEntry fields record entry = .ok record := by
  have hfind : fields.find? (·.key = entry.1) = none :=
    List.find?_eq_none.mpr fun field hfield heq ↦
      h (List.mem_map.mpr ⟨field, hfield, of_decide_eq_true heq⟩)
  rw [readEntry, hfind]

theorem readEntry_cons_of_ne {field : Field α} {entry : String × Value} (h : entry.1 ≠ field.key) :
    readEntry (field :: fields) record entry = readEntry fields record entry := by
  rw [readEntry, readEntry, List.find?_cons_of_neg (by simpa using Ne.symm h)]

/-- An entry of another field and the asked field may change places. -/
theorem readEntry_readField {field : Field α} (hcommutes : ∀ other ∈ fields, field.Commutes other)
    (entry : String × Value) :
    (∃ middle, readEntry fields record entry = .ok middle ∧
        readField entries middle field = .ok record') ↔
      ∃ middle, readField entries record field = .ok middle ∧
        readEntry fields middle entry = .ok record' := by
  unfold readField readEntry
  rcases entries.get? field.key with _ | value
  · simp
  · generalize hfind : List.find? _ fields = found
    rcases found with _ | other
    · simp
    · have h := hcommutes other (List.mem_of_find?_eq_some hfind) value entry.2 record record'
      simpa only [bind_eq_ok_iff] using h.symm

/-- The first field may be asked for before the entries are read for the others. -/
theorem readEntries_cons_eq_ok_iff {field : Field α}
    (hcommutes : ∀ other ∈ fields, field.Commutes other) (hkey : field.key ∉ fields.map (·.key))
    (hentries : (Keyed.keys entries).Nodup) :
    readEntries (field :: fields) entries record = .ok record' ↔
      ∃ middle, readField entries record field = .ok middle ∧
        readEntries fields entries middle = .ok record' := by
  induction entries generalizing record with
  | nil => simp [readEntries, readField, Keyed.get?, pure, Except.pure]
  | cons entry entries ih =>
    obtain ⟨hnew, hrest⟩ := List.nodup_cons.mp hentries
    simp only [readEntries, List.foldlM_cons, bind_eq_ok_iff] at ih ⊢
    by_cases heq : entry.1 = field.key
    · obtain ⟨key, value⟩ := entry
      obtain rfl : key = field.key := heq
      have hfield : ∀ middle, readField entries middle field = .ok middle := fun middle ↦ by
        rw [readField, Keyed.get?_eq_none_iff.mpr hnew]
      have hskip : ∀ middle, readEntry fields middle (field.key, value) = .ok middle :=
        fun middle ↦ readEntry_of_notMem hkey
      simp only [readField_cons_self, readEntry_cons_self, hskip, ih hrest, hfield,
        Except.ok.injEq, exists_eq_left']
    · simp only [readField_cons_of_ne heq, readEntry_cons_of_ne heq, ih hrest]
      constructor
      · rintro ⟨first, hfirst, second, hsecond, hlast⟩
        obtain ⟨middle, hmiddle, hentry⟩ := (readEntry_readField hcommutes entry).mp
          ⟨first, hfirst, hsecond⟩
        exact ⟨middle, hmiddle, second, hentry, hlast⟩
      · rintro ⟨first, hfirst, second, hsecond, hlast⟩
        obtain ⟨middle, hmiddle, hfield⟩ := (readEntry_readField hcommutes entry).mpr
          ⟨first, hfirst, hsecond⟩
        exact ⟨middle, hmiddle, second, hfield, hlast⟩

/-- Reading the entries as they come is asking for the fields in turn. -/
theorem readEntries_eq_ok_iff (hcommutes : fields.Pairwise Field.Commutes)
    (hkeys : (fields.map (·.key)).Nodup) (hentries : (Keyed.keys entries).Nodup) :
    readEntries fields entries record = .ok record' ↔
      readFields fields entries record = .ok record' := by
  induction fields generalizing record with
  | nil =>
    have hnone : ∀ entries : Entries, readEntries [] entries record = .ok record := fun entries ↦ by
      induction entries with
      | nil => rfl
      | cons entry entries ih => exact ih
    rw [hnone]
    rfl
  | cons field fields ih =>
    obtain ⟨hfirst, hrest⟩ := List.pairwise_cons.mp hcommutes
    obtain ⟨hnew, hothers⟩ := List.nodup_cons.mp hkeys
    rw [readEntries_cons_eq_ok_iff hfirst hnew hentries, readFields, List.foldlM_cons,
      bind_eq_ok_iff]
    exact exists_congr fun middle ↦ and_congr_right fun _ ↦ ih hrest hothers

end CountTree.Configuration
