import CountTree.Proofs.Entries
import CountTree.Toml.Parser

/-!
What every TOML document is like. A table that has been read has no key twice, since a key is only
added where it does not stand yet, and an integer that has been read is a signed word. Both are
kept by each way in which a document grows while it is read: by dotted keys (`Entries.Sound.within`,
`Nodes.Sound.within`), by headers of tables and by elements of arrays of tables
(`Nodes.Sound.addBlock`). `parse_sound` is the main statement.
-/

set_option autoImplicit false
set_option relaxedAutoImplicit false

namespace CountTree

/-! ### Entries under different keys -/

namespace Keyed

variable {α : Type} {P : α → Prop} {entries entries' : Keyed α} {key : String} {value : α}

/-- No key comes twice, and every value has the property. -/
structure Tidy (P : α → Prop) (entries : Keyed α) : Prop where
  nodup : (keys entries).Nodup
  holds : ∀ entry ∈ entries, P entry.2

theorem Tidy.nil : Tidy P [] := ⟨List.nodup_nil, by simp⟩

theorem Tidy.get? (h : Tidy P entries) (hget : entries.get? key = some value) : P value :=
  h.holds _ ((get?_eq_some_iff h.nodup).mp hget)

theorem Tidy.append (h : Tidy P entries) (hkey : key ∉ keys entries) (hvalue : P value) :
    Tidy P (entries ++ [(key, value)]) where
  nodup := by
    rw [keys_append]
    exact h.nodup.append (List.nodup_singleton _) (List.disjoint_singleton.mpr hkey)
  holds entry hentry := by
    rcases List.mem_append.mp hentry with hentry | hentry
    · exact h.holds entry hentry
    · rwa [List.mem_singleton.mp hentry]

theorem keys_insert_of_mem (value : α) (h : key ∈ keys entries) :
    keys (insert key value entries) = keys entries := by
  induction entries with
  | nil => cases h
  | cons entry entries ih =>
    by_cases hentry : entry.1 = key
    · rw [insert, if_pos hentry, keys, List.map_cons, keys, List.map_cons, hentry]
    · rw [insert, if_neg hentry, keys, List.map_cons, keys, List.map_cons]
      exact congrArg _ (ih ((List.mem_cons.mp h).resolve_left (Ne.symm hentry)))

theorem mem_insert {entry : String × α} (h : entry ∈ insert key value entries) :
    entry = (key, value) ∨ entry ∈ entries := by
  induction entries with
  | nil => exact .inl (List.mem_singleton.mp h)
  | cons first entries ih =>
    by_cases hfirst : first.1 = key
    · rw [insert, if_pos hfirst] at h
      exact (List.mem_cons.mp h).imp_right (List.mem_cons_of_mem _)
    · rw [insert, if_neg hfirst] at h
      rcases List.mem_cons.mp h with rfl | h
      · exact .inr List.mem_cons_self
      · exact (ih h).imp_right (List.mem_cons_of_mem _)

theorem Tidy.insert (h : Tidy P entries) (hvalue : P value) :
    Tidy P (insert key value entries) := by
  by_cases hkey : key ∈ keys entries
  · refine ⟨by rw [keys_insert_of_mem value hkey]; exact h.nodup, fun entry hentry ↦ ?_⟩
    rcases mem_insert hentry with rfl | hentry
    · exact hvalue
    · exact h.holds entry hentry
  · rw [insert_eq_append value hkey]
    exact h.append hkey hvalue

theorem Tidy.add? (h : Tidy P entries) (hvalue : P value)
    (hadd : entries.add? key value = some entries') : Tidy P entries' := by
  rw [Keyed.add?] at hadd
  split at hadd
  · rename_i hget
    obtain rfl := Option.some.inj hadd
    exact h.append (get?_eq_none_iff.mp hget) hvalue
  · cases hadd

theorem not_mem_keys_erase (key : String) (entries : Keyed α) :
    key ∉ keys (erase key entries) := by
  simp [keys, erase]

theorem Tidy.erase (h : Tidy P entries) (key : String) : Tidy P (erase key entries) where
  nodup := h.nodup.sublist (List.filter_sublist.map _)
  holds entry hentry := h.holds entry (List.mem_of_mem_filter hentry)

end Keyed

namespace Toml

/-! ### Sound values -/

/-- No table in the value has a key twice, and every integer in it is a signed word. -/
inductive Value.Sound : Value → Prop
  | text (content : String) : Sound (.text content)
  | integer {n : Int} (hleast : Signed.least ≤ n) (hgreatest : n ≤ Signed.greatest) :
      Sound (.integer n)
  | float (x : Double) : Sound (.float x)
  | boolean (b : Bool) : Sound (.boolean b)
  | datetime (date : Option Date) : Sound (.datetime date)
  | array {items : List Value} (h : ∀ item ∈ items, Sound item) : Sound (.array items)
  | table {entries : Entries} (hkeys : (Keyed.keys entries).Nodup)
      (h : ∀ entry ∈ entries, Sound entry.2) : Sound (.table entries)
  | arrayOfTables {items : List Value} (h : ∀ item ∈ items, Sound item) :
      Sound (.arrayOfTables items)

/-- A table with sound values. -/
abbrev Entries.Sound (entries : Entries) : Prop := Keyed.Tidy Value.Sound entries

theorem Value.Sound.entries {entries : Entries} (h : Value.Sound (.table entries)) :
    entries.Sound := by
  cases h with
  | table hkeys h => exact ⟨hkeys, h⟩

/-- A sound value under a key. -/
def SoundAssignment (assignment : List String × String × Value) : Prop :=
  assignment.2.2.Sound

/-- What every step keeps is kept by all steps together. -/
theorem foldlM_keeps {α β : Type} {f : β → α → Option β} {P : β → Prop} {items : List α}
    (hstep : ∀ state item state', item ∈ items → P state → f state item = some state' → P state')
    {first last : β} (hfirst : P first) (h : items.foldlM f first = some last) : P last := by
  induction items generalizing first with
  | nil =>
    obtain rfl := Option.some.inj h
    exact hfirst
  | cons item items ih =>
    rw [List.foldlM_cons] at h
    obtain ⟨next, hnext, hrest⟩ := Option.bind_eq_some_iff.mp h
    have hfirst' : P next := hstep first item next List.mem_cons_self hfirst hnext
    exact ih (fun state other state' hother ↦
      hstep state other state' (List.mem_cons_of_mem _ hother)) hfirst' hrest

namespace Entries.Sound

variable {entries entries' : Entries}

theorem within {change : Entries → Option Entries}
    (hchange : ∀ inner inner', Sound inner → change inner = some inner' → Sound inner')
    {path : List String} (h : Sound entries)
    (hwithin : entries.within change path = some entries') : Sound entries' := by
  induction path generalizing entries entries' with
  | nil => exact hchange entries entries' h hwithin
  | cons key path ih =>
    rw [Entries.within] at hwithin
    split at hwithin
    · obtain ⟨inner, hinner, rfl⟩ := Option.map_eq_some_iff.mp hwithin
      have hsound := ih .nil hinner
      exact h.insert (.table hsound.nodup hsound.holds)
    · rename_i old hget
      obtain ⟨inner, hinner, rfl⟩ := Option.map_eq_some_iff.mp hwithin
      have hsound := ih (h.get? hget).entries hinner
      exact h.insert (.table hsound.nodup hsound.holds)
    · cases hwithin

theorem assignAll {assignments : List (List String × String × Value)}
    (hassignments : ∀ assignment ∈ assignments, SoundAssignment assignment)
    (h : Entries.assignAll assignments = some entries) : Sound entries :=
  foldlM_keeps (fun _ assignment _ hmem hsound hassign ↦ hsound.within
    (fun _ _ hinner hadd ↦ hinner.add? (hassignments assignment hmem) hadd) hassign) .nil h

end Entries.Sound

/-! ### Tables while a document is being read -/

/-- The same of the parts of a document that is being read. -/
inductive Node.Sound : Node → Prop
  | value {content : Value} (h : content.Sound) : Sound (.value content)
  | table (origin : Origin) {entries : Nodes} (hkeys : (Keyed.keys entries).Nodup)
      (h : ∀ entry ∈ entries, Sound entry.2) : Sound (.table origin entries)
  | tables {elements : List Nodes} (hkeys : ∀ element ∈ elements, (Keyed.keys element).Nodup)
      (h : ∀ element ∈ elements, ∀ entry ∈ element, Sound entry.2) : Sound (.tables elements)

abbrev Nodes.Sound (nodes : Nodes) : Prop := Keyed.Tidy Node.Sound nodes

namespace Node.Sound

theorem entries {origin : Origin} {nodes : Nodes} (h : Node.Sound (.table origin nodes)) :
    nodes.Sound := by
  cases h with
  | table _ hkeys h => exact ⟨hkeys, h⟩

theorem elements {elements : List Nodes} (h : Node.Sound (.tables elements)) :
    ∀ element ∈ elements, element.Sound := by
  cases h with
  | tables hkeys h => exact fun element hmem ↦ ⟨hkeys element hmem, h element hmem⟩

theorem of_entries (origin : Origin) {nodes : Nodes} (h : nodes.Sound) :
    Node.Sound (.table origin nodes) :=
  .table origin h.nodup h.holds

theorem of_elements {elements : List Nodes} (h : ∀ element ∈ elements, element.Sound) :
    Node.Sound (.tables elements) :=
  .tables (fun element hmem ↦ (h element hmem).nodup) fun element hmem ↦ (h element hmem).holds

end Node.Sound

namespace Nodes.Sound

variable {nodes nodes' : Nodes} {assignments : List (List String × String × Value)}

theorem within {change : Bool → Nodes → Option Nodes}
    (hchange : ∀ isDotted inner inner', Sound inner → change isDotted inner = some inner' →
      Sound inner') {dottedKeys isDotted : Bool} {path : List String} (h : Sound nodes)
    (hwithin : nodes.within dottedKeys change path isDotted = some nodes') : Sound nodes' := by
  induction path generalizing isDotted nodes nodes' with
  | nil => exact hchange isDotted nodes nodes' h hwithin
  | cons key path ih =>
    rw [Nodes.within] at hwithin
    split at hwithin
    · rename_i hget
      obtain ⟨inner, hinner, rfl⟩ := Option.map_eq_some_iff.mp hwithin
      exact h.append (Keyed.get?_eq_none_iff.mp hget) (.of_entries _ (ih .nil hinner))
    · cases hwithin
    · rename_i elements hget
      split at hwithin
      · cases hwithin
      · rename_i last before hreverse
        obtain ⟨inner, hinner, rfl⟩ := Option.map_eq_some_iff.mp hwithin
        obtain rfl : elements = before.reverse ++ [last] := by
          rw [← List.reverse_reverse elements, hreverse, List.reverse_cons]
        have helements := (h.get? hget).elements
        have hinner : Sound inner := ih (helements last (by simp)) hinner
        refine h.insert (.of_elements fun element hmem ↦ ?_)
        rcases List.mem_append.mp hmem with hmem | hmem
        · exact helements element (List.mem_append_left _ hmem)
        · rwa [List.mem_singleton.mp hmem]
    · rename_i origin inner hget
      split at hwithin
      · cases hwithin
      · obtain ⟨inner', hinner', rfl⟩ := Option.map_eq_some_iff.mp hwithin
        exact h.insert (.of_entries _ (ih (h.get? hget).entries hinner'))

theorem assignAll (hassignments : ∀ assignment ∈ assignments, SoundAssignment assignment)
    (h : Sound nodes) (hassign : Nodes.assignAll assignments nodes = some nodes') :
    Sound nodes' := by
  refine foldlM_keeps (fun _ assignment _ hmem hsound hassign ↦ hsound.within ?_ hassign) h hassign
  intro isDotted inner inner' hinner hadd
  split at hadd
  · cases hadd
  · exact hinner.add? (.value (hassignments assignment hmem)) hadd

theorem stateTable {parents : List String} {key : String}
    (hassignments : ∀ assignment ∈ assignments, SoundAssignment assignment) (h : Sound nodes)
    (hstate : nodes.stateTable parents key assignments = some nodes') : Sound nodes' := by
  refine h.within (fun _ inner inner' hinner hchange ↦ ?_) hstate
  split at hchange
  · rename_i hget
    obtain ⟨entries, hentries, rfl⟩ := Option.map_eq_some_iff.mp hchange
    exact hinner.append (Keyed.get?_eq_none_iff.mp hget)
      (.of_entries _ (assignAll hassignments .nil hentries))
  · rename_i old hget
    obtain ⟨entries, hentries, rfl⟩ := Option.map_eq_some_iff.mp hchange
    exact (hinner.erase key).append (Keyed.not_mem_keys_erase key inner)
      (.of_entries _ (assignAll hassignments (hinner.get? hget).entries hentries))
  · cases hchange

theorem stateElement {parents : List String} {key : String}
    (hassignments : ∀ assignment ∈ assignments, SoundAssignment assignment) (h : Sound nodes)
    (hstate : nodes.stateElement parents key assignments = some nodes') : Sound nodes' := by
  refine h.within (fun _ inner inner' hinner hchange ↦ ?_) hstate
  split at hchange
  · rename_i hget
    obtain ⟨entries, hentries, rfl⟩ := Option.map_eq_some_iff.mp hchange
    have hentries : Sound entries := assignAll hassignments .nil hentries
    refine hinner.append (Keyed.get?_eq_none_iff.mp hget) (.of_elements fun element hmem ↦ ?_)
    rwa [List.mem_singleton.mp hmem]
  · rename_i elements hget
    obtain ⟨entries, hentries, rfl⟩ := Option.map_eq_some_iff.mp hchange
    have hentries : Sound entries := assignAll hassignments .nil hentries
    refine hinner.insert (.of_elements fun element hmem ↦ ?_)
    rcases List.mem_append.mp hmem with hmem | hmem
    · exact (hinner.get? hget).elements element hmem
    · rwa [List.mem_singleton.mp hmem]
  · cases hchange

theorem addBlock {block : Block}
    (hassignments : ∀ assignment ∈ block.assignments, SoundAssignment assignment)
    (h : Sound nodes) (hadd : Toml.addBlock nodes block = some nodes') : Sound nodes' := by
  rw [Toml.addBlock] at hadd
  split at hadd
  · exact h.stateElement hassignments hadd
  · exact h.stateTable hassignments hadd

end Nodes.Sound

namespace Nodes

theorem toEntries_eq_map (nodes : Nodes) :
    toEntries nodes = nodes.map fun entry ↦ (entry.1, nodeValue entry.2) := by
  induction nodes with
  | nil => rw [toEntries, List.map_nil]
  | cons entry nodes ih => rw [toEntries, nodeEntry, List.map_cons, ih]

theorem elementValues_eq_map (elements : List Nodes) :
    elementValues elements = elements.map fun element ↦ .table (toEntries element) := by
  induction elements with
  | nil => rw [elementValues, List.map_nil]
  | cons element elements ih => rw [elementValues, List.map_cons, ih]

theorem sound_toEntries {nodes : Nodes} (hkeys : (Keyed.keys nodes).Nodup)
    (h : ∀ entry ∈ nodes, (nodeValue entry.2).Sound) : (toEntries nodes).Sound := by
  rw [toEntries_eq_map]
  constructor
  · simpa [Keyed.keys, Function.comp_def] using hkeys
  · intro entry hentry
    obtain ⟨node, hnode, rfl⟩ := List.mem_map.mp hentry
    exact h node hnode

end Nodes

theorem Node.Sound.nodeValue {node : Node} (h : node.Sound) : (Nodes.nodeValue node).Sound := by
  induction h with
  | value h =>
    rw [Nodes.nodeValue]
    exact h
  | table origin hkeys h ih =>
    have hentries := Nodes.sound_toEntries hkeys ih
    rw [Nodes.nodeValue]
    exact .table hentries.nodup hentries.holds
  | tables hkeys h ih =>
    rw [Nodes.nodeValue, Nodes.elementValues_eq_map]
    refine .arrayOfTables fun item hitem ↦ ?_
    obtain ⟨element, helement, rfl⟩ := List.mem_map.mp hitem
    have hentries := Nodes.sound_toEntries (hkeys element helement) (ih element helement)
    exact .table hentries.nodup hentries.holds

theorem Nodes.Sound.toEntries {nodes : Nodes} (h : nodes.Sound) : nodes.toEntries.Sound :=
  Nodes.sound_toEntries h.nodup fun entry hentry ↦ (h.holds entry hentry).nodeValue

/-! ### Readers -/

/-- Whatever the reader reads has the property. -/
def Gives {α : Type} (P : α → Prop) (reader : Reader α) : Prop :=
  ∀ text read rest, reader text = some (read, rest) → P read

theorem gives_basedInteger (base : Nat) : Gives Value.Sound (basedInteger base) := by
  intro text read rest h
  obtain ⟨⟨digits, after⟩, -, hread⟩ := Option.bind_eq_some_iff.mp h
  simp only at hread
  split at hread
  · rename_i hgreatest
    obtain ⟨rfl, -⟩ := Prod.mk.inj (Option.some.inj hread)
    have hleast : Signed.least ≤ Int.ofNat (numberIn base digits) :=
      Int.le_trans (by decide : Signed.least ≤ 0) (Int.natCast_nonneg _)
    exact .integer hleast hgreatest
  · cases hread

theorem gives_decimal (negative : Bool) : Gives Value.Sound (decimal negative) := by
  intro text read rest h
  obtain ⟨⟨whole, afterWhole⟩, -, h⟩ := Option.bind_eq_some_iff.mp h
  obtain ⟨⟨fraction, afterFraction⟩, -, h⟩ := Option.bind_eq_some_iff.mp h
  obtain ⟨⟨exponent, after⟩, -, h⟩ := Option.bind_eq_some_iff.mp h
  simp only at h
  split at h
  · obtain ⟨hrange, h⟩ := Option.ite_none_right_eq_some.mp h
    obtain ⟨rfl, -⟩ := Prod.mk.inj (Option.some.inj h)
    exact .integer hrange.1 hrange.2
  · split at h
    · cases h
    · obtain ⟨rfl, -⟩ := Prod.mk.inj (Option.some.inj h)
      exact .float _

theorem gives_signed (negative : Bool) : Gives Value.Sound (signed negative) := by
  intro text read rest h
  unfold signed at h
  split at h
  · obtain ⟨rfl, -⟩ := Prod.mk.inj (Option.some.inj h)
    exact .float _
  · obtain ⟨rfl, -⟩ := Prod.mk.inj (Option.some.inj h)
    exact .float _
  · exact gives_decimal negative _ _ _ h

theorem gives_number : Gives Value.Sound number := by
  intro text read rest h
  unfold number at h
  split at h
  · exact gives_signed false _ _ _ h
  · exact gives_signed true _ _ _ h
  · exact gives_basedInteger 16 _ _ _ h
  · exact gives_basedInteger 8 _ _ _ h
  · exact gives_basedInteger 2 _ _ _ h
  · exact gives_signed false _ _ _ h

theorem gives_datetime : Gives Value.Sound datetime := by
  intro text read rest h
  suffices hdate : ∃ date, read = .datetime date by
    obtain ⟨date, rfl⟩ := hdate
    exact .datetime date
  unfold datetime at h
  split at h
  · obtain ⟨after, -, hread⟩ := Option.map_eq_some_iff.mp h
    exact ⟨none, (Prod.mk.inj hread).1.symm⟩
  · rename_i day afterDate hday
    suffices hsame : read = .datetime (some day) from ⟨_, hsame⟩
    split at h
    · split at h
      · split at h <;> exact (Prod.mk.inj (Option.some.inj h)).1.symm
      · exact (Prod.mk.inj (Option.some.inj h)).1.symm
    · exact (Prod.mk.inj (Option.some.inj h)).1.symm

theorem gives_scalar : Gives Value.Sound scalar := by
  intro text read rest h
  unfold scalar at h
  split at h
  · obtain ⟨rfl, -⟩ := Prod.mk.inj (Option.some.inj h)
    exact .boolean true
  · obtain ⟨rfl, -⟩ := Prod.mk.inj (Option.some.inj h)
    exact .boolean false
  · split at h
    · obtain ⟨⟨content, after⟩, -, hread⟩ := Option.map_eq_some_iff.mp h
      obtain ⟨rfl, -⟩ := Prod.mk.inj hread
      exact .text _
    · split at h
      · rename_i read hread
        obtain rfl := Option.some.inj h
        exact gives_datetime _ _ _ hread
      · exact gives_number _ _ _ h
  · cases h

variable {value : Reader Value}

theorem gives_arrayRest (hvalue : Gives Value.Sound value) (fuel : Nat) :
    Gives (fun items ↦ ∀ item ∈ items, Value.Sound item) (arrayRest value fuel) := by
  induction fuel with
  | zero =>
    intro text read rest h
    cases h
  | succ fuel ih =>
    intro text read rest h
    rw [arrayRest] at h
    obtain ⟨start, -, h⟩ := Option.bind_eq_some_iff.mp h
    split at h
    · obtain ⟨rfl, -⟩ := Prod.mk.inj (Option.some.inj h)
      simp
    · obtain ⟨⟨item, after⟩, hitem, h⟩ := Option.bind_eq_some_iff.mp h
      have hsound := hvalue _ _ _ hitem
      obtain ⟨after, -, h⟩ := Option.bind_eq_some_iff.mp h
      split at h
      · obtain ⟨rfl, -⟩ := Prod.mk.inj (Option.some.inj h)
        simpa using hsound
      · obtain ⟨⟨items, after⟩, hitems, h⟩ := Option.bind_eq_some_iff.mp h
        obtain ⟨rfl, -⟩ := Prod.mk.inj (Option.some.inj h)
        exact List.forall_mem_cons.mpr ⟨hsound, ih _ _ _ hitems⟩
      · cases h

theorem gives_assignment (hvalue : Gives Value.Sound value) :
    Gives SoundAssignment (assignment value) := by
  intro text read rest h
  obtain ⟨⟨⟨path, last⟩, after⟩, -, h⟩ := Option.bind_eq_some_iff.mp h
  obtain ⟨after, -, h⟩ := Option.bind_eq_some_iff.mp h
  obtain ⟨⟨content, after⟩, hcontent, h⟩ := Option.bind_eq_some_iff.mp h
  obtain ⟨rfl, -⟩ := Prod.mk.inj (Option.some.inj h)
  exact hvalue _ _ _ hcontent

theorem gives_inlineRest (hvalue : Gives Value.Sound value) (fuel : Nat) :
    Gives (fun assignments ↦ ∀ assignment ∈ assignments, SoundAssignment assignment)
      (inlineRest value fuel) := by
  induction fuel with
  | zero =>
    intro text read rest h
    cases h
  | succ fuel ih =>
    intro text read rest h
    rw [inlineRest] at h
    obtain ⟨⟨first, after⟩, hfirst, h⟩ := Option.bind_eq_some_iff.mp h
    have hsound := gives_assignment hvalue _ _ _ hfirst
    simp only at h
    split at h
    · obtain ⟨rfl, -⟩ := Prod.mk.inj (Option.some.inj h)
      simpa using hsound
    · obtain ⟨⟨others, after⟩, hothers, h⟩ := Option.bind_eq_some_iff.mp h
      obtain ⟨rfl, -⟩ := Prod.mk.inj (Option.some.inj h)
      exact List.forall_mem_cons.mpr ⟨hsound, ih _ _ _ hothers⟩
    · cases h

theorem gives_inlineTable (hvalue : Gives Value.Sound value) :
    Gives Value.Sound (inlineTable value) := by
  intro text read rest h
  unfold inlineTable at h
  split at h
  · obtain ⟨rfl, -⟩ := Prod.mk.inj (Option.some.inj h)
    exact .table List.nodup_nil (by simp)
  · obtain ⟨⟨assignments, after⟩, hassignments, h⟩ := Option.bind_eq_some_iff.mp h
    obtain ⟨entries, hentries, h⟩ := Option.bind_eq_some_iff.mp h
    obtain ⟨rfl, -⟩ := Prod.mk.inj (Option.some.inj h)
    have hsound := Entries.Sound.assignAll (gives_inlineRest hvalue _ _ _ _ hassignments) hentries
    exact .table hsound.nodup hsound.holds

theorem gives_value (depth : Nat) : Gives Value.Sound (Toml.value depth) := by
  induction depth with
  | zero =>
    intro text read rest h
    unfold Toml.value at h
    split at h
    · cases h
    · cases h
    · exact gives_scalar _ _ _ h
  | succ depth ih =>
    intro text read rest h
    unfold Toml.value at h
    split at h
    · obtain ⟨⟨items, after⟩, hitems, hread⟩ := Option.map_eq_some_iff.mp h
      obtain ⟨rfl, -⟩ := Prod.mk.inj hread
      exact .array (gives_arrayRest ih _ _ _ _ hitems)
    · exact gives_inlineTable ih _ _ _ h
    · exact gives_scalar _ _ _ h

/-! ### Documents -/

/-- What `blocks` gives: sound values under every key, before the first header and after each. -/
def SoundBlocks (read : List (List String × String × Value) × List Block) : Prop :=
  (∀ assignment ∈ read.1, SoundAssignment assignment) ∧
    ∀ block ∈ read.2, ∀ assignment ∈ block.assignments, SoundAssignment assignment

theorem soundBlocks_header {isElement : Bool} {parents : List String} {name : String}
    {assignments : List (List String × String × Value)} {others : List Block}
    (h : SoundBlocks (assignments, others)) :
    SoundBlocks ([], ⟨isElement, parents, name, assignments⟩ :: others) :=
  ⟨by simp, List.forall_mem_cons.mpr h⟩

theorem soundBlocks_blocks {fuel : Nat} {text : List Char}
    {read : List (List String × String × Value) × List Block} (h : blocks fuel text = some read) :
    SoundBlocks read := by
  induction fuel generalizing text read with
  | zero => cases h
  | succ fuel ih =>
    rw [blocks] at h
    split at h
    · obtain rfl := Option.some.inj h
      exact ⟨by simp, by simp⟩
    · obtain ⟨⟨⟨parents, name⟩, after⟩, -, h⟩ := Option.bind_eq_some_iff.mp h
      obtain ⟨⟨assignments, others⟩, hrest, h⟩ := Option.bind_eq_some_iff.mp h
      obtain rfl := Option.some.inj h
      exact soundBlocks_header (ih hrest)
    · obtain ⟨⟨⟨parents, name⟩, after⟩, -, h⟩ := Option.bind_eq_some_iff.mp h
      obtain ⟨⟨assignments, others⟩, hrest, h⟩ := Option.bind_eq_some_iff.mp h
      obtain rfl := Option.some.inj h
      exact soundBlocks_header (ih hrest)
    · split at h
      · exact ih h
      · obtain ⟨⟨first, after⟩, hfirst, h⟩ := Option.bind_eq_some_iff.mp h
        obtain ⟨after, -, h⟩ := Option.bind_eq_some_iff.mp h
        obtain ⟨⟨assignments, others⟩, hrest, h⟩ := Option.bind_eq_some_iff.mp h
        obtain rfl := Option.some.inj h
        have hsound := ih hrest
        exact ⟨List.forall_mem_cons.mpr
          ⟨gives_assignment (gives_value _) _ _ _ hfirst, hsound.1⟩, hsound.2⟩

/-- No table of a document has a key twice, and every integer in it is a signed word. -/
theorem parse_sound {text : String} {document : Entries} (h : parse text = some document) :
    document.Sound := by
  obtain ⟨⟨assignments, others⟩, hblocks, h⟩ := Option.bind_eq_some_iff.mp h
  obtain ⟨root, hroot, h⟩ := Option.bind_eq_some_iff.mp h
  obtain ⟨nodes, hnodes, h⟩ := Option.bind_eq_some_iff.mp h
  obtain rfl := Option.some.inj h
  obtain ⟨hassignments, hothers⟩ := soundBlocks_blocks hblocks
  have hsound : nodes.Sound := foldlM_keeps
    (fun _ block _ hmem hsound hadd ↦ hsound.addBlock (hothers block hmem) hadd)
    (Nodes.Sound.assignAll hassignments .nil hroot) hnodes
  exact hsound.toEntries

end Toml

end CountTree
