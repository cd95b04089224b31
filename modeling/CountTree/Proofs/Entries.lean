import CountTree.Document
import Mathlib.Data.List.Forall2
import Mathlib.Data.List.Nodup

/-!
Entries put in one after the other. As long as no key comes twice, nothing that stands there is
replaced and the entries line up in the order in which they came (`Keyed.insertAll_eq_append`); a
key then leads to its own entry (`Keyed.get?_eq_some_iff`). `Document.Alike` compares documents by
what their keys lead to and not by the order of the keys.
-/

set_option autoImplicit false
set_option relaxedAutoImplicit false

namespace CountTree

namespace Keyed

variable {α : Type}

/-- Puts entries in one after the other. -/
def insertAll (added entries : Keyed α) : Keyed α :=
  added.foldl (fun entries entry ↦ insert entry.1 entry.2 entries) entries

theorem insertAll_append (first second entries : Keyed α) :
    insertAll (first ++ second) entries = insertAll second (insertAll first entries) :=
  List.foldl_append

theorem keys_append (first second : Keyed α) : keys (first ++ second) = keys first ++ keys second :=
  List.map_append

/-- Entries under new keys, each of them once, come after those that are there. -/
theorem insertAll_eq_append {added entries : Keyed α} (h : (keys (entries ++ added)).Nodup) :
    insertAll added entries = entries ++ added := by
  induction added generalizing entries with
  | nil => rw [List.append_nil]; rfl
  | cons entry added ih =>
    have hsplit : entries ++ entry :: added = (entries ++ [entry]) ++ added := by simp
    have hnew : entry.1 ∉ keys entries := by
      rw [keys_append, List.nodup_append'] at h
      exact fun hmem ↦ h.2.2 hmem List.mem_cons_self
    have hstep : insertAll (entry :: added) entries = insertAll added (entries ++ [entry]) := by
      rw [← insert_eq_append entry.2 hnew]
      rfl
    rw [hstep, ih (hsplit ▸ h), hsplit]

/-- Entries that are made from items, of which some give none, keep the order of the items. -/
theorem keys_filterMap_sublist {ι : Type} (name : ι → String) (value : ι → Option α)
    (items : List ι) :
    (keys (items.filterMap fun item ↦ (value item).map (name item, ·))).Sublist
      (items.map name) := by
  induction items with
  | nil => exact List.nil_sublist _
  | cons item items ih =>
    rw [List.filterMap_cons, List.map_cons]
    rcases value item with _ | entry
    · exact ih.trans (List.sublist_cons_self _ _)
    · exact ih.cons_cons _

theorem get?_eq_none_iff {entries : Keyed α} {key : String} :
    get? entries key = none ↔ key ∉ keys entries := by
  rw [get?, Option.map_eq_none_iff, List.find?_eq_none, keys, List.mem_map]
  simp only [decide_eq_true_eq, not_exists, not_and]

/-- Among entries under different keys, a key leads to the one entry under it. -/
theorem get?_eq_some_iff {entries : Keyed α} (h : (keys entries).Nodup) {key : String} {value : α} :
    get? entries key = some value ↔ (key, value) ∈ entries := by
  induction entries with
  | nil => simp [get?]
  | cons entry entries ih =>
    obtain ⟨key', value'⟩ := entry
    rw [keys, List.map_cons, List.nodup_cons] at h
    by_cases hkey : key' = key
    · subst hkey
      have hrest : (key', value) ∉ entries := fun hmem ↦
        h.1 (List.mem_map.mpr ⟨_, hmem, rfl⟩)
      simp [get?, hrest, eq_comm]
    · have hget : get? ((key', value') :: entries) key = get? entries key := by simp [get?, hkey]
      rw [hget, ih h.2, List.mem_cons]
      simp [Ne.symm hkey]

theorem get?_eq_of_perm {entries entries' : Keyed α} (hkeys : (keys entries).Nodup)
    (h : entries.Perm entries') (key : String) : get? entries key = get? entries' key := by
  have hkeys' : (keys entries').Nodup := (h.map _).nodup hkeys
  ext value
  rw [get?_eq_some_iff hkeys, get?_eq_some_iff hkeys', h.mem_iff]

theorem sizeOf_lt_of_get? [SizeOf α] {entries : Keyed α} {key : String} {value : α}
    (h : get? entries key = some value) : sizeOf value < sizeOf entries := by
  obtain ⟨⟨name, value⟩, hfind, rfl⟩ := Option.map_eq_some_iff.mp h
  have hentry := List.sizeOf_lt_of_mem (List.mem_of_find?_eq_some hfind)
  simp only [Prod.mk.sizeOf_spec] at hentry ⊢
  omega

theorem eq_singleton_iff {entries : Keyed α} {key : String} {value : α} :
    entries = [(key, value)] ↔ keys entries = [key] ∧ get? entries key = some value := by
  constructor
  · rintro rfl
    simp [keys, get?]
  · rintro ⟨hkeys, hget⟩
    obtain ⟨⟨name, other⟩, rfl, rfl⟩ := List.map_eq_singleton_iff.mp hkeys
    simpa [get?] using hget

end Keyed

namespace Document

/-- Two documents that nobody can tell apart by reading: equal up to the order in which the keys of
a mapping stand. -/
inductive Alike : Document → Document → Prop
  | text (content : String) : Alike (.text content) (.text content)
  | number (n : Nat) : Alike (.number n) (.number n)
  | sequence {items items' : List Document} (h : List.Forall₂ Alike items items') :
      Alike (.sequence items) (.sequence items')
  | mapping {entries entries' : Mapping}
      (h : ∀ key, Option.Rel Alike (Keyed.get? entries key) (Keyed.get? entries' key)) :
      Alike (.mapping entries) (.mapping entries')

namespace Alike

theorem refl : (document : Document) → Alike document document
  | .text content => .text content
  | .number n => .number n
  | .sequence items => .sequence (List.forall₂_same.mpr fun item hitem ↦
      have : sizeOf item < sizeOf items := List.sizeOf_lt_of_mem hitem
      refl item)
  | .mapping entries => .mapping fun key ↦ by
      rcases hget : Keyed.get? entries key with _ | value
      · exact .none
      · have : sizeOf value < sizeOf entries := Keyed.sizeOf_lt_of_get? hget
        exact .some (refl value)

variable {entries entries' : Mapping}

theorem read (h : Alike (.mapping entries) (.mapping entries')) (key : String) :
    Option.Rel Alike (Keyed.get? entries key) (Keyed.get? entries' key) := by
  cases h with
  | mapping h => exact h key

theorem read_some (h : Alike (.mapping entries) (.mapping entries')) (key : String)
    {value value' : Document} (hget : Keyed.get? entries key = some value)
    (hget' : Keyed.get? entries' key = some value') : Alike value value' := by
  have hread := h.read key
  rw [hget, hget'] at hread
  cases hread with
  | some hvalue => exact hvalue

theorem number_eq {n n' : Nat} (h : Alike (.number n) (.number n')) : n = n' := by
  cases h
  rfl

/-- Items that can be told apart by their documents can be told apart in a sequence. -/
theorem items_eq {ι : Type} {render : ι → Document} {items items' : List ι}
    (hrender : ∀ item item', Alike (render item) (render item') → item = item')
    (h : Alike (.sequence (items.map render)) (.sequence (items'.map render))) :
    items = items' := by
  cases h with
  | sequence h =>
    rw [List.forall₂_map_left_iff, List.forall₂_map_right_iff] at h
    have hsame : List.Forall₂ Eq items items' := h.imp hrender
    rwa [List.forall₂_eq_eq_eq] at hsame

end Alike

end Document

end CountTree
