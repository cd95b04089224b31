/-!
Attribute maps: texts under distinct keys, kept in the order of the keys.
-/

set_option autoImplicit false
set_option relaxedAutoImplicit false

namespace CountTree

namespace Attributes

/-- Puts a text under a key, in place of the one that was there. -/
def insertEntry (key text : String) : List (String × String) → List (String × String)
  | [] => [(key, text)]
  | entry :: entries =>
    if key < entry.1 then (key, text) :: entry :: entries
    else if key = entry.1 then (key, text) :: entries
    else entry :: insertEntry key text entries

def Sorted (entries : List (String × String)) : Prop := entries.Pairwise (·.1 < ·.1)

instance decidableSorted (entries : List (String × String)) : Decidable (Sorted entries) :=
  inferInstanceAs (Decidable (entries.Pairwise (·.1 < ·.1)))

theorem mem_insertEntry {key text : String} {entries : List (String × String)}
    {entry : String × String} (h : entry ∈ insertEntry key text entries) :
    entry = (key, text) ∨ entry ∈ entries := by
  induction entries with
  | nil => simp_all [insertEntry]
  | cons first entries ih =>
    unfold insertEntry at h
    split at h
    · simpa using h
    · split at h
      · rcases List.mem_cons.1 h with h | h
        · exact .inl h
        · exact .inr (List.mem_cons_of_mem _ h)
      · rcases List.mem_cons.1 h with h | h
        · exact .inr (h ▸ List.mem_cons_self)
        · exact (ih h).imp_right (List.mem_cons_of_mem _)

theorem lt_of_not_lt_of_ne {a b : String} (hlt : ¬ a < b) (hne : a ≠ b) : b < a := by
  by_cases h : b < a
  · exact h
  · exact (hne (String.le_antisymm (String.not_lt.1 h) (String.not_lt.1 hlt))).elim

theorem sorted_insertEntry (key text : String) {entries : List (String × String)}
    (h : Sorted entries) : Sorted (insertEntry key text entries) := by
  induction entries with
  | nil => simp [insertEntry, Sorted]
  | cons first entries ih =>
    have hfirst := (List.pairwise_cons.1 h).1
    have hrest := (List.pairwise_cons.1 h).2
    unfold insertEntry
    split
    · rename_i hlt
      refine List.pairwise_cons.2 ⟨fun entry hentry ↦ ?_, h⟩
      rcases List.mem_cons.1 hentry with rfl | hentry
      · exact hlt
      · exact String.lt_trans hlt (hfirst entry hentry)
    · split
      · rename_i heq
        exact List.pairwise_cons.2 ⟨fun entry hentry ↦ heq ▸ hfirst entry hentry, hrest⟩
      · rename_i hlt hne
        refine List.pairwise_cons.2 ⟨fun entry hentry ↦ ?_, ih hrest⟩
        rcases mem_insertEntry hentry with rfl | hentry
        · exact lt_of_not_lt_of_ne hlt hne
        · exact hfirst entry hentry

end Attributes

structure Attributes where
  entries : List (String × String)
  sorted : Attributes.Sorted entries
deriving DecidableEq

namespace Attributes

def empty : Attributes := ⟨[], List.Pairwise.nil⟩

def insert (attributes : Attributes) (key text : String) : Attributes :=
  ⟨insertEntry key text attributes.entries, sorted_insertEntry key text attributes.sorted⟩

def ofList (entries : List (String × String)) : Attributes :=
  entries.foldl (fun attributes entry ↦ attributes.insert entry.1 entry.2) empty

end Attributes

end CountTree
