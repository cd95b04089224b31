/-!
Entries under keys, in the order in which the keys were first put in. Putting a value under a key
changes what stands under that key and nothing else.
-/

set_option autoImplicit false
set_option relaxedAutoImplicit false

namespace CountTree

abbrev Keyed (α : Type) := List (String × α)

namespace Keyed

variable {α : Type}

/-- Puts a value under a key: in place of the one that was there, or else as the last entry. -/
def insert (key : String) (value : α) : Keyed α → Keyed α
  | [] => [(key, value)]
  | entry :: entries =>
    if entry.1 = key then (key, value) :: entries else entry :: insert key value entries

def get? (entries : Keyed α) (key : String) : Option α :=
  (entries.find? (·.1 = key)).map (·.2)

/-- Puts a value under a key that is not there yet, as the last entry. -/
def add? (key : String) (value : α) (entries : Keyed α) : Option (Keyed α) :=
  match entries.get? key with
  | none => some (entries ++ [(key, value)])
  | some _ => none

def erase (key : String) (entries : Keyed α) : Keyed α := entries.filter (·.1 ≠ key)

def keys (entries : Keyed α) : List String := entries.map (·.1)

theorem insert_eq_append {key : String} {entries : Keyed α} (value : α)
    (h : key ∉ keys entries) : insert key value entries = entries ++ [(key, value)] := by
  induction entries with
  | nil => rfl
  | cons entry entries ih =>
    simp only [keys, List.map_cons, List.mem_cons, not_or] at h
    rw [insert, if_neg (Ne.symm h.1), ih h.2, List.cons_append]

theorem get?_insert_self (key : String) (value : α) (entries : Keyed α) :
    get? (insert key value entries) key = some value := by
  induction entries with
  | nil => simp [insert, get?]
  | cons entry entries ih =>
    by_cases h : entry.1 = key
    · simp [insert, get?, h]
    · rw [insert, if_neg h]
      simpa [get?, h] using ih

theorem get?_insert_of_ne {key other : String} (value : α) (entries : Keyed α)
    (h : other ≠ key) : get? (insert key value entries) other = get? entries other := by
  induction entries with
  | nil => simp [insert, get?, Ne.symm h]
  | cons entry entries ih =>
    by_cases hentry : entry.1 = key
    · simp [insert, get?, hentry, Ne.symm h]
    · rw [insert, if_neg hentry]
      by_cases hother : entry.1 = other
      · simp [get?, hother]
      · simpa [get?, hother] using ih

end Keyed

end CountTree
