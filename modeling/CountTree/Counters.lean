import CountTree.Action

/-!
Counters of one component: a row of cells for each action of its schema, in schema order, with a
cell for each argument tuple. Cells are machine words.
-/

set_option autoImplicit false
set_option relaxedAutoImplicit false

namespace CountTree

/-- A table of this many words is past the address space. -/
def storageLimit : Nat := Nat.pow 2 60

structure Counters where
  rows : List (List Nat)
deriving DecidableEq

namespace Counters

/-- All cells zero; nothing when a row is too large to store. -/
def zero? (schema : Schema) : Option Counters :=
  if schema.actions.all (·.tableSize < storageLimit) then
    some ⟨schema.actions.map fun action ↦ List.replicate action.tableSize 0⟩
  else none

def cells (counters : Counters) (place : Nat) : Option (List Nat) := counters.rows[place]?

def size (counters : Counters) (place : Nat) : Option Nat :=
  (counters.cells place).map List.length

def get (counters : Counters) (place index : Nat) : Option Nat :=
  (counters.cells place).bind (·[index]?)

def set (counters : Counters) (place index count : Nat) : Counters :=
  ⟨counters.rows.modify place (·.set index count)⟩

theorem get_set_self {counters : Counters} {place index count : Nat} (new : Nat)
    (h : counters.get place index = some count) :
    (counters.set place index new).get place index = some new := by
  obtain ⟨row, hrow, hcell⟩ := Option.bind_eq_some_iff.1 h
  have hlt : index < row.length := (List.getElem?_eq_some_iff.1 hcell).1
  simp only [cells] at hrow
  simp [get, cells, set, hrow, hlt]

theorem get_set_of_ne (counters : Counters) {place index place' index' : Nat} (new : Nat)
    (h : ¬ (place = place' ∧ index = index')) :
    (counters.set place index new).get place' index' = counters.get place' index' := by
  by_cases hplace : place = place'
  · have hindex : index ≠ index' := fun hindex ↦ h ⟨hplace, hindex⟩
    subst hplace
    cases hrow : counters.rows[place]? with
    | none => simp [get, cells, set, hrow]
    | some row => simp [get, cells, set, hrow, hindex]
  · simp [get, cells, set, hplace]

/-- Adds to one cell of the action at `place`, unless the sum is no word. -/
def add (counters : Counters) (action : Action) (place index delta : Nat) :
    Except ModelError Counters :=
  match counters.get place index with
  | none => .error (.fault .bounds)
  | some count =>
    match Word.add? count delta with
    | none => .error (.counterOverflow action.name index delta)
    | some count => .ok (counters.set place index count)

/-- The cells of a row that are not zero, as index and count, in index order. -/
def nonzero (counters : Counters) (place : Nat) : List (Nat × Nat) :=
  (((counters.cells place).getD []).zipIdx.filter (·.1 ≠ 0)).map Prod.swap

/-- The sum of a row, or the largest word. -/
def total (counters : Counters) (place : Nat) : Nat :=
  ((counters.cells place).getD []).foldl Word.addSaturating 0

end Counters

end CountTree
