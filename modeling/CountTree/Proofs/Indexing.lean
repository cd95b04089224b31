import CountTree.Action
import CountTree.Proofs.MixedRadix
import Mathlib.Data.Set.Function
import Mathlib.Order.Interval.Set.Defs

/-!
The cells of an action and the places of a schema. `Action.index_eq_ok_iff` says exactly when an
argument tuple has a cell and which one; no tuple ends in a fault (`Action.index_ne_fault`).
`Action.index_bijOn` is the main statement: the argument tuples of an action and the positions of
its table correspond one to one, each direction undoes the other, and the machine's arithmetic
suffices for both. `Schema.position_eq_some_iff` does the same for a schema: as no name occurs
twice, looking an action up by name leads back to the place where it stands.
-/

set_option autoImplicit false
set_option relaxedAutoImplicit false

namespace CountTree

namespace Action

/-! ### The table of an action -/

/-- There are no actions but those that `create` makes. -/
theorem create_eq_ok (action : Action) : create action.name action.cardinalities = .ok action := by
  obtain ⟨name, cardinalities, tableSize, hsize⟩ := action
  unfold create
  split
  · rename_i other hother
    obtain rfl := Option.some.inj (hsize.symm.trans hother)
    rfl
  · rename_i hnone
    simp [hsize] at hnone

theorem cardinalities_pos (action : Action) : ∀ limit ∈ action.cardinalities, 0 < limit :=
  (Radix.size?_eq_some_iff.mp action.size?_eq).1

theorem size_cardinalities (action : Action) :
    Radix.size action.cardinalities = action.tableSize :=
  (Radix.size?_eq_some_iff.mp action.size?_eq).2.1

theorem tableSize_pos (action : Action) : 0 < action.tableSize := by
  rw [← action.size_cardinalities]
  exact Radix.size_pos action.cardinalities_pos

theorem argument_le_top {action : Action} {arguments : List Nat}
    (h : Radix.InRange arguments action.cardinalities) :
    ∀ argument ∈ arguments, argument ≤ Word.top := fun argument hargument ↦
  calc argument
    _ ≤ Radix.value arguments action.cardinalities := h.le_value argument hargument
    _ ≤ Radix.size action.cardinalities := (Radix.value_lt_size h).le
    _ = action.tableSize := action.size_cardinalities
    _ ≤ Word.top := (Radix.size?_eq_some_iff.mp action.size?_eq).2.2

/-! ### From arguments to cells -/

theorem firstExcess_eq_none_iff {arguments limits : List Nat} (position : Nat)
    (hlength : arguments.length = limits.length) :
    firstExcess position arguments limits = none ↔ Radix.InRange arguments limits := by
  induction arguments generalizing limits position with
  | nil =>
    rcases limits with _ | ⟨limit, limits⟩
    · simp [firstExcess, Radix.InRange]
    · simp at hlength
  | cons argument arguments ih =>
    rcases limits with _ | ⟨limit, limits⟩
    · simp at hlength
    · rw [firstExcess, Radix.InRange, ← ih (position + 1) (Nat.succ.inj hlength)]
      by_cases hlimit : limit ≤ argument
      · simp [hlimit]
      · simp [hlimit, Nat.lt_of_not_le hlimit]

theorem index_of_inRange {action : Action} {arguments : List Nat}
    (h : Radix.InRange arguments action.cardinalities) :
    action.index arguments = .ok (Radix.value arguments action.cardinalities) := by
  have hlength : arguments.length = action.arity := h.length_eq
  rw [index, if_neg (not_not.mpr hlength), (firstExcess_eq_none_iff 0 hlength).mpr h,
    Radix.encode?_eq_value action.size?_eq h]

theorem index_eq_ok_iff {action : Action} {arguments : List Nat} {position : Nat} :
    action.index arguments = .ok position ↔
      Radix.InRange arguments action.cardinalities ∧
        Radix.value arguments action.cardinalities = position := by
  constructor
  · intro h
    have hrange : Radix.InRange arguments action.cardinalities := by
      unfold index at h
      split at h
      · simp at h
      · rename_i hlength
        split at h
        · simp at h
        · rename_i hexcess
          exact (firstExcess_eq_none_iff 0 (not_not.mp hlength)).mp hexcess
    rw [index_of_inRange hrange] at h
    exact ⟨hrange, Except.ok.inj h⟩
  · rintro ⟨hrange, rfl⟩
    exact index_of_inRange hrange

theorem index_lt_tableSize {action : Action} {arguments : List Nat} {position : Nat}
    (h : action.index arguments = .ok position) : position < action.tableSize := by
  obtain ⟨hrange, rfl⟩ := index_eq_ok_iff.mp h
  exact Nat.lt_of_lt_of_eq (Radix.value_lt_size hrange) action.size_cardinalities

/-- Two tuples of one cell are the same tuple. -/
theorem index_injective {action : Action} {arguments arguments' : List Nat} {position : Nat}
    (h : action.index arguments = .ok position) (h' : action.index arguments' = .ok position) :
    arguments = arguments' := by
  obtain ⟨hrange, hvalue⟩ := index_eq_ok_iff.mp h
  obtain ⟨hrange', hvalue'⟩ := index_eq_ok_iff.mp h'
  exact Radix.value_injective hrange hrange' (hvalue.trans hvalue'.symm)

theorem index_ne_fault (action : Action) (arguments : List Nat) (cause : Fault) :
    action.index arguments ≠ .error (.fault cause) := by
  intro h
  by_cases hlength : arguments.length = action.arity
  · rcases hexcess : firstExcess 0 arguments action.cardinalities with _ | excess
    · rw [index_of_inRange ((firstExcess_eq_none_iff 0 hlength).mp hexcess)] at h
      simp at h
    · rw [index, if_neg (not_not.mpr hlength), hexcess] at h
      simp at h
  · rw [index, if_pos hlength] at h
    simp at h

/-! ### From cells to arguments -/

theorem decode?_eq_digits (action : Action) (position : Nat) :
    Radix.decode? position action.cardinalities =
      some (Radix.digits action.cardinalities position) :=
  Radix.decode?_eq_digits position action.size?_eq

theorem arguments_of_lt {action : Action} {position : Nat} (h : position < action.tableSize) :
    action.arguments position = .ok (Radix.digits action.cardinalities position) := by
  rw [arguments, if_neg (Nat.not_le.mpr h), decode?_eq_digits]

theorem inRange_digits {action : Action} {position : Nat} (h : position < action.tableSize) :
    Radix.InRange (Radix.digits action.cardinalities position) action.cardinalities :=
  Radix.inRange_digits (by rwa [size_cardinalities])

theorem index_digits {action : Action} {position : Nat} (h : position < action.tableSize) :
    action.index (Radix.digits action.cardinalities position) = .ok position := by
  rw [index_of_inRange (inRange_digits h), Radix.value_digits (by rwa [size_cardinalities])]

theorem arguments_error_iff {action : Action} {position : Nat} :
    (∃ cause, action.arguments position = .error cause) ↔ action.tableSize ≤ position := by
  constructor
  · rintro ⟨cause, h⟩
    by_contra hlt
    rw [arguments_of_lt (Nat.not_le.mp hlt)] at h
    simp at h
  · intro h
    exact ⟨_, if_pos h⟩

/-! ### One to one -/

/-- However an action was created, its argument tuples and the positions of its table correspond one
to one, with `arguments` the inverse of `index` on both sides. Positions past the table are the only
ones that are refused. On tuples in range and on positions of the table every product, sum, quotient
and remainder of the two walks is a word, the unused weight after the last cardinality included. -/
theorem index_bijOn (action : Action) :
    create action.name action.cardinalities = .ok action ∧
      Set.BijOn action.index {arguments | Radix.InRange arguments action.cardinalities}
        (Except.ok '' Set.Iio action.tableSize) ∧
      (∀ position < action.tableSize,
        ∃ arguments, Radix.InRange arguments action.cardinalities ∧
          action.arguments position = .ok arguments ∧ action.index arguments = .ok position) ∧
      (∀ arguments, Radix.InRange arguments action.cardinalities →
        ∃ position < action.tableSize,
          action.index arguments = .ok position ∧ action.arguments position = .ok arguments) ∧
      (∀ position,
        (∃ cause, action.arguments position = .error cause) ↔ action.tableSize ≤ position) ∧
      (∀ arguments, Radix.InRange arguments action.cardinalities →
        (Radix.encode? arguments action.cardinalities).isSome) ∧
      ∀ position < action.tableSize, (Radix.decode? position action.cardinalities).isSome := by
  have hforth : ∀ arguments, Radix.InRange arguments action.cardinalities →
      ∃ position < action.tableSize,
        action.index arguments = .ok position ∧ action.arguments position = .ok arguments := by
    intro arguments hrange
    have hindex := index_of_inRange hrange
    have hlt := index_lt_tableSize hindex
    exact ⟨_, hlt, hindex, by rw [arguments_of_lt hlt, Radix.digits_value hrange]⟩
  have hback : ∀ position < action.tableSize,
      ∃ arguments, Radix.InRange arguments action.cardinalities ∧
        action.arguments position = .ok arguments ∧ action.index arguments = .ok position :=
    fun position hlt ↦ ⟨_, inRange_digits hlt, arguments_of_lt hlt, index_digits hlt⟩
  refine ⟨action.create_eq_ok, ⟨?_, ?_, ?_⟩, hback, hforth, fun position ↦ arguments_error_iff,
    ?_, ?_⟩
  · intro arguments hrange
    obtain ⟨position, hlt, hindex, -⟩ := hforth arguments hrange
    exact ⟨position, hlt, hindex.symm⟩
  · intro arguments hrange arguments' hrange' heq
    obtain ⟨position, -, hindex, -⟩ := hforth arguments hrange
    exact index_injective hindex (heq ▸ hindex)
  · rintro - ⟨position, hlt, rfl⟩
    obtain ⟨arguments, hrange, -, hindex⟩ := hback position hlt
    exact ⟨arguments, hrange, hindex⟩
  · intro arguments hrange
    rw [Radix.encode?_eq_value action.size?_eq hrange]
    rfl
  · intro position _
    rw [decode?_eq_digits]
    rfl

/-- The correspondence at the end of the machine's range: a table whose size is the largest
word, and the last of its tuples. -/
theorem index_bijOn_largest_table :
    let action : Action := ⟨"access", [4294967295, 4294967297], Word.top, by decide⟩
    Radix.InRange [4294967294, 4294967296] action.cardinalities ∧
      ∃ position < action.tableSize, action.index [4294967294, 4294967296] = .ok position ∧
        action.arguments position = .ok [4294967294, 4294967296] :=
  ⟨by decide, (index_bijOn _).2.2.2.1 _ (by decide)⟩

end Action

namespace Schema

/-! ### Places of a schema -/

theorem positionFrom_eq_some {name : String} {start place : Nat} {actions : List Action}
    {action : Action} (h : positionFrom name start actions = some (place, action)) :
    ∃ offset, place = start + offset ∧ actions[offset]? = some action ∧ action.name = name := by
  induction actions generalizing start with
  | nil => simp [positionFrom] at h
  | cons first actions ih =>
    by_cases hname : first.name = name
    · rw [positionFrom, if_pos hname] at h
      obtain ⟨rfl, rfl⟩ := Prod.mk.inj (Option.some.inj h)
      exact ⟨0, rfl, rfl, hname⟩
    · rw [positionFrom, if_neg hname] at h
      obtain ⟨offset, rfl, haction, hname⟩ := ih h
      exact ⟨offset + 1, by omega, haction, hname⟩

theorem positionFrom_of_nodup {start offset : Nat} {actions : List Action} {action : Action}
    (hnodup : (actions.map Action.name).Nodup) (h : actions[offset]? = some action) :
    positionFrom action.name start actions = some (start + offset, action) := by
  induction actions generalizing start offset with
  | nil => simp at h
  | cons first actions ih =>
    rw [List.map_cons, List.nodup_cons] at hnodup
    rcases offset with _ | offset
    · obtain rfl := Option.some.inj h
      rw [positionFrom, if_pos rfl, Nat.add_zero]
    · rw [List.getElem?_cons_succ] at h
      have hne : first.name ≠ action.name := fun heq ↦
        hnodup.1 (heq ▸ List.mem_map_of_mem (List.mem_of_getElem? h))
      rw [positionFrom, if_neg hne, ih hnodup.2 h, Nat.add_assoc, Nat.add_comm 1]

theorem position_eq_some_iff {schema : Schema} {name : String} {place : Nat} {action : Action} :
    schema.position name = some (place, action) ↔
      schema.actions[place]? = some action ∧ action.name = name := by
  constructor
  · intro h
    obtain ⟨offset, rfl, haction, hname⟩ := positionFrom_eq_some h
    exact ⟨by rwa [Nat.zero_add], hname⟩
  · rintro ⟨haction, rfl⟩
    rw [position, positionFrom_of_nodup schema.nodup haction, Nat.zero_add]

/-- A schema knows exactly the names of its actions. -/
theorem get_isSome_iff {schema : Schema} {name : String} :
    (schema.get name).isSome ↔ ∃ action ∈ schema.actions, action.name = name := by
  rw [get, Option.isSome_map]
  constructor
  · intro h
    obtain ⟨⟨place, action⟩, hposition⟩ := Option.isSome_iff_exists.mp h
    obtain ⟨haction, hname⟩ := position_eq_some_iff.mp hposition
    exact ⟨action, List.mem_of_getElem? haction, hname⟩
  · rintro ⟨action, haction, hname⟩
    obtain ⟨place, hplace⟩ := List.mem_iff_getElem?.mp haction
    rw [position_eq_some_iff.mpr ⟨hplace, hname⟩]
    rfl

end Schema

end CountTree
