import CountTree.Proofs.Reachable
import CountTree.Proofs.Recording

/-!
Why a counter is refused. `Component.Refuses` says what is wrong with an action and its arguments
on a component, by the first of four things that can be: it is no leaf, its schema has no such
action, there are not as many arguments as the action takes, or one of them is out of range.
Reading a counter and recording on it both begin by looking up the cell (`Component.cell`), and that
is where these are found. `record_fails_as_counterValue` is the main statement: what is refused in
reading is refused in recording, a recording can fail apart from that only by an overflow, and no
failure leaves anything behind.
-/

set_option autoImplicit false
set_option relaxedAutoImplicit false

namespace CountTree

/-- What is wrong with an action or its arguments, as opposed to what a counter holds. -/
def ModelError.IsValidation : ModelError → Prop
  | .notALeaf _ | .unknownAction _ _ | .arityMismatch _ _ _ | .indexOutOfRange _ _ _ _ => True
  | _ => False

/-! ### Arguments -/

namespace Action

/-- The argument at a position reaches its limit, and those before it stay below theirs. -/
structure FirstOutOfRange (arguments limits : List Nat) (position value limit : Nat) : Prop where
  value_eq : arguments[position]? = some value
  limit_eq : limits[position]? = some limit
  limit_le : limit ≤ value
  before : ∀ earlier < position, ∀ value limit, arguments[earlier]? = some value →
    limits[earlier]? = some limit → value < limit

theorem FirstOutOfRange.succ_iff {argument first : Nat} {arguments limits : List Nat}
    {position value limit : Nat} :
    FirstOutOfRange (argument :: arguments) (first :: limits) (position + 1) value limit ↔
      argument < first ∧ FirstOutOfRange arguments limits position value limit := by
  constructor
  · intro h
    exact ⟨h.before 0 (Nat.succ_pos _) _ _ rfl rfl, h.value_eq, h.limit_eq, h.limit_le,
      fun earlier hearlier ↦ h.before (earlier + 1) (Nat.succ_lt_succ hearlier)⟩
  · rintro ⟨hfirst, h⟩
    refine ⟨h.value_eq, h.limit_eq, h.limit_le, fun earlier hearlier value limit hvalue hlimit ↦ ?_⟩
    rcases earlier with _ | earlier
    · obtain rfl := Option.some.inj hvalue
      obtain rfl := Option.some.inj hlimit
      exact hfirst
    · exact h.before earlier (Nat.lt_of_succ_lt_succ hearlier) value limit hvalue hlimit

theorem firstExcess_eq_some_iff {arguments limits : List Nat} {start place value limit : Nat} :
    firstExcess start arguments limits = some (place, value, limit) ↔
      ∃ position, place = start + position ∧
        FirstOutOfRange arguments limits position value limit := by
  induction arguments generalizing limits start with
  | nil =>
    have hnone (position : Nat) : ¬ FirstOutOfRange [] limits position value limit := fun h ↦ by
      simpa using h.value_eq
    simp [firstExcess, hnone]
  | cons argument arguments ih =>
    rcases limits with _ | ⟨first, limits⟩
    · have hnone (position : Nat) :
          ¬ FirstOutOfRange (argument :: arguments) [] position value limit := fun h ↦ by
        simpa using h.limit_eq
      simp [firstExcess, hnone]
    · rw [firstExcess]
      by_cases hfirst : first ≤ argument
      · rw [if_pos hfirst]
        constructor
        · intro h
          obtain ⟨rfl, rfl, rfl⟩ : start = place ∧ argument = value ∧ first = limit := by
            simpa using h
          exact ⟨0, rfl, rfl, rfl, hfirst, fun _ h ↦ absurd h (Nat.not_lt_zero _)⟩
        · rintro ⟨_ | position, rfl, h⟩
          · obtain rfl := Option.some.inj h.value_eq
            obtain rfl := Option.some.inj h.limit_eq
            rfl
          · exact absurd (FirstOutOfRange.succ_iff.mp h).1 (Nat.not_lt.mpr hfirst)
      · rw [if_neg hfirst, ih]
        constructor
        · rintro ⟨position, rfl, h⟩
          exact ⟨position + 1, by omega,
            FirstOutOfRange.succ_iff.mpr ⟨Nat.lt_of_not_le hfirst, h⟩⟩
        · rintro ⟨_ | position, rfl, h⟩
          · obtain rfl := Option.some.inj h.value_eq
            obtain rfl := Option.some.inj h.limit_eq
            exact absurd h.limit_le hfirst
          · exact ⟨position, by omega, (FirstOutOfRange.succ_iff.mp h).2⟩

/-- An argument tuple is refused for its length, and else for its first argument out of range. -/
theorem index_eq_error_iff {action : Action} {arguments : List Nat} {cause : ModelError} :
    action.index arguments = .error cause ↔
      (arguments.length ≠ action.arity ∧
          cause = .arityMismatch action.name action.arity arguments.length) ∨
        arguments.length = action.arity ∧ ∃ position value limit,
          FirstOutOfRange arguments action.cardinalities position value limit ∧
            cause = .indexOutOfRange action.name position value limit := by
  by_cases hlength : arguments.length = action.arity
  · rcases hexcess : firstExcess 0 arguments action.cardinalities with _ | ⟨place, value, limit⟩
    · have hrange := (firstExcess_eq_none_iff 0 hlength).mp hexcess
      have hnone : ∀ position value limit,
          ¬ FirstOutOfRange arguments action.cardinalities position value limit :=
        fun position value limit h ↦ by
          simpa [hexcess] using firstExcess_eq_some_iff.mpr ⟨position, (Nat.zero_add _).symm, h⟩
      simp [index_of_inRange hrange, hlength, hnone]
    · rw [index, if_neg (not_not.mpr hlength), hexcess]
      constructor
      · intro h
        obtain ⟨position, rfl, hfirst⟩ := firstExcess_eq_some_iff.mp hexcess
        obtain rfl := Except.error.inj h
        exact .inr ⟨hlength, position, value, limit, hfirst, by rw [Nat.zero_add]⟩
      · rintro (⟨hne, -⟩ | ⟨-, position, value', limit', hfirst, rfl⟩)
        · exact absurd hlength hne
        · have hsame := firstExcess_eq_some_iff.mpr ⟨position, (Nat.zero_add _).symm, hfirst⟩
          obtain ⟨rfl, rfl, rfl⟩ : place = position ∧ value = value' ∧ limit = limit' := by
            simpa [hexcess] using hsame
          rfl
  · simp [index, hlength, eq_comm]

end Action

/-- Writing a counter's own value changes nothing. -/
theorem Counters.set_of_get {counters : Counters} {place index count : Nat}
    (h : counters.get place index = some count) : counters.set place index count = counters := by
  obtain ⟨row, hrow, hcell⟩ := Option.bind_eq_some_iff.mp h
  refine congrArg Counters.mk (List.ext_getElem? fun other ↦ ?_)
  rw [List.getElem?_modify]
  by_cases hother : place = other
  · subst hother
    obtain ⟨hindex, rfl⟩ := List.getElem?_eq_some_iff.mp hcell
    rw [cells] at hrow
    simp [hrow]
  · simp [hother]

namespace Component

/-! ### Components -/

/-- What is wrong with an action and its arguments on a component. Each clause takes for granted
that those before it do not apply. -/
inductive Refuses (node : Component) (action : String) (arguments : List Nat) : ModelError → Prop
  | notALeaf (hleaf : node.leaf? = none) : Refuses node action arguments (.notALeaf node.name)
  | unknownAction {leaf : Leaf} (hleaf : node.leaf? = some leaf)
      (hnone : ∀ declared ∈ leaf.schema.actions, declared.name ≠ action) :
      Refuses node action arguments (.unknownAction node.name action)
  | arityMismatch {leaf : Leaf} {declared : Action} (hleaf : node.leaf? = some leaf)
      (hdeclared : declared ∈ leaf.schema.actions) (hname : declared.name = action)
      (hlength : arguments.length ≠ declared.arity) :
      Refuses node action arguments (.arityMismatch action declared.arity arguments.length)
  | indexOutOfRange {leaf : Leaf} {declared : Action} {position value limit : Nat}
      (hleaf : node.leaf? = some leaf) (hdeclared : declared ∈ leaf.schema.actions)
      (hname : declared.name = action) (hlength : arguments.length = declared.arity)
      (hfirst : Action.FirstOutOfRange arguments declared.cardinalities position value limit) :
      Refuses node action arguments (.indexOutOfRange action position value limit)

variable {node : Component} {action : String} {arguments : List Nat} {cause : ModelError}
  {count : Nat}

theorem Refuses.isValidation (h : node.Refuses action arguments cause) : cause.IsValidation := by
  cases h <;> trivial

/-- The cell of a declared action is refused for nothing but its arguments. -/
theorem cell_of_declared {leaf : Leaf} {declared : Action} (hleaf : node.leaf? = some leaf)
    (hdeclared : declared ∈ leaf.schema.actions) (hname : declared.name = action)
    (hindex : declared.index arguments = .error cause) :
    node.cell action arguments = .error cause := by
  obtain ⟨place, hplace⟩ := List.mem_iff_getElem?.mp hdeclared
  rw [cell, hleaf]
  simp only [Schema.position_eq_some_iff.mpr ⟨hplace, hname⟩, hindex]

theorem cell_eq_error_iff :
    node.cell action arguments = .error cause ↔ node.Refuses action arguments cause := by
  constructor
  · intro h
    rcases hleaf : node.leaf? with _ | leaf
    · rw [cell, hleaf] at h
      obtain rfl := Except.error.inj h
      exact .notALeaf hleaf
    rcases hposition : leaf.schema.position action with _ | ⟨place, declared⟩
    · have hunknown : ¬ (leaf.schema.get action).isSome := by simp [Schema.get, hposition]
      rw [Schema.get_isSome_iff] at hunknown
      simp only [cell, hleaf, hposition] at h
      obtain rfl := Except.error.inj h
      exact .unknownAction hleaf fun declared hdeclared hname ↦
        hunknown ⟨declared, hdeclared, hname⟩
    · obtain ⟨hplace, rfl⟩ := Schema.position_eq_some_iff.mp hposition
      have hdeclared : declared ∈ leaf.schema.actions := List.mem_of_getElem? hplace
      rcases hindex : declared.index arguments with other | index
      · simp only [cell, hleaf, hposition, hindex] at h
        obtain rfl := Except.error.inj h
        rcases Action.index_eq_error_iff.mp hindex with
          ⟨hlength, rfl⟩ | ⟨hlength, position, value, limit, hfirst, rfl⟩
        · exact .arityMismatch hleaf hdeclared rfl hlength
        · exact .indexOutOfRange hleaf hdeclared rfl hlength hfirst
      · simp only [cell, hleaf, hposition, hindex] at h
        cases h
  · intro h
    cases h with
    | notALeaf hleaf => rw [cell, hleaf]
    | @unknownAction leaf hleaf hnone =>
      have hposition : leaf.schema.position action = none := by
        by_contra hsome
        have hget : (leaf.schema.get action).isSome := by
          rw [Schema.get, Option.isSome_map]
          exact Option.isSome_iff_ne_none.mpr hsome
        obtain ⟨declared, hdeclared, hname⟩ := Schema.get_isSome_iff.mp hget
        exact hnone declared hdeclared hname
      simp only [cell, hleaf, hposition]
    | arityMismatch hleaf hdeclared hname hlength =>
      exact cell_of_declared hleaf hdeclared hname
        (Action.index_eq_error_iff.mpr (.inl ⟨hlength, by rw [hname]⟩))
    | indexOutOfRange hleaf hdeclared hname hlength hfirst =>
      exact cell_of_declared hleaf hdeclared hname
        (Action.index_eq_error_iff.mpr (.inr ⟨hlength, _, _, _, hfirst, by rw [hname]⟩))

/-- A recording of nothing on a counter that is there leaves the component as it is. -/
theorem record_zero (h : node.WellFormed)
    (hvalue : node.counterValue action arguments = .ok count) :
    record action arguments 0 node = .ok () node := by
  obtain ⟨cell, hcell, hget⟩ := (counterValue_eq_ok_iff h).mp hvalue
  have hleaf := leaf?_eq_some_iff.mp (cell_eq_ok_iff.mp hcell).1
  have hfit : count + 0 ≤ Word.top := counterValue_le_top h hvalue
  have hsame : cell.leaf.counters.set cell.place cell.index (count + 0) = cell.leaf.counters :=
    Counters.set_of_get hget
  rw [record_of_cell_of_le hcell hget hfit, hsame, ← hleaf]
  cases node
  rfl

/-- With nothing wrong, the sum decides. -/
theorem record_of_counterValue (h : node.WellFormed)
    (hvalue : node.counterValue action arguments = .ok count) (delta : Nat) :
    (count + delta ≤ Word.top ∧ record action arguments delta node =
        .ok () (after (record action arguments delta) node)) ∨
      Word.top < count + delta ∧ ∃ index, record action arguments delta node =
        .error (.counterOverflow action index delta) node := by
  rcases Nat.lt_or_ge Word.top (count + delta) with hover | hfit
  · exact .inr ⟨hover, record_of_lt h hvalue hover⟩
  · exact .inl ⟨hfit, record_of_le h hvalue hfit⟩

/-- Recording and reading a counter look for the same faults of an action and its arguments, in the
same order, and tell the same. With nothing wrong, a recording overflows or succeeds according to
the sum of what the counter holds and the amount, and it always succeeds, and changes nothing, with
the amount zero. A recording that fails leaves the component as it was. -/
theorem record_fails_as_counterValue {root node : Component} {path : List String}
    (h : Reachable root) (hnode : root.find path = some node) (action : String)
    (arguments : List Nat) (delta : Nat) :
    (∀ cause, node.counterValue action arguments = .error cause ↔
        node.Refuses action arguments cause) ∧
      (∀ cause, node.Refuses action arguments cause → cause.IsValidation) ∧
      (∀ cause, cause.IsValidation →
        ((∃ state, record action arguments delta node = .error cause state) ↔
          node.counterValue action arguments = .error cause)) ∧
      (∀ count, node.counterValue action arguments = .ok count →
        ((∃ index state, record action arguments delta node =
            .error (.counterOverflow action index delta) state) ↔ 2 ^ 64 - 1 < count + delta) ∧
        ((∃ state, record action arguments delta node = .ok () state) ↔
          count + delta ≤ 2 ^ 64 - 1) ∧
        record action arguments 0 node = .ok () node) ∧
      ∀ cause state, record action arguments delta node = .error cause state → state = node := by
  have hwell : node.WellFormed := (h.wellFormed.find hnode).here
  have hrefuses (cause : ModelError) : node.counterValue action arguments = .error cause ↔
      node.Refuses action arguments cause := counterValue_error_iff.trans cell_eq_error_iff
  refine ⟨hrefuses, fun _ ↦ Refuses.isValidation, fun cause hvalidation ↦ ⟨?_, fun hvalue ↦
    ⟨node, record_of_counterValue_error hvalue⟩⟩, fun count hvalue ↦ ?_,
    fun _ _ ↦ state_of_record_error⟩
  · rintro ⟨state, hrecord⟩
    rcases hvalue : node.counterValue action arguments with other | count
    · rw [record_of_counterValue_error hvalue] at hrecord
      cases hrecord
      rfl
    · -- Nothing is wrong, and so the failure would be an overflow.
      rcases record_of_counterValue hwell hvalue delta with hok | ⟨-, index, hover⟩
      · rw [hok.2] at hrecord
        cases hrecord
      · rw [hover] at hrecord
        cases hrecord
        exact hvalidation.elim
  · have htop : Word.top = 2 ^ 64 - 1 := rfl
    rw [← htop]
    rcases record_of_counterValue hwell hvalue delta with ⟨hfit, hok⟩ | ⟨hover, index, hfull⟩
    · exact ⟨by simp [hok, hfit], iff_of_true ⟨_, hok⟩ hfit, record_zero hwell hvalue⟩
    · exact ⟨iff_of_true ⟨index, node, hfull⟩ hover, by simp [hfull, hover],
        record_zero hwell hvalue⟩

/-- A tuple with two arguments out of range is refused for the first; a counter one below the
largest word takes one more and no two. -/
theorem record_fails_as_counterValue_sample :
    let tree := Sample.tree [0, 0, 0, 0, 0, 0] [2 ^ 64 - 2]
    let spad := Sample.leaf [0, 0, 0, 0, 0, 0] [2 ^ 64 - 2]
    Reachable tree ∧ tree.find ["spad"] = some spad ∧
      spad.Refuses "access" [2, 3] (.indexOutOfRange "access" 0 2 2) ∧
      (∃ state, record "access" [2, 3] 1 spad =
        .error (.indexOutOfRange "access" 0 2 2) state) ∧
      record "tick" [] 0 spad = .ok () spad ∧
      (∃ state, record "tick" [] 1 spad = .ok () state) ∧
      ∃ index state, record "tick" [] 2 spad =
        .error (.counterOverflow "tick" index 2) state := by
  intro tree spad
  have htree : Reachable tree :=
    have hrun : focus (record "tick" [] (2 ^ 64 - 2)) ["spad"]
        (Sample.tree [0, 0, 0, 0, 0, 0] [0]) = some (.ok () tree) := rfl
    .record Sample.reachable_tree hrun
  have hfind : tree.find ["spad"] = some spad := rfl
  have hvalue : spad.counterValue "tick" [] = .ok (2 ^ 64 - 2) := rfl
  have hrefused : spad.counterValue "access" [2, 3] =
      .error (.indexOutOfRange "access" 0 2 2) := rfl
  obtain ⟨hrefuses, -, hrecord, -, -⟩ :=
    record_fails_as_counterValue htree hfind "access" [2, 3] 1
  obtain ⟨-, -, -, hone, -⟩ := record_fails_as_counterValue htree hfind "tick" [] 1
  obtain ⟨-, -, -, htwo, -⟩ := record_fails_as_counterValue htree hfind "tick" [] 2
  exact ⟨htree, hfind, (hrefuses _).mp hrefused,
    (hrecord (.indexOutOfRange ..) True.intro).mpr hrefused, (hone _ hvalue).2.2,
    (hone _ hvalue).2.1.mpr (by decide), (htwo _ hvalue).1.mpr (by decide)⟩

end Component

end CountTree
