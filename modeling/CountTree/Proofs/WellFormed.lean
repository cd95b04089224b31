import CountTree.Proofs.Indexing
import CountTree.Proofs.Paths
import Mathlib.Data.List.Basic
import Mathlib.Data.List.Nodup

/-!
What holds at every component of a tree. `Counters.Fit` ties a counter table to its schema: a row
for each action, a cell for each argument tuple, a word in each cell. `Component.WellFormed` adds
what the names promise: children are told apart by name, no child of a leaf takes the name of one
of the leaf's own fields, and an action's name leads to its place. Attaching and recording keep
both everywhere in a tree, whether or not they succeed (`Everywhere.attach`, `Everywhere.record`).
A well-formed component leaves nothing to chance: `Component.FaultFree` lists what counting and
reporting rely on without looking.
-/

set_option autoImplicit false
set_option relaxedAutoImplicit false

namespace CountTree

/-! ### Counters that fit a schema -/

namespace Counters

/-- A row for each action of the schema, as long as the action's table, with words in its cells. -/
structure Fit (counters : Counters) (schema : Schema) : Prop where
  rows : counters.rows.map List.length = schema.actions.map Action.tableSize
  words : ∀ row ∈ counters.rows, ∀ count ∈ row, count ≤ Word.top

variable {counters : Counters} {schema : Schema} {action : Action} {place index : Nat}

theorem fit_zero (h : zero? schema = some counters) : counters.Fit schema := by
  unfold zero? at h
  split at h
  · obtain rfl := Option.some.inj h
    constructor
    · simp
    · intro row hrow count hcount
      obtain ⟨action, -, rfl⟩ := List.mem_map.mp hrow
      rw [List.eq_of_mem_replicate hcount]
      exact Nat.zero_le _
  · simp at h

theorem Fit.row (h : counters.Fit schema) (haction : schema.actions[place]? = some action) :
    ∃ row ∈ counters.rows, counters.rows[place]? = some row ∧ row.length = action.tableSize := by
  have hlength : (counters.rows.map List.length)[place]? = some action.tableSize := by
    rw [h.rows, List.getElem?_map, haction, Option.map_some]
  rw [List.getElem?_map] at hlength
  obtain ⟨row, hrow, hsize⟩ := Option.map_eq_some_iff.mp hlength
  exact ⟨row, List.mem_of_getElem? hrow, hrow, hsize⟩

/-- Below the table size every index has a cell, and it holds a word. -/
theorem Fit.get_of_lt (h : counters.Fit schema) (haction : schema.actions[place]? = some action)
    (hindex : index < action.tableSize) :
    ∃ count ≤ Word.top, counters.get place index = some count := by
  obtain ⟨row, hmem, hrow, hsize⟩ := h.row haction
  rw [← hsize] at hindex
  refine ⟨row[index], h.words row hmem _ (List.getElem_mem hindex), ?_⟩
  rw [get, cells, hrow, Option.bind_some, List.getElem?_eq_getElem hindex]

/-- Past the table size there is no cell. -/
theorem Fit.lt_of_get (h : counters.Fit schema) (haction : schema.actions[place]? = some action)
    {count : Nat} (hget : counters.get place index = some count) : index < action.tableSize := by
  obtain ⟨row, -, hrow, hsize⟩ := h.row haction
  rw [get, cells, hrow, Option.bind_some] at hget
  rw [← hsize]
  exact (List.getElem?_eq_some_iff.mp hget).1

theorem Fit.row_none (h : counters.Fit schema) (haction : schema.actions[place]? = none) :
    counters.rows[place]? = none := by
  have hlength : (counters.rows.map List.length)[place]? = none := by
    rw [h.rows, List.getElem?_map, haction, Option.map_none]
  rwa [List.getElem?_map, Option.map_eq_none_iff] at hlength

/-- Two tables that fit one schema and agree on its cells are the same table. -/
theorem Fit.ext {counters' : Counters} (h : counters.Fit schema) (h' : counters'.Fit schema)
    (hget : ∀ place action, schema.actions[place]? = some action → ∀ index < action.tableSize,
      counters.get place index = counters'.get place index) : counters = counters' := by
  refine congrArg Counters.mk (List.ext_getElem? fun place ↦ ?_)
  rcases haction : schema.actions[place]? with _ | action
  · rw [h.row_none haction, h'.row_none haction]
  · obtain ⟨row, -, hrow, hsize⟩ := h.row haction
    obtain ⟨row', -, hrow', hsize'⟩ := h'.row haction
    rw [hrow, hrow']
    refine congrArg some (List.ext_getElem? fun index ↦ ?_)
    by_cases hindex : index < action.tableSize
    · have hcell := hget place action haction index hindex
      rwa [get, get, cells, cells, hrow, hrow', Option.bind_some, Option.bind_some] at hcell
    · rw [List.getElem?_eq_none (by omega), List.getElem?_eq_none (by omega)]

theorem mem_modify {rows : List (List Nat)} {row : List Nat} {change : List Nat → List Nat}
    (h : row ∈ rows.modify place change) : row ∈ rows ∨ ∃ old ∈ rows, row = change old := by
  obtain ⟨other, hother⟩ := List.mem_iff_getElem?.mp h
  rw [List.getElem?_modify] at hother
  obtain ⟨old, hold, rfl⟩ := Option.map_eq_some_iff.mp hother
  have hmem : old ∈ rows := List.mem_of_getElem? hold
  split
  · exact .inr ⟨old, hmem, rfl⟩
  · exact .inl hmem

theorem Fit.set (h : counters.Fit schema) {count : Nat} (hcount : count ≤ Word.top) :
    (counters.set place index count).Fit schema := by
  constructor
  · rw [← h.rows]
    refine List.ext_getElem? fun other ↦ ?_
    simp only [Counters.set, List.getElem?_map, List.getElem?_modify]
    rcases counters.rows[other]? with _ | row
    · rfl
    · by_cases hother : place = other <;> simp [hother]
  · intro row hrow other hmem
    rcases mem_modify hrow with hrow | ⟨old, hold, rfl⟩
    · exact h.words row hrow other hmem
    · rcases List.mem_or_eq_of_mem_set hmem with hmem | rfl
      · exact h.words old hold other hmem
      · exact hcount

theorem add_eq_ok_iff {counters' : Counters} {delta : Nat} :
    counters.add action place index delta = .ok counters' ↔
      ∃ count, counters.get place index = some count ∧ count + delta ≤ Word.top ∧
        counters' = counters.set place index (count + delta) := by
  rcases hget : counters.get place index with _ | count
  · simp [add, hget]
  · by_cases hfit : count + delta ≤ Word.top
    · have hsum : Word.add? count delta = some (count + delta) := if_pos hfit
      simp [add, hget, hsum, hfit, eq_comm]
    · have hsum : Word.add? count delta = none := if_neg hfit
      simp [add, hget, hsum, hfit]

theorem Fit.add {counters' : Counters} {delta : Nat} (h : counters.Fit schema)
    (hadd : counters.add action place index delta = .ok counters') : counters'.Fit schema := by
  obtain ⟨count, -, hfit, rfl⟩ := add_eq_ok_iff.mp hadd
  exact h.set hfit

/-- The nonzero cells of a row are listed under the index at which they stand. -/
theorem mem_nonzero_iff {count : Nat} :
    (index, count) ∈ counters.nonzero place ↔
      count ≠ 0 ∧ counters.get place index = some count := by
  have hget : counters.get place index = ((counters.cells place).getD [])[index]? := by
    rw [get]
    rcases counters.cells place with _ | row <;> rfl
  simp only [nonzero, List.mem_map, List.mem_filter, Prod.exists, Prod.swap_prod_mk,
    Prod.mk.injEq, decide_eq_true_eq, List.mk_mem_zipIdx_iff_getElem?, hget]
  constructor
  · rintro ⟨count, index, ⟨hcell, hcount⟩, rfl, rfl⟩
    exact ⟨hcount, hcell⟩
  · rintro ⟨hcount, hcell⟩
    exact ⟨count, index, ⟨hcell, hcount⟩, rfl, rfl⟩

end Counters

namespace Component

/-! ### What attaching and recording do -/

theorem reports_eq_false_iff {leaf : Leaf} {name : String} :
    leaf.reports name = false ↔
      name ≠ Leaf.classKey ∧ name ≠ Leaf.attributesKey ∧
        ∀ action ∈ leaf.schema.actions, name ≠ action.name := by
  rw [Leaf.reports, Bool.or_eq_false_iff, Bool.or_eq_false_iff, decide_eq_false_iff_not,
    decide_eq_false_iff_not, and_assoc, ← Bool.not_eq_true, Schema.get_isSome_iff]
  simp only [not_exists, not_and, eq_comm (b := name), ne_eq]

theorem child_isSome_iff {node : Component} {name : String} :
    (node.child name).isSome ↔ name ∈ node.children.map Component.name := by
  rw [child, List.find?_isSome, List.mem_map]
  simp only [decide_eq_true_eq]

/-- Either the child becomes the last one, under a name that was free, or nothing changes. -/
theorem attach_cases (child node : Component) :
    (∃ cause, attach child node = .error cause node) ∨
      (child.name ∉ node.children.map Component.name ∧
        (∀ leaf, node.leaf? = some leaf → leaf.reports child.name = false) ∧
        attach child node = .ok () { node with children := node.children ++ [child] }) := by
  unfold attach
  split
  · exact .inl ⟨_, rfl⟩
  · rename_i hchild
    split
    · exact .inl ⟨_, rfl⟩
    · rename_i hreports
      refine .inr ⟨hchild ∘ child_isSome_iff.mpr, fun leaf hleaf ↦ ?_, rfl⟩
      simpa [hleaf] using hreports

theorem cell_eq_ok_iff {node : Component} {action : String} {arguments : List Nat} {cell : Cell} :
    node.cell action arguments = .ok cell ↔
      node.leaf? = some cell.leaf ∧ cell.leaf.schema.actions[cell.place]? = some cell.action ∧
        cell.action.name = action ∧ cell.action.index arguments = .ok cell.index := by
  rcases hleaf : node.leaf? with _ | leaf
  · simp [Component.cell, hleaf]
  · constructor
    · intro h
      simp only [Component.cell, hleaf] at h
      split at h
      · simp at h
      · rename_i place declared hposition
        split at h
        · simp at h
        · rename_i index hindex
          obtain rfl := Except.ok.inj h
          obtain ⟨hplace, hname⟩ := Schema.position_eq_some_iff.mp hposition
          exact ⟨rfl, hplace, hname, hindex⟩
    · rintro ⟨hcell, hplace, hname, hindex⟩
      obtain rfl := Option.some.inj hcell
      simp only [Component.cell, hleaf, Schema.position_eq_some_iff.mpr ⟨hplace, hname⟩, hindex]

/-- Either one counter changes, to a sum that is a word, or nothing changes. -/
theorem record_cases (action : String) (arguments : List Nat) (delta : Nat) (node : Component) :
    (∃ cause, record action arguments delta node = .error cause node) ∨
      ∃ cell counters, node.cell action arguments = .ok cell ∧
        cell.leaf.counters.add cell.action cell.place cell.index delta = .ok counters ∧
        record action arguments delta node =
          .ok () { node with kind := .leaf { cell.leaf with counters } } := by
  unfold record
  split
  · exact .inl ⟨_, rfl⟩
  · rename_i cell hcell
    split
    · exact .inl ⟨_, rfl⟩
    · rename_i counters hadd
      exact .inr ⟨cell, counters, hcell, hadd, rfl⟩

theorem name_after_attach (child node : Component) :
    (after (attach child) node).name = node.name := by
  rcases attach_cases child node with ⟨cause, h⟩ | ⟨-, -, h⟩ <;> rw [after, h] <;> rfl

theorem name_after_record (action : String) (arguments : List Nat) (delta : Nat)
    (node : Component) : (after (record action arguments delta) node).name = node.name := by
  rcases record_cases action arguments delta node with ⟨cause, h⟩ | ⟨cell, counters, -, -, h⟩ <;>
    rw [after, h] <;> rfl

theorem children_after_record (action : String) (arguments : List Nat) (delta : Nat)
    (node : Component) : (after (record action arguments delta) node).children = node.children := by
  rcases record_cases action arguments delta node with ⟨cause, h⟩ | ⟨cell, counters, -, -, h⟩ <;>
    rw [after, h] <;> rfl

/-! ### Well-formed components -/

/-- What holds at every component of a tree that was built step by step. -/
structure WellFormed (node : Component) : Prop where
  /-- Children are told apart by name. -/
  names_nodup : (node.children.map Component.name).Nodup
  /-- No child of a leaf takes the name of one of the leaf's own fields. -/
  names_free : ∀ leaf, node.leaf? = some leaf → ∀ name ∈ node.children.map Component.name,
    name ≠ Leaf.classKey ∧ name ≠ Leaf.attributesKey ∧
      ∀ action ∈ leaf.schema.actions, name ≠ action.name
  /-- Each name of an action leads to its own place. -/
  position_eq : ∀ leaf, node.leaf? = some leaf →
    (leaf.schema.actions.map Action.name).Nodup ∧
      ∀ place action, leaf.schema.actions[place]? = some action →
        leaf.schema.position action.name = some (place, action)
  /-- The size of a table is the product of positive cardinalities. -/
  tableSize_eq : ∀ leaf, node.leaf? = some leaf → ∀ action ∈ leaf.schema.actions,
    (∀ limit ∈ action.cardinalities, 0 < limit) ∧ action.tableSize = action.cardinalities.prod
  /-- The counters have a row for each action and a cell for each argument tuple. -/
  counters_fit : ∀ leaf, node.leaf? = some leaf → leaf.counters.Fit leaf.schema

namespace WellFormed

/-- The clauses on schemas and actions hold of every schema and action there is. -/
theorem of_names_of_fit {node : Component}
    (names_nodup : (node.children.map Component.name).Nodup)
    (names_free : ∀ leaf, node.leaf? = some leaf → ∀ name ∈ node.children.map Component.name,
      leaf.reports name = false)
    (counters_fit : ∀ leaf, node.leaf? = some leaf → leaf.counters.Fit leaf.schema) :
    node.WellFormed where
  names_nodup := names_nodup
  names_free leaf hleaf name hname := reports_eq_false_iff.mp (names_free leaf hleaf name hname)
  position_eq leaf _ :=
    ⟨leaf.schema.nodup, fun _ _ haction ↦ Schema.position_eq_some_iff.mpr ⟨haction, rfl⟩⟩
  tableSize_eq _ _ action _ := by
    rw [← Radix.size_eq_prod]
    exact ⟨action.cardinalities_pos, action.size_cardinalities.symm⟩
  counters_fit := counters_fit

/-- Only the names of the children matter. -/
theorem of_map_name_eq {node : Component} {children : List Component}
    (hnames : children.map Component.name = node.children.map Component.name)
    (h : node.WellFormed) : WellFormed { node with children } where
  names_nodup := hnames ▸ h.names_nodup
  names_free := hnames ▸ h.names_free
  position_eq := h.position_eq
  tableSize_eq := h.tableSize_eq
  counters_fit := h.counters_fit

theorem container (name : String) : (container name).WellFormed :=
  of_names_of_fit List.nodup_nil (fun _ hleaf ↦ absurd hleaf (Option.some_ne_none _).symm)
    (fun _ hleaf ↦ absurd hleaf (Option.some_ne_none _).symm)

theorem leaf {name classTag : String} {attributes : Attributes} {schema : Schema}
    {node : Component} (h : Component.leaf name classTag attributes schema = .ok node) :
    node.WellFormed := by
  unfold Component.leaf at h
  split at h
  · rename_i counters hzero
    obtain rfl := Except.ok.inj h
    refine of_names_of_fit List.nodup_nil (fun _ _ name hname ↦ absurd hname List.not_mem_nil)
      fun leaf hleaf ↦ ?_
    obtain rfl := Option.some.inj hleaf
    exact Counters.fit_zero hzero
  · simp at h

theorem attach {child node : Component} (h : node.WellFormed) :
    (after (Component.attach child) node).WellFormed := by
  rcases attach_cases child node with ⟨cause, hattach⟩ | ⟨hnew, hfree, hattach⟩
  · rw [after, hattach]
    exact h
  · rw [after, hattach]
    refine of_names_of_fit ?_ ?_ h.counters_fit
    · rw [Outcome.state, List.map_append, List.map_singleton]
      exact List.Nodup.append h.names_nodup (List.nodup_singleton _)
        (List.disjoint_singleton.mpr hnew)
    · intro leaf hleaf name hname
      rw [Outcome.state, List.map_append, List.mem_append, List.map_singleton,
        List.mem_singleton] at hname
      rcases hname with hname | rfl
      · exact reports_eq_false_iff.mpr (h.names_free leaf hleaf name hname)
      · exact hfree leaf hleaf

theorem record {action : String} {arguments : List Nat} {delta : Nat} {node : Component}
    (h : node.WellFormed) : (after (Component.record action arguments delta) node).WellFormed := by
  rcases record_cases action arguments delta node with
    ⟨cause, hrecord⟩ | ⟨cell, counters, hcell, hadd, hrecord⟩
  · rw [after, hrecord]
    exact h
  · rw [after, hrecord]
    have hleaf := (cell_eq_ok_iff.mp hcell).1
    refine of_names_of_fit h.names_nodup ?_ ?_
    · intro leaf hnew name hname
      obtain rfl := Option.some.inj hnew
      exact reports_eq_false_iff.mpr (h.names_free cell.leaf hleaf name hname)
    · intro leaf hnew
      obtain rfl := Option.some.inj hnew
      exact (h.counters_fit cell.leaf hleaf).add hadd

end WellFormed

/-- What counting on a component and reporting it take for granted: every index is computed within
the machine and has a cell, and every cell has arguments. -/
structure FaultFree (node : Component) : Prop where
  cell_ne : ∀ action arguments cause, node.cell action arguments ≠ .error (.fault cause)
  /-- The cell that is counted on is there, so that no default stands in for its count. -/
  cell_get : ∀ action arguments cell, node.cell action arguments = .ok cell →
    ∃ count ≤ Word.top, cell.leaf.counters.get cell.place cell.index = some count
  record_ne : ∀ action arguments delta cause state,
    Component.record action arguments delta node ≠ .error (.fault cause) state
  counterValue_ne : ∀ action arguments cause,
    node.counterValue action arguments ≠ .error (.fault cause)
  /-- The index of a counted cell is decoded within the machine, to the digits that are shown. -/
  decode_eq : ∀ leaf, node.leaf? = some leaf →
    ∀ place action, leaf.schema.actions[place]? = some action →
      ∀ index count, (index, count) ∈ leaf.counters.nonzero place →
        index < action.tableSize ∧ Radix.decode? index action.cardinalities =
          some (Radix.digits action.cardinalities index)
  /-- The one cell of an action without arguments is there. -/
  get_zero : ∀ leaf, node.leaf? = some leaf →
    ∀ place action, leaf.schema.actions[place]? = some action → action.arity = 0 →
      ∃ count, leaf.counters.get place 0 = some count

theorem cell_ne_fault (node : Component) (action : String) (arguments : List Nat) (cause : Fault) :
    node.cell action arguments ≠ .error (.fault cause) := by
  intro h
  unfold Component.cell at h
  split at h
  · simp at h
  · split at h
    · simp at h
    · split at h
      · rename_i hindex
        obtain rfl := Except.error.inj h
        exact Action.index_ne_fault _ _ _ hindex
      · simp at h

theorem counterValue_ne_fault (node : Component) (action : String) (arguments : List Nat)
    (cause : Fault) : node.counterValue action arguments ≠ .error (.fault cause) := by
  intro hvalue
  rcases hcell : node.cell action arguments with failure | cell
  · rw [Component.counterValue, hcell] at hvalue
    obtain rfl := Except.error.inj hvalue
    exact node.cell_ne_fault action arguments cause hcell
  · rw [Component.counterValue, hcell] at hvalue
    simp at hvalue

theorem WellFormed.cell_get {node : Component} (h : node.WellFormed) {action : String}
    {arguments : List Nat} {cell : Cell} (hcell : node.cell action arguments = .ok cell) :
    ∃ count ≤ Word.top, cell.leaf.counters.get cell.place cell.index = some count := by
  obtain ⟨hleaf, hplace, -, hindex⟩ := cell_eq_ok_iff.mp hcell
  exact (h.counters_fit cell.leaf hleaf).get_of_lt hplace (Action.index_lt_tableSize hindex)

/-- A recording fails without a fault: what it reads is there, and an overflow is no fault. -/
theorem WellFormed.record_ne_fault {node : Component} (h : node.WellFormed) (action : String)
    (arguments : List Nat) (delta : Nat) (cause : Fault) (state : Component) :
    Component.record action arguments delta node ≠ .error (.fault cause) state := by
  intro hrecord
  rcases hcell : node.cell action arguments with failure | cell
  · rw [Component.record, hcell] at hrecord
    obtain ⟨rfl, -⟩ := EStateM.Result.error.inj hrecord
    exact node.cell_ne_fault action arguments cause hcell
  · obtain ⟨count, -, hget⟩ := h.cell_get hcell
    by_cases hfit : count + delta ≤ Word.top
    · have hsum : Word.add? count delta = some (count + delta) := if_pos hfit
      simp [Component.record, hcell, Counters.add, hget, hsum] at hrecord
    · have hsum : Word.add? count delta = none := if_neg hfit
      simp [Component.record, hcell, Counters.add, hget, hsum] at hrecord

theorem WellFormed.faultFree {node : Component} (h : node.WellFormed) : node.FaultFree where
  cell_ne := node.cell_ne_fault
  cell_get _ _ _ hcell := h.cell_get hcell
  record_ne := h.record_ne_fault
  counterValue_ne := node.counterValue_ne_fault
  decode_eq leaf hleaf place action haction index count hmem :=
    ⟨(h.counters_fit leaf hleaf).lt_of_get haction (Counters.mem_nonzero_iff.mp hmem).2,
      action.decode?_eq_digits index⟩
  get_zero leaf hleaf place action haction _ := by
    obtain ⟨count, -, hget⟩ := (h.counters_fit leaf hleaf).get_of_lt haction action.tableSize_pos
    exact ⟨count, hget⟩

/-! ### Whole trees -/

namespace Everywhere

variable {root child : Component}

/-- Attaching at a path keeps a tree well-formed, also when it is refused. -/
theorem attach (h : Everywhere WellFormed root) (hchild : Everywhere WellFormed child)
    (path : List String) :
    Everywhere WellFormed (root.adjust (after (Component.attach child)) path) := by
  refine h.adjust (fun _ _ ↦ WellFormed.of_map_name_eq) (name_after_attach child) ?_
  intro node hnode
  have hnode := h.find hnode
  refine .intro hnode.here.attach ?_
  rcases attach_cases child node with ⟨cause, hattach⟩ | ⟨-, -, hattach⟩
  · rw [after, hattach]
    exact fun _ ↦ hnode.of_mem
  · rw [after, hattach]
    intro other hother
    rcases List.mem_append.mp hother with hother | hother
    · exact hnode.of_mem hother
    · rwa [List.mem_singleton.mp hother]

/-- Recording at a path keeps a tree well-formed, also when it is refused. -/
theorem record (h : Everywhere WellFormed root) (action : String) (arguments : List Nat)
    (delta : Nat) (path : List String) :
    Everywhere WellFormed (root.adjust (after (Component.record action arguments delta)) path) := by
  refine h.adjust (fun _ _ ↦ WellFormed.of_map_name_eq) (name_after_record _ _ _) ?_
  intro node hnode
  have hnode := h.find hnode
  refine .intro hnode.here.record ?_
  rw [children_after_record]
  exact fun _ ↦ hnode.of_mem

end Everywhere

end Component

end CountTree
