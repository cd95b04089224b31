import CountTree.Proofs.Skeleton

/-!
Reading counters. `counterValue` answers on exactly the actions of a leaf's schema and the tuples in
their range (`exists_counterValue_iff`), and different ones have different cells
(`cell_injective`). An `Address` adds a path; `tally` reads the counter at an address of a tree.
`eq_of_tally_eq` says that nothing of a well-formed tree is missed in this way: two trees with one
skeleton and the same number at every address are the same tree.
-/

set_option autoImplicit false
set_option relaxedAutoImplicit false

namespace CountTree

namespace Component

variable {node : Component} {action action' : String} {arguments arguments' : List Nat}
  {count : Nat}

/-! ### One component -/

/-- The actions that a component can count: those of a leaf's schema, none for a container. -/
def actions (node : Component) : List Action :=
  match node.leaf? with
  | none => []
  | some leaf => leaf.schema.actions

theorem mem_actions_iff {declared : Action} :
    declared ∈ node.actions ↔ ∃ leaf, node.leaf? = some leaf ∧ declared ∈ leaf.schema.actions := by
  rw [actions]
  rcases node.leaf? with _ | leaf <;> simp

/-- Different actions and different arguments have different cells. -/
theorem cell_injective {cell cell' : Cell} (hcell : node.cell action arguments = .ok cell)
    (hcell' : node.cell action' arguments' = .ok cell') (hplace : cell.place = cell'.place)
    (hindex : cell.index = cell'.index) : action = action' ∧ arguments = arguments' := by
  obtain ⟨hleaf, haction, hname, harguments⟩ := cell_eq_ok_iff.mp hcell
  obtain ⟨hleaf', haction', hname', harguments'⟩ := cell_eq_ok_iff.mp hcell'
  have hsameLeaf : cell.leaf = cell'.leaf := Option.some.inj (hleaf.symm.trans hleaf')
  have hsameAction : cell.action = cell'.action := by
    rw [hsameLeaf, hplace, haction'] at haction
    exact (Option.some.inj haction).symm
  rw [hsameAction, hindex] at harguments
  exact ⟨by rw [← hname, ← hname', hsameAction], Action.index_injective harguments harguments'⟩

/-- A new counter table gives the cells of the old one. -/
theorem cell_with_counters {leaf : Leaf} (hleaf : node.leaf? = some leaf) (counters : Counters) :
    cell { node with kind := .leaf { leaf with counters } } action arguments =
      (node.cell action arguments).map fun cell ↦ { cell with leaf := { leaf with counters } } := by
  have hnew : leaf? { node with kind := .leaf { leaf with counters } } =
      some { leaf with counters } := rfl
  rw [cell, cell, hleaf, hnew]
  dsimp only
  rcases leaf.schema.position action with _ | ⟨place, declared⟩
  · rfl
  · dsimp only
    rcases declared.index arguments with _ | _ <;> rfl

theorem counterValue_of_cell {cell : Cell} (hcell : node.cell action arguments = .ok cell) :
    node.counterValue action arguments =
      .ok ((cell.leaf.counters.get cell.place cell.index).getD 0) := by
  rw [counterValue, hcell]

theorem counterValue_error_iff {cause : ModelError} :
    node.counterValue action arguments = .error cause ↔
      node.cell action arguments = .error cause := by
  rw [counterValue]
  rcases node.cell action arguments with _ | _ <;> simp

theorem counterValue_eq_ok_iff (h : node.WellFormed) :
    node.counterValue action arguments = .ok count ↔
      ∃ cell, node.cell action arguments = .ok cell ∧
        cell.leaf.counters.get cell.place cell.index = some count := by
  constructor
  · intro hvalue
    rcases hcell : node.cell action arguments with cause | cell
    · rw [counterValue_error_iff.mpr hcell] at hvalue
      simp at hvalue
    · obtain ⟨other, -, hget⟩ := h.cell_get hcell
      rw [counterValue_of_cell hcell, hget, Option.getD_some] at hvalue
      exact ⟨cell, rfl, Except.ok.inj hvalue ▸ hget⟩
  · rintro ⟨cell, hcell, hget⟩
    rw [counterValue_of_cell hcell, hget, Option.getD_some]

/-- A counter holds a word. -/
theorem counterValue_le_top (h : node.WellFormed)
    (hvalue : node.counterValue action arguments = .ok count) : count ≤ Word.top := by
  obtain ⟨cell, hcell, hget⟩ := (counterValue_eq_ok_iff h).mp hvalue
  obtain ⟨other, hother, hget'⟩ := h.cell_get hcell
  exact Option.some.inj (hget.symm.trans hget') ▸ hother

theorem cell_of_inRange {leaf : Leaf} {declared : Action} {place : Nat}
    (hleaf : node.leaf? = some leaf) (hplace : leaf.schema.actions[place]? = some declared)
    (hrange : Radix.InRange arguments declared.cardinalities) :
    node.cell declared.name arguments =
      .ok ⟨leaf, place, declared, Radix.value arguments declared.cardinalities⟩ :=
  cell_eq_ok_iff.mpr ⟨hleaf, hplace, rfl, Action.index_of_inRange hrange⟩

theorem cell_digits {leaf : Leaf} {declared : Action} {place index : Nat}
    (hleaf : node.leaf? = some leaf) (hplace : leaf.schema.actions[place]? = some declared)
    (hindex : index < declared.tableSize) :
    node.cell declared.name (Radix.digits declared.cardinalities index) =
      .ok ⟨leaf, place, declared, index⟩ :=
  cell_eq_ok_iff.mpr ⟨hleaf, hplace, rfl, Action.index_digits hindex⟩

/-- The counters of a component: one for each action of its schema and each tuple in range. -/
theorem exists_counterValue_iff :
    (∃ count, node.counterValue action arguments = .ok count) ↔
      ∃ leaf declared, node.leaf? = some leaf ∧ declared ∈ leaf.schema.actions ∧
        declared.name = action ∧ Radix.InRange arguments declared.cardinalities := by
  constructor
  · rintro ⟨count, hvalue⟩
    rcases hcell : node.cell action arguments with cause | cell
    · rw [counterValue_error_iff.mpr hcell] at hvalue
      simp at hvalue
    · obtain ⟨hleaf, hplace, hname, hindex⟩ := cell_eq_ok_iff.mp hcell
      exact ⟨cell.leaf, cell.action, hleaf, List.mem_of_getElem? hplace, hname,
        (Action.index_eq_ok_iff.mp hindex).1⟩
  · rintro ⟨leaf, declared, hleaf, hdeclared, rfl, hrange⟩
    obtain ⟨place, hplace⟩ := List.mem_iff_getElem?.mp hdeclared
    exact ⟨_, counterValue_of_cell (cell_of_inRange hleaf hplace hrange)⟩

/-- Two leaves with one schema and the same value of every counter hold the same counters. -/
theorem counters_eq_of_counterValue_eq {node' : Component} {leaf leaf' : Leaf}
    (h : node.WellFormed) (h' : node'.WellFormed) (hleaf : node.leaf? = some leaf)
    (hleaf' : node'.leaf? = some leaf') (hschema : leaf.schema = leaf'.schema)
    (hvalue : ∀ declared ∈ leaf.schema.actions, ∀ arguments,
      Radix.InRange arguments declared.cardinalities →
        node.counterValue declared.name arguments = node'.counterValue declared.name arguments) :
    leaf.counters = leaf'.counters := by
  have hfit := h.counters_fit leaf hleaf
  have hfit' := h'.counters_fit leaf' hleaf'
  rw [← hschema] at hfit'
  refine hfit.ext hfit' fun place declared hplace index hindex ↦ ?_
  have hplace' : leaf'.schema.actions[place]? = some declared := by rwa [← hschema]
  obtain ⟨count, -, hget⟩ := hfit.get_of_lt hplace hindex
  obtain ⟨count', -, hget'⟩ := hfit'.get_of_lt hplace hindex
  have hsame := hvalue declared (List.mem_of_getElem? hplace) _ (Action.inRange_digits hindex)
  rw [counterValue_of_cell (cell_digits hleaf hplace hindex),
    counterValue_of_cell (cell_digits hleaf' hplace' hindex), hget, hget'] at hsame
  rw [hget, hget']
  exact congrArg some (Except.ok.inj hsame)

end Component

/-! ### A component at a path -/

/-- Where a counter stands in a tree. -/
@[ext]
structure Address where
  path : List String
  action : String
  arguments : List Nat
deriving DecidableEq

namespace Component

/-- The counter at an address, if the path leads to a component that has it. -/
def tally (root : Component) (address : Address) : Option Nat :=
  (root.find address.path).bind fun node ↦
    (node.counterValue address.action address.arguments).toOption

/-- The path leads to a leaf, the leaf declares the action, and the arguments are in range. -/
def HasCounter (root : Component) (address : Address) : Prop :=
  ∃ node leaf action, root.find address.path = some node ∧ node.leaf? = some leaf ∧
    action ∈ leaf.schema.actions ∧ action.name = address.action ∧
      Radix.InRange address.arguments action.cardinalities

variable {root : Component} {address : Address} {count : Nat}

theorem tally_eq_some_iff :
    root.tally address = some count ↔ ∃ node, root.find address.path = some node ∧
      node.counterValue address.action address.arguments = .ok count := by
  rw [tally, Option.bind_eq_some_iff]
  refine exists_congr fun node ↦ and_congr_right fun _ ↦ ?_
  rcases node.counterValue address.action address.arguments with _ | _ <;> simp [Except.toOption]

theorem hasCounter_iff : root.HasCounter address ↔ ∃ count, root.tally address = some count := by
  constructor
  · rintro ⟨node, leaf, action, hnode, hleaf, haction, hname, hrange⟩
    obtain ⟨count, hvalue⟩ :=
      exists_counterValue_iff.mpr ⟨leaf, action, hleaf, haction, hname, hrange⟩
    exact ⟨count, tally_eq_some_iff.mpr ⟨node, hnode, hvalue⟩⟩
  · rintro ⟨count, htally⟩
    obtain ⟨node, hnode, hvalue⟩ := tally_eq_some_iff.mp htally
    obtain ⟨leaf, action, hleaf, haction, hname, hrange⟩ :=
      exists_counterValue_iff.mp ⟨count, hvalue⟩
    exact ⟨node, leaf, action, hnode, hleaf, haction, hname, hrange⟩

/-- What a component has counted does not depend on its children. -/
theorem tally_eq_of_bare {root' : Component}
    (h : (root.find address.path).map bare = (root'.find address.path).map bare) :
    root.tally address = root'.tally address := by
  have hbare : ∀ tree : Component, tree.tally address =
      ((tree.find address.path).map bare).bind fun node ↦
        (node.counterValue address.action address.arguments).toOption := by
    intro tree
    rw [tally, Option.bind_map]
    rfl
  rw [hbare, hbare, h]

theorem tally_nil (root : Component) (action : String) (arguments : List Nat) :
    root.tally ⟨[], action, arguments⟩ = (root.counterValue action arguments).toOption := rfl

theorem tally_cons (root : Component) (name : String) (path : List String) (action : String)
    (arguments : List Nat) :
    root.tally ⟨name :: path, action, arguments⟩ =
      (root.child name).bind (·.tally ⟨path, action, arguments⟩) := by
  rw [tally, find_cons, Option.bind_assoc]
  rfl

/-! ### Nothing else is counted -/

theorem child_of_mem {nodes : List Component} {child : Component}
    (hnodup : (nodes.map Component.name).Nodup) (hchild : child ∈ nodes) :
    nodes.find? (·.name = child.name) = some child := by
  induction nodes with
  | nil => exact absurd hchild List.not_mem_nil
  | cons node nodes ih =>
    rw [List.map_cons, List.nodup_cons] at hnodup
    rcases List.mem_cons.mp hchild with rfl | hchild
    · exact List.find?_cons_of_pos (by simp)
    · have hne : node.name ≠ child.name := fun heq ↦
        hnodup.1 (heq ▸ List.mem_map_of_mem hchild)
      rw [List.find?_cons_of_neg (by simpa using hne), ih hnodup.2 hchild]

/-- Two trees with one skeleton are the same if they agree in a way that goes down from components
to their children and settles what each action of a component has counted. -/
theorem eq_of_agree (Agree : Component → Component → Prop)
    (hvalue : ∀ {node node' action arguments count count'}, node.WellFormed → node'.WellFormed →
      Agree node node' → action ∈ node.actions → action ∈ node'.actions →
      Radix.InRange arguments action.cardinalities →
      node.counterValue action.name arguments = .ok count →
      node'.counterValue action.name arguments = .ok count' → count = count')
    (hchild : ∀ {node node' child child'}, node.WellFormed → node'.WellFormed →
      Agree node node' → child ∈ node.children → child' ∈ node'.children →
      child.name = child'.name → Agree child child')
    {root root' : Component} (h : Everywhere WellFormed root) (h' : Everywhere WellFormed root')
    (hskeleton : root.skeleton = root'.skeleton) (hagree : Agree root root') : root = root' := by
  induction root using Component.induction generalizing root' with
  | node name kind children ih =>
    refine eq_of_skeleton_eq hskeleton ?_ ?_
    · intro leaf leaf' hleaf hleaf' hschema
      refine counters_eq_of_counterValue_eq h.here h'.here hleaf hleaf' hschema ?_
      intro declared hdeclared arguments hrange
      have hdeclared' : declared ∈ leaf'.schema.actions := hschema ▸ hdeclared
      obtain ⟨count, hcount⟩ :=
        exists_counterValue_iff.mpr ⟨leaf, declared, hleaf, hdeclared, rfl, hrange⟩
      obtain ⟨count', hcount'⟩ :=
        exists_counterValue_iff.mpr ⟨leaf', declared, hleaf', hdeclared', rfl, hrange⟩
      have haction := mem_actions_iff.mpr ⟨leaf, hleaf, hdeclared⟩
      have haction' := mem_actions_iff.mpr ⟨leaf', hleaf', hdeclared'⟩
      rw [hcount, hcount', hvalue h.here h'.here hagree haction haction' hrange hcount hcount']
    · intro child child' hmem hmem' hsame
      have hname : child.name = child'.name := by simpa using congrArg Component.name hsame
      exact ih child hmem (h.of_mem hmem) (h'.of_mem hmem') hsame
        (hchild h.here h'.here hagree hmem hmem' hname)

/-- Nothing of a tree is left out: the skeleton and the number at every address are the tree. -/
theorem eq_of_tally_eq {root root' : Component} (h : Everywhere WellFormed root)
    (h' : Everywhere WellFormed root') (hskeleton : root.skeleton = root'.skeleton)
    (htally : ∀ address, root.tally address = root'.tally address) : root = root' := by
  refine eq_of_agree (fun node node' ↦ ∀ address, node.tally address = node'.tally address)
    ?_ ?_ h h' hskeleton htally
  · intro node node' action arguments count count' _ _ hsame _ _ _ hcount hcount'
    have hroot := hsame ⟨[], action.name, arguments⟩
    rw [tally_nil, tally_nil, hcount, hcount'] at hroot
    exact Option.some.inj hroot
  · intro node node' child child' hnode hnode' hsame hchild hchild' hname address
    have hfind : node.child child.name = some child := child_of_mem hnode.names_nodup hchild
    have hfind' : node'.child child.name = some child' := by
      rw [hname]
      exact child_of_mem hnode'.names_nodup hchild'
    have hbelow := hsame ⟨child.name :: address.path, address.action, address.arguments⟩
    rwa [tally_cons, tally_cons, hfind, hfind'] at hbelow

end Component

end CountTree
