import CountTree.Proofs.Cells
import CountTree.Proofs.Entries
import CountTree.Proofs.Reachable
import CountTree.Report

/-!
What the report of counts says of a tree. `Component.Accounted` describes the entry of one component
without saying how it is computed: the component's own actions in the order of its schema, then its
children in their order, each under a key of its own, and under the key of an action exactly the
counters of that action that are not zero. `actionCounts_exact` is the main statement: every
component of a reachable tree is accounted for in this way, and so two trees that differ at most in
their counters have the same report only if they have the same counters.
-/

set_option autoImplicit false
set_option relaxedAutoImplicit false

namespace CountTree

open Component

/-- The nonzero cells of a row come in the order of the row. -/
theorem Counters.nonzero_increasing (counters : Counters) (place : Nat) :
    (counters.nonzero place).Pairwise fun first second ↦ first.1 < second.1 := by
  have hindices : ∀ row : List Nat, row.zipIdx.Pairwise fun first second ↦ first.2 < second.2 := by
    intro row
    rw [← List.pairwise_map (f := Prod.snd) (R := (· < ·)), List.zipIdx_map_snd]
    exact List.pairwise_lt_range'
  rw [nonzero, List.pairwise_map]
  exact (hindices _).filter _

namespace Component

/-! ### What an entry should say -/

/-- The observations of an action: each argument tuple whose counter is not zero, once, together
with that counter, and in the order of the action's table. -/
structure Observes (node : Component) (action : Action)
    (observations : List (List Nat × Nat)) : Prop where
  once : (observations.map Prod.fst).Nodup
  increasing : observations.Pairwise fun first second ↦
    Radix.value first.1 action.cardinalities < Radix.value second.1 action.cardinalities
  mem_iff : ∀ arguments count, (arguments, count) ∈ observations ↔
    Radix.InRange arguments action.cardinalities ∧
      node.counterValue action.name arguments = .ok count ∧ count ≠ 0

def observationDocument (observation : List Nat × Nat) : Document :=
  .mapping [("count", .number observation.2),
    ("arguments", .sequence (observation.1.map .number))]

/-- What stands under the key of an action, or that there is no such key. -/
inductive Shows (node : Component) (action : Action) : Option Document → Prop
  | count {count : Nat} (harity : action.arity = 0)
      (hvalue : node.counterValue action.name [] = .ok count) :
      Shows node action (some (.mapping [("count", .number count)]))
  | observations {observations : List (List Nat × Nat)} (harity : action.arity ≠ 0)
      (hobserves : node.Observes action observations) (hne : observations ≠ []) :
      Shows node action (some (.sequence (observations.map observationDocument)))
  | absent (harity : action.arity ≠ 0) (hobserves : node.Observes action []) :
      Shows node action none

/-- What the report has under the key of an action. -/
def shown (node : Component) (action : Action) : Option Document :=
  node.leaf?.bind fun leaf ↦ (leaf.schema.position action.name).bind fun found ↦
    Report.actionField leaf.counters found.1 action

def actionEntries (node : Component) : Mapping :=
  node.actions.filterMap fun action ↦ (node.shown action).map (action.name, ·)

def childEntries (node : Component) : Mapping :=
  node.children.map fun child ↦ (child.name, .mapping (Report.countsEntry child))

/-- The entry of a component has a key for each of its own actions that shows something, in the
order of the schema, and then one for each child, in the order of the children. No key comes twice,
and so none of them was put in over another. -/
structure Accounted (node : Component) : Prop where
  keys_nodup : (Keyed.keys (Report.countsEntry node)).Nodup
  entry_eq : Report.countsEntry node = node.actionEntries ++ node.childEntries
  shows : ∀ action ∈ node.actions, node.Shows action (node.shown action)

variable {node : Component} {leaf : Leaf} {action : Action} {place : Nat}

theorem shown_eq (hleaf : node.leaf? = some leaf)
    (hplace : leaf.schema.actions[place]? = some action) :
    node.shown action = Report.actionField leaf.counters place action := by
  rw [shown, hleaf, Option.bind_some, Schema.position_eq_some_iff.mpr ⟨hplace, rfl⟩,
    Option.bind_some]

/-! ### The field of an action -/

/-- The nonzero cells of a row, decoded, are the observations of the row's action. -/
theorem observes_nonzero (h : node.WellFormed) (hleaf : node.leaf? = some leaf)
    (hplace : leaf.schema.actions[place]? = some action) :
    node.Observes action ((leaf.counters.nonzero place).map fun cell ↦
      (Radix.digits action.cardinalities cell.1, cell.2)) := by
  have hlt : ∀ cell ∈ leaf.counters.nonzero place, cell.1 < action.tableSize := fun cell hcell ↦
    (h.counters_fit leaf hleaf).lt_of_get hplace (Counters.mem_nonzero_iff.mp hcell).2
  have hvalue : ∀ cell ∈ leaf.counters.nonzero place,
      Radix.value (Radix.digits action.cardinalities cell.1) action.cardinalities = cell.1 :=
    fun cell hcell ↦ Radix.value_digits (by rw [action.size_cardinalities]; exact hlt cell hcell)
  have hincreasing : (leaf.counters.nonzero place).Pairwise fun first second ↦
      Radix.value (Radix.digits action.cardinalities first.1) action.cardinalities <
        Radix.value (Radix.digits action.cardinalities second.1) action.cardinalities := by
    refine (leaf.counters.nonzero_increasing place).imp_of_mem fun hfirst hsecond hless ↦ ?_
    rwa [hvalue _ hfirst, hvalue _ hsecond]
  refine ⟨?_, List.pairwise_map.mpr hincreasing, fun arguments count ↦ ?_⟩
  · rw [List.map_map, List.Nodup, List.pairwise_map]
    refine hincreasing.imp fun hless heq ↦ ?_
    exact Nat.ne_of_lt hless (congrArg (Radix.value · action.cardinalities) heq)
  · rw [List.mem_map]
    constructor
    · rintro ⟨⟨index, count⟩, hmem, heq⟩
      obtain ⟨rfl, rfl⟩ := Prod.mk.inj heq
      obtain ⟨hne, hget⟩ := Counters.mem_nonzero_iff.mp hmem
      have hindex := hlt _ hmem
      exact ⟨Action.inRange_digits hindex, (counterValue_eq_ok_iff h).mpr
        ⟨_, cell_digits hleaf hplace hindex, hget⟩, hne⟩
    · rintro ⟨hrange, hcount, hne⟩
      obtain ⟨cell, hcell, hget⟩ := (counterValue_eq_ok_iff h).mp hcount
      obtain rfl := Except.ok.inj (hcell.symm.trans (cell_of_inRange hleaf hplace hrange))
      exact ⟨_, Counters.mem_nonzero_iff.mpr ⟨hne, hget⟩, by rw [Radix.digits_value hrange]⟩

theorem WellFormed.shows_shown (h : node.WellFormed) (haction : action ∈ node.actions) :
    node.Shows action (node.shown action) := by
  obtain ⟨leaf, hleaf, hmem⟩ := mem_actions_iff.mp haction
  obtain ⟨place, hplace⟩ := List.mem_iff_getElem?.mp hmem
  rw [shown_eq hleaf hplace, Report.actionField]
  by_cases harity : action.arity = 0
  · have hnil : action.cardinalities = [] := List.length_eq_zero_iff.mp harity
    have hcell : node.cell action.name [] = .ok ⟨leaf, place, action, 0⟩ := by
      have hrange : Radix.InRange [] action.cardinalities := by rw [hnil]; trivial
      rw [cell_of_inRange hleaf hplace hrange, hnil]
      rfl
    rw [if_pos harity]
    exact .count harity (counterValue_of_cell hcell)
  · have hobserves := observes_nonzero h hleaf hplace
    rw [if_neg harity]
    rcases hnonzero : leaf.counters.nonzero place with _ | ⟨cell, cells⟩
    · rw [hnonzero] at hobserves
      exact .absent harity hobserves
    · rw [hnonzero] at hobserves
      have hdocuments : (cell :: cells).map (Report.observation action) =
          ((cell :: cells).map fun cell ↦
            (Radix.digits action.cardinalities cell.1, cell.2)).map observationDocument := by
        rw [List.map_map]
        rfl
      dsimp only
      rw [hdocuments]
      exact .observations harity hobserves (List.cons_ne_nil _ _)

/-! ### The entry of a component -/

theorem insertActions_eq (counters : Counters) (place : Nat) (actions : List Action)
    (entry : Mapping) : Report.insertActions counters place actions entry =
      Keyed.insertAll ((actions.zipIdx place).filterMap fun indexed ↦
        (Report.actionField counters indexed.2 indexed.1).map (indexed.1.name, ·)) entry := by
  induction actions generalizing place entry with
  | nil => rfl
  | cons action actions ih =>
    rw [Report.insertActions, ih, List.zipIdx_cons, List.filterMap_cons]
    rcases Report.actionField counters place action with _ | field <;> rfl

theorem insertCounts_eq (children : List Component) (entry : Mapping) :
    Report.insertCounts children entry = Keyed.insertAll
      (children.map fun child ↦ (child.name, .mapping (Report.countsEntry child))) entry := by
  induction children generalizing entry with
  | nil => rfl
  | cons child children ih =>
    rw [Report.insertCounts, ih]
    rfl

theorem actionFields_eq (node : Component) :
    Report.actionFields node.kind = Keyed.insertAll node.actionEntries [] := by
  rcases hkind : node.kind with _ | leaf
  · have hactions : node.actions = [] := by rw [actions, leaf?, hkind]; rfl
    rw [actionEntries, hactions]
    rfl
  · have hleaf : node.leaf? = some leaf := leaf?_eq_some_iff.mpr hkind
    have hactions : node.actions = leaf.schema.actions.zipIdx.map Prod.fst := by
      rw [actions, hleaf, List.zipIdx_map_fst]
    rw [Report.actionFields, insertActions_eq, actionEntries, hactions, List.filterMap_map]
    congr 1
    refine List.filterMap_congr fun indexed hindexed ↦ ?_
    rw [Function.comp_apply, shown_eq hleaf (List.mk_mem_zipIdx_iff_getElem?.mp hindexed)]

/-- Everything that is put into an entry, in the order in which it is put in. -/
theorem countsEntry_eq_insertAll (node : Component) :
    Report.countsEntry node = Keyed.insertAll (node.actionEntries ++ node.childEntries) [] := by
  have hnode : Report.countsEntry node =
      Report.insertCounts node.children (Report.actionFields node.kind) := by
    obtain ⟨name, kind, children⟩ := node
    rw [Report.countsEntry]
  rw [hnode, insertCounts_eq, actionFields_eq, Keyed.insertAll_append]
  rfl

theorem keys_actionEntries_sublist (node : Component) :
    (Keyed.keys node.actionEntries).Sublist (node.actions.map Action.name) :=
  Keyed.keys_filterMap_sublist Action.name node.shown node.actions

theorem keys_childEntries (node : Component) :
    Keyed.keys node.childEntries = node.children.map Component.name := by
  rw [childEntries, Keyed.keys, List.map_map]
  rfl

theorem WellFormed.nodup_actions (h : node.WellFormed) : (node.actions.map Action.name).Nodup := by
  rw [actions]
  rcases hleaf : node.leaf? with _ | leaf
  · exact List.nodup_nil
  · exact (h.position_eq leaf hleaf).1

theorem WellFormed.name_ne (h : node.WellFormed) (haction : action ∈ node.actions) {name : String}
    (hname : name ∈ node.children.map Component.name) : name ≠ action.name := by
  obtain ⟨leaf, hleaf, hmem⟩ := mem_actions_iff.mp haction
  exact (h.names_free leaf hleaf name hname).2.2 action hmem

/-- An entry says everything about its component, and says it once. -/
theorem WellFormed.accounted (h : node.WellFormed) : node.Accounted := by
  have hnodup : (Keyed.keys (node.actionEntries ++ node.childEntries)).Nodup := by
    rw [Keyed.keys_append, keys_childEntries]
    refine List.Nodup.append (node.keys_actionEntries_sublist.nodup h.nodup_actions)
      h.names_nodup fun name hown hchild ↦ ?_
    obtain ⟨action, haction, rfl⟩ :=
      List.mem_map.mp (node.keys_actionEntries_sublist.subset hown)
    exact h.name_ne haction hchild rfl
  have hentry : Report.countsEntry node = node.actionEntries ++ node.childEntries := by
    rw [countsEntry_eq_insertAll, Keyed.insertAll_eq_append (by exact hnodup), List.nil_append]
  exact ⟨hentry ▸ hnodup, hentry, fun action ↦ h.shows_shown⟩

/-! ### Reading an entry -/

/-- The key of an action leads to what the report shows of it. -/
theorem WellFormed.get?_action (h : node.WellFormed) (haction : action ∈ node.actions) :
    Keyed.get? (Report.countsEntry node) action.name = node.shown action := by
  obtain ⟨hnodup, hentry, -⟩ := h.accounted
  rcases hshown : node.shown action with _ | field
  · rw [Keyed.get?_eq_none_iff, hentry, Keyed.keys_append, List.mem_append, keys_childEntries]
    rintro (hown | hchild)
    · obtain ⟨entry, hmem, hname⟩ := List.mem_map.mp hown
      obtain ⟨other, hother, hmap⟩ := List.mem_filterMap.mp hmem
      obtain ⟨field, hfield, rfl⟩ := Option.map_eq_some_iff.mp hmap
      obtain rfl := List.inj_on_of_nodup_map h.nodup_actions hother haction hname
      simp [hshown] at hfield
    · exact h.name_ne haction hchild rfl
  · rw [Keyed.get?_eq_some_iff hnodup, hentry]
    refine List.mem_append_left _ (List.mem_filterMap.mpr ⟨action, haction, ?_⟩)
    rw [hshown, Option.map_some]

theorem WellFormed.get?_child (h : node.WellFormed) {child : Component}
    (hchild : child ∈ node.children) :
    Keyed.get? (Report.countsEntry node) child.name =
      some (.mapping (Report.countsEntry child)) := by
  obtain ⟨hnodup, hentry, -⟩ := h.accounted
  rw [Keyed.get?_eq_some_iff hnodup, hentry]
  exact List.mem_append_right _ (List.mem_map_of_mem hchild)

theorem eq_of_alike_observationDocument {observation observation' : List Nat × Nat}
    (h : (observationDocument observation).Alike (observationDocument observation')) :
    observation = observation' := by
  have hcount : observation.2 = observation'.2 := (h.read_some "count" rfl rfl).number_eq
  have harguments : observation.1 = observation'.1 :=
    Document.Alike.items_eq (fun _ _ ↦ Document.Alike.number_eq)
      (h.read_some "arguments" rfl rfl)
  exact Prod.ext harguments hcount

section SameReport

variable {node' : Component} {arguments : List Nat} {count count' : Nat}

/-- The observations of an action settle its counters, those that are zero as well. -/
theorem Observes.value_eq {observations : List (List Nat × Nat)}
    (h : node.Observes action observations) (h' : node'.Observes action observations)
    (hrange : Radix.InRange arguments action.cardinalities)
    (hvalue : node.counterValue action.name arguments = .ok count)
    (hvalue' : node'.counterValue action.name arguments = .ok count') : count = count' := by
  by_cases hzero : count = 0
  · by_contra hne
    have hmem := (h'.mem_iff _ _).mpr ⟨hrange, hvalue', fun hzero' ↦ hne (hzero.trans hzero'.symm)⟩
    exact hne (Except.ok.inj (hvalue.symm.trans ((h.mem_iff _ _).mp hmem).2.1))
  · have hmem := (h.mem_iff _ _).mpr ⟨hrange, hvalue, hzero⟩
    exact Except.ok.inj (((h'.mem_iff _ _).mp hmem).2.1.symm.trans hvalue')

/-- What is shown of an action settles its counters. -/
theorem Shows.value_eq {field field' : Option Document} (h : node.Shows action field)
    (h' : node'.Shows action field') (halike : Option.Rel Document.Alike field field')
    (hrange : Radix.InRange arguments action.cardinalities)
    (hvalue : node.counterValue action.name arguments = .ok count)
    (hvalue' : node'.counterValue action.name arguments = .ok count') : count = count' := by
  cases h with
  | count harity hcount =>
    have hnil : arguments = [] := List.length_eq_zero_iff.mp (hrange.length_eq.trans harity)
    subst hnil
    cases h' with
    | count _ hcount' =>
      obtain ⟨hfield⟩ := halike
      rw [← Except.ok.inj (hcount.symm.trans hvalue), ← Except.ok.inj (hcount'.symm.trans hvalue')]
      exact (hfield.read_some "count" rfl rfl).number_eq
    | observations harity' _ _ => exact absurd harity harity'
    | absent harity' _ => exact absurd harity harity'
  | observations harity hobserves hne =>
    cases h' with
    | count harity' _ => exact absurd harity' harity
    | observations _ hobserves' _ =>
      obtain ⟨hfield⟩ := halike
      have hsame := hfield.items_eq fun _ _ ↦ eq_of_alike_observationDocument
      exact hobserves.value_eq (hsame ▸ hobserves') hrange hvalue hvalue'
    | absent _ _ => cases halike
  | absent harity hobserves =>
    cases h' with
    | count harity' _ => exact absurd harity' harity
    | observations _ _ _ => cases halike
    | absent _ hobserves' => exact hobserves.value_eq hobserves' hrange hvalue hvalue'

end SameReport

/-- The skeleton of a tree and its report are the tree. -/
theorem eq_of_alike_countsEntry {root root' : Component} (h : Everywhere WellFormed root)
    (h' : Everywhere WellFormed root') (hskeleton : root.skeleton = root'.skeleton)
    (halike : Document.Alike (.mapping (Report.countsEntry root))
      (.mapping (Report.countsEntry root'))) : root = root' := by
  refine eq_of_agree (fun node node' ↦ Document.Alike (.mapping (Report.countsEntry node))
    (.mapping (Report.countsEntry node'))) ?_ ?_ h h' hskeleton halike
  · intro node node' action arguments count count' hnode hnode' hsame haction haction' hrange
    have hfield := hsame.read action.name
    rw [hnode.get?_action haction, hnode'.get?_action haction'] at hfield
    exact (hnode.shows_shown haction).value_eq (hnode'.shows_shown haction') hfield hrange
  · intro node node' child child' hnode hnode' hsame hchild hchild' hname
    exact hsame.read_some child.name (hnode.get?_child hchild) (hname ▸ hnode'.get?_child hchild')

end Component

/-! ### The whole report -/

/-- The report of counts is exact and loses nothing. It has the name of the root as its one key, and
every component of a reachable tree is accounted for. Trees that differ at most in their counters
have the same report if and only if they have the same counters, and reports that are told apart
only by the order of keys are the same report. -/
theorem actionCounts_exact {root : Component} (h : Reachable root) :
    Report.actionCounts root = [(root.name, .mapping (Report.countsEntry root))] ∧
      Everywhere Accounted root ∧
      ∀ other, Reachable other → other.skeleton = root.skeleton →
        (Report.actionCounts other = Report.actionCounts root ↔
          ∀ address, other.tally address = root.tally address) ∧
        (Document.Alike (.mapping (Report.actionCounts other))
            (.mapping (Report.actionCounts root)) ↔
          ∀ address, other.tally address = root.tally address) := by
  refine ⟨rfl, h.wellFormed.imp fun _ ↦ WellFormed.accounted, fun other hother hskeleton ↦ ?_⟩
  have hname : other.name = root.name := by simpa using congrArg Component.name hskeleton
  have hcounters (halike : Document.Alike (.mapping (Report.actionCounts other))
      (.mapping (Report.actionCounts root))) : other = root := by
    have hget (tree : Component) : Keyed.get? (Report.actionCounts tree) tree.name =
        some (.mapping (Report.countsEntry tree)) := Keyed.get?_insert_self _ _ _
    refine eq_of_alike_countsEntry hother.wellFormed h.wellFormed hskeleton ?_
    exact halike.read_some other.name (hget other) (hname ▸ hget root)
  have htree (htally : ∀ address, other.tally address = root.tally address) : other = root :=
    eq_of_tally_eq hother.wellFormed h.wellFormed hskeleton htally
  constructor
  · refine ⟨fun hreport address ↦ ?_, fun htally ↦ by rw [htree htally]⟩
    rw [hcounters (hreport ▸ .refl _)]
  · refine ⟨fun halike address ↦ by rw [hcounters halike], fun htally ↦ ?_⟩
    rw [htree htally]
    exact .refl _

/-- A leaf that has counted on one of its six cells: that cell is the one observation, the action
without arguments is there at zero, and the report is not the one from before. -/
theorem actionCounts_exact_sample :
    let tree := Sample.tree [0, 0, 0, 0, 0, 0] [0]
    let counted := Sample.tree [0, 0, 0, 4, 0, 0] [0]
    Reachable tree ∧ Reachable counted ∧ counted.skeleton = tree.skeleton ∧
      Everywhere Accounted tree ∧
      Report.actionCounts counted = [("top", .mapping [("spad", .mapping
        [("access", .sequence [observationDocument ([1, 1], 4)]),
          ("tick", .mapping [("count", .number 0)])])])] ∧
      Report.actionCounts counted ≠ Report.actionCounts tree := by
  intro tree counted
  have hrun : focus (Component.record "access" [1, 1] 4) ["spad"] tree =
      some (.ok () counted) := rfl
  have hcounted : Reachable counted := .record Sample.reachable_tree hrun
  obtain ⟨-, haccounted, hsame⟩ := actionCounts_exact Sample.reachable_tree
  refine ⟨Sample.reachable_tree, hcounted, rfl, haccounted, rfl, fun hreport ↦ ?_⟩
  have htally := (hsame counted hcounted rfl).1.mp hreport ⟨["spad"], "access", [1, 1]⟩
  exact absurd htally (by decide)

end CountTree
