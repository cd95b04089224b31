import CountTree.Component

/-!
Components at paths. `focus` runs a step on the component at a path; `adjust` is the change of the
whole tree that comes of it, whether or not the step fails (`focus_eq`). Below that equation nothing
is left of steps and outcomes: what a path finds after a change is told by `find_adjust_self` and
`find_adjust_of_ne`, and a property of every component is carried through a change by
`Everywhere.adjust`. A change at a path keeps the name of what it changes, so that the same paths
lead to the same places before and after.
-/

set_option autoImplicit false
set_option relaxedAutoImplicit false

namespace CountTree.Component

/-- Induction over trees: a property of a component follows from the property of its children. -/
@[elab_as_elim]
theorem induction {motive : Component → Prop}
    (node : ∀ name kind children, (∀ child ∈ children, motive child) →
      motive ⟨name, kind, children⟩) (root : Component) : motive root :=
  @Component.rec motive (fun children ↦ ∀ child ∈ children, motive child)
    (fun name kind children ih ↦ node name kind children ih)
    (fun _ h ↦ absurd h List.not_mem_nil)
    (fun _ _ hhead htail ↦ List.forall_mem_cons.mpr ⟨hhead, htail⟩)
    root

/-! ### Following paths -/

@[simp] theorem find_cons (node : Component) (name : String) (path : List String) :
    node.find (name :: path) = (node.child name).bind (·.find path) := rfl

theorem mem_children_of_child {node child : Component} {name : String}
    (h : node.child name = some child) : child ∈ node.children := List.mem_of_find?_eq_some h

theorem find_append (node : Component) (path rest : List String) :
    node.find (path ++ rest) = (node.find path).bind (·.find rest) := by
  induction path generalizing node with
  | nil => rfl
  | cons name path ih =>
    rw [List.cons_append, find_cons, find_cons]
    rcases node.child name with _ | child
    · rfl
    · exact ih child

/-! ### Changes at a path -/

/-- Changes the first component of that name. -/
def adjustFirst (name : String) (change : Component → Component) : List Component → List Component
  | [] => []
  | node :: nodes =>
    if node.name = name then change node :: nodes else node :: adjustFirst name change nodes

/-- Changes the component at a path, if there is one. -/
def adjust (change : Component → Component) : List String → Component → Component
  | [], node => change node
  | name :: path, node =>
    { node with children := adjustFirst name (adjust change path) node.children }

/-- The state a step leaves behind, as a change of the component it runs on. -/
def after {ε α : Type} (step : Run ε Component α) (node : Component) : Component :=
  Outcome.state (step node)

section Adjust

variable {change : Component → Component} {name other : String} {path : List String}

@[simp] theorem adjust_nil (node : Component) : node.adjust change [] = change node := rfl

@[simp] theorem adjust_cons (node : Component) (name : String) (path : List String) :
    node.adjust change (name :: path) =
      { node with children := adjustFirst name (adjust change path) node.children } := rfl

theorem mem_adjustFirst {nodes : List Component} {node : Component}
    (h : node ∈ adjustFirst name change nodes) :
    node ∈ nodes ∨ ∃ old, nodes.find? (·.name = name) = some old ∧ node = change old := by
  induction nodes with
  | nil => exact .inl h
  | cons first nodes ih =>
    by_cases hname : first.name = name
    · rw [adjustFirst, if_pos hname] at h
      rcases List.mem_cons.mp h with rfl | h
      · exact .inr ⟨first, by simp [hname], rfl⟩
      · exact .inl (List.mem_cons_of_mem _ h)
    · rw [adjustFirst, if_neg hname] at h
      rcases List.mem_cons.mp h with rfl | h
      · exact .inl List.mem_cons_self
      · rcases ih h with h | ⟨old, hold, rfl⟩
        · exact .inl (List.mem_cons_of_mem _ h)
        · exact .inr ⟨old, by simpa [hname] using hold, rfl⟩

/-- Changing the first component of a name to itself changes nothing. -/
theorem adjustFirst_eq_self {nodes : List Component}
    (h : ∀ node, nodes.find? (·.name = name) = some node → change node = node) :
    adjustFirst name change nodes = nodes := by
  induction nodes with
  | nil => rfl
  | cons first nodes ih =>
    by_cases hname : first.name = name
    · rw [adjustFirst, if_pos hname, h first (by simp [hname])]
    · rw [adjustFirst, if_neg hname, ih fun node hnode ↦ h node (by simpa [hname] using hnode)]

/-- A change at a path is a change of the component halfway there. -/
theorem adjust_append (change : Component → Component) (path rest : List String)
    (root : Component) :
    root.adjust change (path ++ rest) = root.adjust (adjust change rest) path := by
  induction path generalizing root with
  | nil => rfl
  | cons name path ih =>
    have hsame : adjust change (path ++ rest) = adjust (adjust change rest) path := funext ih
    rw [List.cons_append, adjust_cons, adjust_cons, hsame]

theorem adjust_eq_self {root : Component}
    (h : ∀ node, root.find path = some node → change node = node) :
    root.adjust change path = root := by
  induction path generalizing root with
  | nil => exact h root rfl
  | cons name path ih =>
    have hsame : adjustFirst name (adjust change path) root.children = root.children :=
      adjustFirst_eq_self fun child hchild ↦ ih fun node hnode ↦ h node (by
        have hchild : root.child name = some child := hchild
        rw [find_cons, hchild, Option.bind_some, hnode])
    rw [adjust_cons, hsame]
    cases root
    rfl

/-- Only what a change does to the first component of the name matters. -/
theorem adjustFirst_congr {change' : Component → Component} {nodes : List Component}
    (h : ∀ node, nodes.find? (·.name = name) = some node → change node = change' node) :
    adjustFirst name change nodes = adjustFirst name change' nodes := by
  induction nodes with
  | nil => rfl
  | cons first nodes ih =>
    by_cases hname : first.name = name
    · rw [adjustFirst, if_pos hname, adjustFirst, if_pos hname, h first (by simp [hname])]
    · rw [adjustFirst, if_neg hname, adjustFirst, if_neg hname,
        ih fun node hnode ↦ h node (by simpa [hname] using hnode)]

theorem adjust_congr {change' : Component → Component} {root : Component}
    (h : ∀ node, root.find path = some node → change node = change' node) :
    root.adjust change path = root.adjust change' path := by
  induction path generalizing root with
  | nil => exact h root rfl
  | cons name path ih =>
    have hsame : adjustFirst name (adjust change path) root.children =
        adjustFirst name (adjust change' path) root.children :=
      adjustFirst_congr fun child hchild ↦ ih fun node hnode ↦ h node (by
        have hchild : root.child name = some child := hchild
        rw [find_cons, hchild, Option.bind_some, hnode])
    rw [adjust_cons, adjust_cons, hsame]

/-- What a change leaves alone in a component it leaves alone in a list. -/
theorem map_adjustFirst {β : Type} {view : Component → β}
    (hview : ∀ node, view (change node) = view node) (name : String) (nodes : List Component) :
    (adjustFirst name change nodes).map view = nodes.map view := by
  induction nodes with
  | nil => rfl
  | cons first nodes ih =>
    by_cases hfirst : first.name = name
    · rw [adjustFirst, if_pos hfirst, List.map_cons, hview, List.map_cons]
    · rw [adjustFirst, if_neg hfirst, List.map_cons, ih, List.map_cons]

variable (hname : ∀ node, (change node).name = node.name)

include hname

theorem name_adjust (path : List String) (root : Component) :
    (root.adjust change path).name = root.name := by
  rcases path with _ | ⟨name, path⟩
  · exact hname root
  · rfl

theorem find?_adjustFirst_self (nodes : List Component) :
    (adjustFirst name change nodes).find? (·.name = name) =
      (nodes.find? (·.name = name)).map change := by
  induction nodes with
  | nil => rfl
  | cons first nodes ih =>
    by_cases hfirst : first.name = name
    · simp [adjustFirst, hfirst, hname]
    · simpa [adjustFirst, hfirst] using ih

theorem find?_adjustFirst_of_ne (h : other ≠ name) (nodes : List Component) :
    (adjustFirst name change nodes).find? (·.name = other) = nodes.find? (·.name = other) := by
  induction nodes with
  | nil => rfl
  | cons first nodes ih =>
    by_cases hfirst : first.name = name
    · have hother : first.name ≠ other := fun heq ↦ h (heq.symm.trans hfirst)
      simp [adjustFirst, hfirst, hname, Ne.symm h]
    · by_cases hother : first.name = other
      · rw [adjustFirst, if_neg hfirst, List.find?_cons_of_pos (by simpa using hother),
          List.find?_cons_of_pos (by simpa using hother)]
      · simpa [adjustFirst, hfirst, hother] using ih

theorem child_adjust_self (root : Component) (path : List String) :
    (root.adjust change (name :: path)).child name =
      (root.child name).map (adjust change path) :=
  find?_adjustFirst_self (name_adjust hname path) root.children

theorem child_adjust_of_ne (h : other ≠ name) (root : Component) (path : List String) :
    (root.adjust change (name :: path)).child other = root.child other :=
  find?_adjustFirst_of_ne (name_adjust hname path) h root.children

theorem find_adjust_self (root : Component) (path : List String) :
    (root.adjust change path).find path = (root.find path).map change := by
  induction path generalizing root with
  | nil => rfl
  | cons name path ih =>
    rw [find_cons, child_adjust_self hname, find_cons]
    rcases root.child name with _ | child
    · rfl
    · exact ih child

/-- Below its own path a change shows what is below the changed component. -/
theorem find_adjust_append (root : Component) (path rest : List String) :
    (root.adjust change path).find (path ++ rest) =
      (root.find path).bind fun node ↦ (change node).find rest := by
  rw [find_append, find_adjust_self hname, Option.bind_map]
  rfl

/-- On the way to its own path a change shows further down. -/
theorem find_adjust_above (root : Component) (path rest : List String) :
    (root.adjust change (path ++ rest)).find path = (root.find path).map (adjust change rest) := by
  rw [adjust_append, find_adjust_self (name_adjust hname rest)]

/-- A change does not show at a path that leads neither to it nor through it. -/
theorem find_adjust_beside {path other : List String} (hinto : ¬ path <+: other)
    (htowards : ¬ other <+: path) (root : Component) :
    (root.adjust change path).find other = root.find other := by
  induction path generalizing root other with
  | nil => exact absurd List.nil_prefix hinto
  | cons name path ih =>
    rcases other with _ | ⟨name', other⟩
    · exact absurd List.nil_prefix htowards
    · by_cases hsame : name' = name
      · subst hsame
        rw [find_cons, child_adjust_self hname, find_cons]
        rcases root.child name' with _ | child
        · rfl
        · exact ih (fun h ↦ hinto (List.cons_prefix_cons.mpr ⟨rfl, h⟩))
            (fun h ↦ htowards (List.cons_prefix_cons.mpr ⟨rfl, h⟩)) child
      · rw [find_cons, child_adjust_of_ne hname hsame, find_cons]

theorem adjustFirst_adjustFirst (next : Component → Component) (nodes : List Component) :
    adjustFirst name next (adjustFirst name change nodes) =
      adjustFirst name (fun node ↦ next (change node)) nodes := by
  induction nodes with
  | nil => rfl
  | cons first nodes ih =>
    by_cases hfirst : first.name = name
    · rw [adjustFirst, if_pos hfirst, adjustFirst, if_pos ((hname first).trans hfirst),
        adjustFirst, if_pos hfirst]
    · rw [adjustFirst, if_neg hfirst, adjustFirst, if_neg hfirst, ih, adjustFirst, if_neg hfirst]

/-- Two changes at one path are one change. -/
theorem adjust_adjust (next : Component → Component) (path : List String) (root : Component) :
    (root.adjust change path).adjust next path =
      root.adjust (fun node ↦ next (change node)) path := by
  induction path generalizing root with
  | nil => rfl
  | cons name path ih =>
    have hcompose : (fun node ↦ adjust next path (adjust change path node)) =
        adjust (fun node ↦ next (change node)) path := funext ih
    rw [adjust_cons, adjust_cons, adjust_cons, adjustFirst_adjustFirst (name_adjust hname path),
      hcompose]

/-- The component without its children. -/
def bare (node : Component) : Component := { node with children := [] }

/-- A change that keeps children shows at its own path only: the component at any other path is
the same but for its children. -/
theorem find_adjust_of_ne (hchildren : ∀ node, (change node).children = node.children)
    {path other : List String} (h : other ≠ path) (root : Component) :
    ((root.adjust change path).find other).map bare = (root.find other).map bare := by
  induction path generalizing root other with
  | nil =>
    rcases other with _ | ⟨name, other⟩
    · exact (h rfl).elim
    · rw [adjust_nil, find_cons, find_cons, child, hchildren, child]
  | cons name path ih =>
    rcases other with _ | ⟨name', other⟩
    · rfl
    · by_cases hsame : name' = name
      · subst hsame
        have hrest : other ≠ path := fun heq ↦ h (heq ▸ rfl)
        rw [find_cons, child_adjust_self hname, find_cons]
        rcases root.child name' with _ | child
        · rfl
        · exact ih hrest child
      · rw [find_cons, child_adjust_of_ne hname hsame, find_cons]

end Adjust

/-! ### Steps at a path -/

section Focus

variable {ε α : Type}

theorem mapState_state (outcome : Outcome ε Component α) :
    Outcome.mapState (fun _ ↦ Outcome.state outcome) outcome = outcome := by
  cases outcome <;> rfl

theorem mapState_mapState {σ τ υ : Type} (f : τ → υ) (g : σ → τ) (outcome : Outcome ε σ α) :
    Outcome.mapState f (Outcome.mapState g outcome) =
      Outcome.mapState (fun state ↦ f (g state)) outcome := by
  cases outcome <;> rfl

/-- If a step answers on each component of a name and changes it by `change`, then it answers the
same on the list, and changes the first component of the name. -/
theorem onFirst_eq {name : String} {step : Component → Option (Outcome ε Component α)}
    {answer : Component → Option (Outcome ε Component α)} {change : Component → Component}
    (hstep : ∀ node, step node = (answer node).map (Outcome.mapState fun _ ↦ change node))
    (nodes : List Component) :
    onFirst name step nodes = ((nodes.find? (·.name = name)).bind answer).map
      (Outcome.mapState fun _ ↦ adjustFirst name change nodes) := by
  induction nodes with
  | nil => rfl
  | cons first nodes ih =>
    by_cases hname : first.name = name
    · rw [onFirst, if_pos hname, adjustFirst, if_pos hname, hstep,
        List.find?_cons_of_pos (by simpa using hname), Option.bind_some]
      rcases answer first with _ | _ | _ <;> rfl
    · rw [onFirst, if_neg hname, adjustFirst, if_neg hname, ih,
        List.find?_cons_of_neg (by simpa using hname)]
      generalize (nodes.find? (·.name = name)).bind answer = found
      rcases found with _ | _ | _ <;> rfl

/-- A step at a path answers what it answers on the component there, and leaves the tree with that
component changed as the step leaves it. -/
theorem focus_eq (step : Run ε Component α) (path : List String) (root : Component) :
    focus step path root = (root.find path).map fun node ↦
      Outcome.mapState (fun _ ↦ root.adjust (after step) path) (step node) := by
  induction path generalizing root with
  | nil => exact congrArg some (mapState_state _).symm
  | cons name path ih =>
    have hstep : ∀ node, focus step path node =
        ((node.find path).map fun target ↦ step target).map
          (Outcome.mapState fun _ ↦ node.adjust (after step) path) := by
      intro node
      rw [ih]
      rcases node.find path with _ | target <;> rfl
    rw [focus, onFirst_eq hstep, find_cons, child, adjust_cons]
    generalize root.children.find? (·.name = name) = found
    rcases found with _ | child
    · rfl
    · change Option.map _ (Option.map _ (Option.map _ (child.find path))) =
        Option.map _ (child.find path)
      rcases child.find path with _ | node
      · rfl
      · exact congrArg some (mapState_mapState _ _ (step node))

/-- A step that fails without a change on the component at a path does so on the tree. -/
theorem focus_of_error {step : Run ε Component α} {path : List String} {root node : Component}
    {cause : ε} (hfind : root.find path = some node) (hstep : step node = .error cause node) :
    focus step path root = some (.error cause root) := by
  have hsame : root.adjust (after step) path = root := by
    refine adjust_eq_self fun other hother ↦ ?_
    obtain rfl := Option.some.inj (hfind.symm.trans hother)
    rw [after, hstep, Outcome.state]
  rw [focus_eq, hfind, Option.map_some, hstep, hsame]
  rfl

/-- A step that succeeds on the component at a path changes the tree there. -/
theorem focus_of_ok {step : Run ε Component α} {path : List String} {root node : Component}
    {value : α} {change : Component → Component} (hfind : root.find path = some node)
    (hstep : step node = .ok value (change node)) :
    focus step path root = some (.ok value (root.adjust change path)) := by
  have hsame : root.adjust (after step) path = root.adjust change path := by
    refine adjust_congr fun other hother ↦ ?_
    obtain rfl := Option.some.inj (hfind.symm.trans hother)
    rw [after, hstep, Outcome.state]
  rw [focus_eq, hfind, Option.map_some, hstep, hsame]
  rfl

/-- A step at a path that leads somewhere leaves the tree changed there. -/
theorem state_of_focus {ε α : Type} {step : Run ε Component α} {path : List String}
    {root : Component} {outcome : Outcome ε Component α} (h : focus step path root = some outcome) :
    Outcome.state outcome = root.adjust (after step) path := by
  rw [focus_eq] at h
  obtain ⟨node, -, rfl⟩ := Option.map_eq_some_iff.mp h
  cases step node <;> rfl

/-- A step at a path fails with what it fails with on the component there. -/
theorem error_of_focus {ε α : Type} {step : Run ε Component α} {path : List String}
    {root state : Component} {cause : ε} (h : focus step path root = some (.error cause state)) :
    ∃ node state', root.find path = some node ∧ step node = .error cause state' := by
  rw [focus_eq] at h
  obtain ⟨node, hnode, houtcome⟩ := Option.map_eq_some_iff.mp h
  refine ⟨node, ?_⟩
  rcases hstep : step node with ⟨value, state'⟩ | ⟨cause', state'⟩
  · rw [hstep] at houtcome
    simp [Outcome.mapState] at houtcome
  · rw [hstep] at houtcome
    cases houtcome
    exact ⟨state', hnode, rfl⟩

end Focus

/-! ### Properties of every component -/

/-- A property of a component and of all components below it. -/
inductive Everywhere (property : Component → Prop) : Component → Prop
  | intro {node : Component} (here : property node)
      (below : ∀ child ∈ node.children, Everywhere property child) : Everywhere property node

namespace Everywhere

variable {property : Component → Prop} {root : Component}

theorem here (h : Everywhere property root) : property root := by
  obtain ⟨here, -⟩ := h
  exact here

theorem of_mem (h : Everywhere property root) {child : Component} (hchild : child ∈ root.children) :
    Everywhere property child := by
  obtain ⟨-, below⟩ := h
  exact below child hchild

theorem find {path : List String} {node : Component} (h : Everywhere property root)
    (hfind : root.find path = some node) : Everywhere property node := by
  induction path generalizing root with
  | nil => exact Option.some.inj hfind ▸ h
  | cons name path ih =>
    rw [find_cons] at hfind
    obtain ⟨child, hchild, hfind⟩ := Option.bind_eq_some_iff.mp hfind
    exact ih (h.of_mem (mem_children_of_child hchild)) hfind

theorem imp {weaker : Component → Prop} (himp : ∀ node, property node → weaker node)
    (h : Everywhere property root) : Everywhere weaker root := by
  induction h with
  | intro here _ ih => exact .intro (himp _ here) ih

/-- A property that reads no more of the children than their names holds everywhere after a change
if it held before and the changed component has it everywhere. -/
theorem adjust {change : Component → Component}
    (hlocal : ∀ node children, children.map Component.name = node.children.map Component.name →
      property node → property { node with children })
    (hname : ∀ node, (change node).name = node.name) {path : List String}
    (h : Everywhere property root)
    (htarget : ∀ node, root.find path = some node → Everywhere property (change node)) :
    Everywhere property (root.adjust change path) := by
  induction path generalizing root with
  | nil => exact htarget root rfl
  | cons name path ih =>
    refine .intro (hlocal _ _ (map_adjustFirst (name_adjust hname path) _ _) h.here) ?_
    intro child hchild
    rcases mem_adjustFirst hchild with hold | ⟨old, hold, rfl⟩
    · exact h.of_mem hold
    · have hold : root.child name = some old := hold
      refine ih (h.of_mem (mem_children_of_child hold)) fun node hnode ↦ htarget node ?_
      rw [find_cons, hold, Option.bind_some, hnode]

end Everywhere

end CountTree.Component
