import CountTree.Proofs.Reachable

/-!
Attaching a child at a path. The name of the child may be taken by a sibling or reserved by the
fields of a leaf, never both, and then nothing changes; otherwise the child becomes the last one
(`Component.withLast`). `Component.Grown` says what the paths of the tree lead to afterwards, and
`focus_below_withLast` that a step below the child comes to the same before and after it is
attached. `attach_exact` is the main statement.
-/

set_option autoImplicit false
set_option relaxedAutoImplicit false

namespace CountTree

open Component

namespace Component

/-- A child has this name. -/
def Taken (node : Component) (name : String) : Prop := name ∈ node.children.map Component.name

/-- The component is a leaf, and has a field of this name besides its children. -/
def Reserved (node : Component) (name : String) : Prop :=
  ∃ leaf, node.leaf? = some leaf ∧ (name = Leaf.classKey ∨ name = Leaf.attributesKey ∨
    ∃ action ∈ leaf.schema.actions, action.name = name)

/-- The component with a child after all others. -/
def withLast (child node : Component) : Component :=
  { node with children := node.children ++ [child] }

/-- What the paths of a tree lead to after a child was put at the end of the component at one of
them. -/
structure Grown (root : Component) (path : List String) (child root' : Component) : Prop where
  /-- The component at the path has one more child and is otherwise as it was. -/
  parent : ∀ node, root.find path = some node →
    root'.find path = some { node with children := node.children ++ [child] }
  /-- The components on the way there differ in the same child, further down. -/
  above : ∀ upper rest, path = upper ++ rest →
    root'.find upper = (root.find upper).map (adjust (withLast child) rest)
  /-- Every other path that led somewhere leads to the same component. -/
  elsewhere : ∀ other node, ¬ other <+: path → root.find other = some node →
    root'.find other = some node
  /-- The paths of the child go on where it was attached. -/
  below : ∀ rest, root'.find (path ++ child.name :: rest) = child.find rest

variable {root node child : Component} {path : List String} {name : String}

/-! ### The name of a child -/

theorem reports_iff : node.leaf?.any (·.reports name) = true ↔ node.Reserved name := by
  rw [Reserved]
  rcases node.leaf? with _ | leaf
  · simp
  · simp [Leaf.reports, Schema.get_isSome_iff, or_assoc]

/-- No child of a leaf has a name that the leaf reserves. -/
theorem WellFormed.not_reserved_of_taken (h : node.WellFormed) (htaken : node.Taken name) :
    ¬ node.Reserved name := by
  rintro ⟨leaf, hleaf, hfield⟩
  obtain ⟨hclass, hattributes, hactions⟩ := h.names_free leaf hleaf name htaken
  rcases hfield with hfield | hfield | ⟨action, haction, hfield⟩
  · exact hclass hfield
  · exact hattributes hfield
  · exact hactions action haction hfield.symm

theorem attach_of_taken (htaken : node.Taken child.name) :
    attach child node = .error (.duplicateName node.name child.name) node := by
  rw [attach, if_pos (child_isSome_iff.mpr htaken)]

theorem attach_of_reserved (htaken : ¬ node.Taken child.name)
    (hreserved : node.Reserved child.name) :
    attach child node = .error (.reservedName node.name child.name) node := by
  rw [attach, if_neg (htaken ∘ child_isSome_iff.mp), if_pos (reports_iff.mpr hreserved)]

theorem attach_of_free (htaken : ¬ node.Taken child.name)
    (hreserved : ¬ node.Reserved child.name) :
    attach child node = .ok () (withLast child node) := by
  rw [attach, if_neg (htaken ∘ child_isSome_iff.mp), if_neg (hreserved ∘ reports_iff.mp)]
  rfl

/-! ### The last child -/

theorem child_withLast_of_some {other : Component} (hother : node.child name = some other) :
    (withLast child node).child name = some other := by
  have hchild : (withLast child node).child name =
      (node.child name).or ([child].find? (·.name = name)) := List.find?_append
  rw [hchild, hother, Option.some_or]

/-- A free name leads to the new child. -/
theorem child_withLast_self (htaken : ¬ node.Taken child.name) :
    (withLast child node).child child.name = some child := by
  have hnone : node.child child.name = none :=
    Option.not_isSome_iff_eq_none.mp (htaken ∘ child_isSome_iff.mp)
  have hchild : (withLast child node).child child.name =
      (node.child child.name).or ([child].find? (·.name = child.name)) := List.find?_append
  rw [hchild, hnone, Option.none_or, List.find?_cons_of_pos (by simp)]

theorem adjustFirst_append_of_notMem {change : Component → Component} {nodes : List Component}
    (h : name ∉ nodes.map Component.name) (rest : List Component) :
    adjustFirst name change (nodes ++ rest) = nodes ++ adjustFirst name change rest := by
  induction nodes with
  | nil => rfl
  | cons node nodes ih =>
    rw [List.map_cons, List.mem_cons, not_or] at h
    rw [List.cons_append, adjustFirst, if_neg (Ne.symm h.1), ih h.2, List.cons_append]

/-- A change below the new child is a change of that child. -/
theorem adjust_withLast (htaken : ¬ node.Taken child.name) (change : Component → Component)
    (rest : List String) : (withLast child node).adjust change (child.name :: rest) =
      withLast (child.adjust change rest) node := by
  rw [adjust_cons, withLast, withLast, adjustFirst_append_of_notMem htaken, adjustFirst,
    if_pos rfl]

theorem name_withLast (child node : Component) : (withLast child node).name = node.name := rfl

/-! ### The whole tree -/

theorem grown_adjust (hfind : root.find path = some node) (htaken : ¬ node.Taken child.name) :
    Grown root path child (root.adjust (withLast child) path) where
  parent other hother := by
    rw [find_adjust_self (name_withLast child), hother]
    rfl
  above upper rest hpath := by
    subst hpath
    exact find_adjust_above (name_withLast child) root upper rest
  elsewhere other target hother htarget := by
    by_cases hbelow : path <+: other
    · -- A path through the parent goes on with a name that a child had before.
      obtain ⟨rest, rfl⟩ := hbelow
      rcases rest with _ | ⟨name, rest⟩
      · rw [List.append_nil] at hother
        exact absurd List.prefix_rfl hother
      · rw [find_append, hfind, Option.bind_some, find_cons] at htarget
        obtain ⟨next, hnext, htarget⟩ := Option.bind_eq_some_iff.mp htarget
        rw [find_adjust_append (name_withLast child), hfind, Option.bind_some, find_cons,
          child_withLast_of_some hnext, Option.bind_some, htarget]
    · rw [find_adjust_beside (name_withLast child) hbelow hother, htarget]
  below rest := by
    rw [find_adjust_append (name_withLast child), hfind, Option.bind_some, find_cons,
      child_withLast_self htaken, Option.bind_some]

/-- A step below the new child is that step on the child: the answers are the same, and so are the
trees if the child is attached after the step. -/
theorem focus_below_withLast {ε α : Type} {step : Run ε Component α}
    (hfind : root.find path = some node) (htaken : ¬ node.Taken child.name)
    (rest : List String) :
    focus step (path ++ child.name :: rest) (root.adjust (withLast child) path) =
      (focus step rest child).map (Outcome.mapState fun child' ↦
        root.adjust (withLast child') path) := by
  have hchange : (root.adjust (withLast child) path).adjust (after step)
      (path ++ child.name :: rest) =
        root.adjust (withLast (child.adjust (after step) rest)) path := by
    rw [adjust_append, adjust_adjust (name_withLast child)]
    refine adjust_congr fun other hother ↦ ?_
    obtain rfl := Option.some.inj (hfind.symm.trans hother)
    exact adjust_withLast htaken (after step) rest
  rw [focus_eq, focus_eq, (grown_adjust hfind htaken).below, hchange]
  rcases child.find rest with _ | target
  · rfl
  · rw [Option.map_some, Option.map_some, Option.map_some, mapState_mapState]

end Component

/-- Attaching is exact and commutes with recording. A child cannot be attached at a path for two
reasons, which never hold both: its name is taken by a child that is there, or the component is a
leaf and reserves the name; then the tree stays as it was. Otherwise the child, with all that is
below it, becomes the last one, all paths lead where they led before but for that child, and those
of the child go on below it. To record on a component of the child and to attach it then comes to
the same as to record through the longer path on the attached child. -/
theorem attach_exact {root node : Component} {path : List String} (h : Reachable root)
    (hfind : root.find path = some node) (child : Component) :
    ¬ (node.Taken child.name ∧ node.Reserved child.name) ∧
      (node.Taken child.name → focus (attach child) path root =
        some (.error (.duplicateName node.name child.name) root)) ∧
      (node.Reserved child.name → focus (attach child) path root =
        some (.error (.reservedName node.name child.name) root)) ∧
      ((∃ root', focus (attach child) path root = some (.ok () root')) ↔
        ¬ node.Taken child.name ∧ ¬ node.Reserved child.name) ∧
      ∀ root', focus (attach child) path root = some (.ok () root') →
        Grown root path child root' ∧
        (∀ rest action arguments delta, focus (record action arguments delta) rest child = none →
          focus (record action arguments delta) (path ++ child.name :: rest) root' = none) ∧
        ∀ rest action arguments delta outcome,
          focus (record action arguments delta) rest child = some outcome →
            ∃ root'', focus (attach (Outcome.state outcome)) path root = some (.ok () root'') ∧
              focus (record action arguments delta) (path ++ child.name :: rest) root' =
                some (Outcome.mapState (fun _ ↦ root'') outcome) := by
  have hnode := (h.wellFormed.find hfind).here
  have herror (htaken : node.Taken child.name) : focus (attach child) path root =
      some (.error (.duplicateName node.name child.name) root) :=
    focus_of_error hfind (attach_of_taken htaken)
  have herror' (hreserved : node.Reserved child.name) : focus (attach child) path root =
      some (.error (.reservedName node.name child.name) root) :=
    focus_of_error hfind (attach_of_reserved
      (fun htaken ↦ hnode.not_reserved_of_taken htaken hreserved) hreserved)
  have hok (child' : Component) (htaken : ¬ node.Taken child'.name)
      (hreserved : ¬ node.Reserved child'.name) : focus (attach child') path root =
        some (.ok () (root.adjust (withLast child') path)) :=
    focus_of_ok hfind (attach_of_free htaken hreserved)
  have hfree (root' : Component) (hrun : focus (attach child) path root = some (.ok () root')) :
      ¬ node.Taken child.name ∧ ¬ node.Reserved child.name := by
    constructor
    · intro htaken
      rw [herror htaken] at hrun
      cases hrun
    · intro hreserved
      rw [herror' hreserved] at hrun
      cases hrun
  refine ⟨fun hboth ↦ hnode.not_reserved_of_taken hboth.1 hboth.2, herror, herror',
    ⟨fun ⟨root', hrun⟩ ↦ hfree root' hrun, fun hfree ↦ ⟨_, hok child hfree.1 hfree.2⟩⟩, ?_⟩
  intro root' hrun
  obtain ⟨htaken, hreserved⟩ := hfree root' hrun
  obtain rfl : root.adjust (withLast child) path = root' := by
    rw [hok child htaken hreserved] at hrun
    cases hrun
    rfl
  refine ⟨grown_adjust hfind htaken, ?_, ?_⟩
  · intro rest action arguments delta hnone
    rw [focus_below_withLast hfind htaken, hnone,
      Option.map_none]
  · intro rest action arguments delta outcome hrecord
    have hname : (Outcome.state outcome).name = child.name := by
      rw [state_of_focus hrecord, name_adjust (name_after_record action arguments delta)]
    refine ⟨_, hok _ (hname ▸ htaken) (hname ▸ hreserved), ?_⟩
    rw [focus_below_withLast hfind htaken, hrecord]
    rcases outcome with _ | _ <;> rfl

/-- A leaf is attached below a leaf of its name and counts there what it would have counted before.
Beside that leaf there is no place for it, and below it none for a component with the name of an
action. -/
theorem attach_exact_sample :
    let tree := Sample.tree [0, 0, 0, 0, 0, 0] [0]
    let parent := Sample.leaf [0, 0, 0, 0, 0, 0] [0]
    let child := Sample.leaf [0, 0, 0, 2, 0, 0] [1]
    let counted := Sample.leaf [0, 0, 0, 6, 0, 0] [1]
    let extended (last : Component) : Component :=
      ⟨"top", .container, [{ parent with children := [last] }]⟩
    Reachable tree ∧ tree.find ["spad"] = some parent ∧
      focus (attach child) [] tree = some (.error (.duplicateName "top" "spad") tree) ∧
      focus (attach (container "tick")) ["spad"] tree =
        some (.error (.reservedName "spad" "tick") tree) ∧
      focus (attach child) ["spad"] tree = some (.ok () (extended child)) ∧
      Grown tree ["spad"] child (extended child) ∧
      focus (record "access" [1, 1] 4) [] child = some (.ok () counted) ∧
      ∃ root', focus (attach counted) ["spad"] tree = some (.ok () root') ∧
        focus (record "access" [1, 1] 4) ["spad", "spad"] (extended child) =
          some (.ok () root') := by
  intro tree parent child counted extended
  have hfind : tree.find ["spad"] = some parent := rfl
  have hattach : focus (attach child) ["spad"] tree = some (.ok () (extended child)) := rfl
  have hrecord : focus (record "access" [1, 1] 4) [] child = some (.ok () counted) := rfl
  have hreserved : parent.Reserved "tick" :=
    ⟨⟨"SRAM", Attributes.empty, Sample.schema, ⟨[[0, 0, 0, 0, 0, 0], [0]]⟩⟩, rfl,
      .inr (.inr ⟨Action.simple "tick", by decide, rfl⟩)⟩
  have hroot : tree.find [] = some tree := rfl
  obtain ⟨-, hduplicate, -⟩ := attach_exact Sample.reachable_tree hroot child
  obtain ⟨-, -, hrefused, -⟩ := attach_exact Sample.reachable_tree hfind (container "tick")
  obtain ⟨-, -, -, -, hattached⟩ := attach_exact Sample.reachable_tree hfind child
  obtain ⟨hgrown, -, hcommutes⟩ := hattached _ hattach
  exact ⟨Sample.reachable_tree, hfind, hduplicate List.mem_cons_self, hrefused hreserved, hattach,
    hgrown, hrecord, hcommutes [] _ _ _ _ hrecord⟩

end CountTree
