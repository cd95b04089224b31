import CountTree.Proofs.Paths
import CountTree.Proofs.WellFormed

/-!
Trees without their counts. The skeleton of a tree keeps names, kinds, classes, attributes, schemas
and the order of children, and drops the counter rows. Two trees with one skeleton differ at most
in their counters (`eq_of_skeleton_eq`). Recording leaves the skeleton of a tree as it was
(`skeleton_record`).
-/

set_option autoImplicit false
set_option relaxedAutoImplicit false

namespace CountTree

def Kind.skeleton : Kind → Kind
  | .container => .container
  | .leaf state => .leaf { state with counters := ⟨[]⟩ }

/-- A kind is told by its skeleton and its counters. -/
theorem Kind.eq_of_skeleton_eq {kind kind' : Kind} (h : kind.skeleton = kind'.skeleton)
    (hcounters : ∀ leaf leaf', kind = .leaf leaf → kind' = .leaf leaf' →
      leaf.schema = leaf'.schema → leaf.counters = leaf'.counters) : kind = kind' := by
  rcases kind with _ | ⟨classTag, attributes, schema, counters⟩ <;>
    rcases kind' with _ | ⟨classTag', attributes', schema', counters'⟩
  · rfl
  · simp [Kind.skeleton] at h
  · simp [Kind.skeleton] at h
  · simp only [Kind.skeleton, Kind.leaf.injEq, Leaf.mk.injEq, and_true] at h
    obtain ⟨rfl, rfl, rfl⟩ := h
    rw [show counters = counters' from hcounters _ _ rfl rfl rfl]

namespace Component

mutual

/-- The tree without its counter rows. -/
def skeleton : Component → Component
  | ⟨name, kind, children⟩ => ⟨name, kind.skeleton, skeletons children⟩

def skeletons : List Component → List Component
  | [] => []
  | node :: nodes => skeleton node :: skeletons nodes

end

theorem skeletons_eq_map (nodes : List Component) : skeletons nodes = nodes.map skeleton := by
  induction nodes with
  | nil => rfl
  | cons node nodes ih => rw [skeletons, ih, List.map_cons]

@[simp] theorem name_skeleton (node : Component) : node.skeleton.name = node.name := by
  cases node
  rfl

@[simp] theorem kind_skeleton (node : Component) : node.skeleton.kind = node.kind.skeleton := by
  cases node
  rfl

@[simp] theorem children_skeleton (node : Component) :
    node.skeleton.children = node.children.map skeleton := by
  cases node
  exact skeletons_eq_map _

theorem ext_fields {a b : Component} (hname : a.name = b.name) (hkind : a.kind = b.kind)
    (hchildren : a.children = b.children) : a = b := by
  obtain ⟨name, kind, children⟩ := a
  obtain ⟨name', kind', children'⟩ := b
  obtain rfl : name = name' := hname
  obtain rfl : kind = kind' := hkind
  obtain rfl : children = children' := hchildren
  rfl

theorem leaf?_eq_some_iff {node : Component} {leaf : Leaf} :
    node.leaf? = some leaf ↔ node.kind = .leaf leaf := by
  unfold leaf?
  rcases node.kind with _ | state <;> simp [Kind.leaf?]

/-- Two trees with one skeleton are the same tree if their roots hold the same counters and their
children, pair by pair, are the same. -/
theorem eq_of_skeleton_eq {root root' : Component} (h : root.skeleton = root'.skeleton)
    (hcounters : ∀ leaf leaf', root.leaf? = some leaf → root'.leaf? = some leaf' →
      leaf.schema = leaf'.schema → leaf.counters = leaf'.counters)
    (hbelow : ∀ child child', child ∈ root.children → child' ∈ root'.children →
      child.skeleton = child'.skeleton → child = child') : root = root' := by
  have hname : root.name = root'.name := by simpa using congrArg Component.name h
  have hkind : root.kind.skeleton = root'.kind.skeleton := by
    simpa using congrArg Component.kind h
  have hchildren : root.children.map skeleton = root'.children.map skeleton := by
    simpa using congrArg Component.children h
  apply ext_fields hname
  · exact Kind.eq_of_skeleton_eq hkind fun leaf leaf' hleaf hleaf' ↦
      hcounters leaf leaf' (leaf?_eq_some_iff.mpr hleaf) (leaf?_eq_some_iff.mpr hleaf')
  · have hlength : root.children.length = root'.children.length := by
      simpa using congrArg List.length hchildren
    refine List.ext_getElem hlength fun place hplace hplace' ↦ ?_
    refine hbelow _ _ (List.getElem_mem hplace) (List.getElem_mem hplace') ?_
    simpa [hplace, hplace'] using congrArg (·[place]?) hchildren

/-! ### Changes of the counters only -/

theorem skeleton_adjust {change : Component → Component}
    (hskeleton : ∀ node, (change node).skeleton = node.skeleton) (path : List String)
    (root : Component) : (root.adjust change path).skeleton = root.skeleton := by
  induction path generalizing root with
  | nil => exact hskeleton root
  | cons name path ih =>
    have hchildren : (adjustFirst name (adjust change path) root.children).map skeleton =
        root.children.map skeleton := map_adjustFirst ih name root.children
    apply ext_fields
    · simp
    · simp
    · rw [children_skeleton, adjust_cons, hchildren, children_skeleton]

theorem skeleton_after_record (action : String) (arguments : List Nat) (delta : Nat)
    (node : Component) : (after (record action arguments delta) node).skeleton = node.skeleton := by
  rcases record_cases action arguments delta node with ⟨cause, h⟩ | ⟨cell, counters, hcell, -, h⟩
  · rw [after, h]
    rfl
  · have hkind := leaf?_eq_some_iff.mp (cell_eq_ok_iff.mp hcell).1
    rw [after, h]
    apply ext_fields
    · simp [Outcome.state]
    · simp [Outcome.state, hkind, Kind.skeleton]
    · simp [Outcome.state]

theorem skeleton_record (action : String) (arguments : List Nat) (delta : Nat)
    (path : List String) (root : Component) :
    (root.adjust (after (record action arguments delta)) path).skeleton = root.skeleton :=
  skeleton_adjust (skeleton_after_record action arguments delta) path root

end Component

end CountTree
