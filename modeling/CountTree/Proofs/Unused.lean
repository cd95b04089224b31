import CountTree.Proofs.Cells
import CountTree.Proofs.Reachable
import Mathlib.Data.List.Induction

/-!
Trees on which nothing has been counted yet. A fresh leaf counts each of its actions from zero, and
attaching brings nothing but what has been counted on the child before (`Unused.withChild`), so that
every counter of a tree is zero when it has just been built (`Fresh.of_children`).
-/

set_option autoImplicit false
set_option relaxedAutoImplicit false

namespace CountTree

theorem Counters.eq_zero_of_get {schema : Schema} {counters : Counters} {place index count : Nat}
    (h : zero? schema = some counters) (hget : counters.get place index = some count) :
    count = 0 := by
  unfold zero? at h
  split at h
  · obtain rfl := Option.some.inj h
    obtain ⟨row, hrow, hcell⟩ := Option.bind_eq_some_iff.mp hget
    rw [cells, List.getElem?_map] at hrow
    obtain ⟨action, -, rfl⟩ := Option.map_eq_some_iff.mp hrow
    exact List.eq_of_mem_replicate (List.mem_of_getElem? hcell)
  · simp at h

namespace Component

variable {node node' child : Component} {name classTag : String} {attributes : Attributes}
  {schema : Schema}

/-- Every counter is zero. -/
def Unused (root : Component) : Prop :=
  ∀ address count, root.tally address = some count → count = 0

theorem leaf_eq_ok_iff : leaf name classTag attributes schema = .ok node ↔
    ∃ counters, Counters.zero? schema = some counters ∧
      node = ⟨name, .leaf ⟨classTag, attributes, schema, counters⟩, []⟩ := by
  rw [leaf]
  rcases Counters.zero? schema with _ | counters <;> simp [eq_comm]

theorem leaf_of_lt (h : ∀ action ∈ schema.actions, action.tableSize < storageLimit) :
    ∃ node, leaf name classTag attributes schema = .ok node := by
  have hzero : Counters.zero? schema =
      some ⟨schema.actions.map fun action ↦ List.replicate action.tableSize 0⟩ :=
    if_pos (List.all_eq_true.mpr fun action haction ↦ decide_eq_true (h action haction))
  exact ⟨_, leaf_eq_ok_iff.mpr ⟨_, hzero, rfl⟩⟩

theorem unused_leaf (h : leaf name classTag attributes schema = .ok node) : node.Unused := by
  obtain ⟨counters, hzero, rfl⟩ := leaf_eq_ok_iff.mp h
  rintro ⟨_ | ⟨name, path⟩, action, arguments⟩ count htally
  · obtain ⟨other, hother, hvalue⟩ := tally_eq_some_iff.mp htally
    obtain rfl := Option.some.inj hother
    obtain ⟨cell, hcell, hget⟩ := (counterValue_eq_ok_iff (WellFormed.leaf h)).mp hvalue
    have hcounters : counters = cell.leaf.counters :=
      congrArg Leaf.counters (Option.some.inj (cell_eq_ok_iff.mp hcell).1)
    exact Counters.eq_zero_of_get hzero (hcounters ▸ hget)
  · simp [tally, Component.child] at htally

theorem unused_container (name : String) : (container name).Unused := by
  rintro ⟨_ | ⟨other, path⟩, action, arguments⟩ count htally
  · obtain ⟨node, hnode, hvalue⟩ := tally_eq_some_iff.mp htally
    obtain rfl := Option.some.inj hnode
    simp [counterValue, cell, container, leaf?, Kind.leaf?] at hvalue
  · simp [tally, container, Component.child] at htally

/-! ### Attaching -/

theorem withChild_eq_ok (h : node.withChild child = .ok node') :
    child.name ∉ node.children.map Component.name ∧
      node' = { node with children := node.children ++ [child] } := by
  rcases attach_cases child node with ⟨cause, hattach⟩ | ⟨hnew, -, hattach⟩
  · rw [withChild, hattach] at h
    simp [Outcome.stateIfOk] at h
  · rw [withChild, hattach] at h
    exact ⟨hnew, (Except.ok.inj h).symm⟩

/-- A container takes any child whose name is new. -/
theorem withChild_container (hkind : node.kind = .container)
    (hnew : child.name ∉ node.children.map Component.name) :
    node.withChild child = .ok { node with children := node.children ++ [child] } := by
  have hchild : (node.child child.name).isSome = false := by
    rw [Component.child, Option.isSome_eq_false_iff, Option.isNone_iff_eq_none, List.find?_eq_none]
    intro other hother hname
    exact hnew (List.mem_map.mpr ⟨other, hother, by simpa using hname⟩)
  have hleaf : node.leaf? = none := by
    rw [leaf?, hkind]
    rfl
  rw [withChild, attach, hchild, hleaf]
  rfl

theorem reachable_withChild (h : Reachable node) (hchild : Reachable child)
    (hwith : node.withChild child = .ok node') : Reachable node' := by
  rcases hattach : attach child node with ⟨value, after⟩ | ⟨cause, after⟩
  · have hstate : after = node' := by
      rw [withChild, hattach] at hwith
      exact Except.ok.inj hwith
    have hfocus : focus (attach child) [] node = some (attach child node) := rfl
    rw [hattach, hstate] at hfocus
    exact .attach h hchild hfocus
  · rw [withChild, hattach] at hwith
    simp [Outcome.stateIfOk] at hwith

theorem Unused.withChild (h : node.Unused) (hchild : child.Unused)
    (hwith : node.withChild child = .ok node') : node'.Unused := by
  obtain ⟨-, rfl⟩ := withChild_eq_ok hwith
  rintro ⟨_ | ⟨name, path⟩, action, arguments⟩ count htally
  · exact h ⟨[], action, arguments⟩ count htally
  · rw [tally_cons, Component.child, List.find?_append] at htally
    obtain ⟨found, hfound, htally⟩ := Option.bind_eq_some_iff.mp htally
    rcases Option.or_eq_some_iff.mp hfound with hold | ⟨-, hnew⟩
    · have hold : node.child name = some found := hold
      exact h ⟨name :: path, action, arguments⟩ count (by
        rw [tally_cons, hold, Option.bind_some, htally])
    · have hnew := List.mem_singleton.mp (List.mem_of_find?_eq_some hnew)
      exact hchild ⟨path, action, arguments⟩ count (hnew ▸ htally)

/-- A tree as it is built, before anything is counted on it. -/
structure Fresh (root : Component) : Prop where
  reachable : Reachable root
  unused : root.Unused

theorem Fresh.of_leaf (h : leaf name classTag attributes schema = .ok node) : Fresh node :=
  ⟨.leaf h, unused_leaf h⟩

/-- A container is built by attaching its children from the first to the last. -/
theorem Fresh.of_children {children : List Component} (hfresh : ∀ child ∈ children, Fresh child)
    (hnodup : (children.map Component.name).Nodup) (name : String) :
    Fresh ⟨name, .container, children⟩ := by
  induction children using List.reverseRecOn with
  | nil => exact ⟨.container name, unused_container name⟩
  | append_singleton children last ih =>
    rw [List.map_append, List.nodup_append] at hnodup
    obtain ⟨hnodup, -, hdisjoint⟩ := hnodup
    have hbefore : Fresh ⟨name, .container, children⟩ :=
      ih (fun child hchild ↦ hfresh child (List.mem_append_left _ hchild)) hnodup
    have hlast : Fresh last := hfresh last (by simp)
    have hwith : withChild ⟨name, .container, children⟩ last =
        .ok ⟨name, .container, children ++ [last]⟩ :=
      withChild_container rfl fun hmem ↦ hdisjoint _ hmem _ (by simp) rfl
    exact ⟨reachable_withChild hbefore.reachable hlast.reachable hwith,
      hbefore.unused.withChild hlast.unused hwith⟩

end Component

end CountTree
