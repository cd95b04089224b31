import CountTree.Proofs.Entries
import CountTree.Proofs.Reachable
import CountTree.Report

/-!
What the architecture description says of a tree. `SameHierarchy` compares two trees by what it is
meant to show and by nothing else: names, kinds, the classes and attributes of leaves, and the order
of children. `Component.Described` says how an entry is laid out, own fields first and then a key
for each child, with no key put in over another. `architecture_determines_hierarchy` is the main
statement: two trees that can be built have one description exactly when they are one hierarchy.
Children share their keys with the fields of a leaf. A leaf has no child under those names, but a
container may have children called `class` and `hardware_attributes`; what tells the two apart is
that a class is a text, and the entry of a child never is.
-/

set_option autoImplicit false
set_option relaxedAutoImplicit false

namespace CountTree

open Component

/-- The keys of sorted attributes are all different. -/
theorem Attributes.keys_nodup (attributes : Attributes) :
    (Keyed.keys attributes.entries).Nodup := by
  rw [Keyed.keys, List.Nodup, List.pairwise_map]
  refine attributes.sorted.imp fun {first second} hlt heq ↦ ?_
  rw [heq] at hlt
  exact String.lt_irrefl _ hlt

namespace Component

/-! ### What a description should say -/

/-- Two trees that agree in names, kinds, classes, attributes and the order of children. -/
inductive SameHierarchy : Component → Component → Prop
  | container (name : String) {children children' : List Component}
      (hchildren : List.Forall₂ SameHierarchy children children') :
      SameHierarchy ⟨name, .container, children⟩ ⟨name, .container, children'⟩
  | leaf (name : String) {state state' : Leaf} {children children' : List Component}
      (hclass : state.classTag = state'.classTag)
      (hattributes : state.attributes = state'.attributes)
      (hchildren : List.Forall₂ SameHierarchy children children') :
      SameHierarchy ⟨name, .leaf state, children⟩ ⟨name, .leaf state', children'⟩

/-- Attributes as they are reported, in the order of their keys. -/
def attributeEntries (attributes : Attributes) : Mapping :=
  attributes.entries.map fun entry ↦ (entry.1, .text entry.2)

/-- What a component reports of itself: a leaf its class and its attributes, a container nothing. -/
def ownEntries (node : Component) : Mapping :=
  match node.kind with
  | .container => []
  | .leaf state => [("class", .text state.classTag),
      ("hardware_attributes", .mapping (attributeEntries state.attributes))]

def architectureOfChild (child : Component) : String × Document :=
  (child.name, .mapping (Report.architectureEntry child))

/-- The entry of a component has its own fields and then one key for each child, in the order of the
children. No key comes twice, and so none of them was put in over another. -/
structure Described (node : Component) : Prop where
  keys_nodup : (Keyed.keys (Report.architectureEntry node)).Nodup
  entry_eq : Report.architectureEntry node =
    node.ownEntries ++ node.children.map architectureOfChild

variable {node node' : Component}

/-! ### How an entry is put together -/

theorem attributeFields_eq (attributes : Attributes) :
    Report.attributeFields attributes = attributeEntries attributes := by
  have hfold : Report.attributeFields attributes =
      Keyed.insertAll (attributeEntries attributes) [] := by
    rw [Report.attributeFields, Keyed.insertAll, attributeEntries, List.foldl_map]
  have hkeys : Keyed.keys ([] ++ attributeEntries attributes) = Keyed.keys attributes.entries := by
    rw [List.nil_append, Keyed.keys, attributeEntries, List.map_map]
    rfl
  rw [hfold, Keyed.insertAll_eq_append (hkeys ▸ attributes.keys_nodup), List.nil_append]

theorem attributeEntries_injective : Function.Injective attributeEntries := by
  rintro ⟨entries, hsorted⟩ ⟨entries', hsorted'⟩ h
  have hentry : Function.Injective fun entry : String × String ↦
      (entry.1, Document.text entry.2) := by
    rintro ⟨key, text⟩ ⟨key', text'⟩ heq
    simpa using heq
  obtain rfl : entries = entries' := List.map_injective_iff.mpr hentry h
  rfl

theorem architectureFields_eq (node : Component) :
    Report.architectureFields node.kind = node.ownEntries := by
  rw [ownEntries]
  rcases node.kind with _ | state
  · rfl
  · dsimp only
    rw [Report.architectureFields, attributeFields_eq]
    rfl

theorem insertArchitecture_eq (children : List Component) (entry : Mapping) :
    Report.insertArchitecture children entry =
      Keyed.insertAll (children.map architectureOfChild) entry := by
  induction children generalizing entry with
  | nil => rfl
  | cons child children ih =>
    rw [Report.insertArchitecture, ih]
    rfl

theorem architectureEntry_eq_insertAll (node : Component) :
    Report.architectureEntry node =
      Keyed.insertAll (node.children.map architectureOfChild) node.ownEntries := by
  have hnode : Report.architectureEntry node =
      Report.insertArchitecture node.children (Report.architectureFields node.kind) := by
    obtain ⟨name, kind, children⟩ := node
    rw [Report.architectureEntry]
  rw [hnode, insertArchitecture_eq, architectureFields_eq]

theorem keys_architectureOfChild (children : List Component) :
    Keyed.keys (children.map architectureOfChild) = children.map Component.name := by
  rw [Keyed.keys, List.map_map]
  rfl

/-- In a well-formed component the fields and the children have names of their own. -/
theorem WellFormed.keys_nodup (h : node.WellFormed) :
    (Keyed.keys (node.ownEntries ++ node.children.map architectureOfChild)).Nodup := by
  rw [Keyed.keys_append, keys_architectureOfChild, ownEntries]
  rcases hkind : node.kind with _ | state
  · exact h.names_nodup
  · have hfree := h.names_free state (by rw [leaf?, hkind]; rfl)
    refine List.Nodup.append (by decide : ["class", "hardware_attributes"].Nodup) h.names_nodup ?_
    intro name hfield hchild
    obtain ⟨hclass, hattributes, -⟩ := hfree name hchild
    rcases List.mem_cons.mp hfield with rfl | hfield
    · exact hclass rfl
    · exact hattributes (List.mem_singleton.mp hfield)

theorem WellFormed.described (h : node.WellFormed) : node.Described := by
  have hentry : Report.architectureEntry node =
      node.ownEntries ++ node.children.map architectureOfChild := by
    rw [architectureEntry_eq_insertAll, Keyed.insertAll_eq_append h.keys_nodup]
  exact ⟨hentry ▸ h.keys_nodup, hentry⟩

/-! ### Reading a description back -/

/-- A container has no text in its entry, and a leaf has one first of all. -/
theorem architectureEntry_ne (h : node.WellFormed) (h' : node'.WellFormed)
    (hcontainer : node.isLeaf = false) (hleaf : node'.isLeaf = true) :
    Report.architectureEntry node ≠ Report.architectureEntry node' := by
  rw [h.described.entry_eq, h'.described.entry_eq]
  obtain ⟨name, _ | state, children⟩ := node
  · obtain ⟨name', _ | state', children'⟩ := node'
    · exact absurd hleaf Bool.false_ne_true
    · rcases children with _ | ⟨child, children⟩ <;> simp [ownEntries, architectureOfChild]
  · exact absurd hcontainer.symm Bool.false_ne_true

theorem forall₂_of_map_eq_map {α β : Type} {f : α → β} {R : α → α → Prop} {xs ys : List α}
    (h : xs.map f = ys.map f) (hR : ∀ x ∈ xs, ∀ y ∈ ys, f x = f y → R x y) :
    List.Forall₂ R xs ys := by
  induction xs generalizing ys with
  | nil =>
    obtain rfl : ys = [] := List.map_eq_nil_iff.mp h.symm
    exact .nil
  | cons x xs ih =>
    rcases ys with _ | ⟨y, ys⟩
    · simp at h
    · obtain ⟨hhead, htail⟩ := List.cons_eq_cons.mp h
      refine .cons (hR x List.mem_cons_self y List.mem_cons_self hhead) (ih htail ?_)
      exact fun x hx y hy ↦ hR x (List.mem_cons_of_mem _ hx) y (List.mem_cons_of_mem _ hy)

/-- The name and the entry of a component are its whole hierarchy. -/
theorem sameHierarchy_of_entry_eq {root root' : Component} (h : Everywhere WellFormed root)
    (h' : Everywhere WellFormed root')
    (heq : architectureOfChild root = architectureOfChild root') : SameHierarchy root root' := by
  induction root using Component.induction generalizing root' with
  | node name kind children ih =>
    obtain ⟨name', kind', children'⟩ := root'
    obtain ⟨rfl, hdocument⟩ := Prod.mk.inj heq
    have hentry := Document.mapping.inj hdocument
    -- Children are compared pair by pair, once the fields before them are out of the way.
    have hbelow (hsame : children.map architectureOfChild = children'.map architectureOfChild) :
        List.Forall₂ SameHierarchy children children' :=
      forall₂_of_map_eq_map hsame fun child hchild child' hchild' ↦
        ih child hchild (h.of_mem hchild) (h'.of_mem hchild')
    rcases kind with _ | state <;> rcases kind' with _ | state'
    · rw [h.here.described.entry_eq, h'.here.described.entry_eq] at hentry
      exact .container _ (hbelow hentry)
    · exact absurd hentry (architectureEntry_ne h.here h'.here rfl rfl)
    · exact absurd hentry.symm (architectureEntry_ne h'.here h.here rfl rfl)
    · rw [h.here.described.entry_eq, h'.here.described.entry_eq] at hentry
      simp only [ownEntries, List.cons_append, List.nil_append, List.cons.injEq, Prod.mk.injEq,
        Document.text.injEq, Document.mapping.injEq, true_and] at hentry
      obtain ⟨hclass, hattributes, hchildren⟩ := hentry
      exact .leaf _ hclass (attributeEntries_injective hattributes) (hbelow hchildren)

/-- One hierarchy has one description, however it was built. -/
theorem SameHierarchy.entry_eq {root root' : Component} (h : SameHierarchy root root') :
    architectureOfChild root = architectureOfChild root' := by
  induction root using Component.induction generalizing root' with
  | node name kind children ih =>
    have hbelow {children' : List Component}
        (hchildren : List.Forall₂ SameHierarchy children children') :
        children.map architectureOfChild = children'.map architectureOfChild := by
      rw [← List.forall₂_eq_eq_eq, List.forall₂_map_left_iff, List.forall₂_map_right_iff]
      refine ((List.forall₂_and_left _ _).mpr ⟨ih, hchildren⟩).imp ?_
      exact fun child child' ⟨hchild, hsame⟩ ↦ hchild hsame
    cases h with
    | container _ hchildren =>
      simp only [architectureOfChild, architectureEntry_eq_insertAll, hbelow hchildren, ownEntries]
    | leaf _ hclass hattributes hchildren =>
      simp only [architectureOfChild, architectureEntry_eq_insertAll, hbelow hchildren, ownEntries,
        hclass, hattributes]

end Component

/-! ### The whole description -/

/-- The description of a tree and its hierarchy determine each other. Nothing in a description was
put in over something else, and nowhere in a tree does the entry of a container look like the entry
of a leaf, whatever the children of the container are called. -/
theorem architecture_determines_hierarchy {root other : Component} (h : Reachable root)
    (hother : Reachable other) :
    (Report.architecture root = Report.architecture other ↔ SameHierarchy root other) ∧
      Everywhere Described root ∧
      ∀ path path' node node', root.find path = some node → other.find path' = some node' →
        node.isLeaf = false → node'.isLeaf = true →
          Report.architectureEntry node ≠ Report.architectureEntry node' := by
  have hsingle (tree : Component) : Report.architecture tree = [architectureOfChild tree] := rfl
  refine ⟨?_, h.wellFormed.imp fun _ ↦ WellFormed.described, ?_⟩
  · rw [hsingle, hsingle, List.singleton_inj]
    exact ⟨sameHierarchy_of_entry_eq h.wellFormed hother.wellFormed, SameHierarchy.entry_eq⟩
  · intro path path' node node' hnode hnode'
    exact architectureEntry_ne (h.wellFormed.find hnode).here (hother.wellFormed.find hnode').here

namespace Sample

/-- A container with children that are called like the fields of a leaf. -/
def lookalike : Component :=
  ⟨"spad", .container, [Component.container "class", Component.container "hardware_attributes"]⟩

theorem reachable_lookalike : Reachable lookalike :=
  have hfirst : focus (Component.attach (Component.container "class")) []
      (Component.container "spad") =
        some (.ok () ⟨"spad", .container, [Component.container "class"]⟩) := rfl
  have hsecond : focus (Component.attach (Component.container "hardware_attributes")) []
      ⟨"spad", .container, [Component.container "class"]⟩ = some (.ok () lookalike) := rfl
  .attach (.attach (.container "spad") (.container "class") hfirst)
    (.container "hardware_attributes") hsecond

end Sample

/-- A leaf and a container under one name and with the same keys below it have different
descriptions. -/
theorem architecture_determines_hierarchy_sample :
    let leaf := Sample.leaf [0, 0, 0, 0, 0, 0] [0]
    Reachable Sample.lookalike ∧ Reachable leaf ∧
      Keyed.keys (Report.architectureEntry Sample.lookalike) =
        Keyed.keys (Report.architectureEntry leaf) ∧
      Report.architecture Sample.lookalike ≠ Report.architecture leaf := by
  intro leaf
  have hdescribes :=
    (architecture_determines_hierarchy Sample.reachable_lookalike Sample.reachable_leaf).1
  refine ⟨Sample.reachable_lookalike, Sample.reachable_leaf, by decide, fun heq ↦ ?_⟩
  exact nomatch hdescribes.mp heq

end CountTree
