import CountTree.Proofs.WellFormed

/-!
The trees that can be built. A reachable tree starts from a container or from a fresh leaf and goes
through attaching and recording at paths, refused or not; a copy of a part of it is reachable as
well. `wellFormed_of_reachable` is the main statement: every component of every reachable tree is
well-formed and free of faults, and each single step keeps a tree so.
-/

set_option autoImplicit false
set_option relaxedAutoImplicit false

namespace CountTree

open Component

/-- The trees that come of building leaves and containers, attaching, recording, and copying parts.
Schemas and actions need no clause: each of their values was made by `create` or `simple`. -/
inductive Reachable : Component → Prop
  | container (name : String) : Reachable (Component.container name)
  | leaf {name classTag : String} {attributes : Attributes} {schema : Schema} {node : Component}
      (h : Component.leaf name classTag attributes schema = .ok node) : Reachable node
  | part {root node : Component} {path : List String} (h : Reachable root)
      (hfind : root.find path = some node) : Reachable node
  | attach {root child : Component} {path : List String}
      {outcome : Outcome ModelError Component Unit} (h : Reachable root) (hchild : Reachable child)
      (hrun : focus (Component.attach child) path root = some outcome) :
      Reachable (Outcome.state outcome)
  | record {root : Component} {path : List String} {action : String} {arguments : List Nat}
      {delta : Nat} {outcome : Outcome ModelError Component Unit} (h : Reachable root)
      (hrun : focus (Component.record action arguments delta) path root = some outcome) :
      Reachable (Outcome.state outcome)

theorem Reachable.wellFormed {root : Component} (h : Reachable root) :
    Everywhere WellFormed root := by
  induction h with
  | container name =>
    exact .intro (.container name) fun child hchild ↦ absurd hchild List.not_mem_nil
  | leaf h =>
    refine .intro (.leaf h) ?_
    unfold Component.leaf at h
    split at h <;> cases h
    exact fun child hchild ↦ absurd hchild List.not_mem_nil
  | part _ hfind ih => exact ih.find hfind
  | attach _ _ hrun ih ihchild =>
    rw [state_of_focus hrun]
    exact ih.attach ihchild _
  | record _ hrun ih =>
    rw [state_of_focus hrun]
    exact ih.record _ _ _ _

theorem focus_record_ne_fault {root : Component}
    (h : Everywhere WellFormed root) (action : String) (arguments : List Nat) (delta : Nat)
    (path : List String) (cause : Fault) (state : Component) :
    focus (record action arguments delta) path root ≠ some (.error (.fault cause) state) := by
  intro hrun
  obtain ⟨node, state', hnode, hrecord⟩ := error_of_focus hrun
  exact (h.find hnode).here.faultFree.record_ne _ _ _ _ _ hrecord

/-- Every component of every reachable tree is well-formed, so that counting on it and reporting
it never leave the machine's range or the bounds of a table. Attaching and recording keep any
well-formed tree well-formed, whether they succeed or fail, and recording never ends in a fault. -/
theorem wellFormed_of_reachable :
    (∀ root, Reachable root → Everywhere WellFormed root ∧ Everywhere FaultFree root) ∧
      (∀ root child path outcome, Everywhere WellFormed root → Everywhere WellFormed child →
        focus (attach child) path root = some outcome →
          Everywhere WellFormed (Outcome.state outcome)) ∧
      (∀ root path action arguments delta outcome, Everywhere WellFormed root →
        focus (record action arguments delta) path root = some outcome →
          Everywhere WellFormed (Outcome.state outcome) ∧
            ∀ cause state, outcome ≠ .error (.fault cause) state) ∧
      ∀ root path action arguments outcome, Everywhere WellFormed root →
        focus (count action arguments) path root = some outcome →
          Everywhere WellFormed (Outcome.state outcome) ∧
            ∀ cause state, outcome ≠ .error (.fault cause) state := by
  have hrecord : ∀ root path action arguments delta outcome, Everywhere WellFormed root →
      focus (record action arguments delta) path root = some outcome →
        Everywhere WellFormed (Outcome.state outcome) ∧
          ∀ cause state, outcome ≠ .error (.fault cause) state := by
    intro root path action arguments delta outcome h hrun
    refine ⟨?_, ?_⟩
    · rw [state_of_focus hrun]
      exact h.record _ _ _ _
    · rintro cause state rfl
      exact focus_record_ne_fault h _ _ _ _ _ _ hrun
  refine ⟨?_, ?_, hrecord, ?_⟩
  · intro root h
    exact ⟨h.wellFormed, h.wellFormed.imp fun _ ↦ WellFormed.faultFree⟩
  · intro root child path outcome h hchild hrun
    rw [state_of_focus hrun]
    exact h.attach hchild path
  · intro root path action arguments outcome h hrun
    exact hrecord root path action arguments 1 outcome h hrun

/-! ### A tree that can be built -/

namespace Sample

/-- An action with two arguments and one with none. -/
def schema : Schema where
  actions := [⟨"access", [2, 3], 6, by decide⟩, Action.simple "tick"]
  nodup := by decide

def leaf (accesses ticks : List Nat) : Component :=
  ⟨"spad", .leaf ⟨"SRAM", Attributes.empty, schema, ⟨[accesses, ticks]⟩⟩, []⟩

/-- A container with one leaf, which holds these counts. -/
def tree (accesses ticks : List Nat) : Component := ⟨"top", .container, [leaf accesses ticks]⟩

theorem reachable_leaf : Reachable (leaf [0, 0, 0, 0, 0, 0] [0]) :=
  have h : Component.leaf "spad" "SRAM" Attributes.empty schema =
      .ok (leaf [0, 0, 0, 0, 0, 0] [0]) := by decide
  .leaf h

theorem reachable_tree : Reachable (tree [0, 0, 0, 0, 0, 0] [0]) :=
  have h : focus (Component.attach (leaf [0, 0, 0, 0, 0, 0] [0])) [] (Component.container "top") =
      some (.ok () (tree [0, 0, 0, 0, 0, 0] [0])) := rfl
  .attach (.container "top") reachable_leaf h

end Sample

/-- A child that would take the name of an action is refused, and the tree stays as it should. -/
theorem wellFormed_of_reachable_sample :
    let tree := Sample.tree [0, 0, 0, 0, 0, 0] [0]
    let refused : Outcome ModelError Component Unit := .error (.reservedName "spad" "tick") tree
    Everywhere WellFormed tree ∧ Everywhere FaultFree tree ∧
      focus (attach (container "tick")) ["spad"] tree = some refused ∧
        Everywhere WellFormed (Outcome.state refused) :=
  have htree := wellFormed_of_reachable.1 _ Sample.reachable_tree
  have hchild := wellFormed_of_reachable.1 _ (.container "tick")
  ⟨htree.1, htree.2, rfl, wellFormed_of_reachable.2.1 _ _ ["spad"] _ htree.1 hchild.1 rfl⟩

end CountTree
