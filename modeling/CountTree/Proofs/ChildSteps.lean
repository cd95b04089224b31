import CountTree.Proofs.RecordingOrder
import CountTree.Proofs.Steps
import CountTree.Unit.ProcessingElement

/-!
Steps on a child, and on a component further down, that fail when the component is not there. A step
on a child that is made of two steps is two steps on the child (`onChild_bind`), so that a program
of a unit can be taken apart into recordings at paths of the whole tree. `performAll_of_fits` is
what a program of recordings comes to when every counter is there and can take what is meant for it:
it succeeds, and leaves the tree that the recordings leave.
-/

set_option autoImplicit false
set_option relaxedAutoImplicit false

namespace CountTree

open Component

namespace Component

variable {ε α β : Type}

theorem after_map (g : α → β) (step : Run ε Component α) : after (g <$> step) = after step := by
  funext node
  rw [after, after]
  rcases hstep : step node with ⟨value, node'⟩ | ⟨cause, node'⟩
  · rw [Run.map_of_ok hstep]
    rfl
  · rw [Run.map_of_error hstep]
    rfl

theorem after_mapError {δ : Type} (f : ε → δ) (step : Run ε Component α) :
    after (Run.mapError f step) = after step := by
  funext node
  rw [after, Run.mapError, after]
  rcases step node with _ | _ <;> rfl

end Component

namespace ProcessingElement

variable {α β : Type} {name : String} {node child : Component}

/-! ### Steps on a child -/

theorem onChild_of_none (hchild : node.child name = none) (step : Run RunError Component α) :
    onChild name step node = .error (.missingComponent node.name name) node := by
  rw [onChild, focus_eq, find_cons, hchild]
  rfl

theorem onChild_of_some (hchild : node.child name = some child) (step : Run RunError Component α) :
    onChild name step node =
      Outcome.mapState (fun _ ↦ node.adjust (after step) [name]) (step child) := by
  rw [onChild, focus_eq, find_cons, hchild]
  rfl

/-- A failure that leaves the child as it was leaves its parent as it was. -/
theorem onChild_of_error (hchild : node.child name = some child) {step : Run RunError Component α}
    {cause : RunError} (hstep : step child = .error cause child) :
    onChild name step node = .error cause node := by
  have hsame : node.adjust (after step) [name] = node := by
    refine adjust_eq_self fun other hother ↦ ?_
    rw [find_cons, hchild] at hother
    obtain rfl := Option.some.inj hother
    rw [after, hstep, Outcome.state]
  rw [onChild_of_some hchild, hstep, hsame]
  rfl

theorem onChild_map (g : α → β) (step : Run RunError Component α) :
    onChild name (g <$> step) = g <$> onChild name step := by
  funext node
  rcases hchild : node.child name with _ | child
  · rw [onChild_of_none hchild, Run.map_of_error (onChild_of_none hchild step)]
  · have hright := onChild_of_some hchild step
    rw [onChild_of_some hchild, after_map]
    rcases hstep : step child with ⟨value, child'⟩ | ⟨cause, child'⟩ <;> rw [hstep] at hright
    · rw [Run.map_of_ok hstep, Run.map_of_ok hright]
      rfl
    · rw [Run.map_of_error hstep, Run.map_of_error hright]
      rfl

/-- Two steps on a child, one after the other: the second finds what the first has left, as long as
the first does not rename it. -/
theorem onChild_bind {step : Run RunError Component α}
    (hname : ∀ node, (after step node).name = node.name) (next : α → Run RunError Component β) :
    onChild name (step >>= next) = onChild name step >>= fun value ↦ onChild name (next value) := by
  funext node
  rcases hchild : node.child name with _ | child
  · rw [onChild_of_none hchild, Run.bind_of_error (onChild_of_none hchild step)]
  · have hfind : ∀ other, node.find [name] = some other → other = child := fun other hother ↦ by
      rw [find_cons, hchild] at hother
      exact (Option.some.inj hother).symm
    have hfirst := onChild_of_some hchild step
    rw [onChild_of_some hchild]
    rcases hstep : step child with ⟨value, child'⟩ | ⟨cause, child'⟩ <;> rw [hstep] at hfirst
    · have hchild' : (node.adjust (after step) [name]).child name = some child' := by
        rw [child_adjust_self hname, hchild, Option.map_some, adjust_nil, after, hstep,
          Outcome.state]
      have hsame : node.adjust (after (step >>= next)) [name] =
          (node.adjust (after step) [name]).adjust (after (next value)) [name] := by
        rw [adjust_adjust hname]
        refine adjust_congr fun other hother ↦ ?_
        obtain rfl := hfind other hother
        rw [after, Run.bind_of_ok hstep, after, after, hstep, Outcome.state]
      rw [Run.bind_of_ok hstep, Run.bind_of_ok hfirst, onChild_of_some hchild', hsame]
    · have hsame : node.adjust (after (step >>= next)) [name] =
          node.adjust (after step) [name] := by
        refine adjust_congr fun other hother ↦ ?_
        obtain rfl := hfind other hother
        rw [after, Run.bind_of_error hstep, after, hstep, Outcome.state, Outcome.state]
      rw [Run.bind_of_error hstep, Run.bind_of_error hfirst, hsame]
      rfl

theorem name_after_onChild (step : Run RunError Component α) (node : Component) :
    (after (onChild name step) node).name = node.name := by
  rcases hchild : node.child name with _ | child
  · rw [after, onChild_of_none hchild, Outcome.state]
  · rw [after, onChild_of_some hchild]
    rcases step child with _ | _ <;> rfl

/-- A failure that leaves the unit and the child as they were leaves the parent as it was. -/
theorem onUnit_of_error {σ : Type} {unit : σ} {step : Run RunError (σ × Component) α}
    {cause : RunError} (hchild : node.child name = some child)
    (hstep : step (unit, child) = .error cause (unit, child)) :
    onUnit name step (unit, node) = .error cause (unit, node) := by
  have hbeside : Run.beside unit step child = .error (cause, unit) child := by
    rw [Run.beside, hstep]
  have hsame : node.adjust (after (Run.beside unit step)) [name] = node := by
    refine adjust_eq_self fun other hother ↦ ?_
    rw [find_cons, hchild] at hother
    obtain rfl := Option.some.inj hother
    rw [after, hbeside, Outcome.state]
  rw [onUnit, focus_eq, find_cons, hchild, hsame]
  dsimp only [Option.bind_some, find, Option.map_some]
  rw [hbeside]
  rfl

/-- A step on a unit and a child that changes the unit last is a step on the child. -/
theorem onUnit_of_commit {σ : Type} {unit next : σ} {value : β}
    {step : Run RunError (σ × Component) β} {plain : Run RunError Component α}
    (hstep : ∀ child, step (unit, child) = Outcome.commit unit next value (plain child))
    (node : Component) :
    onUnit name step (unit, node) = Outcome.commit unit next value (onChild name plain node) := by
  have hafter : after (Run.beside unit step) = after plain := by
    funext child
    rw [after, Run.beside, hstep, after]
    rcases plain child with _ | _ <;> rfl
  rw [onUnit, onChild, focus_eq, focus_eq, hafter]
  rcases node.find [name] with _ | child
  · rfl
  · dsimp only [Option.map_some]
    rw [Run.beside, hstep]
    rcases plain child with _ | _ <;> rfl

/-! ### Recordings as steps -/

/-- Runs a step at the end of a path, and tells which component on the way is missing. -/
def onPath : List String → Run RunError Component α → Run RunError Component α
  | [], step => step
  | name :: path, step => onChild name (onPath path step)

theorem onPath_eq {path : List String} {root node : Component} (hfind : root.find path = some node)
    (step : Run RunError Component α) :
    onPath path step root =
      Outcome.mapState (fun _ ↦ root.adjust (after step) path) (step node) := by
  induction path generalizing root with
  | nil =>
    obtain rfl := Option.some.inj hfind
    exact (mapState_state _).symm
  | cons name path ih =>
    rw [find_cons] at hfind
    obtain ⟨child, hchild, hfind⟩ := Option.bind_eq_some_iff.mp hfind
    have hsame : root.adjust (after (onPath path step)) [name] =
        root.adjust (after step) (name :: path) := by
      rw [adjust_cons, adjust_cons]
      congr 1
      refine adjustFirst_congr fun other hother ↦ ?_
      obtain rfl := Option.some.inj (hchild.symm.trans hother)
      rw [adjust_nil, after, ih hfind]
      rcases step node with _ | _ <;> rfl
    rw [onPath, onChild_of_some hchild, ih hfind, mapState_mapState, hsame]

end ProcessingElement

namespace Recording

open ProcessingElement

/-- Records at the end of the path, for units: what is not there counts as missing. -/
def perform (recording : Recording) : Run RunError Component Unit :=
  onPath recording.address.path (Run.mapError .model recording.step)

/-- The recording below a child. -/
def under (name : String) (recording : Recording) : Recording :=
  { recording with address := { recording.address with path := name :: recording.address.path } }

/-- Records in order up to the first failure. -/
def performAll : List Recording → Run RunError Component Unit
  | [] => return ()
  | recording :: recordings => do
    recording.perform
    performAll recordings

variable {recording : Recording} {recordings : List Recording} {root : Component}

theorem name_after_perform (recording : Recording) (root : Component) :
    (Component.after recording.perform root).name = root.name := by
  obtain ⟨⟨path, action, arguments⟩, delta⟩ := recording
  rcases path with _ | ⟨name, path⟩
  · rw [perform, onPath, after_mapError]
    exact name_after_record _ _ _ root
  · exact name_after_onChild _ root

theorem onChild_perform (name : String) (recording : Recording) :
    onChild name recording.perform = (recording.under name).perform := rfl

theorem performAll_singleton (recording : Recording) : performAll [recording] = recording.perform :=
  bind_pure _

theorem performAll_pair (first second : Recording) :
    performAll [first, second] = (first.perform >>= fun _ ↦ second.perform) := by
  rw [performAll, performAll_singleton]

theorem performAll_append (recordings others : List Recording) : performAll (recordings ++ others) =
    (performAll recordings >>= fun _ ↦ performAll others) := by
  induction recordings with
  | nil => rfl
  | cons recording recordings ih => rw [List.cons_append, performAll, ih, performAll, bind_assoc]

theorem onChild_performAll (name : String) (hne : recordings ≠ []) :
    onChild name (performAll recordings) = performAll (recordings.map (under name)) := by
  induction recordings with
  | nil => exact absurd rfl hne
  | cons recording recordings ih =>
    rcases recordings with _ | ⟨second, rest⟩
    · rw [performAll_singleton, List.map_singleton, performAll_singleton, onChild_perform]
    · rw [performAll, onChild_bind (name_after_perform recording), onChild_perform,
        ih (List.cons_ne_nil _ _)]
      rfl

/-- What a recording does where its path leads somewhere, told with the errors of a unit. -/
theorem perform_of_run {outcome : Outcome ModelError Component Unit}
    (hrun : recording.run root = some outcome) :
    recording.perform root = Outcome.mapError .model outcome := by
  rw [run, focus_eq] at hrun
  obtain ⟨node, hnode, rfl⟩ := Option.map_eq_some_iff.mp hrun
  rw [perform, onPath_eq hnode, after_mapError, Run.mapError]
  rcases recording.step node with _ | _ <;> rfl

/-- Recordings on counters that are there and can take all of it succeed one after the other. -/
theorem performAll_of_fits (h : Everywhere WellFormed root)
    (hcounters : ∀ recording ∈ recordings, root.HasCounter recording.address)
    (hfits : Fits root recordings) :
    performAll recordings root = .ok () (runAll recordings root).2 := by
  induction recordings generalizing root with
  | nil => rfl
  | cons recording recordings ih =>
    obtain ⟨count, htally⟩ := hasCounter_iff.mp (hcounters recording List.mem_cons_self)
    have hrun := run_of_le h htally (hfits.of_mem List.mem_cons_self htally)
    have hkept : ∀ other ∈ recordings, (recording.after root).HasCounter other.address := by
      intro other hother
      obtain ⟨initial, hinitial⟩ :=
        hasCounter_iff.mp (hcounters other (List.mem_cons_of_mem _ hother))
      exact hasCounter_iff.mpr ⟨_, by rw [hfits.tally_after h, hinitial, Option.map_some]⟩
    rw [performAll, Run.bind_of_ok (perform_of_run hrun),
      ih (wellFormed_after h) hkept (hfits.tail h), runAll]

/-- A recording made twice on a counter that can take it once is left half done. -/
theorem performAll_of_lt (h : Everywhere WellFormed root) {count : Nat}
    (htally : root.tally recording.address = some count)
    (hfit : count + recording.delta ≤ Word.top)
    (hover : Word.top < count + recording.delta + recording.delta) (rest : List Recording) :
    ∃ index, performAll (recording :: recording :: rest) root =
      .error (.model (.counterOverflow recording.address.action index recording.delta))
        (recording.after root) := by
  have hfirst := run_of_le h htally hfit
  obtain ⟨index, hsecond⟩ :=
    run_of_lt (wellFormed_after h) (tally_after_of_le h htally hfit) hover
  refine ⟨index, ?_⟩
  rw [performAll, Run.bind_of_ok (perform_of_run hfirst), performAll,
    Run.bind_of_error (perform_of_run hsecond)]

end Recording

end CountTree
