import CountTree.Proofs.Tally
import Mathlib.Algebra.Order.BigOperators.Group.List

/-!
Recordings in any order. `validate` is what a recording is refused for before anything is added; it
reads the skeleton of a tree only (`validate_skeleton`), and no recording changes that. As long as
every counter can take all that is meant for it (`Fits`), a recording is answered by its validation
alone, whatever has been recorded before (`answers_of_fits`), and each counter ends at its initial
value and the sum of what is addressed to it (`tally_runAll_of_fits`). Neither depends on the order,
which is the main statement, `runAll_perm`.
-/

set_option autoImplicit false
set_option relaxedAutoImplicit false

namespace CountTree

open Component

/-! ### Validation -/

namespace Component

/-- Whether there is a counter at an address, and if not why; nothing when the path leads nowhere.
-/
def validate (root : Component) (address : Address) : Option (Except ModelError Unit) :=
  (root.find address.path).map fun node ↦
    (node.cell address.action address.arguments).map fun _ ↦ ()

theorem find_skeleton (root : Component) (path : List String) :
    root.skeleton.find path = (root.find path).map skeleton := by
  induction path generalizing root with
  | nil => rfl
  | cons name path ih =>
    have hchild : root.skeleton.child name = (root.child name).map skeleton := by
      rw [child, children_skeleton, List.find?_map, child]
      congr 2
      funext node
      rw [Function.comp_apply, name_skeleton]
    rw [find_cons, hchild, find_cons, Option.map_bind]
    rcases root.child name with _ | child
    · rfl
    · exact ih child

/-- A cell is found or refused without a look at what the counters hold. -/
theorem cell_skeleton (node : Component) (action : String) (arguments : List Nat) :
    (node.skeleton.cell action arguments).map (fun _ ↦ ()) =
      (node.cell action arguments).map fun _ ↦ () := by
  obtain ⟨name, _ | leaf, children⟩ := node
  · rfl
  · have hleaf : leaf? ⟨name, .leaf leaf, children⟩ = some leaf := rfl
    have hskeleton : (skeleton ⟨name, .leaf leaf, children⟩).cell action arguments =
        (cell ⟨name, .leaf leaf, children⟩ action arguments).map fun found ↦
          { found with leaf := { leaf with counters := ⟨[]⟩ } } := cell_with_counters hleaf ⟨[]⟩
    rw [hskeleton]
    rcases cell ⟨name, .leaf leaf, children⟩ action arguments with _ | _ <;> rfl

theorem validate_skeleton (root : Component) (address : Address) :
    root.skeleton.validate address = root.validate address := by
  rw [validate, find_skeleton, Option.map_map, validate]
  congr 1
  funext node
  exact cell_skeleton node address.action address.arguments

/-- A counter of a well-formed tree holds a word. -/
theorem tally_le_top {root : Component} (h : Everywhere WellFormed root) {address : Address}
    {count : Nat} (htally : root.tally address = some count) : count ≤ Word.top := by
  obtain ⟨node, hnode, hvalue⟩ := tally_eq_some_iff.mp htally
  exact counterValue_le_top (h.find hnode).here hvalue

end Component

/-! ### Answers -/

/-- What is told of an outcome: the value or the cause of the failure. -/
def Outcome.answer {ε σ α : Type} : Outcome ε σ α → Except ε α
  | .ok value _ => .ok value
  | .error cause _ => .error cause

/-- What a recording is answered; nothing when its path leads nowhere. -/
def Recording.answer (recording : Recording) (root : Component) :
    Option (Except ModelError Unit) :=
  (recording.run root).map Outcome.answer

/-- The answers to recordings made one after the other, going on after failures. -/
def answers : List Recording → Component → List (Option (Except ModelError Unit))
  | [], _ => []
  | recording :: recordings, root =>
    recording.answer root :: answers recordings (recording.after root)

/-- Every counter can take all that is addressed to it. -/
def Fits (root : Component) (recordings : List Recording) : Prop :=
  ∀ address initial, root.tally address = some initial →
    initial + totalAt address recordings ≤ Word.top

variable {root : Component} {recording : Recording} {recordings : List Recording}

/-- A recording that does not overflow is answered by its validation. -/
theorem Recording.answer_eq_validate (h : Everywhere WellFormed root)
    (hfits : ∀ count, root.tally recording.address = some count →
      count + recording.delta ≤ Word.top) :
    recording.answer root = root.validate recording.address := by
  rcases hnode : root.find recording.address.path with _ | node
  · rw [answer, run, focus_eq, validate, hnode]
    rfl
  · rw [validate, hnode, Option.map_some]
    rcases hvalue : node.counterValue recording.address.action recording.address.arguments with
      cause | count
    · rw [answer, run_of_error hnode (record_of_counterValue_error hvalue),
        counterValue_error_iff.mp hvalue]
      rfl
    · have htally := tally_eq_some_iff.mpr ⟨node, hnode, hvalue⟩
      obtain ⟨cell, hcell, -⟩ := (counterValue_eq_ok_iff (h.find hnode).here).mp hvalue
      rw [answer, run_of_le h htally (hfits count htally), hcell]
      rfl

/-- The order of recordings has no part in what goes to an address. -/
theorem totalAt_perm {order : List Recording} (hperm : order.Perm recordings) (address : Address) :
    totalAt address order = totalAt address recordings :=
  ((hperm.filter _).map _).sum_nat

theorem totalAt_append (address : Address) (before rest : List Recording) :
    totalAt address (before ++ rest) = totalAt address before + totalAt address rest := by
  rw [totalAt, List.filter_append, List.map_append, List.sum_append, totalAt, totalAt]

theorem delta_le_totalAt (hmem : recording ∈ recordings) :
    recording.delta ≤ totalAt recording.address recordings :=
  List.single_le_sum (fun _ _ ↦ Nat.zero_le _) _
    (List.mem_map_of_mem (List.mem_filter.mpr ⟨hmem, by simp⟩))

namespace Fits

/-- It is enough to look at the counters that are recorded on; the others hold words anyway. -/
theorem of_forall_mem (h : Everywhere WellFormed root)
    (hmem : ∀ recording ∈ recordings, ((root.tally recording.address).all fun initial ↦
      initial + totalAt recording.address recordings ≤ Word.top) = true) :
    Fits root recordings := by
  intro address initial hinitial
  by_cases hused : ∃ recording ∈ recordings, recording.address = address
  · obtain ⟨recording, hrecording, rfl⟩ := hused
    simpa [hinitial] using hmem recording hrecording
  · have hnone : totalAt address recordings = 0 := by
      have hempty : recordings.filter (·.address = address) = [] :=
        List.filter_eq_nil_iff.mpr fun recording hrecording ↦ by
          simpa using fun heq ↦ hused ⟨recording, hrecording, heq⟩
      rw [totalAt, hempty]
      rfl
    rw [hnone, Nat.add_zero]
    exact tally_le_top h hinitial

theorem of_mem (hfits : Fits root recordings) (hmem : recording ∈ recordings) {count : Nat}
    (htally : root.tally recording.address = some count) : count + recording.delta ≤ Word.top :=
  Nat.le_trans (Nat.add_le_add_left (delta_le_totalAt hmem) count) (hfits _ _ htally)

/-- A counter that can take all takes the first part of it. -/
theorem tally_after (hfits : Fits root (recording :: recordings)) (h : Everywhere WellFormed root)
    (address : Address) : (recording.after root).tally address =
      (root.tally address).map
        (· + if recording.address = address then recording.delta else 0) := by
  rw [Recording.tally_after h, Tally.post]
  by_cases haddress : recording.address = address
  · subst haddress
    rcases htally : root.tally recording.address with _ | count
    · split <;> rfl
    · rw [if_pos ⟨rfl, count, htally, hfits.of_mem List.mem_cons_self htally⟩, if_pos rfl]
  · rw [if_neg fun hboth ↦ haddress hboth.1.symm, if_neg haddress]
    simp

/-- What is still to come fits when the first part is in. -/
theorem tail (hfits : Fits root (recording :: recordings)) (h : Everywhere WellFormed root) :
    Fits (recording.after root) recordings := by
  intro address initial hinitial
  rw [hfits.tally_after h] at hinitial
  obtain ⟨count, htally, rfl⟩ := Option.map_eq_some_iff.mp hinitial
  have htotal := hfits _ _ htally
  rwa [totalAt_cons, ← Nat.add_assoc] at htotal

/-- What is still to come fits when all before it is in. -/
theorem of_append {before rest : List Recording} (hfits : Fits root (before ++ rest))
    (h : Everywhere WellFormed root) : Fits (runAll before root).2 rest := by
  induction before generalizing root with
  | nil => exact hfits
  | cons recording before ih => exact ih (hfits.tail h) (Recording.wellFormed_after h)

theorem perm {order : List Recording} (hfits : Fits root recordings)
    (hperm : order.Perm recordings) : Fits root order := by
  intro address initial hinitial
  rw [totalAt_perm hperm]
  exact hfits address initial hinitial

end Fits

/-! ### Runs -/

theorem runAll_append (before rest : List Recording) (root : Component) :
    (runAll (before ++ rest) root).2 = (runAll rest (runAll before root).2).2 := by
  induction before generalizing root with
  | nil => rfl
  | cons recording before ih => exact ih _

theorem answers_of_fits (h : Everywhere WellFormed root) (hfits : Fits root recordings) :
    answers recordings root = recordings.map fun recording ↦ root.validate recording.address := by
  induction recordings generalizing root with
  | nil => rfl
  | cons recording recordings ih =>
    have hsame (address : Address) :
        (recording.after root).validate address = root.validate address := by
      rw [← validate_skeleton, Recording.skeleton_after, validate_skeleton]
    rw [answers, Recording.answer_eq_validate h fun _ ↦ hfits.of_mem List.mem_cons_self,
      ih (Recording.wellFormed_after h) (hfits.tail h), List.map_cons]
    simp only [hsame]

theorem tally_runAll_of_fits (h : Everywhere WellFormed root) (hfits : Fits root recordings)
    (address : Address) : (runAll recordings root).2.tally address =
      (root.tally address).map (· + totalAt address recordings) := by
  induction recordings generalizing root with
  | nil => simp [runAll, totalAt]
  | cons recording recordings ih =>
    rw [runAll, ih (Recording.wellFormed_after h) (hfits.tail h), hfits.tally_after h,
      Option.map_map, totalAt_cons]
    congr 1
    funext count
    exact Nat.add_assoc _ _ _

theorem hasCounter_runAll_of_fits (h : Everywhere WellFormed root) (hfits : Fits root recordings)
    {address : Address} (hcounter : root.HasCounter address) :
    (runAll recordings root).2.HasCounter address := by
  obtain ⟨initial, hinitial⟩ := hasCounter_iff.mp hcounter
  exact hasCounter_iff.mpr ⟨_, by rw [tally_runAll_of_fits h hfits, hinitial, Option.map_some]⟩

/-- Recordings on a reachable tree may come in any order if every counter can take all that is
addressed to it, those among them that lead nowhere or are refused included. Each of them is
answered as if it came first, and the tree at the end is the same. -/
theorem runAll_perm {root : Component} (h : Reachable root) {recordings : List Recording}
    (hfits : Fits root recordings) :
    ∀ order : List Recording, order.Perm recordings →
      answers order root = order.map (·.answer root) ∧
        (runAll order root).2 = (runAll recordings root).2 := by
  intro order hperm
  have hroot := h.wellFormed
  have horder := hfits.perm hperm
  constructor
  · rw [answers_of_fits hroot horder]
    refine List.map_congr_left fun recording hmem ↦ ?_
    exact (Recording.answer_eq_validate hroot fun _ ↦ horder.of_mem hmem).symm
  · apply eq_of_tally_eq (wellFormed_runAll hroot _) (wellFormed_runAll hroot _)
    · rw [skeleton_runAll, skeleton_runAll]
    · intro address
      rw [tally_runAll_of_fits hroot horder, tally_runAll_of_fits hroot hfits,
        totalAt_perm hperm]

/-- A counter that is filled to the last, a path that leads nowhere and an argument out of range,
forwards and backwards. -/
theorem runAll_perm_sample :
    let tree := Sample.tree [0, 0, 0, 0, 0, 0] [0]
    let access : Address := ⟨["spad"], "access", [1, 2]⟩
    let recordings : List Recording := [⟨access, Word.top - 1⟩, ⟨⟨["mac"], "tick", []⟩, 1⟩,
      ⟨⟨["spad"], "access", [2, 0]⟩, 1⟩, ⟨⟨["spad"], "tick", []⟩, 7⟩, ⟨access, 1⟩]
    Reachable tree ∧ Fits tree recordings ∧
      answers recordings.reverse tree = [some (.ok ()), some (.ok ()),
        some (.error (.indexOutOfRange "access" 0 2 2)), none, some (.ok ())] ∧
      (runAll recordings.reverse tree).2 = (runAll recordings tree).2 := by
  intro tree access recordings
  have hfits : Fits tree recordings :=
    .of_forall_mem Sample.reachable_tree.wellFormed (by decide)
  obtain ⟨hanswers, hsame⟩ :=
    runAll_perm Sample.reachable_tree hfits recordings.reverse (List.reverse_perm recordings)
  refine ⟨Sample.reachable_tree, hfits, ?_, hsame⟩
  rw [hanswers]
  rfl

end CountTree
