import CountTree.Proofs.Reachable
import CountTree.Proofs.Recording

/-!
Counting as a map from addresses to numbers. `Tally.post` is the whole of counting on such a map: an
amount goes to the address it names if that address is known and the sum is a word, and else
nowhere. One recording on a tree is one posting on its tally (`Recording.tally_after`), and so a run
of recordings is a run of postings. `runAll_refines_tally` is the main statement: after any run,
with failures of every kind in between, each counter holds what it held at first and the exact sum
of what was recorded on it, overflow is met exactly where that sum passes the largest word, and
nothing but counters has changed.
-/

set_option autoImplicit false
set_option relaxedAutoImplicit false

namespace CountTree

open Component

/-! ### Postings on a map -/

/-- What has been counted at each address, for the addresses that have a counter. -/
abbrev Tally := Address → Option Nat

namespace Tally

/-- There is a counter at the address, and it can take the amount. -/
def Accepts (tally : Tally) (recording : Recording) : Prop :=
  ∃ count, tally recording.address = some count ∧ count + recording.delta ≤ Word.top

instance (tally : Tally) (recording : Recording) : Decidable (tally.Accepts recording) :=
  match h : tally recording.address with
  | none => .isFalse fun ⟨_, hcount, _⟩ ↦ nomatch h.symm.trans hcount
  | some count => decidable_of_iff (count + recording.delta ≤ Word.top) (by simp [Accepts, h])

/-- Adds an accepted amount at its address. -/
def post (tally : Tally) (recording : Recording) : Tally := fun address ↦
  if address = recording.address ∧ tally.Accepts recording then
    (tally address).map (· + recording.delta)
  else tally address

end Tally

namespace Recording

variable {recording : Recording} {root : Component}

theorem succeeds_iff (h : Everywhere WellFormed root) :
    recording.succeeds root = true ↔ Tally.Accepts root.tally recording := by
  rcases htally : root.tally recording.address with _ | count
  · have hrefused : recording.succeeds root = false := by
      rcases run_of_none htally with hrun | ⟨cause, hrun⟩ <;> rw [succeeds, hrun]
    simp [hrefused, Tally.Accepts, htally]
  · by_cases hfit : count + recording.delta ≤ Word.top
    · have hdone : recording.succeeds root = true := by rw [succeeds, run_of_le h htally hfit]
      simp [hdone, Tally.Accepts, htally, hfit]
    · have hrefused : recording.succeeds root = false := by
        obtain ⟨index, hrun⟩ := run_of_lt h htally (Nat.lt_of_not_le hfit)
        rw [succeeds, hrun]
      simp [hrefused, Tally.Accepts, htally, hfit]

/-- A refused recording leaves the tree as it was. -/
theorem after_of_not_accepts (h : Everywhere WellFormed root)
    (hrefused : ¬ Tally.Accepts root.tally recording) : recording.after root = root := by
  rcases htally : root.tally recording.address with _ | count
  · rcases run_of_none htally with hrun | ⟨cause, hrun⟩ <;> rw [after, hrun]
    rfl
  · have hover : Word.top < count + recording.delta :=
      Nat.lt_of_not_le fun hfit ↦ hrefused ⟨count, htally, hfit⟩
    obtain ⟨index, hrun⟩ := run_of_lt h htally hover
    rw [after, hrun]
    rfl

/-- One recording on a tree is one posting on its tally. -/
theorem tally_after (h : Everywhere WellFormed root) :
    (recording.after root).tally = Tally.post root.tally recording := by
  funext address
  rw [Tally.post]
  by_cases haddress : address = recording.address
  · subst haddress
    by_cases haccepts : Tally.Accepts root.tally recording
    · obtain ⟨count, htally, hfit⟩ := haccepts
      rw [if_pos ⟨rfl, count, htally, hfit⟩, tally_after_of_le h htally hfit, htally,
        Option.map_some]
    · rw [if_neg fun hboth ↦ haccepts hboth.2, after_of_not_accepts h haccepts]
  · rw [if_neg fun hboth ↦ haddress hboth.1, tally_after_of_ne h haddress]

theorem reachable_after (h : Reachable root) : Reachable (recording.after root) := by
  rw [after]
  rcases hrun : recording.run root with _ | outcome
  · exact h
  · exact .record h hrun

end Recording

/-! ### Runs -/

/-- Records one after the other and goes on after failures: the recordings that succeeded, in
order, and the tree after all of them. -/
def runAll : List Recording → Component → List Recording × Component
  | [], root => ([], root)
  | recording :: recordings, root =>
    let rest := runAll recordings (recording.after root)
    (if recording.succeeds root then recording :: rest.1 else rest.1, rest.2)

/-- The sum of what goes to one address. -/
def totalAt (address : Address) (recordings : List Recording) : Nat :=
  ((recordings.filter (·.address = address)).map Recording.delta).sum

theorem totalAt_cons (address : Address) (recording : Recording) (recordings : List Recording) :
    totalAt address (recording :: recordings) =
      (if recording.address = address then recording.delta else 0) +
        totalAt address recordings := by
  by_cases haddress : recording.address = address <;> simp [totalAt, haddress]

theorem reachable_runAll {root : Component} (h : Reachable root) (recordings : List Recording) :
    Reachable (runAll recordings root).2 := by
  induction recordings generalizing root with
  | nil => exact h
  | cons recording recordings ih => exact ih (Recording.reachable_after h)

theorem wellFormed_runAll {root : Component} (h : Everywhere WellFormed root)
    (recordings : List Recording) : Everywhere WellFormed (runAll recordings root).2 := by
  induction recordings generalizing root with
  | nil => exact h
  | cons recording recordings ih => exact ih (Recording.wellFormed_after h)

theorem skeleton_runAll (recordings : List Recording) (root : Component) :
    (runAll recordings root).2.skeleton = root.skeleton := by
  induction recordings generalizing root with
  | nil => rfl
  | cons recording recordings ih => rw [runAll, ih, Recording.skeleton_after]

theorem tally_runAll {root : Component} (h : Everywhere WellFormed root)
    (recordings : List Recording) :
    (runAll recordings root).2.tally = recordings.foldl Tally.post root.tally := by
  induction recordings generalizing root with
  | nil => rfl
  | cons recording recordings ih =>
    rw [runAll, List.foldl_cons, ← Recording.tally_after h]
    exact ih (Recording.wellFormed_after h)

/-- A counter grows by exactly the successful recordings on it. -/
theorem tally_runAll_eq_add {root : Component} (h : Everywhere WellFormed root)
    (recordings : List Recording) {address : Address} {initial : Nat}
    (hinitial : root.tally address = some initial) :
    (runAll recordings root).2.tally address =
      some (initial + totalAt address (runAll recordings root).1) := by
  induction recordings generalizing root initial with
  | nil => exact hinitial
  | cons recording recordings ih =>
    have hafter : Everywhere WellFormed (recording.after root) := Recording.wellFormed_after h
    have hpost : (recording.after root).tally address = Tally.post root.tally recording address :=
      congrFun (Recording.tally_after h) address
    by_cases haccepts : Tally.Accepts root.tally recording
    · have hsucceeds := (Recording.succeeds_iff h).mpr haccepts
      rw [runAll, if_pos hsucceeds]
      dsimp only
      rw [totalAt_cons, ← Nat.add_assoc]
      apply ih hafter
      rw [hpost, Tally.post]
      by_cases haddress : recording.address = address
      · rw [if_pos ⟨haddress.symm, haccepts⟩, if_pos haddress, hinitial, Option.map_some]
      · rw [if_neg fun hboth ↦ haddress hboth.1.symm, if_neg haddress, Nat.add_zero, hinitial]
    · have hrefused : ¬ recording.succeeds root = true := fun hsucceeds ↦
        haccepts ((Recording.succeeds_iff h).mp hsucceeds)
      rw [runAll, if_neg hrefused]
      dsimp only
      apply ih hafter
      rw [hpost, Tally.post, if_neg fun hboth ↦ haccepts hboth.2, hinitial]

/-- A recording on a counter ends in overflow exactly when the sum is no word. -/
theorem Recording.overflow_iff {root : Component} (h : Everywhere WellFormed root)
    {recording : Recording} {count : Nat} (htally : root.tally recording.address = some count) :
    (∃ index state, recording.run root =
        some (.error (.counterOverflow recording.address.action index recording.delta) state)) ↔
      Word.top < count + recording.delta := by
  constructor
  · rintro ⟨index, state, hrun⟩
    by_contra hfit
    rw [run_of_le h htally (Nat.le_of_not_lt hfit)] at hrun
    simp at hrun
  · intro hover
    obtain ⟨index, hrun⟩ := run_of_lt h htally hover
    exact ⟨index, root, hrun⟩

/-- Counting refines the map from addresses to numbers. After any run of recordings on a reachable
tree, each counter holds its initial value and the exact sum of the successful recordings on it. On
the way a recording on a counter overflows exactly when the value it meets and its own amount pass
the largest word, and succeeds otherwise. Names, kinds, classes, attributes, schemas and the order
of children are never touched. -/
theorem runAll_refines_tally {root : Component} (h : Reachable root)
    (recordings : List Recording) :
    (runAll recordings root).2.tally = recordings.foldl Tally.post root.tally ∧
      (∀ address, root.HasCounter address → ∃ initial, root.tally address = some initial ∧
        (runAll recordings root).2.tally address =
          some (initial + totalAt address (runAll recordings root).1)) ∧
      (∀ before next rest, recordings = before ++ next :: rest → root.HasCounter next.address →
        ∃ initial, root.tally next.address = some initial ∧
          ((∃ index state, next.run (runAll before root).2 =
              some (.error (.counterOverflow next.address.action index next.delta) state)) ↔
            Word.top < initial + totalAt next.address (runAll before root).1 + next.delta) ∧
          (next.succeeds (runAll before root).2 = true ↔
            initial + totalAt next.address (runAll before root).1 + next.delta ≤ Word.top)) ∧
      (runAll recordings root).2.skeleton = root.skeleton := by
  have hroot := h.wellFormed
  refine ⟨tally_runAll hroot recordings, ?_, ?_, skeleton_runAll recordings root⟩
  · intro address hcounter
    obtain ⟨initial, hinitial⟩ := hasCounter_iff.mp hcounter
    exact ⟨initial, hinitial, tally_runAll_eq_add hroot recordings hinitial⟩
  · rintro before next rest - hcounter
    obtain ⟨initial, hinitial⟩ := hasCounter_iff.mp hcounter
    have hbefore := wellFormed_runAll hroot before
    have hrunning := tally_runAll_eq_add hroot before hinitial
    refine ⟨initial, hinitial, Recording.overflow_iff hbefore hrunning, ?_⟩
    rw [Recording.succeeds_iff hbefore, Tally.Accepts]
    constructor
    · rintro ⟨count, hcount, hfit⟩
      obtain rfl := Option.some.inj (hrunning.symm.trans hcount)
      exact hfit
    · exact fun hfit ↦ ⟨_, hrunning, hfit⟩

/-- A run that fills a counter to the largest word, is refused once more there, goes past an
argument that is out of range and a path that leads nowhere, and ends with nothing to add. -/
theorem runAll_refines_tally_sample :
    let tree := Sample.tree [0, 0, 0, 0, 0, 0] [0]
    let access : Address := ⟨["spad"], "access", [1, 2]⟩
    let recordings : List Recording := [⟨access, Word.top⟩, ⟨access, 1⟩,
      ⟨⟨["spad"], "access", [2, 0]⟩, 1⟩, ⟨⟨["mac"], "tick", []⟩, 1⟩, ⟨access, 0⟩]
    Reachable tree ∧ tree.HasCounter access ∧
      totalAt access (runAll recordings tree).1 = Word.top ∧
        ∃ initial, tree.tally access = some initial ∧ (runAll recordings tree).2.tally access =
          some (initial + totalAt access (runAll recordings tree).1) := by
  intro tree access recordings
  have hcounter : tree.HasCounter access :=
    ⟨_, _, _, rfl, rfl, List.mem_cons_self, rfl, by decide⟩
  exact ⟨Sample.reachable_tree, hcounter, by decide,
    (runAll_refines_tally Sample.reachable_tree recordings).2.1 access hcounter⟩

end CountTree
