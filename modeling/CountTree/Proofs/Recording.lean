import CountTree.Proofs.Cells

/-!
One recording. On a single component `record` fails where `counterValue` does
(`record_of_counterValue_error`), and apart from that it is refused exactly when its sum is no word
(`record_of_le`, `record_of_lt`). `counterValue_after_record` is the law of a successful recording:
the counter it names grows by the amount, and every other counter of the component stays, because
different arguments have different cells. The second half carries these facts to the component at
a path.
-/

set_option autoImplicit false
set_option relaxedAutoImplicit false

namespace CountTree

namespace Component

variable {node : Component} {action action' : String} {arguments arguments' : List Nat}
  {count delta : Nat}

/-! ### On one component -/

theorem record_of_counterValue_error {cause : ModelError}
    (hvalue : node.counterValue action arguments = .error cause) :
    record action arguments delta node = .error cause node := by
  rw [record, counterValue_error_iff.mp hvalue]

/-- The state of a successful recording. -/
theorem record_of_cell_of_le {cell : Cell} (hcell : node.cell action arguments = .ok cell)
    (hget : cell.leaf.counters.get cell.place cell.index = some count)
    (hfit : count + delta ≤ Word.top) :
    record action arguments delta node =
      .ok () { node with kind := .leaf { cell.leaf with
        counters := cell.leaf.counters.set cell.place cell.index (count + delta) } } := by
  rw [record, hcell]
  dsimp only
  rw [Counters.add_eq_ok_iff.mpr ⟨count, hget, hfit, rfl⟩]

theorem record_of_le (h : node.WellFormed)
    (hvalue : node.counterValue action arguments = .ok count) (hfit : count + delta ≤ Word.top) :
    record action arguments delta node = .ok () (after (record action arguments delta) node) := by
  obtain ⟨cell, hcell, hget⟩ := (counterValue_eq_ok_iff h).mp hvalue
  rw [after, record_of_cell_of_le hcell hget hfit]
  rfl

theorem record_of_lt (h : node.WellFormed)
    (hvalue : node.counterValue action arguments = .ok count) (hover : Word.top < count + delta) :
    ∃ index, record action arguments delta node =
      .error (.counterOverflow action index delta) node := by
  obtain ⟨cell, hcell, hget⟩ := (counterValue_eq_ok_iff h).mp hvalue
  have hname : cell.action.name = action := (cell_eq_ok_iff.mp hcell).2.2.1
  have hsum : Word.add? count delta = none := if_neg (Nat.not_le.mpr hover)
  refine ⟨cell.index, ?_⟩
  rw [record, hcell]
  dsimp only
  rw [Counters.add, hget]
  dsimp only
  rw [hsum, hname]

/-- A recording that succeeds has a counter that can take it. -/
theorem counterValue_of_record {node' : Component} (h : node.WellFormed)
    (hrecord : record action arguments delta node = .ok () node') :
    ∃ count, node.counterValue action arguments = .ok count ∧ count + delta ≤ Word.top := by
  rcases hvalue : node.counterValue action arguments with cause | count
  · rw [record_of_counterValue_error hvalue] at hrecord
    cases hrecord
  · refine ⟨count, rfl, Nat.le_of_not_lt fun hover ↦ ?_⟩
    obtain ⟨index, hrefused⟩ := record_of_lt h hvalue hover
    rw [hrefused] at hrecord
    cases hrecord

/-- A recording that fails changes nothing. -/
theorem state_of_record_error {node' : Component} {cause : ModelError}
    (hrecord : record action arguments delta node = .error cause node') : node' = node := by
  rcases record_cases action arguments delta node with
    ⟨other, hother⟩ | ⟨cell, counters, -, -, hok⟩
  · rw [hother] at hrecord
    cases hrecord
    rfl
  · rw [hok] at hrecord
    cases hrecord

/-- A successful recording adds to the counter it names and to no other. -/
theorem counterValue_after_record (h : node.WellFormed)
    (hvalue : node.counterValue action arguments = .ok count) (hfit : count + delta ≤ Word.top)
    (action' : String) (arguments' : List Nat) :
    (after (record action arguments delta) node).counterValue action' arguments' =
      if action' = action ∧ arguments' = arguments then .ok (count + delta)
      else node.counterValue action' arguments' := by
  obtain ⟨cell, hcell, hget⟩ := (counterValue_eq_ok_iff h).mp hvalue
  have hleaf := (cell_eq_ok_iff.mp hcell).1
  rw [after, record_of_cell_of_le hcell hget hfit, Outcome.state]
  rcases hcell' : node.cell action' arguments' with cause | cell'
  · have hother : ¬ (action' = action ∧ arguments' = arguments) := by
      rintro ⟨rfl, rfl⟩
      simp [hcell] at hcell'
    rw [if_neg hother, counterValue_error_iff.mpr hcell', counterValue_error_iff,
      cell_with_counters hleaf, hcell', Except.map]
  · rw [counterValue, cell_with_counters hleaf, hcell', Except.map]
    dsimp only
    by_cases hsame : action' = action ∧ arguments' = arguments
    · obtain ⟨rfl, rfl⟩ := hsame
      obtain rfl := Except.ok.inj (hcell.symm.trans hcell')
      rw [if_pos ⟨rfl, rfl⟩, Counters.get_set_self _ hget, Option.getD_some]
    · have hne : ¬ (cell.place = cell'.place ∧ cell.index = cell'.index) := fun heq ↦
        hsame (cell_injective hcell' hcell heq.1.symm heq.2.symm)
      have hleaf' : cell'.leaf = cell.leaf :=
        Option.some.inj ((cell_eq_ok_iff.mp hcell').1.symm.trans hleaf)
      rw [if_neg hsame, Counters.get_set_of_ne _ _ hne, counterValue_of_cell hcell', hleaf']

/-- Whether or not it succeeds, a recording leaves the other counters alone. -/
theorem counterValue_after_record_of_ne (h : node.WellFormed)
    (hne : ¬ (action' = action ∧ arguments' = arguments)) :
    (after (record action arguments delta) node).counterValue action' arguments' =
      node.counterValue action' arguments' := by
  rcases hvalue : node.counterValue action arguments with cause | count
  · rw [after, record_of_counterValue_error hvalue, Outcome.state]
  · by_cases hfit : count + delta ≤ Word.top
    · rw [counterValue_after_record h hvalue hfit, if_neg hne]
    · obtain ⟨index, hrecord⟩ := record_of_lt h hvalue (Nat.lt_of_not_le hfit)
      rw [after, hrecord, Outcome.state]

end Component

/-! ### At a path -/

/-- An amount for the counter at an address. To count is to record the amount one. -/
structure Recording where
  address : Address
  delta : Nat
deriving DecidableEq

namespace Recording

open Component

/-- What a recording does on the component at its path. -/
abbrev step (recording : Recording) : Run ModelError Component Unit :=
  record recording.address.action recording.address.arguments recording.delta

/-- Records on the component at the address; nothing when the path leads nowhere. -/
def run (recording : Recording) (root : Component) : Option (Outcome ModelError Component Unit) :=
  focus recording.step recording.address.path root

def succeeds (recording : Recording) (root : Component) : Bool :=
  match recording.run root with
  | some (.ok _ _) => true
  | _ => false

/-- The tree after a recording, whether or not it succeeds. -/
def after (recording : Recording) (root : Component) : Component :=
  match recording.run root with
  | some outcome => Outcome.state outcome
  | none => root

variable {recording : Recording} {root : Component} {count : Nat}

theorem after_eq_adjust (recording : Recording) (root : Component) :
    recording.after root = root.adjust (Component.after recording.step) recording.address.path := by
  rw [after]
  rcases hrun : recording.run root with _ | outcome
  · rw [run, focus_eq, Option.map_eq_none_iff] at hrun
    exact (adjust_eq_self fun node hnode ↦ absurd hnode (by simp [hrun])).symm
  · exact state_of_focus hrun

theorem wellFormed_after (h : Everywhere WellFormed root) :
    Everywhere WellFormed (recording.after root) := by
  rw [after_eq_adjust]
  exact h.record _ _ _ _

theorem skeleton_after (recording : Recording) (root : Component) :
    (recording.after root).skeleton = root.skeleton := by
  rw [after_eq_adjust, skeleton_record]

/-- A recording that the component refuses without a change changes nothing in the tree. -/
theorem run_of_error {node : Component} {cause : ModelError}
    (hnode : root.find recording.address.path = some node)
    (hrecord : recording.step node = .error cause node) :
    recording.run root = some (.error cause root) := focus_of_error hnode hrecord

/-- A recording on a counter that can take it succeeds. -/
theorem run_of_le (h : Everywhere WellFormed root)
    (htally : root.tally recording.address = some count)
    (hfit : count + recording.delta ≤ Word.top) :
    recording.run root = some (.ok () (recording.after root)) := by
  obtain ⟨node, hnode, hvalue⟩ := tally_eq_some_iff.mp htally
  have hrecord : recording.step node = .ok () (Component.after recording.step node) :=
    record_of_le (h.find hnode).here hvalue hfit
  rw [run, focus_eq, hnode, Option.map_some, hrecord, after_eq_adjust]
  rfl

/-- A recording on a counter that cannot take it is refused and changes nothing. -/
theorem run_of_lt (h : Everywhere WellFormed root)
    (htally : root.tally recording.address = some count)
    (hover : Word.top < count + recording.delta) :
    ∃ index, recording.run root =
      some (.error (.counterOverflow recording.address.action index recording.delta) root) := by
  obtain ⟨node, hnode, hvalue⟩ := tally_eq_some_iff.mp htally
  obtain ⟨index, hrecord⟩ := record_of_lt (h.find hnode).here hvalue hover
  exact ⟨index, run_of_error hnode hrecord⟩

/-- A recording that names no counter leads nowhere or is refused, and changes nothing. -/
theorem run_of_none (htally : root.tally recording.address = none) :
    recording.run root = none ∨ ∃ cause, recording.run root = some (.error cause root) := by
  rcases hnode : root.find recording.address.path with _ | node
  · left
    rw [run, focus_eq, hnode, Option.map_none]
  · right
    rcases hvalue : node.counterValue recording.address.action recording.address.arguments with
      cause | count
    · exact ⟨cause, run_of_error hnode (record_of_counterValue_error hvalue)⟩
    · rw [tally_eq_some_iff.mpr ⟨node, hnode, hvalue⟩] at htally
      simp at htally

theorem tally_after_of_le (h : Everywhere WellFormed root)
    (htally : root.tally recording.address = some count)
    (hfit : count + recording.delta ≤ Word.top) :
    (recording.after root).tally recording.address = some (count + recording.delta) := by
  obtain ⟨node, hnode, hvalue⟩ := tally_eq_some_iff.mp htally
  refine tally_eq_some_iff.mpr ⟨Component.after recording.step node, ?_, ?_⟩
  · rw [after_eq_adjust, find_adjust_self (name_after_record _ _ _), hnode,
      Option.map_some]
  · rw [counterValue_after_record (h.find hnode).here hvalue hfit, if_pos ⟨rfl, rfl⟩]

theorem tally_after_of_ne (h : Everywhere WellFormed root) {address : Address}
    (hne : address ≠ recording.address) :
    (recording.after root).tally address = root.tally address := by
  rw [after_eq_adjust]
  by_cases hpath : address.path = recording.address.path
  · have hother : ¬ (address.action = recording.address.action ∧
        address.arguments = recording.address.arguments) := by
      rintro ⟨haction, harguments⟩
      exact hne (Address.ext hpath haction harguments)
    rw [tally, tally, hpath,
      find_adjust_self (name_after_record _ _ _)]
    rcases hnode : root.find recording.address.path with _ | node
    · rfl
    · rw [Option.map_some, Option.bind_some, Option.bind_some,
        counterValue_after_record_of_ne (h.find hnode).here hother]
  · exact tally_eq_of_bare (find_adjust_of_ne
      (name_after_record _ _ _) (children_after_record _ _ _) hpath root)

end Recording

end CountTree
