import CountTree.Proofs.Job
import CountTree.Proofs.SignedWords

/-!
How a job of a processing element ends, on any tree. The element need not have built the tree: there
may be no unit or scratchpad in it, or other components of these names, and any counter may be full.
`JobEnds` says what happens in each case, in terms of the five recordings that a job makes when all
goes well. `process_ends` is the main statement: a job stops at the first recording that fails,
having made those before it and nothing else, and it stores its result only after all five.
-/

set_option autoImplicit false
set_option relaxedAutoImplicit false

namespace CountTree

open Component

/-! ### Recordings up to a failure -/

/-- Each of the recordings succeeds, made one after the other. -/
def AllSucceed : List Recording → Component → Prop
  | [], _ => True
  | recording :: recordings, root =>
    recording.succeeds root = true ∧ AllSucceed recordings (recording.after root)

variable {before rest recordings : List Recording} {step : Recording} {root : Component}

theorem AllSucceed.of_append (h : AllSucceed (before ++ rest) root) : AllSucceed before root := by
  induction before generalizing root with
  | nil => trivial
  | cons first before ih => exact ⟨h.1, ih h.2⟩

/-- Either all succeed, or there is a first that does not. -/
theorem allSucceed_or (recordings : List Recording) (root : Component) :
    AllSucceed recordings root ∨ ∃ before step rest, recordings = before ++ step :: rest ∧
      AllSucceed before root ∧ step.succeeds (runAll before root).2 = false := by
  induction recordings generalizing root with
  | nil => exact .inl trivial
  | cons first recordings ih =>
    rcases hfirst : first.succeeds root with _ | _
    · exact .inr ⟨[], first, recordings, rfl, trivial, hfirst⟩
    · rcases ih (first.after root) with hall | ⟨before, step, rest, rfl, hbefore, hstep⟩
      · exact .inl ⟨hfirst, hall⟩
      · exact .inr ⟨first :: before, step, rest, rfl, ⟨hfirst, hbefore⟩, hstep⟩

namespace Recording

theorem run_of_succeeds (h : step.succeeds root = true) :
    step.run root = some (.ok () (step.after root)) := by
  rw [succeeds] at h
  rw [after]
  split at h
  · rename_i hrun
    rw [hrun]
    rfl
  · cases h

/-- A recording that is refused changes nothing in the tree. -/
theorem state_of_run_error {cause : ModelError} {root' : Component}
    (hrun : step.run root = some (.error cause root')) : root' = root := by
  obtain ⟨node, node', hnode, hrecord⟩ := error_of_focus hrun
  obtain rfl := state_of_record_error hrecord
  rw [run_of_error hnode hrecord] at hrun
  cases hrun
  rfl

theorem performAll_of_allSucceed (h : AllSucceed recordings root) :
    performAll recordings root = .ok () (runAll recordings root).2 := by
  induction recordings generalizing root with
  | nil => rfl
  | cons first recordings ih =>
    rw [performAll, Run.bind_of_ok (perform_of_run (run_of_succeeds h.1)), ih h.2, runAll]

theorem performAll_append_of_allSucceed (h : AllSucceed before root) (rest : List Recording) :
    performAll (before ++ rest) root = performAll rest (runAll before root).2 := by
  rw [performAll_append, Run.bind_of_ok (performAll_of_allSucceed h)]

theorem performAll_of_refused {cause : ModelError} (rest : List Recording)
    (hrun : step.run root = some (.error cause root)) :
    performAll (step :: rest) root = .error (.model cause) root := by
  rw [performAll, Run.bind_of_error (perform_of_run hrun)]

/-- A recording on a child that is not there. -/
theorem performAll_of_missing {name : String} (rest : List Recording)
    (hpath : step.address.path = [name]) (hchild : root.child name = none) :
    performAll (step :: rest) root = .error (.missingComponent root.name name) root := by
  have hperform : step.perform root = .error (.missingComponent root.name name) root := by
    rw [perform, hpath]
    exact ProcessingElement.onChild_of_none hchild _
  rw [performAll, Run.bind_of_error hperform]

/-- A recording that fails is refused, or its path leads nowhere. -/
theorem run_of_not_succeeds (h : step.succeeds root = false) :
    (∃ cause, step.run root = some (.error cause root)) ∨ root.find step.address.path = none := by
  rcases hrun : step.run root with _ | ⟨_, _⟩ | ⟨cause, root'⟩
  · right
    rw [run, focus_eq, Option.map_eq_none_iff] at hrun
    exact hrun
  · simp [succeeds, hrun] at h
  · exact .inl ⟨cause, by rw [state_of_run_error hrun]⟩

end Recording

/-- Recordings neither add children nor take them away. -/
theorem child_runAll_eq_none_iff (recordings : List Recording) (root : Component) (name : String) :
    (runAll recordings root).2.child name = none ↔ root.child name = none := by
  have hchild (tree : Component) : tree.child name = none ↔ tree.skeleton.find [name] = none := by
    rw [find_skeleton, Option.map_eq_none_iff, find_cons]
    rcases tree.child name with _ | _ <;> simp [find]
  rw [hchild, skeleton_runAll, ← hchild]

theorem name_runAll (recordings : List Recording) (root : Component) :
    (runAll recordings root).2.name = root.name := by
  rw [← name_skeleton, skeleton_runAll, name_skeleton]

namespace ProcessingElement

/-! ### Elements in use -/

/-- The elements there are: a new one, and what a job makes of one on some tree, also if it
fails. -/
inductive Obtained : ProcessingElement → Prop
  | created {settings : ElementSettings} {element : ProcessingElement}
      (h : create settings = .ok element) : Obtained element
  | processed {element next : ProcessingElement} {job : Job} {node node' : Component}
      (h : Obtained element) (hrun : Outcome.state (process job (element, node)) = (next, node')) :
      Obtained next

variable {element : ProcessingElement} {job : Job} {node : Component}

/-- With a word for each address, a job in range has its operands. -/
theorem exists_words (hlength : element.scratchpad.words.length = element.scratchpad.depth)
    (hfirst : job.first < element.scratchpad.depth)
    (hsecond : job.second < element.scratchpad.depth) :
    ∃ words : Int × Int, element.scratchpad.peek job.first = some words.1 ∧
      element.scratchpad.peek job.second = some words.2 :=
  ⟨(_, _), List.getElem?_eq_getElem (hlength ▸ hfirst),
    List.getElem?_eq_getElem (hlength ▸ hsecond)⟩

/-- A job out of range, or on a tree without a scratchpad, fails and leaves everything. -/
theorem exists_process_of_le
    (h : element.scratchpad.depth ≤ job.first ∨ element.scratchpad.depth ≤ job.second)
    (node : Component) : ∃ cause, process job (element, node) = .error cause (element, node) := by
  rcases hchild : node.child scratchpadName with _ | scratchpad
  · exact ⟨_, process_of_none hchild⟩
  · exact ⟨_, process_of_le hchild h⟩

theorem Obtained.length_eq (h : Obtained element) :
    element.scratchpad.words.length = element.scratchpad.depth := by
  induction h with
  | @created settings element h =>
    rw [create, Memory.create] at h
    split at h
    · cases h
      simp
    · cases h
  | @processed element next job node node' h hrun ih =>
    by_cases hrange : job.first < element.scratchpad.depth ∧ job.second < element.scratchpad.depth
    · obtain ⟨words, hword, hword'⟩ := exists_words ih hrange.1 hrange.2
      rw [process_of_lt hrange.1 hrange.2 hword hword'] at hrun
      rcases hall : Recording.performAll (element.recordings job words) node with
        ⟨_, tree⟩ | ⟨cause, tree⟩ <;> rw [hall] at hrun <;> cases hrun
      · rw [Memory.store_singleton (ih ▸ hrange.2), List.length_set]
        exact ih
      · exact ih
    · have hout : element.scratchpad.depth ≤ job.first ∨
          element.scratchpad.depth ≤ job.second := by omega
      obtain ⟨cause, herror⟩ := exists_process_of_le hout node
      rw [herror] at hrun
      cases hrun
      exact ih

/-! ### Jobs -/

/-- The element with one word of its scratchpad replaced. -/
def withWord (element : ProcessingElement) (address : Nat) (word : Int) : ProcessingElement :=
  { element with scratchpad :=
    { element.scratchpad with words := element.scratchpad.words.set address word } }

/-- How a job with both addresses in range ends, given the words at them: it takes five steps, in
order, and stops at the first that fails. -/
structure StopsAtFailure (element : ProcessingElement) (job : Job) (node : Component)
    (words : Int × Int) : Prop where
  refused : ∀ before step rest cause, element.recordings job words = before ++ step :: rest →
    AllSucceed before node →
    step.run (runAll before node).2 = some (.error cause (runAll before node).2) →
      process job (element, node) = .error (.model cause) (element, (runAll before node).2)
  without_mac : node.child macName = none →
    AllSucceed ((element.recordings job words).take 2) node →
      process job (element, node) = .error (.missingComponent node.name macName)
        (element, (runAll ((element.recordings job words).take 2) node).2)
  completed : AllSucceed (element.recordings job words) node →
    process job (element, node) = .ok (Signed.narrow element.mac.bitWidth job.offset)
      (element.withWord job.second (Signed.narrow element.mac.bitWidth job.offset),
        (runAll (element.recordings job words) node).2)
  covered : AllSucceed (element.recordings job words) node ∨
    (node.child macName = none ∧ AllSucceed ((element.recordings job words).take 2) node) ∨
    ∃ before step rest cause, element.recordings job words = before ++ step :: rest ∧
      AllSucceed before node ∧
      step.run (runAll before node).2 = some (.error cause (runAll before node).2)

/-- How a job ends. What is wrong before its first step is found in this order. -/
structure JobEnds (element : ProcessingElement) (job : Job) (node : Component) : Prop where
  without_scratchpad : node.child scratchpadName = none →
    process job (element, node) =
      .error (.missingComponent node.name scratchpadName) (element, node)
  first_out : node.child scratchpadName ≠ none → element.scratchpad.depth ≤ job.first →
    process job (element, node) =
      .error (.addressOutOfRange scratchpadName job.first element.scratchpad.depth) (element, node)
  second_out : node.child scratchpadName ≠ none → job.first < element.scratchpad.depth →
    element.scratchpad.depth ≤ job.second → process job (element, node) =
      .error (.addressOutOfRange scratchpadName job.second element.scratchpad.depth) (element, node)
  in_range : node.child scratchpadName ≠ none → job.first < element.scratchpad.depth →
    job.second < element.scratchpad.depth → ∃ words : Int × Int,
      element.scratchpad.peek job.first = some words.1 ∧
      element.scratchpad.peek job.second = some words.2 ∧
      StopsAtFailure element job node words

/-- The path of a step of a job: two on the scratchpad, two on the unit, one on the scratchpad. -/
theorem path_of_recordings {words : Int × Int} {before rest : List Recording} {step : Recording}
    (h : element.recordings job words = before ++ step :: rest) :
    step.address.path = [scratchpadName] ∨
      step.address.path = [macName] ∧ (element.recordings job words).take 2 <+: before := by
  rcases before with _ | ⟨first, _ | ⟨second, before⟩⟩
  · obtain ⟨rfl, -⟩ := List.cons.inj h
    exact .inl rfl
  · obtain ⟨-, h⟩ := List.cons.inj h
    obtain ⟨rfl, -⟩ := List.cons.inj h
    exact .inl rfl
  · have hmem : step ∈ (element.recordings job words).drop 2 := by
      rw [h]
      simp
    have htake : (element.recordings job words).take 2 <+: first :: second :: before := by
      rw [h]
      simp
    simp only [recordings, List.drop_succ_cons, List.drop_zero, List.mem_cons,
      List.not_mem_nil, or_false] at hmem
    rcases hmem with rfl | rfl | rfl
    · exact .inr ⟨rfl, htake⟩
    · exact .inr ⟨rfl, htake⟩
    · exact .inl rfl

theorem stopsAtFailure {words : Int × Int} (hscratchpad : node.child scratchpadName ≠ none)
    (hfirst : job.first < element.scratchpad.depth)
    (hsecond : job.second < element.scratchpad.depth)
    (hlength : element.scratchpad.words.length = element.scratchpad.depth)
    (hword : element.scratchpad.peek job.first = some words.1)
    (hword' : element.scratchpad.peek job.second = some words.2) :
    StopsAtFailure element job node words := by
  have hprocess := process_of_lt hfirst hsecond hword hword' node
  constructor
  · intro before step rest cause hsplit hbefore hrun
    rw [hprocess, hsplit, Recording.performAll_append_of_allSucceed hbefore,
      Recording.performAll_of_refused rest hrun, Outcome.commit]
  · intro hmac hreads
    obtain ⟨step, rest, hpath, hsplit⟩ : ∃ step rest, step.address.path = [macName] ∧
        element.recordings job words = (element.recordings job words).take 2 ++ step :: rest :=
      ⟨_, _, rfl, rfl⟩
    have hmissing : (runAll ((element.recordings job words).take 2) node).2.child macName = none :=
      (child_runAll_eq_none_iff _ node macName).mpr hmac
    have hstop : Recording.performAll (element.recordings job words) node =
        .error (.missingComponent node.name macName)
          (runAll ((element.recordings job words).take 2) node).2 := by
      rw [hsplit, Recording.performAll_append_of_allSucceed hreads,
        Recording.performAll_of_missing rest hpath hmissing, name_runAll, ← hsplit]
    rw [hprocess, hstop, Outcome.commit]
  · intro hall
    rw [hprocess, Recording.performAll_of_allSucceed hall,
      Memory.store_singleton (hlength ▸ hsecond)]
    rfl
  · rcases allSucceed_or (element.recordings job words) node with
      hall | ⟨before, step, rest, hsplit, hbefore, hstep⟩
    · exact .inl hall
    rcases Recording.run_of_not_succeeds hstep with ⟨cause, hrun⟩ | hfind
    · exact .inr (.inr ⟨before, step, rest, cause, hsplit, hbefore, hrun⟩)
    -- A path that leads nowhere is that of the unit, because the scratchpad is there.
    have hmissing {name : String} (hpath : step.address.path = [name]) :
        node.child name = none := by
      rw [hpath, find_cons, Option.bind_eq_none_iff] at hfind
      rw [← child_runAll_eq_none_iff before]
      exact Option.eq_none_iff_forall_ne_some.mpr fun child hchild ↦ by
        simpa [find] using hfind child hchild
    rcases path_of_recordings hsplit with hpath | ⟨hpath, rest', htake⟩
    · exact absurd (hmissing hpath) hscratchpad
    · exact .inr (.inl ⟨hmissing hpath, AllSucceed.of_append (htake ▸ hbefore)⟩)

/-- On any tree, a job of an element ends at the first thing that goes wrong: a scratchpad that is
missing, an address out of range, a unit that is missing, or a recording that is refused. What was
recorded before stays recorded, and nothing else changes, neither in the tree nor in the element.
Only when all five recordings are made the offset, in the width of the unit, is returned and stored
at the second address. -/
theorem process_ends (h : Obtained element) (job : Job) (node : Component) :
    JobEnds element job node := by
  have hlength := h.length_eq
  have hout (hscratchpad : node.child scratchpadName ≠ none)
      (hrange : element.scratchpad.depth ≤ job.first ∨ element.scratchpad.depth ≤ job.second) :
      process job (element, node) =
        .error (misaddressed element.scratchpad.depth job) (element, node) := by
    obtain ⟨scratchpad, hchild⟩ := Option.ne_none_iff_exists'.mp hscratchpad
    exact process_of_le hchild hrange
  constructor
  · exact process_of_none
  · intro hscratchpad hfirst
    rw [hout hscratchpad (.inl hfirst), misaddressed, if_pos hfirst]
  · intro hscratchpad hfirst hsecond
    rw [hout hscratchpad (.inr hsecond), misaddressed, if_neg (Nat.not_le.mpr hfirst)]
  · intro hscratchpad hfirst hsecond
    obtain ⟨words, hword, hword'⟩ := exists_words hlength hfirst hsecond
    exact ⟨words, hword, hword',
      stopsAtFailure hscratchpad hfirst hsecond hlength hword hword'⟩

/-- A tree without a unit, whose scratchpad can count one more read of its only bank: a job of two
reads stops at the second of them, and does not come to miss the unit. -/
theorem process_ends_sample :
    ∃ element : ProcessingElement, Obtained element ∧
      let schema : Schema := ⟨[⟨"read_random", [1], 1, by decide⟩], by decide⟩
      let scratchpad (reads : Nat) : Component :=
        ⟨"PE_spad", .leaf ⟨"SRAM", Attributes.empty, schema, ⟨[[reads]]⟩⟩, []⟩
      let node (reads : Nat) : Component := ⟨"top", .container, [scratchpad reads]⟩
      process ⟨3, 0, 5⟩ (element, node (2 ^ 64 - 2)) =
        .error (.model (.counterOverflow "read_random" 0 1)) (element, node (2 ^ 64 - 1)) := by
  have helement : Obtained ⟨"my_PE", ⟨16, 2⟩, ⟨16, 4, 1, [0, 1, 2, 3]⟩⟩ :=
    @Obtained.created { depth := 4, bankCount := 1 } _ rfl
  refine ⟨_, helement, ?_⟩
  intro schema scratchpad node
  have hends := process_ends helement ⟨3, 0, 5⟩ (node (2 ^ 64 - 2))
  obtain ⟨words, -, -, hstops⟩ := hends.in_range nofun (by decide) (by decide)
  have hfirst : AllSucceed [⟨⟨["PE_spad"], "read_random", [0]⟩, 1⟩] (node (2 ^ 64 - 2)) :=
    ⟨by decide, trivial⟩
  exact hstops.refused _ _ _ (.counterOverflow "read_random" 0 1) rfl hfirst rfl

end ProcessingElement

end CountTree
