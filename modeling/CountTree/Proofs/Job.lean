import CountTree.Proofs.ChildSteps
import CountTree.Proofs.SignedWords

/-!
A job of a processing element. With both addresses in range a job is five recordings and nothing
else that can fail (`process_of_lt`): a read of each address, two operations of the unit, of which
the second is always gated, and a write. It stores and returns the offset at the width of the unit,
for the product it would be added to is the gated one. The store comes after all recordings, and so
a job that fails leaves the scratchpad as it was. With an address out of range a job fails before
any of this (`process_of_le`).
-/

set_option autoImplicit false
set_option relaxedAutoImplicit false

namespace CountTree

open Component

namespace Memory

variable {memory : Memory} {address : Nat} {word : Int}

theorem checkAddress_of_lt (h : address < memory.depth) (name : String) :
    memory.checkAddress name address = .ok () := if_neg (Nat.not_le.mpr h)

theorem checkAddress_of_le (h : memory.depth ≤ address) (name : String) :
    memory.checkAddress name address = .error (.addressOutOfRange name address memory.depth) :=
  if_pos h

/-- In range, the check of an address is no step at all. -/
theorem get_checkAddress {α : Type} (h : address < memory.depth)
    (next : Run RunError Component α) :
    (do Run.ofExcept (memory.checkAddress (← get).name address); next) = next := by
  simp only [checkAddress_of_lt h]
  rfl

theorem read_of_lt (h : address < memory.depth) (hword : memory.peek address = some word) :
    memory.read address =
      (fun _ ↦ word) <$> Run.mapError .model (count readAction [memory.bank address]) := by
  rw [read, get_checkAddress h, Memory.word, hword]
  exact (map_eq_pure_bind _ _).symm

theorem write_eq (memory : Memory) (address : Nat) (word : Int) (node : Component) :
    write address word (memory, node) =
      (Run.ofExcept (memory.checkAddress node.name address) >>= fun _ ↦
      Run.onSnd (Run.mapError .model (count writeAction [memory.bank address])) >>= fun _ ↦
      Run.onFst (put address word)) (memory, node) := rfl

/-- In range, a write is counted and then stored. -/
theorem write_of_lt (h : address < memory.depth) (hlength : address < memory.words.length)
    (word : Int) (node : Component) :
    write address word (memory, node) = Outcome.commit memory (memory.store address [word]) ()
      (Run.mapError .model (count writeAction [memory.bank address]) node) := by
  have hcheck : Run.ofExcept (memory.checkAddress node.name address) (memory, node) =
      .ok () (memory, node) := by
    rw [checkAddress_of_lt h]
    rfl
  rw [write_eq, Run.bind_of_ok hcheck]
  rcases hcount : Run.mapError RunError.model (count writeAction [memory.bank address]) node with
    ⟨_, next⟩ | ⟨cause, next⟩
  · have hput : put address word memory = .ok () (memory.store address [word]) := if_pos hlength
    rw [Run.bind_of_ok (Run.onSnd_of_ok hcount memory), Run.onFst_of_ok hput next]
    rfl
  · rw [Run.bind_of_error (Run.onSnd_of_error hcount memory)]
    rfl

theorem store_singleton (h : address < memory.words.length) (word : Int) :
    memory.store address [word] = { memory with words := memory.words.set address word } := by
  rw [store, List.set_eq_take_append_cons_drop, if_pos h, List.append_assoc]
  rfl

/-- A stored word stands at its address and nowhere else. -/
theorem peek_store_singleton (h : address < memory.words.length) (word : Int) (other : Nat) :
    (memory.store address [word]).peek other =
      if other = address then some word else memory.peek other := by
  rw [store_singleton h, peek, peek, List.getElem?_set]
  by_cases hother : other = address
  · subst hother
    rw [if_pos rfl, if_pos h, if_pos rfl]
  · rw [if_neg (Ne.symm hother), if_neg hother]

end Memory

/-- An operation is counted as one of two actions. -/
theorem Mac.action_cases (factor factor' : Int) :
    action factor factor' = randomAction ∨ action factor factor' = gatedAction := by
  rw [action]
  split <;> simp

namespace ProcessingElement

variable {element : ProcessingElement} {memory : Memory} {job : Job} {word word' : Int}
  {node : Component}

/-! ### In range -/

theorem operands_of_lt {first second : Nat} (hfirst : first < memory.depth)
    (hsecond : second < memory.depth) (hword : memory.peek first = some word)
    (hword' : memory.peek second = some word') :
    operands memory first second = (fun _ ↦ (word, word')) <$> (do
      Run.mapError .model (count Memory.readAction [memory.bank first])
      Run.mapError .model (count Memory.readAction [memory.bank second])) := by
  rw [operands, Memory.get_checkAddress hfirst, Memory.get_checkAddress hsecond,
    Memory.read_of_lt hfirst hword, Memory.read_of_lt hsecond hword']
  simp only [map_eq_pure_bind, bind_assoc, pure_bind]

/-- The second operation has a zero factor, so that the first has no part in the result. -/
theorem product_eq (mac : Mac) (words : Int × Int) (offset : Int) :
    product mac words offset = (fun _ ↦ Signed.narrow mac.bitWidth offset) <$> (do
      count (Mac.action words.1 words.2) []
      count Mac.gatedAction []) := by
  have haction : Mac.action words.1 0 = Mac.gatedAction := if_neg (by simp)
  have hgated : mac.result words.1 0 offset = .ok (Signed.narrow mac.bitWidth offset) :=
    (if_neg (by simp)).trans (mac.truncate_eq offset)
  obtain ⟨first, hfirst⟩ := mac.exists_result words.1 words.2 offset
  have hok {ε : Type} (value : Int) : (Run.ofExcept (.ok value) : Run ε Component Int) =
      pure value := rfl
  rw [product, Mac.calculate, Mac.calculate, haction, hgated, hfirst, hok, hok]
  simp only [map_eq_pure_bind, bind_assoc, pure_bind]

/-- What a job records below the element, in this order. -/
def recordings (element : ProcessingElement) (job : Job) (words : Int × Int) : List Recording :=
  let bank := element.scratchpad.bank
  [⟨⟨[scratchpadName], Memory.readAction, [bank job.first]⟩, 1⟩,
    ⟨⟨[scratchpadName], Memory.readAction, [bank job.second]⟩, 1⟩,
    ⟨⟨[macName], Mac.action words.1 words.2, []⟩, 1⟩,
    ⟨⟨[macName], Mac.gatedAction, []⟩, 1⟩,
    ⟨⟨[scratchpadName], Memory.writeAction, [bank job.second]⟩, 1⟩]

theorem onChild_count_bind {β : Type} (name action : String) (arguments : List Nat)
    (next : Unit → Run RunError Component β) :
    onChild name (Run.mapError .model (count action arguments) >>= next) =
      onChild name (Run.mapError .model (count action arguments)) >>=
        fun value ↦ onChild name (next value) :=
  onChild_bind (fun node ↦ by
    rw [after_mapError]
    exact name_after_record action arguments 1 node) next

theorem onChild_count_count (name action action' : String) (arguments arguments' : List Nat) :
    onChild name (do
      Run.mapError .model (count action arguments)
      Run.mapError .model (count action' arguments')) =
    Recording.performAll
      [⟨⟨[name], action, arguments⟩, 1⟩, ⟨⟨[name], action', arguments'⟩, 1⟩] := by
  rw [onChild_count_bind, Recording.performAll_pair]
  rfl

/-- The reads of a job in range. -/
theorem onChild_operands (hfirst : job.first < element.scratchpad.depth)
    (hsecond : job.second < element.scratchpad.depth)
    (hword : element.scratchpad.peek job.first = some word)
    (hword' : element.scratchpad.peek job.second = some word') :
    onChild scratchpadName (operands element.scratchpad job.first job.second) =
      (fun _ ↦ (word, word')) <$>
        Recording.performAll ((element.recordings job (word, word')).take 2) := by
  rw [operands_of_lt hfirst hsecond hword hword', onChild_map, onChild_count_count]
  rfl

/-- The operations of a job. -/
theorem onChild_product (element : ProcessingElement) (job : Job) (words : Int × Int) :
    onChild macName (Run.mapError .model (product element.mac words job.offset)) =
      (fun _ ↦ Signed.narrow element.mac.bitWidth job.offset) <$>
        Recording.performAll (((element.recordings job words).drop 2).take 2) := by
  rw [product_eq, Run.mapError_map, Run.mapError_bind, onChild_map, onChild_count_count]
  rfl

/-- The write of a job in range, which stores what it is given after its recording. -/
theorem onScratchpad_write (hsecond : job.second < element.scratchpad.depth)
    (hlength : job.second < element.scratchpad.words.length) (words : Int × Int) (result : Int)
    (node : Component) :
    let scratchpad := element.scratchpad.store job.second [result]
    onScratchpad (Memory.write job.second result) (element, node) =
      Outcome.commit element { element with scratchpad } ()
        (Recording.performAll ((element.recordings job words).drop 4) node) := by
  intro scratchpad
  have hlast : Recording.performAll ((element.recordings job words).drop 4) =
      onChild scratchpadName (Run.mapError .model
        (count Memory.writeAction [element.scratchpad.bank job.second])) :=
    Recording.performAll_singleton _
  rw [onScratchpad, Run.onPart, hlast]
  dsimp only
  rw [onUnit_of_commit (Memory.write_of_lt hsecond hlength result) node]
  rcases onChild scratchpadName _ node with _ | _ <;> rfl

theorem process_eq (element : ProcessingElement) (job : Job) (node : Component) :
    process job (element, node) =
      (Run.onSnd (onChild scratchpadName
        (operands element.scratchpad job.first job.second)) >>= fun words ↦
      Run.onSnd (onChild macName
        (Run.mapError .model (product element.mac words job.offset))) >>= fun result ↦
      onScratchpad (Memory.write job.second result) >>= fun _ ↦
      pure result) (element, node) := rfl

/-- A job in range is its recordings, and then a store that cannot fail. -/
theorem process_of_lt (hfirst : job.first < element.scratchpad.depth)
    (hsecond : job.second < element.scratchpad.depth)
    (hword : element.scratchpad.peek job.first = some word)
    (hword' : element.scratchpad.peek job.second = some word') (node : Component) :
    let result := Signed.narrow element.mac.bitWidth job.offset
    let scratchpad := element.scratchpad.store job.second [result]
    process job (element, node) = Outcome.commit element { element with scratchpad } result
      (Recording.performAll (element.recordings job (word, word')) node) := by
  intro result scratchpad
  have hlength : job.second < element.scratchpad.words.length :=
    (List.getElem?_eq_some_iff.mp hword').1
  let recordings := element.recordings job (word, word')
  have hall : Recording.performAll recordings =
      (Recording.performAll (recordings.take 2) >>= fun _ ↦
        Recording.performAll ((recordings.drop 2).take 2) >>= fun _ ↦
          Recording.performAll (recordings.drop 4)) := by
    rw [← Recording.performAll_append, ← Recording.performAll_append]
    rfl
  rw [process_eq]
  change _ = Outcome.commit _ _ _ (Recording.performAll recordings node)
  rw [hall]
  refine Run.bind_eq_commit
    (Run.onSnd_eq_commit (onChild_operands hfirst hsecond hword hword') element node) fun read ↦ ?_
  refine Run.bind_eq_commit
    (Run.onSnd_eq_commit (onChild_product element job (word, word')) element read) fun counted ↦ ?_
  have hwrite := onScratchpad_write hsecond hlength (word, word') result counted
  rcases hlast : Recording.performAll (recordings.drop 4) counted with
    ⟨_, written⟩ | ⟨cause, written⟩ <;> rw [hlast] at hwrite
  · rw [Run.bind_of_ok hwrite]
    rfl
  · rw [Run.bind_of_error hwrite]
    rfl

/-! ### Out of range -/

/-- The error of a job with an address out of range: it names the first such address. -/
def misaddressed (depth : Nat) (job : Job) : RunError :=
  .addressOutOfRange scratchpadName (if depth ≤ job.first then job.first else job.second) depth

theorem process_of_none (hchild : node.child scratchpadName = none) :
    process job (element, node) =
      .error (.missingComponent node.name scratchpadName) (element, node) := by
  rw [process_eq]
  exact Run.bind_of_error (Run.onSnd_of_error (onChild_of_none hchild _) element)

theorem process_of_le {scratchpad : Component}
    (hchild : node.child scratchpadName = some scratchpad)
    (h : element.scratchpad.depth ≤ job.first ∨ element.scratchpad.depth ≤ job.second) :
    process job (element, node) =
      .error (misaddressed element.scratchpad.depth job) (element, node) := by
  have hname : scratchpad.name = scratchpadName := by simpa using List.find?_some hchild
  have hoperands : operands element.scratchpad job.first job.second scratchpad =
      .error (misaddressed element.scratchpad.depth job) scratchpad := by
    rw [operands]
    by_cases hfirst : element.scratchpad.depth ≤ job.first
    · simp only [Memory.checkAddress_of_le hfirst, misaddressed, if_pos hfirst, ← hname]
      rfl
    · rw [Memory.get_checkAddress (Nat.lt_of_not_le hfirst)]
      have hsecond : element.scratchpad.depth ≤ job.second := h.resolve_left hfirst
      simp only [Memory.checkAddress_of_le hsecond, misaddressed, if_neg hfirst, ← hname]
      rfl
  rw [process_eq]
  exact Run.bind_of_error (Run.onSnd_of_error (onChild_of_error hchild hoperands) element)

end ProcessingElement

end CountTree
