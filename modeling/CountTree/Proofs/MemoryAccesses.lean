import CountTree.Proofs.Creation

/-!
A memory over any calls. Reads and writes count on a node, loads and peeks do not, and any of them
may fail. `accessAll` makes calls one after the other and logs those that succeed. `Tracks` is what
the log has to do with the memory and its node: a word is the last that was stored at its address,
and a counter is the number of accesses to its bank. Every call that succeeds keeps it so, and every
call that fails leaves everything as it was. `accessAll_agrees` is the main statement.
-/

set_option autoImplicit false
set_option relaxedAutoImplicit false

namespace CountTree

open Component

/-- A call on a memory. -/
inductive Access where
  | read (address : Nat)
  | write (address : Nat) (word : Int)
  | load (address : Nat) (data : List Int)
  | peek (address : Nat)
deriving DecidableEq

namespace Access

/-- Makes the call on a memory and the node that counts for it. The answer is the word that was
asked for, if there is one. -/
def run : Access → Run RunError (Memory × Component) (Option Int)
  | read address => do
    let (memory, _) ← get
    return some (← Run.onSnd (memory.read address))
  | write address word => do
    Memory.write address word
    return none
  | load address data => do
    let (_, node) ← get
    Run.onFst (Memory.load node.name address data)
    return none
  | peek address => do
    let (memory, _) ← get
    return memory.peek address

/-- The action that a call counts, and the address it is about. -/
def counted : Access → Option (String × Nat)
  | read address => some (Memory.readAction, address)
  | write address _ => some (Memory.writeAction, address)
  | load _ _ => none
  | peek _ => none

/-- Whether a call counts this action on this bank of so many. -/
def Counts (action : String) (bankCount bank : Nat) (access : Access) : Prop :=
  ∃ address, access.counted = some (action, address) ∧ address % bankCount = bank

/-- The word of some data at an address, for data that begin at a first address. -/
def wordAt (address first : Nat) (data : List Int) : Option Int :=
  if first ≤ address then data[address - first]? else none

/-- What a call stores at an address. -/
def stored? (address : Nat) : Access → Option Int
  | write first word => wordAt address first [word]
  | load first data => wordAt address first data
  | read _ => none
  | peek _ => none

/-- What was stored last at an address. -/
def lastStored (address : Nat) (log : List Access) : Option Int :=
  (log.filterMap (stored? address)).getLast?

/-- The word at an address after the calls of a log: what was stored last, or the word from before
anything was. -/
def held (address : Nat) (log : List Access) : Int :=
  (lastStored address log).getD (Memory.initialWord address)

instance (action : String) (bankCount bank : Nat) : DecidablePred (Counts action bankCount bank) :=
  fun access ↦
    match h : access.counted with
    | none => .isFalse fun ⟨_, hcounted, _⟩ ↦ nomatch h.symm.trans hcounted
    | some (name, address) =>
      decidable_of_iff (name = action ∧ address % bankCount = bank) (by
        simp only [Counts, h, Option.some.injEq, Prod.mk.injEq]
        constructor
        · rintro ⟨rfl, hbank⟩
          exact ⟨address, ⟨rfl, rfl⟩, hbank⟩
        · rintro ⟨_, ⟨rfl, rfl⟩, hbank⟩
          exact ⟨rfl, hbank⟩)

theorem lastStored_append_singleton (address : Nat) (log : List Access) (access : Access) :
    lastStored address (log ++ [access]) =
      (access.stored? address).or (lastStored address log) := by
  rw [lastStored, List.filterMap_append, List.getLast?_append, lastStored]
  rcases hstored : access.stored? address with _ | word
  · simp [hstored]
  · simp [hstored]

end Access

namespace Memory

open Access

variable {memory : Memory} {address : Nat}

/-- Data that fit replace the words they cover and no others. -/
theorem peek_store {data : List Int} (h : address + data.length ≤ memory.words.length)
    (other : Nat) : (memory.store address data).peek other =
      (wordAt other address data).or (memory.peek other) := by
  have htake : (memory.words.take address).length = address := List.length_take_of_le (by omega)
  rw [store, peek, peek, wordAt, List.append_assoc, List.getElem?_append, htake]
  by_cases hbefore : other < address
  · rw [if_pos hbefore, if_neg (by omega), Option.none_or, List.getElem?_take_of_lt hbefore]
  · rw [if_neg hbefore, if_pos (by omega), List.getElem?_append]
    by_cases hwithin : other - address < data.length
    · rw [if_pos hwithin, List.getElem?_eq_getElem hwithin, Option.some_or]
    · have hindex : address + data.length + (other - address - data.length) = other := by omega
      rw [if_neg hwithin, List.getElem?_eq_none (l := data) (by omega), Option.none_or,
        List.getElem?_drop, hindex]

theorem length_store {data : List Int} (h : address + data.length ≤ memory.words.length) :
    (memory.store address data).words.length = memory.words.length := by
  simp only [store, List.length_append, List.length_take, List.length_drop]
  omega

/-! ### Single calls -/

theorem read_of_le (h : memory.depth ≤ address) (node : Component) : memory.read address node =
    .error (.addressOutOfRange node.name address memory.depth) node := by
  rw [read, Run.get_bind]
  refine Run.bind_of_error ?_
  rw [checkAddress_of_le h]
  rfl

theorem write_of_le (h : memory.depth ≤ address) (word : Int) (node : Component) :
    write address word (memory, node) =
      .error (.addressOutOfRange node.name address memory.depth) (memory, node) := by
  rw [write_eq]
  refine Run.bind_of_error ?_
  rw [checkAddress_of_le h]
  rfl

theorem load_of_lt {data : List Int} (hdepth : memory.depth < Word.top)
    (h : memory.depth < address + data.length) (name : String) :
    load name address data memory =
      .error (.addressOutOfRange name (Word.addSaturating address data.length - 1) memory.depth)
        memory := by
  have hlast : memory.depth < Word.addSaturating address data.length := by
    rw [Word.addSaturating]
    omega
  rw [load]
  exact if_pos hlast

/-- A load that ends within the memory stores its data: the words that it replaces are there, and
they are as many. -/
theorem load_of_le {data : List Int} (hdepth : memory.depth < Word.top)
    (hlength : memory.words.length = memory.depth)
    (h : address + data.length ≤ memory.depth) (name : String) :
    load name address data memory = .ok () (memory.store address data) := by
  have hlast : Word.addSaturating address data.length = address + data.length :=
    Nat.min_eq_left (by omega)
  rw [load, hlast, if_neg (by omega), if_neg (by omega), if_neg (by omega)]

end Memory

/-! ### Runs of calls -/

namespace Access

theorem run_read_eq (address : Nat) (memory : Memory) (node : Component) :
    (Access.read address).run (memory, node) =
      (Run.onSnd (memory.read address) >>= fun word ↦ pure (some word)) (memory, node) := rfl

theorem run_write_eq (address : Nat) (word : Int) (memory : Memory) (node : Component) :
    (Access.write address word).run (memory, node) =
      (Memory.write address word >>= fun _ ↦ pure none) (memory, node) := rfl

theorem run_load_eq (address : Nat) (data : List Int) (memory : Memory) (node : Component) :
    (Access.load address data).run (memory, node) =
      (Run.onFst (Memory.load node.name address data) >>= fun _ ↦ pure none) (memory, node) := rfl

/-- Makes calls one after the other and goes on after failures: the calls that succeeded, in order,
and the memory and its node after all of them. -/
def accessAll : List Access → Memory × Component → List Access × (Memory × Component)
  | [], state => ([], state)
  | access :: accesses, state =>
    let outcome := access.run state
    let rest := accessAll accesses (Outcome.state outcome)
    (if (Outcome.stateIfOk outcome).isOk then access :: rest.1 else rest.1, rest.2)

/-- The log tells every word and every counter. -/
structure Agrees (depth bankCount : Nat) (log : List Access) (state : Memory × Component) :
    Prop where
  words : ∀ address,
    state.1.peek address = if address < depth then some (held address log) else none
  counters : ∀ action, action = Memory.readAction ∨ action = Memory.writeAction →
    ∀ bank < bankCount, state.2.counterValue action [bank] =
      .ok (log.countP fun access ↦ access.Counts action bankCount bank)

/-- How each call ends that comes after the calls of a log. Where it fails, everything is as
before. -/
structure Responds (name : String) (depth bankCount : Nat) (log : List Access)
    (state : Memory × Component) : Prop where
  misaddressed : ∀ (access : Access) action address, access.counted = some (action, address) →
    depth ≤ address → access.run state = .error (.addressOutOfRange name address depth) state
  full : ∀ (access : Access) action address, access.counted = some (action, address) →
    address < depth → state.2.counterValue action [address % bankCount] = .ok Word.top →
      ∃ index, access.run state = .error (.model (.counterOverflow action index 1)) state
  read : ∀ address < depth,
    state.2.counterValue Memory.readAction [address % bankCount] ≠ .ok Word.top →
      ∃ node, (Access.read address).run state = .ok (some (held address log)) (state.1, node)
  write : ∀ address word, address < depth →
    state.2.counterValue Memory.writeAction [address % bankCount] ≠ .ok Word.top →
      ∃ next, (Access.write address word).run state = .ok none next
  overlong : ∀ address data, depth < address + data.length →
    (Access.load address data).run state = .error
      (.addressOutOfRange name (Word.addSaturating address data.length - 1) depth) state
  load : ∀ address data, address + data.length ≤ depth →
    ∃ memory, (Access.load address data).run state = .ok none (memory, state.2)
  peek : ∀ address, (Access.peek address).run state =
    .ok (if address < depth then some (held address log) else none) state

/-- What every call keeps: besides the words and the counters, the shape of the memory and of its
node. -/
structure Tracks (name : String) (depth bankCount : Nat) (log : List Access)
    (state : Memory × Component) : Prop extends Agrees depth bankCount log state where
  name_eq : state.2.name = name
  depth_eq : state.1.depth = depth
  bankCount_eq : state.1.bankCount = bankCount
  length_eq : state.1.words.length = depth
  wellFormed : state.2.WellFormed

variable {name : String} {depth bankCount address bank : Nat} {log : List Access}
  {memory memory' : Memory} {node next : Component} {action : String} {access : Access}
  {data : List Int}

theorem held_append_singleton (address : Nat) (log : List Access) (access : Access) :
    held address (log ++ [access]) = (access.stored? address).getD (held address log) := by
  rw [held, lastStored_append_singleton, held]
  cases access.stored? address <;> rfl

theorem counts_iff {action' : String} (h : access.counted = some (action, address)) :
    access.Counts action' bankCount bank ↔ action' = action ∧ bank = address % bankCount := by
  simp [Counts, h, eq_comm]

theorem not_counts (h : access.counted = none) : ¬ access.Counts action bankCount bank := by
  simp [Counts, h]

namespace Tracks

/-- A call that stores and counts what it says goes on the log. -/
theorem extend (h : Tracks name depth bankCount log (memory, node)) (access : Access)
    (hpeek : ∀ address, memory'.peek address =
      (access.stored? address).or (memory.peek address))
    (hdepth : memory'.depth = memory.depth) (hbankCount : memory'.bankCount = memory.bankCount)
    (hlength : memory'.words.length = memory.words.length)
    (hname : next.name = node.name) (hnext : next.WellFormed)
    (hcounters : ∀ action bank, next.counterValue action [bank] =
      (node.counterValue action [bank]).map
        (· + if access.Counts action bankCount bank then 1 else 0)) :
    Tracks name depth bankCount (log ++ [access]) (memory', next) where
  words address := by
    have hlength : memory'.words.length = depth := hlength.trans h.length_eq
    have hold : memory.peek address = _ := h.words address
    by_cases haddress : address < depth
    · rw [if_pos haddress] at hold ⊢
      rw [hpeek, hold, held_append_singleton]
      cases access.stored? address <;> rfl
    · rw [if_neg haddress]
      exact List.getElem?_eq_none (hlength ▸ Nat.le_of_not_lt haddress)
  counters action haction bank hbank := by
    have hold : node.counterValue action [bank] = _ := h.counters action haction bank hbank
    rw [hcounters, hold, List.countP_append]
    by_cases hcounts : access.Counts action bankCount bank <;> simp [hcounts, Except.map]
  name_eq := hname.trans h.name_eq
  depth_eq := hdepth.trans h.depth_eq
  bankCount_eq := hbankCount.trans h.bankCount_eq
  length_eq := hlength.trans h.length_eq
  wellFormed := hnext

theorem bank_eq (h : Tracks name depth bankCount log (memory, node)) (hbanks : 0 < bankCount)
    (address : Nat) : memory.bank address = address % bankCount := by
  have hcount : memory.bankCount = bankCount := h.bankCount_eq
  rw [Memory.bank, hcount, Nat.max_eq_left hbanks]

theorem peek_eq (h : Tracks name depth bankCount log (memory, node)) (haddress : address < depth) :
    memory.peek address = some (held address log) := by
  have hpeek : memory.peek address = _ := h.words address
  rw [hpeek, if_pos haddress]

/-- A counter that is not full takes one more. -/
theorem count_of_ne (h : Tracks name depth bankCount log (memory, node))
    (haction : action = Memory.readAction ∨ action = Memory.writeAction)
    (hbank : bank < bankCount) (hroom : node.counterValue action [bank] ≠ .ok Word.top) :
    ∃ next, count action [bank] node = .ok () next ∧ next.name = node.name ∧ next.WellFormed ∧
      ∀ action' bank', next.counterValue action' [bank'] =
        (node.counterValue action' [bank']).map
          (· + if action' = action ∧ bank' = bank then 1 else 0) := by
  obtain ⟨value, hvalue⟩ : ∃ value, node.counterValue action [bank] = .ok value :=
    ⟨_, h.counters action haction bank hbank⟩
  have hle := counterValue_le_top h.wellFormed hvalue
  have hne : value ≠ Word.top := fun heq ↦ hroom (heq ▸ hvalue)
  have hfit : value + 1 ≤ Word.top := by omega
  refine ⟨_, record_of_le h.wellFormed hvalue hfit, name_after_record _ _ _ node,
    h.wellFormed.record, fun action' bank' ↦ ?_⟩
  rw [counterValue_after_record h.wellFormed hvalue hfit]
  by_cases hsame : action' = action ∧ bank' = bank
  · obtain ⟨rfl, rfl⟩ := hsame
    simp [hvalue, Except.map]
  · rw [if_neg (by simpa using hsame), if_neg hsame]
    cases node.counterValue action' [bank'] <;> rfl

theorem count_of_full (h : Tracks name depth bankCount log (memory, node))
    (hfull : node.counterValue action [bank] = .ok Word.top) :
    ∃ index, count action [bank] node = .error (.counterOverflow action index 1) node :=
  record_of_lt h.wellFormed hfull (Nat.lt_succ_self _)

/-! ### One call -/

theorem run_read (h : Tracks name depth bankCount log (memory, node)) (hbanks : 0 < bankCount)
    (haddress : address < depth)
    (hroom : node.counterValue Memory.readAction [address % bankCount] ≠ .ok Word.top) :
    ∃ next, (Access.read address).run (memory, node) =
        .ok (some (held address log)) (memory, next) ∧
      Tracks name depth bankCount (log ++ [.read address]) (memory, next) := by
  obtain ⟨next, hcount, hname, hnext, hcounters⟩ :=
    h.count_of_ne (.inl rfl) (Nat.mod_lt _ hbanks) hroom
  have hread : memory.read address node = .ok (held address log) next := by
    rw [Memory.read_of_lt (h.depth_eq.symm ▸ haddress) (h.peek_eq haddress), h.bank_eq hbanks]
    exact Run.map_of_ok (by rw [Run.mapError, hcount]; rfl)
  have hcounted : (Access.read address).counted = some (Memory.readAction, address) := rfl
  refine ⟨next, ?_, h.extend _ (fun _ ↦ rfl) rfl rfl rfl hname hnext fun action bank ↦ ?_⟩
  · rw [run_read_eq, Run.bind_of_ok (Run.onSnd_of_ok hread memory)]
    rfl
  · simp only [hcounters, counts_iff hcounted]

theorem run_write (h : Tracks name depth bankCount log (memory, node)) (hbanks : 0 < bankCount)
    (haddress : address < depth) (word : Int)
    (hroom : node.counterValue Memory.writeAction [address % bankCount] ≠ .ok Word.top) :
    ∃ next, (Access.write address word).run (memory, node) = .ok none next ∧
      Tracks name depth bankCount (log ++ [.write address word]) next := by
  obtain ⟨next, hcount, hname, hnext, hcounters⟩ :=
    h.count_of_ne (.inr rfl) (Nat.mod_lt _ hbanks) hroom
  have hlength : memory.words.length = depth := h.length_eq
  have hfit : address + [word].length ≤ memory.words.length := hlength ▸ haddress
  have hwrite : Memory.write address word (memory, node) =
      .ok () (memory.store address [word], next) := by
    rw [Memory.write_of_lt (h.depth_eq.symm ▸ haddress) hfit, h.bank_eq hbanks, Run.mapError,
      hcount]
    rfl
  have hcounted : (Access.write address word).counted = some (Memory.writeAction, address) := rfl
  refine ⟨(memory.store address [word], next), ?_, h.extend _ (Memory.peek_store hfit) rfl rfl
    (Memory.length_store hfit) hname hnext fun action bank ↦ ?_⟩
  · rw [run_write_eq, Run.bind_of_ok hwrite]
    rfl
  · simp only [hcounters, counts_iff hcounted]

theorem run_load (h : Tracks name depth bankCount log (memory, node)) (hdepth : depth < Word.top)
    (hfit : address + data.length ≤ depth) :
    ∃ memory', (Access.load address data).run (memory, node) = .ok none (memory', node) ∧
      Tracks name depth bankCount (log ++ [.load address data]) (memory', node) := by
  have hdepth' : memory.depth = depth := h.depth_eq
  have hlength : memory.words.length = depth := h.length_eq
  have hload := Memory.load_of_le (hdepth'.symm ▸ hdepth) (hlength.trans hdepth'.symm)
    (hdepth'.symm ▸ hfit) node.name
  have hwords : address + data.length ≤ memory.words.length := hlength.symm ▸ hfit
  refine ⟨memory.store address data, ?_, h.extend _ (Memory.peek_store hwords) rfl rfl
    (Memory.length_store hwords) rfl h.wellFormed fun action bank ↦ ?_⟩
  · rw [run_load_eq, Run.bind_of_ok (Run.onFst_of_ok hload node)]
    rfl
  · rw [if_neg (not_counts rfl)]
    cases node.counterValue action [bank] <;> rfl

theorem run_peek (h : Tracks name depth bankCount log (memory, node)) (address : Nat) :
    (Access.peek address).run (memory, node) =
        .ok (if address < depth then some (held address log) else none) (memory, node) ∧
      Tracks name depth bankCount (log ++ [.peek address]) (memory, node) := by
  refine ⟨?_, h.extend _ (fun _ ↦ rfl) rfl rfl rfl rfl h.wellFormed fun action bank ↦ ?_⟩
  · exact congrArg (EStateM.Result.ok · (memory, node)) (h.words address)
  · rw [if_neg (not_counts rfl)]
    cases node.counterValue action [bank] <;> rfl

/-- A call that fails leaves everything as it was. -/
theorem run_of_le (h : Tracks name depth bankCount log (memory, node))
    (hcounted : access.counted = some (action, address)) (haddress : depth ≤ address) :
    access.run (memory, node) = .error (.addressOutOfRange name address depth) (memory, node) := by
  have hdepth : memory.depth = depth := h.depth_eq
  have hname : node.name = name := h.name_eq
  have haddress : memory.depth ≤ address := hdepth ▸ haddress
  cases access with
  | read first =>
    cases hcounted
    have hread := Run.onSnd_of_error (Memory.read_of_le haddress node) memory
    rw [run_read_eq, Run.bind_of_error hread, hname, hdepth]
  | write first word =>
    cases hcounted
    rw [run_write_eq, Run.bind_of_error (Memory.write_of_le haddress word node), hname, hdepth]
  | load first data => cases hcounted
  | peek first => cases hcounted

theorem run_of_full (h : Tracks name depth bankCount log (memory, node)) (hbanks : 0 < bankCount)
    (hcounted : access.counted = some (action, address)) (haddress : address < depth)
    (hfull : node.counterValue action [address % bankCount] = .ok Word.top) :
    ∃ index, access.run (memory, node) =
      .error (.model (.counterOverflow action index 1)) (memory, node) := by
  obtain ⟨index, hcount⟩ := h.count_of_full hfull
  have hlt : address < memory.depth := h.depth_eq.symm ▸ haddress
  have hlength : memory.words.length = depth := h.length_eq
  have hstep : Run.mapError RunError.model (count action [memory.bank address]) node =
      .error (.model (.counterOverflow action index 1)) node := by
    rw [Run.mapError, h.bank_eq hbanks, hcount]
    rfl
  refine ⟨index, ?_⟩
  cases access with
  | read first =>
    cases hcounted
    have hread := Memory.read_of_lt hlt (h.peek_eq haddress)
    rw [run_read_eq, hread, Run.bind_of_error (Run.onSnd_of_error (Run.map_of_error hstep) memory)]
  | write first word =>
    cases hcounted
    have hwrite := Memory.write_of_lt hlt (hlength.symm ▸ haddress) word node
    rw [hstep] at hwrite
    rw [run_write_eq, Run.bind_of_error hwrite]
  | load first data => cases hcounted
  | peek first => cases hcounted

theorem run_load_of_lt (h : Tracks name depth bankCount log (memory, node))
    (hdepth : depth < Word.top) (hlast : depth < address + data.length) :
    (Access.load address data).run (memory, node) = .error
      (.addressOutOfRange name (Word.addSaturating address data.length - 1) depth)
        (memory, node) := by
  have hdepth' : memory.depth = depth := h.depth_eq
  have hname : node.name = name := h.name_eq
  have hload := Memory.load_of_lt (hdepth'.symm ▸ hdepth) (hdepth'.symm ▸ hlast) node.name
  rw [run_load_eq, Run.bind_of_error (Run.onFst_of_error hload node), hname, hdepth']

theorem responds (h : Tracks name depth bankCount log (memory, node)) (hbanks : 0 < bankCount)
    (hdepth : depth < Word.top) : Responds name depth bankCount log (memory, node) where
  misaddressed _ _ _ := h.run_of_le
  full _ _ _ := h.run_of_full hbanks
  read _ haddress hroom := (h.run_read hbanks haddress hroom).imp fun _ ↦ And.left
  write _ word haddress hroom := (h.run_write hbanks haddress word hroom).imp fun _ ↦ And.left
  overlong _ _ := h.run_load_of_lt hdepth
  load _ _ hfit := (h.run_load hdepth hfit).imp fun _ ↦ And.left
  peek address := (h.run_peek address).1

/-- A call that counts fails for its address or its counter, if it fails. -/
theorem step_of_counted (h : Tracks name depth bankCount log (memory, node))
    (hbanks : 0 < bankCount) (hcounted : access.counted = some (action, address))
    (hrun : address < depth → node.counterValue action [address % bankCount] ≠ .ok Word.top →
      ∃ answer next, access.run (memory, node) = .ok answer next ∧
        Tracks name depth bankCount (log ++ [access]) next) :
    (∃ cause, access.run (memory, node) = .error cause (memory, node)) ∨
      ∃ answer next, access.run (memory, node) = .ok answer next ∧
        Tracks name depth bankCount (log ++ [access]) next := by
  by_cases haddress : address < depth
  · by_cases hfull : node.counterValue action [address % bankCount] = .ok Word.top
    · obtain ⟨index, herror⟩ := h.run_of_full hbanks hcounted haddress hfull
      exact .inl ⟨_, herror⟩
    · exact .inr (hrun haddress hfull)
  · exact .inl ⟨_, h.run_of_le hcounted (Nat.le_of_not_lt haddress)⟩

/-- A call goes on the log or changes nothing. -/
theorem step (h : Tracks name depth bankCount log (memory, node)) (hbanks : 0 < bankCount)
    (hdepth : depth < Word.top) (access : Access) :
    (∃ cause, access.run (memory, node) = .error cause (memory, node)) ∨
      ∃ answer next, access.run (memory, node) = .ok answer next ∧
        Tracks name depth bankCount (log ++ [access]) next := by
  cases access with
  | read address =>
    refine h.step_of_counted hbanks rfl fun haddress hroom ↦ ?_
    obtain ⟨next, hok, hnext⟩ := h.run_read hbanks haddress hroom
    exact ⟨_, _, hok, hnext⟩
  | write address word =>
    refine h.step_of_counted hbanks rfl fun haddress hroom ↦ ?_
    obtain ⟨next, hok, hnext⟩ := h.run_write hbanks haddress word hroom
    exact ⟨_, _, hok, hnext⟩
  | load address data =>
    by_cases hfit : address + data.length ≤ depth
    · obtain ⟨memory', hok, hnext⟩ := h.run_load hdepth hfit
      exact .inr ⟨_, _, hok, hnext⟩
    · exact .inl ⟨_, h.run_load_of_lt hdepth (Nat.lt_of_not_le hfit)⟩
  | peek address => exact .inr ⟨_, _, h.run_peek address⟩

end Tracks

/-! ### Any calls -/

/-- Any calls keep the log in step with the memory and its node. -/
theorem Tracks.after_accessAll {state : Memory × Component}
    (h : Tracks name depth bankCount log state) (hbanks : 0 < bankCount) (hdepth : depth < Word.top)
    (accesses : List Access) :
    Tracks name depth bankCount (log ++ (accessAll accesses state).1)
      (accessAll accesses state).2 := by
  induction accesses generalizing log state with
  | nil => simpa [accessAll] using h
  | cons access accesses ih =>
    obtain ⟨memory, node⟩ := state
    rcases h.step hbanks hdepth access with ⟨cause, herror⟩ | ⟨answer, next, hok, hnext⟩
    · rw [accessAll, herror]
      exact ih h
    · have hlog : accessAll (access :: accesses) (memory, node) =
          (access :: (accessAll accesses next).1, (accessAll accesses next).2) := by
        rw [accessAll, hok]
        rfl
      rw [hlog, List.append_cons]
      exact ih hnext

/-- A new memory and the node that was built for it. -/
theorem Tracks.of_build {width : Nat}
    (hbuild : (Memory.fresh width depth bankCount).build name = .ok node) :
    Tracks name depth bankCount [] (Memory.fresh width depth bankCount, node) := by
  obtain ⟨schema, hschema, hleaf⟩ := Memory.build_eq_ok_iff.mp hbuild
  have hunused := unused_leaf hleaf
  exact {
    words := fun address ↦ by
      by_cases haddress : address < depth
      · rw [if_pos haddress]
        exact Memory.peek_fresh haddress
      · rw [if_neg haddress]
        exact List.getElem?_eq_none (by simpa [Memory.fresh] using haddress)
    counters := fun action haction bank hbank ↦ by
      obtain ⟨value, hvalue⟩ := Memory.exists_counterValue hbuild haction hbank
      have htally : node.tally ⟨[], action, [bank]⟩ = some value := by
        rw [tally_nil, hvalue]
        rfl
      rw [hvalue, hunused _ _ htally]
      rfl
    name_eq := name_of_leaf hleaf
    depth_eq := rfl
    bankCount_eq := rfl
    length_eq := by simp [Memory.fresh]
    wellFormed := .leaf hleaf }

/-- A memory is an array with a log of its accesses. After any calls, a word is what was stored last
at its address, by a write or by a load that covers it, and the counters of a bank are the numbers
of reads and writes there that have succeeded. A read or a write fails for an address out of range,
or else when the counter of its bank is full, a load fails when its data go past the end, and
nothing else fails; what fails leaves the memory and its node as they were, and loads and peeks
leave the node as it was in any case. -/
theorem accessAll_agrees (width : Nat) (name : String) (hdepth : depth < storageLimit)
    (hbanks : 0 < bankCount) : ∃ memory, Memory.create width depth bankCount = .ok memory ∧
      (bankCount < storageLimit → ∃ node, memory.build name = .ok node) ∧
      ∀ node, memory.build name = .ok node → ∀ accesses,
        let log := (accessAll accesses (memory, node)).1
        let state := (accessAll accesses (memory, node)).2
        Agrees depth bankCount log state ∧ Responds name depth bankCount log state := by
  have htop : depth < Word.top := Nat.lt_trans hdepth (by decide)
  refine ⟨_, Memory.create_of_lt hdepth, fun hlimit ↦ ?_, fun node hbuild accesses ↦ ?_⟩
  · exact (Memory.exists_build_iff hlimit name).mpr hbanks
  · have htracks := (Tracks.of_build hbuild).after_accessAll hbanks htop accesses
    rw [List.nil_append] at htracks
    exact ⟨htracks.toAgrees, htracks.responds hbanks htop⟩

/-- A load over a word that was written, a load that goes one past the end, and reads of one bank
and of no address at all. -/
theorem accessAll_agrees_sample :
    let accesses : List Access := [.write 2 70, .load 1 [8, 9], .load 3 [1, 2], .read 2, .read 7,
      .read 0, .peek 7]
    let log : List Access := [.write 2 70, .load 1 [8, 9], .read 2, .read 0, .peek 7]
    4 < storageLimit ∧ 0 < 2 ∧ ∃ memory node, Memory.create 16 4 2 = .ok memory ∧
      memory.build "ram" = .ok node ∧ (accessAll accesses (memory, node)).1 = log ∧
      Agrees 4 2 log (accessAll accesses (memory, node)).2 ∧
      held 2 log = 9 ∧ held 3 log = 3 ∧
      (accessAll accesses (memory, node)).2.2.counterValue "read_random" [0] = .ok 2 ∧
      (Access.load 2 [1, 2, 3]).run (accessAll accesses (memory, node)).2 =
        .error (.addressOutOfRange "ram" 4 4) (accessAll accesses (memory, node)).2 := by
  intro accesses log
  obtain ⟨memory, hmemory, hbuilds, hagrees⟩ :=
    accessAll_agrees 16 "ram" (by decide : 4 < storageLimit) (by decide : 0 < 2)
  obtain ⟨node, hnode⟩ := hbuilds (by decide)
  have hlog : (accessAll accesses (memory, node)).1 = log := by
    cases hmemory
    cases hnode
    decide +kernel
  obtain ⟨hagrees, hresponds⟩ := hagrees node hnode accesses
  rw [hlog] at hagrees hresponds
  exact ⟨by decide, by decide, memory, node, hmemory, hnode, hlog, hagrees, by decide, by decide,
    (hagrees.counters _ (.inl rfl) 0 (by decide)).trans (by decide),
    hresponds.overlong 2 [1, 2, 3] (by decide)⟩

end Access

end CountTree
