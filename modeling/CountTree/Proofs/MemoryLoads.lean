import CountTree.Proofs.MemoryAccesses

/-!
Where a load ends. The last address of a load is computed in a machine word that stops at the
largest one, and compared with the depth. A memory holds as many words as its depth says, fewer than
the machine can store, and every call keeps it so (`Memory.Sized`), so that this comparison is the
one with the exact sum. `load_exact` is the main statement.
-/

set_option autoImplicit false
set_option relaxedAutoImplicit false

namespace CountTree

namespace Memory

/-- The memories that calls lead to, those that fail included. -/
inductive Reachable : Memory → Prop
  | create {width depth bankCount : Nat} {memory : Memory}
      (h : Memory.create width depth bankCount = .ok memory) : Reachable memory
  | access {memory next : Memory} {node node' : Component} {access : Access}
      (h : Reachable memory) (hrun : Outcome.state (access.run (memory, node)) = (next, node')) :
      Reachable next

/-- There is a word at every address below the depth, and the depth is far below the largest
address. -/
structure Sized (memory : Memory) : Prop where
  length_eq : memory.words.length = memory.depth
  depth_lt : memory.depth < storageLimit

variable {memory : Memory} {address : Nat} {data : List Int}

theorem Sized.depth_lt_top (h : memory.Sized) : memory.depth < Word.top :=
  Nat.lt_trans h.depth_lt (by decide)

theorem Sized.store (h : memory.Sized) (hfit : address + data.length ≤ memory.depth) :
    (memory.store address data).Sized where
  length_eq := (length_store (h.length_eq ▸ hfit)).trans h.length_eq
  depth_lt := h.depth_lt

/-- A call keeps the depth, and the words as many. -/
theorem Sized.run (h : memory.Sized) (node : Component) (access : Access) :
    (Outcome.state (access.run (memory, node))).1.Sized := by
  cases access with
  | read address =>
    rw [Access.run_read_eq]
    rcases hread : memory.read address node with ⟨word, next⟩ | ⟨cause, next⟩
    · rw [Run.bind_of_ok (Run.onSnd_of_ok hread memory)]
      exact h
    · rw [Run.bind_of_error (Run.onSnd_of_error hread memory)]
      exact h
  | write address word =>
    rw [Access.run_write_eq]
    by_cases haddress : address < memory.depth
    · have hwrite := write_of_lt haddress (h.length_eq.symm ▸ haddress) word node
      rcases hcount : Run.mapError RunError.model
        (Component.count writeAction [memory.bank address]) node with
          ⟨answer, next⟩ | ⟨cause, next⟩ <;> rw [hcount] at hwrite
      · rw [Run.bind_of_ok hwrite]
        exact h.store haddress
      · rw [Run.bind_of_error hwrite]
        exact h
    · rw [Run.bind_of_error (write_of_le (Nat.le_of_not_lt haddress) word node)]
      exact h
  | load address data =>
    rw [Access.run_load_eq]
    by_cases hfit : address + data.length ≤ memory.depth
    · have hload := load_of_le h.depth_lt_top h.length_eq hfit node.name
      rw [Run.bind_of_ok (Run.onFst_of_ok hload node)]
      exact h.store hfit
    · have hload := load_of_lt h.depth_lt_top (Nat.lt_of_not_le hfit) node.name
      rw [Run.bind_of_error (Run.onFst_of_error hload node)]
      exact h
  | peek address => exact h

theorem Reachable.sized (h : memory.Reachable) : memory.Sized := by
  induction h with
  | create h =>
    have hdepth := lt_of_create h
    rw [create_of_lt hdepth] at h
    cases h
    exact ⟨by simp [fresh], hdepth⟩
  | @access memory next node node' access _ hrun ih =>
    have hnext := ih.run node access
    rwa [hrun] at hnext

/-- A sum that goes past the depth does so before the largest address. -/
theorem Sized.depth_le_last (h : memory.Sized) (hlast : memory.depth < address + data.length) :
    memory.depth ≤ Word.addSaturating address data.length - 1 := by
  have htop := h.depth_lt_top
  rw [Word.addSaturating]
  omega

/-- A load is exact at every address. It fails if and only if the sum of the address and the number
of words, as a sum of natural numbers, goes past the depth. Then nothing has changed, and the
address in the error is not below the depth. Otherwise the words from the address on are the data in
order, at addresses that the check of an address accepts, and all other words and their number are
what they were. -/
theorem load_exact (h : memory.Reachable) (node : Component) (address : Nat) (data : List Int) :
    let load := (Access.load address data).run (memory, node)
    ((∃ cause state, load = .error cause state) ↔ memory.depth < address + data.length) ∧
      (memory.depth < address + data.length → ∃ named, memory.depth ≤ named ∧
        load = .error (.addressOutOfRange node.name named memory.depth) (memory, node)) ∧
      (address + data.length ≤ memory.depth → ∃ next, load = .ok none (next, node) ∧
        next.depth = memory.depth ∧ next.words.length = memory.words.length ∧
        (∀ offset < data.length, next.peek (address + offset) = data[offset]? ∧
          next.checkAddress node.name (address + offset) = .ok ()) ∧
        ∀ other, ¬ (address ≤ other ∧ other < address + data.length) →
          next.peek other = memory.peek other) := by
  intro load
  have hsized := h.sized
  have hoverlong (hlast : memory.depth < address + data.length) :
      load = .error (.addressOutOfRange node.name
        (Word.addSaturating address data.length - 1) memory.depth) (memory, node) := by
    have hload := load_of_lt hsized.depth_lt_top hlast node.name
    exact (Access.run_load_eq ..).trans (Run.bind_of_error (Run.onFst_of_error hload node))
  have hfits (hfit : address + data.length ≤ memory.depth) :
      load = .ok none (memory.store address data, node) := by
    have hload := load_of_le hsized.depth_lt_top hsized.length_eq hfit node.name
    exact (Access.run_load_eq ..).trans (Run.bind_of_ok (Run.onFst_of_ok hload node))
  refine ⟨⟨?_, fun hlast ↦ ⟨_, _, hoverlong hlast⟩⟩,
    fun hlast ↦ ⟨_, hsized.depth_le_last hlast, hoverlong hlast⟩, fun hfit ↦ ?_⟩
  · rintro ⟨cause, state, herror⟩
    by_contra hfit
    rw [hfits (Nat.le_of_not_lt hfit)] at herror
    cases herror
  · have hwords : address + data.length ≤ memory.words.length := hsized.length_eq ▸ hfit
    refine ⟨_, hfits hfit, rfl, length_store hwords, fun offset hoffset ↦ ⟨?_, ?_⟩,
      fun other hother ↦ ?_⟩
    · rw [peek_store hwords, Access.wordAt, if_pos (Nat.le_add_right _ _), Nat.add_sub_cancel_left,
        List.getElem?_eq_getElem hoffset, Option.some_or]
    · have haddress : address + offset < (memory.store address data).depth :=
        Nat.lt_of_lt_of_le (Nat.add_lt_add_left hoffset address) hfit
      exact checkAddress_of_lt haddress node.name
    · have hnone : Access.wordAt other address data = none := by
        rw [Access.wordAt]
        split
        · exact List.getElem?_eq_none (by omega)
        · rfl
      rw [peek_store hwords, hnone, Option.none_or]

/-- In a memory of four words: two words at the end, no word past the end, and two words at the
largest address, whose sum is no machine word. -/
theorem load_exact_sample :
    let node := Component.container "ram"
    ∃ memory, Memory.create 16 4 2 = .ok memory ∧ memory.Reachable ∧
      2 + [8, 9].length ≤ memory.depth ∧ memory.depth < Word.top + [8, 9].length ∧
      (∃ next, (Access.load 2 [8, 9]).run (memory, node) = .ok none (next, node) ∧
        next.peek 3 = some 9 ∧ next.peek 1 = some 1) ∧
      (∃ cause state, (Access.load 5 []).run (memory, node) = .error cause state) ∧
      ∃ named, memory.depth ≤ named ∧ (Access.load Word.top [8, 9]).run (memory, node) =
        .error (.addressOutOfRange "ram" named 4) (memory, node) := by
  intro node
  have hcreate : Memory.create 16 4 2 = .ok (fresh 16 4 2) := rfl
  have hreachable : (fresh 16 4 2).Reachable := .create hcreate
  obtain ⟨-, -, hfits⟩ := load_exact hreachable node 2 [8, 9]
  obtain ⟨next, hload, -, -, hstored, hkept⟩ := hfits (by decide)
  obtain ⟨-, hoverlong, -⟩ := load_exact hreachable node Word.top [8, 9]
  refine ⟨_, hcreate, hreachable, by decide, by decide,
    ⟨next, hload, (hstored 1 (by decide)).1, (hkept 1 (by decide)).trans rfl⟩,
    (load_exact hreachable node 5 []).1.mpr (by decide), hoverlong (by decide)⟩

end Memory

end CountTree
