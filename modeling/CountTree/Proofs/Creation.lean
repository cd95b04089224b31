import CountTree.Proofs.Job
import CountTree.Proofs.TableSizes
import CountTree.Proofs.Unused
import CountTree.Runner

/-!
What a runner is made of. Under a configuration whose memories and tables can be stored, creating a
runner comes down to two things that may be refused: a memory without banks, and a buffer and an
element under one name (`exists_create_iff`). `Created` lists the parts of the runner that comes of
it. Its design is reachable, has counted nothing yet, and has a counter for each of the recordings
of a job.
-/

set_option autoImplicit false
set_option relaxedAutoImplicit false

namespace CountTree

open Component

/-! ### Schemas of units -/

theorem Schema.create_eq_ok_iff {actions : List Action} {schema : Schema} :
    create actions = .ok schema ↔ schema.actions = actions := by
  constructor
  · intro h
    unfold create at h
    split at h
    · simp at h
    · obtain rfl := Except.ok.inj h
      rfl
  · rintro rfl
    unfold create
    split
    · rename_i name hrepeat
      rw [(firstRepeat_eq_none_iff _ _).mpr ⟨schema.nodup, by simp⟩] at hrepeat
      simp at hrepeat
    · rfl

namespace Memory

variable {memory : Memory} {name : String} {node : Component} {schema : Schema}

/-- A memory in which nothing has been stored. -/
def fresh (width depth bankCount : Nat) : Memory :=
  ⟨width, depth, bankCount, (List.range depth).map initialWord⟩

theorem create_of_lt {width depth bankCount : Nat} (h : depth < storageLimit) :
    create width depth bankCount = .ok (fresh width depth bankCount) := if_pos h

theorem lt_of_create {width depth bankCount : Nat}
    (h : create width depth bankCount = .ok memory) : depth < storageLimit := by
  by_contra hlimit
  rw [create, if_neg hlimit] at h
  cases h

theorem peek_fresh {width depth bankCount address : Nat} (h : address < depth) :
    (fresh width depth bankCount).peek address = some (initialWord address) := by
  rw [peek, fresh, List.getElem?_map, List.getElem?_range h, Option.map_some]

/-- The actions of a memory: its reads and its writes, each told apart by bank. -/
theorem schema_eq_ok_iff {bankCount : Nat} {schema : Schema} :
    Memory.schema bankCount = .ok schema ↔ ∃ reads writes,
      (reads.name = readAction ∧ reads.cardinalities = [bankCount]) ∧
      (writes.name = writeAction ∧ writes.cardinalities = [bankCount]) ∧
        schema.actions = [reads, writes] := by
  simp only [Memory.schema, bind_eq_ok_iff, Action.create_eq_ok_iff,
    Schema.create_eq_ok_iff, exists_and_left]

theorem build_eq_ok_iff : memory.build name = .ok node ↔
    ∃ schema, Memory.schema memory.bankCount = .ok schema ∧
      Component.leaf name classTag memory.attributes schema = .ok node := by
  simp only [build, bind_eq_ok_iff]

theorem bankCount_pos_of_schema {bankCount : Nat} (h : Memory.schema bankCount = .ok schema) :
    0 < bankCount := by
  obtain ⟨reads, -, ⟨-, hbanks⟩, -, -⟩ := schema_eq_ok_iff.mp h
  exact reads.cardinalities_pos _ (hbanks ▸ List.mem_singleton_self _)

/-- A memory can be described if it has banks, as far as storage goes. -/
theorem exists_build_iff (hlimit : memory.bankCount < storageLimit) (name : String) :
    (∃ node, memory.build name = .ok node) ↔ 0 < memory.bankCount := by
  constructor
  · rintro ⟨node, hbuild⟩
    obtain ⟨schema, hschema, -⟩ := build_eq_ok_iff.mp hbuild
    exact bankCount_pos_of_schema hschema
  · intro hpos
    have hsize : Radix.size? [memory.bankCount] = some memory.bankCount := by
      refine Radix.size?_eq_some_iff.mpr ⟨by simpa using hpos, by simp, ?_⟩
      exact Nat.le_trans hlimit.le (by decide)
    let schema : Schema :=
      ⟨[⟨readAction, _, _, hsize⟩, ⟨writeAction, _, _, hsize⟩],
        (by decide : [readAction, writeAction].Nodup)⟩
    obtain ⟨node, hnode⟩ : ∃ node, leaf name classTag memory.attributes schema = .ok node :=
      leaf_of_lt (by simpa [schema] using hlimit)
    exact ⟨node, build_eq_ok_iff.mpr ⟨schema,
      schema_eq_ok_iff.mpr ⟨_, _, ⟨rfl, rfl⟩, ⟨rfl, rfl⟩, rfl⟩, hnode⟩⟩

end Memory

namespace Mac

variable {mac : Mac} {name : String} {node : Component}

theorem build_eq_ok_iff : mac.build name = .ok node ↔
    ∃ schema : Schema, schema.actions = [Action.simple randomAction, Action.simple gatedAction] ∧
      Component.leaf name classTag mac.attributes schema = .ok node := by
  simp only [build, schema, Schema.simple, bind_eq_ok_iff, Schema.create_eq_ok_iff, List.map_cons,
    List.map_nil]

theorem exists_build (mac : Mac) (name : String) : ∃ node, mac.build name = .ok node := by
  let schema : Schema := ⟨[Action.simple randomAction, Action.simple gatedAction],
    (by decide : [randomAction, gatedAction].Nodup)⟩
  obtain ⟨node, hnode⟩ : ∃ node, leaf name classTag mac.attributes schema = .ok node :=
    leaf_of_lt (by simp [schema, Action.simple, storageLimit])
  exact ⟨node, build_eq_ok_iff.mpr ⟨schema, rfl, hnode⟩⟩

end Mac

/-! ### Leaves of units -/

namespace Component

variable {node : Component} {name classTag : String} {attributes : Attributes} {schema : Schema}

theorem name_of_leaf (h : leaf name classTag attributes schema = .ok node) : node.name = name := by
  obtain ⟨counters, -, rfl⟩ := leaf_eq_ok_iff.mp h
  rfl

/-- A fresh leaf has a counter for every action of its schema and every tuple in range. -/
theorem exists_counterValue_of_leaf (h : leaf name classTag attributes schema = .ok node)
    {action : Action} (haction : action ∈ schema.actions) {arguments : List Nat}
    (hrange : Radix.InRange arguments action.cardinalities) :
    ∃ count, node.counterValue action.name arguments = .ok count := by
  obtain ⟨counters, -, rfl⟩ := leaf_eq_ok_iff.mp h
  exact exists_counterValue_iff.mpr ⟨_, action, rfl, haction, rfl, hrange⟩

end Component

theorem Memory.exists_counterValue {memory : Memory} {name : String} {node : Component}
    (h : memory.build name = .ok node) {action : String}
    (haction : action = readAction ∨ action = writeAction) {bank : Nat}
    (hbank : bank < memory.bankCount) : ∃ count, node.counterValue action [bank] = .ok count := by
  obtain ⟨schema, hschema, hleaf⟩ := build_eq_ok_iff.mp h
  obtain ⟨reads, writes, ⟨hread, hreads⟩, ⟨hwrite, hwrites⟩, hactions⟩ :=
    schema_eq_ok_iff.mp hschema
  rcases haction with rfl | rfl
  · rw [← hread]
    exact exists_counterValue_of_leaf hleaf (hactions ▸ List.mem_cons_self)
      (hreads ▸ ⟨hbank, trivial⟩)
  · rw [← hwrite]
    exact exists_counterValue_of_leaf hleaf (hactions ▸ List.mem_cons_of_mem _ List.mem_cons_self)
      (hwrites ▸ ⟨hbank, trivial⟩)

theorem Mac.exists_counterValue {mac : Mac} {name : String} {node : Component}
    (h : mac.build name = .ok node) {action : String}
    (haction : action = randomAction ∨ action = gatedAction) :
    ∃ count, node.counterValue action [] = .ok count := by
  obtain ⟨schema, hactions, hleaf⟩ := build_eq_ok_iff.mp h
  have hrandom : Action.simple randomAction ∈ schema.actions := hactions ▸ List.mem_cons_self
  have hgated : Action.simple gatedAction ∈ schema.actions :=
    hactions ▸ List.mem_cons_of_mem _ List.mem_cons_self
  rcases haction with rfl | rfl
  · exact exists_counterValue_of_leaf hleaf hrandom trivial
  · exact exists_counterValue_of_leaf hleaf hgated trivial

/-! ### A whole runner -/

namespace ProcessingElement

theorem build_eq_ok_iff {element : ProcessingElement} {node : Component} :
    element.build = .ok node ↔ ∃ mac scratchpad, element.mac.build macName = .ok mac ∧
      element.scratchpad.build scratchpadName = .ok scratchpad ∧
        node = ⟨element.name, .container, [mac, scratchpad]⟩ := by
  simp only [build, bind_eq_ok_iff]
  constructor
  · rintro ⟨mac, hmac, node, hfirst, scratchpad, hscratchpad, hsecond⟩
    obtain ⟨-, rfl⟩ := withChild_eq_ok hfirst
    obtain ⟨-, rfl⟩ := withChild_eq_ok hsecond
    exact ⟨mac, scratchpad, hmac, hscratchpad, rfl⟩
  · rintro ⟨mac, scratchpad, hmac, hscratchpad, rfl⟩
    obtain ⟨macSchema, -, hmacLeaf⟩ := Mac.build_eq_ok_iff.mp hmac
    obtain ⟨scratchpadSchema, -, hscratchpadLeaf⟩ := Memory.build_eq_ok_iff.mp hscratchpad
    have hnew : scratchpad.name ∉ [mac.name] := by
      rw [name_of_leaf hmacLeaf, name_of_leaf hscratchpadLeaf]
      decide
    exact ⟨mac, hmac, _, withChild_container rfl List.not_mem_nil, scratchpad, hscratchpad,
      withChild_container rfl hnew⟩

end ProcessingElement

namespace Configuration

/-- No memory and no table of counters is past the machine's storage. -/
structure Storable (configuration : Configuration) : Prop where
  buffer_depth : configuration.buffer.depth < storageLimit
  buffer_banks : configuration.buffer.bankCount < storageLimit
  element_depth : configuration.element.depth < storageLimit
  element_banks : configuration.element.bankCount < storageLimit

def freshBuffer (configuration : Configuration) : Memory :=
  .fresh configuration.buffer.width configuration.buffer.depth configuration.buffer.bankCount

def freshElement (configuration : Configuration) : ProcessingElement :=
  let settings := configuration.element
  ⟨settings.name, ⟨settings.bitWidth, settings.pipelineStages⟩,
    .fresh settings.bitWidth settings.depth settings.bankCount⟩

end Configuration

namespace Runner

open ProcessingElement

variable {configuration : Configuration} {runner : Runner} {buffer mac scratchpad : Component}

/-- A runner that has counted nothing, with all that its jobs count on in its tree. -/
structure Ready (runner : Runner) : Prop where
  fresh : Fresh runner.design
  bankCount_pos : 0 < runner.element.scratchpad.bankCount
  peek_of_lt : ∀ address < runner.element.scratchpad.depth,
    runner.element.scratchpad.peek address = some (Memory.initialWord address)
  tally_scratchpad : ∀ action, action = Memory.readAction ∨ action = Memory.writeAction →
    ∀ bank < runner.element.scratchpad.bankCount,
      runner.design.tally ⟨[runner.element.name, scratchpadName], action, [bank]⟩ = some 0
  tally_mac : ∀ action, action = Mac.randomAction ∨ action = Mac.gatedAction →
    runner.design.tally ⟨[runner.element.name, macName], action, []⟩ = some 0

/-- A runner as it is created, and the leaves of its design. -/
structure Created (configuration : Configuration) (buffer mac scratchpad : Component)
    (runner : Runner) : Prop where
  buffer_build : configuration.freshBuffer.build configuration.buffer.name = .ok buffer
  mac_build : configuration.freshElement.mac.build macName = .ok mac
  scratchpad_build : configuration.freshElement.scratchpad.build scratchpadName = .ok scratchpad
  names_ne : configuration.buffer.name ≠ configuration.element.name
  runner_eq : runner = ⟨⟨configuration.designName, .container,
    [buffer, ⟨configuration.element.name, .container, [mac, scratchpad]⟩]⟩,
      configuration.freshElement, configuration.jobs⟩

theorem create_eq_ok_iff (hsizes : configuration.Storable) : create configuration = .ok runner ↔
    ∃ buffer mac scratchpad, Created configuration buffer mac scratchpad runner := by
  have helement : ProcessingElement.create configuration.element =
      .ok configuration.freshElement := by
    rw [ProcessingElement.create, Memory.create_of_lt hsizes.element_depth]
    rfl
  simp only [create, bind_eq_ok_iff, Memory.create_of_lt hsizes.buffer_depth, helement,
    ProcessingElement.build_eq_ok_iff, Except.ok.injEq, exists_eq_left']
  constructor
  · rintro ⟨buffer, hbuffer, design, hfirst, element, ⟨mac, scratchpad, hmac, hscratchpad, rfl⟩,
      design', hsecond, hrunner⟩
    obtain ⟨-, rfl⟩ := withChild_eq_ok hfirst
    obtain ⟨hnew, rfl⟩ := withChild_eq_ok hsecond
    obtain ⟨schema, -, hleaf⟩ := Memory.build_eq_ok_iff.mp hbuffer
    refine ⟨buffer, mac, scratchpad, hbuffer, hmac, hscratchpad, ?_, (Except.ok.inj hrunner).symm⟩
    rintro heq
    exact hnew (List.mem_singleton.mpr (heq.symm.trans (name_of_leaf hleaf).symm))
  · rintro ⟨buffer, mac, scratchpad, hbuffer, hmac, hscratchpad, hne, rfl⟩
    obtain ⟨schema, -, hleaf⟩ := Memory.build_eq_ok_iff.mp hbuffer
    refine ⟨buffer, hbuffer, _, withChild_container rfl List.not_mem_nil, _,
      ⟨mac, scratchpad, hmac, hscratchpad, rfl⟩, _, withChild_container rfl ?_, rfl⟩
    intro hmem
    exact hne ((name_of_leaf hleaf).symm.trans (List.mem_singleton.mp hmem).symm)

/-- A runner can be created when both memories have banks and the names of buffer and element
differ. -/
theorem exists_create_iff (hsizes : configuration.Storable) :
    (∃ runner, create configuration = .ok runner) ↔ 0 < configuration.buffer.bankCount ∧
      0 < configuration.element.bankCount ∧
        configuration.buffer.name ≠ configuration.element.name := by
  have hbuffer : (∃ node, configuration.freshBuffer.build configuration.buffer.name = .ok node) ↔
      0 < configuration.buffer.bankCount := Memory.exists_build_iff hsizes.buffer_banks _
  have hscratchpad : (∃ node, configuration.freshElement.scratchpad.build scratchpadName =
      .ok node) ↔ 0 < configuration.element.bankCount :=
    Memory.exists_build_iff hsizes.element_banks _
  constructor
  · rintro ⟨runner, h⟩
    obtain ⟨buffer, mac, scratchpad, h⟩ := (create_eq_ok_iff hsizes).mp h
    exact ⟨hbuffer.mp ⟨buffer, h.buffer_build⟩, hscratchpad.mp ⟨scratchpad, h.scratchpad_build⟩,
      h.names_ne⟩
  · rintro ⟨hbanks, hbanks', hne⟩
    obtain ⟨buffer, hbuffer⟩ := hbuffer.mpr hbanks
    obtain ⟨scratchpad, hscratchpad⟩ := hscratchpad.mpr hbanks'
    obtain ⟨mac, hmac⟩ := configuration.freshElement.mac.exists_build macName
    exact ⟨_, (create_eq_ok_iff hsizes).mpr
      ⟨buffer, mac, scratchpad, hbuffer, hmac, hscratchpad, hne, rfl⟩⟩

namespace Created

/-- What has been built has counted nothing. -/
theorem fresh (h : Created configuration buffer mac scratchpad runner) : Fresh runner.design := by
  obtain ⟨bufferSchema, -, hbuffer⟩ := Memory.build_eq_ok_iff.mp h.buffer_build
  obtain ⟨macSchema, -, hmac⟩ := Mac.build_eq_ok_iff.mp h.mac_build
  obtain ⟨scratchpadSchema, -, hscratchpad⟩ := Memory.build_eq_ok_iff.mp h.scratchpad_build
  have helement : Fresh ⟨configuration.element.name, .container, [mac, scratchpad]⟩ := by
    refine .of_children ?_ ?_ _
    · simpa using ⟨Fresh.of_leaf hmac, Fresh.of_leaf hscratchpad⟩
    · simp only [List.map_cons, List.map_nil, name_of_leaf hmac, name_of_leaf hscratchpad]
      decide
  rw [h.runner_eq]
  refine .of_children ?_ ?_ _
  · simpa using ⟨Fresh.of_leaf hbuffer, helement⟩
  · simpa [name_of_leaf hbuffer] using h.names_ne

/-- A counter that is there stands at zero. -/
theorem tally_eq_zero (h : Created configuration buffer mac scratchpad runner) {path : List String}
    {node : Component} (hfind : runner.design.find path = some node) {action : String}
    {arguments : List Nat} (hvalue : ∃ count, node.counterValue action arguments = .ok count) :
    runner.design.tally ⟨path, action, arguments⟩ = some 0 := by
  obtain ⟨count, hvalue⟩ := hvalue
  have htally : runner.design.tally ⟨path, action, arguments⟩ = some count :=
    tally_eq_some_iff.mpr ⟨node, hfind, hvalue⟩
  rwa [h.fresh.unused _ _ htally] at htally

theorem find_buffer (h : Created configuration buffer mac scratchpad runner) :
    runner.design.find [configuration.buffer.name] = some buffer := by
  obtain ⟨schema, -, hbuffer⟩ := Memory.build_eq_ok_iff.mp h.buffer_build
  rw [h.runner_eq]
  simp [Component.child, find, name_of_leaf hbuffer]

theorem find_mac (h : Created configuration buffer mac scratchpad runner) :
    runner.design.find [configuration.element.name, macName] = some mac := by
  obtain ⟨bufferSchema, -, hbuffer⟩ := Memory.build_eq_ok_iff.mp h.buffer_build
  obtain ⟨macSchema, -, hmac⟩ := Mac.build_eq_ok_iff.mp h.mac_build
  rw [h.runner_eq]
  simp [Component.child, find, name_of_leaf hbuffer, name_of_leaf hmac, h.names_ne]

theorem find_scratchpad (h : Created configuration buffer mac scratchpad runner) :
    runner.design.find [configuration.element.name, scratchpadName] = some scratchpad := by
  obtain ⟨bufferSchema, -, hbuffer⟩ := Memory.build_eq_ok_iff.mp h.buffer_build
  obtain ⟨macSchema, -, hmac⟩ := Mac.build_eq_ok_iff.mp h.mac_build
  obtain ⟨scratchpadSchema, -, hscratchpad⟩ := Memory.build_eq_ok_iff.mp h.scratchpad_build
  have hne : macName ≠ scratchpadName := by decide
  rw [h.runner_eq]
  simp [Component.child, find, name_of_leaf hbuffer, name_of_leaf hmac, name_of_leaf hscratchpad,
    h.names_ne, hne]

theorem element_eq (h : Created configuration buffer mac scratchpad runner) :
    runner.element = configuration.freshElement := by rw [h.runner_eq]

theorem jobs_eq (h : Created configuration buffer mac scratchpad runner) :
    runner.jobs = configuration.jobs := by rw [h.runner_eq]

theorem name_eq (h : Created configuration buffer mac scratchpad runner) :
    runner.element.name = configuration.element.name := by
  rw [h.element_eq]
  rfl

theorem depth_eq (h : Created configuration buffer mac scratchpad runner) :
    runner.element.scratchpad.depth = configuration.element.depth := by
  rw [h.element_eq]
  rfl

theorem ready (h : Created configuration buffer mac scratchpad runner) : Ready runner where
  fresh := h.fresh
  bankCount_pos := by
    obtain ⟨schema, hschema, -⟩ := Memory.build_eq_ok_iff.mp h.scratchpad_build
    rw [h.element_eq]
    exact Memory.bankCount_pos_of_schema hschema
  peek_of_lt := by
    rw [h.element_eq]
    intro address haddress
    exact Memory.peek_fresh haddress
  tally_scratchpad action haction bank hbank := by
    rw [h.element_eq] at hbank
    rw [h.name_eq]
    exact h.tally_eq_zero h.find_scratchpad
      (Memory.exists_counterValue h.scratchpad_build haction hbank)
  tally_mac action haction := by
    rw [h.name_eq]
    exact h.tally_eq_zero h.find_mac (Mac.exists_counterValue h.mac_build haction)

end Created

end Runner

end CountTree
