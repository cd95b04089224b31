import CountTree.Component
import CountTree.RunError

/-!
A memory of words in banks; the word at an address lies in the bank that the address has modulo
their number. Reads and writes are counted for each bank.
-/

set_option autoImplicit false
set_option relaxedAutoImplicit false

namespace CountTree

structure Memory where
  width : Nat
  depth : Nat
  bankCount : Nat
  words : List Int
deriving DecidableEq

namespace Memory

def classTag : String := "SRAM"

def readAction : String := "read_random"

def writeAction : String := "write_random"

/-- What an address holds before anything is stored there. -/
def initialWord (address : Nat) : Int := ((address % 10 : Nat) : Int)

/-- A memory of `depth` words; refused when they are past the machine's storage. -/
def create (width depth bankCount : Nat) : Except ModelError Memory :=
  if depth < storageLimit then
    .ok ⟨width, depth, bankCount, (List.range depth).map initialWord⟩
  else .error (.fault .allocation)

def schema (bankCount : Nat) : Except ModelError Schema := do
  Schema.create
    [← Action.create readAction [bankCount], ← Action.create writeAction [bankCount]]

def attributes (memory : Memory) : Attributes :=
  Attributes.ofList [("width", toString memory.width), ("depth", toString memory.depth),
    ("nbanks", toString memory.bankCount)]

/-- The leaf that describes the memory. -/
def build (memory : Memory) (name : String) : Except ModelError Component := do
  Component.leaf name classTag memory.attributes (← schema memory.bankCount)

def bank (memory : Memory) (address : Nat) : Nat := address % max memory.bankCount 1

def checkAddress (memory : Memory) (name : String) (address : Nat) : Except RunError Unit :=
  if memory.depth ≤ address then .error (.addressOutOfRange name address memory.depth)
  else .ok ()

/-- The word at an address, without counting. -/
def peek (memory : Memory) (address : Nat) : Option Int := memory.words[address]?

/-- The word at an address that was checked. -/
def word (memory : Memory) (address : Nat) : Except RunError Int :=
  match memory.peek address with
  | some word => .ok word
  | none => .error (.model (.fault .bounds))

/-- Replaces the words from an address on. -/
def store (memory : Memory) (address : Nat) (data : List Int) : Memory :=
  { memory with
    words := memory.words.take address ++ data ++ memory.words.drop (address + data.length) }

/-- Stores a word at an address that was checked. -/
def put (address : Nat) (data : Int) : Run RunError Memory Unit := fun memory ↦
  if address < memory.words.length then .ok () (memory.store address [data])
  else .error (.model (.fault .bounds)) memory

/-- Stores words from an address on, without counting. The words that are replaced must lie within
the memory and be as many as the new ones. -/
def load (name : String) (address : Nat) (data : List Int) : Run RunError Memory Unit :=
  fun memory ↦
    let last := Word.addSaturating address data.length
    if memory.depth < last then .error (.addressOutOfRange name (last - 1) memory.depth) memory
    else if last < address ∨ memory.words.length < last then
      .error (.model (.fault .bounds)) memory
    else if last - address ≠ data.length then .error (.model (.fault .bounds)) memory
    else .ok () (memory.store address data)

/-- Reads a word and counts the read on its bank. -/
def read (memory : Memory) (address : Nat) : Run RunError Component Int := do
  Run.ofExcept (memory.checkAddress (← get).name address)
  Run.mapError .model (Component.count readAction [memory.bank address])
  Run.ofExcept (memory.word address)

/-- Counts a write on the bank of its address and then stores the word. -/
def write (address : Nat) (data : Int) : Run RunError (Memory × Component) Unit := do
  let (memory, node) ← get
  Run.ofExcept (memory.checkAddress node.name address)
  Run.onSnd (Run.mapError .model (Component.count writeAction [memory.bank address]))
  Run.onFst (put address data)

end Memory

end CountTree
