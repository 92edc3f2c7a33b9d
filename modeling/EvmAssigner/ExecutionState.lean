import Mathlib.Tactic.Simps.Basic
import EvmAssigner.Lib.Action
import EvmAssigner.Opcodes
import EvmAssigner.Rw

namespace EvmAssigner

structure EOFCodeType where
  inputs : Nat
  outputs : Nat
  max_stack_height : Nat
  deriving Inhabited

/-- Version 0 means legacy code. -/
structure EOF1Header where
  version : Nat := 0
  code_sizes : List Nat := []
  code_offsets : List Nat := []
  data_size : Nat := 0
  types : List EOFCodeType := []

/-- `baseline::CodeAnalysis`: `executable_code` is the `size` bytes of `buffer` from `offset` on. -/
structure CodeAnalysis where
  buffer : Bytes
  offset : Nat := 0
  size : Nat
  jumpdest_map : List Bool := []
  eof_header : EOF1Header := {}

/-- The byte a code iterator points at, counted from the start of `executable_code`. -/
def CodeAnalysis.code_at (analysis : CodeAnalysis) (pos : Int) : UInt8 :=
  if 0 ≤ analysis.offset + pos then analysis.buffer.getD (analysis.offset + pos).toNat 0 else 0

/-- The bytes behind a pointer stay what they were when they are no longer part of the memory. There is a byte for every
index: a write behind the allocation changes nothing else here, where the source writes over other objects. What is said
of a run assumes that it keeps to its allocation (`MemoryReaches`), unless it says otherwise. -/
structure Memory where
  m_data : Nat → UInt8
  m_size : Nat := 0
  m_capacity : Nat := 4 * 1024

abbrev page_size : Nat := 4 * 1024

@[simps] def Memory.grow (memory : Memory) (new_size : Nat) : Memory where
  m_data k := if memory.m_size ≤ k ∧ k < new_size then 0 else memory.m_data k
  m_size := new_size
  m_capacity :=
    if new_size > memory.m_capacity then
      if memory.m_capacity * 2 < new_size then (new_size + (page_size - 1)) / page_size * page_size
      else memory.m_capacity * 2
    else memory.m_capacity

/-- `memcpy` into the memory. -/
@[simps] def Memory.store (memory : Memory) (dst : Nat) (data : Bytes) : Memory where
  m_data k := if dst ≤ k ∧ k < dst + data.length then data.getD (k - dst) 0 else memory.m_data k
  m_size := memory.m_size
  m_capacity := memory.m_capacity

def Memory.load (memory : Memory) (src n : Nat) : Bytes :=
  (List.range n).map fun j => memory.m_data (src + j)

/-- The assertions of the interpreter. -/
inductive Assertion where
  | defined_opcode | height_change | call_id | stack_address | dup_operand | swap_operand
  | grow_multiple | grow_larger | output
  deriving DecidableEq

structure ExecutionState where
  gas_refund : Int := 0
  memory : Memory
  msg : Message
  rev : Revision
  return_data : Bytes := []
  original_code : Bytes
  data : Bytes
  status : StatusCode := .SUCCESS
  output_offset : Nat := 0
  output_size : Nat := 0
  call_id : Nat
  rw_trace : List rw_operation := []
  m_tx : TxContext := {}
  analysis : CodeAnalysis
  call_stack : List Int := []
  /-- By slot, the lowest of which is slot 0; there are `1024` of them. All others can be read and written just as well,
  and are apart from the other fields, while in the source these are what is below slot 0 (`analysis` and `call_stack`
  are slot -1, `call_id` and the pointers of `rw_trace` slot -10). What is said of a run assumes that it keeps to the
  `1024` (`StackReaches`), unless it says otherwise. -/
  stack_space : Int → Word := fun _ => 0

namespace ExecutionState

/-- The constructor of the source, with the analysis that is assigned behind it. `heap` is what the
memory holds when it is allocated. -/
def new (message : Message) (revision : Revision) (code data : Bytes) (call_id : Nat)
    (analysis : CodeAnalysis) (heap : Nat → UInt8) : ExecutionState where
  memory := { m_data := heap }
  msg := message
  rev := revision
  original_code := code
  data := data
  call_id := call_id
  analysis := analysis

def in_static_mode (s : ExecutionState) : Bool := s.msg.is_static

@[simps] def push_rw (s : ExecutionState) (o : rw_operation) : ExecutionState :=
  { s with rw_trace := s.rw_trace ++ [o] }

@[simps] def set_slot (s : ExecutionState) (slot : Int) (v : Word) : ExecutionState :=
  { s with stack_space := fun a => if a = slot then v else s.stack_space a }

@[simps] def set_memory (s : ExecutionState) (memory : Memory) : ExecutionState :=
  { s with memory := memory }

@[simps] def set_status (s : ExecutionState) (status : StatusCode) : ExecutionState :=
  { s with status := status }

@[simps] def set_return_data (s : ExecutionState) (data : Bytes) : ExecutionState :=
  { s with return_data := data }

@[simps] def set_output (s : ExecutionState) (offset size : Nat) : ExecutionState :=
  { s with output_offset := offset, output_size := size }

@[simps] def set_call_stack (s : ExecutionState) (call_stack : List Int) : ExecutionState :=
  { s with call_stack := call_stack }

@[simps] def add_refund (s : ExecutionState) (refund : Int) : ExecutionState :=
  { s with gas_refund := s.gas_refund + refund }

@[simps] def set_tx (s : ExecutionState) (tx : TxContext) : ExecutionState :=
  { s with m_tx := tx }

end ExecutionState

/-- `evmc::account`. -/
structure Account where
  balance : Word := 0
  code : Bytes := []
  storage : Word → Option Word := fun _ => none
  transient_storage : Word → Option Word := fun _ => none

abbrev Accounts : Type := Address → Option Account

/-- What a run leaves behind besides its result. -/
inductive Event where
  | assertion_failed (what : Assertion)
  /-- An instruction touches a slot of the stack. -/
  | stack_access (slot : Int)
  /-- An instruction touches `count` bytes from `index` on of a memory of `size` bytes. -/
  | memory_access (index count size : Nat)
  /-- The code byte at `index` of a buffer of `size` bytes is read. -/
  | code_access (index : Int) (size : Nat)
  /-- A vector of `size` elements is indexed. -/
  | vector_access (index size : Nat)
  /-- An instruction is about to be executed. -/
  | step (op : UInt8) (stack_top gas : Int) (state : ExecutionState)
  /-- An entry on memory is recorded. -/
  | memory_entry (o : rw_operation) (memory : Memory)
  /-- An entry on storage is recorded. -/
  | storage_entry (o : rw_operation)
  /-- A call gives up without using its gas; `operand` is the deepest of its operands. -/
  | light_failure (operand : Word)
  /-- A call instruction hands a message to the host. -/
  | host_call (gas value : Word) (msg : Message)
  /-- Bytes the host has answered with are put into the memory, from `dst` on. -/
  | host_output (memory : Memory) (dst : Nat) (data : Bytes)
  /-- `VMHost` is called back. -/
  | set_storage (accounts : Accounts) (addr : Address) (key value : Word)
  | set_transient_storage (accounts : Accounts) (addr : Address) (key value : Word)
  | call (accounts : Accounts) (msg : Message)
  /-- The accounts of `VMHost`, when a frame starts and when one of its operations is complete. -/
  | accounts (accounts : Accounts)
  /-- A frame hands over its trace. -/
  | handle_rw (rw_trace : List rw_operation)
  /-- An event of the host, and so of every frame it runs. -/
  | nested (e : Event)

/-- An instruction that is about to be executed. -/
structure Step where
  byte : UInt8
  stack_top : Int
  gas : Int
  state : ExecutionState

/-- The step that an event announces, at any depth. -/
def Event.announced : Event → Option Step
  | .step byte stack_top gas s => some ⟨byte, stack_top, gas, s⟩
  | .nested e => announced e
  | _ => none

/-- A computation on the state of one frame. -/
abbrev Local (α : Type) : Type := Action Event ExecutionState α

/-- `assert`, which is compiled out of a release build. -/
def assert_that (what : Assertion) (holds : Prop) [Decidable holds] : Local Unit :=
  if holds then pure () else Action.emit (.assertion_failed what)

/-- `StackTop::size`, for a stack top `stack` slots above the bottom. -/
def stack_size (stack : Int) : Int := if stack > 0 then stack % 2 ^ 16 else 0

/-- `stack[i]`. -/
def stack_get (stack i : Int) : Local Word := do
  Action.emit (.stack_access (stack - 1 - i))
  Action.gets fun s => s.stack_space (stack - 1 - i)

/-- `stack[i] = v`. -/
def stack_set (stack i : Int) (v : Word) : Local Unit := do
  Action.emit (.stack_access (stack - 1 - i))
  Action.modify fun s => s.set_slot (stack - 1 - i) v

/-- The address under which `stack[i]` is recorded. -/
def stack_address (stack i : Int) : Nat := uint16 (stack_size stack - (i + 1))

@[simps!] def ExecutionState.record (s : ExecutionState) (stack i : Int) (is_write : Bool) :
    ExecutionState :=
  s.push_rw (stack_operation s.call_id (stack_address stack i) s.rw_trace.length is_write
    (s.stack_space (stack - 1 - i)))

/-- Records `stack[i]`. -/
def record_stack (stack i : Int) (is_write : Bool) : Local Unit := do
  let s ← Action.get
  assert_that .call_id (s.call_id < 2 ^ 28)
  assert_that .stack_address (stack_address stack i < 1024)
  Action.emit (.stack_access (stack - 1 - i))
  Action.modify fun s => s.record stack i is_write

/-- Records a byte of the memory. -/
def record_memory (address : Word) (is_write : Bool) (value : UInt8) : Local Unit := do
  let s ← Action.get
  assert_that .call_id (s.call_id < 2 ^ 28)
  let o := memory_operation s.call_id address s.rw_trace.length is_write
    (BitVec.ofNat 256 value.toNat)
  Action.emit (.memory_entry o s.memory)
  Action.modify fun s => s.push_rw o

def record_storage (address storage_key : Word) (is_write : Bool) (value value_prev : Word) :
    Local Unit := do
  let s ← Action.get
  let o := storage_operation s.call_id address storage_key s.rw_trace.length is_write value value_prev
  Action.emit (.storage_entry o)
  Action.modify fun s => s.push_rw o

/-- `state.memory[k]`, `count` bytes of it. -/
def memory_load (k count : Nat) : Local Bytes := do
  let s ← Action.get
  Action.emit (.memory_access k count s.memory.m_size)
  return s.memory.load k count

def memory_store (k : Nat) (data : Bytes) : Local Unit := do
  let s ← Action.get
  Action.emit (.memory_access k data.length s.memory.m_size)
  Action.modify fun s => s.set_memory (s.memory.store k data)

/-- Puts bytes the host has answered with into the memory. -/
def host_store (dst : Nat) (data : Bytes) : Local Unit := do
  let s ← Action.get
  Action.emit (.host_output s.memory dst data)
  memory_store dst data

def read_code (pos : Int) : Local UInt8 := do
  let s ← Action.get
  Action.emit (.code_access (s.analysis.offset + pos) s.analysis.buffer.length)
  return s.analysis.code_at pos

def max_buffer_size : Nat := 2 ^ 32 - 1

def word_size : Nat := 32

def num_words (size_in_bytes : Nat) : Nat := (size_in_bytes + (word_size - 1)) % 2 ^ 64 / word_size

def copy_cost (size_in_bytes : Nat) : Int := num_words size_in_bytes * 3

def memory_cost (words : Nat) : Int := 3 * words + words * words / 512

def grow_memory (gas_left : Int) (new_size : Nat) : Local Int := do
  let s ← Action.get
  let new_words := num_words new_size
  let current_words := s.memory.m_size / word_size
  let cost := memory_cost new_words - memory_cost current_words
  if gas_left - cost ≥ 0 then
    assert_that .grow_multiple (new_words * word_size % 32 = 0)
    assert_that .grow_larger (new_words * word_size > s.memory.m_size)
    Action.modify fun s => s.set_memory (s.memory.grow (new_words * word_size))
  return gas_left - cost

/-- `check_memory` with a size in 64 bits. The result goes with the gas that is left. -/
def check_memory_size (gas_left : Int) (offset : Word) (size : Nat) : Local (Bool × Int) := do
  let s ← Action.get
  let offset_uint := offset.to_uint64
  if offset_uint > max_buffer_size then return (false, gas_left)
  let new_size := (offset_uint + size) % 2 ^ 64
  if new_size > s.memory.m_size then
    let gas_left ← grow_memory gas_left new_size
    return (decide (gas_left ≥ 0), gas_left)
  return (decide (gas_left ≥ 0), gas_left)

/-- `check_memory` of the copying instructions. -/
def check_memory (gas_left : Int) (offset size : Word) : Local (Bool × Int) :=
  if size = 0 then return (true, gas_left)
  else if size.to_uint64 > max_buffer_size then return (false, gas_left)
  else check_memory_size gas_left offset size.to_uint64

end EvmAssigner
