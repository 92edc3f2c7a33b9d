import EvmAssigner.Instructions.Arithmetic

namespace EvmAssigner

def address (stack : Int) : Local Unit := do
  let s ← Action.get
  push_word (.of_address s.msg.recipient) stack

def caller (stack : Int) : Local Unit := do
  let s ← Action.get
  push_word (.of_address s.msg.sender) stack

def callvalue (stack : Int) : Local Unit := do
  let s ← Action.get
  push_word s.msg.value stack

/-- The 32 bytes of `input` from `index` on, with zeros behind its end. -/
def calldata_word (input : Bytes) (index : Nat) : Word :=
  let data := (input.drop index).take 32
  .of_bytes (data ++ List.replicate (32 - data.length) 0)

def calldataload (stack : Int) : Local Unit := do
  let s ← Action.get
  unary (fun index =>
    if s.msg.input_data.length < index.to_uint64 then 0
    else calldata_word s.msg.input_data index.to_uint64) stack

def calldatasize (stack : Int) : Local Unit := do
  let s ← Action.get
  push_word (BitVec.ofNat 256 s.msg.input_data.length) stack

def codesize (stack : Int) : Local Unit := do
  let s ← Action.get
  push_word (BitVec.ofNat 256 s.original_code.length) stack

def returndatasize (stack : Int) : Local Unit := do
  let s ← Action.get
  push_word (BitVec.ofNat 256 s.return_data.length) stack

def msize (stack : Int) : Local Unit := do
  let s ← Action.get
  push_word (BitVec.ofNat 256 s.memory.m_size) stack

def datasize (stack : Int) : Local Unit := do
  let s ← Action.get
  push_word (BitVec.ofNat 256 s.data.length) stack

def gas (stack gas_left : Int) : Local InstructionResult := do
  push_word (.of_int gas_left) stack
  return ⟨.SUCCESS, gas_left⟩

def push0 : Int → Local Unit := push_word 0

/-- How many bytes `load_partial_data` reads, of which it takes `len`. -/
def bytes_read (len : Nat) : Nat := if len = 3 then 4 else if 4 < len then 8 else len

/-- `r.load_partial_data(data, len, i)` on bytes of the code. -/
def load_partial_data (r : Word) (data : Int) (len i : Nat) : Local Word := do
  let s ← Action.get
  Action.forEach (fun k : Nat => Action.emit
    (.code_access (s.analysis.offset + (data + k)) s.analysis.buffer.length)) (List.range (bytes_read len))
  return r.load_partial_data (fun k => s.analysis.code_at (data + k)) len i

def load_full_words (r : Word) (data : Int) : Nat → Local Word
  | 0 => pure r
  | n + 1 => do
    let r ← load_partial_data r data 8 n
    load_full_words r (data + 8) n

/-- `push<Len>`. -/
def push (Len : Nat) (stack pos : Int) : Local (Option Int) := do
  let num_full_words := Len / 8
  let num_partial_bytes := Len % 8
  let data := pos + 1
  let r ← if num_partial_bytes ≠ 0 then load_partial_data 0 data num_partial_bytes num_full_words
    else pure 0
  let r ← load_full_words r (data + num_partial_bytes) num_full_words
  stack_set (stack + 1) 0 r
  let num_words := Len / 32 + Len % 32
  Action.forEach (fun i : Nat => record_stack (stack + 1) i true) (List.range num_words)
  return some (pos + (Len + 1))

/-- The body of `dup<N>` and `dupn`. -/
def dup_slot (n : Int) (stack : Int) : Local Unit := do
  record_stack stack (n - 1) false
  let v ← stack_get stack (n - 1)
  push_word v stack

/-- `dup<N>`, for `N` from 1 on. -/
def dup (N : Nat) : Int → Local Unit := dup_slot N

/-- `dup<0>`: the depth is the top item, which is not compared with the height. -/
def dup_top (stack : Int) : Local Unit := do
  record_stack stack 0 false
  let index ← stack_get stack 0
  let addr := int32 index.to_uint64
  assert_that .dup_operand (addr < 2 ^ 31 - 1)
  dup_slot addr (stack - 1)

/-- The second write is recorded for the slot above the one that was written. -/
def swap_slots (addr : Nat) (stack : Int) : Local Unit := do
  record_stack stack addr false
  record_stack stack 0 false
  let t ← stack_get stack 0
  let a ← stack_get stack addr
  stack_set stack 0 a
  stack_set stack addr t
  record_stack stack 0 true
  record_stack stack (addr - 1) true

/-- `swap<N>`, for `N` from 1 on. -/
def swap (N : Nat) : Int → Local Unit := swap_slots N

/-- `swap<0>`: the depth is the top item, which is not compared with the height. With a greater depth a slot below 0 is
exchanged, in the source with the fields of the state that are there. -/
def swap_top (stack : Int) : Local Unit := do
  record_stack stack 0 false
  let index ← stack_get stack 0
  assert_that .swap_operand (index < 2 ^ 31 - 1)
  swap_slots (uint16 index.to_uint64) (stack - 1)

def fail_with (status : StatusCode) : Local (Option Int) := do
  Action.modify fun s => s.set_status status
  return none

def dupn (stack pos : Int) : Local (Option Int) := do
  let imm ← read_code (pos + 1)
  let n : Int := imm.toNat + 1
  if stack % 2 ^ 16 < n then fail_with .STACK_UNDERFLOW
  else
    dup_slot n stack
    return some (pos + 2)

def swapn (stack pos : Int) : Local (Option Int) := do
  let imm ← read_code (pos + 1)
  let n : Int := imm.toNat + 1
  if stack ≤ n then fail_with .STACK_UNDERFLOW
  else
    record_stack stack n false
    record_stack stack 0 false
    let t ← stack_get stack 0
    let a ← stack_get stack n
    stack_set stack 0 a
    stack_set stack n t
    record_stack stack 0 true
    record_stack stack n true
    return some (pos + 2)

def pc (stack pos : Int) : Local (Option Int) := do
  push_word (.of_int pos) stack
  return some (pos + 1)

def read_uint16_be (pos : Int) : Local Nat := do
  let h ← read_code pos
  let l ← read_code (pos + 1)
  return h.toNat * 256 + l.toNat

def read_int16_be (pos : Int) : Local Int := do
  let v ← read_uint16_be pos
  return Int.bmod v (2 ^ 16)

def dataloadn (stack pos : Int) : Local (Option Int) := do
  let s ← Action.get
  let index ← read_uint16_be (pos + 1)
  Action.emit (.vector_access (index + 31) s.data.length)
  push_word (.of_bytes ((List.range 32).map fun j => s.data.getD (index + j) 0)) stack
  return some (pos + 3)

end EvmAssigner
