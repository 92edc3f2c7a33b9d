import EvmAssigner.Host

namespace EvmAssigner

/-- Records a block of bytes, the `j`th of them at `address j`. -/
def record_bytes (address : Nat → Word) (is_write : Bool) (data : Bytes) : Local Unit :=
  Action.forEach (fun j => record_memory (address j) is_write (data.getD j 0))
    (List.range data.length)

/-- The address of a byte, recorded as a sum of words. -/
theorem sum_address {x : Word} {j : Nat} (near : x.to_uint64 < 2 ^ 32) (small : j < 2 ^ 32) :
    (x.toNat < 2 ^ 64 → (x + BitVec.ofNat 256 j).toNat = x.to_uint64 + j) ∧
      (2 ^ 64 ≤ x.toNat → 2 ^ 64 ≤ (x + BitVec.ofNat 256 j).toNat) := by
  have wide := x.isLt
  rw [Word.to_uint64_eq] at near ⊢
  rw [BitVec.toNat_add, BitVec.toNat_ofNat, Nat.mod_eq_of_lt (show j < 2 ^ 256 by omega),
    Nat.mod_eq_of_lt (by omega)]
  exact ⟨fun _ => by omega, fun _ => by omega⟩

theorem word_address {k : Nat} (small : k < 2 ^ 64) : (BitVec.ofNat 256 k).toNat = k := by
  rw [BitVec.toNat_ofNat, Nat.mod_eq_of_lt (by omega)]

def keccak256 [Ethash] (stack gas_left : Int) : Local InstructionResult := do
  record_stack stack 1 false
  record_stack stack 0 false
  let index ← stack_get stack 0
  let size ← stack_get (stack - 1) 0
  let (ok, gas_left) ← check_memory gas_left index size
  if !ok then return ⟨.OUT_OF_GAS, gas_left⟩
  let i := index.to_uint64
  let s := size.to_uint64
  let gas_left := gas_left - num_words s * 6
  if gas_left < 0 then return ⟨.OUT_OF_GAS, gas_left⟩
  -- one word is recorded, however long the input
  if s ≠ 0 then
    let data ← memory_load i 32
    record_bytes (fun j => index + BitVec.ofNat 256 j) false data
  let input ← if s ≠ 0 then memory_load i s else pure []
  stack_set (stack - 1) 0 (Ethash.keccak256 input)
  record_stack (stack - 1) 0 true
  return ⟨.SUCCESS, gas_left⟩

/-- Part of `source` from `src` on is copied to the memory, and zeros behind its end. -/
def copy_padded (source : Bytes) (dst src s : Nat) : Local Nat := do
  let copy_size := min s (source.length - src)
  if copy_size > 0 then memory_store dst ((source.drop src).take copy_size)
  if s - copy_size > 0 then memory_store (dst + copy_size) (List.replicate (s - copy_size) 0)
  return copy_size

/-- The body of `calldatacopy` and `codecopy`. -/
def copy_to_memory (source : Bytes) (stack gas_left : Int) : Local InstructionResult := do
  record_stack stack 2 false
  record_stack stack 1 false
  record_stack stack 0 false
  let mem_index ← stack_get stack 0
  let input_index ← stack_get (stack - 1) 0
  let size ← stack_get (stack - 2) 0
  let (ok, gas_left) ← check_memory gas_left mem_index size
  if !ok then return ⟨.OUT_OF_GAS, gas_left⟩
  let dst := mem_index.to_uint64
  let src := min source.length input_index.to_uint64
  let s := size.to_uint64
  let gas_left := gas_left - copy_cost s
  if gas_left < 0 then return ⟨.OUT_OF_GAS, gas_left⟩
  let copy_size ← copy_padded source dst src s
  -- the zeros are not recorded
  let data ← memory_load dst copy_size
  record_bytes (fun j => mem_index + BitVec.ofNat 256 j) true data
  return ⟨.SUCCESS, gas_left⟩

def calldatacopy (stack gas_left : Int) : Local InstructionResult := do
  let s ← Action.get
  copy_to_memory s.msg.input_data stack gas_left

def codecopy (stack gas_left : Int) : Local InstructionResult := do
  let s ← Action.get
  copy_to_memory s.original_code stack gas_left

def returndatacopy (stack gas_left : Int) : Local InstructionResult := do
  let state ← Action.get
  record_stack stack 2 false
  record_stack stack 1 false
  record_stack stack 0 false
  let mem_index ← stack_get stack 0
  let input_index ← stack_get (stack - 1) 0
  let size ← stack_get (stack - 2) 0
  let (ok, gas_left) ← check_memory gas_left mem_index size
  if !ok then return ⟨.OUT_OF_GAS, gas_left⟩
  let dst := mem_index.to_uint64
  let s := size.to_uint64
  let src := input_index.to_uint64
  if state.return_data.length < src then return ⟨.INVALID_MEMORY_ACCESS, gas_left⟩
  if (src + s) % 2 ^ 64 > state.return_data.length then
    return ⟨.INVALID_MEMORY_ACCESS, gas_left⟩
  let gas_left := gas_left - copy_cost s
  if gas_left < 0 then return ⟨.OUT_OF_GAS, gas_left⟩
  if s > 0 then
    memory_store dst ((state.return_data.drop src).take s)
    let data ← memory_load dst s
    record_bytes (fun j => BitVec.ofNat 256 (dst + j)) true data
  return ⟨.SUCCESS, gas_left⟩

/-- `mload<T>`, the same for every `T`. -/
def mload (stack gas_left : Int) : Local InstructionResult := do
  record_stack stack 0 false
  let index ← stack_get stack 0
  let (ok, gas_left) ← check_memory_size gas_left index 32
  if !ok then return ⟨.OUT_OF_GAS, gas_left⟩
  let addr := index.to_uint64
  let data ← memory_load addr 32
  stack_set stack 0 (Word.of_bytes data)
  record_bytes (fun j => BitVec.ofNat 256 (addr + j)) false data
  record_stack stack 0 true
  return ⟨.SUCCESS, gas_left⟩

/-- `mstore<T>` for a `T` of `width` bytes. -/
def mstore (width : Nat) (stack gas_left : Int) : Local InstructionResult := do
  record_stack stack 1 false
  record_stack stack 0 false
  let index ← stack_get stack 0
  let value ← stack_get (stack - 1) 0
  let (ok, gas_left) ← check_memory_size gas_left index 32
  if !ok then return ⟨.OUT_OF_GAS, gas_left⟩
  let addr := index.to_uint64
  memory_store addr (value.store width)
  let data ← memory_load addr 32
  record_bytes (fun j => BitVec.ofNat 256 (addr + j)) true data
  return ⟨.SUCCESS, gas_left⟩

def mcopy (stack gas_left : Int) : Local InstructionResult := do
  record_stack stack 2 false
  record_stack stack 1 false
  record_stack stack 0 false
  let dst_u256 ← stack_get stack 0
  let src_u256 ← stack_get (stack - 1) 0
  let size_u256 ← stack_get (stack - 2) 0
  let (ok, gas_left) ← check_memory gas_left (if dst_u256 < src_u256 then src_u256 else dst_u256) size_u256
  if !ok then return ⟨.OUT_OF_GAS, gas_left⟩
  let size := size_u256.to_uint64
  let gas_left := gas_left - copy_cost size
  if gas_left < 0 then return ⟨.OUT_OF_GAS, gas_left⟩
  if size > 0 then
    let data ← memory_load src_u256.to_uint64 size
    memory_store dst_u256.to_uint64 data
  return ⟨.SUCCESS, gas_left⟩

def dataload (stack : Int) : Local Unit := do
  let s ← Action.get
  record_stack stack 0 false
  let index ← stack_get stack 0
  if s.data.length < index.to_uint64 then stack_set stack 0 0
  else
    let begin := index.to_uint64
    stack_set stack 0 (Word.of_bytes ((s.data.drop begin).take 32))
    record_stack stack 0 true

/-- Of the zeros behind the data as many are recorded, but from `dst` on. -/
def datacopy (stack gas_left : Int) : Local InstructionResult := do
  let state ← Action.get
  record_stack stack 2 false
  record_stack stack 1 false
  record_stack stack 0 false
  let mem_index ← stack_get stack 0
  let data_index ← stack_get (stack - 1) 0
  let size ← stack_get (stack - 2) 0
  let (ok, gas_left) ← check_memory gas_left mem_index size
  if !ok then return ⟨.OUT_OF_GAS, gas_left⟩
  let dst := mem_index.to_uint64
  let src := min state.data.length data_index.to_uint64
  let s := size.to_uint64
  let copy_size := min s (state.data.length - src)
  let gas_left := gas_left - copy_cost s
  if gas_left < 0 then return ⟨.OUT_OF_GAS, gas_left⟩
  if copy_size > 0 then
    memory_store dst ((state.data.drop src).take copy_size)
    let data ← memory_load dst copy_size
    record_bytes (fun j => BitVec.ofNat 256 (dst + j)) true data
  if s - copy_size > 0 then
    memory_store (dst + copy_size) (List.replicate (s - copy_size) 0)
    record_bytes (fun j => BitVec.ofNat 256 (dst + j)) true (List.replicate (s - copy_size) 0)
  return ⟨.SUCCESS, gas_left⟩

end EvmAssigner
