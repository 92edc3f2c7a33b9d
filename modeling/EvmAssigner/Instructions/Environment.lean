import EvmAssigner.Instructions.Arithmetic

namespace EvmAssigner
variable {H : Type}

/-- The part of `gas_left` charged for an account not accessed before, `none` when it is missing. -/
def charge_access (host : Host H) (addr : Address) (cost gas_left : Int) : Instr H (Bool × Int) := do
  let s ← Action.get
  if s.state.rev ≥ .BERLIN then
    let status ← on_host (host.access_account addr)
    if status = .COLD then return (decide (gas_left - cost ≥ 0), gas_left - cost)
    return (true, gas_left)
  return (true, gas_left)

/-- Replaces the address on the stack top by what `query` says about it. -/
def query_account (host : Host H) (query : Address → Instr H Word) (stack gas_left : Int) :
    Instr H InstructionResult := do
  record_stack stack 0 false
  let x ← stack_get stack 0
  let addr := x.to_address
  let (ok, gas_left) ← charge_access host addr additional_cold_account_access_cost gas_left
  if !ok then return ⟨.OUT_OF_GAS, gas_left⟩
  let v ← query addr
  stack_set stack 0 v
  record_stack stack 0 true
  return ⟨.SUCCESS, gas_left⟩

def balance (host : Host H) : Int → Int → Instr H InstructionResult :=
  query_account host fun addr => on_host (host.get_balance addr)

def extcodesize (host : Host H) : Int → Int → Instr H InstructionResult :=
  query_account host fun addr => do
    let size ← on_host (host.get_code_size addr)
    return BitVec.ofNat 256 size

def extcodehash (host : Host H) : Int → Int → Instr H InstructionResult :=
  query_account host fun addr => on_host (host.get_code_hash addr)

def extcodecopy (host : Host H) (stack gas_left : Int) : Instr H InstructionResult := do
  record_stack stack 3 false
  record_stack stack 2 false
  record_stack stack 1 false
  record_stack stack 0 false
  let x ← stack_get stack 0
  let addr := x.to_address
  let mem_index ← stack_get (stack - 1) 0
  let input_index ← stack_get (stack - 2) 0
  let size ← stack_get (stack - 3) 0
  let (ok, gas_left) ← check_memory gas_left mem_index size
  if !ok then return ⟨.OUT_OF_GAS, gas_left⟩
  let s := size.to_uint64
  let gas_left := gas_left - copy_cost s
  if gas_left < 0 then return ⟨.OUT_OF_GAS, gas_left⟩
  let (ok, gas_left) ← charge_access host addr additional_cold_account_access_cost gas_left
  if !ok then return ⟨.OUT_OF_GAS, gas_left⟩
  if s > 0 then
    let src := min max_buffer_size input_index.to_uint64
    let dst := mem_index.to_uint64
    let code ← on_host (host.copy_code addr src s)
    host_store dst (code.take s)
    let num_bytes_to_clear := s - (code.take s).length
    if num_bytes_to_clear > 0 then
      host_store (dst + (code.take s).length) (List.replicate num_bytes_to_clear 0)
  return ⟨.SUCCESS, gas_left⟩

/-- Pushes a field of the transaction context. -/
def push_tx (host : Host H) (field : TxContext → Word) (stack : Int) : Instr H Unit := do
  let tx ← get_tx_context host
  push_word (field tx) stack

def origin (host : Host H) : Int → Instr H Unit := push_tx host fun tx => .of_address tx.tx_origin
def gasprice (host : Host H) : Int → Instr H Unit := push_tx host (·.tx_gas_price)
def basefee (host : Host H) : Int → Instr H Unit := push_tx host (·.block_base_fee)
def blobbasefee (host : Host H) : Int → Instr H Unit := push_tx host (·.blob_base_fee)
def coinbase (host : Host H) : Int → Instr H Unit :=
  push_tx host fun tx => .of_address tx.block_coinbase
def timestamp (host : Host H) : Int → Instr H Unit :=
  push_tx host fun tx => BitVec.ofNat 256 (tx.block_timestamp % 2 ^ 64).toNat
def number (host : Host H) : Int → Instr H Unit :=
  push_tx host fun tx => BitVec.ofNat 256 (tx.block_number % 2 ^ 64).toNat
def prevrandao (host : Host H) : Int → Instr H Unit := push_tx host (·.block_prev_randao)
def gaslimit (host : Host H) : Int → Instr H Unit :=
  push_tx host fun tx => BitVec.ofNat 256 (tx.block_gas_limit % 2 ^ 64).toNat
def chainid (host : Host H) : Int → Instr H Unit := push_tx host (·.chain_id)

def blobhash (host : Host H) (stack : Int) : Instr H Unit := do
  record_stack stack 0 false
  let index ← stack_get stack 0
  let tx ← get_tx_context host
  stack_set stack 0 (if index.to_uint64 < tx.blob_hashes.length then
    tx.blob_hashes.getD index.to_uint64 0 else 0)
  record_stack stack 0 true

def blockhash (host : Host H) (stack : Int) : Instr H Unit := do
  record_stack stack 0 false
  let number ← stack_get stack 0
  let tx ← get_tx_context host
  let upper_bound := tx.block_number
  let lower_bound := max (upper_bound - 256) 0
  -- the conversion to `int64_t`
  let n := int64 number.to_uint64
  let header ← if n < upper_bound ∧ n ≥ lower_bound then on_host (host.get_block_hash n) else pure 0
  stack_set stack 0 header
  record_stack stack 0 true

def selfbalance (host : Host H) (stack : Int) : Instr H Unit := do
  let s ← Action.get
  let v ← on_host (host.get_balance s.state.msg.recipient)
  push_word v stack

/-- The 25000 for a beneficiary that does not exist yet, with the gas that is left. -/
def charge_beneficiary (host : Host H) (beneficiary : Address) (gas_left : Int) :
    Instr H (Bool × Int) := do
  let s ← Action.get
  let asks ← if s.state.rev = .TANGERINE_WHISTLE then pure true
    else if s.state.rev > .TANGERINE_WHISTLE then do
      let v ← on_host (host.get_balance s.state.msg.recipient)
      pure (decide (v ≠ 0))
    else pure false
  let exists_ ← if asks then on_host (host.account_exists beneficiary) else pure true
  if exists_ then return (true, gas_left)
  return (decide (gas_left - 25000 ≥ 0), gas_left - 25000)

def selfdestruct (host : Host H) (stack gas_left : Int) : Instr H InstructionResult := do
  let s ← Action.get
  if s.state.in_static_mode then return ⟨.STATIC_MODE_VIOLATION, gas_left⟩
  record_stack stack 0 false
  let x ← stack_get stack 0
  let beneficiary := x.to_address
  let (ok, gas_left) ← charge_access host beneficiary cold_account_access_cost gas_left
  if !ok then return ⟨.OUT_OF_GAS, gas_left⟩
  let (ok, gas_left) ← charge_beneficiary host beneficiary gas_left
  if !ok then return ⟨.OUT_OF_GAS, gas_left⟩
  let destroyed ← on_host (host.selfdestruct s.state.msg.recipient beneficiary)
  if destroyed ∧ s.state.rev < .LONDON then
    on_state (Action.modify fun state => state.add_refund 24000)
  return ⟨.SUCCESS, gas_left⟩

end EvmAssigner
