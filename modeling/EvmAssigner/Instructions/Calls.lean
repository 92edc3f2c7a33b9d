import EvmAssigner.Instructions.Environment

namespace EvmAssigner
variable {H : Type}

/-- `FORMAT` and `MAGIC`. -/
def is_eof_container (code : Bytes) : Bool :=
  decide (code.length > 1) && code.getD 0 0 == 0xef && code.getD 1 0 == 0x00

/-- The operands of a call instruction. -/
structure CallOperands where
  gas : Word
  dst : Address
  value : Word
  input_offset : Word
  input_size : Word
  output_offset : Word
  output_size : Word

inductive CallOp where
  | CALL | CALLCODE | DELEGATECALL | STATICCALL
  deriving DecidableEq

/-- Whether the instruction has an operand for a value. -/
def CallOp.takes_value (Op : CallOp) : Bool := Op = .CALL || Op = .CALLCODE

def CallOp.num_stack_read (Op : CallOp) : Nat := if Op.takes_value then 7 else 6

def record_operands (n : Nat) (stack : Int) : Local Unit :=
  Action.forEach (fun i : Nat => record_stack stack i false) (List.range n)

def pop_call_operands (Op : CallOp) (stack : Int) : Local CallOperands := do
  let gas ← stack_get stack 0
  let dst ← stack_get stack 1
  let value ← if Op.takes_value then stack_get stack 2 else pure 0
  let below : Int := if Op.takes_value then 3 else 2
  let input_offset ← stack_get stack below
  let input_size ← stack_get stack (below + 1)
  let output_offset ← stack_get stack (below + 2)
  let output_size ← stack_get stack (below + 3)
  return ⟨gas, dst.to_address, value, input_offset, input_size, output_offset, output_size⟩

/-- The message of a call, without its gas. -/
def call_message (Op : CallOp) (o : CallOperands) (input : Bytes) (msg : Message) : Message where
  kind := match Op with
    | .DELEGATECALL => .DELEGATECALL
    | .CALLCODE => .CALLCODE
    | _ => .CALL
  flags := if Op = .STATICCALL then STATIC else msg.flags
  depth := msg.depth + 1
  recipient := if Op = .CALL ∨ Op = .STATICCALL then o.dst else msg.recipient
  code_address := o.dst
  sender := if Op = .DELEGATECALL then msg.sender else msg.recipient
  value := if Op = .DELEGATECALL then msg.value else o.value
  input_data := input

/-- The 9000 for a value, and the 25000 for an account that a `CALL` makes. -/
def call_cost (host : Host H) (Op : CallOp) (has_value : Bool) (rev : Revision) (dst : Address) :
    Instr H Int := do
  let cost : Int := if has_value then 9000 else 0
  if Op = .CALL ∧ (has_value ∨ rev < .SPURIOUS_DRAGON) then
    let exists_ ← on_host (host.account_exists dst)
    return if exists_ then cost else cost + 25000
  return cost

/-- The gas operand as an `int64_t`. -/
def gas_operand (gas : Word) : Int := min (2 ^ 63 - 1) (int64 gas.to_uint64)

/-- The gas of the message before the stipend, `none` when the caller does not have it. -/
def forwarded_gas (rev : Revision) (gas : Word) (gas_left : Int) : Option Int :=
  if rev ≥ .TANGERINE_WHISTLE then some (min (gas_operand gas) (gas_left - gas_left / 64))
  else if gas_operand gas > gas_left then none
  else some (gas_operand gas)

/-- The three ways in which a call fails without using its gas. -/
def light_failure (host : Host H) (Op : CallOp) (o : CallOperands) : Instr H Bool := do
  let s ← Action.get
  if s.state.msg.depth ≥ 1024 then return true
  let poor ← if o.value ≠ 0 then do
      let v ← on_host (host.get_balance s.state.msg.recipient)
      pure (decide (v < o.value))
    else pure false
  if poor then return true
  if Op = .DELEGATECALL ∧ s.state.rev ≥ .PRAGUE ∧ is_eof_container s.state.original_code then
    let target_code_prefix ← on_host (host.copy_code o.dst 0 2)
    return !is_eof_container (List.take 2 target_code_prefix)
  return false

/-- What a call does with the result of the host. -/
def finish_call (o : CallOperands) (msg_gas : Int) (result : Result) (stack gas_left : Int) :
    Local InstructionResult := do
  Action.modify fun s => s.set_return_data result.output_data
  stack_set stack 0 (.of_bool (decide (result.status_code = .SUCCESS)))
  record_stack stack 0 true
  let copy_size := min o.output_size.to_uint64 result.output_data.length
  if copy_size > 0 then
    host_store o.output_offset.to_uint64 (result.output_data.take copy_size)
  Action.modify fun s => s.add_refund result.gas_refund
  return ⟨.SUCCESS, int64 (gas_left - int64 (msg_gas - result.gas_left))⟩

/-- The call proper, once everything is charged. -/
def make_call (host : Host H) (Op : CallOp) (o : CallOperands) (msg : Message) (stack gas_left : Int) :
    Instr H InstructionResult := do
  let failed ← light_failure host Op o
  if failed then
    Action.emit (.light_failure o.output_size)
    return ⟨.SUCCESS, gas_left⟩
  Action.emit (.host_call o.gas o.value msg)
  let result ← on_host (host.call msg)
  finish_call o msg.gas result stack gas_left

def call_impl (host : Host H) (Op : CallOp) (stack gas_left : Int) : Instr H InstructionResult := do
  let s ← Action.get
  record_operands Op.num_stack_read stack
  let o ← pop_call_operands Op stack
  let has_value := decide (o.value ≠ 0)
  let stack := stack - Op.num_stack_read + 1
  stack_set stack 0 0
  on_state (Action.modify fun state => state.set_return_data [])
  let (ok, gas_left) ← charge_access host o.dst additional_cold_account_access_cost gas_left
  if !ok then return ⟨.OUT_OF_GAS, gas_left⟩
  let (ok, gas_left) ← check_memory gas_left o.input_offset o.input_size
  if !ok then return ⟨.OUT_OF_GAS, gas_left⟩
  let (ok, gas_left) ← check_memory gas_left o.output_offset o.output_size
  if !ok then return ⟨.OUT_OF_GAS, gas_left⟩
  let input_size := o.input_size.to_uint64
  let input ← if input_size > 0 then memory_load o.input_offset.to_uint64 input_size else pure []
  if Op = .CALL ∧ has_value ∧ s.state.in_static_mode then
    return ⟨.STATIC_MODE_VIOLATION, gas_left⟩
  let cost ← call_cost host Op has_value s.state.rev o.dst
  let gas_left := gas_left - cost
  if gas_left < 0 then return ⟨.OUT_OF_GAS, gas_left⟩
  match forwarded_gas s.state.rev o.gas gas_left with
  | none => return ⟨.OUT_OF_GAS, gas_left⟩
  | some gas =>
    let stipend : Int := if has_value then 2300 else 0
    let msg := { call_message Op o input s.state.msg with gas := gas + stipend }
    make_call host Op o msg stack (gas_left + stipend)

def call (host : Host H) : Int → Int → Instr H InstructionResult := call_impl host .CALL
def callcode (host : Host H) : Int → Int → Instr H InstructionResult := call_impl host .CALLCODE
def delegatecall (host : Host H) : Int → Int → Instr H InstructionResult :=
  call_impl host .DELEGATECALL
def staticcall (host : Host H) : Int → Int → Instr H InstructionResult := call_impl host .STATICCALL

inductive CreateOp where
  | CREATE | CREATE2
  deriving DecidableEq

def CreateOp.num_stack_read (Op : CreateOp) : Nat := if Op = .CREATE2 then 4 else 3

structure CreateOperands where
  endowment : Word
  init_code_offset : Word
  init_code_size : Word
  salt : Word

def pop_create_operands (Op : CreateOp) (stack : Int) : Local CreateOperands := do
  let endowment ← stack_get stack 0
  let init_code_offset ← stack_get stack 1
  let init_code_size ← stack_get stack 2
  let salt ← if Op = .CREATE2 then stack_get stack 3 else pure 0
  return ⟨endowment, init_code_offset, init_code_size, salt⟩

def create_message (Op : CreateOp) (o : CreateOperands) (input : Bytes) (gas : Int) (msg : Message) :
    Message where
  gas := gas
  kind := if Op = .CREATE then .CREATE else .CREATE2
  input_data := input
  sender := msg.recipient
  depth := msg.depth + 1
  create2_salt := o.salt
  value := o.endowment

def finish_create (msg_gas : Int) (result : Result) (stack gas_left : Int) :
    Local InstructionResult := do
  Action.modify fun s => s.add_refund result.gas_refund
  Action.modify fun s => s.set_return_data result.output_data
  if result.status_code = .SUCCESS then stack_set stack 0 (.of_address result.create_address)
  record_stack stack 0 true
  return ⟨.SUCCESS, int64 (gas_left - int64 (msg_gas - result.gas_left))⟩

/-- Too deep, or the endowment is not there. -/
def create_light_failure (host : Host H) (endowment : Word) : Instr H Bool := do
  let s ← Action.get
  if s.state.msg.depth ≥ 1024 then return true
  if endowment ≠ 0 then
    let v ← on_host (host.get_balance s.state.msg.recipient)
    return decide (v < endowment)
  return false

def create_impl (host : Host H) (Op : CreateOp) (stack gas_left : Int) :
    Instr H InstructionResult := do
  let s ← Action.get
  if s.state.in_static_mode then return ⟨.STATIC_MODE_VIOLATION, gas_left⟩
  record_operands Op.num_stack_read stack
  let o ← pop_create_operands Op stack
  let stack := stack - Op.num_stack_read + 1
  stack_set stack 0 0
  on_state (Action.modify fun state => state.set_return_data [])
  let (ok, gas_left) ← check_memory gas_left o.init_code_offset o.init_code_size
  if !ok then return ⟨.OUT_OF_GAS, gas_left⟩
  let init_code_size := o.init_code_size.to_uint64
  if s.state.rev ≥ .SHANGHAI ∧ init_code_size > 0xC000 then return ⟨.OUT_OF_GAS, gas_left⟩
  let init_code_word_cost : Int :=
    (if Op = .CREATE2 then 6 else 0) + (if s.state.rev ≥ .SHANGHAI then 2 else 0)
  let gas_left := gas_left - num_words init_code_size * init_code_word_cost
  if gas_left < 0 then return ⟨.OUT_OF_GAS, gas_left⟩
  let failed ← create_light_failure host o.endowment
  if failed then
    Action.emit (.light_failure (if Op = .CREATE2 then o.salt else o.init_code_size))
    return ⟨.SUCCESS, gas_left⟩
  let gas := if s.state.rev ≥ .TANGERINE_WHISTLE then gas_left - gas_left / 64 else gas_left
  let input ← if init_code_size > 0 then memory_load o.init_code_offset.to_uint64 init_code_size
    else pure []
  let result ← on_host (host.call (create_message Op o input gas s.state.msg))
  finish_create gas result stack gas_left

def create (host : Host H) : Int → Int → Instr H InstructionResult := create_impl host .CREATE
def create2 (host : Host H) : Int → Int → Instr H InstructionResult := create_impl host .CREATE2

end EvmAssigner
