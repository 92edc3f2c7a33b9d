import EvmAssigner.Instructions.Environment

namespace EvmAssigner
variable {H : Type}

/-- `StorageCostSpec`. -/
structure StorageCostSpec where
  net_cost : Bool
  warm_access : Int
  set : Int
  reset : Int
  clear : Int

def storage_cost_spec : Revision → StorageCostSpec
  | .CONSTANTINOPLE => ⟨true, 200, 20000, 5000, 15000⟩
  | .ISTANBUL => ⟨true, 800, 20000, 5000, 15000⟩
  | .BERLIN => ⟨true, warm_storage_read_cost, 20000, 5000 - cold_sload_cost, 15000⟩
  | .LONDON | .PARIS | .SHANGHAI | .CANCUN | .PRAGUE =>
    ⟨true, warm_storage_read_cost, 20000, 5000 - cold_sload_cost, 4800⟩
  | _ => ⟨false, 200, 20000, 5000, 15000⟩

/-- `sstore_costs[rev][status]`: cost and refund. -/
def sstore_costs (rev : Revision) (status : StorageStatus) : Int × Int :=
  let c := storage_cost_spec rev
  if c.net_cost then
    match status with
    | .ASSIGNED => (c.warm_access, 0)
    | .ADDED => (c.set, 0)
    | .DELETED => (c.reset, c.clear)
    | .MODIFIED => (c.reset, 0)
    | .DELETED_ADDED => (c.warm_access, -c.clear)
    | .MODIFIED_DELETED => (c.warm_access, c.clear)
    | .DELETED_RESTORED => (c.warm_access, c.reset - c.warm_access - c.clear)
    | .ADDED_DELETED => (c.warm_access, c.set - c.warm_access)
    | .MODIFIED_RESTORED => (c.warm_access, c.reset - c.warm_access)
  else
    match status with
    | .ADDED | .DELETED_ADDED | .DELETED_RESTORED => (c.set, 0)
    | .DELETED | .MODIFIED_DELETED | .ADDED_DELETED => (c.reset, c.clear)
    | .MODIFIED | .ASSIGNED | .MODIFIED_RESTORED => (c.reset, 0)

/-- Whether the slot has not been accessed before, which only later revisions ask. -/
def storage_is_cold (host : Host H) (rev : Revision) (addr : Address) (key : Word) :
    Instr H Bool := do
  if rev ≥ .BERLIN then
    let status ← on_host (host.access_storage addr key)
    return decide (status = .COLD)
  return false

def sload (host : Host H) (stack gas_left : Int) : Instr H InstructionResult := do
  let s ← Action.get
  let recipient := s.state.msg.recipient
  record_stack stack 0 false
  let key ← stack_get stack 0
  let cold ← storage_is_cold host s.state.rev recipient key
  let gas_left := if cold then gas_left - (cold_sload_cost - warm_storage_read_cost) else gas_left
  if cold ∧ gas_left < 0 then return ⟨.OUT_OF_GAS, gas_left⟩
  let value ← on_host (host.get_storage recipient key)
  record_storage (.of_address recipient) key false value value
  stack_set stack 0 value
  record_stack stack 0 true
  return ⟨.SUCCESS, gas_left⟩

def sstore (host : Host H) (stack gas_left : Int) : Instr H InstructionResult := do
  let s ← Action.get
  let recipient := s.state.msg.recipient
  if s.state.in_static_mode then return ⟨.STATIC_MODE_VIOLATION, gas_left⟩
  if s.state.rev ≥ .ISTANBUL ∧ gas_left ≤ 2300 then return ⟨.OUT_OF_GAS, gas_left⟩
  record_stack stack 1 false
  record_stack stack 0 false
  let key ← stack_get stack 0
  let value ← stack_get (stack - 1) 0
  let cold ← storage_is_cold host s.state.rev recipient key
  let gas_cost_cold : Int := if cold then cold_sload_cost else 0
  let value_prev ← on_host (host.get_storage recipient key)
  record_storage (.of_address recipient) key true value value_prev
  let status ← on_host (host.set_storage recipient key value)
  let (gas_cost_warm, gas_refund) := sstore_costs s.state.rev status
  let gas_left := gas_left - (gas_cost_warm + gas_cost_cold)
  if gas_left < 0 then return ⟨.OUT_OF_GAS, gas_left⟩
  on_state (Action.modify fun state => state.add_refund gas_refund)
  return ⟨.SUCCESS, gas_left⟩

def tload (host : Host H) (stack : Int) : Instr H Unit := do
  let s ← Action.get
  record_stack stack 0 false
  let key ← stack_get stack 0
  let value ← on_host (host.get_transient_storage s.state.msg.recipient key)
  stack_set stack 0 value
  record_stack stack 0 true

def tstore (host : Host H) (stack gas_left : Int) : Instr H InstructionResult := do
  let s ← Action.get
  if s.state.in_static_mode then return ⟨.STATIC_MODE_VIOLATION, 0⟩
  record_stack stack 1 false
  record_stack stack 0 false
  let key ← stack_get stack 0
  let value ← stack_get (stack - 1) 0
  on_host (host.set_transient_storage s.state.msg.recipient key value)
  return ⟨.SUCCESS, gas_left⟩

end EvmAssigner
