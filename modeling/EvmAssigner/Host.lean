import EvmAssigner.ExecutionState

namespace EvmAssigner

/-- `evmc_host_interface`, over a host with state `H`. -/
structure Host (H : Type) where
  account_exists : Address → Action Event H Bool
  get_storage : Address → Word → Action Event H Word
  set_storage : Address → Word → Word → Action Event H StorageStatus
  get_balance : Address → Action Event H Word
  get_code_size : Address → Action Event H Nat
  get_code_hash : Address → Action Event H Word
  /-- The bytes put into the buffer. -/
  copy_code : Address → Nat → Nat → Action Event H Bytes
  selfdestruct : Address → Address → Action Event H Bool
  call : Message → Action Event H Result
  get_tx_context : Action Event H TxContext
  get_block_hash : Int → Action Event H Word
  access_account : Address → Action Event H AccessStatus
  access_storage : Address → Word → Action Event H AccessStatus
  get_transient_storage : Address → Word → Action Event H Word
  set_transient_storage : Address → Word → Word → Action Event H Unit

/-- A frame together with the host it runs on. -/
structure Exec (H : Type) where
  state : ExecutionState
  host : H

abbrev Instr (H α : Type) : Type := Action Event (Exec H) α

variable {H α : Type}

def on_state (m : Local α) : Instr H α :=
  Action.zoom id Exec.state (fun state e => { e with state := state }) m

def on_host (m : Action Event H α) : Instr H α :=
  Action.zoom Event.nested Exec.host (fun host e => { e with host := host }) m

instance : MonadLift Local (Instr H) := ⟨on_state⟩

/-- Runs a frame that starts with `state` on the host. -/
def run_frame (m : Instr H α) (state : ExecutionState) : Action Event H (α × ExecutionState) :=
  Action.zoom id (fun host => { state := state, host := host }) (fun e _ => e.host) do
    let a ← m
    let e ← Action.get
    return (a, e.state)

section
variable {P : Action.Contract Event} {exec : Exec H}

@[simp] theorem lift_on_state (m : Local α) : (liftM m : Instr H α) = on_state m := rfl

@[simp] theorem wlp_on_state {m : Local α} {Q : α → Exec H → Prop} :
    Action.wlp P (on_state m) Q exec ↔
      Action.wlp P m (fun a s => Q a { exec with state := s }) exec.state :=
  Action.wlp_zoom

@[simp] theorem wlp_on_host {m : Action Event H α} {Q : α → Exec H → Prop} :
    Action.wlp P (on_host m) Q exec ↔
      Action.wlp (P.comap .nested) m (fun a h => Q a { exec with host := h }) exec.host :=
  Action.wlp_zoom

@[simp] theorem wp_on_state {m : Local α} {Q : α → Exec H → Prop} :
    Action.wp (on_state m) Q exec ↔
      Action.wp m (fun a s => Q a { exec with state := s }) exec.state :=
  Action.wp_zoom

end

/-- `evmone::Result`. -/
structure InstructionResult where
  status : StatusCode
  gas_left : Int

/-- `ExecutionState::get_tx_context`: the host is asked until it gives a timestamp. -/
def get_tx_context (host : Host H) : Instr H TxContext := do
  let s ← Action.get
  if s.state.m_tx.block_timestamp = 0 then
    let tx ← on_host host.get_tx_context
    on_state (Action.modify fun state => state.set_tx tx)
    return tx
  return s.state.m_tx

end EvmAssigner
