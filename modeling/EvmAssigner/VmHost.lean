import EvmAssigner.Bytecode
import EvmAssigner.Baseline
import EvmAssigner.Eof

namespace EvmAssigner

/-- `account::code_hash`. -/
def Account.code_hash (acc : Account) : Word :=
  acc.code.foldl (fun ret v => ret ^^^ BitVec.ofNat 256 v.toNat <<< (8 * (31 - v.toNat % 32))) 0

namespace Accounts

/-- `accounts[addr]`, which makes the account if there is none. -/
def ensure (accounts : Accounts) (addr : Address) : Accounts :=
  match accounts addr with
  | none => Function.update accounts addr (some {})
  | some _ => accounts

/-- Changes the account at `addr`, if there is one. -/
def adjust (accounts : Accounts) (addr : Address) (f : Account → Account) : Accounts :=
  match accounts addr with
  | none => accounts
  | some acc => Function.update accounts addr (some (f acc))

def get_storage (accounts : Accounts) (addr : Address) (key : Word) : Word :=
  match accounts addr with
  | none => 0
  | some acc => (acc.storage key).getD 0

def set_storage (accounts : Accounts) (addr : Address) (key value : Word) : Accounts × StorageStatus :=
  match accounts addr with
  | none => (accounts, .DELETED)
  | some acc =>
    match acc.storage key with
    | none => (accounts, .DELETED)
    | some prev_value =>
      (Function.update accounts addr
        (some { acc with storage := Function.update acc.storage key (some value) }),
        if prev_value = value then .ASSIGNED else .MODIFIED)

def get_balance (accounts : Accounts) (addr : Address) : Word :=
  match accounts addr with
  | none => 0
  | some acc => acc.balance

def get_code (accounts : Accounts) (addr : Address) : Bytes :=
  match accounts addr with
  | none => []
  | some acc => acc.code

def get_transient_storage (accounts : Accounts) (addr : Address) (key : Word) : Word :=
  match accounts addr with
  | none => 0
  | some acc => (acc.transient_storage key).getD 0

def set_transient_storage (accounts : Accounts) (addr : Address) (key value : Word) : Accounts :=
  accounts.adjust addr fun acc =>
    { acc with transient_storage := Function.update acc.transient_storage key (some value) }

/-- The two assignments of `handle_call`; `sender` and `addr` may be the same account. -/
def transfer (accounts : Accounts) (sender addr : Address) (value : Word) : Accounts :=
  (accounts.adjust sender fun acc => { acc with balance := acc.balance - value }).adjust addr
    fun acc => { acc with balance := value + acc.balance }

def set_code (accounts : Accounts) (addr : Address) (code : Bytes) : Accounts :=
  (accounts.ensure addr).adjust addr fun acc => { acc with code := code }

end Accounts

abbrev ALL : Nat := 0xFF
abbrev BYTECODE : Nat := 0x1
abbrev RW : Nat := 0x2

def zkevm_circuits_map : List (String × Nat) := [("", ALL), ("bytecode", BYTECODE), ("rw", RW)]

/-- `VMHost` and the `assigner` it shares with all frames. -/
structure World (F : Type) [Zero F] where
  accounts : Accounts
  tx_context : TxContext := {}
  target_circuit : String := ""
  /-- The tables in `m_assignments`. -/
  bytecode_table : Option (Assignment F) := none
  rw_table : Option (Assignment F) := none
  /-- What the memory of the frames holds when it is allocated, one after the other. -/
  heaps : Nat → Nat → UInt8 := fun _ _ => 0

section
variable {F : Type} [Zero F]

def World.set_accounts (w : World F) (accounts : Accounts) : World F := { w with accounts := accounts }

@[simp] theorem World.set_accounts_accounts (w : World F) (accounts : Accounts) :
    (w.set_accounts accounts).accounts = accounts := rfl

namespace VMHost

/-- An operation that only looks at the host. -/
def ask {α : Type} (f : World F → α) : Action Event (World F) α := Action.gets f

/-- The accounts after an operation are put down. -/
def observed {α : Type} (m : Action Event (World F) α) : Action Event (World F) α := do
  let a ← m
  let w ← Action.get
  Action.emit (.accounts w.accounts)
  return a

def account_exists (addr : Address) : Action Event (World F) Bool :=
  ask fun w => (w.accounts addr).isSome

def get_storage (addr : Address) (key : Word) : Action Event (World F) Word :=
  ask fun w => w.accounts.get_storage addr key

def set_storage (addr : Address) (key value : Word) : Action Event (World F) StorageStatus :=
  observed do
    let w ← Action.get
    Action.emit (.set_storage w.accounts addr key value)
    let (accounts, status) := w.accounts.set_storage addr key value
    Action.modify fun w => w.set_accounts accounts
    return status

def get_balance (addr : Address) : Action Event (World F) Word :=
  ask fun w => w.accounts.get_balance addr

def get_code_size (addr : Address) : Action Event (World F) Nat :=
  ask fun w => (w.accounts.get_code addr).length

def get_code_hash (addr : Address) : Action Event (World F) Word :=
  ask fun w => match w.accounts addr with
    | none => 0
    | some acc => acc.code_hash

def copy_code (addr : Address) (code_offset buffer_size : Nat) : Action Event (World F) Bytes :=
  ask fun w => ((w.accounts.get_code addr).drop code_offset).take buffer_size

def selfdestruct (_addr _beneficiary : Address) : Action Event (World F) Bool := pure false

def get_tx_context : Action Event (World F) TxContext := ask fun w => w.tx_context

def get_block_hash (number : Int) : Action Event (World F) Word :=
  ask fun w =>
    let current_block_number := w.tx_context.block_number
    if number < current_block_number ∧ number ≥ current_block_number - 256 then
      0xb10c8a5fb10c8a5fb10c8a5fb10c8a5fb10c8a5fb10c8a5fb10c8a5fb10c8a5f
    else 0

def access_account (_addr : Address) : Action Event (World F) AccessStatus := pure .COLD

def access_storage (_addr : Address) (_key : Word) : Action Event (World F) AccessStatus := pure .COLD

def get_transient_storage (addr : Address) (key : Word) : Action Event (World F) Word :=
  ask fun w => w.accounts.get_transient_storage addr key

def set_transient_storage (addr : Address) (key value : Word) : Action Event (World F) Unit :=
  observed do
    let w ← Action.get
    Action.emit (.set_transient_storage w.accounts addr key value)
    Action.modify fun w => w.set_accounts (w.accounts.set_transient_storage addr key value)

end VMHost

/-- What `calculate_address` feeds to the last hash: the limbs of a sum, as they lie in memory. -/
def address_seed [Ethash] (msg : Message) : Bytes :=
  let seed := msg.create2_salt
  let hash := Ethash.keccak256 msg.input_data
  let sender := Word.of_address msg.sender
  let sum : Word := 0xff + seed + hash + sender
  (be_store 32 sum.toNat).reverse

def calculate_address [Ethash] (msg : Message) : Address :=
  (Ethash.keccak256 (address_seed msg)).setWidth 160

/-- `evaluate`, for a revision, a message and a code. -/
abbrev Evaluate (F : Type) [Zero F] : Type :=
  Revision → Message → Bytes → Action Event (World F) Result

namespace VMHost
variable (evaluate : Evaluate F)

def handle_call (msg : Message) : Action Event (World F) Result := do
  let w ← Action.get
  if (w.accounts msg.sender).isNone then return { status_code := .INTERNAL_ERROR }
  let accounts := w.accounts.ensure msg.code_address
  let accounts := if msg.kind = .CALL then accounts.transfer msg.sender msg.code_address msg.value
    else accounts
  Action.modify fun w => w.set_accounts accounts
  if accounts.get_code msg.code_address = [] then
    return { status_code := .SUCCESS, gas_left := msg.gas, output_data := msg.input_data }
  evaluate .LATEST_STABLE msg (accounts.get_code msg.code_address)

def handle_create [Ethash] (msg : Message) : Action Event (World F) Result := do
  let new_contract_address := calculate_address msg
  let w ← Action.get
  if (w.accounts new_contract_address).isSome then return { status_code := .FAILURE }
  Action.modify fun w => w.set_accounts (w.accounts.ensure new_contract_address)
  if msg.input_data = [] then
    return { status_code := .SUCCESS, gas_left := msg.gas, create_address := new_contract_address }
  let init_msg := { msg with kind := .CALL, recipient := new_contract_address, input_data := [] }
  let res ← evaluate .LATEST_STABLE init_msg msg.input_data
  if res.status_code = .SUCCESS then
    Action.modify fun w => w.set_accounts (w.accounts.set_code new_contract_address res.output_data)
  return { res with create_address := new_contract_address }

def call [Ethash] (msg : Message) : Action Event (World F) Result :=
  observed do
    let w ← Action.get
    Action.emit (.call w.accounts msg)
    match msg.kind with
    | .CALL | .CALLCODE | .DELEGATECALL => handle_call evaluate msg
    | .CREATE | .CREATE2 => handle_create evaluate msg
    | .other => return { status_code := .INTERNAL_ERROR }

end VMHost

/-- `VMHost`, as the host interface of the frames it runs. -/
def vm_host [Ethash] (evaluate : Evaluate F) : Host (World F) where
  account_exists := VMHost.account_exists
  get_storage := VMHost.get_storage
  set_storage := VMHost.set_storage
  get_balance := VMHost.get_balance
  get_code_size := VMHost.get_code_size
  get_code_hash := VMHost.get_code_hash
  copy_code := VMHost.copy_code
  selfdestruct := VMHost.selfdestruct
  call := VMHost.call evaluate
  get_tx_context := VMHost.get_tx_context
  get_block_hash := VMHost.get_block_hash
  access_account := VMHost.access_account
  access_storage := VMHost.access_storage
  get_transient_storage := VMHost.get_transient_storage
  set_transient_storage := VMHost.set_transient_storage

end

section
variable {F : Type} [Field F] [DecidableEq F]

/-- The table for the bytecode circuit is filled, if there is one. -/
def handle_bytecode [Crypto3] (original_code_size : Nat) (code : Nat → UInt8) :
    Action Event (World F) Unit :=
  Action.modify fun w => { w with
    bytecode_table := w.bytecode_table.map (process_bytecode_input original_code_size code) }

/-- The table for the read/write circuit is filled, if there is one. -/
def handle_rw (rw_trace : List rw_operation) : Action Event (World F) Unit := do
  let w ← Action.get
  match w.rw_table with
  | none => return ()
  | some rw_table =>
    Action.emit (.handle_rw rw_trace)
    match process_rw_operations rw_trace rw_table with
    | none => Action.unfinished
    | some rw_table => Action.modify fun w => { w with rw_table := some rw_table }

/-- What `evaluate` reports of a frame that has come to its end. -/
def frame_result (gas : Int) (state : ExecutionState) : Result where
  status_code := state.status
  gas_left := if state.status = .SUCCESS ∨ state.status = .REVERT then gas else 0
  gas_refund := if state.status = .SUCCESS then state.gas_refund else 0
  output_data := if state.output_size ≠ 0 then state.memory.load state.output_offset state.output_size
    else []

/-- What `evaluate` does before the loop of its frame; the result is what the new memory holds. -/
def start_frame [Crypto3] (circuit : Nat) (code : Bytes) (analysis : CodeAnalysis) :
    Action Event (World F) (Nat → UInt8) := do
  let w ← Action.get
  Action.emit (.accounts w.accounts)
  Action.modify fun w => { w with heaps := fun n => w.heaps (n + 1) }
  if circuit &&& BYTECODE ≠ 0 then handle_bytecode code.length fun i => analysis.code_at i
  return w.heaps 0

/-- What `evaluate` does behind the loop of its frame. -/
def end_frame (circuit : Nat) (gas : Int) (state : ExecutionState) : Action Event (World F) Result := do
  if circuit &&& RW ≠ 0 then handle_rw state.rw_trace
  if ¬ (state.output_size ≠ 0 ∨ state.output_offset = 0) then
    Action.emit (.assertion_failed .output)
  return frame_result gas state

/-- A frame on code that is already analysed. -/
def run_code [Ethash] [Crypto3] (evaluate : Evaluate F) (fuel circuit : Nat) (rev : Revision)
    (msg : Message) (code : Bytes) (analysis : CodeAnalysis) (data : Bytes) :
    Action Event (World F) Result := do
  let heap ← start_frame circuit code analysis
  let cost_table := get_baseline_cost_table rev analysis.eof_header.version
  let (gas, state) ← run_frame (dispatch (vm_host evaluate) cost_table fuel 0 0 msg.gas)
    (.new msg rev code data 0 analysis heap)
  end_frame circuit gas state

/-- `evaluate`, with `fuel` for the turns of its loop and for the frames below it. Without a result
where the analysis of the code reads past its end. -/
def evaluate [Ethash] [Crypto3] : Nat → Evaluate F
  | 0, _, _, _ => Action.unfinished
  | fuel + 1, rev, msg, code => do
    let w ← Action.get
    match zkevm_circuits_map.lookup w.target_circuit with
    | none => return { status_code := .FAILURE, gas_left := msg.gas }
    | some circuit =>
      match analyze rev code with
      | none => Action.unfinished
      | some analysis =>
        match analysis.eof_header.get_data code with
        | none => Action.unfinished
        | some data => run_code (evaluate fuel) fuel circuit rev msg code analysis data

end
end EvmAssigner
