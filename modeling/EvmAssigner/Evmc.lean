import EvmAssigner.Word

namespace EvmAssigner

/-- `evmc_revision`, in order. -/
inductive Revision where
  | FRONTIER | HOMESTEAD | TANGERINE_WHISTLE | SPURIOUS_DRAGON | BYZANTIUM | CONSTANTINOPLE
  | PETERSBURG | ISTANBUL | BERLIN | LONDON | PARIS | SHANGHAI | CANCUN | PRAGUE
  deriving DecidableEq

namespace Revision

def toNat : Revision → Nat
  | FRONTIER => 0 | HOMESTEAD => 1 | TANGERINE_WHISTLE => 2 | SPURIOUS_DRAGON => 3
  | BYZANTIUM => 4 | CONSTANTINOPLE => 5 | PETERSBURG => 6 | ISTANBUL => 7 | BERLIN => 8
  | LONDON => 9 | PARIS => 10 | SHANGHAI => 11 | CANCUN => 12 | PRAGUE => 13

instance : LE Revision := ⟨fun a b => a.toNat ≤ b.toNat⟩
instance : LT Revision := ⟨fun a b => a.toNat < b.toNat⟩
instance (a b : Revision) : Decidable (a ≤ b) := inferInstanceAs (Decidable (a.toNat ≤ b.toNat))
instance (a b : Revision) : Decidable (a < b) := inferInstanceAs (Decidable (a.toNat < b.toNat))

def all : List Revision :=
  [FRONTIER, HOMESTEAD, TANGERINE_WHISTLE, SPURIOUS_DRAGON, BYZANTIUM, CONSTANTINOPLE, PETERSBURG,
    ISTANBUL, BERLIN, LONDON, PARIS, SHANGHAI, CANCUN, PRAGUE]

/-- `EVMC_LATEST_STABLE_REVISION`. -/
abbrev LATEST_STABLE : Revision := SHANGHAI

end Revision

/-- `evmc_status_code`. -/
inductive StatusCode where
  | SUCCESS | FAILURE | REVERT | OUT_OF_GAS | INVALID_INSTRUCTION | UNDEFINED_INSTRUCTION
  | STACK_OVERFLOW | STACK_UNDERFLOW | BAD_JUMP_DESTINATION | INVALID_MEMORY_ACCESS
  | CALL_DEPTH_EXCEEDED | STATIC_MODE_VIOLATION | PRECOMPILE_FAILURE
  | CONTRACT_VALIDATION_FAILURE | ARGUMENT_OUT_OF_RANGE | WASM_UNREACHABLE_INSTRUCTION | WASM_TRAP
  | INSUFFICIENT_BALANCE | INTERNAL_ERROR | REJECTED | OUT_OF_MEMORY
  deriving DecidableEq

/-- `evmc_call_kind`; `other` stands for every value without a name. -/
inductive CallKind where
  | CALL | DELEGATECALL | CALLCODE | CREATE | CREATE2 | other
  deriving DecidableEq

/-- `evmc_storage_status`. -/
inductive StorageStatus where
  | ASSIGNED | ADDED | DELETED | MODIFIED | DELETED_ADDED | MODIFIED_DELETED | DELETED_RESTORED
  | ADDED_DELETED | MODIFIED_RESTORED
  deriving DecidableEq

/-- `evmc_access_status`. -/
inductive AccessStatus where
  | COLD | WARM
  deriving DecidableEq

/-- `evmc_message`; `input_data` has the length `input_size`. -/
structure Message where
  kind : CallKind := .CALL
  flags : Nat := 0
  depth : Int := 0
  gas : Int := 0
  recipient : Address := 0
  sender : Address := 0
  input_data : Bytes := []
  value : Word := 0
  create2_salt : Word := 0
  code_address : Address := 0

/-- `EVMC_STATIC`. -/
abbrev STATIC : Nat := 1

def Message.is_static (msg : Message) : Bool := msg.flags &&& STATIC ≠ 0

/-- `evmc_result`. -/
structure Result where
  status_code : StatusCode
  gas_left : Int := 0
  gas_refund : Int := 0
  output_data : Bytes := []
  create_address : Address := 0

/-- `evmc_tx_context`, as far as instructions look at it. -/
structure TxContext where
  tx_gas_price : Word := 0
  tx_origin : Address := 0
  block_coinbase : Address := 0
  block_number : Int := 0
  block_timestamp : Int := 0
  block_gas_limit : Int := 0
  block_prev_randao : Word := 0
  chain_id : Word := 0
  block_base_fee : Word := 0
  blob_base_fee : Word := 0
  blob_hashes : List Word := []

end EvmAssigner
