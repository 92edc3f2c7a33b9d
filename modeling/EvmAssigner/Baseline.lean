import EvmAssigner.Analysis
import EvmAssigner.Instructions.Calls
import EvmAssigner.Instructions.Control
import EvmAssigner.Instructions.Memory
import EvmAssigner.Instructions.Storage

namespace EvmAssigner
variable {H : Type}

/-- The base cost `check_requirements` charges. -/
def base_cost (cost_table : Opcode → Int) (op : Opcode) : Int :=
  if has_const_gas_cost op then gas_costs .FRONTIER op else cost_table op

/-- A byte without a name has the cost `undefined` in every revision, which makes it constant. -/
def check_requirements (cost_table : Opcode → Int) (gas_left stack_top : Int) (op : Option Opcode) :
    StatusCode × Int :=
  match op with
  | none => if int64 (gas_left - undefined) < 0 then (.OUT_OF_GAS, int64 (gas_left - undefined))
    else (.SUCCESS, int64 (gas_left - undefined))
  | some op =>
    let gas_cost := base_cost cost_table op
    if ¬ has_const_gas_cost op ∧ gas_cost < 0 then (.UNDEFINED_INSTRUCTION, gas_left)
    else if stack_height_change op > 0 ∧ stack_top = 1024 then (.STACK_OVERFLOW, gas_left)
    else if stack_height_required op > 0 ∧ stack_top ≤ stack_height_required op - 1 then
      (.STACK_UNDERFLOW, gas_left)
    else if int64 (gas_left - gas_cost) < 0 then (.OUT_OF_GAS, int64 (gas_left - gas_cost))
    else (.SUCCESS, int64 (gas_left - gas_cost))

/-- An instruction of constant cost is there from the first revision on. -/
def defined_opcode : Option Opcode → Bool
  | none => false
  | some op => !has_const_gas_cost op || gas_costs .FRONTIER op != undefined

def unit_height_change : Option Opcode → Bool
  | none => true
  | some op => decide (stack_height_change op ≤ 0) || stack_height_change op == 1

/-- The assertions of `check_requirements`. -/
def requirement_assertions (op : Option Opcode) : Local Unit := do
  assert_that .defined_opcode (defined_opcode op = true)
  assert_that .height_change (unit_height_change op = true)

/-- The signatures `invoke` is overloaded for. -/
inductive Impl (H : Type) where
  | nullptr
  | void (fn : Int → Instr H Unit)
  | gas (fn : Int → Int → Instr H InstructionResult)
  | code (fn : Int → Int → Instr H (Option Int))
  | term (fn : Int → Int → Instr H InstructionResult)

section
variable [Ethash] (host : Host H)

/-- `MAP_OPCODES`. -/
def map_opcodes : Opcode → Impl H
  | .STOP => .term fun s g => stop s g
  | .ADD => .void fun s => add s
  | .MUL => .void fun s => mul s
  | .SUB => .void fun s => sub s
  | .DIV => .void fun s => div s
  | .SDIV => .void fun s => sdiv s
  | .MOD => .void fun s => mod s
  | .SMOD => .void fun s => smod s
  | .ADDMOD => .void fun s => addmod s
  | .MULMOD => .void fun s => mulmod s
  | .EXP => .gas fun s g => exp s g
  | .SIGNEXTEND => .void fun s => signextend s
  | .LT => .void fun s => lt s
  | .GT => .void fun s => gt s
  | .SLT => .void fun s => slt s
  | .SGT => .void fun s => sgt s
  | .EQ => .void fun s => eq s
  | .ISZERO => .void fun s => iszero s
  | .AND => .void fun s => and_ s
  | .OR => .void fun s => or_ s
  | .XOR => .void fun s => xor_ s
  | .NOT => .void fun s => not_ s
  | .BYTE => .void fun s => byte s
  | .SHL => .void fun s => shl s
  | .SHR => .void fun s => shr s
  | .SAR => .void fun s => sar s
  | .KECCAK256 => .gas fun s g => keccak256 s g
  | .ADDRESS => .void fun s => address s
  | .BALANCE => .gas (balance host)
  | .ORIGIN => .void (origin host)
  | .CALLER => .void fun s => caller s
  | .CALLVALUE => .void fun s => callvalue s
  | .CALLDATALOAD => .void fun s => calldataload s
  | .CALLDATASIZE => .void fun s => calldatasize s
  | .CALLDATACOPY => .gas fun s g => calldatacopy s g
  | .CODESIZE => .void fun s => codesize s
  | .CODECOPY => .gas fun s g => codecopy s g
  | .GASPRICE => .void (gasprice host)
  | .EXTCODESIZE => .gas (extcodesize host)
  | .EXTCODECOPY => .gas (extcodecopy host)
  | .RETURNDATASIZE => .void fun s => returndatasize s
  | .RETURNDATACOPY => .gas fun s g => returndatacopy s g
  | .EXTCODEHASH => .gas (extcodehash host)
  | .BLOCKHASH => .void (blockhash host)
  | .COINBASE => .void (coinbase host)
  | .TIMESTAMP => .void (timestamp host)
  | .NUMBER => .void (number host)
  | .PREVRANDAO => .void (prevrandao host)
  | .GASLIMIT => .void (gaslimit host)
  | .CHAINID => .void (chainid host)
  | .SELFBALANCE => .void (selfbalance host)
  | .BASEFEE => .void (basefee host)
  | .BLOBHASH => .void (blobhash host)
  | .BLOBBASEFEE => .void (blobbasefee host)
  | .POP => .void fun s => pop s
  | .MLOAD | .MLOAD8 | .MLOAD16 | .MLOAD32 | .MLOAD64 => .gas fun s g => mload s g
  | .MSTORE => .gas fun s g => mstore 32 s g
  | .MSTORE8 => .gas fun s g => mstore 1 s g
  | .MSTORE16 => .gas fun s g => mstore 2 s g
  | .MSTORE32 => .gas fun s g => mstore 4 s g
  | .MSTORE64 => .gas fun s g => mstore 8 s g
  | .SLOAD => .gas (sload host)
  | .SSTORE => .gas (sstore host)
  | .JUMP => .code fun s p => jump s p
  | .JUMPI => .code fun s p => jumpi s p
  | .PC => .code fun s p => pc s p
  | .MSIZE => .void fun s => msize s
  | .GAS => .gas fun s g => gas s g
  | .JUMPDEST => .void fun s => jumpdest s
  | .TLOAD => .void (tload host)
  | .TSTORE => .gas (tstore host)
  | .MCOPY => .gas fun s g => mcopy s g
  | .PUSH0 => .void fun s => push0 s
  | .PUSH n => .code fun s p => push (n.val + 1) s p
  | .DUP n => .void fun s => dup (n.val + 1) s
  | .DUP_TOP => .void fun s => dup_top s
  | .SWAP n => .void fun s => swap (n.val + 1) s
  | .SWAP_TOP => .void fun s => swap_top s
  | .LOG n => if n.val = 1 then .void fun s => log s else .nullptr
  | .PRINTF => .nullptr
  | .RJUMP => .code fun s p => rjump s p
  | .RJUMPI => .code fun s p => rjumpi s p
  | .RJUMPV => .code fun s p => rjumpv s p
  | .CALLF => .code fun s p => callf s p
  | .RETF => .code fun s p => retf s p
  | .JUMPF => .code fun s p => jumpf s p
  | .DUPN => .code fun s p => dupn s p
  | .SWAPN => .code fun s p => swapn s p
  | .DATALOAD => .void fun s => dataload s
  | .DATALOADN => .code fun s p => dataloadn s p
  | .DATASIZE => .void fun s => datasize s
  | .DATACOPY => .gas fun s g => datacopy s g
  | .CREATE => .gas (create host)
  | .CALL => .gas (call host)
  | .CALLCODE => .gas (callcode host)
  | .RETURN => .term fun s g => return_ s g
  | .DELEGATECALL => .gas (delegatecall host)
  | .CREATE2 => .gas (create2 host)
  | .STATICCALL => .gas (staticcall host)
  | .REVERT => .term fun s g => revert s g
  | .INVALID => .term fun s g => invalid s g
  | .SELFDESTRUCT => .term (selfdestruct host)

/-- Where the loop goes on, if anywhere, and the gas that is left. -/
structure Next where
  code_it : Option Int
  stack_top : Int
  gas : Int

def set_status (status : StatusCode) : Instr H Unit :=
  on_state (Action.modify fun s => s.set_status status)

/-- The overloads of `invoke`; the cases of the `switch` that are missing end the frame as well. -/
def invoke_impl (impl : Impl H) (code_it stack_top gas : Int) : Instr H (Option Int × Int) :=
  match impl with
  | .nullptr => do
    set_status .UNDEFINED_INSTRUCTION
    return (none, gas)
  | .void fn => do
    fn stack_top
    return (some (code_it + 1), gas)
  | .gas fn => do
    let o ← fn stack_top gas
    if o.status ≠ .SUCCESS then
      set_status o.status
      return (none, o.gas_left)
    return (some (code_it + 1), o.gas_left)
  | .code fn => do
    let next ← fn stack_top code_it
    return (next, gas)
  | .term fn => do
    let result ← fn stack_top gas
    set_status result.status
    return (none, result.gas_left)

def invoke (cost_table : Opcode → Int) (code_it stack_top gas : Int) (op : UInt8) :
    Instr H Next := do
  on_state (requirement_assertions (Opcode.of_byte op))
  let (status, gas) := check_requirements cost_table gas stack_top (Opcode.of_byte op)
  if status ≠ .SUCCESS then
    set_status status
    return ⟨none, stack_top, gas⟩
  match Opcode.of_byte op with
  | none =>
    set_status .UNDEFINED_INSTRUCTION
    return ⟨none, stack_top, gas⟩
  | some op =>
    let (next, gas) ← invoke_impl (map_opcodes host op) code_it stack_top gas
    return ⟨next, stack_top + stack_height_change op, gas⟩

/-- One turn of the loop. -/
def turn (cost_table : Opcode → Int) (code_it stack_top gas : Int) : Instr H Next := do
  let op ← on_state (read_code code_it)
  let s ← Action.get
  Action.emit (.step op stack_top gas s.state)
  invoke host cost_table code_it stack_top gas op

/-- `dispatch`, for at most `fuel` turns of the loop. -/
def dispatch (cost_table : Opcode → Int) : Nat → Int → Int → Int → Instr H Int
  | 0, _, _, _ => Action.unfinished
  | fuel + 1, code_it, stack_top, gas => do
    let next ← turn host cost_table code_it stack_top gas
    match next.code_it with
    | none => return next.gas
    | some code_it => dispatch cost_table fuel code_it next.stack_top next.gas

end
end EvmAssigner
