import EvmAssigner.Evmc

namespace EvmAssigner

/-- `enum Opcode`. `PUSH n`, `DUP n`, `SWAP n` and `LOG n` stand for the numbered families (the
first `PUSH` is `PUSH 0`, of one byte), `DUP_TOP` and `SWAP_TOP` for `OP_DUP` and `OP_SWAP`. -/
inductive Opcode where
  | STOP | ADD | MUL | SUB | DIV | SDIV | MOD | SMOD | ADDMOD | MULMOD | EXP | SIGNEXTEND
  | LT | GT | SLT | SGT | EQ | ISZERO | AND | OR | XOR | NOT | BYTE | SHL | SHR | SAR
  | KECCAK256
  | ADDRESS | BALANCE | ORIGIN | CALLER | CALLVALUE | CALLDATALOAD | CALLDATASIZE | CALLDATACOPY
  | CODESIZE | CODECOPY | GASPRICE | EXTCODESIZE | EXTCODECOPY | RETURNDATASIZE | RETURNDATACOPY
  | EXTCODEHASH | BLOCKHASH | COINBASE | TIMESTAMP | NUMBER | PREVRANDAO | GASLIMIT | CHAINID
  | SELFBALANCE | BASEFEE | BLOBHASH | BLOBBASEFEE
  | POP | MLOAD | MSTORE | MSTORE8 | SLOAD | SSTORE | JUMP | JUMPI | PC | MSIZE | GAS | JUMPDEST
  | TLOAD | TSTORE | MCOPY | PUSH0
  | PUSH (n : Fin 32) | DUP (n : Fin 16) | SWAP (n : Fin 16) | LOG (n : Fin 5)
  | PRINTF | SWAP_TOP | DUP_TOP
  | MSTORE16 | MSTORE32 | MSTORE64 | MLOAD8 | MLOAD16 | MLOAD32 | MLOAD64
  | RJUMP | RJUMPI | RJUMPV | CALLF | RETF | JUMPF | DUPN | SWAPN
  | DATALOAD | DATALOADN | DATASIZE | DATACOPY
  | CREATE | CALL | CALLCODE | RETURN | DELEGATECALL | CREATE2 | STATICCALL | REVERT | INVALID
  | SELFDESTRUCT
  deriving DecidableEq

namespace Opcode

/-- `Opcode(op)`; the bytes without a name have no instruction in any revision. -/
def of_byte (op : UInt8) : Option Opcode :=
  let n := op.toNat
  if push : 0x60 ≤ n ∧ n < 0x60 + 32 then some (PUSH ⟨n - 0x60, by omega⟩)
  else if dup : 0x80 ≤ n ∧ n < 0x80 + 16 then some (DUP ⟨n - 0x80, by omega⟩)
  else if swap : 0x90 ≤ n ∧ n < 0x90 + 16 then some (SWAP ⟨n - 0x90, by omega⟩)
  else if log : 0xa0 ≤ n ∧ n < 0xa0 + 5 then some (LOG ⟨n - 0xa0, by omega⟩)
  else match n with
  | 0x00 => some STOP | 0x01 => some ADD | 0x02 => some MUL | 0x03 => some SUB | 0x04 => some DIV
  | 0x05 => some SDIV | 0x06 => some MOD | 0x07 => some SMOD | 0x08 => some ADDMOD
  | 0x09 => some MULMOD | 0x0a => some EXP | 0x0b => some SIGNEXTEND
  | 0x10 => some LT | 0x11 => some GT | 0x12 => some SLT | 0x13 => some SGT | 0x14 => some EQ
  | 0x15 => some ISZERO | 0x16 => some AND | 0x17 => some OR | 0x18 => some XOR | 0x19 => some NOT
  | 0x1a => some BYTE | 0x1b => some SHL | 0x1c => some SHR | 0x1d => some SAR
  | 0x20 => some KECCAK256
  | 0x30 => some ADDRESS | 0x31 => some BALANCE | 0x32 => some ORIGIN | 0x33 => some CALLER
  | 0x34 => some CALLVALUE | 0x35 => some CALLDATALOAD | 0x36 => some CALLDATASIZE
  | 0x37 => some CALLDATACOPY | 0x38 => some CODESIZE | 0x39 => some CODECOPY
  | 0x3a => some GASPRICE | 0x3b => some EXTCODESIZE | 0x3c => some EXTCODECOPY
  | 0x3d => some RETURNDATASIZE | 0x3e => some RETURNDATACOPY | 0x3f => some EXTCODEHASH
  | 0x40 => some BLOCKHASH | 0x41 => some COINBASE | 0x42 => some TIMESTAMP | 0x43 => some NUMBER
  | 0x44 => some PREVRANDAO | 0x45 => some GASLIMIT | 0x46 => some CHAINID
  | 0x47 => some SELFBALANCE | 0x48 => some BASEFEE | 0x49 => some BLOBHASH
  | 0x4a => some BLOBBASEFEE
  | 0x50 => some POP | 0x51 => some MLOAD | 0x52 => some MSTORE | 0x53 => some MSTORE8
  | 0x54 => some SLOAD | 0x55 => some SSTORE | 0x56 => some JUMP | 0x57 => some JUMPI
  | 0x58 => some PC | 0x59 => some MSIZE | 0x5a => some GAS | 0x5b => some JUMPDEST
  | 0x5c => some TLOAD | 0x5d => some TSTORE | 0x5e => some MCOPY | 0x5f => some PUSH0
  | 0xa5 => some PRINTF | 0xa6 => some SWAP_TOP | 0xa7 => some DUP_TOP
  | 0xb0 => some MSTORE16 | 0xb1 => some MSTORE32 | 0xb2 => some MSTORE64
  | 0xc0 => some MLOAD8 | 0xc1 => some MLOAD16 | 0xc2 => some MLOAD32 | 0xc3 => some MLOAD64
  | 0xe0 => some RJUMP | 0xe1 => some RJUMPI | 0xe2 => some RJUMPV | 0xe3 => some CALLF
  | 0xe4 => some RETF | 0xe5 => some JUMPF | 0xe6 => some DUPN | 0xe7 => some SWAPN
  | 0xe8 => some DATALOAD | 0xe9 => some DATALOADN | 0xea => some DATASIZE | 0xeb => some DATACOPY
  | 0xf0 => some CREATE | 0xf1 => some CALL | 0xf2 => some CALLCODE | 0xf3 => some RETURN
  | 0xf4 => some DELEGATECALL | 0xf5 => some CREATE2 | 0xfa => some STATICCALL
  | 0xfd => some REVERT | 0xfe => some INVALID | 0xff => some SELFDESTRUCT
  | _ => none

end Opcode

/-- EIP-2929 constants. -/
abbrev cold_sload_cost : Int := 2100
abbrev cold_account_access_cost : Int := 2600
abbrev warm_storage_read_cost : Int := 100
abbrev additional_cold_account_access_cost : Int := cold_account_access_cost - warm_storage_read_cost

/-- `instr::undefined`. -/
abbrev undefined : Int := -1

open Opcode

def gas_costs_frontier : Opcode → Int
  | STOP => 0
  | ADD | SUB => 3
  | MUL | DIV | SDIV | MOD | SMOD | SIGNEXTEND => 5
  | ADDMOD | MULMOD => 8
  | EXP => 10
  | .LT | GT | SLT | SGT | EQ | ISZERO | AND | OR | XOR | NOT | BYTE => 3
  | KECCAK256 => 30
  | ADDRESS | ORIGIN | CALLER | CALLVALUE | CALLDATASIZE | CODESIZE | GASPRICE | COINBASE
  | TIMESTAMP | NUMBER | PREVRANDAO | GASLIMIT => 2
  | BALANCE | EXTCODESIZE | EXTCODECOPY | BLOCKHASH => 20
  | CALLDATALOAD | CALLDATACOPY | CODECOPY => 3
  | POP | PC | MSIZE | GAS => 2
  | MLOAD | MLOAD8 | MLOAD16 | MLOAD32 | MLOAD64 => 3
  | MSTORE | MSTORE8 | MSTORE16 | MSTORE32 | MSTORE64 => 3
  | SLOAD => 50
  | SSTORE => 0
  | JUMP => 8
  | JUMPI => 10
  | JUMPDEST => 1
  | SHR => 3
  | PUSH0 => 2
  | PUSH _ | DUP _ | DUP_TOP | SWAP _ | SWAP_TOP => 3
  | LOG n => if n = 1 then 0 else (n.val + 1) * 375
  | PRINTF => 3
  | CREATE => 32000
  | CALL | CALLCODE => 40
  | RETURN | INVALID | SELFDESTRUCT => 0
  | _ => undefined

def gas_costs_homestead : Opcode → Int
  | DELEGATECALL => 40
  | op => gas_costs_frontier op

def gas_costs_tangerine_whistle : Opcode → Int
  | BALANCE => 400
  | EXTCODESIZE | EXTCODECOPY => 700
  | SLOAD => 200
  | CALL | CALLCODE | DELEGATECALL => 700
  | SELFDESTRUCT => 5000
  | op => gas_costs_homestead op

def gas_costs_byzantium : Opcode → Int
  | RETURNDATASIZE => 2
  | RETURNDATACOPY => 3
  | STATICCALL => 700
  | REVERT => 0
  | op => gas_costs_tangerine_whistle op

def gas_costs_constantinople : Opcode → Int
  | SHL | SHR | SAR => 3
  | EXTCODEHASH => 400
  | CREATE2 => 32000
  | op => gas_costs_byzantium op

def gas_costs_istanbul : Opcode → Int
  | BALANCE => 700
  | CHAINID => 2
  | EXTCODEHASH => 700
  | SELFBALANCE => 5
  | SLOAD => 800
  | op => gas_costs_constantinople op

def gas_costs_berlin : Opcode → Int
  | EXTCODESIZE | EXTCODECOPY | EXTCODEHASH | BALANCE | CALL | CALLCODE | DELEGATECALL | STATICCALL
  | SLOAD => warm_storage_read_cost
  | op => gas_costs_istanbul op

def gas_costs_london : Opcode → Int
  | BASEFEE => 2
  | op => gas_costs_berlin op

def gas_costs_shanghai : Opcode → Int
  | PUSH0 => 2
  | op => gas_costs_london op

def gas_costs_cancun : Opcode → Int
  | BLOBHASH => 3
  | BLOBBASEFEE => 2
  | TLOAD | TSTORE => warm_storage_read_cost
  | MCOPY => 3
  | op => gas_costs_shanghai op

def gas_costs_prague : Opcode → Int
  | DUPN | SWAPN => 3
  | RJUMP => 2
  | RJUMPI | RJUMPV => 4
  | CALLF | JUMPF => 5
  | RETF => 3
  | DATALOAD => 4
  | DATALOADN => 3
  | DATASIZE => 2
  | DATACOPY => 3
  | op => gas_costs_cancun op

/-- The base cost of an instruction, `undefined` before the revision that brought it. -/
def gas_costs : Revision → Opcode → Int
  | .FRONTIER => gas_costs_frontier
  | .HOMESTEAD => gas_costs_homestead
  | .TANGERINE_WHISTLE | .SPURIOUS_DRAGON => gas_costs_tangerine_whistle
  | .BYZANTIUM => gas_costs_byzantium
  | .CONSTANTINOPLE | .PETERSBURG => gas_costs_constantinople
  | .ISTANBUL => gas_costs_istanbul
  | .BERLIN => gas_costs_berlin
  | .LONDON | .PARIS => gas_costs_london
  | .SHANGHAI => gas_costs_shanghai
  | .CANCUN => gas_costs_cancun
  | .PRAGUE => gas_costs_prague

def has_const_gas_cost (op : Opcode) : Bool :=
  Revision.all.all fun r => gas_costs r op = gas_costs .FRONTIER op

def legacy_cost_table (rev : Revision) (op : Opcode) : Int :=
  match rev, op with
  | .PRAGUE, RJUMP | .PRAGUE, RJUMPI | .PRAGUE, RJUMPV | .PRAGUE, CALLF | .PRAGUE, RETF
  | .PRAGUE, JUMPF | .PRAGUE, DATALOAD | .PRAGUE, DATALOADN | .PRAGUE, DATASIZE
  | .PRAGUE, DATACOPY => undefined
  | _, _ => gas_costs rev op

def eof_cost_table (rev : Revision) (op : Opcode) : Int :=
  match rev, op with
  | .PRAGUE, JUMP | .PRAGUE, JUMPI | .PRAGUE, PC | .PRAGUE, CALLCODE
  | .PRAGUE, SELFDESTRUCT => undefined
  | _, _ => gas_costs rev op

def get_baseline_cost_table (rev : Revision) (eof_version : Nat) : Opcode → Int :=
  if eof_version = 0 then legacy_cost_table rev else eof_cost_table rev

/-- `traits[op].stack_height_required`. -/
def stack_height_required : Opcode → Int
  | STOP => 0
  | ADD | MUL | SUB | DIV | SDIV | MOD | SMOD => 2
  | ADDMOD | MULMOD => 3
  | EXP | SIGNEXTEND | .LT | GT | SLT | SGT | EQ | AND | OR | XOR | BYTE | SHL | SHR | SAR => 2
  | ISZERO | NOT => 1
  | KECCAK256 => 2
  | BALANCE | CALLDATALOAD | EXTCODESIZE | EXTCODEHASH | BLOCKHASH | BLOBHASH => 1
  | CALLDATACOPY | CODECOPY | RETURNDATACOPY | MCOPY | DATACOPY => 3
  | EXTCODECOPY => 4
  | POP | MLOAD | MLOAD8 | MLOAD16 | MLOAD32 | MLOAD64 | SLOAD | JUMP | TLOAD | DATALOAD => 1
  | MSTORE | MSTORE8 | MSTORE16 | MSTORE32 | MSTORE64 | SSTORE | JUMPI | TSTORE => 2
  | RJUMPI | RJUMPV => 1
  | DUP n => n.val + 1
  | DUP_TOP => 1
  | SWAP n => n.val + 2
  | SWAP_TOP => 1
  | LOG n => n.val + 2
  | CREATE => 3
  | CREATE2 => 4
  | CALL | CALLCODE => 7
  | DELEGATECALL | STATICCALL => 6
  | RETURN | REVERT => 2
  | SELFDESTRUCT => 1
  | _ => 0

/-- `traits[op].stack_height_change`. -/
def stack_height_change : Opcode → Int
  | ADD | MUL | SUB | DIV | SDIV | MOD | SMOD => -1
  | ADDMOD | MULMOD => -2
  | EXP | SIGNEXTEND | .LT | GT | SLT | SGT | EQ | AND | OR | XOR | BYTE | SHL | SHR | SAR => -1
  | KECCAK256 => -1
  | ADDRESS | ORIGIN | CALLER | CALLVALUE | CALLDATASIZE | CODESIZE | GASPRICE | RETURNDATASIZE => 1
  | CALLDATACOPY | CODECOPY | RETURNDATACOPY | MCOPY | DATACOPY => -3
  | EXTCODECOPY => -4
  | COINBASE | TIMESTAMP | NUMBER | PREVRANDAO | GASLIMIT | CHAINID | SELFBALANCE | BASEFEE
  | BLOBBASEFEE => 1
  | POP | JUMP => -1
  | MSTORE | MSTORE8 | MSTORE16 | MSTORE32 | MSTORE64 | SSTORE | JUMPI | TSTORE => -2
  | PC | MSIZE | GAS | PUSH0 | PUSH _ | DUP _ => 1
  | RJUMPI | RJUMPV => -1
  | SWAP_TOP => -1
  | LOG n => -(n.val + 2)
  | DUPN | DATALOADN | DATASIZE => 1
  | CREATE => -2
  | CREATE2 => -3
  | CALL | CALLCODE => -6
  | DELEGATECALL | STATICCALL => -5
  | RETURN | REVERT => -2
  | SELFDESTRUCT => -1
  | _ => 0

end EvmAssigner
