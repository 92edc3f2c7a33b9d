import Mathlib.Data.BitVec
import EvmAssigner.Confinement
import EvmAssigner.Jumps
import EvmAssigner.PushImmediates
import EvmAssigner.SizedMemory

namespace EvmAssigner
variable {H : Type}

/-- What the stack of a frame depends on, besides what the frame finds in its memory and is told by the host. -/
structure Program where
  code : Bytes
  recipient : Address
  sender : Address
  value : Word
  input_data : Bytes

/-- The program that a message runs. -/
def Message.program (msg : Message) (code : Bytes) : Program :=
  ⟨code, msg.recipient, msg.sender, msg.value, msg.input_data⟩

/-- The stack is a list, its top first, and `pc` is where the program stands, if it has not come to its end. -/
structure StackState where
  pc : Option Nat
  stack : List Word

open Opcode

/-- The instructions behind which the next one follows. -/
def Opcode.goes_straight : Opcode → Bool
  | STOP | RETURN | REVERT | INVALID | SELFDESTRUCT | JUMP | JUMPI | PRINTF => false
  | LOG n => n.val = 1
  | op => op ∉ eof_opcodes

namespace Program

/-- What an instruction at `pos` does to the stack. -/
def stack_op (p : Program) (pos : Nat) : Opcode → StackOp Word
  | ADD => .binary fun x y => x + y
  | MUL => .binary fun x y => x * y
  | SUB => .binary fun x y => x - y
  | DIV => .binary fun x y => x / y
  | SDIV => .binary fun x y => BitVec.sdiv x y
  | MOD => .binary fun x y => if y = 0 then 0 else x % y
  | SMOD => .binary fun x y => if y = 0 then 0 else BitVec.srem x y
  | ADDMOD => .ternary fun x y m => if m = 0 then 0 else BitVec.ofNat 256 ((x.toNat + y.toNat) % m.toNat)
  | MULMOD => .ternary fun x y m => if m = 0 then 0 else BitVec.ofNat 256 (x.toNat * y.toNat % m.toNat)
  | EXP => .binary fun x e => x ^ e.toNat
  | SIGNEXTEND => .binary sign_extend
  | .LT => .binary fun x y => .of_bool (decide (x.toNat < y.toNat))
  | GT => .binary fun x y => .of_bool (decide (y.toNat < x.toNat))
  | SLT => .binary fun x y => .of_bool (decide (x.toInt < y.toInt))
  | SGT => .binary fun x y => .of_bool (decide (y.toInt < x.toInt))
  | EQ => .binary fun x y => .of_bool (decide (x = y))
  | ISZERO => .unary fun x => .of_bool (decide (x = 0))
  | AND => .binary fun x y => x &&& y
  | OR => .binary fun x y => x ||| y
  | XOR => .binary fun x y => x ^^^ y
  | NOT => .unary fun x => ~~~x
  | BYTE => .binary fun n x =>
    if n.toNat < 32 then BitVec.ofNat 256 (x.toNat / 256 ^ (31 - n.toNat) % 256) else 0
  | SHL => .binary fun n x => x <<< n.toNat
  -- `SAR` does not look at the sign
  | SHR | SAR => .binary fun n x => x >>> n.toNat
  | ADDRESS => .const (.of_address p.recipient)
  | CALLER => .const (.of_address p.sender)
  | CALLVALUE => .const p.value
  | CALLDATASIZE => .const (BitVec.ofNat 256 p.input_data.length)
  | CODESIZE => .const (BitVec.ofNat 256 p.code.length)
  | CALLDATALOAD => .unary fun index =>
    if p.input_data.length < index.to_uint64 then 0 else calldata_word p.input_data index.to_uint64
  | PC => .const (BitVec.ofNat 256 pos)
  | PUSH0 => .const 0
  | PUSH n => .const (BitVec.ofNat 256 (be_load ((List.range (n.val + 1)).map fun k => p.code.getD (pos + 1 + k) 0)))
  | DUP n => .dup n
  | SWAP n => .swap (n.val + 1)
  | DUPN => .dup (p.code.getD (pos + 1) 0).toNat
  | SWAPN => .swap ((p.code.getD (pos + 1) 0).toNat + 1)
  | DUP_TOP => .dup_at fun top => int32 top.to_uint64
  | SWAP_TOP => .swap_at fun top => uint16 top.to_uint64
  | POP | JUMP | SELFDESTRUCT => .drop 1
  | JUMPI | RETURN | REVERT | MSTORE | MSTORE8 | MSTORE16 | MSTORE32 | MSTORE64 | SSTORE | TSTORE => .drop 2
  | CALLDATACOPY | CODECOPY | RETURNDATACOPY | MCOPY => .drop 3
  | LOG n => .drop (n.val + 2)
  | EXTCODECOPY => .drop 4
  | ORIGIN | GASPRICE | COINBASE | TIMESTAMP | NUMBER | PREVRANDAO | GASLIMIT | CHAINID | BASEFEE | BLOBBASEFEE
  | SELFBALANCE | RETURNDATASIZE | MSIZE | GAS => .answer 0
  | BALANCE | EXTCODESIZE | EXTCODEHASH | BLOCKHASH | BLOBHASH | MLOAD | MLOAD8 | MLOAD16 | MLOAD32 | MLOAD64
  | SLOAD | TLOAD => .answer 1
  | KECCAK256 => .answer 2
  | CREATE => .answer 3
  | CREATE2 => .answer 4
  | DELEGATECALL | STATICCALL => .answer 6
  | CALL | CALLCODE => .answer 7
  | _ => .drop 0

/-- Where an instruction at `pos` leads to. -/
inductive GoesTo (p : Program) (pos : Nat) : Opcode → List Word → Option Nat → Prop
  | ends {op : Opcode} {stack : List Word} (last : op = .STOP ∨ op = .RETURN ∨ op = .SELFDESTRUCT) :
      GoesTo p pos op stack none
  | straight {op : Opcode} {stack : List Word} (straight : op.goes_straight = true) :
      GoesTo p pos op stack (some (pos + op.width))
  | jump {d : Word} {stack : List Word} (valid : ValidJump p.code d.to_uint64) :
      GoesTo p pos .JUMP (d :: stack) (some d.to_uint64)
  | taken {d cond : Word} {stack : List Word} (holds : cond.to_uint64 ≠ 0) (valid : ValidJump p.code d.to_uint64) :
      GoesTo p pos .JUMPI (d :: cond :: stack) (some d.to_uint64)
  | not_taken {d cond : Word} {stack : List Word} (fails : cond.to_uint64 = 0) :
      GoesTo p pos .JUMPI (d :: cond :: stack) (some (pos + 1))

/-- One instruction; behind the end of the code there is `STOP`. -/
inductive Step (p : Program) (answer : Word) : StackState → StackState → Prop
  | step {pos : Nat} {op : Opcode} {stack stack' : List Word} {next : Option Nat}
      (named : Opcode.of_byte (p.code.getD pos 0) = some op)
      (applies : (p.stack_op pos op).apply answer stack = some stack')
      (goes : p.GoesTo pos op stack next) : Step p answer ⟨some pos, stack⟩ ⟨next, stack'⟩

/-- The steps of a program, one for each of the answers. -/
inductive Steps (p : Program) : List Word → StackState → StackState → Prop
  | start {c : StackState} : Steps p [] c c
  | next {answers : List Word} {answer : Word} {c c' c'' : StackState} (steps : Steps p answers c c')
      (step : p.Step answer c' c'') : Steps p (answers ++ [answer]) c c''

end Program

/-! What the instructions compute. -/

theorem exp_go {n e : Nat} {base result : Word} (small : e < 2 ^ n) :
    Word.exp.go n base e result = result * base ^ e := by
  induction n generalizing base e result with
  | zero =>
    obtain rfl : e = 0 := by omega
    rw [Word.exp.go, pow_zero, mul_one]
  | succ n ih =>
    rw [Word.exp.go]
    split_ifs with zero odd
    · rw [zero, pow_zero, mul_one]
    · have split : e = 2 * (e / 2) + 1 := by omega
      rw [ih (by omega), ← pow_two, ← pow_mul, mul_assoc, ← pow_succ', ← split]
    · have split : e = 2 * (e / 2) := by omega
      rw [ih (by omega), ← pow_two, ← pow_mul, ← split]

theorem exp_eq_pow (x e : Word) : x.exp e = x ^ e.toNat := by
  rw [Word.exp, exp_go e.isLt]
  exact BitVec.one_mul _

theorem shl_eq (x : Word) (n : Nat) : x.shl n = x <<< n := by
  unfold Word.shl
  split
  · rfl
  · rename_i far
    exact (BitVec.shiftLeft_eq_zero (by omega)).symm

theorem byte_of_eq (n x : Word) : byte_of n x =
    if n.toNat < 32 then BitVec.ofNat 256 (x.toNat / 256 ^ (31 - n.toNat) % 256) else 0 := by
  split_ifs with inside
  · refine BitVec.eq_of_toNat_eq ?_
    have small : x.toNat / 256 ^ (31 - n.toNat) % 256 < 2 ^ 256 :=
      lt_of_lt_of_le (Nat.mod_lt _ (by omega)) (by norm_num)
    rw [byte_of_toNat inside, BitVec.toNat_ofNat, Nat.mod_eq_of_lt small]
  · exact byte_of_beyond (by omega)

theorem sdiv_eq (x y : Word) : Word.sdiv x y = BitVec.sdiv x y := by
  unfold Word.sdiv
  split
  · rfl
  · rename_i zero
    obtain rfl := not_not.mp zero
    exact BitVec.sdiv_zero.symm

/-! How the instructions compute it. -/

/-- The frame runs the program. -/
structure Program.Runs (p : Program) (s : ExecutionState) : Prop where
  program : s.msg.program s.original_code = p
  analysis : s.analysis = analyze_legacy p.code

theorem Program.runs_wide {P : Action.Contract Event} {p : Program} : Wide P p.Runs where
  record _ _ _ inv := ⟨inv.program, inv.analysis⟩
  push_storage _ _ _ _ _ inv := ⟨inv.program, inv.analysis⟩
  set_slot _ _ inv := ⟨inv.program, inv.analysis⟩
  set_status _ inv := ⟨inv.program, inv.analysis⟩
  set_return_data _ inv := ⟨inv.program, inv.analysis⟩
  set_output _ _ inv _ := ⟨inv.program, inv.analysis⟩
  set_call_stack _ inv := ⟨inv.program, inv.analysis⟩
  add_refund _ inv := ⟨inv.program, inv.analysis⟩
  set_tx _ inv := ⟨inv.program, inv.analysis⟩
  grow inv _ _ := ⟨inv.program, inv.analysis⟩
  host_output inv _ _ := ⟨inv.program, inv.analysis⟩
  store _ _ inv := ⟨inv.program, inv.analysis⟩
  push_memory _ _ _ inv := ⟨inv.program, inv.analysis⟩

/-- Behind the end of legacy code there are zeros to be read, as far as the padding goes and further. -/
theorem legacy_code_getD {code : Bytes} {pos : Int} (lower : 0 ≤ pos) :
    (analyze_legacy code).code_at pos = code.getD pos.toNat 0 := by
  rw [legacy_code_at lower]
  split
  · rfl
  · rw [List.getD_eq_getElem?_getD, List.getElem?_eq_none (by omega)]
    rfl

section
variable {s : ExecutionState} {h pos : Int}

/-- What every run does that comes to an end. -/
theorem wlp_of_wp {σ α : Type} {m : Action Event σ α} {Q : α → σ → Prop} {t : σ} (total : Action.wp m Q t) :
    Action.wlp any_event m Q t :=
  .of_ensures (fun _ => trivial) fun _ _ returns => total.returns returns

theorem revert_fails {gas_left : Int} :
    Action.wlp any_event (revert h gas_left) (fun o _ => o.status ≠ .SUCCESS) s := by
  simp only [revert, return_impl, Action.wlp_bind, wlp_record_stack, wlp_stack_get]
  refine wlp_check_memory fun ok left s' _ _ => ?_
  simp [Action.wlp_bind, Action.wlp_ite, Action.wlp_modify, Action.wlp_pure]

end

section
variable {p : Program} {pos : Nat} {host : Host H} {exec : Exec H} {h left : Int} {op : Opcode}

/-- What an instruction that has been executed with success does to the stack, and where it leads to. -/
def Program.Turns (p : Program) (pos : Nat) (op : Opcode) (h : Int) (s : ExecutionState) (next : Option Int)
    (s' : ExecutionState) : Prop :=
  (p.stack_op pos op).Turns s.stack_space h s'.stack_space (h + stack_height_change op) ∧
    ∃ pc : Option Nat, next = pc.map (↑) ∧ p.GoesTo pos op (items s.stack_space h) pc

/-- The implementations behind which the next byte of the code is executed. -/
def Impl.goes_straight : Impl H → Bool
  | .void _ | .gas _ => true
  | _ => false

theorem Impl.Ensures.turns {impl : Impl H} (ensures : impl.Ensures any_event pos h left (fun e =>
      (p.stack_op pos op).Turns exec.state.stack_space h e.state.stack_space (h + stack_height_change op)) exec)
    (plain : impl.goes_straight = true) (straight : op.goes_straight = true) (width : op.width = 1) :
    Action.wlp any_event (EvmAssigner.invoke_impl impl pos h left) (fun next e =>
      next.1 ≠ none ∨ e.state.status = .SUCCESS → p.Turns pos op h exec.state next.1 e.state) exec := by
  have goes : p.GoesTo pos op (items exec.state.stack_space h) (some (pos + 1)) := width ▸ .straight straight
  cases impl with
  | void fn =>
    exact wlp_void (Action.wlp.mono ensures fun _ e turns _ => ⟨turns, _, rfl, goes⟩)
  | gas fn =>
    simp only [EvmAssigner.invoke_impl, Action.wlp_bind, Action.wlp_ite, Action.wlp_pure]
    refine Action.wlp.mono ensures fun o e turns => ⟨fun failed => ?_, fun success _ => ?_⟩
    · exact wlp_set_status.mpr fun succeeds => by simp [failed] at succeeds
    · exact ⟨turns (not_not.mp success), _, rfl, goes⟩
  | nullptr => exact Bool.noConfusion plain
  | code fn => exact Bool.noConfusion plain
  | term fn => exact Bool.noConfusion plain

theorem binary_turns {s : ExecutionState} {f g : Word → Word → Word} (same : ∀ x y, g x y = f x y)
    (operands : 2 ≤ h) : Action.wlp any_event (binary g h) (fun _ s' =>
      (StackOp.binary f).Turns s.stack_space h s'.stack_space (h + -1)) s := by
  refine binary_slots.mono fun _ s' put => StackOp.turns_binary operands ?_ ?_
  · exact put ▸ SameBelow.update le_rfl
  · rw [put, Function.update_self, same]

theorem unary_turns {s : ExecutionState} {f g : Word → Word} (same : ∀ x, g x = f x)
    (operand : 1 ≤ h) : Action.wlp any_event (unary g h) (fun _ s' =>
      (StackOp.unary f).Turns s.stack_space h s'.stack_space (h + 0)) s := by
  refine unary_slots.mono fun _ s' put => ?_
  rw [add_zero]
  refine StackOp.turns_unary operand ?_ ?_
  · exact put ▸ SameBelow.update le_rfl
  · rw [put, Function.update_self, same]

theorem push_word_turns {s : ExecutionState} {v w : Word} (same : v = w) (nonneg : 0 ≤ h) :
    Action.wlp any_event (push_word v h) (fun _ s' =>
      (StackOp.const w).Turns s.stack_space h s'.stack_space (h + 1)) s := by
  refine push_word_slots.mono fun _ s' put => StackOp.turns_const nonneg ?_ ?_
  · exact put ▸ SameBelow.update le_rfl
  · rw [put, Function.update_self, same]

theorem Below.answers {s s' : ExecutionState} {n : Nat} (below : Below (h - n) s s') (enough : n ≤ h) {change : Int}
    (net : change = 1 - n) : (StackOp.answer n).Turns s.stack_space h s'.stack_space (h + change) := by
  have turns := StackOp.turns_answer enough below
  rwa [show h - n + 1 = h + change by omega] at turns

theorem Below.drops {s s' : ExecutionState} {n : Nat} (below : Below (h - n) s s') (enough : n ≤ h) {change : Int}
    (net : change = -n) : (StackOp.drop n).Turns s.stack_space h s'.stack_space (h + change) := by
  have turns := StackOp.turns_drop enough below
  rwa [show h - n = h + change by omega] at turns

end

theorem slt_int (x y : Word) : BitVec.slt x y = decide (x.toInt < y.toInt) := BitVec.slt_eq_decide

section
variable [Ethash] {p : Program} {pos : Nat} {host : Host H} {exec : Exec H} {h left : Int} {op : Opcode}

/-- The instructions that go on to the next byte of the code. -/
theorem straight_ensures (runs : p.Runs exec.state) (legacy : op ∉ eof_opcodes) (fits : Fits op h) (nonneg : 0 ≤ h)
    (inside : ReachesInside op h exec.state) (plain : (map_opcodes host op).goes_straight = true) :
    (map_opcodes host op).Ensures any_event pos h left (fun e =>
      (p.stack_op pos op).Turns exec.state.stack_space h e.state.stack_space (h + stack_height_change op)) exec := by
  have pushes {v w : Word} (same : v = w) : Action.wlp any_event (push_word v h) (fun _ s' =>
      (StackOp.const w).Turns exec.state.stack_space h s'.stack_space (h + 1)) exec.state :=
    push_word_turns same nonneg
  have pushes_any {v : Word} : Action.wlp any_event (push_word v h) (fun _ s' =>
      (StackOp.answer 0).Turns exec.state.stack_space h s'.stack_space (h + 1)) exec.state :=
    push_word_slots.mono fun _ s' put => Below.answers (n := 0)
      (by rw [Nat.cast_zero, sub_zero, Below, put]; exact SameBelow.update le_rfl) (by omega) (by decide)
  cases op with
  | ADD => exact wlp_on_state.mpr (binary_turns (fun x y => BitVec.add_comm y x) (fits.operands (by decide)))
  | MUL => exact wlp_on_state.mpr (binary_turns (fun x y => BitVec.mul_comm y x) (fits.operands (by decide)))
  | SUB => exact wlp_on_state.mpr (binary_turns (fun _ _ => rfl) (fits.operands (by decide)))
  | DIV =>
    refine wlp_on_state.mpr (binary_turns (fun x v => ?_) (fits.operands (by decide)))
    split
    · rfl
    · rename_i zero
      obtain rfl := not_not.mp zero
      exact BitVec.udiv_zero.symm
  | SDIV => exact wlp_on_state.mpr (binary_turns sdiv_eq (fits.operands (by decide)))
  | MOD => exact wlp_on_state.mpr (binary_turns (fun _ _ => ite_not _ _ _) (fits.operands (by decide)))
  | SMOD => exact wlp_on_state.mpr (binary_turns (fun _ _ => ite_not _ _ _) (fits.operands (by decide)))
  | EXP =>
    refine wlp_on_state.mpr (exp_slots.mono fun o s' put success => ?_)
    refine StackOp.turns_binary (fits.operands (by decide)) ?_ ?_
    · exact put success ▸ SameBelow.update le_rfl
    · rw [put success, Function.update_self, exp_eq_pow]
  | SIGNEXTEND => exact wlp_on_state.mpr (binary_turns (fun _ _ => rfl) (fits.operands (by decide)))
  | LT => exact wlp_on_state.mpr (binary_turns (fun _ _ => rfl) (fits.operands (by decide)))
  | GT => exact wlp_on_state.mpr (binary_turns (fun _ _ => rfl) (fits.operands (by decide)))
  | SLT =>
    exact wlp_on_state.mpr (binary_turns (fun x y => congrArg Word.of_bool (slt_int x y)) (fits.operands (by decide)))
  | SGT =>
    exact wlp_on_state.mpr (binary_turns (fun x y => congrArg Word.of_bool (slt_int y x)) (fits.operands (by decide)))
  | EQ =>
    refine wlp_on_state.mpr (binary_turns (fun x y => ?_) (fits.operands (by decide)))
    exact congrArg Word.of_bool (decide_eq_decide.mpr eq_comm)
  | ISZERO => exact wlp_on_state.mpr (unary_turns (fun _ => rfl) (fits.operands (by decide)))
  | AND => exact wlp_on_state.mpr (binary_turns (fun x y => BitVec.and_comm y x) (fits.operands (by decide)))
  | OR => exact wlp_on_state.mpr (binary_turns (fun x y => BitVec.or_comm y x) (fits.operands (by decide)))
  | XOR => exact wlp_on_state.mpr (binary_turns (fun x y => BitVec.xor_comm y x) (fits.operands (by decide)))
  | NOT => exact wlp_on_state.mpr (unary_turns (fun _ => rfl) (fits.operands (by decide)))
  | BYTE => exact wlp_on_state.mpr (binary_turns byte_of_eq (fits.operands (by decide)))
  | SHL => exact wlp_on_state.mpr (binary_turns (fun _ _ => shl_eq _ _) (fits.operands (by decide)))
  | SHR => exact wlp_on_state.mpr (binary_turns (fun _ _ => shr_eq _) (fits.operands (by decide)))
  | SAR => exact wlp_on_state.mpr (binary_turns (fun _ _ => sar_of_eq.trans (shr_eq _)) (fits.operands (by decide)))
  | ADDMOD =>
    refine wlp_on_state.mpr (addmod_slots.mono fun _ s' put =>
      StackOp.turns_ternary (fits.operands (by decide)) ?_ ?_)
    · exact put ▸ SameBelow.update le_rfl
    · rw [put, Function.update_self]
      exact ite_not _ _ _
  | MULMOD =>
    refine wlp_on_state.mpr (mulmod_slots.mono fun _ s' put =>
      StackOp.turns_ternary (fits.operands (by decide)) ?_ ?_)
    · exact put ▸ SameBelow.update le_rfl
    · rw [put, Function.update_self]
      exact ite_not _ _ _
  | KECCAK256 =>
    exact wlp_on_state.mpr (keccak256_below.mono fun _ _ below success =>
      (below success).answers (fits.operands (by decide)) (by decide))
  | ADDRESS =>
    exact wlp_on_state.mpr (Action.wlp_bind.mpr (Action.wlp_get.mpr (pushes (by rw [← runs.program]; rfl))))
  | CALLER =>
    exact wlp_on_state.mpr (Action.wlp_bind.mpr (Action.wlp_get.mpr (pushes (by rw [← runs.program]; rfl))))
  | CALLVALUE =>
    exact wlp_on_state.mpr (Action.wlp_bind.mpr (Action.wlp_get.mpr (pushes (by rw [← runs.program]; rfl))))
  | CALLDATASIZE =>
    exact wlp_on_state.mpr (Action.wlp_bind.mpr (Action.wlp_get.mpr (pushes (by rw [← runs.program]; rfl))))
  | CODESIZE =>
    exact wlp_on_state.mpr (Action.wlp_bind.mpr (Action.wlp_get.mpr (pushes (by rw [← runs.program]; rfl))))
  | RETURNDATASIZE | MSIZE =>
    exact wlp_on_state.mpr (Action.wlp_bind.mpr (Action.wlp_get.mpr pushes_any))
  | PUSH0 => exact wlp_on_state.mpr (pushes rfl)
  | GAS =>
    refine wlp_on_state.mpr (Action.wlp_bind.mpr (pushes_any.mono fun _ _ turns => ?_))
    exact Action.wlp_pure.mpr fun _ => turns
  | CALLDATALOAD =>
    refine wlp_on_state.mpr (calldataload_slots.mono fun _ s' put => ?_)
    show StackOp.Turns _ _ _ _ (h + 0)
    rw [add_zero]
    refine StackOp.turns_unary (fits.operands (by decide)) ?_ ?_
    · exact put ▸ SameBelow.update le_rfl
    · rw [put, Function.update_self, ← runs.program]
      rfl
  | ORIGIN | GASPRICE | COINBASE | TIMESTAMP | NUMBER | PREVRANDAO | GASLIMIT | CHAINID | BASEFEE
  | BLOBBASEFEE =>
    refine push_tx_below.mono fun _ _ below => Below.answers (n := 0) ?_ (by omega) (by decide)
    rwa [Nat.cast_zero, sub_zero]
  | SELFBALANCE =>
    refine selfbalance_below.mono fun _ _ below => Below.answers (n := 0) ?_ (by omega) (by decide)
    rwa [Nat.cast_zero, sub_zero]
  | BALANCE | EXTCODEHASH =>
    exact (query_account_below fun _ _ _ each => wlp_on_host_any each).mono fun _ _ below success =>
      (below success).answers (fits.operands (by decide)) (by decide)
  | EXTCODESIZE =>
    refine (query_account_below fun _ _ _ each => ?_).mono fun _ _ below success =>
      (below success).answers (fits.operands (by decide)) (by decide)
    exact Action.wlp_bind.mpr (wlp_on_host_any fun _ _ => Action.wlp_pure.mpr (each _ _))
  | BLOCKHASH =>
    exact blockhash_below.mono fun _ _ below => below.answers (fits.operands (by decide)) (by decide)
  | BLOBHASH =>
    exact blobhash_below.mono fun _ _ below => below.answers (fits.operands (by decide)) (by decide)
  | MLOAD | MLOAD8 | MLOAD16 | MLOAD32 | MLOAD64 =>
    exact wlp_on_state.mpr (mload_below.mono fun _ _ below success =>
      (below success).answers (fits.operands (by decide)) (by decide))
  | SLOAD =>
    exact sload_below.mono fun _ _ below success => (below success).answers (fits.operands (by decide)) (by decide)
  | TLOAD => exact tload_below.mono fun _ _ below => below.answers (fits.operands (by decide)) (by decide)
  | CALLDATACOPY =>
    exact wlp_on_state.mpr (calldatacopy_below.mono fun _ _ below success =>
      (below success).drops (fits.operands (by decide)) (by decide))
  | CODECOPY =>
    exact wlp_on_state.mpr (codecopy_below.mono fun _ _ below success =>
      (below success).drops (fits.operands (by decide)) (by decide))
  | RETURNDATACOPY =>
    exact wlp_on_state.mpr (returndatacopy_below.mono fun _ _ below success =>
      (below success).drops (fits.operands (by decide)) (by decide))
  | MCOPY =>
    exact wlp_on_state.mpr (mcopy_below.mono fun _ _ below success =>
      (below success).drops (fits.operands (by decide)) (by decide))
  | EXTCODECOPY =>
    exact extcodecopy_below.mono fun _ _ below success =>
      (below success).drops (fits.operands (by decide)) (by decide)
  | MSTORE | MSTORE8 | MSTORE16 | MSTORE32 | MSTORE64 =>
    exact wlp_on_state.mpr (mstore_below.mono fun _ _ below success =>
      (below success).drops (fits.operands (by decide)) (by decide))
  | SSTORE =>
    exact sstore_below.mono fun _ _ below success => (below success).drops (fits.operands (by decide)) (by decide)
  | TSTORE =>
    exact tstore_below.mono fun _ _ below success => (below success).drops (fits.operands (by decide)) (by decide)
  | POP =>
    exact wlp_on_state.mpr (Action.wlp_pure.mpr (Below.drops (Below.refl _ _) (fits.operands (by decide)) (by decide)))
  | JUMPDEST =>
    exact wlp_on_state.mpr (Action.wlp_pure.mpr (Below.drops (n := 0) (Below.refl _ _) (by omega) (by decide)))
  | DUP n =>
    have deep : (n.val : Int) + 1 ≤ h := fits.operands (show (n.val : Int) + 1 > 0 by omega)
    refine wlp_on_state.mpr (dup_slot_slots.mono fun _ s' put => StackOp.turns_dup (by omega) ?_ ?_)
    · exact put ▸ SameBelow.update le_rfl
    · rw [put, Function.update_self]
      exact congrArg _ (by push_cast; omega)
  | DUP_TOP =>
    refine wlp_on_state.mpr (dup_top_slots.mono fun _ s' put => ?_)
    show StackOp.Turns _ _ _ _ (h + 0)
    rw [add_zero]
    refine StackOp.turns_dup_at (inside.dup_top rfl).1 (inside.dup_top rfl).2 ?_ ?_
    · exact put ▸ SameBelow.update le_rfl
    · rw [put, Function.update_self]
  | SWAP n =>
    have deep : (n.val : Int) + 2 ≤ h := fits.operands (show (n.val : Int) + 2 > 0 by omega)
    refine wlp_on_state.mpr (swap_slots_slots.mono fun _ s' put => ?_)
    show StackOp.Turns _ _ _ _ (h + 0)
    rw [add_zero]
    exact StackOp.turns_swap (by omega) put
  | SWAP_TOP =>
    exact wlp_on_state.mpr (swap_top_slots.mono fun _ s' put => StackOp.turns_swap_at (inside.swap_top rfl) put)
  | LOG n =>
    by_cases one : n.val = 1
    · obtain rfl : n = 1 := Fin.ext one
      exact wlp_on_state.mpr (Action.wlp_pure.mpr
        (Below.drops (Below.refl _ _) (fits.operands (by decide)) (by decide)))
    · simp [map_opcodes, one, Impl.goes_straight] at plain
  | CREATE =>
    exact (create_impl_below .CREATE).mono fun _ _ below success =>
      (below success).answers (fits.operands (by decide)) (by decide)
  | CREATE2 =>
    exact (create_impl_below .CREATE2).mono fun _ _ below success =>
      (below success).answers (fits.operands (by decide)) (by decide)
  | CALL =>
    exact (call_impl_below .CALL).mono fun _ _ below success =>
      (below success).answers (fits.operands (by decide)) (by decide)
  | CALLCODE =>
    exact (call_impl_below .CALLCODE).mono fun _ _ below success =>
      (below success).answers (fits.operands (by decide)) (by decide)
  | DELEGATECALL =>
    exact (call_impl_below .DELEGATECALL).mono fun _ _ below success =>
      (below success).answers (fits.operands (by decide)) (by decide)
  | STATICCALL =>
    exact (call_impl_below .STATICCALL).mono fun _ _ below success =>
      (below success).answers (fits.operands (by decide)) (by decide)
  | DATALOAD | DATASIZE | DATACOPY => exact (legacy (by decide)).elim
  | _ => exact Bool.noConfusion plain

end

section
variable {p : Program} {s : ExecutionState} {h : Int} {pos : Nat} (runs : p.Runs s)
include runs

theorem push_turns {n : Fin 32} (nonneg : 0 ≤ h) : Action.wlp any_event (push (n.val + 1) h pos)
    (fun next s' => p.Turns pos (.PUSH n) h s next s') s := by
  have last := n.isLt
  refine wlp_of_wp ((wp_push (by omega)).mono ?_)
  rintro next s' ⟨rfl, top, same⟩
  rw [runs.analysis, show (pos : Int) + 1 = (pos + 1 : Nat) by omega, legacy_code_bytes] at top
  refine ⟨StackOp.turns_const nonneg (fun a below => same a (by omega)) ?_, _, ?_, .straight rfl⟩
  · rw [← top, BitVec.ofNat_toNat, BitVec.setWidth_eq]
  · simp [Opcode.width, add_assoc]

theorem dupn_turns (nonneg : 0 ≤ h) (bound : h ≤ 1024) : Action.wlp any_event (dupn h pos)
    (fun next s' => next ≠ none ∨ s'.status = .SUCCESS → p.Turns pos .DUPN h s next s') s := by
  refine dupn_slots.mono fun next s' turned succeeds => ?_
  obtain ⟨rfl, deep, put⟩ := turned succeeds
  rw [runs.analysis, legacy_code_getD (by omega), show ((pos : Int) + 1).toNat = pos + 1 by omega] at deep put
  refine ⟨StackOp.turns_dup (by omega) ?_ ?_, some (pos + 2), rfl, .straight rfl⟩
  · exact put ▸ SameBelow.update le_rfl
  · rw [put, Function.update_self]
    exact congrArg _ (by omega)

theorem swapn_turns : Action.wlp any_event (swapn h pos)
    (fun next s' => next ≠ none ∨ s'.status = .SUCCESS → p.Turns pos .SWAPN h s next s') s := by
  refine swapn_slots.mono fun next s' turned succeeds => ?_
  obtain ⟨rfl, deep, put⟩ := turned succeeds
  rw [runs.analysis, legacy_code_getD (by omega), show ((pos : Int) + 1).toNat = pos + 1 by omega] at deep put
  refine ⟨?_, some (pos + 2), rfl, .straight rfl⟩
  show StackOp.Turns _ _ _ _ (h + 0)
  rw [add_zero]
  exact StackOp.turns_swap (by omega) put

omit runs in
theorem pc_turns (nonneg : 0 ≤ h) : Action.wlp any_event (pc h pos)
    (fun next s' => p.Turns pos .PC h s next s') s := by
  simp only [pc, Action.wlp_bind, Action.wlp_pure]
  refine (push_word_turns (w := BitVec.ofNat 256 pos) ?_ nonneg).mono fun _ s' turns => ⟨turns, _, rfl, .straight rfl⟩
  exact BitVec.ofInt_natCast 256 pos

theorem jump_turns (operand : 1 ≤ h) : Action.wlp any_event (jump h pos)
    (fun next s' => next ≠ none ∨ s'.status = .SUCCESS → p.Turns pos .JUMP h s next s') s := by
  have top : h - 1 - 0 = h - 1 := by omega
  simp only [jump, Action.wlp_bind, wlp_record_stack, wlp_stack_get, top]
  refine wlp_jump_impl (fun valid _ => ⟨Below.drops (.refl _ _) operand (by decide),
    some (s.stack_space (h - 1)).to_uint64, rfl, ?_⟩) fun _ => by simp
  have dest : (analyze_legacy p.code).jumpdest_map[(s.stack_space (h - 1)).to_uint64]? = some true :=
    runs.analysis ▸ valid
  rw [items_pop operand]
  exact .jump (validJump_iff.mp dest)

theorem jumpi_turns (operands : 2 ≤ h) : Action.wlp any_event (jumpi h pos)
    (fun next s' => next ≠ none ∨ s'.status = .SUCCESS → p.Turns pos .JUMPI h s next s') s := by
  have top : h - 1 - 0 = h - 1 := by omega
  have second : h - 1 - 1 - 0 = h - 2 := by omega
  have two : h - 1 - 1 = h - 2 := by omega
  have popped : items s.stack_space h =
      s.stack_space (h - 1) :: s.stack_space (h - 2) :: items s.stack_space (h - 2) := by
    rw [items_pop (show 1 ≤ h by omega), items_pop (show 1 ≤ h - 1 by omega), two]
  simp only [jumpi, Action.wlp_bind, wlp_record_stack, wlp_stack_get, Action.wlp_ite, Action.wlp_pure, top, second]
  refine ⟨fun holds => ?_, fun fails _ => ⟨Below.drops (.refl _ _) operands (by decide), some (pos + 1), rfl, ?_⟩⟩
  · refine wlp_jump_impl (fun valid _ => ⟨Below.drops (.refl _ _) operands (by decide),
      some (s.stack_space (h - 1)).to_uint64, rfl, ?_⟩) fun _ => by simp
    have dest : (analyze_legacy p.code).jumpdest_map[(s.stack_space (h - 1)).to_uint64]? = some true :=
      runs.analysis ▸ valid
    rw [popped]
    exact .taken (Nat.pos_iff_ne_zero.mp holds) (validJump_iff.mp dest)
  · rw [popped]
    exact .not_taken (Nat.eq_zero_of_not_pos fails)

end

section
variable [Ethash] {p : Program} {pos : Nat} {host : Host H} {exec : Exec H} {h left : Int} {op : Opcode}

/-- What an instruction of legacy code does that is executed with success. -/
theorem legacy_turns (runs : p.Runs exec.state) (legacy : op ∉ eof_opcodes) (fits : Fits op h) (nonneg : 0 ≤ h)
    (bound : h ≤ 1024) (inside : ReachesInside op h exec.state) :
    Action.wlp any_event (invoke_impl (map_opcodes host op) pos h left) (fun next e =>
      next.1 ≠ none ∨ e.state.status = .SUCCESS → p.Turns pos op h exec.state next.1 e.state) exec := by
  by_cases plain : (map_opcodes host op).goes_straight = true
  · refine (straight_ensures runs legacy fits nonneg inside plain).turns plain ?_ ?_
    · cases op with
      | LOG n =>
        by_contra other
        have other : n.val ≠ 1 := by simpa [Opcode.goes_straight] using other
        simp [map_opcodes, other, Impl.goes_straight] at plain
      | DATALOAD | DATASIZE | DATACOPY => exact (legacy (by decide)).elim
      | STOP | RETURN | REVERT | INVALID | SELFDESTRUCT | JUMP | JUMPI | PRINTF | RJUMP | RJUMPI | RJUMPV | CALLF
      | RETF | JUMPF | DATALOADN => exact Bool.noConfusion plain
      | _ => rfl
    · cases op with
      | PUSH n | DUPN | SWAPN => exact Bool.noConfusion plain
      | _ => rfl
  · cases op with
    | PUSH n => exact wlp_code (wlp_on_state.mpr ((push_turns runs nonneg).mono fun _ _ turns _ => turns))
    | DUPN => exact wlp_code (wlp_on_state.mpr (dupn_turns runs nonneg bound))
    | SWAPN => exact wlp_code (wlp_on_state.mpr (swapn_turns runs))
    | PC => exact wlp_code (wlp_on_state.mpr ((pc_turns nonneg).mono fun _ _ turns _ => turns))
    | JUMP => exact wlp_code (wlp_on_state.mpr (jump_turns runs (fits.operands (by decide))))
    | JUMPI => exact wlp_code (wlp_on_state.mpr (jumpi_turns runs (fits.operands (by decide))))
    | STOP =>
      refine wlp_term (wlp_on_state.mpr (Action.wlp_pure.mpr fun _ => ?_))
      exact ⟨Below.drops (n := 0) (.refl _ _) (by omega) (by decide), none, rfl, .ends (Or.inl rfl)⟩
    | RETURN =>
      refine wlp_term (wlp_on_state.mpr (return_impl_below.mono fun _ s' below _ => ?_))
      exact ⟨Below.drops below (fits.operands (by decide)) (by decide), none, rfl, .ends (Or.inr (Or.inl rfl))⟩
    | SELFDESTRUCT =>
      refine wlp_term (selfdestruct_below.mono fun _ e below _ => ?_)
      exact ⟨Below.drops below (fits.operands (by decide)) (by decide), none, rfl, .ends (Or.inr (Or.inr rfl))⟩
    | REVERT =>
      refine wlp_term (wlp_on_state.mpr (revert_fails.mono fun _ _ fails succeeds => ?_))
      exact absurd (succeeds.resolve_left (not_not.mpr rfl)) fails
    | INVALID =>
      exact wlp_term (wlp_on_state.mpr (Action.wlp_pure.mpr (by simp)))
    | PRINTF => simp [map_opcodes, invoke_impl, set_status]
    | LOG n =>
      have other : n.val ≠ 1 := fun one => plain (by simp [map_opcodes, one, Impl.goes_straight])
      simp [map_opcodes, other, invoke_impl, set_status]
    | RJUMP | RJUMPI | RJUMPV | CALLF | RETF | JUMPF | DATALOAD | DATALOADN | DATASIZE | DATACOPY =>
      exact (legacy (by decide)).elim
    | _ => exact absurd rfl plain

end

/-- What a frame shows of itself as a stack machine. -/
def Config.stack_state (c : Config H) : StackState :=
  ⟨c.code_it.map Int.toNat, items c.exec.state.stack_space c.stack_top⟩

/-- A frame that runs a program, between two of its instructions. -/
structure Config.RunsProgram (c : Config H) (p : Program) : Prop where
  runs : p.Runs c.exec.state
  nonneg : 0 ≤ c.stack_top
  bound : c.stack_top ≤ 1024
  positioned : ∀ pos, c.code_it = some pos → 0 ≤ pos

section
variable [Ethash] {host : Host H} {rev : Revision} {p : Program} {c c' : Config H} {es : List Event}

/-- An instruction of the frame is one of the stack machine. -/
theorem Config.RunsProgram.executes (here : c.RunsProgram p) (inside : c.Inside)
    (executes : Executes host (legacy_cost_table rev) c es c') :
    c'.RunsProgram p ∧ ∃ answer, p.Step answer c.stack_state c'.stack_state := by
  obtain ⟨succeeds, code_it, at_it, ran⟩ := executes
  obtain ⟨pos, rfl⟩ := Int.eq_ofNat_of_zero_le (here.positioned code_it at_it)
  have turned : Action.wlp any_event (turn host (legacy_cost_table rev) pos c.stack_top c.gas) (fun next e =>
      next.code_it ≠ none ∨ e.state.status = .SUCCESS →
        (⟨next.code_it, next.stack_top, next.gas, e⟩ : Config H).RunsProgram p ∧
          ∃ answer, p.Step answer c.stack_state
            (⟨next.code_it, next.stack_top, next.gas, e⟩ : Config H).stack_state) c.exec := by
    refine wlp_turn_leads ⟨trivial, trivial⟩ ?_ fun op name _ meets _ => ?_
    · exact fun status left failed _ success => absurd (success.resolve_left (not_not.mpr rfl)) failed
    · have fits := meets.toFits.range here.nonneg here.bound
      have wide : Wide any_event p.Runs := Program.runs_wide
      have keeps (left : Int) : (map_opcodes host op).Keeps any_event pos c.stack_top left p.Runs c.exec :=
        wide.step (fun _ => inferInstance) here.runs
      have reaches : ReachesInside op c.stack_top c.exec.state := inside op (by rwa [Config.opcode, at_it])
      rw [here.runs.analysis, legacy_code_getD (by omega), Int.toNat_natCast] at name
      refine ((legacy_turns here.runs (legacy_meets meets) meets.toFits here.nonneg here.bound reaches).and
        ((keeps _).invoke_impl (fun status => wide.set_status status) here.runs)).mono ?_
      rintro ⟨next, left⟩ e ⟨turns, runs⟩ success
      obtain ⟨⟨answer, applies⟩, pc, leads, goes⟩ := turns success
      obtain rfl : next = pc.map (↑) := leads
      have same : (pc.map ((↑) : Nat → Int)).map Int.toNat = pc := by cases pc <;> rfl
      refine ⟨⟨runs, fits.1, fits.2, fun pos' at_next => ?_⟩, answer, ?_⟩
      · obtain ⟨n, _, rfl⟩ := Option.map_eq_some_iff.mp at_next
        exact Int.natCast_nonneg n
      · simp only [Config.stack_state, at_it, same, Option.map_some, Int.toNat_natCast]
        exact .step name applies goes
  exact (turned.returns_of_eq ran fun _ _ => trivial).2 succeeds

theorem Config.RunsProgram.run (here : c.RunsProgram p) (run : Run host (legacy_cost_table rev) c es c')
    (confined : ∀ e ∈ es, Confines e) :
    c'.RunsProgram p ∧ ∃ answers, p.Steps answers c.stack_state c'.stack_state := by
  induction run with
  | start => exact ⟨here, [], .start⟩
  | next _ executes ih =>
    obtain ⟨there, answers, steps⟩ := ih fun e member => confined e (List.mem_append_left _ member)
    have inside := executes.inside fun e member => confined e (List.mem_append_right _ member)
    obtain ⟨later, answer, step⟩ := there.executes inside executes
    exact ⟨later, answers ++ [answer], steps.next step⟩

omit [Ethash] in
theorem Config.RunsProgram.start {msg : Message} {code : Bytes} {call_id : Nat} {heap : Nat → UInt8} {h : H} :
    (Config.start (.new msg rev code [] call_id (analyze_legacy code) heap) h).RunsProgram (msg.program code) where
  runs := ⟨rfl, rfl⟩
  nonneg := le_rfl
  bound := show (0 : Int) ≤ 1024 by decide
  positioned _ at_it := Option.some.inj at_it ▸ le_rfl

end

/-- A frame of legacy code is a stack machine, as long as it writes nowhere else: its slots below the stack top are a
list that every instruction changes as the machine does, and it goes where the machine goes. -/
theorem runs_stack_machine [Ethash] (host : Host H) (rev : Revision) (code : Bytes) (msg : Message)
    (call_id : Nat) (heap : Nat → UInt8) (h : H) {es : List Event} {c : Config H}
    (run : Run host (get_baseline_cost_table rev (analyze_legacy code).eof_header.version)
      (.start (.new msg rev code [] call_id (analyze_legacy code) heap) h) es c) (confined : ∀ e ∈ es, Confines e) :
    (∃ answers, (msg.program code).Steps answers ⟨some 0, []⟩ c.stack_state) ∧
      (c.stack_state.stack.length : Int) = c.stack_top ∧ c.stack_top ≤ 1024 ∧ c.exec.state.Unspoiled heap := by
  obtain ⟨there, answers, steps⟩ := Config.RunsProgram.start.run run confined
  refine ⟨⟨answers, steps⟩, ?_, there.bound, run.unspoiled confined⟩
  rw [Config.stack_state, length_items, Int.toNat_of_nonneg there.nonneg]

/-- 5 and 7 change places, 5 is doubled by way of `DUP_TOP`, stored and copied, and 7 and 5 are added. -/
def stacking_code : Bytes :=
  [0x60, 5, 0x60, 7, 0x60, 1, 0xa6, 0x60, 1, 0xa7, 0x5f, 0x52, 0x60, 32, 0x5f, 0x60, 32, 0x5e, 0x01]

theorem runs_stack_machine_add : ∃ es c answers, @Run Unit no_hash empty_host (legacy_cost_table .CANCUN)
    (code_config .CANCUN stacking_code 100) es c ∧
      (({ gas := 100 } : Message).program stacking_code).Steps answers ⟨some 0, []⟩ c.stack_state ∧
      c.stack_state.stack = [12] ∧ c.exec.state.Unspoiled fun _ => 0 := by
  have values : (@traced_turns Unit no_hash empty_host (legacy_cost_table .CANCUN) 13
      (code_config .CANCUN stacking_code 100)).map (fun r =>
        (decide (∀ e ∈ r.1, Confines e), r.2.stack_state.stack)) = some (true, [12]) := by
    decide +kernel
  obtain ⟨⟨es, c⟩, reached, values⟩ := Option.map_eq_some_iff.mp values
  obtain ⟨confined, stack⟩ := Prod.mk.inj values
  have run := @Run.traced Unit no_hash _ _ _ _ _ _ reached
  obtain ⟨⟨answers, steps⟩, _, _, unspoiled⟩ := @runs_stack_machine Unit no_hash empty_host .CANCUN stacking_code
    { gas := 100 } 0 (fun _ => 0) () _ _ run (of_decide_eq_true confined)
  exact ⟨es, c, answers, run, steps, stack, unspoiled⟩

/-! The stack machine knows what most instructions do by itself. -/

/-- Nothing comes from elsewhere. -/
def StackOp.exact {α : Type} : StackOp α → Bool
  | answer _ => false
  | _ => true

theorem StackOp.apply_exact {α : Type} {op : StackOp α} {v w : α} {xs : List α} (exact : op.exact = true) :
    op.apply v xs = op.apply w xs := by
  cases op with
  | answer => exact Bool.noConfusion exact
  | drop | const | dup | swap => rfl
  | unary | dup_at | swap_at => cases xs <;> rfl
  | binary => match xs with
    | [] | [_] | _ :: _ :: _ => rfl
  | ternary => match xs with
    | [] | [_] | [_, _] | _ :: _ :: _ :: _ => rfl

/-- All but the instructions that put a word on the stack which is not in the code, the message or the stack: one of
the memory or its size or its hash, the size of the return data, an answer of the host, or the gas that is left. -/
def Opcode.exact : Opcode → Bool
  | KECCAK256 | BALANCE | ORIGIN | GASPRICE | EXTCODESIZE | EXTCODEHASH | BLOCKHASH | COINBASE | TIMESTAMP | NUMBER
  | PREVRANDAO | GASLIMIT | CHAINID | SELFBALANCE | BASEFEE | BLOBHASH | BLOBBASEFEE | RETURNDATASIZE | MSIZE | GAS
  | MLOAD | MLOAD8 | MLOAD16 | MLOAD32 | MLOAD64 | SLOAD | TLOAD
  | CREATE | CALL | CALLCODE | DELEGATECALL | CREATE2 | STATICCALL => false
  | _ => true

theorem Program.stack_op_exact {p : Program} {pos : Nat} {op : Opcode} (exact : op.exact = true) :
    (p.stack_op pos op).exact = true := by
  cases op with
  | KECCAK256 | BALANCE | ORIGIN | GASPRICE | EXTCODESIZE | EXTCODEHASH | BLOCKHASH | COINBASE | TIMESTAMP | NUMBER
  | PREVRANDAO | GASLIMIT | CHAINID | SELFBALANCE | BASEFEE | BLOBHASH | BLOBBASEFEE | RETURNDATASIZE | MSIZE | GAS
  | MLOAD | MLOAD8 | MLOAD16 | MLOAD32 | MLOAD64 | SLOAD | TLOAD
  | CREATE | CALL | CALLCODE | DELEGATECALL | CREATE2 | STATICCALL => exact Bool.noConfusion exact
  | _ => rfl

namespace Program
variable {p : Program} {pos : Nat} {op : Opcode} {stack : List Word}

theorem GoesTo.unique {next next' : Option Nat} (goes : p.GoesTo pos op stack next)
    (goes' : p.GoesTo pos op stack next') : next = next' := by
  cases goes with
  | ends last =>
    cases goes' with
    | ends => rfl
    | straight straight => rcases last with rfl | rfl | rfl <;> exact Bool.noConfusion straight
    | jump | taken | not_taken => simp at last
  | straight straight =>
    cases goes' with
    | ends last => rcases last with rfl | rfl | rfl <;> exact Bool.noConfusion straight
    | straight => rfl
    | jump | taken | not_taken => exact Bool.noConfusion straight
  | jump =>
    cases goes' with
    | ends last => simp at last
    | straight straight => exact Bool.noConfusion straight
    | jump => rfl
  | taken holds =>
    cases goes' with
    | ends last => simp at last
    | straight straight => exact Bool.noConfusion straight
    | taken => rfl
    | not_taken fails => exact absurd fails holds
  | not_taken fails =>
    cases goes' with
    | ends last => simp at last
    | straight straight => exact Bool.noConfusion straight
    | taken holds => exact absurd fails holds
    | not_taken => rfl

/-- Whatever it is answered, the machine does the same where it needs no answer. -/
theorem Step.unique {answer answer' : Word} {c c' c'' : StackState} (step : p.Step answer c c')
    (step' : p.Step answer' c c'')
    (exact : ∀ pos op, c.pc = some pos → Opcode.of_byte (p.code.getD pos 0) = some op → op.exact = true) :
    c' = c'' := by
  cases step with
  | @step pos op stack stack' next named applies goes =>
    cases step' with
    | step named' applies' goes' =>
      obtain rfl := Option.some.inj (named.symm.trans named')
      rw [StackOp.apply_exact (stack_op_exact (exact pos op rfl named)), applies', Option.some.injEq] at applies
      rw [applies, goes.unique goes']

end Program

section
variable {H' : Type} [Ethash] {host : Host H} {host' : Host H'} {rev rev' : Revision} {p : Program} {n : Nat}

theorem Config.RunsProgram.agree {c d : Config H} {c' d' : Config H'} (here : c.RunsProgram p)
    (here' : c'.RunsProgram p) (same : c.stack_state = c'.stack_state)
    (ran : turns host (legacy_cost_table rev) n c = some d)
    (ran' : turns host' (legacy_cost_table rev') n c' = some d')
    (exact : ∀ k < n, ∀ b op, turns host (legacy_cost_table rev) k c = some b → b.opcode = some op →
      op.exact = true)
    (inside : ∀ k < n, ∀ b, turns host (legacy_cost_table rev) k c = some b → b.Inside)
    (inside' : ∀ k < n, ∀ b, turns host' (legacy_cost_table rev') k c' = some b → b.Inside) :
    d.stack_state = d'.stack_state := by
  induction n generalizing c c' with
  | zero =>
    obtain rfl : c = d := Option.some.inj ran
    obtain rfl : c' = d' := Option.some.inj ran'
    exact same
  | succ n ih =>
    obtain ⟨es, b, executes, rest⟩ := executes_of_turns ran
    obtain ⟨es', b', executes', rest'⟩ := executes_of_turns ran'
    obtain ⟨there, answer, step⟩ := here.executes (inside 0 (by omega) c rfl) executes
    obtain ⟨there', answer', step'⟩ := here'.executes (inside' 0 (by omega) c' rfl) executes'
    rw [← same] at step'
    have here_exact : ∀ pos op, c.stack_state.pc = some pos →
        Opcode.of_byte (p.code.getD pos 0) = some op → op.exact = true := by
      intro pos op at_pos named
      obtain ⟨code_it, at_it, rfl⟩ := Option.map_eq_some_iff.mp at_pos
      refine exact 0 (by omega) c op rfl ?_
      rw [Config.opcode, at_it, Option.bind_some, here.runs.analysis,
        legacy_code_getD (here.positioned code_it at_it), named]
    refine ih there there' (step.unique step' here_exact) rest rest' (fun k less e op reached => ?_)
      (fun k less e reached => ?_) fun k less e reached => ?_
    · exact exact (k + 1) (by omega) e op (executes.turns_succ.trans reached)
    · exact inside (k + 1) (by omega) e (executes.turns_succ.trans reached)
    · exact inside' (k + 1) (by omega) e (executes'.turns_succ.trans reached)

end

/-- Two frames of the same program are at the same place with the same stack after as many instructions, as long as
these put nothing on the stack that is not in the code, the message or the stack, and write nowhere else: the revision,
the gas and the depth are of no consequence. -/
theorem exact_runs_agree {H' : Type} [Ethash] (host : Host H) (host' : Host H') (rev rev' : Revision) (code : Bytes)
    (msg msg' : Message) (call_id call_id' : Nat) (heap heap' : Nat → UInt8) (h : H) (h' : H') (n : Nat) {c : Config H}
    {c' : Config H'} (same : msg.program code = msg'.program code)
    (ran : turns host (get_baseline_cost_table rev (analyze_legacy code).eof_header.version) n
      (.start (.new msg rev code [] call_id (analyze_legacy code) heap) h) = some c)
    (ran' : turns host' (get_baseline_cost_table rev' (analyze_legacy code).eof_header.version) n
      (.start (.new msg' rev' code [] call_id' (analyze_legacy code) heap') h') = some c')
    (exact : ∀ k < n, ∀ b op, turns host (get_baseline_cost_table rev (analyze_legacy code).eof_header.version) k
      (.start (.new msg rev code [] call_id (analyze_legacy code) heap) h) = some b → b.opcode = some op →
        op.exact = true)
    (inside : ∀ k < n, ∀ b, turns host (get_baseline_cost_table rev (analyze_legacy code).eof_header.version) k
      (.start (.new msg rev code [] call_id (analyze_legacy code) heap) h) = some b → b.Inside)
    (inside' : ∀ k < n, ∀ b, turns host' (get_baseline_cost_table rev' (analyze_legacy code).eof_header.version) k
      (.start (.new msg' rev' code [] call_id' (analyze_legacy code) heap') h') = some b → b.Inside) :
    c.stack_state = c'.stack_state :=
  have here : (Config.start (.new msg' rev' code [] call_id' (analyze_legacy code) heap') h').RunsProgram
      (msg.program code) := same ▸ Config.RunsProgram.start
  Config.RunsProgram.start.agree here rfl ran ran' exact inside inside'

theorem exact_runs_agree_add : ∃ c c', c.stack_state = c'.stack_state ∧ c.stack_state.stack = [10, 7] ∧
    @turns Unit no_hash empty_host (legacy_cost_table .SHANGHAI) 7
      (code_config .SHANGHAI (stacking_code.take 10 ++ [0x01]) 100) = some c ∧
    @turns Unit no_hash empty_host (legacy_cost_table .FRONTIER) 7
      (code_config .FRONTIER (stacking_code.take 10 ++ [0x01]) 50) = some c' := by
  have here : (@turns Unit no_hash empty_host (legacy_cost_table .SHANGHAI) 7
      (code_config .SHANGHAI (stacking_code.take 10 ++ [0x01]) 100)).map (fun c => c.stack_state.stack) =
        some [10, 7] := by decide +kernel
  have there : ∃ c', @turns Unit no_hash empty_host (legacy_cost_table .FRONTIER) 7
      (code_config .FRONTIER (stacking_code.take 10 ++ [0x01]) 50) = some c' :=
    Option.isSome_iff_exists.mp (by decide +kernel)
  obtain ⟨c, ran, stack⟩ := Option.map_eq_some_iff.mp here
  obtain ⟨c', ran'⟩ := there
  have all : ∀ k < 7, ((@turns Unit no_hash empty_host (legacy_cost_table .SHANGHAI) k
      (code_config .SHANGHAI (stacking_code.take 10 ++ [0x01]) 100)).all fun b =>
        decide b.Inside && b.opcode.all Opcode.exact) = true := by
    decide +kernel
  have all' : ∀ k < 7, ((@turns Unit no_hash empty_host (legacy_cost_table .FRONTIER) k
      (code_config .FRONTIER (stacking_code.take 10 ++ [0x01]) 50)).all fun b => decide b.Inside) = true := by
    decide +kernel
  have met {k : Nat} {b : Config Unit} (less : k < 7) (reached : @turns Unit no_hash empty_host
      (legacy_cost_table .SHANGHAI) k (code_config .SHANGHAI (stacking_code.take 10 ++ [0x01]) 100) = some b) :
      b.Inside ∧ b.opcode.all Opcode.exact = true := by
    have here := all k less
    rw [reached, Option.all_some, Bool.and_eq_true] at here
    exact ⟨of_decide_eq_true here.1, here.2⟩
  refine ⟨c, c', @exact_runs_agree Unit Unit no_hash empty_host empty_host .SHANGHAI .FRONTIER
    (stacking_code.take 10 ++ [0x01]) { gas := 100 } { gas := 50 } 0 0 (fun _ => 0) (fun _ => 0) () () 7 c c' rfl ran
      ran' (fun k less b op reached named => ?_) (fun k less b reached => (met less reached).1)
      fun k less b reached => ?_, stack, ran, ran'⟩
  · have exact := (met less reached).2
    rwa [named, Option.all_some] at exact
  · have reached : @turns Unit no_hash empty_host (legacy_cost_table .FRONTIER) k
      (code_config .FRONTIER (stacking_code.take 10 ++ [0x01]) 50) = some b := reached
    have here := all' k less
    rw [reached, Option.all_some] at here
    exact of_decide_eq_true here

end EvmAssigner
