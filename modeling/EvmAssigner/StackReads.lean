import EvmAssigner.StackBounds

namespace EvmAssigner
variable {H : Type}

/-- A read entry is that of a live slot, with the word that is in it. -/
def ReadsSlot (stack_top : Int) (before : ExecutionState) (o : rw_operation) : Prop :=
  o.op = STACK_OP → o.is_write = false →
    ∃ a : Nat, (a : Int) < stack_top ∧ o.address = BitVec.ofNat 256 a ∧ o.value = before.stack_space a

/-- The trace goes on from that of the state `before`, with read entries of its stack only. -/
def ReadFrom (stack_top : Int) (before s : ExecutionState) : Prop :=
  ∃ appended, s.rw_trace = before.rw_trace ++ appended ∧ ∀ o ∈ appended, ReadsSlot stack_top before o

section
variable {before s : ExecutionState} {h pos : Int} {op : Opcode}

namespace ReadFrom

theorem start : ReadFrom h s s := ⟨[], (List.append_nil _).symm, fun _ none => absurd none List.not_mem_nil⟩

theorem push_rw {o : rw_operation} (read : ReadFrom h before s) (reads : ReadsSlot h before o) :
    ReadFrom h before (s.push_rw o) := by
  obtain ⟨appended, trace, all⟩ := read
  refine ⟨appended ++ [o], ?_, fun o' member => ?_⟩
  · rw [ExecutionState.push_rw_rw_trace, trace, List.append_assoc]
  · rcases List.mem_append.mp member with earlier | last
    · exact all o' earlier
    · obtain rfl := List.mem_singleton.mp last
      exact reads

/-- What is written, or is not about the stack, is no matter. -/
theorem unread {P : Action.Contract Event} : WideUnread P (ReadFrom h before) where
  write _ _ read := read.push_rw fun _ written => Bool.noConfusion written
  push_storage _ _ _ _ _ read := read.push_rw fun stack => absurd stack (by decide : STORAGE_OP ≠ STACK_OP)
  set_slot _ _ read := read
  set_status _ read := read
  set_return_data _ read := read
  set_output _ _ read _ := read
  add_refund _ read := read
  set_tx _ read := read
  grow read _ _ := read
  host_output read _ _ := read
  store _ _ read := read
  push_memory _ _ _ read := read.push_rw fun stack => absurd stack (by decide : MEMORY_OP ≠ STACK_OP)

/-- Reads of items of the stack, before it is written to. -/
theorem record_reads {reads : List (Int × Int)} (read : ReadFrom h before s)
    (same : s.stack_space = before.stack_space) (bound : h ≤ 1024)
    (live : ∀ item ∈ reads, 0 ≤ item.2 ∧ item.2 < item.1 ∧ item.1 ≤ h) : ReadFrom h before (s.record_reads reads) := by
  induction reads generalizing s with
  | nil => exact read
  | cons item reads ih =>
    obtain ⟨lower, deep, below⟩ := live item List.mem_cons_self
    refine ih (read.push_rw fun _ _ => ?_) same fun item' member => live item' (List.mem_cons_of_mem _ member)
    have address : (stack_address item.1 item.2 : Int) = item.1 - 1 - item.2 := by
      rw [stack_address_mod]
      omega
    refine ⟨stack_address item.1 item.2, by omega, rfl, ?_⟩
    rw [address, ← same]
    rfl

end ReadFrom

theorem items_live {depths : List Int} {n : Int} (within : ∀ i ∈ depths, 0 ≤ i ∧ i < n) (enough : n ≤ h) :
    ∀ item ∈ depths.map fun i => (h, i), 0 ≤ item.2 ∧ item.2 < item.1 ∧ item.1 ≤ h := by
  intro item member
  obtain ⟨i, listed, rfl⟩ := List.mem_map.mp member
  obtain ⟨lower, upper⟩ := within i listed
  exact ⟨lower, upper.trans_le enough, le_rfl⟩

/-- Where the depth is not an item of the stack, the items that are read are live. -/
theorem Fits.reads_live (fits : Fits op h) (nonneg : 0 ≤ h) (fixed : op ≠ .DUP_TOP ∧ op ≠ .SWAP_TOP) :
    ∀ item ∈ op.stack_reads h pos s, 0 ≤ item.2 ∧ item.2 < item.1 ∧ item.1 ≤ h := by
  have operands : stack_height_required op ≤ h := by
    by_cases needs : stack_height_required op > 0
    · exact fits.operands needs
    · omega
  cases op with
  | DUP_TOP => exact absurd rfl fixed.1
  | SWAP_TOP => exact absurd rfl fixed.2
  | ISZERO | NOT | CALLDATALOAD | JUMP | RJUMPI | RJUMPV | DATALOAD | MLOAD | MLOAD8 | MLOAD16 | MLOAD32 | MLOAD64
  | BALANCE | EXTCODESIZE | EXTCODEHASH | BLOCKHASH | BLOBHASH | SLOAD | TLOAD | SELFDESTRUCT =>
    exact @items_live h [0] 1 (by decide) operands
  | ADD | MUL | SUB | DIV | SDIV | MOD | SMOD | SIGNEXTEND | LT | GT | SLT | SGT | EQ | AND | OR | XOR | BYTE | SHL
  | SHR | SAR | EXP | KECCAK256 | JUMPI | RETURN | REVERT | MSTORE | MSTORE8 | MSTORE16 | MSTORE32 | MSTORE64
  | SSTORE | TSTORE => exact @items_live h [1, 0] 2 (by decide) operands
  | ADDMOD | MULMOD | CALLDATACOPY | CODECOPY | RETURNDATACOPY | MCOPY | DATACOPY =>
    exact @items_live h [2, 1, 0] 3 (by decide) operands
  | EXTCODECOPY => exact @items_live h [3, 2, 1, 0] 4 (by decide) operands
  | CREATE => exact @items_live h [0, 1, 2] 3 (by decide) operands
  | CREATE2 => exact @items_live h [0, 1, 2, 3] 4 (by decide) operands
  | DELEGATECALL | STATICCALL => exact @items_live h [0, 1, 2, 3, 4, 5] 6 (by decide) operands
  | CALL | CALLCODE => exact @items_live h [0, 1, 2, 3, 4, 5, 6] 7 (by decide) operands
  | DUP n =>
    have live : ∀ i ∈ [((n.val + 1 : Nat) : Int) - 1], 0 ≤ i ∧ i < (n.val : Int) + 1 := by simp
    exact items_live live operands
  | SWAP n =>
    have live : ∀ i ∈ [((n.val + 1 : Nat) : Int), 0], 0 ≤ i ∧ i < (n.val : Int) + 2 := by
      simp
      omega
    exact items_live live operands
  | DUPN | SWAPN =>
    -- what these need is not in the table, but they look at their depth
    simp only [Opcode.stack_reads]
    split_ifs
    · simp
    · simp
      omega
  | _ => exact fun _ none => absurd none List.not_mem_nil

end

/-- The read entries that an instruction leaves, whether it succeeds or not, are faithful. -/
theorem stack_reads_faithful [Ethash] (host : Host H) (cost_table : Opcode → Int) {op : Opcode}
    {stack_top gas left code_it : Int} {exec exec' : Exec H} {next : Option Int × Int}
    (fixed : op ≠ .DUP_TOP ∧ op ≠ .SWAP_TOP) (within : 0 ≤ stack_top ∧ stack_top ≤ 1024)
    (passed : check_requirements cost_table gas stack_top (some op) = (.SUCCESS, left))
    (returns : (invoke_impl (map_opcodes host op) code_it stack_top left exec).2 = some (next, exec')) :
    ∃ appended, exec'.state.rw_trace = exec.state.rw_trace ++ appended ∧
      ∀ o ∈ appended, o.op = STACK_OP → o.is_write = false →
        ∃ a : Nat, (a : Int) < stack_top ∧ o.address = BitVec.ofNat 256 a ∧ o.value = exec.state.stack_space a := by
  obtain ⟨nonneg, bound⟩ := within
  have meets : Meets cost_table op stack_top := (check_requirements_success (by rw [passed])).1
  have popped : ReadFrom stack_top exec.state
      (exec.state.record_reads (op.stack_reads stack_top code_it exec.state)) :=
    ReadFrom.start.record_reads rfl bound (meets.toFits.reads_live nonneg fixed)
  have keeps : (map_opcodes host op).Keeps any_event code_it stack_top left (ReadFrom stack_top exec.state) exec :=
    ReadFrom.unread.step (fun _ _ _ read => read) (fun _ => inferInstance) .start popped
  exact ((keeps.invoke_impl (fun _ read => read) .start).returns (fun _ _ => trivial) returns).2

/-- `3 ** 255` is about to be computed. -/
def exp_exec : Exec Unit :=
  ⟨((code_config .SHANGHAI [0x0a] 20).exec.state.set_slot 0 255).set_slot 1 3, ()⟩

/-- `EXP` records its operands, and then runs out of gas. -/
theorem stack_reads_exp : ∃ next exec', (@invoke_impl Unit (@map_opcodes Unit no_hash empty_host .EXP) 0 2 10
      exp_exec).2 = some (next, exec') ∧ exec'.state.status = .OUT_OF_GAS ∧
    ∃ appended, exec'.state.rw_trace = exp_exec.state.rw_trace ++ appended ∧
      ∀ o ∈ appended, o.op = STACK_OP → o.is_write = false →
        ∃ a : Nat, (a : Int) < 2 ∧ o.address = BitVec.ofNat 256 a ∧ o.value = exp_exec.state.stack_space a := by
  have fails : (@invoke_impl Unit (@map_opcodes Unit no_hash empty_host .EXP) 0 2 10 exp_exec).2.map
      (fun r => r.2.state.status) = some .OUT_OF_GAS := by decide +kernel
  obtain ⟨⟨next, exec'⟩, returns, status⟩ := Option.map_eq_some_iff.mp fails
  exact ⟨next, exec', returns, status, @stack_reads_faithful _ no_hash empty_host (legacy_cost_table .SHANGHAI) .EXP
    2 20 10 0 _ _ _ (by decide) (by decide) (by decide +kernel) returns⟩

end EvmAssigner
