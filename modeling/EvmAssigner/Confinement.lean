import EvmAssigner.MemoryBounds
import EvmAssigner.StackBounds
import EvmAssigner.StackEffects

namespace EvmAssigner
variable {H : Type}

/-- The instructions that write where nothing has been checked reach no deeper than the stack, and stay within the
memory. -/
structure ReachesInside (op : Opcode) (stack_top : Int) (s : ExecutionState) : Prop where
  dup_top : op = .DUP_TOP → StackReach .DUP_TOP stack_top s
  swap_top : op = .SWAP_TOP → StackReach .SWAP_TOP stack_top s
  mcopy : op = .MCOPY → MemoryReach .MCOPY stack_top s

/-- The steps of all frames do: the words below the stack of one may belong to another. -/
def Confines (e : Event) : Prop :=
  ∀ step ∈ e.announced, ∀ op ∈ Opcode.of_byte step.byte, ReachesInside op step.stack_top step.state

/-- Nothing has been written below the stack, where the source has the other fields of the state (`analysis` and
`call_stack` in slot -1, `call_id` and `rw_trace` in slot -10), nor behind the memory. -/
structure ExecutionState.Unspoiled (heap : Nat → UInt8) (s : ExecutionState) : Prop where
  stack : ∀ a < 0, s.stack_space a = 0
  memory : ∀ k, s.memory.m_size ≤ k → s.memory.m_data k = heap k

instance {op : Opcode} {stack_top : Int} {s : ExecutionState} : Decidable (ReachesInside op stack_top s) :=
  decidable_of_iff ((op = .DUP_TOP → StackReach .DUP_TOP stack_top s) ∧
      (op = .SWAP_TOP → StackReach .SWAP_TOP stack_top s) ∧ (op = .MCOPY → MemoryReach .MCOPY stack_top s))
    ⟨fun ⟨dup_top, swap_top, mcopy⟩ => ⟨dup_top, swap_top, mcopy⟩, fun reaches =>
      ⟨reaches.dup_top, reaches.swap_top, reaches.mcopy⟩⟩

instance : DecidablePred Confines := fun e =>
  have (byte : UInt8) (stack_top : Int) (s : ExecutionState) :
      Decidable (∀ op ∈ Opcode.of_byte byte, ReachesInside op stack_top s) := Option.decidableForallMem _
  Option.decidableForallMem e.announced

/-! The stack. -/

theorem Below.update {s s' : ExecutionState} {m slot : Int} {v : Word}
    (put : s'.stack_space = Function.update s.stack_space slot v) (above : m ≤ slot) : Below m s s' := by
  rw [Below, put]
  exact SameBelow.update above

theorem Below.exchange {s s' : ExecutionState} {m slot slot' : Int} {v w : Word}
    (put : s'.stack_space = Function.update (Function.update s.stack_space slot v) slot' w) (above : m ≤ slot)
    (above' : m ≤ slot') : Below m s s' := by
  rw [Below, put]
  exact (SameBelow.update above).trans (SameBelow.update above')

section
variable [Ethash] {host : Host H} {exec : Exec H} {h pos left : Int} {op : Opcode}

/-- No instruction writes to a slot below the stack. -/
theorem below_ensures (fits : Fits op h) (nonneg : 0 ≤ h) (inside : ReachesInside op h exec.state) :
    (map_opcodes host op).Ensures any_event pos h left (fun e => Below 0 exec.state e.state) exec := by
  have pushes {v : Word} : Action.wlp any_event (push_word v h) (fun _ s' => Below 0 exec.state s') exec.state :=
    push_word_slots.mono fun _ _ put => .update put nonneg
  cases op with
  | ADD | MUL | SUB | DIV | SDIV | MOD | SMOD | SIGNEXTEND | LT | GT | SLT | SGT | EQ | AND | OR | XOR | BYTE | SHL
  | SHR | SAR =>
    have operands : 2 ≤ h := fits.operands (by decide)
    exact wlp_on_state.mpr (binary_slots.mono fun _ _ put => .update put (by omega))
  | ISZERO | NOT =>
    have operand : 1 ≤ h := fits.operands (by decide)
    exact wlp_on_state.mpr (unary_slots.mono fun _ _ put => .update put (by omega))
  | CALLDATALOAD =>
    have operand : 1 ≤ h := fits.operands (by decide)
    exact wlp_on_state.mpr (calldataload_slots.mono fun _ _ put => .update put (by omega))
  | ADDMOD =>
    have operands : 3 ≤ h := fits.operands (by decide)
    exact wlp_on_state.mpr (addmod_slots.mono fun _ _ put => .update put (by omega))
  | MULMOD =>
    have operands : 3 ≤ h := fits.operands (by decide)
    exact wlp_on_state.mpr (mulmod_slots.mono fun _ _ put => .update put (by omega))
  | EXP =>
    have operands : 2 ≤ h := fits.operands (by decide)
    exact wlp_on_state.mpr (exp_slots.mono fun _ _ put success => .update (put success) (by omega))
  | KECCAK256 =>
    have operands : 2 ≤ h := fits.operands (by decide)
    exact wlp_on_state.mpr (keccak256_below.mono fun _ _ below success => (below success).mono (by omega))
  | ADDRESS | CALLER | CALLVALUE | CALLDATASIZE | CODESIZE | RETURNDATASIZE | MSIZE | DATASIZE =>
    exact wlp_on_state.mpr (Action.wlp_bind.mpr (Action.wlp_get.mpr pushes))
  | PUSH0 => exact wlp_on_state.mpr pushes
  | GAS =>
    exact wlp_on_state.mpr (Action.wlp_bind.mpr (pushes.mono fun _ _ below => Action.wlp_pure.mpr fun _ => below))
  | PC =>
    exact wlp_on_state.mpr (Action.wlp_bind.mpr (pushes.mono fun _ _ below => Action.wlp_pure.mpr fun _ => below))
  | PUSH n => exact wlp_on_state.mpr (push_below.mono fun _ _ below _ => below.mono nonneg)
  | DATALOADN => exact wlp_on_state.mpr (dataloadn_below.mono fun _ _ below _ => below.mono nonneg)
  | DATALOAD =>
    have operand : 1 ≤ h := fits.operands (by decide)
    exact wlp_on_state.mpr (dataload_below.mono fun _ _ below => below.mono (by omega))
  | ORIGIN | GASPRICE | COINBASE | TIMESTAMP | NUMBER | PREVRANDAO | GASLIMIT | CHAINID | BASEFEE | BLOBBASEFEE =>
    exact push_tx_below.mono fun _ _ below => below.mono nonneg
  | SELFBALANCE => exact selfbalance_below.mono fun _ _ below => below.mono nonneg
  | BALANCE | EXTCODEHASH =>
    have operand : 1 ≤ h := fits.operands (by decide)
    exact (query_account_below fun _ _ _ each => wlp_on_host_any each).mono fun _ _ below success =>
      (below success).mono (by omega)
  | EXTCODESIZE =>
    have operand : 1 ≤ h := fits.operands (by decide)
    refine (query_account_below fun _ _ _ each => ?_).mono fun _ _ below success => (below success).mono (by omega)
    exact Action.wlp_bind.mpr (wlp_on_host_any fun _ _ => Action.wlp_pure.mpr (each _ _))
  | BLOCKHASH =>
    have operand : 1 ≤ h := fits.operands (by decide)
    exact blockhash_below.mono fun _ _ below => below.mono (by omega)
  | BLOBHASH =>
    have operand : 1 ≤ h := fits.operands (by decide)
    exact blobhash_below.mono fun _ _ below => below.mono (by omega)
  | MLOAD | MLOAD8 | MLOAD16 | MLOAD32 | MLOAD64 =>
    have operand : 1 ≤ h := fits.operands (by decide)
    exact wlp_on_state.mpr (mload_below.mono fun _ _ below success => (below success).mono (by omega))
  | MSTORE | MSTORE8 | MSTORE16 | MSTORE32 | MSTORE64 =>
    have operands : 2 ≤ h := fits.operands (by decide)
    exact wlp_on_state.mpr (mstore_below.mono fun _ _ below success => (below success).mono (by omega))
  | SLOAD =>
    have operand : 1 ≤ h := fits.operands (by decide)
    exact sload_below.mono fun _ _ below success => (below success).mono (by omega)
  | TLOAD =>
    have operand : 1 ≤ h := fits.operands (by decide)
    exact tload_below.mono fun _ _ below => below.mono (by omega)
  | SSTORE =>
    have operands : 2 ≤ h := fits.operands (by decide)
    exact sstore_below.mono fun _ _ below success => (below success).mono (by omega)
  | TSTORE =>
    have operands : 2 ≤ h := fits.operands (by decide)
    exact tstore_below.mono fun _ _ below success => (below success).mono (by omega)
  | CALLDATACOPY =>
    have operands : 3 ≤ h := fits.operands (by decide)
    exact wlp_on_state.mpr (calldatacopy_below.mono fun _ _ below success => (below success).mono (by omega))
  | CODECOPY =>
    have operands : 3 ≤ h := fits.operands (by decide)
    exact wlp_on_state.mpr (codecopy_below.mono fun _ _ below success => (below success).mono (by omega))
  | RETURNDATACOPY =>
    have operands : 3 ≤ h := fits.operands (by decide)
    exact wlp_on_state.mpr (returndatacopy_below.mono fun _ _ below success => (below success).mono (by omega))
  | MCOPY =>
    have operands : 3 ≤ h := fits.operands (by decide)
    exact wlp_on_state.mpr (mcopy_below.mono fun _ _ below success => (below success).mono (by omega))
  | DATACOPY =>
    have operands : 3 ≤ h := fits.operands (by decide)
    exact wlp_on_state.mpr (datacopy_below.mono fun _ _ below success => (below success).mono (by omega))
  | EXTCODECOPY =>
    have operands : 4 ≤ h := fits.operands (by decide)
    exact extcodecopy_below.mono fun _ _ below success => (below success).mono (by omega)
  | DUP n => exact wlp_on_state.mpr (dup_slot_slots.mono fun _ _ put => .update put nonneg)
  | DUP_TOP =>
    have operand : 1 ≤ h := fits.operands (by decide)
    exact wlp_on_state.mpr (dup_top_slots.mono fun _ _ put => .update put (by omega))
  | DUPN =>
    refine wlp_on_state.mpr (dupn_slots.mono fun _ _ turned success => ?_)
    obtain ⟨_, _, put⟩ := turned success
    exact .update put nonneg
  | SWAP n =>
    have deep : (n.val : Int) + 2 ≤ h := fits.operands (show (n.val : Int) + 2 > 0 by omega)
    refine wlp_on_state.mpr (swap_slots_slots.mono fun _ _ put => .exchange put (by omega) ?_)
    push_cast
    omega
  | SWAP_TOP =>
    have live : (uint16 (exec.state.stack_space (h - 1)).to_uint64 : Int) + 2 ≤ h := inside.swap_top rfl
    exact wlp_on_state.mpr (swap_top_slots.mono fun _ _ put => .exchange put (by omega) (by omega))
  | SWAPN =>
    refine wlp_on_state.mpr (swapn_slots.mono fun _ _ turned success => ?_)
    obtain ⟨_, deep, put⟩ := turned success
    exact .exchange put (by omega) (by omega)
  | POP | JUMPDEST => exact wlp_on_state.mpr (Action.wlp_pure.mpr (.refl _ _))
  | LOG n =>
    by_cases one : n.val = 1
    · obtain rfl : n = 1 := Fin.ext one
      exact wlp_on_state.mpr (Action.wlp_pure.mpr (.refl _ _))
    · simp only [map_opcodes, if_neg one]
      trivial
  | PRINTF => trivial
  | JUMP => exact wlp_on_state.mpr (jump_slots.mono fun _ _ same _ => .of_eq same)
  | JUMPI => exact wlp_on_state.mpr (jumpi_slots.mono fun _ _ same _ => .of_eq same)
  | RJUMP => exact wlp_on_state.mpr (rjump_slots.mono fun _ _ same _ => .of_eq same)
  | RJUMPI => exact wlp_on_state.mpr (rjumpi_slots.mono fun _ _ same _ => .of_eq same)
  | RJUMPV => exact wlp_on_state.mpr (rjumpv_slots.mono fun _ _ same _ => .of_eq same)
  | CALLF => exact wlp_on_state.mpr (callf_slots.mono fun _ _ same _ => .of_eq same)
  | RETF => exact wlp_on_state.mpr (retf_slots.mono fun _ _ same _ => .of_eq same)
  | JUMPF => exact wlp_on_state.mpr (jumpf_slots.mono fun _ _ same _ => .of_eq same)
  | STOP | INVALID => exact wlp_on_state.mpr (Action.wlp_pure.mpr fun _ => .refl _ _)
  | RETURN | REVERT =>
    have operands : 2 ≤ h := fits.operands (by decide)
    exact wlp_on_state.mpr (return_impl_below.mono fun _ _ below _ => below.mono (by omega))
  | SELFDESTRUCT =>
    have operand : 1 ≤ h := fits.operands (by decide)
    exact selfdestruct_below.mono fun _ _ below _ => below.mono (by omega)
  | CREATE =>
    have operands : (CreateOp.CREATE.num_stack_read : Int) ≤ h := fits.operands (by decide)
    exact (create_impl_below .CREATE).mono fun _ _ below success => (below success).mono (by omega)
  | CREATE2 =>
    have operands : (CreateOp.CREATE2.num_stack_read : Int) ≤ h := fits.operands (by decide)
    exact (create_impl_below .CREATE2).mono fun _ _ below success => (below success).mono (by omega)
  | CALL =>
    have operands : (CallOp.CALL.num_stack_read : Int) ≤ h := fits.operands (by decide)
    exact (call_impl_below .CALL).mono fun _ _ below success => (below success).mono (by omega)
  | CALLCODE =>
    have operands : (CallOp.CALLCODE.num_stack_read : Int) ≤ h := fits.operands (by decide)
    exact (call_impl_below .CALLCODE).mono fun _ _ below success => (below success).mono (by omega)
  | DELEGATECALL =>
    have operands : (CallOp.DELEGATECALL.num_stack_read : Int) ≤ h := fits.operands (by decide)
    exact (call_impl_below .DELEGATECALL).mono fun _ _ below success => (below success).mono (by omega)
  | STATICCALL =>
    have operands : (CallOp.STATICCALL.num_stack_read : Int) ≤ h := fits.operands (by decide)
    exact (call_impl_below .STATICCALL).mono fun _ _ below success => (below success).mono (by omega)

end

/-! The memory. -/

/-- The bytes behind the memory are what the heap has there. -/
def Contained (heap : Nat → UInt8) (s : ExecutionState) : Prop :=
  ∀ k, s.memory.m_size ≤ k → s.memory.m_data k = heap k

section
variable {heap : Nat → UInt8} {s s' : ExecutionState} {h gas_left : Int}

theorem Contained.of_memory (inv : Contained heap s) (same : s'.memory = s.memory) : Contained heap s' := by
  unfold Contained
  rw [same]
  exact inv

theorem Contained.store (inv : Contained heap s) {dst : Nat} {data : Bytes}
    (within : Within dst data.length s.memory.m_size) : Contained heap (s.set_memory (s.memory.store dst data)) := by
  intro k behind
  rw [ExecutionState.set_memory_memory, Memory.store_m_size] at behind
  rw [ExecutionState.set_memory_memory, Memory.store_m_data, if_neg]
  · exact inv k behind
  · rcases within with empty | room
    · omega
    · omega

theorem Contained.grow (inv : Contained heap s) {n : Nat} (larger : s.memory.m_size < n) :
    Contained heap (s.set_memory (s.memory.grow n)) := by
  intro k behind
  rw [ExecutionState.set_memory_memory, Memory.grow_m_size] at behind
  rw [ExecutionState.set_memory_memory, Memory.grow_m_data, if_neg (by omega)]
  exact inv k (by omega)

theorem contained_closed : Closed any_event (Contained heap) where
  record _ _ _ inv := inv
  push_storage _ _ _ _ _ inv := inv
  set_slot _ _ inv := inv
  set_status _ inv := inv
  set_return_data _ inv := inv
  set_output _ _ inv _ := inv
  set_call_stack _ inv := inv
  add_refund _ inv := inv
  set_tx _ inv := inv
  grow inv larger _ := inv.grow larger
  host_output inv within _ := inv.store within

/-- Requests come behind reads of the stack, which do not concern the memory. -/
theorem wlp_check_memory_contained (inv : Contained heap s) (same : s'.memory = s.memory) {offset size : Word}
    {Q : Bool × Int → ExecutionState → Prop}
    (each : ∀ ok left s'', Checked s' gas_left offset size.to_uint64 ok left s'' → Contained heap s'' →
      Q (ok, left) s'') : Action.wlp any_event (check_memory gas_left offset size) Q s' :=
  wlp_check_memory fun ok left s'' checked _ => each ok left s'' checked
    (contained_closed.toInert.unread.checked (inv.of_memory same) checked)

theorem wlp_check_memory_size_contained (inv : Contained heap s) (same : s'.memory = s.memory) {offset : Word}
    {Q : Bool × Int → ExecutionState → Prop}
    (each : ∀ ok left s'', (¬ (!ok) = true → offset.to_uint64 + 32 ≤ s''.memory.m_size) → Contained heap s'' →
      Q (ok, left) s'') : Action.wlp any_event (check_memory_size gas_left offset 32) Q s' := by
  refine wlp_check_memory_size (by omega) fun ok left s'' checked =>
    each ok left s'' (fun passed => ?_) (contained_closed.toInert.unread.checked (inv.of_memory same) checked)
  obtain rfl : ok = true := by simpa using passed
  exact (checked.room rfl (by decide)).2.1

variable (inv : Contained heap s)
include inv

theorem wlp_record_bytes_contained {address : Nat → Word} {is_write : Bool} {data : Bytes}
    {Q : Unit → ExecutionState → Prop} (each : ∀ s', s'.memory = s.memory → Contained heap s' → Q () s') :
    Action.wlp any_event (record_bytes address is_write data) Q s :=
  wlp_record_bytes_untouched (fun _ _ => trivial) fun s' same => each s' same (inv.of_memory same)

theorem wlp_memory_store_contained {dst : Nat} {data : Bytes} {Q : Unit → ExecutionState → Prop}
    (within : Within dst data.length s.memory.m_size)
    (each : ∀ s', s'.memory.m_size = s.memory.m_size → Contained heap s' → Q () s') :
    Action.wlp any_event (memory_store dst data) Q s :=
  wlp_memory_store.mpr (each _ rfl (inv.store within))

theorem keccak256_contained [Ethash] :
    Action.wlp any_event (keccak256 h gas_left) (fun _ s' => Contained heap s') s := by
  simp only [keccak256, Action.wlp_bind, wlp_record_stack, wlp_stack_get]
  refine wlp_check_memory_contained inv (by rfl) fun ok left s' _ inv' => ?_
  simp only [Action.wlp_bind, Action.wlp_ite, Action.wlp_pure, wlp_memory_load, wlp_stack_set, wlp_record_stack]
  refine ⟨fun _ => inv', fun _ => ⟨fun _ => inv', fun _ => ⟨fun _ => ?_, fun _ => ⟨fun _ => inv', fun _ => inv'⟩⟩⟩⟩
  exact wlp_record_bytes_contained inv' fun s'' _ inv'' => ⟨fun _ => inv'', fun _ => inv''⟩

theorem copy_padded_contained {source : Bytes} {dst src n : Nat} {Q : Nat → ExecutionState → Prop}
    (room : Within dst n s.memory.m_size) (each : ∀ copied s', Contained heap s' → Q copied s') :
    Action.wlp any_event (copy_padded source dst src n) Q s := by
  have copy : Within dst ((source.drop src).take (min n (source.length - src))).length s.memory.m_size :=
    room.part le_rfl (by rw [List.length_take, List.length_drop]; omega)
  have zeros : Within (dst + min n (source.length - src))
      (List.replicate (n - min n (source.length - src)) (0 : UInt8)).length s.memory.m_size :=
    room.part (by omega) (by rw [List.length_replicate]; omega)
  simp only [copy_padded, Action.wlp_bind, Action.wlp_ite, Action.wlp_pure]
  refine ⟨fun _ => wlp_memory_store_contained inv copy fun s' same inv' => ⟨fun _ => ?_, fun _ => each _ _ inv'⟩,
    fun _ => ⟨fun _ => ?_, fun _ => each _ _ inv⟩⟩
  · exact wlp_memory_store_contained inv' (same ▸ zeros) fun _ _ => each _ _
  · exact wlp_memory_store_contained inv zeros fun _ _ => each _ _

theorem copy_to_memory_contained {source : Bytes} :
    Action.wlp any_event (copy_to_memory source h gas_left) (fun _ s' => Contained heap s') s := by
  simp only [copy_to_memory, Action.wlp_bind, wlp_record_stack, wlp_stack_get]
  refine wlp_check_memory_contained inv (by rfl) fun ok left s' checked inv' => ?_
  simp only [Action.wlp_bind, Action.wlp_ite, Action.wlp_pure, wlp_memory_load]
  refine ⟨fun _ => inv', fun passed => ⟨fun _ => inv', fun _ => ?_⟩⟩
  refine copy_padded_contained inv' (checked.within passed) fun _ s'' inv'' => ?_
  exact wlp_record_bytes_contained inv'' fun _ _ kept => kept

theorem calldatacopy_contained :
    Action.wlp any_event (calldatacopy h gas_left) (fun _ s' => Contained heap s') s := by
  rw [calldatacopy, Action.wlp_bind, Action.wlp_get]
  exact copy_to_memory_contained inv

theorem codecopy_contained : Action.wlp any_event (codecopy h gas_left) (fun _ s' => Contained heap s') s := by
  rw [codecopy, Action.wlp_bind, Action.wlp_get]
  exact copy_to_memory_contained inv

theorem returndatacopy_contained :
    Action.wlp any_event (returndatacopy h gas_left) (fun _ s' => Contained heap s') s := by
  simp only [returndatacopy, Action.wlp_bind, Action.wlp_get, wlp_record_stack, wlp_stack_get]
  refine wlp_check_memory_contained inv (by rfl) fun ok left s' checked inv' => ?_
  simp only [Action.wlp_bind, Action.wlp_ite, Action.wlp_pure, wlp_memory_load]
  refine ⟨fun _ => inv', fun passed => ⟨fun _ => inv', fun _ => ⟨fun _ => inv', fun _ => ⟨fun _ => inv',
    fun _ => ⟨fun _ => ?_, fun _ => inv'⟩⟩⟩⟩⟩
  refine wlp_memory_store_contained inv' ((checked.within passed).part le_rfl ?_) fun s'' _ inv'' =>
    wlp_record_bytes_contained inv'' fun _ _ kept => kept
  rw [List.length_take]
  omega

theorem mload_contained : Action.wlp any_event (mload h gas_left) (fun _ s' => Contained heap s') s := by
  simp only [mload, Action.wlp_bind, wlp_record_stack, wlp_stack_get]
  refine wlp_check_memory_size_contained inv (by rfl) fun ok left s' _ inv' => ?_
  simp only [Action.wlp_bind, Action.wlp_ite, Action.wlp_pure, wlp_memory_load, wlp_stack_set, wlp_record_stack]
  have put (v : Word) : Contained heap (s'.set_slot (h - 1 - 0) v) := inv'
  exact ⟨fun _ => inv', fun _ => wlp_record_bytes_contained (put _) fun _ _ kept => kept⟩

theorem mstore_contained {width : Nat} (most : width ≤ 32) :
    Action.wlp any_event (mstore width h gas_left) (fun _ s' => Contained heap s') s := by
  simp only [mstore, Action.wlp_bind, wlp_record_stack, wlp_stack_get]
  refine wlp_check_memory_size_contained inv (by rfl) fun ok left s' room inv' => ?_
  simp only [Action.wlp_bind, Action.wlp_ite, Action.wlp_pure, wlp_memory_load]
  refine ⟨fun _ => inv', fun passed => wlp_memory_store_contained inv' (Or.inr ?_) fun s'' _ inv'' =>
    wlp_record_bytes_contained inv'' fun _ _ kept => kept⟩
  have room := room passed
  rw [store_length]
  omega

theorem mcopy_contained (reach : MemoryReach .MCOPY h s) :
    Action.wlp any_event (mcopy h gas_left) (fun _ s' => Contained heap s') s := by
  simp only [MemoryReach, sub_zero] at reach
  simp only [mcopy, Action.wlp_bind, wlp_record_stack, wlp_stack_get, sub_zero, ExecutionState.record_stack_space]
  refine wlp_check_memory_contained inv (by rfl) fun ok left s' checked inv' => ?_
  simp only [Action.wlp_bind, Action.wlp_ite, Action.wlp_pure, wlp_memory_load]
  refine ⟨fun _ => inv', fun passed => ⟨fun _ => inv', fun _ => ⟨fun some => ?_, fun _ => inv'⟩⟩⟩
  obtain rfl : ok = true := by simpa using passed
  have some := Nat.pos_iff_ne_zero.mp some
  obtain ⟨_, _, size⟩ := checked.room rfl some
  refine wlp_memory_store_contained inv' (Or.inr ?_) fun _ _ kept => kept
  rw [load_length]
  exact (reach some).1.trans_eq size.symm

theorem datacopy_contained : Action.wlp any_event (datacopy h gas_left) (fun _ s' => Contained heap s') s := by
  simp only [datacopy, Action.wlp_bind, Action.wlp_get, wlp_record_stack, wlp_stack_get]
  refine wlp_check_memory_contained inv (by rfl) fun ok left s' checked inv' => ?_
  simp only [Action.wlp_bind, Action.wlp_ite, Action.wlp_pure, wlp_memory_load]
  refine ⟨fun _ => inv', fun passed => ⟨fun _ => inv', fun _ => ?_⟩⟩
  have room := checked.within passed
  have zeros {s'' : ExecutionState} (inv'' : Contained heap s'') (address : Nat → Word) (dst n : Nat)
      (within : Within dst n s''.memory.m_size) : Action.wlp any_event (memory_store dst (List.replicate n 0))
        (fun _ s₃ => Action.wlp any_event (record_bytes address true (List.replicate n 0))
          (fun _ s₄ => Contained heap s₄) s₃) s'' :=
    wlp_memory_store_contained inv'' (by rwa [List.length_replicate]) fun _ _ inv₃ =>
      wlp_record_bytes_contained inv₃ fun _ _ kept => kept
  refine ⟨fun _ => ?_, fun _ => ⟨fun _ => zeros inv' _ _ _ (room.part (by omega) (by omega)), fun _ => inv'⟩⟩
  refine wlp_memory_store_contained inv' (room.part le_rfl ?_) fun s'' size inv'' => ?_
  · rw [List.length_take, List.length_drop]
    omega
  · refine wlp_record_bytes_contained inv'' fun s₃ same inv₃ => ⟨fun _ => zeros inv₃ _ _ _ ?_, fun _ => inv₃⟩
    rw [same, size]
    exact room.part (by omega) (by omega)

end

section
variable [Ethash] {host : Host H} {exec : Exec H} {h pos left : Int} {op : Opcode} {heap : Nat → UInt8}

/-- No instruction writes to bytes behind the memory. -/
theorem contained_ensures (inv : Contained heap exec.state) (inside : ReachesInside op h exec.state) :
    (map_opcodes host op).Ensures any_event pos h left (fun e => Contained heap e.state) exec := by
  have done {m : Local InstructionResult} (kept : Action.wlp any_event m (fun _ s => Contained heap s) exec.state) :
      Action.wlp any_event (on_state m : Instr H InstructionResult)
        (fun o e => o.status = .SUCCESS → Contained heap e.state) exec :=
    wlp_on_state.mpr (kept.mono fun _ _ inv _ => inv)
  by_cases apart : op.on_memory = false
  · exact (contained_closed.step apart (fun _ => inferInstance) inv).ensures fun _ inv => inv
  · cases op with
    | KECCAK256 => exact done (keccak256_contained inv)
    | CALLDATACOPY => exact done (calldatacopy_contained inv)
    | CODECOPY => exact done (codecopy_contained inv)
    | RETURNDATACOPY => exact done (returndatacopy_contained inv)
    | MLOAD | MLOAD8 | MLOAD16 | MLOAD32 | MLOAD64 => exact done (mload_contained inv)
    | MSTORE | MSTORE8 | MSTORE16 | MSTORE32 | MSTORE64 => exact done (mstore_contained inv (by decide))
    | MCOPY => exact done (mcopy_contained inv (inside.mcopy rfl))
    | DATACOPY => exact done (datacopy_contained inv)
    | _ => exact absurd rfl apart

end

/-! Whole runs. -/

/-- The instruction that is about to be executed reaches inside. -/
def Config.Inside (c : Config H) : Prop := ∀ op ∈ c.opcode, ReachesInside op c.stack_top c.exec.state

instance {c : Config H} : Decidable c.Inside := Option.decidableForallMem c.opcode

section
variable [Ethash] {host : Host H} {cost_table : Opcode → Int} {c c' : Config H} {es : List Event}
  {heap : Nat → UInt8}

theorem Executes.inside (executes : Executes host cost_table c es c') (confined : ∀ e ∈ es, Confines e) :
    c.Inside := by
  obtain ⟨_, code_it, at_it, ran⟩ := executes
  have announced : Action.wlp ⟨Confines, fun _ => True⟩ (turn host cost_table code_it c.stack_top c.gas)
      (fun _ _ => c.Inside) c.exec := by
    simp only [turn, read_code, Action.wlp_bind, wlp_on_state, Action.wlp_get, Action.wlp_emit, Action.wlp_pure]
    refine fun _ => ⟨trivial, fun step => ⟨trivial, ?_⟩⟩
    refine Action.Contract.After.of_ensures (fun _ => trivial) fun _ _ _ op named => ?_
    rw [Config.opcode, at_it] at named
    exact step _ rfl op named
  exact (announced.returns_of_eq ran confined).2

/-- A frame with a stack, that has written nowhere else. -/
structure Config.Kept (heap : Nat → UInt8) (c : Config H) : Prop where
  nonneg : 0 ≤ c.stack_top
  bound : c.stack_top ≤ 1024
  unspoiled : c.exec.state.Unspoiled heap

/-- An instruction that reaches inside spoils nothing. -/
theorem Config.Kept.executes (kept : c.Kept heap) (inside : c.Inside) (executes : Executes host cost_table c es c') :
    c'.Kept heap := by
  obtain ⟨succeeds, code_it, at_it, ran⟩ := executes
  have turned : Action.wlp any_event (turn host cost_table code_it c.stack_top c.gas) (fun next e =>
      next.code_it ≠ none ∨ e.state.status = .SUCCESS → (0 ≤ next.stack_top ∧ next.stack_top ≤ 1024) ∧
        Below 0 c.exec.state e.state ∧ Contained heap e.state) c.exec := by
    refine wlp_turn_leads ⟨trivial, trivial⟩ ?_ fun op name _ meets _ => ?_
    · exact fun status left failed _ success => absurd (success.resolve_left (not_not.mpr rfl)) failed
    · have reaches : ReachesInside op c.stack_top c.exec.state := inside op (by rwa [Config.opcode, at_it])
      refine ((below_ensures meets.toFits kept.nonneg reaches).invoke_impl.and
        (contained_ensures kept.unspoiled.memory reaches).invoke_impl).mono ?_
      rintro next e ⟨below, contained⟩ success
      exact ⟨meets.toFits.range kept.nonneg kept.bound, below success, contained success⟩
  obtain ⟨⟨nonneg, bound⟩, below, contained⟩ := (turned.returns_of_eq ran fun _ _ => trivial).2 succeeds
  exact ⟨nonneg, bound, fun a negative => (below a negative).trans (kept.unspoiled.stack a negative), contained⟩

omit [Ethash] in
theorem Config.Kept.start {msg : Message} {rev : Revision} {code data : Bytes} {call_id : Nat}
    {analysis : CodeAnalysis} {h : H} : (Config.start (.new msg rev code data call_id analysis heap) h).Kept heap where
  nonneg := le_rfl
  bound := show (0 : Int) ≤ 1024 by decide
  unspoiled := ⟨fun _ _ => rfl, fun _ _ => rfl⟩

theorem Run.kept (run : Run host cost_table c es c') (confined : ∀ e ∈ es, Confines e) (kept : c.Kept heap) :
    c'.Kept heap := by
  induction run with
  | start => exact kept
  | next _ executes ih =>
    have before := ih fun e member => confined e (List.mem_append_left _ member)
    exact before.executes (executes.inside fun e member => confined e (List.mem_append_right _ member)) executes

theorem Run.unspoiled {msg : Message} {rev : Revision} {code data : Bytes} {call_id : Nat} {analysis : CodeAnalysis}
    {h : H} (run : Run host cost_table (.start (.new msg rev code data call_id analysis heap) h) es c)
    (confined : ∀ e ∈ es, Confines e) : c.exec.state.Unspoiled heap :=
  (run.kept confined .start).unspoiled

end
end EvmAssigner
