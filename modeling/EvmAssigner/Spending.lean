import EvmAssigner.IndexOperands
import EvmAssigner.PushImmediates
import EvmAssigner.VmRuns

namespace EvmAssigner
variable {H : Type}

/-- What may be left of `gas` when a frame goes on, or ends and reports it. -/
def InstructionResult.Within (o : InstructionResult) (gas : Int) : Prop :=
  o.status = .SUCCESS ∨ o.status = .REVERT → 0 ≤ o.gas_left ∧ o.gas_left ≤ gas

section
variable {left gas : Int}

@[simp] theorem within_success : (⟨.SUCCESS, left⟩ : InstructionResult).Within gas ↔ 0 ≤ left ∧ left ≤ gas := by
  simp [InstructionResult.Within]

@[simp] theorem within_revert : (⟨.REVERT, left⟩ : InstructionResult).Within gas ↔ 0 ≤ left ∧ left ≤ gas := by
  simp [InstructionResult.Within]

@[simp] theorem within_out_of_gas : (⟨.OUT_OF_GAS, left⟩ : InstructionResult).Within gas := by
  simp [InstructionResult.Within]

@[simp] theorem within_static_mode : (⟨.STATIC_MODE_VIOLATION, left⟩ : InstructionResult).Within gas := by
  simp [InstructionResult.Within]

@[simp] theorem within_invalid_access : (⟨.INVALID_MEMORY_ACCESS, left⟩ : InstructionResult).Within gas := by
  simp [InstructionResult.Within]

@[simp] theorem within_invalid : (⟨.INVALID_INSTRUCTION, left⟩ : InstructionResult).Within gas := by
  simp [InstructionResult.Within]

end

section
variable {s : ExecutionState} {h pos gas_left : Int}

theorem wp_record_bytes_iff {address : Nat → Word} {is_write : Bool} {data : Bytes}
    {Q : Unit → ExecutionState → Prop} : Action.wp (record_bytes address is_write data) Q s ↔
      Q () (s.push_all (s.byte_entries address is_write data)) :=
  (wp_record_bytes (Q := fun _ s' => s' = s.push_all (s.byte_entries address is_write data)) rfl).iff
    fun _ _ same => same ▸ Iff.rfl

theorem wp_checked {offset size : Word} {Q : Bool × Int → ExecutionState → Prop}
    (each : ∀ ok left s', Checked s gas_left offset size.to_uint64 ok left s' → Q (ok, left) s') :
    Action.wp (check_memory gas_left offset size) Q s := by
  refine Action.wp_of_wlp (C := any_event) (wlp_check_memory fun ok left s' checked _ => each ok left s' checked)
    (fun _ => trivial) ?_
  simp [wp_check_memory, wp_check_memory_size]

theorem wp_checked_size {offset : Word} {Q : Bool × Int → ExecutionState → Prop}
    (each : ∀ ok left s', Checked s gas_left offset 32 ok left s' → Q (ok, left) s') :
    Action.wp (check_memory_size gas_left offset 32) Q s := by
  refine Action.wp_of_wlp (C := any_event) (wlp_check_memory_size (by decide) each) (fun _ => trivial) ?_
  simp [wp_check_memory_size]

/-- A further charge, after one that left `left`. -/
theorem charged_within {cost left gas : Int} (owed : 0 ≤ cost) (less : left ≤ gas) (paid : ¬ left - cost < 0) :
    0 ≤ left - cost ∧ left - cost ≤ gas := by
  omega

theorem binary_ends {f : Word → Word → Word} : Action.wp (binary f h) (fun _ _ => True) s := by
  simp [binary, wp_stack_set]

theorem unary_ends {f : Word → Word} : Action.wp (unary f h) (fun _ _ => True) s := by
  simp [unary, wp_stack_set]

theorem push_word_ends {v : Word} : Action.wp (push_word v h) (fun _ _ => True) s := by
  simp [push_word, wp_stack_set]

theorem exp_spends : Action.wp (exp h gas_left) (fun o _ => o.Within gas_left) s := by
  simp only [exp, Action.wp_bind, Action.wp_get, wp_record_stack, wp_stack_get, Action.wp_ite, Action.wp_pure,
    wp_stack_set, within_out_of_gas, within_success, implies_true, true_and]
  refine charged_within (mul_nonneg (Int.natCast_nonneg _) ?_) le_rfl
  split <;> decide

theorem keccak256_spends [Ethash] : Action.wp (keccak256 h gas_left) (fun o _ => o.Within gas_left) s := by
  simp only [keccak256, Action.wp_bind, wp_record_stack, wp_stack_get]
  refine wp_checked fun ok left s' checked => ?_
  have words (n : Nat) : (0 : Int) ≤ num_words n * 6 := by omega
  simp only [Action.wp_ite, Action.wp_bind, Action.wp_pure, wp_memory_load, wp_record_bytes_iff, wp_stack_set,
    wp_record_stack, within_out_of_gas, within_success, implies_true, true_and]
  intro _ paid
  have within := charged_within (words _) checked.gas paid
  exact ⟨fun _ => ⟨fun _ => within, fun _ => within⟩, fun _ => ⟨fun _ => within, fun _ => within⟩⟩

theorem copy_to_memory_spends {source : Bytes} :
    Action.wp (copy_to_memory source h gas_left) (fun o _ => o.Within gas_left) s := by
  simp only [copy_to_memory, Action.wp_bind, wp_record_stack, wp_stack_get]
  refine wp_checked fun ok left s' checked => ?_
  simp only [Action.wp_ite, Action.wp_bind, Action.wp_pure, within_out_of_gas, implies_true, true_and]
  refine fun _ paid => wp_copy_padded fun memory' _ => ?_
  simp only [wp_memory_load, wp_record_bytes_iff, within_success]
  exact charged_within (copy_cost_nonneg _) checked.gas paid

theorem returndatacopy_spends : Action.wp (returndatacopy h gas_left) (fun o _ => o.Within gas_left) s := by
  simp only [returndatacopy, Action.wp_bind, Action.wp_get, wp_record_stack, wp_stack_get]
  refine wp_checked fun ok left s' checked => ?_
  simp only [Action.wp_ite, Action.wp_bind, Action.wp_pure, wp_memory_store, wp_memory_load, wp_record_bytes_iff,
    within_out_of_gas, within_invalid_access, within_success, implies_true, true_and]
  exact fun _ _ _ paid => ⟨fun _ => charged_within (copy_cost_nonneg _) checked.gas paid,
    fun _ => charged_within (copy_cost_nonneg _) checked.gas paid⟩

theorem mcopy_spends : Action.wp (mcopy h gas_left) (fun o _ => o.Within gas_left) s := by
  simp only [mcopy, Action.wp_bind, wp_record_stack, wp_stack_get]
  refine wp_checked fun ok left s' checked => ?_
  simp only [Action.wp_ite, Action.wp_bind, Action.wp_pure, wp_memory_store, wp_memory_load,
    within_out_of_gas, within_success, implies_true, true_and]
  exact fun _ paid => ⟨fun _ => charged_within (copy_cost_nonneg _) checked.gas paid,
    fun _ => charged_within (copy_cost_nonneg _) checked.gas paid⟩

theorem mload_spends (nonneg : 0 ≤ gas_left) : Action.wp (mload h gas_left) (fun o _ => o.Within gas_left) s := by
  simp only [mload, Action.wp_bind, wp_record_stack, wp_stack_get]
  refine wp_checked_size fun ok left s' checked => ?_
  simp only [Action.wp_ite, Action.wp_bind, Action.wp_pure, wp_memory_load, wp_record_bytes_iff, wp_stack_set,
    wp_record_stack, within_out_of_gas, within_success, implies_true, true_and]
  exact fun passed => ⟨checked.paid (by simpa using passed) nonneg, checked.gas⟩

theorem mstore_spends {width : Nat} (nonneg : 0 ≤ gas_left) :
    Action.wp (mstore width h gas_left) (fun o _ => o.Within gas_left) s := by
  simp only [mstore, Action.wp_bind, wp_record_stack, wp_stack_get]
  refine wp_checked_size fun ok left s' checked => ?_
  simp only [Action.wp_ite, Action.wp_bind, Action.wp_pure, wp_memory_store, wp_memory_load, wp_record_bytes_iff,
    within_out_of_gas, within_success, implies_true, true_and]
  exact fun passed => ⟨checked.paid (by simpa using passed) nonneg, checked.gas⟩

theorem return_impl_spends {status : StatusCode} (nonneg : 0 ≤ gas_left) :
    Action.wp (return_impl status h gas_left) (fun o _ => o.Within gas_left) s := by
  simp only [return_impl, Action.wp_bind, wp_record_stack, wp_stack_get]
  refine wp_checked fun ok left s' checked => ?_
  simp only [Action.wp_ite, Action.wp_bind, Action.wp_pure, Action.wp_modify, within_out_of_gas, implies_true,
    true_and]
  exact fun passed _ => ⟨checked.paid (by simpa using passed) nonneg, checked.gas⟩

/-- The code iterator moves on. -/
def Onward (pos : Int) (next : Option Int) : Prop := ∀ pos', next = some pos' → pos < pos'

theorem onward_some {pos' : Int} (further : pos < pos') : Onward pos (some pos') :=
  fun _ same => Option.some.inj same ▸ further

theorem onward_none : Onward pos none := fun _ same => nomatch same

theorem push_ends {Len : Nat} : Action.wp (push Len h pos) (fun next _ => Onward pos next) s := by
  have loaded (r : Word) (data : Int) (n : Nat) (s : ExecutionState) :
      Action.wp (load_full_words r data n) (fun _ _ => True) s := by
    induction n generalizing r data with
    | zero => exact Action.wp_pure.mpr trivial
    | succ n ih =>
      simp only [load_full_words, Action.wp_bind, wp_load_partial]
      exact ih _ _
  have recorded (n : Nat) (s : ExecutionState) : Action.wp
      (Action.forEach (fun i : Nat => record_stack (h + 1) i true) (List.range n)) (fun _ _ => True) s :=
    Action.wp_forEach (I := fun _ _ => True) (fun _ _ _ _ _ _ => wp_record_stack.mpr trivial) trivial
  have pushed (r : Word) (data : Int) (n : Nat) : Action.wp (load_full_words r data n) (fun r' s' =>
      Action.wp (Action.forEach (fun i : Nat => record_stack (h + 1) i true) (List.range (Len / 32 + Len % 32)))
        (fun _ _ => Onward pos (some (pos + (Len + 1)))) (s'.set_slot (h + 1 - 1 - 0) r')) s :=
    (loaded r data n s).mono fun _ _ _ => (recorded _ _).mono fun _ _ _ => onward_some (by omega)
  simp only [push, Action.wp_bind, Action.wp_ite, Action.wp_pure, wp_load_partial, wp_stack_set]
  exact ⟨fun _ => pushed _ _ _, fun _ => pushed _ _ _⟩

theorem jump_impl_ends {d : Word} : Action.wp (jump_impl d) (fun _ _ => True) s := by
  simp [jump_impl, fail_with]

theorem jump_ends : Action.wp (jump h pos) (fun _ _ => True) s := by
  simp [jump, jump_impl_ends]

theorem jumpi_ends : Action.wp (jumpi h pos) (fun _ _ => True) s := by
  simp [jumpi, jump_impl_ends]

theorem pc_ends : Action.wp (pc h pos) (fun next _ => Onward pos next) s := by
  simp only [pc, push_word, Action.wp_bind, wp_stack_set, wp_record_stack, Action.wp_pure]
  exact onward_some (by omega)

theorem dup_slot_ends {n : Int} : Action.wp (dup_slot n h) (fun _ _ => True) s := by
  simp [dup_slot, push_word, wp_stack_set]

theorem swap_slots_ends {addr : Nat} : Action.wp (swap_slots addr h) (fun _ _ => True) s := by
  simp [swap_slots, wp_stack_set]

theorem dup_top_ends : Action.wp (dup_top h) (fun _ _ => True) s := by
  simp [dup_top, dup_slot_ends]

theorem swap_top_ends : Action.wp (swap_top h) (fun _ _ => True) s := by
  simp [swap_top, swap_slots_ends]

theorem dupn_ends : Action.wp (dupn h pos) (fun next _ => Onward pos next) s := by
  simp only [dupn, fail_with, dup_slot, push_word, Action.wp_bind, wp_read_code, Action.wp_ite, Action.wp_modify,
    Action.wp_pure, wp_record_stack, wp_stack_get, wp_stack_set]
  exact ⟨fun _ => onward_none, fun _ => onward_some (by omega)⟩

theorem swapn_ends : Action.wp (swapn h pos) (fun next _ => Onward pos next) s := by
  simp only [swapn, fail_with, Action.wp_bind, wp_read_code, Action.wp_ite, Action.wp_modify,
    Action.wp_pure, wp_record_stack, wp_stack_get, wp_stack_set]
  exact ⟨fun _ => onward_none, fun _ => onward_some (by omega)⟩

theorem addmod_ends : Action.wp (addmod h) (fun _ _ => True) s := by
  simp [addmod, wp_stack_set]

theorem mulmod_ends : Action.wp (mulmod h) (fun _ _ => True) s := by
  simp [mulmod, wp_stack_set]

theorem record_operands_ends {n : Nat} {stack : Int} :
    Action.wp (record_operands n stack) (fun _ s' => s'.msg = s.msg) s :=
  Action.wp_forEach (I := fun _ (s' : ExecutionState) => s'.msg = s.msg)
    (fun _ _ _ _ _ same => wp_record_stack.mpr same) rfl

end

/-- Whatever is asked of the host it answers. Its `call` is left out. -/
class Answers (host : Host H) : Prop where
  account_exists (addr : Address) (h : H) : Action.wp (host.account_exists addr) (fun _ _ => True) h
  get_storage (addr : Address) (key : Word) (h : H) : Action.wp (host.get_storage addr key) (fun _ _ => True) h
  set_storage (addr : Address) (key value : Word) (h : H) :
    Action.wp (host.set_storage addr key value) (fun _ _ => True) h
  get_balance (addr : Address) (h : H) : Action.wp (host.get_balance addr) (fun _ _ => True) h
  get_code_size (addr : Address) (h : H) : Action.wp (host.get_code_size addr) (fun _ _ => True) h
  get_code_hash (addr : Address) (h : H) : Action.wp (host.get_code_hash addr) (fun _ _ => True) h
  copy_code (addr : Address) (code_offset buffer_size : Nat) (h : H) :
    Action.wp (host.copy_code addr code_offset buffer_size) (fun _ _ => True) h
  selfdestruct (addr beneficiary : Address) (h : H) :
    Action.wp (host.selfdestruct addr beneficiary) (fun _ _ => True) h
  get_tx_context (h : H) : Action.wp host.get_tx_context (fun _ _ => True) h
  get_block_hash (number : Int) (h : H) : Action.wp (host.get_block_hash number) (fun _ _ => True) h
  access_account (addr : Address) (h : H) : Action.wp (host.access_account addr) (fun _ _ => True) h
  access_storage (addr : Address) (key : Word) (h : H) :
    Action.wp (host.access_storage addr key) (fun _ _ => True) h
  get_transient_storage (addr : Address) (key : Word) (h : H) :
    Action.wp (host.get_transient_storage addr key) (fun _ _ => True) h
  set_transient_storage (addr : Address) (key value : Word) (h : H) :
    Action.wp (host.set_transient_storage addr key value) (fun _ _ => True) h

theorem wp_ask {exec : Exec H} {α : Type} {m : Action Event H α} {Q : α → Exec H → Prop}
    (answers : ∀ h, Action.wp m (fun _ _ => True) h) (each : ∀ a host', Q a { exec with host := host' }) :
    Action.wp (on_host m) Q exec :=
  Action.wp_zoom.mpr ((answers exec.host).mono fun a host' _ => each a host')

section
variable {host : Host H} [answers : Answers host] {exec : Exec H} {h gas_left : Int}

theorem wp_charge_access {addr : Address} {cost : Int} (owed : 0 ≤ cost) {Q : Bool × Int → Exec H → Prop}
    (each : ∀ ok left host', Charged gas_left ok left → Q (ok, left) { exec with host := host' }) :
    Action.wp (charge_access host addr cost gas_left) Q exec := by
  simp only [charge_access, Action.wp_bind, Action.wp_get, Action.wp_ite, Action.wp_pure]
  refine ⟨fun _ => wp_ask (answers.access_account _) fun status host' => ⟨fun _ => each _ _ _ ⟨by omega, ?_⟩,
    fun _ => each _ _ _ ⟨le_rfl, fun _ h => h⟩⟩, fun _ => each _ _ exec.host ⟨le_rfl, fun _ h => h⟩⟩
  exact fun ok _ => of_decide_eq_true ok

theorem query_account_spends {query : Address → Instr H Word} (nonneg : 0 ≤ gas_left)
    (asks : ∀ addr e, Action.wp (query addr) (fun _ _ => True) e) :
    Action.wp (query_account host query h gas_left) (fun o _ => o.Within gas_left) exec := by
  simp only [query_account, Action.wp_bind, lift_on_state, wp_on_state, wp_record_stack, wp_stack_get]
  refine wp_charge_access (by decide) fun ok left host' charged => ?_
  simp only [Action.wp_ite, Action.wp_bind, Action.wp_pure, within_out_of_gas, implies_true, true_and]
  refine fun passed => (asks _ _).mono fun v e _ => ?_
  simp only [wp_on_state, wp_stack_set, wp_record_stack, within_success]
  exact ⟨charged.paid (by simpa using passed) nonneg, charged.gas⟩

theorem extcodecopy_spends :
    Action.wp (extcodecopy host h gas_left) (fun o _ => o.Within gas_left) exec := by
  simp only [extcodecopy, Action.wp_bind, lift_on_state, wp_on_state, wp_record_stack, wp_stack_get]
  refine wp_checked fun ok left s' checked => ?_
  simp only [Action.wp_ite, Action.wp_bind, Action.wp_pure, within_out_of_gas, implies_true, true_and]
  refine fun passed enough => wp_charge_access (by decide) fun ok' left' host' charged => ?_
  intro passed'
  have within : 0 ≤ left' ∧ left' ≤ gas_left := by
    have cost := copy_cost_nonneg
      (((((exec.state.record h 3 false).record h 2 false).record h 1 false).record h 0 false).stack_space
        (h - 3 - 1 - 0)).to_uint64
    have rest := charged.gas
    have less := checked.gas
    exact ⟨charged.paid (by simpa using passed') (by omega), by omega⟩
  refine ⟨fun _ => wp_ask (answers.copy_code _ _ _) fun code host'' => ?_, fun _ => within_success.mpr within⟩
  simp [host_store, within]

theorem wp_get_tx_context {Q : TxContext → Exec H → Prop}
    (each : ∀ tx m_tx host', Q tx { state := exec.state.set_tx m_tx, host := host' }) :
    Action.wp (get_tx_context host) Q exec := by
  simp only [get_tx_context, Action.wp_bind, Action.wp_get, Action.wp_ite, Action.wp_pure, wp_on_state,
    Action.wp_modify]
  exact ⟨fun _ => wp_ask answers.get_tx_context fun tx host' => each tx tx host',
    fun _ => each exec.state.m_tx exec.state.m_tx exec.host⟩

theorem push_tx_ends {field : TxContext → Word} :
    Action.wp (push_tx host field h) (fun _ _ => True) exec :=
  Action.wp_bind.mpr (wp_get_tx_context fun _ _ _ => wp_on_state.mpr push_word_ends)

theorem blobhash_ends : Action.wp (blobhash host h) (fun _ _ => True) exec := by
  simp only [blobhash, Action.wp_bind, lift_on_state, wp_on_state, wp_record_stack, wp_stack_get]
  exact wp_get_tx_context fun tx m_tx host' => wp_stack_set.mpr trivial

theorem blockhash_ends : Action.wp (blockhash host h) (fun _ _ => True) exec := by
  simp only [blockhash, Action.wp_bind, lift_on_state, wp_on_state, wp_record_stack, wp_stack_get]
  refine wp_get_tx_context fun tx m_tx host' => ?_
  simp only [Action.wp_ite, Action.wp_bind, Action.wp_pure, wp_on_state, wp_record_stack, wp_stack_set, implies_true,
    and_true]
  exact fun _ => wp_ask (answers.get_block_hash _) fun _ _ => trivial

theorem selfbalance_ends : Action.wp (selfbalance host h) (fun _ _ => True) exec := by
  simp only [selfbalance, Action.wp_bind, Action.wp_get]
  exact wp_ask (answers.get_balance _) fun v host' => wp_on_state.mpr push_word_ends

theorem wp_charge_beneficiary {beneficiary : Address} {Q : Bool × Int → Exec H → Prop}
    (each : ∀ ok left host', Charged gas_left ok left → Q (ok, left) { exec with host := host' }) :
    Action.wp (charge_beneficiary host beneficiary gas_left) Q exec := by
  refine Action.wp_of_wlp (C := any_event) (wlp_charge_beneficiary each) (fun _ => trivial) ?_
  have asked (e : Exec H) : Action.wp (on_host (host.account_exists beneficiary)) (fun _ _ => True) e :=
    wp_ask (answers.account_exists _) fun _ _ => trivial
  simp only [charge_beneficiary, Action.wp_bind, Action.wp_get, Action.wp_ite, Action.wp_pure, implies_true, and_true]
  refine ⟨fun _ _ => asked exec, fun _ => ⟨fun _ => ?_, fun _ no => absurd no (by decide)⟩⟩
  exact wp_ask (answers.get_balance _) fun v host' _ => asked _

theorem selfdestruct_spends (nonneg : 0 ≤ gas_left) :
    Action.wp (selfdestruct host h gas_left) (fun o _ => o.Within gas_left) exec := by
  simp only [selfdestruct, Action.wp_bind, Action.wp_get, Action.wp_ite, Action.wp_pure, lift_on_state, wp_on_state,
    wp_record_stack, wp_stack_get, within_static_mode, implies_true, true_and]
  refine fun _ => wp_charge_access (by decide) fun ok left host' charged => ?_
  simp only [within_out_of_gas, implies_true, true_and]
  refine fun passed => wp_charge_beneficiary fun ok' left' host'' charged' => ?_
  refine fun passed' => wp_ask (answers.selfdestruct _ _) fun destroyed host''' => ?_
  have first := charged.paid (by simpa using passed) nonneg
  have within : 0 ≤ left' ∧ left' ≤ gas_left :=
    ⟨charged'.paid (by simpa using passed') first, charged'.gas.trans charged.gas⟩
  simp [within]

theorem wp_storage_is_cold {rev : Revision} {addr : Address} {key : Word}
    {Q : Bool → Exec H → Prop} (each : ∀ cold host', Q cold { exec with host := host' }) :
    Action.wp (storage_is_cold host rev addr key) Q exec := by
  simp only [storage_is_cold, Action.wp_ite, Action.wp_bind, Action.wp_pure]
  exact ⟨fun _ => wp_ask (answers.access_storage _ _) fun _ _ => each _ _, fun _ => each _ exec.host⟩

theorem sload_spends (nonneg : 0 ≤ gas_left) :
    Action.wp (sload host h gas_left) (fun o _ => o.Within gas_left) exec := by
  have cost : 0 ≤ cold_sload_cost - warm_storage_read_cost := by decide
  simp only [sload, Action.wp_bind, Action.wp_get, lift_on_state, wp_on_state, wp_record_stack, wp_stack_get]
  refine wp_storage_is_cold fun cold host' => ?_
  simp only [Action.wp_ite, Action.wp_bind, Action.wp_pure, within_out_of_gas, implies_true, true_and]
  refine fun paid => wp_ask (answers.get_storage _ _) fun value host'' => ?_
  simp only [record_storage, wp_on_state, Action.wp_bind, Action.wp_get, Action.wp_emit, Action.wp_modify,
    wp_stack_set, wp_record_stack, within_success]
  cases cold with
  | true =>
    simp only [true_and, if_true] at paid ⊢
    exact charged_within cost le_rfl paid
  | false => exact ⟨nonneg, le_rfl⟩

theorem sstore_cost_nonneg (rev : Revision) (status : StorageStatus) : 0 ≤ (sstore_costs rev status).1 := by
  cases rev <;> cases status <;> decide

theorem sstore_spends : Action.wp (sstore host h gas_left) (fun o _ => o.Within gas_left) exec := by
  simp only [sstore, Action.wp_bind, Action.wp_get, Action.wp_ite, Action.wp_pure, lift_on_state, wp_on_state,
    wp_record_stack, wp_stack_get, within_static_mode, within_out_of_gas, implies_true, true_and]
  refine fun _ _ => wp_storage_is_cold fun cold host' => wp_ask (answers.get_storage _ _) fun value host'' => ?_
  simp only [record_storage, Action.wp_bind, Action.wp_get, Action.wp_emit, Action.wp_modify]
  refine wp_ask (answers.set_storage _ _ _) fun status host''' => ?_
  simp only [within_success]
  have warm := sstore_cost_nonneg exec.state.rev status
  have cold_cost : (0 : Int) ≤ if cold = true then cold_sload_cost else 0 := by
    split <;> decide
  exact charged_within (Int.add_nonneg warm cold_cost) le_rfl

theorem tload_ends : Action.wp (tload host h) (fun _ _ => True) exec := by
  simp only [tload, Action.wp_bind, Action.wp_get, lift_on_state, wp_on_state, wp_record_stack, wp_stack_get]
  exact wp_ask (answers.get_transient_storage _ _) fun value host' => wp_stack_set.mpr trivial

theorem tstore_spends (nonneg : 0 ≤ gas_left) :
    Action.wp (tstore host h gas_left) (fun o _ => o.Within gas_left) exec := by
  simp only [tstore, Action.wp_bind, Action.wp_get, Action.wp_ite, Action.wp_pure, lift_on_state, wp_on_state,
    wp_record_stack, wp_stack_get, within_static_mode, implies_true, true_and]
  exact fun _ => wp_ask (answers.set_transient_storage _ _ _) fun _ _ => within_success.mpr ⟨nonneg, le_rfl⟩

end

/-- The instructions that may lead back. -/
def Opcode.jumps : Opcode → Bool
  | JUMP | JUMPI => true
  | _ => false

/-- Where an instruction leads, and what it leaves of `gas` when its frame goes on, or ends and reports it. -/
structure Spends (op : Opcode) (pos gas : Int) (next : Option Int × Int) (s : ExecutionState) : Prop where
  gas : next.1 ≠ none ∨ s.status = .SUCCESS ∨ s.status = .REVERT → 0 ≤ next.2 ∧ next.2 ≤ gas
  onward : op.jumps = false → Onward pos next.1

section
variable {host : Host H} {exec : Exec H} {op : Opcode} {h pos left : Int}

/-- The gas is left as it is. -/
theorem spends_nothing {next : Option Int} {s : ExecutionState} (nonneg : 0 ≤ left)
    (onward : op.jumps = false → Onward pos next) : Spends op pos left (next, left) s :=
  ⟨fun _ => ⟨nonneg, le_rfl⟩, onward⟩

theorem spends_next {o : InstructionResult} {s : ExecutionState} (within : o.Within left)
    (success : o.status = .SUCCESS) : Spends op pos left (some (pos + 1), o.gas_left) s :=
  ⟨fun _ => within (Or.inl success), fun _ => onward_some (by omega)⟩

theorem spends_end {o : InstructionResult} {s : ExecutionState} (within : o.Within left) :
    Spends op pos left (none, o.gas_left) (s.set_status o.status) :=
  ⟨fun reports => within (reports.resolve_left (absurd rfl)), fun _ => onward_none⟩

theorem wp_set_status {status : StatusCode} {Q : Unit → Exec H → Prop} : Action.wp (set_status status) Q exec ↔
    Q () { exec with state := exec.state.set_status status } := by
  simp [set_status]

theorem nullptr_step (nonneg : 0 ≤ left) :
    Action.wp (invoke_impl (.nullptr : Impl H) pos h left) (fun next e => Spends op pos left next e.state) exec := by
  simp only [invoke_impl, Action.wp_bind, Action.wp_pure, wp_set_status]
  exact spends_nothing nonneg fun _ => onward_none

theorem void_step {fn : Int → Instr H Unit} (nonneg : 0 ≤ left) (ends : Action.wp (fn h) (fun _ _ => True) exec) :
    Action.wp (invoke_impl (.void fn) pos h left) (fun next e => Spends op pos left next e.state) exec := by
  simp only [invoke_impl, Action.wp_bind, Action.wp_pure]
  exact ends.mono fun _ _ _ => spends_nothing nonneg fun _ => onward_some (by omega)

theorem code_step {fn : Int → Int → Instr H (Option Int)} (nonneg : 0 ≤ left)
    (ends : Action.wp (fn h pos) (fun next _ => op.jumps = false → Onward pos next) exec) :
    Action.wp (invoke_impl (.code fn) pos h left) (fun next e => Spends op pos left next e.state) exec := by
  simp only [invoke_impl, Action.wp_bind, Action.wp_pure]
  exact ends.mono fun _ _ => spends_nothing nonneg

theorem gas_step {fn : Int → Int → Instr H InstructionResult}
    (spends : Action.wp (fn h left) (fun o _ => o.Within left) exec) :
    Action.wp (invoke_impl (.gas fn) pos h left) (fun next e => Spends op pos left next e.state) exec := by
  simp only [invoke_impl, Action.wp_bind, Action.wp_ite, Action.wp_pure, wp_set_status, ne_eq, not_not]
  exact spends.mono fun o e within => ⟨fun _ => spends_end within, spends_next within⟩

theorem term_step {fn : Int → Int → Instr H InstructionResult}
    (spends : Action.wp (fn h left) (fun o _ => o.Within left) exec) :
    Action.wp (invoke_impl (.term fn) pos h left) (fun next e => Spends op pos left next e.state) exec := by
  simp only [invoke_impl, Action.wp_bind, Action.wp_pure, wp_set_status]
  exact spends.mono fun _ _ within => spends_end within

/-- The instructions of legacy code that send no message come to an end and create no gas. -/
theorem quiet_step_spends [Ethash] [answers : Answers host] (nonneg : 0 ≤ left) (legacy : op ∉ eof_opcodes)
    (quiet : op.sends = false) : Action.wp (invoke_impl (map_opcodes host op) pos h left)
      (fun next e => Spends op pos left next e.state) exec := by
  have void {fn : Int → Local Unit} (ends : Action.wp (fn h) (fun _ _ => True) exec.state) :
      Action.wp (invoke_impl (.void fun s => fn s) pos h left)
        (fun next e => Spends op pos left next e.state) exec :=
    void_step nonneg (wp_on_state.mpr ends)
  have gas {fn : Int → Int → Local InstructionResult}
      (spends : Action.wp (fn h left) (fun o _ => o.Within left) exec.state) :
      Action.wp (invoke_impl (.gas fun s g => fn s g) pos h left)
        (fun next e => Spends op pos left next e.state) exec :=
    gas_step (wp_on_state.mpr spends)
  have code {fn : Int → Int → Local (Option Int)}
      (ends : Action.wp (fn h pos) (fun next _ => op.jumps = false → Onward pos next) exec.state) :
      Action.wp (invoke_impl (.code fun s p => fn s p) pos h left)
        (fun next e => Spends op pos left next e.state) exec :=
    code_step nonneg (wp_on_state.mpr ends)
  have term {fn : Int → Int → Local InstructionResult}
      (spends : Action.wp (fn h left) (fun o _ => o.Within left) exec.state) :
      Action.wp (invoke_impl (.term fun s g => fn s g) pos h left)
        (fun next e => Spends op pos left next e.state) exec :=
    term_step (wp_on_state.mpr spends)
  cases op with
  | RJUMP | RJUMPI | RJUMPV | CALLF | RETF | JUMPF | DATALOAD | DATALOADN | DATASIZE | DATACOPY =>
    exact absurd (by decide) legacy
  | CREATE | CALL | CALLCODE | DELEGATECALL | CREATE2 | STATICCALL => exact Bool.noConfusion quiet
  | STOP | INVALID => exact term (Action.wp_pure.mpr (by simp [nonneg]))
  | POP | JUMPDEST => exact void (Action.wp_pure.mpr trivial)
  | ADD | MUL | SUB | DIV | SDIV | MOD | SMOD | SIGNEXTEND | LT | GT | SLT | SGT | EQ | AND | OR
  | XOR | BYTE | SHL | SHR | SAR => exact void binary_ends
  | ISZERO | NOT => exact void unary_ends
  | ADDMOD => exact void addmod_ends
  | MULMOD => exact void mulmod_ends
  | EXP => exact gas exp_spends
  | KECCAK256 => exact gas keccak256_spends
  | ADDRESS | CALLER | CALLVALUE | CALLDATASIZE | CODESIZE | RETURNDATASIZE | MSIZE =>
    exact void (Action.wp_bind.mpr (Action.wp_get.mpr push_word_ends))
  | PUSH0 => exact void push_word_ends
  | CALLDATALOAD => exact void (Action.wp_bind.mpr (Action.wp_get.mpr unary_ends))
  | CALLDATACOPY | CODECOPY => exact gas (Action.wp_bind.mpr (Action.wp_get.mpr copy_to_memory_spends))
  | RETURNDATACOPY => exact gas returndatacopy_spends
  | MCOPY => exact gas mcopy_spends
  | MLOAD | MLOAD8 | MLOAD16 | MLOAD32 | MLOAD64 => exact gas (mload_spends nonneg)
  | MSTORE | MSTORE8 | MSTORE16 | MSTORE32 | MSTORE64 => exact gas (mstore_spends nonneg)
  | JUMP => exact code ((jump_ends).mono fun _ _ _ jumps => Bool.noConfusion jumps)
  | JUMPI => exact code (jumpi_ends.mono fun _ _ _ jumps => Bool.noConfusion jumps)
  | PC => exact code (pc_ends.mono fun _ _ onward _ => onward)
  | GAS => exact gas (by simp [EvmAssigner.gas, push_word, wp_stack_set, nonneg])
  | PUSH n => exact code (push_ends.mono fun _ _ onward _ => onward)
  | DUP n => exact void dup_slot_ends
  | DUP_TOP => exact void dup_top_ends
  | SWAP n => exact void swap_slots_ends
  | SWAP_TOP => exact void swap_top_ends
  | DUPN => exact code (dupn_ends.mono fun _ _ onward _ => onward)
  | SWAPN => exact code (swapn_ends.mono fun _ _ onward _ => onward)
  | LOG n =>
    by_cases one : n.val = 1
    · simp only [map_opcodes, if_pos one]
      exact void (Action.wp_pure.mpr trivial)
    · simp only [map_opcodes, if_neg one]
      exact nullptr_step nonneg
  | PRINTF => exact nullptr_step nonneg
  | RETURN | REVERT => exact term (return_impl_spends nonneg)
  | ORIGIN | GASPRICE | COINBASE | TIMESTAMP | NUMBER | PREVRANDAO | GASLIMIT | CHAINID | BASEFEE
  | BLOBBASEFEE => exact void_step nonneg push_tx_ends
  | BALANCE => exact gas_step (query_account_spends nonneg fun _ _ => wp_ask (answers.get_balance _) fun _ _ => trivial)
  | EXTCODEHASH =>
    exact gas_step (query_account_spends nonneg fun _ _ => wp_ask (answers.get_code_hash _) fun _ _ => trivial)
  | EXTCODESIZE =>
    refine gas_step (query_account_spends nonneg fun _ _ => Action.wp_bind.mpr ?_)
    exact wp_ask (answers.get_code_size _) fun _ _ => Action.wp_pure.mpr trivial
  | EXTCODECOPY => exact gas_step extcodecopy_spends
  | BLOCKHASH => exact void_step nonneg blockhash_ends
  | BLOBHASH => exact void_step nonneg blobhash_ends
  | SELFBALANCE => exact void_step nonneg selfbalance_ends
  | SLOAD => exact gas_step (sload_spends nonneg)
  | SSTORE => exact gas_step sstore_spends
  | TLOAD => exact void_step nonneg tload_ends
  | TSTORE => exact gas_step (tstore_spends nonneg)
  | SELFDESTRUCT => exact term_step (selfdestruct_spends nonneg)

end
end EvmAssigner
