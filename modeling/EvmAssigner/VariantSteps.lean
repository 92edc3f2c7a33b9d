import EvmAssigner.FrameVariants
import EvmAssigner.MemoryGas

namespace EvmAssigner
open EvmAssigner.Action (Alike Follows)
variable {H : Type}

section
variable {v : Variation} {h pos : Int}

instance binary_alike {f : Word → Word → Word} : Alike v.Allows v.state (binary f h) (binary f h) := by
  unfold binary
  infer_instance

instance unary_alike {f : Word → Word} : Alike v.Allows v.state (unary f h) (unary f h) := by
  unfold unary
  infer_instance

instance push_word_alike {w : Word} : Alike v.Allows v.state (push_word w h) (push_word w h) := by
  unfold push_word
  infer_instance

theorem addmod_alike : Alike v.Allows v.state (addmod h) (addmod h) := by
  unfold addmod
  infer_instance

theorem mulmod_alike : Alike v.Allows v.state (mulmod h) (mulmod h) := by
  unfold mulmod
  infer_instance

/-- What an instruction pushes that only looks at what is not different. -/
theorem push_field_alike {f : ExecutionState → Word} (same : ∀ s, f (v.state s) = f s) :
    Alike v.Allows v.state (Action.get >>= fun s => push_word (f s) h : Local Unit)
      (Action.get >>= fun s => push_word (f s) h) :=
  .get_same (fun s => by rw [same]) fun _ => inferInstance

theorem calldataload_alike : Alike v.Allows v.state (calldataload h) (calldataload h) :=
  .get_same (fun _ => rfl) fun _ => inferInstance

theorem dataload_alike : Alike v.Allows v.state (dataload h) (dataload h) :=
  .get_same (fun _ => rfl) fun _ => inferInstance

instance dup_slot_alike {n : Int} : Alike v.Allows v.state (dup_slot n h) (dup_slot n h) := by
  unfold dup_slot
  infer_instance

theorem dup_top_alike : Alike v.Allows v.state (dup_top h) (dup_top h) := by
  unfold dup_top
  infer_instance

instance swap_slots_alike {addr : Nat} : Alike v.Allows v.state (swap_slots addr h) (swap_slots addr h) := by
  unfold swap_slots
  infer_instance

theorem swap_top_alike : Alike v.Allows v.state (swap_top h) (swap_top h) := by
  unfold swap_top
  infer_instance

instance fail_with_alike {status : StatusCode} : Alike v.Allows v.state (fail_with status) (fail_with status) :=
  have := alike_changes (v := v) (f := fun s => s.set_status status) fun _ => rfl
  Action.follows_bind

theorem dupn_alike : Alike v.Allows v.state (dupn h pos) (dupn h pos) := by
  unfold dupn
  infer_instance

theorem swapn_alike : Alike v.Allows v.state (swapn h pos) (swapn h pos) := by
  unfold swapn
  refine .bind inferInstance fun imm => .ite inferInstance ?_
  exact .bind inferInstance fun _ => .bind inferInstance fun _ => inferInstance

instance load_partial_alike {r : Word} {data : Int} {len i : Nat} :
    Alike v.Allows v.state (load_partial_data r data len i) (load_partial_data r data len i) :=
  .get_same (fun _ => rfl) fun _ => inferInstance

instance load_full_words_alike {r : Word} {data : Int} {n : Nat} :
    Alike v.Allows v.state (load_full_words r data n) (load_full_words r data n) := by
  induction n generalizing r data with
  | zero => exact Action.alike_pure
  | succ n ih =>
    unfold load_full_words
    infer_instance

theorem push_alike {Len : Nat} : Alike v.Allows v.state (push Len h pos) (push Len h pos) := by
  unfold push
  infer_instance

theorem pc_alike : Alike v.Allows v.state (pc h pos) (pc h pos) := by
  unfold pc
  infer_instance

instance read_uint16_be_alike : Alike v.Allows v.state (read_uint16_be pos) (read_uint16_be pos) := by
  unfold read_uint16_be
  infer_instance

instance read_int16_be_alike : Alike v.Allows v.state (read_int16_be pos) (read_int16_be pos) := by
  unfold read_int16_be
  infer_instance

theorem dataloadn_alike : Alike v.Allows v.state (dataloadn h pos) (dataloadn h pos) :=
  .get_same (fun _ => rfl) fun _ => inferInstance

instance jump_impl_alike {dst : Word} : Alike v.Allows v.state (jump_impl dst) (jump_impl dst) :=
  .get_same (fun _ => rfl) fun _ => inferInstance

theorem jump_alike : Alike v.Allows v.state (jump h pos) (jump h pos) := by
  unfold jump
  infer_instance

theorem jumpi_alike : Alike v.Allows v.state (jumpi h pos) (jumpi h pos) := by
  unfold jumpi
  infer_instance

instance rjump_alike : Alike v.Allows v.state (rjump h pos) (rjump h pos) := by
  unfold rjump
  infer_instance

theorem rjumpi_alike : Alike v.Allows v.state (rjumpi h pos) (rjumpi h pos) := by
  unfold rjumpi
  infer_instance

theorem rjumpv_alike : Alike v.Allows v.state (rjumpv h pos) (rjumpv h pos) := by
  unfold rjumpv
  infer_instance

instance enter_section_alike {index : Nat} : Alike v.Allows v.state (enter_section index h) (enter_section index h) :=
  have := alike_changes (v := v) (f := fun s => s.set_status .STACK_OVERFLOW) fun _ => rfl
  .get_same (fun _ => rfl) fun _ => inferInstance

instance section_start_alike {header : EOF1Header} {index : Nat} :
    Alike v.Allows v.state (section_start header index) (section_start header index) := by
  unfold section_start
  infer_instance

theorem retf_alike : Alike v.Allows v.state (retf h pos) (retf h pos) :=
  have := alike_changes (v := v) (f := fun s => s.set_call_stack s.call_stack.dropLast) fun _ => rfl
  .get_same (fun _ => rfl) fun _ => inferInstance

theorem jumpf_alike : Alike v.Allows v.state (jumpf h pos) (jumpf h pos) := by
  unfold jumpf
  refine .bind inferInstance fun index => .bind inferInstance fun header => ?_
  cases header <;> infer_instance

theorem callf_alike : Alike v.Allows v.state (callf h pos) (callf h pos) := by
  have returns := alike_changes (v := v) (f := fun s => s.set_call_stack (s.call_stack ++ [pos + 3])) fun _ => rfl
  unfold callf
  refine .bind inferInstance fun index => .bind inferInstance fun header => ?_
  cases header with
  | none => infer_instance
  | some header => exact .get_same (fun _ => rfl) fun _ => inferInstance

/-! With more gas a charge that has been paid is paid. -/

theorem Variation.result_some {o o' : InstructionResult} (made : v.result o = some o') :
    o' = { o with gas_left := o.gas_left + v.gas } := by
  unfold Variation.result at made
  split at made
  · exact (Option.some.inj made).symm
  · contradiction

theorem Variation.checked_some {o o' : Bool × Int} (made : v.checked o = some o') : o' = (o.1, o.2 + v.gas) := by
  unfold Variation.checked at made
  split at made
  · exact (Option.some.inj made).symm
  · contradiction

instance follows_returns {σ : Type} {φ : σ → σ} {status : StatusCode} {left : Int} :
    Follows v.Allows φ v.result (pure ⟨status, left⟩ : Action Event σ InstructionResult)
      (pure ⟨status, left + v.gas⟩ : Action Event σ InstructionResult) :=
  .pure_of fun _ made => v.result_some made

theorem follows_paid {σ : Type} {φ : σ → σ} {left : Int} {m m' : Action Event σ InstructionResult}
    (follows : Follows v.Allows φ v.result m m') :
    Follows v.Allows φ v.result (if left < 0 then pure ⟨.OUT_OF_GAS, left⟩ else m)
      (if left + v.gas < 0 then pure ⟨.OUT_OF_GAS, left + v.gas⟩ else m') := by
  have more := v.nonneg
  refine .ite_of (fun _ _ => inferInstance) (fun _ _ => follows) (fun short paid => ?_) fun paid short => ?_
  · rintro s _ _ ⟨⟩
    simp [Variation.result]
    omega
  · omega

theorem follows_checked {σ : Type} {φ : σ → σ} {m m' : Action Event σ (Bool × Int)}
    {f f' : Bool × Int → Action Event σ InstructionResult} (check : Follows v.Allows φ v.checked m m')
    (passes : ∀ left, Follows v.Allows φ v.result (f (true, left)) (f' (true, left + v.gas)))
    (fails : ∀ left, f (false, left) = pure ⟨.OUT_OF_GAS, left⟩)
    (fails' : ∀ left, f' (false, left) = pure ⟨.OUT_OF_GAS, left⟩) :
    Follows v.Allows φ v.result (m >>= f) (m' >>= f') := by
  refine .bind_of check ?_ ?_
  · rintro ⟨ok, left⟩ _ made
    rw [v.checked_some made]
    cases ok with
    | true => exact passes left
    | false =>
      rw [fails, fails']
      infer_instance
  · rintro ⟨ok, left⟩ s o s' made ran
    cases ok with
    | true => simp [Variation.checked] at made
    | false =>
      rw [fails] at ran
      obtain ⟨rfl, rfl⟩ := Prod.mk.inj (Option.some.inj ran)
      simpa [Variation.checked, Variation.result] using made

instance checked_returns {σ : Type} {φ : σ → σ} {ok : Bool} {left : Int} :
    Follows v.Allows φ v.checked (pure (ok, left) : Action Event σ (Bool × Int))
      (pure (ok, left + v.gas) : Action Event σ (Bool × Int)) :=
  .pure_of fun _ made => v.checked_some made

instance checked_decides {σ : Type} {φ : σ → σ} {left : Int} :
    Follows v.Allows φ v.checked (pure (decide (left ≥ 0), left) : Action Event σ (Bool × Int))
      (pure (decide (left + v.gas ≥ 0), left + v.gas) : Action Event σ (Bool × Int)) := by
  have more := v.nonneg
  refine .pure_of fun o made => ?_
  rw [v.checked_some made]
  unfold Variation.checked at made
  split at made
  · rename_i known
    have same : decide (left ≥ 0) = decide (left + v.gas ≥ 0) := by
      rw [decide_eq_true_iff] at known
      exact decide_eq_decide.mpr (by omega)
    rw [same]
  · contradiction

theorem Variation.state_grown {s : ExecutionState} {e : Nat} (small : e < 2 ^ 34) :
    (v.state s).set_memory ((v.state s).memory.grown e) = v.state (s.set_memory (s.memory.grown e)) := by
  have same : ((v.memory s.memory).grown e) = v.memory (s.memory.grown e) := by
    unfold Memory.grown
    rw [memory_m_size]
    split
    · rename_i larger
      have bytes : ((v.memory s.memory).grow (num_words e * word_size)).m_data =
          (v.memory (s.memory.grow (num_words e * word_size))).m_data := by
        have above : s.memory.m_size < num_words e * word_size := by
          rw [num_words, word_size, Nat.mod_eq_of_lt (by omega)]
          omega
        funext k
        simp only [Memory.grow_m_data, memory_m_data, memory_m_size, Memory.grow_m_size]
        cases v.outside with
        | none => rfl
        | some outside => split_ifs <;> first | rfl | omega
      exact congrArg (fun bytes => ({ v.memory (s.memory.grow (num_words e * word_size)) with
        m_data := bytes } : Memory)) bytes
    · rfl
  exact congrArg (fun memory => { v.state s with memory := memory }) same

/-- A request that is served is answered in the same way with more gas, and the memory grows as it does with less. -/
theorem check_memory_size_follows {left : Int} {offset : Word} {size : Nat} (near : size ≤ max_buffer_size) :
    Follows v.Allows v.state v.checked (check_memory_size left offset size)
      (check_memory_size (left + v.gas) offset size) := by
  have more := v.nonneg
  refine ⟨fun {s o s' o'} _ ran made => ?_⟩
  have first : Action.wp (check_memory_size left offset size) (fun a t => a = o ∧ t = s') s := ⟨o, s', ran, rfl, rfl⟩
  have same (e : Nat) : (v.state s).memory.charge e = s.memory.charge e := rfl
  have result := v.checked_some made
  suffices again : Action.wp (check_memory_size (left + v.gas) offset size) (fun a t => a = o' ∧ t = v.state s')
      (v.state s) by
    obtain ⟨_, _, ran, rfl, rfl⟩ := again
    exact ran
  rw [wp_check_memory_size] at first ⊢
  rw [same, add_sub_right_comm]
  by_cases far : offset.to_uint64 > max_buffer_size
  · rw [if_pos far] at first ⊢
    obtain ⟨rfl, rfl⟩ := first
    exact ⟨result.symm, rfl⟩
  · rw [if_neg far] at first ⊢
    have small : request_end offset size < 2 ^ 34 := by
      rw [max_buffer_size] at far near
      rw [request_end, Nat.mod_eq_of_lt (by omega)]
      omega
    by_cases paid : left - s.memory.charge (request_end offset size) ≥ 0
    · rw [if_pos paid] at first
      obtain ⟨rfl, rfl⟩ := first
      rw [if_pos (by omega)]
      exact ⟨result.symm, v.state_grown small⟩
    · rw [if_neg paid] at first
      obtain ⟨rfl, rfl⟩ := first
      have none : v.gas = 0 := by
        by_contra some
        simp [Variation.checked, some] at made
      rw [none, add_zero, if_neg paid]
      exact ⟨by rw [result, none, add_zero], rfl⟩

instance check_memory_follows {left : Int} {offset size : Word} :
    Follows v.Allows v.state v.checked (check_memory left offset size) (check_memory (left + v.gas) offset size) :=
  .ite inferInstance (.ite_of (fun _ _ => inferInstance) (fun small _ => check_memory_size_follows (not_lt.mp small))
    (fun large small => absurd large small) fun small large => absurd large small)

instance record_bytes_alike {address : Nat → Word} {is_write : Bool} {data : Bytes} :
    Alike v.Allows v.state (record_bytes address is_write data) (record_bytes address is_write data) := by
  unfold record_bytes
  infer_instance

instance copy_padded_alike {source : Bytes} {dst src n : Nat} :
    Alike v.Allows v.state (copy_padded source dst src n) (copy_padded source dst src n) := by
  unfold copy_padded
  infer_instance

theorem exp_follows {left : Int} : Follows v.Allows v.state v.result (exp h left) (exp h (left + v.gas)) := by
  refine .get_same (fun _ => rfl) fun s => .bind inferInstance fun _ => .bind inferInstance fun _ => ?_
  refine .bind inferInstance fun base => .bind inferInstance fun exponent => ?_
  simp only [add_sub_right_comm]
  exact follows_paid inferInstance

theorem keccak256_follows [Ethash] {left : Int} :
    Follows v.Allows v.state v.result (keccak256 h left) (keccak256 h (left + v.gas)) := by
  refine .bind inferInstance fun _ => .bind inferInstance fun _ => .bind inferInstance fun index => ?_
  refine .bind inferInstance fun size => follows_checked inferInstance (fun left => ?_) (fun _ => rfl) fun _ => rfl
  simp only [Bool.not_true, Bool.false_eq_true, if_false, add_sub_right_comm]
  exact follows_paid inferInstance

theorem copy_to_memory_follows {source : Bytes} {left : Int} :
    Follows v.Allows v.state v.result (copy_to_memory source h left) (copy_to_memory source h (left + v.gas)) := by
  refine .bind inferInstance fun _ => .bind inferInstance fun _ => .bind inferInstance fun _ => ?_
  refine .bind inferInstance fun mem_index => .bind inferInstance fun input_index => .bind inferInstance fun size => ?_
  refine follows_checked inferInstance (fun left => ?_) (fun _ => rfl) fun _ => rfl
  simp only [Bool.not_true, Bool.false_eq_true, if_false, add_sub_right_comm]
  exact follows_paid inferInstance

theorem returndatacopy_follows {left : Int} :
    Follows v.Allows v.state v.result (returndatacopy h left) (returndatacopy h (left + v.gas)) := by
  refine .get_same (fun _ => rfl) fun s => ?_
  refine .bind inferInstance fun _ => .bind inferInstance fun _ => .bind inferInstance fun _ => ?_
  refine .bind inferInstance fun mem_index => .bind inferInstance fun input_index => .bind inferInstance fun size => ?_
  refine follows_checked inferInstance (fun left => ?_) (fun _ => rfl) fun _ => rfl
  simp only [Bool.not_true, Bool.false_eq_true, if_false, add_sub_right_comm]
  exact .ite inferInstance (.ite inferInstance (follows_paid inferInstance))

theorem mload_follows {left : Int} : Follows v.Allows v.state v.result (mload h left) (mload h (left + v.gas)) := by
  refine .bind inferInstance fun _ => .bind inferInstance fun index => ?_
  refine follows_checked (check_memory_size_follows (by decide)) (fun left => ?_) (fun _ => rfl) fun _ => rfl
  simp only [Bool.not_true, Bool.false_eq_true, if_false]
  infer_instance

theorem mstore_follows {width : Nat} {left : Int} :
    Follows v.Allows v.state v.result (mstore width h left) (mstore width h (left + v.gas)) := by
  refine .bind inferInstance fun _ => .bind inferInstance fun _ => ?_
  refine .bind inferInstance fun index => .bind inferInstance fun value => ?_
  refine follows_checked (check_memory_size_follows (by decide)) (fun left => ?_) (fun _ => rfl) fun _ => rfl
  simp only [Bool.not_true, Bool.false_eq_true, if_false]
  infer_instance

theorem mcopy_follows {left : Int} : Follows v.Allows v.state v.result (mcopy h left) (mcopy h (left + v.gas)) := by
  refine .bind inferInstance fun _ => .bind inferInstance fun _ => .bind inferInstance fun _ => ?_
  refine .bind inferInstance fun dst => .bind inferInstance fun src => .bind inferInstance fun size => ?_
  refine follows_checked inferInstance (fun left => ?_) (fun _ => rfl) fun _ => rfl
  simp only [Bool.not_true, Bool.false_eq_true, if_false, add_sub_right_comm]
  exact follows_paid inferInstance

theorem datacopy_follows {left : Int} :
    Follows v.Allows v.state v.result (datacopy h left) (datacopy h (left + v.gas)) := by
  refine .get_same (fun _ => rfl) fun s => ?_
  refine .bind inferInstance fun _ => .bind inferInstance fun _ => .bind inferInstance fun _ => ?_
  refine .bind inferInstance fun mem_index => .bind inferInstance fun data_index => .bind inferInstance fun size => ?_
  refine follows_checked inferInstance (fun left => ?_) (fun _ => rfl) fun _ => rfl
  simp only [Bool.not_true, Bool.false_eq_true, if_false, add_sub_right_comm]
  exact follows_paid inferInstance

theorem return_impl_follows {status : StatusCode} {left : Int} :
    Follows v.Allows v.state v.result (return_impl status h left) (return_impl status h (left + v.gas)) := by
  refine .bind inferInstance fun _ => .bind inferInstance fun _ => ?_
  refine .bind inferInstance fun offset => .bind inferInstance fun size => ?_
  refine follows_checked inferInstance (fun left => ?_) (fun _ => rfl) fun _ => rfl
  simp only [Bool.not_true, Bool.false_eq_true, if_false]
  have puts := alike_changes (v := v) (f := fun s => s.set_output
    (if size.to_uint64 ≠ 0 then offset.to_uint64 else s.output_offset) size.to_uint64) fun _ => rfl
  infer_instance

end
section
variable {v : Variation} {host : Host H} {h left : Int}

instance charge_access_follows {addr : Address} {cost : Int} : Follows v.Allows v.exec v.checked
    (charge_access host addr cost left) (charge_access host addr cost (left + v.gas)) := by
  refine .get_same (fun _ => rfl) fun e => .ite (.bind inferInstance fun status => ?_) inferInstance
  simp only [add_sub_right_comm]
  infer_instance

theorem query_account_follows {query : Address → Instr H Word}
    (alike : ∀ addr, Alike v.Allows v.exec (query addr) (query addr)) :
    Follows v.Allows v.exec v.result (query_account host query h left) (query_account host query h (left + v.gas)) := by
  refine .bind inferInstance fun _ => .bind inferInstance fun x => ?_
  refine follows_checked inferInstance (fun left => ?_) (fun _ => rfl) fun _ => rfl
  simp only [Bool.not_true, Bool.false_eq_true, if_false]
  infer_instance

theorem extcodecopy_follows :
    Follows v.Allows v.exec v.result (extcodecopy host h left) (extcodecopy host h (left + v.gas)) := by
  refine .bind inferInstance fun _ => .bind inferInstance fun _ => .bind inferInstance fun _ => ?_
  refine .bind inferInstance fun _ => .bind inferInstance fun x => .bind inferInstance fun mem_index => ?_
  refine .bind inferInstance fun input_index => .bind inferInstance fun size => ?_
  refine follows_checked inferInstance (fun left => ?_) (fun _ => rfl) fun _ => rfl
  simp only [Bool.not_true, Bool.false_eq_true, if_false, add_sub_right_comm]
  refine follows_paid (follows_checked inferInstance (fun left => ?_) (fun _ => rfl) fun _ => rfl)
  simp only [Bool.not_true, Bool.false_eq_true, if_false]
  infer_instance

instance get_tx_context_alike : Alike v.Allows v.exec (get_tx_context host) (get_tx_context host) := by
  have puts (tx : TxContext) := alike_changes (v := v) (f := fun s => s.set_tx tx) fun _ => rfl
  exact .get_same (fun _ => rfl) fun e => inferInstance

theorem push_tx_alike {field : TxContext → Word} :
    Alike v.Allows v.exec (push_tx host field h) (push_tx host field h) := by
  unfold push_tx
  infer_instance

theorem blobhash_alike : Alike v.Allows v.exec (blobhash host h) (blobhash host h) := by
  unfold blobhash
  infer_instance

theorem blockhash_alike : Alike v.Allows v.exec (blockhash host h) (blockhash host h) := by
  unfold blockhash
  infer_instance

theorem selfbalance_alike : Alike v.Allows v.exec (selfbalance host h) (selfbalance host h) :=
  .get_same (fun _ => rfl) fun _ => inferInstance

instance charge_beneficiary_follows {beneficiary : Address} : Follows v.Allows v.exec v.checked
    (charge_beneficiary host beneficiary left) (charge_beneficiary host beneficiary (left + v.gas)) := by
  refine .get_same (fun _ => rfl) fun e => ?_
  simp only [add_sub_right_comm]
  infer_instance

theorem selfdestruct_follows :
    Follows v.Allows v.exec v.result (selfdestruct host h left) (selfdestruct host h (left + v.gas)) := by
  have refunds := alike_changes (v := v) (f := fun s => s.add_refund 24000) fun _ => rfl
  refine .get_same (fun _ => rfl) fun e => .ite inferInstance ?_
  refine .bind inferInstance fun _ => .bind inferInstance fun x => ?_
  refine follows_checked inferInstance (fun left => ?_) (fun _ => rfl) fun _ => rfl
  simp only [Bool.not_true, Bool.false_eq_true, if_false]
  refine follows_checked inferInstance (fun left => ?_) (fun _ => rfl) fun _ => rfl
  simp only [Bool.not_true, Bool.false_eq_true, if_false]
  infer_instance

instance storage_is_cold_alike {rev : Revision} {addr : Address} {key : Word} :
    Alike v.Allows v.exec (storage_is_cold host rev addr key) (storage_is_cold host rev addr key) := by
  unfold storage_is_cold
  infer_instance

theorem sload_follows : Follows v.Allows v.exec v.result (sload host h left) (sload host h (left + v.gas)) := by
  have more := v.nonneg
  refine .get_same (fun _ => rfl) fun e => .bind inferInstance fun _ => .bind inferInstance fun key => ?_
  refine .bind inferInstance fun cold => ?_
  cases cold with
  | false =>
    simp only [Bool.false_eq_true, if_false, false_and]
    infer_instance
  | true =>
    simp only [if_true, true_and, add_sub_right_comm]
    exact follows_paid inferInstance

theorem sstore_follows : Follows v.Allows v.exec v.result (sstore host h left) (sstore host h (left + v.gas)) := by
  have more := v.nonneg
  refine .get_same (fun _ => rfl) fun e => .ite inferInstance ?_
  refine .ite_of (fun _ _ => inferInstance) (fun _ _ => ?_) (fun short paid => ?_) fun paid short => ?_
  · refine .bind inferInstance fun _ => .bind inferInstance fun _ => ?_
    refine .bind inferInstance fun key => .bind inferInstance fun value => .bind inferInstance fun cold => ?_
    refine .bind inferInstance fun value_prev => .bind inferInstance fun _ => .bind inferInstance fun status => ?_
    have refunds := alike_changes (v := v) (f := fun s => s.add_refund (sstore_costs e.state.rev status).2) fun _ => rfl
    simp only [add_sub_right_comm]
    exact follows_paid inferInstance
  · have pays : ¬ left + v.gas ≤ 2300 := fun less => paid ⟨short.1, less⟩
    rintro s _ _ ⟨⟩
    simp [Variation.result]
    omega
  · exact absurd ⟨short.1, by omega⟩ paid

theorem tload_alike : Alike v.Allows v.exec (tload host h) (tload host h) :=
  .get_same (fun _ => rfl) fun _ => inferInstance

theorem tstore_follows : Follows v.Allows v.exec v.result (tstore host h left) (tstore host h (left + v.gas)) := by
  refine .get_same (fun _ => rfl) fun e => .ite (.pure_of fun o made => ?_) inferInstance
  have same : v.gas = 0 := by
    by_contra more
    simp [Variation.result, more] at made
  rw [v.result_some made, same, add_zero]

/-! Where the gas is the same, it may be looked at and handed on. -/

theorem follows_of_alike (same : v.gas = 0) {σ : Type} {φ : σ → σ} {m : Int → Action Event σ InstructionResult}
    (alike : Alike v.Allows φ (m left) (m left)) : Follows v.Allows φ v.result (m left) (m (left + v.gas)) := by
  refine ⟨fun allowed ran made => ?_⟩
  rw [v.result_some made, same, add_zero, add_zero]
  exact alike.returns allowed ran rfl

theorem check_memory_alike (same : v.gas = 0) {offset size : Word} :
    Alike v.Allows v.state (check_memory left offset size) (check_memory left offset size) := by
  have follows : Follows v.Allows v.state v.checked (check_memory left offset size)
    (check_memory (left + v.gas) offset size) := check_memory_follows
  rw [same, add_zero] at follows
  exact ⟨fun allowed ran made => follows.returns allowed ran (by rw [← made]; simp [Variation.checked, same])⟩

theorem charge_access_alike (same : v.gas = 0) {addr : Address} {cost : Int} :
    Alike v.Allows v.exec (charge_access host addr cost left) (charge_access host addr cost left) := by
  have follows : Follows v.Allows v.exec v.checked (charge_access host addr cost left)
    (charge_access host addr cost (left + v.gas)) := charge_access_follows
  rw [same, add_zero] at follows
  exact ⟨fun allowed ran made => follows.returns allowed ran (by rw [← made]; simp [Variation.checked, same])⟩

theorem gas_alike : Alike v.Allows v.state (gas h left) (gas h left) := by
  unfold gas
  infer_instance

instance record_operands_alike {n : Nat} : Alike v.Allows v.state (record_operands n h) (record_operands n h) := by
  unfold record_operands
  infer_instance

instance pop_call_operands_alike {Op : CallOp} :
    Alike v.Allows v.state (pop_call_operands Op h) (pop_call_operands Op h) := by
  unfold pop_call_operands
  infer_instance

instance call_cost_alike {Op : CallOp} {has_value : Bool} {rev : Revision} {dst : Address} :
    Alike v.Allows v.exec (call_cost host Op has_value rev dst) (call_cost host Op has_value rev dst) := by
  unfold call_cost
  infer_instance

instance light_failure_alike {Op : CallOp} {o : CallOperands} :
    Alike v.Allows v.exec (light_failure host Op o) (light_failure host Op o) :=
  .get_same (fun _ => rfl) fun _ => inferInstance

theorem alike_set_return_data (v : Variation) (data : Bytes) :
    Alike v.Allows v.state (Action.modify fun s => s.set_return_data data : Local Unit)
      (Action.modify fun s => s.set_return_data data : Local Unit) :=
  alike_changes fun _ => rfl

instance finish_call_alike {o : CallOperands} {msg_gas : Int} {result : Result} :
    Alike v.Allows v.state (finish_call o msg_gas result h left) (finish_call o msg_gas result h left) := by
  have data := alike_set_return_data v result.output_data
  have refunds := alike_changes (v := v) (f := fun s => s.add_refund result.gas_refund) fun _ => rfl
  unfold finish_call
  infer_instance

instance make_call_alike {Op : CallOp} {o : CallOperands} {msg : Message} :
    Alike v.Allows v.exec (make_call host Op o msg h left) (make_call host Op o msg h left) := by
  unfold make_call
  infer_instance

theorem call_impl_alike (same : v.gas = 0) {Op : CallOp} :
    Alike v.Allows v.exec (call_impl host Op h left) (call_impl host Op h left) := by
  have data := alike_set_return_data v []
  have checks (left : Int) (offset size : Word) : Alike v.Allows v.state (check_memory left offset size)
    (check_memory left offset size) := check_memory_alike same
  refine .get_same (fun _ => rfl) fun e => .bind inferInstance fun _ => .bind inferInstance fun o => ?_
  refine .bind inferInstance fun _ => .bind inferInstance fun _ => .bind (charge_access_alike same) ?_
  rintro ⟨_, left⟩
  refine .ite inferInstance (.bind inferInstance ?_)
  rintro ⟨_, left⟩
  refine .ite inferInstance (.bind inferInstance ?_)
  rintro ⟨_, left⟩
  -- the rest is the same whether there is an input or not
  refine .ite inferInstance ?_
  refine (fun rest => .ite (.bind inferInstance rest) (.bind inferInstance rest)) fun input => ?_
  refine .ite inferInstance (.bind inferInstance fun cost => .ite inferInstance ?_)
  cases forwarded_gas e.state.rev o.gas (left - cost) <;> infer_instance

instance pop_create_operands_alike {Op : CreateOp} :
    Alike v.Allows v.state (pop_create_operands Op h) (pop_create_operands Op h) := by
  unfold pop_create_operands
  infer_instance

instance finish_create_alike {msg_gas : Int} {result : Result} :
    Alike v.Allows v.state (finish_create msg_gas result h left) (finish_create msg_gas result h left) := by
  have data := alike_set_return_data v result.output_data
  have refunds := alike_changes (v := v) (f := fun s => s.add_refund result.gas_refund) fun _ => rfl
  unfold finish_create
  infer_instance

instance create_light_failure_alike {endowment : Word} :
    Alike v.Allows v.exec (create_light_failure host endowment) (create_light_failure host endowment) :=
  .get_same (fun _ => rfl) fun _ => inferInstance

theorem create_impl_alike (same : v.gas = 0) {Op : CreateOp} :
    Alike v.Allows v.exec (create_impl host Op h left) (create_impl host Op h left) := by
  have data := alike_set_return_data v []
  have checks (left : Int) (offset size : Word) : Alike v.Allows v.state (check_memory left offset size)
    (check_memory left offset size) := check_memory_alike same
  refine .get_same (fun _ => rfl) fun e => .ite inferInstance (.bind inferInstance fun _ => ?_)
  refine .bind inferInstance fun o => .bind inferInstance fun _ => .bind inferInstance fun _ => .bind inferInstance ?_
  rintro ⟨_, left⟩
  refine .ite inferInstance (.ite inferInstance (.ite inferInstance (.bind inferInstance fun failed => ?_)))
  infer_instance

end
end EvmAssigner
