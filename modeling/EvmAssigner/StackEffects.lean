import EvmAssigner.Lib.StackMachine
import EvmAssigner.Steps

namespace EvmAssigner
variable {H : Type}

/-- The stack below a height is what it was. -/
def Below (m : Int) (s s' : ExecutionState) : Prop := SameBelow m s.stack_space s'.stack_space

theorem Below.refl (m : Int) (s : ExecutionState) : Below m s s := SameBelow.refl m s.stack_space

theorem Below.of_eq {m : Int} {s s' : ExecutionState} (same : s'.stack_space = s.stack_space) : Below m s s' :=
  fun a _ => congrFun same a

theorem Below.trans {m : Int} {s s' s'' : ExecutionState} (same : Below m s s') (same' : Below m s' s'') :
    Below m s s'' :=
  SameBelow.trans same same'

theorem Below.mono {m m' : Int} {s s' : ExecutionState} (same : Below m s s') (lower : m' ≤ m) : Below m' s s' :=
  SameBelow.mono same lower

theorem set_slot_update (s : ExecutionState) (slot : Int) (v : Word) :
    (s.set_slot slot v).stack_space = Function.update s.stack_space slot v :=
  funext fun a => (Function.update_apply s.stack_space slot v a).symm

theorem Below.set_slot {m slot : Int} (above : m ≤ slot) (s : ExecutionState) (v : Word) :
    Below m s (s.set_slot slot v) := by
  rw [Below, set_slot_update]
  exact SameBelow.update above

/-- An item is put above that height, and recorded. -/
theorem Below.put {m slot stack i : Int} {s s' : ExecutionState} {v : Word} {is_write : Bool}
    (kept : s'.stack_space = s.stack_space) (above : m ≤ slot) :
    Below m s ((s'.set_slot slot v).record stack i is_write) := by
  have put : Below m s' (s'.set_slot slot v) := .set_slot above s' v
  rwa [Below, kept] at put

theorem Checked.stack_space {s s' : ExecutionState} {offset : Word} {n : Nat} {ok : Bool} {gas_left left : Int}
    (checked : Checked s gas_left offset n ok left s') : s'.stack_space = s.stack_space := by
  rcases checked.grown with rfl | ⟨_, _, _, rfl⟩ <;> rfl

section
variable {s : ExecutionState} {h pos gas_left : Int}

theorem wlp_record_bytes_slots {address : Nat → Word} {is_write : Bool} {data : Bytes}
    {Q : Unit → ExecutionState → Prop} (each : ∀ s', s'.stack_space = s.stack_space → Q () s') :
    Action.wlp any_event (record_bytes address is_write data) Q s := by
  refine (Action.wlp_forEach (I := fun _ s' => s'.stack_space = s.stack_space) ?_ rfl).mono fun _ => each
  intro _ j _ s' _ same
  simp only [record_memory, Action.wlp_bind, Action.wlp_get, wlp_assert_that, Action.wlp_emit, Action.wlp_modify]
  exact fun _ => ⟨trivial, same⟩

theorem wlp_record_operands_slots {n : Nat} {stack : Int} {Q : Unit → ExecutionState → Prop}
    (each : ∀ s', s'.stack_space = s.stack_space → Q () s') :
    Action.wlp any_event (record_operands n stack) Q s := by
  refine (Action.wlp_forEach (I := fun _ s' => s'.stack_space = s.stack_space) ?_ rfl).mono fun _ => each
  intro _ i _ s' _ same
  exact wlp_record_stack.mpr same

theorem binary_slots {f : Word → Word → Word} : Action.wlp any_event (binary f h) (fun _ s' => s'.stack_space =
    Function.update s.stack_space (h - 2) (f (s.stack_space (h - 1)) (s.stack_space (h - 2)))) s := by
  have top : h - 1 - 0 = h - 1 := by omega
  have second : h - 1 - 1 - 0 = h - 2 := by omega
  simp only [binary, Action.wlp_bind, wlp_record_stack, wlp_stack_get, wlp_stack_set, top, second]
  exact set_slot_update s _ _

theorem unary_slots {f : Word → Word} : Action.wlp any_event (unary f h) (fun _ s' => s'.stack_space =
    Function.update s.stack_space (h - 1) (f (s.stack_space (h - 1)))) s := by
  have top : h - 1 - 0 = h - 1 := by omega
  simp only [unary, Action.wlp_bind, wlp_record_stack, wlp_stack_get, wlp_stack_set, top]
  exact set_slot_update s _ _

theorem calldataload_slots : Action.wlp any_event (calldataload h) (fun _ s' => s'.stack_space =
    Function.update s.stack_space (h - 1)
      (if s.msg.input_data.length < (s.stack_space (h - 1)).to_uint64 then 0
      else calldata_word s.msg.input_data (s.stack_space (h - 1)).to_uint64)) s := by
  rw [calldataload, Action.wlp_bind, Action.wlp_get]
  exact unary_slots

theorem push_word_slots {v : Word} : Action.wlp any_event (push_word v h) (fun _ s' => s'.stack_space =
    Function.update s.stack_space h v) s := by
  have top : h + 1 - 1 - 0 = h := by omega
  simp only [push_word, Action.wlp_bind, wlp_record_stack, wlp_stack_set, top]
  exact set_slot_update s _ _

theorem addmod_slots : Action.wlp any_event (addmod h) (fun _ s' => s'.stack_space =
    Function.update s.stack_space (h - 3)
      ((s.stack_space (h - 1)).addmod (s.stack_space (h - 2)) (s.stack_space (h - 3)))) s := by
  have top : h - 1 - 0 = h - 1 := by omega
  have second : h - 1 - 1 - 0 = h - 2 := by omega
  have third : h - 2 - 1 - 0 = h - 3 := by omega
  simp only [addmod, Action.wlp_bind, wlp_record_stack, wlp_stack_get, wlp_stack_set, top, second, third]
  exact set_slot_update s _ _

theorem mulmod_slots : Action.wlp any_event (mulmod h) (fun _ s' => s'.stack_space =
    Function.update s.stack_space (h - 3)
      ((s.stack_space (h - 1)).mulmod (s.stack_space (h - 2)) (s.stack_space (h - 3)))) s := by
  have top : h - 1 - 0 = h - 1 := by omega
  have second : h - 1 - 1 = h - 2 := by omega
  have third : h - 1 - 2 = h - 3 := by omega
  simp only [mulmod, Action.wlp_bind, wlp_record_stack, wlp_stack_get, wlp_stack_set, top, second, third]
  exact set_slot_update s _ _

theorem exp_slots : Action.wlp any_event (exp h gas_left) (fun o s' => o.status = .SUCCESS → s'.stack_space =
    Function.update s.stack_space (h - 2) ((s.stack_space (h - 1)).exp (s.stack_space (h - 2)))) s := by
  have top : h - 1 - 0 = h - 1 := by omega
  have second : h - 1 - 1 - 0 = h - 2 := by omega
  simp only [exp, Action.wlp_bind, Action.wlp_get, Action.wlp_ite, Action.wlp_pure, wlp_record_stack,
    wlp_stack_get, wlp_stack_set, top, second]
  exact ⟨fun _ => by simp, fun _ _ => set_slot_update s _ _⟩

theorem keccak256_below [Ethash] : Action.wlp any_event (keccak256 h gas_left)
    (fun o s' => o.status = .SUCCESS → Below (h - 2) s s') s := by
  simp only [keccak256, Action.wlp_bind, wlp_record_stack, wlp_stack_get]
  refine wlp_check_memory fun ok left s' checked _ => ?_
  have kept : s'.stack_space = s.stack_space := checked.stack_space
  simp only [Action.wlp_bind, Action.wlp_ite, Action.wlp_pure, wlp_memory_load, wlp_stack_set, wlp_record_stack]
  refine ⟨fun _ => by simp, fun _ => ⟨fun _ => by simp, fun _ => ⟨fun _ => ?_, fun _ => ?_⟩⟩⟩
  · refine wlp_record_bytes_slots fun s'' recorded => ⟨fun _ _ => ?_, fun _ _ => ?_⟩
    · exact .put (recorded.trans kept) (by omega)
    · exact .put (recorded.trans kept) (by omega)
  · exact ⟨fun _ _ => .put kept (by omega), fun _ _ => .put kept (by omega)⟩

theorem mload_below : Action.wlp any_event (mload h gas_left)
    (fun o s' => o.status = .SUCCESS → Below (h - 1) s s') s := by
  simp only [mload, Action.wlp_bind, wlp_record_stack, wlp_stack_get]
  refine wlp_check_memory_size (by omega) fun ok left s' checked => ?_
  have kept : s'.stack_space = s.stack_space := checked.stack_space
  simp only [Action.wlp_bind, Action.wlp_ite, Action.wlp_pure, wlp_memory_load, wlp_stack_set, wlp_record_stack]
  refine ⟨fun _ => by simp, fun _ => wlp_record_bytes_slots fun s'' recorded _ => ?_⟩
  rw [set_slot_update, kept] at recorded
  show SameBelow (h - 1) s.stack_space s''.stack_space
  rw [recorded]
  exact SameBelow.update (by omega)

theorem mstore_below {width : Nat} : Action.wlp any_event (mstore width h gas_left)
    (fun o s' => o.status = .SUCCESS → Below (h - 2) s s') s := by
  simp only [mstore, Action.wlp_bind, wlp_record_stack, wlp_stack_get]
  refine wlp_check_memory_size (by omega) fun ok left s' checked => ?_
  have kept : s'.stack_space = s.stack_space := checked.stack_space
  simp only [Action.wlp_bind, Action.wlp_ite, Action.wlp_pure, wlp_memory_load, wlp_memory_store]
  exact ⟨fun _ => by simp, fun _ => wlp_record_bytes_slots fun s'' recorded _ => .of_eq (recorded.trans kept)⟩

theorem copy_padded_slots {source : Bytes} {dst src n : Nat} {Q : Nat → ExecutionState → Prop}
    (each : ∀ copy_size s', s'.stack_space = s.stack_space → Q copy_size s') :
    Action.wlp any_event (copy_padded source dst src n) Q s := by
  simp only [copy_padded, Action.wlp_bind, Action.wlp_ite, Action.wlp_pure, wlp_memory_store]
  exact ⟨fun _ => ⟨fun _ => each _ _ rfl, fun _ => each _ _ rfl⟩,
    fun _ => ⟨fun _ => each _ _ rfl, fun _ => each _ _ rfl⟩⟩

theorem copy_to_memory_below {source : Bytes} : Action.wlp any_event (copy_to_memory source h gas_left)
    (fun o s' => o.status = .SUCCESS → Below (h - 3) s s') s := by
  simp only [copy_to_memory, Action.wlp_bind, wlp_record_stack, wlp_stack_get]
  refine wlp_check_memory fun ok left s' checked _ => ?_
  have kept : s'.stack_space = s.stack_space := checked.stack_space
  simp only [Action.wlp_bind, Action.wlp_ite, Action.wlp_pure, wlp_memory_load]
  refine ⟨fun _ => by simp, fun _ => ⟨fun _ => by simp, fun _ => ?_⟩⟩
  refine copy_padded_slots fun _ s'' copied => wlp_record_bytes_slots fun _ recorded _ => ?_
  exact .of_eq ((recorded.trans copied).trans kept)

theorem calldatacopy_below : Action.wlp any_event (calldatacopy h gas_left)
    (fun o s' => o.status = .SUCCESS → Below (h - 3) s s') s := by
  rw [calldatacopy, Action.wlp_bind, Action.wlp_get]
  exact copy_to_memory_below

theorem codecopy_below : Action.wlp any_event (codecopy h gas_left)
    (fun o s' => o.status = .SUCCESS → Below (h - 3) s s') s := by
  rw [codecopy, Action.wlp_bind, Action.wlp_get]
  exact copy_to_memory_below

theorem returndatacopy_below : Action.wlp any_event (returndatacopy h gas_left)
    (fun o s' => o.status = .SUCCESS → Below (h - 3) s s') s := by
  simp only [returndatacopy, Action.wlp_bind, Action.wlp_get, wlp_record_stack, wlp_stack_get]
  refine wlp_check_memory fun ok left s' checked _ => ?_
  have kept : s'.stack_space = s.stack_space := checked.stack_space
  simp only [Action.wlp_bind, Action.wlp_ite, Action.wlp_pure, wlp_memory_load, wlp_memory_store]
  refine ⟨fun _ => by simp, fun _ => ⟨fun _ => by simp, fun _ => ⟨fun _ => by simp, fun _ =>
    ⟨fun _ => by simp, fun _ => ⟨fun _ => wlp_record_bytes_slots fun _ recorded _ => ?_, fun _ _ => ?_⟩⟩⟩⟩⟩
  · exact .of_eq (recorded.trans kept)
  · exact .of_eq kept

theorem mcopy_below : Action.wlp any_event (mcopy h gas_left)
    (fun o s' => o.status = .SUCCESS → Below (h - 3) s s') s := by
  simp only [mcopy, Action.wlp_bind, wlp_record_stack, wlp_stack_get]
  refine wlp_check_memory fun ok left s' checked _ => ?_
  have kept : s'.stack_space = s.stack_space := checked.stack_space
  simp only [Action.wlp_bind, Action.wlp_ite, Action.wlp_pure, wlp_memory_load, wlp_memory_store]
  exact ⟨fun _ => by simp, fun _ => ⟨fun _ => by simp, fun _ =>
    ⟨fun _ _ => .of_eq kept, fun _ _ => .of_eq kept⟩⟩⟩

theorem dup_slot_slots {n : Int} : Action.wlp any_event (dup_slot n h) (fun _ s' => s'.stack_space =
    Function.update s.stack_space h (s.stack_space (h - n))) s := by
  have depth : h - 1 - (n - 1) = h - n := by omega
  simp only [dup_slot, Action.wlp_bind, wlp_record_stack, wlp_stack_get, depth]
  exact push_word_slots

theorem dup_top_slots : Action.wlp any_event (dup_top h) (fun _ s' => s'.stack_space =
    Function.update s.stack_space (h - 1)
      (s.stack_space (h - 1 - int32 (s.stack_space (h - 1)).to_uint64))) s := by
  have top : h - 1 - 0 = h - 1 := by omega
  simp only [dup_top, Action.wlp_bind, wlp_record_stack, wlp_stack_get, wlp_assert_that, top]
  exact dup_slot_slots

theorem swap_slots_slots {addr : Nat} : Action.wlp any_event (swap_slots addr h) (fun _ s' => s'.stack_space =
    Function.update (Function.update s.stack_space (h - 1) (s.stack_space (h - 1 - addr))) (h - 1 - addr)
      (s.stack_space (h - 1))) s := by
  have top : h - 1 - 0 = h - 1 := by omega
  simp only [swap_slots, Action.wlp_bind, wlp_record_stack, wlp_stack_get, wlp_stack_set, top]
  rw [← set_slot_update s, ← set_slot_update]
  rfl

theorem swap_top_slots : Action.wlp any_event (swap_top h) (fun _ s' => s'.stack_space =
    Function.update (Function.update s.stack_space (h - 2)
        (s.stack_space (h - 2 - uint16 (s.stack_space (h - 1)).to_uint64)))
      (h - 2 - uint16 (s.stack_space (h - 1)).to_uint64) (s.stack_space (h - 2))) s := by
  have top : h - 1 - 0 = h - 1 := by omega
  have second : h - 1 - 1 = h - 2 := by omega
  simp only [swap_top, Action.wlp_bind, wlp_record_stack, wlp_stack_get, wlp_assert_that, top]
  refine swap_slots_slots.mono fun _ s' same => ?_
  rw [same, second]
  rfl

theorem dupn_slots : Action.wlp any_event (dupn h pos) (fun next s' => next ≠ none ∨ s'.status = .SUCCESS →
    next = some (pos + 2) ∧ ((s.analysis.code_at (pos + 1)).toNat : Int) + 1 ≤ h % 2 ^ 16 ∧
      s'.stack_space =
        Function.update s.stack_space h (s.stack_space (h - ((s.analysis.code_at (pos + 1)).toNat + 1)))) s := by
  simp only [dupn, fail_with, Action.wlp_bind, wlp_read_code, Action.wlp_ite, Action.wlp_modify, Action.wlp_pure]
  exact ⟨fun _ => by simp, fun deep => dup_slot_slots.mono fun _ s' same _ => ⟨trivial, not_lt.mp deep, same⟩⟩

theorem swapn_slots : Action.wlp any_event (swapn h pos) (fun next s' => next ≠ none ∨ s'.status = .SUCCESS →
    next = some (pos + 2) ∧ ((s.analysis.code_at (pos + 1)).toNat : Int) + 1 < h ∧
      s'.stack_space = Function.update
        (Function.update s.stack_space (h - 1) (s.stack_space (h - 1 - ((s.analysis.code_at (pos + 1)).toNat + 1))))
        (h - 1 - ((s.analysis.code_at (pos + 1)).toNat + 1)) (s.stack_space (h - 1))) s := by
  have top : h - 1 - 0 = h - 1 := by omega
  simp only [swapn, fail_with, Action.wlp_bind, wlp_read_code, Action.wlp_ite, Action.wlp_modify, Action.wlp_pure,
    wlp_record_stack, wlp_stack_get, wlp_stack_set, top]
  refine ⟨fun _ => by simp, fun deep _ => ⟨trivial, not_le.mp deep, ?_⟩⟩
  rw [← set_slot_update s, ← set_slot_update]
  rfl

theorem push_below {Len : Nat} : Action.wlp any_event (push Len h pos) (fun _ s' => Below h s s') s := by
  have record (r : Word) : Action.wlp any_event
      (Action.forEach (fun i : Nat => record_stack (h + 1) i true) (List.range (Len / 32 + Len % 32)))
      (fun _ s' => Below h s s') (s.set_slot (h + 1 - 1 - 0) r) := by
    refine Action.wlp_forEach (I := fun _ s' => Below h s s') ?_ (.set_slot (by omega) s r)
    intro done i rest s' split below
    exact wlp_record_stack.mpr below
  simp only [push, Action.wlp_bind, Action.wlp_ite, Action.wlp_pure, wlp_stack_set]
  exact ⟨fun _ => wlp_load_partial fun _ => wlp_load_full_words record, fun _ => wlp_load_full_words record⟩

theorem dataload_below : Action.wlp any_event (dataload h) (fun _ s' => Below (h - 1) s s') s := by
  simp only [dataload, Action.wlp_bind, Action.wlp_get, Action.wlp_ite, wlp_record_stack, wlp_stack_get, wlp_stack_set]
  exact ⟨fun _ => .set_slot (by omega) _ _, fun _ => .put rfl (by omega)⟩

theorem dataloadn_below : Action.wlp any_event (dataloadn h pos) (fun _ s' => Below h s s') s := by
  simp only [dataloadn, read_uint16_be, push_word, Action.wlp_bind, Action.wlp_get, Action.wlp_emit, Action.wlp_pure,
    wlp_read_code, wlp_stack_set, wlp_record_stack]
  exact fun _ => ⟨trivial, .put rfl (by omega)⟩

theorem datacopy_below : Action.wlp any_event (datacopy h gas_left)
    (fun o s' => o.status = .SUCCESS → Below (h - 3) s s') s := by
  simp only [datacopy, Action.wlp_bind, Action.wlp_get, wlp_record_stack, wlp_stack_get]
  refine wlp_check_memory fun ok left s' checked _ => ?_
  have kept : s'.stack_space = s.stack_space := checked.stack_space
  simp only [Action.wlp_bind, Action.wlp_ite, Action.wlp_pure, wlp_memory_load, wlp_memory_store]
  refine ⟨fun _ => by simp, fun _ => ⟨fun _ => by simp, fun _ => ⟨fun _ => ?_, fun _ => ⟨fun _ => ?_, fun _ _ => ?_⟩⟩⟩⟩
  · refine wlp_record_bytes_slots fun s'' recorded => ⟨fun _ => ?_, fun _ _ => .of_eq (recorded.trans kept)⟩
    exact wlp_record_bytes_slots fun _ zeros _ => .of_eq (zeros.trans (recorded.trans kept))
  · exact wlp_record_bytes_slots fun _ recorded _ => .of_eq (recorded.trans kept)
  · exact .of_eq kept

/-! Instructions that only look at the stack. -/

theorem jump_impl_slots {dst : Word} :
    Action.wlp any_event (jump_impl dst) (fun _ s' => s'.stack_space = s.stack_space) s := by
  simp only [jump_impl, fail_with, Action.wlp_bind, Action.wlp_get, Action.wlp_ite, Action.wlp_emit,
    Action.wlp_modify, Action.wlp_pure]
  exact ⟨fun _ => rfl, fun _ _ => ⟨trivial, fun _ => rfl, fun _ => trivial⟩⟩

theorem jump_slots : Action.wlp any_event (jump h pos) (fun _ s' => s'.stack_space = s.stack_space) s := by
  simp only [jump, Action.wlp_bind, wlp_record_stack, wlp_stack_get]
  exact jump_impl_slots

theorem jumpi_slots : Action.wlp any_event (jumpi h pos) (fun _ s' => s'.stack_space = s.stack_space) s := by
  simp only [jumpi, Action.wlp_bind, Action.wlp_ite, Action.wlp_pure, wlp_record_stack, wlp_stack_get]
  exact ⟨fun _ => jump_impl_slots, fun _ => rfl⟩

theorem rjump_slots : Action.wlp any_event (rjump h pos) (fun _ s' => s'.stack_space = s.stack_space) s := by
  simp [rjump, read_int16_be, read_uint16_be]

theorem rjumpi_slots : Action.wlp any_event (rjumpi h pos) (fun _ s' => s'.stack_space = s.stack_space) s := by
  simp only [rjumpi, Action.wlp_bind, Action.wlp_ite, Action.wlp_pure, wlp_record_stack, wlp_stack_get]
  exact ⟨fun _ => rjump_slots, fun _ => rfl⟩

theorem rjumpv_slots : Action.wlp any_event (rjumpv h pos) (fun _ s' => s'.stack_space = s.stack_space) s := by
  simp only [rjumpv, read_int16_be, read_uint16_be, Action.wlp_bind, Action.wlp_ite, Action.wlp_pure,
    wlp_record_stack, wlp_stack_get, wlp_read_code]
  exact ⟨fun _ => rfl, fun _ => rfl⟩

theorem enter_section_slots {index : Nat} :
    Action.wlp any_event (enter_section index h) (fun _ s' => s'.stack_space = s.stack_space) s := by
  simp only [enter_section, Action.wlp_bind, Action.wlp_get, Action.wlp_emit, Action.wlp_ite, Action.wlp_modify,
    Action.wlp_pure]
  exact fun _ => ⟨trivial, fun _ => rfl, fun _ => trivial⟩

theorem section_start_slots {header : EOF1Header} {index : Nat} :
    Action.wlp any_event (section_start header index) (fun _ s' => s'.stack_space = s.stack_space) s := by
  simp [section_start]

theorem jumpf_slots : Action.wlp any_event (jumpf h pos) (fun _ s' => s'.stack_space = s.stack_space) s := by
  simp only [jumpf, read_uint16_be, Action.wlp_bind, Action.wlp_pure, wlp_read_code]
  refine enter_section_slots.mono fun header s' same => ?_
  cases header with
  | none => exact Action.wlp_pure.mpr same
  | some header => exact section_start_slots.mono fun _ _ same' => same'.trans same

theorem callf_slots : Action.wlp any_event (callf h pos) (fun _ s' => s'.stack_space = s.stack_space) s := by
  simp only [callf, read_uint16_be, Action.wlp_bind, Action.wlp_pure, wlp_read_code]
  refine enter_section_slots.mono fun header s' same => ?_
  cases header with
  | none => exact Action.wlp_pure.mpr same
  | some header =>
    simp only [fail_with, Action.wlp_bind, Action.wlp_get, Action.wlp_ite, Action.wlp_modify, Action.wlp_pure]
    exact ⟨fun _ => same, fun _ => section_start_slots.mono fun _ _ same' => same'.trans same⟩

theorem retf_slots : Action.wlp any_event (retf h pos) (fun _ s' => s'.stack_space = s.stack_space) s := by
  simp only [retf, Action.wlp_bind, Action.wlp_get, Action.wlp_emit, Action.wlp_modify, Action.wlp_pure]
  exact fun _ => ⟨trivial, rfl⟩

theorem return_impl_below {status : StatusCode} : Action.wlp any_event (return_impl status h gas_left)
    (fun _ s' => Below (h - 2) s s') s := by
  simp only [return_impl, Action.wlp_bind, wlp_record_stack, wlp_stack_get]
  refine wlp_check_memory fun ok left s' checked _ => ?_
  have kept : s'.stack_space = s.stack_space := checked.stack_space
  simp only [Action.wlp_bind, Action.wlp_ite, Action.wlp_modify, Action.wlp_pure]
  exact ⟨fun _ => .of_eq kept, fun _ => .of_eq kept⟩

end

section
variable {host : Host H} {exec : Exec H} {h gas_left : Int}

theorem push_tx_below {field : TxContext → Word} : Action.wlp any_event (push_tx host field h)
    (fun _ e => Below h exec.state e.state) exec := by
  simp only [push_tx, Action.wlp_bind, lift_on_state]
  refine wlp_get_tx_context fun tx m_tx host' => wlp_on_state.mpr (push_word_slots.mono fun _ s' same => ?_)
  rw [Below, same]
  exact SameBelow.update le_rfl

theorem blobhash_below : Action.wlp any_event (blobhash host h)
    (fun _ e => Below (h - 1) exec.state e.state) exec := by
  simp only [blobhash, Action.wlp_bind, lift_on_state, wlp_on_state, wlp_record_stack, wlp_stack_get]
  refine wlp_get_tx_context fun tx m_tx host' => ?_
  simp only [wlp_stack_set]
  exact .put rfl (by omega)

theorem blockhash_below : Action.wlp any_event (blockhash host h)
    (fun _ e => Below (h - 1) exec.state e.state) exec := by
  simp only [blockhash, Action.wlp_bind, lift_on_state, wlp_on_state, wlp_record_stack, wlp_stack_get]
  refine wlp_get_tx_context fun tx m_tx host' => ?_
  simp only [Action.wlp_ite, Action.wlp_pure, wlp_on_state, wlp_record_stack, wlp_stack_set, Action.wlp_bind]
  exact ⟨fun _ => wlp_on_host_any fun _ _ => .put rfl (by omega), fun _ => .put rfl (by omega)⟩

theorem selfbalance_below : Action.wlp any_event (selfbalance host h)
    (fun _ e => Below h exec.state e.state) exec := by
  simp only [selfbalance, Action.wlp_bind, Action.wlp_get, lift_on_state]
  refine wlp_on_host_any fun v host' => wlp_on_state.mpr (push_word_slots.mono fun _ s' same => ?_)
  rw [Below, same]
  exact SameBelow.update le_rfl

theorem query_account_below {query : Address → Instr H Word}
    (asks : ∀ addr (e : Exec H) (Q : Word → Exec H → Prop),
      (∀ v host', Q v { e with host := host' }) → Action.wlp any_event (query addr) Q e) :
    Action.wlp any_event (query_account host query h gas_left)
      (fun o e => o.status = .SUCCESS → Below (h - 1) exec.state e.state) exec := by
  simp only [query_account, Action.wlp_bind, lift_on_state, wlp_on_state, wlp_record_stack, wlp_stack_get]
  refine wlp_charge_access (by decide) fun ok left host' _ => ?_
  simp only [Action.wlp_ite, Action.wlp_pure, wlp_on_state, wlp_record_stack, wlp_stack_set, Action.wlp_bind]
  exact ⟨fun _ => by simp, fun _ => asks _ _ _ fun v host'' _ => .put rfl (by omega)⟩

theorem extcodecopy_below : Action.wlp any_event (extcodecopy host h gas_left)
    (fun o e => o.status = .SUCCESS → Below (h - 4) exec.state e.state) exec := by
  simp only [extcodecopy, Action.wlp_bind, lift_on_state, wlp_on_state, wlp_record_stack, wlp_stack_get]
  refine wlp_check_memory fun ok left s' checked _ => ?_
  have kept : s'.stack_space = exec.state.stack_space := checked.stack_space
  simp only [Action.wlp_ite, Action.wlp_bind, Action.wlp_pure]
  refine ⟨fun _ => by simp, fun _ => ⟨fun _ => by simp, fun _ => ?_⟩⟩
  refine wlp_charge_access (by decide) fun ok left host' _ => ?_
  simp only [wlp_on_state, wlp_host_store]
  refine ⟨fun _ => by simp, fun _ => ⟨fun _ => wlp_on_host_any fun code host'' => ?_, fun _ _ => .of_eq kept⟩⟩
  exact fun _ => ⟨trivial, fun _ _ => ⟨trivial, fun _ => .of_eq kept⟩, fun _ _ => .of_eq kept⟩

theorem sload_below : Action.wlp any_event (sload host h gas_left)
    (fun o e => o.status = .SUCCESS → Below (h - 1) exec.state e.state) exec := by
  simp only [sload, Action.wlp_bind, Action.wlp_get, lift_on_state, wlp_on_state, wlp_record_stack, wlp_stack_get]
  refine wlp_storage_is_cold fun cold host' => ?_
  simp only [record_storage, Action.wlp_ite, Action.wlp_bind, Action.wlp_pure, Action.wlp_get,
    Action.wlp_emit, Action.wlp_modify, wlp_on_state, wlp_record_stack, wlp_stack_set]
  exact ⟨fun _ => by simp, fun _ => wlp_on_host_any fun value host'' _ => ⟨trivial, fun _ => .put rfl (by omega)⟩⟩

theorem sstore_below : Action.wlp any_event (sstore host h gas_left)
    (fun o e => o.status = .SUCCESS → Below (h - 2) exec.state e.state) exec := by
  simp only [sstore, Action.wlp_bind, Action.wlp_get, Action.wlp_ite, Action.wlp_pure, lift_on_state,
    wlp_on_state, wlp_record_stack, wlp_stack_get]
  refine ⟨fun _ => by simp, fun _ => ⟨fun _ => by simp, fun _ => ?_⟩⟩
  refine wlp_storage_is_cold fun cold _ => wlp_on_host_any fun value_prev _ => ?_
  simp only [record_storage, Action.wlp_bind, Action.wlp_get, Action.wlp_emit, Action.wlp_modify]
  refine fun _ => ⟨trivial, wlp_on_host_any fun status _ => ⟨fun _ => by simp, fun _ _ => .of_eq rfl⟩⟩

theorem tload_below : Action.wlp any_event (tload host h)
    (fun _ e => Below (h - 1) exec.state e.state) exec := by
  simp only [tload, Action.wlp_bind, Action.wlp_get, lift_on_state, wlp_on_state, wlp_record_stack, wlp_stack_get]
  refine wlp_on_host_any fun value host' => ?_
  simp only [wlp_stack_set]
  exact .put rfl (by omega)

theorem tstore_below : Action.wlp any_event (tstore host h gas_left)
    (fun o e => o.status = .SUCCESS → Below (h - 2) exec.state e.state) exec := by
  simp only [tstore, Action.wlp_bind, Action.wlp_get, Action.wlp_ite, Action.wlp_pure, lift_on_state,
    wlp_on_state, wlp_record_stack, wlp_stack_get]
  exact ⟨fun _ => by simp, fun _ => wlp_on_host_any fun _ host' _ => .of_eq rfl⟩

theorem selfdestruct_below : Action.wlp any_event (selfdestruct host h gas_left)
    (fun _ e => Below (h - 1) exec.state e.state) exec := by
  simp only [selfdestruct, Action.wlp_bind, Action.wlp_get]
  refine Action.wlp_ite.mpr ⟨fun _ => Action.wlp_pure.mpr (.of_eq rfl), fun _ => ?_⟩
  simp only [Action.wlp_bind, lift_on_state, wlp_on_state, wlp_record_stack, wlp_stack_get]
  refine wlp_charge_access (by decide) fun ok left host' _ => ?_
  refine Action.wlp_ite.mpr ⟨fun _ => Action.wlp_pure.mpr (.of_eq rfl), fun _ => ?_⟩
  rw [Action.wlp_bind]
  refine wlp_charge_beneficiary fun ok left host' _ => ?_
  refine Action.wlp_ite.mpr ⟨fun _ => Action.wlp_pure.mpr (.of_eq rfl), fun _ => ?_⟩
  rw [Action.wlp_bind]
  refine wlp_on_host_any fun destroyed host' => Action.wlp_ite.mpr ⟨fun _ => ?_, fun _ => ?_⟩
  · simp only [Action.wlp_bind, wlp_on_state, Action.wlp_modify, Action.wlp_pure]
    exact .of_eq rfl
  · exact Action.wlp_pure.mpr (.of_eq rfl)

theorem finish_call_below {o : CallOperands} {msg_gas : Int} {result : Result} {s : ExecutionState} :
    Action.wlp any_event (finish_call o msg_gas result h gas_left) (fun _ s' => Below (h - 1) s s') s := by
  simp only [finish_call, Action.wlp_bind, Action.wlp_ite, Action.wlp_modify, Action.wlp_pure,
    wlp_stack_set, wlp_record_stack, wlp_host_store]
  have put (data : Bytes) (v : Word) :
      Below (h - 1) s (((s.set_return_data data).set_slot (h - 1 - 0) v).record h 0 true) := .put rfl (by omega)
  exact ⟨fun _ _ => ⟨trivial, put _ _⟩, fun _ => put _ _⟩

theorem make_call_below {Op : CallOp} {o : CallOperands} {msg : Message} :
    Action.wlp any_event (make_call host Op o msg h gas_left) (fun _ e => Below (h - 1) exec.state e.state) exec := by
  simp only [make_call, Action.wlp_bind, lift_on_state]
  refine wlp_light_failure fun failed host' => ?_
  simp only [Action.wlp_bind, Action.wlp_ite, Action.wlp_emit, Action.wlp_pure, wlp_on_state]
  exact ⟨fun _ _ => ⟨trivial, .of_eq rfl⟩, fun _ _ =>
    ⟨trivial, wlp_on_host_any fun result _ => finish_call_below⟩⟩

theorem pop_call_operands_slots {Op : CallOp} {s : ExecutionState} {stack : Int} :
    Action.wlp any_event (pop_call_operands Op stack) (fun _ s' => s' = s) s := by
  cases Op <;> simp [pop_call_operands, CallOp.takes_value]

theorem call_impl_below (Op : CallOp) : Action.wlp any_event (call_impl host Op h gas_left)
    (fun o e => o.status = .SUCCESS → Below (h - Op.num_stack_read) exec.state e.state) exec := by
  simp only [call_impl, Action.wlp_bind, Action.wlp_get, lift_on_state, wlp_on_state]
  refine wlp_record_operands_slots fun s₁ same₁ => pop_call_operands_slots.mono ?_
  rintro o _ rfl
  simp only [wlp_stack_set, Action.wlp_modify]
  refine wlp_charge_access (by decide) fun ok left host' _ => ?_
  refine Action.wlp_ite.mpr ⟨fun _ => by simp, fun _ => ?_⟩
  rw [Action.wlp_bind, wlp_on_state]
  refine wlp_check_memory fun ok left s₂ checked₂ _ => ?_
  refine Action.wlp_ite.mpr ⟨fun _ => by simp, fun _ => ?_⟩
  rw [Action.wlp_bind, wlp_on_state]
  refine wlp_check_memory fun ok left s₃ checked₃ _ => ?_
  refine Action.wlp_ite.mpr ⟨fun _ => by simp, fun _ => ?_⟩
  refine wlp_read_input fun input => ?_
  refine Action.wlp_ite.mpr ⟨fun _ => by simp, fun _ => ?_⟩
  rw [Action.wlp_bind]
  refine wlp_call_cost fun cost host' _ => ?_
  refine Action.wlp_ite.mpr ⟨fun _ => by simp, fun _ => ?_⟩
  split
  · exact Action.wlp_pure.mpr (by simp)
  · refine make_call_below.mono fun _ e below _ => ?_
    rw [Int.add_sub_cancel] at below
    have checked : Below (h - Op.num_stack_read) _ s₃ := .of_eq (checked₃.stack_space.trans checked₂.stack_space)
    exact (((Below.of_eq same₁).trans (.set_slot (by omega) _ _)).trans checked).trans below

theorem pop_create_operands_slots {Op : CreateOp} {s : ExecutionState} {stack : Int} :
    Action.wlp any_event (pop_create_operands Op stack) (fun _ s' => s' = s) s := by
  cases Op <;> simp [pop_create_operands]

theorem finish_create_below {msg_gas : Int} {result : Result} {s : ExecutionState} :
    Action.wlp any_event (finish_create msg_gas result h gas_left) (fun _ s' => Below (h - 1) s s') s := by
  simp only [finish_create, Action.wlp_bind, Action.wlp_ite, Action.wlp_modify, Action.wlp_pure,
    wlp_stack_set, wlp_record_stack]
  exact ⟨fun _ => .put rfl (by omega), fun _ => .of_eq rfl⟩

theorem create_impl_below (Op : CreateOp) : Action.wlp any_event (create_impl host Op h gas_left)
    (fun o e => o.status = .SUCCESS → Below (h - Op.num_stack_read) exec.state e.state) exec := by
  simp only [create_impl, Action.wlp_bind, Action.wlp_get]
  refine Action.wlp_ite.mpr ⟨fun _ => by simp, fun _ => ?_⟩
  simp only [Action.wlp_bind, lift_on_state, wlp_on_state]
  refine wlp_record_operands_slots fun s₁ same₁ => pop_create_operands_slots.mono ?_
  rintro o _ rfl
  simp only [wlp_stack_set, Action.wlp_modify]
  refine wlp_check_memory fun ok left s₂ checked₂ _ => ?_
  have same : Below (h - Op.num_stack_read) exec.state s₂ :=
    ((Below.of_eq same₁).trans (.set_slot (by omega) _ _)).trans (.of_eq checked₂.stack_space)
  refine Action.wlp_ite.mpr ⟨fun _ => by simp, fun _ => ?_⟩
  refine Action.wlp_ite.mpr ⟨fun _ => by simp, fun _ => ?_⟩
  refine Action.wlp_ite.mpr ⟨fun _ => by simp, fun _ => ?_⟩
  rw [Action.wlp_bind]
  refine wlp_create_light_failure fun failed host' => ?_
  refine Action.wlp_ite.mpr ⟨fun _ => ?_, fun _ => ?_⟩
  · rw [Action.wlp_bind, Action.wlp_emit]
    exact fun _ => ⟨trivial, Action.wlp_pure.mpr fun _ => same⟩
  · refine wlp_read_input fun input => ?_
    rw [Action.wlp_bind]
    refine wlp_on_host_any fun result host'' => wlp_on_state.mpr ?_
    refine finish_create_below.mono fun _ s' below _ => ?_
    rw [Int.add_sub_cancel] at below
    exact same.trans below

end
end EvmAssigner
