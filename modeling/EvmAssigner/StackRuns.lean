import EvmAssigner.StackTrace

namespace EvmAssigner
variable {H : Type}

section
variable {s : ExecutionState} {h pos gas_left : Int}

theorem binary_synced {f : Word → Word → Word} (synced : StackSynced h s) (operands : 2 ≤ h)
    (bound : h ≤ 1024) :
    Action.wlp stack_contract (binary f h) (fun _ s' => StackSynced (h - 1) s') s := by
  simp only [binary, Action.wlp_bind, wlp_record_stack, wlp_stack_get, wlp_stack_set]
  exact ((synced.read h 1).read h 0).put (by omega) (by omega) (by omega) (by omega) _

theorem unary_synced {f : Word → Word} (synced : StackSynced h s) (operands : 1 ≤ h)
    (bound : h ≤ 1024) :
    Action.wlp stack_contract (unary f h) (fun _ s' => StackSynced h s') s := by
  simp only [unary, Action.wlp_bind, wlp_record_stack, wlp_stack_get, wlp_stack_set]
  exact (synced.read h 0).put (by omega) (by omega) (by omega) (by omega) _

theorem push_word_synced {v : Word} (synced : StackSynced h s) (nonneg : 0 ≤ h) (room : h < 1024) :
    Action.wlp stack_contract (push_word v h) (fun _ s' => StackSynced (h + 1) s') s := by
  simp only [push_word, Action.wlp_bind, wlp_record_stack, wlp_stack_set]
  exact synced.put (by omega) (by omega) (by omega) (by omega) _

theorem addmod_synced (synced : StackSynced h s) (operands : 3 ≤ h) (bound : h ≤ 1024) :
    Action.wlp stack_contract (addmod h) (fun _ s' => StackSynced (h - 2) s') s := by
  simp only [addmod, Action.wlp_bind, wlp_record_stack, wlp_stack_get, wlp_stack_set]
  exact (((synced.read h 2).read h 1).read h 0).put (by omega) (by omega) (by omega) (by omega) _

theorem set_slot_self {slot : Int} {v : Word} (same : v = s.stack_space slot) :
    s.set_slot slot v = s := by
  subst same
  unfold ExecutionState.set_slot
  congr
  funext a
  split
  · rename_i h
    rw [h]
  · rfl

/-- The result of `MULMOD` is recorded where nothing was written, so it has to be what was there. -/
theorem mulmod_synced (synced : StackSynced h s) (operands : 3 ≤ h) (bound : h ≤ 1024)
    (zero : s.stack_space (h - 3) = 0) :
    Action.wlp stack_contract (mulmod h) (fun _ s' => StackSynced (h - 2) s') s := by
  simp only [mulmod, Action.wlp_bind, wlp_record_stack, wlp_stack_get, wlp_stack_set,
    ExecutionState.record_stack_space]
  have same : (s.stack_space (h - 1 - 0)).mulmod (s.stack_space (h - 1 - 1)) (s.stack_space (h - 1 - 2)) =
      (((s.record h 2 false).record h 1 false).record h 0 false).stack_space (h - 1 - 2) := by
    show _ = s.stack_space (h - 1 - 2)
    rw [show h - 1 - 2 = h - 3 by omega, zero]
    rfl
  have read := ((synced.read h 2).read h 1).read h 0
  rw [set_slot_self same]
  exact (read.mono (by omega)).write (by omega) (by omega) (by omega) bound (by omega)

theorem exp_synced (synced : StackSynced h s) (operands : 2 ≤ h) (bound : h ≤ 1024) :
    Action.wlp stack_contract (exp h gas_left) (fun o s' => o.status = .SUCCESS → StackSynced (h - 1) s') s := by
  simp only [exp, Action.wlp_bind, Action.wlp_get, Action.wlp_ite, Action.wlp_pure, wlp_record_stack,
    wlp_stack_get, wlp_stack_set]
  refine ⟨fun _ => by simp, fun _ _ => ?_⟩
  exact ((synced.read h 1).read h 0).put (by omega) (by omega) (by omega) (by omega) _

theorem keccak256_synced [Ethash] (synced : StackSynced h s) (operands : 2 ≤ h) (bound : h ≤ 1024) :
    Action.wlp stack_contract (keccak256 h gas_left)
      (fun o s' => o.status = .SUCCESS → StackSynced (h - 1) s') s := by
  simp only [keccak256, Action.wlp_bind, wlp_record_stack, wlp_stack_get]
  refine wlp_check_memory_keeps fun ok left s' keeps => ?_
  have checked := ((synced.read h 1).read h 0).keeps keeps
  simp only [Action.wlp_bind, Action.wlp_ite, Action.wlp_pure, wlp_memory_load, wlp_stack_set,
    wlp_record_stack]
  refine ⟨fun _ => by simp, fun _ => ⟨fun _ => by simp, fun _ => ⟨fun _ => ?_, fun _ => ?_⟩⟩⟩
  · refine wlp_record_bytes_keeps fun s'' keeps' => ⟨fun _ _ => ?_, fun _ _ => ?_⟩
    · exact (checked.keeps keeps').put (by omega) (by omega) (by omega) (by omega) _
    · exact (checked.keeps keeps').put (by omega) (by omega) (by omega) (by omega) _
  · refine ⟨fun _ _ => ?_, fun _ _ => ?_⟩
    · exact checked.put (by omega) (by omega) (by omega) (by omega) _
    · exact checked.put (by omega) (by omega) (by omega) (by omega) _

theorem calldataload_synced (synced : StackSynced h s) (operands : 1 ≤ h) (bound : h ≤ 1024) :
    Action.wlp stack_contract (calldataload h) (fun _ s' => StackSynced h s') s := by
  simp only [calldataload, Action.wlp_bind, Action.wlp_get]
  exact unary_synced synced operands bound

theorem mload_synced (synced : StackSynced h s) (operands : 1 ≤ h) (bound : h ≤ 1024) :
    Action.wlp stack_contract (mload h gas_left) (fun o s' => o.status = .SUCCESS → StackSynced h s') s := by
  simp only [mload, Action.wlp_bind, wlp_record_stack, wlp_stack_get]
  refine wlp_check_memory_size_keeps (by omega) fun ok left s' keeps => ?_
  have checked := (synced.read h 0).keeps keeps
  simp only [Action.wlp_bind, Action.wlp_ite, Action.wlp_pure, wlp_memory_load, wlp_stack_set,
    wlp_record_stack]
  refine ⟨fun _ => by simp, fun _ => wlp_record_bytes_keeps fun s'' keeps' _ => ?_⟩
  have below := (checked.mono (show h - 1 ≤ h by omega)).set_slot (show h - 1 ≤ h - 1 - 0 by omega)
    (Word.of_bytes (s'.memory.load ((s.stack_space (h - 1 - 0)).to_uint64) 32))
  exact (below.keeps keeps').write_top (by omega) bound

theorem mstore_synced {width : Nat} (synced : StackSynced h s) :
    Action.wlp stack_contract (mstore width h gas_left)
      (fun o s' => o.status = .SUCCESS → StackSynced (h - 2) s') s := by
  simp only [mstore, Action.wlp_bind, wlp_record_stack, wlp_stack_get]
  refine wlp_check_memory_size_keeps (by omega) fun ok left s' keeps => ?_
  have checked := ((synced.read h 1).read h 0).keeps keeps
  simp only [Action.wlp_bind, Action.wlp_ite, Action.wlp_pure, wlp_memory_load, wlp_memory_store]
  refine ⟨fun _ => by simp, fun _ => wlp_record_bytes_keeps fun s'' keeps' _ => ?_⟩
  exact ((checked.keeps (.set_memory _ _)).keeps keeps').mono (by omega)

theorem copy_padded_keeps {source : Bytes} {dst src n : Nat} {Q : Nat → ExecutionState → Prop}
    (each : ∀ copy_size s', KeepsStack s s' → Q copy_size s') :
    Action.wlp stack_contract (copy_padded source dst src n) Q s := by
  simp only [copy_padded, Action.wlp_bind, Action.wlp_ite, Action.wlp_pure, wlp_memory_store]
  refine ⟨fun _ => ⟨fun _ => each _ _ ?_, fun _ => each _ _ ?_⟩,
    fun _ => ⟨fun _ => each _ _ ?_, fun _ => each _ _ ?_⟩⟩
  · exact (KeepsStack.set_memory s _).trans (.set_memory _ _)
  · exact .set_memory s _
  · exact .set_memory s _
  · exact .refl s

theorem copy_to_memory_synced {source : Bytes} (synced : StackSynced h s) :
    Action.wlp stack_contract (copy_to_memory source h gas_left)
      (fun o s' => o.status = .SUCCESS → StackSynced (h - 3) s') s := by
  simp only [copy_to_memory, Action.wlp_bind, wlp_record_stack, wlp_stack_get]
  refine wlp_check_memory_keeps fun ok left s' keeps => ?_
  have checked := (((synced.read h 2).read h 1).read h 0).keeps keeps
  simp only [Action.wlp_bind, Action.wlp_ite, Action.wlp_pure, wlp_memory_load]
  refine ⟨fun _ => by simp, fun _ => ⟨fun _ => by simp, fun _ => ?_⟩⟩
  refine copy_padded_keeps fun _ s'' copied => wlp_record_bytes_keeps fun _ recorded _ => ?_
  exact ((checked.keeps copied).keeps recorded).mono (by omega)

theorem calldatacopy_synced (synced : StackSynced h s) :
    Action.wlp stack_contract (calldatacopy h gas_left)
      (fun o s' => o.status = .SUCCESS → StackSynced (h - 3) s') s := by
  rw [calldatacopy, Action.wlp_bind, Action.wlp_get]
  exact copy_to_memory_synced synced

theorem codecopy_synced (synced : StackSynced h s) :
    Action.wlp stack_contract (codecopy h gas_left)
      (fun o s' => o.status = .SUCCESS → StackSynced (h - 3) s') s := by
  rw [codecopy, Action.wlp_bind, Action.wlp_get]
  exact copy_to_memory_synced synced

theorem returndatacopy_synced (synced : StackSynced h s) :
    Action.wlp stack_contract (returndatacopy h gas_left)
      (fun o s' => o.status = .SUCCESS → StackSynced (h - 3) s') s := by
  simp only [returndatacopy, Action.wlp_bind, Action.wlp_get, wlp_record_stack, wlp_stack_get]
  refine wlp_check_memory_keeps fun ok left s' keeps => ?_
  have checked := (((synced.read h 2).read h 1).read h 0).keeps keeps
  simp only [Action.wlp_bind, Action.wlp_ite, Action.wlp_pure, wlp_memory_load, wlp_memory_store]
  refine ⟨fun _ => by simp, fun _ => ⟨fun _ => by simp, fun _ => ⟨fun _ => by simp, fun _ =>
    ⟨fun _ => by simp, fun _ => ⟨fun _ => wlp_record_bytes_keeps fun _ recorded _ => ?_, ?_⟩⟩⟩⟩⟩
  · exact ((checked.keeps (.set_memory _ _)).keeps recorded).mono (by omega)
  · exact fun _ _ => checked.mono (by omega)

theorem mcopy_synced (synced : StackSynced h s) :
    Action.wlp stack_contract (mcopy h gas_left)
      (fun o s' => o.status = .SUCCESS → StackSynced (h - 3) s') s := by
  simp only [mcopy, Action.wlp_bind, wlp_record_stack, wlp_stack_get]
  refine wlp_check_memory_keeps fun ok left s' keeps => ?_
  have checked := (((synced.read h 2).read h 1).read h 0).keeps keeps
  simp only [Action.wlp_bind, Action.wlp_ite, Action.wlp_pure, wlp_memory_load, wlp_memory_store]
  refine ⟨fun _ => by simp, fun _ => ⟨fun _ => by simp, fun _ => ⟨fun _ _ => ?_, fun _ _ => ?_⟩⟩⟩
  · exact (checked.keeps (.set_memory _ _)).mono (by omega)
  · exact checked.mono (by omega)

/-- The items below the new one are recorded again. -/
theorem push_synced {Len : Nat} (synced : StackSynced h s) (one : 1 ≤ Len) (most : Len ≤ 32)
    (nonneg : 0 ≤ h) (room : h < 1024) :
    Action.wlp stack_contract (push Len h pos) (fun _ s' => StackSynced (h + 1) s') s := by
  have record (r : Word) : Action.wlp stack_contract
      (Action.forEach (fun i : Nat => record_stack (h + 1) i true) (List.range (Len / 32 + Len % 32)))
      (fun _ s' => StackSynced (h + 1) s') (s.set_slot (h + 1 - 1 - 0) r) := by
    obtain ⟨m, count⟩ : ∃ m, Len / 32 + Len % 32 = m + 1 := ⟨Len / 32 + Len % 32 - 1, by omega⟩
    rw [count, List.range_succ_eq_map]
    refine Action.wlp_bind.mpr (wlp_record_stack.mpr ?_)
    refine Action.wlp_forEach (I := fun _ s' => StackSynced (h + 1) s') ?_ ?_
    · intro done i rest s' split synced'
      obtain ⟨j, within, rfl⟩ : ∃ j < m, i = j + 1 := by
        have member : i ∈ (List.range m).map Nat.succ := by simp [split]
        obtain ⟨j, within, rfl⟩ := List.mem_map.mp member
        exact ⟨j, List.mem_range.mp within, rfl⟩
      exact wlp_record_stack.mpr (synced'.write (by omega) (by omega) (by omega) (by omega) (by omega))
    · exact synced.put (by omega) (by omega) (by omega) (by omega) r
  simp only [push, Action.wlp_bind, Action.wlp_ite, Action.wlp_pure, wlp_stack_set]
  refine ⟨fun _ => wlp_load_partial fun r => wlp_load_full_words fun r' => ?_,
    fun _ => wlp_load_full_words fun r' => ?_⟩
  · exact record r'
  · exact record r'

theorem dup_slot_synced {n : Int} (synced : StackSynced h s) (nonneg : 0 ≤ h) (room : h < 1024) :
    Action.wlp stack_contract (dup_slot n h) (fun _ s' => StackSynced (h + 1) s') s := by
  simp only [dup_slot, Action.wlp_bind, wlp_record_stack, wlp_stack_get]
  exact push_word_synced (synced.read h (n - 1)) nonneg room

theorem dup_top_synced (synced : StackSynced h s) (operands : 1 ≤ h) (bound : h ≤ 1024) :
    Action.wlp stack_contract (dup_top h) (fun _ s' => StackSynced h s') s := by
  simp only [dup_top, Action.wlp_bind, wlp_record_stack, wlp_stack_get, wlp_assert_that]
  have popped := (synced.read h 0).mono (show h - 1 ≤ h by omega)
  refine (dup_slot_synced popped (by omega) (by omega)).mono fun _ s' synced' => ?_
  rwa [Int.sub_add_cancel] at synced'

/-- The second write is recorded one slot too high, so the items have to be the same. -/
theorem swap_slots_synced {addr : Nat} (synced : StackSynced h s) (nonneg : 0 ≤ h) (bound : h ≤ 1024)
    (within : addr < 2 ^ 16) (same : s.stack_space (h - 1) = s.stack_space (h - 1 - addr)) :
    Action.wlp stack_contract (swap_slots addr h) (fun _ s' => StackSynced h s') s := by
  simp only [swap_slots, Action.wlp_bind, wlp_record_stack, wlp_stack_get, wlp_stack_set]
  have read := (synced.read h addr).read h 0
  have upper : ((s.record h addr false).record h 0 false).set_slot (h - 1 - 0)
      (((s.record h addr false).record h 0 false).stack_space (h - 1 - addr)) =
        (s.record h addr false).record h 0 false := by
    apply set_slot_self
    show s.stack_space (h - 1 - addr) = s.stack_space (h - 1 - 0)
    rw [sub_zero, same]
  have lower : ((s.record h addr false).record h 0 false).set_slot (h - 1 - addr)
      (((s.record h addr false).record h 0 false).stack_space (h - 1 - 0)) =
        (s.record h addr false).record h 0 false := by
    apply set_slot_self
    show s.stack_space (h - 1 - 0) = s.stack_space (h - 1 - addr)
    rw [sub_zero, same]
  rw [upper, lower]
  exact (read.write (by omega) (by omega) nonneg bound le_rfl).write (by omega) (by omega) nonneg bound
    le_rfl

theorem swap_top_synced (synced : StackSynced h s) (operands : 1 ≤ h) (bound : h ≤ 1024)
    (same : s.stack_space (h - 2) =
      s.stack_space (h - 2 - uint16 (s.stack_space (h - 1)).to_uint64)) :
    Action.wlp stack_contract (swap_top h) (fun _ s' => StackSynced (h - 1) s') s := by
  simp only [swap_top, Action.wlp_bind, wlp_record_stack, wlp_stack_get, wlp_assert_that]
  have popped := (synced.read h 0).mono (show h - 1 ≤ h by omega)
  refine swap_slots_synced popped (by omega) (by omega) (uint16_lt _) ?_
  show s.stack_space (h - 1 - 1) = s.stack_space (h - 1 - 1 - uint16 (s.stack_space (h - 1 - 0)).to_uint64)
  rw [sub_zero, show h - 1 - 1 = h - 2 by omega]
  exact same

/-- Both items are recorded where they have been put. -/
theorem exchange_synced {n : Int} {v w : Word} (synced : StackSynced h s) (deep : n < h)
    (positive : 0 < n) (bound : h ≤ 1024) :
    StackSynced h ((((s.set_slot (h - 1 - 0) v).set_slot (h - 1 - n) w).record h 0 true).record h n true) := by
  have slot {a : Nat} {i : Int} (live : (a : Int) < h) (nonneg : 0 ≤ i) (within : i < h) :
      a = stack_address h i ↔ (a : Int) = h - 1 - i :=
    stack_address_eq (by omega) bound (by omega) (by omega) (by omega)
  intro a live
  rw [carried_record (by omega), carried_record (by omega)]
  simp only [slot live positive.le deep, slot live le_rfl (show 0 < h by omega)]
  by_cases lower : (a : Int) = h - 1 - n
  · rw [if_pos lower, ← lower]
    rfl
  · by_cases upper : (a : Int) = h - 1 - 0
    · rw [if_neg lower, if_pos upper, ← upper]
      rfl
    · rw [if_neg lower, if_neg upper]
      show s.carried a = some (if (a : Int) = h - 1 - n then w
        else if (a : Int) = h - 1 - 0 then v else s.stack_space a)
      rw [if_neg lower, if_neg upper]
      exact synced a live

theorem dupn_synced (synced : StackSynced h s) (nonneg : 0 ≤ h) (room : h < 1024) :
    Action.wlp stack_contract (dupn h pos)
      (fun next s' => next ≠ none ∨ s'.status = .SUCCESS → StackSynced (h + 1) s') s := by
  simp only [dupn, fail_with, Action.wlp_bind, wlp_read_code, Action.wlp_ite, Action.wlp_modify,
    Action.wlp_pure]
  refine ⟨fun _ => by simp, fun _ => ?_⟩
  exact (dup_slot_synced synced nonneg room).mono fun _ _ synced' _ => synced'

theorem swapn_synced (synced : StackSynced h s) (bound : h ≤ 1024) :
    Action.wlp stack_contract (swapn h pos)
      (fun next s' => next ≠ none ∨ s'.status = .SUCCESS → StackSynced h s') s := by
  simp only [swapn, fail_with, Action.wlp_bind, wlp_read_code, Action.wlp_ite, Action.wlp_modify,
    Action.wlp_pure, wlp_record_stack, wlp_stack_get, wlp_stack_set]
  refine ⟨fun _ => by simp, fun deep _ => ?_⟩
  exact exchange_synced ((synced.read h _).read h 0) (by omega) (by omega) bound

theorem jump_impl_keeps {dst : Word} (synced : StackSynced h s) :
    Action.wlp stack_contract (jump_impl dst)
      (fun next s' => next ≠ none ∨ s'.status = .SUCCESS → StackSynced h s') s := by
  simp only [jump_impl, fail_with, Action.wlp_bind, Action.wlp_get, Action.wlp_ite, Action.wlp_emit,
    Action.wlp_modify, Action.wlp_pure]
  exact ⟨fun _ => by simp, fun _ _ => ⟨trivial, fun _ => by simp, fun _ _ => synced⟩⟩

theorem jump_synced (synced : StackSynced h s) :
    Action.wlp stack_contract (jump h pos)
      (fun next s' => next ≠ none ∨ s'.status = .SUCCESS → StackSynced (h - 1) s') s := by
  simp only [jump, Action.wlp_bind, wlp_record_stack, wlp_stack_get]
  exact jump_impl_keeps ((synced.read h 0).mono (by omega))

theorem jumpi_synced (synced : StackSynced h s) :
    Action.wlp stack_contract (jumpi h pos)
      (fun next s' => next ≠ none ∨ s'.status = .SUCCESS → StackSynced (h - 2) s') s := by
  simp only [jumpi, Action.wlp_bind, wlp_record_stack, wlp_stack_get, Action.wlp_ite, Action.wlp_pure]
  have popped := ((synced.read h 1).read h 0).mono (show h - 2 ≤ h by omega)
  exact ⟨fun _ => jump_impl_keeps popped, fun _ _ => popped⟩

theorem pc_synced (synced : StackSynced h s) (nonneg : 0 ≤ h) (room : h < 1024) :
    Action.wlp stack_contract (pc h pos) (fun _ s' => StackSynced (h + 1) s') s := by
  simp only [pc, Action.wlp_bind, Action.wlp_pure]
  exact push_word_synced synced nonneg room

theorem gas_synced (synced : StackSynced h s) (nonneg : 0 ≤ h) (room : h < 1024) :
    Action.wlp stack_contract (gas h gas_left) (fun _ s' => StackSynced (h + 1) s') s := by
  simp only [gas, Action.wlp_bind, Action.wlp_pure]
  exact push_word_synced synced nonneg room

theorem return_impl_synced {status : StatusCode} (synced : StackSynced h s) :
    Action.wlp stack_contract (return_impl status h gas_left) (fun _ s' => StackSynced (h - 2) s') s := by
  simp only [return_impl, Action.wlp_bind, wlp_record_stack, wlp_stack_get]
  refine wlp_check_memory_keeps fun ok left s' keeps => ?_
  have checked := (((synced.read h 1).read h 0).keeps keeps).mono (show h - 2 ≤ h by omega)
  simp only [Action.wlp_bind, Action.wlp_ite, Action.wlp_modify, Action.wlp_pure]
  exact ⟨fun _ => checked, fun _ => checked⟩

end

section
variable {host : Host H} {exec : Exec H} {h gas_left : Int}

theorem push_tx_synced {field : TxContext → Word} (synced : StackSynced h exec.state)
    (nonneg : 0 ≤ h) (room : h < 1024) :
    Action.wlp stack_contract (push_tx host field h) (fun _ e => StackSynced (h + 1) e.state) exec := by
  simp only [push_tx, Action.wlp_bind, lift_on_state]
  exact wlp_get_tx_context fun tx m_tx host' => wlp_on_state.mpr (push_word_synced synced nonneg room)

theorem blobhash_synced (synced : StackSynced h exec.state) (operands : 1 ≤ h) (bound : h ≤ 1024) :
    Action.wlp stack_contract (blobhash host h) (fun _ e => StackSynced h e.state) exec := by
  simp only [blobhash, Action.wlp_bind, lift_on_state, wlp_on_state, wlp_record_stack, wlp_stack_get]
  refine wlp_get_tx_context fun tx m_tx host' => ?_
  simp only [wlp_stack_set]
  have asked : StackSynced h ((exec.state.record h 0 false).set_tx m_tx) := synced.read h 0
  exact asked.put (by omega) bound (by omega) (by omega) _

theorem blockhash_synced (synced : StackSynced h exec.state) (operands : 1 ≤ h) (bound : h ≤ 1024) :
    Action.wlp stack_contract (blockhash host h) (fun _ e => StackSynced h e.state) exec := by
  simp only [blockhash, Action.wlp_bind, lift_on_state, wlp_on_state, wlp_record_stack, wlp_stack_get]
  refine wlp_get_tx_context fun tx m_tx host' => ?_
  have asked : StackSynced h ((exec.state.record h 0 false).set_tx m_tx) := synced.read h 0
  simp only [Action.wlp_ite, Action.wlp_pure, wlp_on_state, wlp_record_stack, wlp_stack_set,
    Action.wlp_bind]
  refine ⟨fun _ => wlp_on_host_any fun _ _ => ?_, fun _ => ?_⟩
  · exact asked.put (by omega) bound (by omega) (by omega) _
  · exact asked.put (by omega) bound (by omega) (by omega) _

theorem selfbalance_synced (synced : StackSynced h exec.state) (nonneg : 0 ≤ h) (room : h < 1024) :
    Action.wlp stack_contract (selfbalance host h) (fun _ e => StackSynced (h + 1) e.state) exec := by
  simp only [selfbalance, Action.wlp_bind, Action.wlp_get, lift_on_state]
  exact wlp_on_host_any fun v host' => wlp_on_state.mpr (push_word_synced synced nonneg room)

theorem query_account_synced {query : Address → Instr H Word}
    (asks : ∀ addr (e : Exec H) (Q : Word → Exec H → Prop),
      (∀ v host', Q v { e with host := host' }) → Action.wlp stack_contract (query addr) Q e)
    (synced : StackSynced h exec.state) (operands : 1 ≤ h) (bound : h ≤ 1024) :
    Action.wlp stack_contract (query_account host query h gas_left)
      (fun o e => o.status = .SUCCESS → StackSynced h e.state) exec := by
  simp only [query_account, Action.wlp_bind, lift_on_state, wlp_on_state, wlp_record_stack, wlp_stack_get]
  refine wlp_charge_access (by decide) fun ok left host' _ => ?_
  simp only [Action.wlp_ite, Action.wlp_pure, wlp_on_state, wlp_record_stack, wlp_stack_set,
    Action.wlp_bind]
  refine ⟨fun _ => by simp, fun _ => asks _ _ _ fun v host'' _ => ?_⟩
  exact (synced.read h 0).put (by omega) bound (by omega) (by omega) v

theorem extcodecopy_synced (synced : StackSynced h exec.state) :
    Action.wlp stack_contract (extcodecopy host h gas_left)
      (fun o e => o.status = .SUCCESS → StackSynced (h - 4) e.state) exec := by
  simp only [extcodecopy, Action.wlp_bind, lift_on_state, wlp_on_state, wlp_record_stack, wlp_stack_get]
  refine wlp_check_memory_keeps fun ok left s' keeps => ?_
  have checked := (((((synced.read h 3).read h 2).read h 1).read h 0).keeps keeps).mono
    (show h - 4 ≤ h by omega)
  simp only [Action.wlp_ite, Action.wlp_bind, Action.wlp_pure]
  refine ⟨fun _ => by simp, fun _ => ⟨fun _ => by simp, fun _ => ?_⟩⟩
  refine wlp_charge_access (by decide) fun ok left host' _ => ?_
  simp only [wlp_on_state, wlp_host_store]
  refine ⟨fun _ => by simp, fun _ => ⟨fun _ => wlp_on_host_any fun code host'' => ?_, fun _ _ => checked⟩⟩
  exact fun _ => ⟨trivial, fun _ _ => ⟨trivial, fun _ =>
    (checked.keeps (.set_memory _ _)).keeps (.set_memory _ _)⟩, fun _ _ => checked.keeps (.set_memory _ _)⟩

theorem sload_synced (synced : StackSynced h exec.state) (operands : 1 ≤ h) (bound : h ≤ 1024) :
    Action.wlp stack_contract (sload host h gas_left)
      (fun o e => o.status = .SUCCESS → StackSynced h e.state) exec := by
  simp only [sload, Action.wlp_bind, Action.wlp_get, lift_on_state, wlp_on_state, wlp_record_stack,
    wlp_stack_get]
  refine wlp_storage_is_cold fun cold host' => ?_
  simp only [record_storage, Action.wlp_ite, Action.wlp_bind, Action.wlp_pure, Action.wlp_get,
    Action.wlp_emit, Action.wlp_modify, wlp_on_state, wlp_record_stack, wlp_stack_set]
  refine ⟨fun _ => by simp, fun _ => wlp_on_host_any fun value host'' _ => ⟨trivial, fun _ => ?_⟩⟩
  refine StackSynced.put (h := h) ?_ (by omega) bound (by omega) (by omega) value
  exact (synced.read h 0).keeps (.push_storage _)

theorem sstore_synced (synced : StackSynced h exec.state) :
    Action.wlp stack_contract (sstore host h gas_left)
      (fun o e => o.status = .SUCCESS → StackSynced (h - 2) e.state) exec := by
  simp only [sstore, Action.wlp_bind, Action.wlp_get, Action.wlp_ite, Action.wlp_pure, lift_on_state,
    wlp_on_state, wlp_record_stack, wlp_stack_get]
  refine ⟨fun _ => by simp, fun _ => ⟨fun _ => by simp, fun _ => ?_⟩⟩
  refine wlp_storage_is_cold fun cold _ => wlp_on_host_any fun value_prev _ => ?_
  simp only [record_storage, Action.wlp_bind, Action.wlp_get, Action.wlp_emit, Action.wlp_modify]
  refine fun _ => ⟨trivial, ?_⟩
  refine wlp_on_host_any fun status _ => ⟨fun _ => by simp, fun _ _ => ?_⟩
  refine StackSynced.mono (h := h) ?_ (by omega)
  exact (((synced.read h 1).read h 0).keeps (.push_storage _)).keeps (.add_refund _ _)

theorem tload_synced (synced : StackSynced h exec.state) (operands : 1 ≤ h) (bound : h ≤ 1024) :
    Action.wlp stack_contract (tload host h) (fun _ e => StackSynced h e.state) exec := by
  simp only [tload, Action.wlp_bind, Action.wlp_get, lift_on_state, wlp_on_state, wlp_record_stack,
    wlp_stack_get]
  refine wlp_on_host_any fun value host' => ?_
  simp only [wlp_stack_set]
  exact (synced.read h 0).put (by omega) bound (by omega) (by omega) value

theorem tstore_synced (synced : StackSynced h exec.state) :
    Action.wlp stack_contract (tstore host h gas_left)
      (fun o e => o.status = .SUCCESS → StackSynced (h - 2) e.state) exec := by
  simp only [tstore, Action.wlp_bind, Action.wlp_get, Action.wlp_ite, Action.wlp_pure, lift_on_state,
    wlp_on_state, wlp_record_stack, wlp_stack_get]
  refine ⟨fun _ => by simp, fun _ => wlp_on_host_any fun _ host' _ => ?_⟩
  exact ((synced.read h 1).read h 0).mono (by omega)

/-! Calls and creations push a zero that is not recorded until the end. -/

/-- Slot `m` holds a zero where the trace still has the operand `w`. -/
structure Assumed (m : Int) (w : Word) (s : ExecutionState) : Prop where
  nonneg : 0 ≤ m
  below : StackSynced m s
  carried : s.carried m.toNat = some w
  top : s.stack_space m = 0

theorem StackSynced.assume {s : ExecutionState} {m : Int} (synced : StackSynced h s) (nonneg : 0 ≤ m)
    (live : m < h) : Assumed m (s.stack_space m) (s.set_slot m 0) where
  nonneg := nonneg
  below := (synced.mono (by omega)).set_slot le_rfl 0
  carried := by
    have operand := synced m.toNat (by omega)
    rwa [Int.toNat_of_nonneg nonneg] at operand
  top := if_pos rfl

namespace Assumed
variable {s s' : ExecutionState} {m : Int} {w : Word}

theorem keeps (assumed : Assumed m w s) (keeps : KeepsStack s s') : Assumed m w s' where
  nonneg := assumed.nonneg
  below := assumed.below.keeps keeps
  carried := (keeps.carried _).trans assumed.carried
  top := (congrFun keeps.stack_space m).trans assumed.top

/-- The zero goes unnoticed when the operand was zero as well. -/
theorem zero (assumed : Assumed m 0 s) : StackSynced (m + 1) s := by
  intro a live
  by_cases at_top : (a : Int) = m
  · have here : m.toNat = a := by omega
    rw [at_top, assumed.top, ← here]
    exact assumed.carried
  · exact assumed.below a (by omega)

end Assumed

theorem pop_call_operands_last {Op : CallOp} {s : ExecutionState} {stack : Int} :
    Action.wlp stack_contract (pop_call_operands Op stack)
      (fun o s' => s' = s ∧ o.output_size = s.stack_space (stack - Op.num_stack_read)) s := by
  have seven : stack - 7 = stack - 1 - (3 + 3) := by omega
  have six : stack - 6 = stack - 1 - (2 + 3) := by omega
  cases Op with
  | CALL => simp [pop_call_operands, CallOp.takes_value, CallOp.num_stack_read, seven]
  | CALLCODE => simp [pop_call_operands, CallOp.takes_value, CallOp.num_stack_read, seven]
  | DELEGATECALL => simp [pop_call_operands, CallOp.takes_value, CallOp.num_stack_read, six]
  | STATICCALL => simp [pop_call_operands, CallOp.takes_value, CallOp.num_stack_read, six]

theorem finish_call_synced {o : CallOperands} {msg_gas : Int} {result : Result} {s : ExecutionState}
    (synced : StackSynced (h - 1) s) (positive : 0 < h) (bound : h ≤ 1024) :
    Action.wlp stack_contract (finish_call o msg_gas result h gas_left) (fun _ s' => StackSynced h s') s := by
  simp only [finish_call, Action.wlp_bind, Action.wlp_ite, Action.wlp_modify, Action.wlp_pure,
    wlp_stack_set, wlp_record_stack, wlp_host_store]
  have returned := synced.keeps (.set_return_data s result.output_data)
  have put := returned.put positive bound le_rfl (show h - 1 - 0 = h - 1 by omega)
    (.of_bool (decide (result.status_code = .SUCCESS)))
  exact ⟨fun _ _ => ⟨trivial, (put.keeps (.set_memory _ _)).keeps (.add_refund _ _)⟩, fun _ =>
    put.keeps (.add_refund _ _)⟩

theorem make_call_synced {Op : CallOp} {o : CallOperands} {msg : Message}
    (assumed : Assumed (h - 1) o.output_size exec.state) (bound : h ≤ 1024) :
    Action.wlp stack_contract (make_call host Op o msg h gas_left) (fun _ e => StackSynced h e.state) exec := by
  simp only [make_call, Action.wlp_bind, lift_on_state]
  refine wlp_light_failure fun failed host' => ?_
  simp only [Action.wlp_bind, Action.wlp_ite, Action.wlp_emit, Action.wlp_pure, wlp_on_state]
  refine ⟨fun _ unnoticed => ⟨trivial, ?_⟩, fun _ _ =>
    ⟨trivial, wlp_on_host_any fun result _ => ?_⟩⟩
  · rw [show o.output_size = 0 from unnoticed] at assumed
    have synced := assumed.zero
    rwa [Int.sub_add_cancel] at synced
  · have positive := assumed.nonneg
    exact finish_call_synced assumed.below (by omega) bound

theorem call_impl_synced (Op : CallOp) (synced : StackSynced h exec.state)
    (operands : (Op.num_stack_read : Int) ≤ h) (bound : h ≤ 1024) :
    Action.wlp stack_contract (call_impl host Op h gas_left)
      (fun o e => o.status = .SUCCESS → StackSynced (h - Op.num_stack_read + 1) e.state) exec := by
  have positive : 0 < Op.num_stack_read := by cases Op <;> simp [CallOp.num_stack_read, CallOp.takes_value]
  simp only [call_impl, Action.wlp_bind, Action.wlp_get, lift_on_state, wlp_on_state]
  refine wlp_record_operands_keeps fun s₁ keeps₁ => pop_call_operands_last.mono ?_
  rintro o _ ⟨rfl, last⟩
  simp only [wlp_stack_set, Action.wlp_modify]
  have assumed := (synced.keeps keeps₁).assume (m := h - Op.num_stack_read) (by omega) (by omega)
  rw [← last] at assumed
  rw [show h - (Op.num_stack_read : Int) + 1 - 1 - 0 = h - Op.num_stack_read by omega]
  have cleared := assumed.keeps (.set_return_data _ [])
  refine wlp_charge_access (by decide) fun ok left host' _ => ?_
  refine Action.wlp_ite.mpr ⟨fun _ => by simp, fun _ => ?_⟩
  rw [Action.wlp_bind, wlp_on_state]
  refine wlp_check_memory_keeps fun ok left s₂ keeps₂ => ?_
  refine Action.wlp_ite.mpr ⟨fun _ => by simp, fun _ => ?_⟩
  rw [Action.wlp_bind, wlp_on_state]
  refine wlp_check_memory_keeps fun ok left s₃ keeps₃ => ?_
  refine Action.wlp_ite.mpr ⟨fun _ => by simp, fun _ => ?_⟩
  refine wlp_read_input fun input => ?_
  refine Action.wlp_ite.mpr ⟨fun _ => by simp, fun _ => ?_⟩
  rw [Action.wlp_bind]
  refine wlp_call_cost fun cost host' _ => ?_
  refine Action.wlp_ite.mpr ⟨fun _ => by simp, fun _ => ?_⟩
  split
  · exact Action.wlp_pure.mpr (by simp)
  · refine (make_call_synced ?_ (by omega)).mono fun _ _ synced' _ => synced'
    rw [Int.add_sub_cancel]
    exact (cleared.keeps keeps₂).keeps keeps₃

theorem pop_create_operands_last {Op : CreateOp} {s : ExecutionState} {stack : Int} :
    Action.wlp stack_contract (pop_create_operands Op stack)
      (fun o s' => s' = s ∧ (if Op = .CREATE2 then o.salt else o.init_code_size) =
        s.stack_space (stack - Op.num_stack_read)) s := by
  have four : stack - 4 = stack - 1 - 3 := by omega
  have three : stack - 3 = stack - 1 - 2 := by omega
  cases Op with
  | CREATE => simp [pop_create_operands, CreateOp.num_stack_read, three]
  | CREATE2 => simp [pop_create_operands, CreateOp.num_stack_read, four]

theorem finish_create_synced {msg_gas : Int} {result : Result} {s : ExecutionState}
    (synced : StackSynced (h - 1) s) (positive : 0 < h) (bound : h ≤ 1024) :
    Action.wlp stack_contract (finish_create msg_gas result h gas_left) (fun _ s' => StackSynced h s') s := by
  simp only [finish_create, Action.wlp_bind, Action.wlp_ite, Action.wlp_modify, Action.wlp_pure,
    wlp_stack_set, wlp_record_stack]
  have returned := (synced.keeps (.add_refund s result.gas_refund)).keeps
    (.set_return_data _ result.output_data)
  exact ⟨fun _ => returned.put positive bound le_rfl (by omega) _, fun _ =>
    returned.write_top positive bound⟩

theorem create_impl_synced (Op : CreateOp) (synced : StackSynced h exec.state)
    (operands : (Op.num_stack_read : Int) ≤ h) (bound : h ≤ 1024) :
    Action.wlp stack_contract (create_impl host Op h gas_left)
      (fun o e => o.status = .SUCCESS → StackSynced (h - Op.num_stack_read + 1) e.state) exec := by
  have positive : 0 < Op.num_stack_read := by cases Op <;> simp [CreateOp.num_stack_read]
  simp only [create_impl, Action.wlp_bind, Action.wlp_get]
  refine Action.wlp_ite.mpr ⟨fun _ => by simp, fun _ => ?_⟩
  simp only [Action.wlp_bind, lift_on_state, wlp_on_state]
  refine wlp_record_operands_keeps fun s₁ keeps₁ => pop_create_operands_last.mono ?_
  rintro o _ ⟨rfl, last⟩
  simp only [wlp_stack_set, Action.wlp_modify]
  have assumed := (synced.keeps keeps₁).assume (m := h - Op.num_stack_read) (by omega) (by omega)
  rw [← last] at assumed
  rw [show h - (Op.num_stack_read : Int) + 1 - 1 - 0 = h - Op.num_stack_read by omega]
  have cleared := assumed.keeps (.set_return_data _ [])
  refine wlp_check_memory_keeps fun ok left s₂ keeps₂ => ?_
  have checked := cleared.keeps keeps₂
  refine Action.wlp_ite.mpr ⟨fun _ => by simp, fun _ => ?_⟩
  refine Action.wlp_ite.mpr ⟨fun _ => by simp, fun _ => ?_⟩
  refine Action.wlp_ite.mpr ⟨fun _ => by simp, fun _ => ?_⟩
  rw [Action.wlp_bind]
  refine wlp_create_light_failure fun failed host' => ?_
  refine Action.wlp_ite.mpr ⟨fun _ => ?_, fun _ => ?_⟩
  · rw [Action.wlp_bind, Action.wlp_emit]
    intro unnoticed
    rw [show (if Op = .CREATE2 then o.salt else o.init_code_size) = 0 from unnoticed] at checked
    exact ⟨trivial, Action.wlp_pure.mpr fun _ => checked.zero⟩
  · refine wlp_read_input fun input => ?_
    rw [Action.wlp_bind]
    refine wlp_on_host_any fun result host'' => wlp_on_state.mpr ?_
    refine (finish_create_synced ?_ (by omega) (by omega)).mono fun _ _ synced' _ => synced'
    rw [Int.add_sub_cancel]
    exact checked.below

theorem selfdestruct_synced (synced : StackSynced h exec.state) :
    Action.wlp stack_contract (selfdestruct host h gas_left) (fun _ e => StackSynced (h - 1) e.state) exec := by
  have popped := (synced.read h 0).mono (show h - 1 ≤ h by omega)
  simp only [selfdestruct, Action.wlp_bind, Action.wlp_get]
  refine Action.wlp_ite.mpr ⟨fun _ => Action.wlp_pure.mpr (synced.mono (by omega)), fun _ => ?_⟩
  simp only [Action.wlp_bind, lift_on_state, wlp_on_state, wlp_record_stack, wlp_stack_get]
  refine wlp_charge_access (by decide) fun ok left host' _ => ?_
  refine Action.wlp_ite.mpr ⟨fun _ => Action.wlp_pure.mpr popped, fun _ => ?_⟩
  rw [Action.wlp_bind]
  refine wlp_charge_beneficiary fun ok left host' _ => ?_
  refine Action.wlp_ite.mpr ⟨fun _ => Action.wlp_pure.mpr popped, fun _ => ?_⟩
  rw [Action.wlp_bind]
  refine wlp_on_host_any fun destroyed host' => Action.wlp_ite.mpr ⟨fun _ => ?_, fun _ => ?_⟩
  · simp only [Action.wlp_bind, wlp_on_state, Action.wlp_modify, Action.wlp_pure]
    exact popped.keeps (.add_refund _ _)
  · exact Action.wlp_pure.mpr popped

end

theorem stack_step [Ethash] {host : Host H} {exec : Exec H} {rev : Revision} {op : Opcode}
    {byte : UInt8} {h pos left : Int} (gas : Int) (name : Opcode.of_byte byte = some op)
    (faithful : StackFaithful (.step byte h gas exec.state))
    (meets : Meets (legacy_cost_table rev) op h) (nonneg : 0 ≤ h) (bound : h ≤ 1024)
    (synced : StackSynced h exec.state) :
    (map_opcodes host op).Ensures stack_contract pos h left
      (fun e => StackSynced (h + stack_height_change op) e.state) exec := by
  have legacy := legacy_meets meets
  have less {k : Int} {s : ExecutionState} (synced : StackSynced h s) (fewer : k ≤ 0) :
      StackSynced (h + k) s := synced.mono (by omega)
  have same {s : ExecutionState} (synced : StackSynced h s) : StackSynced (h + 0) s :=
    less synced le_rfl
  have net {n : Nat} {k : Int} {s : ExecutionState} (synced : StackSynced (h - n + 1) s)
      (change : k = 1 - n) : StackSynced (h + k) s := synced.mono (by omega)
  have room (grows : stack_height_change op > 0) : h < 1024 := by
    have := meets.room grows
    omega
  cases op with
  | STOP | INVALID => exact wlp_on_state.mpr (Action.wlp_pure.mpr fun _ => same synced)
  | ADD | MUL | SUB | DIV | SDIV | MOD | SMOD | SIGNEXTEND | LT | GT | SLT | SGT | EQ | AND | OR
  | XOR | BYTE | SHL | SHR | SAR =>
    exact wlp_on_state.mpr (binary_synced synced (meets.operands (by decide)) bound)
  | ISZERO | NOT =>
    exact wlp_on_state.mpr ((unary_synced synced (meets.operands (by decide)) bound).mono
      fun _ _ => same)
  | ADDMOD => exact wlp_on_state.mpr (addmod_synced synced (meets.operands (by decide)) bound)
  | MULMOD =>
    exact wlp_on_state.mpr (mulmod_synced synced (meets.operands (by decide)) bound (faithful _ name))
  | EXP => exact wlp_on_state.mpr (exp_synced synced (meets.operands (by decide)) bound)
  | KECCAK256 => exact wlp_on_state.mpr (keccak256_synced synced (meets.operands (by decide)) bound)
  | ADDRESS | CALLER | CALLVALUE | CALLDATASIZE | CODESIZE | RETURNDATASIZE | MSIZE =>
    exact wlp_on_state.mpr (Action.wlp_bind.mpr (Action.wlp_get.mpr
      (push_word_synced synced nonneg (room (by decide)))))
  | PUSH0 => exact wlp_on_state.mpr (push_word_synced synced nonneg (room (by decide)))
  | ORIGIN | GASPRICE | COINBASE | TIMESTAMP | NUMBER | PREVRANDAO | GASLIMIT | CHAINID | BASEFEE
  | BLOBBASEFEE => exact push_tx_synced synced nonneg (room (by decide))
  | BALANCE | EXTCODEHASH =>
    exact (query_account_synced (fun _ _ _ each => wlp_on_host_any each) synced
      (meets.operands (by decide)) bound).mono fun _ _ synced' success => same (synced' success)
  | EXTCODESIZE =>
    refine (query_account_synced (fun _ _ _ each => ?_) synced (meets.operands (by decide)) bound).mono
      fun _ _ synced' success => same (synced' success)
    exact Action.wlp_bind.mpr (wlp_on_host_any fun _ _ => Action.wlp_pure.mpr (each _ _))
  | CALLDATALOAD =>
    exact wlp_on_state.mpr ((calldataload_synced synced (meets.operands (by decide)) bound).mono
      fun _ _ => same)
  | CALLDATACOPY => exact wlp_on_state.mpr (calldatacopy_synced synced)
  | CODECOPY => exact wlp_on_state.mpr (codecopy_synced synced)
  | EXTCODECOPY => exact extcodecopy_synced synced
  | RETURNDATACOPY => exact wlp_on_state.mpr (returndatacopy_synced synced)
  | BLOCKHASH =>
    exact (blockhash_synced synced (meets.operands (by decide)) bound).mono fun _ _ => same
  | BLOBHASH =>
    exact (blobhash_synced synced (meets.operands (by decide)) bound).mono fun _ _ => same
  | SELFBALANCE => exact selfbalance_synced synced nonneg (room (by decide))
  | POP => exact wlp_on_state.mpr (Action.wlp_pure.mpr (less synced (by decide)))
  | JUMPDEST => exact wlp_on_state.mpr (Action.wlp_pure.mpr (same synced))
  | MLOAD | MLOAD8 | MLOAD16 | MLOAD32 | MLOAD64 =>
    exact wlp_on_state.mpr ((mload_synced synced (meets.operands (by decide)) bound).mono
      fun _ _ synced' success => same (synced' success))
  | MSTORE | MSTORE8 | MSTORE16 | MSTORE32 | MSTORE64 => exact wlp_on_state.mpr (mstore_synced synced)
  | SLOAD =>
    exact (sload_synced synced (meets.operands (by decide)) bound).mono
      fun _ _ synced' success => same (synced' success)
  | SSTORE => exact sstore_synced synced
  | JUMP => exact wlp_on_state.mpr (jump_synced synced)
  | JUMPI => exact wlp_on_state.mpr (jumpi_synced synced)
  | PC =>
    exact wlp_on_state.mpr ((pc_synced synced nonneg (room (by decide))).mono
      fun _ _ synced' _ => synced')
  | GAS =>
    exact wlp_on_state.mpr ((gas_synced synced nonneg (room (by decide))).mono
      fun _ _ synced' _ => synced')
  | TLOAD => exact (tload_synced synced (meets.operands (by decide)) bound).mono fun _ _ => same
  | TSTORE => exact tstore_synced synced
  | MCOPY => exact wlp_on_state.mpr (mcopy_synced synced)
  | PUSH n =>
    exact wlp_on_state.mpr ((push_synced synced (by omega) (by omega) nonneg (room (show (1 : Int) > 0 by decide))).mono
      fun _ _ synced' _ => synced')
  | DUP n => exact wlp_on_state.mpr (dup_slot_synced synced nonneg (room (show (1 : Int) > 0 by decide)))
  | DUP_TOP =>
    exact wlp_on_state.mpr ((dup_top_synced synced (meets.operands (by decide)) bound).mono
      fun _ _ => same)
  | SWAP n =>
    exact wlp_on_state.mpr ((swap_slots_synced synced nonneg bound (by omega) (faithful _ name)).mono
      fun _ _ => same)
  | SWAP_TOP =>
    exact wlp_on_state.mpr (swap_top_synced synced (meets.operands (by decide)) bound (faithful _ name))
  | LOG n =>
    by_cases one : n.val = 1
    · obtain rfl : n = 1 := Fin.ext one
      exact wlp_on_state.mpr (Action.wlp_pure.mpr (less synced (by decide)))
    · simp only [map_opcodes, if_neg one]
      trivial
  | PRINTF => trivial
  | DUPN => exact wlp_on_state.mpr (dupn_synced synced nonneg (room (by decide)))
  | SWAPN =>
    exact wlp_on_state.mpr ((swapn_synced synced bound).mono
      fun _ _ synced' success => same (synced' success))
  | CREATE =>
    exact (create_impl_synced .CREATE synced (meets.operands (by decide)) bound).mono
      fun _ _ synced' success => net (synced' success) (by decide)
  | CREATE2 =>
    exact (create_impl_synced .CREATE2 synced (meets.operands (by decide)) bound).mono
      fun _ _ synced' success => net (synced' success) (by decide)
  | CALL =>
    exact (call_impl_synced .CALL synced (meets.operands (by decide)) bound).mono
      fun _ _ synced' success => net (synced' success) (by decide)
  | CALLCODE =>
    exact (call_impl_synced .CALLCODE synced (meets.operands (by decide)) bound).mono
      fun _ _ synced' success => net (synced' success) (by decide)
  | DELEGATECALL =>
    exact (call_impl_synced .DELEGATECALL synced (meets.operands (by decide)) bound).mono
      fun _ _ synced' success => net (synced' success) (by decide)
  | STATICCALL =>
    exact (call_impl_synced .STATICCALL synced (meets.operands (by decide)) bound).mono
      fun _ _ synced' success => net (synced' success) (by decide)
  | RETURN | REVERT =>
    exact wlp_on_state.mpr ((return_impl_synced synced).mono fun _ _ synced' _ => synced')
  | SELFDESTRUCT =>
    exact (selfdestruct_synced synced).mono fun _ _ synced' _ => synced'
  | RJUMP | RJUMPI | RJUMPV | CALLF | RETF | JUMPF | DATALOAD | DATALOADN | DATASIZE | DATACOPY =>
    exact (legacy (by decide)).elim

/-- Replaying the writes to the stack rebuilds the stack after every instruction of a legacy code. -/
theorem stack_trace_rebuilds [Ethash] (host : Host H) (rev : Revision) (code : Bytes) (msg : Message)
    (call_id : Nat) (heap : Nat → UInt8) (h : H) {es : List Event} {c : Config H}
    (run : Run host (get_baseline_cost_table rev (analyze_legacy code).eof_header.version)
      (.start (.new msg rev code [] call_id (analyze_legacy code) heap) h) es c)
    (faithful : ∀ e ∈ es, StackFaithful e) : StackSynced c.stack_top c.exec.state := by
  have invariant := run.preserves
    (P := stack_contract)
    (I := fun stack_top exec => (0 ≤ stack_top ∧ stack_top ≤ 1024) ∧ StackSynced stack_top exec.state)
    ?_ faithful ⟨⟨le_rfl, show (0 : Int) ≤ 1024 by decide⟩,
      fun a live => absurd live (Int.not_lt.mpr (Int.natCast_nonneg a))⟩
  · exact invariant.2.2
  · intro byte op code_it stack_top gas left exec name step meets inv
    obtain ⟨⟨nonneg, bound⟩, synced⟩ := inv
    refine (stack_step gas name step meets nonneg bound synced).mono fun e synced' => ⟨?_, synced'⟩
    exact meets.toFits.range nonneg bound

/-- Equal items change places, and a product is taken modulo 0. -/
def harmless_code : Bytes := [0x60, 5, 0x60, 5, 0x90, 0x5f, 0x60, 3, 0x60, 4, 0x09]

theorem stack_trace_rebuilds_mulmod : ∃ es c, @Run Unit no_hash empty_host (legacy_cost_table .SHANGHAI)
    (code_config .SHANGHAI harmless_code 100) es c ∧ c.code_it = some 11 ∧ c.stack_top = 3 ∧
      StackSynced c.stack_top c.exec.state := by
  have values : (@traced_turns Unit no_hash empty_host (legacy_cost_table .SHANGHAI) 7
      (code_config .SHANGHAI harmless_code 100)).map (fun r =>
        (decide (∀ e ∈ r.1, StackFaithful e), r.2.code_it, r.2.stack_top)) = some (true, some 11, 3) := by
    decide +kernel
  obtain ⟨⟨es, c⟩, reached, values⟩ := Option.map_eq_some_iff.mp values
  simp only [Prod.mk.injEq] at values
  obtain ⟨faithful, at_it, height⟩ := values
  have run := @Run.traced Unit no_hash _ _ _ _ _ _ reached
  exact ⟨es, c, run, at_it, height, @stack_trace_rebuilds Unit no_hash empty_host .SHANGHAI harmless_code
    { gas := 100 } 0 (fun _ => 0) () es c run (of_decide_eq_true faithful)⟩

/-- `PUSH1 1`, `PUSH1 2`, `SWAP1`: the lower item is 2 now, but the trace still has 1 there. -/
theorem stack_trace_swap1 : ∃ es c, @Run Unit no_hash empty_host (legacy_cost_table .SHANGHAI)
    (code_config .SHANGHAI [0x60, 1, 0x60, 2, 0x90] 100) es c ∧
      ¬ StackSynced c.stack_top c.exec.state := by
  have values : (@turns Unit no_hash empty_host (legacy_cost_table .SHANGHAI) 3
      (code_config .SHANGHAI [0x60, 1, 0x60, 2, 0x90] 100)).map (fun c =>
        (c.stack_top, c.exec.state.carried 0, c.exec.state.stack_space 0)) = some (2, some 1, 2) := by
    decide +kernel
  obtain ⟨c, reached, values⟩ := Option.map_eq_some_iff.mp values
  obtain ⟨es, run⟩ := @Run.turns Unit no_hash _ _ _ _ _ _ _ (@Run.start Unit no_hash _ _ _) reached
  refine ⟨es, c, run, fun synced => ?_⟩
  simp only [Prod.mk.injEq] at values
  obtain ⟨height, carried, held⟩ := values
  have same := synced 0 (by omega)
  rw [carried, Nat.cast_zero, held] at same
  contradiction

end EvmAssigner
