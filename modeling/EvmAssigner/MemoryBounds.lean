import EvmAssigner.Steps

namespace EvmAssigner
variable {H : Type}

/-- `KECCAK256` reads a whole word, and `MCOPY` checks the larger of two words only. -/
def MemoryReach (op : Opcode) (stack_top : Int) (s : ExecutionState) : Prop :=
  let operand (i : Int) := s.stack_space (stack_top - i - 1)
  match op with
  | .KECCAK256 => (operand 1).to_uint64 ≠ 0 →
      (operand 0).to_uint64 + 32 ≤ (s.expanded (operand 0) (operand 1)).m_size
  | .MCOPY =>
    let memory := s.expanded (if operand 0 < operand 1 then operand 1 else operand 0) (operand 2)
    (operand 2).to_uint64 ≠ 0 → (operand 0).to_uint64 + (operand 2).to_uint64 ≤ memory.m_size ∧
      (operand 1).to_uint64 + (operand 2).to_uint64 ≤ memory.m_size
  | _ => True

def MemoryReaches : Event → Prop
  | .step op stack_top _ s => ∀ name, Opcode.of_byte op = some name → MemoryReach name stack_top s
  | _ => True

instance {op : Opcode} {stack_top : Int} {s : ExecutionState} : Decidable (MemoryReach op stack_top s) := by
  unfold MemoryReach
  dsimp only
  split <;> infer_instance

instance : DecidablePred MemoryReaches := fun e => by
  unfold MemoryReaches
  casesm Event <;> first | exact Option.decidableForallMem _ | infer_instance

/-- Bytes of the memory are touched where they are. -/
def TouchesWithin : Event → Prop
  | .memory_access index count size => Within index count size
  | _ => True

def memory_bounds : Action.Contract Event := ⟨MemoryReaches, TouchesWithin⟩

instance : CodeQuiet memory_bounds := ⟨fun _ _ => ⟨trivial, trivial⟩⟩

instance : Lenient memory_bounds where
  assertion_failed _ := ⟨trivial, trivial⟩
  stack_access _ := ⟨trivial, trivial⟩
  memory_within within := ⟨trivial, within⟩
  vector_access _ _ := ⟨trivial, trivial⟩
  step _ _ _ _ := trivial
  nested _ := trivial
  storage_entry _ := trivial
  light_failure _ := trivial
  host_call _ _ _ := trivial
  host_output _ _ _ := trivial

theorem always_closed {P : Action.Contract Event} : Closed P fun _ => True where
  record _ _ _ _ := trivial
  push_storage _ _ _ _ _ _ := trivial
  set_slot _ _ _ := trivial
  set_status _ _ := trivial
  set_return_data _ _ := trivial
  set_output _ _ _ _ := trivial
  set_call_stack _ _ := trivial
  add_refund _ _ := trivial
  set_tx _ _ := trivial
  grow _ _ _ := trivial
  host_output _ _ _ := trivial

section
variable {s : ExecutionState} {h gas_left : Int}

@[simp] theorem bounds_memory_load {k count : Nat} {Q : Bytes → ExecutionState → Prop} :
    Action.wlp memory_bounds (memory_load k count) Q s ↔
      Within k count s.memory.m_size ∧ Q (s.memory.load k count) s := by
  simp [memory_load, memory_bounds, MemoryReaches, TouchesWithin]

@[simp] theorem bounds_memory_store {k : Nat} {data : Bytes} {Q : Unit → ExecutionState → Prop} :
    Action.wlp memory_bounds (memory_store k data) Q s ↔
      Within k data.length s.memory.m_size ∧ Q () (s.set_memory (s.memory.store k data)) := by
  simp [memory_store, memory_bounds, MemoryReaches, TouchesWithin]

/-- Recording bytes does not touch the memory. -/
theorem wlp_record_bytes_untouched {P : Action.Contract Event} [Calm P]
    (entries : ∀ o memory, P.ensures (.memory_entry o memory)) {address : Nat → Word} {is_write : Bool} {data : Bytes}
    {Q : Unit → ExecutionState → Prop} (each : ∀ s', s'.memory = s.memory → Q () s') :
    Action.wlp P (record_bytes address is_write data) Q s := by
  refine (Action.wlp_forEach (I := fun _ s' => s'.memory = s.memory) ?_ rfl).mono fun _ => each
  intro done b rest s' split same
  simp only [record_memory, Action.wlp_bind, Action.wlp_get, wlp_assert_that, Action.wlp_emit,
    Action.wlp_modify]
  exact fun _ => ⟨entries _ _, same⟩

theorem wlp_record_bytes_within {address : Nat → Word} {is_write : Bool} {data : Bytes}
    {Q : Unit → ExecutionState → Prop} (each : ∀ s', s'.memory = s.memory → Q () s') :
    Action.wlp memory_bounds (record_bytes address is_write data) Q s :=
  wlp_record_bytes_untouched (fun _ _ => trivial) each

theorem keccak256_within [Ethash] (reach : MemoryReach .KECCAK256 h s) :
    Action.wlp memory_bounds (keccak256 h gas_left) (fun _ _ => True) s := by
  simp only [MemoryReach, sub_zero] at reach
  simp only [keccak256, Action.wlp_bind, wlp_record_stack, wlp_stack_get, sub_zero,
    ExecutionState.record_stack_space]
  refine wlp_check_memory fun ok left s' checked _ => ?_
  simp only [Action.wlp_bind, Action.wlp_ite, Action.wlp_pure, bounds_memory_load, wlp_stack_set,
    wlp_record_stack]
  refine ⟨fun _ => trivial, fun passed => ⟨fun _ => trivial, fun _ => ⟨fun some => ?_, fun none_ => ?_⟩⟩⟩
  · obtain rfl : ok = true := by simpa using passed
    obtain ⟨_, room, size⟩ := checked.room rfl some
    have whole := (reach some).trans_eq size.symm
    refine ⟨Or.inr whole, wlp_record_bytes_within fun s'' same => ⟨fun _ => ⟨?_, trivial⟩, fun _ => trivial⟩⟩
    rw [same]
    exact Or.inr room
  · exact ⟨fun some => absurd some none_, fun _ => trivial⟩

theorem wlp_check_memory_room {offset size : Word} {Q : Bool × Int → ExecutionState → Prop}
    (each : ∀ ok left s', (¬ (!ok) = true → Within offset.to_uint64 size.to_uint64 s'.memory.m_size) →
      Q (ok, left) s') : Action.wlp memory_bounds (check_memory gas_left offset size) Q s := by
  refine wlp_check_memory fun ok left s' checked _ => each ok left s' fun passed => ?_
  obtain rfl : ok = true := by simpa using passed
  by_cases empty : size.to_uint64 = 0
  · exact Or.inl empty
  · exact Or.inr (checked.room rfl empty).2.1

theorem wlp_check_memory_size_room {offset : Word} {Q : Bool × Int → ExecutionState → Prop}
    (each : ∀ ok left s', (¬ (!ok) = true → offset.to_uint64 + 32 ≤ s'.memory.m_size) →
      Q (ok, left) s') : Action.wlp memory_bounds (check_memory_size gas_left offset 32) Q s := by
  refine wlp_check_memory_size (by omega) fun ok left s' checked => each ok left s' fun passed => ?_
  obtain rfl : ok = true := by simpa using passed
  exact (checked.room rfl (by decide)).2.1

theorem copy_to_memory_within {source : Bytes} :
    Action.wlp memory_bounds (copy_to_memory source h gas_left) (fun _ _ => True) s := by
  simp only [copy_to_memory, Action.wlp_bind, wlp_record_stack, wlp_stack_get]
  refine wlp_check_memory_room fun ok left s' room => ?_
  simp only [copy_padded, Action.wlp_bind, Action.wlp_ite, Action.wlp_pure, bounds_memory_load,
    bounds_memory_store, List.length_replicate, List.length_take, List.length_drop,
    ExecutionState.set_memory_memory, Memory.store_m_size]
  refine ⟨fun _ => trivial, fun passed => ⟨fun _ => trivial, fun _ => ?_⟩⟩
  have room := room passed
  have record (s'' : ExecutionState) (data : Bytes) : Action.wlp memory_bounds
      (record_bytes (fun j => s.stack_space (h - 1 - 0) + BitVec.ofNat 256 j) true data)
      (fun _ _ => True) s'' := wlp_record_bytes_within fun _ _ => trivial
  refine ⟨fun _ => ⟨room.part (by omega) (by omega), fun _ => ⟨room.part (by omega) (by omega), ?_⟩, fun _ => ?_⟩,
    fun _ => ⟨fun _ => ⟨room.part (by omega) (by omega), ?_⟩, fun _ => ?_⟩⟩
  all_goals exact ⟨room.part (by omega) (by omega), record _ _⟩

theorem calldatacopy_within : Action.wlp memory_bounds (calldatacopy h gas_left) (fun _ _ => True) s := by
  rw [calldatacopy, Action.wlp_bind, Action.wlp_get]
  exact copy_to_memory_within

theorem codecopy_within : Action.wlp memory_bounds (codecopy h gas_left) (fun _ _ => True) s := by
  rw [codecopy, Action.wlp_bind, Action.wlp_get]
  exact copy_to_memory_within

theorem returndatacopy_within :
    Action.wlp memory_bounds (returndatacopy h gas_left) (fun _ _ => True) s := by
  simp only [returndatacopy, Action.wlp_bind, Action.wlp_get, wlp_record_stack, wlp_stack_get]
  refine wlp_check_memory_room fun ok left s' room => ?_
  simp only [Action.wlp_bind, Action.wlp_ite, Action.wlp_pure, bounds_memory_load,
    bounds_memory_store, List.length_take, List.length_drop, ExecutionState.set_memory_memory,
    Memory.store_m_size]
  refine ⟨fun _ => trivial, fun passed => ⟨fun _ => trivial, fun _ => ⟨fun _ => trivial, fun _ =>
    ⟨fun _ => trivial, fun _ => ⟨fun _ => ?_, fun _ => trivial⟩⟩⟩⟩⟩
  have room := room passed
  exact ⟨room.part (by omega) (by omega), room, wlp_record_bytes_within fun _ _ => trivial⟩

theorem mload_within : Action.wlp memory_bounds (mload h gas_left) (fun _ _ => True) s := by
  simp only [mload, Action.wlp_bind, wlp_record_stack, wlp_stack_get]
  refine wlp_check_memory_size_room fun ok left s' room => ?_
  simp only [Action.wlp_bind, Action.wlp_ite, Action.wlp_pure, bounds_memory_load, wlp_stack_set,
    wlp_record_stack]
  exact ⟨fun _ => trivial, fun passed => ⟨Or.inr (room passed), wlp_record_bytes_within fun _ _ => trivial⟩⟩

theorem mstore_within {width : Nat} (most : width ≤ 32) :
    Action.wlp memory_bounds (mstore width h gas_left) (fun _ _ => True) s := by
  simp only [mstore, Action.wlp_bind, wlp_record_stack, wlp_stack_get]
  refine wlp_check_memory_size_room fun ok left s' room => ?_
  simp only [Action.wlp_bind, Action.wlp_ite, Action.wlp_pure, bounds_memory_load,
    bounds_memory_store, store_length, ExecutionState.set_memory_memory, Memory.store_m_size]
  refine ⟨fun _ => trivial, fun passed => ⟨Or.inr ?_, Or.inr (room passed), wlp_record_bytes_within fun _ _ => trivial⟩⟩
  have room := room passed
  omega

theorem mcopy_within (reach : MemoryReach .MCOPY h s) :
    Action.wlp memory_bounds (mcopy h gas_left) (fun _ _ => True) s := by
  simp only [MemoryReach, sub_zero] at reach
  simp only [mcopy, Action.wlp_bind, wlp_record_stack, wlp_stack_get, sub_zero,
    ExecutionState.record_stack_space]
  refine wlp_check_memory fun ok left s' checked _ => ?_
  simp only [Action.wlp_bind, Action.wlp_ite, Action.wlp_pure, bounds_memory_load,
    bounds_memory_store, load_length]
  refine ⟨fun _ => trivial, fun passed => ⟨fun _ => trivial, fun _ => ⟨fun some => ?_, fun _ => trivial⟩⟩⟩
  obtain rfl : ok = true := by simpa using passed
  have some := Nat.pos_iff_ne_zero.mp some
  obtain ⟨_, _, size⟩ := checked.room rfl some
  obtain ⟨dst, src⟩ := reach some
  exact ⟨Or.inr (src.trans_eq size.symm), Or.inr (dst.trans_eq size.symm), trivial⟩

theorem datacopy_within : Action.wlp memory_bounds (datacopy h gas_left) (fun _ _ => True) s := by
  simp only [datacopy, Action.wlp_bind, Action.wlp_get, wlp_record_stack, wlp_stack_get]
  refine wlp_check_memory_room fun ok left s' room => ?_
  simp only [Action.wlp_bind, Action.wlp_ite, Action.wlp_pure, bounds_memory_load,
    bounds_memory_store, List.length_take, List.length_drop, List.length_replicate,
    ExecutionState.set_memory_memory, Memory.store_m_size]
  refine ⟨fun _ => trivial, fun passed => ⟨fun _ => trivial, fun _ => ?_⟩⟩
  have room := room passed
  refine ⟨fun _ => ⟨room.part (by omega) (by omega), room.part (by omega) (by omega), ?_⟩, fun _ =>
    ⟨fun _ => ⟨room.part (by omega) (by omega), wlp_record_bytes_within fun _ _ => trivial⟩, fun _ => trivial⟩⟩
  refine wlp_record_bytes_within fun s'' same => ⟨fun _ => ⟨?_, wlp_record_bytes_within fun _ _ => trivial⟩,
    fun _ => trivial⟩
  rw [same]
  exact room.part (by omega) (by omega)

end

theorem memory_bounds_step [Ethash] {host : Host H} {exec : Exec H} {op : Opcode} {h pos left : Int}
    (reach : MemoryReach op h exec.state) :
    (map_opcodes host op).Ensures memory_bounds pos h left (fun _ => True) exec := by
  have done {m : Local InstructionResult} {s : ExecutionState}
      (within : Action.wlp memory_bounds m (fun _ _ => True) s) :
      Action.wlp memory_bounds m (fun o _ => o.status = .SUCCESS → True) s :=
    within.mono fun _ _ _ _ => trivial
  by_cases apart : op.on_memory = false
  · exact (always_closed.step apart (fun _ => inferInstance) trivial).ensures fun _ inv => inv
  · cases op with
    | KECCAK256 => exact wlp_on_state.mpr (done (keccak256_within reach))
    | CALLDATACOPY => exact wlp_on_state.mpr (done calldatacopy_within)
    | CODECOPY => exact wlp_on_state.mpr (done codecopy_within)
    | RETURNDATACOPY => exact wlp_on_state.mpr (done returndatacopy_within)
    | MLOAD | MLOAD8 | MLOAD16 | MLOAD32 | MLOAD64 => exact wlp_on_state.mpr (done mload_within)
    | MSTORE | MSTORE8 | MSTORE16 | MSTORE32 | MSTORE64 =>
      exact wlp_on_state.mpr (done (mstore_within (by decide)))
    | MCOPY => exact wlp_on_state.mpr (done (mcopy_within reach))
    | DATACOPY => exact wlp_on_state.mpr (done datacopy_within)
    | _ => exact absurd rfl apart

/-- Whatever part of a run is looked at, no instruction touches bytes beyond the memory. -/
theorem memory_accesses_in_bounds [Ethash] (host : Host H) (cost_table : Opcode → Int) (fuel : Nat)
    (code_it stack_top gas : Int) (exec : Exec H)
    (reach : ∀ e ∈ (dispatch host cost_table fuel code_it stack_top gas).events exec, MemoryReaches e)
    {index count size : Nat} (touches : Event.memory_access index count size ∈
      (dispatch host cost_table fuel code_it stack_top gas).events exec) {k : Nat} (lower : index ≤ k)
    (upper : k < index + count) : k < size := by
  have promises := dispatch_promises (P := memory_bounds)
    (fun _ op _ _ _ _ _ name step => memory_bounds_step (step op name)) reach
  have within : Within index count size := promises _ touches
  rcases within with empty | room
  · omega
  · omega

/-- The bytes of the memory that an event touches, and its size. -/
def Event.touched : Event → Option (Nat × Nat × Nat)
  | .memory_access index count size => some (index, count, size)
  | _ => none

theorem touched_mem {es : List Event} {index count size : Nat}
    (member : some (index, count, size) ∈ es.map Event.touched) :
    Event.memory_access index count size ∈ es := by
  obtain ⟨e, emitted, touched⟩ := List.mem_map.mp member
  cases e with
  | memory_access _ _ _ =>
    simp only [Event.touched, Option.some.injEq, Prod.mk.injEq] at touched
    obtain ⟨rfl, rfl, rfl⟩ := touched
    exact emitted
  | _ => contradiction

/-- A word is stored, its last four bytes copied to the front, and all hashed. -/
def copying_code : Bytes := [0x60, 7, 0x5f, 0x52, 0x60, 4, 0x60, 28, 0x5f, 0x5e, 0x60, 32, 0x5f, 0x20]

theorem memory_accesses_in_bounds_mcopy : Event.memory_access 28 4 32 ∈
    (@dispatch Unit no_hash empty_host (legacy_cost_table .CANCUN) 12 0 0 100).events
      (code_config .CANCUN copying_code 100).exec ∧ 31 < 32 := by
  have touches : Event.memory_access 28 4 32 ∈
      (@dispatch Unit no_hash empty_host (legacy_cost_table .CANCUN) 12 0 0 100).events
        (code_config .CANCUN copying_code 100).exec :=
    touched_mem (by decide +kernel)
  have reach : ∀ e ∈ (@dispatch Unit no_hash empty_host (legacy_cost_table .CANCUN) 12 0 0 100).events
      (code_config .CANCUN copying_code 100).exec, MemoryReaches e := by
    decide +kernel
  exact ⟨touches, @memory_accesses_in_bounds Unit no_hash empty_host (legacy_cost_table .CANCUN) 12 0 0
    100 (code_config .CANCUN copying_code 100).exec reach 28 4 32 touches 31 (by omega) (by omega)⟩

/-- `KECCAK256` of the single byte at 1 reads 33 bytes. -/
theorem memory_access_keccak256 : ∃ index count size, Event.memory_access index count size ∈
    (@dispatch Unit no_hash empty_host (legacy_cost_table .SHANGHAI) 3 0 0 100).events
      (code_config .SHANGHAI [0x60, 1, 0x60, 1, 0x20] 100).exec ∧ ∃ k, index ≤ k ∧ k < index + count ∧
        ¬ k < size := by
  refine ⟨1, 32, 32, ?_, 32, by omega, by omega, by omega⟩
  exact touched_mem (by decide +kernel)

end EvmAssigner
