import EvmAssigner.ByteOrder
import EvmAssigner.MemoryGas
import EvmAssigner.MemoryRuns
import EvmAssigner.SignedWords

namespace EvmAssigner
variable {s : ExecutionState} {gas_left h : Int} {offset size : Word}

@[simp] theorem wp_memory_load {k count : Nat} {Q : Bytes → ExecutionState → Prop} :
    Action.wp (memory_load k count) Q s ↔ Q (s.memory.load k count) s := by
  simp [memory_load]

@[simp] theorem wp_memory_store {k : Nat} {data : Bytes} {Q : Unit → ExecutionState → Prop} :
    Action.wp (memory_store k data) Q s ↔ Q () (s.set_memory (s.memory.store k data)) := by
  simp [memory_store]

/-- Entries for a block of bytes, the `j`th of them at `address j`. -/
def ExecutionState.byte_entries (s : ExecutionState) (address : Nat → Word) (is_write : Bool) (data : Bytes) :
    List rw_operation :=
  (List.range data.length).map fun j => memory_operation s.call_id (address j) (s.rw_trace.length + j) is_write
    (BitVec.ofNat 256 (data.getD j 0).toNat)

@[simps] def ExecutionState.push_all (s : ExecutionState) (os : List rw_operation) : ExecutionState :=
  { s with rw_trace := s.rw_trace ++ os }

/-- Every byte is recorded, in order, and nothing else. -/
theorem wp_record_bytes {address : Nat → Word} {is_write : Bool} {data : Bytes}
    {Q : Unit → ExecutionState → Prop} (each : Q () (s.push_all (s.byte_entries address is_write data))) :
    Action.wp (record_bytes address is_write data) Q s := by
  have run : Action.wp (record_bytes address is_write data) (fun _ s' => s' = s.push_all
      ((List.range data.length).map fun j => memory_operation s.call_id (address j) (s.rw_trace.length + j)
        is_write (BitVec.ofNat 256 (data.getD j 0).toNat))) s := by
    refine Action.wp_forEach (I := fun done s' => s' = s.push_all (done.map fun j =>
      memory_operation s.call_id (address j) (s.rw_trace.length + j) is_write
        (BitVec.ofNat 256 (data.getD j 0).toNat))) ?_ ?_
    · rintro done j rest _ split rfl
      obtain ⟨rfl, _⟩ := range_split split
      simp [record_memory, ExecutionState.push_all, ExecutionState.push_rw]
    · simp [ExecutionState.push_all]
  exact run.mono fun _ s' same => same ▸ each

theorem wp_copy_padded {source : Bytes} {dst src n : Nat} {Q : Nat → ExecutionState → Prop}
    (each : ∀ memory', s.memory.Copied memory' dst n (fun j => source.getD (src + j) 0) →
      Q (min n (source.length - src)) (s.set_memory memory')) :
    Action.wp (copy_padded source dst src n) Q s := by
  refine Action.wp_of_wlp (C := any_event) (wlp_copy_padded each) (fun _ => trivial) ?_
  simp [copy_padded]

/-- What `check_memory` charges for a request that it grants. -/
def Memory.request_charge (memory : Memory) (offset size : Word) : Int :=
  if size = 0 then 0 else memory.charge (offset.to_uint64 + size.to_uint64)

/-- The memory as `check_memory` leaves it for a request that it grants. -/
def Memory.requested (memory : Memory) (offset size : Word) : Memory :=
  if size = 0 then memory else memory.grown (offset.to_uint64 + size.to_uint64)

/-- The request goes beyond what any memory is grown to. -/
def Beyond (offset size : Word) : Prop :=
  size ≠ 0 ∧ (max_buffer_size < size.to_uint64 ∨ max_buffer_size < offset.to_uint64)

theorem wp_check_memory_either {Q : Bool × Int → ExecutionState → Prop}
    (denied : ∀ left, Beyond offset size ∨ gas_left < s.memory.request_charge offset size → Q (false, left) s)
    (granted : ¬ Beyond offset size → (size ≠ 0 → s.memory.request_charge offset size ≤ gas_left) →
      Q (true, gas_left - s.memory.request_charge offset size) (s.set_memory (s.memory.requested offset size))) :
    Action.wp (check_memory gas_left offset size) Q s := by
  rw [wp_check_memory]
  by_cases zero : size = 0
  · rw [if_pos zero]
    have free := granted (fun beyond => beyond.1 zero) fun some => absurd zero some
    rw [Memory.request_charge, Memory.requested, if_pos zero, if_pos zero, Int.sub_zero] at free
    exact free
  rw [if_neg zero]
  by_cases large : size.to_uint64 > max_buffer_size
  · rw [if_pos large]
    exact denied _ (Or.inl ⟨zero, Or.inl large⟩)
  rw [if_neg large, wp_check_memory_size]
  by_cases far : offset.to_uint64 > max_buffer_size
  · rw [if_pos far]
    exact denied _ (Or.inl ⟨zero, Or.inr far⟩)
  have ends : request_end offset size.to_uint64 = offset.to_uint64 + size.to_uint64 := by
    rw [max_buffer_size] at large far
    exact Nat.mod_eq_of_lt (by omega)
  rw [if_neg far, ends]
  rw [Memory.request_charge, Memory.requested, if_neg zero, if_neg zero] at granted
  rw [Memory.request_charge, if_neg zero] at denied
  by_cases paid : gas_left - s.memory.charge (offset.to_uint64 + size.to_uint64) ≥ 0
  · rw [if_pos paid]
    refine granted ?_ fun _ => by omega
    rintro ⟨_, either⟩
    exact either.elim large far
  · rw [if_neg paid]
    exact denied _ (Or.inr (by omega))

/-- A request that a further charge follows is refused, or is granted but too dear with that charge, or is
served. -/
theorem wp_check_charged {cost : Int} (owed : 0 ≤ cost) {Q : Bool × Int → ExecutionState → Prop}
    (denied : Beyond offset size ∨ gas_left < s.memory.request_charge offset size + cost → ∀ left, Q (false, left) s)
    (dear : ¬ Beyond offset size → gas_left < s.memory.request_charge offset size + cost →
      gas_left - s.memory.request_charge offset size - cost < 0 →
      Q (true, gas_left - s.memory.request_charge offset size) (s.set_memory (s.memory.requested offset size)))
    (served : ¬ (Beyond offset size ∨ gas_left < s.memory.request_charge offset size + cost) →
      ¬ gas_left - s.memory.request_charge offset size - cost < 0 →
      Q (true, gas_left - s.memory.request_charge offset size) (s.set_memory (s.memory.requested offset size))) :
    Action.wp (check_memory gas_left offset size) Q s := by
  refine wp_check_memory_either (fun left refused => denied ?_ left) fun near _ => ?_
  · exact refused.imp_right fun short => lt_of_lt_of_le short (by omega)
  · by_cases short : gas_left < s.memory.request_charge offset size + cost
    · exact dear near short (by omega)
    · have both : ¬ (Beyond offset size ∨ gas_left < s.memory.request_charge offset size + cost) := by
        rintro (beyond | short')
        · exact near beyond
        · exact short short'
      exact served both (by omega)

/-- A request that is granted is covered, and takes nothing from the bytes that were there. -/
theorem Memory.requested_covers (memory : Memory) (granted : ¬ Beyond offset size) :
    (size ≠ 0 → offset.to_uint64 + size.to_uint64 ≤ (memory.requested offset size).m_size) ∧
      memory.m_size ≤ (memory.requested offset size).m_size ∧
      (memory.requested offset size).m_size ≤ max memory.m_size (2 ^ 34) ∧
      ∀ k < memory.m_size, (memory.requested offset size).m_data k = memory.m_data k := by
  unfold Memory.requested
  by_cases zero : size = 0
  · rw [if_pos zero]
    exact ⟨fun some => absurd zero some, le_rfl, le_max_left _ _, fun k _ => rfl⟩
  · have near : size.to_uint64 ≤ max_buffer_size ∧ offset.to_uint64 ≤ max_buffer_size := by
      constructor
      · by_contra large
        exact granted ⟨zero, Or.inl (by omega)⟩
      · by_contra far
        exact granted ⟨zero, Or.inr (by omega)⟩
    rw [max_buffer_size] at near
    obtain ⟨covers, larger, least⟩ :=
      memory.grown_size (show offset.to_uint64 + size.to_uint64 < 2 ^ 34 by omega)
    rw [if_neg zero]
    refine ⟨fun _ => covers, larger, by omega, fun k within => ?_⟩
    unfold Memory.grown
    split
    · rw [Memory.grow_m_data, if_neg (by omega)]
    · rfl

end EvmAssigner
