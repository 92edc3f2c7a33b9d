import EvmAssigner.Steps

namespace EvmAssigner
variable {H : Type}

def byte_word (b : UInt8) : Word := BitVec.ofNat 256 b.toNat

/-- Byte `k` of the memory, which is zero where it has not grown to yet. -/
def Memory.held (memory : Memory) (k : Nat) : UInt8 := if k < memory.m_size then memory.m_data k else 0

/-- What the trace says byte `k` of the memory is. -/
def ExecutionState.replayed (s : ExecutionState) (k : Nat) : Word :=
  ((last_write MEMORY_OP (BitVec.ofNat 256 k) s.rw_trace).map rw_operation.value).getD 0

/-- Replaying the trace rebuilds the memory. The bound tells addresses of bytes from the rest. -/
structure MemorySynced (s : ExecutionState) : Prop where
  bound : s.memory.m_size ≤ 2 ^ 34
  bytes : ∀ k < 2 ^ 64, s.replayed k = byte_word (s.memory.held k)

/-- Every byte that `CALLDATACOPY` and `CODECOPY` change is recorded where it is. -/
def CopyRecorded (source : Bytes) (mem_index input_index size : Word) (memory : Memory) : Prop :=
  ∀ j < size.to_uint64, mem_index.toNat < 2 ^ 64 ∧
      j < source.length - min source.length input_index.to_uint64 ∨
    memory.m_data (mem_index.to_uint64 + j) =
      source.getD (min source.length input_index.to_uint64 + j) 0

/-- The zeros of `DATACOPY` are recorded from the start of the range on. -/
def DataCopyRecorded (source : Bytes) (mem_index data_index size : Word) (memory : Memory) : Prop :=
  let src := min source.length data_index.to_uint64
  let copy_size := min size.to_uint64 (source.length - src)
  ∀ j < size.to_uint64,
    if j < size.to_uint64 - copy_size then source.getD (src + j) 0 = 0
    else j < copy_size ∨ memory.m_data (mem_index.to_uint64 + j) = 0

/-- What is not recorded, or not in its place, has been there before. -/
def MemoryStep (op : Opcode) (stack_top : Int) (s : ExecutionState) : Prop :=
  let operand (i : Int) := s.stack_space (stack_top - i - 1)
  match op with
  | .KECCAK256 => (operand 1).to_uint64 ≠ 0 → (operand 0).toNat < 2 ^ 64 ∧
      (operand 0).to_uint64 + 32 ≤ (s.expanded (operand 0) (operand 1)).m_size
  | .CALLDATACOPY => CopyRecorded s.msg.input_data (operand 0) (operand 1) (operand 2)
      (s.expanded (operand 0) (operand 2))
  | .CODECOPY => CopyRecorded s.original_code (operand 0) (operand 1) (operand 2)
      (s.expanded (operand 0) (operand 2))
  | .MCOPY =>
    let memory := s.expanded (if operand 0 < operand 1 then operand 1 else operand 0) (operand 2)
    ∀ j < (operand 2).to_uint64, (operand 0).to_uint64 + j < memory.m_size →
      memory.m_data ((operand 0).to_uint64 + j) = memory.m_data ((operand 1).to_uint64 + j)
  | .DATACOPY => DataCopyRecorded s.data (operand 0) (operand 1) (operand 2)
      (s.expanded (operand 0) (operand 2))
  | _ => True

instance {source : Bytes} {mem_index input_index size : Word} {memory : Memory} :
    Decidable (CopyRecorded source mem_index input_index size memory) :=
  inferInstanceAs (Decidable (∀ _ < _, _ ∧ _ ∨ _))

instance {source : Bytes} {mem_index data_index size : Word} {memory : Memory} :
    Decidable (DataCopyRecorded source mem_index data_index size memory) := by
  unfold DataCopyRecorded
  infer_instance

instance {op : Opcode} {stack_top : Int} {s : ExecutionState} : Decidable (MemoryStep op stack_top s) := by
  unfold MemoryStep
  dsimp only
  split <;> infer_instance

/-- Nor does the host answer with bytes that are not in their place already. -/
def MemoryFaithful : Event → Prop
  | .step op stack_top _ s => ∀ name, Opcode.of_byte op = some name → MemoryStep name stack_top s
  | .host_output memory dst data => ∀ j < data.length, memory.m_data (dst + j) = data.getD j 0
  | _ => True

instance : DecidablePred MemoryFaithful := fun e => by
  unfold MemoryFaithful
  casesm Event <;> first | exact Option.decidableForallMem _ | infer_instance

/-- An entry that reads carries the byte the memory held. -/
def ReadsMemory : Event → Prop
  | .memory_entry o memory => o.is_write = false →
      o.address.toNat < memory.m_size ∧ o.value = byte_word (memory.m_data o.address.toNat)
  | _ => True

def memory_contract : Action.Contract Event := ⟨MemoryFaithful, ReadsMemory⟩

instance : MemoryQuiet memory_contract := ⟨fun _ _ _ => ⟨trivial, trivial⟩⟩

instance : CodeQuiet memory_contract := ⟨fun _ _ => ⟨trivial, trivial⟩⟩

instance : Lenient memory_contract where
  assertion_failed _ := ⟨trivial, trivial⟩
  stack_access _ := ⟨trivial, trivial⟩
  memory_within _ := ⟨trivial, trivial⟩
  vector_access _ _ := ⟨trivial, trivial⟩
  step _ _ _ _ := trivial
  nested _ := trivial
  storage_entry _ := trivial
  light_failure _ := trivial
  host_call _ _ _ := trivial
  host_output _ _ _ := trivial

namespace MemorySynced
variable {s s' : ExecutionState}

/-- Nothing else of the state matters. -/
theorem congr (same : s'.memory = s.memory) (replays : ∀ k < 2 ^ 64, s'.replayed k = s.replayed k) :
    MemorySynced s' ↔ MemorySynced s := by
  constructor
  · intro synced
    exact ⟨same ▸ synced.bound, fun k small => by rw [← replays k small, synced.bytes k small, same]⟩
  · intro synced
    exact ⟨same ▸ synced.bound, fun k small => by rw [replays k small, synced.bytes k small, same]⟩

/-- Entries on anything else do not count. -/
theorem push_rw {o : rw_operation} (other : o.op ≠ MEMORY_OP) :
    MemorySynced (s.push_rw o) ↔ MemorySynced s := by
  refine congr rfl fun k _ => ?_
  unfold ExecutionState.replayed
  rw [ExecutionState.push_rw_rw_trace, last_write_append, if_neg (fun h => other h.1)]

@[simp] theorem record {stack i : Int} {is_write : Bool} :
    MemorySynced (s.record stack i is_write) ↔ MemorySynced s :=
  push_rw (show STACK_OP ≠ MEMORY_OP by decide)

@[simp] theorem push_storage {id rw_id : Nat} {address key value value_prev : Word} {is_write : Bool} :
    MemorySynced (s.push_rw (storage_operation id address key rw_id is_write value value_prev)) ↔
      MemorySynced s :=
  push_rw (show STORAGE_OP ≠ MEMORY_OP by decide)

@[simp] theorem set_slot {slot : Int} {v : Word} : MemorySynced (s.set_slot slot v) ↔ MemorySynced s :=
  congr rfl fun _ _ => rfl

@[simp] theorem set_status {status : StatusCode} : MemorySynced (s.set_status status) ↔ MemorySynced s :=
  congr rfl fun _ _ => rfl

@[simp] theorem set_return_data {data : Bytes} : MemorySynced (s.set_return_data data) ↔ MemorySynced s :=
  congr rfl fun _ _ => rfl

@[simp] theorem set_output {offset size : Nat} : MemorySynced (s.set_output offset size) ↔ MemorySynced s :=
  congr rfl fun _ _ => rfl

@[simp] theorem set_call_stack {call_stack : List Int} :
    MemorySynced (s.set_call_stack call_stack) ↔ MemorySynced s :=
  congr rfl fun _ _ => rfl

@[simp] theorem add_refund {refund : Int} : MemorySynced (s.add_refund refund) ↔ MemorySynced s :=
  congr rfl fun _ _ => rfl

@[simp] theorem set_tx {tx : TxContext} : MemorySynced (s.set_tx tx) ↔ MemorySynced s :=
  congr rfl fun _ _ => rfl

/-- New memory is filled with zeros. -/
theorem grow {n : Nat} (synced : MemorySynced s) (larger : s.memory.m_size < n) (bound : n ≤ 2 ^ 34) :
    MemorySynced (s.set_memory (s.memory.grow n)) where
  bound := bound
  bytes k small := by
    show s.replayed k = byte_word ((s.memory.grow n).held k)
    rw [synced.bytes k small]
    unfold Memory.held
    simp only [Memory.grow_m_size, Memory.grow_m_data]
    by_cases old : k < s.memory.m_size
    · rw [if_pos old, if_pos (by omega), if_neg (by omega)]
    · by_cases new : k < n
      · rw [if_neg old, if_pos new, if_pos (by omega)]
      · rw [if_neg old, if_neg new]

theorem checked {gas_left left : Int} {offset : Word} {size : Nat} {ok : Bool}
    (synced : MemorySynced s) (checked : Checked s gas_left offset size ok left s') : MemorySynced s' := by
  rcases checked.grown with rfl | ⟨n, larger, bound, rfl⟩
  · exact synced
  · exact synced.grow larger bound

end MemorySynced

/-- The `n` bytes from `dst` on have become those of `f`. -/
structure Memory.Copied (memory memory' : Memory) (dst n : Nat) (f : Nat → UInt8) : Prop where
  size : memory'.m_size = memory.m_size
  bytes : ∀ k, memory'.m_data k =
    if dst ≤ k ∧ k < dst + n then f (k - dst) else memory.m_data k

theorem Memory.store_copied (memory : Memory) (dst : Nat) (data : Bytes) :
    memory.Copied (memory.store dst data) dst data.length fun j => data.getD j 0 :=
  ⟨rfl, fun _ => rfl⟩

/-- Replaying the trace rebuilds the memory but for the bytes from `lo` up to `hi`. -/
structure SyncedExcept (s : ExecutionState) (lo hi : Nat) : Prop where
  bound : s.memory.m_size ≤ 2 ^ 34
  bytes : ∀ k < 2 ^ 64, ¬ (lo ≤ k ∧ k < hi) → s.replayed k = byte_word (s.memory.held k)

theorem SyncedExcept.all {s : ExecutionState} {lo hi : Nat} (synced : SyncedExcept s lo hi)
    (empty : hi ≤ lo) : MemorySynced s :=
  ⟨synced.bound, fun k small => synced.bytes k small (by omega)⟩

/-- Bytes that are copied are still to be recorded, unless they have been there before. -/
theorem MemorySynced.copied {s : ExecutionState} {memory' : Memory} {dst n lo hi : Nat}
    {f : Nat → UInt8} (synced : MemorySynced s) (copied : s.memory.Copied memory' dst n f)
    (kept : ∀ j < n, dst + j < s.memory.m_size → ¬ (lo ≤ dst + j ∧ dst + j < hi) →
      s.memory.m_data (dst + j) = f j) :
    SyncedExcept (s.set_memory memory') lo hi where
  bound := copied.size ▸ synced.bound
  bytes k small outside := by
    show s.replayed k = byte_word (memory'.held k)
    rw [synced.bytes k small, Memory.held, Memory.held, copied.size]
    by_cases within : k < s.memory.m_size
    · rw [if_pos within, if_pos within, copied.bytes]
      by_cases touched : dst ≤ k ∧ k < dst + n
      · have place : dst + (k - dst) = k := by omega
        have same := kept (k - dst) (by omega) (by rwa [place]) (by rwa [place])
        rw [if_pos touched, ← same, place]
      · rw [if_neg touched]
    · rw [if_neg within, if_neg within]

section
variable {s : ExecutionState} {dst lo hi : Nat} {address : Nat → Word} {data : Bytes}

theorem word_eq_iff {k : Nat} {x : Word} (small : k < 2 ^ 64) : x = BitVec.ofNat 256 k ↔ x.toNat = k := by
  rw [← BitVec.toNat_inj, BitVec.toNat_ofNat, Nat.mod_eq_of_lt (by omega)]

theorem replayed_push {o : rw_operation} {k : Nat} (small : k < 2 ^ 64) (op : o.op = MEMORY_OP) :
    (s.push_rw o).replayed k =
      if o.is_write ∧ o.address.toNat = k then o.value else s.replayed k := by
  unfold ExecutionState.replayed
  rw [ExecutionState.push_rw_rw_trace, last_write_append]
  simp only [op, true_and, word_eq_iff small]
  split <;> rfl

/-- An entry that reads, or is beyond all addresses of bytes, does not count. -/
theorem MemorySynced.push_memory {o : rw_operation}
    (apart : ∀ k < 2 ^ 64, ¬ (o.is_write = true ∧ o.address.toNat = k)) (op : o.op = MEMORY_OP := by rfl) :
    MemorySynced (s.push_rw o) ↔ MemorySynced s := by
  refine MemorySynced.congr rfl fun k small => ?_
  rw [replayed_push small op, if_neg (apart k small)]

/-- Recording the bytes of the memory brings the trace up to date. -/
theorem record_bytes_synced (except_ : SyncedExcept s dst hi)
    (all : hi ≤ dst + data.length) (room : dst + data.length ≤ s.memory.m_size)
    (at_dst : ∀ j < data.length, (address j).toNat = dst + j)
    (bytes : ∀ j < data.length, data.getD j 0 = s.memory.m_data (dst + j)) :
    Action.wlp memory_contract (record_bytes address true data)
      (fun _ s' => MemorySynced s' ∧ s'.memory = s.memory) s := by
  have start : s.memory = s.memory ∧ SyncedExcept s dst hi := ⟨rfl, except_⟩
  have loop : Action.wlp memory_contract (record_bytes address true data) (fun _ s' =>
      s'.memory = s.memory ∧ SyncedExcept s' (dst + (List.range data.length).length) hi) s :=
    Action.wlp_forEach (I := fun done s' => s'.memory = s.memory ∧
      SyncedExcept s' (dst + done.length) hi) ?_ start
  · refine loop.mono fun _ s' done => ⟨done.2.all ?_, done.1⟩
    rw [List.length_range]
    exact all
  · intro done b rest s' split inv
    obtain ⟨same, synced⟩ := inv
    obtain ⟨rfl, within⟩ := range_split split
    simp only [record_memory, Action.wlp_bind, Action.wlp_get, wlp_assert_that, Action.wlp_emit,
      Action.wlp_modify]
    refine fun _ => ⟨fun read => Bool.noConfusion (show true = false from read), same, synced.bound, ?_⟩
    intro k small outside
    rw [List.length_append, List.length_singleton] at outside
    rw [replayed_push small rfl]
    by_cases here : (address done.length).toNat = k
    · have place := at_dst _ within
      rw [if_pos ⟨rfl, here⟩]
      show byte_word (data.getD done.length 0) = byte_word (s'.memory.held k)
      rw [same, bytes _ within, Memory.held, if_pos (by omega), ← place, here]
    · have place := at_dst _ within
      rw [if_neg (fun h => here h.2)]
      exact synced.bytes k small (by omega)

/-- Entries beyond all addresses of bytes do not count. -/
theorem record_bytes_far (synced : MemorySynced s) (far : ∀ j < data.length, 2 ^ 64 ≤ (address j).toNat) :
    Action.wlp memory_contract (record_bytes address true data) (fun _ s' => MemorySynced s') s := by
  refine Action.wlp_forEach (I := fun _ s' => MemorySynced s') ?_ synced
  intro done b rest s' split synced'
  obtain ⟨rfl, within⟩ := range_split split
  simp only [record_memory, Action.wlp_bind, Action.wlp_get, wlp_assert_that, Action.wlp_emit,
    Action.wlp_modify]
  refine fun _ => ⟨fun read => Bool.noConfusion (show true = false from read), ?_⟩
  have beyond := far _ within
  refine (MemorySynced.push_memory fun k small replaces => ?_).mpr synced'
  have here : (address done.length).toNat = k := replaces.2
  omega

/-- Entries that read promise to carry what the memory holds. -/
theorem wlp_record_bytes_read {Q : Unit → ExecutionState → Prop} (synced : MemorySynced s)
    (room : dst + data.length ≤ s.memory.m_size)
    (at_dst : ∀ j < data.length, (address j).toNat = dst + j)
    (bytes : ∀ j < data.length, data.getD j 0 = s.memory.m_data (dst + j))
    (each : ∀ s', s'.memory = s.memory → MemorySynced s' → Q () s') :
    Action.wlp memory_contract (record_bytes address false data) Q s := by
  refine (Action.wlp_forEach (I := fun _ s' => s'.memory = s.memory ∧ MemorySynced s') ?_
    ⟨rfl, synced⟩).mono fun _ s' done => each s' done.1 done.2
  intro done b rest s' split inv
  obtain ⟨same, synced'⟩ := inv
  obtain ⟨rfl, within⟩ := range_split split
  have place := at_dst _ within
  simp only [record_memory, Action.wlp_bind, Action.wlp_get, wlp_assert_that, Action.wlp_emit,
    Action.wlp_modify]
  refine fun _ => ⟨fun _ => ⟨?_, ?_⟩, same,
    (MemorySynced.push_memory fun k small replaces => ?_).mpr synced'⟩
  · show (address done.length).toNat < s'.memory.m_size
    rw [same, place]
    omega
  · show byte_word (data.getD done.length 0) = byte_word (s'.memory.m_data (address done.length).toNat)
    rw [same, place, bytes _ within]
  · exact Bool.noConfusion (show false = true from replaces.1)

end
end EvmAssigner
