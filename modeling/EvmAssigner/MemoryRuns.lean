import EvmAssigner.MemoryTrace

namespace EvmAssigner
variable {H : Type}

section
variable {s s' : ExecutionState} {h pos gas_left left : Int} {offset size : Word} {ok : Bool}

theorem wlp_check_memory_replays {Q : Bool × Int → ExecutionState → Prop} (synced : MemorySynced s)
    (each : ∀ ok left s', Checked s gas_left offset size.to_uint64 ok left s' → MemorySynced s' →
      (ok = true → size.to_uint64 < 2 ^ 32) → Q (ok, left) s') :
    Action.wlp memory_contract (check_memory gas_left offset size) Q s :=
  wlp_check_memory fun ok left s' checked small => each ok left s' checked (synced.checked checked) small

theorem keccak256_replays [Ethash] (synced : MemorySynced s) (faithful : MemoryStep .KECCAK256 h s) :
    Action.wlp memory_contract (keccak256 h gas_left)
      (fun o s' => o.status = .SUCCESS → MemorySynced s') s := by
  simp only [MemoryStep, sub_zero] at faithful
  simp only [keccak256, Action.wlp_bind, wlp_record_stack, wlp_stack_get, sub_zero,
    ExecutionState.record_stack_space]
  refine wlp_check_memory_replays (by simpa using synced) fun ok left s' checked synced' _ => ?_
  simp only [Action.wlp_bind, Action.wlp_ite, Action.wlp_pure, wlp_memory_load, wlp_stack_set,
    wlp_record_stack]
  refine ⟨fun _ => by simp, fun passed => ⟨fun _ => by simp, fun _ => ⟨fun some => ?_, fun zero => ?_⟩⟩⟩
  · obtain rfl : ok = true := by simpa using passed
    obtain ⟨near, _, size⟩ := checked.room rfl some
    obtain ⟨address, whole⟩ := faithful some
    have room : (s.stack_space (h - 1)).to_uint64 + 32 ≤ s'.memory.m_size := size ▸ whole
    refine wlp_record_bytes_read synced' (by rwa [load_length]) (fun j within => ?_)
      (fun j within => load_getD within) ?_
    · rw [load_length] at within
      exact (sum_address near (by omega)).1 address
    · intro s'' _ synced''
      simp [synced'']
  · exact ⟨fun some => absurd some zero, fun _ _ => by simpa using synced'⟩

theorem mload_replays (synced : MemorySynced s) :
    Action.wlp memory_contract (mload h gas_left) (fun o s' => o.status = .SUCCESS → MemorySynced s') s := by
  simp only [mload, Action.wlp_bind, wlp_record_stack, wlp_stack_get]
  refine wlp_check_memory_size (by omega) fun ok left s' checked => ?_
  have synced' := MemorySynced.checked (by simpa using synced) checked
  simp only [Action.wlp_bind, Action.wlp_ite, Action.wlp_pure, wlp_memory_load, wlp_stack_set,
    wlp_record_stack]
  refine ⟨fun _ => by simp, fun passed => ?_⟩
  obtain rfl : ok = true := by simpa using passed
  obtain ⟨near, room, _⟩ := checked.room rfl (by decide)
  refine wlp_record_bytes_read (by simpa using synced') (by simpa using room) (fun j within => ?_)
    (fun j within => load_getD within) ?_
  · rw [load_length] at within
    exact word_address (by omega)
  · intro s'' _ synced''
    simp [synced'']

/-- Bytes that are stored, and recorded as they are in the memory then. -/
theorem wlp_record_stored {addr n : Nat} {data : Bytes} (synced : MemorySynced s)
    (short : data.length ≤ n) (near : addr + n < 2 ^ 64) (room : addr + n ≤ s.memory.m_size) :
    Action.wlp memory_contract
      (record_bytes (fun j => BitVec.ofNat 256 (addr + j)) true ((s.memory.store addr data).load addr n))
      (fun _ s' => MemorySynced s' ∧ s'.memory = s.memory.store addr data)
      (s.set_memory (s.memory.store addr data)) := by
  have except_ : SyncedExcept _ addr (addr + n) := synced.copied (s.memory.store_copied addr data)
    fun j within _ outside => absurd ⟨Nat.le_add_right _ _, by omega⟩ outside
  refine record_bytes_synced except_ (by rw [load_length]) (by simpa using room) (fun j within => ?_)
    fun j within => load_getD within
  rw [load_length] at within
  exact word_address (by omega)

theorem mstore_replays {width : Nat} (most : width ≤ 32) (synced : MemorySynced s) :
    Action.wlp memory_contract (mstore width h gas_left)
      (fun o s' => o.status = .SUCCESS → MemorySynced s') s := by
  simp only [mstore, Action.wlp_bind, wlp_record_stack, wlp_stack_get]
  refine wlp_check_memory_size (by omega) fun ok left s' checked => ?_
  have synced' := MemorySynced.checked (by simpa using synced) checked
  simp only [Action.wlp_bind, Action.wlp_ite, Action.wlp_pure, wlp_memory_load, wlp_memory_store]
  refine ⟨fun _ => by simp, fun passed => ?_⟩
  obtain rfl : ok = true := by simpa using passed
  obtain ⟨near, room, _⟩ := checked.room rfl (by decide)
  exact (wlp_record_stored synced' (by rwa [store_length]) (by omega) room).mono
    fun _ _ stored _ => stored.1

namespace Memory.Copied
variable {memory memory₁ memory₂ : Memory} {dst m n : Nat} {f g : Nat → UInt8}

theorem nothing (memory : Memory) (dst : Nat) (f : Nat → UInt8) : memory.Copied memory dst 0 f :=
  ⟨rfl, fun k => by rw [if_neg (by omega)]⟩

theorem congr (copied : memory.Copied memory₁ dst n f) (same : ∀ j < n, f j = g j) :
    memory.Copied memory₁ dst n g where
  size := copied.size
  bytes k := by
    rw [copied.bytes]
    split
    · exact same _ (by omega)
    · rfl

/-- Two ranges that meet. -/
theorem append (first : memory.Copied memory₁ dst m f)
    (second : memory₁.Copied memory₂ (dst + m) n fun j => f (m + j)) :
    memory.Copied memory₂ dst (m + n) f where
  size := second.size.trans first.size
  bytes k := by
    rw [second.bytes, first.bytes]
    by_cases late : dst + m ≤ k ∧ k < dst + m + n
    · rw [if_pos late, if_pos (by omega), show m + (k - (dst + m)) = k - dst by omega]
    · by_cases early : dst ≤ k ∧ k < dst + m
      · rw [if_neg late, if_pos early, if_pos (by omega)]
      · rw [if_neg late, if_neg early, if_neg (by omega)]

end Memory.Copied

theorem take_drop_getD {source : Bytes} {src n j : Nat} (within : j < n) :
    ((source.drop src).take n).getD j 0 = source.getD (src + j) 0 := by
  simp only [List.getD_eq_getElem?_getD, List.getElem?_take, List.getElem?_drop, if_pos within]

theorem getD_beyond {source : Bytes} {k : Nat} (far : source.length ≤ k) : source.getD k 0 = 0 := by
  rw [List.getD_eq_getElem?_getD, List.getElem?_eq_none far]
  rfl

theorem zeros_getD {n j : Nat} : (List.replicate n (0 : UInt8)).getD j 0 = 0 := by
  rw [List.getD_eq_getElem?_getD, List.getElem?_replicate]
  split <;> rfl

/-- The memory with the bytes of `source` that there are, and zeros for those that there are not. -/
def Memory.padded (memory : Memory) (source : Bytes) (dst src n : Nat) : Memory :=
  let copy_size := min n (source.length - src)
  let front := if copy_size > 0 then memory.store dst ((source.drop src).take copy_size) else memory
  if n - copy_size > 0 then front.store (dst + copy_size) (List.replicate (n - copy_size) 0) else front

theorem Memory.padded_copied (memory : Memory) (source : Bytes) (dst src n : Nat) :
    memory.Copied (memory.padded source dst src n) dst n fun j => source.getD (src + j) 0 := by
  obtain ⟨c, count⟩ : ∃ c, c = min n (source.length - src) := ⟨_, rfl⟩
  obtain ⟨rest, whole⟩ : ∃ rest, n = c + rest := ⟨n - c, by omega⟩
  have front : memory.Copied (if c > 0 then memory.store dst ((source.drop src).take c) else memory) dst c
      fun j => source.getD (src + j) 0 := by
    split
    · have stored := memory.store_copied dst ((source.drop src).take c)
      rw [List.length_take, List.length_drop, Nat.min_eq_left (by omega)] at stored
      exact stored.congr fun j within => take_drop_getD within
    · obtain rfl : c = 0 := by omega
      exact .nothing _ _ _
  have back (front : Memory) : front.Copied
      (if rest > 0 then front.store (dst + c) (List.replicate rest 0) else front) (dst + c) rest
      fun j => source.getD (src + (c + j)) 0 := by
    split
    · have stored := front.store_copied (dst + c) (List.replicate rest 0)
      rw [List.length_replicate] at stored
      refine stored.congr fun j within => ?_
      have beyond : source.getD (src + (c + j)) 0 = 0 := getD_beyond (by omega)
      rw [zeros_getD, beyond]
    · obtain rfl : rest = 0 := by omega
      exact .nothing _ _ _
  have both := front.append (back _)
  rw [Memory.padded, ← count, whole]
  simp only [Nat.add_sub_cancel_left]
  exact both

/-- The bytes that `copy_padded` leaves. -/
theorem wlp_copy_padded {P : Action.Contract Event} [MemoryQuiet P] {source : Bytes} {dst src n : Nat}
    {Q : Nat → ExecutionState → Prop}
    (each : ∀ memory', s.memory.Copied memory' dst n (fun j => source.getD (src + j) 0) →
      Q (min n (source.length - src)) (s.set_memory memory')) :
    Action.wlp P (copy_padded source dst src n) Q s := by
  have leaves := each _ (s.memory.padded_copied source dst src n)
  simp only [Memory.padded] at leaves
  simp only [copy_padded, Action.wlp_bind, Action.wlp_ite, Action.wlp_pure, wlp_memory_store]
  generalize min n (source.length - src) = c at leaves ⊢
  refine ⟨fun some => ⟨fun rest => ?_, fun rest => ?_⟩, fun none_ => ⟨fun rest => ?_, fun rest => ?_⟩⟩
  · rw [if_pos rest, if_pos some] at leaves
    exact leaves
  · rw [if_neg rest, if_pos some] at leaves
    exact leaves
  · rw [if_pos rest, if_neg none_] at leaves
    exact leaves
  · rw [if_neg rest, if_neg none_] at leaves
    exact leaves

theorem copy_to_memory_replays {source : Bytes} (synced : MemorySynced s)
    (faithful : CopyRecorded source (s.stack_space (h - 1)) (s.stack_space (h - 1 - 1))
      (s.stack_space (h - 2 - 1)) (s.expanded (s.stack_space (h - 1)) (s.stack_space (h - 2 - 1)))) :
    Action.wlp memory_contract (copy_to_memory source h gas_left)
      (fun o s' => o.status = .SUCCESS → MemorySynced s') s := by
  simp only [copy_to_memory, Action.wlp_bind, wlp_record_stack, wlp_stack_get, sub_zero,
    ExecutionState.record_stack_space]
  generalize at_index : s.stack_space (h - 1) = mem_index at faithful ⊢
  generalize s.stack_space (h - 1 - 1) = input_index at faithful ⊢
  generalize at_size : s.stack_space (h - 2 - 1) = size at faithful ⊢
  refine wlp_check_memory_replays (by simpa using synced) fun ok left s' checked synced' small => ?_
  simp only [Action.wlp_bind, Action.wlp_ite, Action.wlp_pure, wlp_memory_load]
  refine ⟨fun _ => by simp, fun passed => ⟨fun _ => by simp, fun _ => wlp_copy_padded fun memory' copied => ?_⟩⟩
  obtain rfl : ok = true := by simpa using passed
  have small := small rfl
  by_cases empty : size.to_uint64 = 0
  · have unchanged : MemorySynced (s'.set_memory memory') :=
      SyncedExcept.all (synced'.copied copied fun j within _ _ => by omega) (le_refl 0)
    rw [empty, Nat.zero_min]
    exact Action.wlp_pure.mpr fun _ => unchanged
  · obtain ⟨near, room, _⟩ := checked.room rfl empty
    obtain ⟨_, bytes⟩ := checked.memory empty
    have bytes (k : Nat) : s'.memory.m_data k = (s.expanded mem_index size).m_data k := bytes k
    by_cases address : mem_index.toNat < 2 ^ 64
    · have except_ : SyncedExcept (s'.set_memory memory') mem_index.to_uint64
          (mem_index.to_uint64 + min size.to_uint64
            (source.length - min source.length input_index.to_uint64)) := synced'.copied copied ?_
      · refine (record_bytes_synced except_ (by rw [load_length]) ?_ (fun j within => ?_)
          fun j within => load_getD within).mono fun _ _ recorded _ => recorded.1
        · rw [load_length, ExecutionState.set_memory_memory, copied.size]
          omega
        · rw [load_length] at within
          exact (sum_address near (by omega)).1 address
      · intro j within _ outside
        rcases faithful j within with ⟨_, recorded⟩ | same
        · exact absurd ⟨Nat.le_add_right _ _, by omega⟩ outside
        · rw [bytes, same]
    · have far := not_lt.mp address
      have unchanged : MemorySynced (s'.set_memory memory') :=
        SyncedExcept.all (synced'.copied copied fun j within _ _ => by
          rcases faithful j within with ⟨near, _⟩ | same
          · exact absurd near address
          · rw [bytes, same]) (le_refl 0)
      refine (record_bytes_far unchanged fun j within => ?_).mono fun _ _ synced'' _ => synced''
      rw [load_length] at within
      exact (sum_address near (by omega)).2 far

theorem calldatacopy_replays (synced : MemorySynced s) (faithful : MemoryStep .CALLDATACOPY h s) :
    Action.wlp memory_contract (calldatacopy h gas_left)
      (fun o s' => o.status = .SUCCESS → MemorySynced s') s := by
  simp only [MemoryStep, sub_zero] at faithful
  rw [calldatacopy, Action.wlp_bind, Action.wlp_get]
  exact copy_to_memory_replays synced faithful

theorem codecopy_replays (synced : MemorySynced s) (faithful : MemoryStep .CODECOPY h s) :
    Action.wlp memory_contract (codecopy h gas_left)
      (fun o s' => o.status = .SUCCESS → MemorySynced s') s := by
  simp only [MemoryStep, sub_zero] at faithful
  rw [codecopy, Action.wlp_bind, Action.wlp_get]
  exact copy_to_memory_replays synced faithful

theorem returndatacopy_replays (synced : MemorySynced s) :
    Action.wlp memory_contract (returndatacopy h gas_left)
      (fun o s' => o.status = .SUCCESS → MemorySynced s') s := by
  simp only [returndatacopy, Action.wlp_bind, Action.wlp_get, wlp_record_stack, wlp_stack_get]
  refine wlp_check_memory_replays (by simpa using synced) fun ok left s' checked synced' small => ?_
  simp only [Action.wlp_bind, Action.wlp_ite, Action.wlp_pure, wlp_memory_load, wlp_memory_store]
  refine ⟨fun _ => by simp, fun passed => ⟨fun _ => by simp, fun _ => ⟨fun _ => by simp, fun _ =>
    ⟨fun _ => by simp, fun _ => ⟨fun some => ?_, fun _ _ => synced'⟩⟩⟩⟩⟩
  obtain rfl : ok = true := by simpa using passed
  have small := small rfl
  obtain ⟨near, room, _⟩ := checked.room rfl (by omega)
  refine (wlp_record_stored synced' ?_ (by omega) room).mono fun _ _ stored _ => stored.1
  rw [List.length_take]
  omega

theorem mcopy_replays (synced : MemorySynced s) (faithful : MemoryStep .MCOPY h s) :
    Action.wlp memory_contract (mcopy h gas_left)
      (fun o s' => o.status = .SUCCESS → MemorySynced s') s := by
  simp only [MemoryStep, sub_zero] at faithful
  simp only [mcopy, Action.wlp_bind, wlp_record_stack, wlp_stack_get, sub_zero,
    ExecutionState.record_stack_space]
  refine wlp_check_memory_replays (by simpa using synced) fun ok left s' checked synced' small => ?_
  simp only [Action.wlp_bind, Action.wlp_ite, Action.wlp_pure, wlp_memory_load, wlp_memory_store]
  refine ⟨fun _ => by simp, fun passed => ⟨fun _ => by simp, fun _ => ⟨fun some => ?_, fun _ _ => synced'⟩⟩⟩
  obtain rfl : ok = true := by simpa using passed
  obtain ⟨size, bytes⟩ := checked.memory (by omega)
  intro _
  have stored := s'.memory.store_copied (s.stack_space (h - 1)).to_uint64
    (s'.memory.load (s.stack_space (h - 1 - 1)).to_uint64 (s.stack_space (h - 2 - 1)).to_uint64)
  refine SyncedExcept.all (synced'.copied stored fun j within inside _ => ?_) (le_refl 0)
  rw [load_getD within, bytes, bytes]
  rw [load_length] at within
  refine faithful j within ?_
  rw [size] at inside
  exact inside

/-- The zeros behind the data, which are recorded from `dst` on. -/
theorem wlp_record_zeros {dst c n : Nat} {f : Nat → UInt8} (synced : MemorySynced s)
    (near : dst + (c + n) < 2 ^ 64) (room : dst + (c + n) ≤ s.memory.m_size)
    (copied : ∀ j < c, s.memory.m_data (dst + j) = f j)
    (faithful : ∀ j < c + n, if j < n then j < c → f j = 0
      else j < c ∨ s.memory.m_data (dst + j) = 0) :
    Action.wlp memory_contract
      (record_bytes (fun j => BitVec.ofNat 256 (dst + j)) true (List.replicate n 0))
      (fun _ s' => MemorySynced s')
      (s.set_memory (s.memory.store (dst + c) (List.replicate n 0))) := by
  have stored := s.memory.store_copied (dst + c) (List.replicate n 0)
  rw [List.length_replicate] at stored
  have except_ : SyncedExcept _ dst (dst + n) := synced.copied stored ?_
  · refine (record_bytes_synced except_ (by rw [List.length_replicate]) ?_ (fun j within => ?_)
      fun j within => ?_).mono fun _ _ recorded => recorded.1
    · rw [List.length_replicate]
      show _ ≤ s.memory.m_size
      omega
    · rw [List.length_replicate] at within
      exact word_address (by omega)
    · rw [List.length_replicate] at within
      rw [zeros_getD, ExecutionState.set_memory_memory, stored.bytes]
      split
      · exact zeros_getD.symm
      · have recorded := faithful j (by omega)
        rw [if_pos within] at recorded
        rw [copied j (by omega), recorded (by omega)]
  · intro j within _ outside
    have kept := faithful (c + j) (by omega)
    rw [if_neg (by omega)] at kept
    rw [zeros_getD, Nat.add_assoc]
    exact kept.resolve_left (by omega)

theorem datacopy_replays (synced : MemorySynced s) (faithful : MemoryStep .DATACOPY h s) :
    Action.wlp memory_contract (datacopy h gas_left)
      (fun o s' => o.status = .SUCCESS → MemorySynced s') s := by
  simp only [MemoryStep, sub_zero] at faithful
  simp only [datacopy, Action.wlp_bind, Action.wlp_get, wlp_record_stack, wlp_stack_get, sub_zero,
    ExecutionState.record_stack_space]
  generalize at_index : s.stack_space (h - 1) = mem_index at faithful ⊢
  generalize s.stack_space (h - 1 - 1) = data_index at faithful ⊢
  generalize at_size : s.stack_space (h - 2 - 1) = size at faithful ⊢
  refine wlp_check_memory_replays (by simpa using synced) fun ok left s' checked synced' small => ?_
  unfold DataCopyRecorded at faithful
  generalize min s.data.length data_index.to_uint64 = src at faithful ⊢
  simp only at faithful
  obtain ⟨c, count⟩ : ∃ c, c = min size.to_uint64 (s.data.length - src) := ⟨_, rfl⟩
  obtain ⟨n, whole⟩ : ∃ n, size.to_uint64 = c + n := ⟨size.to_uint64 - c, by omega⟩
  rw [← count, whole, Nat.add_sub_cancel_left] at faithful
  simp only [Action.wlp_bind, Action.wlp_ite, Action.wlp_pure, wlp_memory_load, wlp_memory_store,
    ← count]
  rw [show size.to_uint64 - c = n by omega]
  refine ⟨fun _ => by simp, fun passed => ⟨fun _ => by simp, fun _ => ?_⟩⟩
  obtain rfl : ok = true := by simpa using passed
  have small := small rfl
  have rest (s₁ : ExecutionState) (synced₁ : MemorySynced s₁) (same : s₁.memory.m_size = s'.memory.m_size)
      (copied : s'.memory.Copied s₁.memory mem_index.to_uint64 c fun j => s.data.getD (src + j) 0) :
      (n > 0 → Action.wlp memory_contract (record_bytes
          (fun j => BitVec.ofNat 256 (mem_index.to_uint64 + j)) true (List.replicate n 0))
        (fun _ s' => True → MemorySynced s')
        (s₁.set_memory (s₁.memory.store (mem_index.to_uint64 + c) (List.replicate n 0)))) ∧
      (¬ n > 0 → True → MemorySynced s₁) := by
    refine ⟨fun some => ?_, fun _ _ => synced₁⟩
    obtain ⟨near, room, _⟩ := checked.room rfl (by omega)
    obtain ⟨_, bytes⟩ := checked.memory (by omega)
    refine (wlp_record_zeros (f := fun j => s.data.getD (src + j) 0) synced₁ (by omega) (by omega)
      (fun j within => ?_) fun j within => ?_).mono fun _ _ synced'' _ => synced''
    · rw [copied.bytes, if_pos (by omega), Nat.add_sub_cancel_left]
    · have recorded := faithful j within
      split
      · rename_i early
        rw [if_pos early] at recorded
        exact fun _ => recorded
      · rename_i late
        rw [if_neg late] at recorded
        by_cases first : j < c
        · exact Or.inl first
        · right
          rw [copied.bytes, if_neg (by omega), bytes]
          exact recorded.resolve_left first
  refine ⟨fun some => ?_, fun none_ => ?_⟩
  · obtain ⟨near, room, _⟩ := checked.room rfl (by omega)
    have length : ((s.data.drop src).take c).length = c := by
      rw [List.length_take, List.length_drop]
      omega
    refine (wlp_record_stored synced' length.le (by omega) (by omega)).mono fun _ s₁ stored => ?_
    obtain ⟨synced₁, same⟩ := stored
    refine rest s₁ synced₁ (by rw [same]; rfl) ?_
    rw [same]
    have stored := s'.memory.store_copied mem_index.to_uint64 ((s.data.drop src).take c)
    rw [length] at stored
    exact stored.congr fun j within => take_drop_getD within
  · obtain rfl : c = 0 := by omega
    exact rest s' synced' rfl (.nothing _ _ _)

end

theorem memory_closed : Closed memory_contract MemorySynced where
  record _ _ _ synced := MemorySynced.record.mpr synced
  push_storage _ _ _ _ _ synced := MemorySynced.push_storage.mpr synced
  set_slot _ _ synced := MemorySynced.set_slot.mpr synced
  set_status _ synced := MemorySynced.set_status.mpr synced
  set_return_data _ synced := MemorySynced.set_return_data.mpr synced
  set_output _ _ synced _ := MemorySynced.set_output.mpr synced
  set_call_stack _ synced := MemorySynced.set_call_stack.mpr synced
  add_refund _ synced := MemorySynced.add_refund.mpr synced
  set_tx _ synced := MemorySynced.set_tx.mpr synced
  grow synced larger bound := synced.grow larger bound
  host_output {s dst data} synced _ there := SyncedExcept.all
    (synced.copied (s.memory.store_copied dst data) fun j within _ _ => there j within) (le_refl 0)

theorem memory_step [Ethash] {host : Host H} {exec : Exec H} {op : Opcode} {byte : UInt8}
    {h pos left : Int} (gas : Int) (name : Opcode.of_byte byte = some op)
    (faithful : MemoryFaithful (.step byte h gas exec.state)) (synced : MemorySynced exec.state) :
    (map_opcodes host op).Ensures memory_contract pos h left (fun e => MemorySynced e.state) exec := by
  have faithful : MemoryStep op h exec.state := faithful op name
  by_cases apart : op.on_memory = false
  · exact (memory_closed.step apart (fun _ => inferInstance) synced).ensures memory_closed.set_status
  · cases op with
    | KECCAK256 => exact wlp_on_state.mpr (keccak256_replays synced faithful)
    | CALLDATACOPY => exact wlp_on_state.mpr (calldatacopy_replays synced faithful)
    | CODECOPY => exact wlp_on_state.mpr (codecopy_replays synced faithful)
    | RETURNDATACOPY => exact wlp_on_state.mpr (returndatacopy_replays synced)
    | MLOAD | MLOAD8 | MLOAD16 | MLOAD32 | MLOAD64 => exact wlp_on_state.mpr (mload_replays synced)
    | MSTORE | MSTORE8 | MSTORE16 | MSTORE32 | MSTORE64 =>
      exact wlp_on_state.mpr (mstore_replays (by decide) synced)
    | MCOPY => exact wlp_on_state.mpr (mcopy_replays synced faithful)
    | DATACOPY => exact wlp_on_state.mpr (datacopy_replays synced faithful)
    | _ => exact absurd rfl apart

/-- Code that stores 7, copies zeros where there have been zeros with `CALLDATACOPY` and `MCOPY`, and hashes it all. -/
def remembering_code : Bytes :=
  [0x60, 7, 0x5f, 0x52, 0x60, 2, 0x5f, 0x5f, 0x37, 0x60, 2, 0x60, 1, 0x5f, 0x5e, 0x60, 32, 0x5f, 0x20]

end EvmAssigner
