import EvmAssigner.Runs

namespace EvmAssigner
variable {H : Type}

/-- `count` bytes from `index` on are part of a memory of `size` bytes. -/
def Within (index count size : Nat) : Prop := count = 0 ∨ index + count ≤ size

instance {index count size : Nat} : Decidable (Within index count size) := inferInstanceAs (Decidable (_ ∨ _))

theorem Within.part {index count size i n : Nat} (within : Within index count size) (lower : index ≤ i)
    (upper : i + n ≤ index + count) : Within i n size := by
  rcases within with empty | room
  · exact Or.inl (by omega)
  · exact Or.inr (by omega)

class Gentle (P : Action.Contract Event) : Prop extends Steady P, StackQuiet P where
  memory_within {index count size : Nat} (within : Within index count size) :
    P.Ignores (.memory_access index count size)
  host_output (memory : Memory) (dst : Nat) (data : Bytes) : P.ensures (.host_output memory dst data)

/-- The contract has nothing against an instruction that does not look at the memory, or stays
within it. -/
class Lenient (P : Action.Contract Event) : Prop extends Calm P, Gentle P where
  storage_entry (o : rw_operation) : P.ensures (.storage_entry o)
  light_failure (operand : Word) : P.ensures (.light_failure operand)
  host_call (gas value : Word) (msg : Message) : P.ensures (.host_call gas value msg)

/-- Nor has it against what an instruction hands to the host; the host may have to keep to more. -/
class Obliging (P : Action.Contract Event) : Prop extends Gentle P where
  storage_entry (o : rw_operation) : P.ensures (.storage_entry o)
  light_failure (operand : Word) : P.ensures (.light_failure operand)
  host_call (gas value : Word) (msg : Message) : P.ensures (.host_call gas value msg)

instance {P : Action.Contract Event} [Lenient P] : Obliging P where
  storage_entry := Lenient.storage_entry
  light_failure := Lenient.light_failure
  host_call := Lenient.host_call

/-- An invariant that is not about what most instructions change, but for the call stack. -/
structure Inert (P : Action.Contract Event) (I : ExecutionState → Prop) : Prop where
  record {s : ExecutionState} (stack i : Int) (is_write : Bool) (inv : I s) : I (s.record stack i is_write)
  push_storage {s : ExecutionState} (address key : Word) (is_write : Bool) (value value_prev : Word)
    (inv : I s) :
    I (s.push_rw (storage_operation s.call_id address key s.rw_trace.length is_write value value_prev))
  set_slot {s : ExecutionState} (slot : Int) (v : Word) (inv : I s) : I (s.set_slot slot v)
  set_status {s : ExecutionState} (status : StatusCode) (inv : I s) : I (s.set_status status)
  set_return_data {s : ExecutionState} (data : Bytes) (inv : I s) : I (s.set_return_data data)
  set_output {s : ExecutionState} (offset size : Nat) (inv : I s) (within : Within offset size s.memory.m_size) :
    I (s.set_output offset size)
  add_refund {s : ExecutionState} (refund : Int) (inv : I s) : I (s.add_refund refund)
  set_tx {s : ExecutionState} (tx : TxContext) (inv : I s) : I (s.set_tx tx)
  grow {s : ExecutionState} {n : Nat} (inv : I s) (larger : s.memory.m_size < n) (bound : n ≤ 2 ^ 34) :
    I (s.set_memory (s.memory.grow n))
  host_output {s : ExecutionState} {dst : Nat} {data : Bytes} (inv : I s)
    (within : Within dst data.length s.memory.m_size) (assumed : P.assumes (.host_output s.memory dst data)) :
    I (s.set_memory (s.memory.store dst data))

/-- It may be about the items of the stack that are recorded as read. -/
structure Unread (P : Action.Contract Event) (I : ExecutionState → Prop) : Prop where
  write {s : ExecutionState} (stack i : Int) (inv : I s) : I (s.record stack i true)
  push_storage {s : ExecutionState} (address key : Word) (is_write : Bool) (value value_prev : Word)
    (inv : I s) :
    I (s.push_rw (storage_operation s.call_id address key s.rw_trace.length is_write value value_prev))
  set_slot {s : ExecutionState} (slot : Int) (v : Word) (inv : I s) : I (s.set_slot slot v)
  set_status {s : ExecutionState} (status : StatusCode) (inv : I s) : I (s.set_status status)
  set_return_data {s : ExecutionState} (data : Bytes) (inv : I s) : I (s.set_return_data data)
  set_output {s : ExecutionState} (offset size : Nat) (inv : I s) (within : Within offset size s.memory.m_size) :
    I (s.set_output offset size)
  add_refund {s : ExecutionState} (refund : Int) (inv : I s) : I (s.add_refund refund)
  set_tx {s : ExecutionState} (tx : TxContext) (inv : I s) : I (s.set_tx tx)
  grow {s : ExecutionState} {n : Nat} (inv : I s) (larger : s.memory.m_size < n) (bound : n ≤ 2 ^ 34) :
    I (s.set_memory (s.memory.grow n))
  host_output {s : ExecutionState} {dst : Nat} {data : Bytes} (inv : I s)
    (within : Within dst data.length s.memory.m_size) (assumed : P.assumes (.host_output s.memory dst data)) :
    I (s.set_memory (s.memory.store dst data))

theorem Inert.unread {P : Action.Contract Event} {I : ExecutionState → Prop} (closed : Inert P I) : Unread P I :=
  { closed with write := fun stack i => closed.record stack i true }

/-- `stack[i]` is recorded as read, for each pair of a stack pointer and an `i`. -/
def ExecutionState.record_reads (s : ExecutionState) (reads : List (Int × Int)) : ExecutionState :=
  reads.foldl (fun s read => s.record read.1 read.2 false) s

theorem Inert.reads {P : Action.Contract Event} {I : ExecutionState → Prop} {s : ExecutionState} (closed : Inert P I)
    (inv : I s) (reads : List (Int × Int)) : I (s.record_reads reads) := by
  induction reads generalizing s with
  | nil => exact inv
  | cons read reads ih => exact ih (closed.record _ _ _ inv)

/-- Nor is it about the call stack. -/
structure Closed (P : Action.Contract Event) (I : ExecutionState → Prop) : Prop extends Inert P I where
  set_call_stack {s : ExecutionState} (call_stack : List Int) (inv : I s) : I (s.set_call_stack call_stack)

section
variable {P : Action.Contract Event} [Gentle P] {I : ExecutionState → Prop} {s s' : ExecutionState}
  {h pos gas_left left : Int} {offset size : Word} {ok : Bool}

theorem wlp_memory_load_within {k count : Nat} {Q : Bytes → ExecutionState → Prop}
    (within : Within k count s.memory.m_size) (each : Q (s.memory.load k count) s) :
    Action.wlp P (memory_load k count) Q s := by
  simpa [memory_load, Action.wlp_emit_ignored (Gentle.memory_within within), -Action.wlp_emit] using each

theorem wlp_memory_store_within {k : Nat} {data : Bytes} {Q : Unit → ExecutionState → Prop}
    (within : Within k data.length s.memory.m_size) (each : Q () (s.set_memory (s.memory.store k data))) :
    Action.wlp P (memory_store k data) Q s := by
  simpa [memory_store, Action.wlp_emit_ignored (Gentle.memory_within within), -Action.wlp_emit] using each

theorem Checked.within {n : Nat} (checked : Checked s gas_left offset n ok left s')
    (passed : ¬ (!ok) = true) : Within offset.to_uint64 n s'.memory.m_size := by
  obtain rfl : ok = true := by simpa using passed
  by_cases empty : n = 0
  · exact Or.inl empty
  · exact Or.inr (checked.room rfl empty).2.1

theorem Checked.larger {n : Nat} (checked : Checked s gas_left offset n ok left s') :
    s.memory.m_size ≤ s'.memory.m_size := by
  rcases checked.grown with rfl | ⟨n, less, _, rfl⟩
  · exact le_rfl
  · exact less.le

namespace Unread
variable (closed : Unread P I)
include closed

omit [Gentle P] in
theorem checked (inv : I s) {n : Nat} (checked : Checked s gas_left offset n ok left s') : I s' := by
  rcases checked.grown with rfl | ⟨n, larger, bound, rfl⟩
  · exact inv
  · exact closed.grow inv larger bound

omit [Gentle P] in
theorem put (inv : I s) (slot stack i : Int) (v : Word) : I ((s.set_slot slot v).record stack i true) :=
  closed.write _ _ (closed.set_slot _ _ inv)

omit [Gentle P] in
theorem check_memory_keeps (inv : I s) {Q : Bool × Int → ExecutionState → Prop}
    (each : ∀ ok left s', Checked s gas_left offset size.to_uint64 ok left s' → I s' →
      (ok = true → size.to_uint64 < 2 ^ 32) → Q (ok, left) s') :
    Action.wlp P (check_memory gas_left offset size) Q s :=
  wlp_check_memory fun ok left s' checked small =>
    each ok left s' checked (closed.checked inv checked) small

theorem binary_keeps {f : Word → Word → Word} (popped : I (s.record_reads [(h, 1), (h, 0)])) :
    Action.wlp P (binary f h) (fun _ s' => I s') s := by
  simp only [binary, Action.wlp_bind, wlp_record_stack, wlp_stack_get, wlp_stack_set]
  exact closed.put popped _ _ _ _

theorem unary_keeps {f : Word → Word} (popped : I (s.record_reads [(h, 0)])) :
    Action.wlp P (unary f h) (fun _ s' => I s') s := by
  simp only [unary, Action.wlp_bind, wlp_record_stack, wlp_stack_get, wlp_stack_set]
  exact closed.put popped _ _ _ _

theorem push_word_keeps (inv : I s) {v : Word} : Action.wlp P (push_word v h) (fun _ s' => I s') s := by
  simp only [push_word, Action.wlp_bind, wlp_record_stack, wlp_stack_set]
  exact closed.put inv _ _ _ _

theorem addmod_keeps (popped : I (s.record_reads [(h, 2), (h, 1), (h, 0)])) :
    Action.wlp P (addmod h) (fun _ s' => I s') s := by
  simp only [addmod, Action.wlp_bind, wlp_record_stack, wlp_stack_get, wlp_stack_set]
  exact closed.put popped _ _ _ _

theorem mulmod_keeps (popped : I (s.record_reads [(h, 2), (h, 1), (h, 0)])) :
    Action.wlp P (mulmod h) (fun _ s' => I s') s := by
  simp only [mulmod, Action.wlp_bind, wlp_record_stack, wlp_stack_get, wlp_stack_set]
  exact closed.put popped _ _ _ _

theorem exp_keeps (popped : I (s.record_reads [(h, 1), (h, 0)])) :
    Action.wlp P (exp h gas_left) (fun _ s' => I s') s := by
  simp only [exp, Action.wlp_bind, Action.wlp_get, Action.wlp_ite, Action.wlp_pure, wlp_record_stack,
    wlp_stack_get, wlp_stack_set]
  exact ⟨fun _ => popped, fun _ => closed.put popped _ _ _ _⟩

theorem calldataload_keeps (popped : I (s.record_reads [(h, 0)])) :
    Action.wlp P (calldataload h) (fun _ s' => I s') s := by
  simp only [calldataload, Action.wlp_bind, Action.wlp_get]
  exact closed.unary_keeps popped

theorem push_keeps (inv : I s) [CodeQuiet P] {Len : Nat} : Action.wlp P (push Len h pos) (fun _ s' => I s') s := by
  have record (r : Word) : Action.wlp P
      (Action.forEach (fun i : Nat => record_stack (h + 1) i true) (List.range (Len / 32 + Len % 32)))
      (fun _ s' => I s') (s.set_slot (h + 1 - 1 - 0) r) := by
    refine Action.wlp_forEach (I := fun _ s' => I s') ?_ (closed.set_slot _ r inv)
    intro done i rest s' split inv'
    exact wlp_record_stack.mpr (closed.write _ _ inv')
  simp only [push, Action.wlp_bind, Action.wlp_ite, Action.wlp_pure, wlp_stack_set]
  exact ⟨fun _ => wlp_load_partial fun r => wlp_load_full_words fun r' => record r',
    fun _ => wlp_load_full_words fun r' => record r'⟩

theorem dup_slot_keeps {n : Int} (popped : I (s.record_reads [(h, n - 1)])) :
    Action.wlp P (dup_slot n h) (fun _ s' => I s') s := by
  simp only [dup_slot, Action.wlp_bind, wlp_record_stack, wlp_stack_get]
  exact closed.push_word_keeps popped

theorem dup_top_keeps
    (popped : I (s.record_reads [(h, 0), (h - 1, int32 (s.stack_space (h - 1)).to_uint64 - 1)])) :
    Action.wlp P (dup_top h) (fun _ s' => I s') s := by
  simp only [dup_top, Action.wlp_bind, wlp_record_stack, wlp_stack_get, wlp_assert_that, sub_zero]
  exact closed.dup_slot_keeps popped

theorem swap_slots_keeps {addr : Nat} (popped : I (s.record_reads [(h, addr), (h, 0)])) :
    Action.wlp P (swap_slots addr h) (fun _ s' => I s') s := by
  simp only [swap_slots, Action.wlp_bind, wlp_record_stack, wlp_stack_get, wlp_stack_set]
  exact closed.write _ _ (closed.put (closed.set_slot _ _ popped) _ _ _ _)

theorem swap_top_keeps (popped : I (s.record_reads
      [(h, 0), (h - 1, uint16 (s.stack_space (h - 1)).to_uint64), (h - 1, 0)])) :
    Action.wlp P (swap_top h) (fun _ s' => I s') s := by
  simp only [swap_top, Action.wlp_bind, wlp_record_stack, wlp_stack_get, wlp_assert_that, sub_zero]
  exact closed.swap_slots_keeps popped

theorem dupn_keeps [CodeQuiet P] (inv : I s) (popped : ¬ h % 2 ^ 16 < (s.analysis.code_at (pos + 1)).toNat + 1 →
      I (s.record_reads [(h, ((s.analysis.code_at (pos + 1)).toNat + 1 : Int) - 1)])) :
    Action.wlp P (dupn h pos) (fun _ s' => I s') s := by
  simp only [dupn, fail_with, Action.wlp_bind, Action.wlp_ite, Action.wlp_modify, Action.wlp_pure,
    wlp_read_code]
  exact ⟨fun _ => closed.set_status _ inv, fun deep => closed.dup_slot_keeps (popped deep)⟩

theorem swapn_keeps [CodeQuiet P] (inv : I s) (popped : ¬ h ≤ (s.analysis.code_at (pos + 1)).toNat + 1 →
      I (s.record_reads [(h, (s.analysis.code_at (pos + 1)).toNat + 1), (h, 0)])) :
    Action.wlp P (swapn h pos) (fun _ s' => I s') s := by
  simp only [swapn, fail_with, Action.wlp_bind, Action.wlp_ite, Action.wlp_modify, Action.wlp_pure,
    wlp_read_code, wlp_record_stack, wlp_stack_get, wlp_stack_set]
  refine ⟨fun _ => closed.set_status _ inv, fun deep => ?_⟩
  exact closed.write _ _ (closed.put (closed.set_slot _ _ (popped deep)) _ _ _ _)

theorem jump_impl_keeps (inv : I s) {dst : Word} : Action.wlp P (jump_impl dst) (fun _ s' => I s') s := by
  simp only [jump_impl, fail_with, Action.wlp_bind, Action.wlp_get, Action.wlp_ite,
    Action.wlp_emit_ignored (VectorQuiet.vector_access _ _), Action.wlp_modify, Action.wlp_pure]
  exact ⟨fun _ => closed.set_status _ inv, fun _ => ⟨fun _ => closed.set_status _ inv, fun _ => inv⟩⟩

theorem jump_keeps (popped : I (s.record_reads [(h, 0)])) :
    Action.wlp P (jump h pos) (fun _ s' => I s') s := by
  simp only [jump, Action.wlp_bind, wlp_record_stack, wlp_stack_get]
  exact closed.jump_impl_keeps popped

theorem jumpi_keeps (popped : I (s.record_reads [(h, 1), (h, 0)])) :
    Action.wlp P (jumpi h pos) (fun _ s' => I s') s := by
  simp only [jumpi, Action.wlp_bind, wlp_record_stack, wlp_stack_get, Action.wlp_ite, Action.wlp_pure]
  exact ⟨fun _ => closed.jump_impl_keeps popped, fun _ => popped⟩

theorem pc_keeps (inv : I s) : Action.wlp P (pc h pos) (fun _ s' => I s') s := by
  simp only [pc, Action.wlp_bind, Action.wlp_pure]
  exact closed.push_word_keeps inv

theorem gas_keeps (inv : I s) : Action.wlp P (gas h gas_left) (fun _ s' => I s') s := by
  simp only [gas, Action.wlp_bind, Action.wlp_pure]
  exact closed.push_word_keeps inv

theorem return_impl_keeps {status : StatusCode} (popped : I (s.record_reads [(h, 1), (h, 0)])) :
    Action.wlp P (return_impl status h gas_left) (fun _ s' => I s') s := by
  simp only [return_impl, Action.wlp_bind, wlp_record_stack, wlp_stack_get]
  refine closed.check_memory_keeps popped fun ok left s' checked inv' _ => ?_
  simp only [Action.wlp_bind, Action.wlp_ite, Action.wlp_modify, Action.wlp_pure]
  refine ⟨fun _ => inv', fun passed => closed.set_output _ _ inv' ?_⟩
  split
  · exact checked.within passed
  · rename_i empty
    exact Or.inl (not_not.mp empty)

/-! Instructions that only EOF code has. -/

omit closed in
omit [Gentle P] in
theorem rjump_keeps (inv : I s) [CodeQuiet P] : Action.wlp P (rjump h pos) (fun _ s' => I s') s := by
  simp [rjump, read_int16_be, read_uint16_be, inv]

omit closed in
theorem rjumpi_keeps [CodeQuiet P] (popped : I (s.record_reads [(h, 0)])) :
    Action.wlp P (rjumpi h pos) (fun _ s' => I s') s := by
  simp only [rjumpi, Action.wlp_bind, Action.wlp_ite, Action.wlp_pure, wlp_record_stack, wlp_stack_get]
  exact ⟨fun _ => rjump_keeps popped, fun _ => popped⟩

omit closed in
theorem rjumpv_keeps [CodeQuiet P] (popped : I (s.record_reads [(h, 0)])) :
    Action.wlp P (rjumpv h pos) (fun _ s' => I s') s := by
  simp only [rjumpv, read_int16_be, read_uint16_be, Action.wlp_bind, Action.wlp_ite, Action.wlp_pure,
    wlp_record_stack, wlp_stack_get, wlp_read_code]
  exact ⟨fun _ => popped, fun _ => popped⟩

theorem enter_section_keeps (inv : I s) {index : Nat} :
    Action.wlp P (enter_section index h) (fun _ s' => I s') s := by
  simp only [enter_section, Action.wlp_bind, Action.wlp_get,
    Action.wlp_emit_ignored (VectorQuiet.vector_access _ _), Action.wlp_ite, Action.wlp_modify,
    Action.wlp_pure]
  exact ⟨fun _ => closed.set_status _ inv, fun _ => inv⟩

omit closed in
theorem section_start_keeps (inv : I s) {header : EOF1Header} {index : Nat} :
    Action.wlp P (section_start header index) (fun _ s' => I s') s := by
  simp only [section_start, Action.wlp_bind, Action.wlp_emit_ignored (VectorQuiet.vector_access _ _),
    Action.wlp_pure]
  exact inv

theorem jumpf_keeps (inv : I s) [CodeQuiet P] : Action.wlp P (jumpf h pos) (fun _ s' => I s') s := by
  simp only [jumpf, read_uint16_be, Action.wlp_bind, Action.wlp_pure, wlp_read_code]
  refine (closed.enter_section_keeps inv).mono fun header s' inv' => ?_
  cases header with
  | none => exact Action.wlp_pure.mpr inv'
  | some header => exact section_start_keeps inv'

theorem dataload_keeps (popped : I (s.record_reads [(h, 0)])) :
    Action.wlp P (dataload h) (fun _ s' => I s') s := by
  simp only [dataload, Action.wlp_bind, Action.wlp_get, Action.wlp_ite, wlp_record_stack, wlp_stack_get,
    wlp_stack_set]
  exact ⟨fun _ => closed.set_slot _ _ popped, fun _ => closed.put popped _ _ _ _⟩

theorem dataloadn_keeps (inv : I s) [CodeQuiet P] : Action.wlp P (dataloadn h pos) (fun _ s' => I s') s := by
  simp only [dataloadn, read_uint16_be, push_word, Action.wlp_bind, Action.wlp_get, Action.wlp_pure,
    wlp_read_code, Action.wlp_emit_ignored (VectorQuiet.vector_access _ _), wlp_stack_set, wlp_record_stack]
  exact closed.put inv _ _ _ _

omit [Gentle P] in
theorem record_storage_keeps (inv : I s) [Obliging P] {address key value value_prev : Word} {is_write : Bool} :
    Action.wlp P (record_storage address key is_write value value_prev) (fun _ s' => I s') s := by
  simp only [record_storage, Action.wlp_bind, Action.wlp_get, Action.wlp_emit, Action.wlp_modify]
  exact fun _ => ⟨Obliging.storage_entry _, closed.push_storage _ _ _ _ _ inv⟩

omit closed in
theorem record_operands_keeps {n : Nat} {stack : Int}
    (popped : I (s.record_reads ((List.range n).map fun i : Nat => (stack, (i : Int))))) :
    Action.wlp P (record_operands n stack) (fun _ s' => I s') s := by
  refine (Action.wlp_forEach (I := fun done s' =>
    s' = s.record_reads (done.map fun i : Nat => (stack, (i : Int)))) ?_ rfl).mono ?_
  · rintro done i rest s' split rfl
    refine wlp_record_stack.mpr ?_
    rw [List.map_append, ExecutionState.record_reads, ExecutionState.record_reads, List.foldl_append]
    rfl
  · rintro _ s' rfl
    exact popped

omit closed in
theorem pop_call_operands_keeps (inv : I s) {Op : CallOp} {stack : Int} :
    Action.wlp P (pop_call_operands Op stack) (fun _ s' => I s') s := by
  simp [pop_call_operands, inv]

omit closed in
theorem pop_create_operands_keeps (inv : I s) {Op : CreateOp} {stack : Int} :
    Action.wlp P (pop_create_operands Op stack) (fun _ s' => I s') s := by
  simp [pop_create_operands, inv]

theorem finish_call_keeps (inv : I s) {o : CallOperands} {msg_gas : Int} {result : Result}
    (room : Within o.output_offset.to_uint64 o.output_size.to_uint64 s.memory.m_size) :
    Action.wlp P (finish_call o msg_gas result h gas_left) (fun _ s' => I s') s := by
  simp only [finish_call, host_store, Action.wlp_bind, Action.wlp_ite, Action.wlp_modify,
    Action.wlp_get, Action.wlp_emit, Action.wlp_pure, wlp_stack_set, wlp_record_stack]
  have recorded : I ((((s.set_return_data result.output_data).set_slot (h - 1 - 0)
      (.of_bool (decide (result.status_code = .SUCCESS)))).record h 0 true)) :=
    closed.put (closed.set_return_data _ inv) _ _ _ _
  refine ⟨fun _ assumed => ⟨Gentle.host_output _ _ _, ?_⟩, fun _ => closed.add_refund _ recorded⟩
  have within : Within o.output_offset.to_uint64
      (result.output_data.take (min o.output_size.to_uint64 result.output_data.length)).length s.memory.m_size := by
    refine room.part le_rfl ?_
    rw [List.length_take]
    omega
  exact wlp_memory_store_within within (closed.add_refund _ (closed.host_output recorded within assumed))

theorem finish_create_keeps (inv : I s) {msg_gas : Int} {result : Result} :
    Action.wlp P (finish_create msg_gas result h gas_left) (fun _ s' => I s') s := by
  simp only [finish_create, Action.wlp_bind, Action.wlp_ite, Action.wlp_modify, Action.wlp_pure,
    wlp_stack_set, wlp_record_stack]
  have answered := closed.set_return_data result.output_data (closed.add_refund result.gas_refund inv)
  exact ⟨fun _ => closed.put answered _ _ _ _, fun _ => closed.write _ _ answered⟩

theorem callf_keeps [CodeQuiet P] (calls : ∀ {s} call_stack, I s → I (s.set_call_stack call_stack)) (inv : I s) :
    Action.wlp P (callf h pos) (fun _ s' => I s') s := by
  simp only [callf, read_uint16_be, Action.wlp_bind, Action.wlp_pure, wlp_read_code]
  refine (closed.enter_section_keeps inv).mono fun header s' inv' => ?_
  cases header with
  | none => exact Action.wlp_pure.mpr inv'
  | some header =>
    simp only [fail_with, Action.wlp_bind, Action.wlp_get, Action.wlp_ite, Action.wlp_modify,
      Action.wlp_pure]
    exact ⟨fun _ => closed.set_status _ inv', fun _ => section_start_keeps (calls _ inv')⟩

omit closed in
theorem retf_keeps (calls : ∀ {s} call_stack, I s → I (s.set_call_stack call_stack)) (inv : I s) :
    Action.wlp P (retf h pos) (fun _ s' => I s') s := by
  simp only [retf, Action.wlp_bind, Action.wlp_get, Action.wlp_emit_ignored (VectorQuiet.vector_access _ _),
    Action.wlp_modify, Action.wlp_pure]
  exact calls _ inv

end Unread
end

section
variable {P : Action.Contract Event} [Obliging P] {I : ExecutionState → Prop} {host : Host H}
  [hosted : Hosted P host] {exec : Exec H} {h gas_left : Int}

/-- Part of the memory is read as input. -/
theorem wlp_read_input_within {α : Type} {k n : Nat} {f : Bytes → Instr H α} {Q : α → Exec H → Prop}
    (within : Within k n exec.state.memory.m_size) (each : ∀ input, Action.wlp P (f input) Q exec) :
    Action.wlp P (if n > 0 then on_state (memory_load k n) >>= f else pure [] >>= f) Q exec := by
  simp only [Action.wlp_ite, Action.wlp_bind, wlp_on_state, Action.wlp_pure]
  exact ⟨fun _ => wlp_memory_load_within within (each _), fun _ => each _⟩

namespace Unread
variable (closed : Unread P I)
include closed

omit [Obliging P] in
theorem get_tx_context_keeps (inv : I exec.state) {Q : TxContext → Exec H → Prop} (each : ∀ tx e, I e.state → Q tx e) :
    Action.wlp P (get_tx_context host) Q exec :=
  wlp_get_tx_context fun tx m_tx host' =>
    each tx ⟨exec.state.set_tx m_tx, host'⟩ (closed.set_tx m_tx inv)

theorem push_tx_keeps (inv : I exec.state) {field : TxContext → Word} :
    Action.wlp P (push_tx host field h) (fun _ e => I e.state) exec := by
  simp only [push_tx, Action.wlp_bind, lift_on_state]
  exact closed.get_tx_context_keeps inv fun tx e inv' => wlp_on_state.mpr (closed.push_word_keeps inv')

theorem blobhash_keeps (popped : I (exec.state.record_reads [(h, 0)])) :
    Action.wlp P (blobhash host h) (fun _ e => I e.state) exec := by
  simp only [blobhash, Action.wlp_bind, lift_on_state, wlp_on_state, wlp_record_stack, wlp_stack_get]
  refine closed.get_tx_context_keeps popped fun tx e inv' => ?_
  simp only [wlp_stack_set]
  exact closed.put inv' _ _ _ _

theorem blockhash_keeps (popped : I (exec.state.record_reads [(h, 0)])) :
    Action.wlp P (blockhash host h) (fun _ e => I e.state) exec := by
  simp only [blockhash, Action.wlp_bind, lift_on_state, wlp_on_state, wlp_record_stack, wlp_stack_get]
  refine closed.get_tx_context_keeps popped fun tx e inv' => ?_
  simp only [Action.wlp_ite, Action.wlp_pure, wlp_on_state, wlp_record_stack, wlp_stack_set,
    Action.wlp_bind]
  exact ⟨fun _ => wlp_ask (hosted.get_block_hash _) fun _ _ => closed.put inv' _ _ _ _,
    fun _ => closed.put inv' _ _ _ _⟩

theorem selfbalance_keeps (inv : I exec.state) : Action.wlp P (selfbalance host h) (fun _ e => I e.state) exec := by
  simp only [selfbalance, Action.wlp_bind, Action.wlp_get, lift_on_state]
  exact wlp_ask (hosted.get_balance _) fun v host' => wlp_on_state.mpr (closed.push_word_keeps inv)

theorem query_account_keeps {query : Address → Instr H Word} (popped : I (exec.state.record_reads [(h, 0)]))
    (asks : ∀ addr (e : Exec H) (Q : Word → Exec H → Prop),
      (∀ v host', Q v { e with host := host' }) → Action.wlp P (query addr) Q e) :
    Action.wlp P (query_account host query h gas_left) (fun _ e => I e.state) exec := by
  simp only [query_account, Action.wlp_bind, lift_on_state, wlp_on_state, wlp_record_stack, wlp_stack_get]
  refine wlp_charge_access (by decide) fun ok left host' _ => ?_
  simp only [Action.wlp_ite, Action.wlp_pure, wlp_on_state, wlp_record_stack, wlp_stack_set,
    Action.wlp_bind]
  exact ⟨fun _ => popped, fun _ => asks _ _ _ fun v host'' => closed.put popped _ _ _ _⟩

theorem extcodecopy_keeps (popped : I (exec.state.record_reads [(h, 3), (h, 2), (h, 1), (h, 0)])) :
    Action.wlp P (extcodecopy host h gas_left) (fun _ e => I e.state) exec := by
  simp only [extcodecopy, Action.wlp_bind, lift_on_state, wlp_on_state, wlp_record_stack, wlp_stack_get,
    ExecutionState.record_stack_space]
  refine closed.check_memory_keeps popped fun ok left s' checked inv' _ => ?_
  simp only [Action.wlp_ite, Action.wlp_bind, Action.wlp_pure]
  refine ⟨fun _ => inv', fun passed => ⟨fun _ => inv', fun _ => ?_⟩⟩
  have within := checked.within passed
  refine wlp_charge_access (by decide) fun ok left host' _ => ?_
  simp only [wlp_on_state, host_store, Action.wlp_bind, Action.wlp_get, Action.wlp_emit]
  refine ⟨fun _ => inv', fun _ => ⟨fun _ => wlp_ask (hosted.copy_code _ _ _) fun code host'' => ?_, fun _ => inv'⟩⟩
  intro code_assumed
  have copy_within : Within (exec.state.stack_space (h - 1 - 1 - 0)).to_uint64
      (code.take (exec.state.stack_space (h - 3 - 1 - 0)).to_uint64).length s'.memory.m_size := by
    refine within.part le_rfl ?_
    rw [List.length_take]
    omega
  have copied := closed.host_output inv' copy_within code_assumed
  refine ⟨Gentle.host_output _ _ _, wlp_memory_store_within copy_within
    ⟨fun _ zeros_assumed => ⟨Gentle.host_output _ _ _, ?_⟩, fun _ => copied⟩⟩
  refine wlp_memory_store_within ?_ (closed.host_output copied ?_ zeros_assumed)
  all_goals
    refine Within.part within (by omega) ?_
    rw [List.length_take, List.length_replicate]
    omega

theorem sload_keeps (popped : I (exec.state.record_reads [(h, 0)])) :
    Action.wlp P (sload host h gas_left) (fun _ e => I e.state) exec := by
  simp only [sload, Action.wlp_bind, Action.wlp_get, lift_on_state, wlp_on_state, wlp_record_stack,
    wlp_stack_get]
  refine wlp_storage_is_cold fun cold host' => ?_
  simp only [Action.wlp_ite, Action.wlp_bind, Action.wlp_pure, wlp_on_state, wlp_record_stack,
    wlp_stack_set]
  refine ⟨fun _ => popped, fun _ => wlp_ask (hosted.get_storage _ _) fun value host'' => ?_⟩
  exact (closed.record_storage_keeps popped).mono fun _ s' inv' => closed.put inv' _ _ _ _

theorem sstore_keeps (inv : I exec.state) (popped : I (exec.state.record_reads [(h, 1), (h, 0)])) :
    Action.wlp P (sstore host h gas_left) (fun _ e => I e.state) exec := by
  simp only [sstore, Action.wlp_bind, Action.wlp_get, Action.wlp_ite, Action.wlp_pure, lift_on_state,
    wlp_on_state, wlp_record_stack, wlp_stack_get]
  refine ⟨fun _ => inv, fun _ => ⟨fun _ => inv, fun _ => ?_⟩⟩
  refine wlp_storage_is_cold fun cold _ => wlp_ask (hosted.get_storage _ _) fun value_prev _ => ?_
  refine (closed.record_storage_keeps popped).mono fun _ s' inv' => ?_
  refine wlp_ask (hosted.set_storage _ _ _) fun status _ => ⟨fun _ => inv', fun _ => ?_⟩
  exact Action.wlp_modify.mpr (closed.add_refund _ inv')

theorem tload_keeps (popped : I (exec.state.record_reads [(h, 0)])) :
    Action.wlp P (tload host h) (fun _ e => I e.state) exec := by
  simp only [tload, Action.wlp_bind, Action.wlp_get, lift_on_state, wlp_on_state, wlp_record_stack,
    wlp_stack_get]
  refine wlp_ask (hosted.get_transient_storage _ _) fun value host' => ?_
  simp only [wlp_stack_set]
  exact closed.put popped _ _ _ _

omit closed in
theorem tstore_keeps (inv : I exec.state) (popped : I (exec.state.record_reads [(h, 1), (h, 0)])) :
    Action.wlp P (tstore host h gas_left) (fun _ e => I e.state) exec := by
  simp only [tstore, Action.wlp_bind, Action.wlp_get, Action.wlp_ite, Action.wlp_pure, lift_on_state,
    wlp_on_state, wlp_record_stack, wlp_stack_get]
  exact ⟨fun _ => inv, fun _ => wlp_ask (hosted.set_transient_storage _ _ _) fun _ host' => popped⟩

theorem make_call_keeps (inv : I exec.state) {Op : CallOp} {o : CallOperands} {msg : Message}
    (room : Within o.output_offset.to_uint64 o.output_size.to_uint64 exec.state.memory.m_size) :
    Action.wlp P (make_call host Op o msg h gas_left) (fun _ e => I e.state) exec := by
  simp only [make_call, Action.wlp_bind, lift_on_state]
  refine wlp_light_failure fun failed host' => ?_
  simp only [Action.wlp_bind, Action.wlp_ite, Action.wlp_emit, Action.wlp_pure, wlp_on_state]
  exact ⟨fun _ _ => ⟨Obliging.light_failure _, inv⟩, fun _ _ =>
    ⟨Obliging.host_call _ _ _, wlp_ask (hosted.call _) fun result _ => closed.finish_call_keeps inv room⟩⟩

theorem call_impl_keeps (Op : CallOp)
    (popped : I (exec.state.record_reads ((List.range Op.num_stack_read).map fun i : Nat => (h, (i : Int))))) :
    Action.wlp P (call_impl host Op h gas_left) (fun _ e => I e.state) exec := by
  simp only [call_impl, Action.wlp_bind, Action.wlp_get, lift_on_state, wlp_on_state]
  refine (record_operands_keeps popped).mono fun _ s₁ inv₁ => ?_
  refine (pop_call_operands_keeps inv₁).mono fun o s₂ inv₂ => ?_
  simp only [wlp_stack_set, Action.wlp_modify]
  have cleared : I ((s₂.set_slot (h - Op.num_stack_read + 1 - 1 - 0) 0).set_return_data []) := by
    apply_rules [closed.set_slot, closed.set_return_data, inv₂]
  refine wlp_charge_access (by decide) fun ok left host' _ => ?_
  refine Action.wlp_ite.mpr ⟨fun _ => Action.wlp_pure.mpr cleared, fun _ => ?_⟩
  rw [Action.wlp_bind, wlp_on_state]
  refine closed.check_memory_keeps cleared fun ok left s₃ input inv₃ _ => ?_
  refine Action.wlp_ite.mpr ⟨fun _ => Action.wlp_pure.mpr inv₃, fun input_passed => ?_⟩
  rw [Action.wlp_bind, wlp_on_state]
  refine closed.check_memory_keeps inv₃ fun ok left s₄ output inv₄ _ => ?_
  refine Action.wlp_ite.mpr ⟨fun _ => Action.wlp_pure.mpr inv₄, fun output_passed => ?_⟩
  refine wlp_read_input_within ((input.within input_passed).imp_right (·.trans output.larger)) fun _ => ?_
  refine Action.wlp_ite.mpr ⟨fun _ => Action.wlp_pure.mpr inv₄, fun _ => ?_⟩
  rw [Action.wlp_bind]
  refine wlp_call_cost fun cost host' _ => ?_
  refine Action.wlp_ite.mpr ⟨fun _ => Action.wlp_pure.mpr inv₄, fun _ => ?_⟩
  split
  · exact Action.wlp_pure.mpr inv₄
  · exact closed.make_call_keeps inv₄ (output.within output_passed)

theorem create_impl_keeps (Op : CreateOp) (inv : I exec.state)
    (popped : I (exec.state.record_reads ((List.range Op.num_stack_read).map fun i : Nat => (h, (i : Int))))) :
    Action.wlp P (create_impl host Op h gas_left) (fun _ e => I e.state) exec := by
  simp only [create_impl, Action.wlp_bind, Action.wlp_get]
  refine Action.wlp_ite.mpr ⟨fun _ => Action.wlp_pure.mpr inv, fun _ => ?_⟩
  simp only [Action.wlp_bind, lift_on_state, wlp_on_state]
  refine (record_operands_keeps popped).mono fun _ s₁ inv₁ => ?_
  refine (pop_create_operands_keeps inv₁).mono fun o s₂ inv₂ => ?_
  simp only [wlp_stack_set, Action.wlp_modify]
  have cleared : I ((s₂.set_slot (h - Op.num_stack_read + 1 - 1 - 0) 0).set_return_data []) := by
    apply_rules [closed.set_slot, closed.set_return_data, inv₂]
  refine closed.check_memory_keeps cleared fun ok left s₃ checked inv₃ _ => ?_
  refine Action.wlp_ite.mpr ⟨fun _ => Action.wlp_pure.mpr inv₃, fun passed => ?_⟩
  refine Action.wlp_ite.mpr ⟨fun _ => Action.wlp_pure.mpr inv₃, fun _ => ?_⟩
  refine Action.wlp_ite.mpr ⟨fun _ => Action.wlp_pure.mpr inv₃, fun _ => ?_⟩
  rw [Action.wlp_bind]
  refine wlp_create_light_failure fun failed host' => ?_
  refine Action.wlp_ite.mpr ⟨fun _ => ?_, fun _ => ?_⟩
  · rw [Action.wlp_bind, Action.wlp_emit]
    exact fun _ => ⟨Obliging.light_failure _, Action.wlp_pure.mpr inv₃⟩
  · refine wlp_read_input_within (checked.within passed) fun input => ?_
    rw [Action.wlp_bind]
    exact wlp_ask (hosted.call _) fun result host'' => wlp_on_state.mpr (closed.finish_create_keeps inv₃)

theorem selfdestruct_keeps (inv : I exec.state) (popped : I (exec.state.record_reads [(h, 0)])) :
    Action.wlp P (selfdestruct host h gas_left) (fun _ e => I e.state) exec := by
  simp only [selfdestruct, Action.wlp_bind, Action.wlp_get]
  refine Action.wlp_ite.mpr ⟨fun _ => Action.wlp_pure.mpr inv, fun _ => ?_⟩
  simp only [Action.wlp_bind, lift_on_state, wlp_on_state, wlp_record_stack, wlp_stack_get]
  refine wlp_charge_access (by decide) fun ok left host' _ => ?_
  refine Action.wlp_ite.mpr ⟨fun _ => Action.wlp_pure.mpr popped, fun _ => ?_⟩
  rw [Action.wlp_bind]
  refine wlp_charge_beneficiary fun ok left host' _ => ?_
  refine Action.wlp_ite.mpr ⟨fun _ => Action.wlp_pure.mpr popped, fun _ => ?_⟩
  rw [Action.wlp_bind]
  refine wlp_ask (hosted.selfdestruct _ _) fun destroyed host' => Action.wlp_ite.mpr ⟨fun _ => ?_, fun _ => ?_⟩
  · simp only [Action.wlp_bind, wlp_on_state, Action.wlp_modify, Action.wlp_pure]
    exact closed.add_refund _ popped
  · exact Action.wlp_pure.mpr popped

end Unread
end

/-- The instructions that store, or record, bytes of the memory by themselves. -/
def Opcode.on_memory : Opcode → Bool
  | KECCAK256 | CALLDATACOPY | CODECOPY | RETURNDATACOPY | MLOAD | MLOAD8 | MLOAD16 | MLOAD32 | MLOAD64
  | MSTORE | MSTORE8 | MSTORE16 | MSTORE32 | MSTORE64 | MCOPY | DATACOPY => true
  | _ => false

/-- The instructions that read bytes of the code. -/
def Opcode.reads_code : Opcode → Bool
  | PUSH _ | DUPN | SWAPN | RJUMP | RJUMPI | RJUMPV | CALLF | JUMPF | DATALOADN => true
  | _ => false

/-- The instructions that ask the host. -/
def Opcode.asks_host : Opcode → Bool
  | BALANCE | ORIGIN | GASPRICE | EXTCODESIZE | EXTCODECOPY | EXTCODEHASH | BLOCKHASH | COINBASE | TIMESTAMP
  | NUMBER | PREVRANDAO | GASLIMIT | CHAINID | SELFBALANCE | BASEFEE | BLOBHASH | BLOBBASEFEE | SLOAD | SSTORE
  | TLOAD | TSTORE | CREATE | CALL | CALLCODE | DELEGATECALL | CREATE2 | STATICCALL | SELFDESTRUCT => true
  | _ => false

/-- The instructions that change the call stack. -/
def Opcode.on_call_stack : Opcode → Bool
  | CALLF | RETF => true
  | _ => false

/-- What an instruction records as read, in order. `DUPN` and `SWAPN` look at their depth first, `DUP_TOP` and
`SWAP_TOP` do not. -/
def Opcode.stack_reads (op : Opcode) (h pos : Int) (s : ExecutionState) : List (Int × Int) :=
  let top := (s.stack_space (h - 1)).to_uint64
  let imm : Int := (s.analysis.code_at (pos + 1)).toNat + 1
  match op with
  | ISZERO | NOT | CALLDATALOAD | JUMP | RJUMPI | RJUMPV | DATALOAD | MLOAD | MLOAD8 | MLOAD16 | MLOAD32 | MLOAD64
  | BALANCE | EXTCODESIZE | EXTCODEHASH | BLOCKHASH | BLOBHASH | SLOAD | TLOAD | SELFDESTRUCT => [(h, 0)]
  | ADD | MUL | SUB | DIV | SDIV | MOD | SMOD | SIGNEXTEND | LT | GT | SLT | SGT | EQ | AND | OR | XOR | BYTE | SHL
  | SHR | SAR | EXP | KECCAK256 | JUMPI | RETURN | REVERT | MSTORE | MSTORE8 | MSTORE16 | MSTORE32 | MSTORE64
  | SSTORE | TSTORE => [(h, 1), (h, 0)]
  | ADDMOD | MULMOD | CALLDATACOPY | CODECOPY | RETURNDATACOPY | MCOPY | DATACOPY => [(h, 2), (h, 1), (h, 0)]
  | EXTCODECOPY => [(h, 3), (h, 2), (h, 1), (h, 0)]
  | CREATE => (List.range 3).map fun i : Nat => (h, (i : Int))
  | CREATE2 => (List.range 4).map fun i : Nat => (h, (i : Int))
  | DELEGATECALL | STATICCALL => (List.range 6).map fun i : Nat => (h, (i : Int))
  | CALL | CALLCODE => (List.range 7).map fun i : Nat => (h, (i : Int))
  | DUP n => [(h, (n.val + 1 : Nat) - 1)]
  | SWAP n => [(h, (n.val + 1 : Nat)), (h, 0)]
  | DUPN => if h % 2 ^ 16 < imm then [] else [(h, imm - 1)]
  | SWAPN => if h ≤ imm then [] else [(h, imm), (h, 0)]
  | DUP_TOP => [(h, 0), (h - 1, int32 top - 1)]
  | SWAP_TOP => [(h, 0), (h - 1, uint16 top), (h - 1, 0)]
  | _ => []

section
variable {P : Action.Contract Event} {I : ExecutionState → Prop} {host : Host H} {exec : Exec H}
  {op : Opcode} {h pos left : Int}

theorem wlp_on_state_keeps {α : Type} {m : Local α} (keeps : Action.wlp P m (fun _ s => I s) exec.state) :
    Action.wlp P (on_state m) (fun _ e => I e.state ∧ e.host = exec.host) exec :=
  wlp_on_state.mpr (keeps.mono fun _ _ inv => ⟨inv, rfl⟩)

/-- Instructions that do not ask the host, nor work on the memory, keep an invariant that is not about
what they change. -/
theorem Unread.local_step [Ethash] [Gentle P] (closed : Unread P I)
    (calls : op.on_call_stack = true → ∀ {s} call_stack, I s → I (s.set_call_stack call_stack))
    (asks : op.asks_host = false) (apart : op.on_memory = false) (code : op.reads_code = true → CodeQuiet P)
    (inv : I exec.state) (popped : I (exec.state.record_reads (op.stack_reads h pos exec.state))) :
    (map_opcodes host op).Leaves P pos h left (fun e => I e.state ∧ e.host = exec.host) exec := by
  cases op with
  | KECCAK256 | CALLDATACOPY | CODECOPY | RETURNDATACOPY | MLOAD | MLOAD8 | MLOAD16 | MLOAD32 | MLOAD64
  | MSTORE | MSTORE8 | MSTORE16 | MSTORE32 | MSTORE64 | MCOPY | DATACOPY => exact Bool.noConfusion apart
  | BALANCE | ORIGIN | GASPRICE | EXTCODESIZE | EXTCODECOPY | EXTCODEHASH | BLOCKHASH | COINBASE | TIMESTAMP
  | NUMBER | PREVRANDAO | GASLIMIT | CHAINID | SELFBALANCE | BASEFEE | BLOBHASH | BLOBBASEFEE | SLOAD | SSTORE
  | TLOAD | TSTORE | CREATE | CALL | CALLCODE | DELEGATECALL | CREATE2 | STATICCALL | SELFDESTRUCT =>
    exact Bool.noConfusion asks
  | STOP | INVALID | POP | JUMPDEST => exact wlp_on_state_keeps (Action.wlp_pure.mpr inv)
  | ADD | MUL | SUB | DIV | SDIV | MOD | SMOD | SIGNEXTEND | LT | GT | SLT | SGT | EQ | AND | OR
  | XOR | BYTE | SHL | SHR | SAR => exact wlp_on_state_keeps (closed.binary_keeps popped)
  | ISZERO | NOT => exact wlp_on_state_keeps (closed.unary_keeps popped)
  | ADDMOD => exact wlp_on_state_keeps (closed.addmod_keeps popped)
  | MULMOD => exact wlp_on_state_keeps (closed.mulmod_keeps popped)
  | EXP => exact wlp_on_state_keeps (closed.exp_keeps popped)
  | ADDRESS | CALLER | CALLVALUE | CALLDATASIZE | CODESIZE | RETURNDATASIZE | MSIZE | DATASIZE =>
    exact wlp_on_state_keeps (Action.wlp_bind.mpr (Action.wlp_get.mpr (closed.push_word_keeps inv)))
  | PUSH0 => exact wlp_on_state_keeps (closed.push_word_keeps inv)
  | CALLDATALOAD => exact wlp_on_state_keeps (closed.calldataload_keeps popped)
  | JUMP => exact wlp_on_state_keeps (closed.jump_keeps popped)
  | JUMPI => exact wlp_on_state_keeps (closed.jumpi_keeps popped)
  | PC => exact wlp_on_state_keeps (closed.pc_keeps inv)
  | GAS => exact wlp_on_state_keeps (closed.gas_keeps inv)
  | PUSH n =>
    have := code rfl
    exact wlp_on_state_keeps (closed.push_keeps inv)
  | DUP n => exact wlp_on_state_keeps (closed.dup_slot_keeps popped)
  | DUP_TOP => exact wlp_on_state_keeps (closed.dup_top_keeps popped)
  | SWAP n => exact wlp_on_state_keeps (closed.swap_slots_keeps popped)
  | SWAP_TOP => exact wlp_on_state_keeps (closed.swap_top_keeps popped)
  | LOG n =>
    by_cases one : n.val = 1
    · obtain rfl : n = 1 := Fin.ext one
      exact wlp_on_state_keeps (Action.wlp_pure.mpr inv)
    · simp only [map_opcodes, if_neg one]
      trivial
  | PRINTF => trivial
  | DUPN =>
    have := code rfl
    exact wlp_on_state_keeps (closed.dupn_keeps inv fun deep =>
      (if_neg deep : Opcode.DUPN.stack_reads h pos exec.state = _) ▸ popped)
  | SWAPN =>
    have := code rfl
    exact wlp_on_state_keeps (closed.swapn_keeps inv fun deep =>
      (if_neg deep : Opcode.SWAPN.stack_reads h pos exec.state = _) ▸ popped)
  | RJUMP =>
    have := code rfl
    exact wlp_on_state_keeps (Unread.rjump_keeps inv)
  | RJUMPI =>
    have := code rfl
    exact wlp_on_state_keeps (Unread.rjumpi_keeps popped)
  | RJUMPV =>
    have := code rfl
    exact wlp_on_state_keeps (Unread.rjumpv_keeps popped)
  | CALLF =>
    have := code rfl
    exact wlp_on_state_keeps (closed.callf_keeps (calls rfl) inv)
  | RETF => exact wlp_on_state_keeps (Unread.retf_keeps (calls rfl) inv)
  | JUMPF =>
    have := code rfl
    exact wlp_on_state_keeps (closed.jumpf_keeps inv)
  | DATALOAD => exact wlp_on_state_keeps (closed.dataload_keeps popped)
  | DATALOADN =>
    have := code rfl
    exact wlp_on_state_keeps (closed.dataloadn_keeps inv)
  | RETURN | REVERT => exact wlp_on_state_keeps (closed.return_impl_keeps popped)

/-- All instructions that do not work on the memory keep such an invariant. -/
theorem Unread.step [Ethash] [Obliging P] [hosted : Hosted P host] (closed : Unread P I)
    (calls : op.on_call_stack = true → ∀ {s} call_stack, I s → I (s.set_call_stack call_stack))
    (apart : op.on_memory = false) (code : op.reads_code = true → CodeQuiet P) (inv : I exec.state)
    (popped : I (exec.state.record_reads (op.stack_reads h pos exec.state))) :
    (map_opcodes host op).Keeps P pos h left I exec := by
  by_cases asks : op.asks_host = false
  · exact (closed.local_step calls asks apart code inv popped).keeps fun _ kept => kept.1
  · cases op with
    | ORIGIN | GASPRICE | COINBASE | TIMESTAMP | NUMBER | PREVRANDAO | GASLIMIT | CHAINID | BASEFEE
    | BLOBBASEFEE => exact closed.push_tx_keeps inv
    | BALANCE => exact closed.query_account_keeps popped fun _ _ _ each => wlp_ask (hosted.get_balance _) each
    | EXTCODEHASH => exact closed.query_account_keeps popped fun _ _ _ each => wlp_ask (hosted.get_code_hash _) each
    | EXTCODESIZE =>
      refine closed.query_account_keeps popped fun _ _ _ each => ?_
      exact Action.wlp_bind.mpr (wlp_ask (hosted.get_code_size _) fun _ _ => Action.wlp_pure.mpr (each _ _))
    | EXTCODECOPY => exact closed.extcodecopy_keeps popped
    | BLOCKHASH => exact closed.blockhash_keeps popped
    | BLOBHASH => exact closed.blobhash_keeps popped
    | SELFBALANCE => exact closed.selfbalance_keeps inv
    | SLOAD => exact closed.sload_keeps popped
    | SSTORE => exact closed.sstore_keeps inv popped
    | TLOAD => exact closed.tload_keeps popped
    | TSTORE => exact Unread.tstore_keeps inv popped
    | CREATE => exact closed.create_impl_keeps .CREATE inv popped
    | CREATE2 => exact closed.create_impl_keeps .CREATE2 inv popped
    | CALL => exact closed.call_impl_keeps .CALL popped
    | CALLCODE => exact closed.call_impl_keeps .CALLCODE popped
    | DELEGATECALL => exact closed.call_impl_keeps .DELEGATECALL popped
    | STATICCALL => exact closed.call_impl_keeps .STATICCALL popped
    | SELFDESTRUCT => exact closed.selfdestruct_keeps inv popped
    | _ => exact absurd rfl asks

end

/-! Invariants that are not about the memory either. -/

class Plain (P : Action.Contract Event) : Prop extends Gentle P, MemoryQuiet P where
  memory_entry (o : rw_operation) (memory : Memory) : P.ensures (.memory_entry o memory)

class Unwatched (P : Action.Contract Event) : Prop extends Lenient P, Plain P

structure WideInert (P : Action.Contract Event) (I : ExecutionState → Prop) : Prop extends Inert P I where
  store {s : ExecutionState} (dst : Nat) (data : Bytes) (inv : I s) : I (s.set_memory (s.memory.store dst data))
  push_memory {s : ExecutionState} (address : Word) (is_write : Bool) (value : Word) (inv : I s) :
    I (s.push_rw (memory_operation s.call_id address s.rw_trace.length is_write value))

structure Wide (P : Action.Contract Event) (I : ExecutionState → Prop) : Prop extends WideInert P I, Closed P I

/-- It may be about the items of the stack that are recorded as read. -/
structure WideUnread (P : Action.Contract Event) (I : ExecutionState → Prop) : Prop extends Unread P I where
  store {s : ExecutionState} (dst : Nat) (data : Bytes) (inv : I s) : I (s.set_memory (s.memory.store dst data))
  push_memory {s : ExecutionState} (address : Word) (is_write : Bool) (value : Word) (inv : I s) :
    I (s.push_rw (memory_operation s.call_id address s.rw_trace.length is_write value))

theorem WideInert.unread {P : Action.Contract Event} {I : ExecutionState → Prop} (wide : WideInert P I) :
    WideUnread P I :=
  { wide.toInert.unread with store := wide.store, push_memory := wide.push_memory }

namespace WideUnread
section
variable {P : Action.Contract Event} [Plain P] {I : ExecutionState → Prop} {s : ExecutionState}
  {h gas_left : Int} (wide : WideUnread P I)
include wide

theorem record_bytes_keeps (inv : I s) {address : Nat → Word} {is_write : Bool} {data : Bytes}
    {Q : Unit → ExecutionState → Prop} (each : ∀ s', I s' → Q () s') :
    Action.wlp P (record_bytes address is_write data) Q s := by
  refine (Action.wlp_forEach (I := fun _ s' => I s') ?_ inv).mono fun _ => each
  intro done b rest s' split inv'
  simp only [record_memory, Action.wlp_bind, Action.wlp_get, wlp_assert_that, Action.wlp_emit,
    Action.wlp_modify]
  exact fun _ => ⟨Plain.memory_entry _ _, wide.push_memory _ _ _ inv'⟩

theorem keccak256_keeps [Ethash] (popped : I (s.record_reads [(h, 1), (h, 0)])) :
    Action.wlp P (keccak256 h gas_left) (fun _ s' => I s') s := by
  simp only [keccak256, Action.wlp_bind, wlp_record_stack, wlp_stack_get]
  refine wide.check_memory_keeps popped fun ok left s' _ inv' _ => ?_
  simp only [Action.wlp_bind, Action.wlp_ite, Action.wlp_pure, wlp_memory_load, wlp_stack_set,
    wlp_record_stack]
  have hashed {s'' : ExecutionState} (inv'' : I s'') (v : Word) :
      I ((s''.set_slot (h - 1 - 1 - 0) v).record (h - 1) 0 true) :=
    wide.put inv'' _ _ _ _
  refine ⟨fun _ => inv', fun _ => ⟨fun _ => inv', fun _ => ⟨fun _ => ?_, fun _ => ?_⟩⟩⟩
  · exact wide.record_bytes_keeps inv' fun s'' inv'' => ⟨fun _ => hashed inv'' _, fun _ => hashed inv'' _⟩
  · exact ⟨fun _ => hashed inv' _, fun _ => hashed inv' _⟩

theorem copy_to_memory_keeps {source : Bytes} (popped : I (s.record_reads [(h, 2), (h, 1), (h, 0)])) :
    Action.wlp P (copy_to_memory source h gas_left) (fun _ s' => I s') s := by
  simp only [copy_to_memory, copy_padded, Action.wlp_bind, wlp_record_stack, wlp_stack_get]
  refine wide.check_memory_keeps popped fun ok left s' _ inv' _ => ?_
  simp only [Action.wlp_bind, Action.wlp_ite, Action.wlp_pure, wlp_memory_load, wlp_memory_store]
  refine ⟨fun _ => inv', fun _ => ⟨fun _ => inv', fun _ => ⟨fun _ => ⟨fun _ => ?_, fun _ => ?_⟩,
    fun _ => ⟨fun _ => ?_, fun _ => ?_⟩⟩⟩⟩
  · exact wide.record_bytes_keeps (wide.store _ _ (wide.store _ _ inv')) fun _ h => h
  · exact wide.record_bytes_keeps (wide.store _ _ inv') fun _ h => h
  · exact wide.record_bytes_keeps (wide.store _ _ inv') fun _ h => h
  · exact wide.record_bytes_keeps inv' fun _ h => h

theorem calldatacopy_keeps (popped : I (s.record_reads [(h, 2), (h, 1), (h, 0)])) :
    Action.wlp P (calldatacopy h gas_left) (fun _ s' => I s') s := by
  rw [calldatacopy, Action.wlp_bind, Action.wlp_get]
  exact wide.copy_to_memory_keeps popped

theorem codecopy_keeps (popped : I (s.record_reads [(h, 2), (h, 1), (h, 0)])) :
    Action.wlp P (codecopy h gas_left) (fun _ s' => I s') s := by
  rw [codecopy, Action.wlp_bind, Action.wlp_get]
  exact wide.copy_to_memory_keeps popped

theorem returndatacopy_keeps (popped : I (s.record_reads [(h, 2), (h, 1), (h, 0)])) :
    Action.wlp P (returndatacopy h gas_left) (fun _ s' => I s') s := by
  simp only [returndatacopy, Action.wlp_bind, Action.wlp_get, wlp_record_stack, wlp_stack_get]
  refine wide.check_memory_keeps popped fun ok left s' _ inv' _ => ?_
  simp only [Action.wlp_bind, Action.wlp_ite, Action.wlp_pure, wlp_memory_load, wlp_memory_store]
  exact ⟨fun _ => inv', fun _ => ⟨fun _ => inv', fun _ => ⟨fun _ => inv', fun _ => ⟨fun _ => inv',
    fun _ => ⟨fun _ => wide.record_bytes_keeps (wide.store _ _ inv') fun _ h => h, fun _ => inv'⟩⟩⟩⟩⟩

theorem mload_keeps (popped : I (s.record_reads [(h, 0)])) : Action.wlp P (mload h gas_left) (fun _ s' => I s') s := by
  simp only [mload, Action.wlp_bind, wlp_record_stack, wlp_stack_get]
  refine wlp_check_memory_size (by omega) fun ok left s' checked => ?_
  have inv' := wide.checked popped checked
  simp only [Action.wlp_bind, Action.wlp_ite, Action.wlp_pure, wlp_memory_load, wlp_stack_set,
    wlp_record_stack]
  refine ⟨fun _ => inv', fun _ => wide.record_bytes_keeps (wide.set_slot _ _ inv') ?_⟩
  exact fun s'' inv'' => wide.write _ _ inv''

theorem mstore_keeps {width : Nat} (popped : I (s.record_reads [(h, 1), (h, 0)])) :
    Action.wlp P (mstore width h gas_left) (fun _ s' => I s') s := by
  simp only [mstore, Action.wlp_bind, wlp_record_stack, wlp_stack_get]
  refine wlp_check_memory_size (by omega) fun ok left s' checked => ?_
  have inv' := wide.checked popped checked
  simp only [Action.wlp_bind, Action.wlp_ite, Action.wlp_pure, wlp_memory_load, wlp_memory_store]
  exact ⟨fun _ => inv', fun _ => wide.record_bytes_keeps (wide.store _ _ inv') fun _ h => h⟩

theorem mcopy_keeps (popped : I (s.record_reads [(h, 2), (h, 1), (h, 0)])) :
    Action.wlp P (mcopy h gas_left) (fun _ s' => I s') s := by
  simp only [mcopy, Action.wlp_bind, wlp_record_stack, wlp_stack_get]
  refine wide.check_memory_keeps popped fun ok left s' _ inv' _ => ?_
  simp only [Action.wlp_bind, Action.wlp_ite, Action.wlp_pure, wlp_memory_load, wlp_memory_store]
  exact ⟨fun _ => inv', fun _ => ⟨fun _ => inv', fun _ => ⟨fun _ => wide.store _ _ inv', fun _ => inv'⟩⟩⟩

theorem datacopy_keeps (popped : I (s.record_reads [(h, 2), (h, 1), (h, 0)])) :
    Action.wlp P (datacopy h gas_left) (fun _ s' => I s') s := by
  simp only [datacopy, Action.wlp_bind, Action.wlp_get, wlp_record_stack, wlp_stack_get]
  refine wide.check_memory_keeps popped fun ok left s' _ inv' _ => ?_
  simp only [Action.wlp_bind, Action.wlp_ite, Action.wlp_pure, wlp_memory_load, wlp_memory_store]
  refine ⟨fun _ => inv', fun _ => ⟨fun _ => inv', fun _ => ⟨fun _ => ?_, fun _ => ⟨fun _ => ?_, fun _ => inv'⟩⟩⟩⟩
  · refine wide.record_bytes_keeps (wide.store _ _ inv') fun s'' inv'' => ⟨fun _ => ?_, fun _ => inv''⟩
    exact wide.record_bytes_keeps (wide.store _ _ inv'') fun _ h => h
  · exact wide.record_bytes_keeps (wide.store _ _ inv') fun _ h => h

end

variable {P : Action.Contract Event} {I : ExecutionState → Prop} {host : Host H} {exec : Exec H}
  {op : Opcode} {h pos left : Int}

theorem memory_step [Ethash] [Plain P] (wide : WideUnread P I) (on_memory : ¬ op.on_memory = false)
    (popped : I (exec.state.record_reads (op.stack_reads h pos exec.state))) :
    (map_opcodes host op).Leaves P pos h left (fun e => I e.state ∧ e.host = exec.host) exec := by
  cases op with
  | KECCAK256 => exact wlp_on_state_keeps (wide.keccak256_keeps popped)
  | CALLDATACOPY => exact wlp_on_state_keeps (wide.calldatacopy_keeps popped)
  | CODECOPY => exact wlp_on_state_keeps (wide.codecopy_keeps popped)
  | RETURNDATACOPY => exact wlp_on_state_keeps (wide.returndatacopy_keeps popped)
  | MLOAD | MLOAD8 | MLOAD16 | MLOAD32 | MLOAD64 => exact wlp_on_state_keeps (wide.mload_keeps popped)
  | MSTORE | MSTORE8 | MSTORE16 | MSTORE32 | MSTORE64 => exact wlp_on_state_keeps (wide.mstore_keeps popped)
  | MCOPY => exact wlp_on_state_keeps (wide.mcopy_keeps popped)
  | DATACOPY => exact wlp_on_state_keeps (wide.datacopy_keeps popped)
  | _ => exact absurd rfl on_memory

/-- The items that an instruction records as read are those of its list. -/
theorem step [Ethash] [Obliging P] [Plain P] [Hosted P host] (wide : WideUnread P I)
    (calls : op.on_call_stack = true → ∀ {s} call_stack, I s → I (s.set_call_stack call_stack))
    (code : op.reads_code = true → CodeQuiet P) (inv : I exec.state)
    (popped : I (exec.state.record_reads (op.stack_reads h pos exec.state))) :
    (map_opcodes host op).Keeps P pos h left I exec := by
  by_cases apart : op.on_memory = false
  · exact wide.toUnread.step calls apart code inv popped
  · exact (wide.memory_step apart popped).keeps fun _ kept => kept.1

end WideUnread

namespace WideInert
variable {P : Action.Contract Event} {I : ExecutionState → Prop} {host : Host H} {exec : Exec H}
  {op : Opcode} {h pos left : Int}

/-- Instructions that do not ask the host leave it as it is. -/
theorem local_step [Ethash] [Plain P] (wide : WideInert P I)
    (calls : op.on_call_stack = true → Closed P I) (asks : op.asks_host = false)
    (code : op.reads_code = true → CodeQuiet P) (inv : I exec.state) :
    (map_opcodes host op).Leaves P pos h left (fun e => I e.state ∧ e.host = exec.host) exec := by
  have popped := wide.reads inv (op.stack_reads h pos exec.state)
  by_cases apart : op.on_memory = false
  · exact wide.toInert.unread.local_step (fun on => (calls on).set_call_stack) asks apart code inv popped
  · exact wide.unread.memory_step apart popped

theorem step [Ethash] [Obliging P] [Plain P] [Hosted P host] (wide : WideInert P I)
    (calls : op.on_call_stack = true → Closed P I) (code : op.reads_code = true → CodeQuiet P) (inv : I exec.state) :
    (map_opcodes host op).Keeps P pos h left I exec :=
  wide.unread.step (fun on => (calls on).set_call_stack) code inv (wide.reads inv _)

end WideInert

section
variable {P : Action.Contract Event} {I : ExecutionState → Prop} {host : Host H} {exec : Exec H}
  {op : Opcode} {h pos left : Int}

theorem Closed.step [Ethash] [Lenient P] (closed : Closed P I) (apart : op.on_memory = false)
    (code : op.reads_code = true → CodeQuiet P) (inv : I exec.state) :
    (map_opcodes host op).Keeps P pos h left I exec :=
  closed.toInert.unread.step (fun _ => closed.set_call_stack) apart code inv (closed.reads inv _)

theorem Wide.local_step [Ethash] [Plain P] (wide : Wide P I) (asks : op.asks_host = false)
    (code : op.reads_code = true → CodeQuiet P) (inv : I exec.state) :
    (map_opcodes host op).Leaves P pos h left (fun e => I e.state ∧ e.host = exec.host) exec :=
  wide.toWideInert.local_step (fun _ => wide.toClosed) asks code inv

theorem Wide.step [Ethash] [Obliging P] [Plain P] [Hosted P host] (wide : Wide P I)
    (code : op.reads_code = true → CodeQuiet P) (inv : I exec.state) :
    (map_opcodes host op).Keeps P pos h left I exec :=
  wide.toWideInert.step (fun _ => wide.toClosed) code inv

theorem wide_true : Wide P fun _ => True where
  record _ _ _ _ := trivial
  push_storage _ _ _ _ _ _ := trivial
  set_slot _ _ _ := trivial
  set_status _ _ := trivial
  set_return_data _ _ := trivial
  set_output _ _ _ _ := trivial
  set_call_stack _ _ := trivial
  add_refund _ _ := trivial
  set_tx _ _ := trivial
  grow _ _ _ := trivial
  host_output _ _ _ := trivial
  store _ _ _ := trivial
  push_memory _ _ _ _ := trivial

variable [Ethash] [Obliging P] [Plain P] [CodeQuiet P] [Hosted P host] {cost_table : Opcode → Int} {gas : Int}

theorem Wide.turn (wide : Wide P I) (announces : ∀ op stack_top gas s, P.ensures (.step op stack_top gas s))
    (inv : I exec.state) :
    Action.wlp P (turn host cost_table pos h gas) (fun _ e => I e.state) exec := by
  unfold EvmAssigner.turn invoke requirement_assertions
  simp only [Action.wlp_bind, wlp_on_state, Action.wlp_get, wlp_read_code, wlp_assert_that]
  refine Action.wlp_emit.mpr fun _ => ⟨announces _ _ _ _, ?_⟩
  have ended (status : StatusCode) : I (exec.state.set_status status) := wide.set_status status inv
  cases Opcode.of_byte (exec.state.analysis.code_at pos) with
  | none => simpa using ⟨fun _ => ended _, fun _ => ended _⟩
  | some op =>
    simp only [Action.wlp_ite, Action.wlp_bind, wlp_set_status, Action.wlp_pure]
    refine ⟨fun _ => ended _, fun _ => ?_⟩
    have keeps (left : Int) : (map_opcodes host op).Keeps P pos h left I exec :=
      wide.step (fun _ => inferInstance) inv
    exact (keeps _).invoke_impl (fun status => wide.set_status status) inv

theorem Wide.dispatch {fuel : Nat} (wide : Wide P I)
    (announces : ∀ op stack_top gas s, P.ensures (.step op stack_top gas s)) (inv : I exec.state) :
    Action.wlp P (dispatch host cost_table fuel pos h gas) (fun _ e => I e.state) exec := by
  induction fuel generalizing pos h gas exec with
  | zero => exact Action.wlp_unfinished
  | succ fuel ih =>
    rw [EvmAssigner.dispatch, Action.wlp_bind]
    refine (wide.turn announces inv).mono fun next e inv' => ?_
    cases next.code_it with
    | none => exact Action.wlp_pure.mpr inv'
    | some code_it' => exact ih inv'

end

/-- No condition on the events of a run. -/
abbrev any_event : Action.Contract Event := ⟨fun _ => True, fun _ => True⟩

instance : CodeQuiet any_event := ⟨fun _ _ => ⟨trivial, trivial⟩⟩

instance : Unwatched any_event where
  assertion_failed _ := ⟨trivial, trivial⟩
  vector_access _ _ := ⟨trivial, trivial⟩
  step _ _ _ _ := trivial
  nested _ := trivial
  stack_access _ := ⟨trivial, trivial⟩
  memory_access _ _ _ := ⟨trivial, trivial⟩
  memory_within _ := ⟨trivial, trivial⟩
  storage_entry _ := trivial
  light_failure _ := trivial
  host_call _ _ _ := trivial
  host_output _ _ _ := trivial
  memory_entry _ _ := trivial

theorem wlp_any_event {σ α : Type} {m : Action Event σ α} {s : σ} :
    Action.wlp any_event m (fun _ _ => True) s :=
  Action.Contract.After.of_ensures (fun _ => trivial) fun _ _ _ => trivial

end EvmAssigner
