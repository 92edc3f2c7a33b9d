import EvmAssigner.StackRuns
import EvmAssigner.Steps

namespace EvmAssigner
variable {H : Type}

/-- `PUSH2` to `PUSH31` record as many items as they push bytes, and the depths of `DUP_TOP` and
`SWAP_TOP` are not checked. -/
def StackReach (op : Opcode) (stack_top : Int) (s : ExecutionState) : Prop :=
  let top := (s.stack_space (stack_top - 1)).to_uint64
  match op with
  | .PUSH n => ((n.val + 1) / 32 + (n.val + 1) % 32 : Int) ≤ stack_top + 1
  | .DUP_TOP => 0 ≤ int32 top ∧ int32 top < stack_top
  | .SWAP_TOP => (uint16 top : Int) + 2 ≤ stack_top
  | _ => True

def StackReaches : Event → Prop
  | .step op stack_top _ s => ∀ name, Opcode.of_byte op = some name → StackReach name stack_top s
  | _ => True

instance {op : Opcode} {stack_top : Int} {s : ExecutionState} : Decidable (StackReach op stack_top s) := by
  unfold StackReach
  dsimp only
  split <;> infer_instance

instance : DecidablePred StackReaches := fun e => by
  unfold StackReaches
  casesm Event <;> first | exact Option.decidableForallMem _ | infer_instance

/-- Slots of the stack are touched below `top`. -/
def TouchesBelow (top : Int) : Event → Prop
  | .stack_access slot => 0 ≤ slot ∧ slot < top
  | _ => True

def stack_bounds (top : Int) : Action.Contract Event := ⟨StackReaches, TouchesBelow top⟩

instance {top : Int} : Calm (stack_bounds top) where
  assertion_failed _ := ⟨trivial, trivial⟩
  vector_access _ _ := ⟨trivial, trivial⟩
  step _ _ _ _ := trivial
  nested _ := trivial

/-- What instructions do with the stack: the slots they touch lie below `top`, the assertions hold, and
the host keeps to the contract `nested`. A frame with an `id` that is too large may fail the assertion on
it, and the depth of `SWAP_TOP` need not be an `int` where `swaps` allows for that. -/
def live (id : Nat) (swaps : Prop) (nested : Action.Contract Event) (top : Int) : Action.Contract Event where
  assumes
    | .nested e => nested.assumes e
    | _ => True
  ensures
    | .stack_access slot => 0 ≤ slot ∧ slot < top
    | .assertion_failed what => what = .call_id ∧ ¬ id < 2 ^ 28 ∨ what = .swap_operand ∧ swaps
    | .nested e => nested.ensures e
    | _ => True

section
variable {id : Nat} {swaps : Prop} {nested : Action.Contract Event} {top : Int}

instance : VectorQuiet (live id swaps nested top) := ⟨fun _ _ => ⟨trivial, trivial⟩⟩

instance : MemoryQuiet (live id swaps nested top) := ⟨fun _ _ _ => ⟨trivial, trivial⟩⟩

instance : CodeQuiet (live id swaps nested top) := ⟨fun _ _ => ⟨trivial, trivial⟩⟩

/-- All entries on the stack have an address of the stack. -/
def StackAddressed (s : ExecutionState) : Prop :=
  ∀ o ∈ s.rw_trace, o.op = STACK_OP → o.address.toNat < 1024

/-- What a frame keeps for its own assertions. -/
def Tidy (id : Nat) (s : ExecutionState) : Prop :=
  StackAddressed s ∧ s.call_id = id ∧ s.output_offset = 0

/-- What is left of that at the end of the frame. -/
def LeftTidy (id : Nat) (s : ExecutionState) : Prop :=
  StackAddressed s ∧ s.call_id = id ∧ (s.output_size ≠ 0 ∨ s.output_offset = 0)

theorem Tidy.left_tidy {s : ExecutionState} (tidy : Tidy id s) : LeftTidy id s :=
  ⟨tidy.1, tidy.2.1, Or.inr tidy.2.2⟩

theorem Tidy.call_id {s : ExecutionState} (tidy : Tidy id s) : s.call_id = id := tidy.2.1

variable {s : ExecutionState} {h pos gas_left stack i : Int}

@[simp] theorem live_stack_get {Q : Word → ExecutionState → Prop} :
    Action.wlp (live id swaps nested top) (stack_get stack i) Q s ↔
      (0 ≤ stack - 1 - i ∧ stack - 1 - i < top) ∧ Q (s.stack_space (stack - 1 - i)) s := by
  simp [stack_get, live]

@[simp] theorem live_stack_set {v : Word} {Q : Unit → ExecutionState → Prop} :
    Action.wlp (live id swaps nested top) (stack_set stack i v) Q s ↔
      (0 ≤ stack - 1 - i ∧ stack - 1 - i < top) ∧ Q () (s.set_slot (stack - 1 - i) v) := by
  simp [stack_set, live]

theorem stack_address_mod : (stack_address stack i : Int) = (max stack 0 % 2 ^ 16 - (i + 1)) % 2 ^ 16 := by
  unfold stack_address stack_size uint16
  split <;> omega

theorem live_assert {what : Assertion} {holds : Prop} [Decidable holds] {Q : Unit → ExecutionState → Prop} :
    Action.wlp (live id swaps nested top) (assert_that what holds) Q s ↔
      (holds ∨ what = .call_id ∧ ¬ id < 2 ^ 28 ∨ what = .swap_operand ∧ swaps) ∧ Q () s := by
  unfold assert_that
  by_cases h : holds
  · simp [h]
  · simp [h, live]

@[simp] theorem live_record_stack (same : s.call_id = id) {is_write : Bool}
    {Q : Unit → ExecutionState → Prop} :
    Action.wlp (live id swaps nested top) (record_stack stack i is_write) Q s ↔
      ((max stack 0 % 2 ^ 16 - (i + 1)) % 2 ^ 16 < 1024 ∧ 0 ≤ stack - 1 - i ∧ stack - 1 - i < top) ∧
        Q () (s.record stack i is_write) := by
  have address : stack_address stack i < 1024 ↔ (max stack 0 % 2 ^ 16 - (i + 1)) % 2 ^ 16 < 1024 := by
    rw [← stack_address_mod]
    omega
  have small : id < 2 ^ 28 ∨ 2 ^ 28 ≤ id := Nat.lt_or_ge id (2 ^ 28)
  simp only [record_stack, Action.wlp_bind, Action.wlp_get, live_assert, Action.wlp_emit, Action.wlp_modify, same,
    address]
  constructor
  · rintro ⟨_, within, touch⟩
    obtain ⟨bounds, each⟩ := touch trivial
    exact ⟨⟨within.resolve_right (by simp), bounds⟩, each⟩
  · rintro ⟨⟨within, bounds⟩, each⟩
    exact ⟨small.imp_right fun large => Or.inl ⟨trivial, by omega⟩, Or.inl within, fun _ => ⟨bounds, each⟩⟩

@[simp] theorem tidy_record {is_write : Bool} : Tidy id (s.record stack i is_write) ↔
    (max stack 0 % 2 ^ 16 - (i + 1)) % 2 ^ 16 < 1024 ∧ Tidy id s := by
  have value : (BitVec.ofNat 256 (stack_address stack i)).toNat = stack_address stack i := by
    have address : (stack_address stack i : Int) = _ := stack_address_mod
    rw [BitVec.toNat_ofNat, Nat.mod_eq_of_lt (by omega)]
  rw [← stack_address_mod]
  constructor
  · intro tidy
    have last : (BitVec.ofNat 256 (stack_address stack i)).toNat < 1024 :=
      tidy.1 _ (List.mem_append_right _ (List.mem_singleton_self _)) rfl
    exact ⟨by omega, fun o member => tidy.1 o (List.mem_append_left _ member), tidy.2⟩
  · rintro ⟨small, tidy⟩
    refine ⟨fun o member stack_op => ?_, tidy.2⟩
    rcases List.mem_append.mp member with earlier | last
    · exact tidy.1 o earlier stack_op
    · obtain rfl := List.mem_singleton.mp last
      show (BitVec.ofNat 256 (stack_address stack i)).toNat < 1024
      omega

/-- Entries on anything else do not count. -/
theorem tidy_push {o : rw_operation} (other : o.op ≠ STACK_OP) : Tidy id (s.push_rw o) ↔ Tidy id s := by
  constructor
  · exact fun tidy => ⟨fun o member => tidy.1 o (List.mem_append_left _ member), tidy.2⟩
  · refine fun tidy => ⟨fun o' member stack_op => ?_, tidy.2⟩
    rcases List.mem_append.mp member with earlier | last
    · exact tidy.1 o' earlier stack_op
    · obtain rfl := List.mem_singleton.mp last
      exact absurd stack_op other

@[simp] theorem tidy_push_storage {call_id rw_id : Nat} {address key value value_prev : Word}
    {is_write : Bool} : Tidy id
      (s.push_rw (storage_operation call_id address key rw_id is_write value value_prev)) ↔ Tidy id s :=
  tidy_push (show STORAGE_OP ≠ STACK_OP by decide)

@[simp] theorem tidy_set_slot {slot : Int} {v : Word} : Tidy id (s.set_slot slot v) ↔ Tidy id s := Iff.rfl

@[simp] theorem tidy_set_memory {memory : Memory} : Tidy id (s.set_memory memory) ↔ Tidy id s := Iff.rfl

@[simp] theorem tidy_set_status {status : StatusCode} : Tidy id (s.set_status status) ↔ Tidy id s := Iff.rfl

@[simp] theorem tidy_set_return_data {data : Bytes} : Tidy id (s.set_return_data data) ↔ Tidy id s := Iff.rfl

@[simp] theorem tidy_add_refund {refund : Int} : Tidy id (s.add_refund refund) ↔ Tidy id s := Iff.rfl

@[simp] theorem tidy_set_tx {tx : TxContext} : Tidy id (s.set_tx tx) ↔ Tidy id s := Iff.rfl

theorem record_live {is_write : Bool} (tidy : Tidy id s)
    (within : (max stack 0 % 2 ^ 16 - (i + 1)) % 2 ^ 16 < 1024 ∧ 0 ≤ stack - 1 - i ∧ stack - 1 - i < top) :
    Action.wlp (live id swaps nested top) (record_stack stack i is_write) (fun _ s' => Tidy id s') s :=
  (live_record_stack tidy.call_id).mpr ⟨within, tidy_record.mpr ⟨within.1, tidy⟩⟩

theorem wlp_check_memory_live {offset size : Word} {Q : Bool × Int → ExecutionState → Prop}
    (tidy : Tidy id s) (each : ∀ ok left s', Tidy id s' → Q (ok, left) s') :
    Action.wlp (live id swaps nested top) (check_memory gas_left offset size) Q s := by
  refine wlp_check_memory fun ok left s' checked _ => each ok left s' ?_
  rcases checked.grown with rfl | ⟨n, _, _, rfl⟩
  · exact tidy
  · exact tidy

theorem wlp_check_memory_size_live {offset : Word} {Q : Bool × Int → ExecutionState → Prop}
    (tidy : Tidy id s) (each : ∀ ok left s', Tidy id s' → Q (ok, left) s') :
    Action.wlp (live id swaps nested top) (check_memory_size gas_left offset 32) Q s := by
  refine wlp_check_memory_size (by omega) fun ok left s' checked => each ok left s' ?_
  rcases checked.grown with rfl | ⟨n, _, _, rfl⟩
  · exact tidy
  · exact tidy

theorem wlp_record_bytes_live {address : Nat → Word} {is_write : Bool} {data : Bytes}
    {Q : Unit → ExecutionState → Prop} (tidy : Tidy id s)
    (each : ∀ s', Tidy id s' → Q () s') :
    Action.wlp (live id swaps nested top) (record_bytes address is_write data) Q s := by
  refine (Action.wlp_forEach (I := fun _ s' => Tidy id s') ?_ tidy).mono fun _ => each
  intro done b rest s' split tidy'
  have small : s'.call_id < 2 ^ 28 ∨ ¬ id < 2 ^ 28 := by
    rw [tidy'.call_id]
    exact em _
  simp only [record_memory, Action.wlp_bind, Action.wlp_get, live_assert, Action.wlp_emit, Action.wlp_modify]
  exact ⟨small.imp_right fun large => Or.inl ⟨trivial, large⟩,
    fun _ => ⟨trivial, (tidy_push (show MEMORY_OP ≠ STACK_OP by decide)).mpr tidy'⟩⟩

variable (tidy : Tidy id s) (below : h ≤ top) (bound : top ≤ 1024)
include tidy below bound

theorem binary_live {f : Word → Word → Word} (operands : 2 ≤ h) :
    Action.wlp (live id swaps nested top) (binary f h) (fun _ s' => Tidy id s') s := by
  simp [binary, tidy, tidy.call_id]
  omega

theorem unary_live {f : Word → Word} (operands : 1 ≤ h) :
    Action.wlp (live id swaps nested top) (unary f h) (fun _ s' => Tidy id s') s := by
  simp [unary, tidy, tidy.call_id]
  omega

omit below in
theorem push_word_live {v : Word} (nonneg : 0 ≤ h) (room : h + 1 ≤ top) :
    Action.wlp (live id swaps nested top) (push_word v h) (fun _ s' => Tidy id s') s := by
  simp [push_word, tidy, tidy.call_id]
  omega

theorem addmod_live (operands : 3 ≤ h) :
    Action.wlp (live id swaps nested top) (addmod h) (fun _ s' => Tidy id s') s := by
  simp [addmod, tidy, tidy.call_id]
  omega

theorem mulmod_live (operands : 3 ≤ h) :
    Action.wlp (live id swaps nested top) (mulmod h) (fun _ s' => Tidy id s') s := by
  simp [mulmod, tidy, tidy.call_id]
  omega

theorem exp_live (operands : 2 ≤ h) :
    Action.wlp (live id swaps nested top) (exp h gas_left) (fun _ s' => Tidy id s') s := by
  simp [exp, tidy, tidy.call_id]
  omega

theorem keccak256_live [Ethash] (operands : 2 ≤ h) :
    Action.wlp (live id swaps nested top) (keccak256 h gas_left) (fun _ s' => Tidy id s') s := by
  simp only [keccak256, Action.wlp_bind, live_record_stack, live_stack_get,
    ExecutionState.record_call_id, tidy.call_id]
  refine ⟨by omega, by omega, by omega, by omega, ?_⟩
  refine wlp_check_memory_live (by simp [tidy]; omega) fun ok left s' tidy' => ?_
  have result (s'' : ExecutionState) (v : Word) (tidy'' : Tidy id s'') :
      (0 ≤ h - 1 - 1 - 0 ∧ h - 1 - 1 - 0 < top) ∧ Action.wlp (live id swaps nested top)
        (record_stack (h - 1) 0 true) (fun _ s' => Tidy id s') (s''.set_slot (h - 1 - 1 - 0) v) := by
    simp [tidy'', tidy''.call_id]
    omega
  simp only [Action.wlp_bind, Action.wlp_ite, Action.wlp_pure, wlp_memory_load, live_stack_set]
  refine ⟨fun _ => tidy', fun _ => ⟨fun _ => tidy', fun _ => ⟨fun _ => ?_, fun _ => ?_⟩⟩⟩
  · exact wlp_record_bytes_live tidy' fun s'' tidy'' =>
      ⟨fun _ => result s'' _ tidy'', fun _ => result s'' _ tidy''⟩
  · exact ⟨fun _ => result s' _ tidy', fun _ => result s' _ tidy'⟩

theorem calldataload_live (operands : 1 ≤ h) :
    Action.wlp (live id swaps nested top) (calldataload h) (fun _ s' => Tidy id s') s := by
  simp only [calldataload, Action.wlp_bind, Action.wlp_get]
  exact unary_live tidy below bound operands

theorem mload_live (operands : 1 ≤ h) :
    Action.wlp (live id swaps nested top) (mload h gas_left) (fun _ s' => Tidy id s') s := by
  simp only [mload, Action.wlp_bind, live_record_stack, live_stack_get, tidy.call_id]
  refine ⟨by omega, by omega, ?_⟩
  refine wlp_check_memory_size_live (by simp [tidy]; omega) fun ok left s' tidy' => ?_
  simp only [Action.wlp_bind, Action.wlp_ite, Action.wlp_pure, wlp_memory_load, live_stack_set]
  refine ⟨fun _ => tidy', fun _ => ⟨by omega, ?_⟩⟩
  refine wlp_record_bytes_live (tidy_set_slot.mpr tidy') fun s'' tidy'' => ?_
  simp [tidy'', tidy''.call_id]
  omega

theorem mstore_live {width : Nat} (operands : 2 ≤ h) :
    Action.wlp (live id swaps nested top) (mstore width h gas_left) (fun _ s' => Tidy id s') s := by
  simp only [mstore, Action.wlp_bind, live_record_stack, live_stack_get,
    ExecutionState.record_call_id, tidy.call_id]
  refine ⟨by omega, by omega, by omega, by omega, ?_⟩
  refine wlp_check_memory_size_live (by simp [tidy]; omega) fun ok left s' tidy' => ?_
  simp only [Action.wlp_bind, Action.wlp_ite, Action.wlp_pure, wlp_memory_load, wlp_memory_store]
  exact ⟨fun _ => tidy', fun _ => wlp_record_bytes_live (tidy_set_memory.mpr tidy')
    fun _ tidy'' => tidy''⟩

theorem copy_to_memory_live {source : Bytes} (operands : 3 ≤ h) :
    Action.wlp (live id swaps nested top) (copy_to_memory source h gas_left) (fun _ s' => Tidy id s') s := by
  simp only [copy_to_memory, Action.wlp_bind, live_record_stack, live_stack_get,
    ExecutionState.record_call_id, tidy.call_id]
  refine ⟨by omega, by omega, by omega, by omega, by omega, by omega, ?_⟩
  refine wlp_check_memory_live (by simp [tidy]; omega) fun ok left s' tidy' => ?_
  simp only [copy_padded, Action.wlp_bind, Action.wlp_ite, Action.wlp_pure, wlp_memory_load,
    wlp_memory_store]
  have recorded (s'' : ExecutionState) (data : Bytes) (tidy'' : Tidy id s'') :
      Action.wlp (live id swaps nested top) (record_bytes (fun j => s.stack_space (h - 1 - 0) + BitVec.ofNat 256 j)
        true data) (fun _ s' => Tidy id s') s'' := wlp_record_bytes_live tidy'' fun _ h => h
  refine ⟨fun _ => tidy', fun _ => ⟨fun _ => tidy', fun _ => ⟨fun _ => ⟨fun _ => ?_, fun _ => ?_⟩,
    fun _ => ⟨fun _ => ?_, fun _ => ?_⟩⟩⟩⟩
  all_goals exact recorded _ _ tidy'

theorem calldatacopy_live (operands : 3 ≤ h) :
    Action.wlp (live id swaps nested top) (calldatacopy h gas_left) (fun _ s' => Tidy id s') s := by
  rw [calldatacopy, Action.wlp_bind, Action.wlp_get]
  exact copy_to_memory_live tidy below bound operands

theorem codecopy_live (operands : 3 ≤ h) :
    Action.wlp (live id swaps nested top) (codecopy h gas_left) (fun _ s' => Tidy id s') s := by
  rw [codecopy, Action.wlp_bind, Action.wlp_get]
  exact copy_to_memory_live tidy below bound operands

theorem returndatacopy_live (operands : 3 ≤ h) :
    Action.wlp (live id swaps nested top) (returndatacopy h gas_left) (fun _ s' => Tidy id s') s := by
  simp only [returndatacopy, Action.wlp_bind, Action.wlp_get, live_record_stack, live_stack_get,
    ExecutionState.record_call_id, tidy.call_id]
  refine ⟨by omega, by omega, by omega, by omega, by omega, by omega, ?_⟩
  refine wlp_check_memory_live (by simp [tidy]; omega) fun ok left s' tidy' => ?_
  simp only [Action.wlp_bind, Action.wlp_ite, Action.wlp_pure, wlp_memory_load, wlp_memory_store]
  exact ⟨fun _ => tidy', fun _ => ⟨fun _ => tidy', fun _ => ⟨fun _ => tidy', fun _ =>
    ⟨fun _ => tidy', fun _ => ⟨fun _ => wlp_record_bytes_live tidy' fun _ h => h,
      fun _ => tidy'⟩⟩⟩⟩⟩

theorem mcopy_live (operands : 3 ≤ h) :
    Action.wlp (live id swaps nested top) (mcopy h gas_left) (fun _ s' => Tidy id s') s := by
  simp only [mcopy, Action.wlp_bind, live_record_stack, live_stack_get,
    ExecutionState.record_call_id, tidy.call_id]
  refine ⟨by omega, by omega, by omega, by omega, by omega, by omega, ?_⟩
  refine wlp_check_memory_live (by simp [tidy]; omega) fun ok left s' tidy' => ?_
  simp only [Action.wlp_bind, Action.wlp_ite, Action.wlp_pure, wlp_memory_load, wlp_memory_store]
  exact ⟨fun _ => tidy', fun _ => ⟨fun _ => tidy', fun _ => ⟨fun _ => tidy',
    fun _ => tidy'⟩⟩⟩

omit below in
/-- A push touches the new item, and the items it records besides. -/
theorem push_live {Len : Nat} (room : h + 1 ≤ top) (nonneg : 0 ≤ h)
    (reach : (Len / 32 + Len % 32 : Int) ≤ h + 1) :
    Action.wlp (live id swaps nested top) (push Len h pos) (fun _ s' => Tidy id s') s := by
  have record (r : Word) : (0 ≤ h + 1 - 1 - 0 ∧ h + 1 - 1 - 0 < top) ∧ Action.wlp (live id swaps nested top)
      (Action.forEach (fun i : Nat => record_stack (h + 1) i true) (List.range (Len / 32 + Len % 32)))
      (fun _ s' => Tidy id s') (s.set_slot (h + 1 - 1 - 0) r) := by
    refine ⟨by omega, Action.wlp_forEach (I := fun _ s' => Tidy id s') ?_
      (tidy_set_slot.mpr tidy)⟩
    intro done i rest s' split tidy'
    have within : i < Len / 32 + Len % 32 := List.mem_range.mp (by simp [split])
    refine (live_record_stack tidy'.call_id).mpr ⟨by omega, tidy_record.mpr ⟨by omega, tidy'⟩⟩
  simp only [push, Action.wlp_bind, Action.wlp_ite, Action.wlp_pure, live_stack_set]
  exact ⟨fun _ => wlp_load_partial fun r => wlp_load_full_words fun r' => record r',
    fun _ => wlp_load_full_words fun r' => record r'⟩

omit below in
theorem dup_slot_live {n : Int} (positive : 0 < n) (deep : n ≤ h) (room : h + 1 ≤ top) :
    Action.wlp (live id swaps nested top) (dup_slot n h) (fun _ s' => Tidy id s') s := by
  simp [dup_slot, push_word, tidy, tidy.call_id]
  omega

theorem dup_top_live (operands : 1 ≤ h) (reach : StackReach .DUP_TOP h s) :
    Action.wlp (live id swaps nested top) (dup_top h) (fun _ s' => Tidy id s') s := by
  simp only [StackReach] at reach
  simp [dup_top, dup_slot, push_word, live_assert, tidy, tidy.call_id]
  omega

theorem swap_slots_live {addr : Nat} (deep : (addr : Int) + 1 ≤ h) (lifted : h + 1 ≤ top ∨ 1 ≤ addr) :
    Action.wlp (live id swaps nested top) (swap_slots addr h) (fun _ s' => Tidy id s') s := by
  simp [swap_slots, tidy, tidy.call_id]
  omega

theorem swap_top_live (operands : 1 ≤ h) (reach : StackReach .SWAP_TOP h s) (allowed : swaps) :
    Action.wlp (live id swaps nested top) (swap_top h) (fun _ s' => Tidy id s') s := by
  simp only [StackReach] at reach
  simp only [swap_top, Action.wlp_bind, live_record_stack, live_stack_get, live_assert, sub_zero,
    ExecutionState.record_stack_space, tidy.call_id]
  refine ⟨by omega, by omega, Or.inr (Or.inr ⟨trivial, allowed⟩), ?_⟩
  exact swap_slots_live (tidy_record.mpr ⟨by omega, tidy⟩) (by omega) bound (by omega)
    (Or.inl (by omega))

omit below in
theorem dupn_live (nonneg : 0 ≤ h) (room : h + 1 ≤ top) :
    Action.wlp (live id swaps nested top) (dupn h pos) (fun _ s' => Tidy id s') s := by
  simp only [dupn, fail_with, Action.wlp_bind, wlp_read_code, Action.wlp_ite, Action.wlp_modify,
    Action.wlp_pure, tidy_set_status]
  exact ⟨fun _ => tidy, fun deep => dup_slot_live tidy bound (by omega) (by omega) room⟩

theorem swapn_live : Action.wlp (live id swaps nested top) (swapn h pos) (fun _ s' => Tidy id s') s := by
  simp [swapn, fail_with, tidy, tidy.call_id]
  omega

omit below bound in
theorem jump_impl_live {dst : Word} :
    Action.wlp (live id swaps nested top) (jump_impl dst) (fun _ s' => Tidy id s') s := by
  simp only [jump_impl, fail_with, Action.wlp_bind, Action.wlp_get, Action.wlp_ite,
    Action.wlp_emit_ignored (VectorQuiet.vector_access _ _), Action.wlp_modify, Action.wlp_pure,
    tidy_set_status]
  exact ⟨fun _ => tidy, fun _ => ⟨fun _ => tidy, fun _ => tidy⟩⟩

theorem jump_live (operands : 1 ≤ h) :
    Action.wlp (live id swaps nested top) (jump h pos) (fun _ s' => Tidy id s') s := by
  simp only [jump, Action.wlp_bind, live_record_stack, live_stack_get, tidy.call_id]
  exact ⟨by omega, by omega, jump_impl_live (tidy_record.mpr ⟨by omega, tidy⟩)⟩

theorem jumpi_live (operands : 2 ≤ h) :
    Action.wlp (live id swaps nested top) (jumpi h pos) (fun _ s' => Tidy id s') s := by
  have popped : Tidy id ((s.record h 1 false).record h 0 false) :=
    tidy_record.mpr ⟨by omega, tidy_record.mpr ⟨by omega, tidy⟩⟩
  simp only [jumpi, Action.wlp_bind, live_record_stack, live_stack_get, Action.wlp_ite, Action.wlp_pure,
    ExecutionState.record_call_id, tidy.call_id]
  exact ⟨by omega, by omega, by omega, by omega, fun _ => jump_impl_live popped, fun _ => popped⟩

theorem return_impl_live {status : StatusCode} (operands : 2 ≤ h) :
    Action.wlp (live id swaps nested top) (return_impl status h gas_left) (fun _ s' => LeftTidy id s') s := by
  simp only [return_impl, Action.wlp_bind, live_record_stack, live_stack_get,
    ExecutionState.record_call_id, tidy.call_id]
  refine ⟨by omega, by omega, by omega, by omega, ?_⟩
  refine wlp_check_memory_live (by simp [tidy]; omega) fun ok left s' tidy' => ?_
  simp only [Action.wlp_bind, Action.wlp_ite, Action.wlp_modify, Action.wlp_pure]
  refine ⟨fun _ => tidy'.left_tidy, fun _ => ⟨tidy'.1, tidy'.2.1, ?_⟩⟩
  show _ ∨ (if _ then _ else _) = 0
  by_cases empty : (s.stack_space (h - 1 - 1)).to_uint64 = 0
  · exact Or.inr (by simpa [empty] using tidy'.2.2)
  · exact Or.inl empty

end

section
variable {id : Nat} {swaps : Prop} {nested : Action.Contract Event} {top : Int} {host : Host H}
  [hosted : Hosted (live id swaps nested top) host] {exec : Exec H} {h gas_left : Int}
  (tidy : Tidy id exec.state) (below : h ≤ top) (bound : top ≤ 1024)
include tidy below bound

omit below in
theorem push_tx_live {field : TxContext → Word} (nonneg : 0 ≤ h) (room : h + 1 ≤ top) :
    Action.wlp (live id swaps nested top) (push_tx host field h) (fun _ e => Tidy id e.state) exec := by
  simp only [push_tx, Action.wlp_bind, lift_on_state]
  exact wlp_get_tx_context fun tx m_tx host' => wlp_on_state.mpr
    (push_word_live (tidy_set_tx.mpr tidy) bound nonneg room)

theorem blobhash_live (operands : 1 ≤ h) :
    Action.wlp (live id swaps nested top) (blobhash host h) (fun _ e => Tidy id e.state) exec := by
  simp only [blobhash, Action.wlp_bind, lift_on_state, wlp_on_state, live_record_stack, live_stack_get,
    tidy.call_id]
  refine ⟨by omega, by omega, wlp_get_tx_context fun tx m_tx host' => ?_⟩
  simp [tidy, tidy.call_id]
  omega

theorem blockhash_live (operands : 1 ≤ h) :
    Action.wlp (live id swaps nested top) (blockhash host h) (fun _ e => Tidy id e.state) exec := by
  simp only [blockhash, Action.wlp_bind, lift_on_state, wlp_on_state, live_record_stack, live_stack_get,
    tidy.call_id]
  refine ⟨by omega, by omega, wlp_get_tx_context fun tx m_tx host' => ?_⟩
  have asked : Tidy id ((exec.state.record h 0 false).set_tx m_tx) :=
    tidy_record.mpr ⟨by omega, tidy⟩
  simp only [Action.wlp_ite, Action.wlp_pure, wlp_on_state, live_stack_set, Action.wlp_bind]
  refine ⟨fun _ => wlp_ask (hosted.get_block_hash _) fun _ _ => ⟨by omega, ?_⟩, fun _ => ⟨by omega, ?_⟩⟩
  · exact record_live asked (by omega)
  · exact record_live asked (by omega)

omit below in
theorem selfbalance_live (nonneg : 0 ≤ h) (room : h + 1 ≤ top) :
    Action.wlp (live id swaps nested top) (selfbalance host h) (fun _ e => Tidy id e.state) exec := by
  simp only [selfbalance, Action.wlp_bind, Action.wlp_get, lift_on_state]
  exact wlp_ask (hosted.get_balance _) fun v host' => wlp_on_state.mpr (push_word_live tidy bound nonneg room)

theorem query_account_live {query : Address → Instr H Word}
    (asks : ∀ addr (e : Exec H) (Q : Word → Exec H → Prop),
      (∀ v host', Q v { e with host := host' }) → Action.wlp (live id swaps nested top) (query addr) Q e)
    (operands : 1 ≤ h) : Action.wlp (live id swaps nested top) (query_account host query h gas_left)
      (fun _ e => Tidy id e.state) exec := by
  have popped : Tidy id (exec.state.record h 0 false) := tidy_record.mpr ⟨by omega, tidy⟩
  simp only [query_account, Action.wlp_bind, lift_on_state, wlp_on_state, live_record_stack, live_stack_get,
    tidy.call_id]
  refine ⟨by omega, by omega, wlp_charge_access (by decide) fun ok left host' _ => ?_⟩
  simp only [Action.wlp_ite, Action.wlp_pure, wlp_on_state, live_stack_set, Action.wlp_bind]
  exact ⟨fun _ => popped, fun _ => asks _ _ _ fun v host'' => ⟨by omega, record_live popped (by omega)⟩⟩

theorem extcodecopy_live (operands : 4 ≤ h) :
    Action.wlp (live id swaps nested top) (extcodecopy host h gas_left) (fun _ e => Tidy id e.state) exec := by
  simp only [extcodecopy, Action.wlp_bind, lift_on_state, wlp_on_state, live_record_stack, live_stack_get,
    ExecutionState.record_call_id, tidy.call_id]
  refine ⟨by omega, by omega, by omega, by omega, by omega, by omega, by omega, by omega, ?_⟩
  refine wlp_check_memory_live (by simp [tidy]; omega) fun ok left s' tidy' => ?_
  simp only [Action.wlp_ite, Action.wlp_bind, Action.wlp_pure]
  refine ⟨fun _ => tidy', fun _ => ⟨fun _ => tidy', fun _ => ?_⟩⟩
  refine wlp_charge_access (by decide) fun ok left host' _ => ?_
  simp only [wlp_on_state, wlp_host_store]
  refine ⟨fun _ => tidy', fun _ => ⟨fun _ => wlp_ask (hosted.copy_code _ _ _) fun code host'' => ?_, fun _ => tidy'⟩⟩
  exact fun _ => ⟨trivial, fun _ _ => ⟨trivial, tidy'⟩, fun _ => tidy'⟩

theorem sload_live (operands : 1 ≤ h) :
    Action.wlp (live id swaps nested top) (sload host h gas_left) (fun _ e => Tidy id e.state) exec := by
  have popped : Tidy id (exec.state.record h 0 false) := tidy_record.mpr ⟨by omega, tidy⟩
  simp only [sload, Action.wlp_bind, Action.wlp_get, lift_on_state, wlp_on_state, live_record_stack,
    live_stack_get, tidy.call_id]
  refine ⟨by omega, by omega, wlp_storage_is_cold fun cold host' => ?_⟩
  simp only [record_storage, Action.wlp_ite, Action.wlp_bind, Action.wlp_pure, Action.wlp_get,
    Action.wlp_emit, Action.wlp_modify, wlp_on_state, live_stack_set]
  refine ⟨fun _ => popped, fun _ => wlp_ask (hosted.get_storage _ _) fun value host'' _ => ⟨trivial, by omega, ?_⟩⟩
  exact record_live (tidy_set_slot.mpr (tidy_push_storage.mpr popped)) (by omega)

theorem sstore_live (operands : 2 ≤ h) :
    Action.wlp (live id swaps nested top) (sstore host h gas_left) (fun _ e => Tidy id e.state) exec := by
  have popped : Tidy id ((exec.state.record h 1 false).record h 0 false) :=
    tidy_record.mpr ⟨by omega, tidy_record.mpr ⟨by omega, tidy⟩⟩
  simp only [sstore, Action.wlp_bind, Action.wlp_get, Action.wlp_ite, Action.wlp_pure, lift_on_state,
    wlp_on_state, live_record_stack, live_stack_get,
    ExecutionState.record_call_id, tidy.call_id]
  refine ⟨fun _ => tidy, fun _ => ⟨fun _ => tidy, fun _ => ⟨by omega, by omega, by omega, by omega, ?_⟩⟩⟩
  refine wlp_storage_is_cold fun cold _ => wlp_ask (hosted.get_storage _ _) fun value_prev _ => ?_
  simp only [record_storage, Action.wlp_bind, Action.wlp_get, Action.wlp_emit, Action.wlp_modify]
  refine fun _ => ⟨trivial, ?_⟩
  refine wlp_ask (hosted.set_storage _ _ _) fun status _ => ⟨fun _ => ?_, fun _ => ?_⟩
  · exact tidy_push_storage.mpr popped
  · exact tidy_add_refund.mpr (tidy_push_storage.mpr popped)

theorem tload_live (operands : 1 ≤ h) :
    Action.wlp (live id swaps nested top) (tload host h) (fun _ e => Tidy id e.state) exec := by
  simp only [tload, Action.wlp_bind, Action.wlp_get, lift_on_state, wlp_on_state, live_record_stack,
    live_stack_get, tidy.call_id]
  refine ⟨by omega, by omega, wlp_ask (hosted.get_transient_storage _ _) fun value host' => ?_⟩
  simp [tidy, tidy.call_id]
  omega

theorem tstore_live (operands : 2 ≤ h) :
    Action.wlp (live id swaps nested top) (tstore host h gas_left) (fun _ e => Tidy id e.state) exec := by
  simp only [tstore, Action.wlp_bind, Action.wlp_get, Action.wlp_ite, Action.wlp_pure, lift_on_state,
    wlp_on_state, live_record_stack, live_stack_get,
    ExecutionState.record_call_id, tidy.call_id]
  refine ⟨fun _ => tidy, fun _ => ⟨by omega, by omega, by omega, by omega, ?_⟩⟩
  exact wlp_ask (hosted.set_transient_storage _ _ _) fun _ host' =>
    tidy_record.mpr ⟨by omega, tidy_record.mpr ⟨by omega, tidy⟩⟩

theorem selfdestruct_live (operands : 1 ≤ h) :
    Action.wlp (live id swaps nested top) (selfdestruct host h gas_left) (fun _ e => Tidy id e.state) exec := by
  have popped : Tidy id (exec.state.record h 0 false) := tidy_record.mpr ⟨by omega, tidy⟩
  simp only [selfdestruct, Action.wlp_bind, Action.wlp_get]
  refine Action.wlp_ite.mpr ⟨fun _ => Action.wlp_pure.mpr tidy, fun _ => ?_⟩
  simp only [Action.wlp_bind, lift_on_state, wlp_on_state, live_record_stack, live_stack_get,
    tidy.call_id]
  refine ⟨by omega, by omega, wlp_charge_access (by decide) fun ok left host' _ => ?_⟩
  refine Action.wlp_ite.mpr ⟨fun _ => Action.wlp_pure.mpr popped, fun _ => ?_⟩
  rw [Action.wlp_bind]
  refine wlp_charge_beneficiary fun ok left host' _ => ?_
  refine Action.wlp_ite.mpr ⟨fun _ => Action.wlp_pure.mpr popped, fun _ => ?_⟩
  rw [Action.wlp_bind]
  refine wlp_ask (hosted.selfdestruct _ _) fun destroyed host' => Action.wlp_ite.mpr ⟨fun _ => ?_, fun _ => ?_⟩
  · simp only [Action.wlp_bind, wlp_on_state, Action.wlp_modify, Action.wlp_pure]
    exact popped
  · exact Action.wlp_pure.mpr popped

omit tidy in
theorem record_operands_live {n : Nat} {s : ExecutionState} (tidy : Tidy id s)
    (operands : (n : Int) ≤ h) : Action.wlp (live id swaps nested top) (record_operands n h)
      (fun _ s' => Tidy id s') s := by
  refine Action.wlp_forEach (I := fun _ s' => Tidy id s') ?_ tidy
  intro done i rest s' split tidy'
  have within : i < n := List.mem_range.mp (by simp [split])
  exact record_live tidy' (by omega)

theorem make_call_live {Op : CallOp} {o : CallOperands} {msg : Message} (positive : 0 < h) :
    Action.wlp (live id swaps nested top) (make_call host Op o msg h gas_left)
      (fun _ e => Tidy id e.state) exec := by
  simp only [make_call, finish_call, Action.wlp_bind, lift_on_state]
  refine wlp_light_failure fun failed host' => ?_
  simp only [Action.wlp_bind, Action.wlp_ite, Action.wlp_emit, Action.wlp_pure, wlp_on_state,
    Action.wlp_modify, live_stack_set, wlp_host_store]
  refine ⟨fun _ _ => ⟨trivial, tidy⟩, fun _ _ => ⟨trivial, wlp_ask (hosted.call _) fun result _ => ?_⟩⟩
  have answered (v : Word) : Tidy id ((exec.state.set_return_data result.output_data).set_slot (h - 1 - 0) v) :=
    tidy
  refine ⟨by omega, (record_live (answered _) (by omega)).mono fun _ s' tidy' => ?_⟩
  exact ⟨fun _ _ => ⟨trivial, tidy'⟩, fun _ => tidy'⟩

theorem call_impl_live (Op : CallOp) (operands : (Op.num_stack_read : Int) ≤ h) :
    Action.wlp (live id swaps nested top) (call_impl host Op h gas_left)
      (fun _ e => Tidy id e.state) exec := by
  have positive : 0 < Op.num_stack_read := by cases Op <;> simp [CallOp.num_stack_read, CallOp.takes_value]
  simp only [call_impl, Action.wlp_bind, Action.wlp_get, lift_on_state, wlp_on_state]
  refine (record_operands_live below bound tidy operands).mono fun _ s₁ tidy₁ => ?_
  have popped : Action.wlp (live id swaps nested top) (pop_call_operands Op h) (fun _ s' => Tidy id s') s₁ := by
    cases Op with
    | CALL | CALLCODE =>
      have seven : (7 : Int) ≤ h := operands
      simp [pop_call_operands, CallOp.takes_value, tidy₁]
      omega
    | DELEGATECALL | STATICCALL =>
      have six : (6 : Int) ≤ h := operands
      simp [pop_call_operands, CallOp.takes_value, tidy₁]
      omega
  refine popped.mono fun o s₂ tidy₂ => ?_
  simp only [live_stack_set, Action.wlp_modify]
  refine ⟨by omega, wlp_charge_access (by decide) fun ok left host' _ => ?_⟩
  have cleared : Tidy id ((s₂.set_slot (h - Op.num_stack_read + 1 - 1 - 0) 0).set_return_data []) :=
    tidy₂
  refine Action.wlp_ite.mpr ⟨fun _ => Action.wlp_pure.mpr cleared, fun _ => ?_⟩
  rw [Action.wlp_bind, wlp_on_state]
  refine wlp_check_memory_live cleared fun ok left s₃ tidy₃ => ?_
  refine Action.wlp_ite.mpr ⟨fun _ => Action.wlp_pure.mpr tidy₃, fun _ => ?_⟩
  rw [Action.wlp_bind, wlp_on_state]
  refine wlp_check_memory_live tidy₃ fun ok left s₄ tidy₄ => ?_
  refine Action.wlp_ite.mpr ⟨fun _ => Action.wlp_pure.mpr tidy₄, fun _ => ?_⟩
  refine wlp_read_input fun input => ?_
  refine Action.wlp_ite.mpr ⟨fun _ => Action.wlp_pure.mpr tidy₄, fun _ => ?_⟩
  rw [Action.wlp_bind]
  refine wlp_call_cost fun cost host' _ => ?_
  refine Action.wlp_ite.mpr ⟨fun _ => Action.wlp_pure.mpr tidy₄, fun _ => ?_⟩
  split
  · exact Action.wlp_pure.mpr tidy₄
  · exact make_call_live tidy₄ (by omega) bound (by omega)

theorem create_impl_live (Op : CreateOp) (operands : (Op.num_stack_read : Int) ≤ h) :
    Action.wlp (live id swaps nested top) (create_impl host Op h gas_left)
      (fun _ e => Tidy id e.state) exec := by
  have positive : 0 < Op.num_stack_read := by cases Op <;> simp [CreateOp.num_stack_read]
  simp only [create_impl, Action.wlp_bind, Action.wlp_get]
  refine Action.wlp_ite.mpr ⟨fun _ => Action.wlp_pure.mpr tidy, fun _ => ?_⟩
  simp only [Action.wlp_bind, lift_on_state, wlp_on_state]
  refine (record_operands_live below bound tidy operands).mono fun _ s₁ tidy₁ => ?_
  have popped : Action.wlp (live id swaps nested top) (pop_create_operands Op h) (fun _ s' => Tidy id s') s₁ := by
    cases Op with
    | CREATE =>
      have three : (3 : Int) ≤ h := operands
      simp [pop_create_operands, tidy₁]
      omega
    | CREATE2 =>
      have four : (4 : Int) ≤ h := operands
      simp [pop_create_operands, tidy₁]
      omega
  refine popped.mono fun o s₂ tidy₂ => ?_
  simp only [live_stack_set, Action.wlp_modify]
  have cleared : Tidy id ((s₂.set_slot (h - Op.num_stack_read + 1 - 1 - 0) 0).set_return_data []) :=
    tidy₂
  refine ⟨by omega, wlp_check_memory_live cleared fun ok left s₃ tidy₃ => ?_⟩
  refine Action.wlp_ite.mpr ⟨fun _ => Action.wlp_pure.mpr tidy₃, fun _ => ?_⟩
  refine Action.wlp_ite.mpr ⟨fun _ => Action.wlp_pure.mpr tidy₃, fun _ => ?_⟩
  refine Action.wlp_ite.mpr ⟨fun _ => Action.wlp_pure.mpr tidy₃, fun _ => ?_⟩
  rw [Action.wlp_bind]
  refine wlp_create_light_failure fun failed host' => ?_
  refine Action.wlp_ite.mpr ⟨fun _ => ?_, fun _ => ?_⟩
  · rw [Action.wlp_bind, Action.wlp_emit]
    exact fun _ => ⟨trivial, Action.wlp_pure.mpr tidy₃⟩
  · refine wlp_read_input fun input => ?_
    rw [Action.wlp_bind]
    refine wlp_ask (hosted.call _) fun result host'' => wlp_on_state.mpr ?_
    have recorded {s : ExecutionState} (tidy : Tidy id s) {Q : Unit → ExecutionState → Prop}
        (each : ∀ s', Tidy id s' → Q () s') : Action.wlp (live id swaps nested top)
          (record_stack (h - Op.num_stack_read + 1) 0 true) Q s :=
      (record_live tidy (by omega)).mono fun _ => each
    simp only [finish_create, Action.wlp_bind, Action.wlp_ite, Action.wlp_modify, Action.wlp_pure,
      live_stack_set]
    have answered : Tidy id ((s₃.add_refund result.gas_refund).set_return_data result.output_data) := tidy₃
    exact ⟨fun _ => ⟨by omega, recorded (tidy_set_slot.mpr answered) fun _ tidy' => tidy'⟩,
      fun _ => recorded answered fun _ tidy' => tidy'⟩

end

/-- The instructions that put down the output of their frame. -/
def Opcode.returns : Opcode → Bool
  | .RETURN | .REVERT => true
  | _ => false

section
variable [Ethash] {id : Nat} {swaps : Prop} {nested : Action.Contract Event} {top : Int} {host : Host H}
  [hosted : Hosted (live id swaps nested top) host] {exec : Exec H} {rev : Revision} {op : Opcode}
  {h pos left : Int} (limit : top = max h (h + stack_height_change op))
  (reach : StackReach op h exec.state) (allowed : op = .SWAP_TOP → swaps)
  (meets : Meets (legacy_cost_table rev) op h) (nonneg : 0 ≤ h) (small : h ≤ 1024) (tidy : Tidy id exec.state)
include limit reach allowed meets nonneg small tidy

theorem stack_bounds_step (other : op.returns = false) :
    (map_opcodes host op).Leaves (live id swaps nested top) pos h left (fun e => Tidy id e.state) exec := by
  have legacy := legacy_meets meets
  have below : h ≤ top := by omega
  have bound : top ≤ 1024 := by
    have := meets.toFits.range nonneg small
    omega
  cases op with
  | STOP | INVALID | POP | JUMPDEST => exact wlp_on_state.mpr (Action.wlp_pure.mpr tidy)
  | ADD | MUL | SUB | DIV | SDIV | MOD | SMOD | SIGNEXTEND | LT | GT | SLT | SGT | EQ | AND | OR
  | XOR | BYTE | SHL | SHR | SAR =>
    exact wlp_on_state.mpr (binary_live tidy below bound (meets.operands (by decide)))
  | ISZERO | NOT => exact wlp_on_state.mpr (unary_live tidy below bound (meets.operands (by decide)))
  | ADDMOD => exact wlp_on_state.mpr (addmod_live tidy below bound (meets.operands (by decide)))
  | MULMOD => exact wlp_on_state.mpr (mulmod_live tidy below bound (meets.operands (by decide)))
  | EXP =>
    exact wlp_on_state.mpr (exp_live tidy below bound (meets.operands (by decide)))
  | KECCAK256 =>
    exact wlp_on_state.mpr (keccak256_live tidy below bound (meets.operands (by decide)))
  | ADDRESS | CALLER | CALLVALUE | CALLDATASIZE | CODESIZE | RETURNDATASIZE | MSIZE =>
    exact wlp_on_state.mpr (Action.wlp_bind.mpr (Action.wlp_get.mpr
      (push_word_live tidy bound nonneg (limit ▸ le_max_right _ _))))
  | PUSH0 => exact wlp_on_state.mpr (push_word_live tidy bound nonneg (limit ▸ le_max_right _ _))
  | ORIGIN | GASPRICE | COINBASE | TIMESTAMP | NUMBER | PREVRANDAO | GASLIMIT | CHAINID | BASEFEE
  | BLOBBASEFEE => exact push_tx_live tidy bound nonneg (limit ▸ le_max_right _ _)
  | BALANCE =>
    exact query_account_live tidy below bound (fun _ _ _ each => wlp_ask (hosted.get_balance _) each)
      (meets.operands (by decide))
  | EXTCODEHASH =>
    exact query_account_live tidy below bound (fun _ _ _ each => wlp_ask (hosted.get_code_hash _) each)
      (meets.operands (by decide))
  | EXTCODESIZE =>
    refine query_account_live tidy below bound (fun _ _ _ each => ?_) (meets.operands (by decide))
    exact Action.wlp_bind.mpr (wlp_ask (hosted.get_code_size _) fun _ _ => Action.wlp_pure.mpr (each _ _))
  | CALLDATALOAD =>
    exact wlp_on_state.mpr (calldataload_live tidy below bound (meets.operands (by decide)))
  | CALLDATACOPY =>
    exact wlp_on_state.mpr (calldatacopy_live tidy below bound (meets.operands (by decide)))
  | CODECOPY =>
    exact wlp_on_state.mpr (codecopy_live tidy below bound (meets.operands (by decide)))
  | EXTCODECOPY =>
    exact extcodecopy_live tidy below bound (meets.operands (by decide))
  | RETURNDATACOPY =>
    exact wlp_on_state.mpr (returndatacopy_live tidy below bound (meets.operands (by decide)))
  | BLOCKHASH => exact blockhash_live tidy below bound (meets.operands (by decide))
  | BLOBHASH => exact blobhash_live tidy below bound (meets.operands (by decide))
  | SELFBALANCE => exact selfbalance_live tidy bound nonneg (limit ▸ le_max_right _ _)
  | MLOAD | MLOAD8 | MLOAD16 | MLOAD32 | MLOAD64 =>
    exact wlp_on_state.mpr (mload_live tidy below bound (meets.operands (by decide)))
  | MSTORE | MSTORE8 | MSTORE16 | MSTORE32 | MSTORE64 =>
    exact wlp_on_state.mpr (mstore_live tidy below bound (meets.operands (by decide)))
  | SLOAD =>
    exact sload_live tidy below bound (meets.operands (by decide))
  | SSTORE =>
    exact sstore_live tidy below bound (meets.operands (by decide))
  | JUMP =>
    exact wlp_on_state.mpr (jump_live tidy below bound (meets.operands (by decide)))
  | JUMPI =>
    exact wlp_on_state.mpr (jumpi_live tidy below bound (meets.operands (by decide)))
  | PC =>
    refine wlp_on_state.mpr (Action.wlp_bind.mpr ?_)
    exact (push_word_live tidy bound nonneg (limit ▸ le_max_right _ _)).mono
      fun _ _ tidy' => Action.wlp_pure.mpr tidy'
  | GAS =>
    refine wlp_on_state.mpr (Action.wlp_bind.mpr ?_)
    exact (push_word_live tidy bound nonneg (limit ▸ le_max_right _ _)).mono
      fun _ _ tidy' => Action.wlp_pure.mpr tidy'
  | TLOAD => exact tload_live tidy below bound (meets.operands (by decide))
  | TSTORE =>
    exact tstore_live tidy below bound (meets.operands (by decide))
  | MCOPY =>
    exact wlp_on_state.mpr (mcopy_live tidy below bound (meets.operands (by decide)))
  | PUSH n =>
    exact wlp_on_state.mpr (push_live tidy bound (limit ▸ le_max_right _ _) nonneg reach)
  | DUP n =>
    have deep : (n.val : Int) + 1 ≤ h := meets.operands (show (n.val : Int) + 1 > 0 by omega)
    exact wlp_on_state.mpr (dup_slot_live tidy bound (by omega) (by omega) (limit ▸ le_max_right _ _))
  | DUP_TOP =>
    exact wlp_on_state.mpr (dup_top_live tidy below bound (meets.operands (by decide)) reach)
  | SWAP n =>
    have deep : (n.val : Int) + 2 ≤ h := meets.operands (show (n.val : Int) + 2 > 0 by omega)
    exact wlp_on_state.mpr (swap_slots_live tidy below bound (by omega) (Or.inr (by omega)))
  | SWAP_TOP =>
    exact wlp_on_state.mpr (swap_top_live tidy below bound (meets.operands (by decide)) reach (allowed rfl))
  | LOG n =>
    by_cases one : n.val = 1
    · obtain rfl : n = 1 := Fin.ext one
      exact wlp_on_state.mpr (Action.wlp_pure.mpr tidy)
    · simp only [map_opcodes, if_neg one]
      trivial
  | PRINTF => trivial
  | DUPN =>
    exact wlp_on_state.mpr (dupn_live tidy bound nonneg (limit ▸ le_max_right _ _))
  | SWAPN =>
    exact wlp_on_state.mpr (swapn_live tidy below bound)
  | CREATE =>
    exact create_impl_live tidy below bound .CREATE (meets.operands (by decide))
  | CREATE2 =>
    exact create_impl_live tidy below bound .CREATE2 (meets.operands (by decide))
  | CALL =>
    exact call_impl_live tidy below bound .CALL (meets.operands (by decide))
  | CALLCODE =>
    exact call_impl_live tidy below bound .CALLCODE (meets.operands (by decide))
  | DELEGATECALL =>
    exact call_impl_live tidy below bound .DELEGATECALL (meets.operands (by decide))
  | STATICCALL =>
    exact call_impl_live tidy below bound .STATICCALL (meets.operands (by decide))
  | RETURN | REVERT => contradiction
  | SELFDESTRUCT =>
    exact selfdestruct_live tidy below bound (meets.operands (by decide))
  | RJUMP | RJUMPI | RJUMPV | CALLF | RETF | JUMPF | DATALOAD | DATALOADN | DATASIZE | DATACOPY =>
    exact (legacy (by decide)).elim

/-- The frame stays tidy until it comes to its end. -/
theorem stack_bounds_invoke :
    Action.wlp (live id swaps nested top) (invoke_impl (map_opcodes host op) pos h left)
      (fun next e => LeftTidy id e.state ∧ (next.1 ≠ none → Tidy id e.state)) exec := by
  cases returns : op.returns with
  | false =>
    have leaves : (map_opcodes host op).Leaves (live id swaps nested top) pos h left
        (fun e => Tidy id e.state) exec :=
      stack_bounds_step limit reach allowed meets nonneg small tidy returns
    exact (leaves.invoke_impl (fun _ _ tidy' => tidy') tidy).mono
      fun _ _ tidy' => ⟨tidy'.left_tidy, fun _ => tidy'⟩
  | true =>
    have below : h ≤ top := by omega
    have bound : top ≤ 1024 := by
      have := meets.toFits.range nonneg small
      omega
    have returned {status : StatusCode} (operands : 2 ≤ h) :
        Action.wlp (live id swaps nested top)
          (invoke_impl (.term fun s g => on_state (return_impl status s g)) pos h left)
          (fun next e => LeftTidy id e.state ∧ (next.1 ≠ none → Tidy id e.state)) exec := by
      refine wlp_term (wlp_on_state.mpr ((return_impl_live tidy below bound operands).mono ?_))
      exact fun _ _ settled => ⟨settled, fun going => absurd rfl going⟩
    cases op with
    | RETURN | REVERT => exact returned (meets.operands (by decide))
    | _ => contradiction

end

/-- The height from which on a slot is neither live nor the one that is pushed. -/
def Config.stack_limit (c : Config H) : Int :=
  match c.opcode with
  | some op => max c.stack_top (c.stack_top + stack_height_change op)
  | none => c.stack_top

/-- The height is that of a stack, and so are the addresses of all entries on it. -/
structure StackBounded (c : Config H) : Prop where
  nonneg : 0 ≤ c.stack_top
  bound : c.stack_top ≤ 1024
  addressed : StackAddressed c.exec.state
  tidy : c.code_it ≠ none → Tidy c.exec.state.call_id c.exec.state

instance {id : Nat} {swaps : Prop} {top : Int} {host : Host H} : Hosted (live id swaps any_event top) host := by
  have any {α : Type} (m : Action Event H α) (h : H) :
      Action.wlp ((live id swaps any_event top).comap .nested) m (fun _ _ => True) h :=
    .of_ensures (fun _ => trivial) fun _ _ _ => trivial
  constructor
  all_goals
    intros
    exact any _ _

/-- What instructions do with the stack includes that they touch it below `top`. -/
theorem live_touches {α : Type} {m : Instr H α} {Q : α → Exec H → Prop} {exec : Exec H} {id : Nat} {top : Int}
    (keeps : Action.wlp (live id True any_event top) m Q exec) : Action.wlp (stack_bounds top) m Q exec := by
  refine keeps.weaken (fun e _ => ?_) fun e ensured => ?_
  · cases e <;> trivial
  · cases e with
    | stack_access => exact ensured
    | _ => trivial

theorem StackBounded.turn [Ethash] {host : Host H} {rev : Revision} {c : Config H} {code_it : Int}
    (bounded : StackBounded c) (at_it : c.code_it = some code_it) :
    Action.wlp (stack_bounds c.stack_limit)
      (EvmAssigner.turn host (legacy_cost_table rev) code_it c.stack_top c.gas) (fun next e =>
        next.code_it ≠ none ∨ e.state.status = .SUCCESS →
          StackBounded (⟨next.code_it, next.stack_top, next.gas, e⟩ : Config H)) c.exec := by
  refine wlp_turn_leads ⟨trivial, trivial⟩ ?_ fun op name step meets _ => ?_
  · intro status left failure _ success
    rcases success with going | success
    · exact absurd rfl going
    · exact absurd success failure
  · have limit : c.stack_limit = max c.stack_top (c.stack_top + stack_height_change op) := by
      simp [Config.stack_limit, Config.opcode, at_it, name]
    obtain ⟨lower, upper⟩ := meets.toFits.range bounded.nonneg bounded.bound
    have tidy := bounded.tidy (by simp [at_it])
    refine live_touches ((stack_bounds_invoke limit (step op name) (fun _ => trivial) meets bounded.nonneg
      bounded.bound tidy).mono fun next e ⟨settled, going⟩ _ => ⟨lower, upper, settled.1, fun goes => ?_⟩)
    obtain ⟨addressed, _, output⟩ := going goes
    exact ⟨addressed, rfl, output⟩

theorem StackBounded.run [Ethash] {host : Host H} {rev : Revision} {c c' : Config H} {es : List Event}
    (bounded : StackBounded c) (run : Run host (legacy_cost_table rev) c es c')
    (reaches : ∀ e ∈ es, StackReaches e) : StackBounded c' := by
  induction run with
  | start => exact bounded
  | @next es es' c' c'' run executes ih =>
    obtain ⟨succeeds, code_it, at_it, h⟩ := executes
    have reached := ih fun e member => reaches e (List.mem_append_left _ member)
    exact ((reached.turn at_it).returns_of_eq h
      fun e member => reaches e (List.mem_append_right _ member)).2 succeeds

/-- Wherever a run of legacy code gets to, the next instruction stays on the live stack. -/
theorem stack_accesses_live [Ethash] (host : Host H) (rev : Revision) (code : Bytes) (msg : Message)
    (call_id : Nat) (heap : Nat → UInt8) (h : H) {es : List Event} {c : Config H} {code_it : Int}
    (run : Run host (get_baseline_cost_table rev (analyze_legacy code).eof_header.version)
      (.start (.new msg rev code [] call_id (analyze_legacy code) heap) h) es c)
    (reaches : ∀ e ∈ es, StackReaches e) (at_it : c.code_it = some code_it)
    (reach : ∀ e ∈ (turn host (get_baseline_cost_table rev (analyze_legacy code).eof_header.version)
      code_it c.stack_top c.gas).events c.exec, StackReaches e) :
    (0 ≤ c.stack_top ∧ c.stack_top ≤ 1024) ∧ StackAddressed c.exec.state ∧
      ∀ slot, Event.stack_access slot ∈
        (turn host (get_baseline_cost_table rev (analyze_legacy code).eof_header.version) code_it
          c.stack_top c.gas).events c.exec → 0 ≤ slot ∧ slot < c.stack_limit := by
  have empty {o : rw_operation} {p : Prop} (member : o ∈ []) : p := absurd member List.not_mem_nil
  have bounded : StackBounded c := StackBounded.run ⟨le_rfl, show (0 : Int) ≤ 1024 by decide,
    fun o member => empty member, fun _ => ⟨fun o member => empty member, rfl, rfl⟩⟩ run reaches
  have promises := (Action.Contract.After.ensures (bounded.turn at_it) reach).1
  exact ⟨⟨bounded.nonneg, bounded.bound⟩, bounded.addressed, fun slot touches => promises _ touches⟩

/-- Two bytes are pushed, the item below them copied to the top, and this exchanged with the item below it. -/
def reaching_code : Bytes := [0x60, 7, 0x61, 0, 9, 0x60, 1, 0xa7, 0x60, 0, 0xa6]

theorem stack_accesses_live_swap_top : ∃ es c, @Run Unit no_hash empty_host (legacy_cost_table .SHANGHAI)
    (code_config .SHANGHAI reaching_code 100) es c ∧ c.opcode = some .SWAP_TOP ∧
      (0 ≤ c.stack_top ∧ c.stack_top ≤ 1024) ∧ StackAddressed c.exec.state ∧
        ∀ slot, Event.stack_access slot ∈ (@turn Unit no_hash empty_host (legacy_cost_table .SHANGHAI) 10 c.stack_top
          c.gas).events c.exec → 0 ≤ slot ∧ slot < c.stack_limit := by
  have values : (@traced_turns Unit no_hash empty_host (legacy_cost_table .SHANGHAI) 5
      (code_config .SHANGHAI reaching_code 100)).map (fun r : List Event × Config Unit =>
        (decide (∀ e ∈ r.1, StackReaches e), r.2.code_it, r.2.opcode,
          decide (∀ e ∈ (@turn Unit no_hash empty_host (legacy_cost_table .SHANGHAI) 10 r.2.stack_top
            r.2.gas).events r.2.exec, StackReaches e))) = some (true, some 10, some .SWAP_TOP, true) := by
    decide +kernel
  obtain ⟨⟨es, c⟩, reached, values⟩ := Option.map_eq_some_iff.mp values
  simp only [Prod.mk.injEq] at values
  obtain ⟨reaches, at_it, opcode, reach⟩ := values
  have run := @Run.traced Unit no_hash _ _ _ _ _ _ reached
  exact ⟨es, c, run, opcode, @stack_accesses_live Unit no_hash empty_host .SHANGHAI reaching_code { gas := 100 } 0
    (fun _ => 0) () es c 10 run (of_decide_eq_true reaches) at_it (of_decide_eq_true reach)⟩

/-- The slot of the stack that an event touches. -/
def Event.slot : Event → Option Int
  | .stack_access slot => some slot
  | _ => none

theorem slot_mem {es : List Event} {slot : Int} (member : some slot ∈ es.map Event.slot) :
    Event.stack_access slot ∈ es := by
  obtain ⟨e, emitted, touched⟩ := List.mem_map.mp member
  cases e with
  | stack_access _ =>
    obtain rfl := Option.some.inj touched
    exact emitted
  | _ => contradiction

/-- `PUSH2` on the empty stack records the slot below it, under an address that is no slot's. -/
theorem stack_access_push2 : Event.stack_access (-1) ∈
    (@turn Unit no_hash empty_host (legacy_cost_table .SHANGHAI) 0 0 100).events
      (code_config .SHANGHAI [0x61, 1, 2] 100).exec ∧
    ∃ es c, @Run Unit no_hash empty_host (legacy_cost_table .SHANGHAI)
      (code_config .SHANGHAI [0x61, 1, 2] 100) es c ∧ ¬ StackAddressed c.exec.state := by
  refine ⟨slot_mem (by decide +kernel), ?_⟩
  have values : (@turns Unit no_hash empty_host (legacy_cost_table .SHANGHAI) 1
      (code_config .SHANGHAI [0x61, 1, 2] 100)).map (fun c =>
        c.exec.state.rw_trace.map fun o => (o.op, o.address)) = some [(1, 0), (1, 65535)] := by
    decide +kernel
  obtain ⟨c, reached, entries⟩ := Option.map_eq_some_iff.mp values
  obtain ⟨es, run⟩ := @Run.turns Unit no_hash _ _ _ _ _ _ _ (@Run.start Unit no_hash _ _ _) reached
  refine ⟨es, c, run, fun addressed => ?_⟩
  have member : ((1 : UInt8), (65535 : Word)) ∈ c.exec.state.rw_trace.map fun o => (o.op, o.address) := by
    rw [entries]
    decide
  obtain ⟨o, recorded, same⟩ := List.mem_map.mp member
  obtain ⟨op, address⟩ := Prod.mk.inj same
  have small := addressed o recorded op
  rw [address] at small
  exact absurd small (by decide)

end EvmAssigner
