import EvmAssigner.Runs

namespace EvmAssigner
variable {H : Type}

/-- What the trace says slot `a` holds. -/
def ExecutionState.carried (s : ExecutionState) (a : Nat) : Option Word :=
  (last_write STACK_OP (BitVec.ofNat 256 a) s.rw_trace).map rw_operation.value

/-- Replaying the trace rebuilds the `stack_top` items of the stack. -/
def StackSynced (stack_top : Int) (s : ExecutionState) : Prop :=
  ∀ a : Nat, (a : Int) < stack_top → s.carried a = some (s.stack_space a)

/-- What goes wrong in `MULMOD` and in the swaps leaves no mark: the word that is not recorded where
it belongs is the one that was there before. -/
def StackStep (op : Opcode) (stack_top : Int) (s : ExecutionState) : Prop :=
  match op with
  | .MULMOD => s.stack_space (stack_top - 3) = 0
  | .SWAP n => s.stack_space (stack_top - 1) = s.stack_space (stack_top - 1 - (n.val + 1 : Nat))
  | .SWAP_TOP => s.stack_space (stack_top - 2) =
      s.stack_space (stack_top - 2 - uint16 (s.stack_space (stack_top - 1)).to_uint64)
  | _ => True

instance {op : Opcode} {stack_top : Int} {s : ExecutionState} : Decidable (StackStep op stack_top s) := by
  unfold StackStep
  split <;> infer_instance

/-- Nor does it where a call or a creation gives up early, leaving a zero in place of an operand. -/
def StackFaithful : Event → Prop
  | .step op stack_top _ s => ∀ name, Opcode.of_byte op = some name → StackStep name stack_top s
  | .light_failure operand => operand = 0
  | _ => True

instance : DecidablePred StackFaithful := fun e => by
  unfold StackFaithful
  casesm Event <;> first | exact Option.decidableForallMem _ | infer_instance

/-- Under which the stack is looked at; nothing is promised of the events. -/
def stack_contract : Action.Contract Event := ⟨StackFaithful, fun _ => True⟩

instance : Quiet stack_contract where
  assertion_failed _ := ⟨trivial, trivial⟩
  stack_access _ := ⟨trivial, trivial⟩
  memory_access _ _ _ := ⟨trivial, trivial⟩
  code_access _ _ := ⟨trivial, trivial⟩
  vector_access _ _ := ⟨trivial, trivial⟩
  step _ _ _ _ := trivial
  nested _ := trivial

theorem uint16_lt (x : Int) : uint16 x < 2 ^ 16 := by
  unfold uint16
  omega

/-- A slot above the bottom is recorded under its number, one below it out of reach. -/
theorem stack_address_eq {a : Nat} {stack i : Int} (nonneg : 0 ≤ stack) (bound : stack ≤ 1024)
    (lower : -1 ≤ i) (upper : i < 2 ^ 16 - 1) (live : (a : Int) ≤ stack) :
    a = stack_address stack i ↔ (a : Int) = stack - 1 - i := by
  unfold stack_address uint16 stack_size
  split <;> omega

theorem carried_record {s : ExecutionState} {a : Nat} {stack i : Int} (small : a < 2 ^ 16) :
    (s.record stack i true).carried a =
      if a = stack_address stack i then some (s.stack_space (stack - 1 - i)) else s.carried a := by
  have same : BitVec.ofNat 256 (stack_address stack i) = BitVec.ofNat 256 a ↔
      a = stack_address stack i := by
    have within := uint16_lt (stack_size stack - (i + 1))
    rw [← BitVec.toNat_inj, BitVec.toNat_ofNat, BitVec.toNat_ofNat, stack_address,
      Nat.mod_eq_of_lt (by omega), Nat.mod_eq_of_lt (by omega)]
    omega
  unfold ExecutionState.carried
  rw [ExecutionState.record_rw_trace, last_write_append]
  simp only [stack_operation, same, true_and]
  split <;> rfl

/-- The parts of the state by which the stack is rebuilt stay as they are. -/
structure KeepsStack (s s' : ExecutionState) : Prop where
  stack_space : s'.stack_space = s.stack_space
  carried : ∀ a, s'.carried a = s.carried a

namespace KeepsStack
variable {s s' s'' : ExecutionState}

theorem refl (s : ExecutionState) : KeepsStack s s := ⟨rfl, fun _ => rfl⟩

theorem trans (h : KeepsStack s s') (h' : KeepsStack s' s'') : KeepsStack s s'' :=
  ⟨h'.stack_space.trans h.stack_space, fun a => (h'.carried a).trans (h.carried a)⟩

theorem record (s : ExecutionState) (stack i : Int) : KeepsStack s (s.record stack i false) where
  stack_space := rfl
  carried a := by
    unfold ExecutionState.carried
    rw [ExecutionState.record_rw_trace, last_write_append]
    simp [stack_operation]

theorem set_memory (s : ExecutionState) (memory : Memory) : KeepsStack s (s.set_memory memory) :=
  ⟨rfl, fun _ => rfl⟩

theorem add_refund (s : ExecutionState) (refund : Int) : KeepsStack s (s.add_refund refund) :=
  ⟨rfl, fun _ => rfl⟩

theorem set_return_data (s : ExecutionState) (data : Bytes) : KeepsStack s (s.set_return_data data) :=
  ⟨rfl, fun _ => rfl⟩

/-- Entries on anything else do not count. -/
theorem push_rw (s : ExecutionState) {o : rw_operation} (other : o.op ≠ STACK_OP) :
    KeepsStack s (s.push_rw o) where
  stack_space := rfl
  carried a := by
    unfold ExecutionState.carried
    rw [ExecutionState.push_rw_rw_trace, last_write_append, if_neg (fun h => other h.1)]

theorem push_storage (s : ExecutionState) {id rw_id : Nat} {address key value value_prev : Word}
    {is_write : Bool} : KeepsStack s
      (s.push_rw (storage_operation id address key rw_id is_write value value_prev)) :=
  .push_rw s (show STORAGE_OP ≠ STACK_OP by decide)

theorem push_memory (s : ExecutionState) {id rw_id : Nat} {address value : Word} {is_write : Bool} :
    KeepsStack s (s.push_rw (memory_operation id address rw_id is_write value)) :=
  .push_rw s (show MEMORY_OP ≠ STACK_OP by decide)

end KeepsStack

namespace StackSynced
variable {s s' : ExecutionState} {h h' : Int}

theorem mono (synced : StackSynced h s) (less : h' ≤ h) : StackSynced h' s :=
  fun a live => synced a (by omega)

theorem keeps (synced : StackSynced h s) (keeps : KeepsStack s s') : StackSynced h s' := by
  intro a live
  rw [keeps.carried, keeps.stack_space]
  exact synced a live

theorem read (synced : StackSynced h s) (stack i : Int) : StackSynced h (s.record stack i false) :=
  synced.keeps (.record s stack i)

theorem set_slot (synced : StackSynced h s) {slot : Int} (above : h ≤ slot) (v : Word) :
    StackSynced h (s.set_slot slot v) := by
  intro a live
  have other : (a : Int) ≠ slot := by omega
  rw [ExecutionState.set_slot_stack_space, if_neg other]
  exact synced a live

/-- The item on the top is recorded. -/
theorem write_top (synced : StackSynced (h - 1) s) (positive : 0 < h) (bound : h ≤ 1024) :
    StackSynced h (s.record h 0 true) := by
  intro a live
  rw [carried_record (by omega)]
  by_cases top : (a : Int) = h - 1 - 0
  · have at_top := (stack_address_eq (by omega) bound (by omega) (by omega) (by omega)).mpr top
    rw [if_pos at_top, ← top]
    rfl
  · have below := mt (stack_address_eq (by omega) bound (by omega) (by omega) (by omega)).mp top
    rw [if_neg below]
    exact synced a (by omega)

/-- An item is recorded once more. -/
theorem write (synced : StackSynced h s) {stack i : Int} (lower : -1 ≤ i) (upper : i < 2 ^ 16 - 1)
    (nonneg : 0 ≤ stack) (bound : stack ≤ 1024) (less : h ≤ stack) :
    StackSynced h (s.record stack i true) := by
  intro a live
  rw [carried_record (by omega)]
  by_cases at_slot : (a : Int) = stack - 1 - i
  · rw [if_pos ((stack_address_eq nonneg bound lower upper (by omega)).mpr at_slot), ← at_slot]
    rfl
  · rw [if_neg (mt (stack_address_eq nonneg bound lower upper (by omega)).mp at_slot)]
    exact synced a live

/-- A result takes its place on the stack. -/
theorem put (synced : StackSynced h s) (positive : 0 < h') (bound : h' ≤ 1024) (less : h' - 1 ≤ h)
    {slot : Int} (top : slot = h' - 1) (v : Word) :
    StackSynced h' ((s.set_slot slot v).record h' 0 true) :=
  ((synced.mono less).set_slot (by omega) v).write_top positive bound

end StackSynced

section
variable {s : ExecutionState} {gas_left : Int}

theorem record_memory_keeps {address : Word} {is_write : Bool} {value : UInt8} :
    Action.wlp stack_contract (record_memory address is_write value) (fun _ s' => KeepsStack s s') s := by
  simp only [record_memory, Action.wlp_bind, Action.wlp_get, wlp_assert_that, Action.wlp_emit,
    Action.wlp_modify]
  exact fun _ => ⟨trivial, .push_memory s⟩

/-- Recording bytes of the memory does not touch the stack. -/
theorem wlp_record_bytes_keeps {address : Nat → Word} {is_write : Bool} {data : Bytes}
    {Q : Unit → ExecutionState → Prop} (each : ∀ s', KeepsStack s s' → Q () s') :
    Action.wlp stack_contract (record_bytes address is_write data) Q s := by
  refine (Action.wlp_forEach (I := fun _ s' => KeepsStack s s') ?_ (.refl s)).mono fun _ => each
  intro _ j _ s' _ keeps
  exact record_memory_keeps.mono fun _ _ => keeps.trans

theorem wlp_record_operands_keeps {n : Nat} {stack : Int}
    {Q : Unit → ExecutionState → Prop} (each : ∀ s', KeepsStack s s' → Q () s') :
    Action.wlp stack_contract (record_operands n stack) Q s := by
  refine (Action.wlp_forEach (I := fun _ s' => KeepsStack s s') ?_ (.refl s)).mono fun _ => each
  intro _ i _ s' _ keeps
  exact wlp_record_stack.mpr (keeps.trans (.record s' stack i))

theorem Checked.keeps {offset : Word} {size : Nat} {ok : Bool} {left : Int} {s' : ExecutionState}
    (checked : Checked s gas_left offset size ok left s') : KeepsStack s s' := by
  rcases checked.grown with rfl | ⟨n, _, _, rfl⟩
  · exact .refl _
  · exact .set_memory _ _

theorem wlp_check_memory_keeps {offset size : Word} {Q : Bool × Int → ExecutionState → Prop}
    (each : ∀ ok left s', KeepsStack s s' → Q (ok, left) s') :
    Action.wlp stack_contract (check_memory gas_left offset size) Q s :=
  wlp_check_memory fun ok left s' checked _ => each ok left s' checked.keeps

theorem wlp_check_memory_size_keeps {offset : Word} {size : Nat} (small : size < 2 ^ 32)
    {Q : Bool × Int → ExecutionState → Prop}
    (each : ∀ ok left s', KeepsStack s s' → Q (ok, left) s') :
    Action.wlp stack_contract (check_memory_size gas_left offset size) Q s :=
  wlp_check_memory_size small fun ok left s' checked => each ok left s' checked.keeps

end
end EvmAssigner
