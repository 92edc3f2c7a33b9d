import EvmAssigner.Lib.TwoRuns
import EvmAssigner.Steps

namespace EvmAssigner
variable {H : Type}

/-- The words below a stack, and the bytes behind a memory. -/
structure Outside where
  slot : Int → Word
  byte : Nat → UInt8

/-- What may be different about a frame without its noticing: it has more gas, there are entries in its trace that are
older than the frame, and its own go by another id. Below its stack and behind its memory there may be anything, as long
as it stays off that. -/
structure Variation where
  gas : Int := 0
  older : List rw_operation := []
  id : Nat → Nat := fun id => id
  outside : Option Outside := none
  nonneg : 0 ≤ gas := by decide

/-- Nothing below the stack is touched, and nothing behind the memory. -/
def Event.StaysInside : Event → Prop
  | .stack_access slot => 0 ≤ slot
  | .memory_access index count size => Within index count size
  | _ => True

instance : DecidablePred Event.StaysInside := fun e => by
  unfold Event.StaysInside
  casesm Event <;> infer_instance

namespace Variation
variable (v : Variation)

/-- What a frame may do for its not noticing. -/
def Allows (e : Event) : Prop := v.outside = none ∨ e.StaysInside

def entry (o : rw_operation) : rw_operation := { o with id := v.id o.id, rw_id := v.older.length + o.rw_id }

def stack (space : Int → Word) : Int → Word := fun slot =>
  match v.outside with
  | none => space slot
  | some outside => if slot < 0 then outside.slot slot else space slot

@[simps] def memory (memory : Memory) : Memory where
  m_data k :=
    match v.outside with
    | none => memory.m_data k
    | some outside => if memory.m_size ≤ k then outside.byte k else memory.m_data k
  m_size := memory.m_size
  m_capacity := memory.m_capacity

@[simps] def state (s : ExecutionState) : ExecutionState :=
  { s with
    msg := { s.msg with gas := s.msg.gas + v.gas }
    call_id := v.id s.call_id
    rw_trace := v.older ++ s.rw_trace.map v.entry
    stack_space := v.stack s.stack_space
    memory := v.memory s.memory }

@[simps] def exec (e : Exec H) : Exec H := { e with state := v.state e.state }

/-- With more gas nothing is known of what comes of a failure. -/
def result (o : InstructionResult) : Option InstructionResult :=
  if v.gas = 0 ∨ o.status = .SUCCESS ∨ o.status = .REVERT then some { o with gas_left := o.gas_left + v.gas } else none

/-- The same for a charge that may fail. -/
def checked (o : Bool × Int) : Option (Bool × Int) :=
  if v.gas = 0 ∨ o.1 = true then some (o.1, o.2 + v.gas) else none

end Variation

open EvmAssigner.Action (Alike Follows)

section
variable {v : Variation} {α β : Type}

instance follows_on_state {R : α → Option β} {m : Local α} {m' : Local β} [follows : Follows v.Allows v.state R m m'] :
    Follows v.Allows v.exec R (on_state m : Instr H α) (on_state m' : Instr H β) :=
  follows.zoom_of (fun _ allowed => allowed) (fun _ => rfl) fun _ _ => rfl

instance follows_liftM {R : α → Option β} {m : Local α} {m' : Local β} [Follows v.Allows v.state R m m'] :
    Follows v.Allows v.exec R (liftM m : Instr H α) (liftM m' : Instr H β) :=
  follows_on_state

instance alike_on_host {m : Action Event H α} : Alike v.Allows v.exec (on_host m : Instr H α) (on_host m) :=
  have alike : Alike (fun _ => True) id m m := Action.alike_refl m
  alike.zoom_of (fun _ _ => trivial) (fun _ => rfl) fun _ _ => rfl

/-! Of the state an instruction looks at nothing that is different. -/

instance alike_assert {what : Assertion} {c c' : Prop} [Decidable c] [Decidable c'] :
    Alike v.Allows v.state (assert_that what c) (assert_that what c') := by
  refine ⟨fun {s _ _ _} _ ran made => ?_⟩
  unfold assert_that at ran ⊢
  split at ran <;> split <;> (cases ran; cases made; rfl)

theorem alike_reads {f : ExecutionState → α} (same : ∀ s, f (v.state s) = f s) :
    Alike v.Allows v.state (Action.gets f : Local α) (Action.gets f : Local α) :=
  Action.alike_gets same

theorem alike_changes {f : ExecutionState → ExecutionState} (same : ∀ s, f (v.state s) = v.state (f s)) :
    Alike v.Allows v.state (Action.modify f : Local Unit) (Action.modify f : Local Unit) :=
  Action.alike_modify same

theorem Variation.stack_inside {slot : Int} (allowed : v.Allows (.stack_access slot)) (space : Int → Word) :
    v.stack space slot = space slot := by
  unfold stack
  split
  · rfl
  · rename_i outside some
    exact if_neg (not_lt.mpr (allowed.resolve_left (by rw [some]; exact Option.some_ne_none outside)))

theorem Variation.state_set_slot {slot : Int} (allowed : v.Allows (.stack_access slot)) (s : ExecutionState)
    (w : Word) : (v.state s).set_slot slot w = v.state (s.set_slot slot w) := by
  have same : ((v.state s).set_slot slot w).stack_space = v.stack (s.set_slot slot w).stack_space := by
    funext a
    by_cases here : a = slot
    · subst here
      rw [v.stack_inside allowed, ExecutionState.set_slot_stack_space, ExecutionState.set_slot_stack_space]
      simp
    · simp [Variation.stack, here]
  unfold ExecutionState.set_slot at same ⊢
  unfold Variation.state at same ⊢
  exact congrArg (fun space => { v.state s with stack_space := space }) same

theorem Variation.memory_inside {k count : Nat} (memory : Memory)
    (allowed : v.Allows (.memory_access k count memory.m_size)) {j : Nat} (within : j < count) :
    (v.memory memory).m_data (k + j) = memory.m_data (k + j) := by
  rw [memory_m_data]
  split
  · rfl
  · rename_i outside some
    have inside : Within k count memory.m_size :=
      allowed.resolve_left (by rw [some]; exact Option.some_ne_none outside)
    exact if_neg (by rcases inside with empty | room <;> omega)

instance alike_stack_get {stack i : Int} : Alike v.Allows v.state (stack_get stack i) (stack_get stack i) :=
  .emit_of fun allowed => alike_reads fun s => v.stack_inside allowed s.stack_space

instance alike_stack_set {stack i : Int} {w : Word} :
    Alike v.Allows v.state (stack_set stack i w) (stack_set stack i w) :=
  .emit_of fun allowed => alike_changes fun s => v.state_set_slot allowed s w

theorem Variation.state_push_rw (s : ExecutionState) (o : rw_operation) :
    (v.state s).push_rw (v.entry o) = v.state (s.push_rw o) := by
  simp [ExecutionState.push_rw, state]

instance alike_record_stack {stack i : Int} {is_write : Bool} :
    Alike v.Allows v.state (record_stack stack i is_write) (record_stack stack i is_write) := by
  refine .get_of (fun _ => rfl) fun _ => .bind inferInstance fun _ => .bind inferInstance fun _ => ?_
  refine .emit_of fun allowed => alike_changes fun s => ?_
  rw [ExecutionState.record, ExecutionState.record, ← v.state_push_rw]
  simp [Variation.entry, stack_operation, v.stack_inside allowed]

theorem alike_push_rw {o o' : rw_operation} (same : o' = v.entry o) :
    Alike v.Allows v.state (Action.modify fun s => s.push_rw o : Local Unit)
      (Action.modify fun s => s.push_rw o' : Local Unit) :=
  Action.alike_modify fun s => same ▸ v.state_push_rw s o

instance alike_record_memory {address : Word} {is_write : Bool} {value : UInt8} :
    Alike v.Allows v.state (record_memory address is_write value) (record_memory address is_write value) := by
  refine .get_of (fun _ => rfl) fun s => ?_
  have same : memory_operation (v.id s.call_id) address (v.older ++ s.rw_trace.map v.entry).length is_write
      (BitVec.ofNat 256 value.toNat) = v.entry (memory_operation s.call_id address s.rw_trace.length is_write
        (BitVec.ofNat 256 value.toNat)) := by
    simp [Variation.entry, memory_operation]
  exact .bind inferInstance fun _ => .bind inferInstance fun _ => alike_push_rw same

instance alike_record_storage {address storage_key : Word} {is_write : Bool} {value value_prev : Word} :
    Alike v.Allows v.state (record_storage address storage_key is_write value value_prev)
      (record_storage address storage_key is_write value value_prev) := by
  refine .get_of (fun _ => rfl) fun s => ?_
  have same : storage_operation (v.id s.call_id) address storage_key (v.older ++ s.rw_trace.map v.entry).length
      is_write value value_prev = v.entry (storage_operation s.call_id address storage_key s.rw_trace.length is_write
        value value_prev) := by
    simp [Variation.entry, storage_operation]
  exact .bind inferInstance fun _ => alike_push_rw same

instance alike_memory_load {k count : Nat} : Alike v.Allows v.state (memory_load k count) (memory_load k count) := by
  refine .get_of (fun _ => rfl) fun s => .emit_of fun allowed => .pure_of fun bytes made => ?_
  obtain rfl := Option.some.inj made
  exact List.map_congr_left fun j within => (v.memory_inside s.memory allowed (List.mem_range.mp within)).symm

theorem Variation.memory_store {k : Nat} {data : Bytes} (memory : Memory)
    (allowed : v.Allows (.memory_access k data.length memory.m_size)) :
    (v.memory memory).store k data = v.memory (memory.store k data) := by
  have same : ((v.memory memory).store k data).m_data = (v.memory (memory.store k data)).m_data := by
    funext a
    rw [Memory.store_m_data, memory_m_data, memory_m_data, Memory.store_m_data, Memory.store_m_size]
    split
    · rename_i stored
      split
      · rfl
      · rename_i outside some
        have inside : Within k data.length memory.m_size :=
          allowed.resolve_left (by rw [some]; exact Option.some_ne_none outside)
        exact (if_neg (by rcases inside with empty | room <;> omega)).symm
    · rfl
  exact congrArg (fun bytes => ({ v.memory memory with m_data := bytes } : Memory)) same

instance alike_memory_store {k : Nat} {data : Bytes} :
    Alike v.Allows v.state (memory_store k data) (memory_store k data) := by
  refine ⟨fun {s _ _ _} allowed ran made => ?_⟩
  obtain ⟨rfl, rfl⟩ := Prod.mk.inj (Option.some.inj ran)
  obtain rfl := Option.some.inj made
  have stored := v.memory_store s.memory (allowed _ (List.mem_singleton_self _))
  exact congrArg (fun memory => some ((), { v.state s with memory := memory })) stored

instance alike_host_store {dst : Nat} {data : Bytes} :
    Alike v.Allows v.state (host_store dst data) (host_store dst data) :=
  .get_of (fun _ => rfl) fun _ => .emit_of fun _ => inferInstance

instance alike_read_code {pos : Int} : Alike v.Allows v.state (read_code pos) (read_code pos) :=
  .get_same (fun _ => rfl) fun _ => inferInstance

end
end EvmAssigner
