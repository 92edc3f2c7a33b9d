import EvmAssigner.RwOrder
import EvmAssigner.Steps

namespace EvmAssigner
variable {H : Type}

def no_promises : Action.Contract Event := ⟨fun _ => True, fun _ => True⟩

instance : CodeQuiet no_promises := ⟨fun _ _ => ⟨trivial, trivial⟩⟩

instance : Unwatched no_promises where
  assertion_failed _ := ⟨trivial, trivial⟩
  vector_access _ _ := ⟨trivial, trivial⟩
  step _ _ _ _ := trivial
  nested _ := trivial
  stack_access _ := ⟨trivial, trivial⟩
  memory_access _ _ _ := ⟨trivial, trivial⟩
  memory_within _ := ⟨trivial, trivial⟩
  storage_entry _ := trivial
  light_failure _ := trivial
  host_call _ _ _ := trivial
  host_output _ _ _ := trivial
  memory_entry _ _ := trivial

/-- The entries of a trace are numbered, and belong to one call. -/
def Numbered (s : ExecutionState) : Prop :=
  ∀ (k : Nat) (o : rw_operation), s.rw_trace[k]? = some o → o.rw_id = k ∧ o.id = s.call_id

theorem numbered_push {s : ExecutionState} {o : rw_operation} (rw_id : o.rw_id = s.rw_trace.length)
    (id : o.id = s.call_id) (numbered : Numbered s) : Numbered (s.push_rw o) := by
  unfold Numbered
  rw [ExecutionState.push_rw_rw_trace, ExecutionState.push_rw_call_id]
  intro k o' at_k
  rcases Nat.lt_or_ge k s.rw_trace.length with within | past
  · exact numbered k o' (by rwa [List.getElem?_append_left within] at at_k)
  · rw [List.getElem?_append_right past] at at_k
    have last := (List.getElem?_eq_some_iff.mp at_k).1
    rw [List.length_singleton] at last
    obtain rfl : k = s.rw_trace.length := by omega
    rw [Nat.sub_self] at at_k
    obtain rfl : o = o' := Option.some.inj at_k
    exact ⟨rw_id, id⟩

theorem numbered_wide {P : Action.Contract Event} : Wide P Numbered where
  record _ _ _ numbered := numbered_push rfl rfl numbered
  push_storage _ _ _ _ _ numbered := numbered_push rfl rfl numbered
  set_slot _ _ inv := inv
  set_status _ inv := inv
  set_return_data _ inv := inv
  set_output _ _ inv _ := inv
  set_call_stack _ inv := inv
  add_refund _ inv := inv
  set_tx _ inv := inv
  grow inv _ _ := inv
  host_output inv _ _ := inv
  store _ _ inv := inv
  push_memory _ _ _ numbered := numbered_push rfl rfl numbered

/-- The bytes recorded so far, each with its offset in the memory, and the offset of the next one. -/
structure Tracked where
  next : Nat
  entries : List (rw_operation × Nat)

/-- The entries behind an access to the memory are for its bytes, one after the other. -/
def Tracked.event (g : Tracked) : Event → Tracked
  | .memory_access index _ _ => { g with next := index }
  | .memory_entry o _ => { next := g.next + 1, entries := g.entries ++ [(o, g.next)] }
  | _ => g

/-- The entries on memory of a run, with the offsets of the bytes that were accessed. -/
def memory_entries (es : List Event) : List (rw_operation × Nat) :=
  (es.foldl Tracked.event ⟨0, []⟩).entries

/-- The bytes of the source that are there to be copied. -/
def copied_bytes (source : Bytes) (index size : Word) : Nat :=
  min size.to_uint64 (source.length - min source.length index.to_uint64)

/-- An instruction records the bytes of the memory under their own offsets. -/
def AddressFits (op : Opcode) (stack_top : Int) (s : ExecutionState) : Prop :=
  let operand (i : Int) := s.stack_space (stack_top - i - 1)
  match op with
  | .KECCAK256 => (operand 1).to_uint64 ≠ 0 → (operand 0).to_uint64 < 2 ^ 32 → (operand 0).toNat < 2 ^ 64
  | .CALLDATACOPY => copied_bytes s.msg.input_data (operand 1) (operand 2) ≠ 0 →
      (operand 0).to_uint64 < 2 ^ 32 → (operand 0).toNat < 2 ^ 64
  | .CODECOPY => copied_bytes s.original_code (operand 1) (operand 2) ≠ 0 →
      (operand 0).to_uint64 < 2 ^ 32 → (operand 0).toNat < 2 ^ 64
  | .DATACOPY => copied_bytes s.data (operand 1) (operand 2) = 0 ∨
      (operand 2).to_uint64 ≤ copied_bytes s.data (operand 1) (operand 2)
  | _ => True

def AddressesFit : Event → Prop
  | .step op stack_top _ s => ∀ name, Opcode.of_byte op = some name → AddressFits name stack_top s
  | _ => True

/-- Every entry on memory has been tracked, under the offset it is recorded with. -/
structure MemoryFits (rw_trace : List rw_operation) (entries : List (rw_operation × Nat)) : Prop where
  all : rw_trace.filter (·.op = MEMORY_OP) = entries.map Prod.fst
  at_offset : ∀ p ∈ entries, p.1.address.toNat = p.2 ∧ p.2 < 2 ^ 34

def fitting : Action.Contract Event := ⟨AddressesFit, fun _ => True⟩

@[simp] theorem fitting_assumes (e : Event) : fitting.assumes e ↔ AddressesFit e := Iff.rfl

@[simp] theorem fitting_ensures (e : Event) : fitting.ensures e ↔ True := Iff.rfl

/-- The computation has nothing to do with the memory. -/
def no_memory : Action.Contract Event where
  assumes _ := True
  ensures
    | .memory_access _ _ _ => False
    | .memory_entry _ _ => False
    | _ => True

instance : Calm no_memory where
  assertion_failed _ := ⟨trivial, trivial⟩
  vector_access _ _ := ⟨trivial, trivial⟩
  step _ _ _ _ := trivial
  nested _ := trivial

/-- It may use the memory, but records none of its bytes. -/
def no_entries : Action.Contract Event where
  assumes _ := True
  ensures
    | .memory_entry _ _ => False
    | _ => True

instance : CodeQuiet no_entries := ⟨fun _ _ => ⟨trivial, trivial⟩⟩

instance : Lenient no_entries where
  assertion_failed _ := ⟨trivial, trivial⟩
  vector_access _ _ := ⟨trivial, trivial⟩
  step _ _ _ _ := trivial
  nested _ := trivial
  stack_access _ := ⟨trivial, trivial⟩
  memory_within _ := ⟨trivial, trivial⟩
  storage_entry _ := trivial
  light_failure _ := trivial
  host_call _ _ _ := trivial
  host_output _ _ _ := trivial

/-- What a computation leads to, with the bytes it records. -/
abbrev tracks {σ α : Type} (m : Action Event σ α) (Q : α → σ → Tracked → Prop) (s : σ) (g : Tracked) : Prop :=
  Action.track fitting Tracked.event m Q s g

section
variable {s s' : ExecutionState} {g : Tracked} {stack i gas_left h : Int} {offset size : Word}

@[simp] theorem tracks_assert_that {what : Assertion} {holds : Prop} [Decidable holds]
    {Q : Unit → ExecutionState → Tracked → Prop} : tracks (assert_that what holds) Q s g ↔ Q () s g := by
  unfold assert_that
  by_cases h : holds
  · simp [h]
  · simp [h, AddressesFit, Tracked.event]

@[simp] theorem tracks_stack_get {Q : Word → ExecutionState → Tracked → Prop} :
    tracks (stack_get stack i) Q s g ↔ Q (s.stack_space (stack - 1 - i)) s g := by
  simp [stack_get, AddressesFit, Tracked.event]

@[simp] theorem tracks_stack_set {v : Word} {Q : Unit → ExecutionState → Tracked → Prop} :
    tracks (stack_set stack i v) Q s g ↔ Q () (s.set_slot (stack - 1 - i) v) g := by
  simp [stack_set, AddressesFit, Tracked.event]

@[simp] theorem tracks_record_stack {is_write : Bool} {Q : Unit → ExecutionState → Tracked → Prop} :
    tracks (record_stack stack i is_write) Q s g ↔ Q () (s.record stack i is_write) g := by
  simp [record_stack, AddressesFit, Tracked.event]

@[simp] theorem tracks_memory_load {k count : Nat} {Q : Bytes → ExecutionState → Tracked → Prop} :
    tracks (memory_load k count) Q s g ↔ Q (s.memory.load k count) s { g with next := k } := by
  simp [memory_load, AddressesFit, Tracked.event]

@[simp] theorem tracks_memory_store {k : Nat} {data : Bytes} {Q : Unit → ExecutionState → Tracked → Prop} :
    tracks (memory_store k data) Q s g ↔
      Q () (s.set_memory (s.memory.store k data)) { g with next := k } := by
  simp [memory_store, AddressesFit, Tracked.event]

theorem tracks_of_no_memory {α : Type} {m : Local α} {Q : α → ExecutionState → Prop}
    (h : Action.wlp no_memory m Q s) : tracks m (fun a s' g' => Q a s' ∧ g' = g) s g := by
  refine Action.track_of_wlp (p := id) (fun _ _ => trivial) (fun _ _ => trivial) ?_ h
  intro e g' promised
  cases e with
  | memory_access _ _ _ => exact promised.elim
  | memory_entry _ _ => exact promised.elim
  | _ => rfl

theorem tracks_check_memory {Q : Bool × Int → ExecutionState → Tracked → Prop}
    (each : ∀ ok left s', Checked s gas_left offset size.to_uint64 ok left s' →
      (ok = true → size.to_uint64 < 2 ^ 32) → Q (ok, left) s' g) :
    tracks (check_memory gas_left offset size) Q s g := by
  have run : Action.wlp no_memory (check_memory gas_left offset size) (fun o s' => Q o s' g) s :=
    wlp_check_memory each
  exact (tracks_of_no_memory run).mono fun _ _ _ ⟨q, same⟩ => same ▸ q

theorem tracks_check_memory_size {n : Nat} (small : n < 2 ^ 32)
    {Q : Bool × Int → ExecutionState → Tracked → Prop}
    (each : ∀ ok left s', Checked s gas_left offset n ok left s' → Q (ok, left) s' g) :
    tracks (check_memory_size gas_left offset n) Q s g := by
  have run : Action.wlp no_memory (check_memory_size gas_left offset n) (fun o s' => Q o s' g) s :=
    wlp_check_memory_size small each
  exact (tracks_of_no_memory run).mono fun _ _ _ ⟨q, same⟩ => same ▸ q

theorem memoryFits_record {is_write : Bool} {entries : List (rw_operation × Nat)} :
    MemoryFits (s.record stack i is_write).rw_trace entries ↔ MemoryFits s.rw_trace entries := by
  have same : (s.record stack i is_write).rw_trace.filter (·.op = MEMORY_OP) =
      s.rw_trace.filter (·.op = MEMORY_OP) := by
    rw [ExecutionState.record_rw_trace, List.filter_append]
    simp [stack_operation, STACK_OP, MEMORY_OP]
  constructor
  · exact fun fits => ⟨same ▸ fits.all, fits.at_offset⟩
  · exact fun fits => ⟨same.symm ▸ fits.all, fits.at_offset⟩

theorem Checked.trace {n : Nat} {ok : Bool} {left : Int}
    (checked : Checked s gas_left offset n ok left s') : s'.rw_trace = s.rw_trace := by
  rcases checked.grown with rfl | ⟨n, _, _, rfl⟩ <;> rfl

/-- Bytes that are recorded one after the other, under their offsets. -/
theorem tracks_record_bytes {address : Nat → Word} {is_write : Bool} {data : Bytes} {k : Nat}
    {entries : List (rw_operation × Nat)} {Q : Unit → ExecutionState → Tracked → Prop}
    (fits : MemoryFits s.rw_trace entries)
    (exact_ : ∀ j < data.length, (address j).toNat = k + j ∧ k + j < 2 ^ 34)
    (each : ∀ s' g', MemoryFits s'.rw_trace g'.entries → Q () s' g') :
    tracks (record_bytes address is_write data) Q s ⟨k, entries⟩ := by
  refine (Action.track_forEach
    (I := fun done (s' : ExecutionState) (g' : Tracked) =>
      MemoryFits s'.rw_trace g'.entries ∧ g'.next = k + done.length) ?_
    ⟨fits, rfl⟩).mono fun _ s' g' inv => each s' g' inv.1
  intro done b rest s' g' split inv
  obtain ⟨fits', at_next⟩ := inv
  obtain ⟨rfl, within⟩ := range_split split
  simp only [record_memory, Action.track_bind, Action.track_get, tracks_assert_that, Action.track_emit,
    Action.track_modify]
  refine fun _ => ⟨trivial, ⟨?_, ?_⟩, ?_⟩
  · rw [ExecutionState.push_rw_rw_trace, List.filter_append, fits'.all]
    simp [Tracked.event, memory_operation]
  · intro p member
    rcases List.mem_append.mp member with early | last
    · exact fits'.at_offset p early
    · obtain rfl := List.mem_singleton.mp last
      show (address done.length).toNat = g'.next ∧ g'.next < 2 ^ 34
      rw [at_next]
      exact exact_ _ within
  · show g'.next + 1 = k + (done ++ [done.length]).length
    rw [at_next, List.length_append, List.length_singleton]
    omega

variable (fits : MemoryFits s.rw_trace g.entries)
include fits

theorem keccak256_fits [Ethash] (address : AddressFits .KECCAK256 h s) :
    tracks (keccak256 h gas_left) (fun _ s' g' => MemoryFits s'.rw_trace g'.entries) s g := by
  simp only [AddressFits, sub_zero] at address
  simp only [keccak256, Action.track_bind, tracks_record_stack, tracks_stack_get, sub_zero,
    ExecutionState.record_stack_space]
  refine tracks_check_memory fun ok left s' checked _ => ?_
  have fits' : MemoryFits s'.rw_trace g.entries := by
    rw [checked.trace]
    simpa only [memoryFits_record] using fits
  simp only [Action.track_bind, Action.track_ite, Action.track_pure, tracks_memory_load, tracks_stack_set,
    tracks_record_stack, memoryFits_record]
  refine ⟨fun _ => fits', fun passed => ⟨fun _ => fits', fun _ => ⟨fun some => ?_, fun zero => ?_⟩⟩⟩
  · obtain rfl : ok = true := by simpa using passed
    have near := (checked.room rfl some).1
    refine tracks_record_bytes fits' (fun j within => ?_)
      fun s'' g'' fits'' => ⟨fun _ => fits'', fun _ => fits''⟩
    rw [load_length] at within
    exact ⟨(sum_address near (by omega)).1 (address some near), by omega⟩
  · exact ⟨fun some => absurd some zero, fun _ => fits'⟩

theorem copy_to_memory_fits {source : Bytes}
    (address : copied_bytes source (s.stack_space (h - 1 - 1)) (s.stack_space (h - 2 - 1)) ≠ 0 →
      (s.stack_space (h - 1)).to_uint64 < 2 ^ 32 → (s.stack_space (h - 1)).toNat < 2 ^ 64) :
    tracks (copy_to_memory source h gas_left) (fun _ s' g' => MemoryFits s'.rw_trace g'.entries) s g := by
  simp only [copy_to_memory, Action.track_bind, tracks_record_stack, tracks_stack_get, sub_zero,
    ExecutionState.record_stack_space]
  refine tracks_check_memory fun ok left s' checked small => ?_
  have fits' : MemoryFits s'.rw_trace g.entries := by
    rw [checked.trace]
    simpa only [memoryFits_record] using fits
  have recorded {s'' : ExecutionState} (trace : s''.rw_trace = s'.rw_trace)
      (passed : ¬ (!ok) = true) : tracks (record_bytes (fun j => s.stack_space (h - 1) + BitVec.ofNat 256 j) true
        (s''.memory.load (s.stack_space (h - 1)).to_uint64
          (copied_bytes source (s.stack_space (h - 1 - 1)) (s.stack_space (h - 2 - 1)))))
        (fun _ s' g' => MemoryFits s'.rw_trace g'.entries) s''
          { g with next := (s.stack_space (h - 1)).to_uint64 } := by
    obtain rfl : ok = true := by simpa using passed
    refine tracks_record_bytes (trace ▸ fits') (fun j within => ?_) fun _ _ fits'' => fits''
    have bound := small rfl
    rw [load_length] at within
    have shorter : copied_bytes source (s.stack_space (h - 1 - 1)) (s.stack_space (h - 2 - 1)) ≤
        (s.stack_space (h - 2 - 1)).to_uint64 := Nat.min_le_left _ _
    have near := (checked.room rfl (by omega)).1
    exact ⟨(sum_address near (by omega)).1 (address (by omega) near), by omega⟩
  simp only [copy_padded, Action.track_bind, Action.track_ite, Action.track_pure, tracks_memory_load,
    tracks_memory_store]
  refine ⟨fun _ => fits', fun passed => ⟨fun _ => fits', fun _ => ?_⟩⟩
  exact ⟨fun _ => ⟨fun _ => recorded rfl passed, fun _ => recorded rfl passed⟩,
    fun _ => ⟨fun _ => recorded rfl passed, fun _ => recorded rfl passed⟩⟩

theorem calldatacopy_fits (address : AddressFits .CALLDATACOPY h s) :
    tracks (calldatacopy h gas_left) (fun _ s' g' => MemoryFits s'.rw_trace g'.entries) s g := by
  simp only [AddressFits, sub_zero] at address
  exact Action.track_bind.mpr (Action.track_get.mpr (copy_to_memory_fits fits address))

theorem codecopy_fits (address : AddressFits .CODECOPY h s) :
    tracks (codecopy h gas_left) (fun _ s' g' => MemoryFits s'.rw_trace g'.entries) s g := by
  simp only [AddressFits, sub_zero] at address
  exact Action.track_bind.mpr (Action.track_get.mpr (copy_to_memory_fits fits address))

theorem returndatacopy_fits :
    tracks (returndatacopy h gas_left) (fun _ s' g' => MemoryFits s'.rw_trace g'.entries) s g := by
  simp only [returndatacopy, Action.track_bind, Action.track_get, tracks_record_stack, tracks_stack_get]
  refine tracks_check_memory fun ok left s' checked small => ?_
  have fits' : MemoryFits s'.rw_trace g.entries := by
    rw [checked.trace]
    simpa only [memoryFits_record] using fits
  simp only [Action.track_bind, Action.track_ite, Action.track_pure, tracks_memory_load, tracks_memory_store]
  refine ⟨fun _ => fits', fun passed => ⟨fun _ => fits', fun _ => ⟨fun _ => fits', fun _ =>
    ⟨fun _ => fits', fun _ => ⟨fun some => ?_, fun _ => fits'⟩⟩⟩⟩⟩
  obtain rfl : ok = true := by simpa using passed
  have bound := small rfl
  have near := (checked.room rfl (Nat.ne_of_gt some)).1
  refine tracks_record_bytes fits' (fun j within => ?_) fun _ _ fits'' => fits''
  rw [load_length] at within
  exact ⟨word_address (by omega), by omega⟩

theorem mload_fits :
    tracks (mload h gas_left) (fun _ s' g' => MemoryFits s'.rw_trace g'.entries) s g := by
  simp only [mload, Action.track_bind, tracks_record_stack, tracks_stack_get]
  refine tracks_check_memory_size (by decide) fun ok left s' checked => ?_
  have fits' : MemoryFits s'.rw_trace g.entries := by
    rw [checked.trace]
    simpa only [memoryFits_record] using fits
  simp only [Action.track_bind, Action.track_ite, Action.track_pure, tracks_memory_load, tracks_stack_set,
    tracks_record_stack, memoryFits_record]
  refine ⟨fun _ => fits', fun passed => ?_⟩
  obtain rfl : ok = true := by simpa using passed
  have near := (checked.room rfl (by decide)).1
  refine tracks_record_bytes fits' (fun j within => ?_) fun _ _ fits'' => fits''
  rw [load_length] at within
  exact ⟨word_address (by omega), by omega⟩

theorem mstore_fits {width : Nat} :
    tracks (mstore width h gas_left) (fun _ s' g' => MemoryFits s'.rw_trace g'.entries) s g := by
  simp only [mstore, Action.track_bind, tracks_record_stack, tracks_stack_get]
  refine tracks_check_memory_size (by decide) fun ok left s' checked => ?_
  have fits' : MemoryFits s'.rw_trace g.entries := by
    rw [checked.trace]
    simpa only [memoryFits_record] using fits
  simp only [Action.track_bind, Action.track_ite, Action.track_pure, tracks_memory_load, tracks_memory_store]
  refine ⟨fun _ => fits', fun passed => ?_⟩
  obtain rfl : ok = true := by simpa using passed
  have near := (checked.room rfl (by decide)).1
  refine tracks_record_bytes fits' (fun j within => ?_) fun _ _ fits'' => fits''
  rw [load_length] at within
  exact ⟨word_address (by omega), by omega⟩

theorem mcopy_fits :
    tracks (mcopy h gas_left) (fun _ s' g' => MemoryFits s'.rw_trace g'.entries) s g := by
  simp only [mcopy, Action.track_bind, tracks_record_stack, tracks_stack_get]
  refine tracks_check_memory fun ok left s' checked _ => ?_
  have fits' : MemoryFits s'.rw_trace g.entries := by
    rw [checked.trace]
    simpa only [memoryFits_record] using fits
  simp only [Action.track_bind, Action.track_ite, Action.track_pure, tracks_memory_load, tracks_memory_store]
  exact ⟨fun _ => fits', fun _ => ⟨fun _ => fits', fun _ => ⟨fun _ => fits', fun _ => fits'⟩⟩⟩

/-- The zeros are recorded from `dst` on, where they are when nothing has been copied. -/
theorem datacopy_fits (address : AddressFits .DATACOPY h s) :
    tracks (datacopy h gas_left) (fun _ s' g' => MemoryFits s'.rw_trace g'.entries) s g := by
  simp only [AddressFits, copied_bytes] at address
  have second : h - 1 - 1 - 0 = h - 1 - 1 := by omega
  have third : h - 2 - 1 - 0 = h - 2 - 1 := by omega
  simp only [datacopy, Action.track_bind, Action.track_get, tracks_record_stack, tracks_stack_get, second,
    third, ExecutionState.record_stack_space]
  refine tracks_check_memory fun ok left s' checked small => ?_
  have fits' : MemoryFits s'.rw_trace g.entries := by
    rw [checked.trace]
    simpa only [memoryFits_record] using fits
  simp only [Action.track_bind, Action.track_ite, Action.track_pure, tracks_memory_load, tracks_memory_store]
  refine ⟨fun _ => fits', fun passed => ⟨fun _ => fits', fun _ => ?_⟩⟩
  obtain rfl : ok = true := by simpa using passed
  have bound := small rfl
  have near (some : (s.stack_space (h - 2 - 1)).to_uint64 ≠ 0) := (checked.room rfl some).1
  refine ⟨fun copies => ?_, fun nothing => ⟨fun zeros => ?_, fun _ => fits'⟩⟩
  · have near := near (by omega)
    refine tracks_record_bytes fits' (fun j within => ?_) fun s'' g'' fits'' =>
      ⟨fun zeros => absurd zeros (by omega), fun _ => fits''⟩
    rw [load_length] at within
    exact ⟨word_address (by omega), by omega⟩
  · have near := near (by omega)
    refine tracks_record_bytes fits' (fun j within => ?_) fun _ _ fits'' => fits''
    rw [List.length_replicate] at within
    exact ⟨(word_address (by omega)).trans (by omega), by omega⟩

end

section
variable {exec : Exec H} {g : Tracked} {host : Host H}

@[simp] theorem tracks_on_state {α : Type} {m : Local α} {Q : α → Exec H → Tracked → Prop} :
    tracks (on_state m) Q exec g ↔
      tracks m (fun a s g' => Q a { exec with state := s } g') exec.state g :=
  Action.track_zoom

theorem tracks_gas {fn : Int → Int → Instr H InstructionResult} {code_it stack_top gas : Int}
    {Q : Exec H → Tracked → Prop} (set_status : ∀ e status g', Q e g' →
      Q { e with state := e.state.set_status status } g')
    (h : tracks (fn stack_top gas) (fun _ e g' => Q e g') exec g) :
    tracks (EvmAssigner.invoke_impl (.gas fn) code_it stack_top gas) (fun _ e g' => Q e g') exec g := by
  simp only [EvmAssigner.invoke_impl, Action.track_bind, Action.track_ite, Action.track_pure,
    EvmAssigner.set_status, tracks_on_state, Action.track_modify]
  exact h.mono fun o e g' q => ⟨fun _ => set_status e o.status g' q, fun _ => q⟩

theorem memory_ops_closed {entries : List rw_operation} :
    Closed no_entries fun s => s.rw_trace.filter (·.op = MEMORY_OP) = entries where
  record {s} stack i is_write inv := by
    rw [ExecutionState.record_rw_trace, List.filter_append, inv]
    simp [stack_operation, STACK_OP, MEMORY_OP]
  push_storage {s} address key is_write value value_prev inv := by
    rw [ExecutionState.push_rw_rw_trace, List.filter_append, inv]
    simp [storage_operation, STORAGE_OP, MEMORY_OP]
  set_slot _ _ inv := inv
  set_status _ inv := inv
  set_return_data _ inv := inv
  set_output _ _ inv _ := inv
  set_call_stack _ inv := inv
  add_refund _ inv := inv
  set_tx _ inv := inv
  grow inv _ _ := inv
  host_output inv _ _ := inv

/-- Whatever an instruction records of the memory, it records under the offset of the byte. -/
theorem tracks_step [Ethash] {op : Opcode} {h pos left : Int} (address : AddressFits op h exec.state)
    (fits : MemoryFits exec.state.rw_trace g.entries) :
    tracks (invoke_impl (map_opcodes host op) pos h left)
      (fun _ e g' => MemoryFits e.state.rw_trace g'.entries) exec g := by
  have recorded {fn : Int → Int → Local InstructionResult}
      (local_ : tracks (fn h left) (fun _ s' g' => MemoryFits s'.rw_trace g'.entries) exec.state g) :
      tracks (EvmAssigner.invoke_impl (.gas fun s g => (fn s g : Instr H InstructionResult)) pos h left)
        (fun _ e g' => MemoryFits e.state.rw_trace g'.entries) exec g :=
    tracks_gas (fun _ _ _ q => q) (tracks_on_state.mpr local_)
  by_cases apart : op.on_memory = false
  · have closed := @memory_ops_closed (g.entries.map Prod.fst)
    have steps : (map_opcodes host op).Keeps _ pos h left _ exec :=
      closed.step apart (fun _ => inferInstance) fits.all
    have keeps := steps.invoke_impl
        (I := fun s => s.rw_trace.filter (·.op = MEMORY_OP) = g.entries.map Prod.fst) closed.set_status
        fits.all
    refine (Action.track_of_wlp (p := Tracked.entries) (fun _ _ => trivial) (fun _ _ => trivial) ?_ keeps).mono ?_
    · intro e g' promised
      cases e with
      | memory_entry _ _ => exact promised.elim
      | _ => rfl
    · rintro _ e g' ⟨all, same⟩
      rw [same]
      exact ⟨all, fits.at_offset⟩
  · cases op with
    | KECCAK256 => exact recorded (keccak256_fits fits address)
    | CALLDATACOPY => exact recorded (calldatacopy_fits fits address)
    | CODECOPY => exact recorded (codecopy_fits fits address)
    | RETURNDATACOPY => exact recorded (returndatacopy_fits fits)
    | MLOAD | MLOAD8 | MLOAD16 | MLOAD32 | MLOAD64 => exact recorded (mload_fits fits)
    | MSTORE | MSTORE8 | MSTORE16 | MSTORE32 | MSTORE64 => exact recorded (mstore_fits fits)
    | MCOPY => exact recorded (mcopy_fits fits)
    | DATACOPY => exact recorded (datacopy_fits fits address)
    | _ => exact absurd rfl apart

variable [Ethash] {cost_table : Opcode → Int} {code_it stack_top gas : Int}

theorem tracks_turn (fits : MemoryFits exec.state.rw_trace g.entries) :
    tracks (turn host cost_table code_it stack_top gas)
      (fun _ e g' => MemoryFits e.state.rw_trace g'.entries) exec g := by
  unfold turn read_code
  simp only [Action.track_bind, tracks_on_state, Action.track_get, Action.track_pure, Action.track_emit]
  refine fun _ => ⟨trivial, fun step => ⟨trivial, ?_⟩⟩
  generalize exec.state.analysis.code_at code_it = byte at step ⊢
  unfold invoke requirement_assertions
  simp only [Action.track_bind, tracks_on_state, tracks_assert_that, Action.track_ite, Action.track_pure,
    EvmAssigner.set_status, Action.track_modify]
  refine ⟨fun _ => fits, fun _ => ?_⟩
  cases name : Opcode.of_byte byte with
  | none =>
    simp only [Action.track_bind, tracks_on_state, Action.track_modify, Action.track_pure]
    exact fits
  | some op =>
    simp only [Action.track_bind, Action.track_pure]
    exact tracks_step (step op name) fits

theorem tracks_dispatch {fuel : Nat} (fits : MemoryFits exec.state.rw_trace g.entries) :
    tracks (dispatch host cost_table fuel code_it stack_top gas)
      (fun _ e g' => MemoryFits e.state.rw_trace g'.entries) exec g := by
  induction fuel generalizing code_it stack_top gas exec g with
  | zero => exact Action.track_unfinished
  | succ fuel ih =>
    rw [dispatch]
    refine Action.track_bind.mpr ((tracks_turn fits).mono fun next e g' fits' => ?_)
    cases next.code_it with
    | none => exact Action.track_pure.mpr fits'
    | some code_it' => exact ih fits'

theorem numbered_dispatch {fuel : Nat} (numbered : Numbered exec.state) :
    Action.wlp no_promises (dispatch host cost_table fuel code_it stack_top gas)
      (fun _ e => Numbered e.state) exec :=
  dispatch_keeps (fun _ numbered => numbered)
    (fun _ _ _ _ _ inv => numbered_wide.step (fun _ => inferInstance) inv) numbered

end

/-- The ten chunks of 16 bits the table has for an address. -/
def address_chunks (address : Word) : List Nat :=
  (List.range 10).map fun j =>
    (address.toNat &&& ((0xffff <<< (16 * 9)) >>> (16 * j))) >>> (16 * (9 - j))

theorem address_chunks_eq {address : Word} (small : address.toNat < 2 ^ 160) :
    ofBeChunks 16 (address_chunks address) = address.toNat := by
  have chunks : address_chunks address = beChunks 16 10 address.toNat := by
    rw [beChunks_eq_map, address_chunks]
    refine List.map_congr_left fun j member => ?_
    exact loop_chunk 10 address.toNat j (List.mem_range.mp member)
  rw [chunks, ofBeChunks_beChunks small]

end EvmAssigner
