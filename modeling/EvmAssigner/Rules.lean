import Mathlib.Tactic.Linarith
import EvmAssigner.Baseline

namespace EvmAssigner
variable {H : Type}

class VectorQuiet (P : Action.Contract Event) : Prop where
  vector_access (index size : Nat) : P.Ignores (.vector_access index size)

class Steady (P : Action.Contract Event) : Prop extends VectorQuiet P where
  assertion_failed (what : Assertion) : P.Ignores (.assertion_failed what)

/-- The contract is about what instructions do, not about how they go about it. -/
class Calm (P : Action.Contract Event) : Prop extends Steady P where
  step (op : UInt8) (stack_top gas : Int) (s : ExecutionState) : P.ensures (.step op stack_top gas s)
  nested (e : Event) : P.ensures (.nested e)

class StackQuiet (P : Action.Contract Event) : Prop where
  stack_access (slot : Int) : P.Ignores (.stack_access slot)

class MemoryQuiet (P : Action.Contract Event) : Prop where
  memory_access (index count size : Nat) : P.Ignores (.memory_access index count size)

class CodeQuiet (P : Action.Contract Event) : Prop where
  code_access (index : Int) (size : Nat) : P.Ignores (.code_access index size)

/-- Nor is it about what they touch. -/
class Quiet (P : Action.Contract Event) : Prop extends Calm P, StackQuiet P, MemoryQuiet P, CodeQuiet P

theorem range_split {n b : Nat} {done rest : List Nat} (split : List.range n = done ++ b :: rest) :
    b = done.length ∧ b < n := by
  have size := congrArg List.length split
  have at_b : (List.range n)[done.length]? = some b := by
    rw [split]
    simp
  simp only [List.length_range, List.length_append, List.length_cons] at size
  rw [List.getElem?_range (by omega)] at at_b
  have := Option.some.inj at_b
  omega

section
variable {s : ExecutionState} {stack i : Int}

@[simp] theorem wp_assert_that {what : Assertion} {holds : Prop} [Decidable holds]
    {Q : Unit → ExecutionState → Prop} : Action.wp (assert_that what holds) Q s ↔ Q () s := by
  unfold assert_that
  by_cases h : holds
  · simp [h]
  · simp [h]

@[simp] theorem wp_stack_get {Q : Word → ExecutionState → Prop} :
    Action.wp (stack_get stack i) Q s ↔ Q (s.stack_space (stack - 1 - i)) s := by
  simp [stack_get]

@[simp] theorem wp_record_stack {is_write : Bool} {Q : Unit → ExecutionState → Prop} :
    Action.wp (record_stack stack i is_write) Q s ↔ Q () (s.record stack i is_write) := by
  simp [record_stack]

@[simp] theorem wp_read_code {pos : Int} {Q : UInt8 → ExecutionState → Prop} :
    Action.wp (read_code pos) Q s ↔ Q (s.analysis.code_at pos) s := by
  simp [read_code]

end

section
variable {P : Action.Contract Event} {s : ExecutionState}

theorem wlp_assert_holds {what : Assertion} {holds : Prop} [Decidable holds] {Q : Unit → ExecutionState → Prop}
    (h : holds) (each : Q () s) : Action.wlp P (assert_that what holds) Q s := by
  rw [assert_that, if_pos h]
  exact Action.wlp_pure.mpr each

@[simp] theorem wlp_assert_that [Steady P] {what : Assertion} {holds : Prop} [Decidable holds]
    {Q : Unit → ExecutionState → Prop} : Action.wlp P (assert_that what holds) Q s ↔ Q () s := by
  unfold assert_that
  by_cases h : holds
  · simp [h]
  · simp only [h, if_false, Action.wlp_emit_ignored (Steady.assertion_failed what)]

section
variable [StackQuiet P] {stack i : Int}

@[simp] theorem wlp_stack_get {Q : Word → ExecutionState → Prop} :
    Action.wlp P (stack_get stack i) Q s ↔ Q (s.stack_space (stack - 1 - i)) s := by
  simp [stack_get, Action.wlp_emit_ignored (StackQuiet.stack_access _), -Action.wlp_emit]

@[simp] theorem wlp_stack_set {v : Word} {Q : Unit → ExecutionState → Prop} :
    Action.wlp P (stack_set stack i v) Q s ↔ Q () (s.set_slot (stack - 1 - i) v) := by
  simp [stack_set, Action.wlp_emit_ignored (StackQuiet.stack_access _), -Action.wlp_emit]

@[simp] theorem wlp_record_stack [Steady P] {is_write : Bool} {Q : Unit → ExecutionState → Prop} :
    Action.wlp P (record_stack stack i is_write) Q s ↔ Q () (s.record stack i is_write) := by
  simp [record_stack, Action.wlp_emit_ignored (StackQuiet.stack_access _), -Action.wlp_emit]

end

section
variable [MemoryQuiet P] {k : Nat}

@[simp] theorem wlp_memory_load {count : Nat} {Q : Bytes → ExecutionState → Prop} :
    Action.wlp P (memory_load k count) Q s ↔ Q (s.memory.load k count) s := by
  simp [memory_load, Action.wlp_emit_ignored (MemoryQuiet.memory_access _ _ _), -Action.wlp_emit]

@[simp] theorem wlp_memory_store {data : Bytes} {Q : Unit → ExecutionState → Prop} :
    Action.wlp P (memory_store k data) Q s ↔ Q () (s.set_memory (s.memory.store k data)) := by
  simp [memory_store, Action.wlp_emit_ignored (MemoryQuiet.memory_access _ _ _), -Action.wlp_emit]

@[simp] theorem wlp_host_store {data : Bytes} {Q : Unit → ExecutionState → Prop} :
    Action.wlp P (host_store k data) Q s ↔ (P.assumes (.host_output s.memory k data) →
      P.ensures (.host_output s.memory k data) ∧ Q () (s.set_memory (s.memory.store k data))) := by
  simp [host_store]

end

section
variable {r : Word} {data : Int} {len i n : Nat} {Q : Word → ExecutionState → Prop}

theorem wlp_read_code_ignored {pos : Int} {Q : UInt8 → ExecutionState → Prop}
    (ignored : P.Ignores (.code_access (s.analysis.offset + pos) s.analysis.buffer.length)) :
    Action.wlp P (read_code pos) Q s ↔ Q (s.analysis.code_at pos) s := by
  simp [read_code, Action.wlp_emit_ignored ignored, -Action.wlp_emit]

theorem wlp_load_partial_ignored (ignored : ∀ k < bytes_read len,
      P.Ignores (.code_access (s.analysis.offset + (data + k)) s.analysis.buffer.length))
    (each : ∀ r', Q r' s) : Action.wlp P (load_partial_data r data len i) Q s := by
  simp only [load_partial_data, Action.wlp_bind, Action.wlp_get]
  refine (Action.wlp_forEach (I := fun _ s' => s' = s) ?_ rfl).mono ?_
  · rintro done k rest s' split rfl
    exact (Action.wlp_emit_ignored (ignored k (range_split split).2)).mpr rfl
  · rintro _ s' rfl
    exact Action.wlp_pure.mpr (each _)

theorem wlp_load_full_words_ignored (ignored : ∀ k < 8 * n,
      P.Ignores (.code_access (s.analysis.offset + (data + k)) s.analysis.buffer.length))
    (each : ∀ r', Q r' s) : Action.wlp P (load_full_words r data n) Q s := by
  induction n generalizing r data with
  | zero => exact Action.wlp_pure.mpr (each r)
  | succ n ih =>
    simp only [load_full_words, Action.wlp_bind]
    refine wlp_load_partial_ignored (fun k within => ignored k ?_) fun r' => ih fun k within => ?_
    · have word : bytes_read 8 = 8 := rfl
      omega
    · have later := ignored (8 + k) (by omega)
      rwa [show data + ((8 + k : Nat) : Int) = data + 8 + k by omega] at later

end

section
variable [CodeQuiet P]

@[simp] theorem wlp_read_code {pos : Int} {Q : UInt8 → ExecutionState → Prop} :
    Action.wlp P (read_code pos) Q s ↔ Q (s.analysis.code_at pos) s :=
  wlp_read_code_ignored (CodeQuiet.code_access _ _)

theorem wlp_load_partial {r : Word} {data : Int} {len i : Nat} {Q : Word → ExecutionState → Prop}
    (each : ∀ r', Q r' s) : Action.wlp P (load_partial_data r data len i) Q s :=
  wlp_load_partial_ignored (fun _ _ => CodeQuiet.code_access _ _) each

theorem wlp_load_full_words {r : Word} {data : Int} {n : Nat} {Q : Word → ExecutionState → Prop}
    (each : ∀ r', Q r' s) : Action.wlp P (load_full_words r data n) Q s :=
  wlp_load_full_words_ignored (fun _ _ => CodeQuiet.code_access _ _) each

end
end

section
variable {P : Action.Contract Event} {s : ExecutionState}

theorem load_getD {memory : Memory} {src n j : Nat} (within : j < (memory.load src n).length) :
    (memory.load src n).getD j 0 = memory.m_data (src + j) := by
  unfold Memory.load at within ⊢
  rw [List.length_map, List.length_range] at within
  rw [List.getD_eq_getElem?_getD, List.getElem?_map, List.getElem?_range within]
  rfl

@[simp] theorem load_length {memory : Memory} {src n : Nat} : (memory.load src n).length = n := by
  simp [Memory.load]

theorem store_length {width : Nat} {x : Word} : (x.store width).length = width := by
  simp [Word.store, be_store]

theorem memory_cost_mono {m n : Nat} (h : m ≤ n) : memory_cost m ≤ memory_cost n := by
  unfold memory_cost
  have square : (m : Int) * m ≤ n * n := by
    exact_mod_cast Nat.mul_le_mul h h
  omega

/-- The size of a memory that makes room for `size` bytes from `offset` on. -/
def Memory.expanded (memory : Memory) (offset size : Nat) : Nat :=
  if offset + size > memory.m_size then (offset + size + 31) / 32 * 32 else memory.m_size

/-- The memory as `check_memory` leaves it. -/
def ExecutionState.expanded (s : ExecutionState) (offset size : Word) : Memory :=
  s.memory.grow (s.memory.expanded offset.to_uint64 size.to_uint64)

/-- What `check_memory` leaves for an access to `size` bytes from `offset` on: only the memory
has changed, and it has the room when the check succeeds. -/
structure Checked (s : ExecutionState) (gas_left : Int) (offset : Word) (size : Nat) (ok : Bool)
    (gas_left' : Int) (s' : ExecutionState) : Prop where
  grown : s' = s ∨ ∃ n, s.memory.m_size < n ∧ n ≤ 2 ^ 34 ∧ s' = s.set_memory (s.memory.grow n)
  gas : gas_left' ≤ gas_left
  paid : ok = true → 0 ≤ gas_left → 0 ≤ gas_left'
  room : ok = true → size ≠ 0 → offset.to_uint64 < 2 ^ 32 ∧
    offset.to_uint64 + size ≤ s'.memory.m_size ∧
    s'.memory.m_size = s.memory.expanded offset.to_uint64 size

/-- A check that succeeds leaves the memory it is a check for. -/
theorem Checked.memory {left : Int} {s' : ExecutionState} {offset : Word} {n : Nat} {gas_left : Int}
    (checked : Checked s gas_left offset n true left s') (some : n ≠ 0) :
    s'.memory.m_size = s.memory.expanded offset.to_uint64 n ∧
      ∀ k, s'.memory.m_data k = (s.memory.grow (s.memory.expanded offset.to_uint64 n)).m_data k := by
  obtain ⟨_, _, same⟩ := checked.room rfl some
  refine ⟨same, fun k => ?_⟩
  rw [← same, Memory.grow_m_data]
  rcases checked.grown with rfl | ⟨n, _, _, rfl⟩
  · rw [if_neg (by omega)]
  · rfl

theorem wlp_grow_memory {gas_left : Int} {new_size : Nat} {Q : Int → ExecutionState → Prop}
    (dear : ∀ left < 0, left ≤ gas_left → Q left s)
    (grown : ∀ left, 0 ≤ left → left ≤ gas_left →
      Q left (s.set_memory (s.memory.grow ((new_size + 31) / 32 * 32))))
    (larger : s.memory.m_size < new_size) (small : new_size < 2 ^ 64 - 32) :
    Action.wlp P (grow_memory gas_left new_size) Q s := by
  have words : num_words new_size = (new_size + 31) / 32 := by
    rw [num_words, word_size, Nat.mod_eq_of_lt (by omega)]
  have cost : memory_cost (s.memory.m_size / word_size) ≤ memory_cost (num_words new_size) := by
    apply memory_cost_mono
    rw [words, word_size]
    omega
  unfold grow_memory
  simp only [Action.wlp_bind, Action.wlp_get, words] at cost ⊢
  split
  · rename_i paid
    have larger' : num_words new_size * word_size > s.memory.m_size := by
      rw [words, word_size]
      omega
    simp only [Action.wlp_bind, Action.wlp_modify, Action.wlp_pure]
    exact wlp_assert_holds (Nat.mul_mod_left _ _) (wlp_assert_holds larger' (grown _ paid (by omega)))
  · rw [Action.wlp_pure]
    exact dear _ (by omega) (by omega)

theorem wlp_check_memory_size {gas_left : Int} {offset : Word} {size : Nat} (small : size < 2 ^ 32)
    {Q : Bool × Int → ExecutionState → Prop}
    (h : ∀ ok gas_left' s', Checked s gas_left offset size ok gas_left' s' → Q (ok, gas_left') s') :
    Action.wlp P (check_memory_size gas_left offset size) Q s := by
  unfold check_memory_size
  simp only [Action.wlp_bind, Action.wlp_get]
  by_cases far : offset.to_uint64 > max_buffer_size
  · rw [if_pos far, Action.wlp_pure]
    exact h _ _ _ ⟨Or.inl rfl, le_rfl, by simp, by simp⟩
  · have near : offset.to_uint64 < 2 ^ 32 := by
      rw [max_buffer_size] at far
      omega
    rw [if_neg far, Nat.mod_eq_of_lt (by omega)]
    split
    · rename_i larger
      rw [Action.wlp_bind]
      refine wlp_grow_memory ?_ ?_ larger (by omega)
      · intro left negative less
        rw [Action.wlp_pure]
        refine h _ _ _ ⟨Or.inl rfl, less, ?_, ?_⟩
        · exact fun ok => absurd (of_decide_eq_true ok) (by omega)
        · exact fun ok => absurd (of_decide_eq_true ok) (by omega)
      · intro left nonneg less
        rw [Action.wlp_pure]
        refine h _ _ _ ⟨Or.inr ⟨_, by omega, by omega, rfl⟩, less, fun _ _ => nonneg,
          fun _ _ => ⟨near, ?_, (if_pos larger).symm⟩⟩
        show _ ≤ (offset.to_uint64 + size + 31) / 32 * 32
        omega
    · rename_i within
      rw [Action.wlp_pure]
      exact h _ _ _ ⟨Or.inl rfl, le_rfl, fun _ nonneg => nonneg,
        fun _ _ => ⟨near, by omega, (if_neg within).symm⟩⟩

theorem wlp_check_memory {gas_left : Int} {offset size : Word}
    {Q : Bool × Int → ExecutionState → Prop}
    (h : ∀ ok gas_left' s', Checked s gas_left offset size.to_uint64 ok gas_left' s' →
      (ok = true → size.to_uint64 < 2 ^ 32) → Q (ok, gas_left') s') :
    Action.wlp P (check_memory gas_left offset size) Q s := by
  unfold check_memory
  split
  · rename_i zero
    subst zero
    rw [Action.wlp_pure]
    exact h _ _ _ ⟨Or.inl rfl, le_rfl, fun _ nonneg => nonneg, fun _ some => absurd rfl some⟩
      fun _ => by decide
  · split
    · rw [Action.wlp_pure]
      exact h _ _ _ ⟨Or.inl rfl, le_rfl, by simp, by simp⟩ (by simp)
    · rename_i small
      rw [max_buffer_size] at small
      exact wlp_check_memory_size (by omega) fun ok left s' checked =>
        h ok left s' checked fun _ => by omega

end

/-! Instructions that ask the host. -/

/-- The operations of the host keep to the contract. -/
class Hosted (P : Action.Contract Event) (host : Host H) : Prop where
  account_exists (addr : Address) (h : H) :
    Action.wlp (P.comap .nested) (host.account_exists addr) (fun _ _ => True) h
  get_storage (addr : Address) (key : Word) (h : H) :
    Action.wlp (P.comap .nested) (host.get_storage addr key) (fun _ _ => True) h
  set_storage (addr : Address) (key value : Word) (h : H) :
    Action.wlp (P.comap .nested) (host.set_storage addr key value) (fun _ _ => True) h
  get_balance (addr : Address) (h : H) :
    Action.wlp (P.comap .nested) (host.get_balance addr) (fun _ _ => True) h
  get_code_size (addr : Address) (h : H) :
    Action.wlp (P.comap .nested) (host.get_code_size addr) (fun _ _ => True) h
  get_code_hash (addr : Address) (h : H) :
    Action.wlp (P.comap .nested) (host.get_code_hash addr) (fun _ _ => True) h
  copy_code (addr : Address) (code_offset buffer_size : Nat) (h : H) :
    Action.wlp (P.comap .nested) (host.copy_code addr code_offset buffer_size) (fun _ _ => True) h
  selfdestruct (addr beneficiary : Address) (h : H) :
    Action.wlp (P.comap .nested) (host.selfdestruct addr beneficiary) (fun _ _ => True) h
  call (msg : Message) (h : H) : Action.wlp (P.comap .nested) (host.call msg) (fun _ _ => True) h
  get_tx_context (h : H) : Action.wlp (P.comap .nested) host.get_tx_context (fun _ _ => True) h
  get_block_hash (number : Int) (h : H) :
    Action.wlp (P.comap .nested) (host.get_block_hash number) (fun _ _ => True) h
  access_account (addr : Address) (h : H) :
    Action.wlp (P.comap .nested) (host.access_account addr) (fun _ _ => True) h
  access_storage (addr : Address) (key : Word) (h : H) :
    Action.wlp (P.comap .nested) (host.access_storage addr key) (fun _ _ => True) h
  get_transient_storage (addr : Address) (key : Word) (h : H) :
    Action.wlp (P.comap .nested) (host.get_transient_storage addr key) (fun _ _ => True) h
  set_transient_storage (addr : Address) (key value : Word) (h : H) :
    Action.wlp (P.comap .nested) (host.set_transient_storage addr key value) (fun _ _ => True) h

theorem wlp_ask {P : Action.Contract Event} {exec : Exec H} {α : Type} {m : Action Event H α}
    {Q : α → Exec H → Prop} (keeps : ∀ h, Action.wlp (P.comap .nested) m (fun _ _ => True) h)
    (each : ∀ a host', Q a { exec with host := host' }) : Action.wlp P (on_host m) Q exec :=
  wlp_on_host.mpr ((keeps exec.host).mono fun a host' _ => each a host')

instance {P : Action.Contract Event} [Calm P] {host : Host H} : Hosted P host := by
  have any {α : Type} (m : Action Event H α) (h : H) : Action.wlp (P.comap .nested) m (fun _ _ => True) h :=
    .of_ensures Calm.nested fun _ _ _ => trivial
  constructor
  all_goals
    intros
    exact any _ _

section
variable {P : Action.Contract Event} {exec : Exec H} {host : Host H} {gas_left : Int}

theorem wlp_on_host_any [Calm P] {α : Type} {m : Action Event H α} {Q : α → Exec H → Prop}
    (each : ∀ a host', Q a { exec with host := host' }) : Action.wlp P (on_host m) Q exec :=
  wlp_ask (fun _ => .of_ensures Calm.nested fun _ _ _ => trivial) each

variable [hosted : Hosted P host]

theorem wlp_storage_is_cold {rev : Revision} {addr : Address} {key : Word}
    {Q : Bool → Exec H → Prop} (each : ∀ cold host', Q cold { exec with host := host' }) :
    Action.wlp P (storage_is_cold host rev addr key) Q exec := by
  simp only [storage_is_cold, Action.wlp_ite, Action.wlp_bind, Action.wlp_pure]
  exact ⟨fun _ => wlp_ask (hosted.access_storage _ _) fun _ _ => each _ _, fun _ => each _ exec.host⟩

/-- What is left of the gas after an access that has been charged. -/
structure Charged (gas_left : Int) (ok : Bool) (left : Int) : Prop where
  gas : left ≤ gas_left
  paid : ok = true → 0 ≤ gas_left → 0 ≤ left

theorem wlp_charge_access {addr : Address} {cost : Int} (nonneg : 0 ≤ cost)
    {Q : Bool × Int → Exec H → Prop}
    (each : ∀ ok left host', Charged gas_left ok left → Q (ok, left) { exec with host := host' }) :
    Action.wlp P (charge_access host addr cost gas_left) Q exec := by
  simp only [charge_access, Action.wlp_bind, Action.wlp_get, Action.wlp_ite, Action.wlp_pure]
  refine ⟨fun _ => wlp_ask (hosted.access_account _) fun status host' => ⟨fun _ => each _ _ _ ⟨by omega, ?_⟩,
    fun _ => each _ _ _ ⟨le_rfl, fun _ h => h⟩⟩, fun _ => each _ _ exec.host ⟨le_rfl, fun _ h => h⟩⟩
  exact fun ok _ => of_decide_eq_true ok

theorem wlp_charge_beneficiary {beneficiary : Address} {Q : Bool × Int → Exec H → Prop}
    (each : ∀ ok left host', Charged gas_left ok left → Q (ok, left) { exec with host := host' }) :
    Action.wlp P (charge_beneficiary host beneficiary gas_left) Q exec := by
  have answered (exists_ : Bool) (host' : H) :
      (exists_ = true → Q (true, gas_left) { exec with host := host' }) ∧
        (¬ exists_ = true → Q (decide (gas_left - 25000 ≥ 0), gas_left - 25000)
          { exec with host := host' }) :=
    ⟨fun _ => each _ _ _ ⟨le_rfl, fun _ h => h⟩,
      fun _ => each _ _ _ ⟨by omega, fun ok _ => of_decide_eq_true ok⟩⟩
  have asked (host' : H) : Action.wlp P (on_host (host.account_exists beneficiary))
      (fun exists_ e => (exists_ = true → Q (true, gas_left) e) ∧
        (¬ exists_ = true → Q (decide (gas_left - 25000 ≥ 0), gas_left - 25000) e))
      { exec with host := host' } := wlp_ask (hosted.account_exists _) fun _ _ => answered _ _
  have present (host' : H) : (True → Q (true, gas_left) { exec with host := host' }) ∧
      (¬ True → Q (decide (gas_left - 25000 ≥ 0), gas_left - 25000) { exec with host := host' }) :=
    ⟨fun _ => (answered true host').1 rfl, fun no => absurd trivial no⟩
  simp only [charge_beneficiary, Action.wlp_bind, Action.wlp_get, Action.wlp_ite, Action.wlp_pure]
  refine ⟨fun _ => ⟨fun _ => asked exec.host, fun _ => present exec.host⟩,
    fun _ => ⟨fun _ => wlp_ask (hosted.get_balance _) fun _ host' => ⟨fun _ => asked host', fun _ => present _⟩,
      fun _ => ⟨fun _ => asked exec.host, fun _ => present exec.host⟩⟩⟩

theorem wlp_get_tx_context {Q : TxContext → Exec H → Prop}
    (each : ∀ tx m_tx host', Q tx { state := exec.state.set_tx m_tx, host := host' }) :
    Action.wlp P (get_tx_context host) Q exec := by
  simp only [get_tx_context, Action.wlp_bind, Action.wlp_get, Action.wlp_ite, Action.wlp_pure,
    wlp_on_state, Action.wlp_modify]
  exact ⟨fun _ => wlp_ask hosted.get_tx_context fun tx host' => each tx tx host',
    fun _ => each exec.state.m_tx exec.state.m_tx exec.host⟩

theorem wlp_light_failure {Op : CallOp} {o : CallOperands} {Q : Bool → Exec H → Prop}
    (each : ∀ failed host', Q failed { exec with host := host' }) :
    Action.wlp P (light_failure host Op o) Q exec := by
  simp only [light_failure, Action.wlp_bind, Action.wlp_get, Action.wlp_ite, Action.wlp_pure]
  have copied (host' : H) : Action.wlp P (on_host (host.copy_code o.dst 0 2))
      (fun target_code_prefix e => Q (!is_eof_container (List.take 2 target_code_prefix)) e)
      { exec with host := host' } := wlp_ask (hosted.copy_code _ _ _) fun _ _ => each _ _
  refine ⟨fun _ => each _ exec.host, fun _ => ⟨fun _ => ?_, fun _ => ?_⟩⟩
  · refine wlp_ask (hosted.get_balance _) fun v host' => ⟨fun _ => each _ _, fun _ => ?_⟩
    exact ⟨fun _ => copied host', fun _ => each _ _⟩
  · exact ⟨fun _ => each _ exec.host, fun _ => ⟨fun _ => copied exec.host, fun _ => each _ exec.host⟩⟩

theorem wlp_create_light_failure {endowment : Word} {Q : Bool → Exec H → Prop}
    (each : ∀ failed host', Q failed { exec with host := host' }) :
    Action.wlp P (create_light_failure host endowment) Q exec := by
  simp only [create_light_failure, Action.wlp_bind, Action.wlp_get, Action.wlp_ite, Action.wlp_pure]
  exact ⟨fun _ => each _ exec.host, fun _ =>
    ⟨fun _ => wlp_ask (hosted.get_balance _) fun _ _ => each _ _, fun _ => each _ exec.host⟩⟩

theorem wlp_call_cost {Op : CallOp} {has_value : Bool} {rev : Revision} {dst : Address}
    {Q : Int → Exec H → Prop}
    (each : ∀ cost host', (if has_value then 9000 else 0) ≤ cost → Q cost { exec with host := host' }) :
    Action.wlp P (call_cost host Op has_value rev dst) Q exec := by
  simp only [call_cost, Action.wlp_bind, Action.wlp_ite, Action.wlp_pure]
  refine ⟨fun _ => wlp_ask (hosted.account_exists _) fun exists_ host' => each _ _ ?_,
    fun _ => each _ exec.host le_rfl⟩
  split <;> omega

omit hosted in
theorem wlp_read_input [MemoryQuiet P] {α : Type} {k n : Nat} {f : Bytes → Instr H α}
    {Q : α → Exec H → Prop} (each : ∀ input, Action.wlp P (f input) Q exec) :
    Action.wlp P (if n > 0 then on_state (memory_load k n) >>= f else pure [] >>= f) Q exec := by
  simp only [Action.wlp_ite, Action.wlp_bind, wlp_on_state, wlp_memory_load, Action.wlp_pure]
  exact ⟨fun _ => each _, fun _ => each _⟩

end
end EvmAssigner
