import Mathlib.Order.Bounds.Basic
import EvmAssigner.Runs

namespace EvmAssigner
variable {s : ExecutionState} {gas_left : Int} {offset size : Word} {Q : Bool × Int → ExecutionState → Prop}

/-- What it costs to grow a memory to `new_size` bytes, rounded up to words. -/
def Memory.growth_cost (memory : Memory) (new_size : Nat) : Int :=
  memory_cost (num_words new_size) - memory_cost (memory.m_size / word_size)

/-- The memory behind a request that ends at `new_size` and is paid. -/
def Memory.grown (memory : Memory) (new_size : Nat) : Memory :=
  if new_size > memory.m_size then memory.grow (num_words new_size * word_size) else memory

/-- The charge for a request that ends at `new_size`. -/
def Memory.charge (memory : Memory) (new_size : Nat) : Int :=
  if new_size > memory.m_size then memory.growth_cost new_size else 0

theorem wp_grow_memory {new_size : Nat} {Q : Int → ExecutionState → Prop} :
    Action.wp (grow_memory gas_left new_size) Q s ↔
      Q (gas_left - s.memory.growth_cost new_size)
        (if gas_left - s.memory.growth_cost new_size ≥ 0 then
          s.set_memory (s.memory.grow (num_words new_size * word_size)) else s) := by
  unfold grow_memory
  simp only [Action.wp_bind, Action.wp_get]
  change Action.wp (if gas_left - s.memory.growth_cost new_size ≥ 0 then _ else _) _ s ↔ _
  split
  · simp [Memory.growth_cost]
  · simp [Memory.growth_cost]

/-- The end of a request, as the code computes it. -/
def request_end (offset : Word) (size : Nat) : Nat := (offset.to_uint64 + size) % 2 ^ 64

theorem wp_check_memory_size {size : Nat} :
    Action.wp (check_memory_size gas_left offset size) Q s ↔
      if offset.to_uint64 > max_buffer_size then Q (false, gas_left) s
      else if gas_left - s.memory.charge (request_end offset size) ≥ 0 then
        Q (true, gas_left - s.memory.charge (request_end offset size))
          (s.set_memory (s.memory.grown (request_end offset size)))
      else Q (false, gas_left - s.memory.charge (request_end offset size)) s := by
  have ends : (offset.to_uint64 + size) % 2 ^ 64 = request_end offset size := rfl
  unfold check_memory_size
  simp only [Action.wp_bind, Action.wp_get, Action.wp_ite, ends]
  generalize request_end offset size = e
  by_cases far : offset.to_uint64 > max_buffer_size
  · simp [far]
  · by_cases larger : e > s.memory.m_size
    · have charge : s.memory.charge e = s.memory.growth_cost e := if_pos larger
      have grown : s.memory.grown e = s.memory.grow (num_words e * word_size) := if_pos larger
      by_cases paid : s.memory.growth_cost e ≤ gas_left
      · simp [far, larger, charge, grown, wp_grow_memory, paid]
      · simp [far, larger, charge, wp_grow_memory, paid]
    · have charge : s.memory.charge e = 0 := if_neg larger
      have grown : s.memory.grown e = s.memory := if_neg larger
      have same : s.set_memory s.memory = s := rfl
      by_cases paid : gas_left ≥ 0
      · simp [far, larger, charge, grown, same, paid]
      · simp [far, larger, charge, paid]

theorem wp_check_memory :
    Action.wp (check_memory gas_left offset size) Q s ↔
      if size = 0 then Q (true, gas_left) s
      else if size.to_uint64 > max_buffer_size then Q (false, gas_left) s
      else Action.wp (check_memory_size gas_left offset size.to_uint64) Q s := by
  unfold check_memory
  by_cases zero : size = 0
  · simp [zero]
  · rw [if_neg zero, if_neg zero]
    by_cases large : size.to_uint64 > max_buffer_size
    · simp [large]
    · simp [large]

/-- The words are beyond what is looked at, or the end cannot be paid. -/
def Refuses (memory : Memory) (gas_left : Int) (offset size : Word) : Prop :=
  max_buffer_size < size.to_uint64 ∨ max_buffer_size < offset.to_uint64 ∨
    gas_left < memory.charge (offset.to_uint64 + size.to_uint64)

/-- What `check_memory` answers is right about the words themselves. -/
def ChecksWords (offset size : Word) (answer : Bool × Int) (memory : Memory) : Prop :=
  (answer.1 = true → size = 0 ∨ offset.toNat + size.toNat ≤ memory.m_size) ∧
    (answer.1 = false → max_buffer_size < offset.toNat ∨ max_buffer_size < size.toNat ∨ answer.2 < 0)

theorem Memory.grown_size (memory : Memory) {e : Nat} (small : e < 2 ^ 34) :
    e ≤ (memory.grown e).m_size ∧ memory.m_size ≤ (memory.grown e).m_size ∧
      (memory.grown e).m_size ≤ max memory.m_size (e + 31) := by
  unfold Memory.grown
  split
  · rw [Memory.grow_m_size, num_words, word_size, Nat.mod_eq_of_lt (by omega)]
    omega
  · omega

/-- Only the low 64 bits of the two words are looked at. -/
theorem check_memory_words_iff (s : ExecutionState) (gas_left : Int) (offset size : Word) :
    Action.wp (check_memory gas_left offset size) (fun answer s' =>
        ChecksWords offset size answer s'.memory) s ↔
      size = 0 ∨ (offset.toNat < 2 ^ 64 ∧ size.toNat < 2 ^ 64) ∨
        offset.toNat + size.toNat ≤ s.memory.m_size ∨ Refuses s.memory gas_left offset size := by
  have low_offset := offset.to_uint64_eq
  have low_size := size.to_uint64_eq
  rw [wp_check_memory]
  by_cases zero : size = 0
  · simp [zero, ChecksWords]
  have some : size.toNat ≠ 0 := fun none => zero (BitVec.eq_of_toNat_eq none)
  rw [if_neg zero]
  by_cases large : size.to_uint64 > max_buffer_size
  · have beyond : max_buffer_size < size.toNat := by omega
    simp [large, ChecksWords, Refuses, beyond]
  rw [if_neg large, wp_check_memory_size]
  by_cases far : offset.to_uint64 > max_buffer_size
  · have beyond : max_buffer_size < offset.toNat := by omega
    simp [far, ChecksWords, Refuses, beyond]
  have ends : request_end offset size.to_uint64 = offset.to_uint64 + size.to_uint64 := by
    rw [max_buffer_size] at large far
    exact Nat.mod_eq_of_lt (by omega)
  rw [if_neg far, ends]
  rw [max_buffer_size] at large far
  obtain ⟨covers, larger, least⟩ :=
    s.memory.grown_size (show offset.to_uint64 + size.to_uint64 < 2 ^ 34 by omega)
  by_cases paid : gas_left - s.memory.charge (offset.to_uint64 + size.to_uint64) ≥ 0
  · rw [if_pos paid]
    constructor
    · intro checks
      have room := (checks.1 rfl).resolve_left zero
      change _ ≤ (s.memory.grown (offset.to_uint64 + size.to_uint64)).m_size at room
      by_cases there : offset.toNat + size.toNat ≤ s.memory.m_size
      · exact Or.inr (Or.inr (Or.inl there))
      · exact Or.inr (Or.inl ⟨by omega, by omega⟩)
    · intro either
      refine ⟨fun _ => Or.inr ?_, fun refused => absurd refused (by simp)⟩
      change _ ≤ (s.memory.grown (offset.to_uint64 + size.to_uint64)).m_size
      rcases either with none | small | there | refuses
      · exact absurd none zero
      · omega
      · omega
      · unfold Refuses at refuses
        rw [max_buffer_size] at refuses
        omega
  · rw [if_neg paid]
    have dear : gas_left < s.memory.charge (offset.to_uint64 + size.to_uint64) := by omega
    constructor
    · exact fun _ => Or.inr (Or.inr (Or.inr (Or.inr (Or.inr dear))))
    · exact fun _ => ⟨fun passed => absurd passed (by simp),
        fun _ => Or.inr (Or.inr (show gas_left - _ < 0 by omega))⟩

/-- `2 ^ 64` bytes from offset 0 on are let through for nothing. -/
theorem check_memory_words_wrong :
    ¬ Action.wp (check_memory 100 0 (BitVec.twoPow 256 64)) (fun answer s' =>
      ChecksWords 0 (BitVec.twoPow 256 64) answer s'.memory) (code_config .SHANGHAI [] 0).exec.state := by
  rw [wp_check_memory, if_neg (by decide), if_neg (by decide), wp_check_memory_size,
    if_neg (by decide), if_pos (by decide)]
  intro checks
  have room := (checks.1 rfl).resolve_left (by decide)
  exact absurd room (by decide)

/-- A call of either `check_memory`. The instructions that know the size pass 1 or 32. -/
inductive Request where
  | copy (offset size : Word)
  | known (offset : Word) (size : Nat) (small : size ≤ max_buffer_size)

def Request.check (gas_left : Int) : Request → Local (Bool × Int)
  | .copy offset size => check_memory gas_left offset size
  | .known offset size _ => check_memory_size gas_left offset size

/-- The `new_size` the call computes, if it does. -/
def Request.new_size : Request → Option Nat
  | .copy offset size => if size = 0 then none else some (request_end offset size.to_uint64)
  | .known offset size _ => some (request_end offset size)

/-- The requests so far have all succeeded. -/
inductive Served (memory : Memory) (gas : Int) : List Request → ExecutionState → Int → Prop
  | start {s : ExecutionState} (same : s.memory = memory) : Served memory gas [] s gas
  | next {rs : List Request} {r : Request} {s s' : ExecutionState} {left left' : Int}
      (served : Served memory gas rs s left)
      (passed : (r.check left s).2 = some ((true, left'), s')) : Served memory gas (rs ++ [r]) s' left'

/-- The values that `grow_memory` computes as `int64_t`, in order. -/
def grow_memory_values (memory : Memory) (gas_left : Int) (new_size : Nat) : List Int :=
  let new_words : Int := num_words new_size
  let current_words : Int := (memory.m_size / word_size : Nat)
  [new_words, current_words, 3 * new_words, new_words * new_words, new_words * new_words / 512,
    memory_cost (num_words new_size), 3 * current_words, current_words * current_words,
    current_words * current_words / 512, memory_cost (memory.m_size / word_size),
    memory.growth_cost new_size, gas_left - memory.growth_cost new_size, new_words * 32]

/-- A request that is served is paid up to its end; one that is not leaves everything as it was. -/
def Request.Handled (r : Request) (s : ExecutionState) (left : Int) (answer : Bool × Int)
    (s' : ExecutionState) : Prop :=
  (answer.1 = true → match r.new_size with
    | some e => e < 2 ^ 34 ∧ s'.memory = s.memory.grown e ∧
        answer.2 = left - s.memory.charge e ∧ 0 ≤ answer.2
    | none => s'.memory = s.memory ∧ answer.2 = left) ∧
  (answer.1 = false → s' = s)

theorem check_memory_size_handled {left : Int} {offset : Word} {size : Nat} (small : size ≤ max_buffer_size) :
    Action.wp (check_memory_size left offset size) (fun answer s' =>
      (answer.1 = true → request_end offset size < 2 ^ 34 ∧
        s'.memory = s.memory.grown (request_end offset size) ∧
        answer.2 = left - s.memory.charge (request_end offset size) ∧ 0 ≤ answer.2) ∧
      (answer.1 = false → s' = s)) s := by
  rw [wp_check_memory_size]
  by_cases far : offset.to_uint64 > max_buffer_size
  · simp [far]
  · have near : request_end offset size < 2 ^ 34 := by
      rw [max_buffer_size] at far small
      rw [request_end, Nat.mod_eq_of_lt (by omega)]
      omega
    rw [if_neg far]
    split
    · rename_i paid
      exact ⟨fun _ => ⟨near, rfl, rfl, paid⟩, fun refused => absurd refused (by simp)⟩
    · exact ⟨fun passed => absurd passed (by simp), fun _ => rfl⟩

theorem Request.handled (r : Request) (s : ExecutionState) (left : Int) :
    Action.wp (r.check left) (r.Handled s left) s := by
  cases r with
  | known offset size small => exact check_memory_size_handled small
  | copy offset size =>
    unfold Request.check Handled Request.new_size
    rw [wp_check_memory]
    by_cases zero : size = 0
    · simp [zero]
    · rw [if_neg zero]
      by_cases large : size.to_uint64 > max_buffer_size
      · simp [large]
      · rw [if_neg large]
        simp only [zero, if_false]
        exact check_memory_size_handled (not_lt.mp large)

/-- The memory of a run of requests: whole words, as many as the ends ask for, and paid. -/
structure Paid (gas : Int) (rs : List Request) (memory : Memory) (left : Int) : Prop where
  small : memory.m_size ≤ 2 ^ 35
  words : memory.m_size % 32 = 0
  covers : ∀ r ∈ rs, ∀ e, r.new_size = some e → e ≤ memory.m_size
  needed : memory.m_size = 0 ∨ ∃ r ∈ rs, ∃ e, r.new_size = some e ∧ memory.m_size < e + 32
  charged : gas - left = memory_cost (memory.m_size / 32)

theorem Paid.next {gas left left' : Int} {rs : List Request} {r : Request} {s s' : ExecutionState}
    (paid : Paid gas rs s.memory left) (passed : (r.check left s).2 = some ((true, left'), s')) :
    Paid gas (rs ++ [r]) s'.memory left' := by
  have handled := (r.handled s left).returns passed |>.1 rfl
  cases ends : r.new_size with
  | none =>
    rw [ends] at handled
    obtain ⟨same, rfl⟩ := handled
    rw [same]
    refine ⟨paid.small, paid.words, fun r' member e at_e => ?_, ?_, paid.charged⟩
    · rcases List.mem_append.mp member with early | late
      · exact paid.covers r' early e at_e
      · obtain rfl := List.mem_singleton.mp late
        simp [ends] at at_e
    · rcases paid.needed with none | ⟨r', member, needs⟩
      · exact Or.inl none
      · exact Or.inr ⟨r', List.mem_append_left _ member, needs⟩
  | some e =>
    rw [ends] at handled
    obtain ⟨near, grown, charged, _⟩ := handled
    have words : num_words e = (e + 31) / 32 := by
      rw [num_words, word_size, Nat.mod_eq_of_lt (by omega)]
    have spent := paid.charged
    have size : s'.memory.m_size = if e > s.memory.m_size then (e + 31) / 32 * 32 else s.memory.m_size := by
      rw [grown, Memory.grown]
      split
      · rw [Memory.grow_m_size, words, word_size]
      · rfl
    have cost : s.memory.charge e =
        memory_cost (s'.memory.m_size / 32) - memory_cost (s.memory.m_size / 32) := by
      rw [Memory.charge, size]
      split
      · rw [Memory.growth_cost, words, word_size, Nat.mul_div_cancel _ (by omega)]
      · omega
    have bound := paid.small
    have whole := paid.words
    refine ⟨?_, ?_, fun r' member e' at_e => ?_, ?_, by simp only at charged; omega⟩
    · rw [size]
      split <;> omega
    · rw [size]
      split <;> omega
    · have room : s.memory.m_size ≤ s'.memory.m_size ∧ e ≤ s'.memory.m_size := by
        rw [size]
        split <;> omega
      rcases List.mem_append.mp member with early | late
      · exact (paid.covers r' early e' at_e).trans room.1
      · obtain rfl := List.mem_singleton.mp late
        obtain rfl : e = e' := Option.some.inj (ends.symm.trans at_e)
        exact room.2
    · rw [size]
      split
      · exact Or.inr ⟨r, by simp, e, ends, by omega⟩
      · rcases paid.needed with none | ⟨r', member, needs⟩
        · exact Or.inl none
        · exact Or.inr ⟨r', List.mem_append_left _ member, needs⟩

theorem Served.paid {memory : Memory} {gas left : Int} {rs : List Request} {s : ExecutionState}
    (served : Served memory gas rs s left) (empty : memory.m_size = 0) : Paid gas rs s.memory left := by
  induction served with
  | start same =>
    rw [same]
    refine ⟨by omega, by omega, fun r member => absurd member List.not_mem_nil, Or.inl empty, ?_⟩
    rw [empty]
    exact Int.sub_self gas
  | next _ passed ih => exact ih.next passed

theorem grow_memory_fits {memory : Memory} {e : Nat} {left : Int} (near : e < 2 ^ 34)
    (larger : memory.m_size < e) (paid : 0 ≤ left - memory.growth_cost e) (fits : left < 2 ^ 63) :
    ∀ v ∈ grow_memory_values memory left e, -2 ^ 63 ≤ v ∧ v < 2 ^ 63 := by
  have new_words : num_words e ≤ 2 ^ 30 := by
    rw [num_words, word_size, Nat.mod_eq_of_lt (by omega)]
    omega
  have fewer : memory.m_size / 32 ≤ num_words e := by
    rw [num_words, word_size, Nat.mod_eq_of_lt (by omega)]
    omega
  have square : num_words e * num_words e ≤ 2 ^ 30 * 2 ^ 30 := Nat.mul_le_mul new_words new_words
  have fewer_square := Nat.mul_le_mul fewer fewer
  have order := memory_cost_mono fewer
  unfold Memory.growth_cost at paid
  rw [word_size] at paid
  unfold grow_memory_values Memory.growth_cost
  rw [word_size]
  generalize num_words e = n at *
  generalize memory.m_size / 32 = m at *
  have n_square : (n : Int) * n ≤ 2 ^ 60 := by exact_mod_cast square
  have m_square : (m : Int) * m ≤ n * n := by exact_mod_cast fewer_square
  have n_nonneg : 0 ≤ (n : Int) * n := Int.mul_nonneg (by omega) (by omega)
  have m_nonneg : 0 ≤ (m : Int) * m := Int.mul_nonneg (by omega) (by omega)
  unfold memory_cost at paid order ⊢
  intro v member
  simp only [List.mem_cons, List.not_mem_nil, or_false] at member
  rcases member with rfl | rfl | rfl | rfl | rfl | rfl | rfl | rfl | rfl | rfl | rfl | rfl | rfl
  all_goals omega

/-- What the requests cost together depends on the size of the memory in the end only. -/
theorem memory_gas_telescopes {memory : Memory} {gas left : Int} {rs : List Request}
    {s : ExecutionState} (served : Served memory gas rs s left) (empty : memory.m_size = 0)
    (int64 : gas < 2 ^ 63) :
    gas - left = memory_cost (s.memory.m_size / 32) ∧
      IsLeast {n | 32 ∣ n ∧ ∀ r ∈ rs, ∀ e, r.new_size = some e → e ≤ n} s.memory.m_size ∧
      ∀ (r : Request) ok left' s', (r.check left s).2 = some ((ok, left'), s') →
        (ok = true → ∀ e, r.new_size = some e → s.memory.m_size < e →
          ∀ v ∈ grow_memory_values s.memory left e, -2 ^ 63 ≤ v ∧ v < 2 ^ 63) ∧
        (ok = false → s'.memory = s.memory) := by
  have paid := served.paid empty
  refine ⟨paid.charged, ⟨⟨Nat.dvd_of_mod_eq_zero paid.words, paid.covers⟩, ?_⟩, ?_⟩
  · rintro n ⟨⟨k, rfl⟩, covers⟩
    have words := paid.words
    rcases paid.needed with none | ⟨r, member, e, ends, short⟩
    · omega
    · have covered := covers r member e ends
      omega
  · intro r ok left' s' ran
    have handled := (r.handled s left).returns ran
    refine ⟨fun passed e ends larger => ?_, fun refused => by rw [handled.2 refused]⟩
    have served_ := handled.1 passed
    rw [ends] at served_
    obtain ⟨near, _, charged, nonneg⟩ := served_
    have cost : s.memory.charge e = s.memory.growth_cost e := if_pos larger
    have spent := paid.charged
    have positive : memory_cost 0 ≤ memory_cost (s.memory.m_size / 32) := memory_cost_mono (Nat.zero_le _)
    have free : memory_cost 0 = 0 := rfl
    simp only at charged nonneg
    exact grow_memory_fits near larger (by omega) (by omega)

/-- A word at offset 0, then 64 bytes from offset 40 on. -/
def two_requests : List Request := [.known 0 32 (by decide), .copy 40 64]

def empty_frame : ExecutionState := (code_config .SHANGHAI [] 0).exec.state
def one_word : ExecutionState := empty_frame.set_memory (empty_frame.memory.grow 32)
def four_words : ExecutionState := one_word.set_memory (one_word.memory.grow 128)

theorem memory_gas_telescopes_two :
    ∃ (s : ExecutionState) (left : Int), 1000 - left = memory_cost (s.memory.m_size / 32) ∧
      IsLeast {n | 32 ∣ n ∧ ∀ r ∈ two_requests, ∀ e, r.new_size = some e → e ≤ n} s.memory.m_size := by
  have one : (Request.check 1000 (.known 0 32 (by decide)) empty_frame).2 = some ((true, 997), one_word) := rfl
  have two : (Request.check 997 (.copy 40 64) one_word).2 = some ((true, 988), four_words) := rfl
  have served : Served empty_frame.memory 1000 two_requests four_words 988 :=
    .next (.next (.start rfl) one) two
  obtain ⟨charged, least, _⟩ := memory_gas_telescopes served rfl (by decide)
  exact ⟨four_words, 988, charged, least⟩

end EvmAssigner
