import EvmAssigner.ExecutionState

namespace EvmAssigner

/-- `realloc` to `capacity` bytes. It keeps the bytes there were, and `heap` is what it finds behind them. -/
def Memory.reallocated (memory : Memory) (capacity : Nat) (heap : Nat → UInt8) : Memory where
  m_data k := if k < memory.m_capacity then memory.m_data k else heap k
  m_size := memory.m_size
  m_capacity := capacity

/-- The capacity `grow` asks for, in the arithmetic of `size_t`. -/
def Memory.next_capacity (memory : Memory) (new_size : Nat) : Nat :=
  if memory.m_capacity * 2 % 2 ^ 64 < new_size then
    (new_size + (page_size - 1)) % 2 ^ 64 / page_size * page_size
  else memory.m_capacity * 2 % 2 ^ 64

/-- `memset` over the bytes that come into view. -/
def Memory.exposed (memory : Memory) (new_size : Nat) : Memory where
  m_data k := if memory.m_size ≤ k ∧ k < new_size then 0 else memory.m_data k
  m_size := new_size
  m_capacity := memory.m_capacity

/-- No block is empty, or larger than a pointer difference. -/
def allocatable (capacity : Nat) : Prop := 0 < capacity ∧ capacity < 2 ^ 63

instance {capacity : Nat} : Decidable (allocatable capacity) := inferInstanceAs (Decidable (_ ∧ _))

/-- What is done with a memory. -/
inductive MemoryOp where
  /-- `heap` is what a reallocation finds. -/
  | grow (new_size : Nat) (heap : Nat → UInt8)
  | clear
  | write (index : Nat) (value : UInt8)

/-- The assertions of `grow`, for a `size_t`; bytes are written below the size. -/
def MemoryOp.Allowed (memory : Memory) : MemoryOp → Prop
  | .grow new_size _ => new_size % 32 = 0 ∧ memory.m_size < new_size ∧ new_size < 2 ^ 64
  | .clear => True
  | .write index _ => index < memory.m_size

/-- There is no result where the program is terminated, as `handle_out_of_memory` does. -/
def MemoryOp.apply (memory : Memory) : MemoryOp → Option Memory
  | .grow new_size heap =>
    if new_size > memory.m_capacity then
      let capacity := memory.next_capacity new_size
      if allocatable capacity then some ((memory.reallocated capacity heap).exposed new_size) else none
    else some (memory.exposed new_size)
  | .clear => some { memory with m_size := 0 }
  | .write index value => some { memory with m_data := Function.update memory.m_data index value }

/-- `Memory()`, and the operations since, the last one first. -/
inductive MemoryRun : List MemoryOp → Memory → Prop
  | start (heap : Nat → UInt8) : MemoryRun [] { m_data := heap }
  | next {ops : List MemoryOp} {op : MemoryOp} {memory memory' : Memory} (run : MemoryRun ops memory)
      (allowed : op.Allowed memory) (applied : op.apply memory = some memory') : MemoryRun (op :: ops) memory'

/-- The size after some operations. -/
def size_after : List MemoryOp → Nat
  | [] => 0
  | .grow new_size _ :: _ => new_size
  | .clear :: _ => 0
  | .write _ _ :: ops => size_after ops

/-- What was last written to byte `i` since it came into view, 0 if nothing was. -/
def last_written : List MemoryOp → Nat → UInt8
  | [], _ => 0
  | .grow _ _ :: ops, i => if i < size_after ops then last_written ops i else 0
  | .clear :: _, _ => 0
  | .write index value :: ops, i => if i = index then value else last_written ops i

/-- What is true of a memory after every operation. -/
structure MemoryHolds (ops : List MemoryOp) (memory : Memory) : Prop where
  words : memory.m_size % 32 = 0
  room : memory.m_size ≤ memory.m_capacity
  pages : memory.m_capacity % page_size = 0
  bytes : ∀ i < memory.m_size, memory.m_data i = last_written ops i

theorem exposed_holds {ops : List MemoryOp} {memory : Memory} {new_size : Nat} {heap : Nat → UInt8}
    (size : memory.m_size = size_after ops) (words : new_size % 32 = 0) (room : new_size ≤ memory.m_capacity)
    (pages : memory.m_capacity % page_size = 0) (bytes : ∀ i < memory.m_size, memory.m_data i = last_written ops i) :
    MemoryHolds (.grow new_size heap :: ops) (memory.exposed new_size) where
  words := words
  room := room
  pages := pages
  bytes i within := by
    have below : i < new_size := within
    simp only [Memory.exposed, last_written, ← size]
    by_cases old : i < memory.m_size
    · rw [if_neg (by omega), if_pos old, bytes i old]
    · rw [if_pos ⟨by omega, below⟩, if_neg old]

/-- A new capacity is one of whole pages, with room for the new size, if it can be had at all. -/
theorem next_capacity_fits {memory : Memory} {new_size : Nat} (pages : memory.m_capacity % page_size = 0)
    (small : memory.m_capacity < 2 ^ 63) (bound : new_size < 2 ^ 64)
    (can : allocatable (memory.next_capacity new_size)) :
    new_size ≤ memory.next_capacity new_size ∧ memory.next_capacity new_size % page_size = 0 := by
  obtain ⟨some_, _⟩ := can
  unfold page_size at pages ⊢
  have doubled : memory.m_capacity * 2 % 2 ^ 64 = memory.m_capacity * 2 := by omega
  simp only [Memory.next_capacity, doubled, page_size] at some_ ⊢
  split at some_
  · rename_i short
    rw [if_pos short]
    -- past the last page the sum wraps around, and no page is left to ask for
    have whole : (new_size + (4 * 1024 - 1)) % 2 ^ 64 = new_size + (4 * 1024 - 1) := by omega
    rw [whole]
    exact ⟨by omega, by omega⟩
  · rename_i enough
    rw [if_neg enough]
    exact ⟨by omega, by omega⟩

theorem MemoryRun.holds {ops : List MemoryOp} {memory : Memory} (run : MemoryRun ops memory) :
    MemoryHolds ops memory ∧ memory.m_size = size_after ops ∧ memory.m_capacity < 2 ^ 63 := by
  induction run with
  | start heap =>
    have first : (4 * 1024) % page_size = 0 ∧ 4 * 1024 < 2 ^ 63 := by decide
    exact ⟨⟨rfl, Nat.zero_le _, first.1, fun i within => absurd within (Nat.not_lt_zero i)⟩, rfl, first.2⟩
  | @next ops op memory memory' _ allowed applied ih =>
    obtain ⟨held, size, small⟩ := ih
    cases op with
    | grow new_size heap =>
      obtain ⟨words, larger, bound⟩ := allowed
      simp only [MemoryOp.apply] at applied
      split_ifs at applied with full can
      · obtain rfl := Option.some.inj applied
        obtain ⟨room, pages⟩ := next_capacity_fits held.pages small bound can
        refine ⟨exposed_holds size words room pages fun i within => ?_, rfl, can.2⟩
        have old : i < memory.m_capacity := lt_of_lt_of_le within held.room
        exact (if_pos old).trans (held.bytes i within)
      · obtain rfl := Option.some.inj applied
        exact ⟨exposed_holds size words (not_lt.mp full) held.pages held.bytes, rfl, small⟩
    | clear =>
      obtain rfl := Option.some.inj applied
      exact ⟨⟨rfl, Nat.zero_le _, held.pages, fun i within => absurd within (Nat.not_lt_zero i)⟩, rfl, small⟩
    | write index value =>
      obtain rfl := Option.some.inj applied
      refine ⟨⟨held.words, held.room, held.pages, fun i within => ?_⟩, size, small⟩
      show Function.update memory.m_data index value i = _
      by_cases same : i = index
      · simp [last_written, same]
      · rw [Function.update_of_ne same, last_written, if_neg same, held.bytes i within]

/-- In every run of operations on a memory its size stays a number of words within the capacity, the capacity a
number of pages, and each byte in view what was last written there, or 0. -/
theorem memory_holds (ops : List MemoryOp) (memory : Memory) (run : MemoryRun ops memory) :
    MemoryHolds ops memory :=
  run.holds.1

/-- A byte is written, the memory cleared, and 64 bytes come into view. -/
theorem memory_holds_cleared : ∃ memory,
    MemoryRun [.grow 64 (fun _ => 3), .clear, .write 5 7, .grow 32 (fun _ => 3)] memory ∧
      MemoryHolds [.grow 64 (fun _ => 3), .clear, .write 5 7, .grow 32 (fun _ => 3)] memory := by
  have written : MemoryRun [.write 5 7, .grow 32 (fun _ => 3)] _ :=
    .next (.next (.start fun _ => 9) ⟨rfl, by decide, by decide⟩ rfl) (show 5 < 32 by decide) rfl
  have run : MemoryRun [.grow 64 (fun _ => 3), .clear, .write 5 7, .grow 32 (fun _ => 3)] _ :=
    .next (.next written trivial rfl) ⟨rfl, by decide, by decide⟩ rfl
  exact ⟨_, run, memory_holds _ _ run⟩

end EvmAssigner
