import EvmAssigner.IndexOperands

namespace EvmAssigner
variable {H : Type} {s : ExecutionState} {gas_left h : Int} {width : Nat}

/-- The room for a word is refused: its offset is beyond what memories are grown to, or it costs more than
there is. -/
def Memory.RefusesWord (memory : Memory) (gas_left : Int) (offset : Word) : Prop :=
  max_buffer_size < offset.to_uint64 ∨ gas_left < memory.charge (offset.to_uint64 + 32)

theorem wp_check_word_either {offset : Word} {Q : Bool × Int → ExecutionState → Prop}
    (denied : ∀ left, s.memory.RefusesWord gas_left offset → Q (false, left) s)
    (granted : ¬ s.memory.RefusesWord gas_left offset → Q (true, gas_left - s.memory.charge (offset.to_uint64 + 32))
      (s.set_memory (s.memory.grown (offset.to_uint64 + 32)))) :
    Action.wp (check_memory_size gas_left offset 32) Q s := by
  rw [wp_check_memory_size]
  by_cases far : offset.to_uint64 > max_buffer_size
  · rw [if_pos far]
    exact denied _ (Or.inl far)
  have ends : request_end offset 32 = offset.to_uint64 + 32 := by
    rw [max_buffer_size] at far
    exact Nat.mod_eq_of_lt (by omega)
  rw [if_neg far, ends]
  by_cases paid : gas_left - s.memory.charge (offset.to_uint64 + 32) ≥ 0
  · rw [if_pos paid]
    refine granted ?_
    rintro (far' | dear)
    · exact far far'
    · omega
  · rw [if_neg paid]
    exact denied _ (Or.inr (by omega))

@[simp] theorem load_store (memory : Memory) (p : Nat) (data : Bytes) :
    (memory.store p data).load p data.length = data := by
  refine List.ext_getElem (by simp) fun j within within' => ?_
  simp only [Memory.load, List.getElem_map, List.getElem_range, Memory.store_m_data]
  rw [if_pos (by omega), Nat.add_sub_cancel_left, List.getD_eq_getElem _ _ within']

/-- What a store leaves when there is room for a word: the bytes, and an entry for each byte of the word. -/
theorem wp_mstore : Action.wp (mstore width h gas_left) (fun o s' =>
    (s.memory.RefusesWord gas_left (s.stack_space (h - 1)) → o.status ≠ .SUCCESS) ∧
    (¬ s.memory.RefusesWord gas_left (s.stack_space (h - 1)) → o.status = .SUCCESS ∧
      s'.memory = (s.memory.grown ((s.stack_space (h - 1)).to_uint64 + 32)).store (s.stack_space (h - 1)).to_uint64
        ((s.stack_space (h - 2)).store width) ∧
      s'.rw_trace = ((s.record h 1 false).record h 0 false).rw_trace ++
        ((s.record h 1 false).record h 0 false).byte_entries
          (fun j => BitVec.ofNat 256 ((s.stack_space (h - 1)).to_uint64 + j)) true
          (s'.memory.load (s.stack_space (h - 1)).to_uint64 32))) s := by
  have top : h - 1 - 0 = h - 1 := by omega
  have second : h - 1 - 1 - 0 = h - 2 := by omega
  simp only [mstore, Action.wp_bind, wp_record_stack, wp_stack_get, ExecutionState.record_stack_space, top, second]
  generalize s.stack_space (h - 1) = p
  generalize s.stack_space (h - 2) = v
  obtain ⟨s₁, popped⟩ : ∃ s₁, s₁ = (s.record h 1 false).record h 0 false := ⟨_, rfl⟩
  have same : s₁.memory = s.memory := by rw [popped]; rfl
  rw [← popped]
  refine wp_check_word_either (fun left refused => ?_) fun granted => ?_
  · rw [same] at refused
    simp [refused]
  · rw [same] at granted ⊢
    simp only [Bool.not_true, Bool.false_eq_true, if_false, Action.wp_bind, Action.wp_pure, wp_memory_store,
      wp_memory_load]
    exact wp_record_bytes ⟨fun refused => absurd refused granted, fun _ => ⟨trivial, rfl, rfl⟩⟩

/-- A load takes the whole word, whatever its width. -/
theorem wp_mload : Action.wp (mload h gas_left) (fun o s' =>
    (s.memory.RefusesWord gas_left (s.stack_space (h - 1)) → o.status ≠ .SUCCESS) ∧
    (¬ s.memory.RefusesWord gas_left (s.stack_space (h - 1)) → o.status = .SUCCESS ∧
      s'.stack_space (h - 1) = .of_bytes ((s.memory.grown ((s.stack_space (h - 1)).to_uint64 + 32)).load
        (s.stack_space (h - 1)).to_uint64 32))) s := by
  have top : h - 1 - 0 = h - 1 := by omega
  simp only [mload, Action.wp_bind, wp_record_stack, wp_stack_get, ExecutionState.record_stack_space, top]
  generalize s.stack_space (h - 1) = p
  obtain ⟨s₁, popped⟩ : ∃ s₁, s₁ = s.record h 0 false := ⟨_, rfl⟩
  have same : s₁.memory = s.memory := by rw [popped]; rfl
  rw [← popped]
  refine wp_check_word_either (fun left refused => ?_) fun granted => ?_
  · rw [same] at refused
    simp [refused]
  · rw [same] at granted ⊢
    simp only [Bool.not_true, Bool.false_eq_true, if_false, Action.wp_bind, Action.wp_pure, wp_memory_load,
      wp_stack_set]
    refine wp_record_bytes (wp_record_stack.mpr ⟨fun refused => absurd refused granted, fun _ => ⟨trivial, ?_⟩⟩)
    simp [top]

/-- What is recorded of the memory from `s` on: addresses, directions and values. -/
def ExecutionState.memory_entries (s s' : ExecutionState) : List (Nat × Bool × Word) :=
  ((s'.rw_trace.drop s.rw_trace.length).filter fun o => o.op = MEMORY_OP).map fun o =>
    (o.address.toNat, o.is_write, o.value)

/-- The lowest `width` bytes of `v` are put down at `p`, and nothing else happens to the memory. -/
structure StoresSized (width p : Nat) (v : Word) (s s' : ExecutionState) : Prop where
  bytes : ∀ j < width, p + j < s'.memory.m_size ∧
    s'.memory.m_data (p + j) = (be_store width (v.toNat % 256 ^ width)).getD j 0
  others : ∀ k < s'.memory.m_size, ¬ (p ≤ k ∧ k < p + width) →
    s'.memory.m_data k = if k < s.memory.m_size then s.memory.m_data k else 0
  size : s'.memory.m_size = s.memory.expanded p width
  entries : s.memory_entries s' = (List.range width).map fun j =>
    (p + j, true, BitVec.ofNat 256 ((be_store width (v.toNat % 256 ^ width)).getD j 0).toNat)
  loads : ∀ (t : ExecutionState) (h' gas' : Int), t.memory = s'.memory → (t.stack_space (h' - 1)).toNat = p →
    Action.wp (mload h' gas') (fun o t' => o.status = .SUCCESS →
      (t'.stack_space (h' - 1)).toNat = v.toNat % 256 ^ width) t

@[simp] theorem stack_operation_op {id address rw_id : Nat} {is_write : Bool} {value : Word} :
    ¬ (stack_operation id address rw_id is_write value).op = MEMORY_OP := by
  have other : STACK_OP ≠ MEMORY_OP := by decide
  exact other

@[simp] theorem byte_entries_filter {address : Nat → Word} {is_write : Bool} {data : Bytes} :
    (s.byte_entries address is_write data).filter (fun o => o.op = MEMORY_OP) =
      s.byte_entries address is_write data := by
  refine List.filter_eq_self.mpr fun o member => ?_
  obtain ⟨j, _, rfl⟩ := List.mem_map.mp member
  rfl

@[simp] theorem byte_entries_map {address : Nat → Word} {is_write : Bool} {data : Bytes} :
    (s.byte_entries address is_write data).map (fun o => (o.address.toNat, o.is_write, o.value)) =
      (List.range data.length).map fun j =>
        ((address j).toNat, is_write, BitVec.ofNat 256 (data.getD j 0).toNat) := by
  rw [ExecutionState.byte_entries, List.map_map]
  rfl

theorem memory_entries_recorded {s' t : ExecutionState} {i i' : Int} {b b' is_write : Bool} {address : Nat → Word}
    {data : Bytes} (trace : s'.rw_trace = ((s.record h i b).record h i' b').rw_trace ++
      t.byte_entries address is_write data) :
    s.memory_entries s' = (List.range data.length).map fun j =>
      ((address j).toNat, is_write, BitVec.ofNat 256 (data.getD j 0).toNat) := by
  simp [ExecutionState.memory_entries, trace]

theorem store_bytes {p width : Nat} {memory : Memory} {v : Word} {j : Nat} (within : j < width) :
    (memory.store p (v.store width)).m_data (p + j) = (be_store width v.toNat).getD j 0 := by
  rw [Memory.store_m_data, store_length, if_pos (by omega), Nat.add_sub_cancel_left, Word.store]

/-- A word that is stored whole is loaded again. -/
theorem word_store_load (v : Word) : Word.of_bytes (v.store 32) = v := by
  have wide : v.toNat < 256 ^ 32 := v.isLt
  apply BitVec.eq_of_toNat_eq
  rw [Word.of_bytes_toNat (by rw [store_length]), Word.store, be_load_store, Nat.mod_eq_of_lt wide]

/-- Where a word has been put down, a load brings it back. -/
theorem mload_stored {t : ExecutionState} {memory : Memory} {v : Word} {p : Nat} {gas' : Int}
    (covers : p + 32 ≤ memory.m_size) (same : t.memory = memory.store p (v.store 32))
    (at_p : (t.stack_space (h - 1)).to_uint64 = p) :
    Action.wp (mload h gas') (fun o t' => o.status = .SUCCESS → t'.stack_space (h - 1) = v) t := by
  refine wp_mload.mono fun o t' outcome success => ?_
  have granted : ¬ t.memory.RefusesWord gas' (t.stack_space (h - 1)) := fun refused => outcome.1 refused success
  have value := (outcome.2 granted).2
  have there : t.memory.grown (p + 32) = t.memory := if_neg (by rw [same, Memory.store_m_size]; omega)
  have bytes := load_store memory p (v.store 32)
  rw [store_length] at bytes
  rw [value, at_p, there, same, bytes, word_store_load]

theorem grown_expanded {memory : Memory} {p n : Nat} (small : p + n < 2 ^ 34) :
    (memory.grown (p + n)).m_size = memory.expanded p n := by
  unfold Memory.grown Memory.expanded
  split
  · rw [Memory.grow_m_size, num_words, word_size, Nat.mod_eq_of_lt (by omega)]
  · rfl

theorem grown_data {memory : Memory} {e k : Nat} (within : k < (memory.grown e).m_size) :
    (memory.grown e).m_data k = if k < memory.m_size then memory.m_data k else 0 := by
  unfold Memory.grown at within ⊢
  split at within
  · rename_i larger
    rw [Memory.grow_m_size] at within
    rw [if_pos larger, Memory.grow_m_data]
    by_cases old : k < memory.m_size
    · rw [if_neg (by omega), if_pos old]
    · rw [if_pos (by omega), if_neg old]
  · rename_i there
    rw [if_neg there, if_pos within]

theorem request_near {memory : Memory} {p : Word} (granted : ¬ memory.RefusesWord gas_left p) :
    p.to_uint64 + 32 < 2 ^ 33 := by
  have limit : ¬ max_buffer_size < p.to_uint64 := fun far => granted (Or.inl far)
  rw [max_buffer_size] at limit
  omega

/-- Room that is granted to a word covers it, and is not more than can be addressed. -/
theorem Memory.granted_size {memory : Memory} {p : Word} (granted : ¬ memory.RefusesWord gas_left p) :
    p.to_uint64 + 32 ≤ (memory.grown (p.to_uint64 + 32)).m_size ∧
      (memory.grown (p.to_uint64 + 32)).m_size ≤ max memory.m_size (2 ^ 34) := by
  have near := request_near granted
  obtain ⟨covers, _, bound⟩ := memory.grown_size (show p.to_uint64 + 32 < 2 ^ 34 by omega)
  exact ⟨covers, by omega⟩

/-- As many entries are recorded as a whole word has bytes. -/
theorem StoresSized.width_eq {s' t : ExecutionState} {p k : Nat} {v : Word} {address : Nat → Word}
    (stores : StoresSized width p v s s')
    (trace : s'.rw_trace = ((s.record h 1 false).record h 0 false).rw_trace ++
      t.byte_entries address true (s'.memory.load k 32)) : width = 32 := by
  have count := congrArg List.length ((memory_entries_recorded trace).symm.trans stores.entries)
  simpa using count.symm

/-- Only the widest of the stores does what its width says, and only where its offset is not cut. -/
theorem mstore_sized_iff (s : ExecutionState) (h gas_left : Int) {width : Nat} (sized : width ∈ [1, 2, 4, 8, 32])
    (small : s.memory.m_size < 2 ^ 63) :
    Action.wp (mstore width h gas_left) (fun o s' => o.status = .SUCCESS →
      StoresSized width (s.stack_space (h - 1)).toNat (s.stack_space (h - 2)) s s') s ↔
    s.memory.RefusesWord gas_left (s.stack_space (h - 1)) ∨ width = 32 ∧ (s.stack_space (h - 1)).toNat < 2 ^ 64 := by
  refine wp_mstore.iff fun o s' outcome => ?_
  generalize s.stack_space (h - 1) = p at outcome ⊢
  generalize s.stack_space (h - 2) = v at outcome ⊢
  by_cases refused : s.memory.RefusesWord gas_left p
  · exact iff_of_true (fun success => absurd success (outcome.1 refused)) (Or.inl refused)
  obtain ⟨success, memory, trace⟩ := outcome.2 refused
  obtain ⟨covers, bound⟩ := s.memory.granted_size refused
  have size : s'.memory.m_size = (s.memory.grown (p.to_uint64 + 32)).m_size := by rw [memory, Memory.store_m_size]
  have entries := memory_entries_recorded trace
  rw [load_length] at entries
  have positive : 0 < width := by
    simp only [List.mem_cons, List.not_mem_nil, or_false] at sized
    omega
  constructor
  · intro stores
    have room := ((stores success).bytes 0 positive).1
    exact Or.inr ⟨(stores success).width_eq trace, by omega⟩
  · rintro (refused' | ⟨rfl, low⟩) _
    · exact absurd refused' refused
    have wide : v.toNat < 256 ^ 32 := v.isLt
    rw [Word.to_uint64_low low] at memory covers size entries bound
    constructor
    · intro j within
      rw [Nat.mod_eq_of_lt wide]
      exact ⟨by omega, by rw [memory, store_bytes within]⟩
    · intro k within outside
      rw [size] at within
      rw [memory, Memory.store_m_data, store_length, if_neg outside, grown_data within]
    · rw [size]
      have near := request_near refused
      rw [Word.to_uint64_low low] at near
      exact grown_expanded (by omega)
    · rw [Nat.mod_eq_of_lt wide, entries]
      refine List.map_congr_left fun j member => ?_
      have within := List.mem_range.mp member
      have byte : (s'.memory.load p.toNat 32).getD j 0 = (be_store 32 v.toNat).getD j 0 := by
        rw [load_getD (by simpa using within), memory, store_bytes within]
      rw [byte, word_address (by omega)]
    · intro t h' gas' same at_p
      rw [Nat.mod_eq_of_lt wide]
      have at_p' : (t.stack_space (h' - 1)).to_uint64 = p.toNat := by rw [Word.to_uint64_low (by omega), at_p]
      exact (mload_stored covers (same.trans memory) at_p').mono fun _ _ value success => by rw [value success]

/-- A byte of a limb is a byte of the word. -/
theorem limb_byte (x q r : Nat) (inside : r < 8) :
    x / 2 ^ (64 * q) % 2 ^ 64 / 2 ^ (r * 8) % 256 = x / 256 ^ (8 * q + r) % 256 := by
  have split : 2 ^ 64 = 2 ^ (r * 8) * 2 ^ (64 - r * 8) := by
    rw [← pow_add]
    congr 1
    omega
  have divides : 256 ∣ 2 ^ (64 - r * 8) := Nat.pow_dvd_pow 2 (show 8 ≤ 64 - r * 8 by omega)
  have together : 2 ^ (64 * q) * 2 ^ (r * 8) = 256 ^ (8 * q + r) := by
    rw [← pow_add, show 256 = 2 ^ 8 from rfl, ← pow_mul]
    congr 1
    omega
  rw [split, Nat.mod_mul_right_div_self, Nat.mod_mod_of_dvd _ divides, Nat.div_div_eq_div_mul, together]

theorem byte_of_toNat {n x : Word} (inside : n.toNat < 32) :
    (byte_of n x).toNat = x.toNat / 256 ^ (31 - n.toNat) % 256 := by
  have valid : n < 32 := inside
  have low : n.to_uint64 = n.toNat := Word.to_uint64_low (by omega)
  have index : 8 * ((31 - n.toNat) / 8) + (31 - n.toNat) % 8 = 31 - n.toNat := Nat.div_add_mod _ 8
  rw [byte_of, if_pos valid, low, Nat.mod_eq_of_lt inside]
  rw [Nat.and_two_pow_sub_one_eq_mod _ 8, Nat.shiftRight_eq_div_pow, Word.to_uint64_limb,
    limb_byte _ _ _ (Nat.mod_lt _ (by omega)), index, BitVec.toNat_ofNat]
  exact Nat.mod_eq_of_lt (lt_trans (Nat.mod_lt _ (by omega)) (by norm_num))

theorem byte_of_beyond {n x : Word} (beyond : 32 ≤ n.toNat) : byte_of n x = 0 := by
  have invalid : ¬ n < 32 := Nat.not_lt.mpr beyond
  rw [byte_of, if_neg invalid, Nat.and_zero]
  rfl

/-- The bytes that a word is stored as are those that `byte` finds in it. -/
theorem stored_byte {n x : Word} (inside : n.toNat < 32) :
    ((be_store 32 x.toNat).getD n.toNat 0).toNat = (byte_of n x).toNat := by
  rw [be_store_getD inside, byte_of_toNat inside]
  simp

/-- Whatever else there is, the byte instruction answers `n` and `v` with such a word. -/
def ByteGives (n v : Word) (R : Word → Prop) : Prop :=
  ∀ (t : ExecutionState) (h' : Int), t.stack_space (h' - 1) = n → t.stack_space (h' - 2) = v →
    Action.wp (byte h') (fun _ t' => R (t'.stack_space (h' - 2))) t

theorem byte_gives {n v : Word} {R : Word → Prop} (result : R (byte_of n v)) : ByteGives n v R := by
  intro t h' at_n at_v
  rw [byte, wp_binary (R := R), at_n, at_v]
  exact result

/-- At `p` the memory holds the bytes of `v`, as the instructions see them. -/
structure HoldsBytes (p : Nat) (v : Word) (memory : Memory) : Prop where
  bytes : ∀ i : Word, i.toNat < 32 → p + i.toNat < memory.m_size ∧
    ByteGives i v fun b => b.toNat = (memory.m_data (p + i.toNat)).toNat
  beyond : ∀ i : Word, 32 ≤ i.toNat → ByteGives i v (· = 0)
  loads : ∀ (t : ExecutionState) (h' gas' : Int), t.memory = memory → (t.stack_space (h' - 1)).toNat = p →
    Action.wp (mload h' gas') (fun o t' => o.status = .SUCCESS → t'.stack_space (h' - 1) = v) t

/-- Words and memory agree on the order of bytes, wherever the offset is not cut. -/
theorem mstore_bytes_iff (s : ExecutionState) (h gas_left : Int) (small : s.memory.m_size < 2 ^ 63) :
    Action.wp (mstore 32 h gas_left) (fun o s' => o.status = .SUCCESS →
      HoldsBytes (s.stack_space (h - 1)).toNat (s.stack_space (h - 2)) s'.memory) s ↔
    s.memory.RefusesWord gas_left (s.stack_space (h - 1)) ∨ (s.stack_space (h - 1)).toNat < 2 ^ 64 := by
  refine wp_mstore.iff fun o s' outcome => ?_
  generalize s.stack_space (h - 1) = p at outcome ⊢
  generalize s.stack_space (h - 2) = v at outcome ⊢
  by_cases refused : s.memory.RefusesWord gas_left p
  · exact iff_of_true (fun success => absurd success (outcome.1 refused)) (Or.inl refused)
  obtain ⟨success, memory, _⟩ := outcome.2 refused
  obtain ⟨covers, bound⟩ := s.memory.granted_size refused
  have size : s'.memory.m_size = (s.memory.grown (p.to_uint64 + 32)).m_size := by rw [memory, Memory.store_m_size]
  constructor
  · intro holds
    have room := ((holds success).bytes 0 (by decide)).1
    exact Or.inr (by omega)
  · rintro (refused' | low) _
    · exact absurd refused' refused
    rw [Word.to_uint64_low low] at memory covers size
    refine ⟨fun i inside => ⟨by omega, byte_gives ?_⟩, fun i beyond => byte_gives (byte_of_beyond beyond), ?_⟩
    · rw [memory, store_bytes inside, stored_byte inside]
    · intro t h' gas' same at_p
      have at_p' : (t.stack_space (h' - 1)).to_uint64 = p.toNat := by rw [Word.to_uint64_low (by omega), at_p]
      exact mload_stored covers (same.trans memory) at_p'

/-- A frame about to store the word 7. -/
abbrev store_state (offset : Word) : ExecutionState :=
  ((ExecutionState.new {} .SHANGHAI [] [] 0 (analyze_legacy []) fun _ => 0).set_slot 0 7).set_slot 1 offset

theorem store_state_granted {offset : Word} (low : offset.to_uint64 = 0) :
    ¬ (store_state offset).memory.RefusesWord 100 ((store_state offset).stack_space 1) := by
  have at_offset : (store_state offset).stack_space 1 = offset := rfl
  rw [at_offset]
  rintro (far | dear)
  · exact absurd far (by rw [low]; decide)
  · have dear' : 100 < (store_state 0).memory.charge (0 + 32) := low ▸ dear
    exact absurd dear' (by decide)

theorem mstore_sized_whole : Action.wp (mstore 32 2 100) (fun o s' => o.status = .SUCCESS →
    StoresSized 32 0 7 (store_state 0) s') (store_state 0) :=
  (mstore_sized_iff (store_state 0) 2 100 (by decide) (by decide)).mpr (Or.inr ⟨rfl, by decide⟩)

/-- Entries for 32 bytes are recorded where one byte is stored. -/
theorem mstore8_entries : ¬ Action.wp (mstore 1 2 100) (fun o s' => o.status = .SUCCESS →
    StoresSized 1 0 7 (store_state 0) s') (store_state 0) := by
  rw [wp_mstore.iff fun o s' outcome => iff_false_intro fun stores => ?_]
  · exact not_false
  · obtain ⟨success, _, trace⟩ := outcome.2 (store_state_granted (by decide))
    exact absurd ((stores success).width_eq trace) (by decide)

theorem mstore_bytes_first : Action.wp (mstore 32 2 100) (fun o s' => o.status = .SUCCESS →
    HoldsBytes 0 7 s'.memory) (store_state 0) :=
  (mstore_bytes_iff (store_state 0) 2 100 (by decide)).mpr (Or.inr (by decide))

/-- What is stored at `2 ^ 64` is found at 0. -/
theorem mstore_far : ¬ Action.wp (mstore 32 2 100) (fun o s' => o.status = .SUCCESS →
    HoldsBytes (2 ^ 64) 7 s'.memory) (store_state (BitVec.twoPow 256 64)) := by
  rw [wp_mstore.iff fun o s' outcome => iff_false_intro fun holds => ?_]
  · exact not_false
  · have granted : ¬ (store_state (BitVec.twoPow 256 64)).memory.RefusesWord 100 (BitVec.twoPow 256 64) :=
      store_state_granted (by decide)
    obtain ⟨success, memory, _⟩ := outcome.2 granted
    have room := ((holds success).bytes 0 (by decide)).1
    have bound := (Memory.granted_size granted).2
    have small : (store_state (BitVec.twoPow 256 64)).memory.m_size = 0 := rfl
    rw [memory, Memory.store_m_size] at room
    rw [small] at bound
    exact absurd (lt_of_lt_of_le room bound) (by decide)

end EvmAssigner
