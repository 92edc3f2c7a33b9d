import EvmAssigner.MemoryEffects

namespace EvmAssigner
variable {H : Type} {s : ExecutionState} {gas_left h : Int} {source : Bytes}

/-- The `n` bytes of `source` from `i` on, with zeros behind its end. -/
def window (source : Bytes) (i n : Nat) : Bytes := (List.range n).map fun j => source.getD (i + j) 0

@[simp] theorem window_length {i n : Nat} : (window source i n).length = n := by
  simp [window]

theorem window_getD {i n j : Nat} (within : j < n) : (window source i n).getD j 0 = source.getD (i + j) 0 := by
  rw [window, List.getD_eq_getElem?_getD, List.getElem?_map, List.getElem?_range within]
  rfl

/-- A window is filled up with zeros. -/
theorem window_eq {i n : Nat} : window source i n =
    (source.drop i).take n ++ List.replicate (n - ((source.drop i).take n).length) 0 := by
  refine List.ext_getElem? fun j => ?_
  have size : ((source.drop i).take n).length = min n (source.length - i) := by
    rw [List.length_take, List.length_drop]
  rw [window, List.getElem?_map, List.getElem?_append, List.getElem?_replicate, List.getElem?_take,
    List.getElem?_drop, size]
  by_cases within : j < n
  · rw [List.getElem?_range within, if_pos within]
    by_cases inside : i + j < source.length
    · rw [if_pos (by omega), List.getElem?_eq_getElem inside, Option.map_some, List.getD_eq_getElem _ _ inside]
    · rw [if_neg (by omega), if_pos (by omega), Option.map_some, getD_beyond (by omega)]
  · rw [if_neg (by omega), if_neg (by omega), List.getElem?_eq_none (by simpa using within), Option.map_none]

theorem window_zeros_iff {i n : Nat} :
    window source i n = List.replicate n 0 ↔ ∀ j < n, source.getD (i + j) 0 = 0 := by
  constructor
  · intro zeros j within
    rw [← window_getD within, zeros, zeros_getD]
  · intro none
    rw [← List.length_range (n := n), ← List.map_const', window, List.length_range]
    exact List.map_congr_left fun j member => none j (List.mem_range.mp member)

theorem window_beyond {i n : Nat} (far : source.length ≤ i) : window source i n = List.replicate n 0 :=
  window_zeros_iff.mpr fun _ _ => getD_beyond (by omega)

/-- Windows that are read as the same number are the same. -/
theorem be_load_window {other : Bytes} {i k n : Nat} :
    be_load (window source i n) = be_load (window other k n) ↔ window source i n = window other k n := by
  constructor
  · intro same
    have back := be_store_load (window source i n)
    have back' := be_store_load (window other k n)
    rw [window_length] at back back'
    rw [← back, ← back', same]
  · exact congrArg be_load

theorem copy_cost_nonneg (n : Nat) : 0 ≤ copy_cost n := by
  unfold copy_cost
  omega

/-- What a copy of `n` bytes of `source` from `i` on to `p` does in the memory, if it succeeds: the bytes
arrive, and no other byte of the old memory changes. -/
structure Delivers (source : Bytes) (memory : Memory) (p i n : Nat) (o : InstructionResult) (memory' : Memory) :
    Prop where
  bytes : o.status = .SUCCESS → ∀ j < n, p + j < memory'.m_size ∧ memory'.m_data (p + j) = source.getD (i + j) 0
  others : ∀ k < memory.m_size, ¬ (p ≤ k ∧ k < p + n) → memory'.m_data k = memory.m_data k

/-- A copy is refused: it goes beyond what memories are grown to, or it costs more than there is. -/
def Memory.RefusesCopy (memory : Memory) (gas_left : Int) (p n : Word) : Prop :=
  Beyond p n ∨ gas_left < memory.request_charge p n + copy_cost n.to_uint64

theorem wp_copy_to_memory : Action.wp (copy_to_memory source h gas_left) (fun o s' =>
    (s.memory.RefusesCopy gas_left (s.stack_space (h - 1)) (s.stack_space (h - 3)) →
      o.status ≠ .SUCCESS ∧ ∀ k < s.memory.m_size, s'.memory.m_data k = s.memory.m_data k) ∧
    (¬ s.memory.RefusesCopy gas_left (s.stack_space (h - 1)) (s.stack_space (h - 3)) → o.status = .SUCCESS ∧
      (s.memory.requested (s.stack_space (h - 1)) (s.stack_space (h - 3))).Copied s'.memory
        (s.stack_space (h - 1)).to_uint64 (s.stack_space (h - 3)).to_uint64
        fun j => source.getD ((s.stack_space (h - 2)).to_uint64 + j) 0)) s := by
  have top : h - 1 - 0 = h - 1 := by omega
  have second : h - 1 - 1 - 0 = h - 2 := by omega
  have third : h - 2 - 1 - 0 = h - 3 := by omega
  simp only [copy_to_memory, Action.wp_bind, wp_record_stack, wp_stack_get, ExecutionState.record_stack_space, top,
    second, third]
  generalize s.stack_space (h - 1) = p
  generalize s.stack_space (h - 2) = i
  generalize s.stack_space (h - 3) = n
  obtain ⟨s₁, popped⟩ : ∃ s₁, s₁ = ((s.record h 2 false).record h 1 false).record h 0 false := ⟨_, rfl⟩
  have same : s₁.memory = s.memory := by rw [popped]; rfl
  rw [← popped]
  refine wp_check_charged (copy_cost_nonneg n.to_uint64) (fun denied left => ?_) (fun near short dear => ?_)
    fun served enough => ?_
  · rw [same] at denied
    have refused : s.memory.RefusesCopy gas_left p n := denied
    simp [refused, same]
  · rw [same] at short dear ⊢
    have refused : s.memory.RefusesCopy gas_left p n := Or.inr short
    simp only [Bool.not_true, Bool.false_eq_true, if_false, Action.wp_ite, Action.wp_bind, Action.wp_pure, dear,
      not_true, false_implies, and_true, true_implies]
    exact ⟨fun _ => ⟨by simp, (s.memory.requested_covers near).2.2.2⟩, fun served => absurd refused served⟩
  · rw [same] at served enough ⊢
    have served : ¬ s.memory.RefusesCopy gas_left p n := served
    simp only [Bool.not_true, Bool.false_eq_true, if_false, Action.wp_bind, Action.wp_pure, enough]
    refine wp_copy_padded fun memory' copied => wp_memory_load.mpr (wp_record_bytes ?_)
    refine ⟨fun refused => absurd refused served, fun _ => ⟨trivial, copied.congr fun j _ => ?_⟩⟩
    by_cases inside : i.to_uint64 ≤ source.length
    · rw [Nat.min_eq_right inside]
    · rw [getD_beyond (by omega), getD_beyond (by omega)]

/-- The operands of a copy of `source` that is not refused are not cut, or what is copied is the same. -/
def Memory.CopyFits (memory : Memory) (gas_left : Int) (source : Bytes) (p i n : Word) : Prop :=
  memory.RefusesCopy gas_left p n ∨ n = 0 ∨ p.toNat < 2 ^ 64 ∧ n.toNat < 2 ^ 64 ∧
    (i.toNat < 2 ^ 64 ∨ ∀ j < n.toNat, source.getD (i.to_uint64 + j) 0 = 0)

theorem copy_to_memory_delivers_iff (narrow : source.length < 2 ^ 63) (small : s.memory.m_size < 2 ^ 63) :
    Action.wp (copy_to_memory source h gas_left) (fun o s' => Delivers source s.memory
      (s.stack_space (h - 1)).toNat (s.stack_space (h - 2)).toNat (s.stack_space (h - 3)).toNat o s'.memory) s ↔
    s.memory.CopyFits gas_left source (s.stack_space (h - 1)) (s.stack_space (h - 2)) (s.stack_space (h - 3)) := by
  refine wp_copy_to_memory.iff fun o s' outcome => ?_
  generalize s.stack_space (h - 1) = p at outcome ⊢
  generalize s.stack_space (h - 2) = i at outcome ⊢
  generalize s.stack_space (h - 3) = n at outcome ⊢
  unfold Memory.CopyFits
  by_cases refused : s.memory.RefusesCopy gas_left p n
  · obtain ⟨failed, same⟩ := outcome.1 refused
    exact iff_of_true ⟨fun success => absurd success failed, fun k within _ => same k within⟩ (Or.inl refused)
  obtain ⟨success, copied⟩ := outcome.2 refused
  obtain ⟨covers, _, bound, old⟩ := s.memory.requested_covers (fun beyond => refused (Or.inl beyond))
  have size := copied.size
  constructor
  · intro delivers
    have bytes := delivers.bytes success
    by_cases none : n = 0
    · exact Or.inr (Or.inl none)
    have some : n.toNat ≠ 0 := fun zero => none (BitVec.eq_of_toNat_eq zero)
    have last := (bytes (n.toNat - 1) (by omega)).1
    have low : p.toNat < 2 ^ 64 ∧ n.toNat < 2 ^ 64 := by omega
    refine Or.inr (Or.inr ⟨low.1, low.2, ?_⟩)
    by_cases near : i.toNat < 2 ^ 64
    · exact Or.inl near
    · refine Or.inr fun j within => ?_
      have byte := (bytes j within).2
      rw [copied.bytes, Word.to_uint64_low low.1, Word.to_uint64_low low.2, if_pos (by omega),
        Nat.add_sub_cancel_left, getD_beyond (k := i.toNat + j) (by omega)] at byte
      exact byte
  · rintro (refused' | none | ⟨low, low', source_fits⟩)
    · exact absurd refused' refused
    · subst none
      refine ⟨fun _ j within => absurd within (by simp), fun k within _ => ?_⟩
      rw [copied.bytes, if_neg (by simp [Word.to_uint64_eq]), old k within]
    · rw [Word.to_uint64_low low, Word.to_uint64_low low'] at copied covers
      constructor
      · intro _ j within
        have some : n ≠ 0 := by
          rintro rfl
          exact absurd within (by simp)
        refine ⟨by have := covers some; omega, ?_⟩
        rw [copied.bytes, if_pos (by omega), Nat.add_sub_cancel_left]
        by_cases near : i.toNat < 2 ^ 64
        · rw [Word.to_uint64_low near]
        · rw [source_fits.resolve_left near j within, getD_beyond (by omega)]
      · intro k within outside
        rw [copied.bytes, if_neg outside, old k within]

/-- A copy of return data is refused as others are, or since it reaches behind the end of the data. -/
def Memory.RefusesReturnData (memory : Memory) (gas_left : Int) (return_data : Bytes) (p i n : Word) : Prop :=
  memory.RefusesCopy gas_left p n ∨ return_data.length < i.to_uint64 + n.to_uint64

theorem wp_returndatacopy (narrow : s.return_data.length < 2 ^ 63) :
    Action.wp (returndatacopy h gas_left) (fun o s' =>
      (s.memory.RefusesReturnData gas_left s.return_data (s.stack_space (h - 1)) (s.stack_space (h - 2))
          (s.stack_space (h - 3)) →
        o.status ≠ .SUCCESS ∧ ∀ k < s.memory.m_size, s'.memory.m_data k = s.memory.m_data k) ∧
      (¬ s.memory.RefusesReturnData gas_left s.return_data (s.stack_space (h - 1)) (s.stack_space (h - 2))
          (s.stack_space (h - 3)) →
        o.status = .SUCCESS ∧ (s.memory.requested (s.stack_space (h - 1)) (s.stack_space (h - 3))).Copied s'.memory
          (s.stack_space (h - 1)).to_uint64 (s.stack_space (h - 3)).to_uint64
          fun j => s.return_data.getD ((s.stack_space (h - 2)).to_uint64 + j) 0)) s := by
  have top : h - 1 - 0 = h - 1 := by omega
  have second : h - 1 - 1 - 0 = h - 2 := by omega
  have third : h - 2 - 1 - 0 = h - 3 := by omega
  simp only [returndatacopy, Action.wp_bind, Action.wp_get, wp_record_stack, wp_stack_get,
    ExecutionState.record_stack_space, top, second, third]
  generalize s.stack_space (h - 1) = p
  generalize s.stack_space (h - 2) = i
  generalize s.stack_space (h - 3) = n
  obtain ⟨s₁, popped⟩ : ∃ s₁, s₁ = ((s.record h 2 false).record h 1 false).record h 0 false := ⟨_, rfl⟩
  have same : s₁.memory = s.memory := by rw [popped]; rfl
  rw [← popped]
  have cost := copy_cost_nonneg n.to_uint64
  refine wp_check_memory_either (fun left denied => ?_) fun near paid => ?_
  · have refused : s.memory.RefusesReturnData gas_left s.return_data p i n := by
      rw [same] at denied
      rcases denied with beyond | dear
      · exact Or.inl (Or.inl beyond)
      · exact Or.inl (Or.inr (lt_of_lt_of_le dear (by omega)))
    simp [refused, same]
  · rw [same]
    have unchanged := (s.memory.requested_covers near).2.2.2
    have failed {status : StatusCode} (failure : status ≠ .SUCCESS)
        (refused : s.memory.RefusesReturnData gas_left s.return_data p i n) :
        (s.memory.RefusesReturnData gas_left s.return_data p i n →
          status ≠ .SUCCESS ∧
            ∀ k < s.memory.m_size, (s.memory.requested p n).m_data k = s.memory.m_data k) ∧
        (¬ s.memory.RefusesReturnData gas_left s.return_data p i n →
          status = .SUCCESS ∧
            (s.memory.requested p n).Copied (s.memory.requested p n) p.to_uint64 n.to_uint64
              fun j => s.return_data.getD (i.to_uint64 + j) 0) :=
      ⟨fun _ => ⟨failure, unchanged⟩, fun served => absurd refused served⟩
    have wraps : i.to_uint64 ≤ s.return_data.length →
        (i.to_uint64 + n.to_uint64) % 2 ^ 64 = i.to_uint64 + n.to_uint64 := by
      intro inside
      refine Nat.mod_eq_of_lt ?_
      by_cases none : n = 0
      · subst none
        have zero : (0 : Word).to_uint64 = 0 := by decide
        omega
      · have small : n.to_uint64 ≤ max_buffer_size := by
          by_contra large
          exact near ⟨none, Or.inl (by omega)⟩
        rw [max_buffer_size] at small
        omega
    simp only [Bool.not_true, Bool.false_eq_true, if_false, Action.wp_ite, Action.wp_bind, Action.wp_pure,
      wp_memory_store, wp_memory_load]
    refine ⟨fun beyond => failed (by simp) (Or.inr (by omega)), fun inside =>
      ⟨fun beyond => ?_, fun inside' => ⟨fun dear =>
      failed (by simp) (Or.inl (Or.inr (by omega))), fun enough => ?_⟩⟩⟩
    · rw [wraps (by omega)] at beyond
      exact failed (by simp) (Or.inr beyond)
    · rw [wraps (by omega)] at inside'
      have served : ¬ s.memory.RefusesReturnData gas_left s.return_data p i n := by
        rintro ((beyond | dear) | outside)
        · exact near beyond
        · exact enough (by omega)
        · exact inside' outside
      have size : ((s.return_data.drop i.to_uint64).take n.to_uint64).length = n.to_uint64 := by
        rw [List.length_take, List.length_drop]
        omega
      constructor
      · intro some
        refine wp_record_bytes ⟨fun refused => absurd refused served, fun _ => ⟨trivial, ?_⟩⟩
        have stored := (s.memory.requested p n).store_copied p.to_uint64
          ((s.return_data.drop i.to_uint64).take n.to_uint64)
        rw [size] at stored
        exact stored.congr fun j within => take_drop_getD within
      · intro none
        refine ⟨fun refused => absurd refused served, fun _ => ⟨trivial, ?_⟩⟩
        rw [show n.to_uint64 = 0 by omega]
        exact .nothing _ _ _

/-- What the claim on return data says: the range is inside, and no other byte of the old memory changes. -/
structure CopiesInside (return_data : Bytes) (memory : Memory) (p i n : Nat) (o : InstructionResult)
    (memory' : Memory) : Prop where
  inside : o.status = .SUCCESS → i + n ≤ return_data.length
  others : ∀ k < memory.m_size, ¬ (p ≤ k ∧ k < p + n) → memory'.m_data k = memory.m_data k

/-- The operands of a copy of return data that is not refused are not cut, or nothing comes of it. -/
def Memory.ReturnDataFits (memory : Memory) (gas_left : Int) (return_data : Bytes) (p i n : Word) : Prop :=
  memory.RefusesReturnData gas_left return_data p i n ∨ i.toNat < 2 ^ 64 ∧ n.toNat < 2 ^ 64 ∧
    (p.toNat < 2 ^ 64 ∨ ∀ j < n.to_uint64, p.to_uint64 + j < memory.m_size →
      return_data.getD (i.to_uint64 + j) 0 = memory.m_data (p.to_uint64 + j))

theorem returndatacopy_inside_iff (narrow : s.return_data.length < 2 ^ 63) (small : s.memory.m_size < 2 ^ 63) :
    Action.wp (returndatacopy h gas_left) (fun o s' => CopiesInside s.return_data s.memory
      (s.stack_space (h - 1)).toNat (s.stack_space (h - 2)).toNat (s.stack_space (h - 3)).toNat o s'.memory) s ↔
    s.memory.ReturnDataFits gas_left s.return_data (s.stack_space (h - 1)) (s.stack_space (h - 2))
      (s.stack_space (h - 3)) := by
  refine (wp_returndatacopy narrow).iff fun o s' outcome => ?_
  generalize s.stack_space (h - 1) = p at outcome ⊢
  generalize s.stack_space (h - 2) = i at outcome ⊢
  generalize s.stack_space (h - 3) = n at outcome ⊢
  unfold Memory.ReturnDataFits
  by_cases refused : s.memory.RefusesReturnData gas_left s.return_data p i n
  · obtain ⟨failed, same⟩ := outcome.1 refused
    exact iff_of_true ⟨fun success => absurd success failed, fun k within _ => same k within⟩ (Or.inl refused)
  obtain ⟨success, copied⟩ := outcome.2 refused
  obtain ⟨_, _, _, old⟩ := s.memory.requested_covers (fun beyond => refused (Or.inl (Or.inl beyond)))
  have within_data : i.to_uint64 + n.to_uint64 ≤ s.return_data.length := by
    by_contra outside
    exact refused (Or.inr (by omega))
  constructor
  · intro copies
    have inside := copies.inside success
    refine Or.inr ⟨by omega, by omega, ?_⟩
    by_cases low : p.toNat < 2 ^ 64
    · exact Or.inl low
    · refine Or.inr fun j within room => ?_
      have byte := copies.others (p.to_uint64 + j) room (by omega)
      rwa [copied.bytes, if_pos (by omega), Nat.add_sub_cancel_left] at byte
  · rintro (refused' | ⟨low, low', fits⟩)
    · exact absurd refused' refused
    rw [Word.to_uint64_low low, Word.to_uint64_low low'] at within_data
    refine ⟨fun _ => within_data, fun k within outside => ?_⟩
    rw [copied.bytes]
    split
    · rename_i target
      rcases fits with low'' | same
      · rw [Word.to_uint64_low low'', Word.to_uint64_low low'] at target
        exact absurd target outside
      · obtain ⟨j, rfl⟩ := Nat.exists_eq_add_of_le target.1
        rw [Nat.add_sub_cancel_left]
        exact same j (by omega) within
    · exact old k within

/-- Behind the end of the data the word is filled up with zeros, and so it is from there on. -/
theorem calldataload_eq : Action.wp (calldataload h) (fun _ s' => s'.memory = s.memory ∧
    (s'.stack_space (h - 1)).toNat =
      be_load (window s.msg.input_data (s.stack_space (h - 1)).to_uint64 32)) s := by
  have top : h - 1 - 0 = h - 1 := by omega
  have padded (i : Nat) : (calldata_word s.msg.input_data i).toNat = be_load (window s.msg.input_data i 32) := by
    have whole : window s.msg.input_data i 32 = _ := window_eq
    have size := congrArg List.length whole
    rw [window_length] at size
    rw [calldata_word, Word.of_bytes_toNat (by omega), whole]
  simp only [calldataload, unary, Action.wp_bind, Action.wp_get, wp_record_stack, wp_stack_get, wp_stack_set,
    ExecutionState.record_stack_space, top]
  refine ⟨rfl, ?_⟩
  simp only [ExecutionState.set_slot_stack_space, if_pos]
  split
  · rename_i beyond
    rw [window_beyond (by omega), be_load_zeros]
    rfl
  · exact padded _

/-- What the claim on the data of the call says, and that the memory stays as it is. -/
def LoadsPadded (s : ExecutionState) (h : Int) (s' : ExecutionState) : Prop :=
  s'.memory = s.memory ∧
    (s'.stack_space (h - 1)).toNat = be_load (window s.msg.input_data (s.stack_space (h - 1)).toNat 32)

theorem calldataload_padded_iff (narrow : s.msg.input_data.length < 2 ^ 63) :
    Action.wp (calldataload h) (fun _ s' => LoadsPadded s h s') s ↔ (s.stack_space (h - 1)).toNat < 2 ^ 64 ∨
      ∀ j < 32, s.msg.input_data.getD ((s.stack_space (h - 1)).to_uint64 + j) 0 = 0 := by
  refine calldataload_eq.iff fun _ s' ⟨same, value⟩ => ?_
  unfold LoadsPadded
  rw [value, be_load_window]
  by_cases low : (s.stack_space (h - 1)).toNat < 2 ^ 64
  · exact iff_of_true ⟨same, by rw [Word.to_uint64_low low]⟩ (Or.inl low)
  · rw [window_beyond (i := (s.stack_space (h - 1)).toNat) (by omega), window_zeros_iff]
    exact ⟨fun both => Or.inr both.2, fun either => ⟨same, either.resolve_left low⟩⟩

/-- The blocks whose hashes there are. -/
def BlockInRange (block_number n : Int) : Prop := max (block_number - 256) 0 ≤ n ∧ n < block_number

theorem blockhash_zero_iff {host : Host H} {exec : Exec H} :
    Action.wlp any_event (blockhash host h) (fun _ e => e.state.memory = exec.state.memory ∧
      (¬ BlockInRange e.state.m_tx.block_number (exec.state.stack_space (h - 1)).toNat →
        e.state.stack_space (h - 1) = 0)) exec ↔
    Action.wlp any_event (get_tx_context host) (fun tx e =>
      BlockInRange tx.block_number (exec.state.stack_space (h - 1)).toNat ∨
      ¬ BlockInRange tx.block_number (int64 (exec.state.stack_space (h - 1)).to_uint64) ∨
      Action.wlp any_event (host.get_block_hash (int64 (exec.state.stack_space (h - 1)).to_uint64))
        (fun v _ => v = 0) e.host) exec := by
  have top : h - 1 - 0 = h - 1 := by omega
  generalize at_top : exec.state.stack_space (h - 1) = i
  have answer (u : Int) (e : H) :
      (int64 i.to_uint64 < u ∧ int64 i.to_uint64 ≥ max (u - 256) 0 →
        Action.wlp (any_event.comap .nested) (host.get_block_hash (int64 i.to_uint64))
          (fun v _ => ¬ BlockInRange u i.toNat → v = 0) e) ↔
      BlockInRange u i.toNat ∨ ¬ BlockInRange u (int64 i.to_uint64) ∨
        Action.wlp any_event (host.get_block_hash (int64 i.to_uint64)) (fun v _ => v = 0) e := by
    have asked : int64 i.to_uint64 < u ∧ int64 i.to_uint64 ≥ max (u - 256) 0 ↔
        BlockInRange u (int64 i.to_uint64) := and_comm
    rw [asked]
    by_cases inside : BlockInRange u i.toNat
    · exact iff_of_true (fun _ => wlp_any_event.mono fun _ _ _ outside => absurd inside outside) (Or.inl inside)
    · by_cases low : BlockInRange u (int64 i.to_uint64)
      · constructor
        · exact fun zero => Or.inr (Or.inr ((zero low).mono fun _ _ zero => zero inside))
        · rintro (inside' | other | zero)
          · exact absurd inside' inside
          · exact absurd low other
          · exact fun _ => zero.mono fun _ _ same _ => same
      · exact iff_of_true (fun low' => absurd low' low) (Or.inr (Or.inl low))
  simp only [blockhash, get_tx_context, Action.wlp_bind, Action.wlp_get, Action.wlp_ite, Action.wlp_pure, lift_on_state,
    wlp_on_state, wlp_on_host, wlp_record_stack, wlp_stack_get, wlp_stack_set, Action.wlp_modify,
    ExecutionState.record_stack_space, ExecutionState.record_m_tx, ExecutionState.set_tx_m_tx,
    ExecutionState.set_slot_m_tx, ExecutionState.set_slot_stack_space, top, at_top, if_true,
    ExecutionState.record_memory, ExecutionState.set_tx_memory, ExecutionState.set_slot_memory, true_and,
    implies_true, and_true, answer]

theorem blobhash_zero_iff {host : Host H} {exec : Exec H} :
    Action.wlp any_event (blobhash host h) (fun _ e => e.state.memory = exec.state.memory ∧
      (e.state.m_tx.blob_hashes.length ≤ (exec.state.stack_space (h - 1)).toNat →
        e.state.stack_space (h - 1) = 0)) exec ↔
    Action.wlp any_event (get_tx_context host) (fun tx _ =>
      (exec.state.stack_space (h - 1)).toNat < tx.blob_hashes.length ∨
      tx.blob_hashes.length ≤ (exec.state.stack_space (h - 1)).to_uint64 ∨
      tx.blob_hashes.getD (exec.state.stack_space (h - 1)).to_uint64 0 = 0) exec := by
  have top : h - 1 - 0 = h - 1 := by omega
  generalize at_top : exec.state.stack_space (h - 1) = i
  have answer (blob_hashes : List Word) :
      (blob_hashes.length ≤ i.toNat →
        (if i.to_uint64 < blob_hashes.length then blob_hashes.getD i.to_uint64 0 else 0) = 0) ↔
      i.toNat < blob_hashes.length ∨ blob_hashes.length ≤ i.to_uint64 ∨ blob_hashes.getD i.to_uint64 0 = 0 := by
    by_cases inside : i.toNat < blob_hashes.length
    · exact iff_of_true (fun outside => absurd inside (by omega)) (Or.inl inside)
    · by_cases low : i.to_uint64 < blob_hashes.length
      · rw [if_pos low]
        constructor
        · exact fun zero => Or.inr (Or.inr (zero (by omega)))
        · rintro (inside' | outside | zero)
          · exact absurd inside' inside
          · exact absurd low (by omega)
          · exact fun _ => zero
      · rw [if_neg low]
        exact iff_of_true (fun _ => rfl) (Or.inr (Or.inl (by omega)))
  simp only [blobhash, get_tx_context, Action.wlp_bind, Action.wlp_get, Action.wlp_ite, Action.wlp_pure, lift_on_state,
    wlp_on_state, wlp_on_host, wlp_record_stack, wlp_stack_get, wlp_stack_set, Action.wlp_modify,
    ExecutionState.record_stack_space, ExecutionState.record_m_tx, ExecutionState.set_tx_m_tx,
    ExecutionState.set_slot_m_tx, ExecutionState.set_slot_stack_space, top, at_top, if_true,
    ExecutionState.record_memory, ExecutionState.set_tx_memory, ExecutionState.set_slot_memory, true_and, answer]

/-- No object is larger than the addresses for it. -/
structure Addressable (s : ExecutionState) : Prop where
  input_data : s.msg.input_data.length < 2 ^ 63
  original_code : s.original_code.length < 2 ^ 63
  return_data : s.return_data.length < 2 ^ 63
  memory : s.memory.m_size < 2 ^ 63

/-- Of an index, only the low 64 bits are looked at. -/
theorem index_operands_iff (host : Host H) (exec : Exec H) (h gas_left : Int) (addressable : Addressable exec.state) :
    (Action.wp (calldataload h) (fun _ s' => LoadsPadded exec.state h s') exec.state ↔
      (exec.state.stack_space (h - 1)).toNat < 2 ^ 64 ∨
        ∀ j < 32, exec.state.msg.input_data.getD ((exec.state.stack_space (h - 1)).to_uint64 + j) 0 = 0) ∧
    (Action.wp (calldatacopy h gas_left) (fun o s' => Delivers exec.state.msg.input_data exec.state.memory
        (exec.state.stack_space (h - 1)).toNat (exec.state.stack_space (h - 2)).toNat
        (exec.state.stack_space (h - 3)).toNat o s'.memory) exec.state ↔
      exec.state.memory.CopyFits gas_left exec.state.msg.input_data (exec.state.stack_space (h - 1))
        (exec.state.stack_space (h - 2)) (exec.state.stack_space (h - 3))) ∧
    (Action.wp (codecopy h gas_left) (fun o s' => Delivers exec.state.original_code exec.state.memory
        (exec.state.stack_space (h - 1)).toNat (exec.state.stack_space (h - 2)).toNat
        (exec.state.stack_space (h - 3)).toNat o s'.memory) exec.state ↔
      exec.state.memory.CopyFits gas_left exec.state.original_code (exec.state.stack_space (h - 1))
        (exec.state.stack_space (h - 2)) (exec.state.stack_space (h - 3))) ∧
    (Action.wp (returndatacopy h gas_left) (fun o s' => CopiesInside exec.state.return_data exec.state.memory
        (exec.state.stack_space (h - 1)).toNat (exec.state.stack_space (h - 2)).toNat
        (exec.state.stack_space (h - 3)).toNat o s'.memory) exec.state ↔
      exec.state.memory.ReturnDataFits gas_left exec.state.return_data (exec.state.stack_space (h - 1))
        (exec.state.stack_space (h - 2)) (exec.state.stack_space (h - 3))) ∧
    (Action.wlp any_event (blockhash host h) (fun _ e => e.state.memory = exec.state.memory ∧
        (¬ BlockInRange e.state.m_tx.block_number (exec.state.stack_space (h - 1)).toNat →
          e.state.stack_space (h - 1) = 0)) exec ↔
      Action.wlp any_event (get_tx_context host) (fun tx e =>
        BlockInRange tx.block_number (exec.state.stack_space (h - 1)).toNat ∨
        ¬ BlockInRange tx.block_number (int64 (exec.state.stack_space (h - 1)).to_uint64) ∨
        Action.wlp any_event (host.get_block_hash (int64 (exec.state.stack_space (h - 1)).to_uint64))
          (fun v _ => v = 0) e.host) exec) ∧
    (Action.wlp any_event (blobhash host h) (fun _ e => e.state.memory = exec.state.memory ∧
        (e.state.m_tx.blob_hashes.length ≤ (exec.state.stack_space (h - 1)).toNat →
          e.state.stack_space (h - 1) = 0)) exec ↔
      Action.wlp any_event (get_tx_context host) (fun tx _ =>
        (exec.state.stack_space (h - 1)).toNat < tx.blob_hashes.length ∨
        tx.blob_hashes.length ≤ (exec.state.stack_space (h - 1)).to_uint64 ∨
        tx.blob_hashes.getD (exec.state.stack_space (h - 1)).to_uint64 0 = 0) exec) := by
  refine ⟨calldataload_padded_iff addressable.input_data, ?_, ?_, ?_, blockhash_zero_iff, blobhash_zero_iff⟩
  · rw [calldatacopy, Action.wp_bind, Action.wp_get]
    exact copy_to_memory_delivers_iff addressable.input_data addressable.memory
  · rw [codecopy, Action.wp_bind, Action.wp_get]
    exact copy_to_memory_delivers_iff addressable.original_code addressable.memory
  · exact returndatacopy_inside_iff addressable.return_data addressable.memory

/-- A frame on one byte of input, of code and of return data, that is about to copy a byte from 0 to 0. -/
abbrev copying_state : ExecutionState :=
  ((ExecutionState.new { input_data := [1] } .SHANGHAI [2] [] 0 (analyze_legacy [2]) fun _ => 9).set_return_data
    [3]).set_slot 0 1

theorem index_operands_near :
    Action.wp (calldataload 3) (fun _ s' => LoadsPadded copying_state 3 s') copying_state ∧
    Action.wp (calldatacopy 3 100) (fun o s' => Delivers [1] copying_state.memory 0 0 1 o s'.memory) copying_state ∧
    Action.wp (codecopy 3 100) (fun o s' => Delivers [2] copying_state.memory 0 0 1 o s'.memory) copying_state ∧
    Action.wp (returndatacopy 3 100) (fun o s' => CopiesInside [3] copying_state.memory 0 0 1 o s'.memory)
      copying_state ∧
    Action.wlp any_event (blockhash empty_host 3) (fun _ e => e.state.memory = copying_state.memory ∧
      (¬ BlockInRange e.state.m_tx.block_number 0 → e.state.stack_space 2 = 0)) ⟨copying_state, ()⟩ ∧
    Action.wlp any_event (blobhash empty_host 3) (fun _ e => e.state.memory = copying_state.memory ∧
      (e.state.m_tx.blob_hashes.length ≤ 0 → e.state.stack_space 2 = 0)) ⟨copying_state, ()⟩ := by
  have addressable : Addressable copying_state := ⟨by decide, by decide, by decide, by decide⟩
  obtain ⟨load, calldata, code, return_data, block, blob⟩ :=
    index_operands_iff empty_host ⟨copying_state, ()⟩ 3 100 addressable
  refine ⟨load.mpr (Or.inl (by decide)), calldata.mpr ?_, code.mpr ?_, return_data.mpr ?_, block.mpr ?_, blob.mpr ?_⟩
  · exact Or.inr (Or.inr ⟨by decide, by decide, Or.inl (by decide)⟩)
  · exact Or.inr (Or.inr ⟨by decide, by decide, Or.inl (by decide)⟩)
  · exact Or.inr ⟨by decide, by decide, Or.inl (by decide)⟩
  · have index : int64 (copying_state.stack_space (3 - 1)).to_uint64 = 0 := by decide
    refine wlp_get_tx_context fun tx _ _ => ?_
    rw [index]
    exact (em (BlockInRange tx.block_number 0)).imp_right Or.inl
  · exact wlp_get_tx_context fun tx _ _ => (Nat.eq_zero_or_pos tx.blob_hashes.length).elim
      (fun none => Or.inr (Or.inl none.le)) Or.inl

/-- A frame on one byte of input, with an index on top of its stack. -/
abbrev index_state (index : Word) : ExecutionState :=
  (ExecutionState.new { input_data := [1] } .SHANGHAI [] [] 0 (analyze_legacy []) fun _ => 0).set_slot 0 index

/-- The first byte of the input is taken for the byte at `2 ^ 64`. -/
theorem calldataload_far : ¬ Action.wp (calldataload 1)
    (fun _ s' => LoadsPadded (index_state (BitVec.twoPow 256 64)) 1 s') (index_state (BitVec.twoPow 256 64)) := by
  rw [calldataload_padded_iff (by decide)]
  rintro (low | zeros)
  · exact absurd low (by decide)
  · exact absurd (zeros 0 (by decide)) (by decide)

end EvmAssigner
