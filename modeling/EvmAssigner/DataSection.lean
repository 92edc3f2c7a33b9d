import EvmAssigner.SizedMemory

namespace EvmAssigner
variable {s : ExecutionState} {gas_left h : Int} {data : Bytes}

/-- Where `datacopy` succeeds, the bytes have arrived and zeros stand behind the end of the data. -/
theorem wp_datacopy : Action.wp (datacopy h gas_left) (fun o s' => o.status = .SUCCESS →
    ¬ Beyond (s.stack_space (h - 1)) (s.stack_space (h - 3)) ∧
      (s.memory.requested (s.stack_space (h - 1)) (s.stack_space (h - 3))).Copied s'.memory
        (s.stack_space (h - 1)).to_uint64 (s.stack_space (h - 3)).to_uint64
        fun j => s.data.getD ((s.stack_space (h - 2)).to_uint64 + j) 0) s := by
  have top : h - 1 - 0 = h - 1 := by omega
  have second : h - 1 - 1 - 0 = h - 2 := by omega
  have third : h - 2 - 1 - 0 = h - 3 := by omega
  simp only [datacopy, Action.wp_bind, Action.wp_get, wp_record_stack, wp_stack_get,
    ExecutionState.record_stack_space, top, second, third]
  generalize s.stack_space (h - 1) = p
  generalize s.stack_space (h - 2) = i
  generalize s.stack_space (h - 3) = n
  obtain ⟨s₁, popped⟩ : ∃ s₁, s₁ = ((s.record h 2 false).record h 1 false).record h 0 false := ⟨_, rfl⟩
  have same : s₁.memory = s.memory := by rw [popped]; rfl
  rw [← popped]
  have source (j : Nat) : s.data.getD (min s.data.length i.to_uint64 + j) 0 = s.data.getD (i.to_uint64 + j) 0 := by
    by_cases inside : i.to_uint64 ≤ s.data.length
    · rw [Nat.min_eq_right inside]
    · rw [getD_beyond (by omega), getD_beyond (by omega)]
  refine wp_check_charged (copy_cost_nonneg n.to_uint64) (fun denied left => ?_) (fun near short dear => ?_)
    fun served enough => ?_
  · simp
  · simp [dear]
  · have near : ¬ Beyond p n := fun beyond => served (Or.inl beyond)
    have padded := (s.memory.requested p n).padded_copied s.data p.to_uint64 (min s.data.length i.to_uint64)
      n.to_uint64
    simp only [Memory.padded] at padded
    rw [same] at enough ⊢
    simp only [Bool.not_true, Bool.false_eq_true, if_false, Action.wp_bind, Action.wp_pure, Action.wp_ite, enough,
      wp_memory_load, wp_memory_store, source, true_implies] at padded ⊢
    generalize min n.to_uint64 (s.data.length - min s.data.length i.to_uint64) = c at padded ⊢
    refine ⟨fun some => wp_record_bytes ⟨fun rest => wp_record_bytes ⟨near, ?_⟩, fun rest => ⟨near, ?_⟩⟩,
      fun none_ => ⟨fun rest => wp_record_bytes ⟨near, ?_⟩, fun rest => ⟨near, ?_⟩⟩⟩
    · rw [if_pos rest, if_pos some] at padded
      exact padded
    · rw [if_neg rest, if_pos some] at padded
      exact padded
    · rw [if_pos rest, if_neg none_] at padded
      exact padded
    · rw [if_neg rest, if_neg none_] at padded
      exact padded

/-- The word that a load finds where `datacopy` has put 32 bytes. -/
theorem mload_copied {t u : ExecutionState} {memory : Memory} {f : Nat → UInt8} {p : Word} (near : ¬ Beyond p 32)
    (copied : (memory.requested p 32).Copied t.memory p.to_uint64 32 f) (same : u.memory = t.memory)
    (at_p : u.stack_space (h - 1) = p) :
    Action.wp (mload h gas_left) (fun o u' => o.status = .SUCCESS →
      u'.stack_space (h - 1) = .of_bytes ((List.range 32).map f)) u := by
  refine wp_mload.mono fun o u' outcome success => ?_
  have granted : ¬ u.memory.RefusesWord gas_left (u.stack_space (h - 1)) := fun refused => outcome.1 refused success
  have covers : p.to_uint64 + 32 ≤ t.memory.m_size := by
    rw [copied.size]
    exact (memory.requested_covers near).1 (by decide)
  have there : t.memory.grown (p.to_uint64 + 32) = t.memory := if_neg (by omega)
  have bytes : t.memory.load p.to_uint64 32 = (List.range 32).map f := by
    refine List.map_congr_left fun j member => ?_
    have within := List.mem_range.mp member
    rw [copied.bytes, if_pos (by omega), Nat.add_sub_cancel_left]
  rw [(outcome.2 granted).2, same, at_p, there, bytes]

/-- The word is that of the 32 bytes of `data` from `i` on, with zeros behind its end, and the one that is
loaded after these bytes have been copied anywhere. -/
structure AgreesWithCopy (data : Bytes) (i : Word) (word : Word) : Prop where
  padded : word.toNat = be_load (window data i.toNat 32)
  copied : ∀ (t : ExecutionState) (k gas : Int), t.data = data → t.stack_space (k - 2) = i →
    t.stack_space (k - 3) = 32 → Action.wp (datacopy k gas) (fun o t' => o.status = .SUCCESS →
      ∀ (u : ExecutionState) (k' gas' : Int), u.memory = t'.memory →
        u.stack_space (k' - 1) = t.stack_space (k - 1) → Action.wp (mload k' gas') (fun o u' => o.status = .SUCCESS →
          u'.stack_space (k' - 1) = word) u) t

theorem agrees_of_padded {i word : Word} (low : i.toNat < 2 ^ 64)
    (padded : word.toNat = be_load (window data i.toNat 32)) : AgreesWithCopy data i word := by
  refine ⟨padded, fun t k gas at_data at_index at_size => ?_⟩
  refine wp_datacopy.mono fun o t' outcome success u k' gas' same at_p => ?_
  obtain ⟨near, copied⟩ := outcome success
  rw [at_size] at near copied
  rw [at_index, at_data, Word.to_uint64_low low] at copied
  refine (mload_copied near copied same at_p).mono fun _ u' value success => ?_
  apply BitVec.eq_of_toNat_eq
  rw [value success, Word.of_bytes_toNat (by simp), padded]
  rfl

/-- The bytes there are stand at the lower end of the word. -/
theorem wp_dataload (low : (s.stack_space (h - 1)).toNat < 2 ^ 64) :
    Action.wp (dataload h) (fun _ s' => (s'.stack_space (h - 1)).toNat =
      be_load ((s.data.drop (s.stack_space (h - 1)).toNat).take 32)) s := by
  have top : h - 1 - 0 = h - 1 := by omega
  simp only [dataload, Action.wp_bind, Action.wp_get, Action.wp_ite, wp_record_stack, wp_stack_get, wp_stack_set,
    ExecutionState.record_stack_space, ExecutionState.set_slot_stack_space, top, if_true, Word.to_uint64_low low]
  constructor
  · intro far
    rw [List.drop_eq_nil_of_le (by omega)]
    rfl
  · intro inside
    exact Word.of_bytes_toNat (by simp)

/-- A number is the same with zeros at its upper end and at its lower end only if it is 0 or there are none. -/
theorem be_load_padded_iff {n : Nat} : be_load data = be_load (data ++ List.replicate n 0) ↔
    n = 0 ∨ ∀ j < data.length, data.getD j 0 = 0 := by
  rw [be_load_append, be_load_zeros, List.length_replicate, Nat.add_zero]
  constructor
  · intro same
    by_cases none : n = 0
    · exact Or.inl none
    · have larger : 1 < 256 ^ n := Nat.one_lt_pow none (by omega)
      have zero : be_load data = 0 := by nlinarith
      refine Or.inr fun j within => ?_
      rw [be_load_eq_zero.mp zero, zeros_getD]
  · rintro (rfl | zeros)
    · simp
    · have all : data = List.replicate data.length 0 := by
        refine List.ext_getElem (by simp) fun j within _ => ?_
        rw [List.getElem_replicate, ← List.getD_eq_getElem _ 0 within, zeros j within]
      rw [be_load_eq_zero.mpr all, Nat.zero_mul]

/-- The word is padded at its upper end, so a load that is cut by the end of the data gives the same only where
it finds nothing but zeros. -/
theorem dataload_agrees_iff (s : ExecutionState) (h : Int) (low : (s.stack_space (h - 1)).toNat < 2 ^ 64) :
    Action.wp (dataload h) (fun _ s' => AgreesWithCopy s.data (s.stack_space (h - 1)) (s'.stack_space (h - 1))) s ↔
    (s.stack_space (h - 1)).toNat + 32 ≤ s.data.length ∨
      ∀ j < 32, s.data.getD ((s.stack_space (h - 1)).toNat + j) 0 = 0 := by
  refine (wp_dataload low).iff fun _ s' value => ?_
  generalize s.stack_space (h - 1) = i at low value ⊢
  have size : ((s.data.drop i.toNat).take 32).length = min 32 (s.data.length - i.toNat) := by
    rw [List.length_take, List.length_drop]
  have agrees : AgreesWithCopy s.data i (s'.stack_space (h - 1)) ↔
      be_load ((s.data.drop i.toNat).take 32) = be_load (window s.data i.toNat 32) :=
    ⟨fun agrees => value.symm.trans agrees.padded, fun same => agrees_of_padded low (value.trans same)⟩
  rw [agrees, window_eq, be_load_padded_iff, size]
  constructor
  · rintro (whole | zeros)
    · exact Or.inl (by omega)
    · refine Or.inr fun j within => ?_
      by_cases inside : i.toNat + j < s.data.length
      · rw [← take_drop_getD within, zeros j (by omega)]
      · exact getD_beyond (by omega)
  · rintro (whole | zeros)
    · exact Or.inl (by omega)
    · refine Or.inr fun j within => ?_
      rw [take_drop_getD (by omega), zeros j (by omega)]

/-- A frame with the index 0 on its stack. -/
abbrev data_state (data : Bytes) : ExecutionState :=
  { ExecutionState.new {} .SHANGHAI [] [] 0 (analyze_legacy []) fun _ => 0 with data := data }

theorem dataload_agrees_whole : Action.wp (dataload 1) (fun _ s' =>
    AgreesWithCopy (List.replicate 32 1) 0 (s'.stack_space 0)) (data_state (List.replicate 32 1)) :=
  (dataload_agrees_iff (data_state (List.replicate 32 1)) 1 (by decide)).mpr (Or.inl (by decide))

/-- The only byte of the data becomes the lowest byte of the word, not the highest. -/
theorem dataload_cut : ¬ Action.wp (dataload 1) (fun _ s' => AgreesWithCopy [1] 0 (s'.stack_space 0))
    (data_state [1]) := by
  rw [(wp_dataload (by decide)).iff fun _ s' value => iff_false_intro fun agrees => ?_]
  · exact not_false
  · exact absurd (value.symm.trans agrees.padded) (by decide)

end EvmAssigner
