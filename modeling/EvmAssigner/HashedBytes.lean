import EvmAssigner.SizedMemory

namespace EvmAssigner
variable {s : ExecutionState} {gas_left h : Int}

/-- A hash is refused: its input goes beyond what memories are grown to, or it costs more than there is. -/
def Memory.RefusesHash (memory : Memory) (gas_left : Int) (i n : Word) : Prop :=
  Beyond i n ∨ gas_left < memory.request_charge i n + num_words n.to_uint64 * 6

/-- The bytes of one word are recorded, of whatever is hashed. -/
theorem wp_keccak256 [Ethash] : Action.wp (keccak256 h gas_left) (fun o s' =>
    (s.memory.RefusesHash gas_left (s.stack_space (h - 1)) (s.stack_space (h - 2)) → o.status ≠ .SUCCESS) ∧
    (¬ s.memory.RefusesHash gas_left (s.stack_space (h - 1)) (s.stack_space (h - 2)) → o.status = .SUCCESS ∧
      s'.memory = s.memory.requested (s.stack_space (h - 1)) (s.stack_space (h - 2)) ∧
      s'.stack_space (h - 2) = Ethash.keccak256
        (s'.memory.load (s.stack_space (h - 1)).to_uint64 (s.stack_space (h - 2)).to_uint64) ∧
      s.memory_entries s' = (List.range (if (s.stack_space (h - 2)).to_uint64 = 0 then 0 else 32)).map fun j =>
        ((s.stack_space (h - 1) + BitVec.ofNat 256 j).toNat, false,
          BitVec.ofNat 256 (s'.memory.m_data ((s.stack_space (h - 1)).to_uint64 + j)).toNat))) s := by
  have top : h - 1 - 0 = h - 1 := by omega
  have second : h - 1 - 1 - 0 = h - 2 := by omega
  simp only [keccak256, Action.wp_bind, wp_record_stack, wp_stack_get, ExecutionState.record_stack_space, top, second]
  generalize s.stack_space (h - 1) = i
  generalize s.stack_space (h - 2) = n
  obtain ⟨s₁, popped⟩ : ∃ s₁, s₁ = (s.record h 1 false).record h 0 false := ⟨_, rfl⟩
  have same : s₁.memory = s.memory := by rw [popped]; rfl
  rw [← popped]
  have owed : 0 ≤ (num_words n.to_uint64 : Int) * 6 := by omega
  refine wp_check_charged owed (fun denied left => ?_) (fun near short dear => ?_) fun served enough => ?_
  · rw [same] at denied
    have refused : s.memory.RefusesHash gas_left i n := denied
    simp [refused]
  · rw [same] at short dear ⊢
    have refused : s.memory.RefusesHash gas_left i n := Or.inr short
    simp [dear, refused]
  · rw [same] at served enough ⊢
    have served : ¬ s.memory.RefusesHash gas_left i n := served
    simp only [Bool.not_true, Bool.false_eq_true, if_false, Action.wp_bind, Action.wp_pure, Action.wp_ite, enough,
      wp_memory_load, wp_stack_set, wp_record_stack]
    have empty (memory : Memory) : memory.load i.to_uint64 0 = [] := rfl
    refine ⟨fun some => wp_record_bytes ⟨fun _ => ⟨fun refused => absurd refused served, fun _ => ?_⟩,
      fun none_ => absurd some none_⟩, fun none_ => ⟨fun some => absurd some none_,
      fun _ => ⟨fun refused => absurd refused served, fun _ => ?_⟩⟩⟩
    · rw [if_neg some]
      refine ⟨trivial, rfl, by simp [second], ?_⟩
      subst popped
      have bytes : ∀ j < 32, BitVec.ofNat 256 (((s.memory.requested i n).load i.to_uint64 32).getD j 0).toNat =
          BitVec.ofNat 256 ((s.memory.requested i n).m_data (i.to_uint64 + j)).toNat :=
        fun j within => by rw [load_getD within]
      simpa [ExecutionState.memory_entries] using bytes
    · have zero := not_not.mp none_
      rw [if_pos zero]
      refine ⟨trivial, rfl, by simp [second, empty, zero], ?_⟩
      subst popped
      simp [ExecutionState.memory_entries]

/-- Every byte that is hashed is recorded once, in order, and nothing else of the memory is. -/
structure RecordsHashed [Ethash] (i n : Nat) (s s' : ExecutionState) (hash : Word) : Prop where
  inside : ∀ j < n, i + j < s'.memory.m_size
  hashed : hash = Ethash.keccak256 (s'.memory.load i n)
  entries : s.memory_entries s' = (List.range n).map fun j =>
    (i + j, false, BitVec.ofNat 256 (s'.memory.m_data (i + j)).toNat)

/-- What is recorded is what is hashed for nothing at all and for a whole word only. -/
theorem keccak256_records_iff [Ethash] (s : ExecutionState) (h gas_left : Int) (small : s.memory.m_size < 2 ^ 63) :
    Action.wp (keccak256 h gas_left) (fun o s' => o.status = .SUCCESS →
      RecordsHashed (s.stack_space (h - 1)).toNat (s.stack_space (h - 2)).toNat s s' (s'.stack_space (h - 2))) s ↔
    s.memory.RefusesHash gas_left (s.stack_space (h - 1)) (s.stack_space (h - 2)) ∨ s.stack_space (h - 2) = 0 ∨
      s.stack_space (h - 2) = 32 ∧ (s.stack_space (h - 1)).toNat < 2 ^ 64 := by
  refine wp_keccak256.iff fun o s' outcome => ?_
  generalize s.stack_space (h - 1) = i at outcome ⊢
  generalize s.stack_space (h - 2) = n at outcome ⊢
  by_cases refused : s.memory.RefusesHash gas_left i n
  · exact iff_of_true (fun success => absurd success (outcome.1 refused)) (Or.inl refused)
  obtain ⟨success, memory, hash, entries⟩ := outcome.2 refused
  obtain ⟨covers, _, bound, _⟩ := s.memory.requested_covers fun beyond => refused (Or.inl beyond)
  rw [← memory] at covers bound
  constructor
  · intro records
    obtain ⟨inside, _, entries'⟩ := records success
    have count := congrArg List.length (entries.symm.trans entries')
    simp only [List.length_map, List.length_range] at count
    by_cases none : n = 0
    · exact Or.inr (Or.inl none)
    have some : n.toNat ≠ 0 := fun zero => none (BitVec.eq_of_toNat_eq zero)
    have whole : n.toNat = 32 := by
      split at count <;> omega
    have near := inside 0 (by omega)
    exact Or.inr (Or.inr ⟨BitVec.eq_of_toNat_eq whole, by omega⟩)
  · rintro (refused' | rfl | ⟨rfl, low⟩) _
    · exact absurd refused' refused
    · have zero : (0 : Word).to_uint64 = 0 := by decide
      rw [zero] at hash entries
      exact ⟨fun j within => absurd within (by simp), hash, entries⟩
    · have whole : (32 : Word).to_uint64 = 32 := by decide
      have some : (32 : Word) ≠ 0 := by decide
      rw [whole, Word.to_uint64_low low] at hash entries covers
      have room := covers some
      refine ⟨fun j (within : j < 32) => by omega, hash, ?_⟩
      rw [entries, if_neg (by omega)]
      refine List.map_congr_left fun j member => ?_
      have within := List.mem_range.mp member
      rw [BitVec.toNat_add, BitVec.toNat_ofNat, Nat.mod_eq_of_lt (show j < 2 ^ 256 by omega), Nat.mod_eq_of_lt]
      omega

/-- A frame about to hash the first `n` bytes of its memory. -/
abbrev hash_state (n : Word) : ExecutionState :=
  ((ExecutionState.new {} .SHANGHAI [] [] 0 (analyze_legacy []) fun _ => 0).set_slot 0 n).set_slot 1 0

/-- A hash that tells what it is of. -/
abbrev sum_hash : Ethash := ⟨fun data => BitVec.ofNat 256 (data.map UInt8.toNat).sum⟩

/-- A word of the memory, with two bytes that are not zero. -/
abbrev word_memory : Memory where
  m_data k := if k = 3 then 5 else if k = 31 then 7 else 0
  m_size := 32

theorem keccak256_records_word : Action.wp (@keccak256 sum_hash 2 100) (fun o s' => o.status = .SUCCESS →
    @RecordsHashed sum_hash 0 32 ((hash_state 32).set_memory word_memory) s' (s'.stack_space 0))
      ((hash_state 32).set_memory word_memory) :=
  (@keccak256_records_iff sum_hash ((hash_state 32).set_memory word_memory) 2 100 (by decide)).mpr
    (Or.inr (Or.inr ⟨rfl, by decide⟩))

/-- One byte is hashed, and 32 are recorded. -/
theorem keccak256_byte : ¬ Action.wp (@keccak256 no_hash 2 100) (fun o s' => o.status = .SUCCESS →
    @RecordsHashed no_hash 0 1 (hash_state 1) s' (s'.stack_space 0)) (hash_state 1) := by
  rw [(@wp_keccak256 (hash_state 1) 100 2 no_hash).iff fun o s' outcome => iff_false_intro fun records => ?_]
  · exact not_false
  · have granted : ¬ (hash_state 1).memory.RefusesHash 100 0 1 := by
      rintro (⟨_, large | far⟩ | dear)
      · exact absurd large (by decide)
      · exact absurd far (by decide)
      · exact absurd dear (by decide)
    obtain ⟨success, _, _, entries⟩ := outcome.2 granted
    obtain ⟨_, _, entries'⟩ := records success
    have count := congrArg List.length (entries.symm.trans entries')
    rw [List.length_map, List.length_map, List.length_range, List.length_range] at count
    exact absurd count (by decide)

end EvmAssigner
