import EvmAssigner.ByteOrder
import EvmAssigner.Positions
import EvmAssigner.SignedWords

namespace EvmAssigner
variable {H : Type}

/-- The `n` bytes of the code from `data` on. -/
def CodeAnalysis.code_bytes (analysis : CodeAnalysis) (data : Int) (n : Nat) : Bytes :=
  (List.range n).map fun k : Nat => analysis.code_at (data + k)

section
variable {analysis : CodeAnalysis} {data : Int} {m n : Nat}

@[simp] theorem code_bytes_length : (analysis.code_bytes data n).length = n := by
  simp [CodeAnalysis.code_bytes]

theorem code_bytes_append :
    analysis.code_bytes data (m + n) = analysis.code_bytes data m ++ analysis.code_bytes (data + m) n := by
  unfold CodeAnalysis.code_bytes
  rw [List.range_add, List.map_append, List.map_map]
  congr 1
  refine List.map_congr_left fun k _ => congrArg analysis.code_at ?_
  push_cast
  omega

/-- Bytes that are read too many are shifted out. -/
theorem be_load_prefix :
    be_load (analysis.code_bytes data (m + n)) / 256 ^ n = be_load (analysis.code_bytes data m) := by
  have small := be_load_lt (analysis.code_bytes (data + m) n)
  rw [code_bytes_length] at small
  rw [code_bytes_append, be_load_append, code_bytes_length, Nat.add_comm, Nat.add_mul_div_right _ _ (by positivity),
    Nat.div_eq_of_lt small, Nat.zero_add]

/-- Limb `i` is filled, however many bytes are read for it. -/
theorem load_partial_data_eq {x : Word} {len i : Nat} (positive : 0 < len) (most : len ≤ 8) :
    x.load_partial_data (fun k => analysis.code_at (data + k)) len i =
      x.set_val (BitVec.ofNat 64 (be_load (analysis.code_bytes data len))) i := by
  have shifted (m n : Nat) :
      be_load (analysis.code_bytes data (m + n)) >>> (8 * n) = be_load (analysis.code_bytes data m) := by
    rw [Nat.shiftRight_eq_div_pow, pow_mul]
    exact be_load_prefix
  obtain rfl | rfl | rfl | rfl | rfl | rfl | rfl | rfl :
      len = 1 ∨ len = 2 ∨ len = 3 ∨ len = 4 ∨ len = 5 ∨ len = 6 ∨ len = 7 ∨ len = 8 := by omega
  · rfl
  · rfl
  · rw [← shifted 3 1]
    rfl
  · rfl
  · rw [← shifted 5 3]
    rfl
  · rw [← shifted 6 2]
    rfl
  · rw [← shifted 7 1]
    rfl
  · rw [← shifted 8 0]
    rfl

end

/-- A limb is filled that has nothing in it nor below it. -/
theorem Word.set_val_toNat {x : Word} {i a : Nat} {v : BitVec 64} (within : i < 4)
    (low : x.toNat = a * 2 ^ (64 * (i + 1))) :
    (x.set_val v i).toNat = (a * 2 ^ 64 + v.toNat) * 2 ^ (64 * i) := by
  have wide := x.isLt
  have value := v.isLt
  obtain ⟨n, sum⟩ : ∃ n, n = (a * 2 ^ 64 + v.toNat) * 2 ^ (64 * i) := ⟨_, rfl⟩
  have small : n < 2 ^ 256 := by
    obtain rfl | rfl | rfl | rfl : i = 0 ∨ i = 1 ∨ i = 2 ∨ i = 3 := by omega
    all_goals omega
  have same : x.set_val v i = BitVec.ofNat 256 n := by
    refine BitVec.eq_of_getLsbD_eq fun j inside => ?_
    rw [Word.getLsbD_set_val inside, BitVec.getLsbD_ofNat, ← BitVec.testBit_toNat x, ← BitVec.testBit_toNat v, low, sum,
      Nat.testBit_mul_two_pow, Nat.testBit_mul_two_pow, Nat.mul_comm a, Nat.testBit_two_pow_mul_add _ value]
    by_cases below : j < 64 * i
    · simp [show ¬ 64 * i ≤ j by omega, show ¬ 64 * (i + 1) ≤ j by omega]
    · by_cases inside' : j < 64 * i + 64
      · simp [show 64 * i ≤ j by omega, inside', inside, show j - 64 * i < 64 by omega]
      · simp [show 64 * i ≤ j by omega, inside', inside, show ¬ j - 64 * i < 64 by omega,
          show 64 * (i + 1) ≤ j by omega, show j - 64 * i - 64 = j - 64 * (i + 1) by omega]
  rw [← sum, same, BitVec.toNat_ofNat, Nat.mod_eq_of_lt small]

section
variable {s : ExecutionState} {r : Word} {data h pos : Int} {Len : Nat}

theorem wp_load_partial {len i : Nat} {Q : Word → ExecutionState → Prop} :
    Action.wp (load_partial_data r data len i) Q s ↔
      Q (r.load_partial_data (fun k => s.analysis.code_at (data + k)) len i) s := by
  have reads (ks : List Nat) {f : Nat → Event} {R : ExecutionState → Prop} :
      Action.wp (Action.forEach (fun k => Action.emit (f k)) ks) (fun _ s' => R s') s ↔ R s := by
    induction ks with
    | nil => exact Action.wp_pure
    | cons k ks ih => exact Action.wp_bind.trans (Action.wp_emit.trans ih)
  simp only [load_partial_data, Action.wp_bind, Action.wp_get, Action.wp_pure, reads]

/-- The limbs from `n - 1` down to 0 are filled from `data` on. -/
theorem wp_load_full_words {n a : Nat} (most : n ≤ 4) (upper : r.toNat = a * 2 ^ (64 * n)) :
    Action.wp (load_full_words r data n) (fun r' s' =>
      r'.toNat = a * 2 ^ (64 * n) + be_load (s.analysis.code_bytes data (8 * n)) ∧ s' = s) s := by
  induction n generalizing r data a with
  | zero => exact Action.wp_pure.mpr ⟨upper, rfl⟩
  | succ n ih =>
    obtain ⟨w, word⟩ : ∃ w, w = be_load (s.analysis.code_bytes data 8) := ⟨_, rfl⟩
    have small := be_load_lt (s.analysis.code_bytes data 8)
    rw [code_bytes_length, ← word] at small
    have limb : (BitVec.ofNat 64 w).toNat = w := by
      rw [BitVec.toNat_ofNat, Nat.mod_eq_of_lt (by omega)]
    have filled := Word.set_val_toNat (v := BitVec.ofNat 64 w) (by omega) upper
    rw [limb] at filled
    simp only [load_full_words, Action.wp_bind, wp_load_partial, load_partial_data_eq (show 0 < 8 by omega) le_rfl,
      ← word]
    refine (ih (by omega) filled).mono ?_
    rintro r' s' ⟨value, same⟩
    refine ⟨?_, same⟩
    have split : be_load (s.analysis.code_bytes data (8 * (n + 1))) =
        w * 2 ^ (64 * n) + be_load (s.analysis.code_bytes (data + 8) (8 * n)) := by
      rw [show 8 * (n + 1) = 8 + 8 * n by omega, code_bytes_append, be_load_append, code_bytes_length, ← word,
        show 256 = 2 ^ 8 from rfl, ← pow_mul, show 8 * (8 * n) = 64 * n by omega]
      rfl
    rw [value, split, show 64 * (n + 1) = 64 + 64 * n by omega, pow_add, Nat.add_mul, Nat.mul_assoc, Nat.add_assoc]

/-- All of the bytes behind the opcode, as one number. -/
theorem wp_push (most : Len ≤ 32) :
    Action.wp (push Len h pos) (fun next s' => next = some (pos + (Len + 1)) ∧
      (s'.stack_space h).toNat = be_load (s.analysis.code_bytes (pos + 1) Len) ∧
      ∀ slot ≠ h, s'.stack_space slot = s.stack_space slot) s := by
  obtain ⟨n, words⟩ : ∃ n, n = Len / 8 := ⟨_, rfl⟩
  obtain ⟨m, bytes⟩ : ∃ m, m = Len % 8 := ⟨_, rfl⟩
  have whole : be_load (s.analysis.code_bytes (pos + 1) Len) =
      be_load (s.analysis.code_bytes (pos + 1) m) * 2 ^ (64 * n) +
        be_load (s.analysis.code_bytes (pos + 1 + m) (8 * n)) := by
    rw [show Len = m + 8 * n by omega, code_bytes_append, be_load_append, code_bytes_length,
      show 256 = 2 ^ 8 from rfl, ← pow_mul, show 8 * (8 * n) = 64 * n by omega]
  have recorded (r : Word) : Action.wp (Action.forEach (fun i : Nat => record_stack (h + 1) i true)
      (List.range (Len / 32 + Len % 32))) (fun _ s' => s'.stack_space = (s.set_slot (h + 1 - 1 - 0) r).stack_space)
      (s.set_slot (h + 1 - 1 - 0) r) := by
    refine Action.wp_forEach (I := fun _ (s' : ExecutionState) =>
      s'.stack_space = (s.set_slot (h + 1 - 1 - 0) r).stack_space) ?_ rfl
    intro done i rest s' split same
    exact wp_record_stack.mpr same
  have loaded (r : Word) (top : r.toNat = be_load (s.analysis.code_bytes (pos + 1) m) * 2 ^ (64 * n)) :
      Action.wp (load_full_words r (pos + 1 + m) n) (fun r' s' => Action.wp
        (Action.forEach (fun i : Nat => record_stack (h + 1) i true) (List.range (Len / 32 + Len % 32)))
        (fun _ s' => True ∧ (s'.stack_space h).toNat = be_load (s.analysis.code_bytes (pos + 1) Len) ∧
          ∀ slot ≠ h, s'.stack_space slot = s.stack_space slot) (s'.set_slot (h + 1 - 1 - 0) r')) s := by
    refine (wp_load_full_words (by omega) top).mono ?_
    rintro r' _ ⟨value, rfl⟩
    refine (recorded r').mono fun _ s' same => ⟨trivial, ?_, fun slot other => ?_⟩
    · simp [same, value, whole]
    · simp [same, other]
  simp only [push, ← words, ← bytes, Action.wp_bind, Action.wp_ite, Action.wp_pure, wp_stack_set, wp_load_partial]
  constructor
  · intro some_
    have small := be_load_lt (s.analysis.code_bytes (pos + 1) m)
    have narrow : 256 ^ m ≤ 256 ^ 8 := Nat.pow_le_pow_right (by omega) (by omega)
    rw [code_bytes_length] at small
    rw [load_partial_data_eq (by omega) (by omega)]
    refine loaded _ ?_
    have empty : (0 : Word).toNat = 0 * 2 ^ (64 * (n + 1)) := (Nat.zero_mul _).symm
    rw [Word.set_val_toNat (by omega) empty, Nat.zero_mul, Nat.zero_add, BitVec.toNat_ofNat,
      Nat.mod_eq_of_lt (by omega)]
  · intro none_
    obtain rfl : m = 0 := by omega
    refine loaded 0 ?_
    show 0 = be_load [] * _
    rw [show be_load [] = 0 from rfl, Nat.zero_mul]

end

/-- The bytes behind a position of legacy code, with zeros behind its end. -/
theorem legacy_code_bytes {code : Bytes} {i n : Nat} : (analyze_legacy code).code_bytes i n =
    (List.range n).map fun k => code.getD (i + k) 0 := by
  refine List.map_congr_left fun k _ => ?_
  rw [legacy_code_at (by omega)]
  split
  · rw [show ((i : Int) + k).toNat = i + k by omega]
  · rw [List.getD_eq_getElem?_getD, List.getElem?_eq_none (by omega)]
    rfl

theorem push_opcode : ∀ n : Fin 32, Opcode.of_byte (UInt8.ofNat (0x60 + n.val)) = some (.PUSH n) := by
  decide

/-- `PUSH1` to `PUSH32` push the bytes behind them, most significant first, and go on behind those. -/
theorem push_immediate [Ethash] (host : Host H) (cost_table : Opcode → Int) {code : Bytes} {i Len : Nat}
    (least : 1 ≤ Len) (most : Len ≤ 32) (at_i : code[i]? = some (UInt8.ofNat (0x5f + Len))) (exec : Exec H)
    (analysed : exec.state.analysis = analyze_legacy code) {h gas : Int}
    (success : (check_requirements cost_table gas h (Opcode.of_byte (UInt8.ofNat (0x5f + Len)))).1 = .SUCCESS) :
    Action.wp (turn host cost_table i h gas) (fun next e =>
      next.code_it = some ((i : Int) + (Len + 1)) ∧ next.stack_top = h + 1 ∧
      (e.state.stack_space h).toNat = be_load ((List.range Len).map fun k => code.getD (i + 1 + k) 0) ∧
      ∀ slot ≠ h, e.state.stack_space slot = exec.state.stack_space slot) exec := by
  have name : Opcode.of_byte (UInt8.ofNat (0x5f + Len)) = some (.PUSH ⟨Len - 1, by omega⟩) := by
    have named := push_opcode ⟨Len - 1, by omega⟩
    rwa [show 0x60 + (Len - 1) = 0x5f + Len by omega] at named
  have here : exec.state.analysis.code_at i = UInt8.ofNat (0x5f + Len) := by
    have within := (List.getElem?_eq_some_iff.mp at_i).1
    rw [analysed, legacy_code_at (by omega), if_pos (by omega), List.getD_eq_getElem?_getD, Int.toNat_natCast, at_i]
    rfl
  rw [name] at success
  rw [← here] at name
  refine wp_turn name success ?_
  have size : Len - 1 + 1 = Len := by omega
  have pushed : Action.wp (push Len h i) _ exec.state := wp_push most
  rw [analysed, show (i : Int) + 1 = (i + 1 : Nat) by omega, legacy_code_bytes] at pushed
  simp only [map_opcodes, invoke_impl, Action.wp_bind, Action.wp_pure, lift_on_state, wp_on_state, size]
  refine pushed.mono ?_
  rintro next s' ⟨leads, value, lower⟩
  exact ⟨leads, rfl, value, lower⟩

/-- A `PUSH2` with one byte behind it, at the end of the code. -/
theorem push_immediate_truncated :
    Action.wp (@turn Unit no_hash empty_host (legacy_cost_table .SHANGHAI) 0 0 100) (fun next e =>
      next.code_it = some 3 ∧ (e.state.stack_space 0).toNat = 0x0700) (code_config .SHANGHAI [0x61, 7] 100).exec := by
  have pushed := @push_immediate Unit no_hash empty_host (legacy_cost_table .SHANGHAI) [0x61, 7] 0 2 (by decide)
    (by decide) rfl (code_config .SHANGHAI [0x61, 7] 100).exec rfl 0 100 (by decide)
  exact pushed.mono fun next e ⟨leads, _, value, _⟩ => ⟨leads, value⟩

end EvmAssigner
