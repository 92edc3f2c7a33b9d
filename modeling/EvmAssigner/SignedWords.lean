import EvmAssigner.Runs

namespace EvmAssigner
variable {s : ExecutionState} {stack : Int} {k x y : Word}

theorem wp_stack_set {i : Int} {v : Word} {Q : Unit → ExecutionState → Prop} :
    Action.wp (stack_set stack i v) Q s ↔ Q () (s.set_slot (stack - 1 - i) v) := by
  simp [stack_set]

/-- An instruction on two words leaves its result in the slot of the lower one. -/
theorem wp_binary {f : Word → Word → Word} {R : Word → Prop} :
    Action.wp (binary f stack) (fun _ s' => R (s'.stack_space (stack - 2))) s ↔
      R (f (s.stack_space (stack - 1)) (s.stack_space (stack - 2))) := by
  have upper : stack - 1 - 0 = stack - 1 := by omega
  have lower : stack - 1 - 1 = stack - 2 := by omega
  simp [binary, wp_stack_set, upper, lower]

/-- `r` is `x` as a signed number, divided by a power of two and rounded down. -/
def ShiftsArithmetically (y x r : Word) : Prop :=
  r = BitVec.ofInt 256 (x.toInt / 2 ^ y.toNat) ∧
    (256 ≤ y.toNat → r = if x.toInt < 0 then BitVec.allOnes 256 else 0)

theorem arithmetic_shift (n : Nat) : BitVec.ofInt 256 (x.toInt / 2 ^ n) = x.sshiftRight n := by
  rw [BitVec.sshiftRight_eq, Int.shiftRight_eq_div_pow]
  norm_cast

/-- From the width of a word on only the sign is left. -/
theorem arithmetic_shift_far {n : Nat} (far : 256 ≤ n) :
    x.sshiftRight n = if x.toInt < 0 then BitVec.allOnes 256 else 0 := by
  have msb : x.msb = decide (x.toInt < 0) := BitVec.msb_eq_toInt
  refine BitVec.eq_of_getLsbD_eq fun i small => ?_
  have outside : ¬ n + i < 256 := by omega
  rw [BitVec.getLsbD_sshiftRight, if_neg outside, msb]
  by_cases negative : x.toInt < 0
  · rw [if_pos negative, BitVec.getLsbD_allOnes]
    simp [negative, small]
  · simp [negative]

/-- No limb is below zero, so nothing is ever shifted in. -/
theorem sar_of_eq : sar_of y x = x.shr y.toNat := by
  have empty (n : Nat) : Word.shl 0 n = 0 := by
    unfold Word.shl
    split
    · exact BitVec.zero_shiftLeft n
    · rfl
  have never : ¬ x.to_uint64 3 < 0 := Nat.not_lt_zero _
  unfold sar_of
  simp only [never, decide_false, Bool.false_eq_true, if_false, empty]
  exact BitVec.or_zero

theorem shr_eq (n : Nat) : x.shr n = x >>> n := by
  unfold Word.shr
  split
  · rfl
  · rename_i far
    exact (BitVec.ushiftRight_eq_zero (by omega)).symm

theorem logical_eq_arithmetic {n : Nat} : x >>> n = x.sshiftRight n ↔ n = 0 ∨ 0 ≤ x.toInt := by
  have msb : x.msb = decide (x.toInt < 0) := BitVec.msb_eq_toInt
  constructor
  · intro same
    have signs := congrArg BitVec.msb same
    rw [BitVec.msb_ushiftRight, BitVec.msb_sshiftRight, msb] at signs
    by_cases none : n = 0
    · exact Or.inl none
    · have shifted : 0 < n := by omega
      simp only [shifted, decide_true, Bool.not_true, Bool.false_and] at signs
      have nonneg := of_decide_eq_false signs.symm
      exact Or.inr (by omega)
  · rintro (rfl | nonneg)
    · rw [BitVec.sshiftRight_zero, BitVec.ushiftRight_zero]
    · have clear : x.msb = false := by
        rw [msb]
        exact decide_eq_false (by omega)
      exact (BitVec.sshiftRight_eq_of_msb_false clear).symm

/-- `sar` is the arithmetic shift exactly when there is no sign to be filled in. -/
theorem sar_arithmetic_iff (stack : Int) (s : ExecutionState) :
    Action.wp (sar stack) (fun _ s' => ShiftsArithmetically (s.stack_space (stack - 1))
      (s.stack_space (stack - 2)) (s'.stack_space (stack - 2))) s ↔
      s.stack_space (stack - 1) = 0 ∨ 0 ≤ (s.stack_space (stack - 2)).toInt := by
  generalize at_y : s.stack_space (stack - 1) = y
  generalize at_x : s.stack_space (stack - 2) = x
  have none : y = 0 ↔ y.toNat = 0 := BitVec.toNat_eq
  rw [sar, wp_binary (R := ShiftsArithmetically y x), at_y, at_x, sar_of_eq, shr_eq]
  unfold ShiftsArithmetically
  rw [arithmetic_shift, none]
  constructor
  · exact fun ⟨same, _⟩ => logical_eq_arithmetic.mp same
  · intro either
    have same := logical_eq_arithmetic.mpr either
    exact ⟨same, fun far => same.trans (arithmetic_shift_far far)⟩

/-- Half of minus one, rounded down, is minus one. -/
theorem sar_not_arithmetic :
    ¬ Action.wp (sar 2) (fun _ s' => ShiftsArithmetically 1 (BitVec.allOnes 256) (s'.stack_space (2 - 2)))
      (((code_config .SHANGHAI [] 0).exec.state.set_slot 1 1).set_slot 0 (BitVec.allOnes 256)) := by
  intro shifted
  have result : ShiftsArithmetically 1 (BitVec.allOnes 256) (sar_of 1 (BitVec.allOnes 256)) :=
    wp_binary.mp shifted
  exact absurd result.1 (by decide)

theorem Word.getLsbD_set_val {v : BitVec 64} {i j : Nat} (small : j < 256) :
    (x.set_val v i).getLsbD j =
      if 64 * i ≤ j ∧ j < 64 * i + 64 then v.getLsbD (j - 64 * i) else x.getLsbD j := by
  rw [Word.set_val, BitVec.getLsbD_or, BitVec.getLsbD_and, BitVec.getLsbD_not, BitVec.getLsbD_shiftLeft,
    BitVec.getLsbD_shiftLeft, BitVec.getLsbD_setWidth, BitVec.getLsbD_setWidth, BitVec.getLsbD_allOnes]
  by_cases below : j < 64 * i
  · have outside : ¬ (64 * i ≤ j ∧ j < 64 * i + 64) := by omega
    rw [if_neg outside]
    simp [below, small]
  · by_cases within : j < 64 * i + 64
    · have inside : 64 * i ≤ j ∧ j < 64 * i + 64 := by omega
      have near : j - 64 * i < 64 := by omega
      have narrow : j - 64 * i < 256 := by omega
      rw [if_pos inside]
      simp [below, small, near, narrow]
    · have outside : ¬ (64 * i ≤ j ∧ j < 64 * i + 64) := by omega
      have far : ¬ j - 64 * i < 64 := by omega
      rw [if_neg outside, BitVec.getLsbD_of_ge v (j - 64 * i) (by omega)]
      simp [below, small, far]

/-- The limbs above `n` are overwritten. -/
theorem getLsbD_set_limbs {v : BitVec 64} {n j : Nat} (within : n < 4) (small : j < 256) :
    (([3, 2, 1].filter (n < ·)).foldl (fun x i => x.set_val v i) x).getLsbD j =
      if j < 64 * (n + 1) then x.getLsbD j else v.getLsbD (j % 64) := by
  have limb (i : Nat) : (64 * i ≤ j ∧ j < 64 * i + 64) ↔ j / 64 = i := by omega
  have place (i : Nat) (at_i : j / 64 = i) : j - 64 * i = j % 64 := by omega
  have cut (i : Nat) : j < 64 * (i + 1) ↔ j / 64 ≤ i := by omega
  have bound : j / 64 < 4 := by omega
  simp only [cut]
  obtain rfl | rfl | rfl | rfl : n = 0 ∨ n = 1 ∨ n = 2 ∨ n = 3 := by omega
  all_goals
    simp only [List.filter, Nat.reduceLT, decide_true, decide_false, List.foldl_cons, List.foldl_nil,
      Word.getLsbD_set_val small, limb]
    split_ifs
  all_goals first | omega | with_reducible rfl | rw [place _ (by assumption)]

/-- Every bit of the limb that goes above the sign byte is the sign. -/
theorem getLsbD_sign_ex {byte : BitVec 8} {i : Nat} (small : i < 64) :
    ((byte.signExtend 64).sshiftRight 8).getLsbD i = byte.getLsbD 7 := by
  have msb : byte.msb = byte.getLsbD 7 := BitVec.msb_eq_getLsbD_last byte
  have sign : (byte.signExtend 64).msb = byte.msb := by
    rw [BitVec.msb_signExtend]
    simp
  rw [BitVec.getLsbD_sshiftRight, sign]
  by_cases within : 8 + i < 64
  · rw [if_pos within, BitVec.getLsbD_signExtend, if_neg (by omega), msb]
    simp [within, small]
  · rw [if_neg within, msb]
    simp [small]

/-- Bit `b` of `x` is kept below `8 * (k + 1)`, and from there on it is the sign. -/
def SignExtends (k x r : Word) : Prop :=
  (31 ≤ k.toNat → r = x) ∧
    (k.toNat < 31 → ∀ b < 256, r.getLsbD b =
      if b < 8 * (k.toNat + 1) then x.getLsbD b else x.getLsbD (8 * k.toNat + 7))

theorem getLsbD_sign_extend {b : Nat} (short : k.toNat < 31) (small : b < 256) :
    (sign_extend k x).getLsbD b =
      if b < 64 * (k.toNat / 8 + 1) then x.getLsbD b else x.getLsbD (8 * k.toNat + 7) := by
  have ext : k < 31 := short
  have e : k.to_uint64 = k.toNat := by
    rw [Word.to_uint64_eq]
    omega
  have sign : (((x.limb (k.toNat / 8)) >>> (k.toNat % 8 * 8)).setWidth 8).getLsbD 7 =
      x.getLsbD (8 * k.toNat + 7) := by
    have place : 64 * (k.toNat / 8) + (k.toNat % 8 * 8 + 7) = 8 * k.toNat + 7 := by omega
    have within : k.toNat % 8 * 8 + 7 < 64 := by omega
    rw [BitVec.getLsbD_setWidth, BitVec.getLsbD_ushiftRight, Word.limb, BitVec.getLsbD_extractLsb', place]
    simp [within]
  rw [sign_extend, if_pos ext, e]
  simp only []
  rw [getLsbD_set_limbs (by omega) small, getLsbD_sign_ex (by omega), sign]

/-- `signextend` leaves the rest of the limb with the sign byte as it is. -/
theorem signextend_extends_iff (stack : Int) (s : ExecutionState) :
    Action.wp (signextend stack) (fun _ s' => SignExtends (s.stack_space (stack - 1))
      (s.stack_space (stack - 2)) (s'.stack_space (stack - 2))) s ↔
      31 ≤ (s.stack_space (stack - 1)).toNat ∨
        ∀ b, 8 * ((s.stack_space (stack - 1)).toNat + 1) ≤ b →
          b < 64 * ((s.stack_space (stack - 1)).toNat / 8 + 1) →
          (s.stack_space (stack - 2)).getLsbD b =
            (s.stack_space (stack - 2)).getLsbD (8 * (s.stack_space (stack - 1)).toNat + 7) := by
  generalize at_k : s.stack_space (stack - 1) = k
  generalize at_x : s.stack_space (stack - 2) = x
  rw [signextend, wp_binary (R := SignExtends k x), at_k, at_x]
  by_cases short : k.toNat < 31
  · have long : ¬ 31 ≤ k.toNat := by omega
    constructor
    · intro extends_
      refine Or.inr fun b above within => ?_
      have bit := extends_.2 short b (by omega)
      rw [getLsbD_sign_extend short (by omega), if_pos within, if_neg (by omega)] at bit
      exact bit
    · intro either
      have extended := either.resolve_left long
      refine ⟨fun far => absurd far long, fun _ b small => ?_⟩
      rw [getLsbD_sign_extend short small]
      by_cases within : b < 64 * (k.toNat / 8 + 1)
      · rw [if_pos within]
        by_cases kept : b < 8 * (k.toNat + 1)
        · rw [if_pos kept]
        · rw [if_neg kept]
          exact extended b (by omega) within
      · rw [if_neg within, if_neg (by omega)]
  · have long : 31 ≤ k.toNat := by omega
    have same : sign_extend k x = x := if_neg (show ¬ k < 31 from short)
    exact ⟨fun _ => Or.inl long, fun _ => ⟨fun _ => same, fun small => absurd small short⟩⟩

/-- The byte 0x80 at the bottom of a word. -/
theorem signextend_not_extends :
    ¬ Action.wp (signextend 2) (fun _ s' => SignExtends 0 0x80 (s'.stack_space (2 - 2)))
      (((code_config .SHANGHAI [] 0).exec.state.set_slot 1 0).set_slot 0 0x80) := by
  intro extended
  have result : SignExtends 0 0x80 (sign_extend 0 0x80) := wp_binary.mp extended
  have bit := result.2 (by decide) 8 (by decide)
  exact absurd bit (by decide)

end EvmAssigner
