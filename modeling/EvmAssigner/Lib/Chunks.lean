import Mathlib.Data.List.Induction
import Mathlib.Data.Nat.Bitwise
import Mathlib.Tactic.Common

namespace EvmAssigner

/-- The `n` chunks of `w` bits of a number, most significant first. Bits above the
lowest `w * n` are not looked at. -/
def beChunks (w : Nat) : Nat → Nat → List Nat
  | 0, _ => []
  | n + 1, x => x / 2 ^ (w * n) % 2 ^ w :: beChunks w n x

@[simp] theorem beChunks_length (w n x : Nat) : (beChunks w n x).length = n := by
  induction n with
  | zero => rfl
  | succ n ih => simp [beChunks, ih]

theorem beChunks_getElem {w n x j : Nat} (within : j < (beChunks w n x).length) :
    (beChunks w n x)[j] = x / 2 ^ (w * (n - 1 - j)) % 2 ^ w := by
  induction n generalizing j with
  | zero => simp at within
  | succ n ih =>
    cases j with
    | zero => simp [beChunks]
    | succ j =>
      simp only [beChunks, List.getElem_cons_succ]
      rw [ih (by simpa [beChunks] using within)]
      congr 4
      omega

theorem beChunks_mem_lt {w n x c : Nat} (member : c ∈ beChunks w n x) : c < 2 ^ w := by
  induction n with
  | zero => simp [beChunks] at member
  | succ n ih =>
    rcases List.mem_cons.mp member with rfl | tail
    · exact Nat.mod_lt _ (Nat.two_pow_pos w)
    · exact ih tail

theorem beChunks_mod (w n k x : Nat) (within : n ≤ k) :
    beChunks w n (x % 2 ^ (w * k)) = beChunks w n x := by
  induction n with
  | zero => rfl
  | succ n ih =>
    have split : 2 ^ (w * k) = 2 ^ (w * n) * 2 ^ (w * (k - n)) := by
      rw [← pow_add, ← Nat.mul_add, Nat.add_sub_cancel' (by omega)]
    have width : 2 ^ w ∣ 2 ^ (w * (k - n)) := pow_dvd_pow 2 (Nat.le_mul_of_pos_right w (by omega))
    rw [beChunks, beChunks, ih (by omega), split, Nat.mod_mul_right_div_self,
      Nat.mod_mod_of_dvd _ width]

/-- Chunking forgets nothing below its width. -/
theorem beChunks_injOn {w n x y : Nat} (hx : x < 2 ^ (w * n)) (hy : y < 2 ^ (w * n))
    (same : beChunks w n x = beChunks w n y) : x = y := by
  induction n generalizing x y with
  | zero => simp only [Nat.mul_zero, pow_zero] at hx hy; omega
  | succ n ih =>
    obtain ⟨head, tail⟩ := List.cons.inj same
    have pos : 0 < 2 ^ (w * n) := Nat.two_pow_pos _
    have top (z : Nat) (hz : z < 2 ^ (w * (n + 1))) : z / 2 ^ (w * n) % 2 ^ w = z / 2 ^ (w * n) :=
      Nat.mod_eq_of_lt (Nat.div_lt_of_lt_mul (by rwa [← pow_add, ← Nat.mul_succ]))
    rw [top x hx, top y hy] at head
    have low : x % 2 ^ (w * n) = y % 2 ^ (w * n) := by
      refine ih (Nat.mod_lt _ pos) (Nat.mod_lt _ pos) ?_
      rw [beChunks_mod w n n x le_rfl, beChunks_mod w n n y le_rfl, tail]
    rw [← Nat.div_add_mod x (2 ^ (w * n)), ← Nat.div_add_mod y (2 ^ (w * n)), head, low]

/-- The number that is cut into chunks of `w` bits, most significant first. -/
def ofBeChunks (w : Nat) (cs : List Nat) : Nat := cs.foldl (fun n c => n * 2 ^ w + c) 0

theorem ofBeChunks_append (w : Nat) (cs : List Nat) (c : Nat) :
    ofBeChunks w (cs ++ [c]) = ofBeChunks w cs * 2 ^ w + c := by
  rw [ofBeChunks, List.foldl_append]
  rfl

theorem ofBeChunks_append_append (w : Nat) (cs ds : List Nat) :
    ofBeChunks w (cs ++ ds) = ofBeChunks w cs * 2 ^ (w * ds.length) + ofBeChunks w ds := by
  induction ds using List.reverseRecOn with
  | nil => simp [ofBeChunks]
  | append_singleton ds d ih =>
    rw [← List.append_assoc, ofBeChunks_append, ofBeChunks_append, ih, List.length_append,
      List.length_singleton, Nat.mul_succ, pow_add, Nat.add_mul, Nat.mul_assoc, Nat.add_assoc]

theorem ofBeChunks_lt {w : Nat} {cs : List Nat} (small : ∀ c ∈ cs, c < 2 ^ w) :
    ofBeChunks w cs < 2 ^ (w * cs.length) := by
  induction cs using List.reverseRecOn with
  | nil => simp [ofBeChunks]
  | append_singleton cs c ih =>
    have front := ih fun d member => small d (List.mem_append_left _ member)
    have last : c < 2 ^ w := small c (List.mem_append_right _ (List.mem_singleton_self c))
    have room : (ofBeChunks w cs + 1) * 2 ^ w ≤ 2 ^ (w * cs.length) * 2 ^ w := Nat.mul_le_mul_right _ front
    rw [ofBeChunks_append, List.length_append, List.length_singleton, Nat.mul_succ, pow_add]
    rw [Nat.succ_mul] at room
    omega

theorem beChunks_succ_last (w n x : Nat) :
    beChunks w (n + 1) x = beChunks w n (x / 2 ^ w) ++ [x % 2 ^ w] := by
  induction n with
  | zero => simp [beChunks]
  | succ n ih =>
    rw [beChunks, ih, beChunks, List.cons_append, Nat.div_div_eq_div_mul, ← pow_add,
      show w + w * n = w * (n + 1) by rw [Nat.mul_succ, Nat.add_comm]]

/-- The chunks of a number that is put together from chunks. -/
theorem beChunks_ofBeChunks {w : Nat} {cs : List Nat} (small : ∀ c ∈ cs, c < 2 ^ w) :
    beChunks w cs.length (ofBeChunks w cs) = cs := by
  induction cs using List.reverseRecOn with
  | nil => rfl
  | append_singleton cs c ih =>
    have front := ih fun d member => small d (List.mem_append_left _ member)
    have last : c < 2 ^ w := small c (List.mem_append_right _ (List.mem_singleton_self c))
    rw [List.length_append, List.length_singleton, beChunks_succ_last, ofBeChunks_append, Nat.add_comm,
      Nat.add_mul_div_right _ _ (Nat.two_pow_pos w), Nat.div_eq_of_lt last, Nat.zero_add, front,
      Nat.add_mul_mod_self_right, Nat.mod_eq_of_lt last]

/-- A number is put together again from its chunks. -/
theorem ofBeChunks_beChunks {w n x : Nat} (small : x < 2 ^ (w * n)) :
    ofBeChunks w (beChunks w n x) = x := by
  induction n generalizing x with
  | zero =>
    rw [Nat.mul_zero, pow_zero] at small
    obtain rfl : x = 0 := by omega
    rfl
  | succ n ih =>
    have upper : x / 2 ^ w < 2 ^ (w * n) :=
      Nat.div_lt_of_lt_mul (by rwa [← pow_add, Nat.add_comm, ← Nat.mul_succ])
    rw [beChunks_succ_last, ofBeChunks_append, ih upper, Nat.div_add_mod']

/-- Most significant first, the lexicographic order of the chunks is the order of the numbers. -/
theorem beChunks_lt_iff {w n x y : Nat} (hx : x < 2 ^ (w * n)) (hy : y < 2 ^ (w * n)) :
    beChunks w n x < beChunks w n y ↔ x < y := by
  induction n generalizing x y with
  | zero => simp only [Nat.mul_zero, pow_zero] at hx hy; simp [beChunks]; omega
  | succ n ih =>
    have pos : 0 < 2 ^ (w * n) := Nat.two_pow_pos _
    have top (z : Nat) (hz : z < 2 ^ (w * (n + 1))) : z / 2 ^ (w * n) % 2 ^ w = z / 2 ^ (w * n) :=
      Nat.mod_eq_of_lt (Nat.div_lt_of_lt_mul (by rwa [← pow_add, ← Nat.mul_succ]))
    have tail := ih (Nat.mod_lt x pos) (Nat.mod_lt y pos)
    rw [beChunks_mod w n n x le_rfl, beChunks_mod w n n y le_rfl] at tail
    rw [beChunks, beChunks, List.cons_lt_cons_iff, top x hx, top y hy, tail]
    have hxs := Nat.div_add_mod x (2 ^ (w * n))
    have hys := Nat.div_add_mod y (2 ^ (w * n))
    have hxl := Nat.mod_lt x pos
    have hyl := Nat.mod_lt y pos
    constructor
    · rintro (less | ⟨same, less⟩)
      · exact Nat.lt_of_div_lt_div less
      · rw [same] at hxs
        omega
    · intro less
      rcases (Nat.div_le_div_right (c := 2 ^ (w * n)) less.le).lt_or_eq with high | high
      · exact Or.inl high
      · rw [high] at hxs
        exact Or.inr ⟨high, by omega⟩

/-- Cutting a chunk out of a number with a shifted mask. -/
theorem and_mask_shiftRight (x w k : Nat) :
    (x &&& (2 ^ w - 1) <<< k) >>> k = x / 2 ^ k % 2 ^ w := by
  apply Nat.eq_of_testBit_eq
  intro i
  rw [Nat.testBit_shiftRight, Nat.testBit_and, Nat.testBit_shiftLeft, ← Nat.shiftRight_eq_div_pow,
    Nat.testBit_mod_two_pow, Nat.testBit_shiftRight, Nat.testBit_two_pow_sub_one]
  simp only [show k ≤ k + i by omega, Nat.add_sub_cancel_left, decide_true, Bool.true_and]
  exact Bool.and_comm _ _

/-- Two pairs of blocks, the first two of one length, are compared block by block. -/
theorem append_lt_append_iff {xs ys xs' ys' : List Nat} (same : xs.length = ys.length) :
    xs ++ xs' < ys ++ ys' ↔ xs < ys ∨ xs = ys ∧ xs' < ys' := by
  induction xs generalizing ys with
  | nil =>
    cases ys with
    | nil => simp
    | cons y ys => simp at same
  | cons x xs ih =>
    cases ys with
    | nil => simp at same
    | cons y ys =>
      simp only [List.cons_append, List.cons_lt_cons_iff, List.cons.injEq,
        ih (Nat.succ.inj same)]
      tauto

/-- Where two lists of one length that are in lexicographic order first differ. -/
theorem exists_first_diff_of_lt {xs ys : List Nat} (same : xs.length = ys.length) (less : xs < ys) :
    ∃ (d m n : Nat), xs[d]? = some m ∧ ys[d]? = some n ∧ m < n ∧ ∀ j < d, xs[j]? = ys[j]? := by
  rcases List.lt_iff_exists.mp less with ⟨_, short⟩ | ⟨d, hx, hy, before, at_d⟩
  · omega
  · refine ⟨d, xs[d], ys[d], List.getElem?_eq_getElem hx, List.getElem?_eq_getElem hy, at_d, ?_⟩
    intro j hj
    rw [List.getElem?_eq_getElem (by omega), List.getElem?_eq_getElem (by omega), before j hj]

end EvmAssigner
