import EvmAssigner.RwOrder

namespace EvmAssigner
open RwTable

section
variable {F : Type} [Field F]

theorem fill_value_before_other {t : Assignment F} {row prev d c r : Nat} {o : rw_operation}
    (away : r ≠ row ∨ c ≠ VALUE_BEFORE_HI ∧ c ≠ VALUE_BEFORE_LO) :
    (fill_value_before t row prev d o).witness c r = t.witness c r := by
  unfold fill_value_before
  split
  · simp only [Assignment.set_cells_cons, Assignment.set_cells_nil, Assignment.set_witness]
    rw [if_neg (by tauto), if_neg (by tauto)]
  · simp only [Assignment.set_cells_cons, Assignment.set_cells_nil, Assignment.set_witness]
    rw [if_neg (by tauto), if_neg (by tauto)]

theorem fill_value_before_hi (t : Assignment F) (row prev d : Nat) (o : rw_operation) :
    (fill_value_before t row prev d o).witness VALUE_BEFORE_HI row =
      if d < 30 then o.value_prev.w_hi else t.witness VALUE_BEFORE_HI prev := by
  unfold fill_value_before
  split <;> simp

theorem fill_value_before_lo (t : Assignment F) (row prev d : Nat) (o : rw_operation) :
    (fill_value_before t row prev d o).witness VALUE_BEFORE_LO row =
      if d < 30 then o.value_prev.w_lo else t.witness VALUE_BEFORE_LO prev := by
  unfold fill_value_before
  split <;> simp

theorem fill_indices_other {t : Assignment F} {row d c r : Nat}
    (away : r ≠ row ∨ c < INDICES 0 ∨ INDICES 4 < c) :
    (fill_indices t row d).witness c r = t.witness c r := by
  rcases eq_or_ne r row with rfl | other
  · refine Assignment.set_cells_witness_col t r r ?_
    intro member
    obtain ⟨cell, hcell, rfl⟩ := List.mem_map.mp member
    obtain ⟨j, hj, rfl⟩ := List.mem_map.mp hcell
    have bound := List.mem_range.mp hj
    simp only [INDICES, INDICES_AMOUNT] at away bound
    omega
  · exact Assignment.set_cells_witness_row other t _ c

theorem fill_indices_index {j : Nat} (t : Assignment F) (row d : Nat) (bound : j < INDICES_AMOUNT) :
    (fill_indices t row d).witness (INDICES j) row =
      if ((1 <<< INDICES_AMOUNT) >>> (j + 1)) &&& d = 0 then 0 else 1 := by
  refine Assignment.set_cells_witness t row ?_ ?_
  · rw [List.map_map]
    exact List.Nodup.map (fun i j same => by simpa using same) List.nodup_range
  · exact List.mem_map.mpr ⟨j, List.mem_range.mpr bound, rfl⟩

theorem fill_flags_other {t : Assignment F} {row prev d c r : Nat} {o : rw_operation}
    (last : r ≠ prev ∨ c ≠ IS_LAST) (first : r ≠ row ∨ c ≠ IS_FIRST) :
    (fill_flags t row prev d o).witness c r = t.witness c r := by
  unfold fill_flags
  have notLast : ¬ (c = IS_LAST ∧ r = prev) := by tauto
  have notFirst : ¬ (c = IS_FIRST ∧ r = row) := by tauto
  split_ifs <;> simp only [Assignment.set_witness, if_neg notLast, if_neg notFirst]

theorem fill_flags_last (t : Assignment F) (row prev d : Nat) (o : rw_operation) :
    (fill_flags t row prev d o).witness IS_LAST prev =
      if o.op ≠ START_OP ∧ d < 30 then 1 else t.witness IS_LAST prev := by
  unfold fill_flags
  split_ifs <;> simp

theorem fill_flags_first (t : Assignment F) (row prev d : Nat) (o : rw_operation) :
    (fill_flags t row prev d o).witness IS_FIRST row =
      if o.op ≠ START_OP ∧ o.op ≠ PADDING_OP ∧ d < 30 then 1 else t.witness IS_FIRST row := by
  unfold fill_flags
  split_ifs <;> simp

variable [DecidableEq F]

theorem fill_difference_other {t : Assignment F} {row prev c' c r : Nat}
    (away : r ≠ row ∨ c ≠ DIFFERENCE ∧ c ≠ INV_DIFFERENCE) :
    (fill_difference t row prev c').witness c r = t.witness c r := by
  simp only [fill_difference, Assignment.set_witness]
  rw [if_neg (by tauto), if_neg (by tauto)]

theorem fill_difference_difference (t : Assignment F) (row prev c : Nat) :
    (fill_difference t row prev c).witness DIFFERENCE row = t.witness c row - t.witness c prev := by
  simp [fill_difference]

theorem fill_difference_inverse {t : Assignment F} {row prev c : Nat}
    (differ : t.witness c row ≠ t.witness c prev) :
    (fill_difference t row prev c).witness INV_DIFFERENCE row *
      (fill_difference t row prev c).witness DIFFERENCE row = 1 := by
  have nonzero : t.witness c row - t.witness c prev ≠ 0 := sub_ne_zero.mpr differ
  rw [fill_difference_difference]
  simp only [fill_difference, Assignment.set_witness_self, if_neg nonzero]
  exact one_div_mul_cancel nonzero

/-- All that `fill_advice` does, for rows that first differ in column `sorting[d] = c`. -/
structure FillsAdvice (t t' : Assignment F) (row prev d c : Nat) (o : rw_operation) : Prop where
  other : ∀ c r, r ≠ row → (r ≠ prev ∨ c ≠ IS_LAST) → t'.witness c r = t.witness c r
  kept : ∀ c, c < 14 ∨ 20 ≤ c ∧ c < 50 →
    t'.witness c row = t.witness c row
  indices : ∀ j < INDICES_AMOUNT,
    t'.witness (INDICES j) row = if ((1 <<< INDICES_AMOUNT) >>> (j + 1)) &&& d = 0 then 0 else 1
  difference : t'.witness DIFFERENCE row = t.witness c row - t.witness c prev
  inverse : t.witness c row ≠ t.witness c prev →
    t'.witness INV_DIFFERENCE row * t'.witness DIFFERENCE row = 1
  last : t'.witness IS_LAST prev = if o.op ≠ START_OP ∧ d < 30 then 1 else t.witness IS_LAST prev
  first : t'.witness IS_FIRST row =
    if o.op ≠ START_OP ∧ o.op ≠ PADDING_OP ∧ d < 30 then 1 else t.witness IS_FIRST row
  before_hi : t'.witness VALUE_BEFORE_HI row =
    if d < 30 then o.value_prev.w_hi else t.witness VALUE_BEFORE_HI prev
  before_lo : t'.witness VALUE_BEFORE_LO row =
    if d < 30 then o.value_prev.w_lo else t.witness VALUE_BEFORE_LO prev

theorem sorting_columns {c : Nat} (member : c ∈ sorting) : c = 0 ∨ c = 5 ∨ 20 ≤ c ∧ c < 50 := by
  have all : ∀ c ∈ sorting, c = 0 ∨ c = 5 ∨ 20 ≤ c ∧ c < 50 := by decide
  exact all c member

theorem fill_advice_spec {t t' : Assignment F} {row prev : Nat} {o : rw_operation}
    (apart : prev ≠ row) (run : fill_advice t row prev o = some t') :
    ∃ c, sorting[diff_ind t row prev]? = some c ∧
      FillsAdvice t t' row prev (diff_ind t row prev) c o := by
  obtain ⟨c, found, rfl⟩ := Option.map_eq_some_iff.mp run
  refine ⟨c, found, ?_⟩
  generalize diff_ind t row prev = d
  have kept {c' : Nat} (r : Nat) (away : c' < 14 ∨ 20 ≤ c' ∧ c' < 50) :
      (fill_flags (fill_indices (fill_value_before t row prev d o) row d) row
        prev d o).witness c' r = t.witness c' r := by
    have notLast : c' ≠ IS_LAST := by simp only [IS_LAST]; omega
    have notFirst : c' ≠ IS_FIRST := by simp only [IS_FIRST]; omega
    have notIndex : c' < INDICES 0 ∨ INDICES 4 < c' := by simp only [INDICES]; omega
    have notHi : c' ≠ VALUE_BEFORE_HI := by simp only [VALUE_BEFORE_HI]; omega
    have notLo : c' ≠ VALUE_BEFORE_LO := by simp only [VALUE_BEFORE_LO]; omega
    rw [fill_flags_other (Or.inr notLast) (Or.inr notFirst), fill_indices_other (Or.inr notIndex),
      fill_value_before_other (Or.inr ⟨notHi, notLo⟩)]
  have range : c < 14 ∨ 20 ≤ c ∧ c < 50 := by
    have columns := sorting_columns (List.mem_of_getElem? found)
    omega
  constructor
  case other =>
    intro c' r otherRow away
    rw [fill_difference_other (Or.inl otherRow), fill_flags_other away (Or.inl otherRow),
      fill_indices_other (Or.inl otherRow), fill_value_before_other (Or.inl otherRow)]
  case kept =>
    intro c' away
    have notDifference : c' ≠ DIFFERENCE := by simp only [DIFFERENCE]; omega
    have notInverse : c' ≠ INV_DIFFERENCE := by simp only [INV_DIFFERENCE]; omega
    rw [fill_difference_other (Or.inr ⟨notDifference, notInverse⟩), kept row away]
  case indices =>
    intro j bound
    have five : j < 5 := bound
    have notDifference : INDICES j ≠ DIFFERENCE := by simp only [INDICES, DIFFERENCE]; omega
    have notInverse : INDICES j ≠ INV_DIFFERENCE := by simp only [INDICES, INV_DIFFERENCE]; omega
    have notFirst : INDICES j ≠ IS_FIRST := by simp only [INDICES, IS_FIRST]; omega
    rw [fill_difference_other (Or.inr ⟨notDifference, notInverse⟩),
      fill_flags_other (Or.inl apart.symm) (Or.inr notFirst), fill_indices_index _ _ _ bound]
  case difference => rw [fill_difference_difference, kept row range, kept prev range]
  case inverse =>
    intro differ
    refine fill_difference_inverse ?_
    rwa [kept row range, kept prev range]
  case last =>
    rw [fill_difference_other (Or.inl apart), fill_flags_last,
      fill_indices_other (Or.inl apart), fill_value_before_other (Or.inl apart)]
  case first =>
    rw [fill_difference_other (Or.inr (by decide)), fill_flags_first,
      fill_indices_other (Or.inr (by decide)), fill_value_before_other (Or.inr (by decide))]
  case before_hi =>
    rw [fill_difference_other (Or.inr (by decide)),
      fill_flags_other (Or.inl apart.symm) (Or.inr (by decide)),
      fill_indices_other (Or.inr (by decide)), fill_value_before_hi]
  case before_lo =>
    rw [fill_difference_other (Or.inr (by decide)),
      fill_flags_other (Or.inl apart.symm) (Or.inr (by decide)),
      fill_indices_other (Or.inr (by decide)), fill_value_before_lo]

end
end EvmAssigner
