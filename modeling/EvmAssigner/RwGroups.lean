import EvmAssigner.RwBlock

namespace EvmAssigner
open RwTable

/-- What the entries of one group agree on. -/
def rw_operation.group_key (o : rw_operation) : UInt8 × Nat × Word × UInt8 × Word :=
  (o.op, o.id, o.address, o.field, o.storage_key)

/-- Entry `i` is the first of its group. -/
def OpensGroup (os : List rw_operation) (i : Nat) : Prop :=
  i = 0 ∨ os[i - 1]?.map (·.group_key) ≠ os[i]?.map (·.group_key)

/-- Entry `i` is the last of its group. -/
def ClosesGroup (os : List rw_operation) (i : Nat) : Prop :=
  i + 1 = os.length ∨ os[i]?.map (·.group_key) ≠ os[i + 1]?.map (·.group_key)

section
variable {F : Type} [Field F]

/-- The flags and `VALUE_BEFORE` columns of a block tell its groups apart. -/
structure KeyGroupAdvice (t : Assignment F) (start : Nat) (os : List rw_operation) : Prop where
  first : ∀ i < os.length, t.witness IS_FIRST (row_index start i) = 1 ↔ OpensGroup os i
  last : ∀ i < os.length, t.witness IS_LAST (row_index start i) = 1 ↔ ClosesGroup os i
  opening : ∀ i o, os[i]? = some o → OpensGroup os i →
    t.witness VALUE_BEFORE_HI (row_index start i) = o.value_prev.w_hi ∧
    t.witness VALUE_BEFORE_LO (row_index start i) = o.value_prev.w_lo
  inherited : ∀ i, i + 1 < os.length → ¬ OpensGroup os (i + 1) →
    t.witness VALUE_BEFORE_HI (row_index start (i + 1)) =
      t.witness VALUE_BEFORE_HI (row_index start i) ∧
    t.witness VALUE_BEFORE_LO (row_index start (i + 1)) =
      t.witness VALUE_BEFORE_LO (row_index start i)

variable [DecidableEq F]

/-- No turn of the loop flags the first row of the block as the first of its group. -/
theorem process_rw_operations_first_row {t t' : Assignment F} {rw_trace : List rw_operation}
    (run : process_rw_operations rw_trace t = some t') :
    t'.witness IS_FIRST (row_index (start_row_index t) 0) =
      t.witness IS_FIRST (row_index (start_row_index t) 0) := by
  rw [process_rw_operations] at run
  split at run
  · rename_i short
    have same := (sort_operations_perm rw_trace).length_eq
    cases sorted : sort_operations rw_trace with
    | nil =>
      rw [sorted] at run
      obtain rfl := Option.some.inj run
      rfl
    | cons o os =>
      rw [sorted, List.length_cons] at same
      rw [sorted] at run
      obtain ⟨t1, head, rest⟩ := Option.bind_eq_some_iff.mp run
      obtain rfl := Option.some.inj head
      have absent : IS_FIRST ∉ (row_cells (F := F) o).map Prod.fst := by
        rw [row_cells_columns]
        decide
      rw [fill_rows_other rest ?_ (Or.inr (Or.inr (by decide))),
        Assignment.set_cells_witness_col _ _ _ absent]
      intro k low high same_row
      have := row_index_inj (by omega) (by omega) same_row
      omega
  · simp at run

/-- The first row of a block never carries its flag, so only an empty block is right. -/
theorem key_group_advice_iff {t t' : Assignment F} {rw_trace : List rw_operation}
    (unwritten : t.witness IS_FIRST (row_index (start_row_index t) 0) = 0)
    (run : process_rw_operations rw_trace t = some t') :
    KeyGroupAdvice t' (start_row_index t) (sort_operations rw_trace) ↔ rw_trace = [] := by
  have same := (sort_operations_perm rw_trace).length_eq
  constructor
  · intro advice
    by_contra nonempty
    have positive := List.length_pos_iff.mpr nonempty
    have flag := (advice.first 0 (by omega)).mpr (Or.inl rfl)
    rw [process_rw_operations_first_row run, unwritten] at flag
    exact zero_ne_one flag
  · rintro rfl
    have empty : sort_operations [] = [] := rfl
    constructor <;> simp [empty]

end

/-- Two entries on one item of the stack, one on another, and one on the memory. -/
def grouped_trace : List rw_operation :=
  [stack_operation 0 0 0 true 7, stack_operation 0 1 1 true 8, stack_operation 0 0 2 false 7,
    memory_operation 0 3 3 true 7]

theorem key_group_advice_iff_groups : ∃ t' : Assignment (ZMod 65537),
    process_rw_operations grouped_trace Assignment.empty = some t' ∧
      (KeyGroupAdvice t' 0 (sort_operations grouped_trace) ↔ grouped_trace = []) := by
  have ends : (process_rw_operations grouped_trace (Assignment.empty : Assignment (ZMod 65537))).isSome := by
    decide +kernel
  obtain ⟨t', run⟩ := Option.isSome_iff_exists.mp ends
  have unwritten : (Assignment.empty : Assignment (ZMod 65537)).witness IS_FIRST
      (row_index (start_row_index (Assignment.empty : Assignment (ZMod 65537))) 0) = 0 := rfl
  exact ⟨t', run, key_group_advice_iff unwritten run⟩

/-- The block of a program that does nothing but `PUSH0`. -/
theorem key_group_advice_push0 : ∃ t' : Assignment (ZMod 65537),
    process_rw_operations [stack_operation 0 0 0 true 0] Assignment.empty = some t' ∧
      ¬ KeyGroupAdvice t' 0 [stack_operation 0 0 0 true 0] := by
  refine ⟨_, rfl, ?_⟩
  intro advice
  have flag := (advice.first 0 (by decide)).mpr (Or.inl rfl)
  have unwritten : (0 : ZMod 65537) = 1 := flag
  exact zero_ne_one unwritten

end EvmAssigner
