import Mathlib.Algebra.CharP.Basic
import Mathlib.Algebra.Field.ZMod
import Mathlib.Tactic.NormNum.Prime
import EvmAssigner.RwAdvice

namespace EvmAssigner
open RwTable

theorem row_index_inj {start i k : Nat} (near : i < k + 2 ^ 32) (near' : k < i + 2 ^ 32)
    (same : row_index start i = row_index start k) : i = k := by
  simp only [row_index] at same
  omega

theorem row_index_succ_ne (start k : Nat) : row_index start k ≠ row_index start (k + 1) := by
  intro same
  have := row_index_inj (by omega) (by omega) same
  omega

section
variable {F : Type} [Field F] [DecidableEq F]

theorem fill_row_succ (t : Assignment F) (start k : Nat) (o : rw_operation) :
    fill_row t start (k + 1) o = fill_advice (t.set_cells (row_index start (k + 1)) (row_cells o))
      (row_index start (k + 1)) (row_index start k) o := rfl

/-- A turn of the loop touches its own row, and `IS_LAST` in the row before. -/
theorem fill_row_other {t t' : Assignment F} {start i c r : Nat} {o : rw_operation}
    (run : fill_row t start i o = some t') (other : r ≠ row_index start i)
    (last : i = 0 ∨ r ≠ row_index start (i - 1) ∨ c ≠ IS_LAST) :
    t'.witness c r = t.witness c r := by
  cases i with
  | zero =>
    obtain rfl := Option.some.inj run
    exact Assignment.set_cells_witness_row other t _ c
  | succ k =>
    rw [fill_row_succ] at run
    have apart := row_index_succ_ne start k
    obtain ⟨_, _, spec⟩ := fill_advice_spec apart run
    rw [spec.other c r other (last.resolve_left (by omega)),
      Assignment.set_cells_witness_row other]

/-- The columns no turn writes. -/
theorem fill_row_field_type {t t' : Assignment F} {start i r : Nat} {o : rw_operation}
    (run : fill_row t start i o = some t') : t'.witness FIELD_TYPE r = t.witness FIELD_TYPE r := by
  have absent : FIELD_TYPE ∉ (row_cells (F := F) o).map Prod.fst := by
    rw [row_cells_columns]
    decide
  by_cases own : r = row_index start i
  · subst own
    cases i with
    | zero =>
      obtain rfl := Option.some.inj run
      exact Assignment.set_cells_witness_col _ _ _ absent
    | succ k =>
      rw [fill_row_succ] at run
      have apart := row_index_succ_ne start k
      obtain ⟨_, _, spec⟩ := fill_advice_spec apart run
      rw [spec.kept _ (by decide), Assignment.set_cells_witness_col _ _ _ absent]
  · exact fill_row_other run own (Or.inr (Or.inr (by decide)))

theorem fill_rows_other {t t' : Assignment F} {start i c r : Nat} {os : List rw_operation}
    (run : fill_rows start i os t = some t')
    (other : ∀ k, i ≤ k → k < i + os.length → r ≠ row_index start k)
    (last : i = 0 ∨ r ≠ row_index start (i - 1) ∨ c ≠ IS_LAST) :
    t'.witness c r = t.witness c r := by
  induction os generalizing i t with
  | nil =>
    obtain rfl := Option.some.inj run
    rfl
  | cons o os ih =>
    obtain ⟨t1, step, rest⟩ := Option.bind_eq_some_iff.mp run
    have own : r ≠ row_index start i := other i le_rfl (by simp)
    rw [ih rest (fun k low high => other k (by omega) (by simp only [List.length_cons]; omega))
        (Or.inr (Or.inl own)), fill_row_other step own last]

theorem fill_row_sorts {t t' : Assignment F} {start i : Nat} {o : rw_operation}
    (run : fill_row t start i o = some t') (field : t.witness FIELD_TYPE (row_index start i) = 0) :
    RowSorts t' (row_index start i) o := by
  have written := row_cells_sorts t (row_index start i) o field
  cases i with
  | zero =>
    obtain rfl := Option.some.inj run
    exact written
  | succ k =>
    rw [fill_row_succ] at run
    have apart := row_index_succ_ne start k
    obtain ⟨_, _, spec⟩ := fill_advice_spec apart run
    intro cell member
    have column := sorting_columns (List.of_mem_zip member).1
    rw [spec.kept _ (by omega)]
    exact written cell member

/-- The advice that `row` is greater than `prev` in the sorting columns, and first so at index `d`. -/
structure SortAdvice (t : Assignment F) (row prev d : Nat) : Prop where
  in_range : d < sorting.length
  agree : ∀ j c, j < d → sorting[j]? = some c → t.witness c row = t.witness c prev
  differ : ∀ c, sorting[d]? = some c → t.witness c row ≠ t.witness c prev
  indices : ∀ j < INDICES_AMOUNT,
    t.witness (INDICES j) row = if d.testBit (INDICES_AMOUNT - 1 - j) then 1 else 0
  difference : ∀ c, sorting[d]? = some c →
    t.witness DIFFERENCE row = t.witness c row - t.witness c prev
  range : ∃ n : Nat, 1 ≤ n ∧ n ≤ 2 ^ 16 - 1 ∧ t.witness DIFFERENCE row = (n : F)
  inverse : t.witness INV_DIFFERENCE row * t.witness DIFFERENCE row = 1

/-- Both rows hold sort keys, which first differ at index `d`. -/
theorem diff_ind_eq {t : Assignment F} {row prev d m n p : Nat} {a b : rw_operation} [CharP F p]
    (wide : 2 ^ 16 ≤ p) (ha : RowSorts t prev a) (hb : RowSorts t row b)
    (at_m : a.sort_key[d]? = some m) (at_n : b.sort_key[d]? = some n) (less : m < n)
    (before : ∀ j < d, a.sort_key[j]? = b.sort_key[j]?) : diff_ind t row prev = d := by
  have low := rw_operation.sort_key_lt (List.mem_of_getElem? at_m)
  have high := rw_operation.sort_key_lt (List.mem_of_getElem? at_n)
  have hd : d < sorting.length := by
    rw [sorting_length, ← a.sort_key_length]
    exact (List.getElem?_eq_some_iff.mp at_m).1
  unfold diff_ind
  rw [List.findIdx_eq hd]
  constructor
  · have at_c := List.getElem?_eq_getElem hd
    have apart : t.witness sorting[d] row ≠ t.witness sorting[d] prev := by
      intro same
      rw [hb.at at_c at_n, ha.at at_c at_m] at same
      have eq := CharP.natCast_injOn_Iio F p (high.trans_le wide) (low.trans_le wide) same
      omega
    simpa using apart
  · intro j hj
    have at_c := List.getElem?_eq_getElem (hj.trans hd)
    have within : j < a.sort_key.length := by
      rw [rw_operation.sort_key_length, ← sorting_length]
      exact hj.trans hd
    have at_j := List.getElem?_eq_getElem within
    have same := (hb.at at_c ((before j hj).symm.trans at_j)).trans (ha.at at_c at_j).symm
    simpa using same

theorem indices_bits {d j : Nat} (hd : d < 32) (hj : j < INDICES_AMOUNT) :
    (((1 <<< INDICES_AMOUNT) >>> (j + 1)) &&& d = 0) ↔
      d.testBit (INDICES_AMOUNT - 1 - j) = false := by
  have all : ∀ d < 32, ∀ j < 5, ((1 <<< 5) >>> (j + 1) &&& d = 0) ↔ d.testBit (5 - 1 - j) = false := by
    decide
  exact all d hd j hj

/-- A turn of the loop after the first, at an entry whose sort key is above that of the row before. -/
theorem fill_advice_sorts {t : Assignment F} {row prev p : Nat} {a b : rw_operation} [CharP F p]
    (wide : 2 ^ 16 ≤ p) (apart : prev ≠ row) (ha : RowSorts t prev a) (hb : RowSorts t row b)
    (less : a.sort_key < b.sort_key) :
    ∃ t', fill_advice t row prev b = some t' ∧ ∃ d, SortAdvice t' row prev d := by
  obtain ⟨d, m, n, at_m, at_n, order, before⟩ := exists_first_diff_of_lt (by simp) less
  have found := diff_ind_eq wide ha hb at_m at_n order before
  have high := rw_operation.sort_key_lt (List.mem_of_getElem? at_n)
  have hd : d < sorting.length := by
    rw [sorting_length, ← a.sort_key_length]
    exact (List.getElem?_eq_some_iff.mp at_m).1
  obtain ⟨t', run⟩ : ∃ t', fill_advice t row prev b = some t' := by
    simp only [fill_advice, found, List.getElem?_eq_getElem hd]
    exact ⟨_, rfl⟩
  obtain ⟨c, at_c, spec⟩ := fill_advice_spec apart run
  rw [found] at at_c spec
  have column {j c' : Nat} (at_c' : sorting[j]? = some c') (r : Nat) (own : r = row ∨ r = prev) :
      t'.witness c' r = t.witness c' r := by
    have columns := sorting_columns (List.mem_of_getElem? at_c')
    rcases own with rfl | rfl
    · exact spec.kept c' (by omega)
    · refine spec.other c' r apart (Or.inr ?_)
      simp only [IS_LAST]
      omega
  have cell := hb.at at_c at_n
  have cell' := ha.at at_c at_m
  have nonzero : t.witness c row ≠ t.witness c prev := by
    intro same
    rw [cell, cell'] at same
    have eq := CharP.natCast_injOn_Iio F p (high.trans_le wide) ((order.trans high).trans_le wide) same
    omega
  refine ⟨t', run, d, ?_⟩
  constructor
  case in_range => exact hd
  case agree =>
    intro j c' hj at_c'
    have within : j < a.sort_key.length := by
      rw [rw_operation.sort_key_length, ← sorting_length]
      exact hj.trans hd
    have at_j := List.getElem?_eq_getElem within
    rw [column at_c' row (Or.inl rfl), column at_c' prev (Or.inr rfl),
      hb.at at_c' ((before j hj).symm.trans at_j), ha.at at_c' at_j]
  case differ =>
    intro c' at_c'
    obtain rfl := Option.some.inj (at_c.symm.trans at_c')
    rwa [column at_c row (Or.inl rfl), column at_c prev (Or.inr rfl)]
  case indices =>
    intro j hj
    rw [spec.indices j hj]
    simp only [indices_bits (sorting_length ▸ hd) hj]
    cases d.testBit (INDICES_AMOUNT - 1 - j) <;> rfl
  case difference =>
    intro c' at_c'
    obtain rfl := Option.some.inj (at_c.symm.trans at_c')
    rw [spec.difference, column at_c row (Or.inl rfl), column at_c prev (Or.inr rfl)]
  case range =>
    refine ⟨n - m, by omega, by omega, ?_⟩
    rw [spec.difference, cell, cell', Nat.cast_sub order.le]
  case inverse => exact spec.inverse nonzero

omit [DecidableEq F] in
theorem SortAdvice.congr {t t' : Assignment F} {row prev d : Nat} (h : SortAdvice t row prev d)
    (same : ∀ c, c ≠ IS_LAST → t'.witness c row = t.witness c row)
    (same' : ∀ c, c ≠ IS_LAST → t'.witness c prev = t.witness c prev) :
    SortAdvice t' row prev d := by
  have column {j c : Nat} (at_c : sorting[j]? = some c) : c ≠ IS_LAST := by
    have columns := sorting_columns (List.mem_of_getElem? at_c)
    simp only [IS_LAST]
    omega
  constructor
  case in_range => exact h.in_range
  case agree =>
    intro j c hj at_c
    rw [same c (column at_c), same' c (column at_c)]
    exact h.agree j c hj at_c
  case differ =>
    intro c at_c
    rw [same c (column at_c), same' c (column at_c)]
    exact h.differ c at_c
  case indices =>
    intro j hj
    have five : j < 5 := hj
    have notLast : INDICES j ≠ IS_LAST := by simp only [INDICES, IS_LAST]; omega
    rw [same _ notLast]
    exact h.indices j hj
  case difference =>
    intro c at_c
    rw [same c (column at_c), same' c (column at_c), same _ (by decide)]
    exact h.difference c at_c
  case range =>
    rw [same _ (by decide)]
    exact h.range
  case inverse =>
    rw [same _ (by decide), same _ (by decide)]
    exact h.inverse

/-- From a row that holds a sort key on, entries with growing sort keys are all given advice. -/
theorem fill_rows_sorts {t : Assignment F} {start i p : Nat} {a : rw_operation}
    {os : List rw_operation} [CharP F p] (wide : 2 ^ 16 ≤ p)
    (last : RowSorts t (row_index start i) a)
    (chain : (a :: os).IsChain fun a b => a.sort_key < b.sort_key)
    (field : ∀ k, i < k → k ≤ i + os.length → t.witness FIELD_TYPE (row_index start k) = 0)
    (bound : i + os.length < 2 ^ 32) :
    ∃ t', fill_rows start (i + 1) os t = some t' ∧ ∀ k, i < k → k ≤ i + os.length →
      ∃ d, SortAdvice t' (row_index start k) (row_index start (k - 1)) d := by
  induction os generalizing t i a with
  | nil =>
    refine ⟨t, rfl, ?_⟩
    intro k low high
    simp only [List.length_nil] at high
    omega
  | cons o os ih =>
    obtain ⟨less, chain'⟩ := List.isChain_cons_cons.mp chain
    simp only [List.length_cons] at bound
    have apart := row_index_succ_ne start i
    have kept : RowSorts (t.set_cells (row_index start (i + 1)) (row_cells o)) (row_index start i) a := by
      intro cell member
      rw [Assignment.set_cells_witness_row apart]
      exact last cell member
    have own := field (i + 1) (by omega) (by simp only [List.length_cons]; omega)
    obtain ⟨t1, advice, d, sorted⟩ :=
      fill_advice_sorts wide apart kept (row_cells_sorts t _ o own) less
    rw [← fill_row_succ] at advice
    have field1 (k : Nat) (low : i + 1 < k) (high : k ≤ i + 1 + os.length) :
        t1.witness FIELD_TYPE (row_index start k) = 0 := by
      rw [fill_row_field_type advice]
      exact field k (by omega) (by simp only [List.length_cons]; omega)
    obtain ⟨t', run, rest⟩ := ih (fill_row_sorts advice own) chain' field1 (by omega)
    refine ⟨t', by rw [fill_rows, advice]; exact run, ?_⟩
    intro k low high
    simp only [List.length_cons] at high
    by_cases first : k = i + 1
    · subst first
      have fresh (r : Nat) (hr : i ≤ r ∧ r ≤ i + 1) (k : Nat) (low : i + 2 ≤ k)
          (high : k < i + 2 + os.length) : row_index start r ≠ row_index start k := by
        intro same
        have := row_index_inj (by omega) (by omega) same
        omega
      refine ⟨d, sorted.congr ?_ ?_⟩
      · intro c notLast
        exact fill_rows_other run (fresh (i + 1) (by omega)) (Or.inr (Or.inr notLast))
      · intro c notLast
        exact fill_rows_other run (fresh i (by omega)) (Or.inr (Or.inr notLast))
    · exact rest k (by omega) (by omega)

/-- What the entries of one frame have in common. -/
structure SortableTrace (rw_trace : List rw_operation) : Prop where
  id : ∃ id < 2 ^ 32, ∀ o ∈ rw_trace, o.id = id
  field : ∀ o ∈ rw_trace, o.field = 0
  address : ∀ o ∈ rw_trace, o.address.toNat < 2 ^ 160
  rw_id : ∀ o ∈ rw_trace, o.rw_id < 2 ^ 32
  distinct : (rw_trace.map (·.rw_id)).Nodup

theorem SortableTrace.chain {rw_trace : List rw_operation} (h : SortableTrace rw_trace) :
    (sort_operations rw_trace).IsChain fun a b => a.sort_key < b.sort_key := by
  have perm := sort_operations_perm rw_trace
  have distinct : ((sort_operations rw_trace).map (·.rw_id)).Nodup :=
    (perm.map _).nodup_iff.mpr h.distinct
  have apart : (sort_operations rw_trace).Pairwise fun a b => a.rw_id ≠ b.rw_id :=
    List.pairwise_map.mp distinct
  obtain ⟨id, small, all⟩ := h.id
  refine List.Pairwise.isChain ?_
  refine ((sort_operations_sorted rw_trace).and apart).imp_of_mem ?_
  intro a b ha hb ⟨le, ne⟩
  have ha' := perm.mem_iff.mp ha
  have hb' := perm.mem_iff.mp hb
  rw [rw_operation.sort_key_lt_iff ((all a ha').trans (all b hb').symm)
    ((all b hb').symm ▸ small) ((h.field a ha').trans (h.field b hb').symm) (h.address a ha') (h.address b hb')
    (h.rw_id a ha') (h.rw_id b hb')]
  refine lt_of_le_of_ne le ?_
  intro same
  simp only [rw_operation.rank, List.cons.injEq] at same
  exact ne same.2.2.2.2.1

/-- Whenever the loop's counter can reach the size of the trace the block is filled, and each of its
rows but the first is proved greater than the row before it. -/
theorem process_rw_operations_sorts {p : Nat} [CharP F p] (wide : 2 ^ 16 ≤ p) {t : Assignment F}
    {rw_trace : List rw_operation} (sortable : SortableTrace rw_trace)
    (unwritten : ∀ i < rw_trace.length,
      t.witness FIELD_TYPE (row_index (start_row_index t) i) = 0) :
    (rw_trace.length < 2 ^ 32 → (process_rw_operations rw_trace t).isSome) ∧
    ∀ t', process_rw_operations rw_trace t = some t' → ∀ i, 1 ≤ i → i < rw_trace.length →
      ∃ d, SortAdvice t' (row_index (start_row_index t) i) (row_index (start_row_index t) (i - 1)) d := by
  have chain := sortable.chain
  have same := (sort_operations_perm rw_trace).length_eq
  have total (short : rw_trace.length < 2 ^ 32) : ∃ t', process_rw_operations rw_trace t = some t' ∧
      ∀ i, 1 ≤ i → i < rw_trace.length → ∃ d,
        SortAdvice t' (row_index (start_row_index t) i) (row_index (start_row_index t) (i - 1)) d := by
    rw [process_rw_operations, if_pos short]
    cases sorted : sort_operations rw_trace with
    | nil =>
      rw [sorted] at same
      refine ⟨t, rfl, ?_⟩
      intro i low high
      simp only [List.length_nil] at same
      omega
    | cons o os =>
      rw [sorted] at chain same
      simp only [List.length_cons] at same
      have head : fill_row t (start_row_index t) 0 o =
          some (t.set_cells (row_index (start_row_index t) 0) (row_cells o)) := rfl
      have first := fill_row_sorts head (unwritten 0 (by omega))
      have field (k : Nat) (low : 0 < k) (high : k ≤ 0 + os.length) :
          (t.set_cells (row_index (start_row_index t) 0) (row_cells o)).witness FIELD_TYPE
            (row_index (start_row_index t) k) = 0 := by
        rw [fill_row_field_type head]
        exact unwritten k (by omega)
      obtain ⟨t', run, advice⟩ := fill_rows_sorts wide first chain field (by omega)
      refine ⟨t', by rw [fill_rows, head]; exact run, ?_⟩
      intro i low high
      exact advice i (by omega) (by omega)
  constructor
  · intro short
    obtain ⟨t', run, _⟩ := total short
    rw [run]
    rfl
  · intro t' run
    have short : rw_trace.length < 2 ^ 32 := by
      by_contra long
      rw [process_rw_operations, if_neg long] at run
      simp at run
    obtain ⟨t'', run', advice⟩ := total short
    obtain rfl := Option.some.inj (run'.symm.trans run)
    exact advice

end

instance prime_65537 : Fact (Nat.Prime 65537) := ⟨by norm_num⟩

/-- The entries of a `PUSH1 1 PUSH1 2 ADD`, in the order in which they are recorded. -/
def add_trace : List rw_operation :=
  [stack_operation 0 0 0 true 1, stack_operation 0 1 1 true 2, stack_operation 0 1 2 false 2,
    stack_operation 0 0 3 false 1, stack_operation 0 0 4 true 3]

theorem process_rw_operations_sorts_add :
    (process_rw_operations add_trace (Assignment.empty : Assignment (ZMod 65537))).isSome ∧
    ∀ t', process_rw_operations add_trace (Assignment.empty : Assignment (ZMod 65537)) = some t' →
      ∀ i, 1 ≤ i → i < 5 → ∃ d, SortAdvice t' (row_index 0 i) (row_index 0 (i - 1)) d := by
  have sortable : SortableTrace add_trace := by
    constructor
    case id => exact ⟨0, by decide, by decide⟩
    case field => decide
    case address => decide
    case rw_id => decide
    case distinct => decide
  have advice := process_rw_operations_sorts (p := 65537) (by norm_num)
    (t := (Assignment.empty : Assignment (ZMod 65537))) sortable (fun _ _ => rfl)
  exact ⟨advice.1 (by decide), advice.2⟩
end EvmAssigner
