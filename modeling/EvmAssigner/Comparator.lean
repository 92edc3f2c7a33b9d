import EvmAssigner.RwDecode

namespace EvmAssigner
open RwTable

section
variable {F : Type} [Field F]

/-- What the loop leaves in the sorting columns of a row that it writes for an entry. -/
noncomputable def sorting_tuple (t : Assignment F) (row : Nat) (o : rw_operation) : List Nat :=
  sorting.map fun c => cell_value ((t.set_cells row (row_cells o)).witness c row)

theorem sorting_tuple_eq {p : Nat} [CharP F p] (wide : 2 ^ 16 ≤ p) {t : Assignment F} {row : Nat} {o : rw_operation}
    (unwritten : t.witness_column_size FIELD_TYPE ≤ row) : sorting_tuple t row o = o.sort_key := by
  have sorts := row_cells_sorts t row o (t.unwritten _ _ unwritten)
  apply List.ext_getElem
  · simp [sorting_tuple, sorting_length]
  · intro d within within'
    have listed : d < sorting.length := by simpa [sorting_tuple] using within
    have at_c : sorting[d]? = some sorting[d] := List.getElem?_eq_getElem listed
    have at_n : o.sort_key[d]? = some (o.sort_key[d]) := List.getElem?_eq_getElem within'
    have small : o.sort_key[d] < p := lt_of_lt_of_le (rw_operation.sort_key_lt (List.getElem_mem within')) wide
    simp only [sorting_tuple, List.getElem_map]
    exact (congrArg cell_value (sorts.at at_c at_n)).trans (cell_value_cast small)

end

/-- The comparator leaves out the id, and the columns leave out the field: with the same op, both orders are
the same where the addresses decide among entries of one id, where the fields do not, or where what is left
out points the way of what is compared. -/
def OrdersAgree (a b : rw_operation) : Prop :=
  a.op ≠ b.op ∨
    (a.id = b.id ∧ (a.address ≠ b.address ∨ a.field = b.field ∨
      (a.field < b.field ↔ [a.storage_key.toNat, a.rw_id] < [b.storage_key.toNat, b.rw_id]))) ∨
    (a.id ≠ b.id ∧ (a.id < b.id ↔ a.rank.tail < b.rank.tail))

instance {a b : rw_operation} : Decidable (OrdersAgree a b) := inferInstanceAs (Decidable (_ ∨ _))

theorem orders_agree_iff {a b : rw_operation} :
    (a.rank < b.rank ↔ a.column_fields < b.column_fields) ↔ OrdersAgree a b := by
  simp only [OrdersAgree, rw_operation.rank, rw_operation.column_fields, List.tail_cons, List.cons_lt_cons_iff,
    List.not_lt_nil, and_false, or_false, ← BitVec.toNat_inj, ne_eq, ← UInt8.toNat_inj, UInt8.lt_iff_toNat_lt]
  generalize a.op.toNat = o, b.op.toNat = o', a.address.toNat = x, b.address.toNat = x', a.field.toNat = f,
    b.field.toNat = f', a.storage_key.toNat = k, b.storage_key.toNat = k', a.id = i, b.id = i', a.rw_id = r,
    b.rw_id = r'
  omega

/-- The comparator orders two entries as their rows are ordered. -/
theorem comparator_orders_iff {F : Type} [Field F] {p : Nat} [CharP F p] (wide : 2 ^ 16 ≤ p) (t : Assignment F)
    (row row' : Nat) (unwritten : t.witness_column_size FIELD_TYPE ≤ row)
    (unwritten' : t.witness_column_size FIELD_TYPE ≤ row') (a b : rw_operation) (fa : a.Fits) (fb : b.Fits) :
    (a.lt b = true ↔ sorting_tuple t row a < sorting_tuple t row' b) ↔ OrdersAgree a b := by
  rw [sorting_tuple_eq wide unwritten, sorting_tuple_eq wide unwritten', rw_operation.lt_iff_rank,
    rw_operation.sort_key_lt_fields fa.id fb.id fa.address fb.address fa.rw_id fb.rw_id]
  exact orders_agree_iff

/-- Two entries of one frame. -/
theorem comparator_orders_frame :
    let t : Assignment (ZMod 65537) := Assignment.empty
    (stack_operation 0 1 7 true 5).lt (stack_operation 0 2 3 true 5) = true ↔
      sorting_tuple t 0 (stack_operation 0 1 7 true 5) < sorting_tuple t 1 (stack_operation 0 2 3 true 5) :=
  (comparator_orders_iff (p := 65537) (by norm_num) Assignment.empty 0 1 (by decide) (by decide) _ _
    ⟨by decide, by decide, by decide, by decide⟩ ⟨by decide, by decide, by decide, by decide⟩).mpr (by decide)

/-- Of two entries with ids 1 and 0 the comparator puts the one with the smaller address first, the columns
the one with the smaller id. -/
theorem comparator_ignores_id :
    let t : Assignment (ZMod 65537) := Assignment.empty
    ¬ ((stack_operation 1 0 0 true 5).lt (stack_operation 0 1 0 true 5) = true ↔
      sorting_tuple t 0 (stack_operation 1 0 0 true 5) < sorting_tuple t 1 (stack_operation 0 1 0 true 5)) := by
  intro t
  rw [sorting_tuple_eq (p := 65537) (by norm_num) (by decide), sorting_tuple_eq (p := 65537) (by norm_num) (by decide)]
  decide

end EvmAssigner
