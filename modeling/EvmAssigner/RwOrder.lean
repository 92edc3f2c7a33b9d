import Mathlib.Algebra.CharP.Defs
import Mathlib.Data.List.Lex
import Mathlib.Tactic.IntervalCases
import EvmAssigner.Lib.Chunks
import EvmAssigner.Rw

namespace EvmAssigner
open RwTable

namespace rw_operation

/-- The fields `operator<` compares, in its order. -/
def rank (o : rw_operation) : List Nat :=
  [o.op.toNat, o.address.toNat, o.field.toNat, o.storage_key.toNat, o.rw_id]

theorem lt_iff_rank (a b : rw_operation) : a.lt b = true ↔ a.rank < b.rank := by
  simp only [lt, rank, List.cons_lt_cons_iff, List.not_lt_nil, and_false, or_false,
    ← UInt8.toNat_inj, ← BitVec.toNat_inj, ne_eq, ite_not]
  split_ifs <;> simp_all [UInt8.lt_iff_toNat_lt, BitVec.lt_def]

theorem not_lt_iff_rank (a b : rw_operation) : (¬ b.lt a = true) ↔ a.rank ≤ b.rank := by
  rw [lt_iff_rank, not_lt]

/-- The integers in an entry's sorting columns. -/
def sort_key (o : rw_operation) : List Nat :=
  [o.op.toNat] ++ beChunks 16 2 o.id ++ beChunks 16 10 o.address.toNat ++ [0] ++
    beChunks 16 16 o.storage_key.toNat ++ beChunks 16 2 o.rw_id

@[simp] theorem sort_key_length (o : rw_operation) : o.sort_key.length = 32 := by
  simp [sort_key]

theorem sort_key_lt {o : rw_operation} {n : Nat} (member : n ∈ o.sort_key) : n < 2 ^ 16 := by
  simp only [sort_key, List.mem_append, List.mem_singleton] at member
  have op := o.op.toNat_lt
  rcases member with ((((rfl | h) | h) | rfl) | h) | h
  · omega
  · exact beChunks_mem_lt h
  · exact beChunks_mem_lt h
  · omega
  · exact beChunks_mem_lt h
  · exact beChunks_mem_lt h

/-- The fields that the sorting columns are filled from, in the order of the columns. -/
def column_fields (o : rw_operation) : List Nat :=
  [o.op.toNat, o.id, o.address.toNat, o.storage_key.toNat, o.rw_id]

/-- Chunks keep the order of the fields they are cut from. -/
theorem sort_key_lt_fields {a b : rw_operation} (ia : a.id < 2 ^ 32) (ib : b.id < 2 ^ 32)
    (ha : a.address.toNat < 2 ^ 160) (hb : b.address.toNat < 2 ^ 160)
    (ra : a.rw_id < 2 ^ 32) (rb : b.rw_id < 2 ^ 32) :
    a.sort_key < b.sort_key ↔ a.column_fields < b.column_fields := by
  have chunks {n x y : Nat} (hx : x < 2 ^ (16 * n)) (hy : y < 2 ^ (16 * n)) :
      (beChunks 16 n x < beChunks 16 n y ↔ x < y) ∧ (beChunks 16 n x = beChunks 16 n y ↔ x = y) :=
    ⟨beChunks_lt_iff hx hy, fun same => beChunks_injOn hx hy same, fun same => by rw [same]⟩
  obtain ⟨id, id_inj⟩ := chunks (n := 2) ia ib
  obtain ⟨address, address_inj⟩ := chunks (n := 10) ha hb
  obtain ⟨key, key_inj⟩ := chunks (n := 16) a.storage_key.isLt b.storage_key.isLt
  obtain ⟨rw_id, _⟩ := chunks (n := 2) ra rb
  simp only [sort_key, List.append_assoc]
  rw [append_lt_append_iff (by simp), append_lt_append_iff (by simp), append_lt_append_iff (by simp),
    append_lt_append_iff (by simp), append_lt_append_iff (by simp)]
  rw [id, id_inj, address, address_inj, key, key_inj, rw_id]
  simp only [column_fields, List.cons_lt_cons_iff, List.cons.injEq, lt_irrefl, and_true, and_false,
    or_false, false_or, true_and]

/-- Among entries with one id and one field, the sorting columns are in the order of the comparator. -/
theorem sort_key_lt_iff {a b : rw_operation} (id : a.id = b.id) (small : b.id < 2 ^ 32) (field : a.field = b.field)
    (ha : a.address.toNat < 2 ^ 160) (hb : b.address.toNat < 2 ^ 160)
    (ra : a.rw_id < 2 ^ 32) (rb : b.rw_id < 2 ^ 32) : a.sort_key < b.sort_key ↔ a.rank < b.rank := by
  rw [sort_key_lt_fields (id ▸ small) small ha hb ra rb]
  simp only [column_fields, rank, id, field, List.cons_lt_cons_iff, lt_irrefl, true_and, false_or]

end rw_operation

theorem sorting_length : sorting.length = 32 := by decide

/-- Sorting neither loses nor repeats an entry. -/
theorem sort_operations_perm (rw_trace : List rw_operation) :
    (sort_operations rw_trace).Perm rw_trace :=
  List.perm_insertionSort _ _

theorem sort_operations_sorted (rw_trace : List rw_operation) :
    (sort_operations rw_trace).Pairwise fun a b => a.rank ≤ b.rank := by
  have same : (fun a b : rw_operation => ¬ b.lt a = true) = fun a b => a.rank ≤ b.rank := by
    funext a b
    exact propext (rw_operation.not_lt_iff_rank a b)
  have total : Std.Total fun a b : rw_operation => ¬ b.lt a = true := by
    rw [same]
    exact ⟨fun a b => le_total a.rank b.rank⟩
  have trans : IsTrans rw_operation fun a b => ¬ b.lt a = true := by
    rw [same]
    exact ⟨fun _ _ _ => le_trans⟩
  rw [← same]
  exact List.pairwise_insertionSort _ rw_trace

section
variable {F : Type} [Field F]

/-- The sorting columns of `row` hold the sort key of `o`. -/
def RowSorts (t : Assignment F) (row : Nat) (o : rw_operation) : Prop :=
  ∀ cell ∈ sorting.zip o.sort_key, t.witness cell.1 row = (cell.2 : F)

theorem RowSorts.at {t : Assignment F} {row : Nat} {o : rw_operation} (h : RowSorts t row o)
    {d c n : Nat} (at_c : sorting[d]? = some c) (at_n : o.sort_key[d]? = some n) :
    t.witness c row = (n : F) := by
  have member : (c, n) ∈ sorting.zip o.sort_key := by
    refine List.mem_of_getElem? (i := d) ?_
    rw [List.getElem?_zip_eq_some]
    exact ⟨at_c, at_n⟩
  exact h _ member

theorem beChunks_eq_map (w n x : Nat) :
    beChunks w n x = (List.range n).map fun j => x / 2 ^ (w * (n - 1 - j)) % 2 ^ w := by
  apply List.ext_getElem
  · simp
  · intro j hj _
    rw [beChunks_getElem hj]
    simp

theorem row_cells_columns (o : rw_operation) : (row_cells (F := F) o).map Prod.fst =
    [0, 1, 2, 3, 4, 6, 7, 8, 9, 10, 11, 12, 13, 20, 21, 22, 23, 24, 25, 26, 27, 28, 29, 30, 31,
      32, 33, 34, 35, 36, 37, 38, 39, 40, 41, 42, 43, 44, 45, 46, 47, 48, 49] := rfl

theorem row_cells_nodup (o : rw_operation) : ((row_cells (F := F) o).map Prod.fst).Nodup := by
  rw [row_cells_columns]
  decide

theorem low_chunks (x : Nat) : beChunks 16 2 x =
    [((0xffff <<< 16) &&& x) >>> 16, ((0xffff <<< 16) >>> 16) &&& x] := by
  have high := and_mask_shiftRight x 16 16
  have low := and_mask_shiftRight x 16 0
  simp only [Nat.shiftLeft_zero, Nat.shiftRight_zero, pow_zero, Nat.div_one] at low
  rw [Nat.and_comm] at high low
  simp only [beChunks, Nat.mul_one, Nat.mul_zero, pow_zero, Nat.div_one, ← high, ← low]
  rfl

/-- The chunk a loop cuts out of `x` with a mask that moves down by 16 bits each turn. -/
theorem loop_chunk (n x j : Nat) (within : j < n) :
    (x &&& ((0xffff <<< (16 * (n - 1))) >>> (16 * j))) >>> (16 * (n - 1 - j)) =
      x / 2 ^ (16 * (n - 1 - j)) % 2 ^ 16 := by
  have mask : (0xffff <<< (16 * (n - 1))) >>> (16 * j) = (2 ^ 16 - 1) <<< (16 * (n - 1 - j)) := by
    rw [show 16 * (n - 1) = 16 * (n - 1 - j) + 16 * j by omega, Nat.shiftLeft_add,
      Nat.shiftLeft_shiftRight]
    rfl
  rw [mask, and_mask_shiftRight]

/-- Writing an entry's row fills its sorting columns with its sort key. -/
theorem row_cells_sorts (t : Assignment F) (row : Nat) (o : rw_operation)
    (field : t.witness FIELD_TYPE row = 0) : RowSorts (t.set_cells row (row_cells o)) row o := by
  intro cell member
  have written (c : Nat) (v : F) (h : (c, v) ∈ row_cells o) :
      (t.set_cells row (row_cells o)).witness c row = v :=
    Assignment.set_cells_witness t row (row_cells_nodup o) h
  simp only [sorting, rw_operation.sort_key] at member
  rw [List.zip_append (by simp), List.zip_append (by simp), List.zip_append (by simp),
    List.zip_append (by simp), List.zip_append (by simp)] at member
  simp only [List.mem_append] at member
  rcases member with ((((h | h) | h) | h) | h) | h
  · simp only [List.zip_cons_cons, List.zip_nil_right, List.mem_singleton] at h
    subst h
    exact written _ _ (by simp [row_cells])
  · rw [low_chunks] at h
    have cases : cell = (CHUNKS 0, ((0xffff <<< 16) &&& o.id) >>> 16) ∨
        cell = (CHUNKS 1, ((0xffff <<< 16) >>> 16) &&& o.id) := by
      simpa [List.range_succ] using h
    rcases cases with rfl | rfl
    · exact written _ _ (by simp [row_cells])
    · exact written _ _ (by simp [row_cells])
  · rw [beChunks_eq_map, List.zip_map'] at h
    obtain ⟨j, hj, rfl⟩ := List.mem_map.mp h
    have chunk := loop_chunk 10 o.address.toNat j (List.mem_range.mp hj)
    refine written _ _ ?_
    rw [← chunk]
    simp only [row_cells, List.mem_append, List.mem_map]
    exact Or.inl (Or.inl (Or.inr ⟨j, hj, rfl⟩))
  · simp only [List.zip_cons_cons, List.zip_nil_right, List.mem_singleton] at h
    subst h
    have absent : FIELD_TYPE ∉ (row_cells (F := F) o).map Prod.fst := by
      rw [row_cells_columns]
      decide
    simp only [Nat.cast_zero]
    rw [Assignment.set_cells_witness_col _ _ _ absent, field]
  · rw [beChunks_eq_map, List.zip_map'] at h
    obtain ⟨j, hj, rfl⟩ := List.mem_map.mp h
    have chunk := loop_chunk 16 o.storage_key.toNat j (List.mem_range.mp hj)
    refine written _ _ ?_
    rw [← chunk]
    simp only [row_cells, List.mem_append, List.mem_map]
    exact Or.inl (Or.inr ⟨j, hj, rfl⟩)
  · rw [low_chunks] at h
    have cases : cell = (CHUNKS 28, ((0xffff <<< 16) &&& o.rw_id) >>> 16) ∨
        cell = (CHUNKS 29, ((0xffff <<< 16) >>> 16) &&& o.rw_id) := by
      simpa [List.range_succ] using h
    rcases cases with rfl | rfl
    · exact written _ _ (by simp [row_cells])
    · exact written _ _ (by simp [row_cells])

end
end EvmAssigner
