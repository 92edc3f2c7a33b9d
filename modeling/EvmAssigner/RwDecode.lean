import Mathlib.Order.Lattice.Nat
import Mathlib.NumberTheory.LucasLehmer
import EvmAssigner.RwBlock

namespace EvmAssigner
open RwTable

/-- What a row of the table says of an entry. -/
@[ext] structure RwEntry where
  op : Nat
  id : Nat
  address : Nat
  storage_key : Nat
  rw_id : Nat
  is_write : Bool
  value : Nat

def rw_operation.entry (o : rw_operation) : RwEntry :=
  ⟨o.op.toNat, o.id, o.address.toNat, o.storage_key.toNat, o.rw_id, o.is_write, o.value.toNat⟩

/-- The widths the table has room for. -/
structure rw_operation.Fits (o : rw_operation) : Prop where
  op : o.op < 16
  id : o.id < 2 ^ 32
  address : o.address.toNat < 2 ^ 160
  rw_id : o.rw_id < 2 ^ 32

/-- What tells the entries of one trace apart. -/
def rw_operation.row_key (o : rw_operation) : UInt8 × Nat × Word × Word × Nat :=
  (o.op, o.id, o.address, o.storage_key, o.rw_id)

/-- Entries that fit the table, no two of which have all their sorting columns in common. -/
structure Recordable (rw_trace : List rw_operation) : Prop where
  fits : ∀ o ∈ rw_trace, o.Fits
  distinct : (rw_trace.map (·.row_key)).Nodup

section
variable {F : Type} [Field F]

/-- The least number a cell can stand for. -/
noncomputable def cell_value (x : F) : Nat := sInf {n : Nat | (n : F) = x}

theorem cell_value_cast {p n : Nat} [CharP F p] (small : n < p) : cell_value (n : F) = n := by
  have member : n ∈ {m : Nat | (m : F) = (n : F)} := rfl
  have least : (cell_value (n : F) : F) = n := Nat.sInf_mem ⟨n, member⟩
  have le : cell_value (n : F) ≤ n := Nat.sInf_le member
  exact CharP.natCast_injOn_Iio F p (lt_of_le_of_lt le small) small least

/-- The entry in the cells that hold whole fields, or halves of them. -/
noncomputable def read_entry [DecidableEq F] (t : Assignment F) (row : Nat) : RwEntry where
  op := cell_value (t.witness OP row)
  id := cell_value (t.witness ID row)
  address := cell_value (t.witness ADDRESS row)
  storage_key := ofBeChunks 128 [cell_value (t.witness STORAGE_KEY_HI row), cell_value (t.witness STORAGE_KEY_LO row)]
  rw_id := cell_value (t.witness RW_ID row)
  is_write := t.witness IS_WRITE row = 1
  value := ofBeChunks 128 [cell_value (t.witness VALUE_HI row), cell_value (t.witness VALUE_LO row)]

/-- The chunks of a field, or its selectors. -/
noncomputable def read_columns (t : Assignment F) (row w n : Nat) (column : Nat → Nat) : Nat :=
  ofBeChunks w ((List.range n).map fun j => cell_value (t.witness (column j) row))

/-- The second encoding of the fields agrees with the first one. -/
structure EncodingsAgree [DecidableEq F] (t : Assignment F) (row : Nat) : Prop where
  op : read_columns t row 1 4 OP_SELECTORS = (read_entry t row).op
  id : read_columns t row 16 2 (fun j => CHUNKS (0 + j)) = (read_entry t row).id
  address : read_columns t row 16 10 (fun j => CHUNKS (2 + j)) = (read_entry t row).address
  storage_key : read_columns t row 16 16 (fun j => CHUNKS (12 + j)) = (read_entry t row).storage_key
  rw_id : read_columns t row 16 2 (fun j => CHUNKS (28 + j)) = (read_entry t row).rw_id

/-- The row was written for the entry. -/
def HoldsRow (t : Assignment F) (row : Nat) (o : rw_operation) : Prop :=
  ∀ cell ∈ row_cells o, t.witness cell.1 row = cell.2

theorem Word.w_hi_eq (x : Word) : (x.w_hi : F) = ((x.toNat / 2 ^ 128 : Nat) : F) := by
  have wide := x.isLt
  rw [Word.w_hi, Word.to_uint64_limb, Word.to_uint64_limb, Nat.shiftLeft_eq]
  congr 1
  omega

theorem Word.w_lo_eq (x : Word) : (x.w_lo : F) = ((x.toNat % 2 ^ 128 : Nat) : F) := by
  rw [Word.w_lo, Word.to_uint64_limb, Word.to_uint64_limb, Nat.shiftLeft_eq]
  congr 1
  omega

theorem Word.to_field_as_address_eq {x : Word} (small : x.toNat < 2 ^ 160) :
    (x.to_field_as_address : F) = ((x.toNat : Nat) : F) := by
  rw [Word.to_field_as_address, Word.to_uint64_limb, Word.to_uint64_limb, Word.to_uint64_limb,
    Nat.shiftLeft_eq, Nat.shiftLeft_eq]
  congr 1
  omega

theorem chunks_sorting {j : Nat} (within : j < 30) : CHUNKS j ∈ sorting := by
  have all : ∀ j < 30, CHUNKS j ∈ sorting := by decide
  exact all j within

theorem selectors_op {n : Nat} (small : n < 256) : ofBeChunks 1 ((List.range 4).map fun j =>
    if n &&& ((1 <<< OP_SELECTORS_AMOUNT) >>> (j + 1)) = 0 then 0 else 1) = n % 16 := by
  have all : ∀ n < 256, ofBeChunks 1 ((List.range 4).map fun j =>
      if n &&& ((1 <<< OP_SELECTORS_AMOUNT) >>> (j + 1)) = 0 then 0 else 1) = n % 16 := by
    decide +kernel
  exact all n small

variable {t t' : Assignment F} {row p : Nat} {o : rw_operation} [CharP F p] (wide : 2 ^ 160 ≤ p)
include wide

theorem HoldsRow.cell (holds : HoldsRow t row o) {c n : Nat} (member : (c, (n : F)) ∈ row_cells o)
    (small : n < 2 ^ 160) : cell_value (t.witness c row) = n := by
  have cell := holds _ member
  rw [show t.witness c row = (n : F) from cell, cell_value_cast (p := p) (by omega)]

theorem HoldsRow.halves (holds : HoldsRow t row o) {hi lo : Nat} {x : Word}
    (at_hi : (hi, (x.w_hi : F)) ∈ row_cells o) (at_lo : (lo, (x.w_lo : F)) ∈ row_cells o) :
    ofBeChunks 128 [cell_value (t.witness hi row), cell_value (t.witness lo row)] = x.toNat := by
  have wide_x := x.isLt
  rw [Word.w_hi_eq] at at_hi
  rw [Word.w_lo_eq] at at_lo
  rw [holds.cell wide at_hi (by omega), holds.cell wide at_lo (by omega)]
  simp only [ofBeChunks, List.foldl_cons, List.foldl_nil]
  omega

theorem HoldsRow.read_entry [DecidableEq F] (holds : HoldsRow t row o) (fits : o.Fits) :
    read_entry t row = o.entry := by
  have op := o.op.toNat_lt
  have id := fits.id
  have rw_id := fits.rw_id
  ext1
  · have cell : (OP, (o.op.toNat : F)) ∈ row_cells o := by simp [row_cells]
    have small : o.op.toNat < 2 ^ 160 := by omega
    exact holds.cell wide cell small
  · have cell : (ID, (o.id : F)) ∈ row_cells o := by simp [row_cells]
    have small : o.id < 2 ^ 160 := by omega
    exact holds.cell wide cell small
  · have cell : (ADDRESS, (o.address.toNat : F)) ∈ row_cells o := by
      rw [← Word.to_field_as_address_eq fits.address]
      simp [row_cells]
    exact holds.cell wide cell fits.address
  · exact holds.halves wide (by simp [row_cells]) (by simp [row_cells])
  · have cell : (RW_ID, (o.rw_id : F)) ∈ row_cells o := by simp [row_cells]
    have small : o.rw_id < 2 ^ 160 := by omega
    exact holds.cell wide cell small
  · have written : t.witness IS_WRITE row = if o.is_write then 1 else 0 :=
      holds (IS_WRITE, if o.is_write then 1 else 0) (by simp [row_cells])
    show decide (t.witness IS_WRITE row = 1) = o.is_write
    rw [written]
    cases o.is_write <;> simp
  · exact holds.halves wide (by simp [row_cells]) (by simp [row_cells])

theorem HoldsRow.read_chunks (holds : HoldsRow t row o) {n x : Nat} {column : Nat → Nat}
    (chunks : ∀ j < n, (column j, ((x / 2 ^ (16 * (n - 1 - j)) % 2 ^ 16 : Nat) : F)) ∈ row_cells o)
    (small : x < 2 ^ (16 * n)) : read_columns t row 16 n column = x := by
  have cells : ((List.range n).map fun j => cell_value (t.witness (column j) row)) = beChunks 16 n x := by
    rw [beChunks_eq_map]
    refine List.map_congr_left fun j member => ?_
    exact holds.cell wide (chunks j (List.mem_range.mp member)) (by omega)
  rw [read_columns, cells, ofBeChunks_beChunks small]

/-- The selectors keep four bits of `op`. -/
theorem HoldsRow.read_selectors (holds : HoldsRow t row o) :
    read_columns t row 1 4 OP_SELECTORS = o.op.toNat % 16 := by
  rw [← selectors_op o.op.toNat_lt]
  refine congrArg (ofBeChunks 1) (List.map_congr_left fun j member => ?_)
  refine holds.cell wide ?_ (by split <;> omega)
  simp only [row_cells, List.mem_append, List.mem_map]
  refine Or.inl (Or.inl (Or.inl (Or.inl (Or.inr ⟨j, member, ?_⟩))))
  split <;> simp

/-- A field of 32 bits, whose two chunks are cut out without a loop. -/
theorem HoldsRow.read_low_chunks (holds : HoldsRow t row o) {x c : Nat}
    (upper : (CHUNKS c, ((((0xffff <<< 16) &&& x) >>> 16 : Nat) : F)) ∈ row_cells o)
    (lower : (CHUNKS (c + 1), ((((0xffff <<< 16) >>> 16) &&& x : Nat) : F)) ∈ row_cells o)
    (small : x < 2 ^ 32) : read_columns t row 16 2 (fun j => CHUNKS (c + j)) = x := by
  have chunks := low_chunks x
  simp only [beChunks, List.cons.injEq, and_true] at chunks
  rw [← chunks.1] at upper
  rw [← chunks.2] at lower
  refine holds.read_chunks wide ?_ small
  intro j within
  interval_cases j
  · exact upper
  · exact lower

theorem HoldsRow.read_address (holds : HoldsRow t row o) (fits : o.Fits) :
    read_columns t row 16 10 (fun j => CHUNKS (2 + j)) = o.address.toNat := by
  refine holds.read_chunks wide ?_ fits.address
  intro j within
  rw [← loop_chunk 10 o.address.toNat j within]
  simp only [row_cells, List.mem_append, List.mem_map]
  exact Or.inl (Or.inl (Or.inr ⟨j, List.mem_range.mpr within, rfl⟩))

theorem HoldsRow.read_storage_key (holds : HoldsRow t row o) :
    read_columns t row 16 16 (fun j => CHUNKS (12 + j)) = o.storage_key.toNat := by
  refine holds.read_chunks wide ?_ o.storage_key.isLt
  intro j within
  rw [← loop_chunk 16 o.storage_key.toNat j within]
  simp only [row_cells, List.mem_append, List.mem_map]
  exact Or.inl (Or.inr ⟨j, List.mem_range.mpr within, rfl⟩)

theorem HoldsRow.read_id (holds : HoldsRow t row o) (fits : o.Fits) :
    read_columns t row 16 2 (fun j => CHUNKS (0 + j)) = o.id :=
  holds.read_low_chunks wide (by simp [row_cells]) (by simp [row_cells]) fits.id

theorem HoldsRow.read_rw_id (holds : HoldsRow t row o) (fits : o.Fits) :
    read_columns t row 16 2 (fun j => CHUNKS (28 + j)) = o.rw_id :=
  holds.read_low_chunks wide (by simp [row_cells]) (by simp [row_cells]) fits.rw_id

theorem HoldsRow.agree [DecidableEq F] (holds : HoldsRow t row o) (fits : o.Fits) :
    EncodingsAgree t row := by
  constructor
  · rw [holds.read_selectors wide, holds.read_entry wide fits]
    exact Nat.mod_eq_of_lt fits.op
  · rw [holds.read_id wide fits, holds.read_entry wide fits]
    rfl
  · rw [holds.read_address wide fits, holds.read_entry wide fits]
    rfl
  · rw [holds.read_storage_key wide, holds.read_entry wide fits]
    rfl
  · rw [holds.read_rw_id wide fits, holds.read_entry wide fits]
    rfl

/-- Rows that agree in every sorting column are of entries with one key. -/
theorem HoldsRow.row_key_eq [DecidableEq F] {row' : Nat} {o' : rw_operation} (holds : HoldsRow t row o)
    (holds' : HoldsRow t row' o') (fits : o.Fits) (fits' : o'.Fits)
    (same : ∀ c ∈ sorting, t.witness c row = t.witness c row') : o.row_key = o'.row_key := by
  have columns {w n k : Nat} (within : k + n ≤ 30) : read_columns t row w n (fun j => CHUNKS (k + j)) =
      read_columns t row' w n (fun j => CHUNKS (k + j)) := by
    refine congrArg (ofBeChunks w) (List.map_congr_left fun j member => ?_)
    have small := List.mem_range.mp member
    rw [same _ (chunks_sorting (by omega))]
  have op : o.entry.op = o'.entry.op := by
    rw [← holds.read_entry wide fits, ← holds'.read_entry wide fits']
    show cell_value (t.witness OP row) = cell_value (t.witness OP row')
    rw [same OP (by decide)]
  have id := columns (w := 16) (n := 2) (k := 0) (by omega)
  have address := columns (w := 16) (n := 10) (k := 2) (by omega)
  have key := columns (w := 16) (n := 16) (k := 12) (by omega)
  have rw_id := columns (w := 16) (n := 2) (k := 28) (by omega)
  rw [holds.read_id wide fits, holds'.read_id wide fits'] at id
  rw [holds.read_address wide fits, holds'.read_address wide fits'] at address
  rw [holds.read_storage_key wide, holds'.read_storage_key wide] at key
  rw [holds.read_rw_id wide fits, holds'.read_rw_id wide fits'] at rw_id
  simp only [rw_operation.row_key, Prod.mk.injEq]
  exact ⟨UInt8.toNat_inj.mp op, id, BitVec.eq_of_toNat_eq address, BitVec.eq_of_toNat_eq key, rw_id⟩
end

section
variable {F : Type} [Field F] [DecidableEq F] {t t' : Assignment F}

omit [DecidableEq F] in
theorem row_cells_kept {o : rw_operation} {cell : Nat × F} (member : cell ∈ row_cells o) :
    cell.1 < 14 ∨ 20 ≤ cell.1 ∧ cell.1 < 50 := by
  have all : ∀ c ∈ (row_cells (F := F) o).map Prod.fst, c < 14 ∨ 20 ≤ c ∧ c < 50 := by
    rw [row_cells_columns]
    decide
  exact all cell.1 (List.mem_map_of_mem member)

omit [DecidableEq F] in
theorem row_cells_hold (t : Assignment F) (row : Nat) (o : rw_operation) :
    HoldsRow (t.set_cells row (row_cells o)) row o := by
  intro cell member
  exact Assignment.set_cells_witness t row (row_cells_nodup o) member

theorem fill_row_holds {start i : Nat} {o : rw_operation} (run : fill_row t start i o = some t') :
    HoldsRow t' (row_index start i) o := by
  have written := row_cells_hold t (row_index start i) o
  cases i with
  | zero =>
    obtain rfl := Option.some.inj run
    exact written
  | succ k =>
    rw [fill_row_succ] at run
    obtain ⟨_, _, spec⟩ := fill_advice_spec (row_index_succ_ne start k) run
    intro cell member
    rw [spec.kept _ (row_cells_kept member)]
    exact written cell member

/-- Later turns leave a row that was written as it is. -/
theorem HoldsRow.fill_rows {start i k : Nat} {o : rw_operation} {os : List rw_operation}
    (holds : HoldsRow t (row_index start k) o) (run : fill_rows start i os t = some t')
    (earlier : k < i) (bound : i + os.length ≤ 2 ^ 32) : HoldsRow t' (row_index start k) o := by
  intro cell member
  have columns := row_cells_kept member
  have notLast : cell.1 ≠ IS_LAST := by simp only [IS_LAST]; omega
  rw [fill_rows_other run ?_ (Or.inr (Or.inr notLast))]
  · exact holds cell member
  · intro j low high same
    have := row_index_inj (by omega) (by omega) same
    omega

omit [DecidableEq F] in
theorem Assignment.set_cells_size {c : Nat} {cells : List (Nat × F)} (t : Assignment F) (row : Nat)
    (absent : c ∉ cells.map Prod.fst) :
    (t.set_cells row cells).witness_column_size c = t.witness_column_size c := by
  induction cells generalizing t with
  | nil => rfl
  | cons cell cells ih =>
    simp only [List.map_cons, List.mem_cons, not_or] at absent
    rw [Assignment.set_cells_cons, ih _ absent.2]
    exact if_neg absent.1

omit [DecidableEq F] in
theorem row_cells_size (t : Assignment F) (row : Nat) (o : rw_operation) :
    (t.set_cells row (row_cells o)).witness_column_size OP =
      max (t.witness_column_size OP) (row + 1) := by
  have nodup := row_cells_nodup (F := F) o
  have first : row_cells (F := F) o = (OP, (o.op.toNat : F)) :: (row_cells o).tail := rfl
  rw [first, List.map_cons, List.nodup_cons] at nodup
  rw [first, Assignment.set_cells_cons, Assignment.set_cells_size _ _ nodup.1]
  simp [Assignment.set]

theorem fill_advice_size {row prev : Nat} {o : rw_operation} (run : fill_advice t row prev o = some t') :
    t'.witness_column_size OP = t.witness_column_size OP := by
  obtain ⟨c, _, rfl⟩ := Option.map_eq_some_iff.mp run
  have before (d : Nat) : (fill_value_before t row prev d o).witness_column_size OP =
      t.witness_column_size OP := by
    unfold fill_value_before
    split <;> exact Assignment.set_cells_size _ _ (by simp)
  have indices (t : Assignment F) (d : Nat) : (fill_indices t row d).witness_column_size OP =
      t.witness_column_size OP := by
    refine Assignment.set_cells_size _ _ ?_
    rw [List.map_map]
    simp
  have flags (t : Assignment F) (d : Nat) : (fill_flags t row prev d o).witness_column_size OP =
      t.witness_column_size OP := by
    unfold fill_flags
    split_ifs <;> rfl
  have difference (t : Assignment F) : (fill_difference t row prev c).witness_column_size OP =
      t.witness_column_size OP := rfl
  rw [difference, flags, indices, before]

theorem fill_row_size {start i : Nat} {o : rw_operation} (run : fill_row t start i o = some t') :
    t'.witness_column_size OP = max (t.witness_column_size OP) (row_index start i + 1) := by
  cases i with
  | zero =>
    obtain rfl := Option.some.inj run
    exact row_cells_size t _ o
  | succ k =>
    rw [fill_row_succ] at run
    rw [fill_advice_size run, row_cells_size]

theorem fill_rows_size {start i : Nat} {os : List rw_operation}
    (run : fill_rows start i os t = some t') (size : t.witness_column_size OP = start + i)
    (bound : start + i + os.length < 2 ^ 32) :
    t'.witness_column_size OP = start + i + os.length := by
  induction os generalizing i t with
  | nil =>
    obtain rfl := Option.some.inj run
    exact size
  | cons o os ih =>
    obtain ⟨t1, step, rest⟩ := Option.bind_eq_some_iff.mp run
    simp only [List.length_cons] at bound ⊢
    have size1 : t1.witness_column_size OP = start + (i + 1) := by
      rw [fill_row_size step, size, row_index]
      omega
    rw [ih rest size1 (by omega)]
    omega

theorem fill_advice_returns {row prev : Nat} (o : rw_operation)
    (differ : ∃ c ∈ sorting, t.witness c row ≠ t.witness c prev) :
    ∃ t', fill_advice t row prev o = some t' := by
  have found : diff_ind t row prev < sorting.length := by
    rw [diff_ind, List.findIdx_lt_length]
    simpa using differ
  simp only [fill_advice, List.getElem?_eq_getElem found]
  exact ⟨_, rfl⟩

/-- An entry is not written next to itself. -/
theorem fill_row_repeats {start i : Nat} {o : rw_operation} (holds : HoldsRow t (row_index start i) o)
    (field : t.witness FIELD_TYPE (row_index start i) = t.witness FIELD_TYPE (row_index start (i + 1))) :
    fill_row t start (i + 1) o = none := by
  have apart := row_index_succ_ne start i
  have written := row_cells_hold t (row_index start (i + 1)) o
  have columns : ∀ c ∈ sorting, c = FIELD_TYPE ∨ c ∈ (row_cells (F := F) o).map Prod.fst := by
    rw [row_cells_columns]
    decide
  have same : ∀ c ∈ sorting, (t.set_cells (row_index start (i + 1)) (row_cells o)).witness c (row_index start (i + 1)) =
      (t.set_cells (row_index start (i + 1)) (row_cells o)).witness c (row_index start i) := by
    intro c member
    rw [Assignment.set_cells_witness_row apart]
    rcases columns c member with rfl | inside
    · have absent : FIELD_TYPE ∉ (row_cells (F := F) o).map Prod.fst := by
        rw [row_cells_columns]
        decide
      rw [Assignment.set_cells_witness_col _ _ _ absent, field]
    · obtain ⟨cell, in_row, rfl⟩ := List.mem_map.mp inside
      rw [written cell in_row, holds cell in_row]
  have last : diff_ind (t.set_cells (row_index start (i + 1)) (row_cells o))
      (row_index start (i + 1)) (row_index start i) = sorting.length := by
    rw [diff_ind, List.findIdx_eq_length]
    intro c member
    simpa using same c member
  rw [fill_row_succ, fill_advice, last, List.getElem?_eq_none le_rfl]
  rfl

/-- From a row that was written on, entries whose keys differ from the one before are all written. -/
theorem fill_rows_holds {start i p : Nat} {a : rw_operation} {os : List rw_operation} [CharP F p]
    (wide : 2 ^ 160 ≤ p) (last : HoldsRow t (row_index start i) a)
    (fits : ∀ o ∈ a :: os, o.Fits) (chain : (a :: os).IsChain fun a b => a.row_key ≠ b.row_key)
    (bound : i + os.length < 2 ^ 32) :
    ∃ t', fill_rows start (i + 1) os t = some t' ∧
      ∀ k o, (a :: os)[k]? = some o → HoldsRow t' (row_index start (i + k)) o := by
  induction os generalizing t i a with
  | nil =>
    refine ⟨t, rfl, ?_⟩
    intro k o found
    obtain ⟨short, rfl⟩ := List.getElem?_eq_some_iff.mp found
    obtain rfl : k = 0 := by simpa using short
    exact last
  | cons o os ih =>
    obtain ⟨differ, chain'⟩ := List.isChain_cons_cons.mp chain
    simp only [List.length_cons] at bound
    have apart := row_index_succ_ne start i
    have written := row_cells_hold t (row_index start (i + 1)) o
    have kept : HoldsRow (t.set_cells (row_index start (i + 1)) (row_cells o)) (row_index start i) a := by
      intro cell member
      rw [Assignment.set_cells_witness_row apart]
      exact last cell member
    obtain ⟨t1, step⟩ : ∃ t1, fill_row t start (i + 1) o = some t1 := by
      rw [fill_row_succ]
      refine fill_advice_returns o ?_
      by_contra same
      push Not at same
      exact differ (written.row_key_eq wide kept (fits o (by simp)) (fits a (by simp)) same).symm
    obtain ⟨t', run, rows⟩ := ih (fill_row_holds step)
      (fun b member => fits b (List.mem_cons_of_mem a member)) chain' (by omega)
    have whole : fill_rows start (i + 1) (o :: os) t = some t' := by
      rw [fill_rows, step]
      exact run
    refine ⟨t', whole, ?_⟩
    intro k b found
    cases k with
    | zero =>
      obtain rfl := Option.some.inj found
      exact last.fill_rows whole (by omega) (by simp only [List.length_cons]; omega)
    | succ k =>
      rw [show i + (k + 1) = i + 1 + k by omega]
      exact rows k b found

/-- What one call does to the table. -/
structure Appends (t t' : Assignment F) (rw_trace : List rw_operation) : Prop where
  rows : t'.witness_column_size OP = t.witness_column_size OP + rw_trace.length
  earlier : ∀ c r, r < t.witness_column_size OP → t'.witness c r = t.witness c r
  entries : ((List.range rw_trace.length).map fun i => read_entry t' (t.witness_column_size OP + i)).Perm
    (rw_trace.map (·.entry))
  agree : ∀ i < rw_trace.length, EncodingsAgree t' (t.witness_column_size OP + i)

theorem fill_rows_from_start {start p : Nat} {os : List rw_operation} [CharP F p] (wide : 2 ^ 160 ≤ p)
    (fits : ∀ o ∈ os, o.Fits) (chain : os.IsChain fun a b => a.row_key ≠ b.row_key)
    (bound : os.length < 2 ^ 32) : ∃ t', fill_rows start 0 os t = some t' ∧
      ∀ k o, os[k]? = some o → HoldsRow t' (row_index start k) o := by
  cases os with
  | nil =>
    refine ⟨t, rfl, ?_⟩
    intro k o found
    simp at found
  | cons o os =>
    simp only [List.length_cons] at bound
    have head : fill_row t start 0 o = some (t.set_cells (row_index start 0) (row_cells o)) := rfl
    obtain ⟨t', run, rows⟩ := fill_rows_holds wide (fill_row_holds head) fits chain (by omega)
    refine ⟨t', by rw [fill_rows, head]; exact run, ?_⟩
    intro k b found
    have held := rows k b found
    rwa [Nat.zero_add] at held

theorem process_rw_operations_appends {p : Nat} [CharP F p] (wide : 2 ^ 160 ≤ p) (t : Assignment F)
    {rw_trace : List rw_operation} (recordable : Recordable rw_trace)
    (bound : t.witness_column_size OP + rw_trace.length < 2 ^ 32) :
    ∃ t', process_rw_operations rw_trace t = some t' ∧ Appends t t' rw_trace := by
  have perm := sort_operations_perm rw_trace
  have length := perm.length_eq
  have fits (o : rw_operation) (member : o ∈ sort_operations rw_trace) : o.Fits :=
    recordable.fits o (perm.mem_iff.mp member)
  have distinct : (sort_operations rw_trace).Pairwise fun a b => a.row_key ≠ b.row_key :=
    List.pairwise_map.mp ((perm.map _).nodup_iff.mpr recordable.distinct)
  have start : start_row_index t = t.witness_column_size OP := Nat.mod_eq_of_lt (by omega)
  obtain ⟨t', run, rows⟩ :=
    @fill_rows_from_start F _ _ t (start_row_index t) p _ _ wide fits distinct.isChain (by omega)
  have held (i : Nat) (small : i < (sort_operations rw_trace).length) :
      HoldsRow t' (t.witness_column_size OP + i) (sort_operations rw_trace)[i] := by
    have row := rows i _ (List.getElem?_eq_getElem small)
    rwa [row_index, start, Nat.mod_eq_of_lt (by omega)] at row
  refine ⟨t', by rw [process_rw_operations, if_pos (by omega)]; exact run, ?_⟩
  constructor
  case rows =>
    rw [fill_rows_size run start.symm (by omega), start, length]
    omega
  case earlier =>
    intro c r old
    refine fill_rows_other run ?_ (Or.inl rfl)
    intro k low high
    rw [row_index, start]
    omega
  case entries =>
    have read : (List.range rw_trace.length).map (fun i => read_entry t' (t.witness_column_size OP + i)) =
        (sort_operations rw_trace).map (·.entry) := by
      apply List.ext_getElem
      · simp [length]
      · intro i left right
        rw [List.length_map] at right
        rw [List.getElem_map, List.getElem_map, List.getElem_range]
        exact (held i right).read_entry wide (fits _ (List.getElem_mem right))
    rw [read]
    exact perm.map _
  case agree =>
    intro i small
    exact (held i (by omega)).agree wide (fits _ (List.getElem_mem (by omega)))

/-- The calls made for one table, one frame's trace after the other. -/
def record_all : List (List rw_operation) → Assignment F → Option (Assignment F)
  | [], t => some t
  | rw_trace :: traces, t => (process_rw_operations rw_trace t).bind (record_all traces)

theorem record_all_append (traces traces' : List (List rw_operation)) (t : Assignment F) :
    record_all (traces ++ traces') t = (record_all traces t).bind (record_all traces') := by
  induction traces generalizing t with
  | nil => rfl
  | cons rw_trace traces ih =>
    simp only [List.cons_append, record_all]
    cases process_rw_operations rw_trace t with
    | none => rfl
    | some t1 => exact ih t1

theorem record_all_returns {p : Nat} [CharP F p] (wide : 2 ^ 160 ≤ p) (t : Assignment F)
    {traces : List (List rw_operation)} (recordable : ∀ rw_trace ∈ traces, Recordable rw_trace)
    (bound : t.witness_column_size OP + (traces.map (·.length)).sum < 2 ^ 32) :
    ∃ t', record_all traces t = some t' ∧
      t'.witness_column_size OP = t.witness_column_size OP + (traces.map (·.length)).sum ∧
      ∀ c r, r < t.witness_column_size OP → t'.witness c r = t.witness c r := by
  induction traces generalizing t with
  | nil => exact ⟨t, rfl, rfl, fun _ _ _ => rfl⟩
  | cons rw_trace traces ih =>
    simp only [List.map_cons, List.sum_cons] at bound ⊢
    obtain ⟨t1, run, appends⟩ :=
      process_rw_operations_appends wide t (recordable rw_trace (by simp)) (by omega)
    have rows := appends.rows
    obtain ⟨t', rest, size, kept⟩ :=
      ih t1 (fun tr member => recordable tr (List.mem_cons_of_mem rw_trace member)) (by omega)
    refine ⟨t', by rw [record_all, run]; exact rest, by omega, ?_⟩
    intro c r old
    rw [kept c r (by omega), appends.earlier c r old]

/-- Every call of a sequence appends its block, and the block is still there in the end. -/
theorem rw_table_lossless {p : Nat} [CharP F p] (wide : 2 ^ 160 ≤ p) (t : Assignment F)
    (traces : List (List rw_operation)) (recordable : ∀ rw_trace ∈ traces, Recordable rw_trace)
    (bound : t.witness_column_size OP + (traces.map (·.length)).sum < 2 ^ 32) :
    ∃ t', record_all traces t = some t' ∧ ∀ done rw_trace rest, traces = done ++ rw_trace :: rest →
      ∃ before after, record_all done t = some before ∧
        process_rw_operations rw_trace before = some after ∧ record_all rest after = some t' ∧
        Appends before after rw_trace ∧
        ∀ c r, r < after.witness_column_size OP → t'.witness c r = after.witness c r := by
  obtain ⟨t', run, _⟩ := record_all_returns wide t recordable bound
  refine ⟨t', run, ?_⟩
  rintro done rw_trace rest rfl
  simp only [List.map_append, List.map_cons, List.sum_append, List.sum_cons] at bound
  have early : ∀ tr ∈ done, Recordable tr := fun tr member => recordable tr (by simp [member])
  have late : ∀ tr ∈ rest, Recordable tr := fun tr member => recordable tr (by simp [member])
  obtain ⟨before, prior, size, _⟩ := record_all_returns wide t early (by omega)
  obtain ⟨after, call, appends⟩ :=
    process_rw_operations_appends wide before (recordable rw_trace (by simp)) (by omega)
  have rows := appends.rows
  obtain ⟨final, later, _, kept⟩ := record_all_returns wide after late (by omega)
  have whole : record_all (done ++ rw_trace :: rest) t = some final := by
    rw [record_all_append, prior, Option.bind_some, record_all, call, Option.bind_some, later]
  obtain rfl := Option.some.inj (whole.symm.trans run)
  exact ⟨before, after, prior, call, later, appends, kept⟩

end

/-- A prime field with room for every number the table holds. -/
@[irreducible] def wide_prime : Nat := mersenne 521

instance wide_prime_prime : Fact (Nat.Prime wide_prime) := by
  unfold wide_prime
  exact ⟨lucas_lehmer_sufficiency _ (by simp) (by norm_num)⟩

theorem wide_prime_wide : 2 ^ 160 ≤ wide_prime := by
  have below := Nat.pow_lt_pow_right Nat.one_lt_two (show 160 < 521 by decide)
  have next := succ_mersenne 521
  unfold wide_prime
  omega

/-- Two frames, the second of which reads a slot. -/
theorem rw_table_lossless_two_frames :
    ∃ t' : Assignment (ZMod wide_prime),
      record_all [add_trace, [storage_operation 0 7 9 0 false 5 0]] Assignment.empty = some t' ∧
      ∀ done rw_trace rest,
        [add_trace, [storage_operation 0 7 9 0 false 5 0]] = done ++ rw_trace :: rest →
        ∃ before after, record_all done Assignment.empty = some before ∧
          process_rw_operations rw_trace before = some after ∧ record_all rest after = some t' ∧
          Appends before after rw_trace ∧
          ∀ c r, r < after.witness_column_size OP → t'.witness c r = after.witness c r := by
  refine rw_table_lossless wide_prime_wide Assignment.empty _ ?_ ?_
  · intro rw_trace member
    have fits : ∀ rw_trace ∈ [add_trace, [storage_operation 0 7 9 0 false 5 0]], ∀ o ∈ rw_trace,
        o.op < 16 ∧ o.id < 2 ^ 32 ∧ o.address.toNat < 2 ^ 160 ∧ o.rw_id < 2 ^ 32 := by decide
    have distinct : ∀ rw_trace ∈ [add_trace, [storage_operation 0 7 9 0 false 5 0]],
        (rw_trace.map (·.row_key)).Nodup := by decide
    constructor
    · intro o inside
      obtain ⟨op, id, address, rw_id⟩ := fits rw_trace member o inside
      exact ⟨op, id, address, rw_id⟩
    · exact distinct rw_trace member
  · show 0 + _ < _
    decide

/-- An entry whose `op` has more than four bits, an entry that is in its trace twice, and an entry
for a table whose row numbers no longer fit into a `uint32_t`. -/
theorem rw_table_loses :
    (∃ t' : Assignment (ZMod wide_prime),
      process_rw_operations [⟨16, 0, 0, 0, 0, 0, false, 0, 0⟩] Assignment.empty = some t' ∧
      ¬ EncodingsAgree t' 0) ∧
    process_rw_operations [stack_operation 0 0 0 true 1, stack_operation 0 0 0 true 1]
      (Assignment.empty : Assignment (ZMod wide_prime)) = none ∧
    ∃ t t' : Assignment (ZMod wide_prime), t.witness_column_size OP = 2 ^ 32 ∧
      process_rw_operations [stack_operation 0 0 0 true 1] t = some t' ∧
      t'.witness_column_size OP = 2 ^ 32 := by
  refine ⟨⟨_, rfl, ?_⟩, ?_, ?_⟩
  · intro agree
    have holds := row_cells_hold (Assignment.empty : Assignment (ZMod wide_prime)) 0
      ⟨16, 0, 0, 0, 0, 0, false, 0, 0⟩
    have op := holds.cell wide_prime_wide (c := OP) (n := 16) (by simp [row_cells]) (by omega)
    have selectors := holds.read_selectors wide_prime_wide
    have same : 16 % 16 = 16 := selectors.symm.trans (agree.op.trans op)
    exact absurd same (by decide)
  · have again := @fill_row_repeats _ _ _ _ 0 0 _ (row_cells_hold (Assignment.empty :
      Assignment (ZMod wide_prime)) (row_index 0 0) (stack_operation 0 0 0 true 1)) (by
        rw [Assignment.set_cells_witness_col _ _ _ (by rw [row_cells_columns]; decide)]
        rfl)
    have sorted : sort_operations [stack_operation 0 0 0 true 1, stack_operation 0 0 0 true 1] =
        [stack_operation 0 0 0 true 1, stack_operation 0 0 0 true 1] := by decide
    rw [process_rw_operations, if_pos (by decide), sorted]
    show (fill_row (Assignment.set_cells _ (row_index 0 0) _) 0 (0 + 1) _).bind _ = none
    rw [again]
    rfl
  · refine ⟨⟨fun _ _ => 0, fun _ => 2 ^ 32, fun _ _ _ => rfl⟩, _, rfl, rfl, ?_⟩
    exact row_cells_size _ _ _

end EvmAssigner
