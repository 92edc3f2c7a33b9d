import Mathlib.Algebra.Field.Defs
import Mathlib.Data.List.Sort
import EvmAssigner.Word

namespace EvmAssigner

/-- `rw_operation`: one read or write of the machine's state. -/
structure rw_operation where
  op : UInt8
  id : Nat
  address : Word
  field : UInt8
  storage_key : Word
  rw_id : Nat
  is_write : Bool
  value : Word
  value_prev : Word
  deriving DecidableEq

abbrev START_OP : UInt8 := 0
abbrev STACK_OP : UInt8 := 1
abbrev MEMORY_OP : UInt8 := 2
abbrev STORAGE_OP : UInt8 := 3
abbrev PADDING_OP : UInt8 := 12

namespace rw_operation

/-- `operator<`: op, address, field, storage key, then position in the trace. -/
def lt (a b : rw_operation) : Bool :=
  if a.op ≠ b.op then a.op < b.op
  else if a.address ≠ b.address then a.address < b.address
  else if a.field ≠ b.field then a.field < b.field
  else if a.storage_key ≠ b.storage_key then a.storage_key < b.storage_key
  else if a.rw_id ≠ b.rw_id then a.rw_id < b.rw_id
  else false

end rw_operation

/-- The address is a `uint16_t` parameter. -/
def stack_operation (id : Nat) (address : Nat) (rw_id : Nat) (is_write : Bool) (value : Word) :
    rw_operation :=
  ⟨STACK_OP, id, BitVec.ofNat 256 address, 0, 0, rw_id, is_write, value, 0⟩

def memory_operation (id : Nat) (address : Word) (rw_id : Nat) (is_write : Bool) (value : Word) :
    rw_operation :=
  ⟨MEMORY_OP, id, address, 0, 0, rw_id, is_write, value, 0⟩

def storage_operation (id : Nat) (address storage_key : Word) (rw_id : Nat) (is_write : Bool)
    (value value_prev : Word) : rw_operation :=
  ⟨STORAGE_OP, id, address, 0, storage_key, rw_id, is_write, value, value_prev⟩

/-- The last entry of a trace that writes to `address`. -/
def last_write (op : UInt8) (address : Word) (rw_trace : List rw_operation) : Option rw_operation :=
  rw_trace.reverse.find? fun o => o.op = op ∧ o.is_write ∧ o.address = address

theorem last_write_append (op : UInt8) (address : Word) (rw_trace : List rw_operation)
    (o : rw_operation) : last_write op address (rw_trace ++ [o]) =
      if o.op = op ∧ o.is_write ∧ o.address = address then some o
      else last_write op address rw_trace := by
  unfold last_write
  rw [List.reverse_append, List.reverse_singleton, List.singleton_append, List.find?_cons]
  split
  · rename_i h
    rw [if_pos (of_decide_eq_true h)]
  · rename_i h
    rw [if_neg (of_decide_eq_false h)]

/-- `nil::blueprint::assignment`, of which the repository uses the witness columns: a cell comes
into being when it is written, and reads 0 until then. -/
structure Assignment (F : Type) [Zero F] where
  witness : Nat → Nat → F
  witness_column_size : Nat → Nat
  unwritten : ∀ c r, witness_column_size c ≤ r → witness c r = 0

namespace Assignment
variable {F : Type} [Zero F]

def empty : Assignment F := ⟨fun _ _ => 0, fun _ => 0, fun _ _ _ => rfl⟩

/-- `witness(c, r) = v`. -/
def set (t : Assignment F) (c r : Nat) (v : F) : Assignment F where
  witness c' r' := if c' = c ∧ r' = r then v else t.witness c' r'
  witness_column_size c' :=
    if c' = c then max (t.witness_column_size c') (r + 1) else t.witness_column_size c'
  unwritten c' r' beyond := by
    split at beyond
    · rw [if_neg (by omega)]
      exact t.unwritten c' r' (by omega)
    · rw [if_neg (by tauto)]
      exact t.unwritten c' r' beyond

/-- A sequence of assignments to cells of row `r`. -/
def set_cells (t : Assignment F) (r : Nat) (cells : List (Nat × F)) : Assignment F :=
  cells.foldl (fun t cell => t.set cell.1 r cell.2) t

theorem set_witness (t : Assignment F) (c r : Nat) (v : F) (c' r' : Nat) :
    (t.set c r v).witness c' r' = if c' = c ∧ r' = r then v else t.witness c' r' := rfl

@[simp] theorem set_witness_self (t : Assignment F) (c r : Nat) (v : F) :
    (t.set c r v).witness c r = v := by
  simp [set_witness]

@[simp] theorem set_witness_col {c c' : Nat} (other : c' ≠ c) (t : Assignment F) (r : Nat) (v : F)
    (r' : Nat) : (t.set c r v).witness c' r' = t.witness c' r' := by
  simp [set_witness, other]

@[simp] theorem set_witness_row {r r' : Nat} (other : r' ≠ r) (t : Assignment F) (c : Nat) (v : F)
    (c' : Nat) : (t.set c r v).witness c' r' = t.witness c' r' := by
  simp [set_witness, other]

@[simp] theorem set_cells_nil (t : Assignment F) (r : Nat) : t.set_cells r [] = t := rfl

@[simp] theorem set_cells_cons (t : Assignment F) (r : Nat) (cell : Nat × F)
    (cells : List (Nat × F)) :
    t.set_cells r (cell :: cells) = (t.set cell.1 r cell.2).set_cells r cells := rfl

theorem set_cells_append (t : Assignment F) (r : Nat) (cells cells' : List (Nat × F)) :
    t.set_cells r (cells ++ cells') = (t.set_cells r cells).set_cells r cells' := by
  simp [set_cells, List.foldl_append]

theorem set_cells_witness_row {r r' : Nat} (other : r' ≠ r) (t : Assignment F)
    (cells : List (Nat × F)) (c : Nat) : (t.set_cells r cells).witness c r' = t.witness c r' := by
  induction cells generalizing t with
  | nil => rfl
  | cons cell cells ih => rw [set_cells_cons, ih, set_witness_row other]

theorem set_cells_witness_col {c : Nat} {cells : List (Nat × F)} (t : Assignment F) (r r' : Nat)
    (absent : c ∉ cells.map Prod.fst) : (t.set_cells r cells).witness c r' = t.witness c r' := by
  induction cells generalizing t with
  | nil => rfl
  | cons cell cells ih =>
    simp only [List.map_cons, List.mem_cons, not_or] at absent
    rw [set_cells_cons, ih _ absent.2, set_witness_col absent.1]

/-- When no column is assigned twice, every cell keeps what it was assigned. -/
theorem set_cells_witness {c : Nat} {v : F} {cells : List (Nat × F)} (t : Assignment F) (r : Nat)
    (distinct : (cells.map Prod.fst).Nodup) (member : (c, v) ∈ cells) :
    (t.set_cells r cells).witness c r = v := by
  induction cells generalizing t with
  | nil => simp at member
  | cons cell cells ih =>
    simp only [List.map_cons, List.nodup_cons] at distinct
    rw [set_cells_cons]
    rcases List.mem_cons.mp member with rfl | tail
    · rw [set_cells_witness_col _ _ _ distinct.1, set_witness_self]
    · exact ih _ distinct.2 tail

end Assignment

namespace RwTable

abbrev OP : Nat := 0
abbrev ID : Nat := 1
abbrev ADDRESS : Nat := 2
abbrev STORAGE_KEY_HI : Nat := 3
abbrev STORAGE_KEY_LO : Nat := 4
abbrev FIELD_TYPE : Nat := 5
abbrev RW_ID : Nat := 6
abbrev IS_WRITE : Nat := 7
abbrev VALUE_HI : Nat := 8
abbrev VALUE_LO : Nat := 9
abbrev OP_SELECTORS (j : Nat) : Nat := 10 + j
abbrev INDICES (j : Nat) : Nat := 14 + j
abbrev IS_FIRST : Nat := 19
abbrev CHUNKS (j : Nat) : Nat := 20 + j
abbrev DIFFERENCE : Nat := 50
abbrev INV_DIFFERENCE : Nat := 51
abbrev VALUE_BEFORE_HI : Nat := 52
abbrev VALUE_BEFORE_LO : Nat := 53
abbrev IS_LAST : Nat := 58
abbrev OP_SELECTORS_AMOUNT : Nat := 4
abbrev INDICES_AMOUNT : Nat := 5

/-- The columns by which the circuit orders the rows. -/
def sorting : List Nat :=
  [OP] ++ (List.range 2).map CHUNKS ++ (List.range 10).map (fun j => CHUNKS (2 + j)) ++
    [FIELD_TYPE] ++ (List.range 16).map (fun j => CHUNKS (12 + j)) ++
    (List.range 2).map (fun j => CHUNKS (28 + j))

end RwTable

open RwTable

section
variable {F : Type} [Field F] [DecidableEq F]

/-- The cells of an entry's row that do not depend on the rows around it. The mask starts at the
topmost chunk of a field and moves down by 16 bits with each chunk. -/
def row_cells (o : rw_operation) : List (Nat × F) :=
  [(OP, (o.op.toNat : F)), (ID, (o.id : F)), (ADDRESS, o.address.to_field_as_address),
    (STORAGE_KEY_HI, o.storage_key.w_hi), (STORAGE_KEY_LO, o.storage_key.w_lo),
    (RW_ID, (o.rw_id : F)), (IS_WRITE, if o.is_write then 1 else 0),
    (VALUE_HI, o.value.w_hi), (VALUE_LO, o.value.w_lo)] ++
  (List.range OP_SELECTORS_AMOUNT).map (fun j =>
    (OP_SELECTORS j, if o.op.toNat &&& ((1 <<< OP_SELECTORS_AMOUNT) >>> (j + 1)) = 0 then (0 : F) else 1)) ++
  [(CHUNKS 0, ((((0xffff <<< 16) &&& o.id) >>> 16 : Nat) : F)),
    (CHUNKS 1, ((((0xffff <<< 16) >>> 16) &&& o.id : Nat) : F))] ++
  (List.range 10).map (fun j => (CHUNKS (2 + j),
    (((o.address.toNat &&& ((0xffff <<< (16 * 9)) >>> (16 * j))) >>> (16 * (9 - j)) : Nat) : F))) ++
  (List.range 16).map (fun j => (CHUNKS (12 + j),
    (((o.storage_key.toNat &&& ((0xffff <<< (16 * 15)) >>> (16 * j))) >>> (16 * (15 - j)) : Nat) : F))) ++
  [(CHUNKS 28, ((((0xffff <<< 16) &&& o.rw_id) >>> 16 : Nat) : F)),
    (CHUNKS 29, ((((0xffff <<< 16) >>> 16) &&& o.rw_id : Nat) : F))]

/-- The index into `sorting` of the first column in which two rows differ, 32 if there is none. -/
def diff_ind (t : Assignment F) (row prev : Nat) : Nat :=
  sorting.findIdx fun c => t.witness c row != t.witness c prev

def fill_value_before (t : Assignment F) (row prev diff : Nat) (o : rw_operation) : Assignment F :=
  if diff < 30 then
    t.set_cells row [(VALUE_BEFORE_HI, o.value_prev.w_hi), (VALUE_BEFORE_LO, o.value_prev.w_lo)]
  else
    t.set_cells row [(VALUE_BEFORE_HI, t.witness VALUE_BEFORE_HI prev),
      (VALUE_BEFORE_LO, t.witness VALUE_BEFORE_LO prev)]

def fill_indices (t : Assignment F) (row diff : Nat) : Assignment F :=
  t.set_cells row ((List.range INDICES_AMOUNT).map fun j =>
    (INDICES j, if ((1 <<< INDICES_AMOUNT) >>> (j + 1)) &&& diff = 0 then 0 else 1))

def fill_flags (t : Assignment F) (row prev diff : Nat) (o : rw_operation) : Assignment F :=
  let t := if o.op ≠ START_OP ∧ diff < 30 then t.set IS_LAST prev 1 else t
  if o.op ≠ START_OP ∧ o.op ≠ PADDING_OP ∧ diff < 30 then t.set IS_FIRST row 1 else t

/-- The rows are compared in column `c`. -/
def fill_difference (t : Assignment F) (row prev c : Nat) : Assignment F :=
  let t := t.set DIFFERENCE row (t.witness c row - t.witness c prev)
  t.set INV_DIFFERENCE row
    (if t.witness DIFFERENCE row = 0 then 0 else 1 / t.witness DIFFERENCE row)

/-- The advice columns of `row`, filled by looking back at the row before it. -/
def fill_advice (t : Assignment F) (row prev : Nat) (o : rw_operation) : Option (Assignment F) :=
  let diff := diff_ind t row prev
  let t := fill_flags (fill_indices (fill_value_before t row prev diff o) row diff) row prev diff o
  -- `sorting[diff_ind]` past the end of the vector is undefined behaviour
  sorting[diff]?.map (fill_difference t row prev)

/-- Row numbers are kept in a `uint32_t`. -/
def row_index (start i : Nat) : Nat := (start + i) % 2 ^ 32

/-- One turn of the loop, for the entry at position `i`. -/
def fill_row (t : Assignment F) (start i : Nat) (o : rw_operation) : Option (Assignment F) :=
  let t := t.set_cells (row_index start i) (row_cells o)
  if i = 0 then some t
  else fill_advice t (row_index start i) (row_index start (i - 1)) o

def fill_rows (start : Nat) : Nat → List rw_operation → Assignment F → Option (Assignment F)
  | _, [], t => some t
  | i, o :: os, t => (fill_row t start i o).bind (fill_rows start (i + 1) os)

/-- `std::sort` with `operator<`. -/
def sort_operations (rw_trace : List rw_operation) : List rw_operation :=
  rw_trace.insertionSort fun a b => ¬ b.lt a

/-- The first row of the block that `process_rw_operations` appends. -/
def start_row_index (rw_table : Assignment F) : Nat := rw_table.witness_column_size OP % 2 ^ 32

/-- Without a result when the `uint32_t` loop counter can never reach the size of the trace, or
when two rows agree in every sorting column. -/
def process_rw_operations (rw_trace : List rw_operation) (rw_table : Assignment F) :
    Option (Assignment F) :=
  if rw_trace.length < 2 ^ 32 then
    fill_rows (start_row_index rw_table) 0 (sort_operations rw_trace) rw_table
  else none

end
end EvmAssigner
