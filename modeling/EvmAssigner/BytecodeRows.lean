import Mathlib.Algebra.BigOperators.Intervals
import Mathlib.Algebra.BigOperators.Ring.Finset
import EvmAssigner.Bytecode

namespace EvmAssigner
open BytecodeTable
variable {code : Bytes}

/-- How many data bytes of a `PUSH` are still to come when the sweep is at byte `i`. -/
def countdown (code : Bytes) : Nat → Nat
  | 0 => 0
  | i + 1 => if countdown code i = 0 then push_data (code.getD i 0) else countdown code i - 1

theorem push_data_eq (op : UInt8) : push_data op = if 0x5f < op ∧ op < 0x80 then op.toNat - 0x5f else 0 := by
  have first : OP_PUSH1 ≤ op ↔ 0x5f < op := Iff.rfl
  have last : op ≤ OP_PUSH32 ↔ op < 0x80 := Nat.lt_succ_iff.symm
  simp only [push_data_length, push_length, first, last]

theorem push_data_le (op : UInt8) : push_data op ≤ 32 := by
  rw [push_data_eq]
  split
  · rename_i between
    have upper : op.toNat < 0x80 := between.2
    omega
  · omega

theorem countdown_le (code : Bytes) (i : Nat) : countdown code i ≤ 32 := by
  induction i with
  | zero => exact Nat.zero_le _
  | succ i ih =>
    rw [countdown]
    split
    · exact push_data_le _
    · omega

/-- Behind the data that is still to come, the sweep finds what the whole sweep finds from here on. -/
theorem countdown_sweeps {i k : Nat} (within : i ≤ code.length) :
    Sweeps code (i + countdown code i) k ↔ Sweeps code 0 k ∧ i ≤ k := by
  induction i with
  | zero => simp [countdown]
  | succ i ih =>
    have before := ih (by omega)
    have at_i : code[i]? = some (code.getD i 0) := by
      rw [List.getD_eq_getElem _ _ (by omega), List.getElem?_eq_getElem (by omega)]
    rw [countdown]
    by_cases start : countdown code i = 0
    · rw [start, Nat.add_zero] at before
      rw [if_pos start, show i + 1 + push_data (code.getD i 0) = i + push_data (code.getD i 0) + 1 by omega]
      constructor
      · intro sweep
        have range := sweep.range
        exact ⟨(before.mp ((Sweeps.step_iff at_i).mpr (Or.inr sweep))).1, by omega⟩
      · rintro ⟨sweep, later⟩
        rcases (Sweeps.step_iff at_i).mp (before.mpr ⟨sweep, by omega⟩) with rfl | rest
        · omega
        · exact rest
    · rw [if_neg start, show i + 1 + (countdown code i - 1) = i + countdown code i by omega, before]
      constructor
      · rintro ⟨sweep, later⟩
        have range := (before.mpr ⟨sweep, later⟩).range
        exact ⟨sweep, by omega⟩
      · rintro ⟨sweep, later⟩
        exact ⟨sweep, by omega⟩

theorem countdown_zero_iff {i : Nat} (within : i < code.length) :
    countdown code i = 0 ↔ InstructionStart code i := by
  constructor
  · intro start
    have here : Sweeps code (i + countdown code i) i := by
      rw [start]
      exact .here within
    exact ((countdown_sweeps (by omega)).mp here).1
  · intro sweep
    have range := ((countdown_sweeps (by omega)).mpr ⟨sweep, le_rfl⟩).range
    omega

/-- What the row of the `d`th data byte of an instruction counts. -/
theorem countdown_data {k d : Nat} (start : InstructionStart code k) (data : d ≤ push_data (code.getD k 0)) :
    countdown code (k + d + 1) = push_data (code.getD k 0) - d := by
  induction d with
  | zero =>
    have zero := (countdown_zero_iff start.range.2).mpr start
    rw [Nat.add_zero, countdown, if_pos zero, Nat.sub_zero]
  | succ d ih =>
    have before := ih (by omega)
    rw [show k + (d + 1) + 1 = (k + d + 1) + 1 by omega, countdown, if_neg (by omega), before]
    omega

section
variable {F : Type} [Field F] {hash_hi hash_lo : F} {start : Nat}

/-- A hash in lower-case hexadecimal digits. -/
def hex_digits (hash : Word) : List Char := (beChunks 4 64 hash.toNat).map Nat.digitChar

theorem hex_digit_digitChar {d : Nat} (small : d < 2 ^ 4) : hex_digit (Nat.digitChar d) = d := by
  have all : ∀ d < 2 ^ 4, hex_digit (Nat.digitChar d) = d := by decide
  exact all d small

theorem hash_value_eq (str : List Char) : (hash_value str : F) = (ofBeChunks 4 (str.map hex_digit) : Nat) := by
  induction str using List.reverseRecOn with
  | nil => simp [hash_value, ofBeChunks]
  | append_singleton str c ih =>
    have front : (str.foldl (fun h c => h * 16 + (hex_digit c : F)) 0) = (ofBeChunks 4 (str.map hex_digit) : Nat) := ih
    rw [hash_value, List.foldl_append, List.map_append, List.map_singleton, ofBeChunks_append, front]
    push_cast
    norm_num

/-- The two cells for a hash hold its halves. -/
theorem hash_value_halves (hash : Word) : (hash_value ((hex_digits hash).take 32) : F) * 2 ^ 128 +
    hash_value (((hex_digits hash).drop 32).take 32) = (hash.toNat : F) := by
  have size : (hex_digits hash).length = 64 := by simp [hex_digits]
  have digits : (hex_digits hash).map hex_digit = beChunks 4 64 hash.toNat := by
    rw [hex_digits, List.map_map]
    exact (List.map_congr_left fun d member => hex_digit_digitChar (beChunks_mem_lt member)).trans (List.map_id _)
  have whole : ofBeChunks 4 (((hex_digits hash).take 32).map hex_digit) * 2 ^ 128 +
      ofBeChunks 4 (((hex_digits hash).drop 32).map hex_digit) = hash.toNat := by
    have parts := ofBeChunks_append_append 4 (((hex_digits hash).take 32).map hex_digit)
      (((hex_digits hash).drop 32).map hex_digit)
    rw [← List.map_append, List.take_append_drop, digits, ofBeChunks_beChunks hash.isLt, List.length_map,
      List.length_drop, size] at parts
    exact parts.symm
  have back : ((hex_digits hash).drop 32).take 32 = (hex_digits hash).drop 32 :=
    List.take_of_length_le (by rw [List.length_drop, size])
  rw [back, hash_value_eq, hash_value_eq, ← whole, Nat.cast_add, Nat.cast_mul, Nat.cast_pow, Nat.cast_ofNat]

theorem countdown_cast {p j : Nat} [CharP F p] (wide : 32 < p) :
    (countdown code j : F) = 0 ↔ countdown code j = 0 := by
  have small := countdown_le code j
  rw [CharP.cast_eq_zero_iff F p]
  constructor
  · intro divides
    by_contra positive
    have := Nat.le_of_dvd (by omega) divides
    omega
  · intro zero
    rw [zero]
    exact dvd_zero p

variable [DecidableEq F]

theorem bytecode_rows_append {j : Nat} {front back : Bytes} {s : BytecodeScan F} :
    bytecode_rows hash_hi hash_lo start j (front ++ back) s =
      bytecode_rows hash_hi hash_lo start (j + front.length) back
        (bytecode_rows hash_hi hash_lo start j front s) := by
  induction front generalizing j s with
  | nil => rfl
  | cons byte front ih =>
    rw [List.cons_append, bytecode_rows, ih, bytecode_rows, List.length_cons, Nat.add_assoc, Nat.add_comm 1]

/-- What the loop has come to before byte `n`. -/
def bytecode_scan (hash_hi hash_lo : F) (start : Nat) (code : Bytes) (t : Assignment F) (n : Nat) : BytecodeScan F :=
  bytecode_rows hash_hi hash_lo start 0 (code.take n) { bytecode_table := t }

theorem bytecode_scan_succ {t : Assignment F} {n : Nat} (within : n < code.length) :
    bytecode_scan hash_hi hash_lo start code t (n + 1) = bytecode_row hash_hi hash_lo start n (code.getD n 0)
      (bytecode_scan hash_hi hash_lo start code t n) := by
  rw [bytecode_scan, List.take_succ_eq_append_getElem within, bytecode_rows_append, List.length_take,
    Nat.min_eq_left (by omega), Nat.zero_add, List.getD_eq_getElem _ _ within]
  rfl

/-- Rows that are apart are left alone by those behind them. -/
theorem bytecode_scan_kept {t : Assignment F} {c j n : Nat} (later : j + 1 ≤ n) (within : n ≤ code.length)
    (narrow : n ≤ 2 ^ 32) :
    (bytecode_scan hash_hi hash_lo start code t n).bytecode_table.witness c (row_index start j) =
      (bytecode_scan hash_hi hash_lo start code t (j + 1)).bytecode_table.witness c (row_index start j) := by
  induction n, later using Nat.le_induction with
  | base => rfl
  | succ n later ih =>
    have apart : row_index start j ≠ row_index start n := by
      intro same
      have := row_index_inj (by omega) (by omega) same
      omega
    rw [bytecode_scan_succ (by omega), bytecode_row_other apart, ih (by omega) (by omega)]

/-- What the loop carries behind byte `j`. -/
structure Scanned (code : Bytes) (j : Nat) (s : BytecodeScan F) : Prop where
  prev_length : j ≤ (code.getD 0 0).toNat → s.prev_length = (code.getD 0 0).toNat - j
  prev_vrlc : s.prev_vrlc = ∑ k ∈ Finset.Icc 1 j, ((code.getD k 0).toNat : F) * 15 ^ (j - k)
  push_size : s.push_size = (countdown code.tail j : F)

theorem scanned_header {s : BytecodeScan F} :
    Scanned code 0 (bytecode_row hash_hi hash_lo start 0 (code.getD 0 0) s) :=
  ⟨fun _ => rfl, rfl, by simp [bytecode_row, countdown]⟩

theorem bytecode_row_header {byte : UInt8} {s s' : BytecodeScan F} {cell : Nat × F}
    (turn : s' = bytecode_row hash_hi hash_lo start 0 byte s)
    (member : cell ∈ shared_cells hash_hi hash_lo byte ++ header_cells byte) :
    s'.bytecode_table.witness cell.1 (row_index start 0) = cell.2 := by
  subst turn
  rw [bytecode_row, if_pos rfl, ← shared_cells, ← Assignment.set_cells_append]
  exact Assignment.set_cells_witness _ _ (by decide : [2, 6, 7, 9, 0, 1, 3, 4, 5, 8].Nodup) member

theorem bytecode_row_byte {byte : UInt8} {j : Nat} {s s' : BytecodeScan F} {cell : Nat × F}
    (turn : s' = bytecode_row hash_hi hash_lo start (j + 1) byte s)
    (member : cell ∈ shared_cells hash_hi hash_lo byte ++
      byte_cells (j + 1) s'.prev_length (s.push_size = 0) s'.push_size s'.prev_vrlc) :
    s'.bytecode_table.witness cell.1 (row_index start (j + 1)) = cell.2 := by
  have cells : s'.bytecode_table = s.bytecode_table.set_cells (row_index start (j + 1))
      (shared_cells hash_hi hash_lo byte ++
        byte_cells (j + 1) s'.prev_length (s.push_size = 0) s'.push_size s'.prev_vrlc) := by
    rw [turn, Assignment.set_cells_append, bytecode_row, if_neg (Nat.succ_ne_zero j)]
    rfl
  rw [cells]
  exact Assignment.set_cells_witness _ _ (by decide : [2, 6, 7, 9, 0, 1, 5, 3, 4, 8].Nodup) member

theorem bytecode_row_shared {byte : UInt8} {j : Nat} {s s' : BytecodeScan F} {cell : Nat × F}
    (turn : s' = bytecode_row hash_hi hash_lo start j byte s) (member : cell ∈ shared_cells hash_hi hash_lo byte) :
    s'.bytecode_table.witness cell.1 (row_index start j) = cell.2 := by
  cases j with
  | zero => exact bytecode_row_header turn (List.mem_append_left _ member)
  | succ j => exact bytecode_row_byte turn (List.mem_append_left _ member)

theorem bytecode_row_tag {byte : UInt8} {j : Nat} {s : BytecodeScan F} (later : j ≠ 0) :
    (bytecode_row hash_hi hash_lo start j byte s).bytecode_table.witness TAG (row_index start j) = 1 := by
  obtain ⟨j, rfl⟩ := Nat.exists_eq_succ_of_ne_zero later
  obtain ⟨s', turn⟩ : ∃ s', s' = bytecode_row hash_hi hash_lo start (j + 1) byte s := ⟨_, rfl⟩
  have member : (TAG, (1 : F)) ∈ shared_cells hash_hi hash_lo byte ++
      byte_cells (j + 1) s'.prev_length (s.push_size = 0) s'.push_size s'.prev_vrlc := by
    simp [byte_cells, shared_cells]
  rw [← turn]
  exact bytecode_row_byte turn member

/-- The numbers of rows wrap around, and then the header is written over. -/
theorem bytecode_scan_wraps {t : Assignment F} {n : Nat} (many : 2 ^ 32 + 1 ≤ n) (within : n ≤ code.length) :
    (bytecode_scan hash_hi hash_lo start code t n).bytecode_table.witness TAG (row_index start 0) = 1 := by
  induction n, many using Nat.le_induction with
  | base =>
    have wraps : row_index start 0 = row_index start (2 ^ 32) := by
      unfold row_index
      omega
    rw [bytecode_scan_succ (by omega), wraps]
    exact bytecode_row_tag (by omega)
  | succ n many ih =>
    rw [bytecode_scan_succ (by omega)]
    by_cases same : row_index start 0 = row_index start n
    · rw [same]
      exact bytecode_row_tag (by omega)
    · rw [bytecode_row_other same]
      exact ih (by omega)

theorem process_bytecode_input_scan [Crypto3] {hash : Bytes → Word} {t : Assignment F}
    (rendered : ∀ data, Crypto3.keccak_1600 data = hex_digits (hash data)) :
    process_bytecode_input code.length (fun i => code.getD i 0) t =
      (bytecode_scan (hash_value ((hex_digits (hash code)).take 32))
        (hash_value (((hex_digits (hash code)).drop 32).take 32)) (t.witness_column_size VALUE % 2 ^ 32) code t
        code.length).bytecode_table := by
  have bytes : (List.range code.length).map (fun i => code.getD i 0) = code := by
    refine List.ext_getElem (by simp) fun i _ within => ?_
    rw [List.getElem_map, List.getElem_range, List.getD_eq_getElem _ _ within]
  have size : (hex_digits (hash code)).length = 64 := by simp [hex_digits]
  rw [process_bytecode_input, bytes, rendered, size, bytecode_scan, List.take_length]

/-- The header row, which the first byte is taken for. -/
structure HeaderRow (t : Assignment F) (row : Nat) (code : Bytes) : Prop where
  tag : t.witness TAG row = 0
  index : t.witness INDEX row = 0
  is_opcode : t.witness IS_OPCODE row = 0
  push_size : t.witness PUSH_SIZE row = 0
  length_left : t.witness LENGTH_LEFT row = ((code.getD 0 0).toNat : F)
  value_rlc : t.witness VALUE_RLC row = 0

/-- The row of byte `j`, behind the header. The sweep is that of the bytes behind the first. -/
structure CodeRow (t : Assignment F) (row : Nat) (code : Bytes) (j : Nat) : Prop where
  tag : t.witness TAG row = 1
  index : t.witness INDEX row = ((j - 1 : Nat) : F)
  value : t.witness VALUE row = ((code.getD j 0).toNat : F)
  length_left : j ≤ (code.getD 0 0).toNat → t.witness LENGTH_LEFT row = (((code.getD 0 0).toNat - j : Nat) : F)
  is_opcode : t.witness IS_OPCODE row = 1 ↔ InstructionStart code.tail (j - 1)
  push_size : ∀ k d : Nat, InstructionStart code.tail k → d ≤ push_data (code.tail.getD k 0) → j - 1 = k + d →
    t.witness PUSH_SIZE row = ((push_data (code.tail.getD k 0) - d : Nat) : F)
  value_rlc : t.witness VALUE_RLC row = ∑ k ∈ Finset.Icc 1 j, ((code.getD k 0).toNat : F) * 15 ^ (j - k)

/-- The rows from `start` on are those of the code, and `hash` is in each of them. -/
structure BytecodeBlock (t : Assignment F) (start : Nat) (code : Bytes) (hash : Word) : Prop where
  header : HeaderRow t (row_index start 0) code
  bytes : ∀ j, 1 ≤ j → j < code.length → CodeRow t (row_index start j) code j
  hash : ∀ j < code.length, t.witness HASH_HI (row_index start j) * 2 ^ 128 + t.witness HASH_LO (row_index start j) =
    (hash.toNat : F)

theorem bytecode_block_narrow [Crypto3] {hash : Bytes → Word} {t : Assignment F}
    (rendered : ∀ data, Crypto3.keccak_1600 data = hex_digits (hash data))
    (block : BytecodeBlock (process_bytecode_input code.length (fun i => code.getD i 0) t)
      (t.witness_column_size VALUE % 2 ^ 32) code (hash code)) : code.length ≤ 2 ^ 32 := by
  by_contra long
  have tag := block.header.tag
  rw [process_bytecode_input_scan rendered, bytecode_scan_wraps (by omega) le_rfl] at tag
  exact one_ne_zero tag

variable {p : Nat} [CharP F p] (wide : 32 < p)
include wide

theorem Scanned.turn {j : Nat} {s : BytecodeScan F} (scanned : Scanned code j s) :
    Scanned code (j + 1) (bytecode_row hash_hi hash_lo start (j + 1) (code.getD (j + 1) 0) s) := by
  have tail : code.tail.getD j 0 = code.getD (j + 1) 0 := by cases code <;> rfl
  rw [bytecode_row, if_neg (Nat.succ_ne_zero j)]
  constructor
  · intro more
    have length := scanned.prev_length (by omega)
    have small := (code.getD 0 0).toNat_lt
    simp only [length]
    omega
  · have shifted : (∑ k ∈ Finset.Icc 1 j, ((code.getD k 0).toNat : F) * 15 ^ (j - k)) * 15 =
        ∑ k ∈ Finset.Icc 1 j, ((code.getD k 0).toNat : F) * 15 ^ (j + 1 - k) := by
      rw [Finset.sum_mul]
      refine Finset.sum_congr rfl fun k member => ?_
      have upper := (Finset.mem_Icc.mp member).2
      rw [show j + 1 - k = (j - k) + 1 by omega, pow_succ, mul_assoc]
    rw [Finset.sum_Icc_succ_top (by omega), Nat.sub_self, pow_zero, mul_one, ← shifted, ← scanned.prev_vrlc]
  · simp only [scanned.push_size, countdown_cast wide]
    rw [countdown, tail, push_data_eq]
    by_cases none : countdown code.tail j = 0
    · rw [if_pos none, if_pos none, apply_ite (Nat.cast : Nat → F), Nat.cast_zero]
    · rw [if_neg none, if_neg none, Nat.cast_sub (by omega), Nat.cast_one]

theorem scanned_scan {t : Assignment F} {j : Nat} (within : j < code.length) :
    Scanned code j (bytecode_scan hash_hi hash_lo start code t (j + 1)) := by
  induction j with
  | zero =>
    rw [bytecode_scan_succ within]
    exact scanned_header
  | succ j ih =>
    rw [bytecode_scan_succ within]
    exact (ih (by omega)).turn wide

theorem code_row_of_turn {j : Nat} {s s' : BytecodeScan F} {t : Assignment F} (within : j + 1 < code.length)
    (scanned : Scanned code j s) (scanned' : Scanned code (j + 1) s')
    (turn : s' = bytecode_row hash_hi hash_lo start (j + 1) (code.getD (j + 1) 0) s)
    (same : ∀ c, t.witness c (row_index start (j + 1)) = s'.bytecode_table.witness c (row_index start (j + 1))) :
    CodeRow t (row_index start (j + 1)) code (j + 1) := by
  have size : code.tail.length = code.length - 1 := List.length_tail
  have cell (c : Nat) (v : F) (member : (c, v) ∈ shared_cells hash_hi hash_lo (code.getD (j + 1) 0) ++
      byte_cells (j + 1) s'.prev_length (s.push_size = 0) s'.push_size s'.prev_vrlc) :
      t.witness c (row_index start (j + 1)) = v := by
    rw [same]
    exact bytecode_row_byte turn member
  have at_opcode := cell IS_OPCODE (if decide (s.push_size = 0) = true then 1 else 0)
    (by simp [byte_cells, shared_cells])
  have at_push := cell PUSH_SIZE s'.push_size (by simp [byte_cells, shared_cells])
  constructor
  · exact cell TAG 1 (by simp [byte_cells, shared_cells])
  · exact cell INDEX _ (by simp [byte_cells, shared_cells])
  · exact cell VALUE _ (by simp [byte_cells, shared_cells])
  · intro more
    rw [cell LENGTH_LEFT s'.prev_length (by simp [byte_cells, shared_cells]), scanned'.prev_length more]
  · have start_iff : countdown code.tail j = 0 ↔ InstructionStart code.tail j := countdown_zero_iff (by omega)
    rw [at_opcode, Nat.add_sub_cancel, ← start_iff, scanned.push_size]
    simp [countdown_cast wide]
  · intro k d first data place
    rw [at_push, scanned'.push_size, ← countdown_data first data]
    congr 2
    omega
  · rw [cell VALUE_RLC s'.prev_vrlc (by simp [byte_cells, shared_cells]), scanned'.prev_vrlc]

/-- The rows are those of the code just as long as their numbers do not wrap around. -/
theorem bytecode_block_iff [Crypto3] {hash : Bytes → Word}
    (rendered : ∀ data, Crypto3.keccak_1600 data = hex_digits (hash data)) (nonempty : code ≠ []) (t : Assignment F) :
    BytecodeBlock (process_bytecode_input code.length (fun i => code.getD i 0) t)
      (t.witness_column_size VALUE % 2 ^ 32) code (hash code) ↔ code.length ≤ 2 ^ 32 := by
  refine ⟨bytecode_block_narrow rendered, fun narrow => ?_⟩
  have positive := List.length_pos_iff.mpr nonempty
  rw [process_bytecode_input_scan rendered]
  generalize t.witness_column_size VALUE % 2 ^ 32 = start
  obtain ⟨hash_hi, hi⟩ : ∃ v : F, v = hash_value ((hex_digits (hash code)).take 32) := ⟨_, rfl⟩
  obtain ⟨hash_lo, lo⟩ : ∃ v : F, v = hash_value (((hex_digits (hash code)).drop 32).take 32) := ⟨_, rfl⟩
  have halves : hash_hi * 2 ^ 128 + hash_lo = ((hash code).toNat : F) := by
    rw [hi, lo]
    exact hash_value_halves _
  rw [← hi, ← lo]
  have kept {j : Nat} (within : j < code.length) (c : Nat) :
      (bytecode_scan hash_hi hash_lo start code t code.length).bytecode_table.witness c (row_index start j) =
        (bytecode_scan hash_hi hash_lo start code t (j + 1)).bytecode_table.witness c (row_index start j) :=
    bytecode_scan_kept within le_rfl narrow
  have header (cell : Nat × F) (member : cell ∈ shared_cells hash_hi hash_lo (code.getD 0 0) ++
      header_cells (code.getD 0 0)) : (bytecode_scan hash_hi hash_lo start code t
        code.length).bytecode_table.witness cell.1 (row_index start 0) = cell.2 := by
    rw [kept positive]
    exact bytecode_row_header (bytecode_scan_succ positive) member
  refine ⟨⟨header (TAG, 0) ?_, header (INDEX, 0) ?_, header (IS_OPCODE, 0) ?_, header (PUSH_SIZE, 0) ?_,
    header (LENGTH_LEFT, _) ?_, header (VALUE_RLC, 0) ?_⟩, fun j later within => ?_, fun j within => ?_⟩
  · simp [header_cells]
  · simp [header_cells]
  · simp [header_cells]
  · simp [header_cells]
  · simp [header_cells]
  · simp [header_cells]
  · obtain ⟨i, rfl⟩ : ∃ i, j = i + 1 := ⟨j - 1, by omega⟩
    exact code_row_of_turn wide within (scanned_scan wide (by omega)) (scanned_scan wide within)
      (bytecode_scan_succ within) (kept within)
  · have shared (cell : Nat × F) (member : cell ∈ shared_cells hash_hi hash_lo (code.getD j 0)) :
        (bytecode_scan hash_hi hash_lo start code t code.length).bytecode_table.witness cell.1
          (row_index start j) = cell.2 := by
      rw [kept within]
      exact bytecode_row_shared (bytecode_scan_succ within) member
    rw [← halves, shared (HASH_HI, hash_hi) (by simp [shared_cells]),
      shared (HASH_LO, hash_lo) (by simp [shared_cells])]

end

/-- The hash of a byte 3 and `PUSH1 0x5b; STOP`, whatever is hashed. -/
abbrev push_hash : Bytes → Word := fun _ => 0xf3ef31e26d3ac61e11c2d4c67639cca2bc98d271c513491b37904676338741d4

theorem bytecode_block_push : BytecodeBlock (@process_bytecode_input (ZMod 65537) _ _
    ⟨fun data => hex_digits (push_hash data)⟩ 4 (fun i => [0x03, 0x60, 0x5b, 0x00].getD i 0) Assignment.empty) 0
    [0x03, 0x60, 0x5b, 0x00] (push_hash [0x03, 0x60, 0x5b, 0x00]) :=
  (@bytecode_block_iff [0x03, 0x60, 0x5b, 0x00] (ZMod 65537) _ _ 65537 _ (by decide)
    ⟨fun data => hex_digits (push_hash data)⟩ push_hash (fun _ => rfl) (by decide) Assignment.empty).mpr (by decide)

/-- The header of a code of `2 ^ 32 + 1` zeros is lost. -/
theorem bytecode_block_wraps : ¬ BytecodeBlock (@process_bytecode_input (ZMod 65537) _ _
    ⟨fun data => hex_digits (push_hash data)⟩ (List.replicate (2 ^ 32 + 1) (0 : UInt8)).length
    (fun i => (List.replicate (2 ^ 32 + 1) 0).getD i 0) Assignment.empty) 0
    (List.replicate (2 ^ 32 + 1) 0) (push_hash (List.replicate (2 ^ 32 + 1) 0)) := by
  intro block
  have narrow := @bytecode_block_narrow (List.replicate (2 ^ 32 + 1) 0) (ZMod 65537) _ _
    ⟨fun data => hex_digits (push_hash data)⟩ push_hash Assignment.empty (fun _ => rfl) block
  rw [List.length_replicate] at narrow
  omega

end EvmAssigner
