import EvmAssigner.Analysis
import EvmAssigner.RwGroups

namespace EvmAssigner

/-- `nil::crypto3::hash` with `keccak_1600<256>`, as a string of hexadecimal digits. -/
class Crypto3 where
  keccak_1600 : Bytes → List Char

namespace BytecodeTable

abbrev TAG : Nat := 0
abbrev INDEX : Nat := 1
abbrev VALUE : Nat := 2
abbrev IS_OPCODE : Nat := 3
abbrev PUSH_SIZE : Nat := 4
abbrev LENGTH_LEFT : Nat := 5
abbrev HASH_HI : Nat := 6
abbrev HASH_LO : Nat := 7
abbrev VALUE_RLC : Nat := 8
abbrev RLC_CHALLENGE : Nat := 9

end BytecodeTable

open BytecodeTable

section
variable {F : Type} [Field F] [DecidableEq F]

def hex_digit (c : Char) : Nat :=
  if '0' ≤ c ∧ c ≤ '9' then c.toNat - '0'.toNat else c.toNat - 'a'.toNat + 10

/-- A hexadecimal string as a field element. -/
def hash_value (str : List Char) : F := str.foldl (fun h c => h * 16 + (hex_digit c : F)) 0

/-- What `process_bytecode_input` carries from byte to byte. -/
structure BytecodeScan (F : Type) [Zero F] where
  bytecode_table : Assignment F
  prev_length : Nat := 0
  prev_vrlc : F := 0
  push_size : F := 0

def header_cells (byte : UInt8) : List (Nat × F) :=
  [(TAG, 0), (INDEX, 0), (IS_OPCODE, 0), (PUSH_SIZE, 0), (LENGTH_LEFT, (byte.toNat : F)),
    (VALUE_RLC, 0)]

def byte_cells (j length_left : Nat) (is_opcode : Bool) (push_size vrlc : F) : List (Nat × F) :=
  [(TAG, 1), (INDEX, ((j - 1 : Nat) : F)), (LENGTH_LEFT, (length_left : F)),
    (IS_OPCODE, if is_opcode then 1 else 0), (PUSH_SIZE, push_size), (VALUE_RLC, vrlc)]

/-- The row of byte `j`, of which the first is taken for the header. -/
def bytecode_row (hash_hi hash_lo : F) (start_row_index j : Nat) (byte : UInt8)
    (s : BytecodeScan F) : BytecodeScan F :=
  let rlc_challenge : F := 15
  let row := row_index start_row_index j
  let table := s.bytecode_table.set_cells row [(VALUE, (byte.toNat : F)), (HASH_HI, hash_hi),
    (HASH_LO, hash_lo), (RLC_CHALLENGE, rlc_challenge)]
  if j = 0 then
    { bytecode_table := table.set_cells row (header_cells byte)
      prev_length := byte.toNat
      prev_vrlc := 0
      push_size := 0 }
  else
    -- a `size_t`
    let length_left : Nat := (s.prev_length + (2 ^ 64 - 1)) % 2 ^ 64
    let push_size :=
      if s.push_size = 0 then
        if 0x5f < byte ∧ byte < 0x80 then ((byte.toNat - 0x5f : Nat) : F) else 0
      else s.push_size - 1
    let vrlc := s.prev_vrlc * rlc_challenge + (byte.toNat : F)
    { bytecode_table := table.set_cells row
        (byte_cells j length_left (s.push_size = 0) push_size vrlc)
      prev_length := length_left
      prev_vrlc := vrlc
      push_size := push_size }

/-- The cells of every row. -/
def shared_cells (hash_hi hash_lo : F) (byte : UInt8) : List (Nat × F) :=
  [(VALUE, (byte.toNat : F)), (HASH_HI, hash_hi), (HASH_LO, hash_lo), (RLC_CHALLENGE, 15)]

def bytecode_rows (hash_hi hash_lo : F) (start_row_index : Nat) :
    Nat → Bytes → BytecodeScan F → BytecodeScan F
  | _, [], s => s
  | j, byte :: bytecode, s =>
    bytecode_rows hash_hi hash_lo start_row_index (j + 1) bytecode
      (bytecode_row hash_hi hash_lo start_row_index j byte s)

/-- `code` is the memory behind the pointer. -/
def process_bytecode_input [Crypto3] (original_code_size : Nat) (code : Nat → UInt8)
    (bytecode_table : Assignment F) : Assignment F :=
  let bytecode := (List.range original_code_size).map code
  let hash := Crypto3.keccak_1600 bytecode
  let hash_hi := hash_value (hash.take (hash.length - 32))
  let hash_lo := hash_value ((hash.drop (hash.length - 32)).take 32)
  let start_row_index := bytecode_table.witness_column_size VALUE % 2 ^ 32
  (bytecode_rows hash_hi hash_lo start_row_index 0 bytecode
    { bytecode_table := bytecode_table }).bytecode_table

/-- A row of the block that stands for `code[j] = byte`. -/
structure ByteRow (t : Assignment F) (start_row_index : Nat) (code : Bytes) (j : Nat) (byte : UInt8)
    (row : Nat) : Prop where
  in_block : ∃ i < code.length, row = row_index start_row_index i
  tag : t.witness TAG row = 1
  index : t.witness INDEX row = (j : F)
  value : t.witness VALUE row = (byte.toNat : F)

/-- There is one row for each byte, and it tells opcodes from push data as the sweep does. -/
def BytecodeAgrees (t : Assignment F) (start_row_index : Nat) (code : Bytes) : Prop :=
  ∀ (j : Nat) (byte : UInt8), code[j]? = some byte →
    (∃! row, ByteRow t start_row_index code j byte row) ∧
    ∀ row, ByteRow t start_row_index code j byte row →
      (t.witness IS_OPCODE row = 1 ↔ InstructionStart code j)

/-- The row stands for no byte, or for one that has another behind it among the first `n`. -/
def ShortOf (t : Assignment F) (n row : Nat) : Prop :=
  t.witness TAG row ≠ 1 ∨ ∃ i : Nat, i + 1 < n ∧ t.witness INDEX row = (i : F)

theorem bytecode_row_other {hash_hi hash_lo : F} {start_row_index j c r : Nat} {byte : UInt8}
    {s : BytecodeScan F} (other : r ≠ row_index start_row_index j) :
    (bytecode_row hash_hi hash_lo start_row_index j byte s).bytecode_table.witness c r =
      s.bytecode_table.witness c r := by
  unfold bytecode_row
  split <;> simp only [Assignment.set_cells_witness_row other]

theorem bytecode_row_shortOf (hash_hi hash_lo : F) (start_row_index j : Nat) (byte : UInt8)
    (s : BytecodeScan F) :
    ShortOf (bytecode_row hash_hi hash_lo start_row_index j byte s).bytecode_table (j + 1)
      (row_index start_row_index j) := by
  by_cases header : j = 0
  · left
    have tag : (bytecode_row hash_hi hash_lo start_row_index j byte s).bytecode_table.witness TAG
        (row_index start_row_index j) = 0 := by
      unfold bytecode_row
      rw [if_pos header]
      exact Assignment.set_cells_witness _ _ (by decide : [0, 1, 3, 4, 5, 8].Nodup)
        (List.mem_cons_self)
    rw [tag]
    exact zero_ne_one
  · right
    refine ⟨j - 1, by omega, ?_⟩
    unfold bytecode_row
    rw [if_neg header]
    exact Assignment.set_cells_witness _ _ (by decide : [0, 1, 5, 3, 4, 8].Nodup)
      (List.mem_cons_of_mem _ List.mem_cons_self)

theorem bytecode_rows_shortOf {hash_hi hash_lo : F} {start_row_index i j : Nat} {bytecode : Bytes}
    {s : BytecodeScan F}
    (before : ∀ i < j, ShortOf s.bytecode_table j (row_index start_row_index i))
    (within : i < j + bytecode.length) :
    ShortOf (bytecode_rows hash_hi hash_lo start_row_index j bytecode s).bytecode_table
      (j + bytecode.length) (row_index start_row_index i) := by
  induction bytecode generalizing j s with
  | nil => exact before i within
  | cons byte bytecode ih =>
    rw [List.length_cons] at within ⊢
    rw [bytecode_rows, show j + (bytecode.length + 1) = j + 1 + bytecode.length by omega]
    refine ih ?_ (by omega)
    intro k hk
    have own := bytecode_row_shortOf hash_hi hash_lo start_row_index j byte s
    by_cases same : row_index start_row_index k = row_index start_row_index j
    · rw [same]
      exact own
    · have earlier : k < j := by
        by_contra late
        exact same (by rw [show k = j by omega])
      simp only [ShortOf, bytecode_row_other same]
      rcases before k earlier with tag | ⟨i, hi, index⟩
      · exact Or.inl tag
      · exact Or.inr ⟨i, by omega, index⟩

theorem process_bytecode_input_shortOf [Crypto3] {n i : Nat} (code : Nat → UInt8) (t : Assignment F)
    (within : i < n) : ShortOf (process_bytecode_input n code t) n
      (row_index (t.witness_column_size VALUE % 2 ^ 32) i) := by
  have size : ((List.range n).map code).length = n := by simp
  have short {hash_hi hash_lo : F} {start : Nat} : ShortOf (bytecode_rows hash_hi hash_lo start 0
      ((List.range n).map code) { bytecode_table := t }).bytecode_table
      (0 + ((List.range n).map code).length) (row_index start i) :=
    bytecode_rows_shortOf (by omega) (by omega)
  rw [size, Nat.zero_add] at short
  exact short

/-- The last byte of a code never gets a row, since the first is taken for a header. -/
theorem bytecode_agrees_iff [Crypto3] {p : Nat} [CharP F p] {code : Bytes} (wide : code.length ≤ p)
    (t : Assignment F) :
    BytecodeAgrees (process_bytecode_input code.length (fun i => (pad_code code).getD i 0) t)
      (t.witness_column_size VALUE % 2 ^ 32) code ↔ code = [] := by
  constructor
  · intro agrees
    by_contra nonempty
    have positive := List.length_pos_iff.mpr nonempty
    have last := List.getElem?_eq_getElem (l := code) (i := code.length - 1) (by omega)
    obtain ⟨row, byteRow, _⟩ := (agrees _ _ last).1
    obtain ⟨i, hi, rfl⟩ := byteRow.in_block
    rcases process_bytecode_input_shortOf (fun i => (pad_code code).getD i 0) t hi with
      tag | ⟨k, hk, index⟩
    · exact tag byteRow.tag
    · have same : k = code.length - 1 := by
        refine CharP.natCast_injOn_Iio F p (show k < p by omega) (show code.length - 1 < p by omega) ?_
        exact index.symm.trans byteRow.index
      omega
  · rintro rfl
    intro j byte at_j
    simp at at_j

end

/-- The hash of `PUSH1 5`, `STOP`. -/
abbrev keccak_push1 : Crypto3 where
  keccak_1600 _ := "3352e003b8afa06d8994700af7f52907093574a6ebb863fcb090264ab9d226ea".toList

theorem bytecode_agrees_iff_push1 :
    BytecodeAgrees (@process_bytecode_input (ZMod 65537) _ _ keccak_push1 3
      (fun i => (pad_code [0x60, 5, OP_STOP]).getD i 0) Assignment.empty) 0 [0x60, 5, OP_STOP] ↔
        [0x60, 5, OP_STOP] = [] :=
  @bytecode_agrees_iff (ZMod 65537) _ _ keccak_push1 65537 _ [0x60, 5, OP_STOP] (by decide) Assignment.empty

/-- The hash of the one byte `STOP`. -/
abbrev keccak_stop : Crypto3 where
  keccak_1600 _ := "bc36789e7a1e281436464229828f817d6612f7b477d66591ff96a9e064bcc98a".toList

/-- The code of one byte `STOP` is given a header and nothing else. -/
theorem bytecode_disagrees_stop :
    ¬ BytecodeAgrees (@process_bytecode_input (ZMod 65537) _ _ keccak_stop 1
      (fun i => (pad_code [OP_STOP]).getD i 0) Assignment.empty) 0 [OP_STOP] := by
  intro agrees
  obtain ⟨row, byteRow, _⟩ := (agrees 0 OP_STOP rfl).1
  obtain ⟨i, hi, rfl⟩ := byteRow.in_block
  obtain rfl : i = 0 := by simpa using hi
  have header : (0 : ZMod 65537) = 1 := byteRow.tag
  exact zero_ne_one header

end EvmAssigner
