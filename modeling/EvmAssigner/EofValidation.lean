import EvmAssigner.Eof

namespace EvmAssigner

inductive EOFValidationError where
  | success | starts_with_format | invalid_prefix | eof_version_mismatch | eof_version_unknown
  | incomplete_section_size | incomplete_section_number | header_terminator_missing
  | type_section_missing | code_section_missing | data_section_missing | zero_section_size
  | section_headers_not_terminated | invalid_section_bodies_size | undefined_instruction
  | truncated_instruction | invalid_rjump_destination | too_many_code_sections
  | invalid_type_section_size | invalid_first_section_type | invalid_max_stack_height
  | no_terminating_instruction | stack_height_mismatch | stack_higher_than_outputs_required
  | max_stack_height_above_limit | inputs_outputs_num_above_limit | unreachable_instructions
  | stack_underflow | stack_overflow | invalid_code_section_index | invalid_dataloadn_index
  | jumpf_destination_incompatible_outputs | invalid_non_returning_flag
  | callf_to_non_returning_function | impossible
  deriving DecidableEq

abbrev CODE_SECTION_NUMBER_LIMIT : Nat := 1024
abbrev MAX_STACK_HEIGHT : Nat := 0x03FF
abbrev OUTPUTS_INPUTS_NUMBER_LIMIT : Nat := 0x7F
abbrev REL_OFFSET_SIZE : Nat := 2
abbrev STACK_SIZE_LIMIT : Int := 1024
abbrev NON_RETURNING_FUNCITON : Nat := 0x80

/-- A result or the error that keeps it from being there. -/
abbrev Validated (α : Type) : Type := Except EOFValidationError α

/-- `read_uint16_be`, where the bytes are known to be there. -/
def uint16_be_at (s : Bytes) (it : Nat) : Nat := (s.getD it 0).toNat * 256 + (s.getD (it + 1) 0).toNat

def int16_be_at (s : Bytes) (it : Nat) : Int := Int.bmod (uint16_be_at s it) (2 ^ 16)

def get_section_missing_error (section_id : UInt8) : EOFValidationError :=
  if section_id = TERMINATOR then .header_terminator_missing
  else if section_id = TYPE_SECTION then .type_section_missing
  else if section_id = CODE_SECTION then .code_section_missing
  else if section_id = DATA_SECTION then .data_section_missing
  else .impossible

inductive HeaderState where
  | section_id | section_size | terminated
  deriving DecidableEq

/-- The variables of the loop of `validate_eof_headers`. -/
structure HeaderLoop where
  state : HeaderState := .section_id
  section_id : UInt8 := 0
  section_num : Nat := 0
  section_headers : EOFSectionHeaders := fun _ => []
  it : Nat := 2 + 1
  expected_section_id : UInt8 := TYPE_SECTION

/-- `section_headers[section_id].emplace_back(section_size)`. -/
def HeaderLoop.push (l : HeaderLoop) (section_size : Nat) : HeaderLoop :=
  { l with
    it := l.it + 2
    section_headers := Function.update l.section_headers l.section_id
      (l.section_headers l.section_id ++ [section_size]) }

def HeaderLoop.read_section_id (container : Bytes) (l : HeaderLoop) : Validated HeaderLoop :=
  let section_id := container.getD l.it 0
  let l := { l with section_id := section_id, it := l.it + 1 }
  if section_id ≠ l.expected_section_id then .error (get_section_missing_error l.expected_section_id)
  else if section_id = TERMINATOR then .ok { l with state := .terminated }
  else if section_id = TYPE_SECTION then
    .ok { l with expected_section_id := CODE_SECTION, state := .section_size }
  else if section_id = CODE_SECTION then
    if l.it + 1 ≥ container.length then .error .incomplete_section_number
    else
      let section_num := uint16_be_at container l.it
      if section_num = 0 then .error .zero_section_size
      else if section_num > CODE_SECTION_NUMBER_LIMIT then .error .too_many_code_sections
      else .ok { l with
        section_num := section_num
        it := l.it + 2
        expected_section_id := DATA_SECTION
        state := .section_size }
  else .ok { l with expected_section_id := TERMINATOR, state := .section_size }

def HeaderLoop.read_code_sizes (container : Bytes) : Nat → HeaderLoop → Validated HeaderLoop
  | 0, l => .ok l
  | n + 1, l =>
    if l.it + 1 ≥ container.length then .error .incomplete_section_size
    else
      let section_size := uint16_be_at container l.it
      if section_size = 0 then .error .zero_section_size
      else read_code_sizes container n (l.push section_size)

def HeaderLoop.read_section_size (container : Bytes) (l : HeaderLoop) : Validated HeaderLoop :=
  if l.section_id = CODE_SECTION then do
    let l ← l.read_code_sizes container l.section_num
    return { l with state := .section_id }
  else if l.it + 1 ≥ container.length then .error .incomplete_section_size
  else
    let section_size := uint16_be_at container l.it
    if section_size = 0 ∧ l.section_id ≠ DATA_SECTION then .error .zero_section_size
    else .ok { l.push section_size with state := .section_id }

def validate_eof_headers_loop (container : Bytes) : Nat → HeaderLoop → Validated HeaderLoop
  | 0, l => .ok l
  | fuel + 1, l =>
    if l.it = container.length then .ok l
    else match l.state with
      | .section_id => do validate_eof_headers_loop container fuel (← l.read_section_id container)
      | .section_size => do validate_eof_headers_loop container fuel (← l.read_section_size container)
      | .terminated => .ok l

/-- Every turn of the loop reads a byte, or is the last one. -/
def validate_eof_headers (container : Bytes) : Validated EOFSectionHeaders := do
  let l ← validate_eof_headers_loop container container.length {}
  let section_headers := l.section_headers
  if l.state ≠ .terminated then .error .section_headers_not_terminated
  else
    let type_size := (section_headers TYPE_SECTION).headD 0
    let section_bodies_size :=
      type_size + (section_headers CODE_SECTION).sum + (section_headers DATA_SECTION).headD 0
    if section_bodies_size ≠ container.length - l.it then .error .invalid_section_bodies_size
    else if type_size ≠ (section_headers CODE_SECTION).length * 4 then .error .invalid_type_section_size
    else .ok section_headers

def validate_type_limits : List EOFCodeType → Validated Unit
  | [] => .ok ()
  | t :: types =>
    if t.outputs > OUTPUTS_INPUTS_NUMBER_LIMIT ∧ t.outputs ≠ NON_RETURNING_FUNCITON ∨
        t.inputs > OUTPUTS_INPUTS_NUMBER_LIMIT then .error .inputs_outputs_num_above_limit
    else if t.max_stack_height > MAX_STACK_HEIGHT then .error .max_stack_height_above_limit
    else validate_type_limits types

def type_at (container : Bytes) (offset : Nat) : EOFCodeType :=
  ⟨(container.getD offset 0).toNat, (container.getD (offset + 1) 0).toNat,
    uint16_be_at container (offset + 2)⟩

def validate_types (container : Bytes) (header_size type_section_size : Nat) :
    Validated (List EOFCodeType) :=
  let types := (List.range ((type_section_size + 3) / 4)).map fun i => type_at container (header_size + 4 * i)
  match types with
  | [] => .error .impossible
  | first :: _ =>
    if first.inputs ≠ 0 ∨ first.outputs ≠ NON_RETURNING_FUNCITON then .error .invalid_first_section_type
    else do
      validate_type_limits types
      return types

/-- `traits[op].immediate_size`. -/
def immediate_size : Opcode → Nat
  | .PUSH n => n.val + 1
  | .RJUMP | .RJUMPI => 2
  | .RJUMPV => 1
  | .DUPN | .SWAPN => 1
  | .DATALOADN | .CALLF | .JUMPF => 2
  | _ => 0

/-- `traits[op].is_terminating`. -/
def is_terminating : Opcode → Bool
  | .STOP | .RETURN | .RETF | .JUMPF | .REVERT | .INVALID | .SELFDESTRUCT => true
  | _ => false

section
variable (code : Bytes) (types : List EOFCodeType)

/-- A loop over the instructions of a section; it says whether the section returns. -/
def validate_instructions_loop (cost_table : Opcode → Int) (data_size : Nat) :
    Nat → Nat → Bool → Validated Bool
  | 0, _, is_returning => .ok is_returning
  | fuel + 1, i, is_returning =>
    if i ≥ code.length then .ok is_returning
    else match Opcode.of_byte (code.getD i 0) with
      | none => .error .undefined_instruction
      | some op =>
        if cost_table op = undefined then .error .undefined_instruction
        else if i + immediate_size op ≥ code.length then .error .truncated_instruction
        else match op with
          | .RJUMPV =>
            let count := (code.getD (i + 1) 0).toNat + 1
            let i := i + (1 + count * 2)
            if i ≥ code.length then .error .truncated_instruction
            else validate_instructions_loop cost_table data_size fuel (i + 1) is_returning
          | .CALLF =>
            match types[uint16_be_at code (i + 1)]? with
            | none => .error .invalid_code_section_index
            | some type =>
              if type.outputs = NON_RETURNING_FUNCITON then .error .callf_to_non_returning_function
              else validate_instructions_loop cost_table data_size fuel (i + 2 + 1) is_returning
          | .RETF => validate_instructions_loop cost_table data_size fuel (i + 1) true
          | .JUMPF =>
            match types[uint16_be_at code (i + 1)]? with
            | none => .error .invalid_code_section_index
            | some type => validate_instructions_loop cost_table data_size fuel (i + 2 + 1)
                (is_returning || decide (type.outputs ≠ NON_RETURNING_FUNCITON))
          | .DATALOADN =>
            let index := uint16_be_at code (i + 1)
            if data_size < 32 ∨ index > data_size - 32 then .error .invalid_dataloadn_index
            else validate_instructions_loop cost_table data_size fuel (i + 2 + 1) is_returning
          | op => validate_instructions_loop cost_table data_size fuel (i + immediate_size op + 1) is_returning

def validate_instructions (rev : Revision) (data_size : Nat) (type : EOFCodeType) : Validated Unit := do
  let is_returning ← validate_instructions_loop code types (get_baseline_cost_table rev 1) data_size
    code.length 0 false
  if is_returning ≠ decide (type.outputs ≠ NON_RETURNING_FUNCITON) then
    .error .invalid_non_returning_flag
  else .ok ()

/-- The bytes of immediates behind the instruction at `i`. -/
def immediate_bytes (op : Opcode) (i : Nat) : Nat :=
  if op = .RJUMPV then 1 + ((code.getD (i + 1) 0).toNat + 1) * REL_OFFSET_SIZE else immediate_size op

/-- The relative offsets an instruction jumps by, from behind its immediates. -/
def rel_offsets (op : Opcode) (i : Nat) : List Int :=
  match op with
  | .RJUMP | .RJUMPI => [int16_be_at code (i + 1)]
  | .RJUMPV => (List.range ((code.getD (i + 1) 0).toNat + 1)).map fun k =>
      int16_be_at code (i + k * REL_OFFSET_SIZE + 2)
  | _ => []

/-- An unnamed byte has no immediates and does not jump. -/
def opcode_or (op : UInt8) : Opcode := (Opcode.of_byte op).getD .STOP

/-- The jump destinations, none where one is outside, and the positions of immediates. -/
def collect_rjumps : Nat → Nat → List Nat → (Nat → Bool) → Option (List Nat × (Nat → Bool))
  | 0, _, rjumpdests, immediate_map => some (rjumpdests, immediate_map)
  | fuel + 1, i, rjumpdests, immediate_map =>
    if i ≥ code.length then some (rjumpdests, immediate_map)
    else
      let op := opcode_or (code.getD i 0)
      let imm_size := immediate_bytes code op i
      let jumpdests := (rel_offsets code op i).map fun rel_offset =>
        ((i + 1 + imm_size : Nat) : Int) + rel_offset
      if ∃ jumpdest ∈ jumpdests, jumpdest < 0 ∨ jumpdest ≥ code.length then none
      else collect_rjumps fuel (i + imm_size + 1) (rjumpdests ++ jumpdests.map Int.toNat)
        fun k => decide (i + 1 ≤ k ∧ k < i + 1 + imm_size) || immediate_map k

def validate_rjump_destinations : Bool :=
  match collect_rjumps code code.length 0 [] fun _ => false with
  | none => false
  | some (rjumpdests, immediate_map) => rjumpdests.all fun rjumpdest => !immediate_map rjumpdest

abbrev LOC_UNVISITED : Int := -1
abbrev LOC_IMMEDIATE : Int := -2

/-- Conversion to `int8_t`. -/
def to_int8 (x : Int) : Int := Int.bmod x (2 ^ 8)

structure StackHeights where
  stack_heights : Nat → Int
  worklist : List Nat

/-- `validate_successor`; there is no result when the heights differ. -/
def StackHeights.validate_successor (h : StackHeights) (successor_offset : Nat)
    (expected_stack_height : Int) : Validated StackHeights :=
  if h.stack_heights successor_offset = LOC_UNVISITED then
    .ok ⟨Function.update h.stack_heights successor_offset expected_stack_height,
      successor_offset :: h.worklist⟩
  else if h.stack_heights successor_offset = expected_stack_height then .ok h
  else .error .stack_height_mismatch

def StackHeights.validate_successors (expected_stack_height : Int) :
    List Nat → StackHeights → Validated StackHeights
  | [], h => .ok h
  | successor :: successors, h => do
    validate_successors expected_stack_height successors
      (← h.validate_successor successor expected_stack_height)

/-- The height an instruction needs, and by how much it changes it. -/
def height_effect (type : EOFCodeType) (op : Opcode) (i : Nat) (stack_height : Int) :
    Validated (Int × Int) :=
  match op with
  | .CALLF =>
    let callee := types.getD (uint16_be_at code (i + 1)) default
    let stack_height_required := to_int8 callee.inputs
    if stack_height + callee.max_stack_height - stack_height_required > STACK_SIZE_LIMIT then
      .error .stack_overflow
    else .ok (stack_height_required, to_int8 (callee.outputs - stack_height_required))
  | .JUMPF =>
    let callee := types.getD (uint16_be_at code (i + 1)) default
    if stack_height + callee.max_stack_height - callee.inputs > STACK_SIZE_LIMIT then
      .error .stack_overflow
    else if callee.outputs = NON_RETURNING_FUNCITON then
      .ok (to_int8 callee.inputs, stack_height_change op)
    else if type.outputs < callee.outputs then .error .jumpf_destination_incompatible_outputs
    else
      let stack_height_required := to_int8 (type.outputs + callee.inputs - callee.outputs)
      if stack_height > stack_height_required then .error .stack_higher_than_outputs_required
      else .ok (stack_height_required, stack_height_change op)
  | .RETF =>
    if stack_height > type.outputs then .error .stack_higher_than_outputs_required
    else .ok (to_int8 type.outputs, stack_height_change op)
  | op => .ok (stack_height_required op, stack_height_change op)

/-- One turn of the loop, for the position `i` that has been taken from the worklist. -/
def StackHeights.visit (type : EOFCodeType) (h : StackHeights) (i : Nat) : Validated StackHeights := do
  let op := opcode_or (code.getD i 0)
  let stack_height := h.stack_heights i
  let (stack_height_required, stack_height_change) ← height_effect code types type op i stack_height
  if stack_height < stack_height_required then .error .stack_underflow
  else
    let stack_height := stack_height + stack_height_change
    let imm_size := immediate_bytes code op i
    let h := { h with stack_heights := fun k =>
      if i + 1 ≤ k ∧ k < i + 1 + imm_size then LOC_IMMEDIATE else h.stack_heights k }
    let next := i + imm_size + 1
    let falls_through := !is_terminating op && op ≠ .RJUMP
    if falls_through ∧ next ≥ code.length then .error .no_terminating_instruction
    else
      let targets := (rel_offsets code op i).map fun rel_offset => ((next : Int) + rel_offset).toNat
      h.validate_successors stack_height ((if falls_through then [next] else []) ++ targets)

def validate_max_stack_height_loop (type : EOFCodeType) : Nat → StackHeights → Validated StackHeights
  | 0, h => .ok h
  | fuel + 1, h =>
    match h.worklist with
    | [] => .ok h
    | i :: worklist => do
      validate_max_stack_height_loop type fuel (← { h with worklist := worklist }.visit code types type i)

/-- Every position is put on the worklist once at most. -/
def validate_max_stack_height (type : EOFCodeType) : Validated Int := do
  let h ← validate_max_stack_height_loop code types type (code.length + 1)
    ⟨fun k => if k = 0 then type.inputs else LOC_UNVISITED, [0]⟩
  let stack_heights := (List.range code.length).map h.stack_heights
  if LOC_UNVISITED ∈ stack_heights then .error .unreachable_instructions
  else .ok (stack_heights.foldl max (stack_heights.headD 0))

end

/-- `EOF1Header::get_code`. -/
def EOF1Header.get_code (header : EOF1Header) (container : Bytes) (code_idx : Nat) : Bytes :=
  (container.drop (header.code_offsets.getD code_idx 0)).take (header.code_sizes.getD code_idx 0)

def validate_code (rev : Revision) (header : EOF1Header) (container : Bytes) (code_idx : Nat) :
    Validated Unit := do
  let code := header.get_code container code_idx
  let type := header.types.getD code_idx default
  validate_instructions code header.types rev header.data_size type
  if !validate_rjump_destinations code then .error .invalid_rjump_destination
  else
    let msh ← validate_max_stack_height code header.types type
    if msh ≠ type.max_stack_height then .error .invalid_max_stack_height else .ok ()

def validate_codes (rev : Revision) (header : EOF1Header) (container : Bytes) : List Nat → Validated Unit
  | [] => .ok ()
  | code_idx :: rest => do
    validate_code rev header container code_idx
    validate_codes rev header container rest

def validate_eof1 (rev : Revision) (container : Bytes) : Validated EOF1Header := do
  let section_headers ← validate_eof_headers container
  let code_sizes := section_headers CODE_SECTION
  let header_size := eof_header_size section_headers
  let type_section_size := (section_headers TYPE_SECTION).headD 0
  let types ← validate_types container header_size type_section_size
  let header : EOF1Header := {
    version := (container.getD 2 0).toNat
    code_sizes := code_sizes
    code_offsets := code_offsets (header_size + type_section_size) code_sizes
    data_size := (section_headers DATA_SECTION).headD 0
    types := types }
  validate_codes rev header container (List.range code_sizes.length)
  return header

def get_eof_version (container : Bytes) : Nat :=
  if container.length ≥ 3 ∧ container.getD 0 0 = 0xef ∧ container.getD 1 0 = 0x00 then
    (container.getD 2 0).toNat
  else 0

open EOFValidationError in
def validate_eof (rev : Revision) (container : Bytes) : EOFValidationError :=
  if !is_eof_container container then invalid_prefix
  else if get_eof_version container = 1 then
    if rev < .PRAGUE then .eof_version_unknown
    else match validate_eof1 rev container with
      | .error error => error
      | .ok _ => .success
  else .eof_version_unknown

end EvmAssigner
