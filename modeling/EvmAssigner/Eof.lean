import EvmAssigner.Analysis
import EvmAssigner.Instructions.Calls

namespace EvmAssigner

abbrev TERMINATOR : UInt8 := 0x00
abbrev TYPE_SECTION : UInt8 := 0x01
abbrev CODE_SECTION : UInt8 := 0x02
abbrev DATA_SECTION : UInt8 := 0x04
abbrev MAX_SECTION : UInt8 := DATA_SECTION

/-- The sizes read so far, by section id. -/
abbrev EOFSectionHeaders : Type := UInt8 → List Nat

def eof_header_size (headers : EOFSectionHeaders) : Nat :=
  2 + 1 + 2 * 3 + 1 + 2 + (headers CODE_SECTION).length * 2 + 1

/-- Without a result where the source reads past the end of the container. -/
def container_uint16_be (container : Bytes) (it : Nat) : Option Nat := do
  let h ← container[it]?
  let l ← container[it + 1]?
  return h.toNat * 256 + l.toNat

/-- The sizes of the code sections, and the position behind them. -/
def read_code_sizes (container : Bytes) : Nat → Nat → Option (List Nat × Nat)
  | 0, it => some ([], it)
  | n + 1, it => do
    let section_size ← container_uint16_be container it
    let (sizes, it) ← read_code_sizes container n (it + 2)
    return (section_size :: sizes, it)

def read_section_headers (container : Bytes) : Nat → Nat → EOFSectionHeaders → Option EOFSectionHeaders
  | 0, _, _ => none
  | fuel + 1, it, headers => do
    let section_id ← container[it]?
    if section_id = TERMINATOR then return headers
    if section_id > MAX_SECTION then none
    let section_size ← container_uint16_be container (it + 1)
    let (sizes, it) ← if section_id = CODE_SECTION then read_code_sizes container section_size (it + 3)
      else some ([section_size], it + 3)
    read_section_headers container fuel it
      (Function.update headers section_id (headers section_id ++ sizes))

def read_type (container : Bytes) (type_offset : Nat) : Option EOFCodeType := do
  let inputs ← container[type_offset]?
  let outputs ← container[type_offset + 1]?
  let max_stack_height ← container_uint16_be container (type_offset + 2)
  return ⟨inputs.toNat, outputs.toNat, max_stack_height⟩

/-- Where the code sections begin, from `code_offset` on. -/
def code_offsets : Nat → List Nat → List Nat
  | _, [] => []
  | code_offset, code_size :: code_sizes =>
    code_offset % 2 ^ 16 :: code_offsets (code_offset + code_size) code_sizes

def read_valid_eof1_header (container : Bytes) : Option EOF1Header := do
  let headers ← read_section_headers container container.length (2 + 1) fun _ => []
  let header_size := eof_header_size headers
  let version ← container[2]?
  let type_size ← (headers TYPE_SECTION)[0]?
  let types ← ((List.range ((type_size + 3) / 4)).map (header_size + 4 * ·)).mapM (read_type container)
  let data_size ← (headers DATA_SECTION)[0]?
  return {
    version := version.toNat
    types := types
    code_sizes := headers CODE_SECTION
    code_offsets := code_offsets (header_size + type_size) (headers CODE_SECTION)
    data_size := data_size }

/-- `string_view::substr`, which throws when it starts behind the end. -/
def substr (s : Bytes) (pos count : Nat) : Option Bytes :=
  if pos ≤ s.length then some ((s.drop pos).take count) else none

def EOF1Header.get_data (header : EOF1Header) (container : Bytes) : Option Bytes :=
  if header.data_size = 0 then some []
  else do
    let code_offset ← header.code_offsets.getLast?
    let code_size ← header.code_sizes.getLast?
    substr container (code_offset + code_size) header.data_size

def analyze_legacy (code : Bytes) : CodeAnalysis where
  buffer := pad_code code
  size := code.length
  jumpdest_map := analyze_jumpdests code

def analyze_eof1 (container : Bytes) : Option CodeAnalysis := do
  let header ← read_valid_eof1_header container
  let code_sections_offset ← header.code_offsets.head?
  let code_offset ← header.code_offsets.getLast?
  let code_size ← header.code_sizes.getLast?
  let executable_code ← substr container code_sections_offset
    ((code_offset + code_size + 2 ^ 64 - code_sections_offset) % 2 ^ 64)
  return {
    buffer := container
    offset := code_sections_offset
    size := executable_code.length
    eof_header := header }

/-- `baseline::analyze`. -/
def analyze (rev : Revision) (code : Bytes) : Option CodeAnalysis :=
  if rev < .PRAGUE ∨ ¬ is_eof_container code then some (analyze_legacy code) else analyze_eof1 code

end EvmAssigner
