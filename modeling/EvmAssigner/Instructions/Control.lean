import EvmAssigner.Instructions.Stack

namespace EvmAssigner

def pop (_stack : Int) : Local Unit := pure ()
def jumpdest (_stack : Int) : Local Unit := pure ()
def log (_stack : Int) : Local Unit := pure ()

def stop_impl (Status : StatusCode) (_stack gas_left : Int) : Local InstructionResult :=
  pure ⟨Status, gas_left⟩

def stop : Int → Int → Local InstructionResult := stop_impl .SUCCESS
def invalid : Int → Int → Local InstructionResult := stop_impl .INVALID_INSTRUCTION

def jump_impl (dst : Word) : Local (Option Int) := do
  let s ← Action.get
  let jumpdest_map := s.analysis.jumpdest_map
  if dst.to_uint64 ≥ jumpdest_map.length then fail_with .BAD_JUMP_DESTINATION
  else
    Action.emit (.vector_access dst.to_uint64 jumpdest_map.length)
    if !jumpdest_map.getD dst.to_uint64 false then fail_with .BAD_JUMP_DESTINATION
    else return some dst.to_uint64

def jump (stack _pos : Int) : Local (Option Int) := do
  record_stack stack 0 false
  let dst ← stack_get stack 0
  jump_impl dst

def jumpi (stack pos : Int) : Local (Option Int) := do
  record_stack stack 1 false
  record_stack stack 0 false
  let dst ← stack_get stack 0
  let cond ← stack_get (stack - 1) 0
  if cond.to_uint64 > 0 then jump_impl dst else return some (pos + 1)

def rjump (_stack pc : Int) : Local (Option Int) := do
  let offset ← read_int16_be (pc + 1)
  return some (pc + 3 + offset)

def rjumpi (stack pc : Int) : Local (Option Int) := do
  record_stack stack 0 false
  let cond ← stack_get stack 0
  if cond.to_uint64 > 0 then rjump (stack - 1) pc else return some (pc + 3)

def rjumpv (stack pc : Int) : Local (Option Int) := do
  record_stack stack 0 false
  let case_ ← stack_get stack 0
  let max_index ← read_code (pc + 1)
  let pc_post := pc + 1 + 1 + (max_index.toNat + 1) * 2
  if case_.to_uint64 > max_index.toNat then return some pc_post
  else
    let rel_offset ← read_int16_be (pc + (2 + case_.to_uint64 % 2 ^ 16 * 2))
    return some (pc_post + rel_offset)

/-- The section of an immediate, when the stack has room for what it needs. -/
def enter_section (index : Nat) (stack : Int) : Local (Option EOF1Header) := do
  let s ← Action.get
  let header := s.analysis.eof_header
  Action.emit (.vector_access index header.types.length)
  let type := header.types.getD index default
  let callee_required_stack_size : Int := (type.max_stack_height : Int) - type.inputs
  if stack + callee_required_stack_size > 1024 then
    Action.modify fun s => s.set_status .STACK_OVERFLOW
    return none
  return some header

def section_start (header : EOF1Header) (index : Nat) : Local (Option Int) := do
  Action.emit (.vector_access index header.code_offsets.length)
  Action.emit (.vector_access 0 header.code_offsets.length)
  return some ((header.code_offsets.getD index 0 : Int) - header.code_offsets.getD 0 0)

def callf (stack pos : Int) : Local (Option Int) := do
  let index ← read_uint16_be (pos + 1)
  let header ← enter_section index stack
  match header with
  | none => return none
  | some header =>
    let s ← Action.get
    if s.call_stack.length ≥ 1024 then fail_with .STACK_OVERFLOW
    else
      Action.modify fun s => s.set_call_stack (s.call_stack ++ [pos + 3])
      section_start header index

def retf (_stack _pos : Int) : Local (Option Int) := do
  let s ← Action.get
  Action.emit (.vector_access (s.call_stack.length - 1) s.call_stack.length)
  Action.modify fun s => s.set_call_stack s.call_stack.dropLast
  return some (s.call_stack.getLastD 0)

def jumpf (stack pos : Int) : Local (Option Int) := do
  let index ← read_uint16_be (pos + 1)
  let header ← enter_section index stack
  match header with
  | none => return none
  | some header => section_start header index

def return_impl (StatusCode : StatusCode) (stack gas_left : Int) : Local InstructionResult := do
  record_stack stack 1 false
  record_stack stack 0 false
  let offset ← stack_get stack 0
  let size ← stack_get stack 1
  let (ok, gas_left) ← check_memory gas_left offset size
  if !ok then return ⟨.OUT_OF_GAS, gas_left⟩
  Action.modify fun s => s.set_output
    (if size.to_uint64 ≠ 0 then offset.to_uint64 else s.output_offset) size.to_uint64
  return ⟨StatusCode, gas_left⟩

def return_ : Int → Int → Local InstructionResult := return_impl .SUCCESS
def revert : Int → Int → Local InstructionResult := return_impl .REVERT

end EvmAssigner
