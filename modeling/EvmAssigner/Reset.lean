import EvmAssigner.MoreGas

namespace EvmAssigner
variable {H : Type}

/-- Entries recorded under another id, behind a trace of `n` entries. -/
def rw_operation.moved (id : Nat → Nat) (n : Nat) (o : rw_operation) : rw_operation :=
  { o with id := id o.id, rw_id := n + o.rw_id }

/-- A frame that records under another id, behind entries that are there already, and on a stack and a memory with other
things around. -/
def ExecutionState.behind (s : ExecutionState) (older : List rw_operation) (id : Nat → Nat) (outside : Outside) :
    ExecutionState :=
  { s with
    call_id := id s.call_id
    rw_trace := older ++ s.rw_trace.map (rw_operation.moved id older.length)
    stack_space := fun slot => if slot < 0 then outside.slot slot else s.stack_space slot
    memory := { s.memory with
      m_data := fun k => if s.memory.m_size ≤ k then outside.byte k else s.memory.m_data k } }

theorem ExecutionState.behind_eq (s : ExecutionState) (older : List rw_operation) (id : Nat → Nat)
    (outside : Outside) :
    s.behind older id outside = Variation.state { older := older, id := id, outside := some outside } s := by
  unfold behind Variation.state
  simp only [add_zero]
  rfl

/-- What is recorded is never looked at: with older entries in its trace, under another id and with anything below its
stack and behind its memory, a frame that stays off these comes to the same end, with the same entries but for the id
and their numbers. -/
theorem trace_is_write_only [Ethash] (host : Host H) (cost_table : Opcode → Int) (fuel : Nat) (pos h gas left : Int)
    (s s' : ExecutionState) (host_state host_state' : H) (older : List rw_operation) (id : Nat → Nat)
    (outside : Outside)
    (inside : ∀ e ∈ (dispatch host cost_table fuel pos h gas).events ⟨s, host_state⟩, e.StaysInside)
    (ran : (dispatch host cost_table fuel pos h gas ⟨s, host_state⟩).2 = some (left, ⟨s', host_state'⟩)) :
    (dispatch host cost_table fuel pos h gas ⟨s.behind older id outside, host_state⟩).2 =
      some (left, ⟨s'.behind older id outside, host_state'⟩) := by
  let v : Variation := { older := older, id := id, outside := some outside }
  have alike : Action.Alike v.Allows v.exec (dispatch host cost_table fuel pos h gas)
    (dispatch host cost_table fuel pos h gas) := dispatch_alike rfl
  rw [s.behind_eq, s'.behind_eq]
  exact alike.returns (fun e member => Or.inr (inside e member)) ran rfl

/-- Code that adds two numbers and stores the sum. -/
def summing_code : Bytes := [0x60, 2, 0x60, 3, 0x01, 0x5f, 0x52]

theorem trace_is_write_only_add : ∃ (left : Int) (s' : ExecutionState),
    (@dispatch Unit no_hash empty_host (legacy_cost_table .SHANGHAI) 9 0 0 100
      ⟨(code_config .SHANGHAI summing_code 100).exec.state.behind [stack_operation 0 0 0 true 9] (fun _ => 4)
        ⟨fun _ => 6, fun _ => 8⟩, ()⟩).2 = some (left, ⟨s', ()⟩) ∧
      (s'.memory.m_data 31, s'.memory.m_data 32) = (5, 8) ∧
      s'.rw_trace.map rw_operation.id = 0 :: List.replicate 40 4 := by
  have ends : (@dispatch Unit no_hash empty_host (legacy_cost_table .SHANGHAI) 9 0 0 100
      (code_config .SHANGHAI summing_code 100).exec).2.map (fun r =>
        (r.2.state.memory.m_size, r.2.state.memory.m_data 31, r.2.state.rw_trace.length)) = some (32, 5, 40) := by
    decide +kernel
  have inside : ∀ e ∈ (@dispatch Unit no_hash empty_host (legacy_cost_table .SHANGHAI) 9 0 0 100).events
      (code_config .SHANGHAI summing_code 100).exec, e.StaysInside := by
    decide +kernel
  obtain ⟨⟨left, s', _⟩, ran, values⟩ := Option.map_eq_some_iff.mp ends
  simp only [Prod.mk.injEq] at values
  obtain ⟨size, sum, entries⟩ := values
  refine ⟨left, _, @trace_is_write_only Unit no_hash empty_host (legacy_cost_table .SHANGHAI) 9 0 0 100 left
    (code_config .SHANGHAI summing_code 100).exec.state s' () () [stack_operation 0 0 0 true 9] (fun _ => 4)
    ⟨fun _ => 6, fun _ => 8⟩ inside ran, ?_, ?_⟩
  · simp [ExecutionState.behind, size, sum]
  · have ids : s'.rw_trace.map ((fun o => o.id) ∘ rw_operation.moved (fun _ => 4) 1) = List.replicate 40 4 := by
      rw [← entries]
      exact List.map_const'
    simpa [ExecutionState.behind, stack_operation] using ids

/-- `ExecutionState::reset`. -/
def ExecutionState.reset (s : ExecutionState) (message : Message) (revision : Revision) (code data : Bytes) :
    ExecutionState :=
  { s with
    gas_refund := 0
    memory := { s.memory with m_size := 0 }
    msg := message
    rev := revision
    return_data := []
    original_code := code
    data := data
    status := .SUCCESS
    output_offset := 0
    output_size := 0
    m_tx := {} }

/-- A new state on the memory, the stack and the call stack of `s`, with anything around the stack and in the memory. -/
def ExecutionState.new_on (s : ExecutionState) (message : Message) (revision : Revision) (code data : Bytes)
    (outside : Outside) : ExecutionState :=
  { ExecutionState.new message revision code data s.call_id s.analysis outside.byte with
    memory := { s.memory with m_data := outside.byte, m_size := 0 }
    call_stack := s.call_stack
    stack_space := fun slot => if slot < 0 then outside.slot slot else s.stack_space slot }

/-- What a state has around its stack, and in its memory, when it is new. -/
def ExecutionState.outside (s : ExecutionState) : Outside := ⟨s.stack_space, s.memory.m_data⟩

/-- What is left of the old run, besides the buffers, is its trace. -/
theorem ExecutionState.reset_eq (s : ExecutionState) (message : Message) (revision : Revision) (code data : Bytes)
    (analysis : CodeAnalysis) (outside : Outside) :
    { s.reset message revision code data with analysis := analysis } =
      { s.new_on message revision code data outside with analysis := analysis }.behind s.rw_trace id s.outside := by
  have stack : s.stack_space = fun slot => if slot < 0 then s.stack_space slot
      else if slot < 0 then outside.slot slot else s.stack_space slot := by
    funext slot
    split_ifs <;> rfl
  simp [reset, new_on, new, behind, ExecutionState.outside, ← stack]

/-- What a frame hands back lies in its memory. -/
theorem output_wide : Wide any_event fun s => Within s.output_offset s.output_size s.memory.m_size where
  record _ _ _ inv := inv
  push_storage _ _ _ _ _ inv := inv
  set_slot _ _ inv := inv
  set_status _ inv := inv
  set_return_data _ inv := inv
  set_output _ _ _ within := within
  set_call_stack _ inv := inv
  add_refund _ inv := inv
  set_tx _ inv := inv
  grow inv larger _ := inv.imp id fun room => room.trans larger.le
  host_output inv _ _ := inv
  store _ _ inv := inv
  push_memory _ _ _ inv := inv

theorem frame_result_behind {s : ExecutionState} {left : Int} {older : List rw_operation} {id : Nat → Nat}
    {outside : Outside} (within : Within s.output_offset s.output_size s.memory.m_size) :
    frame_result left (s.behind older id outside) = frame_result left s := by
  have output : (s.behind older id outside).memory.load s.output_offset s.output_size =
      s.memory.load s.output_offset s.output_size := by
    refine List.map_congr_left fun j listed => if_neg ?_
    have listed := List.mem_range.mp listed
    rcases within with empty | room <;> omega
  have data : (if s.output_size ≠ 0 then (s.behind older id outside).memory.load s.output_offset s.output_size
      else []) = if s.output_size ≠ 0 then s.memory.load s.output_offset s.output_size else [] := by
    rw [output]
  exact congrArg (fun data => { frame_result left s with output_data := data }) data

/-- A state that is reset runs as a new one on the same buffers does, but for the entries of its old runs in front of
the new ones, which go on counting from there. -/
theorem reset_runs_as_new [Ethash] (host : Host H) (cost_table : Opcode → Int) (fuel : Nat) (left : Int)
    (s s' : ExecutionState) (message : Message) (revision : Revision) (code data : Bytes) (analysis : CodeAnalysis)
    (outside : Outside) (h h' : H)
    (inside : ∀ e ∈ (dispatch host cost_table fuel 0 0 message.gas).events
      ⟨{ s.new_on message revision code data outside with analysis := analysis }, h⟩, e.StaysInside)
    (ran : (dispatch host cost_table fuel 0 0 message.gas
      ⟨{ s.new_on message revision code data outside with analysis := analysis }, h⟩).2 = some (left, ⟨s', h'⟩)) :
    (dispatch host cost_table fuel 0 0 message.gas
      ⟨{ s.reset message revision code data with analysis := analysis }, h⟩).2 =
        some (left, ⟨s'.behind s.rw_trace id s.outside, h'⟩) ∧
      frame_result left (s'.behind s.rw_trace id s.outside) = frame_result left s' := by
  have start : Within 0 0 0 := Or.inl rfl
  have output : Action.wlp any_event (dispatch host cost_table fuel 0 0 message.gas)
      (fun _ e => Within e.state.output_offset e.state.output_size e.state.memory.m_size)
      ⟨{ s.new_on message revision code data outside with analysis := analysis }, h⟩ :=
    output_wide.dispatch (fun _ _ _ _ => trivial) start
  rw [s.reset_eq message revision code data analysis outside]
  exact ⟨trace_is_write_only host cost_table fuel 0 0 message.gas left _ s' h h' s.rw_trace id s.outside inside ran,
    frame_result_behind (output.returns (fun _ _ => trivial) ran).2⟩

/-- A state that has been used. -/
def used_state : ExecutionState :=
  { ExecutionState.new {} .SHANGHAI [] [] 0 (analyze_legacy []) fun _ => 7 with
    status := .REVERT
    gas_refund := 3
    rw_trace := [stack_operation 0 0 0 true 9] }

theorem reset_runs_as_new_add : ∃ (left : Int) (s' : ExecutionState),
    (@dispatch Unit no_hash empty_host (legacy_cost_table .SHANGHAI) 9 0 0 100
      ⟨{ used_state.reset { gas := 100 } .SHANGHAI summing_code [] with analysis := analyze_legacy summing_code },
        ()⟩).2 = some (left, ⟨s'.behind [stack_operation 0 0 0 true 9] id used_state.outside, ()⟩) ∧
      s'.status = .SUCCESS ∧ s'.memory.m_data 31 = 5 := by
  have ends : (@dispatch Unit no_hash empty_host (legacy_cost_table .SHANGHAI) 9 0 0 100
      ⟨{ used_state.new_on { gas := 100 } .SHANGHAI summing_code [] ⟨fun _ => 6, fun _ => 8⟩ with
          analysis := analyze_legacy summing_code }, ()⟩).2.map (fun r =>
        (r.2.state.status, r.2.state.memory.m_data 31)) = some (.SUCCESS, 5) := by
    decide +kernel
  have inside : ∀ e ∈ (@dispatch Unit no_hash empty_host (legacy_cost_table .SHANGHAI) 9 0 0 100).events
      ⟨{ used_state.new_on { gas := 100 } .SHANGHAI summing_code [] ⟨fun _ => 6, fun _ => 8⟩ with
          analysis := analyze_legacy summing_code }, ()⟩, e.StaysInside := by
    decide +kernel
  obtain ⟨⟨left, s', _⟩, ran, values⟩ := Option.map_eq_some_iff.mp ends
  obtain ⟨success, sum⟩ := Prod.mk.inj values
  obtain ⟨again, _⟩ := @reset_runs_as_new Unit no_hash empty_host (legacy_cost_table .SHANGHAI) 9 left used_state s'
    { gas := 100 } .SHANGHAI summing_code [] (analyze_legacy summing_code) ⟨fun _ => 6, fun _ => 8⟩ () () inside ran
  exact ⟨left, s', again, success, sum⟩

end EvmAssigner
