import EvmAssigner.EofLayout

namespace EvmAssigner
variable {H : Type}

/-- A code section that has been entered, and where its part of the stack begins. -/
structure CodeFrame where
  index : Nat
  base : Int

/-- The frame of a section whose inputs are on top of the stack. -/
def EOF1Header.enter (header : EOF1Header) (index : Nat) (stack_top : Int) : CodeFrame :=
  ⟨index, stack_top - (header.types.getD index default).inputs⟩

/-- The frames behind an instruction that names the section `callee`. -/
def frames_after (header : EOF1Header) (op : Opcode) (callee : Nat) (stack_top : Int) :
    List CodeFrame → List CodeFrame
  | [] => []
  | frame :: frames =>
    match op with
    | .CALLF => header.enter callee stack_top :: frame :: frames
    | .JUMPF => header.enter callee stack_top :: frames
    | .RETF => frames
    | _ => frame :: frames

theorem frames_after_other {header : EOF1Header} {op : Opcode} {callee : Nat} {h : Int} {frames : List CodeFrame}
    (callf : op ≠ .CALLF) (jumpf : op ≠ .JUMPF) (retf : op ≠ .RETF) :
    frames_after header op callee h frames = frames := by
  cases frames with
  | nil => rfl
  | cons frame frames =>
    rw [frames_after]
    · exact callf
    · exact jumpf
    · exact retf

theorem frames_after_callee {header : EOF1Header} {op : Opcode} {callee callee' : Nat} {h : Int}
    {frames : List CodeFrame} (same : op = .CALLF ∨ op = .JUMPF → callee = callee') :
    frames_after header op callee h frames = frames_after header op callee' h frames := by
  by_cases callf : op = .CALLF
  · rw [same (Or.inl callf)]
  by_cases jumpf : op = .JUMPF
  · rw [same (Or.inr jumpf)]
  by_cases retf : op = .RETF
  · subst retf
    cases frames with
    | nil => rfl
    | cons frame frames => rfl
  · rw [frames_after_other callf jumpf retf, frames_after_other callf jumpf retf]

/-- The frames behind the instruction a configuration is about to execute. -/
def Config.frames_after (c : Config H) (frames : List CodeFrame) : List CodeFrame :=
  match c.code_it, c.opcode with
  | some pos, some op => EvmAssigner.frames_after c.exec.state.analysis.eof_header op
      (c.exec.state.analysis.uint16_at (pos + 1)) c.stack_top frames
  | _, _ => frames

/-- A run, and the frames that its calls and returns leave; it starts in the first section. -/
inductive FramedRun [Ethash] (host : Host H) (cost_table : Opcode → Int) (c : Config H) :
    List Event → Config H → List CodeFrame → Prop
  | start : FramedRun host cost_table c [] c [⟨0, 0⟩]
  | next {es es' : List Event} {c' c'' : Config H} {frames : List CodeFrame}
      (run : FramedRun host cost_table c es c' frames) (executes : Executes host cost_table c' es' c'') :
      FramedRun host cost_table c (es ++ es') c'' (c'.frames_after frames)

theorem Run.framed [Ethash] {host : Host H} {cost_table : Opcode → Int} {c c' : Config H} {es : List Event}
    (run : Run host cost_table c es c') : ∃ frames, FramedRun host cost_table c es c' frames := by
  induction run with
  | start => exact ⟨_, .start⟩
  | next _ executes ih =>
    obtain ⟨frames, framed⟩ := ih
    exact ⟨_, framed.next executes⟩

section
variable (container : Bytes) (header : EOF1Header) (heights : Nat → Nat → Int)

/-- A frame whose section has room for all it may push. -/
structure FrameFits (frame : CodeFrame) : Prop where
  listed : frame.index < header.types.length
  nonneg : 0 ≤ frame.base
  room : frame.base + (header.types.getD frame.index default).max_stack_height ≤ 1024

/-- What lies under a running section. One that returns finds behind the end of its inputs, once these
are replaced by its outputs, the height that its caller has at the address it returns to. -/
inductive Suspended : CodeFrame → List CodeFrame → List Int → Prop
  | never {frame : CodeFrame} {frames : List CodeFrame} {call_stack : List Int}
      (stays : (header.types.getD frame.index default).outputs = NON_RETURNING_FUNCITON) :
      Suspended frame frames call_stack
  | returns {frame caller : CodeFrame} {frames : List CodeFrame} {call_stack : List Int} {r : Nat}
      (starts : Starts (header.get_code container caller.index) r) (fits : FrameFits header caller)
      (height : frame.base + (header.types.getD frame.index default).outputs =
        caller.base + heights caller.index r)
      (rest : Suspended caller frames call_stack) :
      Suspended frame (caller :: frames) (call_stack ++ [header.section_begin caller.index + r])

/-- Where a validated frame stands: on the start of an instruction, at the height that was computed
for it. -/
structure StandsAt (analysis : CodeAnalysis) (data : Bytes) (frame : CodeFrame) (frames : List CodeFrame)
    (i : Nat) (pos h : Int) (s : ExecutionState) : Prop where
  fits : FrameFits header frame
  suspended : Suspended container header heights frame frames s.call_stack
  starts : Starts (header.get_code container frame.index) i
  at_pos : pos = header.section_begin frame.index + i
  at_height : h = frame.base + heights frame.index i
  stays : Stays analysis data s.call_stack s

/-- What holds of a run and its frames, wherever it goes on. -/
def EofTyped (analysis : CodeAnalysis) (data : Bytes) (frames : List CodeFrame) (c : Config H) : Prop :=
  ∀ pos, c.code_it = some pos → ∃ frame rest i, frames = frame :: rest ∧
    StandsAt container header heights analysis data frame rest i pos c.stack_top c.exec.state

end

/-- What makes the stack higher goes on with the next instruction. -/
theorem grows_straight {op : Opcode} (grows : 0 < stack_height_change op) :
    falls_through op = true ∧ op ≠ .CALLF ∧ op ≠ .JUMPF ∧ op ≠ .RETF := by
  cases op with
  | LOG n =>
    have negative : stack_height_change (.LOG n) = -((n.val : Int) + 2) := rfl
    omega
  | PUSH n | DUP n => exact ⟨rfl, nofun, nofun, nofun⟩
  | SWAP n => exact absurd grows (lt_irrefl 0)
  | _ => revert grows; decide

section
variable {container : Bytes} {header : EOF1Header} {heights : Nat → Nat → Int} {analysis : CodeAnalysis}
  {data : Bytes} {frame : CodeFrame} {frames : List CodeFrame} {i : Nat} {pos h : Int} {s s' : ExecutionState}
  {op : Opcode} (typed : ContainerTyped container header heights)
  (stands : StandsAt container header heights analysis data frame frames i pos h s)
include typed stands

/-- The stack has what the instruction needs. -/
theorem StandsAt.operands (at_i : op_at (header.get_code container frame.index) i = op) :
    stack_height_required op ≤ h := by
  have sectioned := typed.sections frame.index stands.fits.listed
  have nonneg := sectioned.nonneg i stands.starts
  have base := stands.fits.nonneg
  have at_height := stands.at_height
  obtain ⟨required, change, effect, enough, _⟩ := sectioned.settled i stands.starts
  rw [at_i] at effect
  by_cases callf : op = .CALLF
  · have none : stack_height_required .CALLF = 0 := rfl
    rw [callf]
    omega
  by_cases jumpf : op = .JUMPF
  · have none : stack_height_required .JUMPF = 0 := rfl
    rw [jumpf]
    omega
  by_cases retf : op = .RETF
  · have none : stack_height_required .RETF = 0 := rfl
    rw [retf]
    omega
  rw [plain_effect callf jumpf retf] at effect
  obtain ⟨rfl, _⟩ := Prod.mk.inj (Except.ok.inj effect)
  omega

/-- The section has the height an instruction leaves at the one behind it. -/
theorem StandsAt.falls (at_i : op_at (header.get_code container frame.index) i = op)
    (falls : falls_through op = true) (callf : op ≠ .CALLF) :
    Starts (header.get_code container frame.index) (next_at (header.get_code container frame.index) i) ∧
      h + stack_height_change op =
        frame.base + heights frame.index (next_at (header.get_code container frame.index) i) := by
  have sectioned := typed.sections frame.index stands.fits.listed
  have at_height := stands.at_height
  obtain ⟨required, change, effect, enough, all⟩ := sectioned.settled i stands.starts
  have jumpf : op ≠ .JUMPF := by
    rintro rfl
    exact nomatch falls
  have retf : op ≠ .RETF := by
    rintro rfl
    exact nomatch falls
  rw [at_i, plain_effect callf jumpf retf] at effect
  obtain ⟨_, rfl⟩ := Prod.mk.inj (Except.ok.inj effect)
  obtain ⟨starts, height⟩ := all _ (next_mem_successors (by rw [at_i]; exact falls))
  exact ⟨starts, by omega⟩

/-- Nor where it jumps to is the height another one. -/
theorem StandsAt.jumps {rel : Int} (at_i : op_at (header.get_code container frame.index) i = op)
    (jumps : rel ∈ rel_offsets (header.get_code container frame.index) op i) :
    (op ≠ .CALLF ∧ op ≠ .JUMPF ∧ op ≠ .RETF) ∧ ∃ t : Nat,
      (next_at (header.get_code container frame.index) i : Int) + rel = t ∧
      Starts (header.get_code container frame.index) t ∧
      h + stack_height_change op = frame.base + heights frame.index t := by
  have sectioned := typed.sections frame.index stands.fits.listed
  have at_height := stands.at_height
  have plain : op ≠ .CALLF ∧ op ≠ .JUMPF ∧ op ≠ .RETF := by
    refine ⟨?_, ?_, ?_⟩
    all_goals
      rintro rfl
      exact absurd jumps List.not_mem_nil
  obtain ⟨required, change, effect, _, all⟩ := sectioned.settled i stands.starts
  have forward := sectioned.forward i stands.starts rel (by rw [at_i]; exact jumps)
  have target : ((next_at (header.get_code container frame.index) i : Int) + rel).toNat ∈
      successors (header.get_code container frame.index) i := by
    refine List.mem_append_right _ (List.mem_map.mpr ⟨rel, ?_, rfl⟩)
    rw [at_i]
    exact jumps
  rw [at_i, plain_effect plain.1 plain.2.1 plain.2.2] at effect
  obtain ⟨_, rfl⟩ := Prod.mk.inj (Except.ok.inj effect)
  obtain ⟨starts, height⟩ := all _ target
  exact ⟨plain, _, (Int.toNat_of_nonneg forward).symm, starts, by omega⟩

/-- The stack has room for what the instruction pushes. -/
theorem StandsAt.space (at_i : op_at (header.get_code container frame.index) i = op)
    (grows : 0 < stack_height_change op) : h < 1024 := by
  obtain ⟨falls, callf, _, _⟩ := grows_straight grows
  obtain ⟨starts, height⟩ := stands.falls typed at_i falls callf
  have bounded := (typed.sections frame.index stands.fits.listed).bounded _ starts
  have room := stands.fits.room
  omega

omit stands in
theorem ContainerTyped.limited_at {index : Nat} (listed : index < header.types.length) :
    (header.types.getD index default).Limited := by
  rw [List.getD_eq_getElem?_getD, List.getElem?_eq_getElem listed, Option.getD_some]
  exact typed.limited _ (List.getElem_mem listed)

/-- A section with an instruction that returns has outputs to return. -/
theorem StandsAt.own_outputs
    (returns : returns_at (header.get_code container frame.index) header.types i = true) :
    (header.types.getD frame.index default).outputs ≠ NON_RETURNING_FUNCITON ∧
      (header.types.getD frame.index default).outputs ≤ 127 := by
  have own := (typed.sections frame.index stands.fits.listed).returning i stands.starts returns
  exact ⟨own, (typed.limited_at stands.fits.listed).outputs.resolve_right own⟩

omit stands in
/-- A section that is entered stands on its first instruction. -/
theorem enters {callee : EOFCodeType} {index : Nat} {call_stack : List Int}
    (at_callee : header.types[index]? = some callee)
    (enough : callee.inputs ≤ h) (room : h + (callee.max_stack_height - callee.inputs) ≤ 1024)
    (suspended : Suspended container header heights (header.enter index h) frames call_stack)
    (stays : Stays analysis data call_stack s') :
    StandsAt container header heights analysis data (header.enter index h) frames 0
      (header.section_begin index) h s' := by
  have listed : index < header.types.length := (List.getElem?_eq_some_iff.mp at_callee).1
  have type : header.types.getD index default = callee := by
    rw [List.getD_eq_getElem?_getD, at_callee, Option.getD_some]
  have sectioned := typed.sections index listed
  have base : (header.enter index h).base = h - callee.inputs := by rw [EOF1Header.enter, type]
  have height : (header.types.getD (header.enter index h).index default).max_stack_height =
      callee.max_stack_height := congrArg EOFCodeType.max_stack_height type
  have same : s'.call_stack = call_stack := stays.call_stack
  refine ⟨⟨listed, by omega, by omega⟩, same.symm ▸ suspended, ⟨.here, sectioned.some_code⟩,
    (add_zero _).symm, ?_, ⟨stays.analysis, stays.data, rfl⟩⟩
  have entry : heights (header.enter index h).index 0 = callee.inputs := sectioned.entry.trans (by rw [type])
  omega

/-- Entering a section leaves the caller's frame to be returned to. -/
theorem StandsAt.callf (at_i : op_at (header.get_code container frame.index) i = .CALLF)
    (room : h + ((header.types.getD (uint16_be_at (header.get_code container frame.index) (i + 1))
        default).max_stack_height -
      (header.types.getD (uint16_be_at (header.get_code container frame.index) (i + 1)) default).inputs) ≤ 1024)
    (stays : Stays analysis data (s.call_stack ++ [header.section_begin frame.index +
      next_at (header.get_code container frame.index) i]) s') :
    StandsAt container header heights analysis data
      (header.enter (uint16_be_at (header.get_code container frame.index) (i + 1)) h) (frame :: frames) 0
      (header.section_begin (uint16_be_at (header.get_code container frame.index) (i + 1))) h s' := by
  have sectioned := typed.sections frame.index stands.fits.listed
  have base := stands.fits.nonneg
  have at_height := stands.at_height
  obtain ⟨required, change, effect, enough, all⟩ := sectioned.settled i stands.starts
  obtain ⟨callee, at_callee, returns⟩ := (sectioned.valid i stands.starts).callf at_i
  rw [at_i] at effect
  obtain ⟨rfl, rfl⟩ := callf_effect at_callee (typed.limited callee (callee_mem at_callee)) returns effect
  rw [callee_getD at_callee] at room
  obtain ⟨starts, height⟩ := all _ (next_mem_successors (by rw [at_i]; rfl))
  refine enters typed at_callee (by omega) room (.returns starts stands.fits ?_ stands.suspended) stays
  have type : header.types.getD (header.enter (uint16_be_at (header.get_code container frame.index) (i + 1))
      h).index default = callee := callee_getD at_callee
  have at_base : (header.enter (uint16_be_at (header.get_code container frame.index) (i + 1)) h).base =
      h - callee.inputs := by rw [EOF1Header.enter, callee_getD at_callee]
  rw [type, at_base]
  omega

/-- Going over to a section leaves nothing to return to but what the own section returns to. -/
theorem StandsAt.jumpf (at_i : op_at (header.get_code container frame.index) i = .JUMPF)
    (room : h + ((header.types.getD (uint16_be_at (header.get_code container frame.index) (i + 1))
        default).max_stack_height -
      (header.types.getD (uint16_be_at (header.get_code container frame.index) (i + 1)) default).inputs) ≤ 1024)
    (stays : Stays analysis data s.call_stack s') :
    StandsAt container header heights analysis data
      (header.enter (uint16_be_at (header.get_code container frame.index) (i + 1)) h) frames 0
      (header.section_begin (uint16_be_at (header.get_code container frame.index) (i + 1))) h s' := by
  have sectioned := typed.sections frame.index stands.fits.listed
  have base := stands.fits.nonneg
  have at_height := stands.at_height
  have nonneg := sectioned.nonneg i stands.starts
  obtain ⟨required, change, effect, enough, _⟩ := sectioned.settled i stands.starts
  obtain ⟨callee, at_callee⟩ := (sectioned.valid i stands.starts).jumpf at_i
  have limited := typed.limited callee (callee_mem at_callee)
  rw [callee_getD at_callee] at room
  have type : header.types.getD (header.enter (uint16_be_at (header.get_code container frame.index) (i + 1))
      h).index default = callee := callee_getD at_callee
  have at_base : (header.enter (uint16_be_at (header.get_code container frame.index) (i + 1)) h).base =
      h - callee.inputs := by rw [EOF1Header.enter, callee_getD at_callee]
  rw [at_i] at effect
  by_cases returns : callee.outputs = NON_RETURNING_FUNCITON
  · obtain rfl := jumpf_effect at_callee limited returns effect
    exact enters typed at_callee (by omega) room (.never (by rw [type]; exact returns)) stays
  · have returning : returns_at (header.get_code container frame.index) header.types i = true := by
      rw [returns_at, at_i]
      show (callee_at _ _ _).any _ = _
      rw [show callee_at (header.get_code container frame.index) header.types i = some callee from at_callee]
      exact decide_eq_true returns
    obtain ⟨own, outputs⟩ := stands.own_outputs typed returning
    obtain ⟨_, height⟩ := jumpf_effect_returning at_callee limited outputs returns nonneg effect enough
    have suspended := stands.suspended
    obtain ⟨call_stack, at_stack⟩ : ∃ call_stack, s.call_stack = call_stack := ⟨_, rfl⟩
    rw [at_stack] at suspended stays
    cases suspended with
    | never stays => exact absurd stays own
    | returns starts fits at_caller rest =>
      refine enters typed at_callee (by omega) room (.returns starts fits ?_ rest) stays
      rw [type, at_base]
      omega

/-- A section that returns leaves its caller at the height that was computed for the address. -/
theorem StandsAt.retf (at_i : op_at (header.get_code container frame.index) i = .RETF) :
    s.call_stack ≠ [] ∧ ∃ caller rest r, frames = caller :: rest ∧
      ∀ s', Stays analysis data s.call_stack.dropLast s' →
        StandsAt container header heights analysis data caller rest r (s.call_stack.getLastD 0) h s' := by
  have sectioned := typed.sections frame.index stands.fits.listed
  have at_height := stands.at_height
  obtain ⟨required, change, effect, enough, _⟩ := sectioned.settled i stands.starts
  obtain ⟨own, outputs⟩ := stands.own_outputs typed (by rw [returns_at, at_i])
  rw [at_i] at effect
  have height := retf_effect outputs effect enough
  have suspended := stands.suspended
  obtain ⟨call_stack, at_stack⟩ : ∃ call_stack, s.call_stack = call_stack := ⟨_, rfl⟩
  rw [at_stack] at suspended ⊢
  cases suspended with
  | never stays => exact absurd stays own
  | @returns _ caller rest call_stack r starts fits at_caller below =>
    refine ⟨by simp, caller, rest, r, rfl, fun s' stays => ?_⟩
    rw [List.dropLast_concat] at stays
    have same : s'.call_stack = call_stack := stays.call_stack
    rw [List.getLastD_concat]
    exact ⟨fits, same.symm ▸ below, starts, rfl, by omega, ⟨stays.analysis, stays.data, rfl⟩⟩

/-- Wherever an instruction leads, the frames behind it stand there. -/
theorem StandsAt.leads {pos' : Int} (at_i : op_at (header.get_code container frame.index) i = op)
    (same : analysis.eof_header = header)
    (leads : EofLeads analysis data (header.get_code container frame.index) (header.section_begin frame.index) i h
      s s' pos') :
    ∃ frame' rest i', frames_after header op (uint16_be_at (header.get_code container frame.index) (i + 1)) h
        (frame :: frames) = frame' :: rest ∧
      StandsAt container header heights analysis data frame' rest i' pos' (h + stack_height_change op) s' := by
  have at_height := stands.at_height
  rcases leads with ⟨falls, callf, stays⟩ | ⟨jumps, stays⟩ | ⟨callf, room, stays⟩ | ⟨jumpf, room, stays⟩ |
    ⟨retf, stays⟩
  · rw [at_i] at falls callf
    obtain ⟨starts, height⟩ := stands.falls typed at_i falls callf
    have jumpf : op ≠ .JUMPF := by
      rintro rfl
      exact nomatch falls
    have retf : op ≠ .RETF := by
      rintro rfl
      exact nomatch falls
    rw [frames_after_other callf jumpf retf]
    refine ⟨frame, frames, _, rfl, stands.fits, ?_, starts, rfl, height, ⟨stays.analysis, stays.data, rfl⟩⟩
    rw [stays.call_stack]
    exact stands.suspended
  · rw [at_i] at jumps
    obtain ⟨plain, t, at_target, starts, height⟩ := stands.jumps typed at_i jumps
    rw [frames_after_other plain.1 plain.2.1 plain.2.2, at_target]
    refine ⟨frame, frames, _, rfl, stands.fits, ?_, starts, rfl, height, ⟨stays.analysis, stays.data, rfl⟩⟩
    rw [stays.call_stack]
    exact stands.suspended
  · obtain rfl := at_i.symm.trans callf
    rw [same] at room ⊢
    have none : h + stack_height_change .CALLF = h := add_zero h
    rw [none]
    exact ⟨_, _, 0, rfl, stands.callf typed callf room stays⟩
  · obtain rfl := at_i.symm.trans jumpf
    rw [same] at room ⊢
    have none : h + stack_height_change .JUMPF = h := add_zero h
    rw [none]
    exact ⟨_, _, 0, rfl, stands.jumpf typed jumpf room stays⟩
  · obtain rfl := at_i.symm.trans retf
    obtain ⟨_, caller, rest, r, rfl, lands⟩ := stands.retf typed retf
    have none : h + stack_height_change .RETF = h := add_zero h
    rw [none]
    exact ⟨caller, rest, r, rfl, lands s' stays⟩

end
section
variable {container : Bytes} {header : EOF1Header} {heights : Nat → Nat → Int} {analysis : CodeAnalysis}
  {data : Bytes} {frames : List CodeFrame} (typed : ContainerTyped container header heights)
  (located : Located container header analysis data)

/-- The instruction a typed frame stands on, and the section it may name. -/
theorem StandsAt.opcode {frame : CodeFrame} {i : Nat} {pos : Int} {c : Config H}
    (typed : ContainerTyped container header heights) (located : Located container header analysis data)
    (at_it : c.code_it = some pos)
    (stands : StandsAt container header heights analysis data frame frames i pos c.stack_top c.exec.state) :
    c.opcode = some (op_at (header.get_code container frame.index) i) ∧
      c.frames_after (frame :: frames) = EvmAssigner.frames_after header
        (op_at (header.get_code container frame.index) i)
        (uint16_be_at (header.get_code container frame.index) (i + 1)) c.stack_top (frame :: frames) := by
  have reads := located.reads frame.index stands.fits.listed
  have valid := (typed.sections frame.index stands.fits.listed).valid i stands.starts
  have opcode : c.opcode = some (op_at (header.get_code container frame.index) i) := by
    rw [Config.opcode, at_it, Option.bind_some, stands.stays.analysis, stands.at_pos, reads i stands.starts.2]
    exact valid.named
  refine ⟨opcode, ?_⟩
  rw [Config.frames_after, at_it, opcode]
  show frames_after _ _ _ _ _ = _
  rw [stands.stays.analysis, located.header, stands.at_pos]
  refine frames_after_callee fun names => immediate_eq reads ?_
  have whole := valid.whole
  rcases names with callf | jumpf
  · rw [next_at_other callf (by decide)] at whole
    have width : immediate_size .CALLF = 2 := rfl
    omega
  · rw [next_at_other jumpf (by decide)] at whole
    have width : immediate_size .JUMPF = 2 := rfl
    omega

variable [Ethash] {host : Host H}
include typed located

/-- A turn leads from one typed frame to another. -/
theorem EofTyped.executes {es : List Event} {c c' : Config H}
    (inv : EofTyped container header heights analysis data frames c)
    (executes : Executes host (get_baseline_cost_table .PRAGUE 1) c es c') :
    EofTyped container header heights analysis data (c.frames_after frames) c' := by
  obtain ⟨_, pos, at_it, h⟩ := executes
  obtain ⟨frame, rest, i, rfl, stands⟩ := inv pos at_it
  obtain ⟨opcode, after⟩ := stands.opcode typed located at_it
  have turned : Action.wlp any_event (turn host (get_baseline_cost_table .PRAGUE 1) pos c.stack_top c.gas)
      (fun next e => ∀ pos', next.code_it = some pos' → ∃ frame' rest' i',
        c.frames_after (frame :: rest) = frame' :: rest' ∧
          StandsAt container header heights analysis data frame' rest' i' pos' next.stack_top e.state)
      c.exec := by
    refine wlp_turn_leads (CodeQuiet.code_access _ _) (fun _ _ _ _ _ ends => nomatch ends)
      fun op name _ _ _ => ?_
    have at_i : op_at (header.get_code container frame.index) i = op := by
      rw [Config.opcode, at_it] at opcode
      exact Option.some.inj (opcode.symm.trans name)
    have valid := (typed.sections frame.index stands.fits.listed).valid i stands.starts
    have leads : Action.wlp any_event (invoke_impl (map_opcodes host
          (op_at (header.get_code container frame.index) i)) (header.section_begin frame.index + i) c.stack_top
          (int64 (c.gas - base_cost (get_baseline_cost_table .PRAGUE 1) op)))
        (fun next e => ∀ pos', next.1 = some pos' → EofLeads analysis data (header.get_code container frame.index)
          (header.section_begin frame.index) i c.stack_top c.exec.state e.state pos') c.exec :=
      eof_leads (located.reads frame.index stands.fits.listed) valid stands.starts.2 stands.stays
    rw [at_i, ← stands.at_pos] at leads
    refine leads.mono fun next e leads pos' going => ?_
    rw [after, at_i]
    exact stands.leads typed at_i located.header (leads pos' going)
  exact (turned.returns_of_eq h fun _ _ => trivial).2

theorem EofTyped.run {es : List Event} {c c' : Config H}
    (start : EofTyped container header heights analysis data [⟨0, 0⟩] c)
    (run : FramedRun host (get_baseline_cost_table .PRAGUE 1) c es c' frames) :
    EofTyped container header heights analysis data frames c' := by
  induction run with
  | start => exact start
  | next _ executes ih => exact ih.executes typed located executes

end

/-- A run starts in the first section, which takes nothing and does not return. -/
theorem EofTyped.start {container : Bytes} {header : EOF1Header} {heights : Nat → Nat → Int}
    {analysis : CodeAnalysis} {data : Bytes} {msg : Message} {call_id : Nat} {heap : Nat → UInt8} {h : H}
    (typed : ContainerTyped container header heights) :
    EofTyped container header heights analysis data [⟨0, 0⟩]
      (.start (.new msg .PRAGUE container data call_id analysis heap) h) := by
  intro pos at_it
  obtain rfl : 0 = pos := Option.some.inj at_it
  obtain ⟨first, at_first, inputs, outputs⟩ := typed.first
  have listed : 0 < header.types.length := by
    rw [List.length_pos_iff]
    rintro none
    rw [none] at at_first
    exact nomatch at_first
  have type : header.types.getD 0 default = first := by
    rw [List.getD_eq_getElem?_getD, ← List.head?_eq_getElem?, at_first, Option.getD_some]
  have sectioned := typed.sections 0 listed
  have height : first.max_stack_height ≤ 1023 := by
    rw [← type]
    exact (typed.limited_at listed).height
  have entry : heights 0 0 = (0 : Nat) := by rw [sectioned.entry, type, inputs]
  refine ⟨⟨0, 0⟩, [], 0, rfl, ⟨listed, le_rfl, ?_⟩, .never ?_, ⟨.here, sectioned.some_code⟩, ?_, ?_, ⟨rfl, rfl, rfl⟩⟩
  · show (0 : Int) + (header.types.getD 0 default).max_stack_height ≤ 1024
    rw [type]
    omega
  · show (header.types.getD 0 default).outputs = _
    rw [type, outputs]
  · show (0 : Int) = (header.code_offsets.getD 0 0 : Int) - header.code_offsets.getD 0 0 + 0
    omega
  · show (0 : Int) = 0 + heights 0 0
    omega

/-- What the validation promises for a frame that goes on at `pos`, with the frames `frames`. -/
structure EofSound (container : Bytes) (analysis : CodeAnalysis) (data : Bytes) (pos : Int) (c : Config H)
    (frame : CodeFrame) (i : Nat) (heights : Nat → Int) : Prop where
  listed : frame.index < analysis.eof_header.types.length
  at_pos : pos = analysis.eof_header.section_begin frame.index + i
  starts : Starts (analysis.eof_header.get_code container frame.index) i
  opcode : c.opcode = some (op_at (analysis.eof_header.get_code container frame.index) i)
  whole : next_at (analysis.eof_header.get_code container frame.index) i ≤
    (analysis.eof_header.get_code container frame.index).length
  computed : section_heights (analysis.eof_header.get_code container frame.index) analysis.eof_header.types
    (analysis.eof_header.types.getD frame.index default) = .ok heights
  height : c.stack_top - frame.base = heights i
  returns : c.opcode = some .RETF → c.exec.state.call_stack ≠ []
  data_size : data.length = analysis.eof_header.data_size
  loads : c.opcode = some .DATALOADN → c.exec.state.data = data ∧
    c.exec.state.analysis.uint16_at (pos + 1) + 32 ≤ data.length
  requirements : (check_requirements (get_baseline_cost_table .PRAGUE analysis.eof_header.version) c.gas
    c.stack_top c.opcode).1 ∉ [.STACK_UNDERFLOW, .STACK_OVERFLOW]

theorem EofTyped.sound {container : Bytes} {header : EOF1Header} {heights : Nat → Nat → Int}
    {analysis : CodeAnalysis} {data : Bytes} {frames : List CodeFrame} {c : Config H} {pos : Int}
    (typed : ContainerTyped container header heights) (located : Located container header analysis data)
    (inv : EofTyped container header heights analysis data frames c) (at_it : c.code_it = some pos) :
    ∃ frame rest i heights, frames = frame :: rest ∧ EofSound container analysis data pos c frame i heights := by
  obtain ⟨frame, rest, i, rfl, stands⟩ := inv pos at_it
  have sectioned := typed.sections frame.index stands.fits.listed
  have valid := sectioned.valid i stands.starts
  have reads := located.reads frame.index stands.fits.listed
  have at_height := stands.at_height
  obtain ⟨opcode, _⟩ := stands.opcode typed located at_it
  obtain rfl := located.header
  refine ⟨frame, rest, i, heights frame.index, rfl, stands.fits.listed, stands.at_pos, stands.starts, opcode,
    valid.whole, sectioned.computed, by omega, fun retf => ?_, located.data, fun load => ?_, ?_⟩
  · rw [opcode] at retf
    exact (stands.retf typed (Option.some.inj retf)).1
  · rw [opcode] at load
    have at_i := Option.some.inj load
    have whole := valid.whole
    rw [next_at_other at_i nofun] at whole
    have width : immediate_size .DATALOADN = 2 := rfl
    refine ⟨stands.stays.data, ?_⟩
    rw [stands.stays.analysis, stands.at_pos, immediate_eq reads (by omega), located.data]
    exact valid.dataloadn at_i
  · rw [opcode]
    have operands := stands.operands typed rfl
    have space := stands.space typed rfl
    generalize op_at (analysis.eof_header.get_code container frame.index) i = op at operands space
    unfold check_requirements
    simp only
    split_ifs with undefined_ overflow underflow
    · simp
    · have := space overflow.1
      omega
    · omega
    · simp
    · simp

/-- What is accepted is prepared for execution, typed, and where its header says. -/
theorem validated_ready {container : Bytes} (accepted : validate_eof .PRAGUE container = .success)
    (fit : CodeOffsetsFit container) :
    ∃ header heights analysis data, validate_eof1 .PRAGUE container = .ok header ∧
      analyze_eof1 container = some analysis ∧ prepare .PRAGUE container = .ready analysis data ∧
      analysis.eof_header.version = 1 ∧ ContainerTyped container header heights ∧
      Located container header analysis data := by
  obtain ⟨is_eof, version, early, header, built⟩ := validate_eof_success_iff.mp accepted
  obtain ⟨heights, typed, analysis, data, analysed, found, located⟩ := validated_typed built version fit
  have ready : prepare .PRAGUE container = .ready analysis data := by
    refine prepare_ready_iff.mpr ⟨?_, by rw [located.header]; exact found⟩
    rw [analyze, if_neg (not_or.mpr ⟨early, not_not.mpr is_eof⟩)]
    exact analysed
  exact ⟨header, heights, analysis, data, built, analysed, ready, by rw [located.header, typed.version], typed,
    located⟩

/-- EOF code that has been accepted runs as it was typed, in every run that writes nowhere else: its call stack and its
analysis are then still its own. -/
theorem eof_sound [Ethash] (host : Host H) (msg : Message) (call_id : Nat) (heap : Nat → UInt8) (h : H)
    {container : Bytes} (accepted : validate_eof .PRAGUE container = .success)
    (fit : CodeOffsetsFit container) :
    ∃ analysis data, prepare .PRAGUE container = .ready analysis data ∧
      ∀ es c, Run host (get_baseline_cost_table .PRAGUE analysis.eof_header.version)
          (.start (.new msg .PRAGUE container data call_id analysis heap) h) es c → (∀ e ∈ es, Confines e) →
        c.exec.state.Unspoiled heap ∧
        ∃ frames, FramedRun host (get_baseline_cost_table .PRAGUE analysis.eof_header.version)
            (.start (.new msg .PRAGUE container data call_id analysis heap) h) es c frames ∧
          ∀ pos, c.code_it = some pos → ∃ frame rest i heights, frames = frame :: rest ∧
            EofSound container analysis data pos c frame i heights := by
  obtain ⟨header, heights, analysis, data, _, _, ready, one, typed, located⟩ := validated_ready accepted fit
  refine ⟨analysis, data, ready, fun es c run confined => ⟨run.unspoiled confined, ?_⟩⟩
  obtain ⟨frames, framed⟩ := run.framed
  rw [one] at framed ⊢
  have start : EofTyped container header heights analysis data [⟨0, 0⟩]
      (.start (.new msg .PRAGUE container data call_id analysis heap) h) := .start typed
  exact ⟨frames, framed, fun pos at_it => (start.run typed located framed).sound typed located at_it⟩

/-- A container with two sections: one that calls the other and stops, and one that returns. -/
def calling_container : Bytes :=
  [0xef, 0, 1, 1, 0, 8, 2, 0, 2, 0, 4, 0, 1, 4, 0, 0, 0, 0, 0x80, 0, 0, 0, 0, 0, 0, 0xe3, 0, 1, 0, 0xe4]

theorem calling_container_fits : CodeOffsetsFit calling_container := by
  have valid : HeadersValid calling_container 8 [4, 1] 0 := {
    type_id := rfl
    at_type_size := rfl
    code_id := rfl
    code_num := rfl
    at_code_sizes := sizesAt_cons.mpr ⟨rfl, sizesAt_cons.mpr ⟨rfl, fun _ none => absurd none (Nat.not_lt_zero _)⟩⟩
    data_id := rfl
    at_data_size := rfl
    terminator := rfl
    some_code := by decide
    few_sections := by decide
    no_empty_code := by decide
    type_entries := rfl
    bodies := rfl }
  exact valid.offsets_fit_iff.mpr ⟨by decide, by decide, trivial⟩

/-- The second section is entered, and finds the call stack that it returns by. -/
theorem eof_sound_callf : ∃ analysis data, prepare .PRAGUE calling_container = .ready analysis data ∧
    ∃ es c, @Run _ no_hash empty_host (get_baseline_cost_table .PRAGUE analysis.eof_header.version)
        (.start (.new { gas := 100 } .PRAGUE calling_container data 0 analysis fun _ => 0) ()) es c ∧
      c.opcode = some .RETF ∧ c.exec.state.Unspoiled (fun _ => 0) ∧ c.exec.state.call_stack ≠ [] := by
  obtain ⟨analysis, data, ready, sound⟩ := @eof_sound _ no_hash empty_host { gas := 100 } 0 (fun _ => 0) ()
    calling_container (by decide) calling_container_fits
  have entered : ∃ analysis' data', prepare .PRAGUE calling_container = .ready analysis' data' ∧
      (@traced_turns Unit no_hash empty_host (get_baseline_cost_table .PRAGUE analysis'.eof_header.version) 1
        (.start (.new { gas := 100 } .PRAGUE calling_container data' 0 analysis' fun _ => 0) ())).map (fun r =>
          (decide (∀ e ∈ r.1, Confines e), r.2.code_it, r.2.opcode)) = some (true, some 4, some .RETF) :=
    ⟨_, _, rfl, by decide +kernel⟩
  obtain ⟨analysis', data', ready', values⟩ := entered
  obtain ⟨rfl, rfl⟩ := Preparation.ready.inj (ready.symm.trans ready')
  obtain ⟨⟨es, c⟩, reached, values⟩ := Option.map_eq_some_iff.mp values
  simp only [Prod.mk.injEq] at values
  obtain ⟨confined, at_it, opcode⟩ := values
  have run := @Run.traced Unit no_hash _ _ _ _ _ _ reached
  obtain ⟨unspoiled, _, _, stands⟩ := sound es c run (of_decide_eq_true confined)
  obtain ⟨_, _, _, _, _, here⟩ := stands 4 at_it
  exact ⟨analysis, data, ready, es, c, run, opcode, unspoiled, here.returns opcode⟩

/-- The same, but that the second section gives `SWAP_TOP` a depth below the stack before it returns. -/
def spoiling_container : Bytes :=
  [0xef, 0, 1, 1, 0, 8, 2, 0, 2, 0, 4, 0, 7, 4, 0, 0, 0, 0, 0x80, 0, 0, 0, 0, 0, 2, 0xe3, 0, 1, 0,
    0x60, 2, 0x60, 1, 0xa6, 0x50, 0xe4]

theorem spoiling_container_fits : CodeOffsetsFit spoiling_container := by
  have valid : HeadersValid spoiling_container 8 [4, 7] 0 := {
    type_id := rfl
    at_type_size := rfl
    code_id := rfl
    code_num := rfl
    at_code_sizes := sizesAt_cons.mpr ⟨rfl, sizesAt_cons.mpr ⟨rfl, fun _ none => absurd none (Nat.not_lt_zero _)⟩⟩
    data_id := rfl
    at_data_size := rfl
    terminator := rfl
    some_code := by decide
    few_sections := by decide
    no_empty_code := by decide
    type_entries := rfl
    bodies := rfl }
  exact valid.offsets_fit_iff.mpr ⟨by decide, by decide, trivial⟩

/-- It puts 2 over `analysis` and `call_stack`, and `RETF` returns by what is there. -/
theorem eof_spoiled_swap_top : validate_eof .PRAGUE spoiling_container = .success ∧
    CodeOffsetsFit spoiling_container ∧
    ∃ analysis data, prepare .PRAGUE spoiling_container = .ready analysis data ∧
      ∃ es c, @Run _ no_hash empty_host (get_baseline_cost_table .PRAGUE analysis.eof_header.version)
          (.start (.new { gas := 100 } .PRAGUE spoiling_container data 0 analysis fun _ => 0) ()) es c ∧
        c.opcode = some .RETF ∧ ¬ c.exec.state.Unspoiled fun _ => 0 := by
  refine ⟨by decide, spoiling_container_fits, ?_⟩
  have written : ∃ analysis data, prepare .PRAGUE spoiling_container = .ready analysis data ∧
      (@turns Unit no_hash empty_host (get_baseline_cost_table .PRAGUE analysis.eof_header.version) 5
        (.start (.new { gas := 100 } .PRAGUE spoiling_container data 0 analysis fun _ => 0) ())).map (fun c =>
          (c.opcode, c.exec.state.stack_space (-1))) = some (some .RETF, 2) :=
    ⟨_, _, rfl, by decide +kernel⟩
  obtain ⟨analysis, data, ready, values⟩ := written
  obtain ⟨c, reached, values⟩ := Option.map_eq_some_iff.mp values
  obtain ⟨opcode, written⟩ := Prod.mk.inj values
  obtain ⟨es, run⟩ := @Run.turns Unit no_hash _ _ _ _ _ _ _ (@Run.start Unit no_hash _ _ _) reached
  refine ⟨analysis, data, ready, es, c, run, opcode, fun unspoiled => ?_⟩
  rw [unspoiled.stack (-1) (by decide)] at written
  exact absurd written (by decide)

end EvmAssigner
