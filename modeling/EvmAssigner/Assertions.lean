import EvmAssigner.StackBounds
import EvmAssigner.VmStorage
import EvmAssigner.VmRuns

namespace EvmAssigner

/-- How many items a push records. -/
def Opcode.recorded_items : Opcode → Nat
  | .PUSH n => (n.val + 1) / 32 + (n.val + 1) % 32
  | _ => 0

/-- What the assertions inside an instruction ask of the stack. -/
def OperandsFit (op : Opcode) (stack_top : Int) (s : ExecutionState) : Prop :=
  let top := s.stack_space (stack_top - 1)
  op.recorded_items ≤ stack_top + 1 ∧
    (op = .DUP_TOP → int32 top.to_uint64 < 2 ^ 31 - 1 ∧
      stack_address (stack_top - 1) (int32 top.to_uint64 - 1) < 1024) ∧
    (op = .SWAP_TOP → top < 2 ^ 31 - 1 ∧ 2 ≤ stack_top ∧
      stack_address (stack_top - 1) (uint16 top.to_uint64) < 1024 ∧
      stack_address (stack_top - 1) (uint16 top.to_uint64 - 1) < 1024)

instance {op : Opcode} {stack_top : Int} {s : ExecutionState} : Decidable (OperandsFit op stack_top s) :=
  inferInstanceAs (Decidable (_ ∧ _))

/-- The cost table of a frame. -/
def ExecutionState.cost_table (s : ExecutionState) : Opcode → Int :=
  get_baseline_cost_table s.rev s.analysis.eof_header.version

/-- The byte names an instruction, and if that passes `check_requirements`, the stack is as its assertions
want it. -/
def Step.Fits (step : Step) : Prop :=
  ∃ op ∈ Opcode.of_byte step.byte,
    (check_requirements step.state.cost_table step.gas step.stack_top (some op)).1 = .SUCCESS →
      OperandsFit op step.stack_top step.state

instance {step : Step} : Decidable step.Fits := inferInstanceAs (Decidable (∃ op ∈ Opcode.of_byte step.byte, _ → _))

/-- Whether an assertion fails, at any depth. -/
def Event.fires : Event → Bool
  | .assertion_failed _ => true
  | .nested e => fires e
  | _ => false

abbrev StepsFit (e : Event) : Prop := ∀ step ∈ e.announced, step.Fits

abbrev unfired : Action.Contract Event := ⟨StepsFit, fun e => e.fires = false⟩

instance : VectorQuiet unfired := ⟨fun _ _ => ⟨by simp [StepsFit, Event.announced], rfl⟩⟩

instance : CodeQuiet unfired := ⟨fun _ _ => ⟨by simp [StepsFit, Event.announced], rfl⟩⟩

section
variable {H : Type} {exec : Exec H} {s : ExecutionState} {h pos left gas stack i : Int} {α : Type}

/-- What instructions do with the stack includes that no assertion fails. -/
theorem live_unfired {m : Instr H α} {Q : α → Exec H → Prop} {top : Int}
    (keeps : Action.wlp (live 0 False unfired top) m Q exec) : Action.wlp unfired m Q exec := by
  refine keeps.weaken (fun e fits => ?_) fun e ensured => ?_
  · cases e with
    | nested e => exact fits
    | _ => trivial
  · cases e with
    | assertion_failed what =>
      rcases ensured with ⟨_, large⟩ | ⟨_, impossible⟩
      · exact absurd (by decide) large
      · exact impossible.elim
    | nested e => exact ensured
    | _ => rfl

theorem unfired_assert {what : Assertion} {holds : Prop} [Decidable holds] {Q : Unit → ExecutionState → Prop} :
    Action.wlp unfired (assert_that what holds) Q s ↔ holds ∧ Q () s := by
  unfold assert_that
  by_cases h : holds
  · simp [h]
  · simp [h, Event.announced, Event.fires]

theorem unfired_stack_get {Q : Word → ExecutionState → Prop} (each : Q (s.stack_space (stack - 1 - i)) s) :
    Action.wlp unfired (stack_get stack i) Q s := by
  simp only [stack_get, Action.wlp_bind, Action.wlp_emit, Action.wlp_gets]
  exact fun _ => ⟨rfl, each⟩

theorem unfired_stack_set {v : Word} {Q : Unit → ExecutionState → Prop}
    (each : Q () (s.set_slot (stack - 1 - i) v)) : Action.wlp unfired (stack_set stack i v) Q s := by
  simp only [stack_set, Action.wlp_bind, Action.wlp_emit, Action.wlp_modify]
  exact fun _ => ⟨rfl, each⟩

/-- An entry at an address of the stack is recorded without an assertion failing. -/
theorem unfired_record {is_write : Bool} {Q : Unit → ExecutionState → Prop} (tidy : Tidy 0 s)
    (within : stack_address stack i < 1024)
    (each : Tidy 0 (s.record stack i is_write) → Q () (s.record stack i is_write)) :
    Action.wlp unfired (record_stack stack i is_write) Q s := by
  have address : (stack_address stack i : Int) = _ := stack_address_mod
  have id : s.call_id < 2 ^ 28 := by
    rw [tidy.call_id]
    decide
  simp only [record_stack, Action.wlp_bind, Action.wlp_get, Action.wlp_emit, Action.wlp_modify]
  refine unfired_assert.mpr ⟨id, unfired_assert.mpr ⟨within, fun _ => ⟨rfl, each ?_⟩⟩⟩
  exact tidy_record.mpr ⟨by omega, tidy⟩

/-- Below the items an instruction needs, the addresses are those of the stack. -/
theorem stack_address_live (lower : 0 ≤ i) (deep : i < stack) (bound : stack ≤ 1024) :
    stack_address stack i < 1024 := by
  have address : (stack_address stack i : Int) = _ := stack_address_mod
  omega

theorem dup_top_unfired (tidy : Tidy 0 s) (operands : 1 ≤ h) (bound : h ≤ 1024) (fit : OperandsFit .DUP_TOP h s) :
    Action.wlp unfired (dup_top h) (fun _ s' => Tidy 0 s') s := by
  have top : h - 1 - 0 = h - 1 := by omega
  have back : h - 1 + 1 = h := by omega
  obtain ⟨small, address⟩ := fit.2.1 rfl
  have live : stack_address h 0 < 1024 := stack_address_live le_rfl (by omega) bound
  simp only [dup_top, dup_slot, push_word, Action.wlp_bind]
  refine unfired_record tidy live fun tidy₁ => unfired_stack_get ?_
  rw [unfired_assert, ExecutionState.record_stack_space, top]
  refine ⟨small, unfired_record tidy₁ address fun tidy₂ => ?_⟩
  refine unfired_stack_get (unfired_stack_set ?_)
  rw [back]
  exact unfired_record (tidy_set_slot.mpr tidy₂) live fun tidy₃ => tidy₃

theorem swap_top_unfired (tidy : Tidy 0 s) (bound : h ≤ 1024) (fit : OperandsFit .SWAP_TOP h s) :
    Action.wlp unfired (swap_top h) (fun _ s' => Tidy 0 s') s := by
  have top : h - 1 - 0 = h - 1 := by omega
  obtain ⟨small, operands, address, below⟩ := fit.2.2 rfl
  have live : stack_address h 0 < 1024 := stack_address_live le_rfl (by omega) bound
  have live' : stack_address (h - 1) 0 < 1024 := stack_address_live le_rfl (by omega) (by omega)
  simp only [swap_top, swap_slots, Action.wlp_bind]
  refine unfired_record tidy live fun tidy₁ => unfired_stack_get ?_
  rw [unfired_assert, ExecutionState.record_stack_space, top]
  refine ⟨small, unfired_record tidy₁ address fun tidy₂ => unfired_record tidy₂ live' fun tidy₃ => ?_⟩
  refine unfired_stack_get (unfired_stack_get (unfired_stack_set (unfired_stack_set ?_)))
  refine unfired_record (tidy_set_slot.mpr (tidy_set_slot.mpr tidy₃)) live' fun tidy₄ => ?_
  exact unfired_record tidy₄ below fun tidy₅ => tidy₅

end

section
variable {H : Type} [Ethash] {host : Host H} {exec : Exec H} {h pos gas left : Int} {op : Opcode}
  {rev : Revision} {analysis : CodeAnalysis}

/-- What a frame on legacy code keeps for its assertions. -/
structure Unfired (rev : Revision) (code : Bytes) (h : Int) (s : ExecutionState) : Prop where
  nonneg : 0 ≤ h
  bound : h ≤ 1024
  tidy : Tidy 0 s
  revision : s.rev = rev
  legacy : s.analysis = analyze_legacy code

omit [Ethash] in
theorem settings_wide {P : Action.Contract Event} : Wide P fun s => s.rev = rev ∧ s.analysis = analysis where
  record _ _ _ inv := inv
  push_storage _ _ _ _ _ inv := inv
  set_slot _ _ inv := inv
  set_status _ inv := inv
  set_return_data _ inv := inv
  set_output _ _ inv _ := inv
  set_call_stack _ inv := inv
  add_refund _ inv := inv
  set_tx _ inv := inv
  grow inv _ _ := inv
  host_output inv _ _ := inv
  store _ _ inv := inv
  push_memory _ _ _ inv := inv

theorem settings_kept (same : exec.state.rev = rev ∧ exec.state.analysis = analysis) {next : Option Int × Int}
    {e : Exec H} (returns : (invoke_impl (map_opcodes host op) pos h left exec).2 = some (next, e)) :
    e.state.rev = rev ∧ e.state.analysis = analysis := by
  have keeps : (map_opcodes host op).Keeps any_event pos h left
      (fun s => s.rev = rev ∧ s.analysis = analysis) exec :=
    settings_wide.step (fun _ => inferInstance) same
  exact ((keeps.invoke_impl (fun _ kept => kept) same).returns (fun _ _ => trivial) returns).2

/-- An instruction whose operands fit its assertions does not fail one. -/
theorem unfired_invoke [Hosted unfired host] (meets : Meets (legacy_cost_table rev) op h) (nonneg : 0 ≤ h)
    (bound : h ≤ 1024) (tidy : Tidy 0 exec.state) (fit : OperandsFit op h exec.state) :
    Action.wlp unfired (invoke_impl (map_opcodes host op) pos h left)
      (fun next e => LeftTidy 0 e.state ∧ (next.1 ≠ none → Tidy 0 e.state)) exec := by
  have stays {fn : Int → Instr H Unit} (kept : Action.wlp unfired (fn h) (fun _ e => Tidy 0 e.state) exec) :
      Action.wlp unfired (invoke_impl (.void fn) pos h left)
        (fun next e => LeftTidy 0 e.state ∧ (next.1 ≠ none → Tidy 0 e.state)) exec :=
    wlp_void (kept.mono fun _ _ tidy' => ⟨tidy'.left_tidy, fun _ => tidy'⟩)
  by_cases dup : op = .DUP_TOP
  · subst dup
    exact stays (wlp_on_state.mpr (dup_top_unfired tidy (meets.operands (by decide)) bound fit))
  by_cases swap : op = .SWAP_TOP
  · subst swap
    exact stays (wlp_on_state.mpr (swap_top_unfired tidy bound fit))
  have reach : StackReach op h exec.state := by
    cases op with
    | PUSH n => exact fit.1
    | DUP_TOP => exact absurd rfl dup
    | SWAP_TOP => exact absurd rfl swap
    | _ => trivial
  have hosted : Hosted (live 0 False unfired (max h (h + stack_height_change op))) host := by
    have given : Hosted unfired host := inferInstance
    exact ⟨given.account_exists, given.get_storage, given.set_storage, given.get_balance, given.get_code_size,
      given.get_code_hash, given.copy_code, given.selfdestruct, given.call, given.get_tx_context,
      given.get_block_hash, given.access_account, given.access_storage, given.get_transient_storage,
      given.set_transient_storage⟩
  exact live_unfired (stack_bounds_invoke rfl reach swap meets nonneg bound tidy)

omit [Ethash] in
/-- The assertions of `check_requirements` hold of everything that has a name. -/
theorem named_defined (op : Opcode) : defined_opcode (some op) = true ∧ unit_height_change (some op) = true := by
  cases op with
  | PUSH n | DUP n | SWAP n | LOG n =>
    revert n
    decide
  | _ => decide

theorem Unfired.turn [Hosted unfired host] {code : Bytes} (frame : Unfired rev code h exec.state) :
    Action.wlp unfired (turn host (legacy_cost_table rev) pos h gas) (fun next e => LeftTidy 0 e.state ∧
      (next.code_it ≠ none → Unfired rev code next.stack_top e.state)) exec := by
  have table : exec.state.cost_table = legacy_cost_table rev := by
    rw [ExecutionState.cost_table, frame.revision, frame.legacy]
    rfl
  have ends (status : StatusCode) : LeftTidy 0 (exec.state.set_status status) := frame.tidy.left_tidy
  unfold EvmAssigner.turn read_code
  simp only [Action.wlp_bind, wlp_on_state, Action.wlp_get, Action.wlp_pure,
    Action.wlp_emit_ignored (CodeQuiet.code_access _ _)]
  refine Action.wlp_emit.mpr fun fits => ⟨rfl, ?_⟩
  obtain ⟨op, name, fit⟩ := fits _ rfl
  have name : Opcode.of_byte (exec.state.analysis.code_at pos) = some op := name
  simp only [table] at fit
  obtain ⟨defined, unit_height⟩ := named_defined op
  simp only [invoke, requirement_assertions, name, Action.wlp_bind, wlp_on_state, unfired_assert]
  refine ⟨defined, unit_height, ?_⟩
  by_cases success : (check_requirements (legacy_cost_table rev) gas h (some op)).1 = .SUCCESS
  · obtain ⟨meets, _, left⟩ := check_requirements_success success
    simp only [success, ne_eq, not_true_eq_false, if_false, Action.wlp_bind, Action.wlp_pure]
    refine ((unfired_invoke meets frame.nonneg frame.bound frame.tidy (fit success)).and_returns fun next e returns =>
      settings_kept ⟨frame.revision, frame.legacy⟩ returns).mono fun next e kept => ?_
    obtain ⟨⟨left_tidy, tidy⟩, revision, legacy⟩ := kept
    obtain ⟨lower, upper⟩ := meets.toFits.range frame.nonneg frame.bound
    exact ⟨left_tidy, fun going => ⟨lower, upper, tidy going, revision, legacy⟩⟩
  · simpa [success] using ends _

theorem Unfired.dispatch [Hosted unfired host] {code : Bytes} {fuel : Nat} (frame : Unfired rev code h exec.state) :
    Action.wlp unfired (dispatch host (legacy_cost_table rev) fuel pos h gas)
      (fun _ e => LeftTidy 0 e.state) exec := by
  induction fuel generalizing pos h gas exec with
  | zero => exact Action.wlp_unfinished
  | succ fuel ih =>
    rw [EvmAssigner.dispatch, Action.wlp_bind]
    refine frame.turn.mono fun next e kept => ?_
    obtain ⟨left_tidy, going⟩ := kept
    cases at_it : next.code_it with
    | none => exact Action.wlp_pure.mpr left_tidy
    | some code_it' => exact ih (going (by simp [at_it]))

end

section
variable {F : Type} [Field F] [DecidableEq F] [Ethash] [Crypto3] {w : World F} {fuel circuit : Nat} {rev : Revision}
  {msg : Message} {code : Bytes}

omit [DecidableEq F] [Crypto3] in
/-- `VMHost` fails no assertion either, if the frames it runs do not. -/
theorem vm_host_unfired {evaluate : Evaluate F}
    (frames : ∀ msg code (w : World F), Action.wlp unfired (evaluate .LATEST_STABLE msg code) (fun _ _ => True) w) :
    Hosted unfired (vm_host evaluate) :=
  vm_host_hosted (fun _ => rfl) (fun _ _ _ _ => rfl) (fun _ _ _ _ => rfl) (fun _ _ => rfl) frames

/-- Code that is run as it is, without a container. -/
abbrev RunsLegacy (rev : Revision) (code : Bytes) : Prop := rev < .PRAGUE ∨ ¬ is_eof_container code

theorem unfired_evaluate (legacy : RunsLegacy rev code) :
    Action.wlp unfired (evaluate fuel rev msg code) (fun _ _ => True) w := by
  induction fuel generalizing rev msg code w with
  | zero => exact Action.wlp_unfinished
  | succ fuel ih =>
    have frames (msg : Message) (code : Bytes) (w : World F) :
        Action.wlp unfired (evaluate fuel .LATEST_STABLE msg code) (fun _ _ => True) w := ih (Or.inl (by decide))
    have := vm_host_unfired frames
    have analysed : analyze rev code = some (analyze_legacy code) := if_pos legacy
    simp only [evaluate, Action.wlp_bind, Action.wlp_get, analysed]
    cases zkevm_circuits_map.lookup w.target_circuit with
    | none => exact Action.wlp_pure.mpr trivial
    | some circuit =>
      have no_data : (analyze_legacy code).eof_header.get_data code = some [] := rfl
      simp only [no_data, run_code, Action.wlp_bind]
      refine (wlp_start_frame fun _ => rfl).mono fun heap w' _ => ?_
      have empty {o : rw_operation} {p : Prop} (member : o ∈ []) : p := absurd member List.not_mem_nil
      have fresh : Unfired rev code 0 (.new msg rev code [] 0 (analyze_legacy code) heap) :=
        ⟨le_rfl, by decide, ⟨fun o member => empty member, rfl, rfl⟩, rfl, rfl⟩
      rw [run_frame, Action.wlp_zoom]
      simp only [Action.wlp_bind, Action.wlp_get, Action.wlp_pure]
      have frame : Unfired rev code 0 (⟨.new msg rev code [] 0 (analyze_legacy code) heap, w'⟩ :
        Exec (World F)).state := fresh
      -- behind a frame whose output is either not empty or begins at 0, the last assertion holds
      exact frame.dispatch.mono fun _ _ left_tidy => wlp_end_frame rfl fun fails => absurd left_tidy.2.2 fails

/-- In a run of legacy code whose steps fit, at any depth, no assertion of the interpreter fails. -/
theorem assertions_hold (fuel : Nat) (rev : Revision) (msg : Message) (code : Bytes) (w : World F)
    (legacy : RunsLegacy rev code) (fits : ∀ e ∈ (evaluate fuel rev msg code).events w, StepsFit e) :
    ∀ e ∈ (evaluate fuel rev msg code).events w, e.fires = false :=
  (Action.Contract.After.ensures (unfired_evaluate legacy) fits).1

end

/-- Two pushes, of which the run-time-indexed `DUP` copies the first. -/
def fitting_code : Bytes := [0x60, 7, 0x60, 1, 0xa7]

theorem assertions_hold_dup :
    letI := no_hash
    letI : Crypto3 := ⟨fun _ => []⟩
    ((evaluate 20 .SHANGHAI { gas := 100 } fitting_code).events bare_world).any Event.fires = false := by
  let _ := no_hash
  let _ : Crypto3 := ⟨fun _ => []⟩
  have fits : ∀ e ∈ (evaluate 20 .SHANGHAI { gas := 100 } fitting_code).events bare_world, StepsFit e := by
    decide +kernel
  refine List.any_eq_false.mpr fun e member => ?_
  simp [assertions_hold 20 .SHANGHAI { gas := 100 } fitting_code bare_world (Or.inl (by decide)) fits e member]

/-- A byte without a name fails an assertion, and so does `PUSH2` on the empty stack. -/
theorem assertion_fires :
    letI := no_hash
    letI : Crypto3 := ⟨fun _ => []⟩
    (¬ ∀ e ∈ (evaluate 20 .SHANGHAI { gas := 100 } [0x0c]).events bare_world, e.fires = false) ∧
      ¬ ∀ e ∈ (evaluate 20 .SHANGHAI { gas := 100 } [0x61, 0, 0]).events bare_world, e.fires = false := by
  let _ := no_hash
  let _ : Crypto3 := ⟨fun _ => []⟩
  constructor
  · decide +kernel
  · decide +kernel

end EvmAssigner
