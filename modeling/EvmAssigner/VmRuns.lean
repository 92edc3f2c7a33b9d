import EvmAssigner.VmSteps

namespace EvmAssigner

section
variable {F : Type} [Zero F] {γ : Type} {C : Action.Contract Event} {u : γ → Event → γ}
  {M : Message → Prop} {I : World F → γ → Prop} {msg : Message} {exec : Exec (World F)} {g : γ}
  {pos h gas left : Int}

theorem track_set_status {status : StatusCode} {Q : Unit → Exec (World F) → γ → Prop} :
    Action.track C u (EvmAssigner.set_status status) Q exec g ↔
      Q () { exec with state := exec.state.set_status status } g :=
  track_on_state.trans Action.track_modify

theorem void_kept {fn : Int → Instr (World F) Unit}
    (each : Action.track C u (fn h) (fun _ => Kept I msg) exec g) :
    Action.track C u (invoke_impl (.void fn) pos h gas) (fun _ => Kept I msg) exec g := by
  simpa only [invoke_impl, Action.track_bind, Action.track_pure] using each

theorem gas_kept {fn : Int → Int → Instr (World F) InstructionResult}
    (each : Action.track C u (fn h gas) (fun _ => Kept I msg) exec g) :
    Action.track C u (invoke_impl (.gas fn) pos h gas) (fun _ => Kept I msg) exec g := by
  simp only [invoke_impl, Action.track_bind, Action.track_ite, Action.track_pure, track_set_status]
  exact each.mono fun _ _ _ kept => ⟨fun _ => ⟨kept.host, kept.msg⟩, fun _ => kept⟩

theorem term_kept {fn : Int → Int → Instr (World F) InstructionResult}
    (each : Action.track C u (fn h gas) (fun _ => Kept I msg) exec g) :
    Action.track C u (invoke_impl (.term fn) pos h gas) (fun _ => Kept I msg) exec g := by
  simp only [invoke_impl, Action.track_bind, Action.track_pure, track_set_status]
  exact each.mono fun _ _ _ kept => ⟨kept.host, kept.msg⟩

/-- The instructions that send messages. -/
def Opcode.sends : Opcode → Bool
  | .CREATE | .CALL | .CALLCODE | .DELEGATECALL | .CREATE2 | .STATICCALL => true
  | _ => false

variable [Ethash] {evaluate : Evaluate F} {op : Opcode} {cost_table : Opcode → Int} {fuel : Nat}

/-- The other instructions keep what is about the storage only. -/
theorem quiet_step_kept (aloof : Aloof C u) (invariant : StorageInvariant C u M I) (of_M : M msg)
    (kept : Kept I msg exec g) (quiet : op.sends = false) :
    Action.track C u (invoke_impl (map_opcodes (vm_host evaluate) op) pos h left) (fun _ => Kept I msg) exec g := by
  by_cases asks : op.asks_host = false
  · have := aloof.plain
    have leaves : (map_opcodes (vm_host evaluate) op).Leaves (silent C u) pos h left _ exec :=
      msg_wide.local_step asks (fun _ => aloof.code_quiet) kept.msg
    have alone := leaves.invoke_impl (fun _ _ same => same) ⟨kept.msg, rfl⟩
    exact track_silent alone fun _ e ⟨same, host⟩ => ⟨host ▸ kept.host, same⟩
  · cases op with
    | ORIGIN | GASPRICE | COINBASE | TIMESTAMP | NUMBER | PREVRANDAO | GASLIMIT | CHAINID | BASEFEE
    | BLOBBASEFEE => exact void_kept (push_tx_kept aloof kept)
    | BALANCE | EXTCODEHASH =>
      exact gas_kept (query_account_kept aloof kept fun _ _ _ each => aloof.track_ask.mpr (each _))
    | EXTCODESIZE =>
      refine gas_kept (query_account_kept aloof kept fun _ _ _ each => ?_)
      exact Action.track_bind.mpr (aloof.track_ask.mpr (Action.track_pure.mpr (each _)))
    | EXTCODECOPY => exact gas_kept (extcodecopy_kept aloof kept)
    | BLOCKHASH => exact void_kept (blockhash_kept aloof kept)
    | BLOBHASH => exact void_kept (blobhash_kept aloof kept)
    | SELFBALANCE => exact void_kept (selfbalance_kept aloof kept)
    | SLOAD => exact gas_kept (sload_kept aloof invariant of_M kept)
    | SSTORE => exact gas_kept (sstore_kept aloof invariant of_M kept)
    | TLOAD => exact void_kept (tload_kept aloof kept)
    | TSTORE => exact gas_kept (tstore_kept aloof invariant of_M kept)
    | SELFDESTRUCT => exact term_kept (selfdestruct_kept aloof kept)
    | CREATE | CALL | CALLCODE | DELEGATECALL | CREATE2 | STATICCALL => contradiction
    | _ => exact absurd rfl asks

variable (aloof : Aloof C u) (invariant : HostInvariant C u M I) (of_M : M msg)
  (frames : ∀ rev m code w g, M m → I w g → Action.track C u (evaluate rev m code) (fun _ => I) w g)
  (kept : Kept I msg exec g)
include aloof invariant of_M frames kept

/-- Every instruction keeps the invariant of the host. -/
theorem step_kept : Action.track C u (invoke_impl (map_opcodes (vm_host evaluate) op) pos h left)
    (fun _ => Kept I msg) exec g := by
  by_cases quiet : op.sends = false
  · exact quiet_step_kept aloof invariant.toStorageInvariant of_M kept quiet
  · cases op with
    | CREATE => exact gas_kept (create_impl_kept aloof invariant of_M kept frames .CREATE)
    | CREATE2 => exact gas_kept (create_impl_kept aloof invariant of_M kept frames .CREATE2)
    | CALL => exact gas_kept (call_impl_kept aloof invariant of_M kept frames .CALL)
    | CALLCODE => exact gas_kept (call_impl_kept aloof invariant of_M kept frames .CALLCODE)
    | DELEGATECALL => exact gas_kept (call_impl_kept aloof invariant of_M kept frames .DELEGATECALL)
    | STATICCALL => exact gas_kept (call_impl_kept aloof invariant of_M kept frames .STATICCALL)
    | _ => exact absurd rfl quiet

theorem turn_kept : Action.track C u (turn (vm_host evaluate) cost_table pos h gas)
    (fun _ => Kept I msg) exec g := by
  have := aloof.plain
  have := aloof.code_quiet
  unfold turn invoke requirement_assertions
  simp only [Action.track_bind, Action.track_get]
  refine kept.track_local (wlp_read_code.mpr kept.msg) fun byte _ kept => ?_
  refine Action.track_emit.mpr fun _ => ⟨(aloof.step _ _ _ _).1, ?_⟩
  rw [(aloof.step _ _ _ _).2]
  refine kept.track_local ?_ fun _ _ kept => ?_
  · simp only [Action.wlp_bind, wlp_assert_that]
    exact kept.msg
  · simp only [Action.track_ite, Action.track_bind, track_set_status, Action.track_pure]
    refine ⟨fun _ => ⟨kept.host, kept.msg⟩, fun _ => ?_⟩
    cases Opcode.of_byte byte with
    | none =>
      simp only [Action.track_bind, track_set_status, Action.track_pure]
      exact ⟨kept.host, kept.msg⟩
    | some op =>
      simp only [Action.track_bind, Action.track_pure]
      exact step_kept aloof invariant of_M frames kept

theorem dispatch_kept : Action.track C u (dispatch (vm_host evaluate) cost_table fuel pos h gas)
    (fun _ => Kept I msg) exec g := by
  induction fuel generalizing pos h gas exec g with
  | zero => exact Action.track_unfinished
  | succ fuel ih =>
    rw [dispatch]
    refine Action.track_bind.mpr ((turn_kept aloof invariant of_M frames kept).mono fun next e g' kept' => ?_)
    cases next.code_it with
    | none => exact Action.track_pure.mpr kept'
    | some code_it' => exact ih kept'

end

section
variable {F : Type} [Field F] [DecidableEq F] {γ : Type} [Ethash] [Crypto3]

/-- What `evaluate` does around its frame keeps the invariant as well. -/
structure EvaluateInvariant (C : Action.Contract Event) (u : γ → Event → γ) (M : Message → Prop)
    (I : World F → γ → Prop) : Prop extends HostInvariant C u M I where
  allocate {w : World F} {g : γ} {heaps : Nat → Nat → UInt8} (inv : I w g) : I { w with heaps := heaps } g
  handle_bytecode {w : World F} {g : γ} {bytecode_table : Option (Assignment F)} (inv : I w g) :
    I { w with bytecode_table := bytecode_table } g
  handle_rw {w : World F} {g : γ} {rw_table : Assignment F} {rw_trace : List rw_operation} (inv : I w g)
    (present : w.rw_table = some rw_table) (assumed : C.assumes (.handle_rw rw_trace)) :
    C.ensures (.handle_rw rw_trace) ∧ ∀ rw_table', process_rw_operations rw_trace rw_table = some rw_table' →
      I { w with rw_table := some rw_table' } (u g (.handle_rw rw_trace))

variable {C : Action.Contract Event} {u : γ → Event → γ} {M : Message → Prop} {I : World F → γ → Prop}
  {w : World F} {g : γ} {msg : Message}

omit [Crypto3] in
theorem EvaluateInvariant.track_handle_rw {rw_trace : List rw_operation}
    (invariant : EvaluateInvariant C u M I) (inv : I w g) :
    Action.track C u (EvmAssigner.handle_rw rw_trace) (fun _ => I) w g := by
  simp only [EvmAssigner.handle_rw, Action.track_bind, Action.track_get]
  cases present : w.rw_table with
  | none => exact Action.track_pure.mpr inv
  | some rw_table =>
    simp only [Action.track_bind, Action.track_emit]
    intro assumed
    obtain ⟨ensured, filled⟩ := invariant.handle_rw inv present assumed
    refine ⟨ensured, ?_⟩
    cases result : process_rw_operations rw_trace rw_table with
    | none => exact Action.track_unfinished
    | some rw_table' => exact Action.track_modify.mpr (filled rw_table' result)

omit [DecidableEq F] [Ethash] [Crypto3] in
theorem track_run_frame {α : Type} {m : Instr (World F) α} {state : ExecutionState}
    {Q : α × ExecutionState → World F → γ → Prop} : Action.track C u (run_frame m state) Q w g ↔
      Action.track C u m (fun a e => Q (a, e.state) e.host) ⟨state, w⟩ g := by
  rw [run_frame, Action.track_zoom]
  simp only [Action.track_bind, Action.track_get, Action.track_pure]
  rfl

variable (aloof : Aloof C u) (invariant : EvaluateInvariant C u M I)
include aloof invariant

omit [Crypto3] in
theorem EvaluateInvariant.track_end_frame {circuit : Nat} {gas : Int} {state : ExecutionState}
    (inv : I w g) : Action.track C u (end_frame circuit gas state) (fun _ => I) w g := by
  have ended (w : World F) (g : γ) (inv : I w g) :
      (¬ (state.output_size ≠ 0 ∨ state.output_offset = 0) → C.assumes (.assertion_failed .output) →
        C.ensures (.assertion_failed .output) ∧ I w (u g (.assertion_failed .output))) ∧
      (¬ ¬ (state.output_size ≠ 0 ∨ state.output_offset = 0) → I w g) := by
    obtain ⟨ensured, same⟩ := aloof.assertion_failed .output
    exact ⟨fun _ _ => ⟨ensured, (same g).symm ▸ inv⟩, fun _ => inv⟩
  simp only [end_frame, Action.track_ite, Action.track_bind, Action.track_emit, Action.track_pure]
  refine ⟨fun _ => (invariant.track_handle_rw inv).mono fun _ w' g' inv' => ended w' g' inv', fun _ => ended w g inv⟩

omit aloof in
theorem EvaluateInvariant.track_start_frame {circuit : Nat} {code : Bytes} {analysis : CodeAnalysis}
    (inv : I w g) : Action.track C u (start_frame circuit code analysis) (fun _ => I) w g := by
  simp only [start_frame, EvmAssigner.handle_bytecode, Action.track_bind, Action.track_get,
    Action.track_emit, Action.track_modify, Action.track_ite, Action.track_pure]
  intro assumed
  obtain ⟨ensured, inv'⟩ := invariant.accounts inv assumed
  have allocated : I { w with heaps := fun n => w.heaps (n + 1) } (u g (.accounts w.accounts)) :=
    invariant.allocate inv'
  exact ⟨ensured, fun _ => invariant.handle_bytecode allocated, fun _ => allocated⟩

theorem run_code_kept {evaluate : Evaluate F} {fuel circuit : Nat} {rev : Revision} {code data : Bytes}
    {analysis : CodeAnalysis} (of_M : M msg) (inv : I w g)
    (frames : ∀ rev m code w g, M m → I w g → Action.track C u (evaluate rev m code) (fun _ => I) w g) :
    Action.track C u (run_code evaluate fuel circuit rev msg code analysis data) (fun _ => I) w g := by
  simp only [run_code, Action.track_bind]
  refine (invariant.track_start_frame inv).mono fun heap w' g' inv' => track_run_frame.mpr ?_
  have fresh : Kept I msg ⟨.new msg rev code data 0 analysis heap, w'⟩ g' := ⟨inv', rfl⟩
  refine (dispatch_kept aloof invariant.toHostInvariant of_M frames fresh).mono ?_
  exact fun _ _ _ kept => invariant.track_end_frame aloof kept.host

theorem evaluate_kept {fuel : Nat} {rev : Revision} {code : Bytes} (of_M : M msg) (inv : I w g) :
    Action.track C u (evaluate fuel rev msg code) (fun _ => I) w g := by
  induction fuel generalizing rev msg code w g with
  | zero => exact Action.track_unfinished
  | succ fuel ih =>
    simp only [evaluate, Action.track_bind, Action.track_get]
    cases zkevm_circuits_map.lookup w.target_circuit with
    | none => exact Action.track_pure.mpr inv
    | some circuit =>
      cases analyze rev code with
      | none => exact Action.track_unfinished
      | some analysis =>
        dsimp only
        cases analysis.eof_header.get_data code with
        | none => exact Action.track_unfinished
        | some data => exact run_code_kept aloof invariant of_M inv fun rev m code w g of_M inv => ih of_M inv

end

section
variable {F : Type} [Field F] [DecidableEq F] [Crypto3] {w : World F} {circuit : Nat} {code : Bytes}
  {P : Action.Contract Event}

theorem wlp_start_frame {analysis : CodeAnalysis} (accounts : ∀ accounts, P.ensures (.accounts accounts)) :
    Action.wlp P (start_frame circuit code analysis) (fun _ _ => True) w := by
  simp only [start_frame, handle_bytecode, Action.wlp_bind, Action.wlp_get, Action.wlp_emit, Action.wlp_modify,
    Action.wlp_ite, Action.wlp_pure]
  exact fun _ => ⟨accounts _, fun _ => trivial, fun _ => trivial⟩

omit [Crypto3] in
theorem wlp_end_frame {gas : Int} {state : ExecutionState} (handed : P.ensures (.handle_rw state.rw_trace))
    (output : ¬ (state.output_size ≠ 0 ∨ state.output_offset = 0) → P.ensures (.assertion_failed .output)) :
    Action.wlp P (end_frame circuit gas state) (fun _ _ => True) w := by
  have traced : Action.wlp P (handle_rw state.rw_trace) (fun _ _ => True) w := by
    simp only [handle_rw, Action.wlp_bind, Action.wlp_get]
    cases w.rw_table with
    | none => exact Action.wlp_pure.mpr trivial
    | some rw_table =>
      simp only [Action.wlp_bind, Action.wlp_emit]
      refine fun _ => ⟨handed, ?_⟩
      cases process_rw_operations state.rw_trace rw_table with
      | none => exact Action.wlp_unfinished
      | some rw_table' => exact Action.wlp_modify.mpr trivial
  simp only [end_frame, Action.wlp_ite, Action.wlp_bind, Action.wlp_emit, Action.wlp_pure]
  exact ⟨fun _ => traced.mono fun _ _ _ => ⟨fun fails _ => ⟨output fails, trivial⟩, fun _ => trivial⟩,
    fun _ => ⟨fun fails _ => ⟨output fails, trivial⟩, fun _ => trivial⟩⟩

end
end EvmAssigner
