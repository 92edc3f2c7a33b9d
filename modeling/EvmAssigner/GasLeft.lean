import EvmAssigner.Assertions
import EvmAssigner.Forwarding
import EvmAssigner.Lib.Fuel

namespace EvmAssigner

/-- The gas and the value a call asks for, at any depth. -/
def Event.asked : Event → Option (Word × Word)
  | .host_call gas value _ => some (gas, value)
  | .nested e => asked e
  | _ => none

/-- The gas a call asks for is not negative in 64 bits, the stipend for its value included. -/
def Event.GasFits (e : Event) : Prop := ∀ o ∈ e.asked, 0 ≤ gas_operand o.1 + stipend o.2

-- Mathlib would enumerate all pairs of words.
instance : DecidablePred Event.GasFits := fun e => Option.decidableForallMem e.asked

abbrev gas_fits : Action.Contract Event := ⟨Event.GasFits, fun _ => True⟩

instance : Quiet gas_fits where
  assertion_failed _ := ⟨nofun, trivial⟩
  vector_access _ _ := ⟨nofun, trivial⟩
  step _ _ _ _ := trivial
  nested _ := trivial
  stack_access _ := ⟨nofun, trivial⟩
  memory_access _ _ _ := ⟨nofun, trivial⟩
  code_access _ _ := ⟨nofun, trivial⟩

/-- A frame below hands back part of the gas it was given. -/
def GivesBack {σ : Type} (msg : Message) (m : Action Event σ Result) (s : σ) : Prop :=
  Action.wlp gas_fits m (fun result _ => 0 ≤ result.gas_left ∧ result.gas_left ≤ msg.gas) s

theorem int64_of_range {x : Int} (lower : -2 ^ 63 ≤ x) (upper : x < 2 ^ 63) : int64 x = x :=
  Int.bmod_eq_of_le (by omega) (by omega)

/-- What a call leaves, once the gas that is handed back is settled. -/
theorem settled_within {left msg_gas handed gas : Int} (nonneg : 0 ≤ handed) (part : handed ≤ msg_gas)
    (given : msg_gas ≤ left) (less : left ≤ gas) (range : gas < 2 ^ 63) :
    (⟨.SUCCESS, int64 (left - int64 (msg_gas - handed))⟩ : InstructionResult).Within gas := by
  rw [int64_of_range (x := msg_gas - handed) (by omega) (by omega), int64_of_range (by omega) (by omega),
    within_success]
  omega

/-- An operand that fits gives the message no negative gas, and no more than there is. -/
theorem forwarded_gas_within {rev : Revision} {gas value : Word} {left sent : Int} (nonneg : 0 ≤ left)
    (fits : 0 ≤ gas_operand gas + stipend value) (forwarded : forwarded_gas rev gas left = some sent) :
    0 ≤ sent + stipend value ∧ sent ≤ left := by
  have owed : 0 ≤ stipend value := by
    unfold stipend
    split <;> omega
  unfold forwarded_gas at forwarded
  split_ifs at forwarded with late dear
  · have same := Option.some.inj forwarded
    omega
  · have same := Option.some.inj forwarded
    omega

theorem create_gas_within (rev : Revision) {left : Int} (nonneg : 0 ≤ left) :
    0 ≤ create_gas rev left ∧ create_gas rev left ≤ left := by
  unfold create_gas
  split <;> omega

section
variable {H : Type} {host : Host H} {exec : Exec H} {stack left gas : Int}

theorem make_call_spends {Op : CallOp} {o : CallOperands} {msg : Message}
    (given : 0 ≤ gas_operand o.gas + stipend o.value → 0 ≤ msg.gas ∧ msg.gas ≤ left) (nonneg : 0 ≤ left)
    (less : left ≤ gas) (range : gas < 2 ^ 63)
    (frames : ∀ h, 0 ≤ msg.gas → msg.gas < 2 ^ 63 → GivesBack msg (host.call msg) h) :
    Action.wlp gas_fits (make_call host Op o msg stack left) (fun answer _ => answer.Within gas) exec := by
  simp only [make_call, Action.wlp_bind, lift_on_state]
  refine wlp_light_failure fun failed host' => ?_
  simp only [Action.wlp_bind, Action.wlp_ite, Action.wlp_emit, Action.wlp_pure, wlp_on_state, wlp_on_host,
    within_success, true_and]
  refine ⟨fun _ _ => ⟨nonneg, less⟩, fun _ fits => ?_⟩
  obtain ⟨lower, upper⟩ := given (fits (o.gas, o.value) rfl)
  refine (frames host' lower (by omega)).mono fun result host'' back => ?_
  refine Action.wlp.mono (Action.wlp_of_wp finish_call_ends fun _ => trivial) fun answer _ same => ?_
  rw [same]
  exact settled_within back.1 back.2 upper less range

theorem forward_call_spends {Op : CallOp} {rev : Revision} {msg : Message} {e : Exec H}
    {charged : InstructionResult ⊕ (CallOperands × Bytes × Int)} (ready : ChargedCall exec gas charged e)
    (range : gas < 2 ^ 63)
    (frames : ∀ (msg : Message) h, 0 ≤ msg.gas → msg.gas < 2 ^ 63 → GivesBack msg (host.call msg) h) :
    Action.wlp gas_fits (forward_call host Op rev msg stack charged) (fun answer _ => answer.Within gas) e := by
  cases charged with
  | inl result => exact Action.wlp_pure.mpr (ready.gives_up result rfl)
  | inr rest =>
    obtain ⟨o, input, left⟩ := rest
    obtain ⟨nonneg, less⟩ := ready.goes_on o input left rfl
    cases forwarded : forwarded_gas rev o.gas left with
    | none =>
      rw [forward_call_none forwarded]
      exact Action.wlp_pure.mpr within_out_of_gas
    | some sent =>
      have owed : 0 ≤ stipend o.value := by
        unfold stipend
        split <;> omega
      rw [forward_call_some forwarded]
      refine make_call_spends (fun fits => ?_) (by omega) less range fun h => frames _ h
      obtain ⟨lower, upper⟩ := forwarded_gas_within nonneg fits forwarded
      exact ⟨lower, by simpa using upper⟩

variable [answers : Answers host]

theorem call_impl_spends (Op : CallOp) (range : gas < 2 ^ 63)
    (frames : ∀ (msg : Message) h, 0 ≤ msg.gas → msg.gas < 2 ^ 63 → GivesBack msg (host.call msg) h) :
    Action.wlp gas_fits (call_impl host Op stack gas) (fun answer _ => answer.Within gas) exec := by
  rw [call_impl_charges, Action.wlp_bind, Action.wlp_get, Action.wlp_bind]
  exact (Action.wlp_of_wp call_charges_spends fun _ => trivial).mono fun charged e ready =>
    forward_call_spends ready range frames

theorem create_impl_spends (Op : CreateOp) (range : gas < 2 ^ 63)
    (frames : ∀ (msg : Message) h, 0 ≤ msg.gas → msg.gas < 2 ^ 63 → GivesBack msg (host.call msg) h) :
    Action.wlp gas_fits (create_impl host Op stack gas) (fun answer _ => answer.Within gas) exec := by
  rw [create_impl_charges, Action.wlp_bind, Action.wlp_get, Action.wlp_bind]
  refine (Action.wlp_of_wp create_charges_spends fun _ => trivial).mono fun charged e ready => ?_
  cases charged with
  | inl result => exact Action.wlp_pure.mpr (ready.gives_up result rfl)
  | inr rest =>
    obtain ⟨o, input, left⟩ := rest
    obtain ⟨nonneg, less, _⟩ := ready.goes_on o input left rfl
    have sent := create_gas_within exec.state.rev nonneg
    simp only [forward_create, Action.wlp_bind, wlp_on_host, lift_on_state, wlp_on_state]
    refine (frames _ e.host sent.1 (lt_of_le_of_lt (sent.2.trans less) range)).mono fun result h back => ?_
    refine Action.wlp.mono (Action.wlp_of_wp finish_create_ends fun _ => trivial) fun answer _ same => ?_
    rw [same]
    exact settled_within back.1 back.2 sent.2 less range

end

section
variable {H : Type} {host : Host H} {exec : Exec H} {op : Opcode} {rev : Revision} {pos h left gas : Int}

theorem send_step {fn : Int → Int → Instr H InstructionResult}
    (spends : Action.wlp gas_fits (fn h left) (fun o _ => o.Within left) exec) :
    Action.wlp gas_fits (invoke_impl (.gas fn) pos h left) (fun next e => Spends op pos left next e.state) exec := by
  simp only [invoke_impl, Action.wlp_bind, Action.wlp_ite, Action.wlp_pure, wlp_set_status, ne_eq, not_not]
  exact spends.mono fun o e within => ⟨fun _ => spends_end within, spends_next within⟩

variable [Ethash] [Answers host]

/-- No instruction of legacy code creates gas. -/
theorem step_spends (nonneg : 0 ≤ left) (range : left < 2 ^ 63) (legacy : op ∉ eof_opcodes)
    (frames : ∀ (msg : Message) h, 0 ≤ msg.gas → msg.gas < 2 ^ 63 → GivesBack msg (host.call msg) h) :
    Action.wlp gas_fits (invoke_impl (map_opcodes host op) pos h left)
      (fun next e => Spends op pos left next e.state) exec := by
  by_cases quiet : op.sends = false
  · exact Action.wlp_of_wp (quiet_step_spends nonneg legacy quiet) fun _ => trivial
  · cases op with
    | CREATE => exact send_step (create_impl_spends .CREATE range frames)
    | CREATE2 => exact send_step (create_impl_spends .CREATE2 range frames)
    | CALL => exact send_step (call_impl_spends .CALL range frames)
    | CALLCODE => exact send_step (call_impl_spends .CALLCODE range frames)
    | DELEGATECALL => exact send_step (call_impl_spends .DELEGATECALL range frames)
    | STATICCALL => exact send_step (call_impl_spends .STATICCALL range frames)
    | _ => exact absurd rfl quiet

omit [Ethash] in
/-- What an instruction costs to begin with; one that may lead back is not free. -/
theorem base_cost_bounds (defined : has_const_gas_cost op = true ∨ 0 ≤ legacy_cost_table rev op) :
    0 ≤ base_cost (legacy_cost_table rev) op ∧ base_cost (legacy_cost_table rev) op ≤ 32000 ∧
      (op.jumps = true → 1 ≤ base_cost (legacy_cost_table rev) op) := by
  have known : rev ∈ Revision.all := by cases rev <;> simp [Revision.all]
  have all : ∀ rev ∈ Revision.all, (has_const_gas_cost op = true ∨ 0 ≤ legacy_cost_table rev op) →
      0 ≤ base_cost (legacy_cost_table rev) op ∧ base_cost (legacy_cost_table rev) op ≤ 32000 ∧
        (op.jumps = true → 1 ≤ base_cost (legacy_cost_table rev) op) := by
    clear known defined
    cases op with
    | PUSH n | DUP n | SWAP n | LOG n =>
      revert n
      decide +kernel
    | _ => decide +kernel
  exact all rev known defined

/-- What a turn leaves of the gas. When the iterator does not move on, some of it has been used. -/
structure TurnSpends (pos gas : Int) (next : Next) (s : ExecutionState) : Prop where
  within : next.code_it ≠ none ∨ s.status = .SUCCESS ∨ s.status = .REVERT → 0 ≤ next.gas ∧ next.gas ≤ gas
  moves : ∀ pos', next.code_it = some pos' → pos < pos' ∨ next.gas < gas

theorem turn_spends (nonneg : 0 ≤ gas) (range : gas < 2 ^ 63)
    (frames : ∀ (msg : Message) h, 0 ≤ msg.gas → msg.gas < 2 ^ 63 → GivesBack msg (host.call msg) h) :
    Action.wlp gas_fits (turn host (legacy_cost_table rev) pos h gas)
      (fun next e => TurnSpends pos gas next e.state) exec := by
  refine wlp_turn_leads (CodeQuiet.code_access _ _) (fun status left failure undone => ?_)
    fun op name _ meets paid => ?_
  · refine ⟨fun reports => ?_, fun _ going => (nomatch going)⟩
    rcases reports with going | success | reverts
    · exact absurd rfl going
    · exact absurd success failure
    · exact absurd reverts undone
  · obtain ⟨lower, upper, dear⟩ := base_cost_bounds meets.defined
    rw [int64_of_range (by omega) (by omega)] at paid ⊢
    refine (step_spends paid (by omega) (legacy_meets meets) frames).mono fun next e spends => ?_
    refine ⟨fun reports => ?_, fun pos' going => ?_⟩
    · have less := spends.gas reports
      exact ⟨less.1, by simp only; omega⟩
    · replace going : next.1 = some pos' := going
      show pos < pos' ∨ next.2 < gas
      by_cases jumps : op.jumps = true
      · have less := spends.gas (Or.inl (going ▸ Option.some_ne_none pos'))
        have cost := dear jumps
        exact Or.inr (by omega)
      · exact Or.inl (spends.onward (Bool.eq_false_of_not_eq_true jumps) pos' going)

theorem dispatch_spends {fuel : Nat} (nonneg : 0 ≤ gas) (range : gas < 2 ^ 63)
    (frames : ∀ (msg : Message) h, 0 ≤ msg.gas → msg.gas < 2 ^ 63 → GivesBack msg (host.call msg) h) :
    Action.wlp gas_fits (dispatch host (legacy_cost_table rev) fuel pos h gas) (fun left e =>
      e.state.status = .SUCCESS ∨ e.state.status = .REVERT → 0 ≤ left ∧ left ≤ gas) exec := by
  induction fuel generalizing pos h gas exec with
  | zero => exact Action.wlp_unfinished
  | succ fuel ih =>
    rw [dispatch, Action.wlp_bind]
    refine (turn_spends nonneg range frames).mono fun next e spends => ?_
    cases at_it : next.code_it with
    | none => exact Action.wlp_pure.mpr fun reports => spends.within (Or.inr reports)
    | some pos' =>
      obtain ⟨lower, upper⟩ := spends.within (Or.inl (at_it ▸ Option.some_ne_none pos'))
      refine (ih lower (by omega)).mono fun left e' within reports => ?_
      exact ⟨(within reports).1, (within reports).2.trans upper⟩

end

section
variable {F : Type} [Field F] [DecidableEq F] [Ethash] {w : World F} {msg : Message}

instance {evaluate : Evaluate F} : Answers (vm_host evaluate) where
  account_exists _ _ := Action.wp_gets.mpr trivial
  get_storage _ _ _ := Action.wp_gets.mpr trivial
  set_storage _ _ _ _ := by simp [vm_host, VMHost.set_storage, VMHost.observed]
  get_balance _ _ := Action.wp_gets.mpr trivial
  get_code_size _ _ := Action.wp_gets.mpr trivial
  get_code_hash _ _ := Action.wp_gets.mpr trivial
  copy_code _ _ _ _ := Action.wp_gets.mpr trivial
  selfdestruct _ _ _ := Action.wp_pure.mpr trivial
  get_tx_context _ := Action.wp_gets.mpr trivial
  get_block_hash _ _ := Action.wp_gets.mpr trivial
  access_account _ _ := Action.wp_pure.mpr trivial
  access_storage _ _ _ := Action.wp_pure.mpr trivial
  get_transient_storage _ _ _ := Action.wp_gets.mpr trivial
  set_transient_storage _ _ _ _ := by simp [vm_host, VMHost.set_transient_storage, VMHost.observed]

omit [DecidableEq F] in
/-- `VMHost` hands back part of the gas of a message, if the frames it runs do. -/
theorem vm_host_gives_back {evaluate : Evaluate F} (nonneg : 0 ≤ msg.gas)
    (frames : ∀ (msg' : Message) code (w : World F), msg'.gas = msg.gas →
      GivesBack msg (evaluate .LATEST_STABLE msg' code) w) :
    GivesBack msg (VMHost.call evaluate msg) w := by
  have called : GivesBack msg (VMHost.handle_call evaluate msg) w := by
    simp only [GivesBack, VMHost.handle_call, Action.wlp_bind, Action.wlp_get, Action.wlp_ite, Action.wlp_pure,
      Action.wlp_modify]
    exact ⟨fun _ => ⟨le_rfl, nonneg⟩, fun _ => ⟨fun _ => ⟨nonneg, le_rfl⟩, fun _ => frames msg _ _ rfl⟩⟩
  have created : GivesBack msg (VMHost.handle_create evaluate msg) w := by
    simp only [GivesBack, VMHost.handle_create, Action.wlp_bind, Action.wlp_get, Action.wlp_ite, Action.wlp_pure,
      Action.wlp_modify]
    refine ⟨fun _ => ⟨le_rfl, nonneg⟩, fun _ => ⟨fun _ => ⟨nonneg, le_rfl⟩, fun _ => ?_⟩⟩
    have below := frames { msg with kind := .CALL, recipient := calculate_address msg, input_data := [] }
      msg.input_data (w.set_accounts (w.accounts.ensure (calculate_address msg))) rfl
    exact below.mono fun result _ back => ⟨fun _ => back, fun _ => back⟩
  simp only [GivesBack, VMHost.call, VMHost.observed, Action.wlp_bind, Action.wlp_get, Action.wlp_emit,
    Action.wlp_pure, true_and]
  cases msg.kind with
  | CALL | CALLCODE | DELEGATECALL => exact fun _ => called.mono fun _ _ back _ => back
  | CREATE | CREATE2 => exact fun _ => created.mono fun _ _ back _ => back
  | other => exact fun _ => Action.wlp_pure.mpr fun _ => ⟨le_rfl, nonneg⟩

theorem evaluate_gives_back [Crypto3] {fuel : Nat} {rev : Revision} {code : Bytes} (legacy : RunsLegacy rev code)
    (nonneg : 0 ≤ msg.gas) (range : msg.gas < 2 ^ 63) : GivesBack msg (evaluate fuel rev msg code) w := by
  have any {α σ : Type} (m : Action Event σ α) (s : σ) : Action.wlp gas_fits m (fun _ _ => True) s :=
    .of_ensures (fun _ => trivial) fun _ _ _ => trivial
  induction fuel generalizing rev msg code w with
  | zero => exact Action.wlp_unfinished
  | succ fuel ih =>
    have frames (m : Message) (w : World F) (lower : 0 ≤ m.gas) (upper : m.gas < 2 ^ 63) :
        GivesBack m ((vm_host (evaluate fuel)).call m) w :=
      vm_host_gives_back lower fun m' code w same => by
        unfold GivesBack
        rw [← same]
        exact ih (Or.inl (by decide)) (same ▸ lower) (same ▸ upper)
    have analysed : analyze rev code = some (analyze_legacy code) := if_pos legacy
    have no_data : (analyze_legacy code).eof_header.get_data code = some [] := rfl
    simp only [GivesBack, evaluate, Action.wlp_bind, Action.wlp_get, analysed]
    cases zkevm_circuits_map.lookup w.target_circuit with
    | none => exact Action.wlp_pure.mpr ⟨nonneg, le_rfl⟩
    | some circuit =>
      simp only [no_data, run_code, Action.wlp_bind]
      refine (any _ _).mono fun heap w' _ => ?_
      rw [run_frame, Action.wlp_zoom]
      simp only [Action.wlp_bind, Action.wlp_get, Action.wlp_pure]
      refine (dispatch_spends nonneg range frames).mono fun left e within => ?_
      simp only [end_frame, Action.wlp_bind, Action.wlp_ite, Action.wlp_emit, Action.wlp_pure, true_and]
      have reported : 0 ≤ (frame_result left e.state).gas_left ∧ (frame_result left e.state).gas_left ≤ msg.gas := by
        unfold frame_result
        simp only
        split
        · rename_i reports
          exact within reports
        · exact ⟨le_rfl, nonneg⟩
      exact ⟨fun _ => (any _ _).mono fun _ _ _ => ⟨fun _ _ => reported, fun _ => reported⟩,
        fun _ => ⟨fun _ _ => reported, fun _ => reported⟩⟩

/-- No gas is made: what a run has left at its end is part of what its message brought. -/
theorem gas_never_created [Crypto3] (fuel : Nat) (rev : Revision) (msg : Message) (code : Bytes)
    (w w' : World F) (result : Result) (legacy : RunsLegacy rev code) (nonneg : 0 ≤ msg.gas)
    (range : msg.gas < 2 ^ 63) (fits : ∀ e ∈ (evaluate fuel rev msg code).events w, e.GasFits)
    (returns : (evaluate fuel rev msg code w).2 = some (result, w')) :
    0 ≤ result.gas_left ∧ result.gas_left ≤ msg.gas := by
  have back : GivesBack msg (evaluate fuel rev msg code) w := evaluate_gives_back legacy nonneg range
  exact (back.returns fits returns).2

/-- Nor does a frame get more back from a call or a creation than it sent. -/
theorem frames_keep_gas [Crypto3] (fuel : Nat) (msg : Message) (w : World F) (nonneg : 0 ≤ msg.gas)
    (range : msg.gas < 2 ^ 63) :
    (∀ rev code result w', RunsLegacy rev code → (∀ e ∈ (evaluate fuel rev msg code).events w, e.GasFits) →
      (evaluate fuel rev msg code w).2 = some (result, w') → 0 ≤ result.gas_left ∧ result.gas_left ≤ msg.gas) ∧
    ∀ result w', (∀ e ∈ ((vm_host (evaluate fuel)).call msg).events w, e.GasFits) →
      ((vm_host (evaluate fuel)).call msg w).2 = some (result, w') →
        0 ≤ result.gas_left ∧ result.gas_left ≤ msg.gas := by
  refine ⟨fun rev code result w' legacy fits returns => ?_, fun result w' fits returns => ?_⟩
  · have back : GivesBack msg (evaluate fuel rev msg code) w := evaluate_gives_back legacy nonneg range
    exact (back.returns fits returns).2
  · have back : GivesBack msg ((vm_host (evaluate fuel)).call msg) w :=
      vm_host_gives_back nonneg fun m code w same => by
        unfold GivesBack
        rw [← same]
        exact evaluate_gives_back (Or.inl (by decide)) (same ▸ nonneg) (same ▸ range)
    exact (back.returns fits returns).2

end

/-- Account 1, and an account 2 with a `STOP` for its code. -/
def calling_world : World (ZMod 65537) where
  accounts := Function.update (Function.update (fun _ => none) 1 (some {})) 2 (some { code := [0] })

/-- Account 1 runs `code` with a gas of 100000. -/
def calling (code : Bytes) : List Event × Option (Result × World (ZMod 65537)) :=
  letI := no_hash
  letI : Crypto3 := ⟨fun _ => []⟩
  evaluate 20 .SHANGHAI { gas := 100000, recipient := 1 } code calling_world

/-- A call of account 2 that asks for a gas of 65535. -/
theorem gas_never_created_call : ∃ result w',
    (calling [0x5f, 0x5f, 0x5f, 0x5f, 0x5f, 0x60, 2, 0x61, 0xff, 0xff, 0xf1]).2 = some (result, w') ∧
      0 ≤ result.gas_left ∧ result.gas_left ≤ 100000 := by
  let _ := no_hash
  let _ : Crypto3 := ⟨fun _ => []⟩
  have ends : (calling [0x5f, 0x5f, 0x5f, 0x5f, 0x5f, 0x60, 2, 0x61, 0xff, 0xff, 0xf1]).2.isSome := by
    decide +kernel
  have fits : ∀ e ∈ (calling [0x5f, 0x5f, 0x5f, 0x5f, 0x5f, 0x60, 2, 0x61, 0xff, 0xff, 0xf1]).1, e.GasFits := by
    decide +kernel
  obtain ⟨⟨result, w'⟩, returns⟩ := Option.isSome_iff_exists.mp ends
  exact ⟨result, w', returns, gas_never_created 20 .SHANGHAI { gas := 100000, recipient := 1 }
    [0x5f, 0x5f, 0x5f, 0x5f, 0x5f, 0x60, 2, 0x61, 0xff, 0xff, 0xf1] calling_world w' result (Or.inl (by decide))
    (by decide) (by decide) fits returns⟩

/-- The same accounts, where account 1 has the code. -/
def called_world (code : Bytes) : World (ZMod 65537) :=
  calling_world.set_accounts (Function.update calling_world.accounts 1 (some { code := code }))

/-- `VMHost` runs that code with a gas of 100000. -/
def hosting (code : Bytes) : List Event × Option (Result × World (ZMod 65537)) :=
  letI := no_hash
  letI : Crypto3 := ⟨fun _ => []⟩
  (vm_host (evaluate 20)).call { gas := 100000, recipient := 1, code_address := 1 } (called_world code)

/-- The same call in a frame that is evaluated, and in one that `VMHost` runs. -/
theorem frames_keep_gas_call : (∃ result w',
    (calling [0x5f, 0x5f, 0x5f, 0x5f, 0x5f, 0x60, 2, 0x61, 0xff, 0xff, 0xf1]).2 = some (result, w') ∧
      0 ≤ result.gas_left ∧ result.gas_left ≤ 100000) ∧
    ∃ result w', (hosting [0x5f, 0x5f, 0x5f, 0x5f, 0x5f, 0x60, 2, 0x61, 0xff, 0xff, 0xf1]).2 = some (result, w') ∧
      0 ≤ result.gas_left ∧ result.gas_left ≤ 100000 := by
  let _ := no_hash
  let _ : Crypto3 := ⟨fun _ => []⟩
  have ends : (calling [0x5f, 0x5f, 0x5f, 0x5f, 0x5f, 0x60, 2, 0x61, 0xff, 0xff, 0xf1]).2.isSome := by
    decide +kernel
  have fits : ∀ e ∈ (calling [0x5f, 0x5f, 0x5f, 0x5f, 0x5f, 0x60, 2, 0x61, 0xff, 0xff, 0xf1]).1, e.GasFits := by
    decide +kernel
  have ends' : (hosting [0x5f, 0x5f, 0x5f, 0x5f, 0x5f, 0x60, 2, 0x61, 0xff, 0xff, 0xf1]).2.isSome := by
    decide +kernel
  have fits' : ∀ e ∈ (hosting [0x5f, 0x5f, 0x5f, 0x5f, 0x5f, 0x60, 2, 0x61, 0xff, 0xff, 0xf1]).1, e.GasFits := by
    decide +kernel
  obtain ⟨⟨result, w⟩, returns⟩ := Option.isSome_iff_exists.mp ends
  obtain ⟨⟨result', w'⟩, returns'⟩ := Option.isSome_iff_exists.mp ends'
  exact ⟨⟨result, w, returns, (frames_keep_gas 20 { gas := 100000, recipient := 1 } calling_world (by decide)
      (by decide)).1 .SHANGHAI [0x5f, 0x5f, 0x5f, 0x5f, 0x5f, 0x60, 2, 0x61, 0xff, 0xff, 0xf1] result w
        (Or.inl (by decide)) fits returns⟩,
    ⟨result', w', returns', (frames_keep_gas 20 { gas := 100000, recipient := 1, code_address := 1 }
      (called_world [0x5f, 0x5f, 0x5f, 0x5f, 0x5f, 0x60, 2, 0x61, 0xff, 0xff, 0xf1]) (by decide)
      (by decide)).2 result' w' fits' returns'⟩⟩

/-- A call that asks for a gas of -16777216 fails, and its caller has 16777216 more than before. -/
def minting_code : Bytes := [0x5f, 0x5f, 0x5f, 0x5f, 0x5f, 0x60, 2, 0x67, 0xff, 0xff, 0xff, 0xff, 0xff, 0, 0, 0, 0xf1]

theorem gas_created_call : ∃ result w', (calling minting_code).2 = some (result, w') ∧
    result.gas_left = 16874600 ∧ ¬ result.gas_left ≤ 100000 := by
  have ends : (calling minting_code).2.map (fun r => r.1.gas_left) = some 16874600 := by
    decide +kernel
  obtain ⟨⟨result, w'⟩, returns, left⟩ := Option.map_eq_some_iff.mp ends
  exact ⟨result, w', returns, left, by rw [left]; decide⟩

end EvmAssigner
