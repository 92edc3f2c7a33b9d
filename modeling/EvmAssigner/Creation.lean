import EvmAssigner.Balances

namespace EvmAssigner

/-- An instruction that sends a message is about to be executed. -/
def Event.sends : Event → Bool
  | .step byte _ _ _ => (Opcode.of_byte byte).any Opcode.sends
  | _ => false

/-- The contract of a frame that sends no message. -/
abbrev sends_nothing : Action.Contract Event := ⟨fun e => e.sends = false, fun _ => True⟩

instance : CodeQuiet sends_nothing := ⟨fun _ _ => ⟨rfl, trivial⟩⟩

instance : Calm sends_nothing where
  assertion_failed _ := ⟨rfl, trivial⟩
  vector_access _ _ := ⟨rfl, trivial⟩
  step _ _ _ _ := trivial
  nested _ := trivial

theorem any_event_aloof : Aloof any_event fun (_ : Unit) _ => () :=
  .of_local (fun _ _ => ⟨trivial, fun _ => rfl⟩) (fun _ => Iff.rfl) (fun _ => Iff.rfl) fun _ _ => rfl

section
variable {F : Type} [Field F] [DecidableEq F] [Ethash] [Crypto3] {B : Address → Word}

omit [DecidableEq F] [Ethash] [Crypto3] in
/-- What a frame does by itself leaves every balance as it is. -/
theorem unmoved_invariant : StorageInvariant any_event (fun (_ : Unit) _ => ()) (fun _ => True)
    fun (w : World F) _ => w.accounts.get_balance = B where
  accounts inv _ := ⟨trivial, inv⟩
  sload _ _ _ _ inv _ := ⟨trivial, inv⟩
  sstore _ _ _ _ _ _ inv _ :=
    ⟨trivial, fun _ => ⟨trivial, (funext fun _ => Accounts.set_storage_get_balance).trans inv⟩⟩
  tstore _ _ _ _ inv _ := ⟨trivial, (funext fun _ => Accounts.set_transient_storage_get_balance).trans inv⟩

/-- A frame of a world with the balances `B`. -/
abbrev Unmoved (B : Address → Word) (msg : Message) (exec : Exec (World F)) : Prop :=
  Kept (fun (w : World F) (_ : Unit) => w.accounts.get_balance = B) msg exec ()

variable {fuel : Nat} {evaluate' : Evaluate F} {cost_table : Opcode → Int} {msg : Message}
  {exec : Exec (World F)} {code_it stack_top gas : Int}

omit [DecidableEq F] [Crypto3] in
theorem unmoved_turn (unmoved : Unmoved B msg exec) :
    Action.wlp sends_nothing (turn (vm_host evaluate') cost_table code_it stack_top gas)
      (fun _ => Unmoved B msg) exec := by
  refine wlp_turn_leads (CodeQuiet.code_access _ _) (fun _ _ _ _ => ⟨unmoved.host, unmoved.msg⟩) ?_
  intro op name step _ _
  have quiet : op.sends = false := by
    have unsent : (Opcode.of_byte (exec.state.analysis.code_at code_it)).any Opcode.sends = false := step
    rwa [name] at unsent
  have kept : Action.wlp any_event (invoke_impl (map_opcodes (vm_host evaluate') op) code_it stack_top
      (int64 (gas - base_cost cost_table op))) (fun _ => Unmoved B msg) exec :=
    quiet_step_kept any_event_aloof unmoved_invariant trivial unmoved quiet
  exact kept.weaken (fun _ _ => trivial) fun _ _ => trivial

omit [DecidableEq F] [Crypto3] in
theorem unmoved_dispatch (unmoved : Unmoved B msg exec) :
    Action.wlp sends_nothing (dispatch (vm_host evaluate') cost_table fuel code_it stack_top gas)
      (fun _ => Unmoved B msg) exec := by
  induction fuel generalizing code_it stack_top gas exec with
  | zero => exact Action.wlp_unfinished
  | succ fuel ih =>
    rw [dispatch, Action.wlp_bind]
    refine (unmoved_turn unmoved).mono fun next e unmoved' => ?_
    cases next.code_it with
    | none => exact Action.wlp_pure.mpr unmoved'
    | some code_it' => exact ih unmoved'

variable {w : World F} {circuit : Nat} {rev : Revision} {code data : Bytes} {analysis : CodeAnalysis}

omit [Ethash] in
theorem unmoved_start_frame (unmoved : w.accounts.get_balance = B) :
    Action.wlp sends_nothing (start_frame circuit code analysis)
      (fun _ w' => w'.accounts.get_balance = B) w := by
  simp only [start_frame, handle_bytecode, Action.wlp_bind, Action.wlp_get, Action.wlp_emit, Action.wlp_modify,
    Action.wlp_ite, Action.wlp_pure]
  exact fun _ => ⟨trivial, fun _ => unmoved, fun _ => unmoved⟩

omit [Ethash] [Crypto3] in
theorem unmoved_end_frame {gas : Int} {state : ExecutionState} (unmoved : w.accounts.get_balance = B) :
    Action.wlp sends_nothing (end_frame circuit gas state) (fun _ w' => w'.accounts.get_balance = B) w := by
  have traced (rw_trace : List rw_operation) : Action.wlp sends_nothing (handle_rw rw_trace)
      (fun _ w' => w'.accounts.get_balance = B) w := by
    simp only [handle_rw, Action.wlp_bind, Action.wlp_get]
    cases w.rw_table with
    | none => exact Action.wlp_pure.mpr unmoved
    | some rw_table =>
      simp only [Action.wlp_bind, Action.wlp_emit]
      refine fun _ => ⟨trivial, ?_⟩
      cases process_rw_operations rw_trace rw_table with
      | none => exact Action.wlp_unfinished
      | some rw_table' => exact Action.wlp_modify.mpr unmoved
  simp only [end_frame, Action.wlp_ite, Action.wlp_bind, Action.wlp_emit, Action.wlp_pure]
  exact ⟨fun _ => (traced _).mono fun _ w' unmoved' => ⟨fun _ _ => ⟨trivial, unmoved'⟩, fun _ => unmoved'⟩,
    fun _ => ⟨fun _ _ => ⟨trivial, unmoved⟩, fun _ => unmoved⟩⟩

theorem unmoved_run_code (unmoved : w.accounts.get_balance = B) :
    Action.wlp sends_nothing (run_code evaluate' fuel circuit rev msg code analysis data)
      (fun _ w' => w'.accounts.get_balance = B) w := by
  simp only [run_code, Action.wlp_bind]
  refine (unmoved_start_frame unmoved).mono fun heap w' unmoved' => ?_
  have fresh : Unmoved B msg ⟨.new msg rev code data 0 analysis heap, w'⟩ := ⟨unmoved', rfl⟩
  rw [run_frame, Action.wlp_zoom]
  simp only [Action.wlp_bind, Action.wlp_get, Action.wlp_pure]
  exact (unmoved_dispatch fresh).mono fun _ _ kept => unmoved_end_frame kept.host

/-- A frame that sends no message leaves every balance as it is. -/
theorem unmoved_evaluate (unmoved : w.accounts.get_balance = B) :
    Action.wlp sends_nothing (evaluate fuel rev msg code) (fun _ w' => w'.accounts.get_balance = B) w := by
  cases fuel with
  | zero => exact Action.wlp_unfinished
  | succ fuel =>
    simp only [evaluate, Action.wlp_bind, Action.wlp_get]
    cases zkevm_circuits_map.lookup w.target_circuit with
    | none => exact Action.wlp_pure.mpr unmoved
    | some circuit =>
      cases analyze rev code with
      | none => exact Action.wlp_unfinished
      | some analysis =>
        dsimp only
        cases analysis.eof_header.get_data code with
        | none => exact Action.wlp_unfinished
        | some data => exact unmoved_run_code unmoved

/-- What a creation that succeeds has found and done, as long as its code sends no message. -/
structure Created (m : Message) (accounts : Accounts) (result : Result) (w' : World F) : Prop where
  fresh : accounts (calculate_address m) = none
  address : result.create_address = calculate_address m
  balances : w'.accounts.get_balance = accounts.get_balance

theorem unmoved_create {m : Message} (creates : m.kind = .CREATE ∨ m.kind = .CREATE2) :
    Action.wlp sends_nothing (VMHost.call (evaluate fuel) m)
      (fun result w' => result.status_code = .SUCCESS → Created m w.accounts result w') w := by
  have created : Action.wlp sends_nothing (VMHost.handle_create (evaluate fuel) m)
      (fun result w' => result.status_code = .SUCCESS → Created m w.accounts result w') w := by
    simp only [VMHost.handle_create, Action.wlp_bind, Action.wlp_get, Action.wlp_ite, Action.wlp_modify,
      Action.wlp_pure]
    refine ⟨fun _ failed => absurd failed (by decide), fun fresh => ?_⟩
    have fresh : w.accounts (calculate_address m) = none := Option.not_isSome_iff_eq_none.mp fresh
    have ensured : (w.set_accounts (w.accounts.ensure (calculate_address m))).accounts.get_balance =
        w.accounts.get_balance := funext fun _ => Accounts.ensure_get_balance
    refine ⟨fun _ _ => ⟨fresh, rfl, ensured⟩, fun _ => ?_⟩
    refine (unmoved_evaluate ensured).mono fun res w' unmoved => ⟨fun _ _ => ⟨fresh, rfl, ?_⟩,
      fun failed success => absurd success failed⟩
    exact (funext fun _ => Accounts.set_code_get_balance).trans unmoved
  simp only [VMHost.call, VMHost.observed, Action.wlp_bind, Action.wlp_get, Action.wlp_emit, Action.wlp_pure]
  refine fun _ => ⟨trivial, ?_⟩
  have observed := created.mono fun result w' outcome (_ : (Event.accounts w'.accounts).sends = false) =>
    And.intro trivial outcome
  rcases creates with kind | kind
  · rw [kind]
    exact observed
  · rw [kind]
    exact observed

/-- The creator pays the endowment to the new account. -/
def Endows (m : Message) (accounts : Accounts) (result : Result) (w' : World F) : Prop :=
  (w'.accounts.get_balance m.sender).toNat + m.value.toNat = (accounts.get_balance m.sender).toNat ∧
    w'.accounts.get_balance result.create_address = m.value

omit [DecidableEq F] [Crypto3] in
theorem Created.endows_iff {m : Message} {accounts : Accounts} {result : Result} {w' : World F}
    (created : Created m accounts result w') : Endows m accounts result w' ↔ m.value = 0 := by
  have unused : w'.accounts.get_balance result.create_address = 0 := by
    rw [created.balances, created.address, Accounts.get_balance, created.fresh]
  unfold Endows
  rw [unused, created.balances]
  constructor
  · rintro ⟨_, endowed⟩
    exact endowed.symm
  · intro free
    rw [free]
    exact ⟨rfl, rfl⟩

/-- Nothing is ever moved to the new account: a creation that succeeds pays its endowment just where there is
none. -/
theorem create_endows_iff (fuel : Nat) (m : Message) (creates : m.kind = .CREATE ∨ m.kind = .CREATE2)
    (w w' : World F) (result : Result)
    (returns : (VMHost.call (evaluate fuel) m w).2 = some (result, w')) (success : result.status_code = .SUCCESS)
    (quiet : ∀ e ∈ (VMHost.call (evaluate fuel) m).events w, e.sends = false) :
    Endows m w.accounts result w' ↔ m.value = 0 :=
  (((unmoved_create creates).returns quiet returns).2 success).endows_iff

end

/-- Account 1 makes an account with 3 on it, with a code that only stops. -/
def endowed_creation : Message :=
  { kind := .CREATE, gas := 1000, sender := 1, value := 3, input_data := [0x60, 0, 0x50, 0] }

/-- The balance stays where it is. -/
theorem create_endows_stopping :
    letI := no_hash
    letI : Crypto3 := ⟨fun _ => []⟩
    ∃ result w', (VMHost.call (evaluate 20) endowed_creation paying_world).2 = some (result, w') ∧
      result.status_code = .SUCCESS ∧ (Endows endowed_creation paying_world.accounts result w' ↔ (3 : Word) = 0) := by
  let _ := no_hash
  let _ : Crypto3 := ⟨fun _ => []⟩
  have ends : ((VMHost.call (evaluate 20) endowed_creation paying_world).2.map fun r => r.1.status_code) =
      some .SUCCESS := by decide +kernel
  have quiet : ∀ e ∈ (VMHost.call (evaluate 20) endowed_creation).events paying_world, e.sends = false := by
    decide +kernel
  obtain ⟨⟨result, w'⟩, returns, success⟩ := Option.map_eq_some_iff.mp ends
  exact ⟨result, w', returns, success, create_endows_iff 20 endowed_creation (Or.inl rfl) paying_world w' result
    returns success quiet⟩

/-- Account 1 has 5 before and after, and there is no balance on the new account. -/
theorem create_unpaid :
    letI := no_hash
    letI : Crypto3 := ⟨fun _ => []⟩
    ¬ ∀ result w', (VMHost.call (evaluate 20) endowed_creation paying_world).2 = some (result, w') →
      result.status_code = .SUCCESS →
      (∀ e ∈ (VMHost.call (evaluate 20) endowed_creation).events paying_world, e.sends = false) →
        Endows endowed_creation paying_world.accounts result w' := by
  let _ := no_hash
  let _ : Crypto3 := ⟨fun _ => []⟩
  intro claim
  have ends : ((VMHost.call (evaluate 20) endowed_creation paying_world).2.map fun r => r.1.status_code) =
      some .SUCCESS := by decide +kernel
  have quiet : ∀ e ∈ (VMHost.call (evaluate 20) endowed_creation).events paying_world, e.sends = false := by
    decide +kernel
  obtain ⟨⟨result, w'⟩, returns, success⟩ := Option.map_eq_some_iff.mp ends
  have created := ((unmoved_create (Or.inl rfl)).returns quiet returns).2 success
  exact absurd (created.endows_iff.mp (claim result w' returns success quiet)) (by decide)

end EvmAssigner
