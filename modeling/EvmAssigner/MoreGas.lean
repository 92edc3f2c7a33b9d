import EvmAssigner.GasLeft
import EvmAssigner.VariantSteps

namespace EvmAssigner
open EvmAssigner.Action (Alike Follows)
variable {H : Type}

/-- The instructions that show a frame how much gas it has, or hand some of it on. -/
def Opcode.sees_gas (op : Opcode) : Bool := op = .GAS || op.sends

/-- An implementation that does not notice the difference. -/
def Impl.Follows (v : Variation) (h pos left : Int) : Impl H → Prop
  | .nullptr => True
  | .void fn => Alike v.Allows v.exec (fn h) (fn h)
  | .code fn => Alike v.Allows v.exec (fn h pos) (fn h pos)
  | .gas fn | .term fn => EvmAssigner.Action.Follows v.Allows v.exec v.result (fn h left) (fn h (left + v.gas))

section
variable [Ethash] {v : Variation} {host : Host H} {op : Opcode} {h pos left : Int}

theorem map_opcodes_follows (blind : v.gas = 0 ∨ op.sees_gas = false) :
    (map_opcodes host op).Follows v h pos left := by
  have same (sees : op.sees_gas = true) : v.gas = 0 := blind.resolve_right (by simp [sees])
  have void {fn : Int → Local Unit} (alike : Alike v.Allows v.state (fn h) (fn h)) :
      (Impl.void fun s => fn s : Impl H).Follows v h pos left := follows_on_state
  have code {fn : Int → Int → Local (Option Int)} (alike : Alike v.Allows v.state (fn h pos) (fn h pos)) :
      (Impl.code fun s p => fn s p : Impl H).Follows v h pos left := follows_on_state
  have gas {fn : Int → Int → Local InstructionResult}
      (follows : Follows v.Allows v.state v.result (fn h left) (fn h (left + v.gas))) :
      (Impl.gas fun s g => fn s g : Impl H).Follows v h pos left := follows_on_state
  have term {fn : Int → Int → Local InstructionResult}
      (follows : Follows v.Allows v.state v.result (fn h left) (fn h (left + v.gas))) :
      (Impl.term fun s g => fn s g : Impl H).Follows v h pos left := follows_on_state
  cases op with
  | ADD | MUL | SUB | DIV | SDIV | MOD | SMOD | SIGNEXTEND | LT | GT | SLT | SGT | EQ | AND | OR | XOR | BYTE
  | SHL | SHR | SAR => exact void binary_alike
  | ISZERO | NOT => exact void unary_alike
  | ADDMOD => exact void addmod_alike
  | MULMOD => exact void mulmod_alike
  | ADDRESS | CALLER | CALLVALUE | CALLDATASIZE | CODESIZE | RETURNDATASIZE | MSIZE | DATASIZE =>
    exact void (push_field_alike fun _ => rfl)
  | PUSH0 => exact void push_word_alike
  | CALLDATALOAD => exact void calldataload_alike
  | DATALOAD => exact void dataload_alike
  | POP | JUMPDEST => exact void Action.alike_pure
  | DUP n => exact void dup_slot_alike
  | DUP_TOP => exact void dup_top_alike
  | SWAP n => exact void swap_slots_alike
  | SWAP_TOP => exact void swap_top_alike
  | LOG n =>
    by_cases one : n.val = 1
    · simp only [map_opcodes, one, if_true]
      exact void Action.alike_pure
    · simp only [map_opcodes, one, if_false]
      trivial
  | PRINTF => trivial
  | EXP => exact gas exp_follows
  | KECCAK256 => exact gas keccak256_follows
  | CALLDATACOPY | CODECOPY => exact gas (.get_same (fun _ => rfl) fun _ => copy_to_memory_follows)
  | RETURNDATACOPY => exact gas returndatacopy_follows
  | MLOAD | MLOAD8 | MLOAD16 | MLOAD32 | MLOAD64 => exact gas mload_follows
  | MSTORE | MSTORE8 | MSTORE16 | MSTORE32 | MSTORE64 => exact gas mstore_follows
  | MCOPY => exact gas mcopy_follows
  | DATACOPY => exact gas datacopy_follows
  | GAS => exact gas (follows_of_alike (same rfl) gas_alike)
  | STOP | INVALID => exact term follows_returns
  | RETURN | REVERT => exact term return_impl_follows
  | PUSH n => exact code push_alike
  | DUPN => exact code dupn_alike
  | SWAPN => exact code swapn_alike
  | PC => exact code pc_alike
  | JUMP => exact code jump_alike
  | JUMPI => exact code jumpi_alike
  | RJUMP => exact code rjump_alike
  | RJUMPI => exact code rjumpi_alike
  | RJUMPV => exact code rjumpv_alike
  | CALLF => exact code callf_alike
  | RETF => exact code retf_alike
  | JUMPF => exact code jumpf_alike
  | DATALOADN => exact code dataloadn_alike
  | ORIGIN | GASPRICE | COINBASE | TIMESTAMP | NUMBER | PREVRANDAO | GASLIMIT | CHAINID | BASEFEE | BLOBBASEFEE =>
    exact push_tx_alike
  | SELFBALANCE => exact selfbalance_alike
  | BLOBHASH => exact blobhash_alike
  | BLOCKHASH => exact blockhash_alike
  | TLOAD => exact tload_alike
  | BALANCE | EXTCODESIZE | EXTCODEHASH => exact query_account_follows fun _ => inferInstance
  | EXTCODECOPY => exact extcodecopy_follows
  | SLOAD => exact sload_follows
  | SSTORE => exact sstore_follows
  | TSTORE => exact tstore_follows
  | SELFDESTRUCT => exact selfdestruct_follows
  | CALL | CALLCODE | DELEGATECALL | STATICCALL => exact follows_of_alike (same rfl) (call_impl_alike (same rfl))
  | CREATE | CREATE2 => exact follows_of_alike (same rfl) (create_impl_alike (same rfl))

/-! With the same gas all is alike. -/

theorem invoke_impl_alike (same : v.gas = 0) :
    Alike v.Allows v.exec (invoke_impl (map_opcodes host op) pos h left)
      (invoke_impl (map_opcodes host op) pos h left) := by
  have status (status : StatusCode) : Alike v.Allows v.exec (set_status status : Instr H Unit) (set_status status) :=
    have := alike_changes (v := v) (f := fun s => s.set_status status) fun _ => rfl
    follows_on_state
  have back {fn : Int → Int → Instr H InstructionResult}
      (follows : Follows v.Allows v.exec v.result (fn h left) (fn h (left + v.gas))) :
      Alike v.Allows v.exec (fn h left) (fn h left) := by
    rw [same, add_zero] at follows
    exact ⟨fun allowed ran made => follows.returns allowed ran (by rw [← made]; simp [Variation.result, same])⟩
  have follows : (map_opcodes host op).Follows v h pos left := map_opcodes_follows (Or.inl same)
  cases impl : map_opcodes host op with
  | nullptr =>
    unfold invoke_impl
    infer_instance
  | void fn =>
    rw [impl] at follows
    exact .bind follows fun _ => inferInstance
  | code fn =>
    rw [impl] at follows
    exact .bind follows fun _ => inferInstance
  | gas fn =>
    rw [impl] at follows
    refine .bind (back follows) fun _ => ?_
    infer_instance
  | term fn =>
    rw [impl] at follows
    refine .bind (back follows) fun _ => ?_
    infer_instance

theorem invoke_alike (same : v.gas = 0) {cost_table : Opcode → Int} {gas : Int} {byte : UInt8} :
    Alike v.Allows v.exec (invoke host cost_table pos h gas byte) (invoke host cost_table pos h gas byte) := by
  have status (status : StatusCode) : Alike v.Allows v.exec (set_status status : Instr H Unit) (set_status status) :=
    have := alike_changes (v := v) (f := fun s => s.set_status status) fun _ => rfl
    follows_on_state
  have asserts : Alike v.Allows v.state (requirement_assertions (Opcode.of_byte byte))
      (requirement_assertions (Opcode.of_byte byte)) := by
    unfold requirement_assertions
    infer_instance
  unfold invoke
  refine .bind inferInstance fun _ => .ite inferInstance ?_
  cases Opcode.of_byte byte with
  | none => infer_instance
  | some op => exact .bind (invoke_impl_alike same) fun _ => inferInstance

theorem turn_alike (same : v.gas = 0) {cost_table : Opcode → Int} {gas : Int} :
    Alike v.Allows v.exec (turn host cost_table pos h gas) (turn host cost_table pos h gas) := by
  refine .bind inferInstance fun byte => .get_of (fun _ => rfl) fun e => ?_
  exact .bind inferInstance fun _ => invoke_alike same

theorem dispatch_alike (same : v.gas = 0) {cost_table : Opcode → Int} {fuel : Nat} {gas : Int} :
    Alike v.Allows v.exec (dispatch host cost_table fuel pos h gas) (dispatch host cost_table fuel pos h gas) := by
  induction fuel generalizing pos h gas with
  | zero => exact Action.alike_unfinished
  | succ fuel ih =>
    refine .bind (turn_alike same) ?_
    rintro ⟨code_it, stack_top, left⟩
    cases code_it with
    | none => infer_instance
    | some code_it => exact ih

/-! With more gas a frame that does not see its gas goes on as it did. -/

/-- A frame that goes on, or has come to an end that it reports the gas of. -/
def Reports (next : Option Int) (s : ExecutionState) : Prop := next ≠ none ∨ s.status = .SUCCESS ∨ s.status = .REVERT

theorem invoke_impl_more (blind : op.sees_gas = false) (nowhere : v.outside = none) {exec e : Exec H}
    {next : Option Int × Int}
    (ran : (invoke_impl (map_opcodes host op) pos h left exec).2 = some (next, e))
    (reports : Reports next.1 e.state) :
    (invoke_impl (map_opcodes host op) pos h (left + v.gas) (v.exec exec)).2 =
      some ((next.1, next.2 + v.gas), v.exec e) := by
  have follows : (map_opcodes host op).Follows v h pos left := map_opcodes_follows (Or.inr blind)
  have made {o : InstructionResult} (known : o.status = .SUCCESS ∨ o.status = .REVERT) :
      v.result o = some { o with gas_left := o.gas_left + v.gas } := if_pos (Or.inr known)
  cases impl : map_opcodes host op with
  | nullptr =>
    rw [impl] at ran
    obtain ⟨rfl, rfl⟩ := Prod.mk.inj (Option.some.inj ran)
    simp [Reports] at reports
  | void fn =>
    rw [impl] at ran follows
    have alike : Alike v.Allows v.exec (fn h) (fn h) := follows
    obtain ⟨_, e', did, last⟩ := Action.bind_eq_some.mp ran
    obtain ⟨rfl, rfl⟩ := Prod.mk.inj (Option.some.inj last)
    exact Action.bind_eq_some.mpr ⟨_, _, alike.returns (fun _ _ => Or.inl nowhere) did rfl, rfl⟩
  | code fn =>
    rw [impl] at ran follows
    have alike : Alike v.Allows v.exec (fn h pos) (fn h pos) := follows
    obtain ⟨_, e', did, last⟩ := Action.bind_eq_some.mp ran
    obtain ⟨rfl, rfl⟩ := Prod.mk.inj (Option.some.inj last)
    exact Action.bind_eq_some.mpr ⟨_, _, alike.returns (fun _ _ => Or.inl nowhere) did rfl, rfl⟩
  | gas fn =>
    rw [impl] at ran follows
    have follows : Follows v.Allows v.exec v.result (fn h left) (fn h (left + v.gas)) := follows
    obtain ⟨o, e', did, last⟩ := Action.bind_eq_some.mp ran
    by_cases success : o.status = .SUCCESS
    · rw [if_neg (not_not.mpr success)] at last
      obtain ⟨rfl, rfl⟩ := Prod.mk.inj (Option.some.inj last)
      refine Action.bind_eq_some.mpr ⟨_, _, follows.returns (fun _ _ => Or.inl nowhere) did (made (Or.inl success)), ?_⟩
      rw [if_neg (not_not.mpr success)]
      rfl
    · rw [if_pos success] at last
      obtain ⟨rfl, rfl⟩ := Prod.mk.inj (Option.some.inj last)
      have known : o.status = .SUCCESS ∨ o.status = .REVERT := reports.resolve_left (absurd rfl)
      refine Action.bind_eq_some.mpr ⟨_, _, follows.returns (fun _ _ => Or.inl nowhere) did (made known), ?_⟩
      rw [if_pos success]
      rfl
  | term fn =>
    rw [impl] at ran follows
    have follows : Follows v.Allows v.exec v.result (fn h left) (fn h (left + v.gas)) := follows
    obtain ⟨o, e', did, last⟩ := Action.bind_eq_some.mp ran
    obtain ⟨rfl, rfl⟩ := Prod.mk.inj (Option.some.inj last)
    have known : o.status = .SUCCESS ∨ o.status = .REVERT := reports.resolve_left (absurd rfl)
    exact Action.bind_eq_some.mpr ⟨_, _, follows.returns (fun _ _ => Or.inl nowhere) did (made known), rfl⟩

end

/-- An instruction that sees the gas is about to be executed. -/
def Event.sees_gas : Event → Bool
  | .step op _ _ _ => (Opcode.of_byte op).any Opcode.sees_gas
  | _ => false

/-- No instruction sees the gas. -/
abbrev blind : Action.Contract Event := ⟨fun e => e.sees_gas = false, fun _ => True⟩

instance : Quiet blind where
  assertion_failed _ := ⟨rfl, trivial⟩
  vector_access _ _ := ⟨rfl, trivial⟩
  step _ _ _ _ := trivial
  nested _ := trivial
  stack_access _ := ⟨rfl, trivial⟩
  memory_access _ _ _ := ⟨rfl, trivial⟩
  code_access _ _ := ⟨rfl, trivial⟩

section
variable [Ethash] {v : Variation} {host : Host H} [Answers host] {rev : Revision} {pos h gas : Int} {exec : Exec H}

theorem turn_more (nowhere : v.outside = none) (nonneg : 0 ≤ gas) (range : gas + v.gas < 2 ^ 63) :
    Action.wlp blind (turn host (legacy_cost_table rev) pos h gas) (fun next e => Reports next.code_it e.state →
      (0 ≤ next.gas ∧ next.gas ≤ gas) ∧
        Action.wp (turn host (legacy_cost_table rev) pos h (gas + v.gas)) (fun next' e' =>
          next' = { next with gas := next.gas + v.gas } ∧ e' = v.exec e) (v.exec exec)) exec := by
  have more := v.nonneg
  refine wlp_turn_leads (CodeQuiet.code_access _ _) (fun status left failure undone reports => ?_)
    fun op name unseen meets paid => ?_
  · simp [Reports, failure, undone] at reports
  · have unseen : op.sees_gas = false := by simpa [Event.sees_gas, name] using unseen
    have quiet : op.sends = false := by
      unfold Opcode.sees_gas at unseen
      simp_all
    obtain ⟨lower, upper, _⟩ := base_cost_bounds meets.defined
    rw [int64_of_range (by omega) (by omega)] at paid ⊢
    refine Action.wlp.and_returns (Action.wlp_of_wp (quiet_step_spends paid (legacy_meets meets) quiet)
      fun _ => trivial) (fun next e ran => invoke_impl_more (v := v) unseen nowhere ran) |>.mono ?_
    rintro next e ⟨spends, again⟩ reports
    have within := spends.gas reports
    refine ⟨⟨within.1, by simp only; omega⟩, wp_turn name ?_ ?_⟩
    · refine meets.success ?_
      rw [int64_of_range (by omega) (by omega)]
      omega
    · rw [int64_of_range (by omega) (by omega), add_sub_right_comm]
      exact ⟨_, _, again reports, rfl, rfl⟩

theorem dispatch_more {fuel : Nat} (nowhere : v.outside = none) (nonneg : 0 ≤ gas) (range : gas + v.gas < 2 ^ 63) :
    Action.wlp blind (dispatch host (legacy_cost_table rev) fuel pos h gas) (fun left e =>
      e.state.status = .SUCCESS ∨ e.state.status = .REVERT →
        Action.wp (dispatch host (legacy_cost_table rev) fuel pos h (gas + v.gas)) (fun left' e' =>
          left' = left + v.gas ∧ e' = v.exec e) (v.exec exec)) exec := by
  induction fuel generalizing pos h gas exec with
  | zero => exact Action.wlp_unfinished
  | succ fuel ih =>
    rw [dispatch, Action.wlp_bind]
    refine (turn_more nowhere nonneg range).mono fun next e again => ?_
    cases at_it : next.code_it with
    | none =>
      refine Action.wlp_pure.mpr fun reports => Action.wp_bind.mpr ((again (Or.inr reports)).2.mono ?_)
      rintro _ _ ⟨rfl, rfl⟩
      simp only [at_it]
      exact Action.wp_pure.mpr ⟨rfl, rfl⟩
    | some pos' =>
      obtain ⟨⟨lower, upper⟩, again⟩ := again (Or.inl (at_it ▸ Option.some_ne_none pos'))
      refine (ih lower (by omega)).mono fun left e' rest reports => Action.wp_bind.mpr (again.mono ?_)
      rintro _ _ ⟨rfl, rfl⟩
      simp only [at_it]
      exact rest reports

end

section
variable {F : Type} [Field F] [DecidableEq F] [Ethash] [Crypto3]

/-- More gas, and nothing else. -/
abbrev surplus (more : Int) (nonneg : 0 ≤ more) : Variation := { gas := more, nonneg := nonneg }

omit [Ethash] [Crypto3] in
theorem surplus_rw_trace {more : Int} {nonneg : 0 ≤ more} (s : ExecutionState) :
    ((surplus more nonneg).state s).rw_trace = s.rw_trace := by
  have same : (surplus more nonneg).entry = id := by
    funext o
    simp [Variation.entry]
  rw [Variation.state_rw_trace, same, List.map_id, List.nil_append]

omit [Ethash] [Crypto3] in
theorem end_frame_returns {left : Int} {circuit : Nat} {s : ExecutionState} {w w' : World F} {result : Result}
    (ended : (end_frame circuit left s w).2 = some (result, w')) : result = frame_result left s := by
  have each : Action.wlp any_event (end_frame circuit left s) (fun result _ => result = frame_result left s) w := by
    simp only [end_frame, Action.wlp_bind, Action.wlp_ite, Action.wlp_emit, Action.wlp_pure, and_self, implies_true,
      and_true]
    exact fun _ => wlp_any_event
  exact (each.returns (fun _ _ => trivial) ended).2

omit [Ethash] [Crypto3] in
theorem end_frame_more {more left : Int} {nonneg : 0 ≤ more} {circuit : Nat} {s : ExecutionState}
    (reports : s.status = .SUCCESS ∨ s.status = .REVERT) :
    Follows (fun _ => True) id (fun result : Result => some { result with gas_left := result.gas_left + more })
      (end_frame circuit left s : Action Event (World F) Result)
      (end_frame circuit (left + more) ((surplus more nonneg).state s) : Action Event (World F) Result) := by
  have result : frame_result (left + more) ((surplus more nonneg).state s) =
      { frame_result left s with gas_left := (frame_result left s).gas_left + more } := by
    have memory : (surplus more nonneg).memory s.memory = s.memory := rfl
    simp [frame_result, reports, memory]
  have rows : Alike (fun _ => True) id (handle_rw (F := F) s.rw_trace) (handle_rw s.rw_trace) := Action.alike_refl _
  have ends : Follows (fun _ => True) id
      (fun result : Result => some { result with gas_left := result.gas_left + more })
      (pure (frame_result left s) : Action Event (World F) Result)
      (pure (frame_result (left + more) ((surplus more nonneg).state s)) : Action Event (World F) Result) :=
    .pure_of fun _ made => (Option.some.inj made).symm.trans result.symm
  unfold end_frame
  simp only [surplus_rw_trace, Variation.state_output_size, Variation.state_output_offset]
  infer_instance

omit [DecidableEq F] [Ethash] [Crypto3] in
theorem run_frame_returns {m : Instr (World F) Int} {s : ExecutionState} {w : World F} {left : Int}
    {e : Exec (World F)} (ran : (m ⟨s, w⟩).2 = some (left, e)) :
    (run_frame m s w).2 = some ((left, e.state), e.host) := by
  have inner : ((m >>= fun a => Action.get >>= fun e => pure (a, e.state)) ⟨s, w⟩).2 = some ((left, e.state), e) :=
    Action.bind_eq_some.mpr ⟨left, e, ran, rfl⟩
  show Option.map _ ((m >>= fun a => Action.get >>= fun e => pure (a, e.state)) ⟨s, w⟩).2 = _
  rw [inner]
  rfl

theorem evaluate_more {fuel : Nat} {rev : Revision} {msg : Message} {code : Bytes} {w : World F} {more : Int}
    (legacy : RunsLegacy rev code) (nonneg : 0 ≤ msg.gas) (surplus : 0 ≤ more) (range : msg.gas + more < 2 ^ 63) :
    Action.wlp blind (evaluate fuel rev msg code) (fun result w' =>
      result.status_code = .SUCCESS ∨ result.status_code = .REVERT →
        (evaluate fuel rev { msg with gas := msg.gas + more } code w).2 =
          some ({ result with gas_left := result.gas_left + more }, w')) w := by
  have any {α σ : Type} (m : Action Event σ α) (s : σ) : Action.wlp blind m (fun _ _ => True) s :=
    .of_ensures (fun _ => trivial) fun _ _ _ => trivial
  cases fuel with
  | zero => exact Action.wlp_unfinished
  | succ fuel =>
    have analysed : analyze rev code = some (analyze_legacy code) := if_pos legacy
    have no_data : (analyze_legacy code).eof_header.get_data code = some [] := rfl
    simp only [evaluate, Action.wlp_bind, Action.wlp_get, analysed]
    cases known : zkevm_circuits_map.lookup w.target_circuit with
    | none => exact Action.wlp_pure.mpr (by simp)
    | some circuit =>
      simp only [no_data, run_code, Action.wlp_bind]
      refine ((any _ _).and_returns fun heap w₁ started => started).mono ?_
      rintro heap w₁ ⟨_, started⟩
      rw [run_frame, Action.wlp_zoom]
      simp only [Action.wlp_bind, Action.wlp_get, Action.wlp_pure]
      refine (dispatch_more (v := EvmAssigner.surplus more surplus) rfl nonneg range).mono fun left e again => ?_
      refine ((any _ _).and_returns fun result w' ended => ended).mono ?_
      rintro result w' ⟨_, ended⟩ reports
      obtain rfl := end_frame_returns ended
      have reports : e.state.status = .SUCCESS ∨ e.state.status = .REVERT := reports
      obtain ⟨_, _, ran, rfl, rfl⟩ := again reports
      refine Action.bind_eq_some.mpr ⟨w, w, rfl, ?_⟩
      simp only [known]
      refine Action.bind_eq_some.mpr ⟨heap, w₁, started, ?_⟩
      exact Action.bind_eq_some.mpr ⟨_, _, run_frame_returns ran,
        (end_frame_more reports).returns (fun _ _ => trivial) ended rfl⟩

/-- The gas a frame reports is the only thing that tells how much more it had. -/
theorem more_gas_same_run (fuel : Nat) (rev : Revision) (msg : Message) (code : Bytes) (w w' : World F)
    (result : Result) (more : Int) (legacy : RunsLegacy rev code) (nonneg : 0 ≤ msg.gas) (surplus : 0 ≤ more)
    (range : msg.gas + more < 2 ^ 63) (unseen : ∀ e ∈ (evaluate fuel rev msg code).events w, e.sees_gas = false)
    (returns : (evaluate fuel rev msg code w).2 = some (result, w'))
    (reports : result.status_code = .SUCCESS ∨ result.status_code = .REVERT) :
    (evaluate fuel rev { msg with gas := msg.gas + more } code w).2 =
      some ({ result with gas_left := result.gas_left + more }, w') :=
  ((evaluate_more legacy nonneg surplus range).returns unseen returns).2 reports

end

/-- The storage is written to, a word of the memory is hashed and handed back. -/
theorem more_gas_same_run_store : ∃ result w',
    (@evaluate (ZMod 65537) _ _ no_hash ⟨fun _ => []⟩ 20 .SHANGHAI { gas := 100000, recipient := 1 }
      [0x60, 1, 0x5f, 0x55, 0x60, 32, 0x5f, 0x20, 0x5f, 0x52, 0x60, 32, 0x5f, 0xf3] calling_world).2 =
        some (result, w') ∧
    (@evaluate (ZMod 65537) _ _ no_hash ⟨fun _ => []⟩ 20 .SHANGHAI { gas := 100005, recipient := 1 }
      [0x60, 1, 0x5f, 0x55, 0x60, 32, 0x5f, 0x20, 0x5f, 0x52, 0x60, 32, 0x5f, 0xf3] calling_world).2 =
        some ({ result with gas_left := result.gas_left + 5 }, w') := by
  let _ := no_hash
  let _ : Crypto3 := ⟨fun _ => []⟩
  have ends : ((evaluate 20 .SHANGHAI { gas := 100000, recipient := 1 }
      [0x60, 1, 0x5f, 0x55, 0x60, 32, 0x5f, 0x20, 0x5f, 0x52, 0x60, 32, 0x5f, 0xf3] calling_world).2.map
        fun r => r.1.status_code) = some .SUCCESS := by
    decide +kernel
  have unseen : ∀ e ∈ (evaluate 20 .SHANGHAI { gas := 100000, recipient := 1 }
      [0x60, 1, 0x5f, 0x55, 0x60, 32, 0x5f, 0x20, 0x5f, 0x52, 0x60, 32, 0x5f, 0xf3] calling_world).1,
        e.sees_gas = false := by
    decide +kernel
  obtain ⟨⟨result, w'⟩, returns, success⟩ := Option.map_eq_some_iff.mp ends
  exact ⟨result, w', returns, more_gas_same_run 20 .SHANGHAI { gas := 100000, recipient := 1 }
    [0x60, 1, 0x5f, 0x55, 0x60, 32, 0x5f, 0x20, 0x5f, 0x52, 0x60, 32, 0x5f, 0xf3] calling_world w' result 5
    (Or.inl (by decide)) (by decide) (by decide) (by decide) unseen returns (Or.inl success)⟩

end EvmAssigner
