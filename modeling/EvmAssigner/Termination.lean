import EvmAssigner.FrameRows
import EvmAssigner.GasLeft
import EvmAssigner.MoreFuel
import EvmAssigner.TraceFits

namespace EvmAssigner
open RwTable

section
variable {F : Type} [Field F] {p : Nat} [CharP F p] {t : Assignment F} {row row' : Nat} {o o' : rw_operation}

/-- Rows that agree in every sorting column are of entries with one number. -/
theorem HoldsRow.rw_id_eq (wide : 2 ^ 16 ≤ p) (holds : HoldsRow t row o) (holds' : HoldsRow t row' o')
    (fits : o.rw_id < 2 ^ 32) (fits' : o'.rw_id < 2 ^ 32)
    (same : ∀ c ∈ sorting, t.witness c row = t.witness c row') : o.rw_id = o'.rw_id := by
  have chunk {c m n : Nat} (column : CHUNKS c ∈ sorting) (less : m < 2 ^ 16) (less' : n < 2 ^ 16)
      (cell : (CHUNKS c, (m : F)) ∈ row_cells o) (cell' : (CHUNKS c, (n : F)) ∈ row_cells o') : m = n := by
    have equal := same _ column
    rw [holds _ cell, holds' _ cell'] at equal
    exact CharP.natCast_injOn_Iio F p (less.trans_le wide) (less'.trans_le wide) equal
  have upper (n : Nat) : ((0xffff <<< 16) &&& n) >>> 16 = n / 2 ^ 16 % 2 ^ 16 :=
    (congrArg (fun l : List Nat => l.getD 0 0) (low_chunks n)).symm
  have lower (n : Nat) : ((0xffff <<< 16) >>> 16) &&& n = n % 2 ^ 16 := by
    rw [Nat.and_comm]
    exact Nat.and_two_pow_sub_one_eq_mod n 16
  have high := chunk (c := 28) (by decide) (upper o.rw_id ▸ Nat.mod_lt _ (by decide))
    (upper o'.rw_id ▸ Nat.mod_lt _ (by decide)) (by simp [row_cells]) (by simp [row_cells])
  have low := chunk (c := 29) (by decide) (lower o.rw_id ▸ Nat.mod_lt _ (by decide))
    (lower o'.rw_id ▸ Nat.mod_lt _ (by decide)) (by simp [row_cells]) (by simp [row_cells])
  rw [upper, upper] at high
  rw [lower, lower] at low
  omega

variable [DecidableEq F]

theorem fill_rows_numbered (wide : 2 ^ 16 ≤ p) {start i : Nat} {os : List rw_operation}
    (last : HoldsRow t (row_index start i) o) (fits : ∀ a ∈ o :: os, a.rw_id < 2 ^ 32)
    (chain : (o :: os).IsChain fun a b => a.rw_id ≠ b.rw_id) : (fill_rows start (i + 1) os t).isSome := by
  induction os generalizing t i o with
  | nil => rfl
  | cons a os ih =>
    obtain ⟨differ, chain'⟩ := List.isChain_cons_cons.mp chain
    have written := row_cells_hold t (row_index start (i + 1)) a
    have kept : HoldsRow (t.set_cells (row_index start (i + 1)) (row_cells a)) (row_index start i) o := by
      intro cell member
      rw [Assignment.set_cells_witness_row (row_index_succ_ne start i)]
      exact last cell member
    obtain ⟨t', step⟩ : ∃ t', fill_row t start (i + 1) a = some t' := by
      rw [fill_row_succ]
      refine fill_advice_returns a ?_
      by_contra same
      push Not at same
      exact differ (written.rw_id_eq wide kept (fits a (by simp)) (fits o (by simp)) same).symm
    rw [fill_rows, step, Option.bind_some]
    exact ih (fill_row_holds step) (fun b member => fits b (List.mem_cons_of_mem o member)) chain'

/-- A numbered trace can be recorded, wherever the block starts. -/
theorem process_rw_operations_returns (wide : 2 ^ 16 ≤ p) {rw_trace : List rw_operation}
    (numbered : ∀ (k : Nat) a, rw_trace[k]? = some a → a.rw_id = k) (short : rw_trace.length < 2 ^ 32) :
    (process_rw_operations rw_trace t).isSome := by
  have perm := sort_operations_perm rw_trace
  have ids : rw_trace.map (·.rw_id) = List.range rw_trace.length := by
    refine List.ext_getElem (by simp) fun k left right => ?_
    rw [List.length_map] at left
    rw [List.getElem_map, List.getElem_range, numbered k _ (List.getElem?_eq_getElem left)]
  have distinct : (sort_operations rw_trace).Pairwise fun a b => a.rw_id ≠ b.rw_id := by
    refine List.pairwise_map.mp ((perm.map rw_operation.rw_id).nodup_iff.mpr ?_)
    rw [ids]
    exact List.nodup_range
  have fits (a : rw_operation) (member : a ∈ sort_operations rw_trace) : a.rw_id < 2 ^ 32 := by
    obtain ⟨k, within, rfl⟩ := List.getElem_of_mem (perm.mem_iff.mp member)
    rw [numbered k _ (List.getElem?_eq_getElem within)]
    exact within.trans short
  rw [process_rw_operations, if_pos short]
  cases sorted : sort_operations rw_trace with
  | nil => rfl
  | cons a os =>
    rw [sorted] at distinct fits
    have head : fill_row t (start_row_index t) 0 a =
        some (t.set_cells (row_index (start_row_index t) 0) (row_cells a)) := rfl
    rw [fill_rows, head, Option.bind_some]
    exact fill_rows_numbered wide (fill_row_holds head) fits distinct.isChain

end

/-- No call asks for a negative gas, and the entries of every trace can be counted in 32 bits. -/
def Event.Modest (e : Event) : Prop := e.GasFits ∧ ∀ rw_trace ∈ e.handed, rw_trace.length < 2 ^ 32

instance : DecidablePred Event.Modest := fun e =>
  inferInstanceAs (Decidable (e.GasFits ∧ ∀ rw_trace ∈ e.handed, rw_trace.length < 2 ^ 32))

abbrev modest : Action.Contract Event := ⟨Event.Modest, fun _ => True⟩

/-- It comes to an end, unless it is not modest. -/
abbrev Ends {σ α : Type} (M : Nat → Action Event σ α) (s : σ) : Prop :=
  Action.Halts Event.Modest M (fun _ _ => True) s

section
variable {σ α : Type} {M : Nat → Action Event σ α} {s : σ}

/-- What comes to an end comes to the same one with all larger amounts of fuel. -/
theorem ends_settle (mono : Monotone M) (ends : Ends M s) (modest : ∀ fuel, ∀ e ∈ (M fuel).events s, e.Modest) :
    ∃ enough a s', ∀ fuel ≥ enough, (M fuel s).2 = some (a, s') := by
  obtain ⟨enough, ends⟩ := ends
  obtain ⟨a, s', returns, _⟩ := ends (modest enough)
  refine ⟨enough, a, s', fun fuel more => ?_⟩
  exact (congrArg Prod.snd (Action.eq_of_le (mono more) returns)).trans returns

/-- A run that is seen to the end is seen to be modest whatever the fuel. -/
theorem modest_of_returns (mono : Monotone M) {enough : Nat} (ends : (M enough s).2.isSome)
    (modest : ∀ e ∈ (M enough).events s, e.Modest) (fuel : Nat) : ∀ e ∈ (M fuel).events s, e.Modest := by
  obtain ⟨r, returns⟩ := Option.isSome_iff_exists.mp ends
  refine fun e member => modest e ?_
  rcases le_total fuel enough with less | more
  · exact (Action.Extends.events (mono less) s).subset member
  · have same : (M fuel).events s = (M enough).events s :=
      congrArg Prod.fst (Action.eq_of_le (mono more) returns)
    exact same ▸ member

end

section
variable {H : Type} {host : Host H} {calls : Nat → Message → Action Event H Result} {exec : Exec H} {stack gas : Int}

theorem Answers.with_call (host : Host H) [answers : Answers host] (call : Message → Action Event H Result) :
    Answers { host with call := call } := { answers with }

variable [Answers host]

theorem make_call_ends {Op : CallOp} {o : CallOperands} {msg : Message}
    (frames : 0 ≤ gas_operand o.gas + stipend o.value → exec.state.msg.depth < 1024 →
      ∀ h, Ends (fun fuel => calls fuel msg) h) :
    Ends (fun fuel => make_call { host with call := calls fuel } Op o msg stack gas) exec := by
  refine Action.halts_wp_bind (light_failure_ends.mono fun failed e shallow => ?_)
  refine Action.halts_ite (fun _ => Action.halts_of_wp (by simp)) fun there => ?_
  refine Action.halts_emit_bind fun modest => ?_
  refine Action.Halts.bind_total (Action.Halts.zoom (A := Event.Modest) ?_)
  have fits : 0 ≤ gas_operand o.gas + stipend o.value := modest.1 (o.gas, o.value) rfl
  refine (frames fits (shallow (Bool.eq_false_of_not_eq_true there)) e.host).mono fun result h _ => ?_
  exact Action.total_of_wp (wp_on_state.mpr (finish_call_ends.mono fun _ _ _ => trivial))

theorem call_impl_ends (Op : CallOp) (range : gas < 2 ^ 63)
    (frames : ∀ (msg : Message) h, 0 ≤ msg.gas → msg.gas < 2 ^ 63 → exec.state.msg.depth < 1024 →
      msg.depth = exec.state.msg.depth + 1 → Ends (fun fuel => calls fuel msg) h) :
    Ends (fun fuel => call_impl { host with call := calls fuel } Op stack gas) exec := by
  simp only [call_impl_charges, call_charges_call]
  refine Action.halts_wp_bind (Action.wp_get.mpr (Action.halts_wp_bind ?_))
  refine call_charges_spends.mono fun charged e ready => ?_
  cases charged with
  | inl result => exact Action.halts_of_wp (Action.wp_pure.mpr trivial)
  | inr rest =>
    obtain ⟨o, input, left⟩ := rest
    obtain ⟨nonneg, less⟩ := ready.goes_on o input left rfl
    cases forwarded : forwarded_gas exec.state.rev o.gas left with
    | none =>
      simp only [forward_call_none forwarded]
      exact Action.halts_of_wp (Action.wp_pure.mpr trivial)
    | some sent =>
      simp only [forward_call_some forwarded]
      refine make_call_ends fun fits shallow h => ?_
      rw [ready.msg] at shallow
      obtain ⟨lower, upper⟩ := forwarded_gas_within nonneg fits forwarded
      refine frames _ h lower ?_ shallow rfl
      show sent + stipend o.value < 2 ^ 63
      omega

theorem create_impl_ends (Op : CreateOp) (range : gas < 2 ^ 63)
    (frames : ∀ (msg : Message) h, 0 ≤ msg.gas → msg.gas < 2 ^ 63 → exec.state.msg.depth < 1024 →
      msg.depth = exec.state.msg.depth + 1 → Ends (fun fuel => calls fuel msg) h) :
    Ends (fun fuel => create_impl { host with call := calls fuel } Op stack gas) exec := by
  simp only [create_impl_charges, create_charges_call]
  refine Action.halts_wp_bind (Action.wp_get.mpr (Action.halts_wp_bind ?_))
  refine create_charges_spends.mono fun charged e ready => ?_
  cases charged with
  | inl result => exact Action.halts_of_wp (Action.wp_pure.mpr trivial)
  | inr rest =>
    obtain ⟨o, input, left⟩ := rest
    obtain ⟨nonneg, less, shallow⟩ := ready.goes_on o input left rfl
    have sent := create_gas_within exec.state.rev nonneg
    refine Action.Halts.bind_total (Action.Halts.zoom (A := Event.Modest) ?_)
    refine (frames _ e.host sent.1 (lt_of_le_of_lt (sent.2.trans less) range) shallow rfl).mono fun result h _ => ?_
    exact Action.total_of_wp (wp_on_state.mpr (finish_create_ends.mono fun _ _ _ => trivial))

variable [Ethash] {op : Opcode} {pos : Int}

theorem step_ends (nonneg : 0 ≤ gas) (range : gas < 2 ^ 63) (legacy : op ∉ eof_opcodes)
    (frames : ∀ (msg : Message) h, 0 ≤ msg.gas → msg.gas < 2 ^ 63 → exec.state.msg.depth < 1024 →
      msg.depth = exec.state.msg.depth + 1 → Ends (fun fuel => calls fuel msg) h) :
    Ends (fun fuel => invoke_impl (map_opcodes { host with call := calls fuel } op) pos stack gas) exec := by
  have sent {fns : Nat → Int → Int → Instr H InstructionResult} (ends : Ends (fun fuel => fns fuel stack gas) exec) :
      Ends (fun fuel => invoke_impl (.gas (fns fuel)) pos stack gas) exec :=
    Action.Halts.bind_total (ends.mono fun o e _ => Action.total_of_wp (by simp [set_status]))
  by_cases quiet : op.sends = false
  · simp only [map_opcodes_call _ _ quiet]
    exact Action.halts_of_wp ((quiet_step_spends nonneg legacy quiet).mono fun _ _ _ => trivial)
  · cases op with
    | CREATE => exact sent (create_impl_ends .CREATE range frames)
    | CREATE2 => exact sent (create_impl_ends .CREATE2 range frames)
    | CALL => exact sent (call_impl_ends .CALL range frames)
    | CALLCODE => exact sent (call_impl_ends .CALLCODE range frames)
    | DELEGATECALL => exact sent (call_impl_ends .DELEGATECALL range frames)
    | STATICCALL => exact sent (call_impl_ends .STATICCALL range frames)
    | _ => exact absurd rfl quiet

theorem turn_ends {rev : Revision} (frames : ∀ (msg : Message) h, 0 ≤ msg.gas → msg.gas < 2 ^ 63 →
      exec.state.msg.depth < 1024 → msg.depth = exec.state.msg.depth + 1 → Ends (fun fuel => calls fuel msg) h) :
    Ends (fun fuel => turn { host with call := calls fuel } (legacy_cost_table rev) pos stack gas) exec := by
  unfold turn invoke
  refine Action.halts_wp_bind (wp_on_state.mpr (wp_read_code.mpr (Action.halts_wp_bind (Action.wp_get.mpr ?_))))
  refine Action.halts_emit_bind fun _ => Action.halts_wp_bind ?_
  generalize exec.state.analysis.code_at pos = byte
  have asserted : Action.wp (on_state (requirement_assertions (Opcode.of_byte byte))) (fun _ e => e = exec) exec := by
    simp [requirement_assertions]
  refine asserted.mono fun _ e same => ?_
  subst same
  have ended (status : StatusCode) (next : Next) :
      Action.wp (set_status status >>= fun _ => pure next) (fun (_ : Next) _ => True) e := by
    simp [set_status]
  cases name : Opcode.of_byte byte with
  | none =>
    generalize check_requirements (legacy_cost_table rev) gas stack none = required
    exact Action.halts_ite (fun _ => Action.halts_of_wp (ended _ _)) fun _ => Action.halts_of_wp (ended _ _)
  | some op =>
    have meets := @check_requirements_success (legacy_cost_table rev) gas stack op
    generalize check_requirements (legacy_cost_table rev) gas stack (some op) = required at meets
    refine Action.halts_ite (fun _ => Action.halts_of_wp (ended _ _)) fun success => ?_
    obtain ⟨meets, paid, left⟩ := meets (not_not.mp success)
    have range : required.2 < 2 ^ 63 := left ▸ Int.bmod_lt (by decide)
    exact Action.Halts.bind_total ((step_ends (left ▸ paid) range (legacy_meets meets) frames).mono fun _ _ _ =>
      Action.total_of_wp (Action.wp_pure.mpr trivial))

/-- What is known of a turn that is made, and of all that it leaves to do. -/
structure TurnLeads (code : Bytes) (outer : Message) (pos gas : Int) (next : Next) (e : Exec H) : Prop where
  msg : e.state.msg = outer
  within : next.code_it ≠ none → 0 ≤ next.gas ∧ next.gas ≤ gas
  moves : ∀ pos', next.code_it = some pos' → pos < pos' ∨ next.gas < gas
  positioned : Positioned code ⟨next.code_it, next.stack_top, next.gas, e⟩

theorem turn_leads {rev : Revision} {code : Bytes} {outer : Message} (nonneg : 0 ≤ gas)
    (range : gas < 2 ^ 63) (positioned : Positioned code ⟨some pos, stack, gas, exec⟩)
    (same : exec.state.msg = outer)
    (back : ∀ (msg : Message) h, 0 ≤ msg.gas → msg.gas < 2 ^ 63 → GivesBack msg (host.call msg) h) :
    Action.wlp modest (turn host (legacy_cost_table rev) pos stack gas) (TurnLeads code outer pos gas) exec := by
  have spends : Action.wlp modest (turn host (legacy_cost_table rev) pos stack gas)
      (fun next e => TurnSpends pos gas next e.state) exec :=
    (turn_spends nonneg range back).weaken (fun _ assumed => assumed.1) fun _ _ => trivial
  have walks : Action.wlp modest (turn host (legacy_cost_table rev) pos stack gas)
      (fun next e => ∀ pos', next.code_it = some pos' →
        e.state.analysis = analyze_legacy code ∧ Moves code ⟨some pos, stack, gas, exec⟩ pos') exec :=
    (legacy_turn positioned rfl).weaken (fun _ _ => trivial) fun _ _ => trivial
  have keeps : Action.wlp modest (turn host (legacy_cost_table rev) pos stack gas)
      (fun _ e => e.state.msg = outer) exec :=
    Action.wlp.weaken (C := any_event) (msg_wide.turn (fun _ _ _ _ => trivial) same) (fun _ _ => trivial)
      fun _ _ => trivial
  refine ((spends.and walks).and keeps).mono fun next e all => ?_
  obtain ⟨⟨spends, walks⟩, msg⟩ := all
  refine ⟨msg, fun going => spends.within (Or.inl going), spends.moves, fun pos' going => ?_⟩
  obtain ⟨legacy, moves⟩ := walks pos' going
  exact ⟨(moves.range positioned).1, (moves.range positioned).2, legacy⟩

/-- What is left to do after a turn. -/
def goes_on (host : Host H) (cost_table : Opcode → Int) (fuel : Nat) (next : Next) : Instr H Int :=
  next.code_it.elim (pure next.gas) fun pos' => dispatch host cost_table fuel pos' next.stack_top next.gas

omit [Answers host] in
theorem dispatch_succ {cost_table : Opcode → Int} {fuel : Nat} :
    dispatch host cost_table (fuel + 1) pos stack gas =
      turn host cost_table pos stack gas >>= goes_on host cost_table fuel := by
  rw [dispatch]
  refine congrArg (turn host cost_table pos stack gas >>= ·) (funext fun next => ?_)
  unfold goes_on
  cases next.code_it with
  | none => rfl
  | some pos' => rfl

omit [Answers host] in
/-- A turn that comes to an end, and what it leaves to do. -/
theorem dispatch_turn_ends {cost_table : Opcode → Int} {Q : Next → Exec H → Prop}
    (mono : ∀ msg, Monotone fun fuel => calls fuel msg)
    (turned : Action.Halts Event.Modest (fun fuel =>
      turn { host with call := calls fuel } cost_table pos stack gas) Q exec)
    (rest : ∀ next e pos', Q next e → next.code_it = some pos' → Ends (fun fuel =>
      dispatch { host with call := calls fuel } cost_table fuel pos' next.stack_top next.gas) e) :
    Ends (fun fuel => dispatch { host with call := calls fuel } cost_table fuel pos stack gas) exec := by
  have goes (next : Next) {a b c : Nat} (le : a ≤ b) (le' : a ≤ c) :
      goes_on { host with call := calls a } cost_table a next ≤
        goes_on { host with call := calls b } cost_table c next := by
    unfold goes_on
    cases next.code_it with
    | none => simp only [Option.elim_none, le_refl]
    | some pos' =>
      simp only [Option.elim_some]
      exact dispatch_le (fun msg => mono msg le) le'
  have whole : Ends (fun fuel => turn { host with call := calls fuel } cost_table pos stack gas >>=
      goes_on { host with call := calls fuel } cost_table fuel) exec := by
    refine Action.Halts.bind (fun a b le => turn_le fun msg => mono msg le) (fun next a b le => goes next le le)
      (turned.mono fun next e q => ?_)
    unfold goes_on
    cases at_it : next.code_it with
    | none =>
      simp only [Option.elim_none]
      exact Action.halts_of_wp (Action.wp_pure.mpr trivial)
    | some pos' =>
      simp only [Option.elim_some]
      exact rest next e pos' q at_it
  refine Action.Halts.more (whole.of_le fun fuel => ?_)
  exact (Action.bind_le (turn_le fun msg => mono msg (Nat.le_succ fuel)) fun next =>
    goes next (Nat.le_succ fuel) le_rfl).trans_eq dispatch_succ.symm

/-- Every turn uses some of the gas, or moves on in the code. -/
theorem dispatch_ends {rev : Revision} {code : Bytes} {outer : Message} {exec : Exec H} {pos stack gas : Int}
    (nonneg : 0 ≤ gas) (range : gas < 2 ^ 63)
    (positioned : Positioned code ⟨some pos, stack, gas, exec⟩) (same : exec.state.msg = outer)
    (mono : ∀ msg, Monotone fun fuel => calls fuel msg)
    (back : ∀ fuel (msg : Message) h, 0 ≤ msg.gas → msg.gas < 2 ^ 63 → GivesBack msg (calls fuel msg) h)
    (frames : ∀ (msg : Message) h, 0 ≤ msg.gas → msg.gas < 2 ^ 63 → outer.depth < 1024 →
      msg.depth = outer.depth + 1 → Ends (fun fuel => calls fuel msg) h) :
    Ends (fun fuel => dispatch { host with call := calls fuel } (legacy_cost_table rev) fuel pos stack gas) exec := by
  have turned : Ends (fun fuel => turn { host with call := calls fuel } (legacy_cost_table rev) pos stack gas) exec :=
    turn_ends (same ▸ frames)
  have leads (fuel : Nat) : Action.wlp modest
      (turn { host with call := calls fuel } (legacy_cost_table rev) pos stack gas)
      (TurnLeads code outer pos gas) exec :=
    have := Answers.with_call host (calls fuel)
    turn_leads nonneg range positioned same (back fuel)
  refine dispatch_turn_ends mono (turned.and_wlp leads) fun next e pos' both at_it => ?_
  obtain ⟨_, leads⟩ := both
  obtain ⟨lower, less⟩ := leads.within (at_it ▸ Option.some_ne_none pos')
  have positioned' : Positioned code ⟨some pos', next.stack_top, next.gas, e⟩ := at_it ▸ leads.positioned
  have bound := positioned' pos' rfl
  have further := leads.moves pos' at_it
  exact dispatch_ends lower (by omega) positioned' leads.msg mono back frames
termination_by (gas.toNat, (code.length + 33 - pos).toNat)
decreasing_by
  rw [Prod.lex_def]
  simp only
  omega

end

section
variable {F : Type} [Field F] [DecidableEq F] [Ethash] [Crypto3] {w : World F} {msg : Message}

theorem vm_call_ends (frames : ∀ (msg' : Message) code (w : World F), msg'.gas = msg.gas → msg'.depth = msg.depth →
      Ends (fun fuel => evaluate fuel .LATEST_STABLE msg' code) w) :
    Ends (fun fuel => VMHost.call (evaluate fuel) msg) w := by
  have gives_up (result : Result) (w : World F) : Ends (fun _ => pure result) w :=
    Action.halts_of_wp (Action.wp_pure.mpr trivial)
  have called : Ends (fun fuel => VMHost.handle_call (evaluate fuel) msg) w := by
    refine Action.halts_wp_bind (Action.wp_get.mpr (Action.halts_ite (fun _ => gives_up _ _) fun _ => ?_))
    refine Action.halts_wp_bind (Action.wp_modify.mpr (Action.halts_ite (fun _ => gives_up _ _) fun _ => ?_))
    exact frames msg _ _ rfl rfl
  have created : Ends (fun fuel => VMHost.handle_create (evaluate fuel) msg) w := by
    refine Action.halts_wp_bind (Action.wp_get.mpr (Action.halts_ite (fun _ => gives_up _ _) fun _ => ?_))
    refine Action.halts_wp_bind (Action.wp_modify.mpr (Action.halts_ite (fun _ => gives_up _ _) fun _ => ?_))
    have below := frames { msg with kind := .CALL, recipient := calculate_address msg, input_data := [] }
      msg.input_data (w.set_accounts (w.accounts.ensure (calculate_address msg))) rfl rfl
    exact Action.Halts.bind_total (below.mono fun _ _ _ => Action.total_of_wp (by simp))
  refine Action.Halts.bind_total (Action.Halts.mono (Q := fun _ _ => True) ?_ fun _ _ _ => Action.total_of_wp (by simp))
  refine Action.halts_wp_bind (Action.wp_get.mpr (Action.halts_emit_bind fun _ => ?_))
  cases msg.kind with
  | CALL | CALLCODE | DELEGATECALL => exact called
  | CREATE | CREATE2 => exact created
  | other => exact gives_up _ _

omit [Ethash] [Crypto3] in
theorem end_frame_ends {p : Nat} [CharP F p] (wide : 2 ^ 16 ≤ p) {circuit : Nat} {gas : Int} {state : ExecutionState}
    (numbered : Numbered state) :
    Action.total Event.Modest (end_frame circuit gas state) (fun _ _ => True) w := by
  have handed : Action.total Event.Modest (handle_rw state.rw_trace) (fun _ _ => True) w := by
    unfold handle_rw
    refine Action.total_bind (Action.total_of_wp (Action.wp_get.mpr ?_))
    cases w.rw_table with
    | none => exact Action.total_of_wp (Action.wp_pure.mpr trivial)
    | some t =>
      refine Action.total_bind (Action.total_emit fun short => ?_)
      have returns := process_rw_operations_returns (t := t) wide (fun k a at_k => (numbered k a at_k).1)
        (short.2 state.rw_trace rfl)
      obtain ⟨t', recorded⟩ := Option.isSome_iff_exists.mp returns
      simp only [recorded]
      exact Action.total_of_wp (Action.wp_modify.mpr trivial)
  have rest (w : World F) : Action.wp (do
      if ¬ (state.output_size ≠ 0 ∨ state.output_offset = 0) then Action.emit (Event.assertion_failed .output)
      return frame_result gas state) (fun _ _ => True) w := by simp
  refine Action.total_ite (fun _ => ?_) fun _ => Action.total_of_wp (rest w)
  exact Action.total_bind (handed.mono fun _ w' _ => Action.total_of_wp (rest w'))

theorem evaluate_ends {p : Nat} [CharP F p] (wide : 2 ^ 16 ≤ p) {rev : Revision} {code : Bytes}
    (legacy : RunsLegacy rev code) (nonneg : 0 ≤ msg.gas) (range : msg.gas < 2 ^ 63) :
    Ends (fun fuel => evaluate fuel rev msg code) w := by
  induction frames_left : (1024 - msg.depth).toNat using Nat.strong_induction_on generalizing rev msg code w with
  | _ n ih =>
    refine Action.Halts.more (Action.halts_wp_bind (Action.wp_get.mpr ?_))
    have analysed : analyze rev code = some (analyze_legacy code) := if_pos legacy
    have no_data : (analyze_legacy code).eof_header.get_data code = some [] := rfl
    simp only [analysed]
    cases zkevm_circuits_map.lookup w.target_circuit with
    | none => exact Action.halts_of_wp (Action.wp_pure.mpr trivial)
    | some circuit =>
      simp only [no_data]
      have started : Action.wp (start_frame circuit code (analyze_legacy code)) (fun _ _ => True) w := by
        simp [start_frame, handle_bytecode]
      refine Action.halts_wp_bind (started.mono fun heap w' _ => ?_)
      have frames (m : Message) (w : World F) (lower : 0 ≤ m.gas) (upper : m.gas < 2 ^ 63)
          (shallow : msg.depth < 1024) (below : m.depth = msg.depth + 1) :
          Ends (fun fuel => VMHost.call (evaluate fuel) m) w := by
        refine vm_call_ends fun m' code' w' same_gas same_depth => ?_
        exact ih _ (by omega) (Or.inl (by decide)) (same_gas ▸ lower) (same_gas ▸ upper) rfl
      have back (fuel : Nat) (m : Message) (w : World F) (lower : 0 ≤ m.gas) (upper : m.gas < 2 ^ 63) :
          GivesBack m (VMHost.call (evaluate fuel) m) w :=
        vm_host_gives_back lower fun m' code' w' same => by
          unfold GivesBack
          rw [← same]
          exact evaluate_gives_back (Or.inl (by decide)) (same ▸ lower) (same ▸ upper)
      have mono (m : Message) : Monotone fun fuel => VMHost.call (evaluate fuel : Evaluate F) m :=
        fun _ _ le => vm_call_le fun rev msg code => evaluate_mono rev msg code le
      have ends : Ends (fun fuel => dispatch { vm_host (evaluate 0) with call := VMHost.call (evaluate fuel) }
          (legacy_cost_table rev) fuel 0 0 msg.gas) ⟨.new msg rev code [] 0 (analyze_legacy code) heap, w'⟩ :=
        dispatch_ends nonneg range Positioned.start rfl mono back frames
      have fresh : Numbered (ExecutionState.new msg rev code [] 0 (analyze_legacy code) heap) :=
        fun _ _ at_k => by simp [ExecutionState.new] at at_k
      have numbered (fuel : Nat) : Action.wlp modest
          (dispatch { vm_host (evaluate 0) with call := VMHost.call (evaluate fuel) } (legacy_cost_table rev) fuel 0 0
            msg.gas) (fun _ e => Numbered e.state)
          ⟨.new msg rev code [] 0 (analyze_legacy code) heap, w'⟩ :=
        (numbered_dispatch fresh).weaken (fun _ _ => trivial) fun _ _ => trivial
      refine Action.Halts.bind_total (Action.Halts.zoom (A := Event.Modest) (Action.Halts.bind_total ?_))
      exact (ends.and_wlp numbered).mono fun left e both => Action.total_of_wp (by
        simpa using end_frame_ends wide both.2)

/-- A run comes to an end, and to the same one however much more fuel there is. -/
theorem evaluate_terminates {p : Nat} [CharP F p] (wide : 2 ^ 16 ≤ p) (rev : Revision) (msg : Message)
    (code : Bytes) (w : World F) (legacy : RunsLegacy rev code) (nonneg : 0 ≤ msg.gas) (range : msg.gas < 2 ^ 63)
    (modest : ∀ fuel, ∀ e ∈ (evaluate fuel rev msg code).events w, e.Modest) :
    ∃ enough result w', ∀ fuel ≥ enough, (evaluate fuel rev msg code w).2 = some (result, w') :=
  ends_settle (evaluate_mono rev msg code) (evaluate_ends wide legacy nonneg range) modest

end

/-- A call of account 2 that asks for a gas of 65535. -/
theorem evaluate_terminates_call : ∃ enough result w', ∀ fuel ≥ enough,
    (@evaluate (ZMod 65537) _ _ no_hash ⟨fun _ => []⟩ fuel .SHANGHAI { gas := 100000, recipient := 1 }
      [0x5f, 0x5f, 0x5f, 0x5f, 0x5f, 0x60, 2, 0x61, 0xff, 0xff, 0xf1] calling_world).2 = some (result, w') := by
  let _ := no_hash
  let _ : Crypto3 := ⟨fun _ => []⟩
  refine evaluate_terminates (F := ZMod 65537) (p := 65537) (by decide) .SHANGHAI { gas := 100000, recipient := 1 }
    [0x5f, 0x5f, 0x5f, 0x5f, 0x5f, 0x60, 2, 0x61, 0xff, 0xff, 0xf1] calling_world (Or.inl (by decide))
    (by decide) (by decide) ?_
  have ends : (calling [0x5f, 0x5f, 0x5f, 0x5f, 0x5f, 0x60, 2, 0x61, 0xff, 0xff, 0xf1]).2.isSome := by
    decide +kernel
  have modest : ∀ e ∈ (calling [0x5f, 0x5f, 0x5f, 0x5f, 0x5f, 0x60, 2, 0x61, 0xff, 0xff, 0xf1]).1, e.Modest := by
    decide +kernel
  exact modest_of_returns (evaluate_mono .SHANGHAI _ _) ends modest

section
variable {F : Type} [Field F] [DecidableEq F] [Ethash] [Crypto3]

/-- A frame that is evaluated comes to an end, and so does a call that `VMHost` answers. -/
theorem frames_terminate {p : Nat} [CharP F p] (wide : 2 ^ 16 ≤ p) (msg : Message) (w : World F)
    (nonneg : 0 ≤ msg.gas) (range : msg.gas < 2 ^ 63) :
    (∀ rev code, RunsLegacy rev code → (∀ fuel, ∀ e ∈ (evaluate fuel rev msg code).events w, e.Modest) →
      ∃ enough result w', ∀ fuel ≥ enough, (evaluate fuel rev msg code w).2 = some (result, w')) ∧
    ((∀ fuel, ∀ e ∈ ((vm_host (evaluate fuel)).call msg).events w, e.Modest) →
      ∃ enough result w', ∀ fuel ≥ enough, ((vm_host (evaluate fuel)).call msg w).2 = some (result, w')) := by
  refine ⟨fun rev code legacy modest => ?_, fun modest => ?_⟩
  · exact ends_settle (evaluate_mono rev msg code) (evaluate_ends wide legacy nonneg range) modest
  · have mono : Monotone fun fuel => VMHost.call (evaluate fuel : Evaluate F) msg :=
      fun _ _ le => vm_call_le fun rev msg code => evaluate_mono rev msg code le
    refine ends_settle mono (vm_call_ends fun msg' code w same_gas _ => ?_) modest
    exact evaluate_ends wide (Or.inl (by decide)) (same_gas ▸ nonneg) (same_gas ▸ range)

end

/-- The same call in a frame that is evaluated, and in one that `VMHost` runs. -/
theorem frames_terminate_call : (∃ enough result w', ∀ fuel ≥ enough,
    (@evaluate (ZMod 65537) _ _ no_hash ⟨fun _ => []⟩ fuel .SHANGHAI { gas := 100000, recipient := 1 }
      [0x5f, 0x5f, 0x5f, 0x5f, 0x5f, 0x60, 2, 0x61, 0xff, 0xff, 0xf1] calling_world).2 = some (result, w')) ∧
    ∃ enough result w', ∀ fuel ≥ enough,
      ((@vm_host (ZMod 65537) _ no_hash (@evaluate (ZMod 65537) _ _ no_hash ⟨fun _ => []⟩ fuel)).call
        { gas := 100000, recipient := 1, code_address := 1 }
        (called_world [0x5f, 0x5f, 0x5f, 0x5f, 0x5f, 0x60, 2, 0x61, 0xff, 0xff, 0xf1])).2 = some (result, w') := by
  let _ := no_hash
  let _ : Crypto3 := ⟨fun _ => []⟩
  refine ⟨(frames_terminate (F := ZMod 65537) (p := 65537) (by decide) { gas := 100000, recipient := 1 } calling_world
    (by decide) (by decide)).1 .SHANGHAI [0x5f, 0x5f, 0x5f, 0x5f, 0x5f, 0x60, 2, 0x61, 0xff, 0xff, 0xf1]
      (Or.inl (by decide)) ?_, (frames_terminate (F := ZMod 65537) (p := 65537) (by decide)
    { gas := 100000, recipient := 1, code_address := 1 }
    (called_world [0x5f, 0x5f, 0x5f, 0x5f, 0x5f, 0x60, 2, 0x61, 0xff, 0xff, 0xf1]) (by decide) (by decide)).2 ?_⟩
  · have ends : (calling [0x5f, 0x5f, 0x5f, 0x5f, 0x5f, 0x60, 2, 0x61, 0xff, 0xff, 0xf1]).2.isSome := by
      decide +kernel
    have modest : ∀ e ∈ (calling [0x5f, 0x5f, 0x5f, 0x5f, 0x5f, 0x60, 2, 0x61, 0xff, 0xff, 0xf1]).1, e.Modest := by
      decide +kernel
    exact modest_of_returns (evaluate_mono .SHANGHAI _ _) ends modest
  · have ends : (hosting [0x5f, 0x5f, 0x5f, 0x5f, 0x5f, 0x60, 2, 0x61, 0xff, 0xff, 0xf1]).2.isSome := by
      decide +kernel
    have modest : ∀ e ∈ (hosting [0x5f, 0x5f, 0x5f, 0x5f, 0x5f, 0x60, 2, 0x61, 0xff, 0xff, 0xf1]).1, e.Modest := by
      decide +kernel
    exact modest_of_returns (fun _ _ le => vm_call_le fun rev msg code => evaluate_mono rev msg code le) ends modest

/-- No accounts at all. -/
def deserted_world : World (ZMod 65537) where
  accounts := fun _ => none

/-- A `CALL` that asks for a gas of -2624 and fails, behind which its zero is the destination of a `JUMP`; all that
lies in between costs 2624. -/
def looping_code : Bytes :=
  [0x5b, 0x5f, 0x5f, 0x5f, 0x5f, 0x5f, 0x5f, 0x67, 0xff, 0xff, 0xff, 0xff, 0xff, 0xff, 0xf5, 0xc0, 0xf1, 0x56]

/-- A run of that code with a gas of 100000, where there are no accounts. -/
def looping (fuel : Nat) : List Event × Option (Result × World (ZMod 65537)) :=
  letI := no_hash
  letI : Crypto3 := ⟨fun _ => []⟩
  evaluate fuel .SHANGHAI { gas := 100000, recipient := 1 } looping_code deserted_world

/-- What no instruction changes in a frame that runs it. -/
abbrev Frames (s : ExecutionState) : Prop :=
  s.msg = { gas := 100000, recipient := 1 } ∧ s.rev = .SHANGHAI ∧ s.analysis = analyze_legacy looping_code

theorem frames_wide : Wide any_event Frames where
  record _ _ _ inv := inv
  push_storage _ _ _ _ _ inv := inv
  set_slot _ _ inv := inv
  set_status _ inv := inv
  set_return_data _ inv := inv
  set_output _ _ inv _ := inv
  set_call_stack _ inv := inv
  add_refund _ inv := inv
  set_tx _ inv := inv
  grow inv _ _ := inv
  host_output inv _ _ := inv
  store _ _ inv := inv
  push_memory _ _ _ inv := inv

section
variable [Ethash] [Crypto3] {fuel n k : Nat} {pos h gas left : Int} {op : Opcode} {exec : Exec (World (ZMod 65537))}

/-- A run somewhere in the loop, with the lowest slots of its stack. -/
structure Circling (words : List Word) (exec : Exec (World (ZMod 65537))) : Prop where
  frames : Frames exec.state
  accounts : exec.host.accounts = fun _ => none
  stack : ∀ i : Nat, i < words.length → exec.state.stack_space i = words.getD i 0

/-- A run that does not end. -/
def Endless (n fuel : Nat) (pos h gas : Int) (exec : Exec (World (ZMod 65537))) : Prop :=
  Action.wlp any_event (dispatch (vm_host (evaluate n)) (legacy_cost_table .SHANGHAI) fuel pos h gas)
    (fun _ _ => False) exec

/-- One more instruction is executed, and leads to another run that does not end. -/
theorem Endless.turn (op : Opcode) {words words' : List Word} {pos' h' left' : Int} (circling : Circling words exec)
    (name : Opcode.of_byte ((analyze_legacy looping_code).code_at pos) = some op)
    (success : check_requirements (legacy_cost_table .SHANGHAI) gas h (some op) = (.SUCCESS, left))
    (moved : h + stack_height_change op = h')
    (circles : Action.wlp any_event (invoke_impl (map_opcodes (vm_host (evaluate n)) op) pos h left)
      (fun next e => next = (some pos', left') ∧ Circling words' e) exec)
    (rest : ∀ less < fuel, ∀ e, Circling words' e → Endless n less pos' h' left' e) :
    Endless n fuel pos h gas exec := by
  unfold Endless
  cases fuel with
  | zero => exact Action.wlp_unfinished
  | succ fuel =>
    obtain ⟨_, _, paid⟩ := check_requirements_success (congrArg Prod.fst success)
    rw [← circling.frames.2.2] at name
    rw [success] at paid
    rw [dispatch, Action.wlp_bind]
    refine wlp_turn_success (CodeQuiet.code_access _ _) name (congrArg Prod.fst success) ?_
    rw [← paid]
    refine circles.mono ?_
    rintro next e ⟨rfl, circling'⟩
    exact moved ▸ rest fuel (Nat.lt_succ_self fuel) e circling'

omit [Ethash] [Crypto3] in
theorem Circling.push {words : List Word} {v : Word} {e : Exec (World (ZMod 65537))} (circling : Circling words exec)
    (frames : Frames e.state) (host : e.host = exec.host) (top : e.state.stack_space words.length = v)
    (below : ∀ slot ≠ (words.length : Int), e.state.stack_space slot = exec.state.stack_space slot) :
    Circling (words ++ [v]) e := by
  refine ⟨frames, host ▸ circling.accounts, fun i within => ?_⟩
  rw [List.length_append, List.length_singleton] at within
  by_cases last : i = words.length
  · rw [last, top, List.getD_append_right _ _ _ _ le_rfl, Nat.sub_self, List.getD_cons_zero]
  · rw [below i (by omega), circling.stack i (by omega), List.getD_append _ _ _ _ (by omega)]

theorem push0_circles {words : List Word} (height : h = words.length) (circling : Circling words exec) :
    Action.wlp any_event (invoke_impl (map_opcodes (vm_host (evaluate n)) .PUSH0) pos h left)
      (fun next e => next = (some (pos + 1), left) ∧ Circling (words ++ [0]) e) exec := by
  subst height
  have pushed : Action.wlp any_event (push0 words.length) (fun _ s' =>
      Circling (words ++ [0]) { exec with state := s' }) exec.state := by
    simp only [push0, push_word, Action.wlp_bind, wlp_stack_set, wlp_record_stack]
    refine circling.push circling.frames rfl ?_ fun slot other => ?_
    · simp
    · simp [other]
  exact wlp_void (wlp_on_state.mpr (pushed.mono fun _ _ circles => ⟨rfl, circles⟩))

theorem push8_circles {words : List Word} (height : h = words.length) (circling : Circling words exec) :
    Action.wlp any_event (invoke_impl (map_opcodes (vm_host (evaluate n)) (.PUSH 7)) 7 h left)
      (fun next e => next = (some 16, left) ∧ Circling (words ++ [0xfffffffffffff5c0]) e) exec := by
  subst height
  have immediate : be_load ((analyze_legacy looping_code).code_bytes (7 + 1) 8) = 0xfffffffffffff5c0 := by decide
  have pushed : Action.wlp any_event (on_state (H := World (ZMod 65537)) (push 8 words.length 7)) (fun next e =>
      next = some (7 + (8 + 1)) ∧
      (e.state.stack_space words.length).toNat = be_load (exec.state.analysis.code_bytes (7 + 1) 8) ∧
      ∀ slot ≠ (words.length : Int), e.state.stack_space slot = exec.state.stack_space slot) exec :=
    wlp_on_state.mpr (Action.wlp_of_wp (wp_push (by decide)) fun _ => trivial)
  have kept : (map_opcodes (vm_host (evaluate n)) (.PUSH 7)).Leaves any_event 7 words.length left
      (fun e => Frames e.state ∧ e.host = exec.host) exec :=
    frames_wide.local_step rfl (fun _ => inferInstance) circling.frames
  refine wlp_code ((Action.wlp.and kept pushed).mono fun next e both => ?_)
  obtain ⟨⟨frames, host⟩, next, top, below⟩ := both
  rw [circling.frames.2.2, immediate] at top
  exact ⟨by rw [next]; rfl, circling.push frames host (BitVec.eq_of_toNat_eq top) below⟩

theorem jumpdest_circles {words : List Word} (circling : Circling words exec) :
    Action.wlp any_event (invoke_impl (map_opcodes (vm_host (evaluate n)) .JUMPDEST) pos h left)
      (fun next e => next = (some (pos + 1), left) ∧ Circling words e) exec :=
  wlp_void (by simpa [jumpdest] using circling)

theorem jump_circles (circling : Circling [0] exec) :
    Action.wlp any_event (invoke_impl (map_opcodes (vm_host (evaluate n)) .JUMP) pos 1 left)
      (fun next e => next = (some 0, left) ∧ Circling [] e) exec := by
  have dst : exec.state.stack_space 0 = 0 := circling.stack 0 (by decide)
  have within : 0 < exec.state.analysis.jumpdest_map.length := by
    rw [circling.frames.2.2]
    decide
  have marked : exec.state.analysis.jumpdest_map.getD 0 false = true := by
    rw [circling.frames.2.2]
    decide
  have jumped : Action.wlp any_event (jump 1 pos) (fun next s' =>
      next = some 0 ∧ Circling [] { exec with state := s' }) exec.state := by
    have recorded : Circling [] { exec with state := exec.state.record 1 0 false } :=
      ⟨circling.frames, circling.accounts, fun i below => absurd below (Nat.not_lt_zero i)⟩
    have zero : Word.to_uint64 0#256 = 0 := rfl
    rw [List.getD_eq_getElem?_getD] at marked
    simpa [jump, jump_impl, dst, zero, marked, within.ne'] using fun _ => recorded
  exact wlp_code (wlp_on_state.mpr (jumped.mono fun next s' circles => ⟨by rw [circles.1], circles.2⟩))

/-- What the call asks for. -/
def refused_call : CallOperands := ⟨0xfffffffffffff5c0, 0, 0, 0, 0, 0, 0⟩

theorem call_is_charged (circling : Circling [0, 0, 0, 0, 0, 0, refused_call.gas] exec) :
    Action.wlp any_event (call_charges (vm_host (evaluate n)) .CALL exec.state 7 99884)
      (fun charged e => charged = .inr (refused_call, [], 97384) ∧ Circling [0] e) exec := by
  have recorded : Action.wlp any_event (record_operands 7 7)
      (fun _ s' => Circling [0, 0, 0, 0, 0, 0, refused_call.gas] { exec with state := s' }) exec.state := by
    refine Action.wlp_forEach (I := fun _ s' =>
      Circling [0, 0, 0, 0, 0, 0, refused_call.gas] { exec with state := s' }) ?_ circling
    intro _ _ _ s' _ inv
    exact wlp_record_stack.mpr ⟨inv.frames, inv.accounts, inv.stack⟩
  have popped {s : ExecutionState} (inv : Circling [0, 0, 0, 0, 0, 0, refused_call.gas] { exec with state := s }) :
      Action.wlp any_event (pop_call_operands .CALL 7) (fun o s' => o = refused_call ∧ s' = s) s := by
    have output_size : s.stack_space 0 = 0 := inv.stack 0 (by decide)
    have output_offset : s.stack_space 1 = 0 := inv.stack 1 (by decide)
    have input_size : s.stack_space 2 = 0 := inv.stack 2 (by decide)
    have input_offset : s.stack_space 3 = 0 := inv.stack 3 (by decide)
    have value : s.stack_space 4 = 0 := inv.stack 4 (by decide)
    have dst : s.stack_space 5 = 0 := inv.stack 5 (by decide)
    have gas : s.stack_space 6 = refused_call.gas := inv.stack 6 (by decide)
    simp [pop_call_operands, CallOp.takes_value, output_size, output_offset, input_size, input_offset, value, dst, gas]
    rfl
  have accessed {e : Exec (World (ZMod 65537))} (inv : Circling [0] e) : Action.wlp any_event
      (charge_access (vm_host (evaluate n)) 0 additional_cold_account_access_cost 99884)
      (fun answer e' => answer = (true, 97384) ∧ e' = e) e := by
    have late : e.state.rev ≥ .BERLIN := by
      rw [inv.frames.2.1]
      decide
    simp [charge_access, late, vm_host, VMHost.access_account, wlp_on_host, additional_cold_account_access_cost]
    decide
  have checked (gas : Int) (s : ExecutionState) :
      Action.wlp any_event (check_memory gas 0 0) (fun answer s' => answer = (true, gas) ∧ s' = s) s := by
    simp [check_memory]
  have free (dst : Address) : call_cost (vm_host (evaluate (F := ZMod 65537) n)) .CALL false exec.state.rev dst =
      pure 0 := by
    rw [circling.frames.2.1]
    rfl
  simp only [call_charges, Action.wlp_bind, lift_on_state, wlp_on_state]
  refine recorded.mono fun _ s inv => (popped inv).mono ?_
  rintro o s ⟨rfl, rfl⟩
  simp only [wlp_stack_set, Action.wlp_modify]
  have cleared : Circling [0] { exec with state := (s.set_slot 0 0).set_return_data [] } := by
    refine ⟨inv.frames, inv.accounts, fun i below => ?_⟩
    obtain rfl : i = 0 := by simpa using below
    rfl
  refine (accessed cleared).mono ?_
  rintro answer e ⟨rfl, rfl⟩
  have zero : Word.to_uint64 0#256 = 0 := rfl
  simp only [refused_call] at cleared ⊢
  simpa [check_memory, zero, free] using cleared

/-- Its sender is unknown, so it fails and has used -2624. -/
theorem call_is_refused {msg : Message} (circling : Circling [0] exec) (kind : msg.kind = .CALL)
    (gas : msg.gas = -2624) :
    Action.wlp any_event (make_call (vm_host (evaluate n)) .CALL refused_call msg 1 97384)
      (fun answer e => answer = ⟨.SUCCESS, 100008⟩ ∧ Circling [0] e) exec := by
  have made : Action.wlp any_event (light_failure (vm_host (evaluate n)) .CALL refused_call)
      (fun failed e => failed = false ∧ e = exec) exec := by
    simp [light_failure, circling.frames.1, refused_call]
  have refused : Action.wlp any_event (on_host ((vm_host (evaluate n)).call msg))
      (fun result e => result = { status_code := .INTERNAL_ERROR } ∧ e = exec) exec := by
    simp [vm_host, VMHost.call, VMHost.observed, VMHost.handle_call, kind, circling.accounts]
    exact fun _ => ⟨trivial, fun _ => trivial⟩
  have finished : Action.wlp any_event (finish_call refused_call msg.gas { status_code := .INTERNAL_ERROR } 1 97384)
      (fun answer s' => answer = ⟨.SUCCESS, 100008⟩ ∧ Circling [0] { exec with state := s' }) exec.state := by
    simp [finish_call, gas]
    refine ⟨by decide, circling.frames, circling.accounts, fun i below => ?_⟩
    obtain rfl : i = 0 := by simpa using below
    rfl
  refine Action.wlp_bind.mpr (made.mono fun failed e same => ?_)
  obtain ⟨rfl, rfl⟩ := same
  refine Action.wlp_ite.mpr ⟨fun failed => absurd failed (by decide), fun _ => ?_⟩
  refine Action.wlp_bind.mpr (Action.wlp_emit.mpr fun _ => ⟨trivial, Action.wlp_bind.mpr (refused.mono ?_)⟩)
  rintro result e' ⟨rfl, rfl⟩
  exact wlp_on_state.mpr finished

theorem call_circles (circling : Circling [0, 0, 0, 0, 0, 0, refused_call.gas] exec) :
    Action.wlp any_event (invoke_impl (map_opcodes (vm_host (evaluate n)) .CALL) pos 7 99884)
      (fun next e => next = (some (pos + 1), 100008) ∧ Circling [0] e) exec := by
  have called : Action.wlp any_event (call_impl (vm_host (evaluate n)) .CALL 7 99884) (fun answer e =>
      answer = ⟨.SUCCESS, 100008⟩ ∧ Circling [0] e) exec := by
    rw [call_impl_charges]
    refine Action.wlp_bind.mpr (Action.wlp_get.mpr (Action.wlp_bind.mpr ((call_is_charged circling).mono ?_)))
    rintro charged e ⟨rfl, circling'⟩
    have forwarded : forwarded_gas exec.state.rev refused_call.gas 97384 = some (-2624) := by
      rw [circling.frames.2.1]
      decide +kernel
    rw [forward_call_some forwarded]
    exact call_is_refused circling' rfl rfl
  refine Action.wlp_bind.mpr (called.mono ?_)
  rintro answer e ⟨rfl, circling'⟩
  exact Action.wlp_pure.mpr ⟨rfl, circling'⟩

theorem pushes_endless (rest : ∀ less < fuel, ∀ e, Circling (List.replicate 6 0) e → Endless n less 7 6 99987 e)
    (most : k ≤ 6) :
    ∀ less < fuel, ∀ e, Circling (List.replicate k 0) e → Endless n less (k + 1) k (99999 - 2 * k) e := by
  induction most using Nat.decreasingInduction with
  | self => exact rest
  | of_succ k below ih =>
    intro less within e circling
    have circles : Action.wlp any_event
        (invoke_impl (map_opcodes (vm_host (evaluate n)) .PUSH0) (k + 1) k (99999 - 2 * (k + 1 : Nat)))
        (fun next e => next = (some ((k : Int) + 1 + 1), 99999 - 2 * ((k + 1 : Nat) : Int)) ∧
          Circling (List.replicate (k + 1) 0) e) e := by
      rw [List.replicate_succ']
      exact push0_circles (by rw [List.length_replicate]) circling
    refine Endless.turn .PUSH0 circling ?_ ?_ ?_ circles fun less' within' => ih less' (within'.trans within)
    · interval_cases k <;> rfl
    · interval_cases k <;> rfl
    · rfl

/-- Every round begins with the same gas. -/
theorem loop_endless (circling : Circling [] exec) : Endless n fuel 0 0 100000 exec := by
  induction fuel using Nat.strong_induction_on generalizing exec with
  | _ fuel ih =>
    have asks (less) (below : less < fuel) (e) (circling : Circling (List.replicate 6 0) e) :
        Endless n less 7 6 99987 e := by
      refine Endless.turn (.PUSH 7) circling rfl rfl rfl (push8_circles rfl circling) fun less₂ below₂ e circling => ?_
      refine Endless.turn .CALL circling rfl rfl rfl (call_circles circling) fun less₃ below₃ e circling => ?_
      refine Endless.turn .JUMP circling rfl rfl rfl (jump_circles circling) fun less₄ below₄ e circling => ?_
      exact ih less₄ (by omega) circling
    have zeros := pushes_endless asks (Nat.zero_le 6)
    refine Endless.turn .JUMPDEST circling rfl rfl rfl (jumpdest_circles circling) ?_
    exact zeros

end

/-- No amount of fuel brings it to an end. -/
theorem call_loops : ¬ ∃ fuel r, (looping fuel).2 = some r := by
  let _ := no_hash
  let _ : Crypto3 := ⟨fun _ => []⟩
  rintro ⟨fuel, r, returns⟩
  have endless : Action.wlp any_event
      (evaluate (F := ZMod 65537) fuel .SHANGHAI { gas := 100000, recipient := 1 } looping_code) (fun _ _ => False)
      deserted_world := by
    cases fuel with
    | zero => exact Action.wlp_unfinished
    | succ fuel =>
      refine Action.wlp_bind.mpr (Action.wlp_get.mpr ?_)
      have analysed : analyze .SHANGHAI looping_code = some (analyze_legacy looping_code) := if_pos (Or.inl (by decide))
      have circuit : zkevm_circuits_map.lookup deserted_world.target_circuit = some ALL := by decide
      have no_data : (analyze_legacy looping_code).eof_header.get_data looping_code = some [] := rfl
      simp only [analysed, circuit, no_data, run_code, Action.wlp_bind]
      have started : Action.wlp any_event (start_frame ALL looping_code (analyze_legacy looping_code))
          (fun _ w => w.accounts = fun _ => none) deserted_world := by
        simp [start_frame, handle_bytecode, deserted_world]
      refine started.mono fun heap w deserted => ?_
      have circling : Circling []
          ⟨.new { gas := 100000, recipient := 1 } .SHANGHAI looping_code [] 0 (analyze_legacy looping_code) heap, w⟩ :=
        ⟨⟨rfl, rfl, rfl⟩, deserted, fun i below => absurd below (Nat.not_lt_zero i)⟩
      rw [run_frame, Action.wlp_zoom]
      have endless : Endless fuel fuel 0 0 100000 _ := loop_endless circling
      exact Action.wlp_bind.mpr (endless.mono fun _ _ impossible => impossible.elim)
  exact (Action.wlp.returns endless (fun _ _ => trivial) returns).2

end EvmAssigner
