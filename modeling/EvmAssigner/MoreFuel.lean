import EvmAssigner.Forwarding
import EvmAssigner.Lib.Fuel

namespace EvmAssigner

section
variable {H : Type} (host : Host H) (call : Message → Action Event H Result)

theorem call_charges_call (Op : CallOp) (s : ExecutionState) (stack gas_left : Int) :
    call_charges { host with call := call } Op s stack gas_left = call_charges host Op s stack gas_left := rfl

theorem create_charges_call (Op : CreateOp) (s : ExecutionState) (stack gas_left : Int) :
    create_charges { host with call := call } Op s stack gas_left = create_charges host Op s stack gas_left := rfl

/-- Only the instructions that send a message have to do with the `call` of the host. -/
theorem map_opcodes_call [Ethash] {op : Opcode} (quiet : op.sends = false) :
    map_opcodes { host with call := call } op = map_opcodes host op := by
  cases op with
  | CALL | CALLCODE | DELEGATECALL | STATICCALL | CREATE | CREATE2 => cases quiet
  | _ => rfl

variable {host call} (le : ∀ msg, host.call msg ≤ call msg) {stack pos gas : Int}
include le

theorem make_call_le (Op : CallOp) (o : CallOperands) (msg : Message) :
    make_call host Op o msg stack gas ≤ make_call { host with call := call } Op o msg stack gas :=
  Action.bind_le le_rfl fun _ => Action.ite_le le_rfl (Action.bind_le le_rfl fun _ =>
    Action.bind_le (Action.zoom_le (le _)) fun _ => le_rfl)

theorem call_impl_le (Op : CallOp) :
    call_impl host Op stack gas ≤ call_impl { host with call := call } Op stack gas := by
  rw [call_impl_charges, call_impl_charges]
  refine Action.bind_le le_rfl fun s => ?_
  rw [call_charges_call]
  refine Action.bind_le le_rfl fun charged => ?_
  cases charged with
  | inl result => exact le_rfl
  | inr rest =>
    obtain ⟨o, input, left⟩ := rest
    cases forwarded : forwarded_gas s.state.rev o.gas left with
    | none =>
      rw [forward_call_none forwarded, forward_call_none forwarded]
    | some sent =>
      rw [forward_call_some forwarded, forward_call_some forwarded]
      exact make_call_le le _ _ _

theorem create_impl_le (Op : CreateOp) :
    create_impl host Op stack gas ≤ create_impl { host with call := call } Op stack gas := by
  rw [create_impl_charges, create_impl_charges]
  refine Action.bind_le le_rfl fun s => ?_
  rw [create_charges_call]
  refine Action.bind_le le_rfl fun charged => ?_
  cases charged with
  | inl result => exact le_rfl
  | inr rest => exact Action.bind_le (Action.zoom_le (le _)) fun _ => le_rfl

variable [Ethash]

theorem invoke_impl_le (op : Opcode) : invoke_impl (map_opcodes host op) pos stack gas ≤
    invoke_impl (map_opcodes { host with call := call } op) pos stack gas := by
  by_cases sends : op.sends = true
  · cases op with
    | CALL | CALLCODE | DELEGATECALL | STATICCALL => exact Action.bind_le (call_impl_le le _) fun _ => le_rfl
    | CREATE | CREATE2 => exact Action.bind_le (create_impl_le le _) fun _ => le_rfl
    | _ => cases sends
  · rw [map_opcodes_call host call (Bool.eq_false_of_not_eq_true sends)]

theorem turn_le {cost_table : Opcode → Int} :
    turn host cost_table pos stack gas ≤ turn { host with call := call } cost_table pos stack gas := by
  refine Action.bind_le le_rfl fun byte => Action.bind_le le_rfl fun s => Action.bind_le le_rfl fun _ => ?_
  refine Action.bind_le le_rfl fun _ => Action.ite_le le_rfl ?_
  cases Opcode.of_byte byte with
  | none => exact le_rfl
  | some op => exact Action.bind_le (invoke_impl_le le op) fun _ => le_rfl

theorem dispatch_le {cost_table : Opcode → Int} {fuel fuel' : Nat} (more : fuel ≤ fuel') :
    dispatch host cost_table fuel pos stack gas ≤
      dispatch { host with call := call } cost_table fuel' pos stack gas := by
  induction fuel generalizing fuel' pos stack gas with
  | zero => exact Action.unfinished_le
  | succ fuel ih =>
    obtain ⟨fuel', rfl⟩ := Nat.exists_eq_add_of_le' (Nat.one_le_of_lt more)
    refine Action.bind_le (turn_le le) fun next => ?_
    cases next.code_it with
    | none => exact le_rfl
    | some pos' => exact ih (Nat.le_of_succ_le_succ more)

omit le in
/-- Whatever fuel it has, a loop that comes to an end does nothing else on the way. -/
theorem dispatch_events_of_finished {cost_table : Opcode → Int} {fuel n : Nat} {exec : Exec H} {r : Int × Exec H}
    {e : Event} (finished : (dispatch host cost_table n pos stack gas exec).2 = some r)
    (member : e ∈ (dispatch host cost_table fuel pos stack gas).events exec) :
    e ∈ (dispatch host cost_table n pos stack gas).events exec := by
  have more : dispatch host cost_table fuel pos stack gas ≤ dispatch host cost_table (max fuel n) pos stack gas :=
    dispatch_le (fun _ => le_rfl) (le_max_left _ _)
  have enough : dispatch host cost_table n pos stack gas ≤ dispatch host cost_table (max fuel n) pos stack gas :=
    dispatch_le (fun _ => le_rfl) (le_max_right _ _)
  have same := Action.eq_of_le enough finished
  have later := (Action.Extends.events more exec).subset member
  rwa [Action.events, same] at later

end

section
variable {F : Type} [Zero F] {ev ev' : Evaluate F} {msg : Message}
  (le : ∀ rev msg code, ev rev msg code ≤ ev' rev msg code)
include le

theorem handle_call_le : VMHost.handle_call ev msg ≤ VMHost.handle_call ev' msg :=
  Action.bind_le le_rfl fun _ => Action.ite_le le_rfl (Action.bind_le le_rfl fun _ =>
    Action.ite_le le_rfl (le _ _ _))

theorem handle_create_le [Ethash] : VMHost.handle_create ev msg ≤ VMHost.handle_create ev' msg :=
  Action.bind_le le_rfl fun _ => Action.ite_le le_rfl (Action.bind_le le_rfl fun _ =>
    Action.ite_le le_rfl (Action.bind_le (le _ _ _) fun _ => le_rfl))

theorem vm_call_le [Ethash] : VMHost.call ev msg ≤ VMHost.call ev' msg := by
  refine Action.bind_le (Action.bind_le le_rfl fun _ => Action.bind_le le_rfl fun _ => ?_) fun _ => le_rfl
  cases msg.kind with
  | CALL | CALLCODE | DELEGATECALL => exact handle_call_le le
  | CREATE | CREATE2 => exact handle_create_le le
  | other => exact le_rfl

end

section
variable {F : Type} [Field F] [DecidableEq F] [Ethash] [Crypto3] {msg : Message}

theorem run_code_le {ev ev' : Evaluate F} (le : ∀ rev msg code, ev rev msg code ≤ ev' rev msg code)
    {fuel fuel' circuit : Nat} (more : fuel ≤ fuel') {rev : Revision} {code data : Bytes} {analysis : CodeAnalysis} :
    run_code ev fuel circuit rev msg code analysis data ≤ run_code ev' fuel' circuit rev msg code analysis data :=
  Action.bind_le le_rfl fun _ => Action.bind_le
    (Action.zoom_le (Action.bind_le (dispatch_le (fun _ => vm_call_le le) more) fun _ => le_rfl))
    fun _ => le_rfl

/-- More fuel does not change what a run has come to. -/
theorem evaluate_mono (rev : Revision) (msg : Message) (code : Bytes) :
    Monotone fun fuel => (evaluate fuel rev msg code : Action Event (World F) Result) := by
  refine monotone_nat_of_le_succ fun fuel => ?_
  induction fuel generalizing rev msg code with
  | zero => exact Action.unfinished_le
  | succ fuel ih =>
    refine Action.bind_le le_rfl fun w => ?_
    cases zkevm_circuits_map.lookup w.target_circuit with
    | none => exact le_rfl
    | some circuit =>
      cases analyze rev code with
      | none => exact le_rfl
      | some analysis =>
        dsimp only
        cases analysis.eof_header.get_data code with
        | none => exact le_rfl
        | some data => exact run_code_le ih (Nat.le_succ fuel)

end
end EvmAssigner
