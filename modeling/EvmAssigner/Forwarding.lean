import EvmAssigner.CallGas
import EvmAssigner.Spending

namespace EvmAssigner
variable {H : Type}

section
variable {host : Host H} [answers : Answers host] {exec : Exec H} {gas_left : Int}

theorem wp_call_cost {Op : CallOp} {has_value : Bool} {rev : Revision} {dst : Address}
    {Q : Int → Exec H → Prop}
    (each : ∀ cost host', (if has_value then 9000 else 0) ≤ cost → Q cost { exec with host := host' }) :
    Action.wp (call_cost host Op has_value rev dst) Q exec := by
  simp only [call_cost, Action.wp_bind, Action.wp_ite, Action.wp_pure]
  refine ⟨fun _ => wp_ask (answers.account_exists _) fun exists_ host' => each _ _ ?_,
    fun _ => each _ exec.host le_rfl⟩
  split <;> omega

/-- A call goes on with what remains, and the stipend comes out of what was charged for the value. -/
structure ChargedCall (exec : Exec H) (gas_left : Int)
    (charged : InstructionResult ⊕ (CallOperands × Bytes × Int)) (e : Exec H) : Prop where
  msg : e.state.msg = exec.state.msg
  gives_up : ∀ result, charged = .inl result → result.Within gas_left
  goes_on : ∀ o input left, charged = .inr (o, input, left) → 0 ≤ left ∧ left + stipend o.value ≤ gas_left

theorem Checked.msg {s s' : ExecutionState} {offset : Word} {n : Nat} {ok : Bool} {left : Int}
    (checked : Checked s gas_left offset n ok left s') : s'.msg = s.msg := by
  rcases checked.grown with rfl | ⟨_, _, _, rfl⟩
  · rfl
  · rfl

theorem call_charges_spends {Op : CallOp} {stack : Int} : Action.wp
    (call_charges host Op exec.state stack gas_left) (ChargedCall exec gas_left) exec := by
  have gives_up {result : InstructionResult} {e : Exec H} (same : e.state.msg = exec.state.msg)
      (within : result.Within gas_left) : ChargedCall exec gas_left (.inl result) e :=
    ⟨same, fun _ given => Sum.inl.inj given ▸ within, fun _ _ _ given => absurd given Sum.inl_ne_inr⟩
  simp only [call_charges, Action.wp_bind, lift_on_state, wp_on_state]
  refine record_operands_ends.mono fun _ s₁ same₁ => ?_
  have popped : Action.wp (pop_call_operands Op stack) (fun _ s' => s'.msg = exec.state.msg) s₁ := by
    simp [pop_call_operands, same₁]
  refine popped.mono fun o s₂ same₂ => ?_
  simp only [wp_stack_set, Action.wp_modify]
  refine wp_charge_access (by decide) fun ok₁ left₁ host' charged₁ => ?_
  refine Action.wp_ite.mpr ⟨fun _ => Action.wp_pure.mpr (gives_up same₂ within_out_of_gas), fun _ => ?_⟩
  rw [Action.wp_bind, wp_on_state]
  refine wp_checked fun ok₂ left₂ s₃ checked₂ => ?_
  have same₃ : s₃.msg = exec.state.msg := checked₂.msg.trans same₂
  refine Action.wp_ite.mpr ⟨fun _ => Action.wp_pure.mpr (gives_up same₃ within_out_of_gas), fun _ => ?_⟩
  rw [Action.wp_bind, wp_on_state]
  refine wp_checked fun ok₃ left₃ s₄ checked₃ => ?_
  have same₄ : s₄.msg = exec.state.msg := checked₃.msg.trans same₃
  refine Action.wp_ite.mpr ⟨fun _ => Action.wp_pure.mpr (gives_up same₄ within_out_of_gas), fun _ => ?_⟩
  have rest (input : Bytes) : Action.wp (do
      if Op = .CALL ∧ decide (o.value ≠ 0) ∧ exec.state.in_static_mode then
        return .inl ⟨.STATIC_MODE_VIOLATION, left₃⟩
      let cost ← call_cost host Op (decide (o.value ≠ 0)) exec.state.rev o.dst
      let gas_left := left₃ - cost
      if gas_left < 0 then return .inl ⟨.OUT_OF_GAS, gas_left⟩
      return .inr (o, input, gas_left)) (ChargedCall exec gas_left) ⟨s₄, host'⟩ := by
    refine Action.wp_ite.mpr ⟨fun _ => Action.wp_pure.mpr (gives_up same₄ within_static_mode), fun _ => ?_⟩
    rw [Action.wp_bind]
    refine wp_call_cost fun cost host'' dear => ?_
    refine Action.wp_ite.mpr ⟨fun _ => Action.wp_pure.mpr (gives_up same₄ within_out_of_gas), fun paid => ?_⟩
    refine Action.wp_pure.mpr ⟨same₄, fun _ given => absurd given Sum.inr_ne_inl, fun o' input' left' given => ?_⟩
    obtain ⟨rfl, _, rfl⟩ := Prod.mk.inj (Sum.inr.inj given) |>.imp id Prod.mk.inj
    have less₁ := charged₁.gas
    have less₂ := checked₂.gas
    have less₃ := checked₃.gas
    have owed : stipend o.value ≤ cost ∧ 0 ≤ stipend o.value := by
      unfold stipend
      by_cases value : o.value = 0
      · simp only [value, ne_eq, not_true_eq_false, decide_false, if_false] at dear ⊢
        exact ⟨dear, le_rfl⟩
      · simp only [value, ne_eq, not_false_eq_true, decide_true, if_true] at dear ⊢
        omega
    omega
  refine Action.wp_ite.mpr ⟨fun _ => ?_, fun _ => ?_⟩
  · rw [Action.wp_bind, wp_on_state, wp_memory_load]
    exact rest _
  · rw [Action.wp_bind, Action.wp_pure]
    exact rest _

/-- A call is only made from a frame that is not too deep. -/
theorem light_failure_ends {Op : CallOp} {o : CallOperands} :
    Action.wp (light_failure host Op o) (fun failed _ => failed = false → exec.state.msg.depth < 1024) exec := by
  simp only [light_failure, Action.wp_bind, Action.wp_get, Action.wp_ite, Action.wp_pure, Bool.true_eq_false,
    false_imp_iff, implies_true, true_and]
  intro shallow
  have copied (host' : H) : Action.wp (on_host (host.copy_code o.dst 0 2)) (fun target_code_prefix _ =>
      (!is_eof_container (List.take 2 target_code_prefix)) = false → exec.state.msg.depth < 1024)
      { exec with host := host' } := wp_ask (answers.copy_code _ _ _) fun _ _ _ => not_le.mp shallow
  refine ⟨fun _ => wp_ask (answers.get_balance _) fun v host' _ => ?_, fun _ => ?_⟩
  · exact ⟨fun _ => copied host', fun _ _ => not_le.mp shallow⟩
  · exact fun _ => ⟨fun _ => copied exec.host, fun _ _ => not_le.mp shallow⟩

theorem create_light_failure_ends {endowment : Word} : Action.wp (create_light_failure host endowment)
    (fun failed _ => failed = false → exec.state.msg.depth < 1024) exec := by
  simp only [create_light_failure, Action.wp_bind, Action.wp_get, Action.wp_ite, Action.wp_pure, Bool.true_eq_false,
    false_imp_iff, implies_true, true_and]
  exact fun shallow => ⟨fun _ => wp_ask (answers.get_balance _) fun _ _ _ => not_le.mp shallow,
    fun _ _ => not_le.mp shallow⟩

end

section
variable {s : ExecutionState} {stack gas_left msg_gas : Int} {result : Result}

theorem finish_call_ends {o : CallOperands} : Action.wp (finish_call o msg_gas result stack gas_left)
    (fun answer _ => answer = ⟨.SUCCESS, int64 (gas_left - int64 (msg_gas - result.gas_left))⟩) s := by
  simp [finish_call, host_store, wp_stack_set]

theorem finish_create_ends : Action.wp (finish_create msg_gas result stack gas_left)
    (fun answer _ => answer = ⟨.SUCCESS, int64 (gas_left - int64 (msg_gas - result.gas_left))⟩) s := by
  simp [finish_create, wp_stack_set]

end

/-- A creation until its message is ready: it gives up, or goes on with its operands, the init code and the
gas that remains. -/
def create_charges (host : Host H) (Op : CreateOp) (s : ExecutionState) (stack gas_left : Int) :
    Instr H (InstructionResult ⊕ (CreateOperands × Bytes × Int)) := do
  if s.in_static_mode then return .inl ⟨.STATIC_MODE_VIOLATION, gas_left⟩
  record_operands Op.num_stack_read stack
  let o ← pop_create_operands Op stack
  stack_set (stack - Op.num_stack_read + 1) 0 0
  on_state (Action.modify fun state => state.set_return_data [])
  let (ok, gas_left) ← check_memory gas_left o.init_code_offset o.init_code_size
  if !ok then return .inl ⟨.OUT_OF_GAS, gas_left⟩
  let init_code_size := o.init_code_size.to_uint64
  if s.rev ≥ .SHANGHAI ∧ init_code_size > 0xC000 then return .inl ⟨.OUT_OF_GAS, gas_left⟩
  let init_code_word_cost : Int :=
    (if Op = .CREATE2 then 6 else 0) + (if s.rev ≥ .SHANGHAI then 2 else 0)
  let gas_left := gas_left - num_words init_code_size * init_code_word_cost
  if gas_left < 0 then return .inl ⟨.OUT_OF_GAS, gas_left⟩
  let failed ← create_light_failure host o.endowment
  if failed then
    Action.emit (.light_failure (if Op = .CREATE2 then o.salt else o.init_code_size))
    return .inl ⟨.SUCCESS, gas_left⟩
  let input ← if init_code_size > 0 then memory_load o.init_code_offset.to_uint64 init_code_size
    else pure []
  return .inr (o, input, gas_left)

/-- The gas that a creation hands over. -/
def create_gas (rev : Revision) (gas_left : Int) : Int :=
  if rev ≥ .TANGERINE_WHISTLE then gas_left - gas_left / 64 else gas_left

/-- The rest of a creation: the host is called. -/
def forward_create (host : Host H) (Op : CreateOp) (rev : Revision) (msg : Message) (stack : Int) :
    InstructionResult ⊕ (CreateOperands × Bytes × Int) → Instr H InstructionResult
  | .inl result => return result
  | .inr (o, input, gas_left) => do
    let result ← on_host (host.call (create_message Op o input (create_gas rev gas_left) msg))
    finish_create (create_gas rev gas_left) result (stack - Op.num_stack_read + 1) gas_left

theorem create_impl_charges {host : Host H} (Op : CreateOp) (stack gas_left : Int) :
    create_impl host Op stack gas_left = (Action.get >>= fun s =>
      create_charges host Op s.state stack gas_left >>= forward_create host Op s.state.rev s.state.msg stack) := by
  have : LawfulMonad (Instr H) := Action.lawful
  unfold create_impl create_charges
  simp only [bind_assoc, pure_bind, Action.ite_bind, forward_create, create_gas]

/-- A creation goes on with what remains, and only in a frame that is not too deep. -/
structure ChargedCreate (exec : Exec H) (gas_left : Int)
    (charged : InstructionResult ⊕ (CreateOperands × Bytes × Int)) : Prop where
  gives_up : ∀ result, charged = .inl result → result.Within gas_left
  goes_on : ∀ o input left, charged = .inr (o, input, left) →
    0 ≤ left ∧ left ≤ gas_left ∧ exec.state.msg.depth < 1024

theorem create_charges_spends {host : Host H} [answers : Answers host] {exec : Exec H} {Op : CreateOp}
    {stack gas_left : Int} : Action.wp (create_charges host Op exec.state stack gas_left)
      (fun charged _ => ChargedCreate exec gas_left charged) exec := by
  have gives_up {result : InstructionResult} (within : result.Within gas_left) :
      ChargedCreate exec gas_left (.inl result) :=
    ⟨fun _ given => Sum.inl.inj given ▸ within, fun _ _ _ given => absurd given Sum.inl_ne_inr⟩
  unfold create_charges
  refine Action.wp_ite.mpr ⟨fun _ => Action.wp_pure.mpr (gives_up within_static_mode), fun _ => ?_⟩
  simp only [Action.wp_bind, lift_on_state, wp_on_state]
  refine record_operands_ends.mono fun _ s₁ same₁ => ?_
  have popped : Action.wp (pop_create_operands Op stack) (fun _ s' => s'.msg = exec.state.msg) s₁ := by
    simp [pop_create_operands, same₁]
  refine popped.mono fun o s₂ same₂ => ?_
  simp only [wp_stack_set, Action.wp_modify]
  refine wp_checked fun ok left s₃ checked => ?_
  have same₃ : s₃.msg = exec.state.msg := checked.msg.trans same₂
  refine Action.wp_ite.mpr ⟨fun _ => Action.wp_pure.mpr (gives_up within_out_of_gas), fun _ => ?_⟩
  refine Action.wp_ite.mpr ⟨fun _ => Action.wp_pure.mpr (gives_up within_out_of_gas), fun _ => ?_⟩
  refine Action.wp_ite.mpr ⟨fun _ => Action.wp_pure.mpr (gives_up within_out_of_gas), fun paid => ?_⟩
  have owed (n : Nat) : (0 : Int) ≤ num_words n *
      ((if Op = .CREATE2 then 6 else 0) + (if exec.state.rev ≥ .SHANGHAI then 2 else 0)) := by
    refine mul_nonneg (Int.natCast_nonneg _) ?_
    split <;> split <;> decide
  have within := charged_within (owed _) checked.gas paid
  rw [Action.wp_bind]
  refine create_light_failure_ends.mono fun failed e shallow => ?_
  refine Action.wp_ite.mpr ⟨fun _ => ?_, fun there => ?_⟩
  · rw [Action.wp_bind, Action.wp_emit, Action.wp_pure]
    exact gives_up (within_success.mpr within)
  · have depth : exec.state.msg.depth < 1024 := same₃ ▸ shallow (Bool.eq_false_of_not_eq_true there)
    have ready (input : Bytes) : ChargedCreate exec gas_left (.inr (o, input, left -
        num_words o.init_code_size.to_uint64 *
          ((if Op = .CREATE2 then 6 else 0) + (if exec.state.rev ≥ .SHANGHAI then 2 else 0)))) := by
      refine ⟨fun _ given => absurd given Sum.inr_ne_inl, fun o' input' left' given => ?_⟩
      obtain ⟨_, _, rfl⟩ := Prod.mk.inj (Sum.inr.inj given) |>.imp id Prod.mk.inj
      exact ⟨within.1, within.2, depth⟩
    refine Action.wp_ite.mpr ⟨fun _ => ?_, fun _ => ?_⟩
    · rw [Action.wp_bind, wp_on_state, wp_memory_load, Action.wp_pure]
      exact ready _
    · rw [Action.wp_bind, Action.wp_pure, Action.wp_pure]
      exact ready _

end EvmAssigner
