import EvmAssigner.Runs

namespace EvmAssigner
variable {H : Type} {host : Host H} {exec : Exec H}

/-- A call that starts in `s`, until everything is charged: it gives up, or goes on with its operands,
its input and the gas that remains. -/
def call_charges (host : Host H) (Op : CallOp) (s : ExecutionState) (stack gas_left : Int) :
    Instr H (InstructionResult ⊕ (CallOperands × Bytes × Int)) := do
  record_operands Op.num_stack_read stack
  let o ← pop_call_operands Op stack
  let has_value := decide (o.value ≠ 0)
  stack_set (stack - Op.num_stack_read + 1) 0 0
  on_state (Action.modify fun state => state.set_return_data [])
  let (ok, gas_left) ← charge_access host o.dst additional_cold_account_access_cost gas_left
  if !ok then return .inl ⟨.OUT_OF_GAS, gas_left⟩
  let (ok, gas_left) ← check_memory gas_left o.input_offset o.input_size
  if !ok then return .inl ⟨.OUT_OF_GAS, gas_left⟩
  let (ok, gas_left) ← check_memory gas_left o.output_offset o.output_size
  if !ok then return .inl ⟨.OUT_OF_GAS, gas_left⟩
  let input_size := o.input_size.to_uint64
  let input ← if input_size > 0 then memory_load o.input_offset.to_uint64 input_size else pure []
  if Op = .CALL ∧ has_value ∧ s.in_static_mode then
    return .inl ⟨.STATIC_MODE_VIOLATION, gas_left⟩
  let cost ← call_cost host Op has_value s.rev o.dst
  let gas_left := gas_left - cost
  if gas_left < 0 then return .inl ⟨.OUT_OF_GAS, gas_left⟩
  return .inr (o, input, gas_left)

/-- The stipend of a call with a value. -/
def stipend (value : Word) : Int := if value ≠ 0 then 2300 else 0

/-- The rest of a call: the gas to be forwarded is chosen, and the host called. -/
def forward_call (host : Host H) (Op : CallOp) (rev : Revision) (msg : Message) (stack : Int) :
    InstructionResult ⊕ (CallOperands × Bytes × Int) → Instr H InstructionResult
  | .inl result => return result
  | .inr (o, input, gas_left) =>
    match forwarded_gas rev o.gas gas_left with
    | none => return ⟨.OUT_OF_GAS, gas_left⟩
    | some gas =>
      make_call host Op o { call_message Op o input msg with gas := gas + stipend o.value }
        (stack - Op.num_stack_read + 1) (gas_left + stipend o.value)

theorem call_impl_charges (Op : CallOp) (stack gas_left : Int) :
    call_impl host Op stack gas_left = (Action.get >>= fun s =>
      call_charges host Op s.state stack gas_left >>= forward_call host Op s.state.rev s.state.msg stack) := by
  have : LawfulMonad (Instr H) := Action.lawful
  unfold call_impl call_charges
  simp only [bind_assoc, pure_bind, Action.ite_bind, forward_call, stipend, decide_eq_true_eq]
  try rfl

/-- Only messages in `M` are handed to the host. -/
def hands_over (M : Message → Prop) : Action.Contract Event where
  assumes _ := True
  ensures
    | .host_call _ _ msg => M msg
    | _ => True

instance {M : Message → Prop} : Quiet (hands_over M) where
  assertion_failed _ := ⟨trivial, trivial⟩
  vector_access _ _ := ⟨trivial, trivial⟩
  step _ _ _ _ := trivial
  nested _ := trivial
  stack_access _ := ⟨trivial, trivial⟩
  memory_access _ _ _ := ⟨trivial, trivial⟩
  code_access _ _ := ⟨trivial, trivial⟩

section
variable {M : Message → Prop} {Op : CallOp} {stack gas_left : Int} {s : ExecutionState}

/-- Nothing is handed over before everything is charged, and what remains is not negative. -/
theorem call_charges_silent :
    Action.wlp (hands_over M) (call_charges host Op s stack gas_left) (fun charged _ =>
      ∀ o input left, charged = .inr (o, input, left) → 0 ≤ left) exec := by
  have gives_up (status : StatusCode) (left : Int) (o : CallOperands) (input : Bytes) (left' : Int)
      (same : (Sum.inl ⟨status, left⟩ : InstructionResult ⊕ (CallOperands × Bytes × Int)) =
        .inr (o, input, left')) : 0 ≤ left' := nomatch same
  simp only [call_charges, Action.wlp_bind, lift_on_state, wlp_on_state]
  have recorded : Action.wlp (hands_over M) (record_operands Op.num_stack_read stack)
      (fun _ _ => True) exec.state :=
    Action.wlp_forEach (I := fun _ _ => True) (fun _ _ _ _ _ _ => by simp) trivial
  refine recorded.mono fun _ s₁ _ => ?_
  have popped : Action.wlp (hands_over M) (pop_call_operands Op stack) (fun _ _ => True) s₁ := by
    simp [pop_call_operands]
  refine popped.mono fun o s₂ _ => ?_
  simp only [wlp_stack_set, Action.wlp_modify]
  refine wlp_charge_access (by decide) fun ok left host' _ => ?_
  refine Action.wlp_ite.mpr ⟨fun _ => Action.wlp_pure.mpr (gives_up _ _), fun _ => ?_⟩
  rw [Action.wlp_bind, wlp_on_state]
  refine wlp_check_memory fun ok left s₃ _ _ => ?_
  refine Action.wlp_ite.mpr ⟨fun _ => Action.wlp_pure.mpr (gives_up _ _), fun _ => ?_⟩
  rw [Action.wlp_bind, wlp_on_state]
  refine wlp_check_memory fun ok left s₄ _ _ => ?_
  refine Action.wlp_ite.mpr ⟨fun _ => Action.wlp_pure.mpr (gives_up _ _), fun _ => ?_⟩
  refine wlp_read_input fun input => ?_
  refine Action.wlp_ite.mpr ⟨fun _ => Action.wlp_pure.mpr (gives_up _ _), fun _ => ?_⟩
  rw [Action.wlp_bind]
  refine wlp_call_cost fun cost host' _ => ?_
  refine Action.wlp_ite.mpr ⟨fun _ => Action.wlp_pure.mpr (gives_up _ _), fun paid => ?_⟩
  refine Action.wlp_pure.mpr fun o' input' left' same => ?_
  obtain ⟨_, _, rfl⟩ := Prod.mk.inj (Sum.inr.inj same) |>.imp id Prod.mk.inj
  omega

theorem finish_call_silent {o : CallOperands} {msg_gas : Int} {result : Result} :
    Action.wlp (hands_over M) (finish_call o msg_gas result stack gas_left)
      (fun answer _ => answer.status = .SUCCESS) s := by
  simp only [finish_call, Action.wlp_bind, Action.wlp_modify, wlp_stack_set, wlp_record_stack,
    Action.wlp_ite, wlp_host_store, Action.wlp_pure]
  exact ⟨fun _ _ => ⟨trivial, trivial⟩, fun _ => trivial⟩

theorem make_call_hands_over {o : CallOperands} {msg : Message} :
    Action.wlp (hands_over (· = msg)) (make_call host Op o msg stack gas_left)
      (fun answer _ => answer.status = .SUCCESS) exec := by
  simp only [make_call, Action.wlp_bind, lift_on_state]
  refine wlp_light_failure fun failed host' => ?_
  simp only [Action.wlp_bind, Action.wlp_ite, Action.wlp_emit, Action.wlp_pure, wlp_on_state]
  exact ⟨fun _ _ => ⟨trivial, trivial⟩, fun _ _ => ⟨rfl, wlp_on_host_any fun _ _ => finish_call_silent⟩⟩

theorem make_call_messages {o : CallOperands} {msg msg' : Message} {gas value : Word}
    (member : Event.host_call gas value msg' ∈ (make_call host Op o msg stack gas_left).events exec) :
    msg' = msg := by
  have handed : Action.wlp (hands_over (· = msg)) (make_call host Op o msg stack gas_left) _ exec :=
    make_call_hands_over
  exact (Action.Contract.After.ensures handed fun _ _ => trivial).1 _ member

/-- A call that does not fail lightly does hand over its message. -/
theorem make_call_reaches {o : CallOperands} {msg : Message} {exec' : Exec H}
    (reaches : (light_failure host Op o exec).2 = some (false, exec')) :
    .host_call o.gas o.value msg ∈ (make_call host Op o msg stack gas_left).events exec := by
  unfold make_call
  rw [Action.events_bind reaches, if_neg (by decide)]
  exact List.mem_append_right _ (List.mem_append_left _ List.mem_cons_self)

end

/-- What a call with the operand `gas` is to do with `left` gas after all charges. -/
structure ForwardsGas (rev : Revision) (gas value : Word) (left : Int) (es : List Event)
    (answer : Option StatusCode) : Prop where
  capped : rev ≥ .TANGERINE_WHISTLE → ∀ gas' value' msg, .host_call gas' value' msg ∈ es →
    msg.gas = min (gas.toNat : Int) (left - left / 64) + stipend value
  whole : ¬ rev ≥ .TANGERINE_WHISTLE → ∀ gas' value' msg, .host_call gas' value' msg ∈ es →
    msg.gas = gas.toNat + stipend value
  fails : ¬ rev ≥ .TANGERINE_WHISTLE → (answer = some .OUT_OF_GAS ↔ left < gas.toNat)
  nonneg : ∀ gas' value' msg, .host_call gas' value' msg ∈ es → 0 ≤ msg.gas

/-- The operand does not turn negative in 64 bits, and what is cut off does not matter. -/
def OperandFits (rev : Revision) (gas : Word) (left : Int) : Prop :=
  gas.to_uint64 < 2 ^ 63 ∧ (gas.toNat < 2 ^ 64 ∨
    if rev ≥ .TANGERINE_WHISTLE then left - left / 64 ≤ gas.to_uint64 else left < gas.to_uint64)

theorem gas_operand_eq (gas : Word) : gas_operand gas =
    if gas.to_uint64 < 2 ^ 63 then (gas.to_uint64 : Int) else gas.to_uint64 - 2 ^ 64 := by
  have low := gas.to_uint64_eq
  have bound : gas.to_uint64 < 2 ^ 64 := by
    rw [low]
    exact Nat.mod_lt _ (by decide)
  unfold gas_operand int64
  split
  · rename_i small
    rw [Int.bmod_eq_of_le (by omega) (by omega)]
    omega
  · rename_i large
    have wraps : Int.bmod (gas.to_uint64 : Int) (2 ^ 64) = gas.to_uint64 - 2 ^ 64 := by
      rw [Int.bmod_def]
      omega
    rw [wraps]
    omega

/-- What `forwarded_gas` decides, against what it is to decide. -/
theorem forwarded_gas_fits_iff {rev : Revision} {gas : Word} {left : Int} (nonneg : 0 ≤ left)
    (int64 : left < 2 ^ 63) :
    forwarded_gas rev gas left =
        (if rev ≥ .TANGERINE_WHISTLE then some (min (gas.toNat : Int) (left - left / 64))
        else if left < gas.toNat then none else some (gas.toNat : Int)) ↔
      OperandFits rev gas left := by
  have low := gas.to_uint64_eq
  unfold forwarded_gas OperandFits
  rw [gas_operand_eq]
  by_cases late : rev ≥ .TANGERINE_WHISTLE
  · simp only [late, if_true, Option.some.injEq]
    split <;> omega
  · simp only [late, if_false]
    split_ifs <;> simp <;> omega

theorem forward_call_none {Op : CallOp} {rev : Revision} {msg : Message} {stack left : Int}
    {o : CallOperands} {input : Bytes} (none : forwarded_gas rev o.gas left = .none) :
    forward_call host Op rev msg stack (.inr (o, input, left)) = pure ⟨.OUT_OF_GAS, left⟩ := by
  simp only [forward_call, none]

theorem forward_call_some {Op : CallOp} {rev : Revision} {msg : Message} {stack left gas : Int}
    {o : CallOperands} {input : Bytes} (some : forwarded_gas rev o.gas left = .some gas) :
    forward_call host Op rev msg stack (.inr (o, input, left)) =
      make_call host Op o { call_message Op o input msg with gas := gas + stipend o.value }
        (stack - Op.num_stack_read + 1) (left + stipend o.value) := by
  simp only [forward_call, some]

/-- The gas a call is to forward before the stipend, `none` when it is to fail. -/
def intended_gas (rev : Revision) (gas : Word) (left : Int) : Option Int :=
  if rev ≥ .TANGERINE_WHISTLE then some (min (gas.toNat : Int) (left - left / 64))
  else if left < gas.toNat then none else some (gas.toNat : Int)

section
variable {rev : Revision} {gas value : Word} {left : Int} {es : List Event} {answer : Option StatusCode}

theorem forwards_gas_none (silent : ∀ gas' value' msg, Event.host_call gas' value' msg ∉ es)
    (fails : answer = some .OUT_OF_GAS) (early : ¬ rev ≥ .TANGERINE_WHISTLE) :
    ForwardsGas rev gas value left es answer ↔ intended_gas rev gas left = none := by
  unfold intended_gas
  rw [if_neg early]
  constructor
  · intro forwards
    rw [if_pos ((forwards.fails early).mp fails)]
  · intro intended
    have dear : left < gas.toNat := by
      by_contra enough
      rw [if_neg enough] at intended
      exact absurd intended (by simp)
    exact ⟨fun _ _ _ _ member => absurd member (silent _ _ _),
      fun _ _ _ _ member => absurd member (silent _ _ _), fun _ => ⟨fun _ => dear, fun _ => fails⟩,
      fun _ _ _ member => absurd member (silent _ _ _)⟩

theorem forwards_gas_some {sent : Int} {gas₀ value₀ : Word} {msg₀ : Message} (nonneg : 0 ≤ left)
    (reaches : Event.host_call gas₀ value₀ msg₀ ∈ es)
    (all : ∀ gas' value' msg, Event.host_call gas' value' msg ∈ es → msg.gas = sent + stipend value)
    (goes_on : answer ≠ some .OUT_OF_GAS) :
    ForwardsGas rev gas value left es answer ↔ intended_gas rev gas left = some sent := by
  have first := all _ _ _ reaches
  have stipend_nonneg : 0 ≤ stipend value := by
    unfold stipend
    split <;> omega
  unfold intended_gas
  constructor
  · intro forwards
    by_cases late : rev ≥ .TANGERINE_WHISTLE
    · rw [if_pos late]
      have capped := forwards.capped late _ _ _ reaches
      exact congrArg some (by omega)
    · have enough : ¬ left < gas.toNat := fun dear => goes_on ((forwards.fails late).mpr dear)
      have whole := forwards.whole late _ _ _ reaches
      rw [if_neg late, if_neg enough]
      exact congrArg some (by omega)
  · intro intended
    by_cases late : rev ≥ .TANGERINE_WHISTLE
    · rw [if_pos late] at intended
      obtain rfl := Option.some.inj intended
      refine ⟨fun _ => all, fun early => absurd late early, fun early => absurd late early,
        fun gas' value' msg member => ?_⟩
      rw [all _ _ _ member]
      omega
    · have enough : ¬ left < gas.toNat := by
        intro dear
        rw [if_neg late, if_pos dear] at intended
        exact absurd intended (by simp)
      rw [if_neg late, if_neg enough] at intended
      obtain rfl := Option.some.inj intended
      refine ⟨fun late' => absurd late' late, fun _ => all,
        fun _ => ⟨fun fails => absurd fails goes_on, fun dear => absurd dear enough⟩,
        fun gas' value' msg member => ?_⟩
      rw [all _ _ _ member]
      omega

end

/-- A call forwards the gas it is to forward exactly when its operand fits. -/
theorem call_forwards_gas_iff {Op : CallOp} {stack gas_left left : Int} {o : CallOperands} {input : Bytes}
    {exec' exec'' : Exec H}
    (charged : (call_charges host Op exec.state stack gas_left exec).2 = some (.inr (o, input, left), exec'))
    (reaches : (light_failure host Op o exec').2 = some (false, exec'')) (int64 : left < 2 ^ 63) :
    ForwardsGas exec.state.rev o.gas o.value left ((call_impl host Op stack gas_left).events exec)
        ((call_impl host Op stack gas_left exec).2.map (·.1.status)) ↔
      OperandFits exec.state.rev o.gas left := by
  have charges : Action.wlp (hands_over fun _ => False)
      (call_charges host Op exec.state stack gas_left) _ exec := call_charges_silent
  have silent := charges.returns (fun _ _ => trivial) charged
  have nonneg : 0 ≤ left := silent.2 _ _ _ rfl
  have prefix_silent (gas' value' : Word) (msg : Message) :
      Event.host_call gas' value' msg ∉ (call_charges host Op exec.state stack gas_left).events exec :=
    fun member => silent.1 _ member
  rw [← forwarded_gas_fits_iff nonneg int64]
  have run : call_impl host Op stack gas_left exec = (call_charges host Op exec.state stack gas_left >>=
      forward_call host Op exec.state.rev exec.state.msg stack) exec := by
    rw [call_impl_charges]
    rfl
  have events : (call_impl host Op stack gas_left).events exec =
      (call_charges host Op exec.state stack gas_left).events exec ++
        (forward_call host Op exec.state.rev exec.state.msg stack (.inr (o, input, left))).events exec' := by
    rw [Action.events, run]
    exact Action.events_bind charged
  rw [events, run, Action.returns_bind charged]
  change _ ↔ forwarded_gas exec.state.rev o.gas left = intended_gas exec.state.rev o.gas left
  rw [eq_comm]
  cases forwarded : forwarded_gas exec.state.rev o.gas left with
  | none =>
    have early : ¬ exec.state.rev ≥ .TANGERINE_WHISTLE := by
      intro late
      rw [forwarded_gas, if_pos late] at forwarded
      exact absurd forwarded (by simp)
    rw [forward_call_none forwarded]
    refine forwards_gas_none (fun gas' value' msg member => ?_) rfl early
    exact (List.mem_append.mp member).elim (prefix_silent _ _ _) (absurd · List.not_mem_nil)
  | some sent =>
    rw [forward_call_some forwarded]
    refine forwards_gas_some nonneg (List.mem_append_right _ (make_call_reaches reaches))
      (fun gas' value' msg member => ?_) ?_
    · rcases List.mem_append.mp member with before | after
      · exact absurd before (prefix_silent _ _ _)
      · rw [make_call_messages after]
    · intro fails
      obtain ⟨⟨answer, e⟩, returns, status⟩ := Option.map_eq_some_iff.mp fails
      have success := (make_call_hands_over.returns (fun _ _ => trivial) returns).2
      rw [success] at status
      exact absurd status (by decide)

/-- A frame that is about to call account 0 without input or value. -/
def calling_frame (gas : Word) : Exec Unit :=
  ⟨(code_config .SHANGHAI [0xf1] 0).exec.state.set_slot 6 gas, ()⟩

def charged_frame (gas : Word) : Exec Unit :=
  ((call_charges empty_host .CALL (calling_frame gas).state 7 100000 (calling_frame gas)).2.map
    Prod.snd).getD (calling_frame gas)

theorem call_forwards_gas_thousand : ForwardsGas .SHANGHAI 1000 0 100000
    ((call_impl empty_host .CALL 7 100000).events (calling_frame 1000))
    ((call_impl empty_host .CALL 7 100000 (calling_frame 1000)).2.map (·.1.status)) := by
  have charged : (call_charges empty_host .CALL (calling_frame 1000).state 7 100000
      (calling_frame 1000)).2 = some (.inr (⟨1000, 0, 0, 0, 0, 0, 0⟩, [], 100000), charged_frame 1000) := by
    rfl
  have reaches : (light_failure empty_host .CALL ⟨1000, 0, 0, 0, 0, 0, 0⟩ (charged_frame 1000)).2 =
      some (false, charged_frame 1000) := by
    rfl
  exact (call_forwards_gas_iff charged reaches (by decide)).mpr ⟨by decide, Or.inl (by decide)⟩

/-- The gas of the message that is handed over. -/
def Event.message_gas : Event → Option Int
  | .host_call _ _ msg => some msg.gas
  | _ => none

/-- All gas is asked for, and the message has gas `-1`. -/
theorem call_forwards_negative_gas : ¬ ForwardsGas .SHANGHAI (BitVec.allOnes 256) 0 100000
    ((call_impl empty_host .CALL 7 100000).events (calling_frame (BitVec.allOnes 256)))
    ((call_impl empty_host .CALL 7 100000 (calling_frame (BitVec.allOnes 256))).2.map (·.1.status)) := by
  intro forwards
  have handed : some (-1) ∈ ((call_impl empty_host .CALL 7 100000).events
      (calling_frame (BitVec.allOnes 256))).map Event.message_gas := by
    decide +kernel
  obtain ⟨e, member, gas⟩ := List.mem_map.mp handed
  cases e with
  | host_call _ _ msg =>
    have nonneg := forwards.nonneg _ _ _ member
    have negative : msg.gas = -1 := Option.some.inj gas
    omega
  | _ => contradiction

end EvmAssigner
