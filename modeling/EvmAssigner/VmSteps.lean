import EvmAssigner.Steps
import EvmAssigner.VmHost

namespace EvmAssigner
variable {F : Type} [Zero F] {γ : Type}

/-- Neither the contract nor the ghost takes notice of the event. -/
def Passes (C : Action.Contract Event) (u : γ → Event → γ) (e : Event) : Prop :=
  C.ensures e ∧ ∀ g, u g e = g

/-- Contract and ghost are about what goes on between the frames and `VMHost`, at any depth. -/
structure Aloof (C : Action.Contract Event) (u : γ → Event → γ) : Prop where
  assertion_failed (what : Assertion) : Passes C u (.assertion_failed what)
  stack_access (slot : Int) : Passes C u (.stack_access slot)
  memory_access (index count size : Nat) : Passes C u (.memory_access index count size)
  code_access (index : Int) (size : Nat) : Passes C u (.code_access index size)
  vector_access (index size : Nat) : Passes C u (.vector_access index size)
  step (op : UInt8) (stack_top gas : Int) (s : ExecutionState) : Passes C u (.step op stack_top gas s)
  memory_entry (o : rw_operation) (memory : Memory) : Passes C u (.memory_entry o memory)
  light_failure (operand : Word) : Passes C u (.light_failure operand)
  host_call (gas value : Word) (msg : Message) : Passes C u (.host_call gas value msg)
  host_output (memory : Memory) (dst : Nat) (data : Bytes) : Passes C u (.host_output memory dst data)
  nested_assumes (e : Event) : C.assumes (.nested e) ↔ C.assumes e
  nested_ensures (e : Event) : C.ensures (.nested e) ↔ C.ensures e
  nested (g : γ) (e : Event) : u g (.nested e) = u g e

/-- What a frame does by itself. -/
def Event.is_local : Event → Bool
  | .storage_entry _ | .set_storage _ _ _ _ | .set_transient_storage _ _ _ _ | .call _ _ | .accounts _
  | .handle_rw _ | .nested _ => false
  | _ => true

theorem Aloof.of_local {C : Action.Contract Event} {u : γ → Event → γ}
    (passes : ∀ e, e.is_local = true → Passes C u e)
    (nested_assumes : ∀ e, C.assumes (.nested e) ↔ C.assumes e)
    (nested_ensures : ∀ e, C.ensures (.nested e) ↔ C.ensures e)
    (nested : ∀ g e, u g (.nested e) = u g e) : Aloof C u where
  assertion_failed _ := passes _ rfl
  stack_access _ := passes _ rfl
  memory_access _ _ _ := passes _ rfl
  code_access _ _ := passes _ rfl
  vector_access _ _ := passes _ rfl
  step _ _ _ _ := passes _ rfl
  memory_entry _ _ := passes _ rfl
  light_failure _ := passes _ rfl
  host_call _ _ _ := passes _ rfl
  host_output _ _ _ := passes _ rfl
  nested_assumes := nested_assumes
  nested_ensures := nested_ensures
  nested := nested

/-- A message `m` that a frame for `msg` hands to `VMHost`. -/
structure Sends (msg : Message) (accounts : Accounts) (m : Message) : Prop where
  static : msg.is_static → m.is_static ∧ (m.kind = .CALL → m.value = 0) ∧
    (m.kind = .CALL ∨ m.kind = .CALLCODE ∨ m.kind = .DELEGATECALL)
  funded : m.kind = .CALL → m.value ≠ 0 → m.value ≤ accounts.get_balance m.sender

/-- The accounts of `handle_call` when the code of the callee is looked at. -/
def called (accounts : Accounts) (m : Message) : Accounts :=
  if m.kind = .CALL then (accounts.ensure m.code_address).transfer m.sender m.code_address m.value
  else accounts.ensure m.code_address

/-- The message a new account is set up with. -/
def init_message [Ethash] (m : Message) : Message :=
  { m with kind := .CALL, recipient := calculate_address m, input_data := [] }

/-- `VMHost` turns a message down. -/
def Refused [Ethash] (accounts : Accounts) (m : Message) : Prop :=
  match m.kind with
  | .CALL | .CALLCODE | .DELEGATECALL => accounts m.sender = none
  | .CREATE | .CREATE2 => accounts (calculate_address m) ≠ none
  | .other => True

/-- An invariant of the host which the frames for messages in `M` keep as long as they send none. -/
structure StorageInvariant (C : Action.Contract Event) (u : γ → Event → γ) (M : Message → Prop)
    (I : World F → γ → Prop) : Prop where
  accounts {w : World F} {g : γ} (inv : I w g) (assumed : C.assumes (.accounts w.accounts)) :
    C.ensures (.accounts w.accounts) ∧ I w (u g (.accounts w.accounts))
  sload {msg : Message} {w : World F} {g : γ} (id rw_id : Nat) (key : Word) (of_M : M msg) (inv : I w g) :
    let value := w.accounts.get_storage msg.recipient key
    let o := storage_operation id (.of_address msg.recipient) key rw_id false value value
    C.assumes (.storage_entry o) → C.ensures (.storage_entry o) ∧ I w (u g (.storage_entry o))
  sstore {msg : Message} {w : World F} {g : γ} (id rw_id : Nat) (key value : Word) (of_M : M msg)
    (writable : ¬ msg.is_static = true) (inv : I w g) :
    let o := storage_operation id (.of_address msg.recipient) key rw_id true value
      (w.accounts.get_storage msg.recipient key)
    let call := Event.set_storage w.accounts msg.recipient key value
    C.assumes (.storage_entry o) → C.ensures (.storage_entry o) ∧ (C.assumes call → C.ensures call ∧
      I (w.set_accounts (w.accounts.set_storage msg.recipient key value).1)
        (u (u g (.storage_entry o)) call))
  tstore {msg : Message} {w : World F} {g : γ} (key value : Word) (of_M : M msg)
    (writable : ¬ msg.is_static = true) (inv : I w g) :
    let call := Event.set_transient_storage w.accounts msg.recipient key value
    C.assumes call → C.ensures call ∧
      I (w.set_accounts (w.accounts.set_transient_storage msg.recipient key value)) (u g call)

/-- An invariant of the host which the frames for messages in `M` keep. -/
structure HostInvariant [Ethash] (C : Action.Contract Event) (u : γ → Event → γ) (M : Message → Prop)
    (I : World F → γ → Prop) : Prop extends StorageInvariant C u M I where
  call {msg m : Message} {w : World F} {g : γ} (of_M : M msg) (sends : Sends msg w.accounts m)
    (inv : I w g) (assumed : C.assumes (.call w.accounts m)) :
    C.ensures (.call w.accounts m) ∧ (Refused w.accounts m → I w (u g (.call w.accounts m)))
  calls {msg m : Message} {w : World F} {g : γ} (of_M : M msg) (sends : Sends msg w.accounts m)
    (inv : I w g) (assumed : C.assumes (.call w.accounts m))
    (kind : m.kind = .CALL ∨ m.kind = .CALLCODE ∨ m.kind = .DELEGATECALL)
    (known : (w.accounts m.sender).isSome) :
    M m ∧ I (w.set_accounts (called w.accounts m)) (u g (.call w.accounts m))
  creates {msg m : Message} {w : World F} {g : γ} (of_M : M msg) (sends : Sends msg w.accounts m)
    (inv : I w g) (assumed : C.assumes (.call w.accounts m)) (kind : m.kind = .CREATE ∨ m.kind = .CREATE2)
    (fresh : w.accounts (calculate_address m) = none) :
    M (init_message m) ∧
      I (w.set_accounts (w.accounts.ensure (calculate_address m))) (u g (.call w.accounts m))
  created {msg m : Message} {accounts : Accounts} {w : World F} {g : γ} (code : Bytes) (of_M : M msg)
    (sends : Sends msg accounts m) (assumed : C.assumes (.call accounts m))
    (kind : m.kind = .CREATE ∨ m.kind = .CREATE2) (fresh : accounts (calculate_address m) = none)
    (inv : I w g) : I (w.set_accounts (w.accounts.set_code (calculate_address m) code)) g

theorem call_message_sends {Op : CallOp} {o : CallOperands} {input : Bytes} {msg : Message}
    {accounts : Accounts} {gas : Int} (no_operand : Op.takes_value = false → o.value = 0)
    (allowed : ¬ (Op = .CALL ∧ o.value ≠ 0 ∧ msg.is_static = true))
    (funded : o.value ≠ 0 → o.value ≤ accounts.get_balance msg.recipient) :
    Sends msg accounts { call_message Op o input msg with gas := gas } := by
  constructor
  · intro static
    cases Op with
    | CALL =>
      have free : o.value = 0 := by
        by_contra value
        exact allowed ⟨rfl, value, static⟩
      exact ⟨static, fun _ => free, Or.inl rfl⟩
    | STATICCALL =>
      have set : decide (STATIC &&& STATIC ≠ 0) = true := by decide
      exact ⟨set, fun _ => no_operand rfl, Or.inl rfl⟩
    | CALLCODE => exact ⟨static, fun is_call => CallKind.noConfusion is_call, Or.inr (Or.inl rfl)⟩
    | DELEGATECALL => exact ⟨static, fun is_call => CallKind.noConfusion is_call, Or.inr (Or.inr rfl)⟩
  · intro is_call value
    cases Op with
    | CALL => exact funded value
    | STATICCALL => exact absurd (no_operand rfl) value
    | CALLCODE => exact CallKind.noConfusion is_call
    | DELEGATECALL => exact CallKind.noConfusion is_call

theorem create_message_sends {Op : CreateOp} {o : CreateOperands} {input : Bytes} {gas : Int} {msg : Message}
    {accounts : Accounts} (writable : ¬ msg.is_static = true) :
    Sends msg accounts (create_message Op o input gas msg) := by
  constructor
  · exact fun static => absurd static writable
  · intro is_call
    cases Op <;> exact CallKind.noConfusion is_call

/-- What is left for the computations of a frame alone. -/
def silent (C : Action.Contract Event) (u : γ → Event → γ) : Action.Contract Event :=
  ⟨fun _ => True, Passes C u⟩

section
variable {C : Action.Contract Event} {u : γ → Event → γ} {exec : Exec (World F)} {g : γ}

theorem Aloof.plain (aloof : Aloof C u) : Plain (silent C u) where
  assertion_failed what := ⟨trivial, aloof.assertion_failed what⟩
  vector_access index size := ⟨trivial, aloof.vector_access index size⟩
  stack_access slot := ⟨trivial, aloof.stack_access slot⟩
  memory_access index count size := ⟨trivial, aloof.memory_access index count size⟩
  memory_within _ := ⟨trivial, aloof.memory_access _ _ _⟩
  memory_entry := aloof.memory_entry
  host_output := aloof.host_output

theorem Aloof.code_quiet (aloof : Aloof C u) : CodeQuiet (silent C u) :=
  ⟨fun index size => ⟨trivial, aloof.code_access index size⟩⟩

/-- What a frame does by itself is known without the ghost. -/
theorem track_silent {σ α : Type} {m : Action Event σ α} {R : α → σ → Prop} {Q : α → σ → γ → Prop} {s : σ}
    (h : Action.wlp (silent C u) m R s) (each : ∀ a s', R a s' → Q a s' g) :
    Action.track C u m Q s g := by
  refine (Action.track_of_wlp (D := silent C u) (p := id) (fun _ _ => trivial) (fun _ passes => passes.1)
    (fun _ g passes => passes.2 g) h).mono ?_
  rintro a s' g' ⟨r, rfl⟩
  exact each a s' r

theorem track_on_state {α : Type} {m : Local α} {Q : α → Exec (World F) → γ → Prop} :
    Action.track C u (on_state m) Q exec g ↔
      Action.track C u m (fun a s g' => Q a { exec with state := s } g') exec.state g :=
  Action.track_zoom

theorem track_local {α : Type} {m : Local α} {R : α → ExecutionState → Prop}
    {Q : α → Exec (World F) → γ → Prop} (h : Action.wlp (silent C u) m R exec.state)
    (each : ∀ a s, R a s → Q a { exec with state := s } g) : Action.track C u (on_state m) Q exec g :=
  track_on_state.mpr (track_silent h each)

theorem Aloof.track_on_host (aloof : Aloof C u) {α : Type} {m : Action Event (World F) α}
    {Q : α → Exec (World F) → γ → Prop} : Action.track C u (on_host m) Q exec g ↔
      Action.track C u m (fun a w g' => Q a { exec with host := w } g') exec.host g := by
  have same : C.comap .nested = C := by
    cases C
    simp only [Action.Contract.comap, Action.Contract.mk.injEq]
    exact ⟨funext fun e => propext (aloof.nested_assumes e), funext fun e => propext (aloof.nested_ensures e)⟩
  have deaf : (fun g e => u g (.nested e)) = u := funext fun g => funext (aloof.nested g)
  rw [on_host, Action.track_zoom, same, deaf]

theorem Aloof.track_ask (aloof : Aloof C u) {α : Type} {f : World F → α}
    {Q : α → Exec (World F) → γ → Prop} :
    Action.track C u (on_host (VMHost.ask f)) Q exec g ↔ Q (f exec.host) exec g :=
  aloof.track_on_host.trans Action.track_gets

theorem Aloof.track_on_host_pure (aloof : Aloof C u) {α : Type} {a : α}
    {Q : α → Exec (World F) → γ → Prop} :
    Action.track C u (on_host (pure a : Action Event (World F) α)) Q exec g ↔ Q a exec g :=
  aloof.track_on_host.trans Action.track_pure

end

section
variable [Ethash] {C : Action.Contract Event} {u : γ → Event → γ} {exec : Exec (World F)} {g : γ}
  {evaluate : Evaluate F} (aloof : Aloof C u)
include aloof

theorem Aloof.track_charge_access {addr : Address} {cost gas_left : Int}
    {Q : Bool × Int → Exec (World F) → γ → Prop} (each : ∀ ok left, Q (ok, left) exec g) :
    Action.track C u (charge_access (vm_host evaluate) addr cost gas_left) Q exec g := by
  simp only [charge_access, Action.track_bind, Action.track_get, Action.track_ite, Action.track_pure]
  refine ⟨fun _ => ?_, fun _ => each _ _⟩
  exact aloof.track_on_host_pure.mpr ⟨fun _ => each _ _, fun _ => each _ _⟩

theorem Aloof.track_get_tx_context {Q : TxContext → Exec (World F) → γ → Prop}
    (each : ∀ tx m_tx, Q tx { exec with state := exec.state.set_tx m_tx } g) :
    Action.track C u (get_tx_context (vm_host evaluate)) Q exec g := by
  simp only [get_tx_context, Action.track_bind, Action.track_get, Action.track_ite, Action.track_pure,
    track_on_state, Action.track_modify]
  exact ⟨fun _ => aloof.track_ask.mpr (each _ _), fun _ => each _ exec.state.m_tx⟩

theorem Aloof.track_storage_is_cold {rev : Revision} {addr : Address} {key : Word}
    {Q : Bool → Exec (World F) → γ → Prop} (each : ∀ cold, Q cold exec g) :
    Action.track C u (storage_is_cold (vm_host evaluate) rev addr key) Q exec g := by
  simp only [storage_is_cold, Action.track_ite, Action.track_bind, Action.track_pure]
  exact ⟨fun _ => aloof.track_on_host_pure.mpr (each _), fun _ => each _⟩

theorem Aloof.track_charge_beneficiary {beneficiary : Address} {gas_left : Int}
    {Q : Bool × Int → Exec (World F) → γ → Prop} (each : ∀ ok left, Q (ok, left) exec g) :
    Action.track C u (charge_beneficiary (vm_host evaluate) beneficiary gas_left) Q exec g := by
  have answered (exists_ : Bool) : (exists_ = true → Q (true, gas_left) exec g) ∧
      (¬ exists_ = true → Q (decide (gas_left - 25000 ≥ 0), gas_left - 25000) exec g) :=
    ⟨fun _ => each _ _, fun _ => each _ _⟩
  have asked (asks : Prop) : (asks → Action.track C u
      (on_host ((vm_host evaluate).account_exists beneficiary)) (fun exists_ e g' =>
        (exists_ = true → Q (true, gas_left) e g') ∧
          (¬ exists_ = true → Q (decide (gas_left - 25000 ≥ 0), gas_left - 25000) e g')) exec g) ∧
      (¬ asks → (True → Q (true, gas_left) exec g) ∧
        (¬ True → Q (decide (gas_left - 25000 ≥ 0), gas_left - 25000) exec g)) :=
    ⟨fun _ => aloof.track_ask.mpr (answered _), fun _ => ⟨fun _ => each _ _, fun _ => each _ _⟩⟩
  simp only [charge_beneficiary, Action.track_bind, Action.track_get, Action.track_ite, Action.track_pure]
  exact ⟨fun _ => asked True, fun _ => ⟨fun _ => aloof.track_ask.mpr (asked _), fun _ => asked _⟩⟩

theorem Aloof.track_call_cost {Op : CallOp} {has_value : Bool} {rev : Revision} {dst : Address}
    {Q : Int → Exec (World F) → γ → Prop} (each : ∀ cost, Q cost exec g) :
    Action.track C u (call_cost (vm_host evaluate) Op has_value rev dst) Q exec g := by
  simp only [call_cost, Action.track_bind, Action.track_ite, Action.track_pure]
  exact ⟨fun _ => aloof.track_ask.mpr (each _), fun _ => each _⟩

/-- A call that gets past the three light failures has the value it sends. -/
theorem Aloof.track_light_failure {Op : CallOp} {o : CallOperands} {Q : Bool → Exec (World F) → γ → Prop}
    (each : ∀ failed, (failed = false → exec.state.msg.depth < 1024 ∧
      (o.value ≠ 0 → o.value ≤ exec.host.accounts.get_balance exec.state.msg.recipient)) →
        Q failed exec g) :
    Action.track C u (EvmAssigner.light_failure (vm_host evaluate) Op o) Q exec g := by
  simp only [EvmAssigner.light_failure, Action.track_bind, Action.track_get, Action.track_ite, Action.track_pure]
  have rest (shallow : exec.state.msg.depth < 1024)
      (funded : o.value ≠ 0 → o.value ≤ exec.host.accounts.get_balance exec.state.msg.recipient) :
      (Op = .DELEGATECALL ∧ exec.state.rev ≥ .PRAGUE ∧ is_eof_container exec.state.original_code = true →
        Action.track C u (on_host ((vm_host evaluate).copy_code o.dst 0 2))
          (fun target_code_prefix => Q !is_eof_container (List.take 2 target_code_prefix)) exec g) ∧
      (¬ (Op = .DELEGATECALL ∧ exec.state.rev ≥ .PRAGUE ∧
        is_eof_container exec.state.original_code = true) → Q false exec g) :=
    ⟨fun _ => aloof.track_ask.mpr (each _ fun _ => ⟨shallow, funded⟩),
      fun _ => each _ fun _ => ⟨shallow, funded⟩⟩
  refine ⟨fun _ => each true (by simp), fun shallow => ⟨fun _ => aloof.track_ask.mpr ?_, fun free => ?_⟩⟩
  · refine ⟨fun _ => each true (by simp), fun rich => rest (by omega) fun _ => ?_⟩
    simpa using rich
  · exact ⟨fun no => absurd no (by simp), fun _ => rest (by omega) fun value => absurd value free⟩

theorem Aloof.track_create_light_failure {endowment : Word} {Q : Bool → Exec (World F) → γ → Prop}
    (each : ∀ failed, (failed = false → exec.state.msg.depth < 1024) → Q failed exec g) :
    Action.track C u (create_light_failure (vm_host evaluate) endowment) Q exec g := by
  simp only [create_light_failure, Action.track_bind, Action.track_get, Action.track_ite, Action.track_pure]
  exact ⟨fun _ => each true (by simp), fun shallow =>
    ⟨fun _ => aloof.track_ask.mpr (each _ fun _ => by omega), fun _ => each _ fun _ => by omega⟩⟩

end

/-- Between two instructions of a frame for `msg`. -/
structure Kept (I : World F → γ → Prop) (msg : Message) (exec : Exec (World F)) (g : γ) : Prop where
  host : I exec.host g
  msg : exec.state.msg = msg

theorem Kept.track_local {C : Action.Contract Event} {u : γ → Event → γ} {I : World F → γ → Prop}
    {msg : Message} {exec : Exec (World F)} {g : γ} {α : Type} {m : Local α}
    {Q : α → Exec (World F) → γ → Prop} (kept : Kept I msg exec g)
    (h : Action.wlp (silent C u) m (fun _ s => s.msg = msg) exec.state)
    (each : ∀ a e, Kept I msg e g → Q a e g) : Action.track C u (on_state m) Q exec g :=
  EvmAssigner.track_local h fun a _ same => each a _ ⟨kept.host, same⟩

theorem msg_wide {P : Action.Contract Event} {msg : Message} : Wide P fun s => s.msg = msg where
  record _ _ _ inv := inv
  push_storage _ _ _ _ _ inv := inv
  set_slot _ _ inv := inv
  set_status _ inv := inv
  set_return_data _ inv := inv
  set_output _ _ inv _ := inv
  set_call_stack _ inv := inv
  add_refund _ inv := inv
  set_tx _ inv := inv
  grow same _ _ := same
  host_output same _ _ := same
  store _ _ inv := inv
  push_memory _ _ _ inv := inv

section
variable {C : Action.Contract Event} {u : γ → Event → γ} {I : World F → γ → Prop} {msg : Message}
  {exec : Exec (World F)} {g : γ} {h gas_left : Int} (aloof : Aloof C u) (kept : Kept I msg exec g)
include aloof kept

theorem record_stack_kept {stack i : Int} {is_write : Bool} {Q : Unit → Exec (World F) → γ → Prop}
    (each : ∀ e, Kept I msg e g → Q () e g) :
    Action.track C u (on_state (record_stack stack i is_write)) Q exec g := by
  have := aloof.plain
  exact kept.track_local (wlp_record_stack.mpr kept.msg) fun _ => each

theorem stack_get_kept {stack i : Int} {Q : Word → Exec (World F) → γ → Prop}
    (each : ∀ v e, Kept I msg e g → Q v e g) :
    Action.track C u (on_state (stack_get stack i)) Q exec g := by
  have := aloof.plain
  exact kept.track_local (wlp_stack_get.mpr kept.msg) each

theorem stack_set_kept {stack i : Int} {v : Word} {Q : Unit → Exec (World F) → γ → Prop}
    (each : ∀ e, Kept I msg e g → Q () e g) :
    Action.track C u (on_state (stack_set stack i v)) Q exec g := by
  have := aloof.plain
  exact kept.track_local (wlp_stack_set.mpr kept.msg) fun _ => each

theorem check_memory_kept {offset size : Word} {Q : Bool × Int → Exec (World F) → γ → Prop}
    (each : ∀ checked e, Kept I msg e g → Q checked e g) :
    Action.track C u (on_state (check_memory gas_left offset size)) Q exec g := by
  have := aloof.plain
  exact kept.track_local (msg_wide.unread.check_memory_keeps kept.msg fun _ _ _ _ same _ => same) each

theorem push_word_kept {v : Word} :
    Action.track C u (on_state (push_word v h)) (fun _ => Kept I msg) exec g := by
  have := aloof.plain
  exact kept.track_local (msg_wide.unread.push_word_keeps kept.msg) fun _ _ kept => kept

/-- The stack top is replaced. -/
theorem set_top_kept {v : Word} : Action.track C u (on_state (stack_set h 0 v)) (fun _ =>
    Action.track C u (on_state (record_stack h 0 true)) (fun _ => Kept I msg)) exec g :=
  stack_set_kept aloof kept fun _ kept => record_stack_kept aloof kept fun _ kept => kept

omit aloof in
theorem record_storage_kept {address key value value_prev : Word} {is_write : Bool}
    {Q : Unit → Exec (World F) → γ → Prop}
    (each : ∀ id rw_id, let o := storage_operation id address key rw_id is_write value value_prev
      C.assumes (.storage_entry o) → C.ensures (.storage_entry o) ∧
        ∀ e : Exec (World F), e.host = exec.host → e.state.msg = msg → Q () e (u g (.storage_entry o))) :
    Action.track C u (on_state (record_storage address key is_write value value_prev)) Q exec g := by
  simp only [track_on_state, record_storage, Action.track_bind, Action.track_get, Action.track_emit,
    Action.track_modify]
  intro assumed
  obtain ⟨ensured, rest⟩ := each exec.state.call_id exec.state.rw_trace.length assumed
  exact ⟨ensured, rest _ rfl kept.msg⟩

/-- Part of the memory is read as input. -/
theorem read_input_kept {α : Type} {k n : Nat} {f : Bytes → Instr (World F) α}
    {Q : α → Exec (World F) → γ → Prop}
    (each : ∀ input e, Kept I msg e g → Action.track C u (f input) Q e g) :
    Action.track C u (if n > 0 then on_state (memory_load k n) >>= f else pure [] >>= f) Q exec g := by
  have := aloof.plain
  simp only [Action.track_ite, Action.track_bind, Action.track_pure]
  exact ⟨fun _ => kept.track_local (wlp_memory_load.mpr kept.msg) each, fun _ => each _ _ kept⟩

theorem record_operands_kept {n : Nat} {stack : Int} {Q : Unit → Exec (World F) → γ → Prop}
    (each : ∀ e, Kept I msg e g → Q () e g) :
    Action.track C u (on_state (record_operands n stack)) Q exec g := by
  have := aloof.plain
  exact kept.track_local (Unread.record_operands_keeps ((msg_wide (P := any_event)).reads kept.msg _)) fun _ => each

omit aloof kept in
theorem emit_kept {α : Type} {e : Event} {m : Instr (World F) α} {Q : α → Exec (World F) → γ → Prop}
    (passes : Passes C u e) (each : Action.track C u m Q exec g) :
    Action.track C u (Action.emit e >>= fun _ => m) Q exec g := by
  rw [Action.track_bind, Action.track_emit, passes.2]
  exact fun _ => ⟨passes.1, each⟩

theorem finish_call_kept {o : CallOperands} {msg_gas : Int} {result : Result} :
    Action.track C u (on_state (finish_call o msg_gas result h gas_left)) (fun _ => Kept I msg) exec g := by
  have := aloof.plain
  refine kept.track_local ?_ fun _ _ kept => kept
  simp only [finish_call, Action.wlp_bind, Action.wlp_ite, Action.wlp_modify, Action.wlp_pure, wlp_stack_set,
    wlp_record_stack, wlp_host_store]
  exact ⟨fun _ _ => ⟨aloof.host_output _ _ _, kept.msg⟩, fun _ => kept.msg⟩

theorem finish_create_kept {msg_gas : Int} {result : Result} :
    Action.track C u (on_state (finish_create msg_gas result h gas_left)) (fun _ => Kept I msg) exec g := by
  have := aloof.plain
  exact kept.track_local (msg_wide.unread.finish_create_keeps kept.msg) fun _ _ kept => kept

end

section
variable [Ethash] {C : Action.Contract Event} {u : γ → Event → γ}
  {I : World F → γ → Prop} {msg : Message} {exec : Exec (World F)} {g : γ} {evaluate : Evaluate F}
  {h gas_left : Int} (aloof : Aloof C u) (kept : Kept I msg exec g)
include aloof kept

theorem get_tx_context_kept {Q : TxContext → Exec (World F) → γ → Prop}
    (each : ∀ tx e, Kept I msg e g → Q tx e g) :
    Action.track C u (get_tx_context (vm_host evaluate)) Q exec g :=
  aloof.track_get_tx_context fun tx _ => each tx _ ⟨kept.host, kept.msg⟩

theorem push_tx_kept {field : TxContext → Word} :
    Action.track C u (push_tx (vm_host evaluate) field h) (fun _ => Kept I msg) exec g := by
  simp only [push_tx, Action.track_bind, lift_on_state]
  exact get_tx_context_kept aloof kept fun tx e kept => push_word_kept aloof kept

theorem blobhash_kept :
    Action.track C u (blobhash (vm_host evaluate) h) (fun _ => Kept I msg) exec g := by
  simp only [blobhash, Action.track_bind, lift_on_state]
  refine record_stack_kept aloof kept fun _ kept => stack_get_kept aloof kept fun index _ kept => ?_
  exact get_tx_context_kept aloof kept fun tx _ kept => set_top_kept aloof kept

theorem blockhash_kept :
    Action.track C u (blockhash (vm_host evaluate) h) (fun _ => Kept I msg) exec g := by
  simp only [blockhash, Action.track_bind, Action.track_ite, Action.track_pure, lift_on_state]
  refine record_stack_kept aloof kept fun _ kept => stack_get_kept aloof kept fun number _ kept => ?_
  refine get_tx_context_kept aloof kept fun tx _ kept => ?_
  exact ⟨fun _ => aloof.track_ask.mpr (set_top_kept aloof kept), fun _ => set_top_kept aloof kept⟩

theorem selfbalance_kept :
    Action.track C u (selfbalance (vm_host evaluate) h) (fun _ => Kept I msg) exec g := by
  simp only [selfbalance, Action.track_bind, Action.track_get, lift_on_state]
  exact aloof.track_ask.mpr (push_word_kept aloof kept)

theorem query_account_kept {query : Address → Instr (World F) Word}
    (asks : ∀ addr e (Q : Word → Exec (World F) → γ → Prop), (∀ v, Q v e g) →
      Action.track C u (query addr) Q e g) :
    Action.track C u (query_account (vm_host evaluate) query h gas_left) (fun _ => Kept I msg) exec g := by
  simp only [query_account, Action.track_bind, Action.track_ite, Action.track_pure, lift_on_state]
  refine record_stack_kept aloof kept fun _ kept => stack_get_kept aloof kept fun x _ kept => ?_
  refine aloof.track_charge_access fun ok left => ⟨fun _ => kept, fun _ => ?_⟩
  exact asks _ _ _ fun v => set_top_kept aloof kept

theorem extcodecopy_kept :
    Action.track C u (extcodecopy (vm_host evaluate) h gas_left) (fun _ => Kept I msg) exec g := by
  have := aloof.plain
  simp only [extcodecopy, Action.track_bind, Action.track_ite, Action.track_pure, lift_on_state]
  refine record_stack_kept aloof kept fun _ kept => record_stack_kept aloof kept fun _ kept => ?_
  refine record_stack_kept aloof kept fun _ kept => record_stack_kept aloof kept fun _ kept => ?_
  refine stack_get_kept aloof kept fun x _ kept => stack_get_kept aloof kept fun mem_index _ kept => ?_
  refine stack_get_kept aloof kept fun input_index _ kept => stack_get_kept aloof kept fun size _ kept => ?_
  refine check_memory_kept aloof kept fun check _ kept => ?_
  refine ⟨fun _ => kept, fun _ => ⟨fun _ => kept, fun _ => ?_⟩⟩
  refine aloof.track_charge_access fun ok left => ⟨fun _ => kept, fun _ => ?_⟩
  have stored {dst : Nat} {data : Bytes} {s : ExecutionState} (same : s.msg = msg) :
      Action.wlp (silent C u) (host_store dst data) (fun _ s' => s'.msg = msg) s :=
    wlp_host_store.mpr fun _ => ⟨aloof.host_output _ _ _, same⟩
  refine ⟨fun _ => aloof.track_ask.mpr ?_, fun _ => kept⟩
  refine kept.track_local (stored kept.msg) fun _ _ kept => ⟨fun _ => ?_, fun _ => kept⟩
  exact kept.track_local (stored kept.msg) fun _ _ kept => kept

theorem tload_kept : Action.track C u (tload (vm_host evaluate) h) (fun _ => Kept I msg) exec g := by
  simp only [tload, Action.track_bind, Action.track_get, lift_on_state]
  refine record_stack_kept aloof kept fun _ kept => stack_get_kept aloof kept fun key _ kept => ?_
  exact aloof.track_ask.mpr (set_top_kept aloof kept)

theorem selfdestruct_kept :
    Action.track C u (selfdestruct (vm_host evaluate) h gas_left) (fun _ => Kept I msg) exec g := by
  simp only [selfdestruct, Action.track_bind, Action.track_get, Action.track_ite, Action.track_pure,
    lift_on_state]
  refine ⟨fun _ => kept, fun _ => ?_⟩
  refine record_stack_kept aloof kept fun _ kept => stack_get_kept aloof kept fun x _ kept => ?_
  refine aloof.track_charge_access fun ok left => ⟨fun _ => kept, fun _ => ?_⟩
  refine aloof.track_charge_beneficiary fun ok left => ⟨fun _ => kept, fun _ => ?_⟩
  exact aloof.track_on_host_pure.mpr ⟨fun no => absurd no.1 (by simp), fun _ => kept⟩

end

section
variable {C : Action.Contract Event} {u : γ → Event → γ} {M : Message → Prop}
  {I : World F → γ → Prop} {msg m : Message} {w : World F} {g : γ} (invariant : StorageInvariant C u M I)
include invariant

theorem StorageInvariant.track_observed {α : Type} {m : Action Event (World F) α}
    (kept : Action.track C u m (fun _ => I) w g) :
    Action.track C u (VMHost.observed m) (fun _ => I) w g := by
  simp only [VMHost.observed, Action.track_bind, Action.track_get, Action.track_emit, Action.track_pure]
  exact kept.mono fun _ w' g' inv assumed => invariant.accounts inv assumed

theorem StorageInvariant.track_set_storage {addr : Address} {key value : Word}
    (stored : C.assumes (.set_storage w.accounts addr key value) →
      C.ensures (.set_storage w.accounts addr key value) ∧
        I (w.set_accounts (w.accounts.set_storage addr key value).1)
          (u g (.set_storage w.accounts addr key value))) :
    Action.track C u (VMHost.set_storage addr key value) (fun _ => I) w g := by
  refine invariant.track_observed ?_
  simp only [Action.track_bind, Action.track_get, Action.track_emit, Action.track_modify, Action.track_pure]
  exact stored

theorem StorageInvariant.track_set_transient_storage {addr : Address} {key value : Word}
    (stored : C.assumes (.set_transient_storage w.accounts addr key value) →
      C.ensures (.set_transient_storage w.accounts addr key value) ∧
        I (w.set_accounts (w.accounts.set_transient_storage addr key value))
          (u g (.set_transient_storage w.accounts addr key value))) :
    Action.track C u (VMHost.set_transient_storage addr key value) (fun _ => I) w g := by
  refine invariant.track_observed ?_
  simp only [Action.track_bind, Action.track_get, Action.track_emit, Action.track_modify]
  exact stored

end

section
variable [Ethash] {C : Action.Contract Event} {u : γ → Event → γ} {M : Message → Prop}
  {I : World F → γ → Prop} {msg m : Message} {w : World F} {g : γ} {evaluate : Evaluate F}
  (invariant : HostInvariant C u M I)
include invariant

variable (frames : ∀ rev m code w g, M m → I w g → Action.track C u (evaluate rev m code) (fun _ => I) w g)
include frames

omit [Ethash] invariant in
theorem track_handle_call (refused : w.accounts m.sender = none → I w g)
    (calls : (w.accounts m.sender).isSome → M m ∧ I (w.set_accounts (called w.accounts m)) g) :
    Action.track C u (VMHost.handle_call evaluate m) (fun _ => I) w g := by
  simp only [VMHost.handle_call, Action.track_bind, Action.track_get, Action.track_ite, Action.track_pure,
    Action.track_modify, Option.isNone_iff_eq_none]
  refine ⟨refused, fun known => ?_⟩
  obtain ⟨of_M, inv'⟩ := calls (Option.isSome_iff_ne_none.mpr known)
  exact ⟨fun _ => inv', fun _ => frames _ _ _ _ _ of_M inv'⟩

omit invariant in
theorem track_handle_create (refused : w.accounts (calculate_address m) ≠ none → I w g)
    (creates : w.accounts (calculate_address m) = none → M (init_message m) ∧
      I (w.set_accounts (w.accounts.ensure (calculate_address m))) g)
    (created : w.accounts (calculate_address m) = none → ∀ w g code, I w g →
      I (w.set_accounts (w.accounts.set_code (calculate_address m) code)) g) :
    Action.track C u (VMHost.handle_create evaluate m) (fun _ => I) w g := by
  simp only [VMHost.handle_create, Action.track_bind, Action.track_get, Action.track_ite, Action.track_pure,
    Action.track_modify]
  refine ⟨fun taken => refused (Option.isSome_iff_ne_none.mp taken), fun fresh => ?_⟩
  replace fresh : w.accounts (calculate_address m) = none := by simpa using fresh
  obtain ⟨of_M, inv'⟩ := creates fresh
  refine ⟨fun _ => inv', fun _ => (frames _ _ _ _ _ of_M inv').mono fun res w' g' inv'' => ?_⟩
  exact ⟨fun _ => created fresh _ _ _ inv'', fun _ => inv''⟩

/-- `VMHost` is called with any message. -/
theorem HostInvariant.track_vm_call
    (call : C.assumes (.call w.accounts m) → C.ensures (.call w.accounts m) ∧
      (Refused w.accounts m → I w (u g (.call w.accounts m))))
    (calls : C.assumes (.call w.accounts m) → m.kind = .CALL ∨ m.kind = .CALLCODE ∨ m.kind = .DELEGATECALL →
      (w.accounts m.sender).isSome → M m ∧ I (w.set_accounts (called w.accounts m)) (u g (.call w.accounts m)))
    (creates : C.assumes (.call w.accounts m) → m.kind = .CREATE ∨ m.kind = .CREATE2 →
      w.accounts (calculate_address m) = none → M (init_message m) ∧
        I (w.set_accounts (w.accounts.ensure (calculate_address m))) (u g (.call w.accounts m)))
    (created : C.assumes (.call w.accounts m) → m.kind = .CREATE ∨ m.kind = .CREATE2 →
      w.accounts (calculate_address m) = none → ∀ w g code, I w g →
        I (w.set_accounts (w.accounts.set_code (calculate_address m) code)) g) :
    Action.track C u (VMHost.call evaluate m) (fun _ => I) w g := by
  refine invariant.track_observed ?_
  simp only [Action.track_bind, Action.track_get, Action.track_emit]
  intro assumed
  obtain ⟨ensured, refused⟩ := call assumed
  refine ⟨ensured, ?_⟩
  replace calls := calls assumed
  replace creates := creates assumed
  replace created := created assumed
  unfold Refused at refused
  cases kind : m.kind with
  | CALL | CALLCODE | DELEGATECALL =>
    rw [kind] at refused
    exact track_handle_call frames refused (calls (by simp [kind]))
  | CREATE | CREATE2 =>
    rw [kind] at refused
    exact track_handle_create frames refused (creates (by simp [kind])) (created (by simp [kind]))
  | other =>
    rw [kind] at refused
    exact Action.track_pure.mpr (refused trivial)

theorem HostInvariant.track_call (of_M : M msg) (sends : Sends msg w.accounts m) (inv : I w g) :
    Action.track C u (VMHost.call evaluate m) (fun _ => I) w g := by
  refine invariant.track_vm_call frames (invariant.call of_M sends inv) (invariant.calls of_M sends inv)
    (invariant.creates of_M sends inv) ?_
  exact fun assumed kind fresh _ _ code inv => invariant.created code of_M sends assumed kind fresh inv

end

section
variable [Ethash] {C : Action.Contract Event} {u : γ → Event → γ} {M : Message → Prop}
  {I : World F → γ → Prop} {msg : Message} {exec : Exec (World F)} {g : γ} {evaluate : Evaluate F}
  {h gas_left : Int} (aloof : Aloof C u) (invariant : StorageInvariant C u M I) (of_M : M msg)
  (kept : Kept I msg exec g)
include aloof invariant of_M kept

theorem sload_kept :
    Action.track C u (sload (vm_host evaluate) h gas_left) (fun _ => Kept I msg) exec g := by
  simp only [sload, Action.track_bind, Action.track_get, Action.track_ite, Action.track_pure, lift_on_state,
    kept.msg]
  refine record_stack_kept aloof kept fun _ kept => stack_get_kept aloof kept fun key _ kept => ?_
  refine aloof.track_storage_is_cold fun cold => ⟨fun _ => kept, fun _ => aloof.track_ask.mpr ?_⟩
  refine record_storage_kept kept fun id rw_id assumed => ?_
  obtain ⟨ensured, inv⟩ := invariant.sload id rw_id key of_M kept.host assumed
  exact ⟨ensured, fun e same at_msg => set_top_kept aloof ⟨same ▸ inv, at_msg⟩⟩

theorem sstore_kept :
    Action.track C u (sstore (vm_host evaluate) h gas_left) (fun _ => Kept I msg) exec g := by
  simp only [sstore, Action.track_bind, Action.track_get, Action.track_ite, Action.track_pure, lift_on_state,
    ExecutionState.in_static_mode, kept.msg]
  refine ⟨fun _ => kept, fun writable => ⟨fun _ => kept, fun _ => ?_⟩⟩
  refine record_stack_kept aloof kept fun _ kept => record_stack_kept aloof kept fun _ kept => ?_
  refine stack_get_kept aloof kept fun key _ kept => stack_get_kept aloof kept fun value _ kept => ?_
  refine aloof.track_storage_is_cold fun cold => aloof.track_ask.mpr ?_
  refine record_storage_kept kept fun id rw_id assumed => ?_
  obtain ⟨ensured, stored⟩ := invariant.sstore id rw_id key value of_M writable kept.host assumed
  refine ⟨ensured, fun e same at_msg => aloof.track_on_host.mpr ?_⟩
  rw [same]
  refine (invariant.track_set_storage stored).mono fun status w g' inv => ⟨fun _ => ⟨inv, at_msg⟩, fun _ => ?_⟩
  exact track_on_state.mpr (Action.track_modify.mpr ⟨inv, at_msg⟩)

theorem tstore_kept :
    Action.track C u (tstore (vm_host evaluate) h gas_left) (fun _ => Kept I msg) exec g := by
  simp only [tstore, Action.track_bind, Action.track_get, Action.track_ite, Action.track_pure, lift_on_state,
    ExecutionState.in_static_mode, kept.msg]
  refine ⟨fun _ => kept, fun writable => ?_⟩
  refine record_stack_kept aloof kept fun _ kept => record_stack_kept aloof kept fun _ kept => ?_
  refine stack_get_kept aloof kept fun key _ kept => stack_get_kept aloof kept fun value _ kept => ?_
  refine aloof.track_on_host.mpr ?_
  refine (invariant.track_set_transient_storage ?_).mono fun _ w g' inv => ⟨inv, kept.msg⟩
  exact invariant.tstore key value of_M writable kept.host

end

section
variable [Ethash] {C : Action.Contract Event} {u : γ → Event → γ} {M : Message → Prop}
  {I : World F → γ → Prop} {msg : Message} {exec : Exec (World F)} {g : γ} {evaluate : Evaluate F}
  {h gas_left : Int} (aloof : Aloof C u) (invariant : HostInvariant C u M I) (of_M : M msg)
  (kept : Kept I msg exec g)
  (frames : ∀ rev m code w g, M m → I w g → Action.track C u (evaluate rev m code) (fun _ => I) w g)
include aloof invariant of_M kept frames

theorem make_call_kept {Op : CallOp} {o : CallOperands} {m : Message}
    (sends : ∀ accounts : Accounts, (o.value ≠ 0 → o.value ≤ accounts.get_balance msg.recipient) →
      Sends msg accounts m) :
    Action.track C u (make_call (vm_host evaluate) Op o m h gas_left) (fun _ => Kept I msg) exec g := by
  simp only [make_call, Action.track_bind, lift_on_state]
  refine aloof.track_light_failure fun failed funded => Action.track_ite.mpr ⟨fun _ => ?_, fun going => ?_⟩
  · exact emit_kept (aloof.light_failure _) (Action.track_pure.mpr kept)
  · refine emit_kept (aloof.host_call _ _ _) (Action.track_bind.mpr (aloof.track_on_host.mpr ?_))
    have enough := (funded (by simpa using going)).2
    rw [kept.msg] at enough
    exact (invariant.track_call frames of_M (sends _ enough) kept.host).mono fun result w g' inv =>
      finish_call_kept aloof (show Kept I msg ⟨exec.state, w⟩ g' from ⟨inv, kept.msg⟩)

theorem call_impl_kept (Op : CallOp) :
    Action.track C u (call_impl (vm_host evaluate) Op h gas_left) (fun _ => Kept I msg) exec g := by
  have := aloof.plain
  simp only [call_impl, Action.track_bind, Action.track_get, lift_on_state, ExecutionState.in_static_mode,
    kept.msg]
  refine record_operands_kept aloof kept fun exec kept => ?_
  refine track_local (R := fun o s => s.msg = msg ∧ (Op.takes_value = false → o.value = 0)) ?_ ?_
  · simp only [pop_call_operands, Action.wlp_bind, Action.wlp_ite, Action.wlp_pure, wlp_stack_get]
    exact ⟨fun takes => ⟨kept.msg, fun no => absurd takes (by simp [no])⟩, fun _ => ⟨kept.msg, fun _ => trivial⟩⟩
  rintro o s ⟨same, no_operand⟩
  replace kept : Kept I msg { exec with state := s } g := ⟨kept.host, same⟩
  refine stack_set_kept aloof kept fun _ kept => ?_
  refine kept.track_local (Action.wlp_modify.mpr kept.msg) fun _ _ kept => ?_
  refine aloof.track_charge_access fun ok left =>
    Action.track_ite.mpr ⟨fun _ => Action.track_pure.mpr kept, fun _ => ?_⟩
  refine Action.track_bind.mpr (check_memory_kept aloof kept fun input _ kept => ?_)
  refine Action.track_ite.mpr ⟨fun _ => Action.track_pure.mpr kept, fun _ => ?_⟩
  refine Action.track_bind.mpr (check_memory_kept aloof kept fun output _ kept => ?_)
  refine Action.track_ite.mpr ⟨fun _ => Action.track_pure.mpr kept, fun _ => ?_⟩
  refine read_input_kept aloof kept fun input _ kept => ?_
  refine Action.track_ite.mpr ⟨fun _ => Action.track_pure.mpr kept, fun allowed => ?_⟩
  refine Action.track_bind.mpr (aloof.track_call_cost fun cost => ?_)
  refine Action.track_ite.mpr ⟨fun _ => Action.track_pure.mpr kept, fun _ => ?_⟩
  split
  · exact Action.track_pure.mpr kept
  · refine make_call_kept aloof invariant of_M kept frames fun w funded => ?_
    exact call_message_sends no_operand (by simpa using allowed) funded

theorem create_impl_kept (Op : CreateOp) :
    Action.track C u (create_impl (vm_host evaluate) Op h gas_left) (fun _ => Kept I msg) exec g := by
  have := aloof.plain
  simp only [create_impl, Action.track_bind, Action.track_get, ExecutionState.in_static_mode, kept.msg]
  refine Action.track_ite.mpr ⟨fun _ => Action.track_pure.mpr kept, fun writable => ?_⟩
  simp only [Action.track_bind, lift_on_state]
  refine record_operands_kept aloof kept fun _ kept => ?_
  refine kept.track_local (Unread.pop_create_operands_keeps kept.msg) fun o _ kept => ?_
  refine stack_set_kept aloof kept fun _ kept => ?_
  refine kept.track_local (Action.wlp_modify.mpr kept.msg) fun _ _ kept => ?_
  refine check_memory_kept aloof kept fun checked _ kept => ?_
  refine Action.track_ite.mpr ⟨fun _ => Action.track_pure.mpr kept, fun _ => ?_⟩
  refine Action.track_ite.mpr ⟨fun _ => Action.track_pure.mpr kept, fun _ => ?_⟩
  refine Action.track_ite.mpr ⟨fun _ => Action.track_pure.mpr kept, fun _ => ?_⟩
  refine Action.track_bind.mpr (aloof.track_create_light_failure fun failed _ => ?_)
  refine Action.track_ite.mpr ⟨fun _ => ?_, fun _ => ?_⟩
  · exact emit_kept (aloof.light_failure _) (Action.track_pure.mpr kept)
  · refine read_input_kept aloof kept fun input exec kept => ?_
    refine Action.track_bind.mpr (aloof.track_on_host.mpr ?_)
    refine (invariant.track_call frames of_M (create_message_sends writable) kept.host).mono ?_
    exact fun result w g' inv =>
      finish_create_kept aloof (show Kept I msg ⟨exec.state, w⟩ g' from ⟨inv, kept.msg⟩)

end

section
variable [Ethash] {P : Action.Contract Event} {evaluate : Evaluate F}

/-- `VMHost` keeps to a contract if the frames it runs do. -/
theorem vm_host_hosted (accounts : ∀ accounts, P.ensures (.nested (.accounts accounts)))
    (set_storage : ∀ accounts addr key value, P.ensures (.nested (.set_storage accounts addr key value)))
    (set_transient_storage : ∀ accounts addr key value,
      P.ensures (.nested (.set_transient_storage accounts addr key value)))
    (call : ∀ accounts msg, P.ensures (.nested (.call accounts msg)))
    (frames : ∀ msg code (w : World F),
      Action.wlp (P.comap .nested) (evaluate .LATEST_STABLE msg code) (fun _ _ => True) w) :
    Hosted P (vm_host evaluate) := by
  have observed {α : Type} {m : Action Event (World F) α} {w : World F}
      (quiet : Action.wlp (P.comap .nested) m (fun _ _ => True) w) :
      Action.wlp (P.comap .nested) (VMHost.observed m) (fun _ _ => True) w := by
    simp only [VMHost.observed, Action.wlp_bind, Action.wlp_get, Action.wlp_emit, Action.wlp_pure]
    exact quiet.mono fun _ w' _ _ => ⟨accounts w'.accounts, trivial⟩
  have called (msg : Message) (w : World F) :
      Action.wlp (P.comap .nested) (VMHost.handle_call evaluate msg) (fun _ _ => True) w := by
    simp only [VMHost.handle_call, Action.wlp_bind, Action.wlp_get, Action.wlp_ite, Action.wlp_modify,
      Action.wlp_pure]
    exact ⟨fun _ => trivial, fun _ => ⟨fun _ => trivial, fun _ => frames _ _ _⟩⟩
  have created (msg : Message) (w : World F) :
      Action.wlp (P.comap .nested) (VMHost.handle_create evaluate msg) (fun _ _ => True) w := by
    simp only [VMHost.handle_create, Action.wlp_bind, Action.wlp_get, Action.wlp_ite, Action.wlp_modify,
      Action.wlp_pure]
    exact ⟨fun _ => trivial, fun _ => ⟨fun _ => trivial,
      fun _ => (frames _ _ _).mono fun _ _ _ => ⟨fun _ => trivial, fun _ => trivial⟩⟩⟩
  have answers (msg : Message) (w : World F) :
      Action.wlp (P.comap .nested) (VMHost.call evaluate msg) (fun _ _ => True) w := by
    refine observed ?_
    simp only [Action.wlp_bind, Action.wlp_get, Action.wlp_emit]
    refine fun _ => ⟨call w.accounts msg, ?_⟩
    cases msg.kind with
    | CALL | CALLCODE | DELEGATECALL => exact called msg w
    | CREATE | CREATE2 => exact created msg w
    | other => exact Action.wlp_pure.mpr trivial
  have asks {α : Type} (f : World F → α) (w : World F) :
      Action.wlp (P.comap .nested) (VMHost.ask f) (fun _ _ => True) w := Action.wlp_gets.mpr trivial
  exact {
    account_exists := fun _ => asks _
    get_storage := fun _ _ => asks _
    set_storage := fun addr key value w => by
      refine observed ?_
      simp only [Action.wlp_bind, Action.wlp_get, Action.wlp_emit, Action.wlp_modify, Action.wlp_pure]
      exact fun _ => ⟨set_storage w.accounts addr key value, trivial⟩
    get_balance := fun _ => asks _
    get_code_size := fun _ => asks _
    get_code_hash := fun _ => asks _
    copy_code := fun _ _ _ => asks _
    selfdestruct := fun _ _ _ => Action.wlp_pure.mpr trivial
    call := answers
    get_tx_context := asks _
    get_block_hash := fun _ => asks _
    access_account := fun _ _ => Action.wlp_pure.mpr trivial
    access_storage := fun _ _ _ => Action.wlp_pure.mpr trivial
    get_transient_storage := fun _ _ => asks _
    set_transient_storage := fun addr key value w => by
      refine observed ?_
      simp only [Action.wlp_bind, Action.wlp_get, Action.wlp_emit, Action.wlp_modify]
      exact fun _ => ⟨set_transient_storage w.accounts addr key value, trivial⟩ }

end
end EvmAssigner
