import EvmAssigner.Rules
import EvmAssigner.Eof

namespace EvmAssigner
variable {H : Type}

/-- Where the loop of `dispatch` stands; at its end there is no code iterator. -/
structure Config (H : Type) where
  code_it : Option Int
  stack_top : Int
  gas : Int
  exec : Exec H

/-- The loop goes on, or it has come to an end without a failure. -/
def Config.Succeeds (c : Config H) : Prop := c.code_it ≠ none ∨ c.exec.state.status = .SUCCESS

/-- The instruction a configuration is about to execute. -/
def Config.opcode (c : Config H) : Option Opcode :=
  c.code_it.bind fun code_it => Opcode.of_byte (c.exec.state.analysis.code_at code_it)

/-- The loop starts on the first byte of the code, with an empty stack. -/
def Config.start (state : ExecutionState) (host : H) : Config H :=
  ⟨some 0, 0, state.msg.gas, ⟨state, host⟩⟩

/-- An instruction is executed with success. -/
def Executes [Ethash] (host : Host H) (cost_table : Opcode → Int) (c : Config H) (es : List Event)
    (c' : Config H) : Prop :=
  c'.Succeeds ∧ ∃ code_it, c.code_it = some code_it ∧
    turn host cost_table code_it c.stack_top c.gas c.exec =
      (es, some (⟨c'.code_it, c'.stack_top, c'.gas⟩, c'.exec))

/-- The instructions executed so far leave the events `es` behind. -/
inductive Run [Ethash] (host : Host H) (cost_table : Opcode → Int) (c : Config H) :
    List Event → Config H → Prop
  | start : Run host cost_table c [] c
  | next {es es' : List Event} {c' c'' : Config H} (run : Run host cost_table c es c')
      (executes : Executes host cost_table c' es' c'') : Run host cost_table c (es ++ es') c''

/-- The loop for `n` instructions, as long as they succeed. -/
def turns [Ethash] (host : Host H) (cost_table : Opcode → Int) : Nat → Config H → Option (Config H)
  | 0, c => some c
  | n + 1, c =>
    match c.code_it with
    | none => none
    | some code_it =>
      match (turn host cost_table code_it c.stack_top c.gas c.exec).2 with
      | none => none
      | some (next, exec) =>
        if next.code_it ≠ none ∨ exec.state.status = .SUCCESS then
          turns host cost_table n ⟨next.code_it, next.stack_top, next.gas, exec⟩
        else none

theorem executes_of_turns [Ethash] {host : Host H} {cost_table : Opcode → Int} {n : Nat}
    {c c'' : Config H} (h : turns host cost_table (n + 1) c = some c'') :
    ∃ es c', Executes host cost_table c es c' ∧ turns host cost_table n c' = some c'' := by
  unfold turns at h
  cases at_it : c.code_it with
  | none =>
    rw [at_it] at h
    contradiction
  | some code_it =>
    rw [at_it] at h
    cases turned : turn host cost_table code_it c.stack_top c.gas c.exec with
    | mk es o =>
      simp only [turned] at h
      cases o with
      | none => contradiction
      | some o =>
        obtain ⟨next, exec⟩ := o
        simp only at h
        split_ifs at h with succeeds
        exact ⟨es, ⟨next.code_it, next.stack_top, next.gas, exec⟩, ⟨succeeds, code_it, at_it, turned⟩, h⟩

theorem Executes.turns_succ [Ethash] {host : Host H} {cost_table : Opcode → Int} {n : Nat} {c c' : Config H}
    {es : List Event} (executes : Executes host cost_table c es c') :
    turns host cost_table (n + 1) c = turns host cost_table n c' := by
  obtain ⟨succeeds, code_it, at_it, ran⟩ := executes
  rw [turns, at_it]
  simp only [ran]
  exact if_pos succeeds

theorem Run.turns [Ethash] {host : Host H} {cost_table : Opcode → Int} {n : Nat} {c c' c'' : Config H}
    {es : List Event} (run : Run host cost_table c es c')
    (h : turns host cost_table n c' = some c'') : ∃ es', Run host cost_table c es' c'' := by
  induction n generalizing es c' with
  | zero =>
    obtain rfl : c' = c'' := Option.some.inj h
    exact ⟨es, run⟩
  | succ n ih =>
    obtain ⟨es', c₁, executes, rest⟩ := executes_of_turns h
    exact ih (run.next executes) rest

theorem Run.head [Ethash] {host : Host H} {cost_table : Opcode → Int} {c c' c'' : Config H}
    {es es' : List Event} (executes : Executes host cost_table c es c')
    (run : Run host cost_table c' es' c'') : Run host cost_table c (es ++ es') c'' := by
  induction run with
  | start =>
    rw [List.append_nil]
    exact .next .start executes
  | next _ later ih =>
    rw [← List.append_assoc]
    exact ih.next later

/-- `turns`, with the events that the instructions leave behind. -/
def traced_turns [Ethash] (host : Host H) (cost_table : Opcode → Int) : Nat → Config H → Option (List Event × Config H)
  | 0, c => some ([], c)
  | n + 1, c =>
    match c.code_it with
    | none => none
    | some code_it =>
      match turn host cost_table code_it c.stack_top c.gas c.exec with
      | (_, none) => none
      | (es, some (next, exec)) =>
        if next.code_it ≠ none ∨ exec.state.status = .SUCCESS then
          (traced_turns host cost_table n ⟨next.code_it, next.stack_top, next.gas, exec⟩).map fun rest =>
            (es ++ rest.1, rest.2)
        else none

theorem Run.traced [Ethash] {host : Host H} {cost_table : Opcode → Int} {n : Nat} {c c' : Config H} {es : List Event}
    (h : traced_turns host cost_table n c = some (es, c')) : Run host cost_table c es c' := by
  induction n generalizing c es with
  | zero =>
    obtain ⟨rfl, rfl⟩ := Prod.mk.inj (Option.some.inj h)
    exact .start
  | succ n ih =>
    unfold traced_turns at h
    cases at_it : c.code_it with
    | none =>
      rw [at_it] at h
      contradiction
    | some code_it =>
      rw [at_it] at h
      cases turned : turn host cost_table code_it c.stack_top c.gas c.exec with
      | mk es₁ o =>
        simp only [turned] at h
        cases o with
        | none => contradiction
        | some o =>
          obtain ⟨next, exec⟩ := o
          simp only at h
          split_ifs at h with succeeds
          obtain ⟨⟨es₂, c₂⟩, rest, same⟩ := Option.map_eq_some_iff.mp h
          obtain ⟨rfl, rfl⟩ := Prod.mk.inj same
          have executes : Executes host cost_table c es₁ ⟨next.code_it, next.stack_top, next.gas, exec⟩ :=
            ⟨succeeds, code_it, at_it, turned⟩
          exact .head executes (ih rest)

/-- What an instruction does, in a run of events that satisfy `P`, when it succeeds. -/
def Impl.Ensures (impl : Impl H) (P : Action.Contract Event) (code_it stack_top gas : Int)
    (Q : Exec H → Prop) (exec : Exec H) : Prop :=
  match impl with
  | .nullptr => True
  | .void fn => Action.wlp P (fn stack_top) (fun _ e => Q e) exec
  | .gas fn => Action.wlp P (fn stack_top gas) (fun o e => o.status = .SUCCESS → Q e) exec
  | .code fn => Action.wlp P (fn stack_top code_it)
      (fun next e => next ≠ none ∨ e.state.status = .SUCCESS → Q e) exec
  | .term fn => Action.wlp P (fn stack_top gas)
      (fun o e => o.status = .SUCCESS → Q { e with state := e.state.set_status .SUCCESS }) exec

theorem Impl.Ensures.mono {impl : Impl H} {P : Action.Contract Event} {code_it stack_top gas : Int}
    {Q Q' : Exec H → Prop} {exec : Exec H} (ensures : impl.Ensures P code_it stack_top gas Q exec)
    (weaker : ∀ e, Q e → Q' e) : impl.Ensures P code_it stack_top gas Q' exec := by
  cases impl with
  | nullptr => trivial
  | void fn => exact Action.wlp.mono ensures fun _ e => weaker e
  | gas fn => exact Action.wlp.mono ensures fun _ e h success => weaker e (h success)
  | code fn => exact Action.wlp.mono ensures fun _ e h success => weaker e (h success)
  | term fn => exact Action.wlp.mono ensures fun _ e h success => weaker _ (h success)

/-- What holds of a frame and its host behind an implementation, whether it succeeds or not. -/
def Impl.Leaves (impl : Impl H) (P : Action.Contract Event) (code_it stack_top gas : Int)
    (J : Exec H → Prop) (exec : Exec H) : Prop :=
  match impl with
  | .nullptr => True
  | .void fn => Action.wlp P (fn stack_top) (fun _ => J) exec
  | .gas fn => Action.wlp P (fn stack_top gas) (fun _ => J) exec
  | .code fn => Action.wlp P (fn stack_top code_it) (fun _ => J) exec
  | .term fn => Action.wlp P (fn stack_top gas) (fun _ => J) exec

/-- An implementation keeps an invariant of the state, whether it succeeds or not. -/
def Impl.Keeps (impl : Impl H) (P : Action.Contract Event) (code_it stack_top gas : Int)
    (I : ExecutionState → Prop) (exec : Exec H) : Prop :=
  match impl with
  | .nullptr => True
  | .void fn => Action.wlp P (fn stack_top) (fun _ e => I e.state) exec
  | .gas fn => Action.wlp P (fn stack_top gas) (fun _ e => I e.state) exec
  | .code fn => Action.wlp P (fn stack_top code_it) (fun _ e => I e.state) exec
  | .term fn => Action.wlp P (fn stack_top gas) (fun _ e => I e.state) exec

theorem Impl.Leaves.keeps {impl : Impl H} {P : Action.Contract Event} {code_it stack_top gas : Int}
    {I : ExecutionState → Prop} {J : Exec H → Prop} {exec : Exec H}
    (leaves : impl.Leaves P code_it stack_top gas J exec) (weaker : ∀ e, J e → I e.state) :
    impl.Keeps P code_it stack_top gas I exec := by
  cases impl with
  | nullptr => trivial
  | void fn => exact Action.wlp.mono leaves fun _ => weaker
  | gas fn => exact Action.wlp.mono leaves fun _ => weaker
  | code fn => exact Action.wlp.mono leaves fun _ => weaker
  | term fn => exact Action.wlp.mono leaves fun _ => weaker

theorem Impl.Keeps.ensures {impl : Impl H} {P : Action.Contract Event} {code_it stack_top gas : Int}
    {I : ExecutionState → Prop} {exec : Exec H} (set_status : ∀ {s} status, I s → I (s.set_status status))
    (keeps : impl.Keeps P code_it stack_top gas I exec) :
    impl.Ensures P code_it stack_top gas (fun e => I e.state) exec := by
  cases impl with
  | nullptr => trivial
  | void fn => exact keeps
  | gas fn => exact Action.wlp.mono keeps fun _ _ inv _ => inv
  | code fn => exact Action.wlp.mono keeps fun _ _ inv _ => inv
  | term fn => exact Action.wlp.mono keeps fun _ _ inv _ => set_status _ inv

/-- The stack has what an instruction needs, and room for what it pushes. -/
structure Fits (op : Opcode) (stack_top : Int) : Prop where
  room : stack_height_change op > 0 → stack_top ≠ 1024
  operands : stack_height_required op > 0 → stack_height_required op ≤ stack_top

theorem height_bounds (op : Opcode) : stack_height_change op ≤ 1 ∧ 0 ≤ stack_height_required op ∧
    0 ≤ stack_height_required op + stack_height_change op := by
  cases op with
  | LOG n =>
    show -((n.val : Int) + 2) ≤ 1 ∧ 0 ≤ (n.val : Int) + 2 ∧ 0 ≤ (n.val : Int) + 2 + -(n.val + 2)
    omega
  | DUP n =>
    show (1 : Int) ≤ 1 ∧ 0 ≤ (n.val : Int) + 1 ∧ 0 ≤ (n.val : Int) + 1 + 1
    omega
  | SWAP n =>
    show (0 : Int) ≤ 1 ∧ 0 ≤ (n.val : Int) + 2 ∧ 0 ≤ (n.val : Int) + 2 + 0
    omega
  | PUSH n =>
    show (1 : Int) ≤ 1 ∧ (0 : Int) ≤ 0 ∧ (0 : Int) ≤ 0 + 1
    omega
  | _ => decide

theorem Fits.range {op : Opcode} {h : Int} (fits : Fits op h) (nonneg : 0 ≤ h) (bound : h ≤ 1024) :
    0 ≤ h + stack_height_change op ∧ h + stack_height_change op ≤ 1024 := by
  obtain ⟨one, required, net⟩ := height_bounds op
  have room := fits.room
  have operands := fits.operands
  constructor
  · by_cases needs : stack_height_required op > 0
    · have := operands needs
      omega
    · omega
  · by_cases grows : stack_height_change op > 0
    · have := room grows
      omega
    · omega

/-- `check_requirements` has nothing against the instruction. -/
structure Meets (cost_table : Opcode → Int) (op : Opcode) (stack_top : Int) : Prop
    extends Fits op stack_top where
  defined : has_const_gas_cost op = true ∨ 0 ≤ cost_table op

/-- The instructions that only EOF code has. -/
def eof_opcodes : List Opcode :=
  [.RJUMP, .RJUMPI, .RJUMPV, .CALLF, .RETF, .JUMPF, .DATALOAD, .DATALOADN, .DATASIZE, .DATACOPY]

theorem legacy_meets {rev : Revision} {op : Opcode} {h : Int}
    (meets : Meets (legacy_cost_table rev) op h) : op ∉ eof_opcodes := by
  have undefined_ : ∀ op ∈ eof_opcodes, has_const_gas_cost op = false ∧
      ∀ rev ∈ Revision.all, legacy_cost_table rev op < 0 := by decide
  have known : rev ∈ Revision.all := by cases rev <;> simp [Revision.all]
  intro member
  obtain ⟨varies, negative⟩ := undefined_ op member
  rcases meets.defined with const | nonneg
  · rw [varies] at const
    contradiction
  · have := negative rev known
    omega

theorem check_requirements_success {cost_table : Opcode → Int} {gas stack_top : Int} {op : Opcode}
    (success : (check_requirements cost_table gas stack_top (some op)).1 = .SUCCESS) :
    Meets cost_table op stack_top ∧
      0 ≤ int64 (gas - base_cost cost_table op) ∧
      (check_requirements cost_table gas stack_top (some op)).2 =
        int64 (gas - base_cost cost_table op) := by
  unfold check_requirements at success ⊢
  simp only at success ⊢
  split_ifs at success ⊢ with undefined_ overflow underflow out_of_gas
  refine ⟨⟨⟨?_, ?_⟩, ?_⟩, not_lt.mp out_of_gas, rfl⟩
  · exact fun grows full => overflow ⟨grows, full⟩
  · intro needs
    by_contra short
    exact underflow ⟨needs, by omega⟩
  · by_cases const : has_const_gas_cost op = true
    · exact Or.inl const
    · right
      have cost : base_cost cost_table op = cost_table op := if_neg const
      rw [cost] at undefined_
      by_contra negative
      exact undefined_ ⟨const, not_le.mp negative⟩

theorem Meets.success {cost_table : Opcode → Int} {gas stack_top : Int} {op : Opcode}
    (meets : Meets cost_table op stack_top) (paid : 0 ≤ int64 (gas - base_cost cost_table op)) :
    (check_requirements cost_table gas stack_top (some op)).1 = .SUCCESS := by
  have defined : ¬ (¬ has_const_gas_cost op ∧ base_cost cost_table op < 0) := by
    rintro ⟨const, negative⟩
    rw [base_cost, if_neg const] at negative
    exact absurd (meets.defined.resolve_left const) (not_le.mpr negative)
  have room : ¬ (stack_height_change op > 0 ∧ stack_top = 1024) := fun full => meets.room full.1 full.2
  have operands : ¬ (stack_height_required op > 0 ∧ stack_top ≤ stack_height_required op - 1) := by
    rintro ⟨needs, short⟩
    have := meets.operands needs
    omega
  unfold check_requirements
  simp only [if_neg defined, if_neg room, if_neg operands, if_neg (not_lt.mpr paid)]

section
variable {P : Action.Contract Event} {exec : Exec H}

@[simp] theorem wlp_set_status {status : StatusCode} {Q : Unit → Exec H → Prop} :
    Action.wlp P (set_status status) Q exec ↔
      Q () { exec with state := exec.state.set_status status } := by
  simp [set_status]

theorem Impl.Ensures.invoke_impl {impl : Impl H} {code_it stack_top gas : Int} {Q : Exec H → Prop}
    (ensures : impl.Ensures P code_it stack_top gas Q exec) :
    Action.wlp P (EvmAssigner.invoke_impl impl code_it stack_top gas)
      (fun next e => next.1 ≠ none ∨ e.state.status = .SUCCESS → Q e) exec := by
  cases impl with
  | nullptr =>
    simp [EvmAssigner.invoke_impl]
  | void fn =>
    simp only [EvmAssigner.invoke_impl, Action.wlp_bind, Action.wlp_pure]
    exact Action.wlp.mono ensures fun _ _ q _ => q
  | gas fn =>
    simp only [EvmAssigner.invoke_impl, Action.wlp_bind]
    refine Action.wlp.mono ensures ?_
    intro o e success
    by_cases status : o.status = .SUCCESS
    · simpa [status] using success status
    · simp [status]
  | code fn =>
    simp only [EvmAssigner.invoke_impl, Action.wlp_bind, Action.wlp_pure]
    exact ensures
  | term fn =>
    simp only [EvmAssigner.invoke_impl, Action.wlp_bind]
    refine Action.wlp.mono ensures ?_
    intro o e success
    by_cases status : o.status = .SUCCESS
    · simpa [status] using success status
    · simp [status]

theorem Impl.Leaves.invoke_impl {impl : Impl H} {code_it stack_top gas : Int} {J : Exec H → Prop}
    (set_status : ∀ e status, J e → J { e with state := e.state.set_status status }) (start : J exec)
    (leaves : impl.Leaves P code_it stack_top gas J exec) :
    Action.wlp P (EvmAssigner.invoke_impl impl code_it stack_top gas) (fun _ => J) exec := by
  cases impl with
  | nullptr =>
    simp only [EvmAssigner.invoke_impl, Action.wlp_bind, wlp_set_status, Action.wlp_pure]
    exact set_status _ _ start
  | void fn =>
    simp only [EvmAssigner.invoke_impl, Action.wlp_bind, Action.wlp_pure]
    exact leaves
  | gas fn =>
    simp only [EvmAssigner.invoke_impl, Action.wlp_bind, Action.wlp_ite, Action.wlp_pure, wlp_set_status]
    exact Action.wlp.mono leaves fun _ _ inv => ⟨fun _ => set_status _ _ inv, fun _ => inv⟩
  | code fn =>
    simp only [EvmAssigner.invoke_impl, Action.wlp_bind, Action.wlp_pure]
    exact leaves
  | term fn =>
    simp only [EvmAssigner.invoke_impl, Action.wlp_bind, Action.wlp_pure, wlp_set_status]
    exact Action.wlp.mono leaves fun _ _ inv => set_status _ _ inv

theorem Impl.Keeps.invoke_impl {impl : Impl H} {code_it stack_top gas : Int}
    {I : ExecutionState → Prop} (set_status : ∀ {s} status, I s → I (s.set_status status))
    (inv : I exec.state) (keeps : impl.Keeps P code_it stack_top gas I exec) :
    Action.wlp P (EvmAssigner.invoke_impl impl code_it stack_top gas) (fun _ e => I e.state) exec :=
  Impl.Leaves.invoke_impl (J := fun e => I e.state) (fun _ status => set_status status) inv
    (by cases impl <;> exact keeps)

section
variable {host : Host H} {cost_table : Opcode → Int} {code_it stack_top gas : Int}

theorem wlp_void {fn : Int → Instr H Unit} {Q : Option Int × Int → Exec H → Prop}
    (h : Action.wlp P (fn stack_top) (fun _ e => Q (some (code_it + 1), gas) e) exec) :
    Action.wlp P (EvmAssigner.invoke_impl (.void fn) code_it stack_top gas) Q exec := by
  simpa only [EvmAssigner.invoke_impl, Action.wlp_bind, Action.wlp_pure] using h

theorem wlp_code {fn : Int → Int → Instr H (Option Int)} {Q : Option Int × Int → Exec H → Prop}
    (h : Action.wlp P (fn stack_top code_it) (fun next e => Q (next, gas) e) exec) :
    Action.wlp P (EvmAssigner.invoke_impl (.code fn) code_it stack_top gas) Q exec := by
  simpa only [EvmAssigner.invoke_impl, Action.wlp_bind, Action.wlp_pure] using h

theorem wlp_term {fn : Int → Int → Instr H InstructionResult} {Q : Option Int × Int → Exec H → Prop}
    (h : Action.wlp P (fn stack_top gas) (fun o e =>
      Q (none, o.gas_left) { e with state := e.state.set_status o.status }) exec) :
    Action.wlp P (EvmAssigner.invoke_impl (.term fn) code_it stack_top gas) Q exec := by
  simpa only [EvmAssigner.invoke_impl, Action.wlp_bind, Action.wlp_pure, wlp_set_status] using h

theorem check_requirements_status {cost_table : Opcode → Int} {op : Option Opcode} :
    (check_requirements cost_table gas stack_top op).1 ≠ .REVERT := by
  unfold check_requirements
  cases op with
  | none =>
    simp only
    split_ifs <;> simp
  | some op =>
    simp only
    split_ifs <;> simp

variable [Ethash] [Calm P]

/-- To see where a turn leads it is enough to look at the instruction that is executed. -/
theorem wlp_turn_leads {J : Next → Exec H → Prop}
    (reads : P.Ignores (.code_access (exec.state.analysis.offset + code_it)
      exec.state.analysis.buffer.length))
    (fails : ∀ status left, status ≠ .SUCCESS → status ≠ .REVERT →
      J ⟨none, stack_top, left⟩ { exec with state := exec.state.set_status status })
    (each : ∀ op, Opcode.of_byte (exec.state.analysis.code_at code_it) = some op →
      P.assumes (.step (exec.state.analysis.code_at code_it) stack_top gas exec.state) →
      Meets cost_table op stack_top → 0 ≤ int64 (gas - base_cost cost_table op) →
      Action.wlp P (EvmAssigner.invoke_impl (map_opcodes host op) code_it stack_top
          (int64 (gas - base_cost cost_table op)))
        (fun next e => J ⟨next.1, stack_top + stack_height_change op, next.2⟩ e) exec) :
    Action.wlp P (turn host cost_table code_it stack_top gas) J exec := by
  unfold turn read_code
  simp only [Action.wlp_bind, wlp_on_state, Action.wlp_get, Action.wlp_pure,
    Action.wlp_emit_ignored reads]
  refine Action.wlp_emit.mpr fun step => ⟨Calm.step _ _ _ _, ?_⟩
  generalize exec.state.analysis.code_at code_it = byte at step each ⊢
  unfold invoke requirement_assertions
  simp only [Action.wlp_bind, wlp_on_state, wlp_assert_that]
  have legitimate :
      (check_requirements cost_table gas stack_top (Opcode.of_byte byte)).1 ≠ .REVERT :=
    check_requirements_status
  cases name : Opcode.of_byte byte with
  | none =>
    rw [name] at legitimate
    by_cases success : (check_requirements cost_table gas stack_top none).1 = .SUCCESS
    · simpa [success] using fails .UNDEFINED_INSTRUCTION _ (by decide) (by decide)
    · simpa [success] using fails _ _ success legitimate
  | some op =>
    rw [name] at legitimate
    by_cases success : (check_requirements cost_table gas stack_top (some op)).1 = .SUCCESS
    · obtain ⟨meets, paid, left⟩ := check_requirements_success success
      simp only [success, ne_eq, not_true_eq_false, if_false, Action.wlp_bind, Action.wlp_pure]
      rw [left]
      exact each op name step meets paid
    · simpa [success] using fails _ _ success legitimate

/-- A turn whose instruction meets its requirements does what the instruction does. -/
theorem wlp_turn_success {J : Next → Exec H → Prop} {op : Opcode}
    (reads : P.Ignores (.code_access (exec.state.analysis.offset + code_it)
      exec.state.analysis.buffer.length))
    (name : Opcode.of_byte (exec.state.analysis.code_at code_it) = some op)
    (success : (check_requirements cost_table gas stack_top (some op)).1 = .SUCCESS)
    (each : Action.wlp P (EvmAssigner.invoke_impl (map_opcodes host op) code_it stack_top
        (int64 (gas - base_cost cost_table op)))
      (fun next e => J ⟨next.1, stack_top + stack_height_change op, next.2⟩ e) exec) :
    Action.wlp P (turn host cost_table code_it stack_top gas) J exec := by
  obtain ⟨_, _, left⟩ := check_requirements_success success
  simp only [turn, read_code, invoke, requirement_assertions, Action.wlp_bind, wlp_on_state, Action.wlp_get,
    Action.wlp_pure, Action.wlp_emit_ignored reads, wlp_assert_that, name, success, ne_eq, not_true_eq_false,
    if_false, left]
  exact Action.wlp_emit.mpr fun _ => ⟨Calm.step _ _ _ _, each⟩

theorem wp_turn {J : Next → Exec H → Prop} {op : Opcode}
    (name : Opcode.of_byte (exec.state.analysis.code_at code_it) = some op)
    (success : (check_requirements cost_table gas stack_top (some op)).1 = .SUCCESS)
    (each : Action.wp (EvmAssigner.invoke_impl (map_opcodes host op) code_it stack_top
        (int64 (gas - base_cost cost_table op)))
      (fun next e => J ⟨next.1, stack_top + stack_height_change op, next.2⟩ e) exec) :
    Action.wp (turn host cost_table code_it stack_top gas) J exec := by
  obtain ⟨_, _, left⟩ := check_requirements_success success
  simp only [turn, invoke, requirement_assertions, Action.wp_bind, wp_on_state, wp_read_code,
    Action.wp_get, Action.wp_emit, wp_assert_that, name, success, ne_eq, not_true_eq_false, if_false,
    Action.wp_pure, left]
  exact each

theorem wp_turn_fails {J : Next → Exec H → Prop} {op : Opcode}
    (name : Opcode.of_byte (exec.state.analysis.code_at code_it) = some op)
    (failure : (check_requirements cost_table gas stack_top (some op)).1 ≠ .SUCCESS)
    (each : ∀ status left, J ⟨none, stack_top, left⟩ { exec with state := exec.state.set_status status }) :
    Action.wp (turn host cost_table code_it stack_top gas) J exec := by
  simp only [turn, invoke, requirement_assertions, Action.wp_bind, wp_on_state, wp_read_code,
    Action.wp_get, Action.wp_emit, wp_assert_that, name, ne_eq, failure, not_false_eq_true, if_true,
    set_status, Action.wp_modify, Action.wp_pure]
  exact each _ _

omit [Calm P] in
/-- What a run promises, when every turn of its loop keeps an invariant. -/
theorem Run.invariant {I : Config H → Prop} {c c' : Config H} {es : List Event}
    (each : ∀ c code_it, c.code_it = some code_it → I c →
      Action.wlp P (turn host cost_table code_it c.stack_top c.gas) (fun next e =>
        next.code_it ≠ none ∨ e.state.status = .SUCCESS →
          I ⟨next.code_it, next.stack_top, next.gas, e⟩) c.exec)
    (run : Run host cost_table c es c') (all : ∀ e ∈ es, P.assumes e) (start : I c) :
    (∀ e ∈ es, P.ensures e) ∧ I c' := by
  induction run with
  | start => exact ⟨fun e member => absurd member List.not_mem_nil, start⟩
  | @next es es' c' c'' run executes ih =>
    obtain ⟨succeeds, code_it, at_it, h⟩ := executes
    obtain ⟨ensured, reached⟩ := ih fun e member => all e (List.mem_append_left _ member)
    have turned := each c' code_it at_it reached
    obtain ⟨ensured', inv⟩ :=
      turned.returns_of_eq h fun e member => all e (List.mem_append_right _ member)
    refine ⟨fun e member => ?_, inv succeeds⟩
    rcases List.mem_append.mp member with early | late
    · exact ensured e early
    · exact ensured' e late

/-- The loop leaves the events of its turns behind, one turn after the other. -/
theorem Run.dispatch_events {c c' : Config H} {es : List Event} {pos' : Int} (run : Run host cost_table c es c')
    (at_it : c'.code_it = some pos') : ∃ n pos, c.code_it = some pos ∧ ∀ fuel,
      (dispatch host cost_table (n + fuel) pos c.stack_top c.gas).events c.exec =
        es ++ (dispatch host cost_table fuel pos' c'.stack_top c'.gas).events c'.exec := by
  induction run generalizing pos' with
  | start => exact ⟨0, pos', at_it, fun fuel => by rw [Nat.zero_add, List.nil_append]⟩
  | @next es es' c' c'' _ executes ih =>
    obtain ⟨_, code_it, at_code, turned⟩ := executes
    obtain ⟨n, pos, at_pos, same⟩ := ih at_code
    refine ⟨n + 1, pos, at_pos, fun fuel => ?_⟩
    have returns : (turn host cost_table code_it c'.stack_top c'.gas c'.exec).2 =
        some (⟨c''.code_it, c''.stack_top, c''.gas⟩, c''.exec) := by rw [turned]
    have events : (turn host cost_table code_it c'.stack_top c'.gas).events c'.exec = es' := by
      rw [Action.events, turned]
    rw [Nat.add_assoc, same, Nat.add_comm 1, dispatch, Action.events_bind returns, events, List.append_assoc]
    simp only [at_it]

omit [Calm P] in
/-- What a whole run of the loop promises, when every turn keeps an invariant. -/
theorem wlp_dispatch {I : Int → Int → Int → Exec H → Prop} {fuel : Nat}
    (each : ∀ code_it stack_top gas exec, I code_it stack_top gas exec →
      Action.wlp P (turn host cost_table code_it stack_top gas) (fun next e =>
        ∀ code_it', next.code_it = some code_it' → I code_it' next.stack_top next.gas e) exec)
    (start : I code_it stack_top gas exec) :
    Action.wlp P (dispatch host cost_table fuel code_it stack_top gas) (fun _ _ => True) exec := by
  induction fuel generalizing code_it stack_top gas exec with
  | zero => exact Action.wlp_unfinished
  | succ fuel ih =>
    rw [dispatch, Action.wlp_bind]
    refine (each _ _ _ _ start).mono fun next e inv => ?_
    cases at_it : next.code_it with
    | none => exact Action.wlp_pure.mpr trivial
    | some code_it' => exact ih (inv code_it' at_it)

variable [CodeQuiet P]

theorem wlp_turn {J : Int → Exec H → Prop}
    (each : ∀ byte op left, Opcode.of_byte byte = some op →
      P.assumes (.step byte stack_top gas exec.state) → Meets cost_table op stack_top →
      (map_opcodes host op).Ensures P code_it stack_top left
        (J (stack_top + stack_height_change op)) exec) :
    Action.wlp P (turn host cost_table code_it stack_top gas)
      (fun next e => next.code_it ≠ none ∨ e.state.status = .SUCCESS → J next.stack_top e) exec := by
  refine wlp_turn_leads (CodeQuiet.code_access _ _) ?_ fun op name step meets _ =>
    (each _ op _ name step meets).invoke_impl
  intro status left failure _ success
  rcases success with going | success
  · exact absurd rfl going
  · exact absurd success failure

/-- What every instruction keeps, succeed or not, a whole run keeps. -/
theorem dispatch_keeps {I : ExecutionState → Prop} {fuel : Nat}
    (set_status : ∀ {s} status, I s → I (s.set_status status))
    (each : ∀ op code_it stack_top gas (exec : Exec H), I exec.state →
      (map_opcodes host op).Keeps P code_it stack_top gas I exec) (start : I exec.state) :
    Action.wlp P (dispatch host cost_table fuel code_it stack_top gas) (fun _ e => I e.state) exec := by
  induction fuel generalizing code_it stack_top gas exec with
  | zero => exact Action.wlp_unfinished
  | succ fuel ih =>
    have turned : Action.wlp P (turn host cost_table code_it stack_top gas) (fun _ e => I e.state) exec :=
      wlp_turn_leads (J := fun _ e => I e.state) (CodeQuiet.code_access _ _)
        (fun status _ _ _ => set_status status start)
        fun op _ _ _ _ => (each op _ _ _ _ start).invoke_impl set_status start
    rw [dispatch, Action.wlp_bind]
    refine turned.mono fun next e inv => ?_
    cases next.code_it with
    | none => exact Action.wlp_pure.mpr inv
    | some code_it' => exact ih inv

/-- What every instruction promises, every run of the loop does. -/
theorem dispatch_promises {fuel : Nat}
    (each : ∀ byte op code_it stack_top gas left exec, Opcode.of_byte byte = some op →
      P.assumes (.step byte stack_top gas exec.state) →
      (map_opcodes host op).Ensures P code_it stack_top left (fun _ => True) exec)
    (assumed : ∀ e ∈ (dispatch host cost_table fuel code_it stack_top gas).events exec, P.assumes e) :
    ∀ e ∈ (dispatch host cost_table fuel code_it stack_top gas).events exec, P.ensures e := by
  have run : Action.wlp P (dispatch host cost_table fuel code_it stack_top gas) (fun _ _ => True) exec := by
    refine wlp_dispatch (I := fun _ _ _ _ => True) (fun _ _ _ _ _ => ?_) trivial
    exact (wlp_turn (J := fun _ _ => True) fun byte op left name step _ =>
      each byte op _ _ _ left _ name step).mono fun _ _ _ _ _ => trivial
  exact (Action.Contract.After.ensures run assumed).1

/-- What every instruction preserves holds wherever a run gets to, and so do its promises. -/
theorem Run.preserves {I : Int → Exec H → Prop} {c c' : Config H} {es : List Event}
    (each : ∀ byte op code_it stack_top gas left exec, Opcode.of_byte byte = some op →
      P.assumes (.step byte stack_top gas exec.state) → Meets cost_table op stack_top →
      I stack_top exec → (map_opcodes host op).Ensures P code_it stack_top left
        (I (stack_top + stack_height_change op)) exec)
    (run : Run host cost_table c es c') (all : ∀ e ∈ es, P.assumes e)
    (start : I c.stack_top c.exec) : (∀ e ∈ es, P.ensures e) ∧ I c'.stack_top c'.exec :=
  run.invariant (I := fun c => I c.stack_top c.exec) (fun _ code_it _ reached =>
    wlp_turn fun byte op left name step meets => each byte op code_it _ _ left _ name step meets reached)
    all start

end
end

/-- A hash function for code that does not hash, and a host for code that does not ask. -/
abbrev no_hash : Ethash := ⟨fun _ => 0⟩

def empty_host : Host Unit where
  account_exists _ := pure false
  get_storage _ _ := pure 0
  set_storage _ _ _ := pure .ASSIGNED
  get_balance _ := pure 0
  get_code_size _ := pure 0
  get_code_hash _ := pure 0
  copy_code _ _ _ := pure []
  selfdestruct _ _ := pure false
  call _ := pure ⟨.FAILURE, 0, 0, [], 0⟩
  get_tx_context := pure {}
  get_block_hash _ := pure 0
  access_account _ := pure .WARM
  access_storage _ _ := pure .WARM
  get_transient_storage _ _ := pure 0
  set_transient_storage _ _ _ := pure ()

/-- A frame on legacy code with `gas`. -/
def code_config (rev : Revision) (code : Bytes) (gas : Int) : Config Unit :=
  .start (.new { gas := gas } rev code [] 0 (analyze_legacy code) fun _ => 0) ()

end EvmAssigner
