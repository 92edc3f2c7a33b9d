import EvmAssigner.Confinement

namespace EvmAssigner
variable {H : Type}

/-- The bytes an instruction takes up, with those it carries behind its opcode. -/
def Opcode.width : Opcode → Nat
  | PUSH n => n.val + 2
  | DUPN | SWAPN => 2
  | _ => 1

/-- Where an instruction of legacy code may lead from position `pos`. -/
inductive Leads (s : ExecutionState) (op : Opcode) (h pos : Int) : Option Int → Prop
  | stops : Leads s op h pos none
  | straight (going : op ≠ .STOP) : Leads s op h pos (some (pos + op.width))
  | jump (jumps : op = .JUMP ∨ op = .JUMPI ∧ 0 < (s.stack_space (h - 2)).to_uint64)
      (dest : s.analysis.jumpdest_map[(s.stack_space (h - 1)).to_uint64]? = some true) :
      Leads s op h pos (some (s.stack_space (h - 1)).to_uint64)

/-- Bytes of the code are read from the first one to the last of the padding. -/
def code_bounds (size : Nat) : Action.Contract Event where
  assumes _ := True
  ensures
    | .code_access index buffer => 0 ≤ index ∧ index ≤ size + 32 ∧ index < buffer
    | _ => True

instance (size : Nat) : Unwatched (code_bounds size) where
  assertion_failed _ := ⟨trivial, trivial⟩
  vector_access _ _ := ⟨trivial, trivial⟩
  step _ _ _ _ := trivial
  nested _ := trivial
  stack_access _ := ⟨trivial, trivial⟩
  memory_access _ _ _ := ⟨trivial, trivial⟩
  memory_within _ := ⟨trivial, trivial⟩
  storage_entry _ := trivial
  light_failure _ := trivial
  host_call _ _ _ := trivial
  host_output _ _ _ := trivial
  memory_entry _ _ := trivial

/-- The code that is executed is the one that was analysed. -/
theorem analysis_wide {P : Action.Contract Event} {analysis : CodeAnalysis} :
    Wide P fun s => s.analysis = analysis where
  record _ _ _ inv := inv
  push_storage _ _ _ _ _ inv := inv
  set_slot _ _ inv := inv
  set_status _ inv := inv
  set_return_data _ inv := inv
  set_output _ _ inv _ := inv
  set_call_stack _ inv := inv
  add_refund _ inv := inv
  set_tx _ inv := inv
  grow inv _ _ := inv
  host_output inv _ _ := inv
  store _ _ inv := inv
  push_memory _ _ _ inv := inv

/-- An implementation that does not return a code iterator goes on with the next byte, if at all. -/
theorem Impl.Ensures.straight {impl : Impl H} {P : Action.Contract Event} {code_it stack_top gas : Int}
    {Q : Exec H → Prop} {exec : Exec H} (plain : ∀ fn, impl ≠ .code fn)
    (ensures : impl.Ensures P code_it stack_top gas Q exec) :
    Action.wlp P (EvmAssigner.invoke_impl impl code_it stack_top gas) (fun next e =>
      (next.1 = none ∨ next.1 = some (code_it + 1)) ∧ (next.1 ≠ none → Q e)) exec := by
  cases impl with
  | nullptr => simp [EvmAssigner.invoke_impl]
  | void fn =>
    simp only [EvmAssigner.invoke_impl, Action.wlp_bind, Action.wlp_pure]
    exact Action.wlp.mono ensures fun _ _ q => ⟨Or.inr trivial, fun _ => q⟩
  | gas fn =>
    simp only [EvmAssigner.invoke_impl, Action.wlp_bind, Action.wlp_ite, Action.wlp_pure]
    refine Action.wlp.mono ensures fun o e success => ⟨fun _ => ?_, fun status => ?_⟩
    · exact wlp_set_status.mpr ⟨Or.inl trivial, fun going => absurd rfl going⟩
    · exact ⟨Or.inr trivial, fun _ => success (not_not.mp status)⟩
  | code fn => exact absurd rfl (plain fn)
  | term fn =>
    simp only [EvmAssigner.invoke_impl, Action.wlp_bind, Action.wlp_pure]
    exact Action.wlp.mono ensures fun o e _ =>
      wlp_set_status.mpr ⟨Or.inl trivial, fun going => absurd rfl going⟩

section
variable {analysis : CodeAnalysis} {s : ExecutionState} {h pos : Int} {n : Nat}

/-- A read of legacy code up to the end of the padding keeps within the buffer. -/
theorem code_bounds_ignores {code : Bytes} {index : Int} (lower : 0 ≤ index)
    (upper : index ≤ code.length + 32) : (code_bounds code.length).Ignores
      (.code_access ((analyze_legacy code).offset + index) (analyze_legacy code).buffer.length) := by
  refine ⟨trivial, ?_⟩
  show 0 ≤ (0 : Int) + index ∧ (0 : Int) + index ≤ (code.length : Int) + 32 ∧
    (0 : Int) + index < ((code ++ List.replicate (32 + 1) OP_STOP).length : Nat)
  rw [List.length_append, List.length_replicate]
  omega

variable {code : Bytes} (legacy : s.analysis = analyze_legacy code)
include legacy

theorem wlp_read_code_within {Q : UInt8 → ExecutionState → Prop} (lower : 0 ≤ pos)
    (upper : pos ≤ code.length + 32) (each : Q (s.analysis.code_at pos) s) :
    Action.wlp (code_bounds code.length) (read_code pos) Q s := by
  refine (wlp_read_code_ignored ?_).mpr each
  rw [legacy]
  exact code_bounds_ignores lower upper

/-- Over-wide loads included, the bytes are there. -/
theorem wlp_load_partial_within {r : Word} {data : Int} {len i : Nat}
    {Q : Word → ExecutionState → Prop} (lower : 0 ≤ data) (upper : data + bytes_read len ≤ code.length + 33)
    (each : ∀ r', Q r' s) : Action.wlp (code_bounds code.length) (load_partial_data r data len i) Q s := by
  refine wlp_load_partial_ignored (fun k within => ?_) each
  rw [legacy]
  exact code_bounds_ignores (by omega) (by omega)

theorem wlp_load_full_words_within {r : Word} {data : Int} {Q : Word → ExecutionState → Prop}
    (lower : 0 ≤ data) (upper : data + 8 * n ≤ code.length + 33) (each : ∀ r', Q r' s) :
    Action.wlp (code_bounds code.length) (load_full_words r data n) Q s := by
  refine wlp_load_full_words_ignored (fun k within => ?_) each
  rw [legacy]
  exact code_bounds_ignores (by omega) (by omega)

theorem push_leads {n : Fin 32} (lower : 0 ≤ pos) (upper : pos < code.length) :
    Action.wlp (code_bounds code.length) (push (n.val + 1) h pos) (fun next s' =>
      next = some (pos + (Opcode.PUSH n).width) ∧ s'.analysis = analyze_legacy code) s := by
  have last := n.isLt
  have record (r : Word) : Action.wlp (code_bounds code.length)
      (Action.forEach (fun i : Nat => record_stack (h + 1) i true)
        (List.range ((n.val + 1) / 32 + (n.val + 1) % 32)))
      (fun _ s' => s'.analysis = analyze_legacy code) (s.set_slot (h + 1 - 1 - 0) r) :=
    Action.wlp_forEach (I := fun _ (s' : ExecutionState) => s'.analysis = analyze_legacy code)
      (fun _ _ _ s' _ inv => wlp_record_stack.mpr inv) legacy
  have width : pos + (((n.val + 1 : Nat) : Int) + 1) = pos + (Opcode.PUSH n).width := by
    simp [Opcode.width, add_assoc]
  simp only [push, Action.wlp_bind, Action.wlp_ite, Action.wlp_pure, wlp_stack_set, width, true_and]
  refine ⟨fun part => wlp_load_partial_within legacy (by omega) ?_ fun _ =>
      wlp_load_full_words_within legacy (by omega) (by omega) record,
    fun _ => wlp_load_full_words_within legacy (by omega) (by omega) record⟩
  rw [bytes_read]
  split_ifs <;> omega

theorem dupn_leads (lower : 0 ≤ pos) (upper : pos < code.length) :
    Action.wlp (code_bounds code.length) (dupn h pos) (fun next s' =>
      (next = none ∧ s'.status = .STACK_UNDERFLOW ∨ next = some (pos + Opcode.DUPN.width)) ∧
        s'.analysis = analyze_legacy code) s := by
  simp only [dupn, Action.wlp_bind]
  refine wlp_read_code_within legacy (by omega) (by omega) ?_
  simp [dup_slot, push_word, fail_with, legacy, Opcode.width]

theorem swapn_leads (lower : 0 ≤ pos) (upper : pos < code.length) :
    Action.wlp (code_bounds code.length) (swapn h pos) (fun next s' =>
      (next = none ∧ s'.status = .STACK_UNDERFLOW ∨ next = some (pos + Opcode.SWAPN.width)) ∧
        s'.analysis = analyze_legacy code) s := by
  simp only [swapn, Action.wlp_bind]
  refine wlp_read_code_within legacy (by omega) (by omega) ?_
  simp [fail_with, legacy, Opcode.width]

end

section
variable {P : Action.Contract Event} [Lenient P] {s : ExecutionState} {dst : Word}

theorem getD_marked {map : List Bool} {j : Nat} : map.getD j false = true ↔ map[j]? = some true := by
  rw [List.getD_eq_getElem?_getD]
  cases map[j]? with
  | none => simp
  | some marked => simp

/-- The bitmap decides whether a jump is taken. -/
theorem wlp_jump_impl {Q : Option Int → ExecutionState → Prop}
    (valid : s.analysis.jumpdest_map[dst.to_uint64]? = some true → Q (some dst.to_uint64) s)
    (invalid : s.analysis.jumpdest_map[dst.to_uint64]? ≠ some true →
      Q none (s.set_status .BAD_JUMP_DESTINATION)) : Action.wlp P (jump_impl dst) Q s := by
  simp only [jump_impl, fail_with, Action.wlp_bind, Action.wlp_get, Action.wlp_ite, Action.wlp_modify,
    Action.wlp_pure, Action.wlp_emit_ignored (VectorQuiet.vector_access _ _), Bool.not_eq_true',
    ← Bool.not_eq_true, getD_marked, not_not]
  refine ⟨fun past => invalid ?_, fun _ => ⟨invalid, valid⟩⟩
  rw [List.getElem?_eq_none past]
  simp

end

section
variable {s : ExecutionState} {h pos : Int} {code : Bytes} (legacy : s.analysis = analyze_legacy code)
include legacy

theorem pc_leads : Action.wlp (code_bounds code.length) (pc h pos) (fun next s' =>
    next = some (pos + Opcode.PC.width) ∧ s'.analysis = analyze_legacy code) s := by
  simp [pc, push_word, legacy, Opcode.width]

theorem jump_leads : Action.wlp (code_bounds code.length) (jump h pos) (fun next s' =>
    Leads s .JUMP h pos next ∧ s'.analysis = analyze_legacy code) s := by
  have top : h - 1 - 0 = h - 1 := by omega
  simp only [jump, Action.wlp_bind, wlp_record_stack, wlp_stack_get, top]
  exact wlp_jump_impl (fun valid => ⟨.jump (Or.inl rfl) valid, legacy⟩) fun _ => ⟨.stops, legacy⟩

theorem jumpi_leads : Action.wlp (code_bounds code.length) (jumpi h pos) (fun next s' =>
    Leads s .JUMPI h pos next ∧ s'.analysis = analyze_legacy code) s := by
  have top : h - 1 - 0 = h - 1 := by omega
  have second : h - 1 - 1 - 0 = h - 2 := by omega
  simp only [jumpi, Action.wlp_bind, wlp_record_stack, wlp_stack_get, Action.wlp_ite, Action.wlp_pure,
    top, second]
  refine ⟨fun taken => ?_, fun _ => ⟨.straight (by simp), legacy⟩⟩
  exact wlp_jump_impl (fun valid => ⟨.jump (Or.inr ⟨rfl, taken⟩) valid, legacy⟩)
    fun _ => ⟨.stops, legacy⟩

end

section
variable [Ethash] {host : Host H} {exec : Exec H} {op : Opcode} {h pos left : Int} {code : Bytes}
  (legacy : exec.state.analysis = analyze_legacy code)
include legacy

theorem straight_leads (plain : ∀ fn, map_opcodes host op ≠ .code fn) (width : op.width = 1)
    (going : op ≠ .STOP) (code_free : op.reads_code = false) :
    Action.wlp (code_bounds code.length) (invoke_impl (map_opcodes host op) pos h left) (fun next e =>
      Leads exec.state op h pos next.1 ∧
        (next.1 ≠ none → e.state.analysis = analyze_legacy code)) exec := by
  have keeps : (map_opcodes host op).Keeps (code_bounds code.length) pos h left _ exec :=
    analysis_wide.step (fun reads => by simp [code_free] at reads) legacy
  refine ((keeps.ensures fun _ inv => inv).straight plain).mono fun next e both => ⟨?_, both.2⟩
  rcases both.1 with none | next
  · rw [none]
    exact .stops
  · have straight : Leads exec.state op h pos (some (pos + op.width)) := .straight going
    rw [width] at straight
    rw [next]
    exact straight

theorem legacy_leads (apart : op ∉ eof_opcodes) (lower : 0 ≤ pos)
    (within : op ≠ .STOP → pos < code.length) :
    Action.wlp (code_bounds code.length) (invoke_impl (map_opcodes host op) pos h left) (fun next e =>
      Leads exec.state op h pos next.1 ∧
        (next.1 ≠ none → e.state.analysis = analyze_legacy code)) exec := by
  cases op with
  | STOP =>
    refine wlp_term (wlp_on_state.mpr (Action.wlp_pure.mpr ⟨.stops, fun going => absurd rfl going⟩))
  | PUSH n =>
    refine wlp_code (wlp_on_state.mpr ((push_leads legacy lower (within (by simp))).mono ?_))
    rintro _ s' ⟨rfl, same⟩
    exact ⟨.straight (by simp), fun _ => same⟩
  | DUPN =>
    refine wlp_code (wlp_on_state.mpr ((dupn_leads legacy lower (within (by simp))).mono ?_))
    rintro _ s' ⟨⟨rfl, _⟩ | rfl, same⟩
    · exact ⟨.stops, fun _ => same⟩
    · exact ⟨.straight (by simp), fun _ => same⟩
  | SWAPN =>
    refine wlp_code (wlp_on_state.mpr ((swapn_leads legacy lower (within (by simp))).mono ?_))
    rintro _ s' ⟨⟨rfl, _⟩ | rfl, same⟩
    · exact ⟨.stops, fun _ => same⟩
    · exact ⟨.straight (by simp), fun _ => same⟩
  | PC =>
    refine wlp_code (wlp_on_state.mpr ((pc_leads legacy).mono ?_))
    rintro _ s' ⟨rfl, same⟩
    exact ⟨.straight (by simp), fun _ => same⟩
  | JUMP =>
    exact wlp_code (wlp_on_state.mpr ((jump_leads legacy).mono fun _ _ both => ⟨both.1, fun _ => both.2⟩))
  | JUMPI =>
    exact wlp_code (wlp_on_state.mpr ((jumpi_leads legacy).mono fun _ _ both => ⟨both.1, fun _ => both.2⟩))
  | LOG n =>
    by_cases one : n.val = 1
    · exact straight_leads legacy (by simp [map_opcodes, one]) rfl (by simp) rfl
    · exact straight_leads legacy (by simp [map_opcodes, one]) rfl (by simp) rfl
  | RJUMP | RJUMPI | RJUMPV | CALLF | RETF | JUMPF | DATALOAD | DATALOADN | DATASIZE | DATACOPY =>
    exact (apart (by decide)).elim
  | _ => exact straight_leads legacy (by simp [map_opcodes]) rfl (by simp) rfl

end

theorem legacy_code_at {code : Bytes} {pos : Int} (lower : 0 ≤ pos) :
    (analyze_legacy code).code_at pos =
      if pos < code.length then code.getD pos.toNat 0 else OP_STOP := by
  have here : (analyze_legacy code).offset + pos = pos := by
    show (0 : Int) + pos = pos
    omega
  rw [CodeAnalysis.code_at, here, if_pos lower]
  show (pad_code code).getD pos.toNat 0 = _
  rw [pad_code_getD]
  by_cases within : pos < code.length
  · rw [if_pos within, if_pos (by omega)]
  · rw [if_neg within, if_neg (by omega)]

/-- A frame on legacy code stands on a byte of it, or of its padding. -/
def Positioned (code : Bytes) (c : Config H) : Prop :=
  ∀ pos, c.code_it = some pos →
    0 ≤ pos ∧ pos ≤ code.length + 32 ∧ c.exec.state.analysis = analyze_legacy code

/-- An instruction leads from one byte to another. -/
def Moves (code : Bytes) (c : Config H) (pos' : Int) : Prop :=
  ∃ pos op, c.code_it = some pos ∧ 0 ≤ pos ∧ pos < code.length ∧
    Opcode.of_byte (code.getD pos.toNat 0) = some op ∧ Leads c.exec.state op c.stack_top pos (some pos')

section
variable [Ethash] {host : Host H} {rev : Revision} {code : Bytes}

omit [Ethash] in
theorem Opcode.width_le (op : Opcode) : 1 ≤ op.width ∧ op.width ≤ 33 := by
  cases op with
  | PUSH n =>
    show 1 ≤ n.val + 2 ∧ n.val + 2 ≤ 33
    omega
  | DUP n | SWAP n | LOG n =>
    show 1 ≤ 1 ∧ 1 ≤ 33
    decide
  | _ => decide

theorem legacy_turn {c : Config H} {pos : Int} (positioned : Positioned code c)
    (at_it : c.code_it = some pos) :
    Action.wlp (code_bounds code.length) (turn host (legacy_cost_table rev) pos c.stack_top c.gas)
      (fun next e => ∀ pos', next.code_it = some pos' →
        e.state.analysis = analyze_legacy code ∧ Moves code c pos') c.exec := by
  obtain ⟨lower, upper, legacy⟩ := positioned pos at_it
  refine wlp_turn_leads ?_ ?_ fun op name _ meets _ => ?_
  · rw [legacy]
    exact code_bounds_ignores lower upper
  · intro status left _ _ pos' going
    contradiction
  · rw [legacy, legacy_code_at lower] at name
    have within (other : op ≠ .STOP) : pos < code.length := by
      by_contra past
      rw [if_neg past] at name
      exact other (Option.some.inj name).symm
    refine (legacy_leads legacy (legacy_meets meets) lower within).mono fun next e both pos' going => ?_
    replace going : next.1 = some pos' := going
    rw [going] at both
    have other : op ≠ .STOP := by
      rintro rfl
      rcases both.1 with _ | other | ⟨jumps | jumps, _⟩
      · exact other rfl
      · contradiction
      · exact absurd jumps.1 (by decide)
    rw [if_pos (within other)] at name
    exact ⟨both.2 (by simp), pos, op, at_it, lower, within other, name, both.1⟩

omit [Ethash] in
theorem jumpdest_within {j : Nat} (valid : (analyze_legacy code).jumpdest_map[j]? = some true) :
    j < code.length := by
  have within := (List.getElem?_eq_some_iff.mp valid).1
  rwa [show (analyze_legacy code).jumpdest_map = analyze_jumpdests code from rfl,
    analyze_jumpdests_length] at within

omit [Ethash] in
theorem Moves.range {c : Config H} {pos' : Int} (positioned : Positioned code c)
    (moves : Moves code c pos') : 0 ≤ pos' ∧ pos' ≤ code.length + 32 := by
  obtain ⟨pos, op, at_it, lower, upper, _, leads⟩ := moves
  have legacy := (positioned pos at_it).2.2
  have widths := op.width_le
  rcases leads with _ | _ | ⟨_, dest⟩
  · omega
  · rw [legacy] at dest
    have within := jumpdest_within dest
    omega

omit [Ethash] in
theorem Positioned.start {msg : Message} {call_id : Nat} {heap : Nat → UInt8} {h : H} :
    Positioned code (.start (.new msg rev code [] call_id (analyze_legacy code) heap) h) := by
  intro pos at_it
  obtain rfl : 0 = pos := Option.some.inj at_it
  exact ⟨le_rfl, by omega, rfl⟩

theorem Positioned.executes {c c' : Config H} {es : List Event} (positioned : Positioned code c)
    (executes : Executes host (legacy_cost_table rev) c es c') :
    Positioned code c' ∧ ∀ pos', c'.code_it = some pos' → Moves code c pos' := by
  obtain ⟨_, pos, at_it, h⟩ := executes
  have turned := (legacy_turn positioned at_it).returns_of_eq h fun _ _ => trivial
  refine ⟨fun pos' going => ?_, fun pos' going => (turned.2 pos' going).2⟩
  obtain ⟨same, moves⟩ := turned.2 pos' going
  exact ⟨(moves.range positioned).1, (moves.range positioned).2, same⟩

theorem Positioned.run {c c' : Config H} {es : List Event} (positioned : Positioned code c)
    (run : Run host (legacy_cost_table rev) c es c') : Positioned code c' := by
  induction run with
  | start => exact positioned
  | next _ executes ih => exact (ih.executes executes).1

/-- Behind the end of the code there is nothing but `STOP`, which ends the frame. -/
theorem padding_stops {c : Config H} {pos : Int} (positioned : Positioned code c)
    (at_it : c.code_it = some pos) (past : code.length ≤ pos) :
    c.exec.state.analysis.code_at pos = OP_STOP ∧
      Action.wp (turn host (legacy_cost_table rev) pos c.stack_top c.gas)
        (fun next _ => next.code_it = none) c.exec := by
  obtain ⟨lower, _, legacy⟩ := positioned pos at_it
  have stops : c.exec.state.analysis.code_at pos = OP_STOP := by
    rw [legacy, legacy_code_at lower, if_neg (by omega)]
  have name : Opcode.of_byte (c.exec.state.analysis.code_at pos) = some .STOP := by
    rw [stops]
    rfl
  refine ⟨stops, ?_⟩
  by_cases success : (check_requirements (legacy_cost_table rev) c.gas c.stack_top (some .STOP)).1 = .SUCCESS
  · refine wp_turn name success ?_
    simp [map_opcodes, invoke_impl, stop, stop_impl, set_status]
  · exact wp_turn_fails name success fun _ _ => rfl

/-- Legacy code is read, and executed, up to the end of its padding at most, in every run that writes nowhere else: the
analysis that the loop and the jumps go by is then still the one that it was started with. -/
theorem legacy_code_stays (host : Host H) (rev : Revision) (code : Bytes) (msg : Message)
    (call_id : Nat) (heap : Nat → UInt8) (h : H) :
    (∀ fuel, (∀ e ∈ (dispatch host (get_baseline_cost_table rev (analyze_legacy code).eof_header.version) fuel 0 0
        msg.gas).events ⟨.new msg rev code [] call_id (analyze_legacy code) heap, h⟩, Confines e) →
      ∀ index size, Event.code_access index size ∈
        (dispatch host (get_baseline_cost_table rev (analyze_legacy code).eof_header.version) fuel 0 0
          msg.gas).events ⟨.new msg rev code [] call_id (analyze_legacy code) heap, h⟩ →
            0 ≤ index ∧ index ≤ code.length + 32 ∧ index < size) ∧
    ∀ es c pos, Run host (get_baseline_cost_table rev (analyze_legacy code).eof_header.version)
      (.start (.new msg rev code [] call_id (analyze_legacy code) heap) h) es c → (∀ e ∈ es, Confines e) →
        c.code_it = some pos → c.exec.state.Unspoiled heap ∧ (0 ≤ pos ∧ pos ≤ code.length + 32) ∧
          (code.length ≤ pos → c.exec.state.analysis.code_at pos = OP_STOP ∧
            Action.wp (turn host
                (get_baseline_cost_table rev (analyze_legacy code).eof_header.version) pos
                c.stack_top c.gas)
              (fun next _ => next.code_it = none) c.exec) := by
  constructor
  · intro fuel _ index size access
    have run : Action.wlp (code_bounds code.length)
        (dispatch host (legacy_cost_table rev) fuel 0 0 msg.gas) (fun _ _ => True)
        ⟨.new msg rev code [] call_id (analyze_legacy code) heap, h⟩ := by
      refine wlp_dispatch (I := fun pos height gas exec => Positioned code ⟨some pos, height, gas, exec⟩)
        (fun pos height gas exec positioned => ?_) Positioned.start
      refine (legacy_turn positioned rfl).mono fun next e going pos' at_it pos'' same => ?_
      obtain rfl : pos' = pos'' := Option.some.inj same
      obtain ⟨legacy, moves⟩ := going pos' at_it
      obtain ⟨lower, upper⟩ := moves.range positioned
      exact ⟨lower, upper, legacy⟩
    exact (Action.Contract.After.ensures run fun _ _ => trivial).1 _ access
  · intro es c pos run confined at_it
    have positioned : Positioned code c := Positioned.start.run run
    obtain ⟨lower, upper, _⟩ := positioned pos at_it
    exact ⟨run.unspoiled confined, ⟨lower, upper⟩, padding_stops positioned at_it⟩

end

/-- Code that gets its operands of `JUMPI` in order with `SWAP_TOP`. -/
def swapping_code : Bytes := [0x60, 9, 0x60, 1, 0x60, 1, 0xa6, 0x57, 0, 0x5b]

theorem legacy_code_stays_swap_top : ∃ es c, @Run Unit no_hash empty_host (legacy_cost_table .SHANGHAI)
    (code_config .SHANGHAI swapping_code 100) es c ∧ (∀ e ∈ es, Confines e) ∧ c.code_it = some 10 ∧
      c.exec.state.Unspoiled (fun _ => 0) ∧ c.exec.state.analysis.code_at 10 = OP_STOP := by
  have values : (@traced_turns Unit no_hash empty_host (legacy_cost_table .SHANGHAI) 6
      (code_config .SHANGHAI swapping_code 100)).map (fun r =>
        (decide (∀ e ∈ r.1, Confines e), r.2.code_it)) = some (true, some 10) := by
    decide +kernel
  obtain ⟨⟨es, c⟩, reached, values⟩ := Option.map_eq_some_iff.mp values
  obtain ⟨confined, at_it⟩ := Prod.mk.inj values
  have run := @Run.traced Unit no_hash _ _ _ _ _ _ reached
  have confined : ∀ e ∈ es, Confines e := of_decide_eq_true confined
  obtain ⟨_, stays⟩ := @legacy_code_stays Unit no_hash empty_host .SHANGHAI swapping_code { gas := 100 } 0
    (fun _ => 0) ()
  obtain ⟨unspoiled, _, stops⟩ := stays es c 10 run confined at_it
  have past : (swapping_code.length : Int) ≤ 10 := by decide
  exact ⟨es, c, run, confined, at_it, unspoiled, (stops past).1⟩

/-- `SWAP_TOP` one item too deep puts 2 over `analysis` and `call_stack`, where `JUMP` looks for its destinations. -/
theorem legacy_code_spoiled_swap_top : ∃ es c, @Run Unit no_hash empty_host (legacy_cost_table .SHANGHAI)
    (code_config .SHANGHAI [0x60, 2, 0x60, 1, 0xa6, 0x60, 8, 0x56, 0x5b, 0] 100) es c ∧
      c.opcode = some .JUMP ∧ ¬ c.exec.state.Unspoiled fun _ => 0 := by
  have values : (@turns Unit no_hash empty_host (legacy_cost_table .SHANGHAI) 4
      (code_config .SHANGHAI [0x60, 2, 0x60, 1, 0xa6, 0x60, 8, 0x56, 0x5b, 0] 100)).map (fun c =>
        (c.opcode, c.exec.state.stack_space (-1))) = some (some .JUMP, 2) := by
    decide +kernel
  obtain ⟨c, reached, values⟩ := Option.map_eq_some_iff.mp values
  obtain ⟨opcode, written⟩ := Prod.mk.inj values
  obtain ⟨es, run⟩ := @Run.turns Unit no_hash _ _ _ _ _ _ _ (@Run.start Unit no_hash _ _ _) reached
  refine ⟨es, c, run, opcode, fun unspoiled => ?_⟩
  rw [unspoiled.stack (-1) (by decide)] at written
  exact absurd written (by decide)

end EvmAssigner
