import EvmAssigner.Positions

namespace EvmAssigner
variable {H : Type}

/-- A frame below the end of the code stands on an opcode, not on push data. -/
def AtStart (code : Bytes) (c : Config H) : Prop :=
  ∀ pos, c.code_it = some pos → pos < code.length → 0 ≤ pos ∧ InstructionStart code pos.toNat

/-- The instruction is a jump that is taken. -/
def Config.jumps (c : Config H) : Prop :=
  c.opcode = some .JUMP ∨
    c.opcode = some .JUMPI ∧ 0 < (c.exec.state.stack_space (c.stack_top - 2)).to_uint64

/-- Without a jump a step goes forward, and over no opcode. -/
def Straight (code : Bytes) (c c' : Config H) : Prop :=
  ∀ pos pos', c.code_it = some pos → pos < code.length → c'.code_it = some pos' →
    c.jumps ∨ pos < pos' ∧ ∀ j : Nat, pos < j → j < pos' → ¬ InstructionStart code j

/-- Up to `c`, the loop keeps to the boundaries of the sweep. -/
structure BoundariesAgree [Ethash] (host : Host H) (cost_table : Opcode → Int) (code : Bytes)
    (start c : Config H) : Prop where
  starts : ∀ es₁ es₂ c₁, Run host cost_table start es₁ c₁ → Run host cost_table c₁ es₂ c →
    AtStart code c₁
  straight : ∀ es₁ es₂ es₃ c₁ c₂, Run host cost_table start es₁ c₁ → Executes host cost_table c₁ es₂ c₂ →
    Run host cost_table c₂ es₃ c → Straight code c₁ c₂

/-- The sweep goes over what an instruction takes up, but for the immediates of `DUPN` and `SWAPN`. -/
theorem push_data_width {byte : UInt8} {op : Opcode} (name : Opcode.of_byte byte = some op) :
    push_data byte + 1 = if op = .DUPN ∨ op = .SWAPN then 1 else op.width := by
  have widths : ∀ n : Fin 256, (Opcode.of_byte (UInt8.ofNat n.val)).all fun op =>
      push_data (UInt8.ofNat n.val) + 1 = if op = .DUPN ∨ op = .SWAPN then 1 else op.width := by
    decide +kernel
  have width := widths ⟨byte.toNat, byte.toNat_lt⟩
  rw [UInt8.ofNat_toNat, name] at width
  exact of_decide_eq_true width

/-- `DUPN` and `SWAPN` take the next byte of the code for their immediate. -/
def Config.takes_immediate (c : Config H) (code : Bytes) : Prop :=
  (c.opcode = some .DUPN ∨ c.opcode = some .SWAPN) ∧ ∃ pos, c.code_it = some pos ∧ pos + 1 < code.length

section
variable {code : Bytes} {c : Config H}

theorem opcode_at {pos : Int} (positioned : Positioned code c) (at_it : c.code_it = some pos)
    (within : pos < code.length) : c.opcode = Opcode.of_byte (code.getD pos.toNat 0) := by
  obtain ⟨lower, _, legacy⟩ := positioned pos at_it
  rw [Config.opcode, at_it, Option.bind_some, legacy, legacy_code_at lower, if_pos within]

theorem code_getElem {pos : Int} (lower : 0 ≤ pos) (within : pos < code.length) :
    code[pos.toNat]? = some (code.getD pos.toNat 0) := by
  rw [List.getD_eq_getElem?_getD, List.getElem?_eq_getElem (by omega)]
  rfl

theorem jumpdest_start {j : Nat} (valid : (analyze_legacy code).jumpdest_map[j]? = some true) :
    InstructionStart code j ∧ code[j]? = some OP_JUMPDEST :=
  (analyze_jumpdests_iff code j).mp valid

variable [Ethash] {host : Host H} {rev : Revision} {c' : Config H} {es : List Event}

omit [Ethash] in
/-- A step from an opcode leads to an opcode, unless it takes an immediate. -/
theorem AtStart.moves {pos' : Int} (at_start : AtStart code c) (positioned : Positioned code c)
    (moves : Moves code c pos') (plain : ¬ c.takes_immediate code) :
    (pos' < code.length → InstructionStart code pos'.toNat) ∧
      (c.jumps ∨ ∀ pos, c.code_it = some pos →
        pos < pos' ∧ ∀ j : Nat, pos < j → j < pos' → ¬ InstructionStart code j) := by
  obtain ⟨pos, op, at_it, lower, within, name, leads⟩ := moves
  have opcode : c.opcode = some op := (opcode_at positioned at_it within).trans name
  obtain ⟨_, sweep⟩ := at_start pos at_it within
  have byte := code_getElem lower within
  rcases leads with _ | _ | ⟨jumps, dest⟩
  · by_cases immediate : op = .DUPN ∨ op = .SWAPN
    · -- The immediate is in the padding, so there is no opcode to be gone over.
      have last : code.length ≤ pos + 1 := by
        by_contra inside
        refine plain ⟨?_, pos, at_it, by omega⟩
        rcases immediate with rfl | rfl
        · exact Or.inl opcode
        · exact Or.inr opcode
      have width : op.width = 2 := by
        rcases immediate with rfl | rfl <;> rfl
      refine ⟨fun inside => by omega, Or.inr fun p same => ?_⟩
      obtain rfl : pos = p := Option.some.inj (at_it.symm.trans same)
      refine ⟨by omega, fun j _ _ start => ?_⟩
      have := start.range
      omega
    · have width := push_data_width name
      rw [if_neg immediate] at width
      refine ⟨fun inside => ?_, Or.inr fun p same => ?_⟩
      · have after := sweep.after byte (by omega)
        rwa [show pos.toNat + push_data (code.getD pos.toNat 0) + 1 = (pos + op.width).toNat by omega]
          at after
      · obtain rfl : pos = p := Option.some.inj (at_it.symm.trans same)
        refine ⟨by omega, fun j _ _ start => ?_⟩
        have := sweep.gap byte start (by omega)
        omega
  · have legacy := (positioned pos at_it).2.2
    rw [legacy] at dest
    refine ⟨fun _ => ?_, Or.inl ?_⟩
    · rw [Int.toNat_natCast]
      exact (jumpdest_start dest).1
    · rcases jumps with rfl | ⟨rfl, taken⟩
      · exact Or.inl opcode
      · exact Or.inr ⟨opcode, taken⟩

theorem AtStart.executes (at_start : AtStart code c) (positioned : Positioned code c)
    (executes : Executes host (legacy_cost_table rev) c es c') (plain : ¬ c.takes_immediate code) :
    AtStart code c' ∧ Straight code c c' := by
  obtain ⟨positioned', leads⟩ := positioned.executes executes
  constructor
  · intro pos' at_it' within
    exact ⟨(positioned' pos' at_it').1, (at_start.moves positioned (leads pos' at_it') plain).1 within⟩
  · intro pos pos' at_it _ at_it'
    exact (at_start.moves positioned (leads pos' at_it') plain).2.imp_right fun straight =>
      straight pos at_it

theorem immediate_goes_on {pos : Int} {op : Opcode} (positioned : Positioned code c)
    (at_it : c.code_it = some pos) (within : pos < code.length) (opcode : c.opcode = some op)
    (immediate : op = .DUPN ∨ op = .SWAPN) :
    Action.wlp (code_bounds code.length) (turn host (legacy_cost_table rev) pos c.stack_top c.gas)
      (fun next e => next.code_it ≠ none ∨ e.state.status ≠ .SUCCESS) c.exec := by
  obtain ⟨lower, upper, legacy⟩ := positioned pos at_it
  refine wlp_turn_leads ?_ (fun status left failure _ => Or.inr failure) fun op' name _ _ _ => ?_
  · rw [legacy]
    exact code_bounds_ignores lower upper
  · rw [Config.opcode, at_it, Option.bind_some] at opcode
    obtain rfl : op' = op := Option.some.inj (name.symm.trans opcode)
    rcases immediate with rfl | rfl
    · refine wlp_code (wlp_on_state.mpr ((dupn_leads legacy lower within).mono ?_))
      rintro _ s' ⟨⟨rfl, underflow⟩ | rfl, _⟩
      · exact Or.inr (by simp [underflow])
      · exact Or.inl (by simp)
    · refine wlp_code (wlp_on_state.mpr ((swapn_leads legacy lower within).mono ?_))
      rintro _ s' ⟨⟨rfl, underflow⟩ | rfl, _⟩
      · exact Or.inr (by simp [underflow])
      · exact Or.inl (by simp)

/-- An immediate of legacy code is an opcode for the sweep, and is skipped. -/
theorem takes_immediate_skips (at_start : AtStart code c) (positioned : Positioned code c)
    (executes : Executes host (legacy_cost_table rev) c es c') (immediate : c.takes_immediate code) :
    ¬ Straight code c c' := by
  obtain ⟨opcode, pos, at_it, inside⟩ := immediate
  have within : pos < code.length := by omega
  have lower := (positioned pos at_it).1
  obtain ⟨op, named, either⟩ : ∃ op, c.opcode = some op ∧ (op = .DUPN ∨ op = .SWAPN) := by
    rcases opcode with dupn | swapn
    · exact ⟨_, dupn, Or.inl rfl⟩
    · exact ⟨_, swapn, Or.inr rfl⟩
  obtain ⟨succeeds, code_it, at_it', h⟩ := executes
  obtain rfl : pos = code_it := Option.some.inj (at_it.symm.trans at_it')
  have goes_on := ((immediate_goes_on positioned at_it within named either).returns_of_eq h
    fun _ _ => trivial).2
  have going : c'.code_it ≠ none := by
    rcases goes_on with going | failure
    · exact going
    · exact succeeds.resolve_right failure
  obtain ⟨pos', at_next⟩ := Option.ne_none_iff_exists'.mp going
  obtain ⟨p, op', same, _, _, name, leads⟩ := (positioned.executes ⟨succeeds, pos, at_it, h⟩).2 pos' at_next
  obtain rfl : pos = p := Option.some.inj (at_it.symm.trans same)
  obtain rfl : op' = op := Option.some.inj (name.symm.trans ((opcode_at positioned at_it within).symm.trans named))
  intro straight
  have still : ¬ c.jumps := by
    rintro (jump | ⟨jumpi, _⟩)
    · rw [named] at jump
      rcases either with rfl | rfl <;> contradiction
    · rw [named] at jumpi
      rcases either with rfl | rfl <;> contradiction
  have width : op'.width = 2 := by
    rcases either with rfl | rfl <;> rfl
  obtain ⟨_, nothing⟩ := (straight pos pos' at_it within at_next).resolve_left still
  have start := (at_start pos at_it within).2.after (code_getElem lower within)
  have data := push_data_width name
  rw [if_pos either] at data
  rw [add_assoc, data] at start
  rcases leads with _ | _ | ⟨jumps, _⟩
  · exact nothing (pos.toNat + 1) (by omega) (by omega) (start (by omega))
  · rcases jumps with rfl | ⟨rfl, _⟩
    · rcases either with other | other <;> contradiction
    · rcases either with other | other <;> contradiction

/-- Along a run that takes no immediates, every position is an opcode of the sweep. -/
theorem AtStart.run {c₀ c₁ c₂ : Config H} {es₁ es₂ : List Event}
    (at_start : AtStart code c₀) (positioned : Positioned code c₀)
    (run : Run host (legacy_cost_table rev) c₀ es₁ c₁) (rest : Run host (legacy_cost_table rev) c₁ es₂ c₂)
    (plain : ∀ es₁ es₂ es₃ c c', Run host (legacy_cost_table rev) c₀ es₁ c →
      Executes host (legacy_cost_table rev) c es₂ c' → Run host (legacy_cost_table rev) c' es₃ c₂ →
        ¬ c.takes_immediate code) : AtStart code c₁ := by
  induction run generalizing es₂ with
  | start => exact at_start
  | @next _ _ c c' run executes ih =>
    exact ((ih (.head executes rest)).executes (positioned.run run) executes
      (plain _ _ _ _ _ run executes rest)).1

omit [Ethash] in
theorem start_at_start {state : ExecutionState} {h : H} : AtStart code (.start state h) := by
  intro pos at_it within
  obtain rfl : 0 = pos := Option.some.inj at_it
  exact ⟨le_rfl, .here (by omega)⟩

/-- A run of legacy code that writes nowhere else keeps to the boundaries of the sweep exactly as long as it executes no
`DUPN` or `SWAPN` whose immediate is a byte of the code. -/
theorem boundaries_agree_iff (host : Host H) (rev : Revision) (code : Bytes) (msg : Message)
    (call_id : Nat) (heap : Nat → UInt8) (h : H) {es : List Event} {c : Config H}
    (run : Run host (get_baseline_cost_table rev (analyze_legacy code).eof_header.version)
      (.start (.new msg rev code [] call_id (analyze_legacy code) heap) h) es c) (confined : ∀ e ∈ es, Confines e) :
    c.exec.state.Unspoiled heap ∧
      (BoundariesAgree host (get_baseline_cost_table rev (analyze_legacy code).eof_header.version) code
        (.start (.new msg rev code [] call_id (analyze_legacy code) heap) h) c ↔
      ∀ es₁ es₂ es₃ c₁ c₂, Run host (get_baseline_cost_table rev (analyze_legacy code).eof_header.version)
          (.start (.new msg rev code [] call_id (analyze_legacy code) heap) h) es₁ c₁ →
        Executes host (get_baseline_cost_table rev (analyze_legacy code).eof_header.version) c₁ es₂ c₂ →
        Run host (get_baseline_cost_table rev (analyze_legacy code).eof_header.version) c₂ es₃ c →
          ¬ c₁.takes_immediate code) := by
  refine ⟨run.unspoiled confined, ?_, ?_⟩
  · intro agree es₁ es₂ es₃ c₁ c₂ run executes rest immediate
    exact takes_immediate_skips (agree.starts _ _ _ run (.head executes rest)) (Positioned.start.run run)
      executes immediate (agree.straight _ _ _ _ _ run executes rest)
  · intro plain
    have starts {es₁ es₂ : List Event} {c₁ : Config H}
        (run : Run host (legacy_cost_table rev)
          (.start (.new msg rev code [] call_id (analyze_legacy code) heap) h) es₁ c₁)
        (rest : Run host (legacy_cost_table rev) c₁ es₂ c) : AtStart code c₁ :=
      start_at_start.run Positioned.start run rest plain
    refine ⟨fun es₁ es₂ c₁ => starts, fun es₁ es₂ es₃ c₁ c₂ run executes rest => ?_⟩
    exact ((starts run (.head executes rest)).executes (Positioned.start.run run) executes
      (plain _ _ _ _ _ run executes rest)).2

end

theorem boundaries_agree_swap_top : ∃ es c, @Run Unit no_hash empty_host (legacy_cost_table .SHANGHAI)
    (code_config .SHANGHAI swapping_code 100) es c ∧ c.code_it = some 10 ∧ c.exec.state.Unspoiled (fun _ => 0) ∧
      @BoundariesAgree Unit no_hash empty_host (legacy_cost_table .SHANGHAI) swapping_code
        (code_config .SHANGHAI swapping_code 100) c := by
  have values : (@traced_turns Unit no_hash empty_host (legacy_cost_table .SHANGHAI) 6
      (code_config .SHANGHAI swapping_code 100)).map (fun r =>
        (decide (∀ e ∈ r.1, Confines e), r.2.code_it)) = some (true, some 10) := by
    decide +kernel
  obtain ⟨⟨es, c⟩, reached, values⟩ := Option.map_eq_some_iff.mp values
  obtain ⟨confined, at_it⟩ := Prod.mk.inj values
  have run := @Run.traced Unit no_hash _ _ _ _ _ _ reached
  obtain ⟨unspoiled, agree_iff⟩ := @boundaries_agree_iff Unit no_hash empty_host .SHANGHAI swapping_code
    { gas := 100 } 0 (fun _ => 0) () es c run (of_decide_eq_true confined)
  have plain : ∀ k < 10, Opcode.of_byte (swapping_code.getD k 0) ≠ some .DUPN ∧
      Opcode.of_byte (swapping_code.getD k 0) ≠ some .SWAPN := by decide
  refine ⟨es, c, run, at_it, unspoiled, agree_iff.mpr ?_⟩
  rintro es₁ es₂ es₃ c₁ c₂ run₁ _ _ ⟨immediate, pos, at_pos, inside⟩
  have run₁ : @Run Unit no_hash empty_host (legacy_cost_table .SHANGHAI)
      (code_config .SHANGHAI swapping_code 100) es₁ c₁ := run₁
  have positioned : Positioned swapping_code c₁ := @Positioned.run Unit no_hash _ _ _ _ _ _ Positioned.start run₁
  have within : pos < (10 : Nat) := lt_trans (by omega) inside
  rw [opcode_at positioned at_pos within] at immediate
  have lower := (positioned pos at_pos).1
  exact immediate.elim (plain pos.toNat (by omega)).1 (plain pos.toNat (by omega)).2

/-- `DUPN` in legacy code goes over the `STOP` that the sweep finds behind it. -/
theorem boundaries_disagree_dupn : ∃ es c,
    @Run Unit no_hash empty_host (legacy_cost_table .PRAGUE) (code_config .PRAGUE [0x5f, 0xe6, 0] 100) es c ∧
      ¬ @BoundariesAgree Unit no_hash empty_host (legacy_cost_table .PRAGUE) [0x5f, 0xe6, 0]
        (code_config .PRAGUE [0x5f, 0xe6, 0] 100) c := by
  have values : (@turns Unit no_hash empty_host (legacy_cost_table .PRAGUE) 1
      (code_config .PRAGUE [0x5f, 0xe6, 0] 100)).bind (fun c =>
        (@turns Unit no_hash empty_host (legacy_cost_table .PRAGUE) 1 c).map fun c' =>
          (c.code_it, c.opcode, c'.code_it)) = some (some 1, some .DUPN, some 3) := by
    decide +kernel
  obtain ⟨c₁, first, values⟩ := Option.bind_eq_some_iff.mp values
  obtain ⟨c₂, second, values⟩ := Option.map_eq_some_iff.mp values
  simp only [Prod.mk.injEq] at values
  obtain ⟨at_it, opcode, at_next⟩ := values
  obtain ⟨es₁, run⟩ := @Run.turns Unit no_hash _ _ _ _ _ _ _ (@Run.start Unit no_hash _ _ _) first
  obtain ⟨es₂, c', executes, last⟩ := @executes_of_turns Unit no_hash _ _ _ _ _ second
  obtain rfl : c' = c₂ := Option.some.inj last
  refine ⟨_, c', @Run.next Unit no_hash _ _ _ _ _ _ _ run executes, fun agree => ?_⟩
  have straight := @BoundariesAgree.straight Unit no_hash _ _ _ _ _ agree _ _ _ _ _ run executes
    (@Run.start Unit no_hash _ _ _)
  rcases straight 1 3 at_it (by decide) at_next with (jump | ⟨jumpi, _⟩) | ⟨_, nothing⟩
  · rw [opcode] at jump
    contradiction
  · rw [opcode] at jumpi
    contradiction
  · exact nothing 2 (by decide) (by decide) (.next rfl (.next rfl (.here (by decide))))

/-- A position of the code that may be jumped to. -/
def ValidJump (code : Bytes) (d : Nat) : Prop :=
  d < code.length ∧ InstructionStart code d ∧ code[d]? = some OP_JUMPDEST

/-- A jump goes to its destination, when that is a valid one. -/
def FollowsJump (code : Bytes) (d : Word) (next : Next) (e : Exec H) : Prop :=
  (ValidJump code d.toNat → next.code_it = some (d.toNat : Int)) ∧
    (¬ ValidJump code d.toNat → next.code_it = none ∧ e.state.status = .BAD_JUMP_DESTINATION)

/-- A conditional jump does the same when its condition is not zero. -/
def FollowsJumpi (code : Bytes) (pos : Int) (d cond : Word) (next : Next) (e : Exec H) : Prop :=
  (cond ≠ 0 → FollowsJump code d next e) ∧ (cond = 0 → next.code_it = some (pos + 1))

/-- Nothing is lost of a destination, or there is nowhere to go with the rest of it either. -/
def Destined (code : Bytes) (d : Word) : Prop :=
  d.toNat < 2 ^ 64 ∨ ¬ ValidJump code (d.toNat % 2 ^ 64) ∧ ¬ ValidJump code d.toNat

section
variable {code : Bytes} {s : ExecutionState} {d : Word}

theorem validJump_iff {j : Nat} :
    (analyze_legacy code).jumpdest_map[j]? = some true ↔ ValidJump code j := by
  constructor
  · exact fun valid => ⟨jumpdest_within valid, jumpdest_start valid⟩
  · exact fun valid => (analyze_jumpdests_iff code j).mpr valid.2

theorem wp_jump_impl {Q : Option Int → ExecutionState → Prop} (legacy : s.analysis = analyze_legacy code)
    (valid : ValidJump code (d.toNat % 2 ^ 64) → Q (some (d.toNat % 2 ^ 64 : Nat)) s)
    (invalid : ¬ ValidJump code (d.toNat % 2 ^ 64) → Q none (s.set_status .BAD_JUMP_DESTINATION)) :
    Action.wp (jump_impl d) Q s := by
  rw [← validJump_iff] at valid invalid
  simp only [jump_impl, fail_with, Action.wp_bind, Action.wp_get, Action.wp_ite, Action.wp_modify,
    Action.wp_pure, Action.wp_emit, legacy, Word.to_uint64_eq, Bool.not_eq_true',
    ← Bool.not_eq_true, getD_marked, not_not]
  refine ⟨fun past => invalid ?_, fun _ => ⟨invalid, valid⟩⟩
  rw [List.getElem?_eq_none past]
  simp

variable {next : Next} {e : Exec H}

theorem follows_valid (valid : ValidJump code (d.toNat % 2 ^ 64))
    (going : next.code_it = some (d.toNat % 2 ^ 64 : Nat)) : FollowsJump code d next e ↔ Destined code d := by
  constructor
  · intro follows
    by_contra lost
    rw [Destined, not_or] at lost
    by_cases full : ValidJump code d.toNat
    · have same := Option.some.inj (going.symm.trans (follows.1 full))
      omega
    · have ends := (follows.2 full).1
      rw [going] at ends
      contradiction
  · rintro (small | ⟨nowhere, _⟩)
    · rw [Nat.mod_eq_of_lt small] at valid going
      exact ⟨fun _ => going, fun invalid => absurd valid invalid⟩
    · exact absurd valid nowhere

theorem follows_invalid (invalid : ¬ ValidJump code (d.toNat % 2 ^ 64)) (ends : next.code_it = none)
    (status : e.state.status = .BAD_JUMP_DESTINATION) : FollowsJump code d next e ↔ Destined code d := by
  constructor
  · intro follows
    refine Or.inr ⟨invalid, fun full => ?_⟩
    have going := follows.1 full
    rw [ends] at going
    contradiction
  · intro destined
    have nowhere : ¬ ValidJump code d.toNat := by
      rcases destined with small | ⟨_, nowhere⟩
      · rwa [Nat.mod_eq_of_lt small] at invalid
      · exact nowhere
    exact ⟨fun valid => absurd valid nowhere, fun _ => ⟨ends, status⟩⟩

theorem follows_taken {pos : Int} {cond : Word} (kept : cond.toNat % 2 ^ 64 ≠ 0) :
    FollowsJumpi code pos d cond next e ↔ FollowsJump code d next e := by
  have nonzero : cond ≠ 0 := by
    rintro rfl
    exact kept rfl
  exact ⟨fun follows => follows.1 nonzero, fun follows => ⟨fun _ => follows, fun zero => absurd zero nonzero⟩⟩

/-- A conditional jump whose condition is cut to zero goes on with the next instruction, which may
be its destination. -/
theorem follows_cut {pos : Int} {cond : Word} (cut : cond.toNat % 2 ^ 64 = 0)
    (next_ : next.code_it = some (pos + 1)) : FollowsJumpi code pos d cond next e ↔
      cond = 0 ∨ (d.toNat : Int) = pos + 1 ∧ ValidJump code d.toNat := by
  constructor
  · intro follows
    by_cases zero : cond = 0
    · exact Or.inl zero
    · right
      have jumps := follows.1 zero
      by_cases valid : ValidJump code d.toNat
      · exact ⟨Option.some.inj ((jumps.1 valid).symm.trans next_), valid⟩
      · have ends := (jumps.2 valid).1
        rw [next_] at ends
        contradiction
  · rintro (rfl | ⟨same, valid⟩)
    · exact ⟨fun other => absurd rfl other, fun _ => next_⟩
    · refine ⟨fun _ => ⟨fun _ => next_.trans (by rw [same]), fun invalid => absurd valid invalid⟩, fun _ => next_⟩

end

/-- The operands on which `JUMP` and `JUMPI` do what all their bits say. -/
def Config.cut_harmlessly (code : Bytes) (c : Config H) (pos : Int) : Prop :=
  let d := c.exec.state.stack_space (c.stack_top - 1)
  let cond := c.exec.state.stack_space (c.stack_top - 2)
  if c.opcode = some .JUMP then Destined code d
  else if cond.toNat % 2 ^ 64 = 0 then cond = 0 ∨ (d.toNat : Int) = pos + 1 ∧ ValidJump code d.toNat
  else Destined code d

/-- What `JUMP` and `JUMPI` are meant to do. -/
def Config.follows (code : Bytes) (c : Config H) (pos : Int) (next : Next) (e : Exec H) : Prop :=
  let d := c.exec.state.stack_space (c.stack_top - 1)
  let cond := c.exec.state.stack_space (c.stack_top - 2)
  if c.opcode = some .JUMP then FollowsJump code d next e else FollowsJumpi code pos d cond next e

/-- Wherever a run of legacy code gets to that writes nowhere else, a jump finds the analysis of the code, and follows
its operands exactly when they lose nothing that matters by the conversion to 64 bits. -/
theorem jump_follows_iff [Ethash] (host : Host H) (rev : Revision) (code : Bytes) (msg : Message)
    (call_id : Nat) (heap : Nat → UInt8) (h : H) {es : List Event} {c : Config H} {pos : Int}
    {op : Opcode} (run : Run host (get_baseline_cost_table rev (analyze_legacy code).eof_header.version)
      (.start (.new msg rev code [] call_id (analyze_legacy code) heap) h) es c)
    (at_it : c.code_it = some pos) (opcode : c.opcode = some op) (jump : op = .JUMP ∨ op = .JUMPI)
    (passes : (check_requirements
      (get_baseline_cost_table rev (analyze_legacy code).eof_header.version) c.gas c.stack_top
        (some op)).1 = .SUCCESS) (confined : ∀ e ∈ es, Confines e) :
    c.exec.state.Unspoiled heap ∧
      Action.wp (turn host (get_baseline_cost_table rev (analyze_legacy code).eof_header.version) pos
          c.stack_top c.gas)
        (fun next e => c.follows code pos next e ↔ c.cut_harmlessly code pos) c.exec := by
  refine ⟨run.unspoiled confined, ?_⟩
  have positioned : Positioned code c := Positioned.start.run run
  obtain ⟨_, _, legacy⟩ := positioned pos at_it
  have name : Opcode.of_byte (c.exec.state.analysis.code_at pos) = some op := by
    rwa [Config.opcode, at_it, Option.bind_some] at opcode
  have top : c.stack_top - 1 - 0 = c.stack_top - 1 := by omega
  have second : c.stack_top - 1 - 1 - 0 = c.stack_top - 2 := by omega
  refine wp_turn name passes ?_
  unfold Config.follows Config.cut_harmlessly
  rcases jump with rfl | rfl
  · simp only [opcode, if_true, map_opcodes, EvmAssigner.invoke_impl, EvmAssigner.jump, lift_on_state,
      Action.wp_bind, wp_on_state, wp_record_stack, wp_stack_get, Action.wp_pure, top]
    exact wp_jump_impl legacy (fun valid => follows_valid valid rfl)
      fun invalid => follows_invalid invalid rfl rfl
  · have other : ¬ (some Opcode.JUMPI = some Opcode.JUMP) := by decide
    simp only [opcode, if_neg other, map_opcodes, EvmAssigner.invoke_impl, jumpi, lift_on_state,
      Action.wp_bind, wp_on_state, wp_record_stack, wp_stack_get, Action.wp_ite, Action.wp_pure, top,
      second, Word.to_uint64_eq, ExecutionState.record_stack_space]
    refine ⟨fun taken => ?_, fun untaken => ?_⟩
    · have kept := Nat.ne_of_gt taken
      simp only [if_neg kept, follows_taken kept]
      exact wp_jump_impl legacy (fun valid => follows_valid valid rfl)
        fun invalid => follows_invalid invalid rfl rfl
    · have cut := Nat.eq_zero_of_not_pos untaken
      simp only [if_pos cut]
      exact follows_cut cut rfl

/-- `JUMPI` to the `JUMPDEST`, with operands that `SWAP_TOP` has put in order. -/
theorem jump_follows_swap_top : ∃ es c, @Run Unit no_hash empty_host (legacy_cost_table .SHANGHAI)
      (code_config .SHANGHAI swapping_code 100) es c ∧ c.exec.state.Unspoiled (fun _ => 0) ∧
    Action.wp (@turn Unit no_hash empty_host (legacy_cost_table .SHANGHAI) 7 c.stack_top c.gas)
      (fun next e => c.follows swapping_code 7 next e) c.exec := by
  have values : (@traced_turns Unit no_hash empty_host (legacy_cost_table .SHANGHAI) 4
      (code_config .SHANGHAI swapping_code 100)).map (fun r => (decide (∀ e ∈ r.1, Confines e), r.2.code_it, r.2.opcode,
        (check_requirements (legacy_cost_table .SHANGHAI) r.2.gas r.2.stack_top (some .JUMPI)).1,
        [r.2.exec.state.stack_space (r.2.stack_top - 1), r.2.exec.state.stack_space (r.2.stack_top - 2)])) =
          some (true, some 7, some .JUMPI, .SUCCESS, [9, 1]) := by
    decide +kernel
  obtain ⟨⟨es, c⟩, reached, values⟩ := Option.map_eq_some_iff.mp values
  simp only [Prod.mk.injEq, List.cons.injEq, and_true] at values
  obtain ⟨confined, at_it, opcode, passes, dst, cond⟩ := values
  have run := @Run.traced Unit no_hash _ _ _ _ _ _ reached
  obtain ⟨unspoiled, exactly⟩ := @jump_follows_iff Unit no_hash empty_host .SHANGHAI swapping_code { gas := 100 } 0
    (fun _ => 0) () es c 7 .JUMPI run at_it opcode (Or.inr rfl) passes (of_decide_eq_true confined)
  refine ⟨es, c, run, unspoiled, exactly.mono fun next e follows_iff => follows_iff.mpr ?_⟩
  have other : ¬ c.opcode = some .JUMP := by
    rw [opcode]
    decide
  rw [Config.cut_harmlessly, if_neg other, cond, dst]
  exact Or.inl (by decide)

/-- `JUMP` with the destination `2 ^ 64 + 11` goes to the `JUMPDEST` at position 11. -/
theorem jump_cut_push9 : ∃ es c, @Run Unit no_hash empty_host (legacy_cost_table .SHANGHAI)
      (code_config .SHANGHAI [0x68, 1, 0, 0, 0, 0, 0, 0, 0, 11, 0x56, 0x5b] 100) es c ∧
    c.code_it = some 10 ∧ c.opcode = some .JUMP ∧
    (check_requirements (legacy_cost_table .SHANGHAI) c.gas c.stack_top (some .JUMP)).1 = .SUCCESS ∧
    ¬ Action.wp (@turn Unit no_hash empty_host (legacy_cost_table .SHANGHAI) 10 c.stack_top c.gas)
      (fun next e => c.follows [0x68, 1, 0, 0, 0, 0, 0, 0, 0, 11, 0x56, 0x5b] 10 next e) c.exec := by
  have values : (@turns Unit no_hash empty_host (legacy_cost_table .SHANGHAI) 1
      (code_config .SHANGHAI [0x68, 1, 0, 0, 0, 0, 0, 0, 0, 11, 0x56, 0x5b] 100)).map (fun c =>
        (c.code_it, c.opcode,
          (check_requirements (legacy_cost_table .SHANGHAI) c.gas c.stack_top (some .JUMP)).1,
          c.exec.state.stack_space (c.stack_top - 1),
          (@turn Unit no_hash empty_host (legacy_cost_table .SHANGHAI) 10 c.stack_top c.gas c.exec).2.map
            fun o => o.1.code_it)) =
      some (some 10, some .JUMP, .SUCCESS, BitVec.ofNat 256 (2 ^ 64 + 11), some (some 11)) := by
    decide +kernel
  obtain ⟨c, reached, values⟩ := Option.map_eq_some_iff.mp values
  simp only [Prod.mk.injEq] at values
  obtain ⟨at_it, opcode, passes, dst, going⟩ := values
  obtain ⟨es, run⟩ := @Run.turns Unit no_hash _ _ _ _ _ _ _ (@Run.start Unit no_hash _ _ _) reached
  refine ⟨es, c, run, at_it, opcode, passes, ?_⟩
  rintro ⟨next, e, returns, follows⟩
  rw [Config.follows, if_pos opcode, dst] at follows
  have outside : ¬ ValidJump [0x68, 1, 0, 0, 0, 0, 0, 0, 0, 11, 0x56, 0x5b]
      (BitVec.ofNat 256 (2 ^ 64 + 11)).toNat := fun valid => absurd valid.1 (by decide)
  rw [returns, Option.map_some, (follows.2 outside).1] at going
  contradiction

end EvmAssigner
