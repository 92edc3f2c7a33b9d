import EvmAssigner.EofHeights

namespace EvmAssigner
variable {code : Bytes} {i j k : Nat}

/-- The sweep over the instructions of a section, from `i` on, comes by a position. -/
inductive Sweep (code : Bytes) : Nat → Nat → Prop
  | here {i : Nat} : Sweep code i i
  | next {i j : Nat} (within : i < code.length) (rest : Sweep code (next_at code i) j) : Sweep code i j

/-- An instruction of the section starts at `i`. -/
def Starts (code : Bytes) (i : Nat) : Prop := Sweep code 0 i ∧ i < code.length

theorem next_at_gt : i < next_at code i := by
  unfold next_at
  omega

theorem Sweep.le (sweep : Sweep code i j) : i ≤ j := by
  induction sweep with
  | here => exact le_rfl
  | next _ _ ih => exact next_at_gt.le.trans ih

theorem Sweep.after (sweep : Sweep code i j) (within : j < code.length) : Sweep code i (next_at code j) := by
  induction sweep with
  | here => exact .next within .here
  | next earlier _ ih => exact .next earlier (ih within)

/-- What lies between an instruction and the next one is not come by. -/
theorem Sweep.apart (first : Sweep code i j) (within : j < code.length) (second : Sweep code i k) :
    k ≤ j ∨ next_at code j ≤ k := by
  induction first with
  | here =>
    cases second with
    | here => exact Or.inl le_rfl
    | next _ rest => exact Or.inr rest.le
  | next _ rest ih =>
    cases second with
    | here => exact Or.inl (next_at_gt.le.trans rest.le)
    | next _ rest' => exact ih within rest'

/-- Every position is come by, or lies among the immediates of an instruction that is. -/
theorem sweep_covers (start : i ≤ k) (within : k < code.length) :
    Sweep code i k ∨ ∃ j, Sweep code i j ∧ j < k ∧ k < next_at code j := by
  induction size : k - i using Nat.strong_induction_on generalizing i with
  | _ n ih =>
    by_cases here : k = i
    · exact Or.inl (here ▸ .here)
    by_cases inside : k < next_at code i
    · exact Or.inr ⟨i, .here, by omega, inside⟩
    have smaller : k - next_at code i < n := by
      have after : i < next_at code i := next_at_gt
      omega
    rcases ih _ smaller (by omega) rfl with comes | ⟨j, comes, before, after⟩
    · exact Or.inl (.next (by omega) comes)
    · exact Or.inr ⟨j, .next (by omega) comes, before, after⟩

theorem op_at_eq {op : Opcode} (name : Opcode.of_byte (code.getD i 0) = some op) : op_at code i = op := by
  rw [op_at, opcode_or, name]
  rfl

section
variable {types : List EOFCodeType} {data_size : Nat} {cost_table : Opcode → Int}

/-- The section an instruction names in its immediate. -/
def callee_at (code : Bytes) (types : List EOFCodeType) (i : Nat) : Option EOFCodeType :=
  types[uint16_be_at code (i + 1)]?

/-- What `validate_instructions` checks of the instruction at `i`. -/
structure InstructionValid (code : Bytes) (types : List EOFCodeType) (data_size : Nat)
    (cost_table : Opcode → Int) (i : Nat) : Prop where
  named : Opcode.of_byte (code.getD i 0) = some (op_at code i)
  defined : cost_table (op_at code i) ≠ undefined
  whole : next_at code i ≤ code.length
  callf : op_at code i = .CALLF →
    ∃ callee ∈ callee_at code types i, callee.outputs ≠ NON_RETURNING_FUNCITON
  jumpf : op_at code i = .JUMPF → ∃ callee, callee ∈ callee_at code types i
  dataloadn : op_at code i = .DATALOADN → uint16_be_at code (i + 1) + 32 ≤ data_size

/-- The instruction at `i` makes its section one that returns. -/
def returns_at (code : Bytes) (types : List EOFCodeType) (i : Nat) : Bool :=
  match op_at code i with
  | .RETF => true
  | .JUMPF => (callee_at code types i).any fun callee => callee.outputs ≠ NON_RETURNING_FUNCITON
  | _ => false

theorem next_at_other {op : Opcode} (at_i : op_at code i = op) (other : op ≠ .RJUMPV) :
    next_at code i = i + immediate_size op + 1 := by
  rw [next_at, at_i, immediate_bytes, if_neg other]

theorem returns_at_other {op : Opcode} (at_i : op_at code i = op) (retf : op ≠ .RETF) (jumpf : op ≠ .JUMPF) :
    returns_at code types i = false := by
  unfold returns_at
  rw [at_i]
  split
  · exact absurd rfl retf
  · exact absurd rfl jumpf
  · rfl

/-- One turn of the loop of `validate_instructions`. -/
theorem validate_instructions_turn {fuel : Nat} {is_returning result : Bool} (within : i < code.length)
    (ran : validate_instructions_loop code types cost_table data_size (fuel + 1) i is_returning = .ok result) :
    InstructionValid code types data_size cost_table i ∧
      validate_instructions_loop code types cost_table data_size fuel (next_at code i)
        (is_returning || returns_at code types i) = .ok result := by
  rw [validate_instructions_loop, if_neg (not_le.mpr within)] at ran
  cases name : Opcode.of_byte (code.getD i 0) with
  | none =>
    rw [name] at ran
    contradiction
  | some op =>
    rw [name] at ran
    have at_i : op_at code i = op := op_at_eq name
    have named : Opcode.of_byte (code.getD i 0) = some (op_at code i) := name.trans (congrArg some at_i.symm)
    simp only [Validated.guard_eq_ok, ge_iff_le, not_le] at ran
    obtain ⟨defined, whole, ran⟩ := ran
    rw [← at_i] at defined
    split at ran
    · have next : next_at code i = i + (1 + ((code.getD (i + 1) 0).toNat + 1) * 2) + 1 := by
        rw [next_at, at_i]
        rfl
      rw [Validated.guard_eq_ok, not_le] at ran
      rw [returns_at_other at_i (by simp) (by simp), Bool.or_false, next]
      exact ⟨⟨named, defined, by omega, by simp [at_i], by simp [at_i], by simp [at_i]⟩, ran.2⟩
    · have next := next_at_other at_i (by simp)
      split at ran
      · contradiction
      · rename_i callee at_callee
        rw [Validated.guard_eq_ok] at ran
        rw [returns_at_other at_i (by simp) (by simp), Bool.or_false, next]
        exact ⟨⟨named, defined, by omega, fun _ => ⟨callee, at_callee, ran.1⟩, by simp [at_i], by simp [at_i]⟩,
          ran.2⟩
    · have next := next_at_other at_i (by simp)
      have returns : returns_at code types i = true := by
        rw [returns_at, at_i]
      rw [returns, Bool.or_true, next]
      exact ⟨⟨named, defined, by omega, by simp [at_i], by simp [at_i], by simp [at_i]⟩, ran⟩
    · have next := next_at_other at_i (by simp)
      split at ran
      · contradiction
      · rename_i callee at_callee
        have returns : returns_at code types i = decide (callee.outputs ≠ NON_RETURNING_FUNCITON) := by
          rw [returns_at, at_i]
          show (callee_at code types i).any _ = _
          rw [callee_at, at_callee]
          rfl
        rw [returns, next]
        exact ⟨⟨named, defined, by omega, by simp [at_i], fun _ => ⟨callee, at_callee⟩, by simp [at_i]⟩, ran⟩
    · have next := next_at_other at_i (by simp)
      rw [Validated.guard_eq_ok] at ran
      rw [returns_at_other at_i (by simp) (by simp), Bool.or_false, next]
      exact ⟨⟨named, defined, by omega, by simp [at_i], by simp [at_i], fun _ => by omega⟩, ran.2⟩
    · rename_i rjumpv callf retf jumpf dataloadn
      have next := next_at_other at_i rjumpv
      rw [returns_at_other at_i retf jumpf, Bool.or_false, next]
      exact ⟨⟨named, defined, by omega, fun same => absurd (at_i.symm.trans same) callf,
        fun same => absurd (at_i.symm.trans same) jumpf,
        fun same => absurd (at_i.symm.trans same) dataloadn⟩, ran⟩

theorem validate_instructions_sweep {fuel : Nat} {is_returning result : Bool}
    (enough : code.length ≤ i + fuel)
    (ran : validate_instructions_loop code types cost_table data_size fuel i is_returning = .ok result) :
    (∀ j, Sweep code i j → j < code.length → InstructionValid code types data_size cost_table j) ∧
      (is_returning = true → result = true) ∧
      ∀ j, Sweep code i j → j < code.length → returns_at code types j = true → result = true := by
  induction fuel generalizing i is_returning with
  | zero =>
    rw [validate_instructions_loop] at ran
    have past {j : Nat} (sweep : Sweep code i j) : ¬ j < code.length := by
      have := sweep.le
      omega
    exact ⟨fun _ sweep within => absurd within (past sweep), fun h => (Except.ok.inj ran) ▸ h,
      fun _ sweep within => absurd within (past sweep)⟩
  | succ fuel ih =>
    by_cases within : i < code.length
    · obtain ⟨valid, ran⟩ := validate_instructions_turn within ran
      have after : i < next_at code i := next_at_gt
      obtain ⟨all, kept, returns⟩ := ih (by omega) ran
      refine ⟨fun j sweep within_j => ?_, fun h => kept (by rw [h, Bool.true_or]), fun j sweep within_j at_j => ?_⟩
      · cases sweep with
        | here => exact valid
        | next _ rest => exact all j rest within_j
      · cases sweep with
        | here => exact kept (by rw [at_j, Bool.or_true])
        | next _ rest => exact returns j rest within_j at_j
    · rw [validate_instructions_loop, if_pos (not_lt.mp within)] at ran
      have past {j : Nat} (sweep : Sweep code i j) : ¬ j < code.length := by
        have := sweep.le
        omega
      exact ⟨fun _ sweep within => absurd within (past sweep), fun h => (Except.ok.inj ran) ▸ h,
        fun _ sweep within => absurd within (past sweep)⟩

end

/-- One turn of the pass of `validate_rjump_destinations`. -/
theorem collect_rjumps_turn (fuel : Nat) (dests : List Nat) (map : Nat → Bool) (within : i < code.length) :
    collect_rjumps code (fuel + 1) i dests map =
      if ∃ dest ∈ (rel_offsets code (op_at code i) i).map fun rel => (next_at code i : Int) + rel,
          dest < 0 ∨ dest ≥ code.length then none
      else collect_rjumps code fuel (next_at code i)
        (dests ++ ((rel_offsets code (op_at code i) i).map fun rel => (next_at code i : Int) + rel).map Int.toNat)
        fun k => decide (i + 1 ≤ k ∧ k < next_at code i) || map k := by
  have behind : i + 1 + immediate_bytes code (opcode_or (code.getD i 0)) i = next_at code i :=
    Nat.add_right_comm _ _ _
  rw [collect_rjumps, if_neg (not_le.mpr within)]
  simp only [behind]
  rfl

/-- The jumps of `validate_rjump_destinations` lead to destinations inside the section; the immediates
are those of the instructions the sweep comes by. -/
theorem collect_rjumps_sweep {fuel : Nat} {dests dests' : List Nat} {map map' : Nat → Bool}
    (enough : code.length ≤ i + fuel)
    (ran : collect_rjumps code fuel i dests map = some (dests', map')) :
    (∀ t ∈ dests, t ∈ dests') ∧ (∀ k, map k = true → map' k = true) ∧
      ∀ j, Sweep code i j → j < code.length →
        (∀ k, j < k → k < next_at code j → map' k = true) ∧
        ∀ rel ∈ rel_offsets code (op_at code j) j, 0 ≤ (next_at code j : Int) + rel ∧
          (next_at code j : Int) + rel < code.length ∧ ((next_at code j : Int) + rel).toNat ∈ dests' := by
  induction fuel generalizing i dests map with
  | zero =>
    rw [collect_rjumps] at ran
    obtain ⟨rfl, rfl⟩ := Prod.mk.inj (Option.some.inj ran)
    refine ⟨fun _ h => h, fun _ h => h, fun j sweep within => ?_⟩
    have := sweep.le
    omega
  | succ fuel ih =>
    by_cases past : i ≥ code.length
    · rw [collect_rjumps, if_pos past] at ran
      obtain ⟨rfl, rfl⟩ := Prod.mk.inj (Option.some.inj ran)
      refine ⟨fun _ h => h, fun _ h => h, fun j sweep within => ?_⟩
      have := sweep.le
      omega
    have step := (collect_rjumps_turn fuel dests map (not_le.mp past)).symm.trans ran
    split at step
    · exact nomatch step
    rename_i within
    have after : i < next_at code i := next_at_gt
    obtain ⟨dests_kept, map_kept, later⟩ := ih (by omega) step
    refine ⟨fun t member => dests_kept t (List.mem_append_left _ member),
      fun k marked => map_kept k (by rw [marked, Bool.or_true]), fun j sweep within_j => ?_⟩
    cases sweep with
    | next _ rest => exact later j rest within_j
    | here =>
      refine ⟨fun k before after => map_kept k ?_, fun rel member => ?_⟩
      · rw [decide_eq_true (show i + 1 ≤ k ∧ k < next_at code i from ⟨before, after⟩), Bool.true_or]
      · have dest : (next_at code i : Int) + rel ∈ (rel_offsets code (op_at code i) i).map fun rel =>
            (next_at code i : Int) + rel := List.mem_map.mpr ⟨rel, member, rfl⟩
        have inside : ¬ ((next_at code i : Int) + rel < 0 ∨ (next_at code i : Int) + rel ≥ code.length) :=
          fun outside => within ⟨_, dest, outside⟩
        exact ⟨by omega, by omega, dests_kept _ (List.mem_append_right _ (List.mem_map.mpr ⟨_, dest, rfl⟩))⟩

/-- Where a section jumps to, an instruction starts. -/
theorem rjump_lands (valid : validate_rjump_destinations code = true) {i : Nat} (starts : Starts code i)
    {rel : Int} (at_rel : rel ∈ rel_offsets code (op_at code i) i) :
    0 ≤ (next_at code i : Int) + rel ∧ Starts code ((next_at code i : Int) + rel).toNat := by
  unfold validate_rjump_destinations at valid
  split at valid
  · exact nomatch valid
  · rename_i rjumpdests immediate_map ran
    obtain ⟨_, _, all⟩ := collect_rjumps_sweep (by omega) ran
    obtain ⟨lower, upper, listed⟩ := (all i starts.1 starts.2).2 rel at_rel
    have unmarked := List.all_eq_true.mp valid _ listed
    have within : ((next_at code i : Int) + rel).toNat < code.length := by omega
    refine ⟨lower, ?_, within⟩
    rcases sweep_covers (Nat.zero_le _) within with comes | ⟨j, comes, before, after⟩
    · exact comes
    · have marked := (all j comes (by omega)).1 _ before after
      rw [marked] at unmarked
      exact nomatch unmarked

theorem rjump_targets (valid : validate_rjump_destinations code = true) {i t : Nat} (starts : Starts code i)
    (member : t ∈ targets code i) : Starts code t := by
  obtain ⟨rel, at_rel, rfl⟩ := List.mem_map.mp member
  exact (rjump_lands valid starts at_rel).2

/-- A section where the ways that a table leads to meet again, before another section is called. -/
def joining_code : Bytes := [0x5f, 0xe2, 1, 0, 0, 0, 3, 0x5f, 0x50, 0x5b, 0xe3, 0, 1, 0x50, 0]

def joining_types : List EOFCodeType := [⟨0, 0x80, 1⟩, ⟨0, 1, 1⟩]

theorem joining_code_accepted : validate_instructions joining_code joining_types .PRAGUE 0 ⟨0, 0x80, 1⟩ = .ok () := by
  decide +kernel

theorem joining_code_rjumps : validate_rjump_destinations joining_code = true := by decide +kernel

end EvmAssigner
