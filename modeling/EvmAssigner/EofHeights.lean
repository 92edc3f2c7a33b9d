import EvmAssigner.EofSuccess

namespace EvmAssigner
variable {code : Bytes} {types : List EOFCodeType} {type : EOFCodeType} {h h' : StackHeights} {i : Nat}

/-- The opcode at a position, as the validator takes it. -/
def op_at (code : Bytes) (i : Nat) : Opcode := opcode_or (code.getD i 0)

/-- The position behind an instruction and its immediates. -/
def next_at (code : Bytes) (i : Nat) : Nat := i + immediate_bytes code (op_at code i) i + 1

/-- Control may pass from an instruction to the one behind it. -/
def falls_through (op : Opcode) : Bool := !is_terminating op && op ≠ .RJUMP

/-- Where the relative jumps of an instruction lead. -/
def targets (code : Bytes) (i : Nat) : List Nat :=
  (rel_offsets code (op_at code i) i).map fun rel_offset => ((next_at code i : Int) + rel_offset).toNat

/-- The instructions that may come next. -/
def successors (code : Bytes) (i : Nat) : List Nat :=
  (if falls_through (op_at code i) then [next_at code i] else []) ++ targets code i

theorem next_mem_successors (falls : falls_through (op_at code i) = true) : next_at code i ∈ successors code i := by
  refine List.mem_append_left _ ?_
  rw [if_pos falls]
  exact List.mem_singleton_self _

/-- The heights once the immediates of the instruction at `i` are marked. -/
def StackHeights.mark (h : StackHeights) (code : Bytes) (i : Nat) : StackHeights :=
  { h with stack_heights := fun k => if i < k ∧ k < next_at code i then LOC_IMMEDIATE else h.stack_heights k }

/-- What one turn of the search for the heights checks, and where it goes on. -/
theorem visit_eq_ok : h.visit code types type i = .ok h' ↔
    ∃ required change, height_effect code types type (op_at code i) i (h.stack_heights i) =
        .ok (required, change) ∧
      required ≤ h.stack_heights i ∧
      (falls_through (op_at code i) → next_at code i < code.length) ∧
      (h.mark code i).validate_successors (h.stack_heights i + change) (successors code i) = .ok h' := by
  have marked : h.mark code i = StackHeights.mk (fun k =>
      if i + 1 ≤ k ∧ k < i + 1 + immediate_bytes code (op_at code i) i then LOC_IMMEDIATE
      else h.stack_heights k) h.worklist := by
    unfold StackHeights.mark next_at
    congr 1
    funext k
    exact if_congr (by omega) rfl rfl
  rw [StackHeights.visit, Validated.bind_eq_ok, marked]
  simp only [Validated.guard_eq_ok, not_lt, not_and, ge_iff_le, not_le]
  constructor
  · rintro ⟨⟨required, change⟩, effect, enough, room, pushed⟩
    exact ⟨required, change, effect, enough, room, pushed⟩
  · rintro ⟨required, change, effect, enough, room, pushed⟩
    exact ⟨(required, change), effect, enough, room, pushed⟩

end EvmAssigner
