import EvmAssigner.EofValidation

namespace EvmAssigner
variable {container : Bytes} {type_size data_size : Nat}

theorem Validated.bind_eq_ok {α β : Type} {m : Validated α} {f : α → Validated β} {b : β} :
    (m >>= f) = .ok b ↔ ∃ a, m = .ok a ∧ f a = .ok b := by
  cases m with
  | error _ =>
    constructor
    · exact fun h => nomatch h
    · rintro ⟨_, h, _⟩
      exact nomatch h
  | ok a =>
    constructor
    · exact fun h => ⟨a, rfl, h⟩
    · rintro ⟨_, same, h⟩
      obtain rfl := Except.ok.inj same
      exact h

theorem Validated.guard_eq_ok {α : Type} {c : Prop} [Decidable c] {error : EOFValidationError}
    {m : Validated α} {a : α} : (if c then .error error else m) = .ok a ↔ ¬ c ∧ m = .ok a := by
  by_cases h : c
  · simp [h]
  · simp [h]

/-- An error is not a success. -/
def Validated.Honest {α : Type} (m : Validated α) : Prop := m ≠ .error .success

section
variable {α β : Type} {m : Validated α} {f : α → Validated β}

@[simp] theorem Validated.honest_ok {a : α} : Validated.Honest (Except.ok a : Validated α) := nofun

@[simp] theorem Validated.honest_pure {a : α} : Validated.Honest (pure a : Validated α) := nofun

@[simp] theorem Validated.honest_error {error : EOFValidationError} :
    Validated.Honest (Except.error error : Validated α) ↔ error ≠ .success := by
  simp [Validated.Honest]

theorem Validated.Honest.bind (first : m.Honest) (rest : ∀ a, (f a).Honest) : (m >>= f).Honest := by
  cases m with
  | error error => exact fun same => first (congrArg Except.error (Except.error.inj same))
  | ok a => exact rest a

@[simp] theorem Validated.honest_ite {c : Prop} [Decidable c] {m' : Validated α} :
    (if c then m else m').Honest ↔ (c → m.Honest) ∧ (¬ c → m'.Honest) := by
  by_cases h : c
  · simp [h]
  · simp [h]

end

theorem read_section_id_honest {l : HeaderLoop} : (l.read_section_id container).Honest := by
  have missing : get_section_missing_error l.expected_section_id ≠ .success := by
    unfold get_section_missing_error
    split_ifs <;> simp
  simp [HeaderLoop.read_section_id, missing]

theorem read_code_sizes_honest {n : Nat} {l : HeaderLoop} : (l.read_code_sizes container n).Honest := by
  induction n generalizing l with
  | zero => simp [HeaderLoop.read_code_sizes]
  | succ n ih => simp [HeaderLoop.read_code_sizes, ih]

theorem read_section_size_honest {l : HeaderLoop} : (l.read_section_size container).Honest := by
  rw [HeaderLoop.read_section_size, Validated.honest_ite]
  exact ⟨fun _ => read_code_sizes_honest.bind fun _ => Validated.honest_pure, fun _ => by simp⟩

theorem validate_eof_headers_honest : (validate_eof_headers container).Honest := by
  have loop (fuel : Nat) (l : HeaderLoop) : (validate_eof_headers_loop container fuel l).Honest := by
    induction fuel generalizing l with
    | zero => simp [validate_eof_headers_loop]
    | succ fuel ih =>
      rw [validate_eof_headers_loop, Validated.honest_ite]
      refine ⟨fun _ => Validated.honest_ok, fun _ => ?_⟩
      split
      · exact read_section_id_honest.bind ih
      · exact read_section_size_honest.bind ih
      · exact Validated.honest_ok
  exact (loop _ _).bind fun l => by simp

theorem validate_types_honest {header_size : Nat} : (validate_types container header_size type_size).Honest := by
  have limits (types : List EOFCodeType) : (validate_type_limits types).Honest := by
    induction types with
    | nil => simp [validate_type_limits]
    | cons t types ih => simp [validate_type_limits, ih]
  unfold validate_types
  simp only
  split
  · simp
  · rw [Validated.honest_ite]
    exact ⟨fun _ => by simp, fun _ => (limits _).bind fun _ => Validated.honest_pure⟩

section
variable {code : Bytes} {types : List EOFCodeType} {type : EOFCodeType}

theorem validate_instructions_honest {rev : Revision} :
    (validate_instructions code types rev data_size type).Honest := by
  have loop (cost_table : Opcode → Int) (fuel i : Nat) (is_returning : Bool) :
      (validate_instructions_loop code types cost_table data_size fuel i is_returning).Honest := by
    induction fuel generalizing i is_returning with
    | zero => simp [validate_instructions_loop]
    | succ fuel ih =>
      rw [validate_instructions_loop, Validated.honest_ite]
      refine ⟨fun _ => Validated.honest_ok, fun _ => ?_⟩
      split
      · simp
      · simp only [Validated.honest_ite, Validated.honest_error, ne_eq, reduceCtorEq, not_false_eq_true,
          implies_true, true_and]
        intro _ _
        split
        · simp [ih]
        · split <;> simp [ih]
        · exact ih _ _
        · split <;> simp [ih]
        · simp [ih]
        · exact ih _ _
  exact (loop _ _ _ _).bind fun _ => by simp

theorem visit_honest {h : StackHeights} {i : Nat} : (h.visit code types type i).Honest := by
  have effect : (height_effect code types type (opcode_or (code.getD i 0)) i (h.stack_heights i)).Honest := by
    unfold height_effect
    split <;> simp
  have successor (h : StackHeights) (offset : Nat) (height : Int) :
      (h.validate_successor offset height).Honest := by
    simp [StackHeights.validate_successor]
  have successors (height : Int) (offsets : List Nat) (h : StackHeights) :
      (h.validate_successors height offsets).Honest := by
    induction offsets generalizing h with
    | nil => simp [StackHeights.validate_successors]
    | cons offset offsets ih => exact (successor h offset height).bind ih
  refine effect.bind fun _ => ?_
  simp [successors]

theorem validate_max_stack_height_honest : (validate_max_stack_height code types type).Honest := by
  have loop (fuel : Nat) (h : StackHeights) :
      (validate_max_stack_height_loop code types type fuel h).Honest := by
    induction fuel generalizing h with
    | zero => simp [validate_max_stack_height_loop]
    | succ fuel ih =>
      rw [validate_max_stack_height_loop]
      split
      · simp
      · exact visit_honest.bind ih
  exact (loop _ _).bind fun _ => by simp

end

theorem validate_eof1_honest {rev : Revision} : (validate_eof1 rev container).Honest := by
  have code (header : EOF1Header) (code_idx : Nat) : (validate_code rev header container code_idx).Honest :=
    validate_instructions_honest.bind fun _ => by
      rw [Validated.honest_ite]
      exact ⟨fun _ => by simp, fun _ => validate_max_stack_height_honest.bind fun _ => by simp⟩
  have codes (header : EOF1Header) (indices : List Nat) :
      (validate_codes rev header container indices).Honest := by
    induction indices with
    | nil => simp [validate_codes]
    | cons code_idx indices ih => exact (code header code_idx).bind fun _ => ih
  exact validate_eof_headers_honest.bind fun _ => validate_types_honest.bind fun _ =>
    (codes _ _).bind fun _ => Validated.honest_pure

/-- A container that is accepted has a header. -/
theorem validate_eof_success_iff {rev : Revision} : validate_eof rev container = .success ↔
    is_eof_container container = true ∧ get_eof_version container = 1 ∧ ¬ rev < .PRAGUE ∧
      ∃ header, validate_eof1 rev container = .ok header := by
  unfold validate_eof
  cases is_eof_container container with
  | false => simp
  | true =>
    by_cases version : get_eof_version container = 1
    · by_cases early : rev < .PRAGUE
      · simp [version, early]
      · have honest : (validate_eof1 rev container).Honest := validate_eof1_honest
        cases built : validate_eof1 rev container with
        | ok header => simp [version, early]
        | error error =>
          rw [built, Validated.honest_error] at honest
          simp [version, early, honest]
    · simp [version]

end EvmAssigner
