import EvmAssigner.EofAgreement
import EvmAssigner.VmHost

namespace EvmAssigner
variable {F : Type} [Field F] {rev : Revision} {code data : Bytes} {analysis : CodeAnalysis}

/-- `evaluate` comes to the bytecode pass, with what it has found in the code before. -/
structure ReachesBytecode (w : World F) (rev : Revision) (code : Bytes) (circuit : Nat) (analysis : CodeAnalysis)
    (data : Bytes) : Prop where
  target : zkevm_circuits_map.lookup w.target_circuit = some circuit
  bytecode : circuit &&& BYTECODE ≠ 0
  ready : prepare rev code = .ready analysis data

/-- All bytes that the pass reads lie in the buffer that the executable part of the code lies in. -/
def ReadsInside (code : Bytes) (analysis : CodeAnalysis) : Prop :=
  ∀ i < code.length, analysis.offset + i < analysis.buffer.length

/-- The container is passed for its executable part only where this starts with the container. -/
theorem reads_inside_iff (ready : prepare rev code = .ready analysis data) : ReadsInside code analysis ↔
    rev < .PRAGUE ∨ ¬ is_eof_container code ∨
      ∃ header, read_valid_eof1_header code = some header ∧ header.code_offsets.head? = some 0 := by
  have found := (prepare_ready_iff.mp ready).1
  unfold analyze at found
  by_cases legacy : rev < .PRAGUE ∨ ¬ is_eof_container code
  · rw [if_pos legacy] at found
    obtain rfl := Option.some.inj found
    refine iff_of_true (fun i within => ?_) (legacy.imp_right Or.inl)
    have size : (pad_code code).length = code.length + 33 := by simp [pad_code]
    show 0 + i < (pad_code code).length
    omega
  · rw [if_neg legacy] at found
    obtain ⟨header, first, _, _, read, at_first, _, _, _, rfl⟩ := analyze_eof1_iff.mp found
    have eof : is_eof_container code = true := by
      by_contra other
      exact legacy (Or.inr other)
    have positive : 1 < code.length := by
      simp only [is_eof_container, Bool.and_eq_true, decide_eq_true_eq] at eof
      exact eof.1.1
    constructor
    · intro inside
      have last : first + (code.length - 1) < code.length := inside (code.length - 1) (by omega)
      obtain rfl : first = 0 := by omega
      exact Or.inr (Or.inr ⟨header, read, at_first⟩)
    · rintro (early | other | ⟨header', read', at_first'⟩)
      · exact absurd (Or.inl early) legacy
      · exact absurd eof other
      · obtain rfl := Option.some.inj (read.symm.trans read')
        obtain rfl := Option.some.inj (at_first.symm.trans at_first')
        intro i within
        show 0 + i < code.length
        omega

/-- In a container that is accepted the code sections lie behind the header. -/
theorem accepted_offset {header : EOF1Header} (accepted : validate_eof rev code = .success)
    (read : read_valid_eof1_header code = some header) : header.code_offsets.head? ≠ some 0 := by
  obtain ⟨_, _, _, header', built⟩ := validate_eof_success_iff.mp accepted
  obtain rfl := Option.some.inj (read.symm.trans (validated_read built))
  obtain ⟨type_size, code_sizes, data_size, types, valid, _, rfl, _⟩ := validate_eof1_iff.mp built
  have few := valid.few_sections
  have entries := valid.type_entries
  have limit : CODE_SECTION_NUMBER_LIMIT = 1024 := rfl
  intro zero
  cases code_sizes with
  | nil => exact nomatch zero
  | cons size sizes =>
    have start := Option.some.inj zero
    rw [Nat.mod_eq_of_lt (by omega)] at start
    omega

/-- The pass stays inside the buffer on legacy code, and on no container that is accepted. -/
theorem bytecode_reads_iff {w : World F} {circuit : Nat} (reaches : ReachesBytecode w rev code circuit analysis data) :
    (ReadsInside code analysis ↔ rev < .PRAGUE ∨ ¬ is_eof_container code ∨
      ∃ header, read_valid_eof1_header code = some header ∧ header.code_offsets.head? = some 0) ∧
    (validate_eof rev code = .success → ¬ ReadsInside code analysis) := by
  have inside := reads_inside_iff reaches.ready
  refine ⟨inside, fun accepted reads => ?_⟩
  obtain ⟨eof, _, late, _⟩ := validate_eof_success_iff.mp accepted
  rcases inside.mp reads with early | other | ⟨header, read, zero⟩
  · exact late early
  · exact other eof
  · exact accepted_offset accepted read zero

/-- A container with one section, which stops. -/
abbrev stop_container : Bytes := [0xef, 0, 1, 1, 0, 4, 2, 0, 1, 0, 1, 4, 0, 0, 0, 0, 0x80, 0, 0, 0]

abbrev stop_analysis : CodeAnalysis where
  buffer := stop_container
  offset := 19
  size := 1
  eof_header := { version := 1, code_sizes := [1], code_offsets := [19], data_size := 0, types := [⟨0, 0x80, 0⟩] }

theorem bytecode_reads_stop : (ReadsInside stop_container stop_analysis ↔
      Revision.PRAGUE < .PRAGUE ∨ ¬ is_eof_container stop_container ∨
        ∃ header, read_valid_eof1_header stop_container = some header ∧ header.code_offsets.head? = some 0) ∧
    (validate_eof .PRAGUE stop_container = .success → ¬ ReadsInside stop_container stop_analysis) :=
  @bytecode_reads_iff (ZMod 65537) _ .PRAGUE stop_container [] stop_analysis { accounts := fun _ => none } ALL
    ⟨rfl, by decide, rfl⟩

/-- For a container of 20 bytes, 20 bytes are read from its byte 19 on. -/
theorem bytecode_reads_outside : validate_eof .PRAGUE stop_container = .success ∧
    prepare .PRAGUE stop_container = .ready stop_analysis [] ∧ ¬ ReadsInside stop_container stop_analysis := by
  refine ⟨by decide, rfl, fun inside => ?_⟩
  exact absurd (inside 1 (by decide)) (by decide)

end EvmAssigner
