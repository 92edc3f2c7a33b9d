import EvmAssigner.EofSteps

namespace EvmAssigner
variable {H : Type}

theorem code_offsets_getD {offset idx : Nat} {sizes : List Nat} (fit : OffsetsFit offset sizes)
    (listed : idx < sizes.length) :
    (code_offsets offset sizes).getD idx 0 = offset + (sizes.take idx).sum ∧
      (sizes.take idx).sum + sizes.getD idx 0 ≤ sizes.sum := by
  induction sizes generalizing offset idx with
  | nil => exact absurd listed (Nat.not_lt_zero _)
  | cons size sizes ih =>
    obtain ⟨small, fit⟩ := fit
    cases idx with
    | zero =>
      rw [code_offsets, List.getD_cons_zero, List.getD_cons_zero, List.sum_cons]
      simp only [List.take_zero, List.sum_nil]
      omega
    | succ idx =>
      obtain ⟨begins, within⟩ := ih fit (Nat.lt_of_succ_lt_succ listed)
      rw [code_offsets, List.getD_cons_succ, List.getD_cons_succ, List.take_succ_cons, List.sum_cons,
        List.sum_cons, begins]
      omega

/-- What the validation of a container says about the code that is executed. -/
structure ContainerTyped (container : Bytes) (header : EOF1Header) (heights : Nat → Nat → Int) : Prop where
  sections (idx : Nat) (listed : idx < header.types.length) : SectionTyped (header.get_code container idx)
    header.types (header.types.getD idx default) header.data_size (get_baseline_cost_table .PRAGUE 1)
    (heights idx)
  limited : ∀ t ∈ header.types, t.Limited
  first : ∃ first ∈ header.types.head?, first.inputs = 0 ∧ first.outputs = NON_RETURNING_FUNCITON
  version : header.version = 1

/-- The analysis has the sections of the container where the header says. -/
structure Located (container : Bytes) (header : EOF1Header) (analysis : CodeAnalysis) (data : Bytes) :
    Prop where
  reads (idx : Nat) (listed : idx < header.types.length) (k : Nat)
    (within : k < (header.get_code container idx).length) :
    analysis.code_at (header.section_begin idx + k) = (header.get_code container idx).getD k 0
  data : data.length = header.data_size
  header : analysis.eof_header = header

section
variable {container : Bytes} {header : EOF1Header}

theorem validate_codes_ok {rev : Revision} {indices : List Nat}
    (ok : validate_codes rev header container indices = .ok ()) :
    ∀ idx ∈ indices, validate_code rev header container idx = .ok () := by
  induction indices with
  | nil => exact fun _ none => absurd none List.not_mem_nil
  | cons code_idx indices ih =>
    obtain ⟨_, first, rest⟩ := Validated.bind_eq_ok.mp ok
    exact List.forall_mem_cons.mpr ⟨first, ih rest⟩

theorem get_code_length {idx : Nat}
    (inside : header.code_offsets.getD idx 0 + header.code_sizes.getD idx 0 ≤ container.length) :
    (header.get_code container idx).length = header.code_sizes.getD idx 0 := by
  rw [EOF1Header.get_code, List.length_take, List.length_drop]
  omega

theorem get_code_getD {idx k : Nat} (within : k < header.code_sizes.getD idx 0) :
    (header.get_code container idx).getD k 0 = container.getD (header.code_offsets.getD idx 0 + k) 0 := by
  rw [EOF1Header.get_code, List.getD_eq_getElem?_getD, List.getElem?_take_of_lt within, List.getElem?_drop]
  exact List.getD_eq_getElem?_getD.symm

section
variable {type_size data_size : Nat} {code_sizes : List Nat} {types : List EOFCodeType}
  (valid : HeadersValid container type_size code_sizes data_size)
  (at_types : validate_types container (13 + 2 * code_sizes.length) type_size = .ok types)
  (fit : OffsetsFit (13 + 2 * code_sizes.length + type_size) code_sizes)
include valid at_types fit

theorem HeadersValid.section_inside {idx : Nat} (listed : idx < types.length) :
    (code_offsets (13 + 2 * code_sizes.length + type_size) code_sizes).getD idx 0 +
      code_sizes.getD idx 0 ≤ container.length := by
  have entries := valid.type_entries
  have bodies := valid.bodies
  have before := (List.getElem?_eq_some_iff.mp valid.terminator).1
  have count := valid.types_length at_types
  obtain ⟨begins, within⟩ := code_offsets_getD fit (show idx < code_sizes.length by omega)
  omega

theorem HeadersValid.located
    (read : read_valid_eof1_header container = some (built_header container type_size code_sizes data_size types)) :
    ∃ analysis data, analyze_eof1 container = some analysis ∧
      (built_header container type_size code_sizes data_size types).get_data container = some data ∧
      Located container (built_header container type_size code_sizes data_size types) analysis data := by
  have inside {idx : Nat} (listed : idx < types.length) := valid.section_inside at_types fit listed
  have bodies := valid.bodies
  have some_code := valid.some_code
  have before := (List.getElem?_eq_some_iff.mp valid.terminator).1
  obtain ⟨first_size, sizes, rfl⟩ : ∃ first_size sizes, code_sizes = first_size :: sizes :=
    List.exists_cons_of_length_pos (by omega)
  have ends := data_offset_eq fit nofun
  rw [List.getLastD_eq_getLast?, List.getLastD_eq_getLast?] at ends
  set begin := 13 + 2 * (first_size :: sizes).length + type_size
  obtain ⟨last, at_last⟩ : ∃ last, (code_offsets begin (first_size :: sizes)).getLast? = some last :=
    ⟨_, List.getLast?_eq_some_getLast (List.cons_ne_nil _ _)⟩
  obtain ⟨size, at_size⟩ : ∃ size, (first_size :: sizes).getLast? = some size :=
    ⟨_, List.getLast?_eq_some_getLast (List.cons_ne_nil _ _)⟩
  rw [at_last, at_size, Option.getD_some, Option.getD_some] at ends
  refine ⟨_, ((container.drop (last + size)).take data_size), analyze_eof1_iff.mpr ⟨_, begin % 2 ^ 16, last, size,
    read, rfl, at_last, at_size, ?_, rfl⟩, ?_, ?_, ?_, rfl⟩
  · have small := fit.1
    omega
  · unfold EOF1Header.get_data
    show (if data_size = 0 then some [] else _) = _
    by_cases empty : data_size = 0
    · rw [if_pos empty, empty, List.take_zero]
    · rw [if_neg empty]
      show ((code_offsets begin (first_size :: sizes)).getLast?.bind fun code_offset =>
        (first_size :: sizes).getLast?.bind fun code_size => substr container (code_offset + code_size) data_size) = _
      rw [at_last, at_size, Option.bind_some, Option.bind_some, substr, if_pos (by omega)]
  · intro idx listed k within
    rw [get_code_length (inside listed)] at within
    rw [get_code_getD within, CodeAnalysis.code_at]
    have begins : (((begin % 2 ^ 16 : Nat) : Int) + (EOF1Header.section_begin
        (built_header container type_size (first_size :: sizes) data_size types) idx + k)) =
        (((code_offsets begin (first_size :: sizes)).getD idx 0 + k : Nat) : Int) := by
      show ((begin % 2 ^ 16 : Nat) : Int) + ((((code_offsets begin (first_size :: sizes)).getD idx 0 : Nat) : Int) -
        ((begin % 2 ^ 16 : Nat) : Int) + k) = _
      omega
    simp only [begins]
    rw [if_pos (by omega), Int.toNat_natCast]
    rfl
  · rw [List.length_take, List.length_drop]
    show min data_size _ = data_size
    omega

/-- Where the bytes of a section are in the container. -/
theorem HeadersValid.position {analysis : CodeAnalysis} {idx k : Nat}
    (read : read_valid_eof1_header container = some (built_header container type_size code_sizes data_size types))
    (analysed : analyze_eof1 container = some analysis) (listed : idx < types.length)
    (within : k < ((built_header container type_size code_sizes data_size types).get_code container idx).length) :
    0 ≤ (analysis.offset : Int) +
        ((built_header container type_size code_sizes data_size types).section_begin idx + k) ∧
      (analysis.offset : Int) +
        ((built_header container type_size code_sizes data_size types).section_begin idx + k) < container.length := by
  have inside := valid.section_inside at_types fit listed
  rw [get_code_length inside] at within
  obtain ⟨header, first, _, _, read', at_first, _, _, _, rfl⟩ := analyze_eof1_iff.mp analysed
  obtain rfl := Option.some.inj (read.symm.trans read')
  have begins : (code_offsets (13 + 2 * code_sizes.length + type_size) code_sizes).getD 0 0 = first := by
    rw [List.getD_eq_getElem?_getD, ← List.head?_eq_getElem?]
    exact congrArg (Option.getD · 0) at_first
  have within' : k < code_sizes.getD idx 0 := within
  show 0 ≤ (first : Int) + (((code_offsets _ code_sizes).getD idx 0 : Nat) -
      ((code_offsets _ code_sizes).getD 0 0 : Nat) + (k : Int)) ∧
    (first : Int) + (((code_offsets _ code_sizes).getD idx 0 : Nat) -
      ((code_offsets _ code_sizes).getD 0 0 : Nat) + (k : Int)) < container.length
  rw [begins]
  omega

end

/-- The sections of what is accepted are inside the container. -/
theorem validated_inside {analysis : CodeAnalysis} (built : validate_eof1 .PRAGUE container = .ok header)
    (fit : CodeOffsetsFit container) (analysed : analyze_eof1 container = some analysis) {idx k : Nat}
    (listed : idx < header.types.length) (within : k < (header.get_code container idx).length) :
    0 ≤ (analysis.offset : Int) + (header.section_begin idx + k) ∧
      (analysis.offset : Int) + (header.section_begin idx + k) < container.length := by
  have read := validated_read built
  obtain ⟨type_size, code_sizes, data_size, types, valid, at_types, rfl, _⟩ := validate_eof1_iff.mp built
  exact valid.position at_types (valid.offsets_fit_iff.mp fit) read analysed listed within

/-- What is accepted, and laid out as its header says, is typed, and its analysis has it there. -/
theorem validated_typed (built : validate_eof1 .PRAGUE container = .ok header)
    (version : get_eof_version container = 1) (fit : CodeOffsetsFit container) :
    ∃ heights, ContainerTyped container header heights ∧
      ∃ analysis data, analyze_eof1 container = some analysis ∧ header.get_data container = some data ∧
        Located container header analysis data := by
  have read := validated_read built
  obtain ⟨type_size, code_sizes, data_size, types, valid, at_types, rfl, codes⟩ := validate_eof1_iff.mp built
  obtain ⟨_, first, limited⟩ := validate_types_iff.mp at_types
  have entries := valid.type_entries
  have count := valid.types_length at_types
  replace fit := valid.offsets_fit_iff.mp fit
  have located := valid.located at_types fit read
  have inside {idx : Nat} (listed : idx < types.length) := valid.section_inside at_types fit listed
  set header := built_header container type_size code_sizes data_size types
  have version_one : header.version = 1 := by
    unfold get_eof_version at version
    split at version
    · exact version
    · contradiction
  have typed (idx : Nat) : ∃ heights, idx < types.length → SectionTyped (header.get_code container idx)
      header.types (header.types.getD idx default) header.data_size (get_baseline_cost_table .PRAGUE 1)
      heights := by
    by_cases listed : idx < types.length
    · have within : idx < code_sizes.length := by omega
      have some_code : 0 < (header.get_code container idx).length := by
        have nonzero := valid.no_empty_code _ (List.getElem_mem within)
        rw [get_code_length (inside listed)]
        show 0 < code_sizes.getD idx 0
        rw [List.getD_eq_getElem?_getD, List.getElem?_eq_getElem within, Option.getD_some]
        omega
      obtain ⟨heights, typed⟩ := validate_code_typed limited some_code
        (validate_codes_ok codes idx (List.mem_range.mpr within))
      exact ⟨heights, fun _ => typed⟩
    · exact ⟨fun _ => 0, fun listed' => absurd listed' listed⟩
  choose heights typed using typed
  exact ⟨heights, ⟨typed, limited, first, version_one⟩, located⟩

end
end EvmAssigner
