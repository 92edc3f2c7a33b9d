import EvmAssigner.EofHeader

namespace EvmAssigner

/-- How the preparation of a frame ends: a byte behind the code is read, or an element that a vector
does not have; or `substr` throws; or everything is there. -/
inductive Preparation where
  | out_of_bounds
  | throws
  | ready (analysis : CodeAnalysis) (data : Bytes)

/-- The steps of `evaluate` before the frame, in order. -/
def prepare (rev : Revision) (code : Bytes) : Preparation :=
  if rev < .PRAGUE ∨ ¬ is_eof_container code then .ready (analyze_legacy code) []
  else match read_valid_eof1_header code with
    | none => .out_of_bounds
    | some header =>
      if header.code_sizes = [] then .out_of_bounds
      else match analyze_eof1 code, header.get_data code with
        | some analysis, some data => .ready analysis data
        | _, _ => .throws

variable {rev : Revision} {code : Bytes}

theorem code_offsets_length {offset : Nat} {sizes : List Nat} :
    (code_offsets offset sizes).length = sizes.length := by
  induction sizes generalizing offset with
  | nil => rfl
  | cons size sizes ih => rw [code_offsets, List.length_cons, List.length_cons, ih]

theorem read_offsets_length {header : EOF1Header} (read : read_valid_eof1_header code = some header) :
    header.code_offsets.length = header.code_sizes.length := by
  obtain ⟨headers, type_size, _, _, _, _, _, rfl⟩ := read_valid_eof1_header_iff.mp read
  exact code_offsets_length

theorem analyze_eof1_iff {analysis : CodeAnalysis} :
    analyze_eof1 code = some analysis ↔
      ∃ header first last size, read_valid_eof1_header code = some header ∧
        header.code_offsets.head? = some first ∧ header.code_offsets.getLast? = some last ∧
        header.code_sizes.getLast? = some size ∧ first ≤ code.length ∧
        analysis = {
          buffer := code
          offset := first
          size := ((code.drop first).take ((last + size + 2 ^ 64 - first) % 2 ^ 64)).length
          eof_header := header } := by
  unfold analyze_eof1 substr
  constructor
  · intro h
    obtain ⟨header, read, h⟩ := Option.bind_eq_some_iff.mp h
    obtain ⟨first, at_first, h⟩ := Option.bind_eq_some_iff.mp h
    obtain ⟨last, at_last, h⟩ := Option.bind_eq_some_iff.mp h
    obtain ⟨size, at_size, h⟩ := Option.bind_eq_some_iff.mp h
    obtain ⟨executable, found, h⟩ := Option.bind_eq_some_iff.mp h
    split at found
    · rename_i within
      obtain rfl := Option.some.inj found
      exact ⟨header, first, last, size, read, at_first, at_last, at_size, within, (Option.some.inj h).symm⟩
    · exact nomatch found
  · rintro ⟨header, first, last, size, read, at_first, at_last, at_size, within, rfl⟩
    simp only [Option.bind_eq_bind, read, Option.bind_some, at_first, at_last, at_size, if_pos within]
    rfl

/-- A preparation that is ready has found what `analyze` and `get_data` find. -/
theorem prepare_ready_iff {analysis : CodeAnalysis} {data : Bytes} :
    prepare rev code = .ready analysis data ↔
      analyze rev code = some analysis ∧ analysis.eof_header.get_data code = some data := by
  unfold prepare analyze
  by_cases legacy : rev < .PRAGUE ∨ ¬ is_eof_container code
  · rw [if_pos legacy, if_pos legacy]
    constructor
    · intro h
      obtain ⟨rfl, rfl⟩ := Preparation.ready.inj h
      exact ⟨rfl, rfl⟩
    · rintro ⟨found, data_found⟩
      obtain rfl := Option.some.inj found
      rw [show data = [] from (Option.some.inj data_found).symm]
  rw [if_neg legacy, if_neg legacy]
  cases read : read_valid_eof1_header code with
  | none =>
    constructor
    · exact fun h => nomatch h
    · rintro ⟨found, _⟩
      rw [analyze_eof1, read] at found
      exact nomatch found
  | some header =>
    simp only
    by_cases none : header.code_sizes = []
    · rw [if_pos none]
      constructor
      · exact fun h => nomatch h
      · rintro ⟨found, _⟩
        obtain ⟨header', _, _, _, read', _, _, at_size, _⟩ := analyze_eof1_iff.mp found
        obtain rfl := Option.some.inj (read.symm.trans read')
        rw [none] at at_size
        exact nomatch at_size
    rw [if_neg none]
    cases found : analyze_eof1 code with
    | none =>
      constructor
      · exact fun h => nomatch h
      · exact fun h => nomatch h.1
    | some analysis' =>
      obtain ⟨header', _, _, _, read', _, _, _, _, at_analysis⟩ := analyze_eof1_iff.mp found
      obtain rfl := Option.some.inj (read.symm.trans read')
      have same : analysis'.eof_header = header := by rw [at_analysis]
      cases data_found : header.get_data code with
      | none =>
        constructor
        · exact fun h => nomatch h
        · rintro ⟨found', data_found'⟩
          obtain rfl := Option.some.inj found'
          rw [same] at data_found'
          exact nomatch data_found.symm.trans data_found'
      | some data' =>
        constructor
        · intro h
          obtain ⟨rfl, rfl⟩ := Preparation.ready.inj h
          exact ⟨rfl, same ▸ data_found⟩
        · rintro ⟨found', data_found'⟩
          obtain rfl := Option.some.inj found'
          rw [same] at data_found'
          obtain rfl := Option.some.inj (data_found.symm.trans data_found')
          rfl

/-- From byte 3 on there are complete section headers, among them a type, a code and a data section,
and the code is long enough for the type section. -/
def HeaderComplete (code : Bytes) : Prop :=
  ∃ headers type_size data_size, Sections code 3 (fun _ => []) headers ∧
    (headers TYPE_SECTION)[0]? = some type_size ∧ (headers DATA_SECTION)[0]? = some data_size ∧
    headers CODE_SECTION ≠ [] ∧
    (0 < type_size → eof_header_size headers + (type_size + 3) / 4 * 4 ≤ code.length)

/-- By their offsets of 16 bits, the first code section and the data section begin within the code. -/
def SectionsBegin (code : Bytes) : Prop :=
  ∀ headers type_size data_size, Sections code 3 (fun _ => []) headers →
    (headers TYPE_SECTION)[0]? = some type_size → (headers DATA_SECTION)[0]? = some data_size →
    (∀ first ∈ (code_offsets (eof_header_size headers + type_size) (headers CODE_SECTION)).head?,
      first ≤ code.length) ∧
    (data_size ≠ 0 → ∀ size ∈ (headers CODE_SECTION).getLast?,
      ∀ last ∈ (code_offsets (eof_header_size headers + type_size) (headers CODE_SECTION)).getLast?,
        last + size ≤ code.length)

theorem header_complete_iff : HeaderComplete code ↔
    ∃ header, read_valid_eof1_header code = some header ∧ header.code_sizes ≠ [] := by
  constructor
  · rintro ⟨headers, type_size, data_size, sections, at_type, at_data, some_code, room⟩
    obtain ⟨types, types_read⟩ := read_types_isSome.mpr room
    have long := sections.within
    exact ⟨_, read_valid_eof1_header_iff.mpr ⟨headers, type_size, data_size, types, code[2],
      ⟨sections, at_type, at_data, types_read⟩, List.getElem?_eq_getElem (by omega), rfl⟩, some_code⟩
  · rintro ⟨header, read, some_code⟩
    obtain ⟨headers, type_size, data_size, types, _, there, _, rfl⟩ := read_valid_eof1_header_iff.mp read
    exact ⟨headers, type_size, data_size, there.sections, there.type_section, there.data_section,
      some_code, read_types_isSome.mp ⟨types, there.types_read⟩⟩

theorem sections_begin_iff {header : EOF1Header} (read : read_valid_eof1_header code = some header) :
    SectionsBegin code ↔ (∀ first ∈ header.code_offsets.head?, first ≤ code.length) ∧
      (header.data_size ≠ 0 → ∀ size ∈ header.code_sizes.getLast?, ∀ last ∈ header.code_offsets.getLast?,
        last + size ≤ code.length) := by
  obtain ⟨headers, type_size, data_size, types, _, there, _, rfl⟩ := read_valid_eof1_header_iff.mp read
  constructor
  · exact fun begins => begins headers type_size data_size there.sections there.type_section there.data_section
  · rintro begins headers' type_size' data_size' sections at_type at_data
    obtain rfl := there.sections.unique sections
    obtain rfl := Option.some.inj (there.type_section.symm.trans at_type)
    obtain rfl := Option.some.inj (there.data_section.symm.trans at_data)
    exact begins

theorem get_data_isSome {header : EOF1Header} (same : header.code_offsets.length = header.code_sizes.length)
    (some_code : header.code_sizes ≠ []) :
    (∃ data, header.get_data code = some data) ↔
      (header.data_size ≠ 0 → ∀ size ∈ header.code_sizes.getLast?, ∀ last ∈ header.code_offsets.getLast?,
        last + size ≤ code.length) := by
  have some_offset : header.code_offsets ≠ [] := by
    rw [← List.length_pos_iff, same]
    exact List.length_pos_iff.mpr some_code
  unfold EOF1Header.get_data substr
  rw [List.getLast?_eq_some_getLast some_offset, List.getLast?_eq_some_getLast some_code]
  by_cases no_data : header.data_size = 0
  · simp [no_data]
  · simp [no_data]

/-- The preparation stays within the code exactly when the code is a legacy one, or has all the
headers the reader takes for granted; and it gets through when moreover the sections begin there. -/
theorem preparation_safe_iff (rev : Revision) (code : Bytes) :
    (prepare rev code ≠ .out_of_bounds ↔
      rev < .PRAGUE ∨ ¬ is_eof_container code ∨ HeaderComplete code) ∧
    ((∃ analysis data, prepare rev code = .ready analysis data) ↔
      rev < .PRAGUE ∨ ¬ is_eof_container code ∨ HeaderComplete code ∧ SectionsBegin code) := by
  rw [← or_assoc, ← or_assoc]
  by_cases legacy : rev < .PRAGUE ∨ ¬ is_eof_container code
  · have ready : prepare rev code = .ready (analyze_legacy code) [] := if_pos legacy
    rw [ready]
    exact ⟨⟨fun _ => Or.inl legacy, fun _ => Preparation.noConfusion⟩,
      fun _ => Or.inl legacy, fun _ => ⟨_, _, rfl⟩⟩
  simp only [legacy, false_or]
  cases read : read_valid_eof1_header code with
  | none =>
    have incomplete : ¬ HeaderComplete code := by
      rw [header_complete_iff, read]
      rintro ⟨_, h, _⟩
      exact nomatch h
    have outside : prepare rev code = .out_of_bounds := by
      rw [prepare, if_neg legacy, read]
    rw [outside]
    simp [incomplete]
  | some header =>
    by_cases none : header.code_sizes = []
    · have incomplete : ¬ HeaderComplete code := by
        rw [header_complete_iff, read]
        rintro ⟨header', h, some_code⟩
        obtain rfl := Option.some.inj h
        exact some_code none
      have outside : prepare rev code = .out_of_bounds := by
        rw [prepare, if_neg legacy, read]
        exact if_pos none
      rw [outside]
      simp [incomplete]
    have complete : HeaderComplete code := header_complete_iff.mpr ⟨header, read, none⟩
    have same := read_offsets_length read
    rw [sections_begin_iff read]
    simp only [complete, true_and, iff_true]
    constructor
    · rw [prepare, if_neg legacy, read]
      simp only [if_neg none]
      split <;> exact Preparation.noConfusion
    · constructor
      · rintro ⟨analysis, data, ready⟩
        obtain ⟨found, data_found⟩ := prepare_ready_iff.mp ready
        rw [analyze, if_neg legacy] at found
        obtain ⟨header', first, _, _, read', at_first, _, _, within, rfl⟩ := analyze_eof1_iff.mp found
        obtain rfl := Option.some.inj (read.symm.trans read')
        refine ⟨fun first' at_first' => ?_, (get_data_isSome same none).mp ⟨data, data_found⟩⟩
        obtain rfl := Option.some.inj (at_first.symm.trans at_first')
        exact within
      · rintro ⟨starts, data_starts⟩
        obtain ⟨data, data_found⟩ := (get_data_isSome same none).mpr data_starts
        have some_offset : header.code_offsets ≠ [] := by
          rw [← List.length_pos_iff, same]
          exact List.length_pos_iff.mpr none
        have found := analyze_eof1_iff.mpr ⟨header, _, _, _, read, List.head?_eq_some_head some_offset,
          List.getLast?_eq_some_getLast some_offset, List.getLast?_eq_some_getLast none,
          starts _ (List.head?_eq_some_head some_offset), rfl⟩
        have analyzed : analyze rev code = _ := (if_neg legacy).trans found
        exact ⟨_, data, prepare_ready_iff.mpr ⟨analyzed, data_found⟩⟩

/-- Two bytes are enough for the code to be taken for a container. -/
theorem preparation_unsafe : ¬ prepare .PRAGUE [0xef, 0x00] ≠ .out_of_bounds := by
  have outside : prepare .PRAGUE [0xef, 0x00] = .out_of_bounds := rfl
  exact fun safe => safe outside

end EvmAssigner
