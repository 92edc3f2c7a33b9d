import EvmAssigner.ByteOrder
import EvmAssigner.EofAgreement
import EvmAssigner.EofLayout
import EvmAssigner.Lib.Layout

namespace EvmAssigner

/-- The sections of a container, no larger than its header can say. -/
structure EOFSections where
  types : List EOFCodeType
  codes : List Bytes
  data : Bytes
  typed : types.length = codes.length
  some_code : codes.length ≠ 0
  few_sections : codes.length ≤ CODE_SECTION_NUMBER_LIMIT
  code_sizes : ∀ code ∈ codes, code.length ≠ 0 ∧ code.length < 2 ^ 16
  type_fields : ∀ t ∈ types, t.inputs < 2 ^ 8 ∧ t.outputs < 2 ^ 8 ∧ t.max_stack_height < 2 ^ 16
  data_size : data.length < 2 ^ 16

def EOFCodeType.encode (t : EOFCodeType) : Bytes :=
  UInt8.ofNat t.inputs :: UInt8.ofNat t.outputs :: be_store 2 t.max_stack_height

namespace EOFSections
variable (c : EOFSections)

/-- The container with these sections. -/
def encode : Bytes :=
  [0xef, 0x00, 0x01] ++ (TYPE_SECTION :: be_store 2 (4 * c.codes.length)) ++
    (CODE_SECTION :: be_store 2 c.codes.length) ++ c.codes.flatMap (fun code => be_store 2 code.length) ++
    (DATA_SECTION :: be_store 2 c.data.length) ++ [TERMINATOR] ++
    c.types.flatMap EOFCodeType.encode ++ c.codes.flatten ++ c.data

/-- What `read_valid_eof1_header` is to make of it. -/
def header : EOF1Header where
  version := 1
  code_sizes := c.codes.map List.length
  code_offsets := code_offsets (13 + 6 * c.codes.length) (c.codes.map List.length)
  data_size := c.data.length
  types := c.types

/-- Each code section begins within the first 65536 bytes. -/
def Fits : Prop := OffsetsFit (13 + 6 * c.codes.length) (c.codes.map List.length)

end EOFSections

section
variable {container : Bytes} {it : Nat}

theorem container_uint16_be_iff {n : Nat} (small : n < 2 ^ 16) :
    container_uint16_be container it = some n ↔ LiesAt container it (be_store 2 n) := by
  have stored : be_store 2 n = [UInt8.ofNat (n / 256), UInt8.ofNat n] := by simp [be_store, List.range_succ]
  have bytes (h l : UInt8) : h.toNat * 256 + l.toNat = n ↔ h = UInt8.ofNat (n / 256) ∧ l = UInt8.ofNat n := by
    rw [← UInt8.toNat_inj, ← UInt8.toNat_inj, UInt8.toNat_ofNat', UInt8.toNat_ofNat']
    have high := h.toNat_lt
    have low := l.toNat_lt
    omega
  rw [stored, liesAt_cons, liesAt_singleton, container_uint16_be]
  cases container[it]? with
  | none => simp
  | some h =>
    cases container[it + 1]? with
    | none => simp
    | some l => simpa using bytes h l

theorem sizesAt_iff {sizes : List Nat} (small : ∀ size ∈ sizes, size < 2 ^ 16) :
    SizesAt container it sizes ↔ LiesAt container it (sizes.flatMap (be_store 2)) := by
  rw [liesAt_flatMap fun _ _ => be_store_length 2 _]
  constructor
  · intro at_sizes i size at_i
    obtain ⟨within, rfl⟩ := List.getElem?_eq_some_iff.mp at_i
    rw [← container_uint16_be_iff (small _ (List.getElem_mem within)), at_sizes i within, at_i]
  · intro lies i within
    have at_i := List.getElem?_eq_getElem within
    rw [at_i, container_uint16_be_iff (small _ (List.getElem_mem within))]
    exact lies i _ at_i

theorem EOFCodeType.encode_length (t : EOFCodeType) : t.encode.length = 4 := by
  simp [EOFCodeType.encode]

theorem read_type_iff {t : EOFCodeType}
    (fields : t.inputs < 2 ^ 8 ∧ t.outputs < 2 ^ 8 ∧ t.max_stack_height < 2 ^ 16) :
    read_type container it = some t ↔ LiesAt container it t.encode := by
  obtain ⟨inputs, outputs, max_stack_height⟩ := t
  obtain ⟨few_inputs, few_outputs, low⟩ := fields
  have byte {n : Nat} (small : n < 2 ^ 8) (b : UInt8) : b.toNat = n ↔ b = UInt8.ofNat n := by
    rw [← UInt8.toNat_inj, UInt8.toNat_ofNat']
    have bound := b.toNat_lt
    omega
  have next : it + 1 + 1 = it + 2 := rfl
  rw [EOFCodeType.encode, liesAt_cons, liesAt_cons, next, ← container_uint16_be_iff low, read_type]
  cases container[it]? with
  | none => simp
  | some i =>
    cases container[it + 1]? with
    | none => simp
    | some o =>
      cases container_uint16_be container (it + 2) with
      | none => simp
      | some height => simp [byte few_inputs, byte few_outputs]

namespace EOFSections
variable (c : EOFSections)

/-- Where the sections of `c` are in a container, and that there is nothing else. -/
structure LaidOut (container : Bytes) : Prop where
  format : LiesAt container 0 [0xef, 0x00, 0x01]
  at_header : HeaderAt container (4 * c.codes.length) (c.codes.map List.length) c.data.length
  at_types : ∀ (i : Nat) t, c.types[i]? = some t → read_type container (13 + 2 * c.codes.length + 4 * i) = some t
  at_codes : ∀ (i : Nat) code, c.codes[i]? = some code →
    LiesAt container (13 + 6 * c.codes.length + ((c.codes.take i).map List.length).sum) code
  at_data : LiesAt container (13 + 6 * c.codes.length + (c.codes.map List.length).sum) c.data
  length : container.length = 13 + 6 * c.codes.length + (c.codes.map List.length).sum + c.data.length

theorem encode_eq_iff : c.encode = container ↔ c.LaidOut container := by
  have few : c.codes.length < 2 ^ 16 := lt_of_le_of_lt c.few_sections (by decide)
  have few_types : 4 * c.codes.length < 2 ^ 16 :=
    lt_of_le_of_lt (Nat.mul_le_mul_left 4 c.few_sections) (by decide)
  have small : ∀ size ∈ c.codes.map List.length, size < 2 ^ 16 := by
    intro size member
    obtain ⟨code, listed, rfl⟩ := List.mem_map.mp member
    exact (c.code_sizes code listed).2
  have sizes_length : (c.codes.flatMap fun code => be_store 2 code.length).length = 2 * c.codes.length :=
    length_flatMap_of_long fun _ _ => be_store_length 2 _
  have types_length : (c.types.flatMap EOFCodeType.encode).length = 4 * c.codes.length :=
    c.typed ▸ length_flatMap_of_long fun t _ => t.encode_length
  have sizes : (c.codes.flatMap fun code => be_store 2 code.length) =
      (c.codes.map List.length).flatMap (be_store 2) := (List.flatMap_map _ _ _).symm
  have length : c.encode.length = 13 + 6 * c.codes.length + (c.codes.map List.length).sum + c.data.length := by
    simp only [encode, List.length_append, List.length_cons, be_store_length, sizes_length, types_length,
      List.length_nil, List.length_flatten]
    omega
  have field {it n : Nat} {id : UInt8} {rest : Bytes} (bound : n < 2 ^ 16) :
      LiesAt container it (id :: be_store 2 n ++ rest) ↔ (container[it]? = some id ∧
        container_uint16_be container (it + 1) = some n) ∧ LiesAt container (it + 3) rest := by
    rw [liesAt_append, liesAt_cons, container_uint16_be_iff bound, List.length_cons, be_store_length]
  have behind_sizes : 9 + (c.codes.flatMap fun code => be_store 2 code.length).length = 9 + 2 * c.codes.length := by
    rw [sizes_length]
  have behind_types : 13 + 2 * c.codes.length + (c.types.flatMap EOFCodeType.encode).length =
      13 + 6 * c.codes.length := by
    rw [types_length]
    omega
  have behind_codes : 13 + 6 * c.codes.length + c.codes.flatten.length =
      13 + 6 * c.codes.length + (c.codes.map List.length).sum := by
    rw [List.length_flatten]
  rw [liesAt_whole, length, encode]
  simp only [List.append_assoc]
  rw [liesAt_append_at (show 0 + List.length [0xef, 0x00, (0x01 : UInt8)] = 3 from rfl), field few_types, field few,
    liesAt_append_at behind_sizes, field c.data_size, liesAt_append, liesAt_singleton]
  rw [show 9 + 2 * c.codes.length + 3 = 12 + 2 * c.codes.length by omega,
    show 12 + 2 * c.codes.length + List.length [TERMINATOR] = 13 + 2 * c.codes.length by simp; omega,
    liesAt_append_at behind_types, liesAt_append_at behind_codes, sizes, ← sizesAt_iff small,
    liesAt_flatMap fun t _ => t.encode_length, liesAt_flatten]
  constructor
  · rintro ⟨⟨format, ⟨type_id, at_type_size⟩, ⟨code_id, code_num⟩, at_code_sizes, ⟨data_id, at_data_size⟩,
      terminator, at_types, at_codes, at_data⟩, length⟩
    rw [Nat.add_right_comm] at at_data_size
    have counted : (c.codes.map List.length).length = c.codes.length := List.length_map _
    rw [← counted] at code_num data_id at_data_size terminator
    refine ⟨format, ⟨type_id, at_type_size, code_id, code_num, at_code_sizes, data_id, at_data_size, terminator⟩,
      fun i t at_i => ?_, at_codes, at_data, length.symm⟩
    exact (read_type_iff (c.type_fields t (List.mem_of_getElem? at_i))).mpr (at_types i t at_i)
  · rintro ⟨format, at_header, at_types, at_codes, at_data, length⟩
    obtain ⟨type_id, at_type_size, code_id, code_num, at_code_sizes, data_id, at_data_size, terminator⟩ := at_header
    rw [List.length_map] at code_num data_id at_data_size terminator
    refine ⟨⟨format, ⟨type_id, at_type_size⟩, ⟨code_id, code_num⟩, at_code_sizes, ⟨data_id, ?_⟩, terminator,
      fun i t at_i => ?_, at_codes, at_data⟩, length.symm⟩
    · rw [Nat.add_right_comm]
      exact at_data_size
    · exact (read_type_iff (c.type_fields t (List.mem_of_getElem? at_i))).mp (at_types i t at_i)

section
variable {c : EOFSections}

theorem LaidOut.headers_valid (laid_out : c.LaidOut container) :
    HeadersValid container (4 * c.codes.length) (c.codes.map List.length) c.data.length where
  toHeaderAt := laid_out.at_header
  some_code := by
    rw [List.length_map]
    exact c.some_code
  few_sections := by
    rw [List.length_map]
    exact c.few_sections
  no_empty_code size member := by
    obtain ⟨code, listed, rfl⟩ := List.mem_map.mp member
    exact (c.code_sizes code listed).1
  type_entries := by
    rw [List.length_map]
    omega
  bodies := by
    have length := laid_out.length
    rw [List.length_map]
    omega

theorem LaidOut.header_read (laid_out : c.LaidOut container) :
    HeaderRead container (three_sections (4 * c.codes.length) (c.codes.map List.length) c.data.length)
      (4 * c.codes.length) c.data.length c.types where
  sections := laid_out.at_header.sections
  type_section := rfl
  data_section := rfl
  types_read := by
    have size : (4 * c.codes.length + 3) / 4 = c.types.length := by
      rw [c.typed]
      omega
    rw [three_sections_header_size, mapM_eq_some_iff, List.length_map, type_positions, size, List.forall₂_map_left_iff,
      List.forall₂_iff_get]
    refine ⟨List.length_range, fun i listed within => ?_⟩
    simpa using laid_out.at_types i _ (List.getElem?_eq_getElem within)

theorem LaidOut.read (laid_out : c.LaidOut container) : read_valid_eof1_header container = some c.header := by
  obtain ⟨_, format⟩ := liesAt_cons.mp laid_out.format
  obtain ⟨_, format⟩ := liesAt_cons.mp format
  have version : container[2]? = some 1 := liesAt_singleton.mp format
  refine read_valid_eof1_header_iff.mpr ⟨_, _, _, _, _, laid_out.header_read, version, ?_⟩
  have begins : 13 + 2 * (c.codes.map List.length).length + 4 * c.codes.length = 13 + 6 * c.codes.length := by
    rw [List.length_map]
    omega
  rw [three_sections_header_size, begins]
  rfl

/-- The `i`th code section begins behind those before it. -/
theorem Fits.code_offset (fits : c.Fits) {i : Nat} (listed : i < c.codes.length) :
    c.header.code_offsets.getD i 0 = 13 + 6 * c.codes.length + ((c.codes.take i).map List.length).sum := by
  have begins := (code_offsets_getD fits (show i < (c.codes.map List.length).length by rwa [List.length_map])).1
  rwa [← List.map_take] at begins

theorem LaidOut.get_code (laid_out : c.LaidOut container) (fits : c.Fits) {i : Nat} {code : Bytes}
    (at_i : c.codes[i]? = some code) : c.header.get_code container i = code := by
  have listed := (List.getElem?_eq_some_iff.mp at_i).1
  have size : c.header.code_sizes.getD i 0 = code.length := by
    rw [List.getD_eq_getElem?_getD, header, List.getElem?_map, at_i]
    rfl
  rw [EOF1Header.get_code, fits.code_offset listed, size]
  exact liesAt_iff_slice.mp (laid_out.at_codes i code at_i)

theorem LaidOut.get_data (laid_out : c.LaidOut container) (fits : c.Fits) :
    c.header.get_data container = some c.data := by
  have some_size : c.codes.map List.length ≠ [] := fun none => c.some_code (List.map_eq_nil_iff.mp none ▸ rfl)
  have behind := data_offset_eq fits some_size
  have some_offset : c.header.code_offsets ≠ [] := by
    rw [ne_eq, ← List.length_eq_zero_iff, header, code_offsets_length, List.length_map]
    exact c.some_code
  have at_last := List.getLast?_eq_some_getLast some_offset
  have at_size := List.getLast?_eq_some_getLast some_size
  rw [List.getLastD_eq_getLast?, List.getLastD_eq_getLast?, at_size,
    show (code_offsets _ _).getLast? = _ from at_last, Option.getD_some, Option.getD_some] at behind
  have within := laid_out.length
  unfold EOF1Header.get_data
  by_cases empty : c.data = []
  · rw [if_pos (show c.header.data_size = 0 from List.length_eq_zero_iff.mpr empty), empty]
  · rw [if_neg (show c.header.data_size ≠ 0 from mt List.length_eq_zero_iff.mp empty), at_last,
      show c.header.code_sizes.getLast? = _ from at_size, Option.bind_eq_bind, Option.bind_some, Option.bind_some,
      behind, substr, if_pos (by omega)]
    exact congrArg some (liesAt_iff_slice.mp laid_out.at_data)

end

/-- Different sections make different containers. -/
theorem encode_injective : Function.Injective encode := by
  intro c c' same
  have here := c.encode_eq_iff.mp rfl
  have here' := c'.encode_eq_iff.mp same.symm
  have count : c.codes.length = c'.codes.length := by
    have num := here.at_header.code_num.symm.trans here'.at_header.code_num
    rwa [List.length_map, List.length_map, Option.some.injEq] at num
  have sizes : c.codes.map List.length = c'.codes.map List.length := by
    refine List.ext_getElem? fun i => ?_
    by_cases listed : i < c.codes.length
    · rw [← here.at_header.at_code_sizes i (by rwa [List.length_map]),
        here'.at_header.at_code_sizes i (by rwa [List.length_map, ← count])]
    · have past : (c.codes.map List.length)[i]? = none := List.getElem?_eq_none (by rw [List.length_map]; omega)
      have past' : (c'.codes.map List.length)[i]? = none := List.getElem?_eq_none (by rw [List.length_map]; omega)
      rw [past, past']
  have data_size : c.data.length = c'.data.length := by
    have size := here'.at_header.at_data_size
    rw [← sizes, here.at_header.at_data_size, Option.some.injEq] at size
    exact size
  have types : c.types = c'.types := by
    refine List.ext_getElem (by rw [c.typed, c'.typed, count]) fun i within within' => ?_
    have read := here'.at_types i _ (List.getElem?_eq_getElem within')
    rw [← count, here.at_types i _ (List.getElem?_eq_getElem within), Option.some.injEq] at read
    exact read
  have codes : c.codes = c'.codes := by
    refine List.ext_getElem count fun i within within' => ?_
    have slice := liesAt_iff_slice.mp (here.at_codes i _ (List.getElem?_eq_getElem within))
    have slice' := liesAt_iff_slice.mp (here'.at_codes i _ (List.getElem?_eq_getElem within'))
    have size : c.codes[i].length = c'.codes[i].length := by
      have at_i := congrArg (·[i]?) sizes
      simpa [within, within'] using at_i
    rw [← count, List.map_take, ← sizes, ← List.map_take, ← size, slice] at slice'
    exact slice'
  have data : c.data = c'.data := by
    have slice := liesAt_iff_slice.mp here.at_data
    have slice' := liesAt_iff_slice.mp here'.at_data
    rw [← count, ← sizes, ← data_size, slice] at slice'
    exact slice'
  cases c
  cases c'
  congr

end EOFSections

/-- A section that calls the second one and stops, that one, which returns, and two bytes of data. -/
def calling_sections : EOFSections where
  types := [⟨0, 0x80, 0⟩, ⟨0, 0, 0⟩]
  codes := [[0xe3, 0, 1, 0x00], [0xe4]]
  data := [0xfe, 0x0b]
  typed := rfl
  some_code := by decide
  few_sections := by decide
  code_sizes := by decide
  type_fields := by decide
  data_size := by decide

/-- What is written is read back: both parsers of the header take the container, and find the sections in it. -/
theorem sections_read_back (c : EOFSections) (fits : c.Fits) :
    validate_eof_headers c.encode =
        .ok (three_sections (4 * c.codes.length) (c.codes.map List.length) c.data.length) ∧
      read_valid_eof1_header c.encode = some c.header ∧ c.header.types = c.types ∧
      (∀ (i : Nat) code, c.codes[i]? = some code → c.header.get_code c.encode i = code) ∧
      c.header.get_data c.encode = some c.data := by
  have laid_out := c.encode_eq_iff.mp rfl
  exact ⟨validate_eof_headers_iff.mpr ⟨_, _, _, laid_out.headers_valid, rfl⟩, laid_out.read, rfl,
    fun i code at_i => laid_out.get_code fits at_i, laid_out.get_data fits⟩

theorem calling_sections_fits : calling_sections.Fits := ⟨by decide, by decide, trivial⟩

theorem sections_read_back_call :
    read_valid_eof1_header calling_sections.encode = some calling_sections.header ∧
      calling_sections.header.get_code calling_sections.encode 0 = [0xe3, 0, 1, 0x00] ∧
      calling_sections.header.get_code calling_sections.encode 1 = [0xe4] ∧
      calling_sections.header.get_data calling_sections.encode = some [0xfe, 0x0b] := by
  obtain ⟨_, read, _, codes, data⟩ := sections_read_back calling_sections calling_sections_fits
  exact ⟨read, codes 0 [0xe3, 0, 1, 0x00] rfl, codes 1 [0xe4] rfl, data⟩

theorem container_uint16_be_lt {n : Nat} (at_it : container_uint16_be container it = some n) : n < 2 ^ 16 := by
  obtain ⟨h, _, rest⟩ := Option.bind_eq_some_iff.mp at_it
  obtain ⟨l, _, same⟩ := Option.bind_eq_some_iff.mp rest
  obtain rfl := Option.some.inj same
  have high := h.toNat_lt
  have low := l.toNat_lt
  omega

theorem uint16_be_at_lt : uint16_be_at container it < 2 ^ 16 := by
  unfold uint16_be_at
  have high := (container.getD it 0).toNat_lt
  have low := (container.getD (it + 1) 0).toNat_lt
  omega

theorem type_at_fields : (type_at container it).inputs < 2 ^ 8 ∧ (type_at container it).outputs < 2 ^ 8 ∧
    (type_at container it).max_stack_height < 2 ^ 16 :=
  ⟨UInt8.toNat_lt _, UInt8.toNat_lt _, uint16_be_at_lt⟩

section
variable {type_size data_size : Nat} {code_sizes : List Nat} {types : List EOFCodeType}
  (valid : HeadersValid container type_size code_sizes data_size)
  (at_types : validate_types container (13 + 2 * code_sizes.length) type_size = .ok types)
include valid at_types

/-- The sections of a container whose headers are valid. -/
theorem HeadersValid.sections (format : LiesAt container 0 [0xef, 0x00, 0x01]) : ∃ c : EOFSections,
    c.LaidOut container ∧ c.codes.map List.length = code_sizes := by
  have before := (List.getElem?_eq_some_iff.mp valid.terminator).1
  have entries := valid.type_entries
  have bodies := valid.bodies
  have count := valid.types_length at_types
  set start := 13 + 6 * code_sizes.length
  obtain ⟨sizes, lies⟩ := slices_spec (show start + code_sizes.sum ≤ container.length by omega)
  have code_count : (slices container start code_sizes).length = code_sizes.length := by
    rw [← List.length_map List.length, sizes]
  have data_length : ((container.drop (start + code_sizes.sum)).take data_size).length = data_size := by
    rw [List.length_take, List.length_drop]
    omega
  have code_size {code : Bytes} (member : code ∈ slices container start code_sizes) :
      code.length ∈ code_sizes := sizes ▸ List.mem_map_of_mem member
  obtain ⟨listed, _, _⟩ := validate_types_iff.mp at_types
  have fields : ∀ t ∈ types, t.inputs < 2 ^ 8 ∧ t.outputs < 2 ^ 8 ∧ t.max_stack_height < 2 ^ 16 := by
    intro t member
    rw [listed] at member
    obtain ⟨pos, _, rfl⟩ := List.mem_map.mp member
    exact type_at_fields
  refine ⟨{
    types := types
    codes := slices container start code_sizes
    data := (container.drop (start + code_sizes.sum)).take data_size
    typed := by omega
    some_code := code_count ▸ valid.some_code
    few_sections := code_count ▸ valid.few_sections
    code_sizes := fun code member => ⟨valid.no_empty_code _ (code_size member), ?_⟩
    type_fields := fields
    data_size := by
      rw [data_length]
      exact container_uint16_be_lt valid.at_data_size }, ?_, sizes⟩
  · obtain ⟨i, within, same⟩ := List.getElem_of_mem (code_size member)
    refine container_uint16_be_lt ((valid.at_code_sizes i within).trans ?_)
    rw [List.getElem?_eq_getElem within, same]
  · have four : 4 * code_sizes.length = type_size := by omega
    constructor
    case format => exact format
    case at_header =>
      simp only [code_count, sizes, data_length, four]
      exact valid.toHeaderAt
    case at_types =>
      intro i t at_i
      obtain ⟨within, same⟩ := List.getElem?_eq_some_iff.mp at_i
      change i < types.length at within
      simp only [listed, type_positions, List.getElem_map, List.getElem_range] at same
      simp only [code_count]
      rw [read_type_eq (by omega), same]
    case at_codes =>
      simp only [code_count]
      exact liesAt_flatten.mp lies
    case at_data =>
      simp only [code_count, sizes]
      exact liesAt_iff_slice.mpr (by rw [data_length])
    case length =>
      simp only [code_count, sizes, data_length]
      omega

end

theorem format_of_version (version : get_eof_version container = 1) : LiesAt container 0 [0xef, 0x00, 0x01] := by
  unfold get_eof_version at version
  split at version
  · rename_i magic
    obtain ⟨long, first, second⟩ := magic
    have third : container.getD 2 0 = 1 := UInt8.toNat_inj.mp version
    rw [liesAt_cons, liesAt_cons, liesAt_singleton, getD_byte (by omega), getD_byte (by omega), getD_byte (by omega),
      first, second, third]
    exact ⟨rfl, rfl, rfl⟩
  · contradiction

/-- What is accepted has been written: it is the container of its sections, and of no others. -/
theorem accepted_encodes (accepted : validate_eof .PRAGUE container = .success) (fit : CodeOffsetsFit container) :
    ∃ c : EOFSections, c.encode = container ∧ c.Fits ∧ read_valid_eof1_header container = some c.header ∧
      ∀ c' : EOFSections, c'.encode = container → c' = c := by
  obtain ⟨_, version, _, header, built⟩ := validate_eof_success_iff.mp accepted
  obtain ⟨type_size, code_sizes, data_size, types, valid, at_types, _, _⟩ := validate_eof1_iff.mp built
  obtain ⟨c, laid_out, sizes⟩ := valid.sections at_types (format_of_version version)
  have fits : c.Fits := by
    have offsets := valid.offsets_fit_iff.mp fit
    have count : code_sizes.length = c.codes.length := by rw [← sizes, List.length_map]
    have entries := valid.type_entries
    rw [EOFSections.Fits, sizes]
    rwa [show 13 + 2 * code_sizes.length + type_size = 13 + 6 * c.codes.length by omega] at offsets
  have encoded := c.encode_eq_iff.mpr laid_out
  refine ⟨c, encoded, fits, laid_out.read, fun c' same => EOFSections.encode_injective (same.trans encoded.symm)⟩

theorem accepted_encodes_call : ∃ c : EOFSections, c.encode = calling_sections.encode ∧ c.Fits ∧
    read_valid_eof1_header calling_sections.encode = some c.header ∧
    ∀ c' : EOFSections, c'.encode = calling_sections.encode → c' = c := by
  have laid_out := calling_sections.encode_eq_iff.mp rfl
  exact accepted_encodes (by decide) (laid_out.headers_valid.offsets_fit_iff.mpr calling_sections_fits)

end
end EvmAssigner
