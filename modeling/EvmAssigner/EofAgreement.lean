import EvmAssigner.EofHeaderChecks
import EvmAssigner.EofHeights
import EvmAssigner.Lib.Layout
import EvmAssigner.Preparation

namespace EvmAssigner
variable {container : Bytes} {type_size data_size : Nat} {code_sizes : List Nat}

/-- The limits `validate_types` sets to the types of all sections. -/
structure EOFCodeType.Limited (t : EOFCodeType) : Prop where
  inputs : t.inputs ≤ OUTPUTS_INPUTS_NUMBER_LIMIT
  outputs : t.outputs ≤ OUTPUTS_INPUTS_NUMBER_LIMIT ∨ t.outputs = NON_RETURNING_FUNCITON
  height : t.max_stack_height ≤ MAX_STACK_HEIGHT

theorem validate_type_limits_ok {types : List EOFCodeType} :
    validate_type_limits types = .ok () ↔ ∀ t ∈ types, t.Limited := by
  induction types with
  | nil => simp [validate_type_limits]
  | cons t types ih =>
    rw [validate_type_limits, Validated.guard_eq_ok, Validated.guard_eq_ok, ih, List.forall_mem_cons]
    constructor
    · rintro ⟨in_out, height, rest⟩
      exact ⟨⟨by omega, by omega, by omega⟩, rest⟩
    · rintro ⟨⟨inputs, outputs, height⟩, rest⟩
      exact ⟨by omega, by omega, rest⟩

theorem validate_types_iff {header_size : Nat} {types : List EOFCodeType} :
    validate_types container header_size type_size = .ok types ↔
      types = (type_positions header_size type_size).map (type_at container) ∧
      (∃ first ∈ types.head?, first.inputs = 0 ∧ first.outputs = NON_RETURNING_FUNCITON) ∧
      ∀ t ∈ types, t.Limited := by
  have entries : (type_positions header_size type_size).map (type_at container) =
      (List.range ((type_size + 3) / 4)).map fun i => type_at container (header_size + 4 * i) := by
    rw [type_positions, List.map_map]
    rfl
  rw [validate_types, entries]
  generalize (List.range ((type_size + 3) / 4)).map (fun i => type_at container (header_size + 4 * i)) = read
  cases read with
  | nil =>
    constructor
    · intro impossible
      contradiction
    · rintro ⟨rfl, ⟨_, none, _⟩, _⟩
      contradiction
  | cons first rest =>
    simp only [Validated.guard_eq_ok, Validated.bind_eq_ok]
    constructor
    · rintro ⟨at_first, _, limited, same⟩
      obtain rfl := Except.ok.inj same
      exact ⟨rfl, ⟨first, rfl, by omega⟩, validate_type_limits_ok.mp limited⟩
    · rintro ⟨rfl, ⟨_, same, at_first⟩, limited⟩
      obtain rfl := Option.some.inj same
      exact ⟨by omega, (), validate_type_limits_ok.mpr limited, rfl⟩

/-- The header `validate_eof1` builds from what it has read. -/
def built_header (container : Bytes) (type_size : Nat) (code_sizes : List Nat) (data_size : Nat)
    (types : List EOFCodeType) : EOF1Header where
  version := (container.getD 2 0).toNat
  code_sizes := code_sizes
  code_offsets := code_offsets (13 + 2 * code_sizes.length + type_size) code_sizes
  data_size := data_size
  types := types

theorem validate_eof1_iff {rev : Revision} {header : EOF1Header} :
    validate_eof1 rev container = .ok header ↔ ∃ type_size code_sizes data_size types,
      HeadersValid container type_size code_sizes data_size ∧
      validate_types container (13 + 2 * code_sizes.length) type_size = .ok types ∧
      header = built_header container type_size code_sizes data_size types ∧
      validate_codes rev header container (List.range code_sizes.length) = .ok () := by
  rw [validate_eof1, Validated.bind_eq_ok]
  simp only [Validated.bind_eq_ok, validate_eof_headers_iff]
  constructor
  · rintro ⟨_, ⟨type_size, code_sizes, data_size, valid, rfl⟩, types, at_types, _, codes, same⟩
    rw [three_sections_header_size] at at_types codes same
    obtain rfl := (Except.ok.inj same).symm
    exact ⟨type_size, code_sizes, data_size, types, valid, at_types, rfl, codes⟩
  · rintro ⟨type_size, code_sizes, data_size, types, valid, at_types, rfl, codes⟩
    refine ⟨_, ⟨type_size, code_sizes, data_size, valid, rfl⟩, types, ?_, (), ?_, ?_⟩
    · rw [three_sections_header_size]
      exact at_types
    · rw [three_sections_header_size]
      exact codes
    · rw [three_sections_header_size]
      rfl

/-- Both parsers of the header look at the same bytes. -/
theorem HeadersValid.header_read (valid : HeadersValid container type_size code_sizes data_size) :
    HeaderRead container (three_sections type_size code_sizes data_size) type_size data_size
      ((type_positions (13 + 2 * code_sizes.length) type_size).map (type_at container)) where
  sections := valid.toHeaderAt.sections
  type_section := rfl
  data_section := rfl
  types_read := by
    have within := (List.getElem?_eq_some_iff.mp valid.terminator).1
    have entries := valid.type_entries
    have bodies := valid.bodies
    rw [three_sections_header_size, mapM_eq_some_iff, List.forall₂_map_right_iff, List.forall₂_same]
    intro pos member
    obtain ⟨i, small, rfl⟩ := List.mem_map.mp member
    rw [List.mem_range] at small
    exact read_type_eq (by omega)

/-- The assertion of the two loops that compute where the code sections begin. -/
def OffsetsFit : Nat → List Nat → Prop
  | _, [] => True
  | code_offset, code_size :: code_sizes => code_offset ≤ 65535 ∧ OffsetsFit (code_offset + code_size) code_sizes

theorem code_sections_tile_iff {offset : Nat} {sizes : List Nat} :
    Tiles offset ((code_offsets offset sizes).zip sizes) (offset + sizes.sum) ↔ OffsetsFit offset sizes := by
  induction sizes generalizing offset with
  | nil => simp [Tiles, code_offsets, OffsetsFit]
  | cons size sizes ih =>
    rw [code_offsets, List.zip_cons_cons, Tiles, OffsetsFit, List.sum_cons, ← Nat.add_assoc, ih]
    exact and_congr_left fun _ => by omega

/-- Where `get_data` takes the data section from. -/
def EOF1Header.data_offset (header : EOF1Header) : Nat :=
  header.code_offsets.getLastD 0 + header.code_sizes.getLastD 0

theorem data_offset_eq {offset : Nat} {sizes : List Nat} (fit : OffsetsFit offset sizes) (some : sizes ≠ []) :
    (code_offsets offset sizes).getLastD 0 + sizes.getLastD 0 = offset + sizes.sum := by
  induction sizes generalizing offset with
  | nil => exact absurd rfl some
  | cons size sizes ih =>
    obtain ⟨small, fit⟩ := fit
    cases sizes with
    | nil =>
      simp only [code_offsets, List.getLastD_cons, List.getLastD_nil, List.sum_cons, List.sum_nil]
      omega
    | cons next sizes =>
      have rest := ih fit (by simp)
      rw [code_offsets] at rest ⊢
      rw [List.sum_cons, ← Nat.add_assoc, ← rest]
      rfl

/-- The parts of a container, by where each begins and how long it is. -/
def EOF1Header.parts (header : EOF1Header) : List (Nat × Nat) :=
  (0, 13 + 2 * header.code_sizes.length) ::
    (13 + 2 * header.code_sizes.length, 4 * header.types.length) ::
    header.code_offsets.zip header.code_sizes ++ [(header.data_offset, header.data_size)]

/-- The two parsers of the header agree, and the parts the header tells of tile the container. -/
structure ParsersAgree (container : Bytes) (header : EOF1Header) : Prop where
  validated : validate_eof1 .PRAGUE container = .ok header
  read : read_valid_eof1_header container = some header
  header_at : HeaderAt container (4 * header.types.length) header.code_sizes header.data_size
  tiles : Tiles 0 header.parts container.length

/-- By the headers of the container, each code section begins within the first 65536 bytes. -/
def CodeOffsetsFit (container : Bytes) : Prop :=
  ∀ headers type_size, Sections container 3 (fun _ => []) headers →
    (headers TYPE_SECTION)[0]? = some type_size →
    OffsetsFit (eof_header_size headers + type_size) (headers CODE_SECTION)

section
variable (valid : HeadersValid container type_size code_sizes data_size)
include valid

theorem HeadersValid.offsets_fit_iff : CodeOffsetsFit container ↔
    OffsetsFit (13 + 2 * code_sizes.length + type_size) code_sizes := by
  have sections := valid.toHeaderAt.sections
  constructor
  · intro fit
    have at_sections := fit _ type_size sections rfl
    rwa [three_sections_header_size] at at_sections
  · rintro fit headers type_size' sections' at_type
    obtain rfl := sections.unique sections'
    obtain rfl := Option.some.inj at_type
    rwa [three_sections_header_size]

/-- The types fill the type section. -/
theorem HeadersValid.types_length {types : List EOFCodeType}
    (at_types : validate_types container (13 + 2 * code_sizes.length) type_size = .ok types) :
    4 * types.length = type_size := by
  have entries := valid.type_entries
  rw [(validate_types_iff.mp at_types).1, List.length_map, type_positions, List.length_map, List.length_range]
  omega

/-- The parts of an accepted container tile it exactly when no offset is cut off. -/
theorem HeadersValid.tiles_iff {types : List EOFCodeType}
    (at_types : validate_types container (13 + 2 * code_sizes.length) type_size = .ok types) :
    Tiles 0 (built_header container type_size code_sizes data_size types).parts container.length ↔
      OffsetsFit (13 + 2 * code_sizes.length + type_size) code_sizes := by
  have within := (List.getElem?_eq_some_iff.mp valid.terminator).1
  have bodies := valid.bodies
  have some_code := valid.some_code
  have zipped : ((code_offsets (13 + 2 * code_sizes.length + type_size) code_sizes).zip code_sizes).map
      Prod.snd = code_sizes := List.map_snd_zip (by rw [code_offsets_length])
  have sizes := valid.types_length at_types
  show Tiles 0 ((0, _) :: (_, 4 * types.length) :: (_ ++ [(_, data_size)])) container.length ↔ _
  simp only [Tiles, tiles_append, sizes, built_header, zipped, true_and, Nat.zero_add,
    code_sections_tile_iff, EOF1Header.data_offset]
  constructor
  · exact fun tiled => tiled.1
  · intro fit
    refine ⟨fit, data_offset_eq fit (List.length_pos_iff.mp (by omega)), by omega⟩

end

theorem ParsersAgree.fit {header : EOF1Header} (agree : ParsersAgree container header) :
    CodeOffsetsFit container := by
  obtain ⟨type_size, code_sizes, data_size, types, valid, at_types, rfl, _⟩ :=
    validate_eof1_iff.mp agree.validated
  exact valid.offsets_fit_iff.mpr ((valid.tiles_iff at_types).mp agree.tiles)

/-- The reader without checks reads the header that the validator builds. -/
theorem validated_read {rev : Revision} {header : EOF1Header} (built : validate_eof1 rev container = .ok header) :
    read_valid_eof1_header container = some header := by
  obtain ⟨type_size, code_sizes, data_size, types, valid, at_types, rfl, _⟩ := validate_eof1_iff.mp built
  have within := (List.getElem?_eq_some_iff.mp valid.terminator).1
  refine read_valid_eof1_header_iff.mpr ⟨three_sections type_size code_sizes data_size, type_size,
    data_size, types, container.getD 2 0, ?_, getD_byte (by omega), ?_⟩
  · rw [(validate_types_iff.mp at_types).1]
    exact valid.header_read
  · rw [three_sections_header_size]
    rfl

/-- On a container that is accepted the two parsers of the header agree. The parts tile the container
exactly when the assertion on the offsets of its code sections holds. -/
theorem parsers_agree_iff (accepted : validate_eof .PRAGUE container = .success) :
    (∃ header, validate_eof1 .PRAGUE container = .ok header ∧
      read_valid_eof1_header container = some header) ∧
    ((∃ header, ParsersAgree container header) ↔ CodeOffsetsFit container) := by
  obtain ⟨_, _, _, header, built⟩ := validate_eof_success_iff.mp accepted
  have read := validated_read built
  refine ⟨⟨header, built, read⟩, fun ⟨_, agree⟩ => agree.fit, fun fit => ?_⟩
  obtain ⟨type_size, code_sizes, data_size, types, valid, at_types, rfl, _⟩ := validate_eof1_iff.mp built
  have header_at : HeaderAt container (4 * types.length) code_sizes data_size := by
    rw [valid.types_length at_types]
    exact valid.toHeaderAt
  exact ⟨_, built, read, header_at, (valid.tiles_iff at_types).mpr (valid.offsets_fit_iff.mp fit)⟩

/-- A container with one section, which stops. -/
theorem parsers_agree_stop : ∃ header,
    validate_eof1 .PRAGUE [0xef, 0, 1, 1, 0, 4, 2, 0, 1, 0, 1, 4, 0, 0, 0, 0, 0x80, 0, 0, 0] = .ok header ∧
    read_valid_eof1_header [0xef, 0, 1, 1, 0, 4, 2, 0, 1, 0, 1, 4, 0, 0, 0, 0, 0x80, 0, 0, 0] =
      some header :=
  (parsers_agree_iff (by decide)).1

section
variable {n : Nat}

/-- A code section of `n` instructions that do nothing, and one that stops. -/
def idle_code (n : Nat) : Bytes := List.replicate n 0x5b ++ [0x00]

theorem idle_code_length : (idle_code n).length = n + 1 := by simp [idle_code]

theorem idle_code_getD {i : Nat} : (idle_code n).getD i 0 = if i < n then 0x5b else 0x00 := by
  rw [idle_code, List.getD_eq_getElem?_getD]
  by_cases before : i < n
  · rw [List.getElem?_append_left (by simpa using before), if_pos before, List.getElem?_replicate_of_lt before]
    rfl
  · rw [List.getElem?_append_right (by simpa using before), if_neg before, List.length_replicate]
    cases i - n with
    | zero => rfl
    | succ k => rfl

theorem idle_instructions {types : List EOFCodeType} {fuel i : Nat} (here : i ≤ n + 1)
    (enough : n + 1 ≤ i + fuel) : validate_instructions_loop (idle_code n) types
      (get_baseline_cost_table .PRAGUE 1) data_size fuel i false = .ok false := by
  induction fuel generalizing i with
  | zero => rfl
  | succ fuel ih =>
    rw [validate_instructions_loop, idle_code_length]
    by_cases past : i ≥ n + 1
    · rw [if_pos past]
    rw [if_neg past, idle_code_getD]
    by_cases before : i < n
    · rw [if_pos before]
      have next := ih (i := i + 1) (by omega) (by omega)
      have within : ¬ i + 0 ≥ n + 1 := by omega
      show (if _ then _ else if i + 0 ≥ n + 1 then _ else _) = _
      rw [if_neg (by decide), if_neg within]
      exact next
    · rw [if_neg before]
      have next := ih (i := i + 1) (by omega) (by omega)
      have within : ¬ i + 0 ≥ n + 1 := by omega
      show (if _ then _ else if i + 0 ≥ n + 1 then _ else _) = _
      rw [if_neg (by decide), if_neg within]
      exact next

theorem idle_opcode {i : Nat} : op_at (idle_code n) i = if i < n then .JUMPDEST else .STOP := by
  rw [op_at, idle_code_getD]
  split <;> rfl

theorem idle_rjumps {fuel i : Nat} {immediate_map : Nat → Bool} :
    ∃ map, collect_rjumps (idle_code n) fuel i [] immediate_map = some ([], map) := by
  induction fuel generalizing i immediate_map with
  | zero => exact ⟨_, rfl⟩
  | succ fuel ih =>
    rw [collect_rjumps]
    by_cases past : i ≥ (idle_code n).length
    · exact ⟨_, if_pos past⟩
    have op : opcode_or ((idle_code n).getD i 0) = if i < n then .JUMPDEST else .STOP := idle_opcode
    rw [if_neg past, op]
    by_cases before : i < n
    · rw [if_pos before]
      exact ih
    · rw [if_neg before]
      exact ih

/-- The heights of the section while the search for them is at position `i`. -/
def idle_heights (i : Nat) : Nat → Int := fun k => if k ≤ i then 0 else LOC_UNVISITED

theorem idle_update {i : Nat} : Function.update (idle_heights i) (i + 1) 0 = idle_heights (i + 1) := by
  funext k
  by_cases next : k = i + 1
  · rw [next, Function.update_self]
    exact (if_pos le_rfl).symm
  · rw [Function.update_of_ne next]
    exact if_congr (by omega) rfl rfl

theorem idle_visit {types : List EOFCodeType} {type : EOFCodeType} {i : Nat} :
    StackHeights.visit (idle_code n) types type ⟨idle_heights i, []⟩ i =
      .ok (if i < n then ⟨idle_heights (i + 1), [i + 1]⟩ else ⟨idle_heights i, []⟩) := by
  have ahead : idle_heights i (i + 1) = LOC_UNVISITED := if_neg (by omega)
  have zero : (StackHeights.mk (idle_heights i) []).stack_heights i = 0 := if_pos le_rfl
  have op : op_at (idle_code n) i = _ := idle_opcode
  have next : next_at (idle_code n) i = i + 1 := by
    rw [next_at, op]
    split <;> rfl
  have unmarked : (StackHeights.mk (idle_heights i) []).mark (idle_code n) i = ⟨idle_heights i, []⟩ := by
    unfold StackHeights.mark
    rw [next]
    congr 1
    funext k
    exact if_neg (by omega)
  rw [visit_eq_ok, unmarked, zero, successors, targets, next, op, idle_code_length]
  by_cases before : i < n
  · simp only [if_pos before]
    refine ⟨0, 0, rfl, le_rfl, fun _ => by omega, ?_⟩
    show (StackHeights.mk (idle_heights i) []).validate_successors 0 [i + 1] = _
    rw [StackHeights.validate_successors, StackHeights.validate_successor, if_pos ahead]
    exact congrArg (fun heights => Except.ok (StackHeights.mk heights [i + 1])) idle_update
  · simp only [if_neg before]
    exact ⟨0, 0, rfl, le_rfl, fun falls => absurd falls (by decide), rfl⟩

theorem idle_search {types : List EOFCodeType} {type : EOFCodeType} {fuel i : Nat} (here : i ≤ n)
    (enough : n + 2 ≤ i + fuel) :
    validate_max_stack_height_loop (idle_code n) types type fuel ⟨idle_heights i, [i]⟩ =
      .ok ⟨idle_heights n, []⟩ := by
  induction fuel generalizing i with
  | zero => omega
  | succ fuel ih =>
    rw [validate_max_stack_height_loop]
    show StackHeights.visit (idle_code n) types type ⟨idle_heights i, []⟩ i >>=
      validate_max_stack_height_loop (idle_code n) types type fuel = _
    rw [idle_visit]
    by_cases before : i < n
    · rw [if_pos before]
      exact ih before (by omega)
    · rw [if_neg before]
      obtain rfl : i = n := by omega
      obtain ⟨fuel, rfl⟩ : ∃ k, fuel = k + 1 := ⟨fuel - 1, by omega⟩
      rfl

/-- The section is of height 0 throughout. -/
theorem idle_max_stack_height {types : List EOFCodeType} {type : EOFCodeType} (inputs : type.inputs = 0) :
    validate_max_stack_height (idle_code n) types type = .ok 0 := by
  have start : (fun k => if k = 0 then (type.inputs : Int) else LOC_UNVISITED) = idle_heights 0 := by
    funext k
    rw [inputs]
    exact if_congr (by omega) rfl rfl
  have heights : (List.range (n + 1)).map (idle_heights n) = List.replicate (n + 1) 0 := by
    rw [List.eq_replicate_iff]
    refine ⟨by simp, fun height member => ?_⟩
    obtain ⟨k, small, rfl⟩ := List.mem_map.mp member
    rw [List.mem_range] at small
    exact if_pos (by omega)
  have greatest (k : Nat) : (List.replicate k (0 : Int)).foldl max 0 = 0 := by
    induction k with
    | zero => rfl
    | succ k ih => exact ih
  rw [validate_max_stack_height, start, idle_search (Nat.zero_le n) (by rw [idle_code_length]; omega)]
  show (if LOC_UNVISITED ∈ (List.range (idle_code n).length).map (idle_heights n) then
    (Except.error .unreachable_instructions : Validated Int) else _) = _
  rw [idle_code_length, heights, if_neg (by simp [List.mem_replicate])]
  exact congrArg Except.ok (greatest (n + 1))

/-- A container with two code sections, the first of which is so long that the offset of the second
one, `65537`, is cut to `1`. -/
def long_container (n : Nat) : Bytes :=
  [0xef, 0, 1, 1, 0, 8, 2, 0, 2, 0xff, 0xe8, 0, 1, 4, 0, 0, 0, 0, 0x80, 0, 0, 0, 0x80, 0, 0] ++
    (idle_code n ++ [0x0c])

theorem long_container_length : (long_container n).length = n + 27 := by
  simp [long_container, idle_code_length]

theorem long_container_valid (long : n = 65511) : HeadersValid (long_container n) 8 [65512, 1] 0 where
  type_id := rfl
  at_type_size := rfl
  code_id := rfl
  code_num := rfl
  at_code_sizes i small := by
    have two : i < 2 := small
    match i, two with
    | 0, _ => rfl
    | 1, _ => rfl
  data_id := rfl
  at_data_size := rfl
  terminator := rfl
  some_code := by simp
  few_sections := by decide
  no_empty_code := by simp
  type_entries := rfl
  bodies := by
    rw [long_container_length, long]
    rfl

/-- The header both parsers have for it. -/
def long_header : EOF1Header where
  version := 1
  code_sizes := [65512, 1]
  code_offsets := [25, 1]
  types := [⟨0, 0x80, 0⟩, ⟨0, 0x80, 0⟩]

theorem long_container_first (long : n = 65511) :
    long_header.get_code (long_container n) 0 = idle_code n := by
  show List.take 65512 (idle_code n ++ [0x0c]) = _
  exact List.take_left' (by rw [idle_code_length, long])

theorem long_container_codes (long : n = 65511) :
    validate_codes .PRAGUE long_header (long_container n) [0, 1] = .ok () := by
  have first : validate_code .PRAGUE long_header (long_container n) 0 = .ok () := by
    obtain ⟨map, rjumps⟩ : ∃ map, collect_rjumps (idle_code n) (idle_code n).length 0 [] (fun _ => false) =
        some ([], map) := idle_rjumps
    have valid_rjumps : validate_rjump_destinations (idle_code n) = true := by
      rw [validate_rjump_destinations, rjumps]
      rfl
    have instructions : validate_instructions (idle_code n) long_header.types .PRAGUE
        long_header.data_size ⟨0, 0x80, 0⟩ = .ok () := by
      rw [validate_instructions, idle_instructions (Nat.zero_le _) (by rw [idle_code_length]; omega)]
      rfl
    rw [validate_code, long_container_first long]
    show (do
      validate_instructions (idle_code n) long_header.types .PRAGUE long_header.data_size ⟨0, 0x80, 0⟩
      if !validate_rjump_destinations (idle_code n) then .error .invalid_rjump_destination
      else
        let msh ← validate_max_stack_height (idle_code n) long_header.types ⟨0, 0x80, 0⟩
        if msh ≠ 0 then .error .invalid_max_stack_height else .ok ()) = _
    rw [instructions, valid_rjumps, idle_max_stack_height rfl]
    rfl
  have second : validate_code .PRAGUE long_header (long_container n) 1 = .ok () := by
    have code : long_header.get_code (long_container n) 1 = [0] := rfl
    rw [validate_code, code]
    decide
  rw [validate_codes, first]
  show validate_codes .PRAGUE long_header (long_container n) [1] = _
  rw [validate_codes, second]
  rfl

theorem long_container_types : validate_types (long_container n) 17 8 = .ok long_header.types := by
  have positions : type_positions 17 8 = [17, 21] := rfl
  have types : (type_positions 17 8).map (type_at (long_container n)) = long_header.types := by
    rw [positions]
    simp [type_at, uint16_be_at, long_container, long_header]
  exact validate_types_iff.mpr ⟨types.symm, ⟨_, rfl, rfl, rfl⟩, by
    simp [long_header]
    exact ⟨by decide, by decide, by decide⟩⟩

theorem long_container_accepted (long : n = 65511) :
    validate_eof1 .PRAGUE (long_container n) = .ok long_header := by
  refine validate_eof1_iff.mpr ⟨8, [65512, 1], 0, long_header.types, long_container_valid long,
    long_container_types, rfl, ?_⟩
  exact long_container_codes long

end

/-- A container is accepted though its last section begins behind the offsets of 16 bits; the byte
there is not even an instruction. -/
theorem parsers_agree_too_long : validate_eof .PRAGUE (long_container 65511) = .success ∧
    ¬ ∃ header, ParsersAgree (long_container 65511) header := by
  obtain ⟨n, long⟩ : ∃ n, n = 65511 := ⟨65511, rfl⟩
  rw [← long]
  have accepted : validate_eof .PRAGUE (long_container n) = .success :=
    validate_eof_success_iff.mpr ⟨rfl, rfl, by decide, long_header, long_container_accepted long⟩
  refine ⟨accepted, ?_⟩
  rintro ⟨header, agree⟩
  have fit := (long_container_valid long).offsets_fit_iff.mp agree.fit
  have second : 13 + 2 * 2 + 8 + 65512 ≤ 65535 := fit.2.1
  omega

end EvmAssigner
