import EvmAssigner.EofHeader
import EvmAssigner.EofSuccess

namespace EvmAssigner
variable {container : Bytes} {it : Nat}

theorem getD_byte (within : it < container.length) : container[it]? = some (container.getD it 0) := by
  rw [List.getD_eq_getElem?_getD, List.getElem?_eq_getElem within]
  rfl

/-- Where both bytes are there, the two readers of 16 bits agree. -/
theorem container_uint16_be_eq (within : it + 1 < container.length) :
    container_uint16_be container it = some (uint16_be_at container it) := by
  rw [container_uint16_be, getD_byte (by omega), getD_byte within]
  rfl

theorem read_type_eq (within : it + 4 ≤ container.length) :
    read_type container it = some (type_at container it) := by
  rw [read_type, getD_byte (by omega), getD_byte (by omega), container_uint16_be_eq (by omega)]
  rfl

/-- What the header of a container says, byte by byte. -/
structure HeaderAt (container : Bytes) (type_size : Nat) (code_sizes : List Nat) (data_size : Nat) :
    Prop where
  type_id : container[3]? = some TYPE_SECTION
  at_type_size : container_uint16_be container 4 = some type_size
  code_id : container[6]? = some CODE_SECTION
  code_num : container_uint16_be container 7 = some code_sizes.length
  at_code_sizes : SizesAt container 9 code_sizes
  data_id : container[9 + 2 * code_sizes.length]? = some DATA_SECTION
  at_data_size : container_uint16_be container (10 + 2 * code_sizes.length) = some data_size
  terminator : container[12 + 2 * code_sizes.length]? = some TERMINATOR

/-- The headers of a container with one type section, one data section and some code sections. -/
def three_sections (type_size : Nat) (code_sizes : List Nat) (data_size : Nat) : EOFSectionHeaders :=
  (((EOFSectionHeaders.add (fun _ => []) TYPE_SECTION [type_size]).add CODE_SECTION code_sizes).add
    DATA_SECTION [data_size])

section
variable {type_size data_size : Nat} {code_sizes : List Nat}

@[simp] theorem three_sections_type :
    three_sections type_size code_sizes data_size TYPE_SECTION = [type_size] := rfl

@[simp] theorem three_sections_code :
    three_sections type_size code_sizes data_size CODE_SECTION = code_sizes := rfl

@[simp] theorem three_sections_data :
    three_sections type_size code_sizes data_size DATA_SECTION = [data_size] := rfl

@[simp] theorem three_sections_header_size :
    eof_header_size (three_sections type_size code_sizes data_size) = 13 + 2 * code_sizes.length := by
  rw [eof_header_size, three_sections_code]
  omega

/-- The header is one the reader without checks gets through. -/
theorem HeaderAt.sections (at_header : HeaderAt container type_size code_sizes data_size) :
    Sections container 3 (fun _ => []) (three_sections type_size code_sizes data_size) := by
  have data_at : 9 + 2 * code_sizes.length + 1 = 10 + 2 * code_sizes.length := by omega
  have last_at : 9 + 2 * code_sizes.length + 3 = 12 + 2 * code_sizes.length := by omega
  have last : Sections container (12 + 2 * code_sizes.length)
      (three_sections type_size code_sizes data_size) (three_sections type_size code_sizes data_size) :=
    .terminator at_header.terminator
  have data : Sections container (9 + 2 * code_sizes.length)
      ((EOFSectionHeaders.add (fun _ => []) TYPE_SECTION [type_size]).add CODE_SECTION code_sizes)
      (three_sections type_size code_sizes data_size) :=
    .one at_header.data_id (by decide) (by decide) (by decide) (data_at ▸ at_header.at_data_size)
      (last_at ▸ last)
  exact .one at_header.type_id (by decide) (by decide) (by decide) at_header.at_type_size
    (.code at_header.code_id at_header.code_num at_header.at_code_sizes data)

end

section
variable {l l' : HeaderLoop}

theorem getD_eq_iff {id : UInt8} (some_id : id ≠ 0) :
    container.getD it 0 = id ↔ container[it]? = some id := by
  rw [List.getD_eq_getElem?_getD]
  cases container[it]? with
  | none => simpa using some_id.symm
  | some byte => simp

/-- What one turn of the loop does. -/
def HeaderLoop.advance (container : Bytes) (l : HeaderLoop) : Validated HeaderLoop :=
  match l.state with
  | .section_id => l.read_section_id container
  | .section_size => l.read_section_size container
  | .terminated => .ok l

theorem validate_eof_headers_turn {fuel : Nat} (ends : l'.state = .terminated)
    (going : l.state ≠ .terminated) : validate_eof_headers_loop container fuel l = .ok l' ↔
      ∃ fuel' l₁, fuel = fuel' + 1 ∧ l.it ≠ container.length ∧ l.advance container = .ok l₁ ∧
        validate_eof_headers_loop container fuel' l₁ = .ok l' := by
  cases fuel with
  | zero =>
    rw [validate_eof_headers_loop]
    constructor
    · intro same
      obtain rfl := Except.ok.inj same
      exact absurd ends going
    · rintro ⟨_, _, none, _⟩
      contradiction
  | succ fuel =>
    by_cases past : l.it = container.length
    · rw [validate_eof_headers_loop, if_pos past]
      constructor
      · intro same
        obtain rfl := Except.ok.inj same
        exact absurd ends going
      · rintro ⟨_, _, _, more, _⟩
        exact absurd past more
    have turn : validate_eof_headers_loop container (fuel + 1) l =
        (do validate_eof_headers_loop container fuel (← l.advance container)) := by
      rw [validate_eof_headers_loop, if_neg past]
      unfold HeaderLoop.advance
      cases state : l.state with
      | section_id => rfl
      | section_size => rfl
      | terminated => exact absurd state going
    rw [turn, Validated.bind_eq_ok]
    constructor
    · rintro ⟨l₁, advanced, rest⟩
      exact ⟨fuel, l₁, rfl, past, advanced, rest⟩
    · rintro ⟨_, l₁, same, _, advanced, rest⟩
      obtain rfl := Nat.succ.inj same
      exact ⟨l₁, advanced, rest⟩

theorem validate_eof_headers_stop {fuel : Nat} (ends : l.state = .terminated) :
    validate_eof_headers_loop container fuel l = .ok l' ↔ l = l' := by
  cases fuel with
  | zero => exact Except.ok.injEq l l' ▸ Iff.rfl
  | succ fuel =>
    rw [validate_eof_headers_loop, ends]
    split <;> exact Except.ok.injEq l l' ▸ Iff.rfl

theorem section_ids : TYPE_SECTION ≠ TERMINATOR ∧ CODE_SECTION ≠ TERMINATOR ∧
    CODE_SECTION ≠ TYPE_SECTION ∧ TYPE_SECTION ≠ CODE_SECTION ∧ TYPE_SECTION ≠ DATA_SECTION ∧
    DATA_SECTION ≠ TERMINATOR ∧ DATA_SECTION ≠ TYPE_SECTION ∧ DATA_SECTION ≠ CODE_SECTION := by decide

theorem read_type_id (expects : l.expected_section_id = TYPE_SECTION) :
    l.read_section_id container = .ok l' ↔ container[l.it]? = some TYPE_SECTION ∧ l' = { l with
      section_id := TYPE_SECTION, it := l.it + 1, expected_section_id := CODE_SECTION,
      state := .section_size } := by
  rw [HeaderLoop.read_section_id, ← getD_eq_iff (by decide)]
  by_cases at_it : container.getD l.it 0 = TYPE_SECTION
  · simp only [at_it, expects, ne_eq, not_true_eq_false, if_false, if_true, true_and, section_ids,
      Except.ok.injEq]
    exact eq_comm
  · simp [-List.getD_eq_getElem?_getD, at_it, expects]

theorem read_code_id (expects : l.expected_section_id = CODE_SECTION) :
    l.read_section_id container = .ok l' ↔ container[l.it]? = some CODE_SECTION ∧
      ∃ num, container_uint16_be container (l.it + 1) = some num ∧ num ≠ 0 ∧
        num ≤ CODE_SECTION_NUMBER_LIMIT ∧ l' = { l with
          section_id := CODE_SECTION, section_num := num, it := l.it + 3,
          expected_section_id := DATA_SECTION, state := .section_size } := by
  rw [HeaderLoop.read_section_id, ← getD_eq_iff (by decide)]
  by_cases at_it : container.getD l.it 0 = CODE_SECTION
  · by_cases within : l.it + 1 + 1 < container.length
    · simp only [at_it, expects, ne_eq, not_true_eq_false, if_false, if_true, true_and, section_ids,
        container_uint16_be_eq within, Option.some.injEq, Validated.guard_eq_ok, not_le, ge_iff_le, within,
        Except.ok.injEq, exists_eq_left', gt_iff_lt, not_lt]
      exact and_congr_right fun _ => and_congr_right fun _ => eq_comm
    · have nothing : container_uint16_be container (l.it + 1) = none := by
        rw [← Option.not_isSome_iff_eq_none, container_uint16_be_isSome]
        exact within
      simp [-List.getD_eq_getElem?_getD, at_it, expects, nothing, Validated.guard_eq_ok, within, section_ids]
  · simp [-List.getD_eq_getElem?_getD, at_it, expects]

theorem read_data_id (expects : l.expected_section_id = DATA_SECTION) :
    l.read_section_id container = .ok l' ↔ container[l.it]? = some DATA_SECTION ∧ l' = { l with
      section_id := DATA_SECTION, it := l.it + 1, expected_section_id := TERMINATOR,
      state := .section_size } := by
  rw [HeaderLoop.read_section_id, ← getD_eq_iff (by decide)]
  by_cases at_it : container.getD l.it 0 = DATA_SECTION
  · simp only [at_it, expects, ne_eq, not_true_eq_false, if_false, true_and, section_ids, Except.ok.injEq]
    exact eq_comm
  · simp [-List.getD_eq_getElem?_getD, at_it, expects]

theorem read_terminator (expects : l.expected_section_id = TERMINATOR) (within : l.it < container.length) :
    l.read_section_id container = .ok l' ↔ container[l.it]? = some TERMINATOR ∧ l' = { l with
      section_id := TERMINATOR, it := l.it + 1, expected_section_id := TERMINATOR,
      state := .terminated } := by
  rw [HeaderLoop.read_section_id, getD_byte within]
  by_cases at_it : container.getD l.it 0 = TERMINATOR
  · simp only [at_it, expects, ne_eq, not_true_eq_false, if_false, if_true, true_and, Except.ok.injEq]
    exact eq_comm
  · simp [-List.getD_eq_getElem?_getD, at_it, expects]

/-- A type or a data section has one size. -/
theorem read_one_size (other : l.section_id ≠ CODE_SECTION) :
    l.read_section_size container = .ok l' ↔
      ∃ size, container_uint16_be container l.it = some size ∧
        (l.section_id ≠ DATA_SECTION → size ≠ 0) ∧ l' = { l with
          section_headers := l.section_headers.add l.section_id [size]
          it := l.it + 2
          state := .section_id } := by
  rw [HeaderLoop.read_section_size, if_neg other]
  by_cases within : l.it + 1 < container.length
  · simp only [container_uint16_be_eq within, Option.some.injEq, Validated.guard_eq_ok, ge_iff_le, not_le,
      within, true_and, Except.ok.injEq, exists_eq_left', not_and, not_not, ne_eq]
    exact and_congr (by tauto) eq_comm
  · have nothing : container_uint16_be container l.it = none := by
      rw [← Option.not_isSome_iff_eq_none, container_uint16_be_isSome]
      exact within
    simp [nothing, Validated.guard_eq_ok, within]

theorem EOFSectionHeaders.add_add {headers : EOFSectionHeaders} {id : UInt8} {sizes sizes' : List Nat} :
    (headers.add id sizes).add id sizes' = headers.add id (sizes ++ sizes') := by
  unfold EOFSectionHeaders.add
  rw [Function.update_idem, Function.update_self, List.append_assoc]

theorem sizesAt_cons {size : Nat} {sizes : List Nat} : SizesAt container it (size :: sizes) ↔
    container_uint16_be container it = some size ∧ SizesAt container (it + 2) sizes := by
  constructor
  · intro at_sizes
    refine ⟨at_sizes 0 (by simp), fun i small => ?_⟩
    have next := at_sizes (i + 1) (by simpa using small)
    rwa [show it + 2 * (i + 1) = it + 2 + 2 * i by omega] at next
  · rintro ⟨first, rest⟩ i small
    cases i with
    | zero => exact first
    | succ i =>
      have next := rest i (by simpa using small)
      rwa [show it + 2 + 2 * i = it + 2 * (i + 1) by omega] at next

theorem validate_code_sizes_iff {n : Nat} :
    l.read_code_sizes container n = .ok l' ↔
      ∃ sizes, sizes.length = n ∧ SizesAt container l.it sizes ∧ (∀ size ∈ sizes, size ≠ 0) ∧
        l' = { l with
          section_headers := l.section_headers.add l.section_id sizes
          it := l.it + 2 * n } := by
  induction n generalizing l with
  | zero =>
    rw [HeaderLoop.read_code_sizes]
    constructor
    · intro same
      obtain rfl := Except.ok.inj same
      refine ⟨[], rfl, fun i small => absurd small (Nat.not_lt_zero i), by simp, ?_⟩
      simp [EOFSectionHeaders.add]
    · rintro ⟨sizes, none, _, _, rfl⟩
      rw [List.length_eq_zero_iff.mp none]
      simp [EOFSectionHeaders.add]
  | succ n ih =>
    have pushed (size : Nat) (sizes : List Nat) : ({ l.push size with
          section_headers := (l.push size).section_headers.add (l.push size).section_id sizes
          it := (l.push size).it + 2 * n } : HeaderLoop) = { l with
          section_headers := l.section_headers.add l.section_id (size :: sizes)
          it := l.it + 2 * (n + 1) } := by
      have headers : (l.push size).section_headers = l.section_headers.add l.section_id [size] := rfl
      have section_id : (l.push size).section_id = l.section_id := rfl
      have behind : (l.push size).it + 2 * n = l.it + 2 * (n + 1) := by
        show l.it + 2 + 2 * n = _
        omega
      rw [headers, section_id, behind, EOFSectionHeaders.add_add]
      rfl
    rw [HeaderLoop.read_code_sizes, Validated.guard_eq_ok, Validated.guard_eq_ok, ih, not_le]
    constructor
    · rintro ⟨within, some_size, rest, length, at_rest, some_rest, rfl⟩
      refine ⟨uint16_be_at container l.it :: rest, by rw [List.length_cons, length],
        sizesAt_cons.mpr ⟨container_uint16_be_eq within, at_rest⟩, ?_, pushed _ _⟩
      rintro size member
      rcases List.mem_cons.mp member with rfl | member
      · exact some_size
      · exact some_rest size member
    · rintro ⟨sizes, length, at_sizes, some_sizes, rfl⟩
      cases sizes with
      | nil => simp at length
      | cons size rest =>
        obtain ⟨at_size, at_rest⟩ := sizesAt_cons.mp at_sizes
        have within := container_uint16_be_isSome.mp (Option.isSome_iff_exists.mpr ⟨_, at_size⟩)
        obtain rfl := Option.some.inj ((container_uint16_be_eq within).symm.trans at_size)
        exact ⟨within, some_sizes _ List.mem_cons_self, rest, by simpa using length, at_rest,
          fun size member => some_sizes size (List.mem_cons_of_mem _ member), (pushed _ _).symm⟩

/-- The code sections have as many sizes as their header says. -/
theorem read_many_sizes (code : l.section_id = CODE_SECTION) :
    l.read_section_size container = .ok l' ↔
      ∃ sizes, sizes.length = l.section_num ∧ SizesAt container l.it sizes ∧
        (∀ size ∈ sizes, size ≠ 0) ∧ l' = { l with
          section_headers := l.section_headers.add CODE_SECTION sizes
          it := l.it + 2 * l.section_num
          state := .section_id } := by
  rw [HeaderLoop.read_section_size, if_pos code, Validated.bind_eq_ok]
  simp only [validate_code_sizes_iff, code]
  constructor
  · rintro ⟨_, ⟨sizes, length, at_sizes, some_sizes, rfl⟩, same⟩
    exact ⟨sizes, length, at_sizes, some_sizes, (Except.ok.inj same).symm⟩
  · rintro ⟨sizes, length, at_sizes, some_sizes, rfl⟩
    exact ⟨_, ⟨sizes, length, at_sizes, some_sizes, rfl⟩, rfl⟩

end

theorem getElem?_within {byte : UInt8} (at_it : container[it]? = some byte) : it ≠ container.length :=
  (List.getElem?_eq_some_iff.mp at_it).1.ne

theorem uint16_within {n : Nat} (at_it : container_uint16_be container it = some n) :
    it + 1 < container.length :=
  container_uint16_be_isSome.mp (Option.isSome_iff_exists.mpr ⟨n, at_it⟩)

/-- The loop behind the header of the type section. -/
def HeaderLoop.after_types (type_size : Nat) : HeaderLoop where
  section_id := TYPE_SECTION
  section_headers := EOFSectionHeaders.add (fun _ => []) TYPE_SECTION [type_size]
  it := 6
  expected_section_id := CODE_SECTION

/-- The loop behind the header of the code sections. -/
def HeaderLoop.after_code (type_size : Nat) (code_sizes : List Nat) : HeaderLoop where
  section_id := CODE_SECTION
  section_num := code_sizes.length
  section_headers := (after_types type_size).section_headers.add CODE_SECTION code_sizes
  it := 9 + 2 * code_sizes.length
  expected_section_id := DATA_SECTION

/-- The loop behind the header of the data section. -/
def HeaderLoop.after_data (type_size : Nat) (code_sizes : List Nat) (data_size : Nat) : HeaderLoop where
  section_id := DATA_SECTION
  section_num := code_sizes.length
  section_headers := three_sections type_size code_sizes data_size
  it := 12 + 2 * code_sizes.length
  expected_section_id := TERMINATOR

/-- The loop behind the header of a container. -/
def HeaderLoop.after_header (type_size : Nat) (code_sizes : List Nat) (data_size : Nat) : HeaderLoop where
  state := .terminated
  section_id := TERMINATOR
  section_num := code_sizes.length
  section_headers := three_sections type_size code_sizes data_size
  it := 13 + 2 * code_sizes.length
  expected_section_id := TERMINATOR

section
variable {fuel type_size data_size : Nat} {code_sizes : List Nat} {l' : HeaderLoop}
  (ends : l'.state = .terminated)
include ends

theorem type_header_turns : validate_eof_headers_loop container fuel {} = .ok l' ↔
    ∃ fuel' type_size, fuel = fuel' + 2 ∧ container[3]? = some TYPE_SECTION ∧
      container_uint16_be container 4 = some type_size ∧ type_size ≠ 0 ∧
      validate_eof_headers_loop container fuel' (.after_types type_size) = .ok l' := by
  constructor
  · intro ran
    obtain ⟨_, _, rfl, _, turn, ran⟩ := (validate_eof_headers_turn ends (by simp)).mp ran
    obtain ⟨type_id, rfl⟩ := (read_type_id rfl).mp turn
    obtain ⟨fuel', _, rfl, _, turn, ran⟩ := (validate_eof_headers_turn ends (by simp)).mp ran
    obtain ⟨type_size, at_type_size, some_types, rfl⟩ := (read_one_size (by simp [section_ids])).mp turn
    exact ⟨fuel', type_size, rfl, type_id, at_type_size, some_types (by simp [section_ids]), ran⟩
  · rintro ⟨fuel', type_size, rfl, type_id, at_type_size, some_types, ran⟩
    refine (validate_eof_headers_turn ends (by simp)).mpr ⟨_, _, rfl, getElem?_within type_id,
      (read_type_id rfl).mpr ⟨type_id, rfl⟩, ?_⟩
    have within := uint16_within at_type_size
    refine (validate_eof_headers_turn ends (by simp)).mpr ⟨_, _, rfl, ?_,
      (read_one_size (by simp [section_ids])).mpr ⟨type_size, at_type_size, fun _ => some_types, rfl⟩, ran⟩
    show 4 ≠ _
    omega

theorem code_header_turns : validate_eof_headers_loop container fuel (.after_types type_size) = .ok l' ↔
    ∃ fuel' code_sizes, fuel = fuel' + 2 ∧ container[6]? = some CODE_SECTION ∧
      container_uint16_be container 7 = some code_sizes.length ∧ code_sizes.length ≠ 0 ∧
      code_sizes.length ≤ CODE_SECTION_NUMBER_LIMIT ∧ SizesAt container 9 code_sizes ∧
      (∀ size ∈ code_sizes, size ≠ 0) ∧
      validate_eof_headers_loop container fuel' (.after_code type_size code_sizes) = .ok l' := by
  have going : (HeaderLoop.after_types type_size).state ≠ .terminated := by simp [HeaderLoop.after_types]
  constructor
  · intro ran
    obtain ⟨_, _, rfl, _, turn, ran⟩ := (validate_eof_headers_turn ends going).mp ran
    obtain ⟨code_id, num, code_num, some_code, few_sections, rfl⟩ := (read_code_id rfl).mp turn
    obtain ⟨fuel', _, rfl, _, turn, ran⟩ := (validate_eof_headers_turn ends (by simp)).mp ran
    obtain ⟨code_sizes, rfl, at_code_sizes, no_empty_code, rfl⟩ := (read_many_sizes rfl).mp turn
    exact ⟨fuel', code_sizes, rfl, code_id, code_num, some_code, few_sections, at_code_sizes,
      no_empty_code, ran⟩
  · rintro ⟨fuel', code_sizes, rfl, code_id, code_num, some_code, few_sections, at_code_sizes,
      no_empty_code, ran⟩
    refine (validate_eof_headers_turn ends going).mpr ⟨_, _, rfl, getElem?_within code_id,
      (read_code_id rfl).mpr ⟨code_id, _, code_num, some_code, few_sections, rfl⟩, ?_⟩
    refine (validate_eof_headers_turn ends (by simp)).mpr ⟨_, _, rfl, ?_,
      (read_many_sizes rfl).mpr ⟨code_sizes, rfl, at_code_sizes, no_empty_code, rfl⟩, ran⟩
    have first := at_code_sizes 0 (by omega)
    rw [List.getElem?_eq_getElem (by omega)] at first
    have within := uint16_within first
    show 9 ≠ _
    omega

theorem data_header_turns : validate_eof_headers_loop container fuel (.after_code type_size code_sizes) =
    .ok l' ↔ ∃ fuel' data_size, fuel = fuel' + 2 ∧
      container[9 + 2 * code_sizes.length]? = some DATA_SECTION ∧
      container_uint16_be container (10 + 2 * code_sizes.length) = some data_size ∧
      validate_eof_headers_loop container fuel' (.after_data type_size code_sizes data_size) = .ok l' := by
  have data_at : 9 + 2 * code_sizes.length + 1 = 10 + 2 * code_sizes.length := by omega
  have behind : 10 + 2 * code_sizes.length + 2 = 12 + 2 * code_sizes.length := by omega
  have read_on (data_size : Nat) : ({
      section_id := DATA_SECTION
      section_num := code_sizes.length
      section_headers := three_sections type_size code_sizes data_size
      it := 9 + 2 * code_sizes.length + 1 + 2
      expected_section_id := TERMINATOR } : HeaderLoop) = .after_data type_size code_sizes data_size := by
    rw [data_at, behind]
    rfl
  have going : (HeaderLoop.after_code type_size code_sizes).state ≠ .terminated := by simp [HeaderLoop.after_code]
  constructor
  · intro ran
    obtain ⟨_, _, rfl, _, turn, ran⟩ := (validate_eof_headers_turn ends going).mp ran
    obtain ⟨data_id, rfl⟩ := (read_data_id rfl).mp turn
    obtain ⟨fuel', _, rfl, _, turn, ran⟩ := (validate_eof_headers_turn ends (by simp)).mp ran
    obtain ⟨data_size, at_data_size, _, rfl⟩ := (read_one_size (by simp [section_ids])).mp turn
    exact ⟨fuel', data_size, rfl, data_id, data_at ▸ at_data_size, read_on data_size ▸ ran⟩
  · rintro ⟨fuel', data_size, rfl, data_id, at_data_size, ran⟩
    refine (validate_eof_headers_turn ends going).mpr ⟨_, _, rfl, getElem?_within data_id,
      (read_data_id rfl).mpr ⟨data_id, rfl⟩, ?_⟩
    have within := uint16_within at_data_size
    refine (validate_eof_headers_turn ends (by simp)).mpr ⟨_, _, rfl, ?_,
      (read_one_size (by simp [section_ids])).mpr ⟨data_size, data_at ▸ at_data_size, by simp, rfl⟩,
      read_on data_size ▸ ran⟩
    show 9 + 2 * code_sizes.length + 1 ≠ _
    omega

theorem terminator_turn (within : 12 + 2 * code_sizes.length ≤ container.length) :
    validate_eof_headers_loop container fuel (.after_data type_size code_sizes data_size) = .ok l' ↔
      ∃ fuel', fuel = fuel' + 1 ∧ container[12 + 2 * code_sizes.length]? = some TERMINATOR ∧
        l' = .after_header type_size code_sizes data_size := by
  have behind : 12 + 2 * code_sizes.length + 1 = 13 + 2 * code_sizes.length := by omega
  have read_on : ({ HeaderLoop.after_data type_size code_sizes data_size with
      section_id := TERMINATOR
      it := 12 + 2 * code_sizes.length + 1
      expected_section_id := TERMINATOR
      state := .terminated } : HeaderLoop) = .after_header type_size code_sizes data_size := by
    rw [behind]
    rfl
  have going : (HeaderLoop.after_data type_size code_sizes data_size).state ≠ .terminated := by
    simp [HeaderLoop.after_data]
  constructor
  · intro ran
    obtain ⟨fuel', _, rfl, more, turn, ran⟩ := (validate_eof_headers_turn ends going).mp ran
    have before : (HeaderLoop.after_data type_size code_sizes data_size).it < container.length :=
      Nat.lt_of_le_of_ne within more
    obtain ⟨terminator, rfl⟩ := (read_terminator rfl before).mp turn
    exact ⟨fuel', rfl, terminator, ((validate_eof_headers_stop rfl).mp ran).symm.trans read_on⟩
  · rintro ⟨fuel', rfl, terminator, rfl⟩
    have before := (List.getElem?_eq_some_iff.mp terminator).1
    exact (validate_eof_headers_turn ends going).mpr ⟨_, _, rfl, getElem?_within terminator,
      (read_terminator rfl before).mpr ⟨terminator, rfl⟩, (validate_eof_headers_stop rfl).mpr read_on⟩

end

/-- What `validate_eof_headers` checks. -/
structure HeadersValid (container : Bytes) (type_size : Nat) (code_sizes : List Nat) (data_size : Nat) :
    Prop extends HeaderAt container type_size code_sizes data_size where
  some_code : code_sizes.length ≠ 0
  few_sections : code_sizes.length ≤ CODE_SECTION_NUMBER_LIMIT
  no_empty_code : ∀ size ∈ code_sizes, size ≠ 0
  type_entries : type_size = code_sizes.length * 4
  bodies : type_size + code_sizes.sum + data_size = container.length - (13 + 2 * code_sizes.length)

theorem validate_eof_headers_iff {headers : EOFSectionHeaders} :
    validate_eof_headers container = .ok headers ↔
      ∃ type_size code_sizes data_size, HeadersValid container type_size code_sizes data_size ∧
        headers = three_sections type_size code_sizes data_size := by
  rw [validate_eof_headers, Validated.bind_eq_ok]
  simp only [Validated.guard_eq_ok, ne_eq, not_not, Except.ok.injEq]
  constructor
  · rintro ⟨l, ran, ends, bodies, entries, rfl⟩
    obtain ⟨_, type_size, _, type_id, at_type_size, _, ran⟩ := (type_header_turns ends).mp ran
    obtain ⟨_, code_sizes, _, code_id, code_num, some_code, few_sections, at_code_sizes, no_empty_code,
      ran⟩ := (code_header_turns ends).mp ran
    obtain ⟨_, data_size, _, data_id, at_data_size, ran⟩ := (data_header_turns ends).mp ran
    have within := uint16_within at_data_size
    obtain ⟨_, _, terminator, rfl⟩ := (terminator_turn ends (by omega)).mp ran
    exact ⟨type_size, code_sizes, data_size, {
      type_id, at_type_size, code_id, code_num, at_code_sizes, data_id, at_data_size, terminator
      some_code, few_sections, no_empty_code
      type_entries := entries
      bodies := bodies }, rfl⟩
  · rintro ⟨type_size, code_sizes, data_size, valid, rfl⟩
    refine ⟨.after_header type_size code_sizes data_size, ?_, rfl, valid.bodies, valid.type_entries, rfl⟩
    have within := (List.getElem?_eq_some_iff.mp valid.terminator).1
    have some_code := valid.some_code
    have entries := valid.type_entries
    obtain ⟨fuel, enough⟩ : ∃ fuel, container.length = fuel + 7 := ⟨container.length - 7, by omega⟩
    have last : validate_eof_headers_loop container (fuel + 1) (.after_data type_size code_sizes data_size) =
        .ok (.after_header type_size code_sizes data_size) :=
      (terminator_turn rfl within.le).mpr ⟨fuel, rfl, valid.terminator, rfl⟩
    have data : validate_eof_headers_loop container (fuel + 3) (.after_code type_size code_sizes) =
        .ok (.after_header type_size code_sizes data_size) :=
      (data_header_turns rfl).mpr ⟨_, data_size, rfl, valid.data_id, valid.at_data_size, last⟩
    have code : validate_eof_headers_loop container (fuel + 5) (.after_types type_size) =
        .ok (.after_header type_size code_sizes data_size) :=
      (code_header_turns rfl).mpr ⟨_, code_sizes, rfl, valid.code_id, valid.code_num, valid.some_code,
        valid.few_sections, valid.at_code_sizes, valid.no_empty_code, data⟩
    rw [enough]
    exact (type_header_turns rfl).mpr
      ⟨_, type_size, rfl, valid.type_id, valid.at_type_size, by omega, code⟩

end EvmAssigner
