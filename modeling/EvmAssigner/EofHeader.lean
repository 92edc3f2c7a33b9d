import Mathlib.Data.List.Forall2
import EvmAssigner.Eof

namespace EvmAssigner
variable {container : Bytes} {it : Nat}

theorem mapM_eq_some_iff {α β : Type} {f : α → Option β} {as : List α} {bs : List β} :
    as.mapM f = some bs ↔ List.Forall₂ (fun a b => f a = some b) as bs := by
  induction as generalizing bs with
  | nil =>
    rw [List.mapM_nil, List.forall₂_nil_left_iff]
    exact ⟨fun h => (Option.some.inj h).symm, fun h => h ▸ rfl⟩
  | cons a as ih =>
    rw [List.mapM_cons, List.forall₂_cons_left_iff]
    constructor
    · intro h
      obtain ⟨b, at_a, h⟩ := Option.bind_eq_some_iff.mp h
      obtain ⟨bs', rest, h⟩ := Option.bind_eq_some_iff.mp h
      exact ⟨b, bs', at_a, ih.mp rest, (Option.some.inj h).symm⟩
    · rintro ⟨b, bs', at_a, rest, rfl⟩
      rw [at_a, ih.mpr rest]
      rfl

theorem container_uint16_be_isSome :
    (container_uint16_be container it).isSome ↔ it + 1 < container.length := by
  unfold container_uint16_be
  by_cases within : it + 1 < container.length
  · have before : it < container.length := by omega
    simp [within, before]
  · rw [List.getElem?_eq_none (by omega : container.length ≤ it + 1)]
    cases container[it]? with
    | none => simp [within]
    | some h => simp [within]

/-- From `it` on there are `sizes`, two bytes each. -/
def SizesAt (container : Bytes) (it : Nat) (sizes : List Nat) : Prop :=
  ∀ i < sizes.length, container_uint16_be container (it + 2 * i) = sizes[i]?

theorem read_code_sizes_iff {n it' : Nat} {sizes : List Nat} :
    read_code_sizes container n it = some (sizes, it') ↔
      sizes.length = n ∧ SizesAt container it sizes ∧ it' = it + 2 * n := by
  induction n generalizing it it' sizes with
  | zero =>
    rw [read_code_sizes]
    constructor
    · intro h
      obtain ⟨rfl, rfl⟩ := Prod.mk.inj (Option.some.inj h)
      exact ⟨rfl, fun i small => absurd small (Nat.not_lt_zero i), rfl⟩
    · rintro ⟨none, _, rfl⟩
      rw [List.length_eq_zero_iff.mp none]
  | succ n ih =>
    rw [read_code_sizes]
    constructor
    · intro h
      obtain ⟨size, at_it, h⟩ := Option.bind_eq_some_iff.mp h
      obtain ⟨⟨rest, behind⟩, read, h⟩ := Option.bind_eq_some_iff.mp h
      obtain ⟨rfl, rfl⟩ := Prod.mk.inj (Option.some.inj h)
      obtain ⟨length, at_rest, rfl⟩ := ih.mp read
      refine ⟨by rw [List.length_cons, length], fun i small => ?_, by omega⟩
      cases i with
      | zero => exact at_it
      | succ i =>
        have next := at_rest i (by simpa using small)
        rwa [show it + 2 + 2 * i = it + 2 * (i + 1) by omega] at next
    · rintro ⟨length, at_sizes, rfl⟩
      cases sizes with
      | nil => simp at length
      | cons size rest =>
        have first := at_sizes 0 (by simp)
        have others : SizesAt container (it + 2) rest := by
          intro i small
          have next := at_sizes (i + 1) (by simpa using small)
          rwa [show it + 2 * (i + 1) = it + 2 + 2 * i by omega] at next
        have read := ih.mpr ⟨by simpa using length, others, rfl⟩
        rw [Nat.mul_zero, Nat.add_zero] at first
        rw [first, List.getElem?_cons_zero]
        simp only [Option.bind_eq_bind, Option.bind_some, read]
        rw [show it + 2 + 2 * n = it + 2 * (n + 1) by omega]
        rfl

/-- What the headers say when `sizes` are read for a section. -/
def EOFSectionHeaders.add (headers : EOFSectionHeaders) (section_id : UInt8) (sizes : List Nat) :
    EOFSectionHeaders :=
  Function.update headers section_id (headers section_id ++ sizes)

/-- From `it` on there are complete section headers up to a terminator. -/
inductive Sections (container : Bytes) : Nat → EOFSectionHeaders → EOFSectionHeaders → Prop
  | terminator {it : Nat} {headers : EOFSectionHeaders} (at_it : container[it]? = some TERMINATOR) :
    Sections container it headers headers
  | one {it size : Nat} {section_id : UInt8} {headers headers' : EOFSectionHeaders}
      (at_it : container[it]? = some section_id) (more : section_id ≠ TERMINATOR)
      (known : ¬ section_id > MAX_SECTION) (other : section_id ≠ CODE_SECTION)
      (at_size : container_uint16_be container (it + 1) = some size)
      (rest : Sections container (it + 3) (headers.add section_id [size]) headers') :
    Sections container it headers headers'
  | code {it : Nat} {sizes : List Nat} {headers headers' : EOFSectionHeaders}
      (at_it : container[it]? = some CODE_SECTION)
      (at_num : container_uint16_be container (it + 1) = some sizes.length)
      (at_sizes : SizesAt container (it + 3) sizes)
      (rest : Sections container (it + 3 + 2 * sizes.length) (headers.add CODE_SECTION sizes) headers') :
    Sections container it headers headers'

theorem read_section_headers_iff {fuel : Nat} {headers headers' : EOFSectionHeaders}
    (enough : container.length ≤ it + fuel) :
    read_section_headers container fuel it headers = some headers' ↔
      Sections container it headers headers' := by
  induction fuel generalizing it headers with
  | zero =>
    have past : container[it]? = none := List.getElem?_eq_none enough
    rw [read_section_headers]
    constructor
    · exact fun h => nomatch h
    · rintro (at_it | ⟨at_it, _, _, _, _, _⟩ | ⟨at_it, _, _, _⟩)
      all_goals exact nomatch past.symm.trans at_it
  | succ fuel ih =>
    rw [read_section_headers]
    cases at_it : container[it]? with
    | none =>
      constructor
      · exact fun h => nomatch h
      · rintro (at_it' | ⟨at_it', _, _, _, _, _⟩ | ⟨at_it', _, _, _⟩)
        all_goals exact nomatch at_it.symm.trans at_it'
    | some section_id =>
      simp only [Option.bind_eq_bind, Option.bind_some]
      by_cases done : section_id = TERMINATOR
      · subst done
        rw [if_pos rfl]
        constructor
        · intro h
          obtain rfl := Option.some.inj h
          exact .terminator at_it
        · intro sections
          cases sections with
          | terminator _ => rfl
          | one at_it' more _ _ _ _ => exact absurd (Option.some.inj (at_it'.symm.trans at_it)) more
          | code at_it' _ _ _ => exact nomatch at_it'.symm.trans at_it
      rw [if_neg done]
      by_cases known : ¬ section_id > MAX_SECTION
      · rw [if_neg known]
        by_cases code : section_id = CODE_SECTION
        · subst code
          simp only [if_true]
          constructor
          · intro h
            obtain ⟨num, at_num, h⟩ := Option.bind_eq_some_iff.mp h
            obtain ⟨⟨sizes, behind⟩, read, h⟩ := Option.bind_eq_some_iff.mp h
            obtain ⟨rfl, at_sizes, rfl⟩ := read_code_sizes_iff.mp read
            exact .code at_it at_num at_sizes ((ih (by omega)).mp h)
          · intro sections
            cases sections with
            | terminator at_it' => exact nomatch at_it'.symm.trans at_it
            | one at_it' _ _ other _ _ =>
              exact absurd (Option.some.inj (at_it'.symm.trans at_it)) other
            | code _ at_num at_sizes rest =>
              rw [at_num, Option.bind_some, read_code_sizes_iff.mpr ⟨rfl, at_sizes, rfl⟩, Option.bind_some]
              exact (ih (by omega)).mpr rest
        · simp only [code, if_false]
          constructor
          · intro h
            obtain ⟨size, at_size, h⟩ := Option.bind_eq_some_iff.mp h
            exact .one at_it done known code at_size ((ih (by omega)).mp h)
          · intro sections
            cases sections with
            | terminator at_it' => exact absurd (Option.some.inj (at_it.symm.trans at_it')) done
            | one at_it' _ _ _ at_size rest =>
              obtain rfl := Option.some.inj (at_it.symm.trans at_it')
              rw [at_size]
              exact (ih (by omega)).mpr rest
            | code at_it' _ _ _ => exact absurd (Option.some.inj (at_it.symm.trans at_it')) code
      · rw [if_pos (not_not.mp known)]
        constructor
        · exact fun h => nomatch h
        · intro sections
          cases sections with
          | terminator at_it' => exact absurd (Option.some.inj (at_it.symm.trans at_it')) done
          | one at_it' _ known' _ _ _ =>
            obtain rfl := Option.some.inj (at_it.symm.trans at_it')
            exact absurd known' known
          | code at_it' _ _ _ =>
            obtain rfl := Option.some.inj (at_it.symm.trans at_it')
            exact absurd (by decide) known

theorem Sections.within {headers headers' : EOFSectionHeaders}
    (sections : Sections container it headers headers') : it < container.length := by
  cases sections with
  | terminator at_it => exact (List.getElem?_eq_some_iff.mp at_it).1
  | one at_it _ _ _ _ _ => exact (List.getElem?_eq_some_iff.mp at_it).1
  | code at_it _ _ _ => exact (List.getElem?_eq_some_iff.mp at_it).1

theorem Sections.unique {headers h₁ h₂ : EOFSectionHeaders} (first : Sections container it headers h₁)
    (second : Sections container it headers h₂) : h₁ = h₂ := by
  have enough : container.length ≤ it + container.length := Nat.le_add_left _ _
  have read := (read_section_headers_iff enough).mpr first
  exact Option.some.inj (read.symm.trans ((read_section_headers_iff enough).mpr second))

theorem read_type_isSome {type_offset : Nat} :
    (read_type container type_offset).isSome ↔ type_offset + 4 ≤ container.length := by
  unfold read_type
  have last : (container_uint16_be container (type_offset + 2)).isSome ↔ _ := container_uint16_be_isSome
  constructor
  · intro some
    obtain ⟨t, read⟩ := Option.isSome_iff_exists.mp some
    obtain ⟨_, _, read⟩ := Option.bind_eq_some_iff.mp read
    obtain ⟨_, _, read⟩ := Option.bind_eq_some_iff.mp read
    obtain ⟨_, height, _⟩ := Option.bind_eq_some_iff.mp read
    have within := last.mp (Option.isSome_iff_exists.mpr ⟨_, height⟩)
    omega
  · intro within
    obtain ⟨height, at_height⟩ := Option.isSome_iff_exists.mp (last.mpr (by omega))
    rw [List.getElem?_eq_getElem (by omega), List.getElem?_eq_getElem (by omega), at_height]
    rfl

/-- Where the entries of a type section of `type_size` bytes begin. -/
def type_positions (header_size type_size : Nat) : List Nat :=
  (List.range ((type_size + 3) / 4)).map (header_size + 4 * ·)

theorem read_types_isSome {header_size type_size : Nat} :
    (∃ types, (type_positions header_size type_size).mapM (read_type container) = some types) ↔
      (0 < type_size → header_size + (type_size + 3) / 4 * 4 ≤ container.length) := by
  constructor
  · rintro ⟨types, read⟩ some
    have each := mapM_eq_some_iff.mp read
    have length := each.length_eq
    rw [type_positions, List.length_map, List.length_range] at length
    have last := (List.forall₂_iff_get.mp each).2 ((type_size + 3) / 4 - 1)
      (by simp [type_positions]; omega) (by omega)
    have within := read_type_isSome.mp (Option.isSome_iff_exists.mpr ⟨_, last⟩)
    simp only [type_positions, List.get_eq_getElem, List.getElem_map, List.getElem_range] at within
    omega
  · intro within
    have each : ∀ pos ∈ type_positions header_size type_size, (read_type container pos).isSome := by
      intro pos member
      obtain ⟨i, small, rfl⟩ := List.mem_map.mp member
      rw [List.mem_range] at small
      have room := within (by omega)
      exact read_type_isSome.mpr (by omega)
    generalize type_positions header_size type_size = positions at each
    induction positions with
    | nil => exact ⟨[], rfl⟩
    | cons pos positions ih =>
      obtain ⟨t, read⟩ := Option.isSome_iff_exists.mp (each pos List.mem_cons_self)
      obtain ⟨types, rest⟩ := ih fun pos' member => each pos' (List.mem_cons_of_mem _ member)
      rw [List.mapM_cons, read, rest]
      exact ⟨t :: types, rfl⟩

/-- What `read_valid_eof1_header` reads, when everything it looks for is there. -/
structure HeaderRead (container : Bytes) (headers : EOFSectionHeaders) (type_size data_size : Nat)
    (types : List EOFCodeType) : Prop where
  sections : Sections container 3 (fun _ => []) headers
  type_section : (headers TYPE_SECTION)[0]? = some type_size
  data_section : (headers DATA_SECTION)[0]? = some data_size
  types_read : (type_positions (eof_header_size headers) type_size).mapM (read_type container) = some types

theorem read_valid_eof1_header_iff {header : EOF1Header} :
    read_valid_eof1_header container = some header ↔
      ∃ headers type_size data_size types version, HeaderRead container headers type_size data_size types ∧
        container[2]? = some version ∧
        header = {
          version := version.toNat
          types := types
          code_sizes := headers CODE_SECTION
          code_offsets := code_offsets (eof_header_size headers + type_size) (headers CODE_SECTION)
          data_size := data_size } := by
  have enough : container.length ≤ 3 + container.length := Nat.le_add_left _ _
  unfold read_valid_eof1_header
  constructor
  · intro read
    obtain ⟨headers, sections, read⟩ := Option.bind_eq_some_iff.mp read
    obtain ⟨version, at_version, read⟩ := Option.bind_eq_some_iff.mp read
    obtain ⟨type_size, at_type, read⟩ := Option.bind_eq_some_iff.mp read
    obtain ⟨types, at_types, read⟩ := Option.bind_eq_some_iff.mp read
    obtain ⟨data_size, at_data, read⟩ := Option.bind_eq_some_iff.mp read
    exact ⟨headers, type_size, data_size, types, version,
      ⟨(read_section_headers_iff enough).mp sections, at_type, at_data, at_types⟩, at_version,
      (Option.some.inj read).symm⟩
  · rintro ⟨headers, type_size, data_size, types, version, there, at_version, rfl⟩
    have types_read := there.types_read
    unfold type_positions at types_read
    rw [(read_section_headers_iff enough).mpr there.sections]
    simp only [Option.bind_eq_bind, Option.bind_some, at_version, there.type_section, types_read,
      there.data_section]
    rfl

end EvmAssigner
