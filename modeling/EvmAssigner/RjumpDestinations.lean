import EvmAssigner.EofSweep

namespace EvmAssigner

section
variable (code : Bytes)

/-- `read_uint16_be`; there is none where a byte is missing. -/
def read_uint16_be_checked (it : Nat) : Option Nat := do
  let high ← code[it]?
  let low ← code[it + 1]?
  return high.toNat * 256 + low.toNat

def read_int16_be_checked (it : Nat) : Option Int := do
  return Int.bmod (← read_uint16_be_checked code it) (2 ^ 16)

def immediate_bytes_checked (op : Opcode) (i : Nat) : Option Nat :=
  if op = .RJUMPV then do return 1 + ((← code[i + 1]?).toNat + 1) * REL_OFFSET_SIZE
  else some (immediate_size op)

def rel_offsets_checked (op : Opcode) (i : Nat) : Option (List Int) :=
  match op with
  | .RJUMP | .RJUMPI => do return [← read_int16_be_checked code (i + 1)]
  | .RJUMPV => do
    let count := (← code[i + 1]?).toNat + 1
    (List.range count).mapM fun k => read_int16_be_checked code (i + k * REL_OFFSET_SIZE + 2)
  | _ => some []

/-- `collect_rjumps` where every access is checked: there is no result if one is outside of the code or of the
map, or if `fuel` turns are too few. -/
def collect_rjumps_checked : Nat → Nat → List Nat → (Nat → Bool) → Option (Option (List Nat × (Nat → Bool)))
  | 0, i, rjumpdests, immediate_map => if i < code.length then none else some (some (rjumpdests, immediate_map))
  | fuel + 1, i, rjumpdests, immediate_map =>
    if i < code.length then do
      let op := opcode_or (← code[i]?)
      let imm_size ← immediate_bytes_checked code op i
      let rel_offsets ← rel_offsets_checked code op i
      let jumpdests := rel_offsets.map fun rel_offset => ((i + 1 + imm_size : Nat) : Int) + rel_offset
      if ∃ jumpdest ∈ jumpdests, jumpdest < 0 ∨ jumpdest ≥ code.length then some none
      -- The immediates are marked up to here.
      else if i + 1 + imm_size ≤ code.length then
        collect_rjumps_checked fuel (i + imm_size + 1) (rjumpdests ++ jumpdests.map Int.toNat)
          fun k => decide (i + 1 ≤ k ∧ k < i + 1 + imm_size) || immediate_map k
      else none
    else some (some (rjumpdests, immediate_map))

def validate_rjump_destinations_checked (fuel : Nat) : Option Bool := do
  match ← collect_rjumps_checked code fuel 0 [] fun _ => false with
  | none => return false
  | some (rjumpdests, immediate_map) =>
    if ∀ rjumpdest ∈ rjumpdests, rjumpdest < code.length then
      return rjumpdests.all fun rjumpdest => !immediate_map rjumpdest
    else none

end

variable {code : Bytes} {i j k : Nat}

theorem mapM_checked {α β : Type} {f : α → Option β} {g : α → β} {l : List α}
    (all : ∀ x ∈ l, f x = some (g x)) : l.mapM f = some (l.map g) := by
  induction l with
  | nil => rfl
  | cons x l ih =>
    rw [List.mapM_cons, all x List.mem_cons_self, ih fun y member => all y (List.mem_cons_of_mem x member)]
    rfl

theorem byte_within (within : i < code.length) : code[i]? = some (code.getD i 0) := by
  rw [List.getD_eq_getElem?_getD, List.getElem?_eq_getElem within]
  rfl

theorem read_uint16_be_within (within : i + 1 < code.length) :
    read_uint16_be_checked code i = some (uint16_be_at code i) := by
  rw [read_uint16_be_checked, byte_within (by omega), byte_within within]
  rfl

theorem read_int16_be_within (within : i + 1 < code.length) :
    read_int16_be_checked code i = some (int16_be_at code i) := by
  rw [read_int16_be_checked, read_uint16_be_within within]
  rfl

/-- Where the immediates of an instruction end inside the code, its readings are inside. -/
theorem immediate_bytes_within (whole : next_at code i ≤ code.length) :
    immediate_bytes_checked code (op_at code i) i = some (immediate_bytes code (op_at code i) i) := by
  rw [immediate_bytes_checked, immediate_bytes]
  rw [next_at, immediate_bytes] at whole
  split_ifs at whole ⊢ with rjumpv
  · rw [byte_within (by omega)]
    rfl
  · rfl

theorem rel_offsets_within (whole : next_at code i ≤ code.length) :
    rel_offsets_checked code (op_at code i) i = some (rel_offsets code (op_at code i) i) := by
  have one_offset (op : Opcode) (at_i : op_at code i = op) (rjumpv : op ≠ .RJUMPV) (size : immediate_size op = 2) :
      read_int16_be_checked code (i + 1) = some (int16_be_at code (i + 1)) := by
    rw [next_at, at_i, immediate_bytes, if_neg rjumpv] at whole
    exact read_int16_be_within (by omega)
  generalize at_i : op_at code i = op at one_offset ⊢
  unfold rel_offsets_checked
  split
  · rw [one_offset _ rfl (by simp) rfl]
    rfl
  · rw [one_offset _ rfl (by simp) rfl]
    rfl
  · rw [next_at, at_i, immediate_bytes, if_pos rfl] at whole
    rw [byte_within (by omega)]
    refine mapM_checked fun k member => read_int16_be_within ?_
    have below := List.mem_range.mp member
    simp only [REL_OFFSET_SIZE] at whole ⊢
    omega
  · unfold rel_offsets
    split
    all_goals first | contradiction | rfl

/-- What the collected jumps and marks come from, where no jump leaves the code. -/
theorem collect_rjumps_inside {fuel : Nat} {dests : List Nat} {map : Nat → Bool}
    (inside : ∀ j, Sweep code i j → j < code.length → ∀ rel ∈ rel_offsets code (op_at code j) j,
      0 ≤ (next_at code j : Int) + rel ∧ (next_at code j : Int) + rel < code.length) :
    ∃ dests' map', collect_rjumps code fuel i dests map = some (dests', map') ∧
      (∀ t ∈ dests', t ∈ dests ∨ ∃ j, Sweep code i j ∧ j < code.length ∧ t ∈ targets code j) ∧
      ∀ k, map' k = true → map k = true ∨ ∃ j, Sweep code i j ∧ j < code.length ∧ j < k ∧ k < next_at code j := by
  induction fuel generalizing i dests map with
  | zero => exact ⟨dests, map, rfl, fun _ member => Or.inl member, fun _ marked => Or.inl marked⟩
  | succ fuel ih =>
    by_cases within : i < code.length
    · have turn := collect_rjumps_turn fuel dests map within
      have here : ¬ ∃ dest ∈ (rel_offsets code (op_at code i) i).map fun rel => (next_at code i : Int) + rel,
          dest < 0 ∨ dest ≥ code.length := by
        rintro ⟨dest, member, outside⟩
        obtain ⟨rel, at_rel, rfl⟩ := List.mem_map.mp member
        have := inside i .here within rel at_rel
        omega
      rw [if_neg here] at turn
      obtain ⟨dests', map', ran, from_dests, from_map⟩ := ih fun j sweep => inside j (.next within sweep)
      refine ⟨dests', map', turn.trans ran, fun t member => ?_, fun k marked => ?_⟩
      · rcases from_dests t member with member | ⟨j, sweep, within_j, target⟩
        · rcases List.mem_append.mp member with member | member
          · exact Or.inl member
          · rw [List.map_map] at member
            exact Or.inr ⟨i, .here, within, member⟩
        · exact Or.inr ⟨j, .next within sweep, within_j, target⟩
      · rcases from_map k marked with marked | ⟨j, sweep, within_j, between⟩
        · rcases Bool.or_eq_true_iff.mp marked with immediate | marked
          · have between := of_decide_eq_true immediate
            exact Or.inr ⟨i, .here, within, between⟩
          · exact Or.inl marked
        · exact Or.inr ⟨j, .next within sweep, within_j, between⟩
    · rw [collect_rjumps, if_pos (not_lt.mp within)]
      exact ⟨dests, map, rfl, fun _ member => Or.inl member, fun _ marked => Or.inl marked⟩

/-- The check passes where all jumps lead to instructions. -/
theorem validate_rjump_destinations_of_starts
    (lands : ∀ i, Starts code i → ∀ rel ∈ rel_offsets code (op_at code i) i, 0 ≤ (next_at code i : Int) + rel ∧
      Starts code ((next_at code i : Int) + rel).toNat) : validate_rjump_destinations code = true := by
  obtain ⟨dests, map, ran, from_dests, from_map⟩ :=
    @collect_rjumps_inside code 0 code.length [] (fun _ => false)
      fun j sweep within rel at_rel => by
        obtain ⟨nonneg, starts⟩ := lands j ⟨sweep, within⟩ rel at_rel
        have upper := starts.2
        omega
  rw [validate_rjump_destinations, ran]
  refine List.all_eq_true.mpr fun t member => ?_
  rcases from_dests t member with none | ⟨j, sweep, within, target⟩
  · exact absurd none List.not_mem_nil
  obtain ⟨rel, at_rel, rfl⟩ := List.mem_map.mp target
  have starts := (lands j ⟨sweep, within⟩ rel at_rel).2
  cases marked : map ((next_at code j : Int) + rel).toNat with
  | false => rfl
  | true =>
    rcases from_map _ marked with none | ⟨j', sweep', within', before, after⟩
    · exact nomatch none
    · rcases sweep'.apart within' starts.1 with first | behind
      · omega
      · omega

/-- The pass accesses the code and the map inside only, once the instructions are known to be whole. -/
theorem collect_rjumps_checked_eq {fuel fuel' : Nat} {dests : List Nat} {map : Nat → Bool}
    (whole : ∀ j, Sweep code i j → j < code.length → next_at code j ≤ code.length)
    (enough : code.length ≤ i + fuel) (enough' : code.length ≤ i + fuel') :
    collect_rjumps_checked code fuel i dests map = some (collect_rjumps code fuel' i dests map) := by
  induction fuel generalizing fuel' i dests map with
  | zero =>
    have past : ¬ i < code.length := by omega
    rw [collect_rjumps_checked, if_neg past]
    cases fuel' with
    | zero => rfl
    | succ fuel' => rw [collect_rjumps, if_pos (not_lt.mp past)]
  | succ fuel ih =>
    rw [collect_rjumps_checked]
    by_cases within : i < code.length
    · obtain ⟨fuel', rfl⟩ : ∃ n, fuel' = n + 1 := ⟨fuel' - 1, by omega⟩
      have whole_i := whole i .here within
      have after : i < next_at code i := next_at_gt
      have later {dests : List Nat} {map : Nat → Bool} :
          collect_rjumps_checked code fuel (next_at code i) dests map =
            some (collect_rjumps code fuel' (next_at code i) dests map) :=
        ih (fun j sweep => whole j (.next within sweep)) (by omega) (by omega)
      have room : i + 1 + immediate_bytes code (op_at code i) i ≤ code.length := by
        rw [next_at] at whole_i
        omega
      rw [if_pos within, byte_within within]
      show (immediate_bytes_checked code (op_at code i) i).bind (fun imm_size =>
        (rel_offsets_checked code (op_at code i) i).bind _) = _
      rw [immediate_bytes_within whole_i, rel_offsets_within whole_i]
      simp only [Option.bind_some]
      rw [collect_rjumps, if_neg (not_le.mpr within), show opcode_or (code.getD i 0) = op_at code i from rfl]
      simp only [if_pos room]
      split_ifs
      · rfl
      · exact later
    · rw [if_neg within]
      cases fuel' with
      | zero => rfl
      | succ fuel' => rw [collect_rjumps, if_pos (not_lt.mp within)]

theorem collect_rjumps_dests {fuel : Nat} {dests dests' : List Nat} {map map' : Nat → Bool}
    (inside : ∀ dest ∈ dests, dest < code.length)
    (ran : collect_rjumps code fuel i dests map = some (dests', map')) : ∀ dest ∈ dests', dest < code.length := by
  induction fuel generalizing i dests map with
  | zero =>
    obtain ⟨rfl, rfl⟩ := Prod.mk.inj (Option.some.inj ran)
    exact inside
  | succ fuel ih =>
    by_cases within : i < code.length
    · rw [collect_rjumps_turn fuel dests map within] at ran
      split at ran
      · exact nomatch ran
      · rename_i jumps
        refine ih (fun dest member => ?_) ran
        rcases List.mem_append.mp member with member | member
        · exact inside dest member
        · obtain ⟨jumpdest, jumps_to, rfl⟩ := List.mem_map.mp member
          by_contra outside
          exact jumps ⟨jumpdest, jumps_to, by omega⟩
    · rw [collect_rjumps, if_pos (not_lt.mp within)] at ran
      obtain ⟨rfl, rfl⟩ := Prod.mk.inj (Option.some.inj ran)
      exact inside

theorem validate_rjump_destinations_checked_eq {fuel : Nat} (enough : code.length ≤ fuel)
    (whole : ∀ j, Starts code j → next_at code j ≤ code.length) :
    validate_rjump_destinations_checked code fuel = some (validate_rjump_destinations code) := by
  rw [validate_rjump_destinations_checked, validate_rjump_destinations,
    collect_rjumps_checked_eq (fun j sweep within => whole j ⟨sweep, within⟩) (by omega)
      (Nat.le_add_left code.length 0)]
  cases ran : collect_rjumps code code.length 0 [] fun _ => false with
  | none => rfl
  | some collected =>
    obtain ⟨dests, map⟩ := collected
    have inside : ∀ dest ∈ dests, dest < code.length :=
      collect_rjumps_dests (fun _ none => absurd none List.not_mem_nil) ran
    show (if _ then _ else _) = _
    rw [if_pos inside]
    rfl

/-- The jumps of a section that `validate_instructions` accepts are read inside it, and pass where all of them
lead to instructions. -/
theorem rjump_destinations {types : List EOFCodeType} {rev : Revision} {data_size : Nat} {type : EOFCodeType}
    (accepted : validate_instructions code types rev data_size type = .ok ()) :
    (∀ fuel, code.length ≤ fuel →
      validate_rjump_destinations_checked code fuel = some (validate_rjump_destinations code)) ∧
    (validate_rjump_destinations code = true ↔
      ∀ i, Starts code i → ∀ rel ∈ rel_offsets code (op_at code i) i,
        0 ≤ (next_at code i : Int) + rel ∧ (next_at code i : Int) + rel < code.length ∧
          Starts code ((next_at code i : Int) + rel).toNat) := by
  obtain ⟨is_returning, ran, _⟩ := Validated.bind_eq_ok.mp accepted
  have valid := (validate_instructions_sweep (by omega) ran).1
  constructor
  · intro fuel enough
    exact validate_rjump_destinations_checked_eq enough fun j starts => (valid j starts.1 starts.2).whole
  · constructor
    · intro passes i starts rel at_rel
      obtain ⟨nonneg, lands⟩ := rjump_lands passes starts at_rel
      have upper := lands.2
      exact ⟨nonneg, by omega, lands⟩
    · intro lands
      refine validate_rjump_destinations_of_starts fun i starts rel at_rel => ?_
      obtain ⟨nonneg, _, starts'⟩ := lands i starts rel at_rel
      exact ⟨nonneg, starts'⟩

/-- Both entries of the table lead to instructions. -/
theorem rjump_destinations_join :
    validate_rjump_destinations_checked joining_code 15 = some (validate_rjump_destinations joining_code) ∧
    ∀ i, Starts joining_code i → ∀ rel ∈ rel_offsets joining_code (op_at joining_code i) i,
      0 ≤ (next_at joining_code i : Int) + rel ∧ (next_at joining_code i : Int) + rel < joining_code.length ∧
        Starts joining_code ((next_at joining_code i : Int) + rel).toNat :=
  ⟨(rjump_destinations joining_code_accepted).1 15 (by decide),
    (rjump_destinations joining_code_accepted).2.mp joining_code_rjumps⟩

end EvmAssigner
