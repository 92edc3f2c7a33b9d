import Mathlib.Data.List.Basic
import EvmAssigner.Word

namespace EvmAssigner

abbrev OP_STOP : UInt8 := 0x00
abbrev OP_JUMPDEST : UInt8 := 0x5b
abbrev OP_PUSH1 : UInt8 := 0x60

/-- Conversion to `int8_t`. -/
def int8 (x : UInt8) : Int := Int.bmod x.toNat (2 ^ 8)

/-- The bytes an instruction carries behind its opcode in legacy code. -/
def push_data (op : UInt8) : Nat := if int8 op ≥ OP_PUSH1.toNat then op.toNat - (OP_PUSH1.toNat - 1) else 0

def analyze_jumpdests_loop (code : Bytes) : Nat → Nat → List Bool → List Bool
  | 0, _, map => map
  | fuel + 1, i, map =>
    match code[i]? with
    | none => map
    | some op =>
      if int8 op ≥ OP_PUSH1.toNat then
        analyze_jumpdests_loop code fuel (i + (op.toNat - (OP_PUSH1.toNat - 1)) + 1) map
      else if op = OP_JUMPDEST then analyze_jumpdests_loop code fuel (i + 1) (map.set i true)
      else analyze_jumpdests_loop code fuel (i + 1) map

def analyze_jumpdests (code : Bytes) : List Bool :=
  analyze_jumpdests_loop code code.length 0 (List.replicate code.length false)

/-- Room for the data of a `PUSH32` in the last byte, and a `STOP` behind it. -/
def pad_code (code : Bytes) : Bytes := code ++ List.replicate (32 + 1) OP_STOP

/-- The sweep that skips push data gets from position `i` to position `j`. -/
inductive Sweeps (code : Bytes) : Nat → Nat → Prop
  | here {i : Nat} (within : i < code.length) : Sweeps code i i
  | next {i j : Nat} {op : UInt8} (at_i : code[i]? = some op)
      (rest : Sweeps code (i + push_data op + 1) j) : Sweeps code i j

/-- `j` holds an opcode, not push data. -/
def InstructionStart (code : Bytes) (j : Nat) : Prop := Sweeps code 0 j

theorem Sweeps.range {code : Bytes} {i j : Nat} (h : Sweeps code i j) : i ≤ j ∧ j < code.length := by
  induction h with
  | here within => exact ⟨le_rfl, within⟩
  | next at_i rest ih => omega

theorem Sweeps.step_iff {code : Bytes} {i j : Nat} {op : UInt8} (at_i : code[i]? = some op) :
    Sweeps code i j ↔ j = i ∨ Sweeps code (i + push_data op + 1) j := by
  constructor
  · rintro (within | @⟨_, _, op', at_i', rest⟩)
    · exact Or.inl rfl
    · obtain rfl := Option.some.inj (at_i.symm.trans at_i')
      exact Or.inr rest
  · rintro (rfl | rest)
    · exact .here (List.getElem?_eq_some_iff.mp at_i).1
    · exact .next at_i rest

theorem Sweeps.after {code : Bytes} {i j : Nat} {op : UInt8} (h : Sweeps code i j)
    (at_j : code[j]? = some op) (within : j + push_data op + 1 < code.length) :
    Sweeps code i (j + push_data op + 1) := by
  induction h with
  | here _ => exact .next at_j (.here within)
  | next at_i _ ih => exact .next at_i (ih at_j within)

/-- The sweep has nothing between an instruction and the one behind its data. -/
theorem Sweeps.gap {code : Bytes} {i j k : Nat} {op : UInt8} (h : Sweeps code i j)
    (at_j : code[j]? = some op) (sweep : Sweeps code i k) (later : j < k) : j + push_data op + 1 ≤ k := by
  induction h with
  | here _ =>
    rcases (Sweeps.step_iff at_j).mp sweep with rfl | rest
    · omega
    · exact rest.range.1
  | next at_i rest ih =>
    rcases (Sweeps.step_iff at_i).mp sweep with rfl | sweep
    · have := rest.range
      omega
    · exact ih at_j sweep later

theorem analyze_jumpdests_loop_iff {code : Bytes} {fuel i j : Nat} {map : List Bool}
    (size : map.length = code.length) (enough : code.length ≤ i + fuel) :
    (analyze_jumpdests_loop code fuel i map)[j]? = some true ↔
      map[j]? = some true ∨ Sweeps code i j ∧ code[j]? = some OP_JUMPDEST := by
  induction fuel generalizing i map with
  | zero =>
    rw [analyze_jumpdests_loop]
    constructor
    · exact Or.inl
    · rintro (marked | ⟨sweep, _⟩)
      · exact marked
      · have range := sweep.range
        omega
  | succ fuel ih =>
    rw [analyze_jumpdests_loop]
    cases at_i : code[i]? with
    | none =>
      have past := List.getElem?_eq_none_iff.mp at_i
      constructor
      · exact Or.inl
      · rintro (marked | ⟨sweep, _⟩)
        · exact marked
        · have range := sweep.range
          omega
    | some op =>
      have within := (List.getElem?_eq_some_iff.mp at_i).1
      simp only
      rw [Sweeps.step_iff at_i]
      by_cases push : int8 op ≥ OP_PUSH1.toNat
      · have other : op ≠ OP_JUMPDEST := by
          rintro rfl
          exact absurd push (by decide)
        rw [if_pos push, ih size (by omega), push_data, if_pos push]
        constructor
        · rintro (marked | ⟨sweep, dest⟩)
          · exact Or.inl marked
          · exact Or.inr ⟨Or.inr sweep, dest⟩
        · rintro (marked | ⟨rfl | sweep, dest⟩)
          · exact Or.inl marked
          · exact absurd (Option.some.inj (at_i.symm.trans dest)) other
          · exact Or.inr ⟨sweep, dest⟩
      · rw [if_neg push, push_data, if_neg push, Nat.add_zero]
        by_cases dest : op = OP_JUMPDEST
        · subst dest
          rw [if_pos rfl, ih (by simpa using size) (by omega), List.getElem?_set]
          by_cases same : i = j
          · subst same
            constructor
            · exact fun _ => Or.inr ⟨Or.inl rfl, at_i⟩
            · intro _
              left
              simp [size, within]
          · simp only [if_neg same, Ne.symm same, false_or]
        · rw [if_neg dest, ih size (by omega)]
          constructor
          · rintro (marked | ⟨sweep, at_j⟩)
            · exact Or.inl marked
            · exact Or.inr ⟨Or.inr sweep, at_j⟩
          · rintro (marked | ⟨rfl | sweep, at_j⟩)
            · exact Or.inl marked
            · exact absurd (Option.some.inj (at_i.symm.trans at_j)) dest
            · exact Or.inr ⟨sweep, at_j⟩

theorem analyze_jumpdests_loop_length {code : Bytes} {fuel i : Nat} {map : List Bool} :
    (analyze_jumpdests_loop code fuel i map).length = map.length := by
  induction fuel generalizing i map with
  | zero => rfl
  | succ fuel ih =>
    rw [analyze_jumpdests_loop]
    split
    · rfl
    · split_ifs
      · exact ih
      · rw [ih, List.length_set]
      · exact ih

@[simp] theorem analyze_jumpdests_length (code : Bytes) : (analyze_jumpdests code).length = code.length := by
  rw [analyze_jumpdests, analyze_jumpdests_loop_length, List.length_replicate]

theorem pad_code_getD {code : Bytes} {pos : Nat} :
    (pad_code code).getD pos 0 = if pos < code.length then code.getD pos 0 else OP_STOP := by
  rw [pad_code, List.getD_eq_getElem?_getD, List.getElem?_append]
  split
  · rw [List.getD_eq_getElem?_getD]
  · rw [List.getElem?_replicate]
    split <;> rfl

/-- The bitmap marks the opcodes `JUMPDEST` of the sweep. -/
theorem analyze_jumpdests_iff (code : Bytes) (j : Nat) :
    (analyze_jumpdests code)[j]? = some true ↔
      InstructionStart code j ∧ code[j]? = some OP_JUMPDEST := by
  have clear : (List.replicate code.length false)[j]? ≠ some true := by
    intro marked
    have member := List.mem_of_getElem? marked
    rw [List.mem_replicate] at member
    exact Bool.noConfusion member.2
  rw [analyze_jumpdests, analyze_jumpdests_loop_iff (by simp) (by omega)]
  constructor
  · exact fun h => h.resolve_left clear
  · exact Or.inr

abbrev OP_PUSH32 : UInt8 := 0x7f

/-- The length of the data of `PUSH1` to `PUSH32`. -/
def push_length (op : UInt8) : Nat := if OP_PUSH1 ≤ op ∧ op ≤ OP_PUSH32 then op.toNat - 0x5f else 0

/-- The signed comparison finds the same instructions. -/
theorem push_data_length (op : UInt8) : push_data op = push_length op := by
  have small := op.toNat_lt
  have first : OP_PUSH1 ≤ op ↔ 0x60 ≤ op.toNat := UInt8.le_iff_toNat_le
  have last : op ≤ OP_PUSH32 ↔ op.toNat ≤ 0x7f := UInt8.le_iff_toNat_le
  have signed : int8 op ≥ OP_PUSH1.toNat ↔ 0x60 ≤ op.toNat ∧ op.toNat ≤ 0x7f := by
    show Int.bmod op.toNat (2 ^ 8) ≥ 0x60 ↔ _
    rw [Int.bmod_def]
    split <;> omega
  simp only [push_data, push_length, signed, first, last]
  rfl

/-- `i` is reached from the first byte of the code by going from instruction to instruction. -/
inductive Begins (code : Bytes) : Nat → Prop
  | first : Begins code 0
  | next {i : Nat} {op : UInt8} (begins : Begins code i) (at_i : code[i]? = some op) :
      Begins code (i + 1 + push_length op)

theorem Begins.sweeps {code : Bytes} {j : Nat} (begins : Begins code j) (within : j < code.length) :
    Sweeps code 0 j := by
  induction begins with
  | first => exact .here within
  | @next i op _ at_i ih =>
    have sweep := ih (List.getElem?_eq_some_iff.mp at_i).1
    have same : i + push_data op + 1 = i + 1 + push_length op := by rw [push_data_length]; omega
    rw [← same] at within ⊢
    exact sweep.after at_i within

theorem Sweeps.begins {code : Bytes} {i j : Nat} (sweep : Sweeps code i j) (begins : Begins code i) :
    Begins code j := by
  induction sweep with
  | here _ => exact begins
  | @next i j op at_i _ ih =>
    have same : i + push_data op + 1 = i + 1 + push_length op := by rw [push_data_length]; omega
    rw [same] at ih
    exact ih (begins.next at_i)

/-- The loop of `analyze_jumpdests` where every access is checked: there is no result if one is outside of the
code or of the map, or if `fuel` turns are too few. -/
def analyze_jumpdests_checked (code : Bytes) : Nat → Nat → List Bool → Option (List Bool)
  | 0, i, map => if i < code.length then none else some map
  | fuel + 1, i, map =>
    if i < code.length then
      match code[i]? with
      | none => none
      | some op =>
        if int8 op ≥ OP_PUSH1.toNat then
          analyze_jumpdests_checked code fuel (i + (op.toNat - (OP_PUSH1.toNat - 1)) + 1) map
        else if op = OP_JUMPDEST then
          if i < map.length then analyze_jumpdests_checked code fuel (i + 1) (map.set i true) else none
        else analyze_jumpdests_checked code fuel (i + 1) map
    else some map

theorem analyze_jumpdests_checked_eq {code : Bytes} {fuel fuel' i : Nat} {map : List Bool}
    (size : map.length = code.length) (enough : code.length ≤ i + fuel) (enough' : code.length ≤ i + fuel') :
    analyze_jumpdests_checked code fuel i map = some (analyze_jumpdests_loop code fuel' i map) := by
  induction fuel generalizing fuel' i map with
  | zero =>
    have past : ¬ i < code.length := by omega
    have none : code[i]? = none := List.getElem?_eq_none_iff.mpr (not_lt.mp past)
    rw [analyze_jumpdests_checked, if_neg past]
    cases fuel' with
    | zero => rfl
    | succ fuel' => rw [analyze_jumpdests_loop, none]
  | succ fuel ih =>
    rw [analyze_jumpdests_checked]
    by_cases within : i < code.length
    · obtain ⟨fuel', rfl⟩ : ∃ n, fuel' = n + 1 := ⟨fuel' - 1, by omega⟩
      rw [if_pos within, analyze_jumpdests_loop, List.getElem?_eq_getElem within]
      simp only [size, within, if_true]
      split_ifs
      · exact ih size (by omega) (by omega)
      · exact ih (by simpa using size) (by omega) (by omega)
      · exact ih size (by omega) (by omega)
    · have none : code[i]? = none := List.getElem?_eq_none_iff.mpr (not_lt.mp within)
      rw [if_neg within]
      cases fuel' with
      | zero => rfl
      | succ fuel' => rw [analyze_jumpdests_loop, none]

/-- The map is made without an access outside, and marks every `JUMPDEST` that is an instruction. -/
theorem analyze_jumpdests_map (code : Bytes) :
    (∀ fuel, code.length ≤ fuel → analyze_jumpdests_checked code fuel 0 (List.replicate code.length false) =
      some (analyze_jumpdests code)) ∧
    (analyze_jumpdests code).length = code.length ∧
    ∀ i, (analyze_jumpdests code)[i]? = some true ↔ code[i]? = some OP_JUMPDEST ∧ Begins code i := by
  refine ⟨fun fuel enough => ?_, analyze_jumpdests_length code, fun i => ?_⟩
  · exact analyze_jumpdests_checked_eq (by simp) (by omega) (by omega)
  · rw [analyze_jumpdests_iff, and_comm]
    constructor
    · exact fun ⟨dest, start⟩ => ⟨dest, Sweeps.begins start .first⟩
    · exact fun ⟨dest, begins⟩ => ⟨dest, begins.sweeps (List.getElem?_eq_some_iff.mp dest).1⟩

end EvmAssigner
