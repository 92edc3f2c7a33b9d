import EvmAssigner.EofTyping
import EvmAssigner.RjumpDestinations

namespace EvmAssigner

/-- A computation of the validator where every access is checked: it has no result if one is outside. -/
abbrev Guarded (α : Type) : Type := ExceptT EOFValidationError Option α

/-- The heights of a search, with all offsets that have been put on its worklist. -/
structure CheckedHeights extends StackHeights where
  pushed : List Nat

section
variable (code : Bytes) (types : List EOFCodeType)

/-- The offsets of the instructions of a section, from `i` on. -/
def instruction_offsets : Nat → Nat → List Nat
  | 0, _ => []
  | fuel + 1, i => if i < code.length then i :: instruction_offsets fuel (next_at code i) else []

def height_effect_checked (type : EOFCodeType) (op : Opcode) (i : Nat) (stack_height : Int) :
    Guarded (Int × Int) :=
  if op = .CALLF ∨ op = .JUMPF then do
    let fid ← read_uint16_be_checked code (i + 1)
    let _ ← (types[fid]? : Option EOFCodeType)
    ExceptT.mk (some (height_effect code types type op i stack_height))
  else ExceptT.mk (some (height_effect code types type op i stack_height))

/-- There is no result where the offset is outside, or has been put on the worklist before. -/
def CheckedHeights.validate_successor (h : CheckedHeights) (successor_offset expected_stack_height : Int) :
    Guarded CheckedHeights :=
  if 0 ≤ successor_offset ∧ successor_offset < code.length then
    if h.stack_heights successor_offset.toNat = LOC_UNVISITED then
      if successor_offset.toNat ∈ h.pushed then ExceptT.mk none
      else return {
        stack_heights := Function.update h.stack_heights successor_offset.toNat expected_stack_height
        worklist := successor_offset.toNat :: h.worklist
        pushed := successor_offset.toNat :: h.pushed }
    else if h.stack_heights successor_offset.toNat = expected_stack_height then return h
    else throw .stack_height_mismatch
  else ExceptT.mk none

def CheckedHeights.validate_successors (expected_stack_height : Int) :
    List Int → CheckedHeights → Guarded CheckedHeights
  | [], h => return h
  | successor :: successors, h => do
    validate_successors expected_stack_height successors
      (← h.validate_successor code successor expected_stack_height)

/-- There is no result where no instruction is at `i`, or it has no height, or its immediates are marked outside
of the heights or over one of them. -/
def CheckedHeights.visit (type : EOFCodeType) (h : CheckedHeights) (i : Nat) : Guarded CheckedHeights :=
  if i ∉ instruction_offsets code code.length 0 ∨ h.stack_heights i < 0 then ExceptT.mk none
  else do
    let byte ← (code[i]? : Option UInt8)
    let op := opcode_or byte
    let stack_height := h.stack_heights i
    let (stack_height_required, stack_height_change) ← height_effect_checked code types type op i stack_height
    if stack_height < stack_height_required then throw .stack_underflow
    else
      let imm_size ← immediate_bytes_checked code op i
      let next := i + imm_size + 1
      if next > code.length ∨ ∃ k < next, i < k ∧ h.stack_heights k ≥ 0 then ExceptT.mk none
      else
        let falls_through := !is_terminating op && op ≠ .RJUMP
        if falls_through ∧ next ≥ code.length then throw .no_terminating_instruction
        else
          let rel_offsets ← rel_offsets_checked code op i
          let targets := rel_offsets.map fun rel_offset => (next : Int) + rel_offset
          let stack_heights := fun k =>
            if i + 1 ≤ k ∧ k < i + 1 + imm_size then LOC_IMMEDIATE else h.stack_heights k
          CheckedHeights.validate_successors code (stack_height + stack_height_change)
            ((if falls_through then [(next : Int)] else []) ++ targets)
            { h with stack_heights := stack_heights }

/-- There is no result where the worklist is not empty after `fuel` turns. -/
def validate_max_stack_height_loop_checked (type : EOFCodeType) : Nat → CheckedHeights → Guarded CheckedHeights
  | 0, h => if h.worklist = [] then return h else ExceptT.mk none
  | fuel + 1, h =>
    match h.worklist with
    | [] => return h
    | i :: worklist => do
      validate_max_stack_height_loop_checked type fuel
        (← { h with worklist := worklist }.visit code types type i)

def validate_max_stack_height_checked (func_index fuel : Nat) : Guarded Int :=
  if code.length = 0 then ExceptT.mk none
  else do
    let type ← (types[func_index]? : Option EOFCodeType)
    let h ← validate_max_stack_height_loop_checked code types type fuel
      ⟨⟨fun k => if k = 0 then type.inputs else LOC_UNVISITED, [0]⟩, [0]⟩
    let stack_heights := (List.range code.length).map h.stack_heights
    if LOC_UNVISITED ∈ stack_heights then throw .unreachable_instructions
    else return stack_heights.foldl max (stack_heights.headD 0)

end

variable {code : Bytes} {types : List EOFCodeType} {type : EOFCodeType} {α β : Type} {i : Nat}

/-- All accesses are inside: the result is that of the validator, where `view` forgets what is checked only. -/
def Guarded.Gives (guarded : Guarded α) (validated : Validated β) (view : α → β) (good : α → Prop) : Prop :=
  ∃ result : Validated α, guarded.run = some result ∧ validated = result.map view ∧ ∀ a, result = .ok a → good a

section
variable {guarded : Guarded α} {validated : Validated β} {view : α → β} {good : α → Prop}

theorem Guarded.Gives.ok {a : α} (holds : good a) :
    (pure a : Guarded α).Gives (.ok (view a)) view good :=
  ⟨.ok a, rfl, rfl, fun _ same => Except.ok.inj same ▸ holds⟩

theorem Guarded.Gives.error (error : EOFValidationError) :
    (throw error : Guarded α).Gives (.error error) view good :=
  ⟨.error error, rfl, rfl, fun _ same => nomatch same⟩

theorem Guarded.Gives.run {guarded : Guarded α} {validated : Validated α}
    (gives : guarded.Gives validated id good) : guarded.run = some validated := by
  obtain ⟨result, ran, rfl, _⟩ := gives
  rw [ran]
  cases result with
  | error => rfl
  | ok => rfl

theorem Guarded.Gives.bind {γ δ : Type} {f : α → Guarded γ} {g : β → Validated δ} {view' : γ → δ}
    {good' : γ → Prop} (first : guarded.Gives validated view good)
    (rest : ∀ a, validated = .ok (view a) → good a → (f a).Gives (g (view a)) view' good') :
    (guarded >>= f).Gives (validated >>= g) view' good' := by
  obtain ⟨result, ran, rfl, holds⟩ := first
  cases result with
  | error error =>
    refine ⟨.error error, ?_, rfl, fun _ same => nomatch same⟩
    rw [ExceptT.run_bind, ran]
    rfl
  | ok a =>
    obtain ⟨result', ran', same, holds'⟩ := rest a rfl (holds a rfl)
    refine ⟨result', ?_, same, holds'⟩
    rw [ExceptT.run_bind, ran]
    exact ran'

end

theorem Guarded.bind_some {a : α} {f : α → Guarded β} : ((liftM (some a) : Guarded α) >>= f) = f a := rfl

/-- No offset of the worklist, now or before, is unvisited. -/
def CheckedHeights.Fresh (h : CheckedHeights) : Prop := ∀ k ∈ h.pushed, h.stack_heights k ≠ LOC_UNVISITED

theorem validate_successor_gives {h : CheckedHeights} {offset expected : Int} (fresh : h.Fresh)
    (inside : 0 ≤ offset ∧ offset < code.length) (some_height : expected ≠ LOC_UNVISITED) :
    (h.validate_successor code offset expected).Gives (h.toStackHeights.validate_successor offset.toNat expected)
      CheckedHeights.toStackHeights CheckedHeights.Fresh := by
  rw [CheckedHeights.validate_successor, StackHeights.validate_successor, if_pos inside]
  split_ifs with unvisited pushed same
  · exact absurd unvisited (fresh _ pushed)
  · have fresh' : CheckedHeights.Fresh ⟨⟨Function.update h.stack_heights offset.toNat expected,
        offset.toNat :: h.worklist⟩, offset.toNat :: h.pushed⟩ := by
      intro k member
      show Function.update h.stack_heights offset.toNat expected k ≠ LOC_UNVISITED
      by_cases at_offset : k = offset.toNat
      · rw [at_offset, Function.update_self]
        exact some_height
      · rw [Function.update_of_ne at_offset]
        exact fresh k ((List.mem_cons.mp member).resolve_left at_offset)
    exact ⟨_, rfl, rfl, fun _ same => Except.ok.inj same ▸ fresh'⟩
  · exact .ok fresh
  · exact .error _

theorem validate_successors_gives {h : CheckedHeights} {offsets : List Int} {expected : Int} (fresh : h.Fresh)
    (inside : ∀ offset ∈ offsets, 0 ≤ offset ∧ offset < code.length)
    (some_height : offsets ≠ [] → expected ≠ LOC_UNVISITED) :
    (CheckedHeights.validate_successors code expected offsets h).Gives
      (h.toStackHeights.validate_successors expected (offsets.map Int.toNat))
      CheckedHeights.toStackHeights CheckedHeights.Fresh := by
  induction offsets generalizing h with
  | nil => exact .ok fresh
  | cons offset offsets ih =>
    have visited := some_height (List.cons_ne_nil _ _)
    rw [List.map_cons, CheckedHeights.validate_successors, StackHeights.validate_successors]
    exact (validate_successor_gives fresh (inside offset List.mem_cons_self) visited).bind fun h' _ fresh' =>
      ih fresh' (fun offset member => inside offset (List.mem_cons_of_mem _ member)) fun _ => visited

theorem height_effect_checked_eq {data_size : Nat} {cost_table : Opcode → Int} {height : Int}
    (valid : InstructionValid code types data_size cost_table i) :
    height_effect_checked code types type (op_at code i) i height =
      ExceptT.mk (some (height_effect code types type (op_at code i) i height)) := by
  have reads {callee : EOFCodeType} (at_callee : callee ∈ callee_at code types i)
      (calls : op_at code i = .CALLF ∨ op_at code i = .JUMPF) :
      height_effect_checked code types type (op_at code i) i height =
        ExceptT.mk (some (height_effect code types type (op_at code i) i height)) := by
    have whole := valid.whole
    have room : i + 1 + 1 < code.length := by
      rcases calls with op | op
      · rw [next_at_other op (by simp)] at whole
        exact whole
      · rw [next_at_other op (by simp)] at whole
        exact whole
    have found : types[uint16_be_at code (i + 1)]? = some callee := at_callee
    rw [height_effect_checked, if_pos calls, read_uint16_be_within room, Guarded.bind_some, found,
      Guarded.bind_some]
  by_cases callf : op_at code i = .CALLF
  · obtain ⟨callee, at_callee, _⟩ := valid.callf callf
    exact reads at_callee (Or.inl callf)
  by_cases jumpf : op_at code i = .JUMPF
  · obtain ⟨callee, at_callee⟩ := valid.jumpf jumpf
    exact reads at_callee (Or.inr jumpf)
  · rw [height_effect_checked, if_neg (by simp [callf, jumpf])]

theorem mem_instruction_offsets {fuel j : Nat} (enough : code.length ≤ i + fuel) :
    j ∈ instruction_offsets code fuel i ↔ Sweep code i j ∧ j < code.length := by
  induction fuel generalizing i with
  | zero =>
    constructor
    · exact fun none => absurd none List.not_mem_nil
    · rintro ⟨sweep, within⟩
      have := sweep.le
      omega
  | succ fuel ih =>
    have after : i < next_at code i := next_at_gt
    rw [instruction_offsets]
    split_ifs with within
    · rw [List.mem_cons, ih (by omega)]
      constructor
      · rintro (rfl | ⟨sweep, within_j⟩)
        · exact ⟨.here, within⟩
        · exact ⟨.next within sweep, within_j⟩
      · rintro ⟨sweep, within_j⟩
        cases sweep with
        | here => exact Or.inl rfl
        | next _ rest => exact Or.inr ⟨rest, within_j⟩
    · constructor
      · exact fun none => absurd none List.not_mem_nil
      · rintro ⟨sweep, within_j⟩
        have := sweep.le
        omega

/-- What has been computed already gives itself. -/
theorem Guarded.Gives.mk {validated : Validated α} :
    Guarded.Gives (ExceptT.mk (some validated)) validated id fun _ => True := by
  refine ⟨validated, rfl, ?_, fun _ _ => trivial⟩
  cases validated with
  | error => rfl
  | ok => rfl

section
variable {data_size : Nat} {cost_table : Opcode → Int} {h : CheckedHeights} {worklist : List Nat}
  (valid : ∀ i, Starts code i → InstructionValid code types data_size cost_table i)
  (limited : ∀ t ∈ types, t.Limited) (rjumps : validate_rjump_destinations code = true)

include rjumps in
/-- The offsets of the successors, before they are converted. -/
theorem successors_inside (starts : Starts code i)
    (room : falls_through (op_at code i) → next_at code i < code.length) {offset : Int}
    (member : offset ∈ (if falls_through (op_at code i) then [(next_at code i : Int)] else []) ++
      (rel_offsets code (op_at code i) i).map fun rel_offset => (next_at code i : Int) + rel_offset) :
    0 ≤ offset ∧ offset < code.length := by
  rcases List.mem_append.mp member with next | target
  · by_cases falls : falls_through (op_at code i)
    · rw [if_pos falls, List.mem_singleton] at next
      have := room falls
      omega
    · rw [if_neg falls] at next
      exact absurd next List.not_mem_nil
  · obtain ⟨rel, at_rel, rfl⟩ := List.mem_map.mp target
    obtain ⟨nonneg, lands⟩ := rjump_lands rjumps starts at_rel
    have upper := lands.2
    omega

include valid limited rjumps in
theorem visit_gives (searching : Searching code types type h.toStackHeights) (next : h.worklist = i :: worklist)
    (fresh : h.Fresh) :
    (CheckedHeights.visit code types type { h with worklist := worklist } i).Gives
      (StackHeights.visit code types type { h.toStackHeights with worklist := worklist } i)
      CheckedHeights.toStackHeights CheckedHeights.Fresh := by
  have nonneg : 0 ≤ h.stack_heights i := searching.listed i (next ▸ List.mem_cons_self)
  have starts := searching.reached i nonneg
  have whole := (valid i starts).whole
  have taken : ¬ (i ∉ instruction_offsets code code.length 0 ∨ h.stack_heights i < 0) := by
    rintro (none | negative)
    · exact none ((mem_instruction_offsets (by omega)).mpr starts)
    · omega
  have unmarked : ¬ (next_at code i > code.length ∨ ∃ k < next_at code i, i < k ∧ h.stack_heights k ≥ 0) := by
    rintro (outside | ⟨k, before, after, height⟩)
    · omega
    · rcases starts.1.apart starts.2 (searching.reached k height).1 with first | behind
      · omega
      · omega
  have behind : i + immediate_bytes code (op_at code i) i + 1 = next_at code i := rfl
  rw [CheckedHeights.visit, if_neg taken, byte_within starts.2, Guarded.bind_some, StackHeights.visit]
  show (height_effect_checked code types type (op_at code i) i (h.stack_heights i) >>= _).Gives
    (height_effect code types type (op_at code i) i (h.stack_heights i) >>= _) _ _
  rw [height_effect_checked_eq (valid i starts)]
  refine Guarded.Gives.mk.bind fun effect ran _ => ?_
  obtain ⟨required, change⟩ := effect
  have op : opcode_or (code.getD i 0) = op_at code i := rfl
  have falls : (!is_terminating (op_at code i) && decide (op_at code i ≠ .RJUMP)) = falls_through (op_at code i) :=
    rfl
  simp only [id_eq, op, falls, behind]
  by_cases low : h.stack_heights i < required
  · rw [if_pos low, if_pos low]
    exact .error _
  rw [if_neg low, if_neg low, immediate_bytes_within whole, Guarded.bind_some, behind, if_neg unmarked]
  by_cases ends : falls_through (op_at code i) = true ∧ next_at code i ≥ code.length
  · rw [if_pos ends, if_pos ends]
    exact .error _
  rw [if_neg ends, if_neg ends, rel_offsets_within whole, Guarded.bind_some]
  have room : falls_through (op_at code i) → next_at code i < code.length := fun falls =>
    not_le.mp fun past => ends ⟨falls, past⟩
  have converted : successors code i = List.map Int.toNat
      ((if falls_through (op_at code i) then [(next_at code i : Int)] else []) ++
        (rel_offsets code (op_at code i) i).map fun rel_offset => (next_at code i : Int) + rel_offset) := by
    rw [successors, targets, List.map_append, List.map_map]
    split_ifs
    · rfl
    · rfl
  have some_height : (if falls_through (op_at code i) then [(next_at code i : Int)] else []) ++
      ((rel_offsets code (op_at code i) i).map fun rel_offset => (next_at code i : Int) + rel_offset) ≠ [] →
      h.stack_heights i + change ≠ LOC_UNVISITED := by
    intro some_offset
    have some_successor : successors code i ≠ [] := by
      rw [converted]
      exact fun none => some_offset (List.map_eq_nil_iff.mp none)
    have leaves := effect_nonneg (h := h.toStackHeights) valid limited starts some_successor ran (not_lt.mp low)
    have unvisited : LOC_UNVISITED = -1 := rfl
    omega
  show Guarded.Gives _ (StackHeights.validate_successors _ (successors code i) _) _ _
  rw [converted]
  refine validate_successors_gives (fun k member => ?_)
    (fun offset => successors_inside rjumps starts room) some_height
  show (if i + 1 ≤ k ∧ k < i + 1 + immediate_bytes code (op_at code i) i then LOC_IMMEDIATE
    else h.stack_heights k) ≠ LOC_UNVISITED
  split_ifs
  · exact (by decide)
  · exact fresh k member

include valid limited rjumps in
theorem validate_max_stack_height_loop_gives {fuel fuel' : Nat}
    (searching : Searching code types type h.toStackHeights) (fresh : h.Fresh)
    (enough : h.toStackHeights.measure code.length ≤ fuel)
    (enough' : h.toStackHeights.measure code.length ≤ fuel') :
    (validate_max_stack_height_loop_checked code types type fuel h).Gives
      (validate_max_stack_height_loop code types type fuel' h.toStackHeights)
      CheckedHeights.toStackHeights CheckedHeights.Fresh := by
  induction fuel generalizing h fuel' with
  | zero =>
    have done : h.worklist = [] := by
      refine List.length_eq_zero_iff.mp ?_
      rw [StackHeights.measure] at enough
      omega
    rw [validate_max_stack_height_loop_checked, if_pos done]
    cases fuel' with
    | zero => exact .ok fresh
    | succ fuel' =>
      rw [validate_max_stack_height_loop, done]
      exact .ok fresh
  | succ fuel ih =>
    rw [validate_max_stack_height_loop_checked]
    cases next : h.worklist with
    | nil =>
      cases fuel' with
      | zero => exact .ok fresh
      | succ fuel' =>
        rw [validate_max_stack_height_loop, next]
        exact .ok fresh
    | cons i worklist =>
      obtain ⟨fuel', rfl⟩ : ∃ n, fuel' = n + 1 := by
        refine ⟨fuel' - 1, ?_⟩
        rw [StackHeights.measure, next, List.length_cons] at enough'
        omega
      rw [validate_max_stack_height_loop, next]
      refine (visit_gives valid limited rjumps searching next fresh).bind fun h' ran fresh' => ?_
      obtain ⟨searching', less⟩ := searching.visit valid limited rjumps next ran
      exact ih searching' fresh' (by omega) (by omega)

end

/-- The search for the heights of a section that the validators before it accept: in as many turns as the section
has bytes, none of which accesses anything outside, takes an offset that is no instruction's, puts one on the
worklist twice or marks one that has a height. -/
theorem validate_max_stack_height_worklist {container : Bytes} {header_size type_section_size data_size : Nat}
    {rev : Revision} {func_index fuel : Nat} (some_code : code ≠ [])
    (typed : validate_types container header_size type_section_size = .ok types)
    (at_index : types[func_index]? = some type)
    (instructions : validate_instructions code types rev data_size type = .ok ())
    (rjumps : validate_rjump_destinations code = true) (enough : code.length ≤ fuel) :
    (validate_max_stack_height_checked code types func_index fuel).run =
      some (validate_max_stack_height code types type) := by
  have limited := (validate_types_iff.mp typed).2.2
  obtain ⟨is_returning, ran, _⟩ := Validated.bind_eq_ok.mp instructions
  have valid := fun i (starts : Starts code i) =>
    (validate_instructions_sweep (by omega) ran).1 i starts.1 starts.2
  have positive : 0 < code.length := List.length_pos_iff.mpr some_code
  have fresh : CheckedHeights.Fresh ⟨.start type, [0]⟩ := by
    intro k member
    rw [List.mem_singleton.mp member]
    exact start_entry
  rw [validate_max_stack_height_checked, if_neg positive.ne', at_index, Guarded.bind_some,
    validate_max_stack_height]
  have searched := validate_max_stack_height_loop_gives valid limited rjumps (Searching.start positive) fresh
    ((start_measure positive).trans enough) ((start_measure positive).trans (Nat.le_succ _))
  refine (searched.bind fun h _ _ => (?_ : Guarded.Gives _ _ id fun _ => True)).run
  show Guarded.Gives (if _ then _ else _) (if _ then _ else _) id fun _ => True
  split_ifs
  · exact .error _
  · exact .mk

/-- The offset where the ways meet is put on the worklist once. -/
theorem validate_max_stack_height_worklist_join :
    (validate_max_stack_height_checked joining_code joining_types 0 15).run =
      some (validate_max_stack_height joining_code joining_types ⟨0, 0x80, 1⟩) := by
  have typed : validate_types [0x00, 0x80, 0x00, 0x01, 0x00, 0x01, 0x00, 0x01] 0 8 = .ok joining_types := rfl
  exact validate_max_stack_height_worklist (by simp [joining_code]) typed rfl joining_code_accepted
    joining_code_rjumps (by decide)

end EvmAssigner
