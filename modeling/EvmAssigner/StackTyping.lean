import Mathlib.Logic.Relation
import Mathlib.Order.Bounds.Basic
import EvmAssigner.EofTyping

namespace EvmAssigner

section
variable (code : Bytes) (types : List EOFCodeType) (type : EOFCodeType)

/-- What an instruction requires of the height of the stack before it. -/
def Requires (i : Nat) (height : Int) : Prop :=
  match op_at code i with
  | .CALLF => ∃ callee ∈ callee_at code types i, (callee.inputs : Int) ≤ height ∧
      height + callee.max_stack_height - callee.inputs ≤ STACK_SIZE_LIMIT
  | .JUMPF => ∃ callee ∈ callee_at code types i,
      height + callee.max_stack_height - callee.inputs ≤ STACK_SIZE_LIMIT ∧
      if callee.outputs = NON_RETURNING_FUNCITON then (callee.inputs : Int) ≤ height
      else height = type.outputs + callee.inputs - callee.outputs
  | .RETF => height = type.outputs
  | op => stack_height_required op ≤ height

/-- By how much it changes the height. -/
def height_change (i : Nat) : Int :=
  match op_at code i with
  | .CALLF => (callee_at code types i).elim 0 fun callee => (callee.outputs : Int) - callee.inputs
  | op => stack_height_change op

/-- One height for every instruction, in order for the instruction and along all ways of control. -/
structure StackTyping (heights : Nat → Nat) : Prop where
  entry : heights 0 = type.inputs
  along : ∀ i, Starts code i → ∀ t ∈ successors code i,
    (heights t : Int) = heights i + height_change code types i
  requires : ∀ i, Starts code i → Requires code types type i (heights i)
  reachable : ∀ i, Starts code i → Relation.ReflTransGen (fun i t => t ∈ successors code i) 0 i
  ends : ∀ i, Starts code i → falls_through (op_at code i) → next_at code i < code.length

/-- A section does not jump to one that returns more than itself. -/
def JumpfCompatible (i : Nat) : Prop :=
  op_at code i = .JUMPF → ∀ callee ∈ callee_at code types i, callee.outputs ≠ NON_RETURNING_FUNCITON →
    callee.outputs ≤ type.outputs

/-- The height for a jump to a section that returns is one of `int8_t`. -/
def JumpfFits (i : Nat) : Prop :=
  op_at code i = .JUMPF → ∀ callee ∈ callee_at code types i, callee.outputs ≠ NON_RETURNING_FUNCITON →
    (type.outputs : Int) + callee.inputs - callee.outputs ≤ 127

end

variable {code : Bytes} {types : List EOFCodeType} {type : EOFCodeType} {h h' : StackHeights}
  {expected height required change : Int} {i k : Nat}

section
variable {callee : EOFCodeType}

theorem Requires.callf (op : op_at code i = .CALLF) : Requires code types type i height ↔
    ∃ callee ∈ callee_at code types i, (callee.inputs : Int) ≤ height ∧
      height + callee.max_stack_height - callee.inputs ≤ STACK_SIZE_LIMIT := by
  rw [Requires, op]

theorem Requires.jumpf (op : op_at code i = .JUMPF) : Requires code types type i height ↔
    ∃ callee ∈ callee_at code types i,
      height + callee.max_stack_height - callee.inputs ≤ STACK_SIZE_LIMIT ∧
      if callee.outputs = NON_RETURNING_FUNCITON then (callee.inputs : Int) ≤ height
      else height = type.outputs + callee.inputs - callee.outputs := by
  rw [Requires, op]

theorem Requires.retf (op : op_at code i = .RETF) : Requires code types type i height ↔ height = type.outputs := by
  rw [Requires, op]

theorem Requires.plain (callf : op_at code i ≠ .CALLF) (jumpf : op_at code i ≠ .JUMPF)
    (retf : op_at code i ≠ .RETF) :
    Requires code types type i height ↔ stack_height_required (op_at code i) ≤ height := by
  unfold Requires
  split
  · contradiction
  · contradiction
  · contradiction
  · rfl

theorem height_change_callf (op : op_at code i = .CALLF) (at_callee : callee ∈ callee_at code types i) :
    height_change code types i = callee.outputs - callee.inputs := by
  have found : callee_at code types i = some callee := at_callee
  rw [height_change, op, found]
  rfl

theorem height_change_plain (callf : op_at code i ≠ .CALLF) :
    height_change code types i = stack_height_change (op_at code i) := by
  unfold height_change
  split
  · contradiction
  · rfl

theorem returns_at_retf (op : op_at code i = .RETF) : returns_at code types i = true := by
  rw [returns_at, op]

theorem returns_at_jumpf (op : op_at code i = .JUMPF) (at_callee : callee ∈ callee_at code types i)
    (returns : callee.outputs ≠ NON_RETURNING_FUNCITON) : returns_at code types i = true := by
  have found : callee_at code types i = some callee := at_callee
  rw [returns_at, op]
  show (callee_at code types i).any _ = true
  rw [found]
  exact decide_eq_true returns

end

section
variable {data_size : Nat} {cost_table : Opcode → Int}
  (valid : InstructionValid code types data_size cost_table i) (limited : ∀ t ∈ types, t.Limited)
  (own : returns_at code types i = true → type.outputs ≤ 127)

include valid limited own in
/-- What the search finds in order is as the typing requires it. -/
theorem effect_requires (nonneg : 0 ≤ height)
    (effect : height_effect code types type (op_at code i) i height = .ok (required, change))
    (enough : required ≤ height) :
    Requires code types type i height ∧ JumpfCompatible code types type i ∧
      (successors code i ≠ [] → change = height_change code types i) := by
  by_cases callf : op_at code i = .CALLF
  · obtain ⟨callee, at_callee, returns⟩ := valid.callf callf
    have small := limited callee (callee_mem at_callee)
    rw [callf] at effect
    obtain ⟨rfl, rfl⟩ := callf_effect at_callee small returns effect
    have inputs : callee.inputs ≤ 127 := small.inputs
    have same : to_int8 callee.inputs = callee.inputs := to_int8_small (by omega) (by omega)
    simp only [height_effect, callee_getD at_callee, Validated.guard_eq_ok, same] at effect
    refine ⟨(Requires.callf callf).mpr ⟨callee, at_callee, enough, not_lt.mp effect.1⟩, fun jumpf => ?_, fun _ => ?_⟩
    · exact absurd (callf.symm.trans jumpf) (by simp)
    · exact (height_change_callf callf at_callee).symm
  by_cases jumpf : op_at code i = .JUMPF
  · obtain ⟨callee, at_callee⟩ := valid.jumpf jumpf
    have small := limited callee (callee_mem at_callee)
    rw [jumpf] at effect
    have limit : height + callee.max_stack_height - callee.inputs ≤ STACK_SIZE_LIMIT := by
      simp only [height_effect, callee_getD at_callee, Validated.guard_eq_ok] at effect
      exact not_lt.mp effect.1
    have last : successors code i ≠ [] → change = height_change code types i :=
      fun some_successor => absurd (successors_leaving (Or.inl jumpf)) some_successor
    by_cases returns : callee.outputs = NON_RETURNING_FUNCITON
    · obtain rfl := jumpf_effect at_callee small returns effect
      refine ⟨(Requires.jumpf jumpf).mpr ⟨callee, at_callee, limit, ?_⟩, fun _ callee' at_callee' returns' => ?_, last⟩
      · rw [if_pos returns]
        exact enough
      · obtain rfl := Option.mem_unique at_callee at_callee'
        exact absurd returns returns'
    · have outputs := own (returns_at_jumpf jumpf at_callee returns)
      obtain ⟨compatible, same⟩ := jumpf_effect_returning at_callee small outputs returns nonneg effect enough
      refine ⟨(Requires.jumpf jumpf).mpr ⟨callee, at_callee, limit, ?_⟩, fun _ callee' at_callee' _ => ?_, last⟩
      · rw [if_neg returns]
        exact same
      · obtain rfl := Option.mem_unique at_callee at_callee'
        exact compatible
  have compatible : JumpfCompatible code types type i := fun op => absurd op jumpf
  by_cases retf : op_at code i = .RETF
  · rw [retf] at effect
    exact ⟨(Requires.retf retf).mpr (retf_effect (own (returns_at_retf retf)) effect enough), compatible,
      fun some_successor => absurd (successors_leaving (Or.inr retf)) some_successor⟩
  · rw [plain_effect callf jumpf retf] at effect
    obtain ⟨rfl, rfl⟩ := Prod.mk.inj (Except.ok.inj effect)
    exact ⟨(Requires.plain callf jumpf retf).mpr enough, compatible, fun _ => (height_change_plain callf).symm⟩

include valid limited own in
/-- What the typing requires is found in order. -/
theorem requires_effect (compatible : JumpfCompatible code types type i)
    (fits : JumpfFits code types type i) (requires : Requires code types type i height) :
    ∃ required change, height_effect code types type (op_at code i) i height = .ok (required, change) ∧
      required ≤ height ∧ (successors code i ≠ [] → change = height_change code types i) := by
  by_cases callf : op_at code i = .CALLF
  · obtain ⟨callee, at_callee, returns⟩ := valid.callf callf
    obtain ⟨callee', at_callee', enough, limit⟩ := (Requires.callf callf).mp requires
    obtain rfl := Option.mem_unique at_callee at_callee'
    have small := limited callee (callee_mem at_callee)
    have inputs : callee.inputs ≤ 127 := small.inputs
    have outputs : callee.outputs ≤ 127 := small.outputs.resolve_right returns
    have same : to_int8 callee.inputs = callee.inputs := to_int8_small (by omega) (by omega)
    have same' : to_int8 ((callee.outputs : Int) - callee.inputs) = callee.outputs - callee.inputs :=
      to_int8_small (by omega) (by omega)
    refine ⟨callee.inputs, callee.outputs - callee.inputs, ?_, enough, fun _ => ?_⟩
    · rw [callf]
      simp only [height_effect, callee_getD at_callee, same, same', if_neg (not_lt.mpr limit)]
    · exact (height_change_callf callf at_callee).symm
  by_cases jumpf : op_at code i = .JUMPF
  · obtain ⟨callee, at_callee, limit, needed⟩ := (Requires.jumpf jumpf).mp requires
    have small := limited callee (callee_mem at_callee)
    have inputs : callee.inputs ≤ 127 := small.inputs
    have last (change : Int) : successors code i ≠ [] → change = height_change code types i :=
      fun some_successor => absurd (successors_leaving (Or.inl jumpf)) some_successor
    rw [jumpf]
    simp only [height_effect, callee_getD at_callee, if_neg (not_lt.mpr limit)]
    by_cases returns : callee.outputs = NON_RETURNING_FUNCITON
    · have same : to_int8 callee.inputs = callee.inputs := to_int8_small (by omega) (by omega)
      rw [if_pos returns] at needed
      exact ⟨callee.inputs, _, by rw [if_pos returns, same], needed, last _⟩
    · have outputs := compatible jumpf callee at_callee returns
      have cut := fits jumpf callee at_callee returns
      have same : to_int8 ((type.outputs : Int) + callee.inputs - callee.outputs) =
          type.outputs + callee.inputs - callee.outputs := to_int8_small (by omega) cut
      rw [if_neg returns] at needed
      refine ⟨type.outputs + callee.inputs - callee.outputs, stack_height_change .JUMPF, ?_, needed.ge, last _⟩
      rw [if_neg returns, if_neg (by omega), same, if_neg (by omega)]
  by_cases retf : op_at code i = .RETF
  · have outputs := own (returns_at_retf retf)
    have same : to_int8 type.outputs = type.outputs := to_int8_small (by omega) (by omega)
    have exact_height := (Requires.retf retf).mp requires
    refine ⟨type.outputs, stack_height_change .RETF, ?_, exact_height.ge,
      fun some_successor => absurd (successors_leaving (Or.inr retf)) some_successor⟩
    rw [retf]
    simp only [height_effect, same, if_neg (not_lt.mpr exact_height.le)]
  · exact ⟨_, _, plain_effect callf jumpf retf, (Requires.plain callf jumpf retf).mp requires,
      fun _ => (height_change_plain callf).symm⟩

end

/-- Where the search has been, control gets, and the immediates are marked behind it. -/
structure Traversing (code : Bytes) (h : StackHeights) : Prop where
  reachable : ∀ k, 0 ≤ h.stack_heights k → Relation.ReflTransGen (fun i t => t ∈ successors code i) 0 k
  immediates : ∀ k, 0 ≤ h.stack_heights k → k ∈ h.worklist ∨
    ∀ j, k < j → j < next_at code k → h.stack_heights j = LOC_IMMEDIATE

theorem Traversing.start : Traversing code (.start type) where
  reachable k height := by
    by_cases first : k = 0
    · rw [first]
    · simp only [StackHeights.start, if_neg first] at height
      exact absurd height (by decide)
  immediates k height := by
    by_cases first : k = 0
    · exact Or.inl (first ▸ List.mem_cons_self)
    · simp only [StackHeights.start, if_neg first] at height
      exact absurd height (by decide)

section
variable {data_size fuel : Nat} {cost_table : Opcode → Int} {worklist : List Nat}
  (valid : ∀ i, Starts code i → InstructionValid code types data_size cost_table i)
  (limited : ∀ t ∈ types, t.Limited) (rjumps : validate_rjump_destinations code = true)

include valid limited in
theorem Traversing.visit (traversing : Traversing code h) (searching : Searching code types type h)
    (next : h.worklist = i :: worklist)
    (ok : StackHeights.visit code types type { h with worklist := worklist } i = .ok h') : Traversing code h' := by
  have nonneg : 0 ≤ h.stack_heights i := searching.listed i (next ▸ List.mem_cons_self)
  obtain ⟨starts, _, required, change, expected, _, _, some_height, _, pushed⟩ :=
    searching.turn valid limited next ok
  have unvisited : LOC_UNVISITED = -1 := rfl
  have immediate : LOC_IMMEDIATE = -2 := rfl
  have after := validate_successors_ok (by omega) pushed
  -- A mark stays, and a height that is no successor's was there before.
  have marked {j : Nat} (mark : (StackHeights.mark { h with worklist := worklist } code i).stack_heights j =
      LOC_IMMEDIATE) : h'.stack_heights j = LOC_IMMEDIATE := by
    rw [after.visited j (by omega), mark]
  have before {k : Nat} (height : 0 ≤ h'.stack_heights k)
      (same : h'.stack_heights k = (StackHeights.mark { h with worklist := worklist } code i).stack_heights k) :
      0 ≤ h.stack_heights k := by
    rw [same, StackHeights.mark] at height
    by_cases inside : i < k ∧ k < next_at code i
    · simp only [if_pos inside] at height
      omega
    · simpa only [if_neg inside] using height
  constructor
  · intro k height
    rcases after.changed k with same | ⟨member, _⟩
    · exact traversing.reachable k (before height same)
    · exact (traversing.reachable i nonneg).tail member
  · intro k height
    rcases after.changed k with same | ⟨_, member⟩
    · rcases traversing.immediates k (before height same) with member | all
      · rw [next] at member
        rcases List.mem_cons.mp member with rfl | member
        · exact Or.inr fun j lower upper => marked (if_pos ⟨lower, upper⟩)
        · exact Or.inl (after.kept k member)
      · refine Or.inr fun j lower upper => marked ?_
        by_cases inside : i < j ∧ j < next_at code i
        · exact if_pos inside
        · exact (if_neg inside).trans (all j lower upper)
    · exact Or.inl member

include valid limited rjumps in
theorem Traversing.run (traversing : Traversing code h) (searching : Searching code types type h)
    (ok : validate_max_stack_height_loop code types type fuel h = .ok h') : Traversing code h' := by
  induction fuel generalizing h with
  | zero =>
    obtain rfl := Except.ok.inj ok
    exact traversing
  | succ fuel ih =>
    rw [validate_max_stack_height_loop] at ok
    cases next : h.worklist with
    | nil =>
      rw [next] at ok
      obtain rfl := Except.ok.inj ok
      exact traversing
    | cons i worklist =>
      rw [next] at ok
      obtain ⟨h₁, visited, rest⟩ := Validated.bind_eq_ok.mp ok
      exact ih (traversing.visit valid limited searching next visited)
        (searching.visit valid limited rjumps next visited).1 rest

theorem validate_successors_agree {offsets : List Nat}
    (agrees : ∀ t ∈ offsets, h.stack_heights t = LOC_UNVISITED ∨ h.stack_heights t = expected) :
    ∃ h', h.validate_successors expected offsets = .ok h' := by
  induction offsets generalizing h with
  | nil => exact ⟨h, rfl⟩
  | cons offset offsets ih =>
    rw [StackHeights.validate_successors, StackHeights.validate_successor]
    split_ifs with unvisited same
    · refine ih fun t member => ?_
      show Function.update h.stack_heights offset expected t = LOC_UNVISITED ∨
        Function.update h.stack_heights offset expected t = expected
      by_cases at_offset : t = offset
      · rw [at_offset, Function.update_self]
        exact Or.inr rfl
      · rw [Function.update_of_ne at_offset]
        exact agrees t (List.mem_cons_of_mem _ member)
    · exact ih fun t member => agrees t (List.mem_cons_of_mem _ member)
    · exact absurd (agrees offset List.mem_cons_self) (not_or.mpr ⟨unvisited, same⟩)

/-- The heights found so far are those of the typing. -/
def Agrees (h : StackHeights) (heights : Nat → Nat) : Prop :=
  ∀ k, 0 ≤ h.stack_heights k → h.stack_heights k = heights k

section
variable {heights : Nat → Nat} (typing : StackTyping code types type heights)
  (own : ∀ i, Starts code i → returns_at code types i = true → type.outputs ≤ 127)
  (compatible : ∀ i, Starts code i → JumpfCompatible code types type i)
  (fits : ∀ i, Starts code i → JumpfFits code types type i)

include valid limited rjumps typing own compatible fits in
/-- Where there is a typing, a turn of the search goes through and follows it. -/
theorem Agrees.visit (agrees : Agrees h heights) (searching : Searching code types type h)
    (next : h.worklist = i :: worklist) :
    ∃ h', StackHeights.visit code types type { h with worklist := worklist } i = .ok h' ∧ Agrees h' heights := by
  have nonneg : 0 ≤ h.stack_heights i := searching.listed i (next ▸ List.mem_cons_self)
  have starts := searching.reached i nonneg
  have at_i := agrees i nonneg
  have requires := typing.requires i starts
  rw [← at_i] at requires
  obtain ⟨required, change, effect, enough, same⟩ :=
    requires_effect (valid i starts) limited (own i starts) (compatible i starts) (fits i starts) requires
  have room := typing.ends i starts
  have along {t : Nat} (member : t ∈ successors code i) : (heights t : Int) = h.stack_heights i + change := by
    rw [typing.along i starts t member, at_i, same (List.ne_nil_of_mem member)]
  have known : ∀ t ∈ successors code i,
      (StackHeights.mark { h with worklist := worklist } code i).stack_heights t = LOC_UNVISITED ∨
        (StackHeights.mark { h with worklist := worklist } code i).stack_heights t = h.stack_heights i + change := by
    intro t member
    have start := successors_start rjumps starts room t member
    have unmarked : (StackHeights.mark { h with worklist := worklist } code i).stack_heights t =
        h.stack_heights t := by
      refine if_neg fun inside => ?_
      rcases starts.1.apart starts.2 start.1 with before | behind
      · omega
      · omega
    rw [unmarked]
    rcases searching.values t with height | height | height
    · exact Or.inr ((agrees t height).trans (along member))
    · exact Or.inl height
    · exact absurd start (searching.marked t height)
  obtain ⟨h', pushed⟩ := validate_successors_agree known
  have ok : StackHeights.visit code types type { h with worklist := worklist } i = .ok h' :=
    visit_eq_ok.mpr ⟨required, change, effect, enough, room, pushed⟩
  refine ⟨h', ok, fun k height => ?_⟩
  obtain ⟨_, _, _, change', expected, effect', _, some_height, at_expected, pushed⟩ :=
    searching.turn valid limited next ok
  have unvisited : LOC_UNVISITED = -1 := rfl
  have immediate : LOC_IMMEDIATE = -2 := rfl
  have after := validate_successors_ok (by omega) pushed
  rcases after.changed k with same | ⟨member, _⟩
  · rw [same] at height ⊢
    unfold StackHeights.mark at height ⊢
    by_cases inside : i < k ∧ k < next_at code i
    · simp only [if_pos inside] at height
      omega
    · simp only [if_neg inside] at height ⊢
      exact agrees k height
  · obtain ⟨_, rfl⟩ := Prod.mk.inj (Except.ok.inj (effect.symm.trans effect'))
    rw [after.heights k member, at_expected k member, along member]

include valid limited rjumps typing own compatible fits in
theorem Agrees.run (agrees : Agrees h heights) (searching : Searching code types type h) :
    ∃ h', validate_max_stack_height_loop code types type fuel h = .ok h' ∧ Agrees h' heights := by
  induction fuel generalizing h with
  | zero => exact ⟨h, rfl, agrees⟩
  | succ fuel ih =>
    rw [validate_max_stack_height_loop]
    cases next : h.worklist with
    | nil => exact ⟨h, rfl, agrees⟩
    | cons i worklist =>
      obtain ⟨h₁, visited, agrees₁⟩ :=
        agrees.visit valid limited rjumps typing own compatible fits searching next
      obtain ⟨h', rest, agrees'⟩ := ih agrees₁ (searching.visit valid limited rjumps next visited).1
      exact ⟨h', Validated.bind_eq_ok.mpr ⟨h₁, visited, rest⟩, agrees'⟩

theorem Agrees.start (entry : heights 0 = type.inputs) : Agrees (.start type) heights := by
  intro k height
  by_cases first : k = 0
  · rw [first, entry]
    simp [StackHeights.start]
  · simp only [StackHeights.start, if_neg first] at height
    exact absurd height (by decide)

end

end

theorem heights_same {f g : Nat → Int} (same : ∀ i, Starts code i → f i = g i) :
    {height | ∃ i, Starts code i ∧ height = f i} = {height | ∃ i, Starts code i ∧ height = g i} := by
  ext height
  constructor
  · rintro ⟨i, starts, rfl⟩
    exact ⟨i, starts, same i starts⟩
  · rintro ⟨i, starts, rfl⟩
    exact ⟨i, starts, (same i starts).symm⟩

section
variable (searched : Searching code types type h) (done : h.worklist = [])

include searched in
/-- The greatest of all heights is the greatest of the instructions. -/
theorem heights_greatest (some_code : 0 < code.length) {msh : Int}
    (greatest : IsGreatest {height | height ∈ (List.range code.length).map h.stack_heights} msh) :
    IsGreatest {height | ∃ i, Starts code i ∧ height = h.stack_heights i} msh := by
  obtain ⟨member, upper⟩ := greatest
  have listed {k : Nat} (within : k < code.length) :
      h.stack_heights k ∈ (List.range code.length).map h.stack_heights :=
    List.mem_map.mpr ⟨k, List.mem_range.mpr within, rfl⟩
  constructor
  · obtain ⟨k, within, rfl⟩ := List.mem_map.mp member
    have first : h.stack_heights 0 ≤ h.stack_heights k := upper (listed some_code)
    have entry := searched.entry
    exact ⟨k, searched.reached k (by omega), rfl⟩
  · rintro _ ⟨i, starts, rfl⟩
    exact upper (listed starts.2)

include searched done in
theorem settled_of_done (nonneg : 0 ≤ h.stack_heights i) : Settled code types type h.stack_heights i := by
  rcases searched.settled i nonneg with member | settled
  · rw [done] at member
    exact absurd member List.not_mem_nil
  · exact settled

include searched done in
/-- The heights of a search that is through are a typing. -/
theorem typing_of_search {data_size : Nat} {cost_table : Opcode → Int}
    (valid : ∀ i, Starts code i → InstructionValid code types data_size cost_table i)
    (limited : ∀ t ∈ types, t.Limited)
    (own : ∀ i, Starts code i → returns_at code types i = true → type.outputs ≤ 127)
    (traversed : Traversing code h) (visited : ∀ i, Starts code i → 0 ≤ h.stack_heights i) :
    StackTyping code types type (fun i => (h.stack_heights i).toNat) ∧
      ∀ i, Starts code i → JumpfCompatible code types type i := by
  have as_nat (i : Nat) (starts : Starts code i) : ((h.stack_heights i).toNat : Int) = h.stack_heights i :=
    Int.toNat_of_nonneg (visited i starts)
  refine ⟨⟨?_, fun i starts t member => ?_, fun i starts => ?_, fun i starts => ?_, fun i starts falls => ?_⟩,
    fun i starts => ?_⟩
  · rw [searched.entry, Int.toNat_natCast]
  all_goals
    obtain ⟨required, change, effect, enough, after⟩ := settled_of_done searched done (visited i starts)
    obtain ⟨requires, compatible, same⟩ :=
      effect_requires (valid i starts) limited (own i starts) (visited i starts) effect enough
  · obtain ⟨start, height⟩ := after t member
    rw [as_nat t start, as_nat i starts, height, same (List.ne_nil_of_mem member)]
  · rw [as_nat i starts]
    exact requires
  · exact traversed.reachable i (visited i starts)
  · exact (after _ (next_mem_successors falls)).1.2
  · exact compatible

include searched done in
/-- Where there is a typing, a search that is through has been everywhere. -/
theorem all_visited {data_size : Nat} {cost_table : Opcode → Int} {heights : Nat → Nat}
    (valid : ∀ i, Starts code i → InstructionValid code types data_size cost_table i)
    (limited : ∀ t ∈ types, t.Limited) (traversed : Traversing code h)
    (typing : StackTyping code types type heights) :
    (∀ i, Starts code i → 0 ≤ h.stack_heights i) ∧
      LOC_UNVISITED ∉ (List.range code.length).map h.stack_heights := by
  have gets_to {k : Nat} (leads : Relation.ReflTransGen (fun i t => t ∈ successors code i) 0 k) :
      0 ≤ h.stack_heights k := by
    induction leads with
    | refl =>
      rw [searched.entry]
      exact Int.natCast_nonneg _
    | @tail i t _ member nonneg =>
      obtain ⟨required, change, effect, enough, after⟩ := settled_of_done searched done nonneg
      rw [(after t member).2]
      exact effect_nonneg valid limited (searched.reached i nonneg) (List.ne_nil_of_mem member) effect enough
  have visited (i : Nat) (starts : Starts code i) : 0 ≤ h.stack_heights i := gets_to (typing.reachable i starts)
  have unvisited : LOC_UNVISITED = -1 := rfl
  have immediate : LOC_IMMEDIATE = -2 := rfl
  refine ⟨visited, fun listed => ?_⟩
  obtain ⟨k, member, height⟩ := List.mem_map.mp listed
  have within := List.mem_range.mp member
  rcases sweep_covers (Nat.zero_le k) within with sweep | ⟨j, sweep, before, behind⟩
  · have := visited k ⟨sweep, within⟩
    omega
  · rcases traversed.immediates j (visited j ⟨sweep, by omega⟩) with member | marked
    · rw [done] at member
      exact absurd member List.not_mem_nil
    · have := marked k before behind
      omega

end

/-- The sections `validate_max_stack_height` accepts, of those the validators before it accept, are the ones with a
typing; the height it returns is the greatest of the typing. -/
theorem max_stack_height_typing {container : Bytes} {header_size type_section_size data_size : Nat}
    {rev : Revision} {func_index : Nat} {msh : Int} (some_code : code ≠ [])
    (typed : validate_types container header_size type_section_size = .ok types)
    (at_index : types[func_index]? = some type)
    (instructions : validate_instructions code types rev data_size type = .ok ())
    (rjumps : validate_rjump_destinations code = true) :
    (validate_max_stack_height code types type = .ok msh →
      ∃ heights, StackTyping code types type heights ∧ (∀ i, Starts code i → JumpfCompatible code types type i) ∧
        IsGreatest {height : Int | ∃ i, Starts code i ∧ height = heights i} msh) ∧
    ((∀ i, Starts code i → JumpfFits code types type i) →
      (∃ heights, StackTyping code types type heights ∧ (∀ i, Starts code i → JumpfCompatible code types type i) ∧
        IsGreatest {height : Int | ∃ i, Starts code i ∧ height = heights i} msh) →
      validate_max_stack_height code types type = .ok msh) := by
  have limited := (validate_types_iff.mp typed).2.2
  obtain ⟨is_returning, ran, flag⟩ := Validated.bind_eq_ok.mp instructions
  rw [Validated.guard_eq_ok, ne_eq, not_not] at flag
  obtain ⟨all, _, returns⟩ := validate_instructions_sweep (by omega) ran
  have valid := fun i (starts : Starts code i) => all i starts.1 starts.2
  have positive : 0 < code.length := List.length_pos_iff.mpr some_code
  have own (i : Nat) (starts : Starts code i) (at_i : returns_at code types i = true) : type.outputs ≤ 127 := by
    rw [returns i starts.1 starts.2 at_i] at flag
    exact (limited type (List.mem_of_getElem? at_index)).outputs.resolve_right (of_decide_eq_true flag.1.symm)
  have size : (StackHeights.start type).measure code.length ≤ code.length + 1 :=
    (start_measure positive).trans (Nat.le_succ _)
  have searching : Searching code types type (.start type) := Searching.start positive
  have some_height (h : StackHeights) : (List.range code.length).map h.stack_heights ≠ [] := by
    simpa using some_code
  constructor
  · intro ok
    obtain ⟨h, search, result⟩ := Validated.bind_eq_ok.mp ok
    rw [Validated.guard_eq_ok] at result
    obtain ⟨all_reached, result⟩ := result
    obtain ⟨searched, done⟩ := searching.run valid limited rjumps size search
    have traversed := Traversing.start.run valid limited rjumps searching search
    have visited (i : Nat) (starts : Starts code i) : 0 ≤ h.stack_heights i := by
      rcases searched.values i with height | height | height
      · exact height
      · exact absurd (List.mem_map.mpr ⟨i, List.mem_range.mpr starts.2, height⟩) all_reached
      · exact absurd starts (searched.marked i height)
    obtain ⟨typing, compatible⟩ := typing_of_search searched done valid limited own traversed visited
    refine ⟨_, typing, compatible, ?_⟩
    have greatest := heights_greatest searched positive (foldl_max_greatest (some_height h))
    rw [Except.ok.inj result] at greatest
    exact (heights_same fun i starts => (Int.toNat_of_nonneg (visited i starts)).symm) ▸ greatest
  · rintro fits ⟨heights, typing, compatible, greatest⟩
    obtain ⟨h, search, agrees⟩ : ∃ h, validate_max_stack_height_loop code types type (code.length + 1)
        (.start type) = .ok h ∧ Agrees h heights :=
      (Agrees.start typing.entry).run valid limited rjumps typing own compatible fits searching
    obtain ⟨searched, done⟩ := searching.run valid limited rjumps size search
    have traversed := Traversing.start.run valid limited rjumps searching search
    obtain ⟨visited, all_reached⟩ := all_visited searched done valid limited traversed typing
    refine Validated.bind_eq_ok.mpr ⟨h, search, Validated.guard_eq_ok.mpr ⟨all_reached, ?_⟩⟩
    have greatest' := heights_greatest searched positive (foldl_max_greatest (some_height h))
    rw [heights_same fun i starts => agrees i (visited i starts)] at greatest'
    exact congrArg Except.ok (greatest'.unique greatest)

theorem max_stack_height_typing_join : ∃ heights, StackTyping joining_code joining_types ⟨0, 0x80, 1⟩ heights ∧
    (∀ i, Starts joining_code i → JumpfCompatible joining_code joining_types ⟨0, 0x80, 1⟩ i) ∧
      IsGreatest {height : Int | ∃ i, Starts joining_code i ∧ height = heights i} 1 := by
  have typed : validate_types [0x00, 0x80, 0x00, 0x01, 0x00, 0x01, 0x00, 0x01] 0 8 = .ok joining_types := rfl
  have returned : validate_max_stack_height joining_code joining_types ⟨0, 0x80, 1⟩ = .ok 1 := by decide +kernel
  have at_index : joining_types[0]? = some ⟨0, 0x80, 1⟩ := rfl
  exact (max_stack_height_typing (by simp [joining_code]) typed at_index joining_code_accepted
    joining_code_rjumps).1 returned

/-- A jump to a section that returns more than the own one is refused, also where its height is the one required. -/
theorem max_stack_height_incompatible :
    validate_types [0, 0x80, 0, 0, 0, 0, 0, 0, 1, 1, 0, 1] 0 12 = .ok [⟨0, 0x80, 0⟩, ⟨0, 0, 0⟩, ⟨1, 1, 1⟩] ∧
    validate_instructions [0xe5, 0, 2] [⟨0, 0x80, 0⟩, ⟨0, 0, 0⟩, ⟨1, 1, 1⟩] .PRAGUE 0 ⟨0, 0, 0⟩ = .ok () ∧
    validate_rjump_destinations [0xe5, 0, 2] = true ∧
    (∃ heights, StackTyping [0xe5, 0, 2] [⟨0, 0x80, 0⟩, ⟨0, 0, 0⟩, ⟨1, 1, 1⟩] ⟨0, 0, 0⟩ heights ∧
      IsGreatest {height : Int | ∃ i, Starts [0xe5, 0, 2] i ∧ height = heights i} 0) ∧
    validate_max_stack_height [0xe5, 0, 2] [⟨0, 0x80, 0⟩, ⟨0, 0, 0⟩, ⟨1, 1, 1⟩] ⟨0, 0, 0⟩ =
      .error .jumpf_destination_incompatible_outputs := by
  have first : Starts [0xe5, 0, 2] 0 := ⟨.here, by decide⟩
  have only {i : Nat} (starts : Starts [0xe5, 0, 2] i) : i = 0 := by
    obtain ⟨sweep, within⟩ := starts
    cases sweep with
    | here => rfl
    | next _ rest =>
      have behind : next_at [0xe5, 0, 2] 0 = 3 := by decide
      have := rest.le
      rw [behind] at this
      exact absurd within (not_lt.mpr this)
  refine ⟨rfl, by decide +kernel, by decide +kernel, ⟨fun _ => 0, ⟨rfl, ?_, ?_, ?_, ?_⟩, ?_, ?_⟩, by decide +kernel⟩
  · intro i starts t member
    rw [only starts, successors_leaving (Or.inl (by decide))] at member
    exact absurd member List.not_mem_nil
  · intro i starts
    rw [only starts]
    refine (Requires.jumpf (by decide)).mpr ⟨⟨1, 1, 1⟩, rfl, by decide, ?_⟩
    rw [if_neg (by decide)]
    rfl
  · intro i starts
    rw [only starts]
  · intro i starts falls
    rw [only starts] at falls
    exact absurd falls (by decide)
  · exact ⟨0, first, rfl⟩
  · rintro _ ⟨i, _, rfl⟩
    exact le_rfl

end EvmAssigner
