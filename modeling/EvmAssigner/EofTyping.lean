import Mathlib.Data.Finset.Card
import EvmAssigner.EofAgreement
import EvmAssigner.EofSweep
import EvmAssigner.Runs

namespace EvmAssigner
variable {code : Bytes} {types : List EOFCodeType} {type : EOFCodeType} {h h' : StackHeights}
  {expected : Int} {i k : Nat}

theorem validate_successor_ok (ok : h.validate_successor k expected = .ok h') :
    h'.stack_heights k = expected ∧
      (∀ j, h.stack_heights j ≠ LOC_UNVISITED → h'.stack_heights j = h.stack_heights j) ∧
      (∀ j, h'.stack_heights j = h.stack_heights j ∨
        j = k ∧ h.stack_heights k = LOC_UNVISITED ∧ j ∈ h'.worklist) ∧
      (∀ j ∈ h.worklist, j ∈ h'.worklist) ∧ ∀ j ∈ h'.worklist, j ∈ h.worklist ∨ j = k := by
  unfold StackHeights.validate_successor at ok
  split_ifs at ok with unvisited same
  · obtain rfl := Except.ok.inj ok
    refine ⟨Function.update_self _ _ _, fun j visited => ?_, fun j => ?_,
      fun j member => List.mem_cons_of_mem _ member, fun j member => ?_⟩
    · have other : j ≠ k := by
        rintro rfl
        exact visited unvisited
      exact Function.update_of_ne other _ _
    · by_cases at_k : j = k
      · exact Or.inr ⟨at_k, unvisited, at_k ▸ List.mem_cons_self⟩
      · exact Or.inl (Function.update_of_ne at_k _ _)
    · exact (List.mem_cons.mp member).symm
  · obtain rfl := Except.ok.inj ok
    exact ⟨same, fun _ _ => rfl, fun _ => Or.inl rfl, fun _ member => member, fun _ member => Or.inl member⟩

/-- What `validate_successor` does for some successors in turn. -/
structure Pushed (h h' : StackHeights) (expected : Int) (offsets : List Nat) : Prop where
  heights : ∀ j ∈ offsets, h'.stack_heights j = expected
  visited : ∀ j, h.stack_heights j ≠ LOC_UNVISITED → h'.stack_heights j = h.stack_heights j
  changed : ∀ j, h'.stack_heights j = h.stack_heights j ∨ j ∈ offsets ∧ j ∈ h'.worklist
  kept : ∀ j ∈ h.worklist, j ∈ h'.worklist
  listed : ∀ j ∈ h'.worklist, j ∈ h.worklist ∨ j ∈ offsets

theorem validate_successors_ok {offsets : List Nat} (some_height : expected ≠ LOC_UNVISITED)
    (ok : h.validate_successors expected offsets = .ok h') : Pushed h h' expected offsets := by
  induction offsets generalizing h with
  | nil =>
    obtain rfl := Except.ok.inj ok
    exact ⟨fun _ none => absurd none List.not_mem_nil, fun _ _ => rfl, fun _ => Or.inl rfl,
      fun _ member => member, fun _ member => Or.inl member⟩
  | cons offset offsets ih =>
    rw [StackHeights.validate_successors, Validated.bind_eq_ok] at ok
    obtain ⟨h₁, first, rest⟩ := ok
    obtain ⟨at_offset, visited, changed, kept, listed⟩ := validate_successor_ok first
    have later := ih rest
    refine ⟨fun j member => ?_, fun j seen => ?_, fun j => ?_, fun j member => later.kept j (kept j member),
      fun j member => ?_⟩
    · rcases List.mem_cons.mp member with rfl | member
      · rw [later.visited j (by rw [at_offset]; exact some_height), at_offset]
      · exact later.heights j member
    · rw [later.visited j (by rw [visited j seen]; exact seen), visited j seen]
    · rcases later.changed j with same | ⟨member, new⟩
      · rcases changed j with same' | ⟨rfl, _, new⟩
        · exact Or.inl (same.trans same')
        · exact Or.inr ⟨List.mem_cons_self, later.kept j new⟩
      · exact Or.inr ⟨List.mem_cons_of_mem _ member, new⟩
    · rcases later.listed j member with member | member
      · rcases listed j member with member | rfl
        · exact Or.inl member
        · exact Or.inr List.mem_cons_self
      · exact Or.inr (List.mem_cons_of_mem _ member)

/-- How many positions of a section have not been visited. -/
def StackHeights.unvisited (h : StackHeights) (size : Nat) : Nat :=
  ((Finset.range size).filter fun k => h.stack_heights k = LOC_UNVISITED).card

/-- Every turn of the search makes this smaller. -/
def StackHeights.measure (h : StackHeights) (size : Nat) : Nat := h.unvisited size + h.worklist.length

theorem validate_successor_measure {size : Nat} (within : k < size) (some_height : expected ≠ LOC_UNVISITED)
    (ok : h.validate_successor k expected = .ok h') : h'.measure size = h.measure size := by
  unfold StackHeights.validate_successor at ok
  split_ifs at ok with unvisited same
  · obtain rfl := Except.ok.inj ok
    have fewer : ((Finset.range size).filter fun j =>
        Function.update h.stack_heights k expected j = LOC_UNVISITED) =
        ((Finset.range size).filter fun j => h.stack_heights j = LOC_UNVISITED).erase k := by
      ext j
      rw [Finset.mem_erase, Finset.mem_filter, Finset.mem_filter]
      by_cases at_k : j = k
      · simp [at_k, some_height]
      · simp [at_k]
    have member : k ∈ (Finset.range size).filter fun j => h.stack_heights j = LOC_UNVISITED :=
      Finset.mem_filter.mpr ⟨Finset.mem_range.mpr within, unvisited⟩
    have positive := Finset.card_pos.mpr ⟨k, member⟩
    rw [StackHeights.measure, StackHeights.measure, StackHeights.unvisited, fewer,
      Finset.card_erase_of_mem member, List.length_cons, StackHeights.unvisited]
    omega
  · obtain rfl := Except.ok.inj ok
    rfl

theorem validate_successors_measure {size : Nat} {offsets : List Nat} (within : ∀ k ∈ offsets, k < size)
    (some_height : expected ≠ LOC_UNVISITED) (ok : h.validate_successors expected offsets = .ok h') :
    h'.measure size = h.measure size := by
  induction offsets generalizing h with
  | nil =>
    obtain rfl := Except.ok.inj ok
    rfl
  | cons offset offsets ih =>
    rw [StackHeights.validate_successors, Validated.bind_eq_ok] at ok
    obtain ⟨h₁, first, rest⟩ := ok
    rw [ih (fun k member => within k (List.mem_cons_of_mem _ member)) rest,
      validate_successor_measure (within offset List.mem_cons_self) some_height first]

theorem mark_measure {size : Nat} : (h.mark code i).measure size ≤ h.measure size := by
  unfold StackHeights.measure StackHeights.unvisited
  refine Nat.add_le_add_right (Finset.card_le_card fun j member => ?_) _
  rw [Finset.mem_filter] at member ⊢
  refine ⟨member.1, ?_⟩
  have height := member.2
  unfold StackHeights.mark at height
  by_cases inside : i < j ∧ j < next_at code i
  · simp only [if_pos inside] at height
    exact absurd height (by decide)
  · simpa only [if_neg inside] using height

section
variable {op : Opcode} {height required change : Int} {callee : EOFCodeType}

theorem to_int8_small {x : Int} (lower : -128 ≤ x) (upper : x ≤ 127) : to_int8 x = x := by
  rw [to_int8, Int.bmod_def]
  omega

theorem to_int8_large {x : Int} (lower : 127 < x) (upper : x < 256) : to_int8 x = x - 256 := by
  rw [to_int8, Int.bmod_def]
  omega

theorem callee_getD (at_callee : callee ∈ callee_at code types i) :
    types.getD (uint16_be_at code (i + 1)) default = callee := by
  have found : types[uint16_be_at code (i + 1)]? = some callee := at_callee
  rw [List.getD_eq_getElem?_getD, found]
  rfl

theorem callee_mem (at_callee : callee ∈ callee_at code types i) : callee ∈ types :=
  List.mem_of_getElem? at_callee

/-- Most instructions need, and change, the stack as their traits say. -/
theorem plain_effect (callf : op ≠ .CALLF) (jumpf : op ≠ .JUMPF) (retf : op ≠ .RETF) :
    height_effect code types type op i height = .ok (stack_height_required op, stack_height_change op) := by
  unfold height_effect
  split
  · exact absurd rfl callf
  · exact absurd rfl jumpf
  · exact absurd rfl retf
  · rfl

theorem callf_effect (at_callee : callee ∈ callee_at code types i) (limited : callee.Limited)
    (returns : callee.outputs ≠ NON_RETURNING_FUNCITON)
    (effect : height_effect code types type .CALLF i height = .ok (required, change)) :
    required = callee.inputs ∧ change = callee.outputs - callee.inputs := by
  have outputs : callee.outputs ≤ 127 := limited.outputs.resolve_right returns
  have inputs : callee.inputs ≤ 127 := limited.inputs
  have same : to_int8 callee.inputs = callee.inputs := to_int8_small (by omega) (by omega)
  simp only [height_effect, callee_getD at_callee, Validated.guard_eq_ok, same] at effect
  obtain ⟨rfl, rfl⟩ := Prod.mk.inj (Except.ok.inj effect.2)
  exact ⟨rfl, to_int8_small (by omega) (by omega)⟩

theorem retf_effect (outputs : type.outputs ≤ 127)
    (effect : height_effect code types type .RETF i height = .ok (required, change))
    (enough : required ≤ height) : height = type.outputs := by
  have same : to_int8 type.outputs = type.outputs := to_int8_small (by omega) (by omega)
  simp only [height_effect, Validated.guard_eq_ok, same] at effect
  obtain ⟨rfl, _⟩ := Prod.mk.inj (Except.ok.inj effect.2)
  omega

/-- A jump to a section that does not return needs its inputs only. -/
theorem jumpf_effect (at_callee : callee ∈ callee_at code types i) (limited : callee.Limited)
    (returns : callee.outputs = NON_RETURNING_FUNCITON)
    (effect : height_effect code types type .JUMPF i height = .ok (required, change)) :
    required = callee.inputs := by
  have inputs : callee.inputs ≤ 127 := limited.inputs
  have same : to_int8 callee.inputs = callee.inputs := to_int8_small (by omega) (by omega)
  simp only [height_effect, callee_getD at_callee, Validated.guard_eq_ok, if_pos returns, same] at effect
  exact (Prod.mk.inj (Except.ok.inj effect.2)).1.symm

/-- A jump to a section that returns leaves what the own section returns, once that one is through. -/
theorem jumpf_effect_returning (at_callee : callee ∈ callee_at code types i) (limited : callee.Limited)
    (outputs : type.outputs ≤ 127) (returns : callee.outputs ≠ NON_RETURNING_FUNCITON)
    (nonneg : 0 ≤ height) (effect : height_effect code types type .JUMPF i height = .ok (required, change))
    (enough : required ≤ height) :
    callee.outputs ≤ type.outputs ∧ height = type.outputs + callee.inputs - callee.outputs := by
  have inputs : callee.inputs ≤ 127 := limited.inputs
  simp only [height_effect, callee_getD at_callee, Validated.guard_eq_ok, if_neg returns] at effect
  obtain ⟨_, compatible, at_most, same⟩ := effect
  obtain ⟨rfl, _⟩ := Prod.mk.inj (Except.ok.inj same)
  -- A requirement that is cut to 8 bits is negative, which the height is not.
  by_cases large : 127 < (type.outputs : Int) + callee.inputs - callee.outputs
  · rw [to_int8_large large (by omega)] at at_most
    omega
  · rw [to_int8_small (by omega) (by omega)] at at_most enough
    omega

end

/-- The instruction at `k` has what it needs, and the instructions that may come next have the height
it leaves. -/
def Settled (code : Bytes) (types : List EOFCodeType) (type : EOFCodeType) (heights : Nat → Int) (k : Nat) :
    Prop :=
  ∃ required change, height_effect code types type (op_at code k) k (heights k) = .ok (required, change) ∧
    required ≤ heights k ∧ ∀ t ∈ successors code k, Starts code t ∧ heights t = heights k + change

/-- What the search for the heights of a section keeps. -/
structure Searching (code : Bytes) (types : List EOFCodeType) (type : EOFCodeType) (h : StackHeights) :
    Prop where
  entry : h.stack_heights 0 = type.inputs
  reached : ∀ k, 0 ≤ h.stack_heights k → Starts code k
  values : ∀ k, 0 ≤ h.stack_heights k ∨ h.stack_heights k = LOC_UNVISITED ∨
    h.stack_heights k = LOC_IMMEDIATE
  marked : ∀ k, h.stack_heights k = LOC_IMMEDIATE → ¬ Starts code k
  listed : ∀ k ∈ h.worklist, 0 ≤ h.stack_heights k
  settled : ∀ k, 0 ≤ h.stack_heights k → k ∈ h.worklist ∨ Settled code types type h.stack_heights k

section
variable {data_size : Nat} {cost_table : Opcode → Int} {required change : Int}
  (valid : ∀ i, Starts code i → InstructionValid code types data_size cost_table i)
  (limited : ∀ t ∈ types, t.Limited) (rjumps : validate_rjump_destinations code = true)

include rjumps in
theorem successors_start (starts : Starts code i)
    (room : falls_through (op_at code i) → next_at code i < code.length) :
    ∀ t ∈ successors code i, Starts code t := by
  intro t member
  rcases List.mem_append.mp member with next | target
  · by_cases falls : falls_through (op_at code i)
    · rw [if_pos falls, List.mem_singleton] at next
      subst next
      exact ⟨starts.1.after starts.2, room falls⟩
    · rw [if_neg falls] at next
      exact absurd next List.not_mem_nil
  · exact rjump_targets rjumps starts target

theorem successors_leaving (leaves : op_at code i = .JUMPF ∨ op_at code i = .RETF) : successors code i = [] := by
  rcases leaves with op | op
  · rw [successors, targets, op]
    rfl
  · rw [successors, targets, op]
    rfl

include valid limited in
/-- Where an instruction goes on, the height it leaves is a height. -/
theorem effect_nonneg (starts : Starts code i) (some_successor : successors code i ≠ [])
    (effect : height_effect code types type (op_at code i) i (h.stack_heights i) = .ok (required, change))
    (enough : required ≤ h.stack_heights i) : 0 ≤ h.stack_heights i + change := by
  by_cases callf : op_at code i = .CALLF
  · obtain ⟨callee, at_callee, returns⟩ := (valid i starts).callf callf
    rw [callf] at effect
    obtain ⟨rfl, rfl⟩ := callf_effect at_callee (limited callee (callee_mem at_callee)) returns effect
    omega
  · have jumpf : op_at code i ≠ .JUMPF := fun op => some_successor (successors_leaving (Or.inl op))
    have retf : op_at code i ≠ .RETF := fun op => some_successor (successors_leaving (Or.inr op))
    rw [plain_effect callf jumpf retf] at effect
    obtain ⟨rfl, rfl⟩ := Prod.mk.inj (Except.ok.inj effect)
    have := height_bounds (op_at code i)
    omega

include valid limited in
/-- What a turn of the search has found in order, and where it goes on from the position it takes. -/
theorem Searching.turn {worklist : List Nat} (searching : Searching code types type h)
    (next : h.worklist = i :: worklist)
    (ok : StackHeights.visit code types type { h with worklist := worklist } i = .ok h') :
    Starts code i ∧ (falls_through (op_at code i) → next_at code i < code.length) ∧
      ∃ required change expected, height_effect code types type (op_at code i) i (h.stack_heights i) =
          .ok (required, change) ∧ required ≤ h.stack_heights i ∧ 0 ≤ expected ∧
        (∀ t ∈ successors code i, expected = h.stack_heights i + change) ∧
        (StackHeights.mark { h with worklist := worklist } code i).validate_successors expected
          (successors code i) = .ok h' := by
  have nonneg : 0 ≤ h.stack_heights i := searching.listed i (next ▸ List.mem_cons_self)
  have starts := searching.reached i nonneg
  obtain ⟨required, change, effect, enough, room, pushed⟩ := visit_eq_ok.mp ok
  refine ⟨starts, room, required, change, ?_⟩
  by_cases none : successors code i = []
  · rw [none] at pushed ⊢
    exact ⟨0, effect, enough, le_rfl, fun _ member => absurd member List.not_mem_nil, pushed⟩
  · exact ⟨_, effect, enough, effect_nonneg valid limited starts none effect enough, fun _ _ => rfl, pushed⟩

include valid limited rjumps in
/-- A turn of the search keeps all this, and there is less to be done. -/
theorem Searching.visit {worklist : List Nat} (searching : Searching code types type h)
    (next : h.worklist = i :: worklist)
    (ok : StackHeights.visit code types type { h with worklist := worklist } i = .ok h') :
    Searching code types type h' ∧ h'.measure code.length < h.measure code.length := by
  have nonneg : 0 ≤ h.stack_heights i := searching.listed i (next ▸ List.mem_cons_self)
  obtain ⟨starts, room, required, change, expected, effect, enough, some_height, at_expected, pushed⟩ :=
    searching.turn valid limited next ok
  have followed := successors_start rjumps starts room
  have unvisited : LOC_UNVISITED = -1 := rfl
  have immediate : LOC_IMMEDIATE = -2 := rfl
  have visited : expected ≠ LOC_UNVISITED := by omega
  have after := validate_successors_ok visited pushed
  have mark_of_start {k : Nat} (start : Starts code k) :
      (StackHeights.mark { h with worklist := worklist } code i).stack_heights k = h.stack_heights k := by
    refine if_neg fun inside => ?_
    rcases starts.1.apart starts.2 start.1 with before | behind
    · omega
    · omega
  have kept {k : Nat} (height : 0 ≤ h.stack_heights k) : h'.stack_heights k = h.stack_heights k := by
    have same := mark_of_start (searching.reached k height)
    rw [after.visited k (by rw [same]; omega), same]
  have settles {k : Nat} (settled : Settled code types type h.stack_heights k) (start : Starts code k)
      (height : 0 ≤ h.stack_heights k) : Settled code types type h'.stack_heights k := by
    obtain ⟨required, change, effect, enough, all⟩ := settled
    refine ⟨required, change, by rw [kept height]; exact effect, by rw [kept height]; exact enough,
      fun t member => ⟨(all t member).1, ?_⟩⟩
    have leaves := effect_nonneg valid limited start (List.ne_nil_of_mem member) effect enough
    rw [kept (by rw [(all t member).2]; exact leaves), kept height, (all t member).2]
  have reached (k : Nat) (height : 0 ≤ h'.stack_heights k) : Starts code k := by
    rcases after.changed k with same | ⟨member, _⟩
    · rw [same] at height
      unfold StackHeights.mark at height
      by_cases inside : i < k ∧ k < next_at code i
      · simp only [if_pos inside] at height
        exact absurd height (by decide)
      · simp only [if_neg inside] at height
        exact searching.reached k height
    · exact followed k member
  refine ⟨⟨?_, reached, fun k => ?_, fun k height => ?_, fun k member => ?_, fun k height => ?_⟩, ?_⟩
  · rw [kept (by rw [searching.entry]; omega), searching.entry]
  · rcases after.changed k with same | ⟨member, _⟩
    · rw [same]
      unfold StackHeights.mark
      by_cases inside : i < k ∧ k < next_at code i
      · simp only [if_pos inside]
        exact Or.inr (Or.inr trivial)
      · simp only [if_neg inside]
        exact searching.values k
    · rw [after.heights k member]
      exact Or.inl some_height
  · rcases after.changed k with same | ⟨member, _⟩
    · intro start
      rw [same, mark_of_start start] at height
      exact searching.marked k height start
    · rw [after.heights k member] at height
      omega
  · rcases after.listed k member with member | member
    · have before := searching.listed k (next ▸ List.mem_cons_of_mem _ member)
      rw [kept before]
      exact before
    · rw [after.heights k member]
      exact some_height
  · rcases after.changed k with same | ⟨_, member⟩
    · have start := reached k height
      rw [same, mark_of_start start] at height
      rcases searching.settled k height with member | settled
      · rw [next] at member
        rcases List.mem_cons.mp member with rfl | member
        · right
          refine ⟨required, change, by rw [kept nonneg]; exact effect, by rw [kept nonneg]; exact enough,
            fun t at_t => ⟨followed t at_t, ?_⟩⟩
          rw [after.heights t at_t, kept nonneg, at_expected t at_t]
        · exact Or.inl (after.kept k member)
      · exact Or.inr (settles settled start height)
    · exact Or.inl member
  · have within : ∀ t ∈ successors code i, t < code.length := fun t member => (followed t member).2
    rw [validate_successors_measure within visited pushed]
    have less : (StackHeights.mark { h with worklist := worklist } code i).measure code.length ≤
        StackHeights.measure { h with worklist := worklist } code.length := mark_measure
    have popped : h.measure code.length = StackHeights.measure { h with worklist := worklist } code.length + 1 := by
      rw [StackHeights.measure, StackHeights.measure, next, List.length_cons]
      rfl
    omega

include valid limited rjumps in
/-- The search comes to its end with every position settled. -/
theorem Searching.run {fuel : Nat} (searching : Searching code types type h)
    (enough : h.measure code.length ≤ fuel)
    (ok : validate_max_stack_height_loop code types type fuel h = .ok h') :
    Searching code types type h' ∧ h'.worklist = [] := by
  induction fuel generalizing h with
  | zero =>
    obtain rfl := Except.ok.inj ok
    refine ⟨searching, List.length_eq_zero_iff.mp ?_⟩
    rw [StackHeights.measure] at enough
    omega
  | succ fuel ih =>
    rw [validate_max_stack_height_loop] at ok
    cases next : h.worklist with
    | nil =>
      rw [next] at ok
      obtain rfl := Except.ok.inj ok
      exact ⟨searching, next⟩
    | cons i worklist =>
      rw [next] at ok
      obtain ⟨h₁, visited, rest⟩ := Validated.bind_eq_ok.mp ok
      obtain ⟨searching₁, less⟩ := searching.visit valid limited rjumps next visited
      exact ih searching₁ (by omega) rest

end

/-- Where the search starts. -/
def StackHeights.start (type : EOFCodeType) : StackHeights :=
  ⟨fun k => if k = 0 then type.inputs else LOC_UNVISITED, [0]⟩

theorem Searching.start (some_code : 0 < code.length) : Searching code types type (.start type) where
  entry := by simp [StackHeights.start]
  reached k height := by
    by_cases first : k = 0
    · exact ⟨first ▸ .here, first ▸ some_code⟩
    · simp only [StackHeights.start, if_neg first] at height
      exact absurd height (by decide)
  values k := by
    by_cases first : k = 0
    · simp only [StackHeights.start, if_pos first]
      exact Or.inl (by omega)
    · simp only [StackHeights.start, if_neg first]
      exact Or.inr (Or.inl trivial)
  marked k height := by
    by_cases first : k = 0
    · simp only [StackHeights.start, if_pos first] at height
      have immediate : LOC_IMMEDIATE = -2 := rfl
      omega
    · simp only [StackHeights.start, if_neg first] at height
      exact absurd height (by decide)
  listed k member := by
    rw [List.mem_singleton.mp member]
    show 0 ≤ (if 0 = 0 then (type.inputs : Int) else LOC_UNVISITED)
    rw [if_pos rfl]
    omega
  settled k height := by
    by_cases first : k = 0
    · exact Or.inl (first ▸ List.mem_cons_self)
    · simp only [StackHeights.start, if_neg first] at height
      exact absurd height (by decide)

theorem start_entry : (StackHeights.start type).stack_heights 0 ≠ LOC_UNVISITED := by
  show (if 0 = 0 then (type.inputs : Int) else LOC_UNVISITED) ≠ LOC_UNVISITED
  rw [if_pos rfl]
  have unvisited : LOC_UNVISITED = -1 := rfl
  omega

/-- The first offset is on the worklist, and all others are unvisited. -/
theorem start_measure (positive : 0 < code.length) :
    (StackHeights.start type).measure code.length ≤ code.length := by
  have others : ((Finset.range code.length).filter fun k =>
      (StackHeights.start type).stack_heights k = LOC_UNVISITED) ⊆ (Finset.range code.length).erase 0 := by
    intro k member
    obtain ⟨within, unvisited⟩ := Finset.mem_filter.mp member
    refine Finset.mem_erase.mpr ⟨?_, within⟩
    rintro rfl
    exact start_entry unvisited
  have fewer := Finset.card_le_card others
  rw [Finset.card_erase_of_mem (Finset.mem_range.mpr positive), Finset.card_range] at fewer
  have one : (StackHeights.start type).worklist.length = 1 := rfl
  rw [StackHeights.measure, StackHeights.unvisited, one]
  omega

/-- The heights `validate_max_stack_height` computes for the offsets of a section. -/
def section_heights (code : Bytes) (types : List EOFCodeType) (type : EOFCodeType) : Validated (Nat → Int) := do
  let h ← validate_max_stack_height_loop code types type (code.length + 1) (.start type)
  return h.stack_heights

/-- The source takes the greatest of them, once it has seen that all offsets have one. -/
theorem validate_max_stack_height_heights : validate_max_stack_height code types type = (do
    let heights ← section_heights code types type
    let stack_heights := (List.range code.length).map heights
    if LOC_UNVISITED ∈ stack_heights then .error .unreachable_instructions
    else .ok (stack_heights.foldl max (stack_heights.headD 0))) := by
  rw [validate_max_stack_height, section_heights]
  show ((validate_max_stack_height_loop code types type (code.length + 1) (.start type)).bind _ : Validated Int) =
    Except.bind (Except.bind _ _) _
  cases validate_max_stack_height_loop code types type (code.length + 1) (.start type) with
  | error error => rfl
  | ok h => rfl

/-- What the validation of a section says about it. -/
structure SectionTyped (code : Bytes) (types : List EOFCodeType) (type : EOFCodeType) (data_size : Nat)
    (cost_table : Opcode → Int) (heights : Nat → Int) : Prop where
  computed : section_heights code types type = .ok heights
  some_code : 0 < code.length
  valid : ∀ i, Starts code i → InstructionValid code types data_size cost_table i
  returning : ∀ i, Starts code i → returns_at code types i = true → type.outputs ≠ NON_RETURNING_FUNCITON
  entry : heights 0 = type.inputs
  nonneg : ∀ i, Starts code i → 0 ≤ heights i
  bounded : ∀ i, Starts code i → heights i ≤ type.max_stack_height
  settled : ∀ i, Starts code i → Settled code types type heights i
  forward : ∀ i, Starts code i → ∀ rel ∈ rel_offsets code (op_at code i) i, 0 ≤ (next_at code i : Int) + rel

/-- The greatest height of a section is one of its heights. -/
theorem foldl_max_greatest {stack_heights : List Int} (some_height : stack_heights ≠ []) :
    IsGreatest {height | height ∈ stack_heights} (stack_heights.foldl max (stack_heights.headD 0)) := by
  have greatest : stack_heights.max? = some (stack_heights.foldl max (stack_heights.headD 0)) := by
    cases stack_heights with
    | nil => exact absurd rfl some_height
    | cons first rest =>
      rw [List.max?_cons', List.headD_cons, List.foldl_cons, max_self]
  obtain ⟨member, upper⟩ := List.max?_eq_some_iff.mp greatest
  exact ⟨member, fun height => upper height⟩

theorem validate_code_typed {rev : Revision} {header : EOF1Header} {container : Bytes} {code_idx : Nat}
    (limited : ∀ t ∈ header.types, t.Limited) (some_code : 0 < (header.get_code container code_idx).length)
    (ok : validate_code rev header container code_idx = .ok ()) :
    ∃ heights, SectionTyped (header.get_code container code_idx) header.types
      (header.types.getD code_idx default) header.data_size (get_baseline_cost_table rev 1) heights := by
  obtain ⟨_, instructions, ok⟩ := Validated.bind_eq_ok.mp ok
  rw [Validated.guard_eq_ok] at ok
  obtain ⟨rjumps, ok⟩ := ok
  replace rjumps : validate_rjump_destinations (header.get_code container code_idx) = true := by
    simpa using rjumps
  obtain ⟨msh, heights_ok, ok⟩ := Validated.bind_eq_ok.mp ok
  rw [Validated.guard_eq_ok, ne_eq, not_not] at ok
  obtain ⟨is_returning, ran, flag⟩ := Validated.bind_eq_ok.mp instructions
  rw [Validated.guard_eq_ok, ne_eq, not_not] at flag
  obtain ⟨all, _, returns⟩ := validate_instructions_sweep (by omega) ran
  rw [validate_max_stack_height_heights] at heights_ok
  obtain ⟨_, computed, result⟩ := Validated.bind_eq_ok.mp heights_ok
  obtain ⟨h, search, same⟩ := Validated.bind_eq_ok.mp computed
  obtain rfl := Except.ok.inj same
  rw [Validated.guard_eq_ok] at result
  obtain ⟨reachable, result⟩ := result
  have valid : ∀ i, Starts (header.get_code container code_idx) i → InstructionValid _ _ _ _ i :=
    fun i starts => all i starts.1 starts.2
  have size := (@start_measure _ (header.types.getD code_idx default) some_code).trans (Nat.le_succ _)
  obtain ⟨searched, done⟩ := (Searching.start some_code).run valid limited rjumps size search
  have nonneg (i : Nat) (starts : Starts (header.get_code container code_idx) i) : 0 ≤ h.stack_heights i := by
    rcases searched.values i with height | height | height
    · exact height
    · exact absurd (List.mem_map.mpr ⟨i, List.mem_range.mpr starts.2, height⟩) reachable
    · exact absurd starts (searched.marked i height)
  refine ⟨h.stack_heights, computed, some_code, valid, fun i starts at_i => ?_, searched.entry, nonneg,
    fun i starts => ?_, fun i starts => ?_, fun i starts rel member => (rjump_lands rjumps starts member).1⟩
  · rw [returns i starts.1 starts.2 at_i] at flag
    exact of_decide_eq_true flag.1.symm
  · have member : h.stack_heights i ∈ (List.range (header.get_code container code_idx).length).map
        h.stack_heights := List.mem_map.mpr ⟨i, List.mem_range.mpr starts.2, rfl⟩
    rw [← ok.1, ← Except.ok.inj result]
    exact (foldl_max_greatest (List.ne_nil_of_mem member)).2 member
  · rcases searched.settled i (nonneg i starts) with member | settled
    · rw [done] at member
      exact absurd member List.not_mem_nil
    · exact settled

end EvmAssigner
