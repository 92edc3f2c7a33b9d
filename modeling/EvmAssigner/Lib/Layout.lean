import Mathlib.Algebra.BigOperators.Group.List.Basic
import Mathlib.Algebra.GroupWithZero.Nat
import Mathlib.Data.List.Infix

namespace EvmAssigner
variable {α β : Type} {whole : List α} {it k : Nat}

/-- `part` is in `whole`, from position `it` on. -/
def LiesAt (whole : List α) (it : Nat) (part : List α) : Prop := part <+: whole.drop it

theorem liesAt_nil : LiesAt whole it [] := List.nil_prefix

theorem liesAt_append {part rest : List α} :
    LiesAt whole it (part ++ rest) ↔ LiesAt whole it part ∧ LiesAt whole (it + part.length) rest := by
  unfold LiesAt
  rw [← List.drop_drop]
  constructor
  · rintro ⟨behind, same⟩
    rw [List.append_assoc] at same
    rw [← same, List.drop_left]
    exact ⟨List.prefix_append _ _, List.prefix_append _ _⟩
  · rintro ⟨⟨behind, same⟩, rest_lies⟩
    rw [← same, List.drop_left] at rest_lies
    rw [← same]
    exact List.prefix_append_right_inj _ |>.mpr rest_lies

theorem liesAt_append_at {part rest : List α} {behind : Nat} (at_end : it + part.length = behind) :
    LiesAt whole it (part ++ rest) ↔ LiesAt whole it part ∧ LiesAt whole behind rest := by
  rw [liesAt_append, at_end]

theorem liesAt_singleton {a : α} : LiesAt whole it [a] ↔ whole[it]? = some a := by
  unfold LiesAt
  rw [← List.head?_drop]
  cases whole.drop it with
  | nil => simp
  | cons b rest => simp [eq_comm]

theorem liesAt_cons {a : α} {rest : List α} :
    LiesAt whole it (a :: rest) ↔ whole[it]? = some a ∧ LiesAt whole (it + 1) rest := by
  rw [← List.singleton_append, liesAt_append, liesAt_singleton, List.length_singleton]

/-- It is what is cut out of the whole there. -/
theorem liesAt_iff_slice {part : List α} : LiesAt whole it part ↔ (whole.drop it).take part.length = part := by
  rw [LiesAt, List.prefix_iff_eq_take, eq_comm]

theorem liesAt_whole {part : List α} : part = whole ↔ LiesAt whole 0 part ∧ part.length = whole.length := by
  rw [LiesAt, List.drop_zero]
  constructor
  · rintro rfl
    exact ⟨List.prefix_rfl, rfl⟩
  · rintro ⟨lies, length⟩
    exact lies.eq_of_length length

theorem length_flatMap_of_long {f : β → List α} {parts : List β} (long : ∀ b ∈ parts, (f b).length = k) :
    (parts.flatMap f).length = k * parts.length := by
  induction parts with
  | nil => rfl
  | cons first parts ih =>
    rw [List.flatMap_cons, List.length_append, long first List.mem_cons_self,
      ih fun b member => long b (List.mem_cons_of_mem _ member), List.length_cons, Nat.mul_succ, Nat.add_comm]

/-- Parts that are all as long as each other. -/
theorem liesAt_flatMap {f : β → List α} {parts : List β} (long : ∀ b ∈ parts, (f b).length = k) :
    LiesAt whole it (parts.flatMap f) ↔
      ∀ (i : Nat) b, parts[i]? = some b → LiesAt whole (it + k * i) (f b) := by
  induction parts generalizing it with
  | nil => simp [liesAt_nil]
  | cons first parts ih =>
    rw [List.flatMap_cons, liesAt_append, long first List.mem_cons_self,
      ih fun b member => long b (List.mem_cons_of_mem _ member)]
    have behind (i : Nat) : it + k * (i + 1) = it + k + k * i := by
      rw [Nat.mul_succ]
      omega
    constructor
    · rintro ⟨here, rest⟩ i b at_i
      cases i with
      | zero =>
        obtain rfl := Option.some.inj at_i
        exact here
      | succ i =>
        rw [behind]
        exact rest i b at_i
    · intro all
      refine ⟨all 0 first rfl, fun i b at_i => ?_⟩
      rw [← behind]
      exact all (i + 1) b at_i

/-- Parts one behind the other, of whatever length. -/
theorem liesAt_flatten {parts : List (List α)} : LiesAt whole it parts.flatten ↔
    ∀ (i : Nat) part, parts[i]? = some part → LiesAt whole (it + ((parts.take i).map List.length).sum) part := by
  induction parts generalizing it with
  | nil => simp [liesAt_nil]
  | cons first parts ih =>
    rw [List.flatten_cons, liesAt_append, ih]
    constructor
    · rintro ⟨here, rest⟩ i part at_i
      cases i with
      | zero =>
        obtain rfl := Option.some.inj at_i
        exact here
      | succ i =>
        rw [List.take_succ_cons, List.map_cons, List.sum_cons, ← Nat.add_assoc]
        exact rest i part at_i
    · intro all
      refine ⟨all 0 first rfl, fun i part at_i => ?_⟩
      have lies := all (i + 1) part at_i
      rwa [List.take_succ_cons, List.map_cons, List.sum_cons, ← Nat.add_assoc] at lies

/-- The parts of `whole` from position `it` on, as long as `sizes` says. -/
def slices (whole : List α) : Nat → List Nat → List (List α)
  | _, [] => []
  | it, size :: sizes => (whole.drop it).take size :: slices whole (it + size) sizes

theorem slices_spec {sizes : List Nat} (within : it + sizes.sum ≤ whole.length) :
    (slices whole it sizes).map List.length = sizes ∧ LiesAt whole it (slices whole it sizes).flatten := by
  induction sizes generalizing it with
  | nil => exact ⟨rfl, liesAt_nil⟩
  | cons size sizes ih =>
    rw [List.sum_cons] at within
    obtain ⟨same, lies⟩ := ih (show it + size + sizes.sum ≤ whole.length by omega)
    have long : ((whole.drop it).take size).length = size := by
      rw [List.length_take, List.length_drop]
      omega
    rw [slices, List.map_cons, long, same, List.flatten_cons, liesAt_append, long]
    exact ⟨rfl, List.take_prefix _ _, lies⟩

/-- The ranges, each by where it begins and how long it is, cover what lies from `lo` to `hi` in
their order, without a gap and without an overlap. -/
def Tiles : Nat → List (Nat × Nat) → Nat → Prop
  | lo, [], hi => lo = hi
  | lo, range :: ranges, hi => range.1 = lo ∧ Tiles (lo + range.2) ranges hi

variable {lo hi : Nat} {ranges others : List (Nat × Nat)}

theorem tiles_append : Tiles lo (ranges ++ others) hi ↔
    Tiles lo ranges (lo + (ranges.map Prod.snd).sum) ∧
      Tiles (lo + (ranges.map Prod.snd).sum) others hi := by
  induction ranges generalizing lo with
  | nil => simp [Tiles]
  | cons range ranges ih =>
    have behind : lo + range.2 + (ranges.map Prod.snd).sum =
        lo + ((range :: ranges).map Prod.snd).sum := by
      rw [List.map_cons, List.sum_cons, Nat.add_assoc]
    rw [List.cons_append, Tiles, Tiles, ih, behind, and_assoc]

end EvmAssigner
