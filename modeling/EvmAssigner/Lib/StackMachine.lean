import Mathlib.Algebra.Ring.Int.Defs
import Mathlib.Data.List.Basic
import Mathlib.Logic.Function.Basic
import Mathlib.Tactic.Common

namespace EvmAssigner
variable {α : Type}

/-- What an instruction does to a stack, the top of which is the head of a list. -/
inductive StackOp (α : Type) where
  | drop (n : Nat)
  | const (v : α)
  | unary (f : α → α)
  | binary (f : α → α → α)
  | ternary (f : α → α → α → α)
  /-- `n` items give way to one that comes from elsewhere. -/
  | answer (n : Nat)
  | dup (i : Nat)
  | swap (i : Nat)
  /-- The top gives way to the item at the depth it tells. -/
  | dup_at (depth : α → Int)
  /-- The top is taken away, and the item below it changes places with the one at the depth the top tells. -/
  | swap_at (depth : α → Nat)

/-- Items `0` and `i` change places. -/
def exchange (xs : List α) (i : Nat) : Option (List α) := do
  let x ← xs[0]?
  let y ← xs[i]?
  return (xs.set 0 y).set i x

/-- The stack behind an instruction; `v` is the item that comes from elsewhere, if one does. -/
def StackOp.apply (v : α) : StackOp α → List α → Option (List α)
  | .drop n, xs => if n ≤ xs.length then some (xs.drop n) else none
  | .const c, xs => some (c :: xs)
  | .unary f, x :: xs => some (f x :: xs)
  | .binary f, x :: y :: xs => some (f x y :: xs)
  | .ternary f, x :: y :: z :: xs => some (f x y z :: xs)
  | .answer n, xs => if n ≤ xs.length then some (v :: xs.drop n) else none
  | .dup i, xs => xs[i]?.map (· :: xs)
  | .swap i, xs => exchange xs i
  | .dup_at depth, x :: xs => if 0 ≤ depth x then (x :: xs)[(depth x).toNat]?.map (· :: xs) else none
  | .swap_at depth, x :: xs => exchange xs (depth x)
  | _, _ => none

section
variable {v : α} {xs : List α}

theorem apply_drop {n : Nat} : (StackOp.drop n).apply v xs = if n ≤ xs.length then some (xs.drop n) else none := rfl

theorem apply_const {c : α} : (StackOp.const c).apply v xs = some (c :: xs) := rfl

theorem apply_unary {f : α → α} {x : α} : (StackOp.unary f).apply v (x :: xs) = some (f x :: xs) := rfl

theorem apply_binary {f : α → α → α} {x y : α} :
    (StackOp.binary f).apply v (x :: y :: xs) = some (f x y :: xs) := rfl

theorem apply_ternary {f : α → α → α → α} {x y z : α} :
    (StackOp.ternary f).apply v (x :: y :: z :: xs) = some (f x y z :: xs) := rfl

theorem apply_answer {n : Nat} :
    (StackOp.answer n).apply v xs = if n ≤ xs.length then some (v :: xs.drop n) else none := rfl

theorem apply_dup {i : Nat} : (StackOp.dup i).apply v xs = xs[i]?.map (· :: xs) := rfl

theorem apply_swap {i : Nat} : (StackOp.swap i).apply v xs = exchange xs i := rfl

theorem apply_dup_at {depth : α → Int} {x : α} : (StackOp.dup_at depth).apply v (x :: xs) =
    if 0 ≤ depth x then (x :: xs)[(depth x).toNat]?.map (· :: xs) else none := rfl

theorem apply_swap_at {depth : α → Nat} {x : α} :
    (StackOp.swap_at depth).apply v (x :: xs) = exchange xs (depth x) := rfl

end

/-- The items below height `h` of an array of slots, the top one first. -/
def items (slots : Int → α) (h : Int) : List α := (List.range h.toNat).map fun i : Nat => slots (h - 1 - i)

section
variable {slots slots' : Int → α} {h : Int} {v : α}

@[simp] theorem length_items : (items slots h).length = h.toNat := by
  simp [items]

theorem items_getElem? {i : Nat} (live : i < h) : (items slots h)[i]? = some (slots (h - 1 - i)) := by
  rw [items, List.getElem?_map, List.getElem?_range (by omega), Option.map_some]

/-- Slots that are not live do not matter. -/
theorem items_congr (same : ∀ a, 0 ≤ a → a < h → slots' a = slots a) : items slots' h = items slots h := by
  refine List.map_congr_left fun i member => ?_
  have live := List.mem_range.mp member
  exact same _ (by omega) (by omega)

theorem items_succ (nonneg : 0 ≤ h) : items slots (h + 1) = slots h :: items slots h := by
  unfold items
  rw [show (h + 1).toNat = h.toNat + 1 by omega, List.range_succ_eq_map, List.map_cons, List.map_map]
  congr 1
  · exact congrArg slots (by push_cast; omega)
  · refine List.map_congr_left fun i _ => congrArg slots ?_
    push_cast
    omega

/-- The top item, and those below it. -/
theorem items_pop (some_item : 1 ≤ h) : items slots h = slots (h - 1) :: items slots (h - 1) := by
  have split : items slots (h - 1 + 1) = slots (h - 1) :: items slots (h - 1) := items_succ (by omega)
  rwa [Int.sub_add_cancel] at split

theorem items_drop {n : Nat} (enough : n ≤ h) : (items slots h).drop n = items slots (h - n) := by
  induction n with
  | zero => rw [List.drop_zero, Nat.cast_zero, sub_zero]
  | succ n ih =>
    rw [← List.drop_drop, Nat.add_comm, ih (by omega), items_pop (by omega), List.drop_succ_cons, List.drop_zero]
    exact congrArg (items slots) (by omega)

theorem items_set {i : Nat} :
    items (Function.update slots (h - 1 - i) v) h = (items slots h).set i v := by
  refine List.ext_getElem? fun j => ?_
  by_cases within : j < h
  · rw [items_getElem? within, List.getElem?_set, items_getElem? within, length_items]
    by_cases here : i = j
    · rw [here, Function.update_self, if_pos rfl, if_pos (by omega)]
    · rw [Function.update_of_ne (by omega), if_neg here]
  · rw [List.getElem?_eq_none (by simp; omega), List.getElem?_eq_none (by simp; omega)]

theorem exchange_items {i : Nat} (live : i < h) : exchange (items slots h) i =
    some (items (Function.update (Function.update slots (h - 1) (slots (h - 1 - i))) (h - 1 - i)
      (slots (h - 1))) h) := by
  have top : (items slots h)[0]? = some (slots (h - 1 - (0 : Nat))) := items_getElem? (by omega)
  have put : items (Function.update slots (h - 1 - (0 : Nat)) (slots (h - 1 - i))) h =
    (items slots h).set 0 (slots (h - 1 - i)) := items_set
  rw [Nat.cast_zero, sub_zero] at top put
  rw [exchange, top, items_getElem? live, items_set, put]
  rfl

/-- The slots below a height are what they were. -/
def SameBelow (m : Int) (slots slots' : Int → α) : Prop := ∀ a < m, slots' a = slots a

namespace SameBelow
variable {slots'' : Int → α} {m m' : Int}

theorem refl (m : Int) (slots : Int → α) : SameBelow m slots slots := fun _ _ => rfl

theorem trans (same : SameBelow m slots slots') (same' : SameBelow m slots' slots'') : SameBelow m slots slots'' :=
  fun a below => (same' a below).trans (same a below)

theorem mono (same : SameBelow m slots slots') (lower : m' ≤ m) : SameBelow m' slots slots' :=
  fun a below => same a (by omega)

theorem update {slot : Int} (above : m ≤ slot) : SameBelow m slots (Function.update slots slot v) :=
  fun _ below => Function.update_of_ne (by omega) _ _

theorem items (same : SameBelow m slots slots') : items slots' m = EvmAssigner.items slots m :=
  items_congr fun a _ below => same a below

end SameBelow

namespace StackOp

/-- The slots, and their height, behind `op`. -/
def Turns (op : StackOp α) (slots : Int → α) (h : Int) (slots' : Int → α) (h' : Int) : Prop :=
  ∃ v, op.apply v (items slots h) = some (items slots' h')

theorem turns_drop {n : Nat} (enough : n ≤ h) (same : SameBelow (h - n) slots slots') :
    (drop n).Turns slots h slots' (h - n) := by
  refine ⟨slots 0, ?_⟩
  rw [apply_drop, if_pos (by rw [length_items]; omega), items_drop enough, same.items]

theorem turns_answer {n : Nat} (enough : n ≤ h) (same : SameBelow (h - n) slots slots') :
    (answer n).Turns slots h slots' (h - n + 1) := by
  refine ⟨slots' (h - n), ?_⟩
  rw [apply_answer, if_pos (by rw [length_items]; omega), items_drop enough, items_succ (by omega), same.items]

theorem turns_const (nonneg : 0 ≤ h) (same : SameBelow h slots slots') (top : slots' h = v) :
    (const v).Turns slots h slots' (h + 1) := by
  refine ⟨v, ?_⟩
  rw [apply_const, items_succ nonneg, same.items, top]

theorem turns_unary {f : α → α} (operand : 1 ≤ h) (same : SameBelow (h - 1) slots slots')
    (top : slots' (h - 1) = f (slots (h - 1))) : (unary f).Turns slots h slots' h := by
  refine ⟨slots 0, ?_⟩
  rw [items_pop operand, apply_unary, items_pop operand, same.items, top]

theorem turns_binary {f : α → α → α} (operands : 2 ≤ h) (same : SameBelow (h - 2) slots slots')
    (top : slots' (h - 2) = f (slots (h - 1)) (slots (h - 2))) : (binary f).Turns slots h slots' (h - 1) := by
  refine ⟨slots 0, ?_⟩
  have two : h - 1 - 1 = h - 2 := by omega
  rw [items_pop (show 1 ≤ h by omega), items_pop (show 1 ≤ h - 1 by omega), apply_binary,
    items_pop (show 1 ≤ h - 1 by omega), two, same.items, top]

theorem turns_ternary {f : α → α → α → α} (operands : 3 ≤ h) (same : SameBelow (h - 3) slots slots')
    (top : slots' (h - 3) = f (slots (h - 1)) (slots (h - 2)) (slots (h - 3))) :
    (ternary f).Turns slots h slots' (h - 2) := by
  refine ⟨slots 0, ?_⟩
  have two : h - 1 - 1 = h - 2 := by omega
  have three : h - 2 - 1 = h - 3 := by omega
  rw [items_pop (show 1 ≤ h by omega), items_pop (show 1 ≤ h - 1 by omega), two, items_pop (show 1 ≤ h - 2 by omega),
    apply_ternary, items_pop (show 1 ≤ h - 2 by omega), three, same.items, top]

theorem turns_dup {i : Nat} (live : i < h) (same : SameBelow h slots slots') (top : slots' h = slots (h - 1 - i)) :
    (dup i).Turns slots h slots' (h + 1) := by
  refine ⟨slots 0, ?_⟩
  rw [apply_dup, items_getElem? live, Option.map_some, items_succ (by omega), same.items, top]

theorem turns_swap {i : Nat} (live : i < h) (same : slots' =
      Function.update (Function.update slots (h - 1) (slots (h - 1 - i))) (h - 1 - i) (slots (h - 1))) :
    (swap i).Turns slots h slots' h :=
  ⟨slots 0, by rw [apply_swap, exchange_items live, same]⟩

theorem turns_dup_at {depth : α → Int} (nonneg : 0 ≤ depth (slots (h - 1))) (live : depth (slots (h - 1)) < h)
    (same : SameBelow (h - 1) slots slots') (top : slots' (h - 1) = slots (h - 1 - depth (slots (h - 1)))) :
    (dup_at depth).Turns slots h slots' h := by
  refine ⟨slots 0, ?_⟩
  have some_item : 1 ≤ h := by omega
  rw [items_pop some_item, apply_dup_at, if_pos nonneg, ← items_pop some_item, items_getElem? (by omega),
    Option.map_some, Int.toNat_of_nonneg nonneg, items_pop some_item, same.items, top]

theorem turns_swap_at {depth : α → Nat} (live : (depth (slots (h - 1)) : Int) + 2 ≤ h) (same : slots' =
      Function.update (Function.update slots (h - 2) (slots (h - 2 - depth (slots (h - 1)))))
        (h - 2 - depth (slots (h - 1))) (slots (h - 2))) :
    (swap_at depth).Turns slots h slots' (h - 1) := by
  refine ⟨slots 0, ?_⟩
  have two : h - 1 - 1 = h - 2 := by omega
  rw [items_pop (by omega), apply_swap_at, exchange_items (by omega), two, same]

end StackOp
end
end EvmAssigner
