import EvmAssigner.Accounts

namespace EvmAssigner

/-- The arguments of a call of `set_storage`. -/
structure StorageWrite where
  addr : Address
  key : Word
  value : Word

/-- What was written last to a slot. -/
def last_value : List StorageWrite → Address → Word → Option Word
  | [], _, _ => none
  | write :: writes, a, k =>
    (last_value writes a k).or (if a = write.addr ∧ k = write.key then some write.value else none)

section
variable {F : Type} [Zero F]

namespace VMHost

theorem set_storage_returns (w : World F) (addr : Address) (key value : Word) :
    (set_storage addr key value w).2 = some ((w.accounts.set_storage addr key value).2,
      w.set_accounts (w.accounts.set_storage addr key value).1) := rfl

/-- A sequence of calls, with the status each of them reports. -/
def set_storage_all : List StorageWrite → Action Event (World F) (List StorageStatus)
  | [] => return []
  | write :: writes => do
    let status ← set_storage write.addr write.key write.value
    let rest ← set_storage_all writes
    return status :: rest

end VMHost

/-- After the calls `writes` the storage is what it was, with the last value at every slot written
to, and only a slot that was cleared has been reported as deleted. -/
structure StorageIsMap (w : World F) (writes : List StorageWrite) (statuses : List StorageStatus)
    (w' : World F) : Prop where
  read : ∀ a k, w'.accounts.get_storage a k = (last_value writes a k).getD (w.accounts.get_storage a k)
  rest : ∀ a, (w'.accounts a).map (fun acc => { acc with storage := fun _ => none }) =
    (w.accounts a).map fun acc => { acc with storage := fun _ => none }
  deleted : ∀ (i : Nat) write, writes[i]? = some write → statuses[i]? = some .DELETED →
    (last_value (writes.take i) write.addr write.key).getD
      (w.accounts.get_storage write.addr write.key) ≠ 0 ∧ write.value = 0

theorem set_storage_all_cons {w w' : World F} {write : StorageWrite} {writes : List StorageWrite}
    {statuses : List StorageStatus} (run : (VMHost.set_storage_all writes
      (w.set_accounts (w.accounts.set_storage write.addr write.key write.value).1)).2 =
        some (statuses, w')) :
    (VMHost.set_storage_all (write :: writes) w).2 =
      some ((w.accounts.set_storage write.addr write.key write.value).2 :: statuses, w') :=
  Action.bind_eq_some.mpr ⟨_, _, VMHost.set_storage_returns w _ _ _,
    Action.bind_eq_some.mpr ⟨_, _, run, rfl⟩⟩

/-- What a sequence of calls comes to, slot by slot. -/
structure Written (w : World F) (writes : List StorageWrite) (statuses : List StorageStatus)
    (w' : World F) : Prop where
  slot : ∀ a k, w'.accounts.slot a k = (w.accounts.slot a k).map fun v => (last_value writes a k).getD v
  rest : ∀ a, (w'.accounts a).map (fun acc => { acc with storage := fun _ => none }) =
    (w.accounts a).map fun acc => { acc with storage := fun _ => none }
  status : ∀ (i : Nat) write, writes[i]? = some write →
    ∃ status, statuses[i]? = some status ∧
      (status = .DELETED ↔ w.accounts.slot write.addr write.key = none)

theorem set_storage_all_written (w : World F) (writes : List StorageWrite) :
    ∃ statuses w', (VMHost.set_storage_all writes w).2 = some (statuses, w') ∧
      Written w writes statuses w' := by
  induction writes generalizing w with
  | nil =>
    refine ⟨[], w, rfl, ?_, fun _ => rfl, ?_⟩
    · intro a k
      cases w.accounts.slot a k <;> rfl
    · intro i write found
      simp at found
  | cons write writes ih =>
    obtain ⟨statuses, w', run, written⟩ :=
      ih (w.set_accounts (w.accounts.set_storage write.addr write.key write.value).1)
    refine ⟨_, w', set_storage_all_cons run, ?_, ?_, ?_⟩
    · intro a k
      rw [written.slot, World.set_accounts_accounts, Accounts.set_storage_slot, last_value]
      by_cases here : a = write.addr ∧ k = write.key
      · rw [if_pos here, if_pos here, Option.map_map]
        congr 1
        funext v
        cases last_value writes a k <;> rfl
      · rw [if_neg here, if_neg here, Option.or_none]
    · intro a
      rw [written.rest, World.set_accounts_accounts, Accounts.set_storage_rest]
    · intro i x found
      cases i with
      | zero =>
        obtain rfl := Option.some.inj found
        refine ⟨_, rfl, ?_⟩
        constructor
        · intro deleted
          by_contra present
          exact Accounts.set_storage_status_ne (Option.isSome_iff_ne_none.mpr present) deleted
        · intro missing
          rw [Accounts.set_storage_miss missing]
      | succ i =>
        obtain ⟨status, at_i, deleted⟩ := written.status i x found
        refine ⟨status, at_i, deleted.trans ?_⟩
        rw [World.set_accounts_accounts, ← Option.not_isSome_iff_eq_none,
          Accounts.set_storage_slot_isSome, Option.not_isSome_iff_eq_none]

theorem last_value_eq_none {writes : List StorageWrite} {a : Address} {k : Word}
    (apart : ∀ write ∈ writes, ¬ (a = write.addr ∧ k = write.key)) : last_value writes a k = none := by
  induction writes with
  | nil => rfl
  | cons write writes ih =>
    rw [last_value, ih fun x member => apart x (List.mem_cons_of_mem _ member), Option.none_or,
      if_neg (apart write List.mem_cons_self)]

/-- The storage is a map for exactly the sequences that write to slots which are there. -/
theorem storage_is_map_iff (w : World F) (writes : List StorageWrite) :
    ∃ statuses w', (VMHost.set_storage_all writes w).2 = some (statuses, w') ∧
      (StorageIsMap w writes statuses w' ↔
        ∀ write ∈ writes, (w.accounts.slot write.addr write.key).isSome) := by
  obtain ⟨statuses, w', run, written⟩ := set_storage_all_written w writes
  refine ⟨statuses, w', run, ?_⟩
  constructor
  · intro map
    by_contra missing
    have exists_missing : ∃ (i : Nat) (write : StorageWrite), writes[i]? = some write ∧
        w.accounts.slot write.addr write.key = none := by
      push Not at missing
      obtain ⟨write, member, none⟩ := missing
      obtain ⟨i, found⟩ := List.getElem?_of_mem member
      exact ⟨i, write, found, by simpa using none⟩
    classical
    -- the first call for a slot that is not there
    obtain ⟨write, found, none⟩ := Nat.find_spec exists_missing
    obtain ⟨status, reported, deleted⟩ := written.status _ write found
    rw [deleted.mpr none] at reported
    obtain ⟨nonzero, _⟩ := map.deleted _ write found reported
    refine nonzero ?_
    rw [last_value_eq_none, Option.getD_none, Accounts.get_storage_eq, none]
    · rfl
    · intro earlier member same
      obtain ⟨j, found_j⟩ := List.getElem?_of_mem member
      rw [List.getElem?_take] at found_j
      split at found_j
      · rename_i before
        exact Nat.find_min exists_missing before ⟨earlier, found_j, same.1 ▸ same.2 ▸ none⟩
      · simp at found_j
  · intro present
    constructor
    case read =>
      intro a k
      rw [Accounts.get_storage_eq, Accounts.get_storage_eq, written.slot]
      cases at_slot : w.accounts.slot a k with
      | some v => rfl
      | none =>
        rw [last_value_eq_none]
        · rfl
        · rintro write member ⟨rfl, rfl⟩
          have there := present write member
          rw [at_slot] at there
          exact Bool.noConfusion there
    case rest => exact written.rest
    case deleted =>
      intro i write found reported
      obtain ⟨status, at_i, deleted⟩ := written.status i write found
      obtain rfl := Option.some.inj (at_i.symm.trans reported)
      have there := present write (List.mem_of_getElem? found)
      rw [deleted.mp rfl] at there
      exact Bool.noConfusion there

end

/-- An account without storage. -/
def bare_world : World (ZMod 65537) where
  accounts := Function.update (fun _ => none) 1 (some {})

/-- A slot of an account that is new is not written, and reported as deleted. -/
theorem storage_is_no_map : ∃ statuses w',
    (VMHost.set_storage_all [⟨1, 0, 5⟩] bare_world).2 = some (statuses, w') ∧
      ¬ StorageIsMap bare_world [⟨1, 0, 5⟩] statuses w' := by
  refine ⟨[.DELETED], bare_world, rfl, ?_⟩
  intro map
  have cleared : (5 : Word) = 0 := (map.deleted 0 ⟨1, 0, 5⟩ rfl rfl).2
  exact absurd cleared (by decide)

end EvmAssigner
