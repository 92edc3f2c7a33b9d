import EvmAssigner.VmHost

namespace EvmAssigner

/-- The value in a slot, if the slot is there. -/
def Accounts.slot (accounts : Accounts) (addr : Address) (key : Word) : Option Word :=
  (accounts addr).bind fun acc => acc.storage key

namespace Accounts
variable {accounts : Accounts} {addr a : Address} {key k value : Word}

theorem get_storage_eq : accounts.get_storage a k = (accounts.slot a k).getD 0 := by
  unfold get_storage slot
  cases accounts a <;> rfl

/-- A slot that is there is overwritten. -/
theorem set_storage_hit {acc : Account} {prev : Word} (at_addr : accounts addr = some acc)
    (at_key : acc.storage key = some prev) : accounts.set_storage addr key value =
      (Function.update accounts addr (some { acc with storage := Function.update acc.storage key (some value) }),
        if prev = value then .ASSIGNED else .MODIFIED) := by
  simp only [set_storage, at_addr, at_key]

/-- A slot that is not there is not made. -/
theorem set_storage_miss (missing : accounts.slot addr key = none) :
    accounts.set_storage addr key value = (accounts, .DELETED) := by
  unfold slot at missing
  unfold set_storage
  cases at_addr : accounts addr with
  | none => rfl
  | some acc =>
    rw [at_addr, Option.bind_some] at missing
    simp only [missing]

theorem exists_of_slot (present : (accounts.slot addr key).isSome) :
    ∃ acc prev, accounts addr = some acc ∧ acc.storage key = some prev := by
  obtain ⟨prev, found⟩ := Option.isSome_iff_exists.mp present
  obtain ⟨acc, at_addr, at_key⟩ := Option.bind_eq_some_iff.mp found
  exact ⟨acc, prev, at_addr, at_key⟩

theorem set_storage_slot :
    (accounts.set_storage addr key value).1.slot a k =
      if a = addr ∧ k = key then (accounts.slot a k).map fun _ => value else accounts.slot a k := by
  cases present : accounts.slot addr key with
  | none =>
    rw [set_storage_miss present]
    split
    · rename_i same
      rw [same.1, same.2, present]
      rfl
    · rfl
  | some prev =>
    obtain ⟨acc, at_addr, at_key⟩ := Option.bind_eq_some_iff.mp present
    rw [set_storage_hit at_addr at_key]
    unfold slot
    by_cases here : a = addr
    · subst here
      by_cases same : k = key
      · subst same
        simp [at_addr, at_key]
      · simp [at_addr, same]
    · simp [here]

theorem set_storage_slot_isSome :
    ((accounts.set_storage addr key value).1.slot a k).isSome = (accounts.slot a k).isSome := by
  rw [set_storage_slot]
  split
  · rw [Option.isSome_map]
  · rfl

/-- Nothing of an account changes besides its storage. -/
theorem set_storage_rest :
    ((accounts.set_storage addr key value).1 a).map (fun acc => { acc with storage := fun _ => none }) =
      (accounts a).map fun acc => { acc with storage := fun _ => none } := by
  cases present : accounts.slot addr key with
  | none => rw [set_storage_miss present]
  | some prev =>
    obtain ⟨acc, at_addr, at_key⟩ := Option.bind_eq_some_iff.mp present
    rw [set_storage_hit at_addr at_key]
    by_cases here : a = addr
    · subst here
      simp [at_addr]
    · simp [here]

theorem set_storage_status_ne (present : (accounts.slot addr key).isSome) :
    (accounts.set_storage addr key value).2 ≠ .DELETED := by
  obtain ⟨acc, prev, at_addr, at_key⟩ := exists_of_slot present
  rw [set_storage_hit at_addr at_key]
  show (if prev = value then StorageStatus.ASSIGNED else .MODIFIED) ≠ .DELETED
  split <;> decide

theorem ensure_isSome : ((accounts.ensure addr) addr).isSome := by
  unfold ensure
  cases at_addr : accounts addr with
  | none => simp
  | some acc => simp [at_addr]

theorem ensure_mono (known : (accounts a).isSome) : ((accounts.ensure addr) a).isSome := by
  by_cases here : a = addr
  · rw [here]
    exact ensure_isSome
  · unfold ensure
    cases accounts addr with
    | none => simpa [here] using known
    | some acc => exact known

theorem adjust_isSome {f : Account → Account} :
    ((accounts.adjust addr f) a).isSome = (accounts a).isSome := by
  unfold adjust
  cases at_addr : accounts addr with
  | none => rfl
  | some acc =>
    by_cases here : a = addr
    · simp [here, at_addr]
    · simp [here]

theorem ensure_of_some {acc : Account} (there : accounts a = some acc) :
    (accounts.ensure addr) a = some acc := by
  unfold ensure
  cases at_addr : accounts addr with
  | none =>
    have apart : a ≠ addr := by
      rintro rfl
      rw [there] at at_addr
      contradiction
    simpa [apart] using there
  | some _ => exact there

theorem ensure_eq_self : accounts.ensure addr = accounts ↔ (accounts addr).isSome := by
  constructor
  · intro same
    have there : ((accounts.ensure addr) addr).isSome := ensure_isSome
    rwa [same] at there
  · intro known
    obtain ⟨acc, at_addr⟩ := Option.isSome_iff_exists.mp known
    simp only [ensure, at_addr]

theorem adjust_eq_self {f : Account → Account} (same : ∀ acc, accounts addr = some acc → f acc = acc) :
    accounts.adjust addr f = accounts := by
  unfold adjust
  cases at_addr : accounts addr with
  | none => rfl
  | some acc =>
    simp only
    rw [same acc at_addr, ← at_addr, Function.update_eq_self]

theorem transfer_zero {sender : Address} : accounts.transfer sender addr 0 = accounts := by
  have debited : accounts.adjust sender (fun acc => { acc with balance := acc.balance - 0 }) = accounts :=
    adjust_eq_self fun acc _ => by simp
  rw [transfer, debited]
  exact adjust_eq_self fun acc _ => by simp

theorem transfer_self {value : Word} : accounts.transfer a a value = accounts := by
  unfold transfer adjust
  cases at_a : accounts a with
  | none => simp only [at_a]
  | some acc =>
    simp only [Function.update_self, Function.update_idem]
    rw [show value + (acc.balance - value) = acc.balance by rw [BitVec.add_comm, BitVec.sub_add_cancel],
      ← at_a, Function.update_eq_self]

theorem set_storage_eq_self : (accounts.set_storage addr key value).1 = accounts ↔
    ∀ prev, accounts.slot addr key = some prev → prev = value := by
  constructor
  · intro same prev present
    have written := @set_storage_slot accounts addr addr key key value
    rw [same, present] at written
    simpa using written
  · intro same
    cases present : accounts.slot addr key with
    | none => rw [set_storage_miss present]
    | some prev =>
      obtain ⟨acc, at_addr, at_key⟩ := Option.bind_eq_some_iff.mp present
      rw [set_storage_hit at_addr at_key, ← same prev present, ← at_key, Function.update_eq_self,
        ← at_addr, Function.update_eq_self]

theorem set_transient_storage_eq_self : accounts.set_transient_storage addr key value = accounts ↔
    ∀ acc, accounts addr = some acc → acc.transient_storage key = some value := by
  constructor
  · intro same acc at_addr
    have written := congrFun same addr
    simp only [set_transient_storage, adjust, at_addr, Function.update_self, Option.some.injEq] at written
    rw [← written]
    simp
  · intro same
    refine adjust_eq_self fun acc at_addr => ?_
    rw [← same acc at_addr, Function.update_eq_self]

theorem ensure_slot : (accounts.ensure addr).slot a k = accounts.slot a k := by
  unfold ensure slot
  cases at_addr : accounts addr with
  | none =>
    by_cases here : a = addr
    · simp [here, at_addr]
    · simp [here]
  | some acc => rfl

theorem adjust_slot {f : Account → Account} (same : ∀ acc, (f acc).storage = acc.storage) :
    (accounts.adjust addr f).slot a k = accounts.slot a k := by
  unfold adjust slot
  cases at_addr : accounts addr with
  | none => rfl
  | some acc =>
    by_cases here : a = addr
    · simp [here, at_addr, same]
    · simp [here]

theorem transfer_slot {sender : Address} : (accounts.transfer sender addr value).slot a k = accounts.slot a k := by
  unfold transfer
  refine (adjust_slot ?_).trans (adjust_slot ?_)
  · exact fun _ => rfl
  · exact fun _ => rfl

theorem set_code_slot {code : Bytes} : (accounts.set_code addr code).slot a k = accounts.slot a k := by
  unfold set_code
  refine (adjust_slot ?_).trans ensure_slot
  exact fun _ => rfl

end Accounts
end EvmAssigner
