import EvmAssigner.Accounts
import EvmAssigner.VmRuns
import EvmAssigner.VmStorage

namespace EvmAssigner

/-- A call that `VMHost` goes through with is for an account which is there. -/
def CalleeKnown : Event → Prop
  | .call accounts m => (accounts m.sender).isSome → (accounts m.code_address).isSome
  | .nested e => CalleeKnown e
  | _ => True

/-- Whether all calls so far were for accounts which are there. -/
def callees_known (known : Prop) (e : Event) : Prop := known ∧ CalleeKnown e

theorem foldl_callees_known {es : List Event} {known : Prop} :
    es.foldl callees_known known ↔ known ∧ ∀ e ∈ es, CalleeKnown e := by
  induction es generalizing known with
  | nil => simp
  | cons e es ih => simp only [List.foldl_cons, ih, callees_known, List.forall_mem_cons, and_assoc]

theorem callees_known_aloof : Aloof any_event callees_known := by
  refine .of_local (fun e is_local => ?_) (fun _ => Iff.rfl) (fun _ => Iff.rfl) fun _ _ => rfl
  cases e with
  | storage_entry | set_storage | set_transient_storage | call | accounts | handle_rw | nested =>
    contradiction
  | _ => exact ⟨trivial, fun g => and_true g⟩

/-- All that happens to the accounts is that there are more of them, if a call was for one that was
not there. -/
structure OnlyGrows {F : Type} [Zero F] (accounts : Accounts) (w : World F) (known : Prop) : Prop where
  kept : ∀ a acc, accounts a = some acc → w.accounts a = some acc
  same : w.accounts = accounts ↔ known

section
variable {F : Type} [Zero F] {accounts : Accounts} {w : World F} {known : Prop} {m : Message}

theorem OnlyGrows.pass (grows : OnlyGrows accounts w known) {e : Event} (harmless : CalleeKnown e) :
    OnlyGrows accounts w (callees_known known e) :=
  ⟨grows.kept, grows.same.trans ⟨fun all => ⟨all, harmless⟩, And.left⟩⟩

/-- The calls of a static frame do not send anything. -/
theorem called_static {msg : Message} (sends : Sends msg accounts m) (static : msg.is_static = true) :
    called accounts m = accounts.ensure m.code_address := by
  unfold called
  split
  · rename_i is_call
    rw [(sends.static static).2.1 is_call, Accounts.transfer_zero]
  · rfl

theorem Sends.no_creation {msg : Message} (sends : Sends msg accounts m) (static : msg.is_static = true) :
    ¬ (m.kind = .CREATE ∨ m.kind = .CREATE2) := by
  rcases (sends.static static).2.2 with kind | kind | kind
  · simp [kind]
  · simp [kind]
  · simp [kind]

theorem OnlyGrows.ensure (grows : OnlyGrows accounts w known) (sender : (w.accounts m.sender).isSome) :
    OnlyGrows accounts (w.set_accounts (w.accounts.ensure m.code_address))
      (callees_known known (.call w.accounts m)) := by
  refine ⟨fun a acc there => Accounts.ensure_of_some (grows.kept a acc there), ?_⟩
  rw [World.set_accounts_accounts]
  constructor
  · intro same
    have there : (w.accounts m.code_address).isSome := by
      by_contra missing
      have made : ((w.accounts.ensure m.code_address) m.code_address).isSome := Accounts.ensure_isSome
      rw [same] at made
      obtain ⟨acc, at_start⟩ := Option.isSome_iff_exists.mp made
      exact missing (by rw [grows.kept _ acc at_start]; rfl)
    exact ⟨grows.same.mp ((Accounts.ensure_eq_self.mpr there).symm.trans same), fun _ => there⟩
  · rintro ⟨all, there⟩
    exact (Accounts.ensure_eq_self.mpr (there sender)).trans (grows.same.mpr all)

end

section
variable {F : Type} [Field F] [DecidableEq F] [Ethash]

/-- What a static frame does to the accounts, with everything it calls. -/
theorem only_grows_invariant (accounts : Accounts) :
    EvaluateInvariant any_event callees_known (fun msg => msg.is_static = true)
      (OnlyGrows (F := F) accounts) where
  accounts inv _ := ⟨trivial, inv.pass trivial⟩
  sload _ _ _ _ inv _ := ⟨trivial, inv.pass trivial⟩
  sstore _ _ _ _ static writable := absurd static writable
  tstore _ _ static writable := absurd static writable
  call {_ m w _} of_M sends inv _ := by
    refine ⟨trivial, fun refused => inv.pass fun sender => ?_⟩
    have stranger : w.accounts m.sender = none := by
      unfold Refused at refused
      rcases (sends.static of_M).2.2 with kind | kind | kind
      · rwa [kind] at refused
      · rwa [kind] at refused
      · rwa [kind] at refused
    rw [stranger] at sender
    exact Bool.noConfusion sender
  calls of_M sends inv _ _ sender := by
    refine ⟨(sends.static of_M).1, ?_⟩
    rw [called_static sends of_M]
    exact inv.ensure sender
  creates of_M sends _ _ kind := absurd kind (sends.no_creation of_M)
  created _ of_M sends _ kind := absurd kind (sends.no_creation of_M)
  allocate inv := ⟨inv.kept, inv.same⟩
  handle_bytecode inv := ⟨inv.kept, inv.same⟩
  handle_rw inv _ _ := ⟨trivial, fun _ _ => ⟨inv.kept, (inv.pass (e := .handle_rw []) trivial).same⟩⟩

end

/-- A static call of an account. -/
def probing_code (addr : UInt8) : Bytes := [0x60, 0, 0x60, 0, 0x60, 0, 0x60, 0, 0x60, addr, 0x60, 0, 0xfa]

/-- A static frame of account 1. -/
def static_msg : Message := { flags := STATIC, gas := 100000, recipient := 1, sender := 1 }

end EvmAssigner
