import EvmAssigner.Accounts
import EvmAssigner.VmRuns

namespace EvmAssigner
variable {F : Type}

section
variable [Ethash]

/-- A message that changes nothing by itself: it is turned down, or it is for an account that is
there and is not paid by another. -/
def Message.Harmless (accounts : Accounts) (m : Message) : Prop :=
  match m.kind with
  | .CALL => (accounts m.sender).isSome →
      (accounts m.code_address).isSome ∧ (m.value = 0 ∨ m.sender = m.code_address)
  | .CALLCODE | .DELEGATECALL => (accounts m.sender).isSome → (accounts m.code_address).isSome
  | .CREATE | .CREATE2 => (accounts (calculate_address m)).isSome
  | .other => True

/-- An operation of `VMHost` that does not change its accounts. -/
def Harmless : Event → Prop
  | .set_storage accounts addr key value => ∀ prev ∈ accounts.slot addr key, prev = value
  | .set_transient_storage accounts addr key value =>
    ∀ acc ∈ accounts addr, acc.transient_storage key = some value
  | .call accounts m => m.Harmless accounts
  | .nested e => Harmless e
  | _ => True

instance (accounts : Accounts) (m : Message) : Decidable (m.Harmless accounts) :=
  match kind : m.kind with
  | .CALL => decidable_of_iff ((accounts m.sender).isSome →
      (accounts m.code_address).isSome ∧ (m.value = 0 ∨ m.sender = m.code_address))
      (by rw [Message.Harmless, kind])
  | .CALLCODE | .DELEGATECALL =>
    decidable_of_iff ((accounts m.sender).isSome → (accounts m.code_address).isSome)
      (by rw [Message.Harmless, kind])
  | .CREATE | .CREATE2 =>
    decidable_of_iff ((accounts (calculate_address m)).isSome) (by rw [Message.Harmless, kind])
  | .other => isTrue (by rw [Message.Harmless, kind]; trivial)

def Harmless.dec : (e : Event) → Decidable (Harmless e)
  | .set_storage accounts addr key value =>
    inferInstanceAs (Decidable (∀ prev ∈ accounts.slot addr key, prev = value))
  | .set_transient_storage accounts addr key value =>
    inferInstanceAs (Decidable (∀ acc ∈ accounts addr, acc.transient_storage key = some value))
  | .call accounts m => inferInstanceAs (Decidable (m.Harmless accounts))
  | .nested e => Harmless.dec e
  | .assertion_failed _ | .stack_access _ | .memory_access _ _ _ | .code_access _ _ | .vector_access _ _
  | .step _ _ _ _ | .memory_entry _ _ | .storage_entry _ | .light_failure _ | .host_call _ _ _
  | .host_output _ _ _ | .accounts _ | .handle_rw _ => isTrue trivial

instance : DecidablePred Harmless := Harmless.dec

def harmless_run : Action.Contract Event := ⟨Harmless, fun _ => True⟩

theorem harmless_aloof : Aloof harmless_run fun (_ : Unit) _ => () := by
  refine .of_local (fun e is_local => ?_) (fun _ => Iff.rfl) (fun _ => Iff.rfl) fun _ _ => rfl
  cases e with
  | storage_entry | set_storage | set_transient_storage | call | accounts | handle_rw | nested =>
    contradiction
  | _ => exact ⟨trivial, fun _ => rfl⟩

theorem Message.Harmless.called {accounts : Accounts} {m : Message} (harmless : m.Harmless accounts)
    (kind : m.kind = .CALL ∨ m.kind = .CALLCODE ∨ m.kind = .DELEGATECALL)
    (known : (accounts m.sender).isSome) : called accounts m = accounts := by
  unfold Message.Harmless at harmless
  unfold EvmAssigner.called
  rcases kind with kind | kind | kind
  · rw [kind] at harmless
    obtain ⟨there, free⟩ := harmless known
    rw [if_pos kind, Accounts.ensure_eq_self.mpr there]
    rcases free with free | same
    · rw [free, Accounts.transfer_zero]
    · rw [same, Accounts.transfer_self]
  · rw [kind] at harmless
    rw [if_neg (by simp [kind]), Accounts.ensure_eq_self.mpr (harmless known)]
  · rw [kind] at harmless
    rw [if_neg (by simp [kind]), Accounts.ensure_eq_self.mpr (harmless known)]

theorem Message.Harmless.taken {accounts : Accounts} {m : Message} (harmless : m.Harmless accounts)
    (kind : m.kind = .CREATE ∨ m.kind = .CREATE2) : accounts (calculate_address m) ≠ none := by
  unfold Message.Harmless at harmless
  rcases kind with kind | kind
  · rw [kind] at harmless
    exact Option.isSome_iff_ne_none.mp harmless
  · rw [kind] at harmless
    exact Option.isSome_iff_ne_none.mp harmless

end

section
variable [Field F] [DecidableEq F] [Ethash]

theorem untouched_invariant (accounts : Accounts) :
    EvaluateInvariant harmless_run (fun (_ : Unit) _ => ()) (fun _ => True)
      fun (w : World F) _ => w.accounts = accounts where
  accounts inv _ := ⟨trivial, inv⟩
  sload _ _ _ _ inv _ := ⟨trivial, inv⟩
  sstore _ _ _ _ _ _ inv _ :=
    ⟨trivial, fun harmless => ⟨trivial, (Accounts.set_storage_eq_self.mpr harmless).trans inv⟩⟩
  tstore _ _ _ _ inv harmless :=
    ⟨trivial, (Accounts.set_transient_storage_eq_self.mpr harmless).trans inv⟩
  call _ _ inv _ := ⟨trivial, fun _ => inv⟩
  calls _ _ inv harmless kind known :=
    ⟨trivial, (Message.Harmless.called harmless kind known).trans inv⟩
  creates _ _ _ harmless kind fresh := absurd fresh (Message.Harmless.taken harmless kind)
  created _ _ _ harmless kind fresh := absurd fresh (Message.Harmless.taken harmless kind)
  allocate inv := inv
  handle_bytecode inv := inv
  handle_rw inv _ _ := ⟨trivial, fun _ _ => inv⟩

/-- A failed call leaves the accounts as they were, if no operation within it changes them: what an
operation has changed stays as it is. -/
theorem failed_call_atomic [Crypto3] (fuel : Nat) (m : Message) (w w' : World F) (result : Result)
    (returns : (VMHost.call (evaluate fuel) m w).2 = some (result, w'))
    (harmless : ∀ e ∈ (VMHost.call (evaluate fuel) m).events w, Harmless e) :
    result.status_code ≠ .SUCCESS → w'.accounts = w.accounts := by
  intro _
  have invariant := untouched_invariant (F := F) w.accounts
  have whole : Action.track harmless_run (fun (_ : Unit) _ => ()) (VMHost.call (evaluate fuel) m)
      (fun _ w' _ => w'.accounts = w.accounts) w () := by
    refine invariant.track_vm_call ?_ ?_ ?_ ?_ ?_
    · exact fun _ _ _ _ _ of_M inv => evaluate_kept harmless_aloof invariant of_M inv
    · exact fun _ => ⟨trivial, fun _ => rfl⟩
    · exact fun harmless kind known => ⟨trivial, Message.Harmless.called harmless kind known⟩
    · exact fun harmless kind fresh => absurd fresh (Message.Harmless.taken harmless kind)
    · exact fun harmless kind fresh => absurd fresh (Message.Harmless.taken harmless kind)
  exact (Action.wlp.returns whole harmless returns).2

end

/-- The code of account 2 fails at once. -/
def failing_world : World (ZMod 65537) where
  accounts := Function.update (Function.update (fun _ => none) 2 (some { balance := 2, code := [0xfe] })) 1
    (some { balance := 5 })

/-- Account 1 calls account 2. -/
def failing_call (value : Word) : Message :=
  { gas := 1000, recipient := 2, sender := 1, value := value, code_address := 2 }

theorem failing_call_harmless :
    letI := no_hash
    letI : Crypto3 := ⟨fun _ => []⟩
    ∀ e ∈ (VMHost.call (evaluate 20) (failing_call 0)).events failing_world, Harmless e := by
  decide +kernel

theorem failed_call_atomic_free :
    letI := no_hash
    letI : Crypto3 := ⟨fun _ => []⟩
    ∃ result w', (VMHost.call (evaluate 20) (failing_call 0) failing_world).2 = some (result, w') ∧
      result.status_code = .INVALID_INSTRUCTION ∧
        (result.status_code ≠ .SUCCESS → w'.accounts = failing_world.accounts) := by
  let _ := no_hash
  let _ : Crypto3 := ⟨fun _ => []⟩
  have ends : (VMHost.call (evaluate 20) (failing_call 0) failing_world).2.map
      (fun r => r.1.status_code) = some .INVALID_INSTRUCTION := by
    decide +kernel
  obtain ⟨⟨result, w'⟩, returns, failed⟩ := Option.map_eq_some_iff.mp ends
  exact ⟨result, w', returns, failed,
    failed_call_atomic 20 (failing_call 0) failing_world w' result returns failing_call_harmless⟩

/-- A call that fails is paid nevertheless. -/
theorem failed_call_not_atomic :
    letI := no_hash
    letI : Crypto3 := ⟨fun _ => []⟩
    ∃ result w', (VMHost.call (evaluate 20) (failing_call 3) failing_world).2 = some (result, w') ∧
      result.status_code ≠ .SUCCESS ∧ w'.accounts ≠ failing_world.accounts := by
  let _ := no_hash
  let _ : Crypto3 := ⟨fun _ => []⟩
  have ends : (VMHost.call (evaluate 20) (failing_call 3) failing_world).2.map
      (fun r => (r.1.status_code, r.2.accounts.get_balance 2)) = some (.INVALID_INSTRUCTION, 5) := by
    decide +kernel
  obtain ⟨⟨result, w'⟩, returns, left⟩ := Option.map_eq_some_iff.mp ends
  obtain ⟨failed, paid⟩ := Prod.mk.inj left
  refine ⟨result, w', returns, ?_, fun same => ?_⟩
  · rw [failed]
    decide
  · rw [same] at paid
    exact absurd paid (by decide)

end EvmAssigner
