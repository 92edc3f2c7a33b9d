import Mathlib.Algebra.BigOperators.Group.Finset.Basic
import Mathlib.Algebra.Order.BigOperators.Group.Finset
import Mathlib.Data.Fintype.EquivFin
import EvmAssigner.Accounts
import EvmAssigner.VmRuns

namespace EvmAssigner

noncomputable instance : Fintype Address := Fintype.ofEquiv (Fin (2 ^ 160)) BitVec.equivFin.symm.toEquiv

/-- All balances together, as a natural number. -/
noncomputable def total_balance (accounts : Accounts) : Nat :=
  ∑ addr : Address, (accounts.get_balance addr).toNat

theorem sum_update_exchange {ι : Type} [Fintype ι] [DecidableEq ι] (f : ι → Nat) (i : ι) (v : Nat) :
    ∑ j, Function.update f i v j + f i = ∑ j, f j + v := by
  rw [Finset.sum_update_of_mem (Finset.mem_univ i), ← Finset.sum_erase_add _ _ (Finset.mem_univ i),
    Finset.sdiff_singleton_eq_erase]
  omega

namespace Accounts
variable {accounts : Accounts} {addr a : Address} {acc : Account}

theorem get_balance_update : get_balance (Function.update accounts addr (some acc)) a =
    if a = addr then acc.balance else accounts.get_balance a := by
  unfold get_balance
  by_cases here : a = addr
  · subst here
    simp
  · simp [here]

theorem total_update : total_balance (Function.update accounts addr (some acc)) +
    (accounts.get_balance addr).toNat = total_balance accounts + acc.balance.toNat := by
  have each : (fun a => (get_balance (Function.update accounts addr (some acc)) a).toNat) =
      Function.update (fun a => (accounts.get_balance a).toNat) addr acc.balance.toNat := by
    funext a
    rw [get_balance_update, Function.update_apply]
    split <;> rfl
  unfold total_balance
  rw [each]
  exact sum_update_exchange (fun a => (accounts.get_balance a).toNat) addr acc.balance.toNat

theorem total_congr {accounts' : Accounts} (same : ∀ a, accounts'.get_balance a = accounts.get_balance a) :
    total_balance accounts' = total_balance accounts :=
  Finset.sum_congr rfl fun a _ => by rw [same a]

theorem balance_le_total : (accounts.get_balance addr).toNat ≤ total_balance accounts :=
  Finset.single_le_sum (f := fun a => (accounts.get_balance a).toNat) (fun _ _ => Nat.zero_le _)
    (Finset.mem_univ addr)

theorem get_balance_update_same (same : accounts.get_balance addr = acc.balance) :
    get_balance (Function.update accounts addr (some acc)) a = accounts.get_balance a := by
  rw [get_balance_update]
  split
  · rename_i here
    rw [here, same]
  · rfl

theorem get_balance_of_eq (at_addr : accounts addr = some acc) : accounts.get_balance addr = acc.balance := by
  rw [get_balance, at_addr]

theorem ensure_get_balance : (accounts.ensure addr).get_balance a = accounts.get_balance a := by
  unfold ensure
  cases at_addr : accounts addr with
  | none => exact get_balance_update_same (by rw [get_balance, at_addr])
  | some acc => rfl

theorem total_ensure : total_balance (accounts.ensure addr) = total_balance accounts :=
  total_congr fun _ => ensure_get_balance

theorem adjust_get_balance {f : Account → Account} (same : ∀ acc, (f acc).balance = acc.balance) :
    (accounts.adjust addr f).get_balance a = accounts.get_balance a := by
  unfold adjust
  cases at_addr : accounts addr with
  | none => rfl
  | some acc => exact get_balance_update_same ((get_balance_of_eq at_addr).trans (same acc).symm)

theorem set_storage_get_balance {key value : Word} :
    (accounts.set_storage addr key value).1.get_balance a = accounts.get_balance a := by
  cases present : accounts.slot addr key with
  | none => rw [set_storage_miss present]
  | some prev =>
    obtain ⟨acc, at_addr, at_key⟩ := Option.bind_eq_some_iff.mp present
    rw [set_storage_hit at_addr at_key]
    have balance := get_balance_of_eq at_addr
    exact get_balance_update_same balance

theorem set_transient_storage_get_balance {key value : Word} :
    (accounts.set_transient_storage addr key value).get_balance a = accounts.get_balance a :=
  adjust_get_balance fun _ => rfl

theorem set_code_get_balance {code : Bytes} :
    (accounts.set_code addr code).get_balance a = accounts.get_balance a := by
  have coded : (accounts.set_code addr code).get_balance a = (accounts.ensure addr).get_balance a :=
    adjust_get_balance fun _ => rfl
  exact coded.trans ensure_get_balance

theorem total_set_storage {key value : Word} :
    total_balance (accounts.set_storage addr key value).1 = total_balance accounts :=
  total_congr fun _ => set_storage_get_balance

theorem total_set_transient_storage {key value : Word} :
    total_balance (accounts.set_transient_storage addr key value) = total_balance accounts :=
  total_congr fun _ => set_transient_storage_get_balance

theorem total_set_code {code : Bytes} :
    total_balance (accounts.set_code addr code) = total_balance accounts :=
  total_congr fun _ => set_code_get_balance

variable {sender : Address} {value : Word}

/-- The first assignment of a transfer. -/
def debit (accounts : Accounts) (sender : Address) (value : Word) : Accounts :=
  accounts.adjust sender fun acc => { acc with balance := acc.balance - value }

/-- Neither of the two assignments of a transfer wraps around. -/
structure TransferFits (accounts : Accounts) (sender addr : Address) (value : Word) : Prop where
  no_underflow : value.toNat ≤ (accounts.get_balance sender).toNat
  no_wrap : value.toNat + ((accounts.debit sender value).get_balance addr).toNat < 2 ^ 256

theorem total_debit (known : (accounts sender).isSome) (funded : value ≤ accounts.get_balance sender) :
    total_balance (accounts.debit sender value) + value.toNat = total_balance accounts := by
  obtain ⟨acc, at_sender⟩ := Option.isSome_iff_exists.mp known
  have balance := get_balance_of_eq at_sender
  rw [balance] at funded
  have left : (acc.balance - value).toNat = acc.balance.toNat - value.toNat :=
    BitVec.toNat_sub_of_le funded
  have exchange := @total_update accounts sender { acc with balance := acc.balance - value }
  have covered : value.toNat ≤ acc.balance.toNat := funded
  rw [balance] at exchange
  simp only [left] at exchange
  rw [debit, adjust, at_sender]
  simp only
  omega

theorem total_credit (known : (accounts addr).isSome)
    (fits : value.toNat + (accounts.get_balance addr).toNat < 2 ^ 256) :
    total_balance (accounts.adjust addr fun acc => { acc with balance := value + acc.balance }) =
      total_balance accounts + value.toNat := by
  obtain ⟨acc, at_addr⟩ := Option.isSome_iff_exists.mp known
  have balance := get_balance_of_eq at_addr
  rw [balance] at fits
  have sum : (value + acc.balance).toNat = value.toNat + acc.balance.toNat :=
    BitVec.toNat_add_of_lt fits
  have exchange := @total_update accounts addr { acc with balance := value + acc.balance }
  rw [balance] at exchange
  simp only [sum] at exchange
  rw [adjust, at_addr]
  simp only
  omega

/-- What the sender has covers a transfer, and so the receiver has room for it. -/
theorem transfer_fits (known : (accounts sender).isSome) (funded : value ≤ accounts.get_balance sender)
    (small : total_balance accounts < 2 ^ 256) : TransferFits accounts sender addr value := by
  refine ⟨funded, ?_⟩
  have debited := total_debit known funded
  have share := @balance_le_total (accounts.debit sender value) addr
  omega

theorem total_transfer (known : (accounts sender).isSome) (there : (accounts addr).isSome)
    (funded : value ≤ accounts.get_balance sender) (small : total_balance accounts < 2 ^ 256) :
    total_balance (accounts.transfer sender addr value) = total_balance accounts := by
  have debited := total_debit known funded
  have fits : TransferFits accounts sender addr value := transfer_fits known funded small
  have fits := fits.no_wrap
  have there' : ((accounts.debit sender value) addr).isSome := by
    rw [debit, adjust_isSome]
    exact there
  have credited := total_credit there' fits
  rw [transfer]
  rw [debit] at debited credited
  omega

end Accounts

/-- Wherever `VMHost` can be looked at, its balances sum to `S`, and no transfer wraps around. -/
def BalancesHold (S : Nat) : Event → Prop
  | .accounts accounts => total_balance accounts = S
  | .set_storage accounts _ _ _ | .set_transient_storage accounts _ _ _ => total_balance accounts = S
  | .call accounts m => total_balance accounts = S ∧ (m.kind = .CALL → (accounts m.sender).isSome →
      (accounts.ensure m.code_address).TransferFits m.sender m.code_address m.value)
  | .nested e => BalancesHold S e
  | _ => True

/-- The contract of a run whose balances sum to `S`. -/
def balance_contract (S : Nat) : Action.Contract Event := ⟨fun _ => True, BalancesHold S⟩

theorem balances_aloof {S : Nat} : Aloof (balance_contract S) fun (_ : Unit) _ => () := by
  refine .of_local (fun e is_local => ?_) (fun _ => Iff.rfl) (fun _ => Iff.rfl) fun _ _ => rfl
  cases e with
  | storage_entry | set_storage | set_transient_storage | call | accounts | handle_rw | nested =>
    contradiction
  | _ => exact ⟨trivial, fun _ => rfl⟩

theorem Sends.covered {msg m : Message} {accounts : Accounts} (sends : Sends msg accounts m)
    (is_call : m.kind = .CALL) : m.value ≤ (accounts.ensure m.code_address).get_balance m.sender := by
  rw [Accounts.ensure_get_balance]
  by_cases value : m.value = 0
  · rw [value]
    exact BitVec.le_def.mpr (Nat.zero_le _)
  · exact sends.funded is_call value

theorem total_called {msg m : Message} {accounts : Accounts} (sends : Sends msg accounts m)
    (known : (accounts m.sender).isSome) (small : total_balance accounts < 2 ^ 256) :
    total_balance (called accounts m) = total_balance accounts := by
  unfold called
  split
  · rename_i is_call
    rw [Accounts.total_transfer (Accounts.ensure_mono known) Accounts.ensure_isSome
      (sends.covered is_call), Accounts.total_ensure]
    rwa [Accounts.total_ensure]
  · exact Accounts.total_ensure

section
variable {F : Type} [Field F] [DecidableEq F] [Ethash] [Crypto3]

omit [Crypto3] in
/-- What goes on between the frames and `VMHost` leaves the sum of the balances as it is. -/
theorem balances_invariant {S : Nat} (small : S < 2 ^ 256) :
    EvaluateInvariant (balance_contract S) (fun (_ : Unit) _ => ()) (fun _ => True)
      fun (w : World F) _ => total_balance w.accounts = S where
  accounts inv _ := ⟨inv, inv⟩
  sload _ _ _ _ inv _ := ⟨trivial, inv⟩
  sstore _ _ _ _ _ _ inv _ := ⟨trivial, fun _ => ⟨inv, Accounts.total_set_storage.trans inv⟩⟩
  tstore _ _ _ _ inv _ := ⟨inv, Accounts.total_set_transient_storage.trans inv⟩
  call _ sends inv _ := by
    refine ⟨⟨inv, fun is_call known => ?_⟩, fun _ => inv⟩
    refine Accounts.transfer_fits (Accounts.ensure_mono known) (sends.covered is_call) ?_
    rwa [Accounts.total_ensure, inv]
  calls _ sends inv _ _ known := ⟨trivial, (total_called sends known (inv ▸ small)).trans inv⟩
  creates _ _ inv _ _ _ := ⟨trivial, Accounts.total_ensure.trans inv⟩
  created _ _ _ _ _ _ inv := Accounts.total_set_code.trans inv
  allocate inv := inv
  handle_bytecode inv := inv
  handle_rw inv _ _ := ⟨trivial, fun _ _ => inv⟩

/-- A frame of a world whose balances sum to `S`. -/
abbrev BalanceKept (S : Nat) (msg : Message) (exec : Exec (World F)) : Prop :=
  Kept (fun (w : World F) (_ : Unit) => total_balance w.accounts = S) msg exec ()

theorem balances_turn {S fuel : Nat} {cost_table : Opcode → Int} {msg : Message} {exec : Exec (World F)}
    {code_it stack_top gas : Int} (small : S < 2 ^ 256) (kept : BalanceKept S msg exec) :
    Action.wlp (balance_contract S) (turn (vm_host (evaluate fuel)) cost_table code_it stack_top gas)
      (fun _ => BalanceKept S msg) exec :=
  turn_kept balances_aloof (balances_invariant small).toHostInvariant trivial
    (fun _ _ _ _ _ of_M inv => evaluate_kept balances_aloof (balances_invariant small) of_M inv) kept

/-- Neither a frame nor anything it calls makes or destroys balance, whatever becomes of it: the sum
is the same wherever the accounts are put down, behind every instruction and at the end. -/
theorem balances_conserved (fuel : Nat) (rev : Revision) (msg : Message) (code : Bytes) (w : World F)
    (small : total_balance w.accounts < 2 ^ 256) :
    (∀ e ∈ (evaluate fuel rev msg code).events w, BalancesHold (total_balance w.accounts) e) ∧
      (∀ result w', (evaluate fuel rev msg code w).2 = some (result, w') →
        total_balance w'.accounts = total_balance w.accounts) ∧
      ∀ (cost_table : Opcode → Int) (state : ExecutionState) (es : List Event) (c : Config (World F)),
        Run (vm_host (evaluate fuel)) cost_table (.start state w) es c →
          total_balance c.exec.host.accounts = total_balance w.accounts ∧
            ∀ code_it next exec, (turn (vm_host (evaluate fuel)) cost_table code_it c.stack_top c.gas
              c.exec).2 = some (next, exec) →
                total_balance exec.host.accounts = total_balance w.accounts := by
  have whole : Action.wlp (balance_contract (total_balance w.accounts)) (evaluate fuel rev msg code)
      (fun _ w' => total_balance w'.accounts = total_balance w.accounts) w :=
    evaluate_kept (g := ()) balances_aloof (balances_invariant small) trivial rfl
  refine ⟨?_, ?_, ?_⟩
  · exact (Action.Contract.After.ensures whole fun _ _ => trivial).1
  · intro result w' returns
    exact (whole.returns (fun _ _ => trivial) returns).2
  · intro cost_table state es c run
    have each (c' : Config (World F)) (code_it : Int)
        (inv : BalanceKept (total_balance w.accounts) state.msg c'.exec) :
        Action.wlp (balance_contract (total_balance w.accounts))
          (turn (vm_host (evaluate fuel)) cost_table code_it c'.stack_top c'.gas)
          (fun _ => BalanceKept (total_balance w.accounts) state.msg) c'.exec :=
      balances_turn small inv
    have reached : BalanceKept (total_balance w.accounts) state.msg c.exec :=
      (run.invariant (P := balance_contract (total_balance w.accounts))
        (I := fun c' => BalanceKept (total_balance w.accounts) state.msg c'.exec)
        (fun c' code_it _ inv => (each c' code_it inv).mono fun _ _ kept _ => kept)
        (fun _ _ => trivial) ⟨rfl, rfl⟩).2
    refine ⟨reached.host, fun code_it next exec turned => ?_⟩
    exact ((each c code_it reached).returns (fun _ _ => trivial) turned).2.host

end

/-- Two accounts, the first of which can pay the second. -/
def paying_world : World (ZMod 65537) where
  accounts := Function.update (Function.update (fun _ => none) 2 (some { balance := 2 })) 1
    (some { balance := 5 })

theorem paying_world_total : total_balance paying_world.accounts = 7 := by
  have none : total_balance (fun _ => none) = 0 := Finset.sum_const_zero
  have second := @Accounts.total_update (fun _ => Option.none) 2 { balance := 2 }
  have first := @Accounts.total_update (Function.update (fun _ => Option.none) 2
    (some { balance := 2 })) 1 { balance := 5 }
  have two : ((2 : Word)).toNat = 2 := rfl
  have five : ((5 : Word)).toNat = 5 := rfl
  have at_two : (Accounts.get_balance (fun _ => Option.none) 2).toNat = 0 := rfl
  have at_one : (Accounts.get_balance (Function.update (fun _ => Option.none) 2
    (some { balance := 2 })) 1).toNat = 0 := rfl
  have whole : paying_world.accounts = Function.update (Function.update (fun _ => Option.none) 2
    (some { balance := 2 })) 1 (some { balance := 5 }) := rfl
  simp only [two, five, at_one, at_two, ← whole] at first second
  omega

/-- Account 1 sends 3 to account 2. -/
def paying_code : Bytes :=
  [0x60, 0, 0x60, 0, 0x60, 0, 0x60, 0, 0x60, 3, 0x60, 2, 0x60, 0, 0xf1]

theorem balances_conserved_paying :
    letI := no_hash
    letI : Crypto3 := ⟨fun _ => []⟩
    ∃ result w', (evaluate 20 .SHANGHAI { gas := 100000, recipient := 1 } paying_code paying_world).2 =
      some (result, w') ∧ total_balance w'.accounts = 7 := by
  let _ := no_hash
  let _ : Crypto3 := ⟨fun _ => []⟩
  have small : total_balance paying_world.accounts < 2 ^ 256 := by
    rw [paying_world_total]
    decide
  have ends : (evaluate 20 .SHANGHAI { gas := 100000, recipient := 1 } paying_code
      paying_world).2.isSome := by
    decide +kernel
  obtain ⟨⟨result, w'⟩, returns⟩ := Option.isSome_iff_exists.mp ends
  have held := (balances_conserved 20 .SHANGHAI { gas := 100000, recipient := 1 } paying_code
    paying_world small).2.1 result w' returns
  rw [paying_world_total] at held
  exact ⟨result, w', returns, held⟩

end EvmAssigner
