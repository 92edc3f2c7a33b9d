import EvmAssigner.Accounts
import EvmAssigner.VmRuns
import EvmAssigner.VmStorage

namespace EvmAssigner
variable {F : Type}

def Event.storage_entry? : Event → Option rw_operation
  | .storage_entry o => some o
  | .nested e => e.storage_entry?
  | _ => none

/-- The entries on storage of all frames, in the order they are recorded. -/
def storage_trace (es : List Event) : List rw_operation := es.filterMap Event.storage_entry?

/-- The value an entry says it has found. -/
def rw_operation.found (o : rw_operation) : Word := if o.is_write then o.value_prev else o.value

/-- What was written last to a slot, if it was written at all. -/
def last_stored (entries : List rw_operation) (address storage_key : Word) : Option Word :=
  entries.foldl (fun last o =>
    if o.is_write ∧ o.address = address ∧ o.storage_key = storage_key then some o.value else last) none

/-- `P` holds of every entry and those before it. -/
def EachEntry (P : List rw_operation → rw_operation → Prop) (entries : List rw_operation) : Prop :=
  ∀ earlier o later, entries = earlier ++ o :: later → P earlier o

/-- Every entry has found what was written last, or what was there at the start. -/
def StorageChain (accounts : Accounts) : List rw_operation → Prop :=
  EachEntry fun earlier o => o.found = (last_stored earlier o.address o.storage_key).getD
    (accounts.get_storage o.address.to_address o.storage_key)

/-- No entry is on a slot which was not there at the start, and to which something other than zero
was written last. -/
def NoFreshWrite (accounts : Accounts) : List rw_operation → Prop :=
  EachEntry fun earlier o => accounts.slot o.address.to_address o.storage_key = none →
    (last_stored earlier o.address o.storage_key).getD 0 = 0

theorem last_stored_concat {entries : List rw_operation} {o : rw_operation} {a k : Word} :
    last_stored (entries ++ [o]) a k =
      if o.is_write ∧ o.address = a ∧ o.storage_key = k then some o.value else last_stored entries a k := by
  rw [last_stored, List.foldl_append]
  rfl

theorem eachEntry_nil {P : List rw_operation → rw_operation → Prop} : EachEntry P [] := by
  intro earlier o later split
  simp at split

theorem eachEntry_concat {P : List rw_operation → rw_operation → Prop} {entries : List rw_operation}
    {o : rw_operation} : EachEntry P (entries ++ [o]) ↔ EachEntry P entries ∧ P entries o := by
  constructor
  · intro each
    refine ⟨fun earlier x later split => each earlier x (later ++ [o]) (by simp [split]), ?_⟩
    exact each entries o [] rfl
  · rintro ⟨each, last⟩ earlier x later split
    rcases List.eq_nil_or_concat later with rfl | ⟨later, y, rfl⟩
    · obtain ⟨rfl, rfl⟩ := List.append_inj' split rfl |>.imp id (List.cons.inj · |>.1)
      exact last
    · rw [List.concat_eq_append, ← List.cons_append, ← List.append_assoc] at split
      obtain ⟨rfl, _⟩ := List.append_inj' split rfl
      exact each earlier x later rfl

theorem Word.to_address_of_address (a : Address) : (Word.of_address a).to_address = a := by
  unfold Word.of_address Word.to_address
  simp

theorem Word.of_address_inj {a b : Address} : Word.of_address a = Word.of_address b ↔ a = b := by
  constructor
  · intro same
    rw [← Word.to_address_of_address a, same, Word.to_address_of_address]
  · rintro rfl
    rfl

/-- What a slot holds that has been written to by `entries`, provided it was there at the start. -/
def slot_after (accounts : Accounts) (entries : List rw_operation) (a : Address) (k : Word) : Option Word :=
  (accounts.slot a k).map fun v => (last_stored entries (.of_address a) k).getD v

/-- The storage of `VMHost` agrees with the entries recorded so far. -/
structure Chained [Zero F] (accounts : Accounts) (w : World F) (entries : List rw_operation) : Prop where
  slots : ∀ a k, w.accounts.slot a k = slot_after accounts entries a k
  found : EachEntry (fun earlier o => o.address = .of_address o.address.to_address ∧
    o.found = (slot_after accounts earlier o.address.to_address o.storage_key).getD 0) entries

/-- A chain that breaks does so at a slot that was not there at the start. -/
theorem storageChain_iff {accounts : Accounts} {entries : List rw_operation}
    (found : EachEntry (fun earlier o => o.address = .of_address o.address.to_address ∧
      o.found = (slot_after accounts earlier o.address.to_address o.storage_key).getD 0) entries) :
    StorageChain accounts entries ↔ NoFreshWrite accounts entries := by
  refine forall₄_congr fun earlier o later split => ?_
  obtain ⟨address, found⟩ := found earlier o later split
  show o.found = _ ↔ (accounts.slot _ _ = none → _)
  rw [found, slot_after, ← address, Accounts.get_storage_eq]
  cases accounts.slot o.address.to_address o.storage_key with
  | none => simp [eq_comm]
  | some v => simp

/-- The entries of a run are collected. -/
def chain_events (entries : List rw_operation) (e : Event) : List rw_operation :=
  entries ++ e.storage_entry?.toList

theorem foldl_chain_events {es : List Event} {entries : List rw_operation} :
    es.foldl chain_events entries = entries ++ storage_trace es := by
  induction es generalizing entries with
  | nil => simp [storage_trace]
  | cons e es ih =>
    rw [List.foldl_cons, ih, chain_events, storage_trace, storage_trace, List.filterMap_cons,
      List.append_assoc]
    cases e.storage_entry? with
    | none => rfl
    | some o => rfl

theorem chain_events_aloof : Aloof any_event chain_events := by
  refine .of_local (fun e is_local => ?_) (fun _ => Iff.rfl) (fun _ => Iff.rfl) fun _ _ => rfl
  cases e with
  | storage_entry | set_storage | set_transient_storage | call | accounts | handle_rw | nested =>
    contradiction
  | _ => exact ⟨trivial, fun g => List.append_nil g⟩

section
variable [Zero F] {accounts : Accounts} {w : World F} {entries : List rw_operation}

theorem Chained.pass (chained : Chained accounts w entries) {e : Event} (none : e.storage_entry? = none) :
    Chained accounts w (chain_events entries e) := by
  rw [chain_events, none, Option.toList_none, List.append_nil]
  exact chained

theorem Chained.of_slots (chained : Chained accounts w entries) {accounts' : Accounts}
    (same : ∀ a k, accounts'.slot a k = w.accounts.slot a k) :
    Chained accounts (w.set_accounts accounts') entries :=
  ⟨fun a k => (same a k).trans (chained.slots a k), chained.found⟩

/-- An entry that is recorded has found what `VMHost` holds. -/
theorem Chained.entry (chained : Chained accounts w entries) {o : rw_operation} {addr : Address}
    (address : o.address = .of_address addr) (found : o.found = w.accounts.get_storage addr o.storage_key) :
    EachEntry (fun earlier o => o.address = .of_address o.address.to_address ∧
      o.found = (slot_after accounts earlier o.address.to_address o.storage_key).getD 0)
      (entries ++ [o]) := by
  refine eachEntry_concat.mpr ⟨chained.found, ?_⟩
  rw [address, Word.to_address_of_address]
  refine ⟨rfl, ?_⟩
  rw [found, Accounts.get_storage_eq, chained.slots]

theorem Chained.read (chained : Chained accounts w entries) {id rw_id : Nat} {addr : Address} {key : Word} :
    let value := w.accounts.get_storage addr key
    Chained accounts w (chain_events entries
      (.storage_entry (storage_operation id (.of_address addr) key rw_id false value value))) := by
  refine ⟨fun a k => ?_, chained.entry rfl rfl⟩
  rw [chained.slots, slot_after, slot_after, chain_events, Event.storage_entry?, Option.toList_some,
    last_stored_concat]
  rfl

theorem Chained.write (chained : Chained accounts w entries) {id rw_id : Nat} {addr : Address}
    {key value : Word} :
    Chained accounts (w.set_accounts (w.accounts.set_storage addr key value).1) (chain_events
      (chain_events entries (.storage_entry (storage_operation id (.of_address addr) key rw_id true value
        (w.accounts.get_storage addr key)))) (.set_storage w.accounts addr key value)) := by
  refine Chained.pass ?_ rfl
  refine ⟨fun a k => ?_, chained.entry rfl rfl⟩
  rw [chain_events, Event.storage_entry?, Option.toList_some]
  rw [World.set_accounts_accounts, Accounts.set_storage_slot, chained.slots, slot_after, slot_after,
    last_stored_concat]
  by_cases here : a = addr ∧ k = key
  · rw [if_pos here, if_pos ⟨rfl, by rw [here.1]; rfl, here.2.symm⟩, Option.map_map]
    rfl
  · rw [if_neg here, if_neg]
    rintro ⟨_, same, rfl⟩
    exact here ⟨(Word.of_address_inj.mp same).symm, rfl⟩

end

section
variable [Field F] [DecidableEq F] [Ethash]

theorem chained_invariant (accounts : Accounts) :
    EvaluateInvariant any_event chain_events (fun _ => True) (Chained (F := F) accounts) where
  accounts inv _ := ⟨trivial, inv.pass rfl⟩
  sload _ _ _ _ inv _ := ⟨trivial, inv.read⟩
  sstore _ _ _ _ _ _ inv _ := ⟨trivial, fun _ => ⟨trivial, inv.write⟩⟩
  tstore _ _ _ _ inv _ := ⟨trivial, (inv.pass rfl).of_slots fun _ _ => Accounts.adjust_slot fun _ => rfl⟩
  call _ _ inv _ := ⟨trivial, fun _ => inv.pass rfl⟩
  calls _ _ inv _ _ _ := by
    refine ⟨trivial, (inv.pass rfl).of_slots fun a k => ?_⟩
    unfold called
    split
    · rw [Accounts.transfer_slot, Accounts.ensure_slot]
    · exact Accounts.ensure_slot
  creates _ _ inv _ _ _ := ⟨trivial, (inv.pass rfl).of_slots fun _ _ => Accounts.ensure_slot⟩
  created _ _ _ _ _ _ inv := inv.of_slots fun _ _ => Accounts.set_code_slot
  allocate inv := ⟨inv.slots, inv.found⟩
  handle_bytecode inv := ⟨inv.slots, inv.found⟩
  handle_rw inv _ _ := by
    refine ⟨trivial, fun _ _ => Chained.pass ?_ rfl⟩
    exact ⟨inv.slots, inv.found⟩

end

/-- A slot that is new is written, and then read. -/
def fresh_code : Bytes := [0x60, 5, 0x60, 0, 0x55, 0x60, 0, 0x54]

/-- Account 1, with a slot of its own. -/
def slot_world : World (ZMod 65537) where
  accounts := Function.update (fun _ => none) 1
    (some { storage := Function.update (fun _ => none) 0 (some 7) })

/-- A frame of account 1. -/
def storage_msg : Message := { gas := 100000, recipient := 1, sender := 1 }

end EvmAssigner
