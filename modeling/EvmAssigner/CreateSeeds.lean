import Mathlib.Data.Nat.ModEq
import EvmAssigner.ByteOrder
import EvmAssigner.Runs
import EvmAssigner.VmHost

namespace EvmAssigner
section
variable [Ethash] {m m' : Message}

/-- The messages are to be given the same address. -/
def SameCreation (m m' : Message) : Prop :=
  m.sender = m'.sender ∧ m.create2_salt = m'.create2_salt ∧
    Ethash.keccak256 m.input_data = Ethash.keccak256 m'.input_data

/-- The salt, the hash of the code and the sender, added up as numbers. -/
def Message.creation_sum (m : Message) : Nat :=
  m.create2_salt.toNat + (Ethash.keccak256 m.input_data).toNat + m.sender.toNat

/-- The last hash is fed the bytes of the sum, so nothing else of the inputs is left in them. -/
theorem address_seed_iff : address_seed m = address_seed m' ↔ m.creation_sum ≡ m'.creation_sum [MOD 2 ^ 256] := by
  have sender (a : Address) : (Word.of_address a).toNat = a.toNat := by
    rw [Word.of_address, BitVec.toNat_setWidth, Nat.mod_eq_of_lt (lt_trans a.isLt (by norm_num))]
  have constant : (0xff : Word).toNat = 255 := rfl
  rw [address_seed, address_seed, List.reverse_inj, be_store_word, ← BitVec.toNat_inj]
  simp only [BitVec.toNat_add, sender, constant]
  unfold Message.creation_sum Nat.ModEq
  omega

/-- Whatever the sender and the salt are, a change of the one is made good by a change of the other. -/
theorem address_seed_shared (m : Message) : ∃ m' : Message, m'.kind = m.kind ∧ m'.input_data = m.input_data ∧
    m.sender ≠ m'.sender ∧ address_seed m = address_seed m' := by
  obtain ⟨sender, other⟩ : ∃ sender : Address, m.sender ≠ sender := ⟨m.sender + 1, by simp⟩
  let m' : Message := { m with
    sender := sender, create2_salt := m.create2_salt + BitVec.ofNat 256 (2 ^ 160 - sender.toNat + m.sender.toNat)
      - BitVec.twoPow 256 160 }
  refine ⟨m', rfl, rfl, other, address_seed_iff.mpr ?_⟩
  have small := sender.isLt
  have small' := m.sender.isLt
  have power : (BitVec.twoPow 256 160).toNat = 2 ^ 160 := by decide
  unfold Message.creation_sum Nat.ModEq
  simp only [m', BitVec.toNat_sub, BitVec.toNat_add, BitVec.toNat_ofNat, power]
  omega

/-- The seeds of two creations are told apart just where the sums of their inputs are, and each creation shares
its seed with one of the same code by another sender. -/
theorem create2_seeds_iff (m : Message) :
    (∀ m' : Message, (address_seed m = address_seed m' → SameCreation m m') ↔
      ¬ m.creation_sum ≡ m'.creation_sum [MOD 2 ^ 256] ∨ SameCreation m m') ∧
    ∃ m' : Message, m'.kind = m.kind ∧ m'.input_data = m.input_data ∧ m.sender ≠ m'.sender ∧
      address_seed m = address_seed m' ∧ ¬ SameCreation m m' := by
  constructor
  · intro m'
    rw [address_seed_iff]
    exact imp_iff_not_or
  · obtain ⟨m', kind, code, other, shared⟩ := address_seed_shared m
    exact ⟨m', kind, code, other, shared, fun same => other same.1⟩

end

/-- A creation by `sender` with no code. -/
abbrev creation (sender : Address) (salt : Word) : Message :=
  { kind := .CREATE2, sender := sender, create2_salt := salt }

/-- Sender 1 with salt 2 shares its seed with sender 2 and salt 1. -/
theorem create2_seed_shared : ¬ (@address_seed no_hash (creation 1 2) = @address_seed no_hash (creation 2 1) →
    @SameCreation no_hash (creation 1 2) (creation 2 1)) := by
  intro separate
  exact absurd (separate (by decide)).1 (by decide)

end EvmAssigner
