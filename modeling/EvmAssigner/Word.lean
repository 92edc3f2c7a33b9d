import Mathlib.Data.BitVec
import Mathlib.Data.Nat.Cast.Basic
import Mathlib.Tactic.Common

namespace EvmAssigner

/-- `zkevm_word`: a 256-bit word kept as four 64-bit limbs, least significant first. -/
abbrev Word := BitVec 256
abbrev Address := BitVec 160
abbrev Bytes := List UInt8

/-- `ethash::keccak256`, which the repository links to. -/
class Ethash where
  keccak256 : Bytes → BitVec 256

/-- The value a two's complement machine keeps when an `int64_t` operation overflows. -/
def int64 (x : Int) : Int := Int.bmod x (2 ^ 64)

/-- Conversion to `uint16_t`. -/
def uint16 (x : Int) : Nat := (x % 2 ^ 16).toNat

/-- Conversion to `int`. -/
def int32 (x : Nat) : Int := Int.bmod x (2 ^ 32)

/-- The bytes of `data` as one big-endian number. -/
def be_load (data : Bytes) : Nat := data.foldl (fun n b => n * 256 + b.toNat) 0

/-- The `n` lowest bytes of a number, most significant first. -/
def be_store (n x : Nat) : Bytes := (List.range n).map fun i => UInt8.ofNat (x / 256 ^ (n - 1 - i))

namespace Word

/-- `value[i]`. -/
def limb (x : Word) (i : Nat) : BitVec 64 := x.extractLsb' (64 * i) 64

def to_uint64 (x : Word) (i : Nat := 0) : Nat := (x.limb i).toNat

theorem to_uint64_limb (x : Word) (i : Nat) : x.to_uint64 i = x.toNat / 2 ^ (64 * i) % 2 ^ 64 := by
  simp [to_uint64, limb, Nat.shiftRight_eq_div_pow]

theorem to_uint64_eq (x : Word) : x.to_uint64 = x.toNat % 2 ^ 64 := by
  simp [to_uint64_limb]

theorem to_uint64_low {x : Word} (low : x.toNat < 2 ^ 64) : x.to_uint64 = x.toNat := by
  rw [to_uint64_eq, Nat.mod_eq_of_lt low]

/-- `set_val`: overwrites limb `i`. -/
def set_val (x : Word) (v : BitVec 64) (i : Nat) : Word :=
  (x &&& ~~~((BitVec.allOnes 64).setWidth 256 <<< (64 * i))) ||| (v.setWidth 256 <<< (64 * i))

/-- `zkevm_word(data, len)`: the bytes, left padded with zeros to 32. -/
def of_bytes (data : Bytes) : Word :=
  BitVec.ofNat 256 (be_load (List.replicate (32 - data.length) 0 ++ data))

/-- `zkevm_word(addr)`. -/
def of_address (a : Address) : Word := a.setWidth 256

def to_address (x : Word) : Address := x.setWidth 160

/-- `zkevm_word` of a C++ integer that may be negative. -/
def of_int (v : Int) : Word := BitVec.ofInt 256 v

def of_bool (b : Bool) : Word := if b then 1 else 0

def sdiv (x y : Word) : Word := if y ≠ 0 then BitVec.sdiv x y else 0
def smod (x y : Word) : Word := if y ≠ 0 then BitVec.srem x y else 0

def addmod (x y m : Word) : Word :=
  if m ≠ 0 then BitVec.ofNat 256 ((x.toNat + y.toNat) % m.toNat) else 0

def mulmod (x y m : Word) : Word :=
  if m ≠ 0 then BitVec.ofNat 256 (x.toNat * y.toNat % m.toNat) else 0

/-- `intx::exp`, by squaring. -/
def exp (x e : Word) : Word := go 256 x e.toNat 1
where
  go : Nat → Word → Nat → Word → Word
    | 0, _, _, result => result
    | n + 1, base, e, result =>
      if e = 0 then result
      else go n (base * base) (e / 2) (if e % 2 = 1 then result * base else result)

def count_significant_bytes (x : Word) : Nat := if x = 0 then 0 else Nat.log2 x.toNat / 8 + 1

/-- `value << v`, zero from 256 on. -/
def shl (x : Word) (v : Nat) : Word := if v < 256 then x <<< v else 0

def shr (x : Word) (v : Nat) : Word := if v < 256 then x >>> v else 0

/-- `store<T>` for a `T` of `width` bytes: the low bytes of the word, most significant first. -/
def store (width : Nat) (x : Word) : Bytes := be_store width x.toNat

/-- `load_partial_data`: limb `i` from the first `len` bytes of `data`. Three bytes are read as
four, five to seven as eight, and the surplus is shifted out. -/
def load_partial_data (x : Word) (data : Nat → UInt8) (len i : Nat) : Word :=
  let load (n : Nat) : Nat := be_load ((List.range n).map data)
  match len with
  | 1 => x.set_val (BitVec.ofNat 64 (load 1)) i
  | 2 => x.set_val (BitVec.ofNat 64 (load 2)) i
  | 3 => x.set_val (BitVec.ofNat 64 (load 4 >>> 8)) i
  | 4 => x.set_val (BitVec.ofNat 64 (load 4)) i
  | 5 | 6 | 7 | 8 => x.set_val (BitVec.ofNat 64 (load 8 >>> (8 * (8 - len)))) i
  | _ => x

section Field
variable {F : Type} [NatCast F]

/-- `to_field_as_address`: the three lowest limbs. -/
def to_field_as_address (x : Word) : F :=
  ((x.to_uint64 0 + (x.to_uint64 1 <<< 64) + (x.to_uint64 2 <<< 128) : Nat) : F)

def w_hi (x : Word) : F := (((x.to_uint64 3 <<< 64) + x.to_uint64 2 : Nat) : F)
def w_lo (x : Word) : F := (((x.to_uint64 1 <<< 64) + x.to_uint64 0 : Nat) : F)

end Field
end Word

end EvmAssigner
