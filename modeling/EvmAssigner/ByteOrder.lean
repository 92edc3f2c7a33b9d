import EvmAssigner.Lib.Chunks
import EvmAssigner.Word

namespace EvmAssigner

theorem be_load_chunks (data : Bytes) : be_load data = ofBeChunks 8 (data.map UInt8.toNat) := by
  rw [be_load, ofBeChunks, List.foldl_map]
  rfl

theorem be_store_chunks (n x : Nat) : be_store n x = (beChunks 8 n x).map UInt8.ofNat := by
  refine List.ext_getElem (by simp [be_store]) fun i within _ => ?_
  have byte (y : Nat) : UInt8.ofNat (y % 2 ^ 8) = UInt8.ofNat y := by
    apply UInt8.toNat.inj
    simp
  simp only [be_store, List.getElem_map, List.getElem_range, beChunks_getElem, byte]
  rw [pow_mul, show 2 ^ 8 = 256 from rfl]

theorem bytes_small (data : Bytes) : ∀ c ∈ data.map UInt8.toNat, c < 2 ^ 8 := by
  intro c member
  obtain ⟨b, _, rfl⟩ := List.mem_map.mp member
  exact b.toNat_lt

theorem be_load_append (front back : Bytes) :
    be_load (front ++ back) = be_load front * 256 ^ back.length + be_load back := by
  rw [be_load_chunks, be_load_chunks, be_load_chunks, List.map_append, ofBeChunks_append_append, List.length_map,
    pow_mul]
  rfl

theorem be_load_lt (data : Bytes) : be_load data < 256 ^ data.length := by
  have small := ofBeChunks_lt (bytes_small data)
  rw [List.length_map, pow_mul, ← be_load_chunks] at small
  exact small

/-- The bytes of the number that bytes are read as. -/
theorem be_store_load (data : Bytes) : be_store data.length (be_load data) = data := by
  have whole := beChunks_ofBeChunks (bytes_small data)
  rw [List.length_map] at whole
  rw [be_load_chunks, be_store_chunks, whole, List.map_map]
  simp [Function.comp_def]

/-- The number that is read from the bytes it is written to, as far as they hold it. -/
theorem be_load_store (n x : Nat) : be_load (be_store n x) = x % 256 ^ n := by
  have low := beChunks_mod 8 n n x le_rfl
  have whole : ofBeChunks 8 (beChunks 8 n (x % 2 ^ (8 * n))) = x % 2 ^ (8 * n) :=
    ofBeChunks_beChunks (Nat.mod_lt x (Nat.two_pow_pos _))
  have back : ((beChunks 8 n x).map UInt8.ofNat).map UInt8.toNat = beChunks 8 n x := by
    rw [List.map_map]
    refine (List.map_congr_left fun c member => ?_).trans (List.map_id _)
    have small : c < 2 ^ 8 := beChunks_mem_lt member
    exact UInt8.toNat_ofNat_of_lt small
  rw [be_load_chunks, be_store_chunks, back, ← low, whole, pow_mul]
  rfl

@[simp] theorem be_store_length (n x : Nat) : (be_store n x).length = n := by
  simp [be_store]

theorem be_store_getD {n x i : Nat} (within : i < n) :
    (be_store n x).getD i 0 = UInt8.ofNat (x / 256 ^ (n - 1 - i)) := by
  rw [be_store, List.getD_eq_getElem?_getD, List.getElem?_map, List.getElem?_range within]
  rfl

theorem be_load_zeros (n : Nat) : be_load (List.replicate n 0) = 0 := by
  induction n with
  | zero => rfl
  | succ n ih => rw [List.replicate_succ', be_load_append, ih]; rfl

/-- Only zeros are read as zero. -/
theorem be_load_eq_zero {data : Bytes} : be_load data = 0 ↔ data = List.replicate data.length 0 := by
  constructor
  · intro zero
    have zeros := be_store_load (List.replicate data.length 0)
    rw [List.length_replicate, be_load_zeros, ← zero, be_store_load] at zeros
    exact zeros
  · intro zeros
    rw [zeros, be_load_zeros]

theorem Word.of_bytes_toNat {data : Bytes} (short : data.length ≤ 32) :
    (Word.of_bytes data).toNat = be_load data := by
  have small := be_load_lt data
  have wide : 256 ^ data.length ≤ 256 ^ 32 := Nat.pow_le_pow_right (by omega) short
  rw [Word.of_bytes, be_load_append, be_load_zeros, BitVec.toNat_ofNat, Nat.zero_mul, Nat.zero_add,
    Nat.mod_eq_of_lt (by omega)]

/-- Words of the same bytes are the same. -/
theorem be_store_word {x y : Word} : be_store 32 x.toNat = be_store 32 y.toNat ↔ x = y := by
  constructor
  · intro same
    have wide (z : Word) : z.toNat < 256 ^ 32 := z.isLt
    have loads := congrArg be_load same
    rw [be_load_store, be_load_store, Nat.mod_eq_of_lt (wide x), Nat.mod_eq_of_lt (wide y)] at loads
    exact BitVec.eq_of_toNat_eq loads
  · exact congrArg fun z : Word => be_store 32 z.toNat

end EvmAssigner
