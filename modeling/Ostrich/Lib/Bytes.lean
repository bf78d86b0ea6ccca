import Mathlib.Data.Vector.Basic
import Ostrich.Lib.Der

/-!
# Byte strings of a fixed length

`Bytes n` is a string of `n` bytes.  `ofNat n x` are the `n` big-endian bytes of `x`, modulo
`256 ^ n`; `toBits` and `ofBits` identify the strings of `n` bytes with the numbers of `8 * n` bits.
-/

namespace Ostrich

/-- Strings of `n` bytes. -/
abbrev Bytes (n : ℕ) : Type := List.Vector UInt8 n

namespace Bytes

theorem toList_replicate (n : ℕ) (b : UInt8) :
    (List.Vector.replicate n b).toList = List.replicate n b := rfl

theorem ofBytes_concat (l : List UInt8) (b : UInt8) :
    Der.ofBytes (l ++ [b]) = Der.ofBytes l * 256 + b.toNat := by
  unfold Der.ofBytes
  rw [List.foldl_append]
  rfl

/-- The `n` lowest bytes of a number, most significant first. -/
def bigEndian : ℕ → ℕ → List UInt8
  | 0, _ => []
  | n + 1, x => bigEndian n (x / 256) ++ [UInt8.ofNat x]

@[simp]
theorem length_bigEndian : ∀ n x, (bigEndian n x).length = n
  | 0, _ => rfl
  | n + 1, x => by rw [bigEndian, List.length_append, length_bigEndian n, List.length_singleton]

theorem ofBytes_bigEndian (n : ℕ) : ∀ x, Der.ofBytes (bigEndian n x) = x % 256 ^ n := by
  induction n with
  | zero =>
    intro x
    rw [Nat.pow_zero, Nat.mod_one]
    rfl
  | succ n ih =>
    intro x
    have hbyte : (UInt8.ofNat x).toNat = x % 256 := UInt8.toNat_ofNat'
    have hpow : x % 256 ^ (n + 1) = x % 256 + 256 * (x / 256 % 256 ^ n) := by
      rw [Nat.pow_succ', Nat.mod_mul]
    rw [bigEndian, ofBytes_concat, ih, hbyte, hpow]
    omega

/-- The `n` bytes of a number of `8 * n` bits. -/
def ofBits {n : ℕ} (x : BitVec (8 * n)) : Bytes n :=
  ⟨bigEndian n x.toNat, length_bigEndian n _⟩

/-- The number of `8 * n` bits that `n` bytes write down, most significant first. -/
def toBits {n : ℕ} (bytes : Bytes n) : BitVec (8 * n) :=
  BitVec.ofNat _ (Der.ofBytes bytes.toList)

theorem toNat_toBits {n : ℕ} (bytes : Bytes n) :
    bytes.toBits.toNat = Der.ofBytes bytes.toList := by
  have hlt := Der.ofBytes_lt bytes.toList
  rw [bytes.toList_length] at hlt
  rw [toBits, BitVec.toNat_ofNat, Nat.pow_mul]
  exact Nat.mod_eq_of_lt hlt

theorem toBits_injective {n : ℕ} {a b : Bytes n} (h : a.toBits = b.toBits) : a = b := by
  have hnat := congrArg BitVec.toNat h
  rw [toNat_toBits, toNat_toBits] at hnat
  apply List.Vector.eq
  exact Der.ofBytes_inj_of_length (by rw [a.toList_length, b.toList_length]) hnat

@[simp]
theorem toBits_ofBits {n : ℕ} (x : BitVec (8 * n)) : (ofBits x).toBits = x := by
  apply BitVec.eq_of_toNat_eq
  rw [toNat_toBits]
  show Der.ofBytes (bigEndian n x.toNat) = x.toNat
  rw [ofBytes_bigEndian]
  apply Nat.mod_eq_of_lt
  have hlt := x.isLt
  rwa [Nat.pow_mul] at hlt

@[simp]
theorem ofBits_toBits {n : ℕ} (bytes : Bytes n) : ofBits bytes.toBits = bytes :=
  toBits_injective (toBits_ofBits _)

end Bytes

end Ostrich
