import Ostrich.Lib.Text

/-!
# UUIDs

A UUID is 128 bits; its text is the lower case hyphenated form (8-4-4-4-12 hexadecimal digits).
`toString_injective`: the text determines the UUID; `asBytes_injective`: so do its 16 octets.
-/

namespace Ostrich

open Text

/-- A universally unique identifier. -/
structure Uuid where
  bits : BitVec 128
  deriving DecidableEq, Repr

namespace Uuid

/-- The UUID of zeros. -/
def nil : Uuid := ⟨0⟩

/-- The 32 hexadecimal digits. -/
def digits (u : Uuid) : List Char := hexFixed 32 u.bits.toNat

/-- The hyphenated form. -/
def toChars (u : Uuid) : List Char :=
  u.digits.take 8 ++ '-' :: (u.digits.drop 8).take 4 ++ '-' :: (u.digits.drop 12).take 4
    ++ '-' :: (u.digits.drop 16).take 4 ++ '-' :: u.digits.drop 20

/-- The text of a UUID. -/
def toString (u : Uuid) : String := String.ofList u.toChars

theorem toList_toString (u : Uuid) : u.toString.toList = u.toChars := String.toList_ofList

theorem length_toString (u : Uuid) : u.toString.length = 36 := by
  rw [← String.length_toList, toList_toString, toChars, digits]
  simp

/-- Without its hyphens the text is the digits. -/
theorem filter_toChars (u : Uuid) : u.toChars.filter (· ≠ '-') = u.digits := by
  have hkeep (l : List Char) (h : ∀ c ∈ l, c ∈ u.digits) : l.filter (· ≠ '-') = l := by
    rw [List.filter_eq_self]
    intro c hc
    simpa using ne_of_mem_hexFixed (by decide) _ _ c (h c hc)
  have htake : (u.digits.drop 8).take 4 ++ ((u.digits.drop 12).take 4
      ++ ((u.digits.drop 16).take 4 ++ u.digits.drop 20)) = u.digits.drop 8 := by
    rw [show u.digits.drop 20 = (u.digits.drop 16).drop 4 by rw [List.drop_drop],
      List.take_append_drop, show u.digits.drop 16 = (u.digits.drop 12).drop 4 by
        rw [List.drop_drop],
      List.take_append_drop, show u.digits.drop 12 = (u.digits.drop 8).drop 4 by
        rw [List.drop_drop],
      List.take_append_drop]
  calc u.toChars.filter (· ≠ '-')
      = u.digits.take 8 ++ ((u.digits.drop 8).take 4 ++ ((u.digits.drop 12).take 4
        ++ ((u.digits.drop 16).take 4 ++ u.digits.drop 20))) := by
        simp only [toChars, List.append_assoc, List.cons_append, List.filter_append,
          List.filter_cons]
        rw [hkeep _ fun c hc => List.mem_of_mem_take hc,
          hkeep _ fun c hc => List.mem_of_mem_drop (List.mem_of_mem_take hc),
          hkeep _ fun c hc => List.mem_of_mem_drop (List.mem_of_mem_take hc),
          hkeep _ fun c hc => List.mem_of_mem_drop (List.mem_of_mem_take hc),
          hkeep _ fun c hc => List.mem_of_mem_drop hc]
        simp
    _ = u.digits := by rw [htake, List.take_append_drop]

theorem toString_injective : Function.Injective toString := by
  intro u v h
  have hchars : u.toChars = v.toChars := by rw [← toList_toString, h, toList_toString]
  have hdigits : u.digits = v.digits := by rw [← filter_toChars, hchars, filter_toChars]
  have hbits := hexFixed_injective 32 (Nat.lt_of_lt_of_le u.bits.isLt (by decide))
    (Nat.lt_of_lt_of_le v.bits.isLt (by decide)) hdigits
  cases u
  cases v
  exact congrArg Uuid.mk (BitVec.eq_of_toNat_eq hbits)

-- the unifier must not compute the digits of an unknown UUID
attribute [irreducible] toString

/-! ### Octets -/

/-- The last `k` octets of `n`, most significant first. -/
def bytesFixed : ℕ → ℕ → List UInt8
  | 0, _ => []
  | k + 1, n => bytesFixed k (n / 256) ++ [UInt8.ofNat n]

theorem length_bytesFixed : ∀ k n, (bytesFixed k n).length = k
  | 0, _ => rfl
  | k + 1, n => by rw [bytesFixed, List.length_append, length_bytesFixed k]; rfl

/-- `bytesFixed k` tells the numbers below `256 ^ k` apart. -/
theorem bytesFixed_injective : ∀ (k : ℕ) {a b : ℕ}, a < 256 ^ k → b < 256 ^ k →
    bytesFixed k a = bytesFixed k b → a = b := by
  intro k
  induction k with
  | zero => intro a b ha hb _; omega
  | succ k ih =>
    intro a b ha hb h
    rw [bytesFixed, bytesFixed] at h
    obtain ⟨hinit, hlast⟩ := List.append_inj' h rfl
    have hbyte : a % 2 ^ 8 = b % 2 ^ 8 := by
      have hnat := congrArg UInt8.toNat (List.singleton_inj.mp hlast)
      rwa [UInt8.toNat_ofNat', UInt8.toNat_ofNat'] at hnat
    have hquot : a / 256 = b / 256 := ih (by omega) (by omega) hinit
    omega

/-- The 16 octets of a UUID. -/
def asBytes (u : Uuid) : List UInt8 := bytesFixed 16 u.bits.toNat

theorem asBytes_injective {u v : Uuid} (h : u.asBytes = v.asBytes) : u = v := by
  have hbits : u.bits.toNat = v.bits.toNat :=
    bytesFixed_injective 16 u.bits.isLt v.bits.isLt h
  cases u
  cases v
  exact congrArg Uuid.mk (BitVec.eq_of_toNat_eq hbits)

end Uuid

end Ostrich
