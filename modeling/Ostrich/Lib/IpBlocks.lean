import Ostrich.Lib.Net

/-!
# Classes of IP addresses

The predicates of the standard library, and the blocks of the special-purpose address registries of
the Internet Assigned Numbers Authority that are not globally reachable.  A more specific block
that is globally reachable is an exception (`reachableV4`, `reachableV6`).

`embedded` is the IPv4 address in an IPv6 address: IPv4-mapped, IPv4-compatible, of the translation
prefix `64:ff9b::/96`, and 6to4.
-/

namespace Ostrich.Net

/-! ### Predicates -/

namespace Ipv4Addr

variable (a : Ipv4Addr)

/-- Octet `i`. -/
def octet (i : Fin 4) : ℕ := (a.octets i).toNat

def isUnspecified : Bool := a.octet 0 = 0 && a.octet 1 = 0 && a.octet 2 = 0 && a.octet 3 = 0

def isLoopback : Bool := a.octet 0 = 127

def isPrivate : Bool :=
  a.octet 0 = 10 || (a.octet 0 = 172 && 16 ≤ a.octet 1 && a.octet 1 ≤ 31)
    || (a.octet 0 = 192 && a.octet 1 = 168)

def isLinkLocal : Bool := a.octet 0 = 169 && a.octet 1 = 254

def isBroadcast : Bool :=
  a.octet 0 = 255 && a.octet 1 = 255 && a.octet 2 = 255 && a.octet 3 = 255

def isDocumentation : Bool :=
  (a.octet 0 = 192 && a.octet 1 = 0 && a.octet 2 = 2)
    || (a.octet 0 = 198 && a.octet 1 = 51 && a.octet 2 = 100)
    || (a.octet 0 = 203 && a.octet 1 = 0 && a.octet 2 = 113)

def isMulticast : Bool := 224 ≤ a.octet 0 && a.octet 0 ≤ 239

/-- The address as a number. -/
def toNat : ℕ := ((a.octet 0 * 256 + a.octet 1) * 256 + a.octet 2) * 256 + a.octet 3

theorem octet_lt (i : Fin 4) : a.octet i < 256 := (a.octets i).toNat_lt

end Ipv4Addr

namespace Ipv6Addr

variable (a : Ipv6Addr)

/-- Segment `i`. -/
def segment (i : Fin 8) : ℕ := (a.segments i).toNat

def isUnspecified : Bool := ∀ i, a.segments i = 0

def isLoopback : Bool := (∀ i : Fin 7, a.segments (i.castLE (by decide)) = 0) ∧ a.segments 7 = 1

def isMulticast : Bool := a.segments 0 &&& 0xff00 = 0xff00

/-- The address as a number. -/
def toNat : ℕ :=
  ((((((a.segment 0 * 65536 + a.segment 1) * 65536 + a.segment 2) * 65536 + a.segment 3) * 65536
    + a.segment 4) * 65536 + a.segment 5) * 65536 + a.segment 6) * 65536 + a.segment 7

theorem segment_lt (i : Fin 8) : a.segment i < 65536 := (a.segments i).toNat_lt

end Ipv6Addr

/-- The address of two segments. -/
def ipv4OfSegments (hi lo : UInt16) : Ipv4Addr :=
  ⟨![UInt8.ofNat (hi.toNat / 256), UInt8.ofNat hi.toNat, UInt8.ofNat (lo.toNat / 256),
    UInt8.ofNat lo.toNat]⟩

/-! ### Blocks -/

/-- The addresses that agree with `base` but for the last `free` bits. -/
structure Block where
  base : ℕ
  free : ℕ

def Block.contains (b : Block) (n : ℕ) : Bool := n / 2 ^ b.free = b.base / 2 ^ b.free

theorem Block.contains_iff {b : Block} {n : ℕ} :
    b.contains n = true ↔ n / 2 ^ b.free = b.base / 2 ^ b.free := decide_eq_true_iff

/-- The block `a.b.c.d/len`. -/
def v4Block (a b c d len : ℕ) : Block := ⟨((a * 256 + b) * 256 + c) * 256 + d, 32 - len⟩

/-- The block of a prefix, given by its first four segments, and its length. -/
def v6Block (a b c d len : ℕ) : Block :=
  ⟨(((a * 65536 + b) * 65536 + c) * 65536 + d) * 2 ^ 64, 128 - len⟩

/-- IPv4 blocks that are not globally reachable. -/
def notGlobalV4 : List Block :=
  [v4Block 0 0 0 0 8, v4Block 10 0 0 0 8, v4Block 100 64 0 0 10, v4Block 127 0 0 0 8,
    v4Block 169 254 0 0 16, v4Block 172 16 0 0 12, v4Block 192 0 0 0 24, v4Block 192 0 2 0 24,
    v4Block 192 88 99 2 32, v4Block 192 168 0 0 16, v4Block 198 18 0 0 15, v4Block 198 51 100 0 24,
    v4Block 203 0 113 0 24, v4Block 240 0 0 0 4, v4Block 255 255 255 255 32]

/-- Their exceptions. -/
def globalV4 : List Block := [v4Block 192 0 0 9 32, v4Block 192 0 0 10 32]

/-- IPv6 blocks that are not globally reachable; the IPv4-mapped addresses are left to their IPv4
address. -/
def notGlobalV6 : List Block :=
  [⟨0, 0⟩, ⟨1, 0⟩, v6Block 0x64 0xff9b 1 0 48, v6Block 0x100 0 0 0 64, v6Block 0x100 0 0 1 64,
    v6Block 0x2001 0 0 0 23, v6Block 0x2001 2 0 0 48, v6Block 0x2001 0xdb8 0 0 32,
    v6Block 0x3fff 0 0 0 20, v6Block 0x5f00 0 0 0 16, v6Block 0xfc00 0 0 0 7,
    v6Block 0xfe80 0 0 0 10]

/-- Their exceptions, all in `2001::/23`. -/
def globalV6 : List Block :=
  [⟨0x20010001000000000000000000000001, 0⟩, ⟨0x20010001000000000000000000000002, 0⟩,
    ⟨0x20010001000000000000000000000003, 0⟩, v6Block 0x2001 3 0 0 32, v6Block 0x2001 4 0x112 0 48,
    v6Block 0x2001 0x20 0 0 28, v6Block 0x2001 0x30 0 0 28]

def reachableV4 (a : Ipv4Addr) : Bool :=
  !notGlobalV4.any (·.contains a.toNat) || globalV4.any (·.contains a.toNat)

def reachableV6 (a : Ipv6Addr) : Bool :=
  !notGlobalV6.any (·.contains a.toNat) || globalV6.any (·.contains a.toNat)

/-- The IPv4 address in an IPv6 address. -/
def embedded (a : Ipv6Addr) : Option Ipv4Addr :=
  let front : List ℕ :=
    [a.segment 0, a.segment 1, a.segment 2, a.segment 3, a.segment 4, a.segment 5]
  if front = [0, 0, 0, 0, 0, 0xffff] ∨ front = [0, 0, 0, 0, 0, 0] ∨
      front = [0x64, 0xff9b, 0, 0, 0, 0] then
    some (ipv4OfSegments (a.segments 6) (a.segments 7))
  else if a.segment 0 = 0x2002 then some (ipv4OfSegments (a.segments 1) (a.segments 2))
  else none

/-! ### Masks -/

/-- A mask of the high bits. -/
theorem and_high_bits {x n k : ℕ} (hx : x < 2 ^ (n + k)) :
    x &&& ((2 ^ n - 1) * 2 ^ k) = x / 2 ^ k * 2 ^ k := by
  refine Nat.eq_of_testBit_eq fun i => ?_
  rw [Nat.testBit_and, Nat.testBit_mul_two_pow, Nat.testBit_mul_two_pow, Nat.testBit_div_two_pow,
    Nat.testBit_two_pow_sub_one]
  by_cases hk : k ≤ i
  · rw [show i - k + k = i by omega]
    by_cases hn : i - k < n
    · simp [hk, hn]
    · have hhigh : x.testBit i = false := by
        refine Nat.testBit_lt_two_pow (lt_of_lt_of_le hx ?_)
        exact Nat.pow_le_pow_right (by decide) (by omega)
      simp [hhigh]
  · simp [hk]

/-- A test of the high bits of a segment. -/
theorem and_segment {x : UInt16} {n k : ℕ} (hnk : n + k = 16) {mask value : UInt16}
    (hmask : mask.toNat = (2 ^ n - 1) * 2 ^ k) :
    x &&& mask = value ↔ x.toNat / 2 ^ k * 2 ^ k = value.toNat := by
  have hx : x.toNat < 2 ^ (n + k) := by
    rw [hnk]
    exact x.toNat_lt
  rw [← UInt16.toNat_inj, UInt16.toNat_and, hmask, and_high_bits hx]

end Ostrich.Net
