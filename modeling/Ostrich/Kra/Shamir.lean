import Ostrich.Lib.Outcome

/-!
# Shamir's secret sharing (`ostrich-kra/src/shamir.rs`)

The (M, N) threshold scheme of the key recovery authority: `split` cuts a secret into
`numShares` shares of which any `threshold` rebuild it, `reconstruct` rebuilds it by Lagrange
interpolation at `0`.  Both work byte by byte over GF(256) with the reduction polynomial
`x^8 + x^4 + x^3 + x + 1`, whose operations (`gfMul`, `gfDiv`, `gfInv` and the `u16` helpers of
the extended Euclidean algorithm) are written by hand.

The random generator is a stream: `draws k` is the byte that the `k`-th call of `fill_bytes`
gives.  A panic (`shares_to_use[0]` on no shares, the division by zero) is `Outcome.panic`.
-/

namespace Ostrich.Kra

/-- The errors of the crate that the modules return. -/
inductive Error where
  | InvalidRequest (msg : String)
  | KeyNotFound (msg : String)
  | RecoveryError (msg : String)
  | InsufficientShares (required provided : ℕ)
  | KeyWrap (msg : String)
  | InvalidShare
  | Database (msg : String)
  deriving DecidableEq, Repr

/-- A share: the x-coordinate (1-indexed) and one y-coordinate for each byte of the secret. -/
structure Share where
  index : UInt8
  value : List UInt8
  deriving DecidableEq, Repr

/-! ### GF(256) -/

/-- GF(256) addition. -/
def gfAdd (a b : UInt8) : UInt8 := a ^^^ b

/-- GF(256) subtraction, the same as addition. -/
def gfSub (a b : UInt8) : UInt8 := a ^^^ b

/-- The rounds of `gfMul`: `rounds` are left to do. -/
def gfMul.go : ℕ → UInt8 → UInt8 → UInt8 → UInt8
  | 0, result, _, _ => result
  | rounds + 1, result, a, b =>
    let result := if b &&& 1 ≠ 0 then result ^^^ a else result
    let highBitSet := a &&& 0x80 ≠ 0
    let a := a <<< 1
    let a := if highBitSet then a ^^^ 0x1B else a
    gfMul.go rounds result a (b >>> 1)

/-- GF(256) multiplication (peasant multiplication, eight rounds). -/
def gfMul (a b : UInt8) : UInt8 := gfMul.go 8 0 a b

/-- `16 - x.leading_zeros()`: the number of bits of `x`. -/
def bits16 (x : UInt16) : ℕ := if x = 0 then 0 else x.toNat.log2 + 1

/-- The rounds of `gfDivU16`; the loop breaks once the remainder is shorter than the divisor. -/
def gfDivU16.go (b : UInt16) (divisorBits : ℕ) : ℕ → UInt16 → UInt16 → UInt16
  | 0, quotient, _ => quotient
  | rounds + 1, quotient, remainder =>
    let remainderBits := bits16 remainder
    if remainderBits < divisorBits then quotient
    else
      let shift := UInt16.ofNat (remainderBits - divisorBits)
      gfDivU16.go b divisorBits rounds (quotient ^^^ ((1 : UInt16) <<< shift))
        (remainder ^^^ (b <<< shift))

/-- Quotient of the polynomial division of `a` by `b`. -/
def gfDivU16 (a b : UInt16) : UInt16 :=
  if b = 0 then 0
  else gfDivU16.go b (bits16 b) (16 - bits16 b + 1) 0 a

/-- The state of the loop of `gfMulU16`. -/
structure MulState where
  result : UInt16
  a : UInt16
  b : UInt16

/-- Carry-less product of `a` and `b`, low 16 bits.  `b` loses its low bit in every round, so 16
rounds are enough. -/
def gfMulU16 (a b : UInt16) : Outcome Error UInt16 := do
  let s ← Outcome.whileLoop (fun s : MulState => s.b ≠ 0)
    (fun s => .ok ⟨if s.b &&& 1 ≠ 0 then s.result ^^^ s.a else s.result, s.a <<< 1, s.b >>> 1⟩)
    16 ⟨0, a, b⟩
  return s.result

/-- The state of the loop of `gfInv`. -/
structure InvState where
  t : UInt16
  newt : UInt16
  r : UInt16
  newr : UInt16

/-- One round of the extended Euclidean algorithm. -/
def gfInv.body (s : InvState) : Outcome Error InvState := do
  let quotient := gfDivU16 s.r s.newr
  let newt := s.t ^^^ (← gfMulU16 quotient s.newt)
  let newr := s.r ^^^ (← gfMulU16 quotient s.newr)
  return ⟨s.newt, newt, s.newr, newr⟩

/-- The multiplicative inverse by the extended Euclidean algorithm.  The degree of `newr` drops
in every round from at most 7, so nine rounds are enough. -/
def gfInv (a : UInt8) : Outcome Error UInt8 :=
  if a = 0 then .ok 0
  else do
    let s ← Outcome.whileLoop (fun s : InvState => s.newr ≠ 0) gfInv.body 9
      ⟨0, 1, 0x11B, a.toUInt16⟩
    return (s.t &&& 0xFF).toUInt8

/-- GF(256) division; dividing by zero panics. -/
def gfDiv (a b : UInt8) : Outcome Error UInt8 :=
  if b = 0 then .panic
  else do
    let i ← gfInv b
    return gfMul a i

/-! ### Polynomials -/

/-- Evaluate the polynomial with these coefficients (constant term first) at `x`. -/
def evaluatePolynomial (coefficients : List UInt8) (x : UInt8) : UInt8 :=
  (coefficients.foldl
    (fun (acc : UInt8 × UInt8) coef => (gfAdd acc.1 (gfMul coef acc.2), gfMul acc.2 x))
    (0, 1)).1

/-- The inner loop of `lagrangeInterpolate`: numerator and denominator of the `i`-th basis
polynomial at `x`. -/
def lagrangeFraction (points : List (UInt8 × UInt8)) (x : UInt8) (i : ℕ) (xi : UInt8) :
    UInt8 × UInt8 :=
  points.zipIdx.foldl
    (fun (acc : UInt8 × UInt8) (p : (UInt8 × UInt8) × ℕ) =>
      if i ≠ p.2 then (gfMul acc.1 (gfSub x p.1.1), gfMul acc.2 (gfSub xi p.1.1)) else acc)
    (1, 1)

/-- Lagrange interpolation: the value at `x` of the polynomial through `points`. -/
def lagrangeInterpolate (points : List (UInt8 × UInt8)) (x : UInt8) : Outcome Error UInt8 :=
  points.zipIdx.foldlM
    (fun (result : UInt8) (p : (UInt8 × UInt8) × ℕ) => do
      let fraction := lagrangeFraction points x p.2 p.1.1
      let lagrangeBasis ← gfDiv fraction.1 fraction.2
      let term := gfMul p.1.2 lagrangeBasis
      return gfAdd result term)
    0

/-! ### Splitting and rebuilding -/

/-- The loop of `split` over the bytes of the secret.  `pos` counts the bytes drawn so far. -/
def split.go (draws : ℕ → UInt8) (threshold : ℕ) : List UInt8 → ℕ → List Share → List Share
  | [], _, shares => shares
  | secretByte :: rest, pos, shares =>
    let coefficients :=
      secretByte :: (List.range (threshold - 1)).map fun j => draws (pos + j)
    split.go draws threshold rest (pos + (threshold - 1))
      (shares.map fun share =>
        { share with value := share.value ++ [evaluatePolynomial coefficients share.index] })

/-- Split a secret into `numShares` shares, of which `threshold` rebuild it. -/
def split (draws : ℕ → UInt8) (secret : List UInt8) (threshold numShares : ℕ) :
    Outcome Error (List Share) :=
  if threshold > numShares then
    .err (.InvalidRequest
      s!"Threshold {threshold} cannot exceed number of shares {numShares}")
  else if threshold = 0 then
    .err (.InvalidRequest "Threshold must be at least 1")
  else if numShares = 0 ∨ numShares > 255 then
    .err (.InvalidRequest s!"Number of shares must be between 1 and 255, got {numShares}")
  else
    let shares := (List.range numShares).map fun i => ⟨UInt8.ofNat (i + 1), []⟩
    .ok (split.go draws threshold secret 0 shares)

/-- `v[i]`, which panics outside the vector. -/
def indexOrPanic {α : Type} (v : List α) (i : ℕ) : Outcome Error α :=
  match v[i]? with
  | some a => .ok a
  | none => .panic

/-- The points at which the shares fix byte `byteIdx` of the secret. -/
def sharePoints (shares : List Share) (byteIdx : ℕ) : Outcome Error (List (UInt8 × UInt8)) :=
  shares.mapM fun share => do
    let y ← indexOrPanic share.value byteIdx
    return (share.index, y)

/-- Rebuild the secret from the first `threshold` of the given shares. -/
def reconstruct (shares : List Share) (threshold : ℕ) : Outcome Error (List UInt8) :=
  if shares.length < threshold then
    .err (.InsufficientShares threshold shares.length)
  else do
    let sharesToUse := shares.take threshold
    let first ← indexOrPanic sharesToUse 0
    let secretLen := first.value.length
    if !sharesToUse.all fun s => s.value.length = secretLen then
      .err .InvalidShare
    else
      (List.range secretLen).mapM fun byteIdx => do
        let points ← sharePoints sharesToUse byteIdx
        lagrangeInterpolate points 0

end Ostrich.Kra
