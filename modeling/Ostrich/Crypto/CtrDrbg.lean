import Mathlib.Data.Vector.Zip
import Ostrich.Lib.Bytes

/-!
# CTR_DRBG of SP 800-90A

The reference mechanism for AES-256 without derivation function and without additional input
(section 10.2.1 of the standard), with the request handling of section 9: `V` is an integer of 128
bits that is incremented modulo `2 ^ 128`, and a request for which `reseed_counter` exceeds
`reseed_interval` reseeds first.  The standard leaves `reseed_interval` to the implementation, up to
`2 ^ 48`, so it is a parameter here.
-/

namespace Ostrich.CtrDrbg

/-- The working state. -/
structure State where
  Key : Bytes 32
  V : BitVec 128
  reseedCounter : ℕ
  deriving DecidableEq

/-- The largest `reseed_interval` that the standard allows. -/
def maxReseedInterval : ℕ := 2 ^ 48

/-- The largest request, `2 ^ 19` bits, in bytes. -/
def maxRequest : ℕ := 2 ^ 16

section

variable (blockEncrypt : Bytes 32 → Bytes 16 → Bytes 16)

/-- `Block_Encrypt (Key, V + 1) || … || Block_Encrypt (Key, V + n)`. -/
def outputBlocks (Key : Bytes 32) (V : BitVec 128) (n : ℕ) : Bytes (16 * n) :=
  ⟨(List.range n).flatMap fun i =>
      (blockEncrypt Key (@Bytes.ofBits 16 (V + BitVec.ofNat 128 (i + 1)))).toList, by
    simp [List.length_flatMap, Nat.mul_comm]⟩

/-- `CTR_DRBG_Update`; three blocks are the `seedlen` bits. -/
def update (providedData : Bytes 48) (s : State) : State :=
  let temp := List.Vector.zipWith (· ^^^ ·) (outputBlocks blockEncrypt s.Key s.V 3) providedData
  { s with
    Key := temp.take 32
    V := Bytes.toBits (temp.drop 32) }

/-- Instantiation without personalization string. -/
def instantiate (entropyInput : Bytes 48) : State :=
  { update blockEncrypt entropyInput
      { Key := List.Vector.replicate 32 0, V := 0, reseedCounter := 0 } with reseedCounter := 1 }

def reseed (entropyInput : Bytes 48) (s : State) : State :=
  { update blockEncrypt entropyInput s with reseedCounter := 1 }

/-- Generation of a number of bytes that is in bounds, by a state that need not be reseeded. -/
def generate (numBytes : ℕ) (s : State) : List UInt8 × State :=
  let n := (numBytes + 15) / 16
  let s' := update blockEncrypt (List.Vector.replicate 48 0)
    { s with V := s.V + BitVec.ofNat 128 n }
  ((outputBlocks blockEncrypt s.Key s.V n).toList.take numBytes,
    { s' with reseedCounter := s.reseedCounter + 1 })

/-- The requests; each carries what the entropy source delivers to it, if it delivers. -/
inductive Request where
  | reseed (entropyInput : Option (Bytes 48))
  | generate (numBytes : ℕ) (entropyInput : Option (Bytes 48))

/-- What a request returns, `none` for an error indication, and the state after it. -/
def respond (reseedInterval : ℕ) (s : State) : Request → Option (Option (List UInt8)) × State
  | .reseed none => (none, s)
  | .reseed (some entropyInput) => (some none, reseed blockEncrypt entropyInput s)
  | .generate numBytes entropyInput =>
    if numBytes > maxRequest then (none, s)
    else if s.reseedCounter > reseedInterval then
      match entropyInput with
      | none => (none, s)
      | some entropyInput =>
        let (output, s') := generate blockEncrypt numBytes (reseed blockEncrypt entropyInput s)
        (some (some output), s')
    else
      let (output, s') := generate blockEncrypt numBytes s
      (some (some output), s')

/-- The results of a sequence of requests and the state after it. -/
def run (reseedInterval : ℕ) : State → List Request → List (Option (Option (List UInt8))) × State
  | s, [] => ([], s)
  | s, request :: requests =>
    let (result, s') := respond blockEncrypt reseedInterval s request
    let (results, s'') := run reseedInterval s' requests
    (result :: results, s'')

end

end Ostrich.CtrDrbg
