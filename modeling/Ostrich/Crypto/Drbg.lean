import Mathlib.Data.Fintype.Basic
import Mathlib.Logic.Function.Basic
import Ostrich.Lib.Bytes

/-!
# The random bit generator (`ostrich-crypto/src/drbg.rs`)

CTR_DRBG with AES-256.  The block cipher is a parameter `aes` and every draw from the operating
system's entropy source (`getrandom::fill`) is an argument: the bytes it delivers, or the text of
its error.  A call that fails keeps what it has already written to the state.
-/

namespace Ostrich.Crypto

/-- Maximum number of requests between reseeds. -/
def RESEED_INTERVAL : UInt64 := 281474976710656

/-- Seed length in bytes. -/
abbrev SEED_LENGTH : ℕ := 48

abbrev KEY_LENGTH : ℕ := 32

/-- Length of `V` in bytes. -/
abbrev COUNTER_LENGTH : ℕ := 16

def MAX_BYTES_PER_REQUEST : ℕ := 65536

def REPETITION_COUNT_CUTOFF : ℕ := 5

def ADAPTIVE_PROPORTION_WINDOW : ℕ := 512

def ADAPTIVE_PROPORTION_CUTOFF : ℕ := 290

/-- The errors of `ostrich_crypto::Error` that the generator returns. -/
inductive DrbgError where
  | Entropy (message : String)
  | InvalidInput (message : String)
  | HealthTestFailure (message : String)
  deriving DecidableEq, Repr

structure DrbgState where
  key : Bytes KEY_LENGTH
  v : Bytes COUNTER_LENGTH
  /-- Number of generate requests since the last seeding, plus one. -/
  reseedCounter : UInt64
  lastBlock : Option (Bytes 16)
  repetitionCount : ℕ
  proportionWindow : List UInt8
  proportionCounts : Fin 256 → ℕ

/-- AES-256 on one block. -/
abbrev Aes : Type := Bytes KEY_LENGTH → Bytes COUNTER_LENGTH → Bytes 16

/-- What `getrandom::fill` answers for a buffer of `n` bytes. -/
abbrev Draw (n : ℕ) : Type := Except String (Bytes n)

/-! ### The counter -/

/-- The loop of `increment_counter` over the bytes, the last one first. -/
def incrementBytes : List UInt8 → List UInt8
  | [] => []
  | byte :: bytes =>
    let byte := byte + 1
    if byte ≠ 0 then byte :: bytes else byte :: incrementBytes bytes

theorem length_incrementBytes (bytes : List UInt8) :
    (incrementBytes bytes).length = bytes.length := by
  induction bytes with
  | nil => rfl
  | cons byte bytes ih =>
    unfold incrementBytes
    by_cases h : byte + 1 = 0
    · simp [h, ih]
    · simp [h]

def incrementCounter {n : ℕ} (v : Bytes n) : Bytes n :=
  ⟨(incrementBytes v.toList.reverse).reverse, by
    rw [List.length_reverse, length_incrementBytes, List.length_reverse, v.toList_length]⟩

/-! ### CTR_DRBG_Update -/

/-- The `while` loop of `update`: the blocks, and the counter after them. -/
def fillSeed (aes : Aes) (key : Bytes KEY_LENGTH) (temp : List UInt8) (v : Bytes COUNTER_LENGTH) :
    List UInt8 × Bytes COUNTER_LENGTH :=
  if temp.length < SEED_LENGTH then
    let v := incrementCounter v
    fillSeed aes key (temp ++ (aes key v).toList) v
  else (temp, v)
termination_by SEED_LENGTH - temp.length
decreasing_by
  rw [List.length_append, List.Vector.toList_length]
  omega

/-- Round `i` of the loop that XORs the provided data into the block string. -/
def xorByte (providedData temp : List UInt8) (i : ℕ) : List UInt8 :=
  match providedData[i]? with
  | some byte => temp.modify i (· ^^^ byte)
  | none => temp

def xorData (temp providedData : List UInt8) : List UInt8 :=
  (List.range SEED_LENGTH).foldl (xorByte providedData) temp

theorem length_fillSeed (aes : Aes) (key : Bytes KEY_LENGTH) (temp : List UInt8)
    (v : Bytes COUNTER_LENGTH) : SEED_LENGTH ≤ (fillSeed aes key temp v).1.length := by
  fun_induction fillSeed aes key temp v with
  | case1 temp v h v' ih => exact ih
  | case2 temp v h => exact Nat.le_of_not_lt h

theorem length_xorData (temp providedData : List UInt8) :
    (xorData temp providedData).length = temp.length := by
  unfold xorData
  induction List.range SEED_LENGTH generalizing temp with
  | nil => rfl
  | cons i is ih =>
    rw [List.foldl_cons, ih]
    unfold xorByte
    cases providedData[i]? with
    | none => rfl
    | some byte => exact List.length_modify ..

/-- The string of `seedlen` bytes from which `update` takes the new key and the new counter. -/
def updateSeed (aes : Aes) (state : DrbgState) (providedData : List UInt8) : Bytes SEED_LENGTH :=
  ⟨xorData ((fillSeed aes state.key [] state.v).1.take SEED_LENGTH) providedData, by
    rw [length_xorData, List.length_take]
    exact Nat.min_eq_left (length_fillSeed ..)⟩

def update (aes : Aes) (state : DrbgState) (providedData : List UInt8) : DrbgState :=
  let temp := updateSeed aes state providedData
  { state with
    key := temp.take KEY_LENGTH
    v := temp.drop KEY_LENGTH }

/-! ### Instantiation and reseeding -/

/-- The zeroed state of `DrbgState::new`. -/
def DrbgState.new : DrbgState where
  key := List.Vector.replicate _ 0
  v := List.Vector.replicate _ 0
  reseedCounter := 0
  lastBlock := none
  repetitionCount := 0
  proportionWindow := []
  proportionCounts := fun _ => 0

def instantiateAlgorithm (aes : Aes) (state : DrbgState)
    (entropy nonce personalization : List UInt8) : DrbgState :=
  let seedMaterial := entropy ++ nonce ++ personalization
  -- the seed material is cut to the seed length, or followed by the zeros of the buffer
  let toCopy := min seedMaterial.length SEED_LENGTH
  let derivedSeed := seedMaterial.take toCopy ++ List.replicate (SEED_LENGTH - toCopy) 0
  let state := { state with key := List.Vector.replicate _ 0, v := List.Vector.replicate _ 0 }
  { update aes state derivedSeed with reseedCounter := 1 }

def withPersonalization (aes : Aes) (personalization : List UInt8) (entropy : Draw SEED_LENGTH)
    (nonce : Draw 16) : Except DrbgError DrbgState :=
  if personalization.length > 256 then
    .error (.InvalidInput "Personalization string too long (max 256 bytes)")
  else
    match entropy with
    | .error e => .error (.Entropy s!"Failed to obtain entropy: {e}")
    | .ok entropy =>
      match nonce with
      | .error e => .error (.Entropy s!"Failed to obtain nonce: {e}")
      | .ok nonce =>
        .ok (instantiateAlgorithm aes .new entropy.toList nonce.toList personalization)

def reseed (aes : Aes) (entropy : Draw SEED_LENGTH) (state : DrbgState) :
    Except DrbgError Unit × DrbgState :=
  match entropy with
  | .error e => (.error (.Entropy s!"Reseed failed: {e}"), state)
  | .ok entropy => (.ok (), { update aes state entropy.toList with reseedCounter := 1 })

/-! ### Health tests -/

def repetitionCountTest (state : DrbgState) (block : Bytes 16) :
    Except DrbgError Unit × DrbgState :=
  match state.lastBlock with
  | some last =>
    if last = block then
      let state := { state with repetitionCount := state.repetitionCount + 1 }
      if state.repetitionCount ≥ REPETITION_COUNT_CUTOFF then
        (.error (.HealthTestFailure "Repetition count test failed - possible stuck-at fault"),
          state)
      else (.ok (), { state with lastBlock := some block })
    else (.ok (), { state with repetitionCount := 1, lastBlock := some block })
  | none => (.ok (), { state with lastBlock := some block })

def adaptiveProportionTest (state : DrbgState) (block : Bytes 16) :
    Except DrbgError Unit × DrbgState :=
  let sample := block.head
  let counts := state.proportionCounts
  let state := { state with
    proportionWindow := state.proportionWindow ++ [sample]
    proportionCounts := Function.update counts sample.toFin (counts sample.toFin + 1) }
  if state.proportionWindow.length ≥ ADAPTIVE_PROPORTION_WINDOW then
    if ∃ i, state.proportionCounts i ≥ ADAPTIVE_PROPORTION_CUTOFF then
      (.error (.HealthTestFailure "Adaptive proportion test failed - biased output detected"),
        state)
    else
      match state.proportionWindow with
      | oldest :: window =>
        let counts := state.proportionCounts
        (.ok (), { state with
          proportionCounts := Function.update counts oldest.toFin (counts oldest.toFin - 1)
          proportionWindow := window })
      | [] => (.ok (), state)
  else (.ok (), state)

/-- The health tests on one whole block. -/
def healthTest (state : DrbgState) (block : Bytes 16) : Except DrbgError Unit × DrbgState :=
  match repetitionCountTest state block with
  | (.error e, state) => (.error e, state)
  | (.ok (), state) => adaptiveProportionTest state block

/-- The health tests run over the output in blocks of 16 bytes and skip a partial block. -/
def continuousHealthTests (state : DrbgState) (output : List UInt8) :
    Except DrbgError Unit × DrbgState :=
  if h : (output.take 16).length = 16 then
    match healthTest state ⟨output.take 16, h⟩ with
    | (.error e, state) => (.error e, state)
    | (.ok (), state) => continuousHealthTests state (output.drop 16)
  else (.ok (), state)
termination_by output.length
decreasing_by
  rw [List.length_take] at h
  rw [List.length_drop]
  omega

/-! ### Generation -/

/-- The loop of `generate_algorithm`: the blocks, and the counter after them. -/
def generateBlocks (aes : Aes) (key : Bytes KEY_LENGTH) :
    ℕ → List UInt8 → Bytes COUNTER_LENGTH → List UInt8 × Bytes COUNTER_LENGTH
  | 0, temp, v => (temp, v)
  | n + 1, temp, v =>
    let v := incrementCounter v
    generateBlocks aes key n (temp ++ (aes key v).toList) v

/-- `num_bytes.div_ceil(16)`. -/
def blocksNeeded (numBytes : ℕ) : ℕ := (numBytes + 15) / 16

def generateAlgorithm (aes : Aes) (state : DrbgState) (numBytes : ℕ) : List UInt8 × DrbgState :=
  let (temp, v) := generateBlocks aes state.key (blocksNeeded numBytes) [] state.v
  (temp.take numBytes, { state with v })

/-- The part of `generate` after the reseed check. -/
def generateSeeded (aes : Aes) (numBytes : ℕ) (state : DrbgState) :
    Except DrbgError (List UInt8) × DrbgState :=
  let (output, state) := generateAlgorithm aes state numBytes
  match continuousHealthTests state output with
  | (.error e, state) => (.error e, state)
  | (.ok (), state) =>
    let state := update aes state (List.replicate SEED_LENGTH 0)
    (.ok output, { state with reseedCounter := state.reseedCounter + 1 })

/-- `generate`; `entropy` is what the entropy source delivers if the call has to reseed. -/
def generate (aes : Aes) (numBytes : ℕ) (entropy : Draw SEED_LENGTH) (state : DrbgState) :
    Except DrbgError (List UInt8) × DrbgState :=
  if numBytes > MAX_BYTES_PER_REQUEST then
    (.error (.InvalidInput
      s!"Request too large: {numBytes} bytes (max {MAX_BYTES_PER_REQUEST})"), state)
  else if state.reseedCounter ≥ RESEED_INTERVAL then
    match reseed aes entropy state with
    | (.error e, state) => (.error e, state)
    | (.ok (), state) => generateSeeded aes numBytes state
  else generateSeeded aes numBytes state

/-! ### Runs -/

/-- The calls on an instance, each with what the entropy source delivers to it. -/
inductive DrbgCall where
  | reseed (entropy : Draw SEED_LENGTH)
  | generate (numBytes : ℕ) (entropy : Draw SEED_LENGTH)

/-- What a call returns: the bytes of a generate call, nothing for a reseed. -/
def DrbgCall.exec (aes : Aes) (state : DrbgState) :
    DrbgCall → Except DrbgError (Option (List UInt8)) × DrbgState
  | .reseed entropy =>
    let (result, state) := Crypto.reseed aes entropy state
    (result.map fun _ => none, state)
  | .generate numBytes entropy =>
    let (result, state) := Crypto.generate aes numBytes entropy state
    (result.map some, state)

/-- The results of a sequence of calls and the state after it. -/
def DrbgState.run (aes : Aes) :
    DrbgState → List DrbgCall → List (Except DrbgError (Option (List UInt8))) × DrbgState
  | state, [] => ([], state)
  | state, call :: calls =>
    let (result, state) := call.exec aes state
    let (results, state) := state.run aes calls
    (result :: results, state)

end Ostrich.Crypto
