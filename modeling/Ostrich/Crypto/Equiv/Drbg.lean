import Mathlib.Data.Nat.ModEq
import Ostrich.Crypto.CtrDrbg
import Ostrich.Crypto.Drbg

/-!
# The generator refines CTR_DRBG

`DrbgState.reference` forgets the health tests and reads the counter as an integer.  Every
operation of the generator is the operation of the reference under it (`reference_update`,
`reference_reseed`, `reference_generateSeeded`), which gives the refinement of whole runs.

The generator reseeds at `reseed_counter ≥ 2 ^ 48`, the reference at `reseed_counter >
reseed_interval`: the reseed interval it implements is `2 ^ 48 - 1`, within what the standard
allows.
-/

namespace Ostrich.Crypto

/-! ### The counter -/

theorem ofBytes_incrementBytes (bytes : List UInt8) :
    Der.ofBytes (incrementBytes bytes).reverse =
      (Der.ofBytes bytes.reverse + 1) % 256 ^ bytes.length := by
  induction bytes with
  | nil => rfl
  | cons byte bytes ih =>
    have hlt : Der.ofBytes bytes.reverse < 256 ^ bytes.length := by
      simpa using Der.ofBytes_lt bytes.reverse
    have hbyte : byte.toNat < 256 := byte.toNat_lt
    have hsucc : (byte + 1).toNat = (byte.toNat + 1) % 256 := UInt8.toNat_add byte 1
    unfold incrementBytes
    rw [List.reverse_cons, Bytes.ofBytes_concat, List.length_cons, Nat.pow_succ]
    by_cases h : byte + 1 = 0
    · -- the byte wraps to zero and carries
      have hmax : byte.toNat = 255 := by
        rw [h] at hsucc
        have hzero : (0 : UInt8).toNat = 0 := rfl
        omega
      simp only [h, ne_eq, not_true_eq_false, if_false]
      rw [List.reverse_cons, Bytes.ofBytes_concat, ih, hmax]
      show (Der.ofBytes bytes.reverse + 1) % 256 ^ bytes.length * 256 + 0 = _
      have hcarry : Der.ofBytes bytes.reverse * 256 + 255 + 1 =
          (Der.ofBytes bytes.reverse + 1) * 256 := by omega
      rw [hcarry, Nat.mul_mod_mul_right, Nat.add_zero]
    · have hne : byte.toNat ≠ 255 := by
        intro hmax
        apply h
        apply UInt8.toNat_inj.mp
        rw [hsucc, hmax]
        rfl
      simp only [h, ne_eq, not_false_eq_true, if_true]
      rw [List.reverse_cons, Bytes.ofBytes_concat, hsucc, Nat.mod_eq_of_lt (by omega : _ < 256)]
      symm
      rw [Nat.add_assoc]
      apply Nat.mod_eq_of_lt
      omega

/-- The carry chain over the bytes is addition of one modulo `256 ^ n`. -/
theorem toBits_incrementCounter {n : ℕ} (v : Bytes n) :
    (incrementCounter v).toBits = v.toBits + 1 := by
  apply BitVec.eq_of_toNat_eq
  rw [Bytes.toNat_toBits, BitVec.toNat_add, Bytes.toNat_toBits]
  show Der.ofBytes (incrementBytes v.toList.reverse).reverse = _
  rw [ofBytes_incrementBytes, List.reverse_reverse, List.length_reverse, v.toList_length,
    Nat.pow_mul]
  rcases Nat.eq_zero_or_pos n with rfl | hn
  · simp [Nat.mod_one]
  · have hone : (1 : BitVec (8 * n)).toNat = 1 := by
      show 1 % 2 ^ (8 * n) = 1
      exact Nat.mod_eq_of_lt (Nat.one_lt_two_pow (by omega))
    rw [hone]

theorem toBits_iterate_incrementCounter (v : Bytes COUNTER_LENGTH) (n : ℕ) :
    (incrementCounter^[n] v).toBits = v.toBits + BitVec.ofNat 128 n := by
  induction n with
  | zero => exact (BitVec.add_zero _).symm
  | succ n ih =>
    rw [Function.iterate_succ_apply', toBits_incrementCounter, ih, BitVec.add_assoc]
    congr 1
    exact (BitVec.ofNat_add n 1).symm

/-- The values that `V` takes in `n` rounds of the block loop. -/
def counterValues (v : Bytes COUNTER_LENGTH) (n : ℕ) : List (Bytes COUNTER_LENGTH) :=
  (List.range n).map fun i => incrementCounter^[i + 1] v

theorem counterValues_succ (v : Bytes COUNTER_LENGTH) (n : ℕ) :
    counterValues v (n + 1) = incrementCounter v :: counterValues (incrementCounter v) n := by
  unfold counterValues
  rw [List.range_succ_eq_map, List.map_cons, List.map_map]
  rfl

/-- Fewer than `2 ^ 128` rounds use every counter value at most once. -/
theorem nodup_counterValues (v : Bytes COUNTER_LENGTH) {n : ℕ} (hn : n ≤ 2 ^ 128) :
    (counterValues v n).Nodup := by
  apply List.Nodup.map_on _ List.nodup_range
  intro i hi j hj hij
  rw [List.mem_range] at hi hj
  have hbits := congrArg Bytes.toBits hij
  rw [toBits_iterate_incrementCounter, toBits_iterate_incrementCounter] at hbits
  have hnat : (BitVec.ofNat 128 (i + 1)).toNat = (BitVec.ofNat 128 (j + 1)).toNat :=
    congrArg BitVec.toNat ((BitVec.add_right_inj _).mp hbits)
  rw [BitVec.toNat_ofNat, BitVec.toNat_ofNat] at hnat
  have hmod : i ≡ j [MOD 2 ^ 128] := Nat.ModEq.add_right_cancel' 1 hnat
  exact Nat.ModEq.eq_of_lt_of_lt hmod (by omega) (by omega)

/-! ### Blocks -/

theorem generateBlocks_eq (aes : Aes) (key : Bytes KEY_LENGTH) (n : ℕ) :
    ∀ (temp : List UInt8) (v : Bytes COUNTER_LENGTH), generateBlocks aes key n temp v =
      (temp ++ (counterValues v n).flatMap fun c => (aes key c).toList,
        incrementCounter^[n] v) := by
  induction n with
  | zero =>
    intro temp v
    simp [generateBlocks, counterValues]
  | succ n ih =>
    intro temp v
    rw [generateBlocks, ih, counterValues_succ, List.flatMap_cons, List.append_assoc,
      Function.iterate_succ_apply]

/-- The blocks of the loop are those of the reference. -/
theorem flatMap_counterValues (aes : Aes) (key : Bytes KEY_LENGTH) (v : Bytes COUNTER_LENGTH)
    (n : ℕ) : ((counterValues v n).flatMap fun c => (aes key c).toList) =
      (CtrDrbg.outputBlocks aes key v.toBits n).toList := by
  show _ = (List.range n).flatMap _
  unfold counterValues
  rw [List.flatMap_map]
  congr 1
  funext i
  rw [← toBits_iterate_incrementCounter, Bytes.ofBits_toBits]

theorem fillSeed_eq (aes : Aes) (key : Bytes KEY_LENGTH) (v : Bytes COUNTER_LENGTH) :
    fillSeed aes key [] v = generateBlocks aes key 3 [] v := by
  have hstep (temp : List UInt8) (v : Bytes COUNTER_LENGTH) (h : temp.length < SEED_LENGTH) :
      fillSeed aes key temp v =
        fillSeed aes key (temp ++ (aes key (incrementCounter v)).toList) (incrementCounter v) := by
    rw [fillSeed, if_pos h]
  have hdone (temp : List UInt8) (v : Bytes COUNTER_LENGTH) (h : temp.length = SEED_LENGTH) :
      fillSeed aes key temp v = (temp, v) := by
    rw [fillSeed, if_neg (by omega)]
  rw [hstep _ _ (by simp), hstep _ _ (by simp [SEED_LENGTH]), hstep _ _ (by simp [SEED_LENGTH]),
    hdone _ _ (by simp)]
  rfl

/-! ### The provided data -/

theorem getElem?_xorByte (providedData temp : List UInt8) (i j : ℕ) :
    (xorByte providedData temp i)[j]? =
      temp[j]?.map fun b => if i = j then b ^^^ (providedData[i]?).getD 0 else b := by
  unfold xorByte
  cases providedData[i]? with
  | none => simp
  | some byte =>
    show (temp.modify i (· ^^^ byte))[j]? = _
    rw [List.getElem?_modify]
    rfl

/-- The first `k` rounds XOR the first `k` bytes. -/
theorem getElem?_foldl_xorByte (providedData temp : List UInt8) (k j : ℕ) :
    ((List.range k).foldl (xorByte providedData) temp)[j]? =
      temp[j]?.map fun b => if j < k then b ^^^ (providedData[j]?).getD 0 else b := by
  induction k with
  | zero => simp
  | succ k ih =>
    rw [List.range_succ, List.foldl_append, List.foldl_cons, List.foldl_nil, getElem?_xorByte, ih,
      Option.map_map]
    congr 1
    funext b
    by_cases hjk : k = j
    · subst hjk
      simp
    · have hlt : j < k + 1 ↔ j < k := by omega
      simp [hjk, hlt]

theorem xorData_eq {temp : List UInt8} (htemp : temp.length = SEED_LENGTH)
    (providedData : Bytes SEED_LENGTH) :
    xorData temp providedData.toList = List.zipWith (· ^^^ ·) temp providedData.toList := by
  apply List.ext_getElem?
  intro j
  unfold xorData
  rw [getElem?_foldl_xorByte, List.getElem?_zipWith]
  by_cases hj : j < SEED_LENGTH
  · have hdata : j < providedData.toList.length := by rwa [List.Vector.toList_length]
    rw [List.getElem?_eq_getElem (by omega : j < temp.length), List.getElem?_eq_getElem hdata]
    simp [hj]
  · rw [List.getElem?_eq_none (by omega : temp.length ≤ j)]
    rfl

/-! ### The operations -/

/-- The working state of the reference: the counter as an integer, without the health tests. -/
def DrbgState.reference (state : DrbgState) : CtrDrbg.State where
  Key := state.key
  V := state.v.toBits
  reseedCounter := state.reseedCounter.toNat

theorem updateSeed_eq (aes : Aes) (state : DrbgState) (providedData : Bytes SEED_LENGTH) :
    updateSeed aes state providedData.toList = List.Vector.zipWith (· ^^^ ·)
      (CtrDrbg.outputBlocks aes state.key state.v.toBits 3) providedData := by
  apply List.Vector.eq
  show xorData ((fillSeed aes state.key [] state.v).1.take SEED_LENGTH) providedData.toList =
    List.zipWith _ (CtrDrbg.outputBlocks aes state.key state.v.toBits 3).toList _
  rw [fillSeed_eq, generateBlocks_eq, List.nil_append, flatMap_counterValues]
  have hlen : (CtrDrbg.outputBlocks aes state.key state.v.toBits 3).toList.length = SEED_LENGTH :=
    List.Vector.toList_length _
  rw [List.take_of_length_le hlen.le, xorData_eq hlen]
  rfl

/-- `update` is CTR_DRBG_Update. -/
theorem reference_update (aes : Aes) (state : DrbgState) (providedData : Bytes SEED_LENGTH) :
    (update aes state providedData.toList).reference =
      CtrDrbg.update aes providedData state.reference := by
  unfold update
  rw [updateSeed_eq]
  rfl

theorem update_reseedCounter (aes : Aes) (state : DrbgState) (providedData : List UInt8) :
    (update aes state providedData).reseedCounter = state.reseedCounter := rfl

theorem reference_instantiateAlgorithm (aes : Aes) (state : DrbgState) (entropy : Bytes SEED_LENGTH)
    (nonce personalization : List UInt8) :
    (instantiateAlgorithm aes state entropy.toList nonce personalization).reference =
      CtrDrbg.instantiate aes entropy := by
  unfold instantiateAlgorithm
  -- the entropy input alone fills the seed
  have hmin : min (entropy.toList ++ nonce ++ personalization).length SEED_LENGTH
    = SEED_LENGTH := by
    apply Nat.min_eq_right
    rw [List.length_append, List.length_append, List.Vector.toList_length]
    omega
  have hseed : (entropy.toList ++ nonce ++ personalization).take SEED_LENGTH = entropy.toList := by
    rw [List.append_assoc]
    exact List.take_left' (List.Vector.toList_length _)
  simp only [hmin, hseed, Nat.sub_self, List.replicate_zero, List.append_nil]
  have hupdate := reference_update aes
    { state with key := List.Vector.replicate _ 0, v := List.Vector.replicate _ 0 } entropy
  have hkey := congrArg CtrDrbg.State.Key hupdate
  have hv := congrArg CtrDrbg.State.V hupdate
  have hzero : Bytes.toBits (List.Vector.replicate COUNTER_LENGTH 0) = 0 := by decide
  unfold DrbgState.reference at hkey hv ⊢
  simp only [hzero] at hkey hv
  unfold CtrDrbg.instantiate
  rw [CtrDrbg.State.mk.injEq]
  exact ⟨hkey, hv, rfl⟩

theorem reference_reseed (aes : Aes) (entropy : Bytes SEED_LENGTH) (state : DrbgState) :
    (reseed aes (.ok entropy) state).2.reference = CtrDrbg.reseed aes entropy state.reference := by
  have hupdate := reference_update aes state entropy
  unfold CtrDrbg.reseed
  rw [← hupdate]
  rfl

/-! ### Health tests -/

/-- The part of the state that the health tests do not touch. -/
theorem reference_healthTest (state : DrbgState) (block : Bytes 16) :
    (healthTest state block).2.reference = state.reference := by
  have hrepetition : (repetitionCountTest state block).2.reference = state.reference := by
    unfold repetitionCountTest
    dsimp only
    repeat' split
    all_goals rfl
  have hproportion (state : DrbgState) :
      (adaptiveProportionTest state block).2.reference = state.reference := by
    unfold adaptiveProportionTest
    dsimp only
    repeat' split
    all_goals rfl
  unfold healthTest
  generalize repetitionCountTest state block = tested at hrepetition
  obtain ⟨result, tested⟩ := tested
  cases result with
  | error e => exact hrepetition
  | ok _ => exact (hproportion tested).trans hrepetition

theorem reference_continuousHealthTests (state : DrbgState) (output : List UInt8) :
    (continuousHealthTests state output).2.reference = state.reference := by
  fun_induction continuousHealthTests state output with
  | case1 state output h e tested heq =>
    have htest := reference_healthTest state ⟨output.take 16, h⟩
    rwa [heq] at htest
  | case2 state output h tested heq ih =>
    have htest := reference_healthTest state ⟨output.take 16, h⟩
    rw [heq] at htest
    exact ih.trans htest
  | case3 state output h => rfl

theorem healthTest_error {state state' : DrbgState} {block : Bytes 16} {e : DrbgError}
    (h : healthTest state block = (.error e, state')) : ∃ m, e = .HealthTestFailure m := by
  have hrepetition {tested : DrbgState} {e : DrbgError}
      (h : repetitionCountTest state block = (.error e, tested)) :
      ∃ m, e = .HealthTestFailure m := by
    unfold repetitionCountTest at h
    dsimp only at h
    repeat' split at h
    all_goals simp at h
    exact ⟨_, h.1.symm⟩
  have hproportion {state tested : DrbgState} {e : DrbgError}
      (h : adaptiveProportionTest state block = (.error e, tested)) :
      ∃ m, e = .HealthTestFailure m := by
    unfold adaptiveProportionTest at h
    dsimp only at h
    repeat' split at h
    all_goals simp at h
    exact ⟨_, h.1.symm⟩
  unfold healthTest at h
  split at h
  · rename_i e' tested heq
    simp only [Prod.mk.injEq, Except.error.injEq] at h
    exact hrepetition (h.1 ▸ heq)
  · exact hproportion h

/-- The health tests fail with no other error. -/
theorem continuousHealthTests_error {state state' : DrbgState} {output : List UInt8}
    {e : DrbgError} (h : continuousHealthTests state output = (.error e, state')) :
    ∃ m, e = .HealthTestFailure m := by
  fun_induction continuousHealthTests state output with
  | case1 state output hlen e' tested heq =>
    simp only [Prod.mk.injEq, Except.error.injEq] at h
    exact healthTest_error (h.1 ▸ heq)
  | case2 state output hlen tested heq ih => exact ih h
  | case3 state output hlen => simp at h

/-! ### Generation -/

theorem generateAlgorithm_eq (aes : Aes) (state : DrbgState) (numBytes : ℕ) :
    generateAlgorithm aes state numBytes =
      (((counterValues state.v (blocksNeeded numBytes)).flatMap fun c =>
        (aes state.key c).toList).take numBytes,
        { state with v := incrementCounter^[blocksNeeded numBytes] state.v }) := by
  unfold generateAlgorithm
  rw [generateBlocks_eq, List.nil_append]

/-- No two blocks of a request use the same counter value, nor do those of the update after it. -/
theorem nodup_counterValues_request (v : Bytes COUNTER_LENGTH) {numBytes : ℕ}
    (h : numBytes ≤ MAX_BYTES_PER_REQUEST) :
    (counterValues v (blocksNeeded numBytes + 3)).Nodup := by
  apply nodup_counterValues
  have hblocks : blocksNeeded numBytes ≤ 4096 := by
    unfold blocksNeeded MAX_BYTES_PER_REQUEST at *
    omega
  calc blocksNeeded numBytes + 3 ≤ 4099 := by omega
    _ ≤ 2 ^ 128 := by decide

/-- A request that passes the health tests is the reference's. -/
theorem generateSeeded_ok {aes : Aes} {numBytes : ℕ} {state state' : DrbgState}
    {output : List UInt8} (h : generateSeeded aes numBytes state = (.ok output, state'))
    (hcounter : state.reseedCounter.toNat < 2 ^ 48) :
    CtrDrbg.generate aes numBytes state.reference = (output, state'.reference) := by
  unfold generateSeeded at h
  rw [generateAlgorithm_eq] at h
  dsimp only at h
  set advanced : DrbgState :=
    { state with v := incrementCounter^[blocksNeeded numBytes] state.v } with hadvanced
  rw [flatMap_counterValues] at h
  set output' := (CtrDrbg.outputBlocks aes state.key state.v.toBits
    (blocksNeeded numBytes)).toList.take numBytes with houtput
  have htests := reference_continuousHealthTests advanced output'
  generalize continuousHealthTests advanced output' = tested at h htests
  obtain ⟨result, tested⟩ := tested
  cases result with
  | error e => simp at h
  | ok _ =>
    rw [Prod.mk.injEq, Except.ok.injEq] at h
    have hupdate : (update aes tested (List.replicate SEED_LENGTH 0)).reference =
        CtrDrbg.update aes (List.Vector.replicate SEED_LENGTH 0) tested.reference := by
      rw [← Bytes.toList_replicate]
      exact reference_update aes tested _
    have hkept := update_reseedCounter aes tested (List.replicate SEED_LENGTH 0)
    generalize update aes tested (List.replicate SEED_LENGTH 0) = updated at h hupdate hkept
    have hV : advanced.reference =
        { state.reference with
          V := state.v.toBits + BitVec.ofNat 128 (blocksNeeded numBytes) } := by
      rw [← toBits_iterate_incrementCounter]
      rfl
    have hcount : updated.reseedCounter = state.reseedCounter :=
      hkept.trans (UInt64.toNat_inj.mp (congrArg CtrDrbg.State.reseedCounter htests))
    have hsucc : (updated.reseedCounter + 1).toNat = state.reseedCounter.toNat + 1 := by
      rw [hcount, UInt64.toNat_add]
      apply Nat.mod_eq_of_lt
      show state.reseedCounter.toNat + 1 < 2 ^ 64
      omega
    have hreference : state'.reference =
        { updated.reference with reseedCounter := state.reseedCounter.toNat + 1 } := by
      rw [← h.2, ← hsucc]
      rfl
    rw [hreference, hupdate, htests, hV, ← h.1]
    rfl

theorem generateSeeded_error {aes : Aes} {numBytes : ℕ} {state state' : DrbgState}
    {e : DrbgError} (h : generateSeeded aes numBytes state = (.error e, state')) :
    ∃ m, e = .HealthTestFailure m := by
  unfold generateSeeded at h
  dsimp only at h
  split at h
  · rename_i e' tested heq
    simp only [Prod.mk.injEq, Except.error.injEq] at h
    exact continuousHealthTests_error (h.1 ▸ heq)
  · simp at h

/-! ### Runs -/

/-- The reseed interval, in the sense of the standard, that the test on `RESEED_INTERVAL` makes. -/
def reseedInterval : ℕ := RESEED_INTERVAL.toNat - 1

theorem reseedInterval_le : reseedInterval ≤ CtrDrbg.maxReseedInterval := by decide

/-- The counter is between one and `2 ^ 48`. -/
def DrbgState.CounterInRange (state : DrbgState) : Prop :=
  1 ≤ state.reseedCounter.toNat ∧ state.reseedCounter.toNat ≤ 2 ^ 48

theorem counterInRange_of_eq_one {state : DrbgState} (h : state.reseedCounter = 1) :
    state.CounterInRange := by
  unfold DrbgState.CounterInRange
  rw [h]
  decide

/-- A call as a request to the reference. -/
def DrbgCall.request : DrbgCall → CtrDrbg.Request
  | .reseed entropy => .reseed entropy.toOption
  | .generate numBytes entropy => .generate numBytes entropy.toOption

/-- The result is not that of a failed health test. -/
def Healthy (result : Except DrbgError (Option (List UInt8))) : Prop :=
  ∀ m, result ≠ .error (.HealthTestFailure m)

theorem generateSeeded_refines {aes : Aes} {numBytes : ℕ} {state : DrbgState}
    (hhealthy : Healthy ((generateSeeded aes numBytes state).1.map some))
    (hpos : 1 ≤ state.reseedCounter.toNat) (hlt : state.reseedCounter.toNat < 2 ^ 48) :
    ∃ output, (generateSeeded aes numBytes state).1 = .ok output ∧
      CtrDrbg.generate aes numBytes state.reference =
        (output, (generateSeeded aes numBytes state).2.reference) ∧
      (generateSeeded aes numBytes state).2.CounterInRange := by
  generalize hgen : generateSeeded aes numBytes state = generated at hhealthy
  obtain ⟨result, state'⟩ := generated
  cases result with
  | error e =>
    obtain ⟨m, rfl⟩ := generateSeeded_error hgen
    exact absurd rfl (hhealthy m)
  | ok output =>
    have href := generateSeeded_ok hgen hlt
    refine ⟨output, rfl, href, ?_⟩
    have hcount : state'.reseedCounter.toNat = state.reseedCounter.toNat + 1 :=
      (congrArg (fun p => p.2.reseedCounter) href).symm
    show 1 ≤ state'.reseedCounter.toNat ∧ state'.reseedCounter.toNat ≤ 2 ^ 48
    omega

/-- One call that passes the health tests is one request to the reference. -/
theorem exec_refines {aes : Aes} {state : DrbgState} {call : DrbgCall}
    (hhealthy : Healthy (call.exec aes state).1) (hrange : state.CounterInRange) :
    CtrDrbg.respond aes reseedInterval state.reference call.request =
        ((call.exec aes state).1.toOption, (call.exec aes state).2.reference) ∧
      (call.exec aes state).2.CounterInRange := by
  obtain ⟨hpos, hle⟩ := hrange
  cases call with
  | reseed entropy =>
    cases entropy with
    | error e => exact ⟨rfl, hpos, hle⟩
    | ok entropy =>
      refine ⟨?_, counterInRange_of_eq_one rfl⟩
      show (some none, CtrDrbg.reseed aes entropy state.reference) = _
      rw [← reference_reseed]
      rfl
  | generate numBytes entropy =>
    unfold DrbgCall.exec generate at hhealthy ⊢
    unfold DrbgCall.request CtrDrbg.respond
    dsimp only at hhealthy ⊢
    by_cases hmax : numBytes > MAX_BYTES_PER_REQUEST
    · have hmax' : numBytes > CtrDrbg.maxRequest := hmax
      simp only [if_pos hmax, if_pos hmax']
      exact ⟨rfl, hpos, hle⟩
    · have hmax' : ¬ numBytes > CtrDrbg.maxRequest := hmax
      simp only [if_neg hmax, if_neg hmax'] at hhealthy ⊢
      have hinterval : RESEED_INTERVAL.toNat = 2 ^ 48 := by decide
      by_cases hreseed : state.reseedCounter ≥ RESEED_INTERVAL
      · have hge := UInt64.le_iff_toNat_le.mp hreseed
        have hreseed' : state.reference.reseedCounter > reseedInterval := by
          show state.reseedCounter.toNat > RESEED_INTERVAL.toNat - 1
          omega
        simp only [if_pos hreseed, if_pos hreseed'] at hhealthy ⊢
        cases entropy with
        | error e => exact ⟨rfl, hpos, hle⟩
        | ok entropy =>
          have hseeded := reference_reseed aes entropy state
          have hone : (1 : UInt64).toNat < 2 ^ 48 := by decide
          dsimp only [reseed] at hhealthy hseeded ⊢
          obtain ⟨output, hok, href, hrange'⟩ := generateSeeded_refines hhealthy le_rfl hone
          rw [hseeded] at href
          refine ⟨?_, hrange'⟩
          simp only [Except.toOption]
          rw [href, hok]
          rfl
      · have hlt : state.reseedCounter.toNat < 2 ^ 48 := by
          have := mt UInt64.le_iff_toNat_le.mpr hreseed
          omega
        have hreseed' : ¬ state.reference.reseedCounter > reseedInterval := by
          show ¬ state.reseedCounter.toNat > RESEED_INTERVAL.toNat - 1
          omega
        simp only [if_neg hreseed, if_neg hreseed'] at hhealthy ⊢
        obtain ⟨output, hok, href, hrange'⟩ := generateSeeded_refines hhealthy hpos hlt
        refine ⟨?_, hrange'⟩
        rw [href, hok]
        rfl

theorem run_refines {aes : Aes} {calls : List DrbgCall} :
    ∀ {state : DrbgState}, state.CounterInRange →
      (∀ result ∈ (state.run aes calls).1, Healthy result) →
      CtrDrbg.run aes reseedInterval state.reference (calls.map DrbgCall.request) =
          ((state.run aes calls).1.map Except.toOption, (state.run aes calls).2.reference) ∧
        (state.run aes calls).2.CounterInRange := by
  induction calls with
  | nil =>
    intro state hrange _
    exact ⟨rfl, hrange⟩
  | cons call calls ih =>
    intro state hrange hhealthy
    obtain ⟨hrespond, hrange'⟩ := exec_refines (hhealthy _ (List.mem_cons_self ..)) hrange
    obtain ⟨hrun, hrange''⟩ := ih hrange' fun result hmem =>
      hhealthy result (List.mem_cons_of_mem _ hmem)
    refine ⟨?_, hrange''⟩
    rw [List.map_cons, CtrDrbg.run, hrespond]
    dsimp only
    rw [hrun]
    rfl

/-- **The generator refines CTR_DRBG.**  An instance made with any personalization string and any
entropy, after any sequence of reseed and generate calls in which no health test fails, has returned
what the reference returns and is in the reference's state, with the reseed counter between one and
`2 ^ 48`; the blocks of a request are the encryptions of pairwise different counter values, also
different from those of the update that follows. -/
theorem refines_ctrDrbg (aes : Aes) (personalization : List UInt8) (entropy : Bytes SEED_LENGTH)
    (nonce : Bytes 16) (state : DrbgState) (calls : List DrbgCall)
    (hnew : withPersonalization aes personalization (.ok entropy) (.ok nonce) = .ok state)
    (hhealthy : ∀ result ∈ (state.run aes calls).1, Healthy result) :
    CtrDrbg.run aes reseedInterval (CtrDrbg.instantiate aes entropy)
        (calls.map DrbgCall.request) =
      ((state.run aes calls).1.map Except.toOption, (state.run aes calls).2.reference) ∧
    1 ≤ (state.run aes calls).2.reseedCounter.toNat ∧
    (state.run aes calls).2.reseedCounter.toNat ≤ 2 ^ 48 ∧
    ∀ (request : DrbgState) (numBytes : ℕ), numBytes ≤ MAX_BYTES_PER_REQUEST →
      (generateAlgorithm aes request numBytes).1 =
          ((counterValues request.v (blocksNeeded numBytes)).flatMap fun c =>
            (aes request.key c).toList).take numBytes ∧
        (counterValues request.v (blocksNeeded numBytes + 3)).Nodup := by
  unfold withPersonalization at hnew
  by_cases hlen : personalization.length > 256
  · rw [if_pos hlen] at hnew
    simp at hnew
  · rw [if_neg hlen] at hnew
    have hstate := (Except.ok.inj hnew).symm
    have href : state.reference = CtrDrbg.instantiate aes entropy := by
      rw [hstate]
      exact reference_instantiateAlgorithm ..
    have hrange : state.CounterInRange := by
      rw [hstate]
      exact counterInRange_of_eq_one rfl
    obtain ⟨hrun, hrange'⟩ := run_refines hrange hhealthy
    rw [href] at hrun
    refine ⟨hrun, hrange'.1, hrange'.2, ?_⟩
    intro request numBytes hmax
    exact ⟨by rw [generateAlgorithm_eq], nodup_counterValues_request _ hmax⟩

/-- Requests for less than a block are not tested. -/
theorem generateSeeded_short (aes : Aes) {numBytes : ℕ} (h : numBytes < 16) (state : DrbgState) :
    ∃ output, (generateSeeded aes numBytes state).1 = .ok output := by
  unfold generateSeeded
  rw [generateAlgorithm_eq]
  dsimp only
  rw [continuousHealthTests, dif_neg]
  · exact ⟨_, rfl⟩
  · rw [List.length_take, List.length_take]
    omega

/-- A generator over a block cipher that returns its block, asked for five bytes. -/
theorem refines_ctrDrbg_five :
    let aes : Aes := fun _ block => block
    let entropy : Bytes SEED_LENGTH := List.Vector.replicate SEED_LENGTH 7
    let state := instantiateAlgorithm aes .new entropy.toList (List.replicate 16 1) [2]
    let calls : List DrbgCall := [.reseed (.ok entropy), .generate 5 (.error "no entropy")]
    CtrDrbg.run aes reseedInterval (CtrDrbg.instantiate aes entropy)
        (calls.map DrbgCall.request) =
      ((state.run aes calls).1.map Except.toOption, (state.run aes calls).2.reference) := by
  intro aes entropy state calls
  set reseeded : DrbgState := { update aes state entropy.toList with reseedCounter := 1 }
  obtain ⟨output, hok⟩ := generateSeeded_short aes (by decide : 5 < 16) reseeded
  have hgenerate : (generate aes 5 (.error "no entropy") reseeded).1 = .ok output := by
    have hinterval : ¬ reseeded.reseedCounter ≥ RESEED_INTERVAL := by
      show ¬ (1 : UInt64) ≥ RESEED_INTERVAL
      decide
    unfold generate
    rw [if_neg (by decide), if_neg hinterval]
    exact hok
  have hrun : (state.run aes calls).1 =
      [.ok none, (generate aes 5 (.error "no entropy") reseeded).1.map some] := rfl
  have hhealthy : ∀ result ∈ (state.run aes calls).1, Healthy result := by
    rw [hrun, hgenerate]
    intro result hmem m
    rcases List.mem_pair.mp hmem with rfl | rfl
    · simp
    · simp [Except.map]
  exact (refines_ctrDrbg aes [2] entropy (List.Vector.replicate 16 1) state calls rfl hhealthy).1

end Ostrich.Crypto
