import Ostrich.Crypto.Equiv.Drbg
import Ostrich.Lib.Recent

/-!
# The continuous health tests over the life of an instance

The tests keep a state of their own (`Health`) through all calls on an instance, the failed ones
included, and stop a call at the first block they reject.  `DrbgState.tested` lists the blocks they
have looked at, and `run_tested` is the induction over them: what a test of one block preserves
holds along every run.

* `repetitionCount_eq`: the counter of the repetition count test is the length of the current run of
  equal blocks, except in the run that starts with the instance, where it is one less.
* `proportionCounts_eq`: the counts of the adaptive proportion test are those of its window.
* `proportionWindow_eq`: the window holds the last 511 samples as long as the test has not failed;
  a failure leaves the sample that made it fail in an overfull window.
-/

namespace Ostrich.Crypto

open Recent

/-! ### The blocks that are tested -/

/-- The whole blocks of `output` that are tested, each with the state before it. -/
def testedBlocks (state : DrbgState) (output : List UInt8) : List (DrbgState × Bytes 16) :=
  if h : (output.take 16).length = 16 then
    match healthTest state ⟨output.take 16, h⟩ with
    | (.error _, _) => [(state, ⟨output.take 16, h⟩)]
    | (.ok (), next) => (state, ⟨output.take 16, h⟩) :: testedBlocks next (output.drop 16)
  else []
termination_by output.length
decreasing_by
  rw [List.length_take] at h
  rw [List.length_drop]
  omega

/-- The blocks that a generate call tests after the reseed check. -/
def seededTested (aes : Aes) (numBytes : ℕ) (state : DrbgState) : List (DrbgState × Bytes 16) :=
  let (output, state) := generateAlgorithm aes state numBytes
  testedBlocks state output

/-- The blocks that a call tests. -/
def DrbgCall.tested (aes : Aes) (state : DrbgState) : DrbgCall → List (DrbgState × Bytes 16)
  | .reseed _ => []
  | .generate numBytes entropy =>
    if numBytes > MAX_BYTES_PER_REQUEST then []
    else if state.reseedCounter ≥ RESEED_INTERVAL then
      match Crypto.reseed aes entropy state with
      | (.error _, _) => []
      | (.ok (), state) => seededTested aes numBytes state
    else seededTested aes numBytes state

/-- The blocks that a sequence of calls tests. -/
def DrbgState.tested (aes : Aes) : DrbgState → List DrbgCall → List (DrbgState × Bytes 16)
  | _, [] => []
  | state, call :: calls => call.tested aes state ++ (call.exec aes state).2.tested aes calls

/-- The part of the state that the health tests use. -/
structure Health where
  lastBlock : Option (Bytes 16)
  repetitionCount : ℕ
  proportionWindow : List UInt8
  proportionCounts : Fin 256 → ℕ

def DrbgState.health (state : DrbgState) : Health where
  lastBlock := state.lastBlock
  repetitionCount := state.repetitionCount
  proportionWindow := state.proportionWindow
  proportionCounts := state.proportionCounts

/-- From `before` to `after` by the tests of `trace`, one after the other. -/
def Fed : Health → List (DrbgState × Bytes 16) → Health → Prop
  | before, [], after => before = after
  | before, (state, block) :: trace, after =>
    state.health = before ∧ Fed (healthTest state block).2.health trace after

theorem Fed.append {before between after : Health} {trace trace' : List (DrbgState × Bytes 16)}
    (h : Fed before trace between) (h' : Fed between trace' after) :
    Fed before (trace ++ trace') after := by
  induction trace generalizing before with
  | nil =>
    have heq : before = between := h
    rw [heq]
    exact h'
  | cons p trace ih => exact ⟨h.1, ih h.2⟩

/-- What a test of one block preserves, holds after the tests and before each of them. -/
theorem Fed.invariant {I : List (DrbgState × Bytes 16) → Health → Prop}
    (hstep : ∀ past state block, I past state.health →
      I (past ++ [(state, block)]) (healthTest state block).2.health)
    {before after : Health} {past trace : List (DrbgState × Bytes 16)}
    (h : Fed before trace after) (hI : I past before) :
    I (past ++ trace) after ∧ ∀ pre state block post, trace = pre ++ (state, block) :: post →
      I (past ++ pre) state.health := by
  induction trace generalizing before past with
  | nil =>
    have heq : before = after := h
    refine ⟨?_, fun pre state block post hsplit => by simp at hsplit⟩
    rwa [List.append_nil, ← heq]
  | cons p trace ih =>
    obtain ⟨state, block⟩ := p
    have hfirst : I past state.health := h.1 ▸ hI
    have hrest := ih h.2 (hstep past state block hfirst)
    rw [List.append_assoc] at hrest
    refine ⟨hrest.1, fun pre state' block' post hsplit => ?_⟩
    cases pre with
    | nil =>
      rw [List.nil_append, List.cons.injEq, Prod.mk.injEq] at hsplit
      rwa [List.append_nil, ← hsplit.1.1]
    | cons q pre =>
      rw [List.cons_append, List.cons.injEq] at hsplit
      have hlater := hrest.2 pre state' block' post hsplit.2
      rw [List.append_assoc] at hlater
      rwa [← hsplit.1]

theorem fed_testedBlocks (state : DrbgState) (output : List UInt8) :
    Fed state.health (testedBlocks state output) (continuousHealthTests state output).2.health := by
  fun_induction testedBlocks state output with
  | case1 state output h e next heq =>
    rw [continuousHealthTests, dif_pos h, heq]
    refine ⟨rfl, ?_⟩
    rw [heq]
    rfl
  | case2 state output h next heq ih =>
    rw [continuousHealthTests, dif_pos h, heq]
    refine ⟨rfl, ?_⟩
    rw [heq]
    exact ih
  | case3 state output h =>
    rw [continuousHealthTests, dif_neg h]
    rfl

/-- The tests of an output fail as its last tested block does. -/
theorem continuousHealthTests_error_iff (state : DrbgState) (output : List UInt8) (e : DrbgError) :
    (continuousHealthTests state output).1 = .error e ↔
      ∃ p ∈ testedBlocks state output, (healthTest p.1 p.2).1 = .error e := by
  fun_induction testedBlocks state output with
  | case1 state output h e' next heq =>
    rw [continuousHealthTests, dif_pos h, heq]
    simp [heq]
  | case2 state output h next heq ih =>
    rw [continuousHealthTests, dif_pos h, heq]
    simp [heq, ih]
  | case3 state output h =>
    rw [continuousHealthTests, dif_neg h]
    simp

/-- An output that passes has been tested whole, but for a partial block at its end. -/
theorem testedBlocks_of_ok {state : DrbgState} {output : List UInt8}
    (h : (continuousHealthTests state output).1 = .ok ()) :
    (testedBlocks state output).flatMap (fun p => p.2.toList) =
      output.take (output.length / 16 * 16) := by
  fun_induction testedBlocks state output with
  | case1 state output hlen e next heq =>
    rw [continuousHealthTests, dif_pos hlen, heq] at h
    cases h
  | case2 state output hlen next heq ih =>
    rw [continuousHealthTests, dif_pos hlen, heq] at h
    rw [List.length_take] at hlen
    have hcount : output.length / 16 * 16 = 16 + (output.drop 16).length / 16 * 16 := by
      rw [List.length_drop]
      omega
    rw [List.flatMap_cons, ih h, hcount, List.take_add]
    rfl
  | case3 state output hlen =>
    rw [List.length_take] at hlen
    have hnone : output.length / 16 * 16 = 0 := by omega
    rw [hnone, List.take_zero]
    rfl

/-- The tests on a list of whole blocks. -/
def testBlocks : DrbgState → List (Bytes 16) → List (DrbgState × Bytes 16)
  | _, [] => []
  | state, block :: blocks =>
    match healthTest state block with
    | (.error _, _) => [(state, block)]
    | (.ok (), next) => (state, block) :: testBlocks next blocks

theorem testedBlocks_flatMap (state : DrbgState) (blocks : List (Bytes 16)) :
    testedBlocks state (blocks.flatMap List.Vector.toList) = testBlocks state blocks := by
  induction blocks generalizing state with
  | nil =>
    rw [testedBlocks, dif_neg (by simp)]
    rfl
  | cons block blocks ih =>
    have htake : (block.toList ++ blocks.flatMap List.Vector.toList).take 16 = block.toList :=
      List.take_left' block.toList_length
    have hdrop : (block.toList ++ blocks.flatMap List.Vector.toList).drop 16 =
        blocks.flatMap List.Vector.toList := List.drop_left' block.toList_length
    have hlen : ((block.toList ++ blocks.flatMap List.Vector.toList).take 16).length = 16 := by
      rw [htake, block.toList_length]
    have hblock : (⟨_, hlen⟩ : Bytes 16) = block := List.Vector.eq _ _ htake
    rw [List.flatMap_cons, testedBlocks, dif_pos hlen, hblock, hdrop, testBlocks]
    simp only [ih]

/-- A request for whole blocks tests what the cipher makes of the counter values. -/
theorem seededTested_eq (aes : Aes) (n : ℕ) (state : DrbgState) :
    seededTested aes (16 * n) state =
      testBlocks { state with v := incrementCounter^[n] state.v }
        ((counterValues state.v n).map (aes state.key)) := by
  have hneeded : blocksNeeded (16 * n) = n := by
    unfold blocksNeeded
    omega
  unfold seededTested
  rw [generateAlgorithm_eq, hneeded]
  dsimp only
  have hlen : ((counterValues state.v n).flatMap fun c => (aes state.key c).toList).length =
      16 * n := by
    rw [List.length_flatMap]
    simp [counterValues, Function.comp_def, Nat.mul_comm]
  rw [List.take_of_length_le hlen.le, ← testedBlocks_flatMap, List.flatMap_map]

/-! ### Calls and runs -/

theorem health_update (aes : Aes) (state : DrbgState) (providedData : List UInt8) :
    (update aes state providedData).health = state.health := rfl

theorem health_generateAlgorithm (aes : Aes) (state : DrbgState) (numBytes : ℕ) :
    (generateAlgorithm aes state numBytes).2.health = state.health := rfl

/-- A generate call after the reseed check: what it tests and how it fails. -/
theorem generateSeeded_tests (aes : Aes) (numBytes : ℕ) (state : DrbgState) :
    Fed state.health (seededTested aes numBytes state)
        (generateSeeded aes numBytes state).2.health ∧
      ∀ e, (generateSeeded aes numBytes state).1 = .error e ↔
        ∃ p ∈ seededTested aes numBytes state, (healthTest p.1 p.2).1 = .error e := by
  have hadvanced := health_generateAlgorithm aes state numBytes
  unfold generateSeeded seededTested
  generalize generateAlgorithm aes state numBytes = generated at hadvanced ⊢
  obtain ⟨output, advanced⟩ := generated
  have hfed := fed_testedBlocks advanced output
  have herror := continuousHealthTests_error_iff advanced output
  dsimp only at hadvanced ⊢
  rw [hadvanced] at hfed
  generalize continuousHealthTests advanced output = tests at hfed herror ⊢
  obtain ⟨result, after⟩ := tests
  cases result with
  | error e => exact ⟨hfed, fun e' => by simpa using herror e'⟩
  | ok _ =>
    dsimp only
    have hupdate := health_update aes after (List.replicate SEED_LENGTH 0)
    generalize update aes after (List.replicate SEED_LENGTH 0) = updated at hupdate ⊢
    have hafter : Fed state.health (testedBlocks advanced output) updated.health := by
      rw [hupdate]
      exact hfed
    refine ⟨hafter, fun e' => ?_⟩
    rw [← herror e']
    simp

/-- What a call tests, and how it fails in the tests. -/
theorem DrbgCall.exec_tests (aes : Aes) (state : DrbgState) (call : DrbgCall) :
    Fed state.health (call.tested aes state) (call.exec aes state).2.health ∧
      ∀ m, (call.exec aes state).1 = .error (.HealthTestFailure m) ↔
        ∃ p ∈ call.tested aes state, (healthTest p.1 p.2).1 = .error (.HealthTestFailure m) := by
  cases call with
  | reseed entropy =>
    cases entropy with
    | error e => exact ⟨rfl, fun m => by simp [exec, Crypto.reseed, tested, Except.map]⟩
    | ok bytes => exact ⟨rfl, fun m => by simp [exec, Crypto.reseed, tested, Except.map]⟩
  | generate numBytes entropy =>
    have hmap (result : Except DrbgError (List UInt8)) (e : DrbgError) :
        result.map some = .error e ↔ result = .error e := by
      cases result with
      | error e' => simp [Except.map]
      | ok output => simp [Except.map]
    simp only [exec, tested, hmap]
    unfold Crypto.generate
    by_cases hlarge : numBytes > MAX_BYTES_PER_REQUEST
    · simp only [if_pos hlarge]
      exact ⟨rfl, fun m => by simp⟩
    · simp only [if_neg hlarge]
      by_cases hseed : state.reseedCounter ≥ RESEED_INTERVAL
      · simp only [if_pos hseed]
        cases entropy with
        | error e => exact ⟨rfl, fun m => by simp [Crypto.reseed]⟩
        | ok bytes =>
          have htests := generateSeeded_tests aes numBytes
            { update aes state bytes.toList with reseedCounter := 1 }
          exact ⟨htests.1, fun m => htests.2 _⟩
      · simp only [if_neg hseed]
        have htests := generateSeeded_tests aes numBytes state
        exact ⟨htests.1, fun m => htests.2 _⟩

theorem DrbgState.fed_run (aes : Aes) (state : DrbgState) (calls : List DrbgCall) :
    Fed state.health (state.tested aes calls) (state.run aes calls).2.health := by
  induction calls generalizing state with
  | nil => rfl
  | cons call calls ih => exact (call.exec_tests aes state).1.append (ih _)

/-- An instance before its first call. -/
def instantiated (aes : Aes) (entropy nonce personalization : List UInt8) : DrbgState :=
  instantiateAlgorithm aes .new entropy nonce personalization

theorem health_instantiated (aes : Aes) (entropy nonce personalization : List UInt8) :
    (instantiated aes entropy nonce personalization).health =
      { lastBlock := none, repetitionCount := 0, proportionWindow := [],
        proportionCounts := fun _ => 0 } := rfl

/-! ### The repetition count test -/

/-- The error of the repetition count test. -/
def repetitionFailure : DrbgError :=
  .HealthTestFailure "Repetition count test failed - possible stuck-at fault"

/-- The error of the adaptive proportion test. -/
def proportionFailure : DrbgError :=
  .HealthTestFailure "Adaptive proportion test failed - biased output detected"

/-- The counter of the repetition count test after `block`. -/
def repetitionCountAfter (health : Health) (block : Bytes 16) : ℕ :=
  match health.lastBlock with
  | some last => if last = block then health.repetitionCount + 1 else 1
  | none => health.repetitionCount

/-- What the repetition count test does: it fails where it has counted up to the cutoff. -/
theorem repetitionCountTest_spec (state : DrbgState) (block : Bytes 16) :
    (repetitionCountTest state block).2.health =
        { state.health with
          lastBlock := some block
          repetitionCount := repetitionCountAfter state.health block } ∧
      (repetitionCountTest state block).1 =
        if state.lastBlock = some block ∧ REPETITION_COUNT_CUTOFF ≤ state.repetitionCount + 1 then
          .error repetitionFailure
        else .ok () := by
  unfold repetitionCountTest repetitionCountAfter
  show _ ∧ _
  cases hlast : state.lastBlock with
  | none => simp [DrbgState.health, hlast]
  | some last =>
    by_cases heq : last = block
    · by_cases hcut : REPETITION_COUNT_CUTOFF ≤ state.repetitionCount + 1
      · simp [DrbgState.health, hlast, heq, hcut, repetitionFailure]
      · simp [DrbgState.health, hlast, heq, hcut]
    · simp [DrbgState.health, hlast, heq]

theorem adaptiveProportionTest_repetition (state : DrbgState) (block : Bytes 16) :
    (adaptiveProportionTest state block).2.lastBlock = state.lastBlock ∧
      (adaptiveProportionTest state block).2.repetitionCount = state.repetitionCount := by
  unfold adaptiveProportionTest
  dsimp only
  repeat' split
  all_goals exact ⟨rfl, rfl⟩

/-- The adaptive proportion test fails with its own error. -/
theorem adaptiveProportionTest_error (state : DrbgState) (block : Bytes 16) :
    (adaptiveProportionTest state block).1 = .ok () ∨
      (adaptiveProportionTest state block).1 = .error proportionFailure := by
  unfold adaptiveProportionTest
  dsimp only
  repeat' split
  all_goals first | exact .inl rfl | exact .inr rfl

theorem healthTest_repetition (state : DrbgState) (block : Bytes 16) :
    (healthTest state block).2.lastBlock = some block ∧
      (healthTest state block).2.repetitionCount = repetitionCountAfter state.health block ∧
      ((healthTest state block).1 = .error repetitionFailure ↔
        state.lastBlock = some block ∧ REPETITION_COUNT_CUTOFF ≤ state.repetitionCount + 1) := by
  have hspec := repetitionCountTest_spec state block
  unfold healthTest
  generalize repetitionCountTest state block = test at hspec ⊢
  obtain ⟨result, after⟩ := test
  have hlast : after.lastBlock = some block := congrArg Health.lastBlock hspec.1
  have hcount : after.repetitionCount = repetitionCountAfter state.health block :=
    congrArg Health.repetitionCount hspec.1
  have hresult := hspec.2
  dsimp only at hresult
  by_cases hcut : state.lastBlock = some block ∧
      REPETITION_COUNT_CUTOFF ≤ state.repetitionCount + 1
  · rw [if_pos hcut] at hresult
    subst hresult
    exact ⟨hlast, hcount, by simp [hcut]⟩
  · rw [if_neg hcut] at hresult
    subst hresult
    have hkept := adaptiveProportionTest_repetition after block
    refine ⟨hkept.1.trans hlast, hkept.2.trans hcount, ?_⟩
    have herror := adaptiveProportionTest_error after block
    constructor
    · intro hfail
      exfalso
      dsimp only at hfail
      rw [hfail] at herror
      simp [repetitionFailure, proportionFailure] at herror
    · intro h
      exact absurd h hcut

/-- The ways in which the tests of a block end. -/
theorem healthTest_result (state : DrbgState) (block : Bytes 16) :
    (healthTest state block).1 = .ok () ∨ (healthTest state block).1 = .error repetitionFailure ∨
      (healthTest state block).1 = .error proportionFailure := by
  have hresult := (repetitionCountTest_spec state block).2
  unfold healthTest
  generalize repetitionCountTest state block = test at hresult ⊢
  obtain ⟨result, after⟩ := test
  dsimp only at hresult
  split at hresult
  · subst hresult
    exact .inr (.inl rfl)
  · subst hresult
    exact (adaptiveProportionTest_error after block).imp_right .inr

/-- The count of the run of equal blocks at the front of `blocks`, the newest first: the first block
of an instance is not counted. -/
def runCount (blocks : List (Bytes 16)) : ℕ :=
  if streak blocks = blocks.length then blocks.length - 1 else streak blocks

theorem runCount_cons_self (block : Bytes 16) (blocks : List (Bytes 16)) :
    runCount (block :: block :: blocks) = runCount (block :: blocks) + 1 := by
  have hlen := streak_le_length (block :: blocks)
  unfold runCount
  rw [streak_cons_self]
  simp only [List.length_cons] at hlen ⊢
  split <;> split <;> omega

theorem runCount_cons_of_ne {block last : Bytes 16} (h : last ≠ block) (blocks : List (Bytes 16)) :
    runCount (block :: last :: blocks) = 1 := by
  unfold runCount
  rw [streak_cons_of_ne h]
  simp

/-- The count reaches the cutoff with the fifth block of a run, or with the sixth of the run that
starts with the instance. -/
theorem cutoff_le_runCount (blocks : List (Bytes 16)) :
    REPETITION_COUNT_CUTOFF ≤ runCount blocks ↔
      REPETITION_COUNT_CUTOFF ≤ streak blocks ∧ blocks.length ≠ REPETITION_COUNT_CUTOFF := by
  have hlen := streak_le_length blocks
  unfold runCount REPETITION_COUNT_CUTOFF
  split <;> omega

/-- The state of the repetition count test after the blocks of `past`. -/
def RepetitionInv (past : List (DrbgState × Bytes 16)) (health : Health) : Prop :=
  health.lastBlock = (past.map Prod.snd).reverse.head? ∧
    health.repetitionCount = runCount (past.map Prod.snd).reverse

theorem repetitionCountAfter_eq {past : List (DrbgState × Bytes 16)} {health : Health}
    (hinv : RepetitionInv past health) (block : Bytes 16) :
    repetitionCountAfter health block = runCount (block :: (past.map Prod.snd).reverse) := by
  obtain ⟨hlast, hcount⟩ := hinv
  unfold repetitionCountAfter
  generalize (past.map Prod.snd).reverse = blocks at hlast hcount ⊢
  cases blocks with
  | nil =>
    rw [hlast, hcount]
    rfl
  | cons last blocks =>
    rw [hlast, hcount]
    dsimp only [List.head?_cons]
    by_cases h : last = block
    · rw [if_pos h, h, runCount_cons_self]
    · rw [if_neg h, runCount_cons_of_ne h]

theorem repetitionInv_step {past : List (DrbgState × Bytes 16)} {state : DrbgState}
    (block : Bytes 16) (hinv : RepetitionInv past state.health) :
    RepetitionInv (past ++ [(state, block)]) (healthTest state block).2.health := by
  obtain ⟨hlast, hcount, -⟩ := healthTest_repetition state block
  unfold RepetitionInv
  rw [List.map_append, List.reverse_append]
  refine ⟨hlast, ?_⟩
  show (healthTest state block).2.repetitionCount =
    runCount (block :: (past.map Prod.snd).reverse)
  rw [hcount, repetitionCountAfter_eq hinv]

/-- A block is rejected where the count of its run reaches the cutoff. -/
theorem repetition_rejects {past : List (DrbgState × Bytes 16)} {state : DrbgState}
    (block : Bytes 16) (hinv : RepetitionInv past state.health) :
    (healthTest state block).1 = .error repetitionFailure ↔
      REPETITION_COUNT_CUTOFF ≤ runCount (block :: (past.map Prod.snd).reverse) := by
  obtain ⟨-, -, hfail⟩ := healthTest_repetition state block
  rw [hfail, ← repetitionCountAfter_eq hinv]
  unfold repetitionCountAfter DrbgState.health
  dsimp only
  have hfirst : state.lastBlock = none → state.repetitionCount = 0 := by
    intro hnone
    have hhead : (past.map Prod.snd).reverse.head? = none := hinv.1.symm.trans hnone
    have hcount : state.repetitionCount = runCount (past.map Prod.snd).reverse := hinv.2
    rw [hcount, List.head?_eq_none_iff.mp hhead]
    rfl
  cases hlast : state.lastBlock with
  | none => simp [hfirst hlast, REPETITION_COUNT_CUTOFF]
  | some last =>
    by_cases h : last = block
    · simp [h]
    · simp [h, REPETITION_COUNT_CUTOFF]

section Repetition

variable (past blocks : List (Bytes 16))

/-- The block after `before` among `blocks` is the fifth or a later one of a run of equal blocks. -/
def Repeated (before : List (Bytes 16)) (block : Bytes 16) : Prop :=
  (∃ after, blocks = before ++ block :: after) ∧
    REPETITION_COUNT_CUTOFF ≤ streak (block :: (past ++ before).reverse)

/-- The only block of `blocks` that repeats too often is the fifth one of the instance. -/
def OnlyFirstRun : Prop :=
  (∃ before block, Repeated past blocks before block) ∧
    ∀ before block, Repeated past blocks before block → (past ++ before).length = 4

end Repetition

/-- The blocks that a call tests after a run. -/
def nextTested (aes : Aes) (start : DrbgState) (calls : List DrbgCall) (call : DrbgCall) :
    List (Bytes 16) :=
  (call.tested aes (start.run aes calls).2).map Prod.snd

/-- A call fails in the repetition count test where a block reaches the cutoff of its run, the
fifth block of the instance excepted. -/
theorem exec_repetitionFailure_iff (aes : Aes) (entropy nonce personalization : List UInt8)
    (calls : List DrbgCall) (call : DrbgCall) :
    let start := instantiated aes entropy nonce personalization
    let past := (start.tested aes calls).map Prod.snd
    (call.exec aes (start.run aes calls).2).1 = .error repetitionFailure ↔
      ∃ before block, Repeated past (nextTested aes start calls call) before block ∧
        (past ++ before).length ≠ 4 := by
  intro start past
  have hstart : RepetitionInv [] start.health := ⟨rfl, rfl⟩
  have hstep : ∀ past state block, RepetitionInv past state.health →
      RepetitionInv (past ++ [(state, block)]) (healthTest state block).2.health :=
    fun past state block => repetitionInv_step block
  have hpast : RepetitionInv (start.tested aes calls) (start.run aes calls).2.health :=
    ((start.fed_run aes calls).invariant hstep hstart).1
  obtain ⟨hfed, hfails⟩ := call.exec_tests aes (start.run aes calls).2
  have hcall := (hfed.invariant hstep hpast).2
  -- a tested block is rejected as its run says
  have hrejects (pre : List (DrbgState × Bytes 16)) (state : DrbgState) (block : Bytes 16)
      (post : List (DrbgState × Bytes 16))
      (hsplit : call.tested aes (start.run aes calls).2 = pre ++ (state, block) :: post) :
      (healthTest state block).1 = .error repetitionFailure ↔
        REPETITION_COUNT_CUTOFF ≤ streak (block :: (past ++ pre.map Prod.snd).reverse) ∧
          (past ++ pre.map Prod.snd).length ≠ 4 := by
    rw [repetition_rejects block (hcall pre state block post hsplit), cutoff_le_runCount,
      List.map_append, List.length_cons, List.length_reverse]
    unfold REPETITION_COUNT_CUTOFF
    show _ ∧ (past ++ pre.map Prod.snd).length + 1 ≠ 5 ↔ _
    simp only [ne_eq, Nat.reduceEqDiff]
    rfl
  rw [show repetitionFailure = .HealthTestFailure _ from rfl, hfails]
  constructor
  · rintro ⟨⟨state, block⟩, hmem, hfail⟩
    obtain ⟨pre, post, hsplit⟩ := List.append_of_mem hmem
    obtain ⟨hstreak, hlength⟩ := (hrejects pre state block post hsplit).mp hfail
    refine ⟨pre.map Prod.snd, block, ⟨⟨post.map Prod.snd, ?_⟩, hstreak⟩, hlength⟩
    rw [nextTested, hsplit, List.map_append, List.map_cons]
  · rintro ⟨before, block, ⟨⟨after, hsplit⟩, hstreak⟩, hlength⟩
    obtain ⟨pre, rest, htested, hpre, hrest⟩ := List.map_eq_append_iff.mp hsplit
    obtain ⟨⟨state, block'⟩, post, hcons, hblock, -⟩ := List.map_eq_cons_iff.mp hrest
    dsimp only at hblock
    subst hblock hpre hcons
    refine ⟨(state, block'), htested ▸ List.mem_append_right _ List.mem_cons_self, ?_⟩
    exact (hrejects pre state block' post htested).mpr ⟨hstreak, hlength⟩

/-- **The cutoff of the repetition count test.**  In every run, a call fails in the test exactly
when one of its blocks is at least the fifth of a run of equal blocks, unless the only such block is
the fifth one of the instance: the counter of a new instance does not count its first block. -/
theorem repetition_cutoff_iff (aes : Aes) (entropy nonce personalization : List UInt8)
    (calls : List DrbgCall) (call : DrbgCall) :
    let start := instantiated aes entropy nonce personalization
    let past := (start.tested aes calls).map Prod.snd
    let blocks := nextTested aes start calls call
    ((call.exec aes (start.run aes calls).2).1 = .error repetitionFailure ↔
        ∃ before block, Repeated past blocks before block) ↔
      ¬ OnlyFirstRun past blocks := by
  intro start past blocks
  have hfails : (call.exec aes (start.run aes calls).2).1 = .error repetitionFailure ↔
      ∃ before block, Repeated past blocks before block ∧ (past ++ before).length ≠ 4 :=
    exec_repetitionFailure_iff aes entropy nonce personalization calls call
  rw [hfails]
  unfold OnlyFirstRun
  constructor
  · rintro hiff ⟨hsome, honly⟩
    obtain ⟨before, block, hrepeated, hlength⟩ := hiff.mpr hsome
    exact hlength (honly before block hrepeated)
  · intro hnot
    constructor
    · rintro ⟨before, block, hrepeated, -⟩
      exact ⟨before, block, hrepeated⟩
    · intro hsome
      by_contra hnone
      apply hnot
      refine ⟨hsome, fun before block hrepeated => ?_⟩
      by_contra hlength
      exact hnone ⟨before, block, hrepeated, hlength⟩

/-- A cipher that is stuck. -/
def stuckCipher : Aes := fun _ _ => List.Vector.replicate 16 0

/-- The first five blocks of an instance are equal, and the request for them succeeds. -/
theorem repetition_cutoff_first_run :
    let start := instantiated stuckCipher [] [] []
    let call := DrbgCall.generate 80 (.error "")
    ¬ ((call.exec stuckCipher (start.run stuckCipher []).2).1 = .error repetitionFailure ↔
      ∃ before block,
        Repeated ((start.tested stuckCipher []).map Prod.snd)
          (nextTested stuckCipher start [] call) before block) := by
  intro start call hiff
  have hblocks : nextTested stuckCipher start [] call =
      List.replicate 5 (List.Vector.replicate 16 0) := by
    show (seededTested stuckCipher (16 * 5) start).map Prod.snd = _
    rw [seededTested_eq]
    rfl
  have hrepeated : Repeated [] (nextTested stuckCipher start [] call)
      (List.replicate 4 (List.Vector.replicate 16 0)) (List.Vector.replicate 16 0) := by
    rw [hblocks]
    exact ⟨⟨[], rfl⟩, by decide⟩
  obtain ⟨before, block, ⟨⟨after, hsplit⟩, hstreak⟩, hlength⟩ :=
    (exec_repetitionFailure_iff stuckCipher [] [] [] [] call).mp (hiff.mpr ⟨_, _, hrepeated⟩)
  have hrun : 5 ≤ streak (block :: before.reverse) := hstreak
  have hbound := streak_le_length (block :: before.reverse)
  have htotal := congrArg List.length (hblocks.symm.trans hsplit)
  apply hlength
  show before.length = 4
  simp only [List.length_replicate, List.length_append, List.length_cons, List.length_reverse]
    at htotal hbound
  omega

/-! ### The adaptive proportion test -/

/-- The part of the state that the adaptive proportion test uses. -/
structure Proportion where
  window : List UInt8
  counts : Fin 256 → ℕ

def Health.proportion (health : Health) : Proportion :=
  ⟨health.proportionWindow, health.proportionCounts⟩

def DrbgState.proportion (state : DrbgState) : Proportion := state.health.proportion

namespace Proportion

def push (p : Proportion) (sample : UInt8) : Proportion where
  window := p.window ++ [sample]
  counts := Function.update p.counts sample.toFin (p.counts sample.toFin + 1)

def slide (p : Proportion) : Proportion :=
  match p.window with
  | oldest :: window =>
    { window, counts := Function.update p.counts oldest.toFin (p.counts oldest.toFin - 1) }
  | [] => p

/-- The window is full. -/
def Full (p : Proportion) : Prop := ADAPTIVE_PROPORTION_WINDOW ≤ p.window.length

/-- Some value has reached the cutoff. -/
def Biased (p : Proportion) : Prop := ∃ i, ADAPTIVE_PROPORTION_CUTOFF ≤ p.counts i

instance (p : Proportion) : Decidable p.Full := Nat.decLe _ _

instance (p : Proportion) : Decidable p.Biased := inferInstanceAs (Decidable (∃ _, _))

/-- The counts are those of the window. -/
def Counted (p : Proportion) : Prop := ∀ value : UInt8, p.counts value.toFin = p.window.count value

variable {p : Proportion}

theorem counted_push (h : p.Counted) (sample : UInt8) : (p.push sample).Counted := by
  intro value
  show Function.update p.counts _ _ _ = List.count _ (_ ++ _)
  rw [List.count_append, List.count_singleton, ← h value]
  by_cases heq : value = sample
  · subst heq
    simp
  · have hfin : value.toFin ≠ sample.toFin := fun hv => heq (UInt8.toFin_inj.mp hv)
    rw [Function.update_of_ne hfin]
    simp [Ne.symm heq]

/-- The value that leaves the window has been counted. -/
theorem one_le_counts (h : p.Counted) {oldest : UInt8} {window : List UInt8}
    (hwindow : p.window = oldest :: window) : 1 ≤ p.counts oldest.toFin := by
  rw [h oldest, hwindow]
  exact List.count_pos_iff.mpr List.mem_cons_self

theorem counted_slide (h : p.Counted) : p.slide.Counted := by
  unfold slide
  cases hwindow : p.window with
  | nil => exact h
  | cons oldest window =>
    intro value
    have hvalue := h value
    rw [hwindow, List.count_cons] at hvalue
    show Function.update p.counts _ _ _ = window.count value
    by_cases heq : value = oldest
    · subst heq
      rw [Function.update_self, hvalue]
      simp
    · have hfin : value.toFin ≠ oldest.toFin := fun hv => heq (UInt8.toFin_inj.mp hv)
      rw [Function.update_of_ne hfin, hvalue]
      simp [Ne.symm heq]

theorem window_slide (p : Proportion) : p.slide.window = p.window.tail := by
  unfold slide
  cases hwindow : p.window with
  | nil => exact hwindow
  | cons oldest window => rfl

theorem biased_iff (h : p.Counted) :
    p.Biased ↔ ∃ value, ADAPTIVE_PROPORTION_CUTOFF ≤ p.window.count value := by
  constructor
  · rintro ⟨i, hi⟩
    refine ⟨UInt8.ofFin i, ?_⟩
    rw [← h]
    exact hi
  · rintro ⟨value, hvalue⟩
    exact ⟨value.toFin, (h value).symm ▸ hvalue⟩

/-- What the test leaves of a pushed sample: only a test that passes slides the window. -/
def settle (p : Proportion) : Proportion := if p.Full ∧ ¬ p.Biased then p.slide else p

theorem counted_settle (h : p.Counted) : p.settle.Counted := by
  unfold settle
  split
  · exact counted_slide h
  · exact h

end Proportion

theorem adaptiveProportionTest_spec (state : DrbgState) (block : Bytes 16) :
    (adaptiveProportionTest state block).2.proportion =
        (state.proportion.push block.head).settle ∧
      ((adaptiveProportionTest state block).1 = .error proportionFailure ↔
        (state.proportion.push block.head).Full ∧ (state.proportion.push block.head).Biased) := by
  unfold Proportion.settle
  by_cases hfull : (state.proportion.push block.head).Full
  · have hlen : ADAPTIVE_PROPORTION_WINDOW ≤ (state.proportionWindow ++ [block.head]).length :=
      hfull
    by_cases hbiased : (state.proportion.push block.head).Biased
    · have hcut : ∃ i, Function.update state.proportionCounts block.head.toFin
          (state.proportionCounts block.head.toFin + 1) i ≥ ADAPTIVE_PROPORTION_CUTOFF := hbiased
      simp only [adaptiveProportionTest, hfull, hbiased, ge_iff_le, if_pos hlen, if_pos hcut]
      exact ⟨rfl, by simp [proportionFailure]⟩
    · have hcut : ¬ ∃ i, Function.update state.proportionCounts block.head.toFin
          (state.proportionCounts block.head.toFin + 1) i ≥ ADAPTIVE_PROPORTION_CUTOFF := hbiased
      simp only [adaptiveProportionTest, hfull, hbiased, ge_iff_le, if_pos hlen, if_neg hcut]
      cases hwindow : state.proportionWindow ++ [block.head] with
      | nil => simp at hwindow
      | cons oldest window =>
        have hslide : (state.proportion.push block.head).window = oldest :: window := hwindow
        simp only [Proportion.slide, hslide]
        exact ⟨rfl, by simp⟩
  · have hlen : ¬ ADAPTIVE_PROPORTION_WINDOW ≤ (state.proportionWindow ++ [block.head]).length :=
      hfull
    simp only [adaptiveProportionTest, hfull, ge_iff_le, if_neg hlen]
    exact ⟨rfl, by simp⟩

/-- The block reaches the adaptive proportion test: the repetition count test lets it through. -/
def isSample (state : DrbgState) (block : Bytes 16) : Bool :=
  (repetitionCountTest state block).1.isOk

/-- The tests of a block, seen from the adaptive proportion test. -/
theorem healthTest_proportion (state : DrbgState) (block : Bytes 16) :
    (healthTest state block).2.proportion =
        (if isSample state block then (state.proportion.push block.head).settle
        else state.proportion) ∧
      ((healthTest state block).1 = .error proportionFailure ↔ isSample state block ∧
        (state.proportion.push block.head).Full ∧ (state.proportion.push block.head).Biased) := by
  obtain ⟨hhealth, hresult⟩ := repetitionCountTest_spec state block
  unfold healthTest isSample
  generalize repetitionCountTest state block = test at hhealth hresult ⊢
  obtain ⟨result, tested⟩ := test
  have hkept : tested.proportion = state.proportion := by
    have hproportion := congrArg Health.proportion hhealth
    exact hproportion
  cases result with
  | error e =>
    refine ⟨hkept, ?_⟩
    dsimp only at hresult
    split at hresult
    · rw [hresult]
      simp [repetitionFailure, proportionFailure, Except.isOk, Except.toBool]
    · cases hresult
  | ok _ =>
    have hspec := adaptiveProportionTest_spec tested block
    rw [hkept] at hspec
    exact ⟨hspec.1, by simpa [Except.isOk, Except.toBool] using hspec.2⟩

/-- The first bytes of the blocks of `trace` that have reached the adaptive proportion test. -/
def samples (trace : List (DrbgState × Bytes 16)) : List UInt8 :=
  (trace.filter fun p => isSample p.1 p.2).map fun p => p.2.head

theorem samples_concat (past : List (DrbgState × Bytes 16)) (state : DrbgState)
    (block : Bytes 16) : samples (past ++ [(state, block)]) =
      if isSample state block then samples past ++ [block.head] else samples past := by
  unfold samples
  rw [List.filter_append, List.map_append]
  by_cases h : isSample state block
  · simp [h]
  · simp [h]

/-- No 512 consecutive samples hold a value 290 times. -/
def Unbiased (samples : List UInt8) : Prop :=
  ∀ past, past <+: samples → ADAPTIVE_PROPORTION_WINDOW ≤ past.length →
    ∀ value, (past.rtake ADAPTIVE_PROPORTION_WINDOW).count value < ADAPTIVE_PROPORTION_CUTOFF

theorem unbiased_concat {samples : List UInt8} {sample : UInt8} :
    Unbiased (samples ++ [sample]) ↔ Unbiased samples ∧
      (ADAPTIVE_PROPORTION_WINDOW ≤ (samples ++ [sample]).length → ∀ value,
        ((samples ++ [sample]).rtake ADAPTIVE_PROPORTION_WINDOW).count value <
          ADAPTIVE_PROPORTION_CUTOFF) := by
  constructor
  · intro h
    refine ⟨fun past hpast => h past (hpast.trans (List.prefix_append _ _)), ?_⟩
    exact h _ (List.prefix_refl _)
  · rintro ⟨h, hlast⟩ past hpast
    rcases List.prefix_concat_iff.mp hpast with rfl | hpast
    · exact hlast
    · exact h past hpast

/-- The state of the adaptive proportion test after the blocks of `past`. -/
structure ProportionInv (past : List (DrbgState × Bytes 16)) (p : Proportion) : Prop where
  counted : p.Counted
  window : Unbiased (samples past) →
    p.window = (samples past).rtake (ADAPTIVE_PROPORTION_WINDOW - 1)

section Step

variable {past : List (DrbgState × Bytes 16)} {p : Proportion} (sample : UInt8)

theorem window_push (hwindow : p.window = (samples past).rtake (ADAPTIVE_PROPORTION_WINDOW - 1)) :
    (p.push sample).window = (samples past ++ [sample]).rtake ADAPTIVE_PROPORTION_WINDOW := by
  show p.window ++ [sample] = _
  rw [hwindow]
  exact (List.rtake_concat_succ _ _ _).symm

theorem full_push (hwindow : p.window = (samples past).rtake (ADAPTIVE_PROPORTION_WINDOW - 1)) :
    (p.push sample).Full ↔ ADAPTIVE_PROPORTION_WINDOW ≤ (samples past ++ [sample]).length := by
  unfold Proportion.Full
  rw [window_push sample hwindow, length_rtake]
  omega

/-- A test that passes leaves the window of the last 511 samples. -/
theorem window_settle (hcounted : p.Counted)
    (hwindow : p.window = (samples past).rtake (ADAPTIVE_PROPORTION_WINDOW - 1))
    (hunbiased : Unbiased (samples past ++ [sample])) :
    (p.push sample).settle.window =
      (samples past ++ [sample]).rtake (ADAPTIVE_PROPORTION_WINDOW - 1) := by
  have hpush := window_push sample hwindow
  have hfull := full_push sample hwindow
  unfold Proportion.settle
  by_cases hlen : ADAPTIVE_PROPORTION_WINDOW ≤ (samples past ++ [sample]).length
  · have hnot : ¬ (p.push sample).Biased := by
      rw [Proportion.biased_iff (Proportion.counted_push hcounted sample), hpush]
      rintro ⟨value, hvalue⟩
      have hlt := (unbiased_concat.mp hunbiased).2 hlen value
      omega
    rw [if_pos ⟨hfull.mpr hlen, hnot⟩, Proportion.window_slide, hpush]
    exact tail_rtake_succ hlen
  · rw [if_neg fun h => hlen (hfull.mp h.1), hpush, rtake_of_length_le (by omega),
      rtake_of_length_le (by omega)]

end Step

theorem proportionInv_step {past : List (DrbgState × Bytes 16)} {state : DrbgState}
    (block : Bytes 16) (hinv : ProportionInv past state.proportion) :
    ProportionInv (past ++ [(state, block)]) (healthTest state block).2.proportion := by
  rw [(healthTest_proportion state block).1]
  by_cases hsample : isSample state block
  · rw [if_pos hsample]
    refine ⟨Proportion.counted_settle (Proportion.counted_push hinv.counted _), ?_⟩
    rw [samples_concat, if_pos hsample]
    intro hunbiased
    have hwindow := hinv.window (unbiased_concat.mp hunbiased).1
    exact window_settle _ hinv.counted hwindow hunbiased
  · rw [if_neg hsample]
    refine ⟨hinv.counted, ?_⟩
    rw [samples_concat, if_neg hsample]
    exact hinv.window

/-- The adaptive proportion test of `block` after the blocks of `past` is the test of the 512 last
samples. -/
structure Proportioned (past : List (DrbgState × Bytes 16)) (state : DrbgState)
    (block : Bytes 16) : Prop where
  /-- The counts are those of the window. -/
  counted : (healthTest state block).2.proportion.Counted
  /-- The count of the oldest sample is not zero when one is taken from it. -/
  subtracts : ∀ oldest window, (state.proportion.push block.head).window = oldest :: window →
    1 ≤ (state.proportion.push block.head).counts oldest.toFin
  window : (healthTest state block).2.proportionWindow =
    (samples (past ++ [(state, block)])).rtake (ADAPTIVE_PROPORTION_WINDOW - 1)
  rejected : (healthTest state block).1 = .error proportionFailure ↔ isSample state block ∧
    ADAPTIVE_PROPORTION_WINDOW ≤ (samples (past ++ [(state, block)])).length ∧
    ∃ value, ADAPTIVE_PROPORTION_CUTOFF ≤
      ((samples (past ++ [(state, block)])).rtake ADAPTIVE_PROPORTION_WINDOW).count value

/-- The state before each tested block of a run. -/
theorem proportionInv_tested (aes : Aes) (entropy nonce personalization : List UInt8)
    (calls : List DrbgCall) (past : List (DrbgState × Bytes 16)) (state : DrbgState)
    (block : Bytes 16) (future : List (DrbgState × Bytes 16))
    (hsplit : (instantiated aes entropy nonce personalization).tested aes calls =
      past ++ (state, block) :: future) : ProportionInv past state.proportion := by
  have hstart : ProportionInv [] (instantiated aes entropy nonce personalization).proportion :=
    ⟨fun _ => rfl, fun _ => rfl⟩
  have hfed := (instantiated aes entropy nonce personalization).fed_run aes calls
  have hinv := hfed.invariant (I := fun past health => ProportionInv past health.proportion)
    (fun past state block => proportionInv_step block) hstart
  exact hinv.2 past state block future hsplit

theorem proportioned_of_unbiased {past : List (DrbgState × Bytes 16)} {state : DrbgState}
    {block : Bytes 16} (hinv : ProportionInv past state.proportion)
    (hunbiased : Unbiased (samples (past ++ [(state, block)]))) :
    Proportioned past state block := by
  have hpushed := Proportion.counted_push hinv.counted block.head
  have hafter := proportionInv_step block hinv
  refine ⟨hafter.counted, fun oldest window => Proportion.one_le_counts hpushed,
    hafter.window hunbiased, ?_⟩
  rw [(healthTest_proportion state block).2]
  apply and_congr_right
  intro hsample
  rw [samples_concat, if_pos hsample] at hunbiased ⊢
  have hwindow := hinv.window (unbiased_concat.mp hunbiased).1
  rw [full_push _ hwindow, Proportion.biased_iff hpushed, window_push _ hwindow]

/-- A biased window is tested once and never left. -/
theorem unbiased_of_proportioned {past : List (DrbgState × Bytes 16)} {state : DrbgState}
    {block : Bytes 16} (hinv : ProportionInv past state.proportion)
    (hpast : Unbiased (samples past)) (h : Proportioned past state block) :
    Unbiased (samples (past ++ [(state, block)])) := by
  have hwindow := h.window
  rw [samples_concat] at hwindow ⊢
  by_cases hsample : isSample state block
  · rw [if_pos hsample] at hwindow ⊢
    refine unbiased_concat.mpr ⟨hpast, fun hlen value => ?_⟩
    by_contra hcut
    have hpushed := Proportion.counted_push hinv.counted block.head
    have hbefore := hinv.window hpast
    have hfull := (full_push block.head hbefore).mpr hlen
    have hbiased : (state.proportion.push block.head).Biased := by
      rw [Proportion.biased_iff hpushed, window_push _ hbefore]
      exact ⟨value, Nat.le_of_not_lt hcut⟩
    -- the window keeps the sample that made the test fail
    have hkept : (healthTest state block).2.proportionWindow =
        (state.proportion.push block.head).window := by
      have htest := (healthTest_proportion state block).1
      rw [if_pos hsample, Proportion.settle, if_neg fun hnot => hnot.2 hbiased] at htest
      exact congrArg Proportion.window htest
    have hlong :
        ADAPTIVE_PROPORTION_WINDOW ≤ (healthTest state block).2.proportionWindow.length := by
      rw [hkept]
      exact hfull
    rw [hwindow, length_rtake] at hlong
    unfold ADAPTIVE_PROPORTION_WINDOW at hlong
    omega
  · rw [if_neg hsample]
    exact hpast

theorem unbiased_of_prefix (aes : Aes) (entropy nonce personalization : List UInt8)
    (calls : List DrbgCall)
    (h : ∀ past state block future,
      (instantiated aes entropy nonce personalization).tested aes calls =
        past ++ (state, block) :: future → Proportioned past state block)
    (past : List (DrbgState × Bytes 16))
    (hpast : past <+: (instantiated aes entropy nonce personalization).tested aes calls) :
    Unbiased (samples past) := by
  induction past using List.reverseRecOn with
  | nil =>
    intro short hshort hlen
    have hnil : short.length ≤ ([] : List UInt8).length := hshort.length_le
    unfold ADAPTIVE_PROPORTION_WINDOW at hlen
    simp only [List.length_nil] at hnil
    omega
  | append_singleton past p ih =>
    obtain ⟨state, block⟩ := p
    obtain ⟨future, hfuture⟩ := hpast
    rw [List.append_assoc] at hfuture
    have hinv := proportionInv_tested aes entropy nonce personalization calls past state block
      future hfuture.symm
    exact unbiased_of_proportioned hinv (ih ⟨_, hfuture⟩)
      (h past state block future hfuture.symm)

/-- The counts are always those of the window, and no subtraction saturates. -/
theorem counted_tested (aes : Aes) (entropy nonce personalization : List UInt8)
    (calls : List DrbgCall) (past : List (DrbgState × Bytes 16)) (state : DrbgState)
    (block : Bytes 16) (future : List (DrbgState × Bytes 16))
    (hsplit : (instantiated aes entropy nonce personalization).tested aes calls =
      past ++ (state, block) :: future) :
    (healthTest state block).2.proportion.Counted ∧
      ∀ oldest window, (state.proportion.push block.head).window = oldest :: window →
        1 ≤ (state.proportion.push block.head).counts oldest.toFin := by
  have hinv := proportionInv_tested aes entropy nonce personalization calls past state block
    future hsplit
  exact ⟨(proportionInv_step block hinv).counted,
    fun _ _ => Proportion.one_le_counts (Proportion.counted_push hinv.counted block.head)⟩

/-- Up to 512 blocks without a repetition are all samples. -/
theorem samples_testBlocks {state : DrbgState} {blocks : List (Bytes 16)}
    (hdistinct : (state.lastBlock.toList ++ blocks).IsChain (· ≠ ·))
    (hlen : state.proportionWindow.length + blocks.length ≤ ADAPTIVE_PROPORTION_WINDOW) :
    samples (testBlocks state blocks) = blocks.map List.Vector.head := by
  induction blocks generalizing state with
  | nil => rfl
  | cons block blocks ih =>
    have hfresh : state.lastBlock ≠ some block := by
      intro hlast
      rw [hlast] at hdistinct
      exact (List.isChain_cons_cons.mp hdistinct).1 rfl
    have hsample : isSample state block := by
      unfold isSample
      rw [(repetitionCountTest_spec state block).2, if_neg fun h => hfresh h.1]
      rfl
    obtain ⟨hafter, hfail⟩ := healthTest_proportion state block
    obtain ⟨hlast, -, hrepeat⟩ := healthTest_repetition state block
    rw [if_pos hsample] at hafter
    have hconcat (future : List (DrbgState × Bytes 16)) :
        samples ((state, block) :: future) = block.head :: samples future := by
      simp [samples, hsample]
    have hresult := healthTest_result state block
    unfold testBlocks
    generalize healthTest state block = test at hafter hfail hlast hrepeat hresult ⊢
    obtain ⟨result, next⟩ := test
    dsimp only at hafter hfail hlast hrepeat hresult ⊢
    rw [List.length_cons] at hlen
    rcases hresult with rfl | rfl | rfl
    · -- the window grows by one sample at most
      dsimp only
      rw [hconcat, List.map_cons, ih]
      · rw [hlast]
        cases hprevious : state.lastBlock with
        | none => simpa [hprevious] using hdistinct
        | some last =>
          rw [hprevious] at hdistinct
          exact (List.isChain_cons_cons.mp hdistinct).2
      · have hwindow : next.proportionWindow =
            (state.proportion.push block.head).settle.window := congrArg Proportion.window hafter
        have hpush : (state.proportion.push block.head).window.length =
            state.proportionWindow.length + 1 := List.length_append
        have hsettle : (state.proportion.push block.head).settle.window.length ≤
            state.proportionWindow.length + 1 := by
          unfold Proportion.settle
          split
          · rw [Proportion.window_slide, List.length_tail]
            omega
          · exact hpush.le
        rw [hwindow]
        omega
    · exact absurd (hrepeat.mp rfl).1 hfresh
    · -- only the last block can fill the window
      have hfull : ADAPTIVE_PROPORTION_WINDOW ≤ (state.proportionWindow ++ [block.head]).length :=
        (hfail.mp rfl).2.1
      rw [List.length_append, List.length_singleton] at hfull
      have hnil : blocks = [] := List.length_eq_zero_iff.mp (by omega)
      rw [hnil, hconcat]
      rfl

/-- A cipher that keeps the first byte at zero. -/
def biasedCipher : Aes := fun _ v => 0 ::ᵥ v.tail

/-- The last byte of the counter changes with every increment. -/
theorem incrementCounter_tail (v : Bytes COUNTER_LENGTH) : (incrementCounter v).tail ≠ v.tail := by
  intro htail
  have hlast (w : Bytes COUNTER_LENGTH) : w.tail.toList.getLast? = w.toList.reverse.head? := by
    rw [List.head?_reverse, List.Vector.toList_tail, List.getLast?_tail, w.toList_length]
    rfl
  have heq : (incrementCounter v).tail.toList.getLast? = v.tail.toList.getLast? := by rw [htail]
  rw [hlast (incrementCounter v), hlast v] at heq
  have hrev : (incrementCounter v).toList.reverse = incrementBytes v.toList.reverse :=
    List.reverse_reverse _
  rw [hrev] at heq
  cases hbytes : v.toList.reverse with
  | nil =>
    have hlen := congrArg List.length hbytes
    rw [List.length_reverse, v.toList_length] at hlen
    cases hlen
  | cons byte bytes =>
    rw [hbytes] at heq
    have hhead : (incrementBytes (byte :: bytes)).head? = some (byte + 1) := by
      unfold incrementBytes
      dsimp only
      split <;> rfl
    rw [hhead, List.head?_cons, Option.some.injEq] at heq
    have hnat := congrArg UInt8.toNat heq
    have hlt : byte.toNat < 256 := byte.toNat_lt
    rw [UInt8.toNat_add] at hnat
    have hone : (1 : UInt8).toNat = 1 := rfl
    omega

theorem isChain_biasedCipher (key : Bytes KEY_LENGTH) (n : ℕ) (v : Bytes COUNTER_LENGTH) :
    ((counterValues v n).map (biasedCipher key)).IsChain (· ≠ ·) := by
  induction n generalizing v with
  | zero => exact List.IsChain.nil
  | succ n ih =>
    cases n with
    | zero => exact List.IsChain.singleton _
    | succ n =>
      have hrest := ih (incrementCounter v)
      rw [counterValues_succ, counterValues_succ, List.map_cons, List.map_cons] at *
      refine List.isChain_cons_cons.mpr ⟨?_, hrest⟩
      intro heq
      exact incrementCounter_tail (incrementCounter v) (congrArg List.Vector.tail heq).symm

theorem samples_biasedCipher {start : DrbgState} (hlast : start.lastBlock = none)
    (hwindow : start.proportionWindow = []) {n : ℕ} (hn : n ≤ ADAPTIVE_PROPORTION_WINDOW) :
    samples (seededTested biasedCipher (16 * n) start) = List.replicate n 0 := by
  have hlen : (counterValues start.v n).length = n := by simp [counterValues]
  rw [seededTested_eq, samples_testBlocks, List.map_map, List.eq_replicate_iff]
  · refine ⟨by rw [List.length_map, hlen], fun byte hbyte => ?_⟩
    obtain ⟨v, -, rfl⟩ := List.mem_map.mp hbyte
    rfl
  · dsimp only
    rw [hlast]
    exact isChain_biasedCipher start.key n start.v
  · dsimp only
    rw [hwindow, List.length_map, hlen, List.length_nil, Nat.zero_add]
    exact hn

/-- **The window of the adaptive proportion test.**  Along a run the test is the test of the last
512 samples, on every block, exactly when no 512 consecutive samples are biased: a test that fails
returns before it drops the oldest sample, and the window is too long from then on. -/
theorem proportioned_iff (aes : Aes) (entropy nonce personalization : List UInt8)
    (calls : List DrbgCall) :
    let trace := (instantiated aes entropy nonce personalization).tested aes calls
    (∀ past state block future, trace = past ++ (state, block) :: future →
      Proportioned past state block) ↔ Unbiased (samples trace) := by
  intro trace
  constructor
  · intro h
    exact unbiased_of_prefix aes entropy nonce personalization calls h _ (List.prefix_refl _)
  · intro hunbiased past state block future hsplit
    have hinv := proportionInv_tested aes entropy nonce personalization calls past state block
      future hsplit
    apply proportioned_of_unbiased hinv
    intro short hshort
    apply hunbiased short
    refine hshort.trans ?_
    refine (List.IsPrefix.filter _ ?_).map _
    rw [hsplit]
    exact ⟨future, by simp⟩

/-- 512 blocks with the same first byte leave 512 samples in the window. -/
theorem proportioned_biased :
    ¬ ∀ past state block future,
      (instantiated biasedCipher [] [] []).tested biasedCipher [.generate 8192 (.error "")] =
        past ++ (state, block) :: future → Proportioned past state block := by
  intro h
  have hunbiased := unbiased_of_prefix biasedCipher [] [] [] _ h _ (List.prefix_refl _)
  have htrace : (instantiated biasedCipher [] [] []).tested biasedCipher
      [.generate 8192 (.error "")] =
      seededTested biasedCipher (16 * ADAPTIVE_PROPORTION_WINDOW)
        (instantiated biasedCipher [] [] []) := by
    have hsize : ¬ 8192 > MAX_BYTES_PER_REQUEST := by decide
    have hcounter : ¬ (instantiated biasedCipher [] [] []).reseedCounter ≥ RESEED_INTERVAL := by
      show ¬ (1 : UInt64) ≥ RESEED_INTERVAL
      decide
    rw [DrbgState.tested, DrbgState.tested, List.append_nil, DrbgCall.tested, if_neg hsize,
      if_neg hcounter]
    rfl
  rw [htrace, samples_biasedCipher rfl rfl (Nat.le_refl _)] at hunbiased
  have hlen := List.length_replicate (n := ADAPTIVE_PROPORTION_WINDOW) (a := (0 : UInt8))
  have hcut := hunbiased _ (List.prefix_refl _) hlen.ge 0
  rw [rtake_of_length_le hlen.le, List.count_replicate_self] at hcut
  exact absurd hcut (by decide)

end Ostrich.Crypto
