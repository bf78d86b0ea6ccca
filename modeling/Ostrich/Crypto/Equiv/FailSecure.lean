import Ostrich.Crypto.Equiv.Health

/-!
# After a failed health test

A failed health test ends the call in which it fails, and nothing marks the instance as failed.
What remains is the state in which the test failed (`Latched`): a full window of a biased sequence,
which rejects every block to come, or the count of a run of equal blocks, which rejects the next
block if it is equal to the last one.

* `failSecure_of_stuck`: no bytes are returned after a failure and before the next seeding, in every
  run in which the requests after a failure have a first whole block that this state rejects
  (`Stuck`);
* `generate_after_failure`: a request for less than a block is answered after a failure.
-/

namespace Ostrich.Crypto

/-! ### The property -/

/-- The call seeds the instance anew, at the start of a generate call if its turn has come. -/
def DrbgCall.Reseeds (state : DrbgState) : DrbgCall → Prop
  | .reseed entropy => ∃ bytes, entropy = .ok bytes
  | .generate numBytes entropy =>
    numBytes ≤ MAX_BYTES_PER_REQUEST ∧ RESEED_INTERVAL ≤ state.reseedCounter ∧
      ∃ bytes, entropy = .ok bytes

section

variable (aes : Aes) (start : DrbgState)

/-- The call failed in a health test. -/
def FailedTest (before : List DrbgCall) (call : DrbgCall) : Prop :=
  ∃ m, (call.exec aes (start.run aes before).2).1 = .error (.HealthTestFailure m)

/-- One of these calls failed in a health test, and none has seeded the instance since. -/
def Tainted (past : List DrbgCall) : Prop :=
  ∃ before call after, past = before ++ call :: after ∧ FailedTest aes start before call ∧
    ∀ between later rest, after = between ++ later :: rest →
      ¬later.Reseeds (start.run aes (before ++ call :: between)).2

/-- **Fail-secure runs**: after a failed health test a call that does not seed the instance returns
no bytes. -/
def FailsSecure (calls : List DrbgCall) : Prop :=
  ∀ past call future, calls = past ++ call :: future → Tainted aes start past →
    ¬call.Reseeds (start.run aes past).2 →
    ∀ output, (call.exec aes (start.run aes past).2).1 = .ok (some output) → output = []

/-- The request is refused for its size, or asks for nothing, or for a whole block at least that the
state rejects: the window is full and biased, or the first block repeats the last one that was
tested. -/
def Stuck (state : DrbgState) : DrbgCall → Prop
  | .reseed _ => True
  | .generate numBytes _ =>
    numBytes = 0 ∨ MAX_BYTES_PER_REQUEST < numBytes ∨
      16 ≤ numBytes ∧ (state.proportion.Full ∧ state.proportion.Biased ∨
        state.lastBlock = some (aes state.key (incrementCounter state.v)))

end

/-! ### What a failed test leaves -/

/-- The state of a test that has failed. -/
def Latched (health : Health) : Prop :=
  health.proportion.Full ∧ health.proportion.Biased ∨
    REPETITION_COUNT_CUTOFF ≤ health.repetitionCount

namespace Proportion

variable {p : Proportion}

theorem Full.push (h : p.Full) (sample : UInt8) : (p.push sample).Full := by
  show _ ≤ (p.window ++ [sample]).length
  rw [List.length_append]
  exact Nat.le_trans h (Nat.le_add_right ..)

theorem Biased.push (h : p.Biased) (sample : UInt8) : (p.push sample).Biased := by
  obtain ⟨i, hi⟩ := h
  refine ⟨i, ?_⟩
  show _ ≤ Function.update p.counts _ _ i
  by_cases heq : i = sample.toFin
  · rw [heq] at hi ⊢
    rw [Function.update_self]
    omega
  · rwa [Function.update_of_ne heq]

theorem settle_of_biased (h : p.Biased) : p.settle = p := by
  unfold settle
  rw [if_neg fun hnot => hnot.2 h]

end Proportion

/-- A test that fails latches. -/
theorem latched_of_healthTest {state : DrbgState} {block : Bytes 16} {e : DrbgError}
    (h : (healthTest state block).1 = .error e) : Latched (healthTest state block).2.health := by
  obtain ⟨hlast, hcount, hrepeat⟩ := healthTest_repetition state block
  obtain ⟨hproportion, hfail⟩ := healthTest_proportion state block
  rcases healthTest_result state block with hok | hrepetition | hbiased
  · rw [hok] at h
    cases h
  · obtain ⟨heq, hcut⟩ := hrepeat.mp hrepetition
    right
    show _ ≤ (healthTest state block).2.repetitionCount
    have hlast' : state.health.lastBlock = some block := heq
    unfold repetitionCountAfter at hcount
    rw [hlast'] at hcount
    dsimp only at hcount
    rw [hcount, if_pos rfl]
    exact hcut
  · obtain ⟨hsample, hfull, hcut⟩ := hfail.mp hbiased
    left
    show (healthTest state block).2.proportion.Full ∧ (healthTest state block).2.proportion.Biased
    rw [hproportion, if_pos hsample, Proportion.settle_of_biased hcut]
    exact ⟨hfull, hcut⟩

/-- The block is one that a latched state rejects. -/
def Rejects (state : DrbgState) (block : Bytes 16) : Prop :=
  state.proportion.Full ∧ state.proportion.Biased ∨
    REPETITION_COUNT_CUTOFF ≤ state.repetitionCount ∧ state.lastBlock = some block

theorem healthTest_of_rejects {state : DrbgState} {block : Bytes 16} (h : Rejects state block) :
    ∃ m, (healthTest state block).1 = .error (.HealthTestFailure m) := by
  obtain ⟨-, -, hrepeat⟩ := healthTest_repetition state block
  obtain ⟨-, hfail⟩ := healthTest_proportion state block
  rcases h with ⟨hfull, hbiased⟩ | ⟨hcut, hlast⟩
  · by_cases hsample : isSample state block = true
    · exact ⟨_, hfail.mpr ⟨hsample, hfull.push _, hbiased.push _⟩⟩
    · -- a block that is no sample is one that the repetition count test rejects
      have hresult := (repetitionCountTest_spec state block).2
      unfold isSample at hsample
      split at hresult
      · rename_i hcut
        exact ⟨_, hrepeat.mpr hcut⟩
      · rw [hresult] at hsample
        exact absurd rfl hsample
  · exact ⟨_, hrepeat.mpr ⟨hlast, by omega⟩⟩

/-! ### Calls -/

/-- The tests of an output that fail leave a latched state. -/
theorem latched_of_continuousHealthTests {state : DrbgState} {output : List UInt8} {e : DrbgError}
    (h : (continuousHealthTests state output).1 = .error e) :
    Latched (continuousHealthTests state output).2.health := by
  fun_induction continuousHealthTests state output with
  | case1 state output hlen e' next heq =>
    have hfail := latched_of_healthTest (congrArg Prod.fst heq)
    rwa [heq] at hfail
  | case2 state output hlen next heq ih => exact ih h
  | case3 state output hlen => cases h

theorem generateSeeded_latched {aes : Aes} {numBytes : ℕ} {state : DrbgState} {e : DrbgError}
    (h : (generateSeeded aes numBytes state).1 = .error e) :
    Latched (generateSeeded aes numBytes state).2.health := by
  unfold generateSeeded at h ⊢
  generalize generateAlgorithm aes state numBytes = generated at h ⊢
  obtain ⟨output, advanced⟩ := generated
  have hlatched := @latched_of_continuousHealthTests advanced output e
  dsimp only at h ⊢
  generalize continuousHealthTests advanced output = tests at h hlatched ⊢
  obtain ⟨result, after⟩ := tests
  cases result with
  | error e' =>
    have heq : e' = e := Except.error.inj h
    exact hlatched (congrArg _ heq)
  | ok _ => cases h

/-- A request for nothing is answered with nothing and tests nothing. -/
theorem generateSeeded_zero (aes : Aes) (state : DrbgState) :
    (generateSeeded aes 0 state).1 = .ok [] ∧
      (generateSeeded aes 0 state).2.health = state.health := by
  have hhealth := health_generateAlgorithm aes state 0
  have hnothing : (generateAlgorithm aes state 0).1 = [] := rfl
  have htests (tested : DrbgState) : continuousHealthTests tested [] = (.ok (), tested) := by
    rw [continuousHealthTests, dif_neg (by simp)]
  unfold generateSeeded
  generalize generateAlgorithm aes state 0 = generated at hhealth hnothing ⊢
  obtain ⟨output, advanced⟩ := generated
  dsimp only at hhealth hnothing ⊢
  rw [hnothing, htests]
  have hupdate := health_update aes advanced (List.replicate SEED_LENGTH 0)
  dsimp only
  generalize update aes advanced (List.replicate SEED_LENGTH 0) = updated at hupdate ⊢
  exact ⟨rfl, hupdate.trans hhealth⟩

/-- The first block of a request. -/
theorem generateAlgorithm_take (aes : Aes) (state : DrbgState) {numBytes : ℕ} (h : 16 ≤ numBytes) :
    (generateAlgorithm aes state numBytes).1.take 16 =
      (aes state.key (incrementCounter state.v)).toList := by
  rw [generateAlgorithm_eq]
  have hneeded : ∃ n, blocksNeeded numBytes = n + 1 := by
    refine ⟨blocksNeeded numBytes - 1, ?_⟩
    unfold blocksNeeded
    omega
  obtain ⟨n, hn⟩ := hneeded
  dsimp only
  rw [List.take_take, Nat.min_eq_left h, hn, counterValues_succ, List.flatMap_cons]
  exact List.take_left' (List.Vector.toList_length _)

/-- A request whose first whole block is rejected fails. -/
theorem generateSeeded_of_rejects {aes : Aes} {numBytes : ℕ} {state : DrbgState}
    (hsize : 16 ≤ numBytes) (h : Rejects state (aes state.key (incrementCounter state.v))) :
    ∃ m, (generateSeeded aes numBytes state).1 = .error (.HealthTestFailure m) := by
  have hfirst := generateAlgorithm_take aes state hsize
  have hhealth := health_generateAlgorithm aes state numBytes
  unfold generateSeeded
  generalize generateAlgorithm aes state numBytes = generated at hfirst hhealth ⊢
  obtain ⟨output, advanced⟩ := generated
  dsimp only at hfirst hhealth ⊢
  have hlen : (output.take 16).length = 16 := by
    rw [hfirst]
    exact List.Vector.toList_length _
  have hblock : (⟨output.take 16, hlen⟩ : Bytes 16) = aes state.key (incrementCounter state.v) :=
    List.Vector.eq _ _ hfirst
  have hrejects : Rejects advanced ⟨output.take 16, hlen⟩ := by
    rw [hblock]
    have hproportion : advanced.proportion = state.proportion :=
      congrArg Health.proportion hhealth
    have hcount : advanced.repetitionCount = state.repetitionCount :=
      congrArg Health.repetitionCount hhealth
    have hlast : advanced.lastBlock = state.lastBlock := congrArg Health.lastBlock hhealth
    unfold Rejects
    rw [hproportion, hcount, hlast]
    exact h
  obtain ⟨m, hfail⟩ := healthTest_of_rejects hrejects
  have htests : (continuousHealthTests advanced output).1 = .error (.HealthTestFailure m) := by
    rw [continuousHealthTests, dif_pos hlen]
    generalize healthTest advanced ⟨output.take 16, hlen⟩ = test at hfail ⊢
    obtain ⟨result, next⟩ := test
    dsimp only at hfail
    rw [hfail]
  generalize continuousHealthTests advanced output = tests at htests ⊢
  obtain ⟨result, after⟩ := tests
  dsimp only at htests
  rw [htests]
  exact ⟨m, rfl⟩

/-- A call that fails in a health test leaves a latched state. -/
theorem DrbgCall.latched_of_failed {aes : Aes} {state : DrbgState} {call : DrbgCall} {m : String}
    (h : (call.exec aes state).1 = .error (.HealthTestFailure m)) :
    Latched (call.exec aes state).2.health := by
  cases call with
  | reseed entropy =>
    cases entropy with
    | error e => cases h
    | ok bytes => cases h
  | generate numBytes entropy =>
    have hseeded {state : DrbgState} (h : (generateSeeded aes numBytes state).1.map some =
        .error (.HealthTestFailure m)) : Latched (generateSeeded aes numBytes state).2.health := by
      refine generateSeeded_latched (e := .HealthTestFailure m) ?_
      generalize (generateSeeded aes numBytes state).1 = result at h
      cases result with
      | error e => exact congrArg _ (Except.error.inj h)
      | ok output => cases h
    simp only [exec] at h ⊢
    unfold Crypto.generate at h ⊢
    by_cases hlarge : numBytes > MAX_BYTES_PER_REQUEST
    · simp only [if_pos hlarge] at h
      cases h
    · simp only [if_neg hlarge] at h ⊢
      by_cases hseed : state.reseedCounter ≥ RESEED_INTERVAL
      · simp only [if_pos hseed] at h ⊢
        cases entropy with
        | error e => cases h
        | ok bytes => exact hseeded h
      · simp only [if_neg hseed] at h ⊢
        exact hseeded h

/-- In a latched state a stuck call that does not seed the instance returns no bytes, and leaves the
state latched. -/
theorem DrbgCall.exec_of_stuck {aes : Aes} {state : DrbgState} {call : DrbgCall}
    (hlatched : Latched state.health) (hstuck : Stuck aes state call)
    (hreseeds : ¬call.Reseeds state) :
    (∀ output, (call.exec aes state).1 = .ok (some output) → output = []) ∧
      Latched (call.exec aes state).2.health := by
  cases call with
  | reseed entropy =>
    cases entropy with
    | error e => exact ⟨fun output h => by (cases h), hlatched⟩
    | ok bytes => exact absurd ⟨bytes, rfl⟩ hreseeds
  | generate numBytes entropy =>
    simp only [exec]
    unfold Crypto.generate
    by_cases hlarge : numBytes > MAX_BYTES_PER_REQUEST
    · simp only [if_pos hlarge]
      exact ⟨fun output h => by (cases h), hlatched⟩
    · simp only [if_neg hlarge]
      by_cases hseed : state.reseedCounter ≥ RESEED_INTERVAL
      · simp only [if_pos hseed]
        cases entropy with
        | error e => exact ⟨fun output h => by (cases h), hlatched⟩
        | ok bytes => exact absurd ⟨Nat.le_of_not_lt hlarge, hseed, bytes, rfl⟩ hreseeds
      · simp only [if_neg hseed]
        rcases hstuck with rfl | hlarge' | ⟨hsize, hfirst⟩
        · obtain ⟨hresult, hhealth⟩ := generateSeeded_zero aes state
          refine ⟨fun output h => ?_, hhealth.symm ▸ hlatched⟩
          rw [hresult] at h
          exact (Option.some.inj (Except.ok.inj h)).symm
        · exact absurd hlarge' hlarge
        · have hrejects : Rejects state (aes state.key (incrementCounter state.v)) := by
            rcases hfirst with hbiased | hlast
            · exact .inl hbiased
            · rcases hlatched with hbiased | hcount
              · exact .inl hbiased
              · exact .inr ⟨hcount, hlast⟩
          obtain ⟨m, hfail⟩ := generateSeeded_of_rejects hsize hrejects
          refine ⟨fun output h => ?_, generateSeeded_latched hfail⟩
          rw [hfail] at h
          cases h

/-! ### Runs -/

theorem DrbgState.run_append (aes : Aes) (state : DrbgState) (past future : List DrbgCall) :
    (state.run aes (past ++ future)).2 = ((state.run aes past).2.run aes future).2 := by
  induction past generalizing state with
  | nil => rfl
  | cons call past ih => exact ih _

/-- A tainted instance is latched, if the calls since the failure were stuck. -/
theorem latched_of_tainted {aes : Aes} {start : DrbgState} {past : List DrbgCall}
    (h : ∀ before call future, past = before ++ call :: future → Tainted aes start before →
      ¬call.Reseeds (start.run aes before).2 → Stuck aes (start.run aes before).2 call)
    (htainted : Tainted aes start past) : Latched (start.run aes past).2.health := by
  obtain ⟨before, call, after, rfl, ⟨m, hfail⟩, hsince⟩ := htainted
  induction after using List.reverseRecOn with
  | nil =>
    rw [DrbgState.run_append]
    exact DrbgCall.latched_of_failed hfail
  | append_singleton after later ih =>
    have hpast : before ++ call :: (after ++ [later]) = (before ++ call :: after) ++ [later] := by
      rw [List.append_assoc, List.cons_append]
    have hbefore : ∀ between earlier rest, after = between ++ earlier :: rest →
        ¬earlier.Reseeds (start.run aes (before ++ call :: between)).2 := by
      intro between earlier rest hsplit
      refine hsince between earlier (rest ++ [later]) ?_
      rw [hsplit, List.append_assoc, List.cons_append]
    have hlatched := ih (fun before' call' future hsplit =>
      h before' call' (future ++ [later]) <| by
      rw [hpast, hsplit, List.append_assoc, List.cons_append]) hbefore
    have hreseeds := hsince after later [] rfl
    have hstuck := h _ later [] hpast ⟨before, call, after, rfl, ⟨m, hfail⟩, hbefore⟩ hreseeds
    rw [hpast, DrbgState.run_append]
    exact (DrbgCall.exec_of_stuck hlatched hstuck hreseeds).2

/-- **After a failed health test**: in every run in which each call after a failure and before the
next seeding is stuck, no call after a failure returns bytes before the next seeding. -/
theorem failSecure_of_stuck (aes : Aes) (start : DrbgState) (calls : List DrbgCall)
    (h : ∀ past call future, calls = past ++ call :: future → Tainted aes start past →
      ¬call.Reseeds (start.run aes past).2 → Stuck aes (start.run aes past).2 call) :
    FailsSecure aes start calls := by
  intro past call future hsplit htainted hreseeds
  have hlatched : Latched (start.run aes past).2.health := by
    refine latched_of_tainted (fun before call' future' hpast => ?_) htainted
    refine h before call' (future' ++ call :: future) ?_
    rw [hsplit, hpast, List.append_assoc, List.cons_append]
  exact (DrbgCall.exec_of_stuck hlatched (h past call future hsplit htainted hreseeds) hreseeds).1

/-- The requests that follow the failed one have a whole block, which is again the same. -/
theorem failSecure_of_stuck_again :
    FailsSecure stuckCipher (instantiated stuckCipher [] [] [])
      [.generate 96 (.error ""), .generate 16 (.error "")] := by
  apply failSecure_of_stuck
  intro past call future hsplit htainted _
  rcases past with _ | ⟨first, _ | ⟨second, past⟩⟩
  · obtain ⟨before, failed, after, hnil, -⟩ := htainted
    simp at hnil
  · simp only [List.cons_append, List.nil_append, List.cons.injEq] at hsplit
    obtain ⟨rfl, rfl, -⟩ := hsplit
    have hlast : ((instantiated stuckCipher [] [] []).run stuckCipher
        [.generate 96 (.error "")]).2.lastBlock = some (List.Vector.replicate 16 0) := by
      decide +kernel
    exact .inr (.inr ⟨by decide, .inr hlast⟩)
  · simp at hsplit

/-- A stuck generator fails the request for six blocks, and answers the next one for eight bytes. -/
theorem generate_after_failure :
    ¬FailsSecure stuckCipher (instantiated stuckCipher [] [] [])
      [.generate 96 (.error ""), .generate 8 (.error "")] := by
  intro h
  have hfail : FailedTest stuckCipher (instantiated stuckCipher [] [] []) []
      (.generate 96 (.error "")) :=
    ⟨"Repetition count test failed - possible stuck-at fault", by decide +kernel⟩
  have htainted : Tainted stuckCipher (instantiated stuckCipher [] [] [])
      [.generate 96 (.error "")] :=
    ⟨[], _, [], rfl, hfail, fun between later rest hsplit => by simp at hsplit⟩
  have hreseeds : ¬DrbgCall.Reseeds ((instantiated stuckCipher [] [] []).run stuckCipher
      [.generate 96 (.error "")]).2 (.generate 8 (.error "")) := by
    rintro ⟨-, -, bytes, hbytes⟩
    cases hbytes
  have houtput : ((DrbgCall.generate 8 (.error "")).exec stuckCipher
      ((instantiated stuckCipher [] [] []).run stuckCipher [.generate 96 (.error "")]).2).1 =
      .ok (some (List.replicate 8 0)) := by
    decide +kernel
  have hnone := h _ _ [] rfl htainted hreseeds _ houtput
  cases hnone

end Ostrich.Crypto
