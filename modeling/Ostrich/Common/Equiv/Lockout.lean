import Ostrich.Common.Lockout
import Mathlib.Data.Finset.Card
import Mathlib.Data.Finset.Range
import Mathlib.Tactic.Linarith
import Mathlib.Tactic.Ring

/-!
# The lockout bounds the rate of guesses

* `rate_bounded`: where each attempt is made after a check that allowed it, an interval as long as
  the window has at most `k + W/D` of them, if no window can hold 2³² attempts;
* `rate_exceeded`: with the largest threshold the count of the attempts wraps before the lockout
  can count.
-/

namespace Ostrich.Common.AuthLockout

open Finset

/-! ### The property -/

/-- The call records a failure of the account. -/
def Event.fails (accountId : String) : Event → Bool
  | .recordFailure id _ _ => id = accountId
  | _ => false

/-- The call clears the failures of the account. -/
def Event.clears (accountId : String) : Event → Bool
  | .recordSuccess id | .adminUnlock id => id = accountId
  | _ => false

namespace Run

variable (r : Run) (config : LockoutConfig) (accountId : String)

/-- Call `i` is a check of the account that allows an attempt. -/
def Allows (i : ℕ) : Prop :=
  r.event i = .isAuthenticationAllowed accountId ∧
    (r.state config i).isAuthenticationAllowed (r.now i) accountId = .ok true

/-- In the first `n` calls nothing clears the failures of the account, and each of its attempts
comes after a check that allowed it, with no other attempt between. -/
def Disciplined (n : ℕ) : Prop :=
  ∀ i < n, (r.event i).clears accountId = false ∧
    ((r.event i).fails accountId = true →
      ∃ j < i, r.Allows config accountId j ∧ ∀ l < i, j < l → (r.event l).fails accountId = false)

/-- When attempt `i` is recorded, in nanoseconds. -/
def time (i : ℕ) : ℤ := r.clock (8 * i + 1)

/-- The attempts of the account among the first `n` calls, from a time on. -/
def attempts (n : ℕ) (start : ℤ) : Finset ℕ :=
  (range n).filter fun i => (r.event i).fails accountId = true ∧ start ≤ r.time i

/-- The attempts within an interval. -/
def attemptsIn (n : ℕ) (start length : ℤ) : Finset ℕ :=
  (r.attempts accountId n start).filter fun i => r.time i < start + length

end Run

/-- A second in nanoseconds. -/
def second : ℤ := 1000000000

/-- Every interval as long as the window has at most `k + W/D` attempts. -/
def RateBounded (config : LockoutConfig) (r : Run) (accountId : String) (n : ℕ) : Prop :=
  ∀ start : ℤ, ((r.attemptsIn accountId n start (config.failureWindowSecs * second)).card : ℤ)
    ≤ config.maxFailedAttempts.toNat + config.failureWindowSecs / config.lockoutDurationSecs

/-- The number of lockouts that can end within the window. -/
def lockouts (config : LockoutConfig) : ℤ :=
  (config.failureWindowSecs * second - 1) / (config.lockoutDurationSecs * second + 1)

/-! ### One failure -/

variable {config : LockoutConfig} {r : Run} {accountId : String}

/-- The account is locked at least until a time. -/
def Held (until_ : ℤ) (s : AccountState) : Prop :=
  s.status = .PermanentlyLocked ∨
    s.status = .TemporarilyLocked ∧
      ∃ expires, s.lockoutExpiresAt = some (.ofNanos expires) ∧ until_ ≤ expires

theorem held_of_lockOut {s s' : AccountState} {now : ℕ → DateTime} {t : ℤ}
    (hnow : now 5 = .ofNanos t) {status : LockoutStatus}
    (h : s.lockOut config now = (.ok status, s')) :
    Held (t + config.lockoutDurationSecs * second) s' ∧
      s'.failedAttempts = s.failedAttempts := by
  unfold AccountState.lockOut at h
  dsimp only at h
  split_ifs at h with hpermanent
  · obtain rfl := (Prod.mk.inj h).2
    exact ⟨.inl rfl, rfl⟩
  · cases hadd : (now 5).addDuration config.lockoutDurationSecs with
    | none =>
      rw [hadd] at h
      cases (Prod.mk.inj h).1
    | some expires =>
      rw [hadd] at h
      rw [hnow] at hadd
      have hexpires := DateTime.addDuration_ofNanos hadd
      obtain rfl := (Prod.mk.inj h).2
      exact ⟨.inr ⟨rfl, _, congrArg some hexpires, le_refl _⟩, rfl⟩

theorem failedAttempts_reset (s : AccountState) (now : DateTime) :
    (s.reset now).failedAttempts = s.failedAttempts := by
  unfold AccountState.reset
  split_ifs <;> rfl

/-- What a failure leaves: the attempts of the window, and a lock once they are as many as the
threshold. -/
theorem recordFailure_spec {s s' : AccountState} {now : ℕ → DateTime} {ipAddress : Option String}
    {reason : String} {status : LockoutStatus} (clock : ℕ → ℤ)
    (hnow : ∀ i, now i = .ofNanos (clock i))
    (hopen : (s.reset (now 0)).status ≠ .PermanentlyLocked)
    (h : s.recordFailure config now ipAddress reason = (.ok status, s')) :
    s'.failedAttempts = AccountState.since
        (.ofNanos (clock 2 - config.failureWindowSecs * second))
        (s.failedAttempts ++ [⟨now 1, ipAddress, reason⟩]) ∧
      (config.maxFailedAttempts ≤ UInt32.ofNat (AccountState.since
          (.ofNanos (clock 3 - config.failureWindowSecs * second)) s'.failedAttempts).length →
        Held (clock 5 + config.lockoutDurationSecs * second) s') := by
  have hcutoff {i : ℕ} {cutoff : DateTime}
      (hadd : (now i).addDuration (-config.failureWindowSecs) = some cutoff) :
      cutoff = .ofNanos (clock i - config.failureWindowSecs * second) := by
    rw [hnow] at hadd
    rw [DateTime.addDuration_ofNanos hadd, second]
    congr 1
    ring
  unfold AccountState.recordFailure at h
  dsimp only at h
  rw [if_neg hopen, failedAttempts_reset] at h
  cases hprune : (now 2).addDuration (-config.failureWindowSecs) with
  | none =>
    rw [hprune] at h
    cases (Prod.mk.inj h).1
  | some cutoff =>
    rw [hprune] at h
    dsimp only at h
    unfold AccountState.recentFailureCount at h
    cases hrecent : (now 3).addDuration (-config.failureWindowSecs) with
    | none =>
      rw [hrecent] at h
      cases (Prod.mk.inj h).1
    | some cutoff' =>
      rw [hrecent] at h
      dsimp only [Option.map_some] at h
      rw [hcutoff hprune, hcutoff hrecent] at h
      split_ifs at h with hmax
      · obtain ⟨hheld, hattempts⟩ := held_of_lockOut (hnow 5) h
        exact ⟨hattempts, fun _ => hheld⟩
      · obtain rfl := (Prod.mk.inj h).2
        exact ⟨rfl, fun hle => absurd hle hmax⟩

/-- A failure is recorded, or the call panics. -/
theorem recordFailure_error {s : AccountState} {now : ℕ → DateTime} {ipAddress : Option String}
    {reason : String} {e : LockoutError}
    (h : (s.recordFailure config now ipAddress reason).1 = .error e) : e = .Panic := by
  unfold AccountState.recordFailure AccountState.lockOut at h
  dsimp only at h
  split_ifs at h <;> repeat' split at h
  all_goals first
    | cases h; rfl
    | cases h

/-! ### One call -/

/-- The state of the account before call `i`; a new one if there is none. -/
def Run.account (r : Run) (config : LockoutConfig) (accountId : String) (i : ℕ) : AccountState :=
  ((r.state config i).accounts accountId).getD .new

theorem step_poisoned {now : ℕ → DateTime} {l : AuthLockout} (h : l.poisoned = true) (e : Event) :
    step config now l e = l := by
  cases e with
  | isAuthenticationAllowed id => rfl
  | recordFailure id ip reason =>
    show (l.recordFailure config now id ip reason).2 = l
    rw [recordFailure, if_pos h]
  | recordSuccess id =>
    show (l.recordSuccess now id).2 = l
    rw [recordSuccess, if_pos h]
  | adminUnlock id =>
    show (l.adminUnlock id).2 = l
    rw [adminUnlock, if_pos h]

theorem poisoned_of_le {i j : ℕ} (hij : i ≤ j) (h : (r.state config i).poisoned = true) :
    (r.state config j).poisoned = true := by
  induction j, hij using Nat.le_induction with
  | base => exact h
  | succ j _ ih =>
    show (step config (r.now j) (r.state config j) (r.event j)).poisoned = true
    rw [step_poisoned ih]
    exact ih

theorem accounts_put {l : AuthLockout} {id : String} {s : AccountState} (h : id ≠ accountId) :
    (l.put id s).accounts accountId = l.accounts accountId :=
  Function.update_of_ne (Ne.symm h) _ _

/-- The other calls leave the account as it is. -/
theorem account_succ {i : ℕ} (hfails : (r.event i).fails accountId = false)
    (hclears : (r.event i).clears accountId = false) :
    r.account config accountId (i + 1) = r.account config accountId i := by
  unfold Run.account
  congr 1
  show (step config (r.now i) (r.state config i) (r.event i)).accounts accountId = _
  generalize r.state config i = l
  generalize r.event i = e at hfails hclears
  cases e with
  | isAuthenticationAllowed id => rfl
  | recordFailure id ip reason =>
    have hid : id ≠ accountId := of_decide_eq_false hfails
    show (l.recordFailure config (r.now i) id ip reason).2.accounts accountId = _
    unfold recordFailure
    split_ifs
    · rfl
    · exact accounts_put hid
  | recordSuccess id =>
    have hid : id ≠ accountId := of_decide_eq_false hclears
    show (l.recordSuccess (r.now i) id).2.accounts accountId = _
    unfold recordSuccess
    split_ifs
    · rfl
    · split
      · rfl
      · split_ifs
        · rfl
        · exact accounts_put hid
  | adminUnlock id =>
    have hid : id ≠ accountId := of_decide_eq_false hclears
    show (l.adminUnlock id).2.accounts accountId = _
    unfold adminUnlock
    split_ifs
    · rfl
    · split
      · rfl
      · exact accounts_put hid

/-- An attempt is recorded, or the lock is poisoned afterwards. -/
theorem account_succ_of_fails (config : LockoutConfig) {i : ℕ}
    (hfails : (r.event i).fails accountId = true) :
    (r.state config (i + 1)).poisoned = true ∨
      ∃ ipAddress reason status, (r.account config accountId i).recordFailure config (r.now i)
        ipAddress reason = (.ok status, r.account config accountId (i + 1)) := by
  cases hevent : r.event i with
  | recordFailure id ip reason =>
    rw [hevent] at hfails
    obtain rfl : id = accountId := of_decide_eq_true hfails
    have hstate : r.state config (i + 1)
        = ((r.state config i).recordFailure config (r.now i) id ip reason).2 := by
      show step config (r.now i) (r.state config i) (r.event i) = _
      rw [hevent]
      rfl
    unfold recordFailure at hstate
    split_ifs at hstate with hpoisoned
    · left
      rw [hstate]
      exact hpoisoned
    · cases hrecord : (r.account config id i).recordFailure config (r.now i) ip reason with
      | mk result s =>
        unfold Run.account at hrecord
        dsimp only at hstate
        rw [hrecord] at hstate
        cases result with
        | error e =>
          left
          have he : e = .Panic := recordFailure_error (congrArg Prod.fst hrecord)
          rw [hstate, he]
        | ok status =>
          right
          refine ⟨ip, reason, status, ?_⟩
          unfold Run.account
          rw [hrecord, hstate]
          simp [put]
  | isAuthenticationAllowed id => rw [hevent] at hfails; cases hfails
  | recordSuccess id => rw [hevent] at hfails; cases hfails
  | adminUnlock id => rw [hevent] at hfails; cases hfails

/-- A check that allows an attempt: the lock is not poisoned, and no lockout lasts. -/
theorem allows_spec {j : ℕ} (h : r.Allows config accountId j) :
    (r.state config j).poisoned = false ∧
      ∀ until_ : ℤ, Held until_ (r.account config accountId j) → until_ < r.clock (8 * j) := by
  obtain ⟨-, hallowed⟩ := h
  unfold isAuthenticationAllowed at hallowed
  split_ifs at hallowed with hpoisoned
  refine ⟨Bool.not_eq_true _ ▸ hpoisoned, fun until_ hheld => ?_⟩
  unfold Run.account at hheld
  cases haccount : (r.state config j).accounts accountId with
  | none =>
    rw [haccount] at hheld
    rcases hheld with hstatus | ⟨hstatus, -⟩
    · cases hstatus
    · cases hstatus
  | some s =>
    rw [haccount] at hheld hallowed
    change Held until_ s at hheld
    rcases hheld with hstatus | ⟨hstatus, expires, hexpires, hle⟩
    · simp [hstatus] at hallowed
    · simp only [hstatus, Except.ok.injEq] at hallowed
      unfold AccountState.isLockoutExpired at hallowed
      simp only [hstatus, hexpires, decide_eq_true_eq] at hallowed
      have hlt : expires < r.clock (8 * j + 0) := DateTime.ofNanos_lt_ofNanos.mp hallowed
      exact lt_of_le_of_lt hle hlt

/-- A permanent lockout allows nothing. -/
theorem open_of_allows {j : ℕ} (h : r.Allows config accountId j) (now : DateTime) :
    ((r.account config accountId j).reset now).status ≠ .PermanentlyLocked := by
  have hstatus : (r.account config accountId j).status ≠ .PermanentlyLocked := by
    intro hpermanent
    have hlt := (allows_spec h).2 (r.clock (8 * j)) (.inl hpermanent)
    exact absurd hlt (lt_irrefl _)
  unfold AccountState.reset
  split_ifs
  · intro hactive
    cases hactive
  · exact hstatus

/-! ### Counting attempts -/

theorem clock_le (r : Run) {i j : ℕ} (h : i ≤ j) : r.clock i ≤ r.clock j := r.monotone h

theorem attempts_succ (n : ℕ) (start : ℤ) :
    (r.attempts accountId (n + 1) start).card = (r.attempts accountId n start).card
      + if (r.event n).fails accountId = true ∧ start ≤ r.time n then 1 else 0 := by
  unfold Run.attempts
  rw [range_add_one, filter_insert]
  split_ifs with h
  · rw [card_insert_of_notMem (by simp)]
  · rfl

theorem attemptsIn_succ (r : Run) (accountId : String) (n : ℕ) (start length : ℤ) :
    (r.attemptsIn accountId (n + 1) start length).card
      = (r.attemptsIn accountId n start length).card
      + if ((r.event n).fails accountId = true ∧ start ≤ r.time n) ∧ r.time n < start + length
        then 1 else 0 := by
  unfold Run.attemptsIn Run.attempts
  rw [filter_filter, filter_filter, range_add_one, filter_insert]
  split_ifs with h
  · rw [card_insert_of_notMem (by simp)]
  · rfl

/-- An interval that has not ended has all attempts from its start on. -/
theorem attemptsIn_eq {n : ℕ} {start length : ℤ} (h : ∀ i < n, r.time i < start + length) :
    r.attemptsIn accountId n start length = r.attempts accountId n start :=
  filter_true_of_mem fun i hi => h i (mem_range.mp (mem_filter.mp hi).1)

theorem attempts_subset (r : Run) (accountId : String) (n : ℕ) {start start' : ℤ}
    (h : start' ≤ start) (length : ℤ) :
    r.attemptsIn accountId n start length ⊆ r.attempts accountId n start' := by
  intro i hi
  obtain ⟨hmem, -⟩ := mem_filter.mp hi
  obtain ⟨hrange, hfails, hstart⟩ := mem_filter.mp hmem
  exact mem_filter.mpr ⟨hrange, hfails, by omega⟩

/-- The account keeps the attempts of the window. -/
def Tracked (r : Run) (config : LockoutConfig) (accountId : String) (n : ℕ) : Prop :=
  (r.state config n).poisoned = true ∨
    ∀ cutoff, r.clock (8 * n) - config.failureWindowSecs * second ≤ cutoff →
      (AccountState.since (.ofNanos cutoff) (r.account config accountId n).failedAttempts).length
        = (r.attempts accountId n (cutoff + 1)).card

theorem since_since {attempts : List FailedAttempt} {cutoff cutoff' : ℤ} (h : cutoff ≤ cutoff') :
    AccountState.since (.ofNanos cutoff') (AccountState.since (.ofNanos cutoff) attempts)
      = AccountState.since (.ofNanos cutoff') attempts := by
  unfold AccountState.since
  rw [List.filter_filter]
  refine List.filter_congr fun attempt _ => ?_
  by_cases hafter : DateTime.ofNanos cutoff' < attempt.timestamp
  · have hbefore : DateTime.ofNanos cutoff < attempt.timestamp := by
      rcases h.lt_or_eq with hlt | rfl
      · exact DateTime.lt_trans (DateTime.ofNanos_lt_ofNanos.mpr hlt) hafter
      · exact hafter
    simp [hafter, hbefore]
  · simp [hafter]

/-- The attempts of the account after an attempt was recorded. -/
theorem length_since_recorded {n : ℕ} {ipAddress : Option String} {reason : String}
    {status : LockoutStatus}
    (htracked : ∀ cutoff, r.clock (8 * n) - config.failureWindowSecs * second ≤ cutoff →
      (AccountState.since (.ofNanos cutoff) (r.account config accountId n).failedAttempts).length
        = (r.attempts accountId n (cutoff + 1)).card)
    (hfails : (r.event n).fails accountId = true)
    (hopen : ((r.account config accountId n).reset (r.now n 0)).status ≠ .PermanentlyLocked)
    (hrecord : (r.account config accountId n).recordFailure config (r.now n) ipAddress reason
      = (.ok status, r.account config accountId (n + 1)))
    (cutoff : ℤ) (hcutoff : r.clock (8 * n + 2) - config.failureWindowSecs * second ≤ cutoff) :
    (AccountState.since (.ofNanos cutoff)
        (r.account config accountId (n + 1)).failedAttempts).length
      = (r.attempts accountId (n + 1) (cutoff + 1)).card := by
  have hspec := (recordFailure_spec (fun i => r.clock (8 * n + i)) (fun i => rfl) hopen
    hrecord).1
  have hmono : r.clock (8 * n) ≤ r.clock (8 * n + 2) := clock_le r (by omega)
  rw [hspec, since_since hcutoff, attempts_succ, ← htracked cutoff (by omega)]
  unfold AccountState.since
  rw [List.filter_append, List.length_append]
  congr 1
  have htime : DateTime.ofNanos cutoff < DateTime.ofNanos (r.clock (8 * n + 1))
      ↔ cutoff + 1 ≤ r.time n := by
    rw [DateTime.ofNanos_lt_ofNanos]
    exact Int.lt_iff_add_one_le
  by_cases hlt : cutoff + 1 ≤ r.time n
  · simp [hfails, hlt, htime.mpr hlt]
  · simp [hfails, hlt, mt htime.mp hlt]

/-- What the check before an attempt says about the account at the attempt. -/
theorem allowed_at {n m : ℕ} (hdisciplined : r.Disciplined config accountId n) (hm : m < n)
    (hfails : (r.event m).fails accountId = true) :
    ∃ j < m, r.Allows config accountId j ∧
      r.account config accountId m = r.account config accountId j ∧
      ∀ l < m, j ≤ l → (r.event l).fails accountId = false := by
  obtain ⟨j, hj, hallows, hbetween⟩ := (hdisciplined m hm).2 hfails
  have hcheck : (r.event j).fails accountId = false := by
    rw [hallows.1]
    rfl
  have hnone (l : ℕ) (hl : l < m) (hjl : j ≤ l) : (r.event l).fails accountId = false := by
    rcases hjl.lt_or_eq with hlt | rfl
    · exact hbetween l hl hlt
    · exact hcheck
  refine ⟨j, hj, hallows, ?_, hnone⟩
  have hsame (d : ℕ) (hd : j + d ≤ m) :
      r.account config accountId (j + d) = r.account config accountId j := by
    induction d with
    | zero => rfl
    | succ d ih =>
      rw [← ih (by omega)]
      exact account_succ (hnone (j + d) (by omega) (by omega))
        (hdisciplined (j + d) (by omega)).1
  have hend := hsame (m - j) (by omega)
  rwa [Nat.add_sub_cancel' hj.le] at hend

theorem tracked {n : ℕ} (hdisciplined : r.Disciplined config accountId n) (m : ℕ) (hm : m ≤ n) :
    Tracked r config accountId m := by
  induction m with
  | zero =>
    right
    intro cutoff _
    rfl
  | succ m ih =>
    rcases ih (by omega) with hpoisoned | htracked
    · exact .inl (poisoned_of_le (Nat.le_succ m) hpoisoned)
    · cases hfails : (r.event m).fails accountId with
      | false =>
        right
        intro cutoff hcutoff
        have hmono : r.clock (8 * m) ≤ r.clock (8 * (m + 1)) := clock_le r (by omega)
        rw [account_succ hfails (hdisciplined m (by omega)).1, attempts_succ, hfails,
          htracked cutoff (by omega)]
        simp
      | true =>
        rcases account_succ_of_fails config hfails with hpoisoned |
          ⟨ipAddress, reason, status, hrecord⟩
        · exact .inl hpoisoned
        · right
          intro cutoff hcutoff
          obtain ⟨j, -, hallows, hsame, -⟩ := allowed_at hdisciplined (by omega : m < n) hfails
          have hopen : ((r.account config accountId m).reset (r.now m 0)).status
              ≠ .PermanentlyLocked := by
            rw [hsame]
            exact open_of_allows hallows _
          have hmono : r.clock (8 * m + 2) ≤ r.clock (8 * (m + 1)) := clock_le r (by omega)
          exact length_since_recorded htracked hfails hopen hrecord cutoff (by omega)

/-! ### The bound -/

/-- An attempt before call `n` left the lock poisoned. -/
def Dead (r : Run) (config : LockoutConfig) (accountId : String) (n : ℕ) : Prop :=
  ∃ i < n, (r.event i).fails accountId = true ∧ (r.state config (i + 1)).poisoned = true

/-- The attempts of an interval before call `n`: fewer than the threshold, or the last of them, at
`t`, came after as many lockouts as there are attempts above it, and locked the account. -/
def Bounded (r : Run) (config : LockoutConfig) (accountId : String) (n : ℕ) (start : ℤ) : Prop :=
  let window := config.failureWindowSecs * second
  let duration := config.lockoutDurationSecs * second
  let count : ℤ := (r.attemptsIn accountId n start window).card
  count < config.maxFailedAttempts.toNat ∨
    config.maxFailedAttempts.toNat ≤ count ∧ ∃ t,
      start + (count - config.maxFailedAttempts.toNat) * (duration + 1) ≤ t ∧ t < start + window ∧
        (Dead r config accountId n ∨ Held (t + duration) (r.account config accountId n) ∨
          start + window ≤ r.clock (8 * n))

/-- An attempt after the threshold comes after a lockout. -/
theorem next_attempt {n m : ℕ} {start : ℤ} (hdisciplined : r.Disciplined config accountId n)
    (hm : m < n) (hfails : (r.event m).fails accountId = true)
    (hbounded : Bounded r config accountId m start)
    (htime : r.time m < start + config.failureWindowSecs * second) :
    ((r.attemptsIn accountId m start (config.failureWindowSecs * second)).card : ℤ)
        < config.maxFailedAttempts.toNat ∨
      start + ((r.attemptsIn accountId m start (config.failureWindowSecs * second)).card + 1
        - config.maxFailedAttempts.toNat) * (config.lockoutDurationSecs * second + 1)
        ≤ r.time m := by
  obtain ⟨j, hj, hallows, hsame, hnone⟩ := allowed_at hdisciplined hm hfails
  rcases hbounded with hfew | ⟨-, t, hstart, hend, hlocked⟩
  · exact .inl hfew
  · right
    have hclock : r.clock (8 * j) ≤ r.time m := clock_le r (by omega)
    have hnow : r.clock (8 * m) ≤ r.time m := clock_le r (by omega)
    rcases hlocked with ⟨i, hi, hfails', hpoisoned⟩ | hheld | hpast
    · -- the check came after that attempt
      have hij : i < j := by
        by_contra hji
        have hfalse := hnone i hi (by omega)
        rw [hfails'] at hfalse
        cases hfalse
      have hpoisoned' := poisoned_of_le (Nat.succ_le_of_lt hij) hpoisoned
      rw [(allows_spec hallows).1] at hpoisoned'
      cases hpoisoned'
    · rw [hsame] at hheld
      have hlt := (allows_spec hallows).2 _ hheld
      linarith
    · omega

theorem le_lockouts {j t start : ℤ} (hduration : 1 ≤ config.lockoutDurationSecs)
    (hstart : start + j * (config.lockoutDurationSecs * second + 1) ≤ t)
    (hend : t < start + config.failureWindowSecs * second) : j ≤ lockouts config := by
  have hpos : 0 < config.lockoutDurationSecs * second + 1 := by
    unfold second
    omega
  exact (Int.le_ediv_iff_mul_le hpos).mpr (by linarith)

/-- The attempt locks the account once there are as many as the threshold, since their count
fits. -/
theorem held_after {n m : ℕ} {start : ℤ} (hduration : 1 ≤ config.lockoutDurationSecs)
    (hfit : config.maxFailedAttempts.toNat + lockouts config < 2 ^ 32)
    (hdisciplined : r.Disciplined config accountId n) (hm : m < n)
    (hfails : (r.event m).fails accountId = true)
    (hbounded : ∀ start, Bounded r config accountId m start)
    (hcount : (config.maxFailedAttempts.toNat : ℤ)
      ≤ (r.attemptsIn accountId (m + 1) start (config.failureWindowSecs * second)).card) :
    Dead r config accountId (m + 1) ∨
      Held (r.time m + config.lockoutDurationSecs * second) (r.account config accountId (m + 1)) ∨
      start + config.failureWindowSecs * second ≤ r.clock (8 * (m + 1)) := by
  rcases account_succ_of_fails config hfails with hpoisoned |
    ⟨ipAddress, reason, status, hrecord⟩
  · exact .inl ⟨m, by omega, hfails, hpoisoned⟩
  rcases tracked hdisciplined m hm.le with hpoisoned | htracked
  · exact .inl ⟨m, by omega, hfails, poisoned_of_le (Nat.le_succ m) hpoisoned⟩
  right
  have hmono : r.clock (8 * m + 3) ≤ r.clock (8 * (m + 1)) := clock_le r (by omega)
  by_cases hpast : start + config.failureWindowSecs * second ≤ r.clock (8 * m + 3)
  · exact .inr (by omega)
  · left
    obtain ⟨j, -, hallows, hsame, -⟩ := allowed_at hdisciplined hm hfails
    have hopen : ((r.account config accountId m).reset (r.now m 0)).status
        ≠ .PermanentlyLocked := by
      rw [hsame]
      exact open_of_allows hallows _
    have hspec := (recordFailure_spec (fun i => r.clock (8 * m + i)) (fun i => rfl) hopen
      hrecord).2
    set cutoff := r.clock (8 * m + 3) - config.failureWindowSecs * second with hcutoff
    have hcounted := length_since_recorded htracked hfails hopen hrecord cutoff (by
      have := clock_le r (show 8 * m + 2 ≤ 8 * m + 3 by omega)
      omega)
    -- what is counted are the attempts of the window that ends now
    have hwindow : r.attemptsIn accountId (m + 1) (cutoff + 1) (config.failureWindowSecs * second)
        = r.attempts accountId (m + 1) (cutoff + 1) := by
      refine attemptsIn_eq fun i hi => ?_
      have hle : r.time i ≤ r.clock (8 * m + 3) := clock_le r (by omega)
      omega
    have hlower := card_le_card (attempts_subset r accountId (m + 1)
      (show cutoff + 1 ≤ start by omega) (config.failureWindowSecs * second))
    have hupper : (r.attempts accountId (m + 1) (cutoff + 1)).card < 2 ^ 32 := by
      have hlast : r.time m < cutoff + 1 + config.failureWindowSecs * second := by
        have hle : r.time m ≤ r.clock (8 * m + 3) := clock_le r (by omega)
        omega
      have hsucc := attemptsIn_succ r accountId m (cutoff + 1)
        (config.failureWindowSecs * second)
      have hthreshold := config.maxFailedAttempts.toNat_lt
      rw [← hwindow]
      rcases next_attempt hdisciplined hm hfails (hbounded (cutoff + 1)) hlast with hfew | hmany
      · split_ifs at hsucc <;> omega
      · have hle := le_lockouts hduration hmany hlast
        split_ifs at hsucc <;> omega
    have hheld := hspec (by
      show config.maxFailedAttempts ≤ UInt32.ofNat _
      rw [hcounted, UInt32.le_iff_toNat_le, UInt32.toNat_ofNat_of_lt' hupper]
      omega)
    have hexpires : r.time m ≤ r.clock (8 * m + 5) := clock_le r (by omega)
    rcases hheld with hpermanent | ⟨hstatus, expires, hsome, hle⟩
    · exact .inl hpermanent
    · exact .inr ⟨hstatus, expires, hsome, by linarith⟩

/-- A call that is not an attempt in the interval. -/
theorem Bounded.succ_of_other {m : ℕ} {start : ℤ} (h : Bounded r config accountId m start)
    (hsame : r.account config accountId (m + 1) = r.account config accountId m ∨
      start + config.failureWindowSecs * second ≤ r.clock (8 * (m + 1)))
    (hcount : (r.attemptsIn accountId (m + 1) start (config.failureWindowSecs * second)).card
      = (r.attemptsIn accountId m start (config.failureWindowSecs * second)).card) :
    Bounded r config accountId (m + 1) start := by
  have hmono : r.clock (8 * m) ≤ r.clock (8 * (m + 1)) := clock_le r (by omega)
  unfold Bounded at h ⊢
  dsimp only at h ⊢
  rw [hcount]
  rcases h with hfew | ⟨hmany, t, hstart, hend, hlocked⟩
  · exact .inl hfew
  · refine .inr ⟨hmany, t, hstart, hend, ?_⟩
    rcases hsame with hsame | hpast
    · rw [hsame]
      rcases hlocked with ⟨i, hi, hdead⟩ | hheld | hpast
      · exact .inl ⟨i, by omega, hdead⟩
      · exact .inr (.inl hheld)
      · exact .inr (.inr (by omega))
    · exact .inr (.inr hpast)

theorem bounded {n : ℕ} (hthreshold : 1 ≤ config.maxFailedAttempts.toNat)
    (hduration : 1 ≤ config.lockoutDurationSecs)
    (hfit : config.maxFailedAttempts.toNat + lockouts config < 2 ^ 32)
    (hdisciplined : r.Disciplined config accountId n) (m : ℕ) (hm : m ≤ n) (start : ℤ) :
    Bounded r config accountId m start := by
  -- by induction on the calls, for all intervals at once: the count of a window is bounded by the
  -- attempts of the interval that ends with it
  induction m generalizing start with
  | zero => exact .inl (by simpa [Run.attemptsIn, Run.attempts] using Nat.pos_of_ne_zero (by omega))
  | succ m ih =>
    have hbounded (start : ℤ) := ih (by omega) start
    have hsucc := attemptsIn_succ r accountId m start
      (config.failureWindowSecs * second)
    cases hfails : (r.event m).fails accountId with
    | false =>
      refine (hbounded start).succ_of_other
        (.inl (account_succ hfails (hdisciplined m (by omega)).1)) ?_
      rw [hsucc, hfails]
      simp
    | true =>
      have hclock : r.time m ≤ r.clock (8 * (m + 1)) := clock_le r (by omega)
      by_cases hbefore : r.time m < start
      · -- no attempt so far is in the interval
        left
        have hnone : r.attemptsIn accountId (m + 1) start (config.failureWindowSecs * second)
            = ∅ := by
          refine eq_empty_of_forall_notMem fun i hi => ?_
          obtain ⟨hrange, -, hstart⟩ := mem_filter.mp (mem_filter.mp hi).1
          have hlt := mem_range.mp hrange
          have hle : r.time i ≤ r.time m := clock_le r (by omega)
          omega
        rw [hnone, card_empty]
        omega
      · by_cases hafter : r.time m < start + config.failureWindowSecs * second
        · have hcount : (r.attemptsIn accountId (m + 1) start
              (config.failureWindowSecs * second)).card
              = (r.attemptsIn accountId m start (config.failureWindowSecs * second)).card + 1 := by
            rw [hsucc, if_pos ⟨⟨hfails, by omega⟩, hafter⟩]
          by_cases hfew : ((r.attemptsIn accountId (m + 1) start
              (config.failureWindowSecs * second)).card : ℤ) < config.maxFailedAttempts.toNat
          · exact .inl hfew
          · have hlocked := held_after hduration hfit hdisciplined (by omega) hfails hbounded
              (not_lt.mp hfew)
            refine .inr ⟨not_lt.mp hfew, r.time m, ?_, hafter, hlocked⟩
            rcases next_attempt hdisciplined (by omega) hfails (hbounded start) hafter with
              hlast | hnext
            · -- the attempt that reaches the threshold
              have hexact : ((r.attemptsIn accountId (m + 1) start
                  (config.failureWindowSecs * second)).card : ℤ)
                  - config.maxFailedAttempts.toNat = 0 := by omega
              rw [hexact]
              omega
            · rw [hcount]
              push_cast
              exact hnext
        · refine (hbounded start).succ_of_other (.inr (by omega)) ?_
          rw [hsucc, if_neg fun h => hafter h.2]
          rfl

/-- **The lockout bounds the rate of attempts.** -/
theorem rate_bounded (config : LockoutConfig) (r : Run) (accountId : String) (n : ℕ)
    (hthreshold : 1 ≤ config.maxFailedAttempts.toNat) (hduration : 1 ≤ config.lockoutDurationSecs)
    (hwindow : 1 ≤ config.failureWindowSecs)
    (hfit : config.maxFailedAttempts.toNat + lockouts config < 2 ^ 32)
    (hdisciplined : r.Disciplined config accountId n) : RateBounded config r accountId n := by
  intro start
  have hpos : 0 < config.lockoutDurationSecs := by omega
  rcases bounded hthreshold hduration hfit hdisciplined n (le_refl n) start with
    hfew | ⟨hmany, t, hstart, hend, -⟩
  · have hnonneg : 0 ≤ config.failureWindowSecs / config.lockoutDurationSecs :=
      Int.ediv_nonneg (by omega) hpos.le
    omega
  · set above : ℤ := (r.attemptsIn accountId n start (config.failureWindowSecs * second)).card
      - config.maxFailedAttempts.toNat with habove
    have hlt : above * (config.lockoutDurationSecs * second + 1)
        < config.failureWindowSecs * second := by linarith
    have hmul : above * config.lockoutDurationSecs ≤ config.failureWindowSecs := by
      have hsplit : above * (config.lockoutDurationSecs * second + 1)
          = above * config.lockoutDurationSecs * second + above := by ring
      unfold second at hlt hsplit
      omega
    have hle := (Int.le_ediv_iff_mul_le hpos).mpr hmul
    omega

/-! ### Instances -/

namespace Instance

/-- Checks and failures by turns; the first `few` attempts at 0, the others at `later`. -/
def guesses (few : ℕ) (later : ℤ) (hlater : 0 ≤ later) : Run where
  event i := if i % 2 = 0 then .isAuthenticationAllowed "user1"
    else .recordFailure "user1" none "invalid password"
  clock i := if i < 16 * few then 0 else later
  monotone i j hij := by
    split_ifs <;> omega

def defaults : LockoutConfig where
  maxFailedAttempts := 5
  lockoutDurationSecs := 900
  failureWindowSecs := 3600
  permanentLockout := false
  lockoutsBeforePermanent := 3

/-- The largest threshold. -/
def largest : LockoutConfig where
  maxFailedAttempts := 4294967295
  lockoutDurationSecs := 1
  failureWindowSecs := 10
  permanentLockout := false
  lockoutsBeforePermanent := 3

/-- As many attempts as the threshold, and after the lockout the others. -/
abbrev flood : Run := guesses 4294967295 2000000000 (by decide)

/-- When attempt `m` is made. -/
def moment (m : ℕ) : ℤ := if m < 4294967295 then 0 else 2000000000

theorem now_flood (m : ℕ) {i j : ℕ} (hi : i = 2 * m ∨ i = 2 * m + 1) (hj : j < 8) :
    flood.now i j = .ofNanos (moment m) := by
  have hclock : flood.clock (8 * i + j) = moment m := by
    show (if 8 * i + j < 16 * 4294967295 then (0 : ℤ) else 2000000000) = moment m
    unfold moment
    split_ifs <;> omega
  rw [Run.now, hclock]

/-- The account before attempt `m`. -/
structure Flooded (m : ℕ) (s : AccountState) : Prop where
  length : s.failedAttempts.length = m
  recent : ∀ attempt ∈ s.failedAttempts, DateTime.ofNanos (-8000000000) < attempt.timestamp
  status : if m = 4294967295 then
      s.status = .TemporarilyLocked ∧ s.lockoutExpiresAt = some (.ofNanos 1000000000)
    else s.status = .Active

theorem Flooded.expired {m : ℕ} {s : AccountState} (h : Flooded m s) :
    s.isLockoutExpired (.ofNanos (moment m)) = true := by
  have hstatus := h.status
  unfold AccountState.isLockoutExpired
  split_ifs at hstatus with hm
  · rw [hstatus.1, hstatus.2, hm]
    decide
  · rw [hstatus]

theorem Flooded.reset_status {m : ℕ} {s : AccountState} (h : Flooded m s) :
    (s.reset (.ofNanos (moment m))).status = .Active := by
  have hstatus := h.status
  unfold AccountState.reset
  rw [h.expired]
  split_ifs with hlocked
  · rfl
  · split_ifs at hstatus
    · exact absurd ⟨hstatus.1, rfl⟩ hlocked
    · exact hstatus

theorem since_eq_self {attempts : List FailedAttempt} {cutoff : ℤ} (hcutoff : cutoff ≤ -8000000000)
    (h : ∀ attempt ∈ attempts, DateTime.ofNanos (-8000000000) < attempt.timestamp) :
    AccountState.since (.ofNanos cutoff) attempts = attempts := by
  refine List.filter_eq_self.mpr fun attempt hattempt => decide_eq_true ?_
  rcases hcutoff.lt_or_eq with hlt | rfl
  · exact DateTime.lt_trans (DateTime.ofNanos_lt_ofNanos.mpr hlt) (h attempt hattempt)
  · exact h attempt hattempt

/-- The cutoff of the window, before all attempts. -/
theorem cutoff_moment (m : ℕ) : ∃ cutoff : ℤ, cutoff ≤ -8000000000 ∧
    (DateTime.ofNanos (moment m)).addDuration (-largest.failureWindowSecs)
      = some (.ofNanos cutoff) := by
  unfold moment
  split_ifs
  · exact ⟨-10000000000, by decide, by decide⟩
  · exact ⟨-8000000000, by decide, by decide⟩

/-- The count of `m + 1` attempts, as 32 bits, reaches the threshold for `m + 1 = 2³² - 1` only. -/
theorem count_flood {m : ℕ} (hm : m < 4294967306) :
    largest.maxFailedAttempts ≤ UInt32.ofNat (m + 1) ↔ m + 1 = 4294967295 := by
  rw [UInt32.le_iff_toNat_le, UInt32.toNat_ofNat']
  show 4294967295 ≤ (m + 1) % 2 ^ 32 ↔ _
  omega

/-- One attempt more. -/
theorem flooded_succ {m : ℕ} (hm : m < 4294967306) {s : AccountState} (h : Flooded m s)
    {now : ℕ → DateTime} (hnow : ∀ j < 8, now j = .ofNanos (moment m)) (reason : String) :
    ∃ status s', s.recordFailure largest now none reason = (.ok status, s') ∧
      Flooded (m + 1) s' := by
  obtain ⟨cutoff, hcutoff, hadd⟩ := cutoff_moment m
  set attempts := s.failedAttempts ++ [⟨now 1, none, reason⟩] with hattempts
  have hlength : attempts.length = m + 1 := by
    rw [hattempts, List.length_append, h.length]
    rfl
  have hrecent : ∀ attempt ∈ attempts, DateTime.ofNanos (-8000000000) < attempt.timestamp := by
    intro attempt hmem
    rcases List.mem_append.mp hmem with hmem | hmem
    · exact h.recent attempt hmem
    · obtain rfl := List.mem_singleton.mp hmem
      rw [hnow 1 (by decide), DateTime.ofNanos_lt_ofNanos]
      unfold moment
      split_ifs <;> decide
  have hopen : (s.reset (now 0)).status = .Active := by
    rw [hnow 0 (by decide)]
    exact h.reset_status
  have hnot : ¬(s.reset (now 0)).status = .PermanentlyLocked := by
    rw [hopen]
    decide
  unfold AccountState.recordFailure AccountState.recentFailureCount
  dsimp only
  rw [if_neg hnot, failedAttempts_reset, ← hattempts, hnow 2 (by decide), hnow 3 (by decide), hadd]
  dsimp only [Option.map_some]
  rw [since_eq_self hcutoff hrecent, since_eq_self hcutoff hrecent, hlength]
  by_cases hcount : m + 1 = 4294967295
  · rw [if_pos ((count_flood hm).mpr hcount)]
    have hexpires : (DateTime.ofNanos (moment m)).addDuration largest.lockoutDurationSecs
        = some (.ofNanos 1000000000) := by
      rw [moment, if_pos (by omega)]
      decide
    unfold AccountState.lockOut
    dsimp only
    rw [if_neg (by simp [largest]), hnow 5 (by decide), hexpires]
    exact ⟨_, _, rfl, hlength, hrecent, by rw [if_pos hcount]; exact ⟨rfl, rfl⟩⟩
  · rw [if_neg (mt (count_flood hm).mp hcount)]
    exact ⟨_, _, rfl, hlength, hrecent, by rw [if_neg hcount]; exact hopen⟩

theorem event_flood (m : ℕ) : flood.event (2 * m) = .isAuthenticationAllowed "user1" ∧
    flood.event (2 * m + 1) = .recordFailure "user1" none "invalid password" :=
  ⟨if_pos (by omega), if_neg (by omega)⟩

theorem state_check (m : ℕ) : flood.state largest (2 * m + 1) = flood.state largest (2 * m) := by
  show step largest _ _ (flood.event (2 * m)) = _
  rw [(event_flood m).1]
  rfl

/-- The state before attempt `m`. -/
theorem flooded (m : ℕ) (hm : m ≤ 4294967306) :
    (flood.state largest (2 * m)).poisoned = false ∧
      Flooded m (flood.account largest "user1" (2 * m)) := by
  induction m with
  | zero =>
    refine ⟨rfl, rfl, fun _ hmem => absurd hmem List.not_mem_nil, ?_⟩
    rw [if_neg (by decide)]
    rfl
  | succ m ih =>
    obtain ⟨hpoisoned, hflooded⟩ := ih (by omega)
    obtain ⟨status, s', hrecord, hflooded'⟩ := flooded_succ (by omega) hflooded
      (fun j hj => now_flood m (.inr rfl) hj) "invalid password"
    have hstate : flood.state largest (2 * m + 1 + 1)
        = ((flood.state largest (2 * m)).recordFailure largest (flood.now (2 * m + 1)) "user1" none
          "invalid password").2 := by
      show step largest _ (flood.state largest (2 * m + 1)) (flood.event (2 * m + 1)) = _
      rw [state_check, (event_flood m).2]
      rfl
    unfold recordFailure at hstate
    rw [if_neg (by rw [hpoisoned]; decide)] at hstate
    unfold Run.account at hrecord
    dsimp only at hstate
    rw [hrecord] at hstate
    have haccount : flood.account largest "user1" (2 * m + 1 + 1) = s' := by
      unfold Run.account
      rw [hstate]
      simp [put]
    refine ⟨?_, ?_⟩
    · show (flood.state largest (2 * m + 1 + 1)).poisoned = false
      rw [hstate]
    · show Flooded (m + 1) (flood.account largest "user1" (2 * m + 1 + 1))
      rw [haccount]
      exact hflooded'

/-- Every attempt is allowed. -/
theorem allows_flood (m : ℕ) (hm : m ≤ 4294967306) : flood.Allows largest "user1" (2 * m) := by
  obtain ⟨hpoisoned, hflooded⟩ := flooded m hm
  refine ⟨(event_flood m).1, ?_⟩
  unfold isAuthenticationAllowed
  rw [if_neg (by rw [hpoisoned]; decide)]
  unfold Run.account at hflooded
  cases haccount : (flood.state largest (2 * m)).accounts "user1" with
  | none => rfl
  | some s =>
    rw [haccount] at hflooded
    have hexpired := Flooded.expired hflooded
    have hstatus := hflooded.status
    change s.isLockoutExpired _ = true at hexpired
    change if m = 4294967295 then s.status = .TemporarilyLocked ∧ _ else s.status = .Active
      at hstatus
    dsimp only
    split_ifs at hstatus
    · rw [hstatus.1, now_flood m (.inl rfl) (by decide), hexpired]
    · rw [hstatus]

theorem disciplined_flood : flood.Disciplined largest "user1" (2 * 4294967306) := by
  intro i hi
  rcases Nat.even_or_odd' i with ⟨m, rfl | rfl⟩
  · rw [(event_flood m).1]
    exact ⟨rfl, fun h => absurd h (by decide)⟩
  · rw [(event_flood m).2]
    refine ⟨rfl, fun _ => ⟨2 * m, by omega, allows_flood m (by omega), fun l hl hml => ?_⟩⟩
    omega

/-- All attempts are within 10 seconds. -/
theorem attempts_flood :
    4294967306 ≤ (flood.attemptsIn "user1" (2 * 4294967306) 0 10000000000).card := by
  have hinjective : Function.Injective fun m : ℕ => 2 * m + 1 := fun a b h => by
    dsimp only at h
    omega
  have hcard := (card_image_of_injective (range 4294967306) hinjective).trans (card_range _)
  refine hcard.ge.trans (card_le_card fun i hi => ?_)
  obtain ⟨m, hm, rfl⟩ := mem_image.mp hi
  have hlt := mem_range.mp hm
  have htime : flood.time (2 * m + 1) = 0 ∨ flood.time (2 * m + 1) = 2000000000 := by
    show (if 8 * (2 * m + 1) + 1 < 16 * 4294967295 then (0 : ℤ) else 2000000000) = 0 ∨
      (if 8 * (2 * m + 1) + 1 < 16 * 4294967295 then (0 : ℤ) else 2000000000) = 2000000000
    split_ifs
    · exact .inl rfl
    · exact .inr rfl
  refine mem_filter.mpr ⟨mem_filter.mpr ⟨mem_range.mpr (by omega), ?_, by omega⟩, by omega⟩
  rw [(event_flood m).2]
  rfl

end Instance

open Instance in
/-- With the largest threshold the count wraps to 0 after the first lockout, and attempts go on
within the window. -/
theorem rate_exceeded : flood.Disciplined largest "user1" (2 * 4294967306) ∧
    ¬RateBounded largest flood "user1" (2 * 4294967306) := by
  refine ⟨disciplined_flood, fun hbounded => ?_⟩
  have hle : ((flood.attemptsIn "user1" (2 * 4294967306) 0 10000000000).card : ℤ)
      ≤ (4294967295 : ℕ) + 10 := hbounded 0
  have hge := attempts_flood
  omega

open Instance in
/-- Five attempts, and one after the lockout. -/
theorem rate_bounded_defaults :
    RateBounded defaults (guesses 5 901000000000 (by decide)) "user1" 12 :=
  rate_bounded defaults (guesses 5 901000000000 (by decide)) "user1" 12 (by decide) (by decide)
    (by decide) (by decide) (by unfold Run.Disciplined Run.Allows; decide +kernel)

end Ostrich.Common.AuthLockout
