import Ostrich.Common.Equiv.Lockout
import Mathlib.Data.List.Induction

/-!
# When a lockout becomes permanent

* `permanent_exactly`: while no failure of a locked account reaches the threshold, no success ends a
  row of lockouts and no row is as long as the limit, the account becomes permanently locked exactly
  when it enters the last lockout of the row;
* `permanent_while_locked`: one lockout and a failure reported during it are two lockouts to the
  counter.
-/

namespace Ostrich.Common

/-! ### One failure -/

namespace AccountState

variable {config : LockoutConfig} {now : ℕ → DateTime} {ipAddress : Option String} {reason : String}

/-- A failure now makes the recent failures as many as the threshold. -/
def reaches (config : LockoutConfig) (now : ℕ → DateTime) (ipAddress : Option String)
    (reason : String) (s : AccountState) : Bool :=
  match (now 2).addDuration (-config.failureWindowSecs) with
  | none => false
  | some cutoff =>
    let s : AccountState :=
      { s with failedAttempts := since cutoff (s.failedAttempts ++ [⟨now 1, ipAddress, reason⟩]) }
    match s.recentFailureCount config.failureWindowSecs (now 3) with
    | none => false
    | some failureCount => config.maxFailedAttempts ≤ failureCount

theorem totalLockouts_reset (s : AccountState) (t : DateTime) :
    (s.reset t).totalLockouts = s.totalLockouts := by
  unfold reset
  split_ifs <;> rfl

theorem reset_of_not_locked {s : AccountState} (h : s.status ≠ .TemporarilyLocked) (t : DateTime) :
    s.reset t = s := by
  unfold reset
  rw [if_neg (fun hlocked => h hlocked.1)]

theorem status_reset_ne {s : AccountState} {t : DateTime} (h : s.status ≠ .PermanentlyLocked) :
    (s.reset t).status ≠ .PermanentlyLocked := by
  unfold reset
  split_ifs
  · intro hactive
    cases hactive
  · exact h

theorem lockOut_total (config : LockoutConfig) (now : ℕ → DateTime) (s : AccountState) :
    (s.lockOut config now).2.totalLockouts = s.totalLockouts + 1 := by
  unfold lockOut
  dsimp only
  split_ifs
  · rfl
  · split <;> rfl

theorem lockOut_status (config : LockoutConfig) (now : ℕ → DateTime) (s : AccountState) :
    (s.lockOut config now).2.status =
      if config.permanentLockout ∧ config.lockoutsBeforePermanent ≤ s.totalLockouts + 1 then
        .PermanentlyLocked
      else .TemporarilyLocked := by
  unfold lockOut
  dsimp only
  split_ifs
  · rfl
  · split <;> rfl

/-- A permanent lock stays as it is. -/
theorem recordFailure_of_permanent {s : AccountState} (h : s.status = .PermanentlyLocked) :
    (s.recordFailure config now ipAddress reason).2 = s := by
  unfold recordFailure
  dsimp only
  rw [reset_of_not_locked (by rw [h]; decide), if_pos h]

/-- A failure that reaches the threshold is counted as a lockout. -/
theorem recordFailure_of_reaches {s : AccountState} (hopen : s.status ≠ .PermanentlyLocked)
    (h : s.reaches config now ipAddress reason = true) :
    (s.recordFailure config now ipAddress reason).2.totalLockouts = s.totalLockouts + 1 ∧
      (s.recordFailure config now ipAddress reason).2.status =
        if config.permanentLockout ∧ config.lockoutsBeforePermanent ≤ s.totalLockouts + 1 then
          .PermanentlyLocked
        else .TemporarilyLocked := by
  unfold reaches recentFailureCount at h
  unfold recordFailure recentFailureCount
  dsimp only at h ⊢
  rw [if_neg (status_reset_ne hopen), AuthLockout.failedAttempts_reset]
  cases hprune : (now 2).addDuration (-config.failureWindowSecs) with
  | none => simp [hprune] at h
  | some cutoff =>
    rw [hprune] at h
    dsimp only at h ⊢
    cases hrecent : (now 3).addDuration (-config.failureWindowSecs) with
    | none => simp [hrecent] at h
    | some cutoff' =>
      rw [hrecent] at h
      dsimp only [Option.map_some] at h ⊢
      rw [if_pos (of_decide_eq_true h), lockOut_total, lockOut_status, totalLockouts_reset]
      exact ⟨rfl, rfl⟩

/-- Another failure is not. -/
theorem recordFailure_of_not_reaches {s : AccountState} (hopen : s.status ≠ .PermanentlyLocked)
    (h : s.reaches config now ipAddress reason = false) :
    (s.recordFailure config now ipAddress reason).2.totalLockouts = s.totalLockouts ∧
      (s.recordFailure config now ipAddress reason).2.status = (s.reset (now 0)).status := by
  unfold reaches recentFailureCount at h
  unfold recordFailure recentFailureCount
  dsimp only at h ⊢
  rw [if_neg (status_reset_ne hopen), AuthLockout.failedAttempts_reset]
  have htotal := totalLockouts_reset s (now 0)
  cases hprune : (now 2).addDuration (-config.failureWindowSecs) with
  | none => exact ⟨htotal, rfl⟩
  | some cutoff =>
    rw [hprune] at h
    dsimp only at h ⊢
    cases hrecent : (now 3).addDuration (-config.failureWindowSecs) with
    | none => exact ⟨htotal, rfl⟩
    | some cutoff' =>
      rw [hrecent] at h
      dsimp only [Option.map_some] at h ⊢
      rw [if_neg (of_decide_eq_false h)]
      exact ⟨htotal, rfl⟩

end AccountState

namespace AuthLockout

/-! ### Lockouts in a row -/

/-- A call, with the readings of the clock it takes. -/
structure Call where
  event : Event
  now : ℕ → DateTime

/-- The state of an account; a new one if there is none. -/
def account (accountId : String) (l : AuthLockout) : AccountState :=
  (l.accounts accountId).getD .new

/-- The state after a call. -/
def after (config : LockoutConfig) (l : AuthLockout) (call : Call) : AuthLockout :=
  l.step config call.now call.event

/-- A lockout: the account fails while it is allowed to try, and is locked afterwards. -/
def Enters (config : LockoutConfig) (accountId : String) (l : AuthLockout) (call : Call) : Prop :=
  call.event.fails accountId = true ∧ l.isAuthenticationAllowed call.now accountId = .ok true ∧
    ((l.after config call).account accountId).status ≠ .Active

instance (config : LockoutConfig) (accountId : String) (l : AuthLockout) (call : Call) :
    Decidable (Enters config accountId l call) :=
  inferInstanceAs (Decidable (_ ∧ _ ∧ _))

/-- A success of the account that is recorded ends a row of lockouts. -/
def Ends (accountId : String) (l : AuthLockout) (call : Call) : Prop :=
  call.event = .recordSuccess accountId ∧ (l.recordSuccess call.now accountId).1 = .ok ()

instance (accountId : String) (l : AuthLockout) (call : Call) : Decidable (Ends accountId l call) :=
  inferInstanceAs (Decidable (_ ∧ _))

/-- The state, and the lockouts in a row of an account. -/
structure Watch where
  lockout : AuthLockout
  row : ℕ

/-- One call more. -/
def Watch.next (config : LockoutConfig) (accountId : String) (w : Watch) (call : Call) : Watch where
  lockout := w.lockout.after config call
  row :=
    if Ends accountId w.lockout call then 0
    else if Enters config accountId w.lockout call then w.row + 1
    else w.row

/-- What a run comes to. -/
def watch (config : LockoutConfig) (accountId : String) (calls : List Call) : Watch :=
  calls.foldl (Watch.next config accountId) ⟨.new, 0⟩

/-- The call locks the account for good. -/
def BecomesPermanent (config : LockoutConfig) (accountId : String) (l : AuthLockout) (call : Call) :
    Prop :=
  (l.account accountId).status ≠ .PermanentlyLocked ∧
    ((l.after config call).account accountId).status = .PermanentlyLocked

/-- The account becomes permanently locked exactly when it enters its last lockout in a row. -/
def CountsRow (config : LockoutConfig) (accountId : String) (w : Watch) (call : Call) : Prop :=
  BecomesPermanent config accountId w.lockout call ↔
    Enters config accountId w.lockout call ∧ w.row + 1 = config.lockoutsBeforePermanent.toNat

/-- The call is one the counter of lockouts takes for what it is. -/
structure Clean (config : LockoutConfig) (accountId : String) (w : Watch) (call : Call) : Prop where
  /-- A failure that is reported during a lockout does not reach the threshold. -/
  locked : ∀ ipAddress reason, call.event = .recordFailure accountId ipAddress reason →
    (w.lockout.account accountId).status = .TemporarilyLocked →
    (w.lockout.account accountId).isLockoutExpired (call.now 0) = false →
    (w.lockout.account accountId).reaches config call.now ipAddress reason = false
  /-- No success ends a row of lockouts. -/
  success : Ends accountId w.lockout call → w.row = 0
  /-- The row of lockouts is not already as long as the limit. -/
  short : Enters config accountId w.lockout call →
    w.row < config.lockoutsBeforePermanent.toNat

/-! ### One call -/

variable {config : LockoutConfig} {accountId : String} {l : AuthLockout} {w : Watch} {call : Call}

theorem after_poisoned (h : l.poisoned = true) : l.after config call = l :=
  step_poisoned h call.event

/-- The other calls count no lockout and lock nothing for good. -/
theorem after_of_not_fails (h : call.event.fails accountId = false) :
    ((l.after config call).account accountId).totalLockouts = (l.account accountId).totalLockouts ∧
      ¬BecomesPermanent config accountId l call := by
  unfold BecomesPermanent
  suffices hkeeps : (l.after config call).account accountId = l.account accountId ∨
      ((l.after config call).account accountId).totalLockouts
          = (l.account accountId).totalLockouts ∧
        ((l.after config call).account accountId).status = .Active by
    rcases hkeeps with hsame | ⟨htotal, hactive⟩
    · rw [hsame]
      exact ⟨rfl, fun hbecomes => hbecomes.1 hbecomes.2⟩
    · refine ⟨htotal, fun hbecomes => ?_⟩
      rw [hactive] at hbecomes
      cases hbecomes.2
  have hput {id : String} {s s' : AccountState} (hs : l.accounts id = some s)
      (htotal : s'.totalLockouts = s.totalLockouts) (hactive : s'.status = .Active) :
      (l.put id s').account accountId = l.account accountId ∨
        ((l.put id s').account accountId).totalLockouts = (l.account accountId).totalLockouts ∧
          ((l.put id s').account accountId).status = .Active := by
    by_cases hid : id = accountId
    · subst hid
      right
      have hnew : (l.put id s').account id = s' := by simp [account, put]
      have hold : l.account id = s := by simp [account, hs]
      rw [hnew, hold]
      exact ⟨htotal, hactive⟩
    · left
      unfold account
      rw [accounts_put hid]
  unfold after
  cases hevent : call.event with
  | isAuthenticationAllowed id => exact .inl rfl
  | recordFailure id ip reason =>
    rw [hevent] at h
    have hid : id ≠ accountId := of_decide_eq_false h
    left
    show ((l.recordFailure config call.now id ip reason).2).account accountId = _
    unfold recordFailure
    split_ifs
    · rfl
    · unfold account
      exact congrArg (·.getD .new) (accounts_put hid)
  | recordSuccess id =>
    show ((l.recordSuccess call.now id).2).account accountId = _ ∨
      ((l.recordSuccess call.now id).2.account accountId).totalLockouts = _ ∧
        ((l.recordSuccess call.now id).2.account accountId).status = _
    unfold recordSuccess
    split_ifs
    · exact .inl rfl
    · cases hs : l.accounts id with
      | none => exact .inl rfl
      | some s =>
        dsimp only
        split_ifs
        · exact .inl rfl
        · exact hput hs rfl rfl
  | adminUnlock id =>
    show ((l.adminUnlock id).2).account accountId = _ ∨
      ((l.adminUnlock id).2.account accountId).totalLockouts = _ ∧
        ((l.adminUnlock id).2.account accountId).status = _
    unfold adminUnlock
    split_ifs
    · exact .inl rfl
    · cases hs : l.accounts id with
      | none => exact .inl rfl
      | some s => exact hput hs rfl rfl

/-- A failure of the account is recorded in its state. -/
theorem account_after_of_fails {ipAddress : Option String} {reason : String}
    (hpoisoned : l.poisoned = false)
    (h : call.event = .recordFailure accountId ipAddress reason) :
    (l.after config call).account accountId
      = ((l.account accountId).recordFailure config call.now ipAddress reason).2 := by
  unfold after
  rw [h]
  show ((l.recordFailure config call.now accountId ipAddress reason).2).account accountId = _
  unfold recordFailure
  rw [if_neg (by rw [hpoisoned]; decide)]
  simp [account, put]

/-- An account may try unless it is locked and the lockout lasts. -/
theorem isAuthenticationAllowed_iff {now : ℕ → DateTime} :
    l.isAuthenticationAllowed now accountId = .ok true ↔
      l.poisoned = false ∧ (l.account accountId).isLockoutExpired (now 0) = true := by
  unfold isAuthenticationAllowed account
  split_ifs with hpoisoned
  · simp [hpoisoned]
  · cases l.accounts accountId with
    | none => simp [hpoisoned, AccountState.isLockoutExpired, AccountState.new]
    | some s => cases hs : s.status <;> simp [hpoisoned, hs, AccountState.isLockoutExpired]

/-- A lockout that is over has been cleared. -/
theorem status_reset_of_expired {s : AccountState} {t : DateTime}
    (h : s.isLockoutExpired t = true) : (s.reset t).status = .Active := by
  unfold AccountState.reset
  split_ifs with hlocked
  · rfl
  · unfold AccountState.isLockoutExpired at h hlocked
    cases hs : s.status <;> simp_all

/-! ### A run -/

/-- The counter of lockouts is the length of the row. -/
def Counted (accountId : String) (w : Watch) : Prop :=
  (w.lockout.account accountId).totalLockouts.toNat = w.row

/-- A failure of an account that may try. -/
theorem step_of_expired {ipAddress : Option String} {reason : String}
    (hpermanent : config.permanentLockout = true) (hcounted : Counted accountId w)
    (hclean : Clean config accountId w call) (hpoisoned : w.lockout.poisoned = false)
    (hevent : call.event = .recordFailure accountId ipAddress reason)
    (hexpired : (w.lockout.account accountId).isLockoutExpired (call.now 0) = true) :
    CountsRow config accountId w call ∧ Counted accountId (w.next config accountId call) := by
  have hfails : call.event.fails accountId = true := by simp [hevent, Event.fails]
  have hends : ¬Ends accountId w.lockout call := fun h => by simp [Ends, hevent] at h
  have hallowed := isAuthenticationAllowed_iff.mpr ⟨hpoisoned, hexpired⟩
  have hopen : (w.lockout.account accountId).status ≠ .PermanentlyLocked := by
    intro h
    simp [AccountState.isLockoutExpired, h] at hexpired
  have haccount := @account_after_of_fails config _ _ _ _ _ hpoisoned hevent
  unfold CountsRow BecomesPermanent Counted Watch.next
  dsimp only
  rw [if_neg hends]
  cases hreaches : (w.lockout.account accountId).reaches config call.now ipAddress reason with
  | true =>
    obtain ⟨htotal, hstatus⟩ := AccountState.recordFailure_of_reaches hopen hreaches
    rw [← haccount] at htotal hstatus
    have henters : Enters config accountId w.lockout call := by
      refine ⟨hfails, hallowed, ?_⟩
      rw [hstatus]
      split_ifs <;> decide
    have hshort := hclean.short henters
    -- the counter cannot wrap: it is below the limit, which is a 32-bit number itself
    have hlt := config.lockoutsBeforePermanent.toNat_lt
    have hnat : ((w.lockout.account accountId).totalLockouts + 1).toNat = w.row + 1 := by
      rw [UInt32.toNat_add, hcounted]
      show (w.row + 1) % 2 ^ 32 = _
      omega
    rw [if_pos henters, htotal, hnat, hstatus]
    refine ⟨?_, rfl⟩
    simp only [hpermanent, true_and, UInt32.le_iff_toNat_le, hnat]
    constructor
    · rintro ⟨-, hbecomes⟩
      split_ifs at hbecomes with hle
      exact ⟨henters, by omega⟩
    · rintro ⟨-, hrow⟩
      rw [if_pos (by omega)]
      exact ⟨hopen, rfl⟩
  | false =>
    obtain ⟨htotal, hstatus⟩ := AccountState.recordFailure_of_not_reaches hopen hreaches
    rw [← haccount] at htotal hstatus
    rw [status_reset_of_expired hexpired] at hstatus
    have henters : ¬Enters config accountId w.lockout call := fun h => h.2.2 hstatus
    rw [if_neg henters, htotal]
    refine ⟨⟨fun hbecomes => ?_, fun h => absurd h.1 henters⟩, hcounted⟩
    rw [hstatus] at hbecomes
    cases hbecomes.2

/-- A failure of an account that is locked. -/
theorem step_of_locked {ipAddress : Option String} {reason : String}
    (hcounted : Counted accountId w) (hclean : Clean config accountId w call)
    (hpoisoned : w.lockout.poisoned = false)
    (hevent : call.event = .recordFailure accountId ipAddress reason)
    (hlocked : (w.lockout.account accountId).isLockoutExpired (call.now 0) = false) :
    CountsRow config accountId w call ∧ Counted accountId (w.next config accountId call) := by
  have hends : ¬Ends accountId w.lockout call := fun h => by simp [Ends, hevent] at h
  have henters : ¬Enters config accountId w.lockout call := fun h => by
    have hexpired := (isAuthenticationAllowed_iff.mp h.2.1).2
    rw [hlocked] at hexpired
    cases hexpired
  have haccount := @account_after_of_fails config _ _ _ _ _ hpoisoned hevent
  unfold CountsRow BecomesPermanent Counted Watch.next
  dsimp only
  rw [if_neg hends, if_neg henters]
  by_cases hopen : (w.lockout.account accountId).status = .PermanentlyLocked
  · rw [haccount, AccountState.recordFailure_of_permanent hopen]
    exact ⟨⟨fun h => absurd h.2 h.1, fun h => absurd h.1 henters⟩, hcounted⟩
  · have htemporary : (w.lockout.account accountId).status = .TemporarilyLocked := by
      cases hs : (w.lockout.account accountId).status with
      | Active => simp [AccountState.isLockoutExpired, hs] at hlocked
      | TemporarilyLocked => rfl
      | PermanentlyLocked => exact absurd hs hopen
    have hreaches := hclean.locked ipAddress reason hevent htemporary hlocked
    obtain ⟨htotal, hstatus⟩ := AccountState.recordFailure_of_not_reaches hopen hreaches
    rw [← haccount] at htotal hstatus
    rw [htotal]
    refine ⟨⟨fun h => ?_, fun h => absurd h.1 henters⟩, hcounted⟩
    rw [hstatus] at h
    exact absurd h.2 (AccountState.status_reset_ne hopen)

/-- **A clean call keeps the counter at the length of the row.** -/
theorem step_of_clean (hpermanent : config.permanentLockout = true)
    (hcounted : Counted accountId w) (hclean : Clean config accountId w call) :
    CountsRow config accountId w call ∧ Counted accountId (w.next config accountId call) := by
  by_cases hfails : call.event.fails accountId = true
  · cases hevent : call.event with
    | recordFailure id ipAddress reason =>
      rw [hevent] at hfails
      obtain rfl : id = accountId := of_decide_eq_true hfails
      by_cases hpoisoned : w.lockout.poisoned = true
      · have hends : ¬Ends id w.lockout call := fun h => by simp [Ends, hevent] at h
        have henters : ¬Enters config id w.lockout call := fun h => by
          have hopen := (isAuthenticationAllowed_iff.mp h.2.1).1
          rw [hpoisoned] at hopen
          cases hopen
        unfold CountsRow BecomesPermanent Counted Watch.next
        dsimp only
        rw [if_neg hends, if_neg henters, after_poisoned hpoisoned]
        exact ⟨⟨fun h => absurd h.2 h.1, fun h => absurd h.1 henters⟩, hcounted⟩
      · have hpoisoned := Bool.eq_false_iff.mpr hpoisoned
        cases hexpired : (w.lockout.account id).isLockoutExpired (call.now 0) with
        | true => exact step_of_expired hpermanent hcounted hclean hpoisoned hevent hexpired
        | false => exact step_of_locked hcounted hclean hpoisoned hevent hexpired
    | isAuthenticationAllowed id => rw [hevent] at hfails; cases hfails
    | recordSuccess id => rw [hevent] at hfails; cases hfails
    | adminUnlock id => rw [hevent] at hfails; cases hfails
  · have henters : ¬Enters config accountId w.lockout call := fun h => hfails h.1
    obtain ⟨htotal, hbecomes⟩ :=
      @after_of_not_fails config _ w.lockout _ (Bool.eq_false_iff.mpr hfails)
    refine ⟨⟨fun h => absurd h hbecomes, fun h => absurd h.1 henters⟩, ?_⟩
    unfold Counted Watch.next
    dsimp only
    rw [htotal, if_neg henters]
    split_ifs with hends
    · rw [← hclean.success hends]
      exact hcounted
    · exact hcounted

/-- Every call of a run, as it is made, has a property. -/
def Throughout (config : LockoutConfig) (accountId : String) (calls : List Call)
    (P : Watch → Call → Prop) : Prop :=
  ∀ before call rest, calls = before ++ call :: rest → P (watch config accountId before) call

theorem watch_append (calls : List Call) (call : Call) :
    watch config accountId (calls ++ [call])
      = (watch config accountId calls).next config accountId call := by
  unfold watch
  rw [List.foldl_append]
  rfl

theorem counted_watch (hpermanent : config.permanentLockout = true) {calls : List Call}
    (h : Throughout config accountId calls (Clean config accountId)) :
    Counted accountId (watch config accountId calls) := by
  induction calls using List.reverseRecOn with
  | nil => rfl
  | append_singleton calls call ih =>
    rw [watch_append]
    have hcounted : Counted accountId (watch config accountId calls) := ih fun before c rest hc =>
      h before c (rest ++ [call]) (by rw [hc, List.append_assoc, List.cons_append])
    exact (step_of_clean hpermanent hcounted (h calls call [] rfl)).2

/-- **In every run of clean calls an account becomes permanently locked exactly when it enters the
last lockout of a row.** -/
theorem permanent_exactly (config : LockoutConfig) (accountId : String) (calls : List Call)
    (hpermanent : config.permanentLockout = true)
    (hclean : Throughout config accountId calls (Clean config accountId)) :
    Throughout config accountId calls (CountsRow config accountId) := by
  intro before call rest hcalls
  have hcounted : Counted accountId (watch config accountId before) :=
    counted_watch hpermanent fun before' c rest' hc =>
      hclean before' c (rest' ++ call :: rest)
        (by rw [hcalls, hc, List.append_assoc, List.cons_append])
  exact (step_of_clean hpermanent hcounted (hclean before call rest hcalls)).1

/-! ### Instances -/

namespace Instance

/-- One failure locks an account. -/
def strict (lockoutsBeforePermanent : UInt32) : LockoutConfig where
  maxFailedAttempts := 1
  lockoutDurationSecs := 900
  failureWindowSecs := 3600
  permanentLockout := true
  lockoutsBeforePermanent := lockoutsBeforePermanent

/-- A failure some seconds after the epoch. -/
def failure (seconds : ℤ) : Call :=
  ⟨.recordFailure "user1" none "invalid password", fun _ => .ofNanos (seconds * second)⟩

end Instance

open Instance in
/-- The second lockout is to be permanent.  A failure reported during the first is taken for it. -/
theorem permanent_while_locked :
    ¬Throughout (strict 2) "user1" [failure 0, failure 1] (CountsRow (strict 2) "user1") := by
  intro h
  have hrule := h [failure 0] (failure 1) [] rfl
  have hbecomes : BecomesPermanent (strict 2) "user1"
      (watch (strict 2) "user1" [failure 0]).lockout (failure 1) := by
    unfold BecomesPermanent
    decide +kernel
  have hnot : ¬Enters (strict 2) "user1" (watch (strict 2) "user1" [failure 0]).lockout
      (failure 1) := by
    decide +kernel
  exact hnot (hrule.mp hbecomes).1

open Instance in
/-- The first lockout is over when the second, which is permanent, begins. -/
theorem permanent_exactly_second :
    Throughout (strict 2) "user1" [failure 0, failure 901] (CountsRow (strict 2) "user1") := by
  refine permanent_exactly (strict 2) "user1" [failure 0, failure 901] rfl
    fun before call rest hcalls => ?_
  have hbefore : before = [] ∧ call = failure 0 ∨ before = [failure 0] ∧ call = failure 901 := by
    match before, hcalls with
    | [], hcalls => exact .inl ⟨rfl, (List.cons.inj hcalls).1.symm⟩
    | [_], hcalls =>
      obtain ⟨hfirst, hrest⟩ := List.cons.inj hcalls
      exact .inr ⟨by rw [hfirst], (List.cons.inj hrest).1.symm⟩
    | _ :: _ :: _, hcalls => simp at hcalls
  rcases hbefore with ⟨rfl, rfl⟩ | ⟨rfl, rfl⟩
  · refine ⟨fun _ _ _ htemporary => ?_, fun _ => rfl, fun _ => by decide⟩
    exact absurd htemporary (by decide)
  · refine ⟨fun _ _ _ _ hlocked => ?_, fun hends => ?_, fun _ => by decide +kernel⟩
    · exact absurd hlocked (by decide +kernel)
    · cases hends.1

end AuthLockout

end Ostrich.Common
