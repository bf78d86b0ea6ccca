import Ostrich.Common.Password
import Mathlib.Tactic.Linarith

/-!
# The lockout of the database

* `lockout_holds`: where the calls for a user come one after the other, a lock is kept until it
  expires, no call succeeds before, and no more than `max 1 maxAttempts` wrong passwords are
  compared until then;
* `lockout_defeated`: a call that looked the user up before the lock clears it, and two such calls
  compare two passwords where one is allowed.
-/

namespace Ostrich.Common.Password

open Interleave

/-! ### The property -/

/-- As many wrong passwords as the policy allows. -/
def Guessed (policy : LockoutPolicy) (s : Store) : Prop :=
    s.guesses ≤ max 1 policy.maxAttempts.toNat

/-- A step before the time of a lock: no call succeeds and the lock stays. -/
def KeepsLock (s : Store) (ev : AuthEvent) (after : Store) : Prop :=
  ∀ t, s.lockedUntil = some t → after.time < t →
    after.lockedUntil = some t ∧ ∀ i user, ev ≠ .finish i (.ok user)

/-- In the state `cfg`, the guesses are bounded and every admitted step keeps a lock. -/
def LockoutHolds (verifyPassword : String → String → Except AuthError Bool) (policy : LockoutPolicy)
    (allowed : AuthWorld → AuthEvent → Prop) (cfg : AuthState) : Prop :=
  Guessed policy cfg.world.store ∧
    ∀ a ev next, (system verifyPassword policy).step cfg a = some (ev, next) →
      allowed cfg.world ev → KeepsLock cfg.world.store ev next.world.store

/-- The task compared a wrong password that is not recorded yet. -/
def Pending (h : History Call Reply) : Prop :=
  (∃ password hash, ⟨.verifyPassword password hash, .ok false⟩ ∈ h) ∧
    ∀ now r, ⟨.recordFailedAttempt now, r⟩ ∉ h

/-- A call looks the user up after the other calls that did have ended; and a wrong password is
recorded: the call is not dropped before and the statement does not fail. -/
def InTurn (w : AuthWorld) : AuthEvent → Prop
  | .call i .findByUsername _ => ∀ j password, j ≠ i → w.Running j password → w.history j = []
  | .call _ (.recordFailedAttempt _) r => ∃ outcome, r = .ok outcome
  | .abort i => ¬Pending (w.history i)
  | _ => True

/-! ### What a call does -/

/-- The history of a call that passed the checks of the account. -/
def Passed (account : UserAccount) (h : History Call Reply) : Prop :=
  account.status = .Active ∧
    (account.lockedUntil = none ∧ h = [⟨.findByUsername, .ok (some account)⟩] ∨
      ∃ until_ now, account.lockedUntil = some until_ ∧ until_ ≤ now ∧
        h = [⟨.findByUsername, .ok (some account)⟩, ⟨.now, now⟩])

/-- The history of a call that compared a password. -/
def Compared (account : UserAccount) (valid : Bool) (h : History Call Reply) : Prop :=
  ∃ h₀ password hash, Passed account h₀ ∧ h = h₀ ++ [⟨.verifyPassword password hash, .ok valid⟩]

def spec : Spec Call Reply AuthError AuthenticatedUser String where
  calls _ h e := match e with
    | .findByUsername => h = []
    | .now => (∃ account, h = [⟨.findByUsername, .ok (some account)⟩]) ∨
        ∃ account, Compared account false h
    | .verifyPassword _ _ => ∃ account, Passed account h
    | .recordFailedAttempt now => ∃ account h₀, Compared account false h₀ ∧ h = h₀ ++ [⟨.now, now⟩]
    | .resetFailedAttempts => ∃ account, Compared account true h
    | .updateLastLogin _ => ∃ account h₀ r, Compared account true h₀ ∧
        h = h₀ ++ [⟨.resetFailedAttempts, r⟩]
    | .audit _ _ => ∃ now r, ⟨.recordFailedAttempt now, r⟩ ∈ h
  result _ r h := ¬Pending h ∧ ∀ user, r = .ok user → ∃ r', ⟨.resetFailedAttempts, r'⟩ ∈ h

/-- The calls up to the comparison. -/
def Checking (h : History Call Reply) : Prop :=
  ∀ s ∈ h, s.1 = .findByUsername ∨ s.1 = .now

theorem Passed.checking {account : UserAccount} {h : History Call Reply} (hh : Passed account h) :
    Checking h := by
  obtain ⟨-, ⟨-, rfl⟩ | ⟨until_, now, -, -, rfl⟩⟩ := hh
  · intro s hs
    rw [List.mem_singleton.mp hs]
    exact .inl rfl
  · intro s hs
    rcases List.mem_pair.mp hs with rfl | rfl
    · exact .inl rfl
    · exact .inr rfl

theorem Checking.not_pending {h : History Call Reply} (hh : Checking h) : ¬Pending h := by
  rintro ⟨⟨password, hash, hmem⟩, -⟩
  rcases hh _ hmem with heq | heq
  · cases heq
  · cases heq

variable {verifyPassword : String → String → Except AuthError Bool} {policy : LockoutPolicy}

theorem wp_failed {account : UserAccount} {h : History Call Reply} (hh : Compared account false h)
    (password : String) : failed.Wp (spec.calls password) (spec.result password) h := by
  refine ⟨.inr ⟨account, hh⟩, fun now => ⟨⟨account, h, hh, rfl⟩, fun reply => ?_⟩⟩
  have hmem {h' : History Call Reply} :
      (⟨.recordFailedAttempt now, reply⟩ : (e : Call) × Reply e)
        ∈ h ++ [⟨.now, now⟩] ++ [⟨.recordFailedAttempt now, reply⟩] ++ h' :=
    List.mem_append_left _ (List.mem_append_right _ (List.mem_singleton_self _))
  have hmem₀ : (⟨.recordFailedAttempt now, reply⟩ : (e : Call) × Reply e)
      ∈ h ++ [⟨.now, now⟩] ++ [⟨.recordFailedAttempt now, reply⟩] :=
    List.mem_append_right _ (List.mem_singleton_self _)
  have hnone {e : AuthError} {h' : History Call Reply}
      (hh' : ⟨.recordFailedAttempt now, reply⟩ ∈ h') : spec.result password (.error e) h' :=
    ⟨fun hpending => hpending.2 now reply hh', fun user heq => by cases heq⟩
  -- what follows are audit events, whatever the outcome
  have haudits (outcome : LockoutOutcome) : Prog.Wp (spec.calls password) (spec.result password)
      (do
        await (.audit .LoginFailed "invalid_password")
        if outcome.nowLocked then
          await (.audit .AccountLocked
            (if outcome.nowPermanent then "permanent_lockout" else "max_failed_attempts"))
          .fail .InvalidCredentials
        else .fail .InvalidCredentials)
      (h ++ [⟨.now, now⟩] ++ [⟨.recordFailedAttempt now, reply⟩]) := by
    refine ⟨⟨now, reply, hmem₀⟩, fun _ => ?_⟩
    show Prog.Wp _ _ (if outcome.nowLocked then _ else _) _
    by_cases hlocked : outcome.nowLocked = true
    · rw [if_pos hlocked]
      exact ⟨⟨now, reply, hmem⟩, fun _ => hnone (List.mem_append_left _ hmem)⟩
    · rw [if_neg hlocked]
      exact hnone hmem
  cases reply with
  | ok outcome => exact haudits outcome
  | error e =>
    cases e with
    | Panic => exact hnone hmem₀
    | _ => exact haudits .default

/-- A comparison that does not fail leaves nothing to record. -/
theorem not_pending_append {h : History Call Reply} (hh : Checking h) {password hash : String}
    {r : Except AuthError Bool} (hr : r ≠ .ok false) {rest : History Call Reply}
    (hrest : ∀ password hash r, ⟨.verifyPassword password hash, r⟩ ∉ rest) :
    ¬Pending (h ++ ⟨.verifyPassword password hash, r⟩ :: rest) := by
  rintro ⟨⟨password', hash', hmem⟩, -⟩
  rcases List.mem_append.mp hmem with hmem | hmem
  · rcases hh _ hmem with heq | heq
    · cases heq
    · cases heq
  · rcases List.mem_cons.mp hmem with heq | hmem
    · cases heq
      exact hr rfl
    · exact hrest _ _ _ hmem

theorem wp_checkPassword {account : UserAccount} {h : History Call Reply} (hh : Passed account h)
    (password : String) :
    (checkPassword password account).Wp (spec.calls password) (spec.result password) h := by
  unfold checkPassword
  split
  · exact ⟨hh.checking.not_pending, fun user heq => by cases heq⟩
  · rename_i hash _
    refine ⟨⟨account, hh⟩, fun reply => ?_⟩
    cases reply with
    | error e =>
      exact ⟨not_pending_append hh.checking (by simp) (by simp), fun user heq => by cases heq⟩
    | ok valid =>
      have hcompared : Compared account valid (h ++ [⟨.verifyPassword password hash, .ok valid⟩]) :=
        ⟨h, password, hash, hh, rfl⟩
      cases valid with
      | false => exact wp_failed hcompared password
      | true =>
        refine ⟨⟨account, hcompared⟩, fun r₁ => ⟨⟨account, _, r₁, hcompared, rfl⟩, fun r₂ => ?_⟩⟩
        show ¬Pending _ ∧ _
        rw [List.append_assoc, List.append_assoc]
        exact ⟨not_pending_append hh.checking (by simp) (by simp), fun user _ => ⟨r₁, by simp⟩⟩

theorem meets_spec : (system verifyPassword policy).Meets spec := by
  intro password
  refine ⟨rfl, fun reply => ?_⟩
  have hnone {e : AuthError} {h : History Call Reply} (hh : Checking h) :
      spec.result password (.error e) h := ⟨hh.not_pending, fun user heq => by cases heq⟩
  have hfind : Checking [⟨.findByUsername, reply⟩] := by
    intro s hs
    rw [List.mem_singleton.mp hs]
    exact .inl rfl
  cases reply with
  | error e => exact hnone hfind
  | ok found =>
    cases found with
    | none => exact hnone hfind
    | some account =>
      show (checkAccount password account).Wp _ _ _
      unfold checkAccount
      split
      · rename_i hactive
        split
        · rename_i hlocked
          exact wp_checkPassword ⟨hactive, .inl ⟨hlocked, rfl⟩⟩ password
        · rename_i until_ hlocked
          refine ⟨.inl ⟨account, rfl⟩, fun now => ?_⟩
          show Prog.Wp _ _ (if now < until_ then _ else _) _
          split_ifs with hnow
          · refine hnone fun s hs => ?_
            rcases List.mem_append.mp hs with hs | hs
            · exact hfind s hs
            · rw [List.mem_singleton.mp hs]
              exact .inr rfl
          · refine wp_checkPassword ⟨hactive, .inr ⟨until_, now, hlocked, ?_, rfl⟩⟩ password
            by_contra hle
            exact hnow (DateTime.not_le.mp hle)
      · exact hnone hfind
      · exact hnone hfind
      · exact hnone hfind
      · exact hnone hfind

/-! ### The store -/

/-- The user is locked now. -/
def InForce (s : Store) : Prop := ∃ t, s.lockedUntil = some t ∧ s.time < t

/-- The failures of this episode. -/
def counted (s : Store) : ℕ :=
  match s.row with
  | none => 0
  | some row => if row.lockedUntil.isSome then 0 else row.failedAttempts.val

/-- The guesses are recorded, but for `k` of them; while the user is not locked one more is
allowed. -/
def Count (policy : LockoutPolicy) (s : Store) (k : ℕ) : Prop :=
  (InForce s → s.guesses ≤ max 1 policy.maxAttempts.toNat) ∧
    (¬InForce s → s.guesses ≤ counted s + k ∧ s.guesses + 1 ≤ max 1 policy.maxAttempts.toNat + k)

theorem time_wait (s : Store) (n : ℕ) : s.time ≤ (s.wait n).time :=
  DateTime.ofNanos_le_ofNanos (Int.le_add_of_nonneg_right (Int.natCast_nonneg n))

/-- No lock comes into force by waiting. -/
theorem not_inForce_wait {s : Store} (h : ¬InForce s) (n : ℕ) : ¬InForce (s.wait n) := by
  rintro ⟨t, ht, hlt⟩
  exact h ⟨t, ht, DateTime.lt_of_le_of_lt (time_wait s n) hlt⟩

theorem Count.wait {s : Store} {k : ℕ} (h : Count policy s k) (n : ℕ) :
    Count policy (s.wait n) k := by
  by_cases hexpires : (s.lockedUntil.any fun t => s.time < t ∧ t ≤ (s.wait n).time) = true
  · have hguesses : (s.wait n).guesses = 0 := if_pos hexpires
    unfold Count
    rw [hguesses]
    omega
  · have hguesses : (s.wait n).guesses = s.guesses := if_neg hexpires
    have hforce : InForce s → InForce (s.wait n) := by
      rintro ⟨t, ht, hlt⟩
      refine ⟨t, ht, DateTime.not_le.mp fun hle => hexpires ?_⟩
      rw [ht]
      exact decide_eq_true ⟨hlt, hle⟩
    unfold Count
    rw [hguesses]
    refine ⟨fun hnow => ?_, fun hnow => h.2 fun hbefore => hnow (hforce hbefore)⟩
    by_contra hmany
    exact not_inForce_wait (fun hbefore => hmany (h.1 hbefore)) n hnow

/-- The calls that write neither the row nor the count. -/
def Call.reads : Call → Bool
  | .findByUsername | .now | .updateLastLogin _ | .audit _ _ => true
  | _ => false

theorem exec_reads {e : Call} (he : e.reads = true) (c : Choice) (s : Store) :
    (exec verifyPassword policy e c s).2 = s.wait c.elapsed := by
  have hreply {α : Type} (r : Except AuthError α) :
      (c.reply (s.wait c.elapsed) (r, s.wait c.elapsed)).2 = s.wait c.elapsed := by
    unfold Choice.reply
    split
    · rfl
    · split_ifs <;> rfl
  cases e with
  | findByUsername => exact hreply _
  | now => rfl
  | updateLastLogin id => exact hreply _
  | audit kind reason => rfl
  | verifyPassword password hash => cases he
  | recordFailedAttempt now => cases he
  | resetFailedAttempts => cases he

theorem toNat_max (a b : UInt32) : (max a b).toNat = max a.toNat b.toNat := by
  show (if a ≤ b then b else a).toNat = _
  split_ifs with h
  · exact (max_eq_right (UInt32.le_iff_toNat_le.mp h)).symm
  · have hle := mt UInt32.le_iff_toNat_le.mpr h
    exact (max_eq_left (by omega)).symm

/-- A failed attempt of an account that is active and not locked. -/
theorem recordFailedAttempt_spec {row new : UserRow} {now : DateTime} {outcome : LockoutOutcome}
    (hactive : row.status = .Active) (hopen : ∀ t, row.lockedUntil = some t → t ≤ now)
    (h : recordFailedAttempt policy now row = (.ok outcome, new)) :
    (outcome.nowLocked = true ∧ new.lockedUntil.isSome) ∨
      outcome.nowLocked = false ∧ new.lockedUntil = none ∧
        new.failedAttempts.val
          = (if row.lockedUntil.isSome then 0 else row.failedAttempts.val) + 1 ∧
        new.failedAttempts.val < max 1 policy.maxAttempts.toNat := by
  have hprior : (row.lockedUntil.any (· ≤ now)) = row.lockedUntil.isSome := by
    cases hlocked : row.lockedUntil with
    | none => rfl
    | some t => exact decide_eq_true (hopen t hlocked)
  have hnot : ¬(row.status ≠ .Active ∨ (row.lockedUntil.any (now < ·)) = true) := by
    rintro (hstatus | hany)
    · exact hstatus hactive
    · obtain ⟨t, ht, hlt⟩ := (Option.any_eq_true _ _).mp hany
      have hle := hopen t ht
      exact DateTime.not_le.mpr (of_decide_eq_true hlt) hle
  unfold recordFailedAttempt at h
  dsimp only at h
  rw [if_neg hnot, hprior] at h
  by_cases hmax : toI32 (max policy.maxAttempts 1).toNat
      ≤ if row.lockedUntil.isSome then 1 else toI32 (row.failedAttempts.val + 1)
  · rw [if_pos hmax] at h
    left
    split at h
    · cases (Prod.mk.inj h).1
    · split at h
      · cases (Prod.mk.inj h).1
      · split_ifs at h
        all_goals first
          | (cases (Prod.mk.inj h).1; done)
          | obtain ⟨houtcome, rfl⟩ := Prod.mk.inj h
            obtain rfl := Except.ok.inj houtcome
            exact ⟨rfl, rfl⟩
  · rw [if_neg hmax] at h
    right
    have hfin := row.failedAttempts.isLt
    have hthreshold := toNat_max policy.maxAttempts 1
    have hone : (1 : UInt32).toNat = 1 := rfl
    have hlt := policy.maxAttempts.toNat_lt
    unfold toI32 at hmax h
    cases hlocked : row.lockedUntil with
    | none =>
      rw [hlocked] at hmax h
      simp only [Option.isSome_none, Bool.false_eq_true, if_false] at hmax h ⊢
      split_ifs at h with hneg
      · cases (Prod.mk.inj h).1
      · obtain ⟨houtcome, rfl⟩ := Prod.mk.inj h
        obtain rfl := Except.ok.inj houtcome
        refine ⟨rfl, rfl, ?_⟩
        rw [Fin.val_ofNat]
        omega
    | some t =>
      rw [hlocked] at hmax h
      simp only [Option.isSome_some, if_true] at hmax h ⊢
      split_ifs at h with hneg
      · cases (Prod.mk.inj h).1
      · obtain ⟨houtcome, rfl⟩ := Prod.mk.inj h
        obtain rfl := Except.ok.inj houtcome
        refine ⟨rfl, rfl, ?_⟩
        rw [Fin.val_ofNat]
        omega

/-! ### The invariant -/

/-- While a call is past its look-up no other is: the row is the one it read until it writes, its
readings of the clock are in order, and its wrong password is the only one that is not recorded. -/
structure Inv (policy : LockoutPolicy) (w : AuthWorld) : Prop where
  alone : ∀ {i j p q}, w.Running i p → w.Running j q → w.history i ≠ [] → w.history j ≠ [] → i = j
  read : ∀ {i t}, ⟨.now, t⟩ ∈ w.history i → t ≤ w.store.time
  row : ∀ {i p account}, w.Running i p → ⟨.findByUsername, .ok (some account)⟩ ∈ w.history i →
    (∀ now r, ⟨.recordFailedAttempt now, r⟩ ∉ w.history i) →
    (∀ r, ⟨.resetFailedAttempts, r⟩ ∉ w.history i) →
    ∃ row, w.store.row = some row ∧ row.status = account.status ∧
      row.lockedUntil = account.lockedUntil
  later : ∀ {i account h₀ now}, Compared account false h₀ → w.history i = h₀ ++ [⟨.now, now⟩] →
    ∀ t, account.lockedUntil = some t → t ≤ now
  opened : ∀ {i p r}, w.Running i p → ⟨.resetFailedAttempts, r⟩ ∈ w.history i → ¬InForce w.store
  quiet : (∀ i p, w.Running i p → ¬Pending (w.history i)) → Count policy w.store 0
  pending : ∀ {i p}, w.Running i p → Pending (w.history i) → Count policy w.store 1 ∧
    ¬InForce w.store

theorem Compared.mem {account : UserAccount} {valid : Bool} {h : History Call Reply}
    (hh : Compared account valid h) : ⟨.findByUsername, .ok (some account)⟩ ∈ h := by
  obtain ⟨h₀, password, hash, ⟨-, ⟨-, rfl⟩ | ⟨until_, now, -, -, rfl⟩⟩, rfl⟩ := hh
  · simp
  · simp

/-- Nothing is written up to the comparison. -/
theorem Compared.no_write {account : UserAccount} {valid : Bool} {h : History Call Reply}
    (hh : Compared account valid h) {s : (e : Call) × Reply e} (hs : s ∈ h) :
    (∀ now, s.1 ≠ .recordFailedAttempt now) ∧ s.1 ≠ .resetFailedAttempts := by
  obtain ⟨h₀, password, hash, hpassed, rfl⟩ := hh
  rcases List.mem_append.mp hs with hs | hs
  · rcases hpassed.checking s hs with heq | heq
    · rw [heq]
      exact ⟨nofun, nofun⟩
    · rw [heq]
      exact ⟨nofun, nofun⟩
  · rw [List.mem_singleton.mp hs]
    exact ⟨nofun, nofun⟩

theorem Compared.active {account : UserAccount} {valid : Bool} {h : History Call Reply}
    (hh : Compared account valid h) : account.status = .Active := by
  obtain ⟨h₀, password, hash, hpassed, rfl⟩ := hh
  exact hpassed.1

/-- The lock of the account that a call read was over when it passed the check. -/
theorem Passed.over {account : UserAccount} {h : History Call Reply} (hh : Passed account h)
    {t : DateTime} (ht : account.lockedUntil = some t) : ∃ now, ⟨.now, now⟩ ∈ h ∧ t ≤ now := by
  obtain ⟨-, ⟨hnone, -⟩ | ⟨until_, now, hsome, hle, rfl⟩⟩ := hh
  · rw [hnone] at ht
    cases ht
  · rw [hsome] at ht
    cases ht
    exact ⟨now, by simp, hle⟩

theorem Compared.over {account : UserAccount} {valid : Bool} {h : History Call Reply}
    (hh : Compared account valid h) {t : DateTime} (ht : account.lockedUntil = some t) :
    ∃ now, ⟨.now, now⟩ ∈ h ∧ t ≤ now := by
  obtain ⟨h₀, password, hash, hpassed, rfl⟩ := hh
  obtain ⟨now, hmem, hle⟩ := hpassed.over ht
  exact ⟨now, List.mem_append_left _ hmem, hle⟩

/-- Only a look-up is the first call. -/
theorem history_ne_nil {password : String} {h : History Call Reply} {e : Call}
    (he : e ≠ .findByUsername) (hcalls : spec.calls password h e) : h ≠ [] := by
  rintro rfl
  have hcompared {account : UserAccount} {valid : Bool} (hh : Compared account valid []) : False :=
    List.not_mem_nil hh.mem
  cases e with
  | findByUsername => exact he rfl
  | now =>
    rcases hcalls with ⟨account, heq⟩ | ⟨account, hh⟩
    · cases heq
    · exact hcompared hh
  | verifyPassword password hash =>
    obtain ⟨account, -, ⟨-, heq⟩ | ⟨until_, now, -, -, heq⟩⟩ := hcalls
    · cases heq
    · cases heq
  | recordFailedAttempt now =>
    obtain ⟨account, h₀, -, heq⟩ := hcalls
    exact List.append_ne_nil_of_right_ne_nil _ (by simp) heq.symm
  | resetFailedAttempts =>
    obtain ⟨account, hh⟩ := hcalls
    exact hcompared hh
  | updateLastLogin id =>
    obtain ⟨account, h₀, r, -, heq⟩ := hcalls
    exact List.append_ne_nil_of_right_ne_nil _ (by simp) heq.symm
  | audit kind reason =>
    obtain ⟨now, r, hmem⟩ := hcalls
    exact List.not_mem_nil hmem

/-- A call that passed the check of the account finds it open, until it writes. -/
theorem Inv.not_inForce {w : AuthWorld} (hinv : Inv policy w) {i : ℕ} {p : String}
    (hrun : w.Running i p) {account : UserAccount}
    (hfound : ⟨.findByUsername, .ok (some account)⟩ ∈ w.history i)
    (hover : ∀ t, account.lockedUntil = some t → ∃ now, ⟨.now, now⟩ ∈ w.history i ∧ t ≤ now)
    (hrecord : ∀ now r, ⟨.recordFailedAttempt now, r⟩ ∉ w.history i)
    (hreset : ∀ r, ⟨.resetFailedAttempts, r⟩ ∉ w.history i) : ¬InForce w.store := by
  rintro ⟨t, ht, hlt⟩
  obtain ⟨row, hrow, -, hlocked⟩ := hinv.row hrun hfound hrecord hreset
  have hsome : account.lockedUntil = some t := by
    rw [← hlocked, ← ht]
    unfold Store.lockedUntil
    rw [hrow]
    rfl
  obtain ⟨now, hmem, hle⟩ := hover t hsome
  exact DateTime.not_le.mpr hlt (DateTime.le_trans hle (hinv.read hmem))

theorem not_pending_nil : ¬Pending [] := fun h => by
  obtain ⟨password, hash, hmem⟩ := h.1
  exact List.not_mem_nil hmem

/-- If only task `i` can wait for its record, its state decides about the count. -/
theorem Inv.count {w : AuthWorld} (hinv : Inv policy w) {i : ℕ} (hi : ¬Pending (w.history i))
    (hothers : ∀ j q, j ≠ i → w.Running j q → w.history j = []) : Count policy w.store 0 := by
  refine hinv.quiet fun j q hrun => ?_
  by_cases hji : j = i
  · rw [hji]
    exact hi
  · rw [hothers j q hji hrun]
    exact not_pending_nil

/-- A call of task `i`, the only one past its look-up. -/
theorem Inv.of_call {w : AuthWorld} (hinv : Inv policy w) {i n : ℕ} {p : String} {e : Call}
    {c : Choice} (hrun : w.Running i p)
    (hothers : ∀ j q, j ≠ i → w.Running j q → w.history j = [])
    (hread : ∀ t, (⟨e, (exec verifyPassword policy e c w.store).1⟩ : (e : Call) × Reply e)
      = ⟨.now, t⟩ → t ≤ (exec verifyPassword policy e c w.store).2.time)
    (htime : w.store.time ≤ (exec verifyPassword policy e c w.store).2.time)
    {h' : History Call Reply}
    (hh' : h' = w.history i ++ [⟨e, (exec verifyPassword policy e c w.store).1⟩])
    (hrow : ∀ account, ⟨.findByUsername, .ok (some account)⟩ ∈ h' →
      (∀ now r, ⟨.recordFailedAttempt now, r⟩ ∉ h') → (∀ r, ⟨.resetFailedAttempts, r⟩ ∉ h') →
      ∃ row, (exec verifyPassword policy e c w.store).2.row = some row ∧
        row.status = account.status ∧ row.lockedUntil = account.lockedUntil)
    (hlater : ∀ account h₀ now, Compared account false h₀ → h' = h₀ ++ [⟨.now, now⟩] →
      ∀ t, account.lockedUntil = some t → t ≤ now)
    (hopened : ∀ r, ⟨.resetFailedAttempts, r⟩ ∈ h' →
      ¬InForce (exec verifyPassword policy e c w.store).2)
    (hpending : Pending h' → Count policy (exec verifyPassword policy e c w.store).2 1 ∧
      ¬InForce (exec verifyPassword policy e c w.store).2)
    (hquiet : ¬Pending h' → Count policy (exec verifyPassword policy e c w.store).2 0) :
    Inv policy ((system verifyPassword policy).after i n e c w) := by
  have hhistory (j : ℕ) : ((system verifyPassword policy).after i n e c w).history j
      = if j = i then h' else w.history j := by
    rw [System.history_after]
    split_ifs with hji
    · rw [hh', hji]
      rfl
    · exact List.append_nil _
  have hrunning {j : ℕ} {q : String}
      (h : ((system verifyPassword policy).after i n e c w).Running j q) : w.Running j q :=
    h.of_append (by simp [System.spawnEvents, system])
  have hempty {j : ℕ} {q : String} (hji : j ≠ i)
      (h : ((system verifyPassword policy).after i n e c w).Running j q) :
      ((system verifyPassword policy).after i n e c w).history j = [] := by
    rw [hhistory, if_neg hji]
    exact hothers j q hji (hrunning h)
  refine ⟨?_, ?_, ?_, ?_, ?_, ?_, ?_⟩
  · intro j k p q hj hk hjne hkne
    have hji : j = i := by_contra fun hne => hjne (hempty hne hj)
    have hki : k = i := by_contra fun hne => hkne (hempty hne hk)
    rw [hji, hki]
  · intro j t hmem
    rw [System.history_after] at hmem
    rcases List.mem_append.mp hmem with hmem | hmem
    · exact DateTime.le_trans (hinv.read hmem) htime
    · split_ifs at hmem
      · exact hread t (List.mem_singleton.mp hmem).symm
      · exact absurd hmem List.not_mem_nil
  · intro j p account hj hfound hrecord hreset
    have hji : j = i := by_contra fun hne => by
      rw [hempty hne hj] at hfound
      exact List.not_mem_nil hfound
    rw [hhistory, if_pos hji] at hfound hrecord hreset
    exact hrow account hfound hrecord hreset
  · intro j account h₀ now hcompared heq
    rw [hhistory] at heq
    split_ifs at heq
    · exact hlater account h₀ now hcompared heq
    · exact hinv.later hcompared heq
  · intro j p r hj hmem
    have hji : j = i := by_contra fun hne => by
      rw [hempty hne hj] at hmem
      exact List.not_mem_nil hmem
    rw [hhistory, if_pos hji] at hmem
    exact hopened r hmem
  · intro hall
    have hi := hall i p (hrun.add (by simp [System.spawnEvents, system]))
    rw [hhistory, if_pos rfl] at hi
    exact hquiet hi
  · intro j p hj hp
    have hji : j = i := by_contra fun hne => by
      rw [hempty hne hj] at hp
      exact not_pending_nil hp
    rw [hhistory, if_pos hji] at hp
    exact hpending hp

/-- A call that writes nothing. -/
theorem Inv.of_reads {w : AuthWorld} (hinv : Inv policy w) {i n : ℕ} {p : String} {e : Call}
    {c : Choice} (hrun : w.Running i p) (he : e.reads = true)
    (hothers : ∀ j q, j ≠ i → w.Running j q → w.history j = [])
    (hfind : ∀ account, (⟨e, (exec verifyPassword policy e c w.store).1⟩ : (e : Call) × Reply e)
      = ⟨.findByUsername, .ok (some account)⟩ → ∃ row, w.store.row = some row ∧
        row.status = account.status ∧ row.lockedUntil = account.lockedUntil)
    (hread : ∀ t, (⟨e, (exec verifyPassword policy e c w.store).1⟩ : (e : Call) × Reply e)
      = ⟨.now, t⟩ → t = (w.store.wait c.elapsed).time) :
    Inv policy ((system verifyPassword policy).after i n e c w) := by
  have hstore : (exec verifyPassword policy e c w.store).2 = w.store.wait c.elapsed :=
    exec_reads he c w.store
  have hle : w.store.time ≤ (w.store.wait c.elapsed).time := time_wait _ _
  set r := (exec verifyPassword policy e c w.store).1 with hr
  have hrecorded {now : DateTime} {r' : Reply (.recordFailedAttempt now)} :
      (⟨.recordFailedAttempt now, r'⟩ : (e : Call) × Reply e) ∈ w.history i ++ [⟨e, r⟩] ↔
        ⟨.recordFailedAttempt now, r'⟩ ∈ w.history i := by
    rw [List.mem_append, List.mem_singleton]
    refine or_iff_left fun heq => ?_
    obtain rfl := (Sigma.mk.inj heq).1
    cases he
  have hreset {r' : Reply .resetFailedAttempts} :
      (⟨.resetFailedAttempts, r'⟩ : (e : Call) × Reply e) ∈ w.history i ++ [⟨e, r⟩] ↔
        ⟨.resetFailedAttempts, r'⟩ ∈ w.history i := by
    rw [List.mem_append, List.mem_singleton]
    refine or_iff_left fun heq => ?_
    obtain rfl := (Sigma.mk.inj heq).1
    cases he
  have hverified {password hash : String} {r' : Reply (.verifyPassword password hash)} :
      (⟨.verifyPassword password hash, r'⟩ : (e : Call) × Reply e) ∈ w.history i ++ [⟨e, r⟩] ↔
        ⟨.verifyPassword password hash, r'⟩ ∈ w.history i := by
    rw [List.mem_append, List.mem_singleton]
    refine or_iff_left fun heq => ?_
    obtain rfl := (Sigma.mk.inj heq).1
    cases he
  have hpending : Pending (w.history i ++ [⟨e, r⟩]) ↔ Pending (w.history i) := by
    unfold Pending
    simp only [hverified, hrecorded]
  refine hinv.of_call hrun hothers (fun t ht => ?_) ?_ rfl ?_ ?_ ?_ ?_ ?_
  · rw [hstore, hread t ht]
    exact DateTime.ofNanos_le_ofNanos (le_refl _)
  · rw [hstore]
    exact hle
  · intro account hfound hno hno'
    rw [hstore]
    rcases List.mem_append.mp hfound with hfound | hfound
    · exact hinv.row hrun hfound (fun now r' hmem => hno now r' (hrecorded.mpr hmem))
        fun r' hmem => hno' r' (hreset.mpr hmem)
    · exact hfind account (List.mem_singleton.mp hfound).symm
  · intro account h₀ now hcompared heq t ht
    obtain ⟨hh₀, hlast⟩ := List.append_inj' heq rfl
    have hnow := hread now (List.singleton_inj.mp hlast)
    obtain ⟨now₀, hmem, hle₀⟩ := hcompared.over ht
    rw [← hh₀] at hmem
    rw [hnow]
    exact DateTime.le_trans hle₀ (DateTime.le_trans (hinv.read hmem) hle)
  · intro r' hmem
    rw [hstore]
    exact not_inForce_wait (hinv.opened hrun (hreset.mp hmem)) _
  · intro hp
    rw [hstore]
    obtain ⟨hcount, hopen⟩ := hinv.pending hrun (hpending.mp hp)
    exact ⟨hcount.wait _, not_inForce_wait hopen _⟩
  · intro hp
    rw [hstore]
    exact (hinv.count (mt hpending.mpr hp) hothers).wait _

/-- What a comparison does to the store. -/
theorem store_verify (password hash : String) (c : Choice) (s : Store) :
    (exec verifyPassword policy (.verifyPassword password hash) c s).2 =
      { s.wait c.elapsed with guesses := match verifyPassword password hash with
        | .ok false => (s.wait c.elapsed).guesses + 1
        | _ => (s.wait c.elapsed).guesses } := rfl

/-- A comparison: the account is open and nothing waits to be recorded. -/
theorem Inv.of_verify {w : AuthWorld} (hinv : Inv policy w) {i n : ℕ} {p password hash : String}
    {c : Choice} (hrun : w.Running i p)
    (hothers : ∀ j q, j ≠ i → w.Running j q → w.history j = []) {account : UserAccount}
    (hpassed : Passed account (w.history i)) :
    Inv policy ((system verifyPassword policy).after i n (.verifyPassword password hash) c w) := by
  have hchecking := hpassed.checking
  have hno {s : (e : Call) × Reply e} (hs : s ∈ w.history i) :
      (∀ now, s.1 ≠ .recordFailedAttempt now) ∧ s.1 ≠ .resetFailedAttempts := by
    rcases hchecking s hs with heq | heq
    · rw [heq]
      exact ⟨nofun, nofun⟩
    · rw [heq]
      exact ⟨nofun, nofun⟩
  have hcount := (hinv.count hchecking.not_pending hothers).wait c.elapsed
  have hfound : ⟨.findByUsername, .ok (some account)⟩ ∈ w.history i := by
    obtain ⟨-, ⟨-, heq⟩ | ⟨until_, now, -, -, heq⟩⟩ := hpassed
    · rw [heq]
      simp
    · rw [heq]
      simp
  have hopen : ¬InForce (w.store.wait c.elapsed) :=
    not_inForce_wait (hinv.not_inForce hrun hfound (fun t ht => hpassed.over ht)
      (fun now r hmem => (hno hmem).1 now rfl) fun r hmem => (hno hmem).2 rfl) _
  refine hinv.of_call hrun hothers (fun t ht => ?_) (time_wait _ _) rfl ?_ ?_ ?_ ?_ ?_
  · cases ht
  · intro account' hmem hrecord hreset
    rcases List.mem_append.mp hmem with hmem | hmem
    · exact hinv.row hrun hmem (fun now r h => (hno h).1 now rfl) fun r h => (hno h).2 rfl
    · cases List.mem_singleton.mp hmem
  · intro account' h₀ now hcompared heq
    have hlast := (List.append_inj' heq rfl).2
    cases List.singleton_inj.mp hlast
  · intro r hmem
    rcases List.mem_append.mp hmem with hmem | hmem
    · exact absurd rfl (hno hmem).2
    · cases List.mem_singleton.mp hmem
  · intro hp
    refine ⟨?_, hopen⟩
    obtain ⟨hguesses, hmax⟩ := hcount.2 hopen
    have hle : (exec verifyPassword policy (.verifyPassword password hash) c w.store).2.guesses
        ≤ (w.store.wait c.elapsed).guesses + 1 := by
      rw [store_verify]
      dsimp only
      split
      · exact le_refl _
      · exact Nat.le_succ _
    have hcounted : counted (exec verifyPassword policy (.verifyPassword password hash) c w.store).2
        = counted (w.store.wait c.elapsed) := rfl
    refine ⟨fun hforce => absurd hforce hopen, fun _ => ?_⟩
    rw [hcounted]
    omega
  · intro hp
    have hguesses : (exec verifyPassword policy (.verifyPassword password hash) c w.store).2
        = w.store.wait c.elapsed := by
      rw [store_verify]
      split
      · rename_i hfalse
        refine absurd ⟨⟨password, hash, ?_⟩, fun now r hmem => ?_⟩ hp
        · show ⟨.verifyPassword password hash, .ok false⟩
            ∈ w.history i ++ [⟨.verifyPassword password hash, verifyPassword password hash⟩]
          rw [hfalse]
          exact List.mem_append_right _ (List.mem_singleton_self _)
        · rcases List.mem_append.mp hmem with hmem | hmem
          · exact (hno hmem).1 now rfl
          · cases List.mem_singleton.mp hmem
      · rfl
    rw [hguesses]
    exact hcount

/-- A failure that is recorded. -/
theorem Count.applyFailure {s : Store} (hcount : Count policy s 1) (hopen : ¬InForce s)
    {row : UserRow} {now : DateTime} (hrow : s.row = some row) (hactive : row.status = .Active)
    (hnow : ∀ t, row.lockedUntil = some t → t ≤ now) {outcome : LockoutOutcome}
    (hok : (applyFailure policy now s).1 = .ok outcome) :
    Count policy (applyFailure policy now s).2 0 := by
  obtain ⟨hguesses, hmax⟩ := hcount.2 hopen
  unfold counted at hguesses
  rw [hrow] at hguesses
  dsimp only at hguesses
  unfold Password.applyFailure at hok ⊢
  rw [hrow] at hok ⊢
  dsimp only at hok ⊢
  cases hrecord : recordFailedAttempt policy now row with
  | mk r new =>
    rw [hrecord] at hok
    dsimp only at hok ⊢
    subst hok
    show Count policy { s with
      row := some new
      guesses := if (outcome.nowLocked && new.lockedUntil.any (· ≤ s.time)) = true then 0
        else s.guesses } 0
    rcases recordFailedAttempt_spec hactive hnow hrecord with
      ⟨hlocked, hsome⟩ | ⟨hlocked, hnone, hfailed, hlt⟩
    · obtain ⟨t, ht⟩ := Option.isSome_iff_exists.mp hsome
      have hany : (outcome.nowLocked && new.lockedUntil.any (· ≤ s.time)) = true ↔ t ≤ s.time := by
        rw [hlocked, ht]
        exact decide_eq_true_iff
      by_cases hover : t ≤ s.time
      · -- the lock is over at once
        rw [if_pos (hany.mpr hover)]
        exact ⟨fun _ => Nat.zero_le _, fun _ => ⟨Nat.zero_le _, by simp⟩⟩
      · rw [if_neg (mt hany.mp hover)]
        refine ⟨fun _ => by show s.guesses ≤ _; omega, fun hnot => absurd ⟨t, ht, ?_⟩ hnot⟩
        exact DateTime.not_le.mp hover
    · rw [if_neg (by simp [hlocked])]
      have hforce : ¬InForce { s with row := some new } := by
        rintro ⟨t, ht, -⟩
        rw [show Store.lockedUntil { s with row := some new }
          = new.lockedUntil from rfl, hnone] at ht
        cases ht
      have hcounted : counted { s with row := some new } = new.failedAttempts.val := by
        unfold counted
        simp [hnone]
      refine ⟨fun h => absurd h hforce, fun _ => ?_⟩
      rw [hcounted]
      show s.guesses ≤ _ ∧ s.guesses + 1 ≤ _
      omega

/-- The failure of the call is recorded. -/
theorem Inv.of_record {w : AuthWorld} (hinv : Inv policy w) {i n : ℕ} {p : String} {now : DateTime}
    {c : Choice} (hrun : w.Running i p)
    (hothers : ∀ j q, j ≠ i → w.Running j q → w.history j = []) {account : UserAccount}
    {h₀ : History Call Reply} (hcompared : Compared account false h₀)
    (hh : w.history i = h₀ ++ [⟨.now, now⟩])
    (hok : ∃ outcome, (exec verifyPassword policy (.recordFailedAttempt now) c w.store).1
      = .ok outcome) :
    Inv policy ((system verifyPassword policy).after i n (.recordFailedAttempt now) c w) := by
  have hno {s : (e : Call) × Reply e} (hs : s ∈ w.history i) :
      (∀ now, s.1 ≠ .recordFailedAttempt now) ∧ s.1 ≠ .resetFailedAttempts := by
    rw [hh] at hs
    rcases List.mem_append.mp hs with hs | hs
    · exact hcompared.no_write hs
    · rw [List.mem_singleton.mp hs]
      exact ⟨nofun, nofun⟩
  have hpending : Pending (w.history i) := by
    obtain ⟨h₁, password, hash, -, rfl⟩ := hcompared
    refine ⟨⟨password, hash, ?_⟩, fun now' r hmem => (hno hmem).1 now' rfl⟩
    rw [hh]
    simp
  obtain ⟨hcount, hopen⟩ := hinv.pending hrun hpending
  have hfound : (⟨.findByUsername, .ok (some account)⟩ : (e : Call) × Reply e) ∈ w.history i := by
    rw [hh]
    exact List.mem_append_left _ hcompared.mem
  obtain ⟨row, hrow, hstatus, hlocked⟩ :=
    hinv.row hrun hfound (fun now' r hmem => (hno hmem).1 now' rfl) fun r hmem => (hno hmem).2 rfl
  obtain ⟨outcome, hok⟩ := hok
  -- the statement did not fail
  have hexec : exec verifyPassword policy (.recordFailedAttempt now) c w.store
      = applyFailure policy now (w.store.wait c.elapsed) := by
    show c.reply _ _ = _
    change (c.reply _ _).1 = _ at hok
    unfold Choice.reply at hok ⊢
    split
    · rfl
    · rename_i e applied hfault
      rw [hfault] at hok
      cases hok
  have hrecorded : Count policy (applyFailure policy now (w.store.wait c.elapsed)).2 0 := by
    have hfailure : (applyFailure policy now (w.store.wait c.elapsed)).1 = .ok outcome := by
      rw [← hexec]
      exact hok
    have hrow' : (w.store.wait c.elapsed).row = some row := hrow
    refine (hcount.wait c.elapsed).applyFailure (not_inForce_wait hopen _) hrow' ?_ ?_ hfailure
    · rw [hstatus, hcompared.active]
    · intro t ht
      exact hinv.later hcompared hh t (hlocked ▸ ht)
  have htime : (applyFailure policy now (w.store.wait c.elapsed)).2.time
      = (w.store.wait c.elapsed).time := by
    unfold applyFailure
    split <;> rfl
  have hmem : (⟨.recordFailedAttempt now,
      (exec verifyPassword policy (.recordFailedAttempt now) c w.store).1⟩ : (e : Call) × Reply e)
      ∈ w.history i ++ [⟨.recordFailedAttempt now,
        (exec verifyPassword policy (.recordFailedAttempt now) c w.store).1⟩] :=
    List.mem_append_right _ (List.mem_singleton_self _)
  refine hinv.of_call hrun hothers (fun t ht => ?_) ?_ rfl ?_ ?_ ?_ ?_ ?_
  · cases ht
  · rw [hexec, htime]
    exact time_wait _ _
  · intro account' _ hrecord
    exact absurd hmem (hrecord _ _)
  · intro account' h₁ now' _ heq
    have hlast := (List.append_inj' heq rfl).2
    cases List.singleton_inj.mp hlast
  · intro r hmem'
    rcases List.mem_append.mp hmem' with hmem' | hmem'
    · exact absurd rfl (hno hmem').2
    · cases List.mem_singleton.mp hmem'
  · intro hp
    exact absurd hmem (hp.2 _ _)
  · intro _
    rw [hexec]
    exact hrecorded

/-- The counters are reset for a call that found the account open. -/
theorem Inv.of_reset {w : AuthWorld} (hinv : Inv policy w) {i n : ℕ} {p : String} {c : Choice}
    (hrun : w.Running i p) (hothers : ∀ j q, j ≠ i → w.Running j q → w.history j = [])
    {account : UserAccount} (hcompared : Compared account true (w.history i)) :
    Inv policy ((system verifyPassword policy).after i n .resetFailedAttempts c w) := by
  have hno {s : (e : Call) × Reply e} (hs : s ∈ w.history i) := hcompared.no_write hs
  have hopen : ¬InForce (w.store.wait c.elapsed) :=
    not_inForce_wait (hinv.not_inForce hrun hcompared.mem (fun t ht => hcompared.over ht)
      (fun now r hmem => (hno hmem).1 now rfl) fun r hmem => (hno hmem).2 rfl) _
  have hnot : ¬Pending (w.history i) := by
    obtain ⟨h₀, password, hash, hpassed, heq⟩ := hcompared
    rw [heq]
    exact not_pending_append hpassed.checking (by simp) (by simp)
  have hcount := (hinv.count hnot hothers).wait c.elapsed
  set s := w.store.wait c.elapsed with hs
  have hexec : (exec verifyPassword policy .resetFailedAttempts c w.store).2 = s ∨
      (exec verifyPassword policy .resetFailedAttempts c w.store).2
        = { s with row := s.row.map resetFailedAttempts, guesses := 0 } := by
    show (c.reply s _).2 = s ∨ (c.reply s _).2 = _
    unfold Choice.reply
    split
    · exact .inr rfl
    · split_ifs
      · exact .inr rfl
      · exact .inl rfl
  have hreset : ¬InForce { s with row := s.row.map resetFailedAttempts, guesses := 0 } := by
    rintro ⟨t, ht, -⟩
    unfold Store.lockedUntil at ht
    cases hrow : s.row with
    | none => simp [hrow] at ht
    | some row => simp [hrow, resetFailedAttempts] at ht
  have hafter : ¬InForce (exec verifyPassword policy .resetFailedAttempts c w.store).2 := by
    rcases hexec with hexec | hexec
    · rw [hexec]
      exact hopen
    · rw [hexec]
      exact hreset
  refine hinv.of_call hrun hothers (fun t ht => ?_) ?_ rfl ?_ ?_ ?_ ?_ ?_
  · cases ht
  · rcases hexec with hexec | hexec
    · rw [hexec]
      exact time_wait _ _
    · rw [hexec]
      exact time_wait _ _
  · intro account' _ _ hno'
    exact absurd (List.mem_append_right _ (List.mem_singleton_self _)) (hno' _)
  · intro account' h₁ now' _ heq
    have hlast := (List.append_inj' heq rfl).2
    cases List.singleton_inj.mp hlast
  · intro r _
    exact hafter
  · intro hp
    obtain ⟨⟨password, hash, hmem⟩, hrecord⟩ := hp
    rcases List.mem_append.mp hmem with hmem | hmem
    · exact absurd ⟨⟨password, hash, hmem⟩, fun now r hr => hrecord now r
        (List.mem_append_left _ hr)⟩ hnot
    · cases List.mem_singleton.mp hmem
  · intro _
    rcases hexec with hexec | hexec
    · rw [hexec]
      exact hcount
    · rw [hexec]
      exact ⟨fun _ => Nat.zero_le _, fun _ => ⟨Nat.zero_le _, by simp⟩⟩

/-! ### Runs -/

theorem found_row {c : Choice} {s : Store} {account : UserAccount}
    (h : (exec verifyPassword policy .findByUsername c s).1 = .ok (some account)) :
    ∃ row, s.row = some row ∧ row.status = account.status ∧
      row.lockedUntil = account.lockedUntil := by
  change (c.reply (s.wait c.elapsed) (match s.row with
    | none => .ok none
    | some row => row.intoAccount.map some, s.wait c.elapsed)).1 = _ at h
  unfold Choice.reply at h
  split at h
  · dsimp only at h
    split at h
    · cases h
    · rename_i row hrow
      refine ⟨row, hrow, ?_⟩
      unfold UserRow.intoAccount at h
      split at h
      · cases h
      · cases h
        exact ⟨rfl, rfl⟩
  · cases h

/-- Other events than calls: the tasks that run are those before or have done nothing. -/
theorem Inv.of_event {w : AuthWorld} (hinv : Inv policy w) {ev : AuthEvent}
    (hcall : ∀ i e r, ev ≠ .call i e r)
    (hrunning : ∀ j q, (w.add [ev]).Running j q → w.Running j q ∨ w.history j = [])
    (hpending : ∀ j q, w.Running j q → Pending (w.history j) → (w.add [ev]).Running j q) :
    Inv policy (w.add [ev]) := by
  have hhistory (j : ℕ) : (w.add [ev]).history j = w.history j := by
    rw [World.history_add]
    cases ev with
    | call i e r => exact absurd rfl (hcall i e r)
    | _ => exact List.append_nil _
  have hwas {j : ℕ} {q : String} (hj : (w.add [ev]).Running j q)
      (hne : (w.add [ev]).history j ≠ []) : w.Running j q := by
    rw [hhistory] at hne
    exact (hrunning j q hj).resolve_right hne
  refine ⟨?_, ?_, ?_, ?_, ?_, ?_, ?_⟩
  · intro i j p q hi hj hine hjne
    have hi' := hwas hi hine
    have hj' := hwas hj hjne
    rw [hhistory] at hine hjne
    exact hinv.alone hi' hj' hine hjne
  · intro i t hmem
    rw [hhistory] at hmem
    exact hinv.read hmem
  · intro i p account hi hmem
    have hi' := hwas hi (List.ne_nil_of_mem hmem)
    rw [hhistory] at hmem ⊢
    exact hinv.row hi' hmem
  · intro i account h₀ now hcompared heq
    rw [hhistory] at heq
    exact hinv.later hcompared heq
  · intro i p r hi hmem
    have hi' := hwas hi (List.ne_nil_of_mem hmem)
    rw [hhistory] at hmem
    exact hinv.opened hi' hmem
  · intro hall
    refine hinv.quiet fun j q hj hp => ?_
    have hj' := hall j q (hpending j q hj hp)
    rw [hhistory] at hj'
    exact hj' hp
  · intro i p hi hp
    rw [hhistory] at hp
    have hne : (w.add [ev]).history i ≠ [] := by
      rw [hhistory]
      intro hnil
      rw [hnil] at hp
      exact not_pending_nil hp
    exact hinv.pending (hwas hi hne) hp

theorem preserves_inv : (system verifyPassword policy).Preserves spec InTurn (fun _ => True)
    (Inv policy) := by
  constructor
  · intro w i t hwf _ hinv hfresh _
    refine hinv.of_event nofun (fun j q hj => ?_) fun j q hj _ => ?_
    · by_cases hji : j = i
      · rw [hji]
        exact .inr hfresh.history
      · left
        refine hj.of_append fun t' parent hmem => hji ?_
        exact (Event.start.inj (List.mem_singleton.mp hmem)).1
    · exact hj.add fun ev hev htask => by
        rw [List.mem_singleton.mp hev] at htask
        obtain ⟨parent, hstart⟩ := hj.started
        exact absurd htask.symm (hfresh _ hstart)
  · intro w i n t e c hwf _ hinv hrun _ hcalls hallowed
    by_cases he : e = .findByUsername
    · subst he
      exact hinv.of_reads hrun rfl (fun j q hji hj => hallowed j q hji hj)
        (fun account heq => found_row (eq_of_heq (Sigma.mk.inj heq).2)) fun t heq => by cases heq
    · have hne := history_ne_nil he hcalls
      have hothers (j : ℕ) (q : String) (hji : j ≠ i) (hj : w.Running j q) : w.history j = [] := by
        by_contra hjne
        exact hji (hinv.alone hj hrun hjne hne)
      cases e with
      | findByUsername => exact absurd rfl he
      | now =>
        refine hinv.of_reads hrun rfl hothers (fun account heq => by cases heq) fun t heq => ?_
        exact (eq_of_heq (Sigma.mk.inj heq).2).symm
      | verifyPassword password hash =>
        obtain ⟨account, hpassed⟩ := hcalls
        exact hinv.of_verify hrun hothers hpassed
      | recordFailedAttempt now =>
        obtain ⟨account, h₀, hcompared, hh⟩ := hcalls
        exact hinv.of_record hrun hothers hcompared hh hallowed
      | resetFailedAttempts =>
        obtain ⟨account, hcompared⟩ := hcalls
        exact hinv.of_reset hrun hothers hcompared
      | updateLastLogin id =>
        exact hinv.of_reads hrun rfl hothers (fun account heq => by cases heq)
          fun t heq => by cases heq
      | audit kind reason =>
        exact hinv.of_reads hrun rfl hothers (fun account heq => by cases heq)
          fun t heq => by cases heq
  · intro w i t r hwf _ hinv hrun hresult _
    refine hinv.of_event nofun (fun j q hj => .inl (hj.of_append (by simp))) fun j q hj hp => ?_
    refine hj.add fun ev hev htask => ?_
    rw [List.mem_singleton.mp hev] at htask
    change i = j at htask
    exact absurd (htask ▸ hp) hresult.1
  · intro w i t hwf _ hinv hrun hallowed
    refine hinv.of_event nofun (fun j q hj => .inl (hj.of_append (by simp))) fun j q hj hp => ?_
    refine hj.add fun ev hev htask => ?_
    rw [List.mem_singleton.mp hev] at htask
    change i = j at htask
    exact absurd (htask ▸ hp) hallowed

theorem Inv.guessed {w : AuthWorld} (hinv : Inv policy w) : Guessed policy w.store := by
  unfold Guessed
  by_cases hall : ∀ i p, w.Running i p → ¬Pending (w.history i)
  · have hcount := hinv.quiet hall
    by_cases hforce : InForce w.store
    · exact hcount.1 hforce
    · have hle := (hcount.2 hforce).2
      omega
  · push Not at hall
    obtain ⟨i, p, hrun, hpending⟩ := hall
    obtain ⟨hcount, hopen⟩ := hinv.pending hrun hpending
    have hle := (hcount.2 hopen).2
    omega

/-- A failure of a locked account changes nothing. -/
theorem lockedUntil_applyFailure {s : Store} {t now : DateTime} (ht : s.lockedUntil = some t)
    (hnow : now < t) : (applyFailure policy now s).2.lockedUntil = some t := by
  unfold applyFailure
  split
  · exact ht
  · rename_i row hrow
    have hlocked : row.lockedUntil = some t := by
      rw [← ht]
      unfold Store.lockedUntil
      rw [hrow]
      rfl
    have hrecord : recordFailedAttempt policy now row = (.ok .default, row) := by
      unfold recordFailedAttempt
      dsimp only
      rw [if_pos]
      right
      rw [hlocked]
      exact decide_eq_true hnow
    rw [hrecord]
    exact hlocked

/-- A call before the time of a lock leaves it. -/
theorem Inv.keepsLock {w : AuthWorld} (hinv : Inv policy w) {i : ℕ} {p : String}
    (hrun : w.Running i p) {e : Call} {c : Choice} (hcalls : spec.calls p (w.history i) e)
    {t : DateTime} (ht : w.store.lockedUntil = some t)
    (hbefore : (exec verifyPassword policy e c w.store).2.time < t) :
    (exec verifyPassword policy e c w.store).2.lockedUntil = some t := by
  by_cases he : e.reads = true
  · rw [exec_reads he]
    exact ht
  · cases e with
    | verifyPassword password hash => exact ht
    | recordFailedAttempt now =>
      obtain ⟨account, h₀, -, hh⟩ := hcalls
      have hread : now ≤ w.store.time := hinv.read (by rw [hh]; simp)
      change (c.reply _ _).2.time < t at hbefore
      show (c.reply _ _).2.lockedUntil = some t
      have htime : (applyFailure policy now (w.store.wait c.elapsed)).2.time
          = (w.store.wait c.elapsed).time := by
        unfold applyFailure
        split <;> rfl
      have hwait : (w.store.wait c.elapsed).time < t := by
        unfold Choice.reply at hbefore
        split at hbefore
        · exact htime ▸ hbefore
        · dsimp only at hbefore
          split_ifs at hbefore
          · exact htime ▸ hbefore
          · exact hbefore
      have happly : (applyFailure policy now (w.store.wait c.elapsed)).2.lockedUntil = some t :=
        lockedUntil_applyFailure ht
          (DateTime.lt_of_le_of_lt (DateTime.le_trans hread (time_wait _ _)) hwait)
      unfold Choice.reply
      split
      · exact happly
      · dsimp only
        split_ifs
        · exact happly
        · exact ht
    | resetFailedAttempts =>
      obtain ⟨account, hcompared⟩ := hcalls
      have hopen := hinv.not_inForce hrun hcompared.mem (fun t ht => hcompared.over ht)
        (fun now r hmem => (hcompared.no_write hmem).1 now rfl)
        fun r hmem => (hcompared.no_write hmem).2 rfl
      have htime : (exec verifyPassword policy .resetFailedAttempts c w.store).2.time
          = (w.store.wait c.elapsed).time := by
        show (c.reply _ _).2.time = _
        unfold Choice.reply
        split
        · rfl
        · split_ifs <;> rfl
      rw [htime] at hbefore
      exact absurd ⟨t, ht, DateTime.lt_of_le_of_lt (time_wait _ _) hbefore⟩ hopen
    | findByUsername => exact absurd rfl he
    | now => exact absurd rfl he
    | updateLastLogin id => exact absurd rfl he
    | audit kind reason => exact absurd rfl he

/-- **The lockout holds while the calls come one after the other.** -/
theorem lockout_holds (verifyPassword : String → String → Except AuthError Bool)
    (policy : LockoutPolicy) (row : Option UserRow) (clock : ℤ) (cfg : AuthState)
    (hreach : (system verifyPassword policy).Reach InTurn (System.initial ⟨row, clock, 0⟩) cfg) :
    LockoutHolds verifyPassword policy InTurn cfg := by
  have hinit : Inv policy (⟨⟨row, clock, 0⟩, []⟩ : AuthWorld) := by
    have hnil {i : ℕ} : (⟨⟨row, clock, 0⟩, []⟩ : AuthWorld).history i = [] := rfl
    refine ⟨fun _ _ hne => absurd hnil hne, fun hmem => absurd hmem List.not_mem_nil,
      fun _ hmem => absurd hmem List.not_mem_nil, fun _ heq => ?_,
      fun _ hmem => absurd hmem List.not_mem_nil,
      fun _ => ⟨fun _ => Nat.zero_le _, fun _ => ⟨Nat.zero_le _, by simp⟩⟩,
      fun _ hp => absurd hp not_pending_nil⟩
    exact absurd heq.symm (List.append_ne_nil_of_right_ne_nil _ (by simp))
  obtain ⟨hgood, hinv⟩ := preserves_inv.reach meets_spec hinit hreach
  refine ⟨hinv.guessed, fun a ev next hstep hallowed t ht hbefore => ?_⟩
  rcases System.step_store hstep with hstore | ⟨i, e, c, k, hp, rfl, hstore⟩
  · rw [hstore] at hbefore ⊢
    refine ⟨ht, ?_⟩
    rintro i user rfl
    obtain ⟨p, hrun, hresult⟩ := System.Good.finish_step hgood hstep
    obtain ⟨r, hmem⟩ := hresult.2 user rfl
    exact hinv.opened hrun hmem ⟨t, ht, hbefore⟩
  · obtain ⟨p, hrun, hcalls, -⟩ := hgood.running i _ hp
    rw [hstore] at hbefore ⊢
    exact ⟨hinv.keepsLock hrun hcalls ht hbefore, nofun⟩

/-! ### Instances -/

/-- Statements succeed and no call is dropped. -/
def Completes : AuthEvent → Prop
  | .call _ (.recordFailedAttempt _) r => ∃ outcome, r = .ok outcome
  | .abort _ => False
  | _ => True

namespace Instance

/-- Texts stand for their hashes. -/
def verify (password hash : String) : Except AuthError Bool := .ok (password = hash)

/-- One attempt, and a lock of 900 seconds. -/
def strict : LockoutPolicy where
  maxAttempts := 1
  lockoutSecs := 900
  permanentAfter := none

def user : UserRow where
  id := ⟨1⟩
  username := "user1"
  passwordHash := some "secret"
  roles := ["auditor"]
  status := .Active
  lockedUntil := none
  failedAttempts := 0
  lockoutCount := 0

def start : AuthState := System.initial ⟨some user, 0, 0⟩

/-- Task `i` makes a step, which takes a second. -/
def go (i : ℕ) : Action String Choice := .run i ⟨1000000000, none⟩

/-- Two calls look the user up and compare a wrong password each. -/
def twoGuesses : List (Action String Choice) :=
  [.arrive "first", .arrive "second", go 0, go 1, go 0, go 1]

/-- A call with the password looked the user up before another one locks the account. -/
def lateSuccess : List (Action String Choice) :=
  [.arrive "secret", go 0, go 0, .arrive "guess", go 1, go 1, go 1, go 1]

/-- A wrong password, and the right one after the lock. -/
def lockedOut : List (Action String Choice) :=
  .arrive "guess" :: List.replicate 7 (go 0) ++ .arrive "secret" :: List.replicate 3 (go 1)

/-- `Completes`, as a check. -/
def completes (_ : AuthWorld) : AuthEvent → Bool
  | .call _ (.recordFailedAttempt _) r => r.isOk
  | .abort _ => false
  | _ => true

theorem completes_of_check (w : AuthWorld) (ev : AuthEvent) (h : completes w ev = true) :
    Completes ev := by
  cases ev with
  | call i e r =>
    cases e with
    | recordFailedAttempt now =>
      cases r with
      | ok outcome => exact ⟨outcome, rfl⟩
      | error e => cases h
    | _ => trivial
  | abort i => cases h
  | _ => trivial

/-- `InTurn`, as a check. -/
def inTurn (w : AuthWorld) : AuthEvent → Bool
  | .call i .findByUsername _ => w.log.all fun
    | .start j _ _ => j = i || (w.history j).isEmpty ||
        w.log.any fun | .finish k _ => k = j | _ => false
    | _ => true
  | .call _ (.recordFailedAttempt _) r => r.isOk
  | .abort _ => false
  | _ => true

theorem inTurn_of_check (w : AuthWorld) (ev : AuthEvent) (h : inTurn w ev = true) :
    InTurn w ev := by
  cases ev with
  | call i e r =>
    cases e with
    | findByUsername =>
      intro j password hji hrun
      obtain ⟨parent, hstart⟩ := hrun.started
      have hj := List.all_eq_true.mp h _ hstart
      simp only [Bool.or_eq_true, decide_eq_true_eq, List.isEmpty_iff, List.any_eq_true] at hj
      rcases hj with (hj | hj) | ⟨ev, hmem, hfinish⟩
      · exact absurd hj hji
      · exact hj
      · cases ev with
        | finish k result =>
          obtain rfl : k = j := of_decide_eq_true hfinish
          exact absurd (.inl ⟨result, hmem⟩) hrun.not_ended
        | _ => cases hfinish
    | recordFailedAttempt now =>
      cases r with
      | ok outcome => exact ⟨outcome, rfl⟩
      | error e => cases h
    | _ => trivial
  | abort i => cases h
  | _ => trivial

end Instance

open Instance in
/-- Two passwords are compared where one is allowed, and the lock is cleared while it lasts. -/
theorem lockout_defeated :
    (¬∀ cfg, (system verify strict).Reach (fun _ => Completes) start cfg →
      Guessed strict cfg.world.store) ∧
    ¬∀ cfg, (system verify strict).Reach (fun _ => Completes) start cfg →
      ∀ a ev next, (system verify strict).step cfg a = some (ev, next) → Completes ev →
        KeepsLock cfg.world.store ev next.world.store := by
  constructor
  · intro h
    have hrun : (((system verify strict).run completes twoGuesses start).map
        fun cfg => cfg.world.store.guesses) = some 2 := by decide +kernel
    obtain ⟨cfg, hcfg, hguesses⟩ := Option.map_eq_some_iff.mp hrun
    have hbound := h cfg (System.reach_of_run completes_of_check _ hcfg)
    unfold Guessed at hbound
    rw [hguesses] at hbound
    exact absurd hbound (by decide)
  · intro h
    have hrun : (((system verify strict).run completes lateSuccess start).map fun cfg =>
        ((system verify strict).step cfg (go 0)).map fun next =>
          (completes cfg.world next.1, cfg.world.store.lockedUntil, next.2.world.store.clock,
            next.2.world.store.lockedUntil))
        = some (some (true, some (DateTime.ofNanos 905000000000), 7000000000, none)) := by
      decide +kernel
    obtain ⟨cfg, hcfg, hstep⟩ := Option.map_eq_some_iff.mp hrun
    obtain ⟨⟨ev, next⟩, hnext, hstores⟩ := Option.map_eq_some_iff.mp hstep
    obtain ⟨hcheck, hlocked, hclock, hcleared⟩ : completes cfg.world ev = true ∧
        cfg.world.store.lockedUntil = some (DateTime.ofNanos 905000000000) ∧
        next.world.store.clock = 7000000000 ∧ next.world.store.lockedUntil = none := by
      simpa only [Prod.mk.injEq] using hstores
    have hbefore : next.world.store.time < DateTime.ofNanos 905000000000 := by
      unfold Store.time
      rw [hclock]
      decide
    obtain ⟨hkept, -⟩ := h cfg (System.reach_of_run completes_of_check _ hcfg) (go 0) ev next hnext
      (completes_of_check _ _ hcheck) _ hlocked hbefore
    rw [hcleared] at hkept
    cases hkept

open Instance in
theorem lockout_holds_lockedOut : ∃ cfg,
    (system verify strict).run inTurn lockedOut start = some cfg ∧
      LockoutHolds verify strict InTurn cfg := by
  have hsome : ((system verify strict).run inTurn lockedOut start).isSome = true := by
    decide +kernel
  obtain ⟨cfg, hcfg⟩ := Option.isSome_iff_exists.mp hsome
  exact ⟨cfg, hcfg, lockout_holds verify strict (some user) 0 cfg
    (System.reach_of_run inTurn_of_check _ hcfg)⟩

end Ostrich.Common.Password
