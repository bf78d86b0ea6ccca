import Ostrich.Common.Equiv.Password

/-!
# Lockout episodes

`Episode` says what the counters of an account are for: the failures recorded since the account was
created, reset or unlocked or its last lock expired, and the locks since it was created, reset or
unlocked, both as plain numbers.  A lock is due with the `limit`-th failure of an episode, and it is
permanent if it is the one that the configuration names.

The code keeps the counters in 32 bits and turns both thresholds into signed numbers.

* `Keeps.step`: where the thresholds fit and the end of a lock is a time, one operation answers as
  the episode does and the row keeps its counters; elsewhere it does not answer so;
* `conforms_iff`: a run from a new account answers as the episodes do exactly when that is so at
  each failure that is counted.
-/

namespace Ostrich.Common.Password

/-! ### Runs -/

inductive Operation where
  | recordFailedAttempt (now : DateTime)
  | resetFailedAttempts
  | unlockAccount

/-- The row of a new account. -/
def created (id : Uuid) (username : String) (passwordHash : Option String)
    (roles : List String) : UserRow :=
  { id, username, passwordHash, roles, status := .Active, lockedUntil := none
    failedAttempts := 0, lockoutCount := 0 }

/-- The answer to an operation, and the row after it. -/
def perform (policy : LockoutPolicy) (op : Operation) (row : UserRow) :
    Except AuthError LockoutOutcome × UserRow :=
  match op with
  | .recordFailedAttempt now => recordFailedAttempt policy now row
  | .resetFailedAttempts => (.ok .default, resetFailedAttempts row)
  | .unlockAccount => (.ok .default, unlockAccount row)

/-! ### Episodes -/

/-- The failures of the episode, the locks, the end of the last lock, and whether it has none. -/
structure Episode where
  failures : ℕ
  locks : ℕ
  lockedUntil : Option DateTime
  permanent : Bool

namespace Episode

def new : Episode := ⟨0, 0, none, false⟩

/-- The account is locked. -/
def locked (e : Episode) (now : DateTime) : Bool :=
  e.permanent || e.lockedUntil.any (now < ·)

/-- The number of a failure in its episode; the first one after a lock begins an episode. -/
def number (e : Episode) : ℕ := if e.lockedUntil.isSome then 1 else e.failures + 1

end Episode

/-- The failure of an episode that locks the account. -/
def limit (policy : LockoutPolicy) : ℕ := max 1 policy.maxAttempts.toNat

/-- The end of a lock that begins at `now`, as the database keeps it. -/
def lockEnd (policy : LockoutPolicy) (now : DateTime) : Option DateTime :=
  (now.addDuration policy.lockoutSecs).bind DateTime.timestamptz

namespace Episode

/-- A failed attempt.  While the account is locked it does not count. -/
def recordFailedAttempt (policy : LockoutPolicy) (now : DateTime) (e : Episode) :
    LockoutOutcome × Episode :=
  if e.locked now then (.default, e)
  else if e.number = limit policy then
    let permanent := policy.permanentAfter.any fun p => e.locks + 1 = p.toNat
    (⟨true, permanent⟩, ⟨e.number, e.locks + 1, lockEnd policy now, permanent⟩)
  else (.default, { e with failures := e.number, lockedUntil := none })

/-- What an operation answers, and the episode after it.  A reset does not lift a permanent
lock. -/
def perform (policy : LockoutPolicy) (op : Operation) (e : Episode) : LockoutOutcome × Episode :=
  match op with
  | .recordFailedAttempt now => e.recordFailedAttempt policy now
  | .resetFailedAttempts => (.default, { new with permanent := e.permanent })
  | .unlockAccount => (.default, new)

end Episode

/-! ### The property -/

/-- The operation answers as the episode does, and a failure while the account is locked leaves
the row as it is. -/
def StepConforms (policy : LockoutPolicy) (op : Operation) (row : UserRow) (e : Episode) : Prop :=
  (perform policy op row).1 = .ok (e.perform policy op).1 ∧
    ∀ now, op = .recordFailedAttempt now → e.locked now = true → (perform policy op row).2 = row

/-- Every operation of a run conforms. -/
def Conforms (policy : LockoutPolicy) : UserRow → Episode → List Operation → Prop
  | _, _, [] => True
  | row, e, op :: run => StepConforms policy op row e ∧
      Conforms policy (perform policy op row).2 (e.perform policy op).2 run

/-- Where a failure counts, the first threshold is less than `2^31`; where it locks the account,
the end of the lock is a time and the second threshold is less than `2^31`. -/
def Fits (policy : LockoutPolicy) (op : Operation) (e : Episode) : Prop :=
  ∀ now, op = .recordFailedAttempt now → e.locked now = false →
    policy.maxAttempts.toNat < 2147483648 ∧
    (e.number = limit policy → (lockEnd policy now).isSome ∧
      ∀ p, policy.permanentAfter = some p → p.toNat < 2147483648)

/-- Every operation of a run fits. -/
def AllFit (policy : LockoutPolicy) : Episode → List Operation → Prop
  | _, [] => True
  | e, op :: run => Fits policy op e ∧ AllFit policy (e.perform policy op).2 run

/-! ### The row of an episode -/

/-- The row keeps the counters of the episode.  Once a failure was counted the first threshold
fits, and once a lock was taken the second. -/
structure Keeps (policy : LockoutPolicy) (row : UserRow) (e : Episode) : Prop where
  status : row.status = if e.permanent then .Locked else .Active
  lockedUntil : row.lockedUntil = e.lockedUntil
  failures : row.failedAttempts.val = e.failures
  locks : row.lockoutCount = toI32 e.locks
  below : e.lockedUntil = none → e.failures < limit policy
  counted : e.failures ≠ 0 ∨ e.lockedUntil.isSome → policy.maxAttempts.toNat < 2147483648
  escalated : e.locks ≠ 0 → ∀ p, policy.permanentAfter = some p → p.toNat < 2147483648
  few : e.permanent = false → ∀ p, policy.permanentAfter = some p → e.locks < p.toNat

theorem toI32_of_lt {n : ℤ} (h : 0 ≤ n) (hlt : n < 2147483648) : toI32 n = n := by
  unfold toI32
  omega

/-- A number of 32 bits that does not fit is negative. -/
theorem toI32_neg {n : ℤ} (h : 2147483648 ≤ n) (hlt : n < 4294967296) : toI32 n < 0 := by
  unfold toI32
  omega

theorem toI32_toI32_add (n : ℤ) : toI32 (toI32 n + 1) = toI32 (n + 1) := by
  unfold toI32
  omega

theorem limit_eq (policy : LockoutPolicy) :
    (max policy.maxAttempts 1).toNat = limit policy := by
  rw [toNat_max, Nat.max_comm]
  rfl

variable {policy : LockoutPolicy} {row : UserRow} {e : Episode} {now : DateTime}

/-! ### What the code does with a failure -/

/-- The number that the code gives a failure. -/
def number (row : UserRow) : ℕ :=
  if row.lockedUntil.isSome then 1 else row.failedAttempts.val + 1

theorem recordFailedAttempt_of_locked
    (h : row.status ≠ .Active ∨ (row.lockedUntil.any (now < ·)) = true) :
    recordFailedAttempt policy now row = (.ok .default, row) := by
  unfold recordFailedAttempt
  dsimp only
  rw [if_pos h]

/-- The lock that a row has is over. -/
def Over (now : DateTime) (row : UserRow) : Prop :=
  row.status = .Active ∧ ∀ t, row.lockedUntil = some t → t ≤ now

theorem Over.not_locked (h : Over now row) :
    ¬(row.status ≠ .Active ∨ (row.lockedUntil.any (now < ·)) = true) := by
  rintro (hstatus | hany)
  · exact hstatus h.1
  · obtain ⟨t, ht, hlt⟩ := (Option.any_eq_true _ _).mp hany
    exact DateTime.not_le.mpr (of_decide_eq_true hlt) (h.2 t ht)

theorem Over.expired (h : Over now row) :
    (row.lockedUntil.any (· ≤ now)) = row.lockedUntil.isSome := by
  cases hlocked : row.lockedUntil with
  | none => rfl
  | some t => exact decide_eq_true (h.2 t hlocked)

theorem Over.failed (h : Over now row) (hlt : number row < 2147483648) :
    (if row.lockedUntil.any (· ≤ now) then 1 else toI32 (row.failedAttempts.val + 1))
      = (number row : ℤ) := by
  rw [h.expired]
  unfold number at hlt ⊢
  by_cases hsome : row.lockedUntil.isSome = true
  · rw [if_pos hsome, if_pos hsome]
    rfl
  · rw [if_neg hsome] at hlt
    rw [if_neg hsome, if_neg hsome, toI32_of_lt (by omega) (by omega)]
    push_cast
    rfl

/-- A failure that does not reach the threshold. -/
theorem recordFailedAttempt_below (h : Over now row) (hlt : number row < 2147483648)
    (hbelow : ¬toI32 (limit policy) ≤ number row) :
    recordFailedAttempt policy now row =
      (.ok .default,
        { row with failedAttempts := Fin.ofNat _ (number row), lockedUntil := none }) := by
  have hfailed := h.failed hlt
  have hlocked : (if row.lockedUntil.any (· ≤ now) then none else row.lockedUntil) = none := by
    rw [h.expired]
    cases row.lockedUntil with
    | none => rfl
    | some t => rfl
  unfold recordFailedAttempt
  dsimp only
  rw [if_neg h.not_locked, hfailed, limit_eq, if_neg hbelow, if_neg (by omega), hlocked]
  rfl

/-- A failure that reaches the threshold where the lock has an end. -/
theorem recordFailedAttempt_reached {t : DateTime} (h : Over now row)
    (hlt : number row < 2147483648) (hreached : toI32 (limit policy) ≤ number row)
    (hend : lockEnd policy now = some t) {permanent : Bool}
    (hpermanent : (policy.permanentAfter.any fun threshold =>
      toI32 threshold.toNat ≤ toI32 (row.lockoutCount + 1)) = permanent) :
    recordFailedAttempt policy now row =
      (.ok ⟨true, permanent⟩,
        { row with
          failedAttempts := Fin.ofNat _ (number row)
          lockoutCount := toI32 (row.lockoutCount + 1)
          lockedUntil := some t
          status := if permanent then .Locked else row.status }) := by
  have hfailed := h.failed hlt
  obtain ⟨t₀, hadd, htz⟩ := Option.bind_eq_some_iff.mp hend
  unfold recordFailedAttempt
  dsimp only
  rw [if_neg h.not_locked, hfailed, limit_eq, if_pos hreached, hadd]
  dsimp only
  rw [htz, hpermanent]
  dsimp only
  rw [if_neg (by omega)]
  rfl

/-- A failure that reaches the threshold where the lock has no end. -/
theorem recordFailedAttempt_endless (h : Over now row) (hlt : number row < 2147483648)
    (hreached : toI32 (limit policy) ≤ number row) (hend : lockEnd policy now = none) :
    ∃ e, (recordFailedAttempt policy now row).1 = .error e := by
  have hfailed := h.failed hlt
  unfold recordFailedAttempt
  dsimp only
  rw [if_neg h.not_locked, hfailed, limit_eq, if_pos hreached]
  unfold lockEnd at hend
  cases hadd : now.addDuration policy.lockoutSecs with
  | none => exact ⟨_, rfl⟩
  | some t₀ =>
    rw [hadd] at hend
    replace hend : t₀.timestamptz = none := hend
    dsimp only
    rw [hend]
    exact ⟨_, rfl⟩

/-! ### One step -/

theorem Keeps.number_eq (h : Keeps policy row e) : number row = e.number := by
  unfold number Episode.number
  rw [h.lockedUntil, h.failures]

theorem Keeps.of_locked (h : Keeps policy row e) (hlocked : e.locked now = true) :
    row.status ≠ .Active ∨ (row.lockedUntil.any (now < ·)) = true := by
  unfold Episode.locked at hlocked
  rw [Bool.or_eq_true] at hlocked
  rcases hlocked with hpermanent | htemp
  · left
    rw [h.status, if_pos hpermanent]
    decide
  · right
    rw [h.lockedUntil]
    exact htemp

theorem Keeps.over (h : Keeps policy row e) (hopen : e.locked now = false) : Over now row := by
  unfold Episode.locked at hopen
  rw [Bool.or_eq_false_iff] at hopen
  constructor
  · rw [h.status, hopen.1]
    rfl
  · intro t ht
    rw [h.lockedUntil] at ht
    have hany := hopen.2
    rw [ht] at hany
    by_contra hle
    exact (of_decide_eq_false hany) (DateTime.not_le.mp hle)

theorem one_le_limit (policy : LockoutPolicy) : 1 ≤ limit policy := Nat.le_max_left ..

/-- The counted failure is at most the threshold. -/
theorem Keeps.number_le (h : Keeps policy row e) : e.number ≤ limit policy := by
  have hone := one_le_limit policy
  unfold Episode.number
  by_cases hsome : e.lockedUntil.isSome = true
  · rw [if_pos hsome]
    exact hone
  · rw [if_neg hsome]
    have hnone : e.lockedUntil = none := by simpa using hsome
    have hbelow := h.below hnone
    omega

/-- Where the first threshold does not fit, no failure was counted and this one is the first. -/
theorem Keeps.number_of_large (h : Keeps policy row e)
    (hlarge : ¬policy.maxAttempts.toNat < 2147483648) : e.number = 1 := by
  have hnot := mt h.counted hlarge
  rw [not_or, not_not] at hnot
  unfold Episode.number
  rw [if_neg hnot.2, hnot.1]

/-- The test for a permanent lock, where the second threshold fits. -/
theorem Keeps.permanent_eq (h : Keeps policy row e) (hopen : e.permanent = false)
    (hfit : ∀ p, policy.permanentAfter = some p → p.toNat < 2147483648) :
    (policy.permanentAfter.any fun threshold =>
      toI32 threshold.toNat ≤ toI32 (row.lockoutCount + 1)) =
    policy.permanentAfter.any fun p => e.locks + 1 = p.toNat := by
  cases hafter : policy.permanentAfter with
  | none => rfl
  | some p =>
    have hlt := hfit p hafter
    have hfew := h.few hopen p hafter
    show decide _ = decide _
    rw [h.locks, toI32_toI32_add, toI32_of_lt (by omega) (by omega),
      toI32_of_lt (by omega) (by omega), decide_eq_decide]
    omega

/-- A second threshold that does not fit makes the first lock permanent. -/
theorem Keeps.permanent_ne (h : Keeps policy row e) {p : UInt32}
    (hafter : policy.permanentAfter = some p) (hlarge : ¬p.toNat < 2147483648) :
    (policy.permanentAfter.any fun threshold =>
      toI32 threshold.toNat ≤ toI32 (row.lockoutCount + 1)) = true ∧
    (policy.permanentAfter.any fun p => e.locks + 1 = p.toNat) = false := by
  have hzero : e.locks = 0 := by
    by_contra hne
    exact hlarge (h.escalated hne p hafter)
  have hp := p.toNat_lt
  have hneg : toI32 p.toNat < 0 := toI32_neg (by omega) (by omega)
  rw [hafter]
  constructor
  · apply decide_eq_true
    rw [h.locks, hzero]
    have hone : toI32 (toI32 (0 : ℕ) + 1) = 1 := by decide
    rw [hone]
    omega
  · apply decide_eq_false
    rw [hzero]
    omega

/-- An operation that fits conforms and the row keeps the counters; one that does not fit does not
conform. -/
def StepHolds (policy : LockoutPolicy) (op : Operation) (row : UserRow) (e : Episode) : Prop :=
  Fits policy op e ∧ StepConforms policy op row e ∧
      Keeps policy (perform policy op row).2 (e.perform policy op).2 ∨
    ¬Fits policy op e ∧ ¬StepConforms policy op row e

/-- An answer that is not the one of the episode. -/
theorem not_conforms {outcome : LockoutOutcome} {after : Episode}
    (hepisode : e.recordFailedAttempt policy now = (outcome, after))
    (hne : (recordFailedAttempt policy now row).1 ≠ .ok outcome) :
    ¬StepConforms policy (.recordFailedAttempt now) row e := by
  rintro ⟨heq, -⟩
  unfold perform Episode.perform at heq
  dsimp only at heq
  rw [hepisode] at heq
  exact hne heq

/-- A failure while the account is locked. -/
theorem Keeps.step_locked (h : Keeps policy row e) (hlocked : e.locked now = true) :
    StepHolds policy (.recordFailedAttempt now) row e := by
  have hcode := @recordFailedAttempt_of_locked policy _ _ (h.of_locked hlocked)
  have hepisode : e.recordFailedAttempt policy now = (.default, e) := if_pos hlocked
  left
  refine ⟨?_, ?_, ?_⟩
  · intro now' heq hopen
    cases heq
    rw [hlocked] at hopen
    cases hopen
  · unfold StepConforms perform Episode.perform
    dsimp only
    rw [hcode, hepisode]
    exact ⟨rfl, fun _ _ _ => rfl⟩
  · unfold perform Episode.perform
    dsimp only
    rw [hcode, hepisode]
    exact h

/-- Where the first threshold does not fit, the first failure locks the account. -/
theorem Keeps.step_large (h : Keeps policy row e) (hopen : e.locked now = false)
    (hlarge : ¬policy.maxAttempts.toNat < 2147483648) :
    StepHolds policy (.recordFailedAttempt now) row e := by
  have hnumber := h.number_of_large hlarge
  have hrow : number row = 1 := by rw [h.number_eq, hnumber]
  have hmax := policy.maxAttempts.toNat_lt
  have hlimit : limit policy = policy.maxAttempts.toNat := max_eq_right (by omega)
  have hne : ¬e.number = limit policy := by omega
  have hepisode : e.recordFailedAttempt policy now =
      (.default, { e with failures := e.number, lockedUntil := none }) := by
    unfold Episode.recordFailedAttempt
    rw [if_neg (by rw [hopen]; decide), if_neg hne]
  have hneg : toI32 (limit policy) < 0 := by
    rw [hlimit]
    exact toI32_neg (by omega) (by omega)
  right
  constructor
  · intro hfits
    exact hlarge (hfits now rfl hopen).1
  · apply not_conforms hepisode
    have hover := h.over hopen
    cases hend : lockEnd policy now with
    | none =>
      obtain ⟨err, herr⟩ := recordFailedAttempt_endless hover (by omega) (by omega) hend
      rw [herr]
      simp
    | some t =>
      rw [recordFailedAttempt_reached hover (by omega) (by omega) hend rfl]
      simp [LockoutOutcome.default]

/-- A failure below the threshold. -/
theorem Keeps.step_below (h : Keeps policy row e) (hopen : e.locked now = false)
    (hfit : policy.maxAttempts.toNat < 2147483648) (hbelow : e.number < limit policy) :
    StepHolds policy (.recordFailedAttempt now) row e := by
  have hlimit : limit policy < 2147483648 := max_lt (by omega) hfit
  have hrow := h.number_eq
  have hepisode : e.recordFailedAttempt policy now =
      (.default, { e with failures := e.number, lockedUntil := none }) := by
    unfold Episode.recordFailedAttempt
    rw [if_neg (by rw [hopen]; decide), if_neg (by omega)]
  have hcode := @recordFailedAttempt_below policy _ _ (h.over hopen) (by omega)
    (by rw [toI32_of_lt (by omega) (by omega)]; omega)
  left
  refine ⟨?_, ?_, ?_⟩
  · intro now' heq _
    cases heq
    exact ⟨hfit, fun heq => absurd heq (by omega)⟩
  · unfold StepConforms perform Episode.perform
    dsimp only
    rw [hcode, hepisode]
    refine ⟨rfl, fun now' heq hlocked => ?_⟩
    cases heq
    rw [hopen] at hlocked
    cases hlocked
  · unfold perform Episode.perform
    dsimp only
    rw [hcode, hepisode]
    exact
      { status := h.status
        lockedUntil := rfl
        failures := by
          show (Fin.ofNat _ (number row)).val = e.number
          rw [Fin.val_ofNat, hrow]
          omega
        locks := h.locks
        below := fun _ => hbelow
        counted := fun _ => hfit
        escalated := h.escalated
        few := h.few }

/-- A failure that reaches the threshold. -/
theorem Keeps.step_reached (h : Keeps policy row e) (hopen : e.locked now = false)
    (hfit : policy.maxAttempts.toNat < 2147483648) (hreached : e.number = limit policy) :
    StepHolds policy (.recordFailedAttempt now) row e := by
  have hlimit : limit policy < 2147483648 := max_lt (by omega) hfit
  have hrow := h.number_eq
  have hover := h.over hopen
  have hsigned : toI32 (limit policy) ≤ number row := by
    rw [toI32_of_lt (by omega) (by omega)]
    omega
  have hactive : e.permanent = false := by
    unfold Episode.locked at hopen
    exact (Bool.or_eq_false_iff.mp hopen).1
  set permanent := policy.permanentAfter.any fun p => e.locks + 1 = p.toNat with hpermanent
  have hepisode : e.recordFailedAttempt policy now =
      (⟨true, permanent⟩, ⟨e.number, e.locks + 1, lockEnd policy now, permanent⟩) := by
    unfold Episode.recordFailedAttempt
    rw [if_neg (by rw [hopen]; decide), if_pos hreached]
  cases hend : lockEnd policy now with
  | none =>
    obtain ⟨err, herr⟩ :=
      @recordFailedAttempt_endless policy _ _ hover (by omega) hsigned hend
    right
    constructor
    · intro hfits
      have hsome := ((hfits now rfl hopen).2 hreached).1
      rw [hend] at hsome
      cases hsome
    · apply not_conforms hepisode
      rw [herr]
      simp
  | some t =>
    by_cases hsecond : ∀ p, policy.permanentAfter = some p → p.toNat < 2147483648
    · have hcode := recordFailedAttempt_reached hover (by omega) hsigned hend
        (h.permanent_eq hactive hsecond)
      left
      refine ⟨?_, ?_, ?_⟩
      · intro now' heq _
        cases heq
        exact ⟨hfit, fun _ => ⟨by rw [hend]; rfl, hsecond⟩⟩
      · unfold StepConforms perform Episode.perform
        dsimp only
        rw [hcode, hepisode]
        refine ⟨rfl, fun now' heq hlocked => ?_⟩
        cases heq
        rw [hopen] at hlocked
        cases hlocked
      · unfold perform Episode.perform
        dsimp only
        rw [hcode, hepisode, hend, ← hpermanent]
        exact
          { status := by
              show (if permanent then AccountStatus.Locked else row.status) = _
              rw [h.status, hactive]
              rfl
            lockedUntil := rfl
            failures := by
              show (Fin.ofNat _ (number row)).val = e.number
              rw [Fin.val_ofNat, hrow]
              omega
            locks := by
              show toI32 (row.lockoutCount + 1) = toI32 (e.locks + 1 : ℕ)
              rw [h.locks, toI32_toI32_add]
              rfl
            below := fun hnone => by cases hnone
            counted := fun _ => hfit
            escalated := fun _ => hsecond
            few := by
              intro hnot p hp
              have hfew := h.few hactive p hp
              have hne : ¬e.locks + 1 = p.toNat := by
                rw [hpermanent, hp] at hnot
                exact of_decide_eq_false hnot
              show e.locks + 1 < p.toNat
              omega }
    · push Not at hsecond
      obtain ⟨p, hafter, hlarge⟩ := hsecond
      obtain ⟨hcode, hspec⟩ := h.permanent_ne hafter (by omega)
      right
      constructor
      · intro hfits
        have hlt := ((hfits now rfl hopen).2 hreached).2 p hafter
        omega
      · apply not_conforms hepisode
        rw [recordFailedAttempt_reached hover (by omega) hsigned hend hcode, hpermanent, hspec]
        simp

/-- The row of an account whose counters were cleared. -/
theorem keeps_cleared (hpos : ∀ p, policy.permanentAfter = some p → 0 < p.toNat)
    {permanent : Bool} (hstatus : row.status = if permanent then .Locked else .Active)
    (hlocked : row.lockedUntil = none) (hfailed : row.failedAttempts.val = 0)
    (hcount : row.lockoutCount = 0) :
    Keeps policy row { Episode.new with permanent := permanent } where
  status := hstatus
  lockedUntil := hlocked
  failures := hfailed
  locks := by
    rw [hcount]
    exact (toI32_of_lt (n := 0) (by omega) (by omega)).symm
  below := fun _ => one_le_limit policy
  counted := fun h => by
    rcases h with h | h
    · exact absurd rfl h
    · cases h
  escalated := fun h => absurd rfl h
  few := fun _ => hpos

/-- **One operation on an account**: what conforms, and what the row keeps. -/
theorem Keeps.step (h : Keeps policy row e)
    (hpos : ∀ p, policy.permanentAfter = some p → 0 < p.toNat) (op : Operation) :
    StepHolds policy op row e := by
  cases op with
  | recordFailedAttempt now =>
    cases hlocked : e.locked now with
    | true => exact h.step_locked hlocked
    | false =>
      by_cases hfit : policy.maxAttempts.toNat < 2147483648
      · rcases lt_or_eq_of_le h.number_le with hbelow | hreached
        · exact h.step_below hlocked hfit hbelow
        · exact h.step_reached hlocked hfit hreached
      · exact h.step_large hlocked hfit
  | resetFailedAttempts =>
    left
    refine ⟨fun now heq => ?_, ⟨rfl, fun now heq => ?_⟩, keeps_cleared hpos h.status rfl rfl rfl⟩
    · cases heq
    · cases heq
  | unlockAccount =>
    left
    refine ⟨fun now heq => ?_, ⟨rfl, fun now heq => ?_⟩,
      @keeps_cleared _ _ hpos false ?_ rfl rfl rfl⟩
    · cases heq
    · cases heq
    · show (if row.status = .Locked then AccountStatus.Active else row.status) = _
      rw [h.status]
      cases e.permanent with
      | true => rfl
      | false => rfl

/-! ### Runs -/

/-- A run from a row that keeps the counters. -/
theorem Keeps.run_conforms (hpos : ∀ p, policy.permanentAfter = some p → 0 < p.toNat)
    (run : List Operation) :
    ∀ {row e}, Keeps policy row e → (Conforms policy row e run ↔ AllFit policy e run) := by
  induction run with
  | nil => exact fun _ => Iff.rfl
  | cons op run ih =>
    intro row e h
    rcases h.step hpos op with ⟨hfits, hconforms, hkeeps⟩ | ⟨hfits, hconforms⟩
    · constructor
      · exact fun hrun => ⟨hfits, (ih hkeeps).mp hrun.2⟩
      · exact fun hrun => ⟨hconforms, (ih hkeeps).mpr hrun.2⟩
    · constructor
      · exact fun hrun => absurd hrun.1 hconforms
      · exact fun hrun => absurd hrun.1 hfits

/-- **A run on a new account follows the episodes exactly when its failures fit**: at each failure
that counts the first threshold is less than `2^31`, and at each that locks the account the lock
has an end and the second threshold is less than `2^31`. -/
theorem conforms_iff (config : LockoutConfig) (id : Uuid) (username : String)
    (passwordHash : Option String) (roles : List String) (run : List Operation) :
    Conforms (.ofConfig config) (created id username passwordHash roles) .new run ↔
      AllFit (.ofConfig config) .new run := by
  have hpos : ∀ p, (LockoutPolicy.ofConfig config).permanentAfter = some p → 0 < p.toNat := by
    intro p hp
    unfold LockoutPolicy.ofConfig at hp
    dsimp only at hp
    split_ifs at hp
    obtain rfl := Option.some.inj hp
    rw [toNat_max]
    exact lt_of_lt_of_le Nat.zero_lt_one (Nat.le_max_right ..)
  exact Keeps.run_conforms hpos run (@keeps_cleared _ _ hpos false rfl rfl rfl rfl)

/-- A threshold of `2^31` locks the account at the first failure; and a second threshold of `2^31`
makes the first lock permanent. -/
theorem first_failure_locks :
    ¬Conforms (.ofConfig ⟨2147483648, 900, 900, false, 3⟩)
      (created ⟨1⟩ "alice" none []) .new [.recordFailedAttempt (.ofNanos 0)] ∧
    ¬Conforms (.ofConfig ⟨1, 900, 900, true, 2147483648⟩)
      (created ⟨1⟩ "alice" none []) .new [.recordFailedAttempt (.ofNanos 0)] := by
  constructor
  · rintro ⟨⟨h, -⟩, -⟩
    have hlocked : (perform (.ofConfig ⟨2147483648, 900, 900, false, 3⟩)
        (.recordFailedAttempt (.ofNanos 0)) (created ⟨1⟩ "alice" none [])).1
          = .ok ⟨true, false⟩ := by rfl
    rw [hlocked] at h
    exact absurd h (by decide +kernel)
  · rintro ⟨⟨h, -⟩, -⟩
    have hlocked : (perform (.ofConfig ⟨1, 900, 900, true, 2147483648⟩)
        (.recordFailedAttempt (.ofNanos 0)) (created ⟨1⟩ "alice" none [])).1
          = .ok ⟨true, true⟩ := by rfl
    rw [hlocked] at h
    exact absurd h (by decide +kernel)

end Ostrich.Common.Password
