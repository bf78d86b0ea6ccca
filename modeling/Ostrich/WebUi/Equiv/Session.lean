import Ostrich.WebUi.Session

/-!
# Locked and removed sessions

A call of `validateSession` that read the session before it was locked writes its copy back and
with it the flag.

* `sessions_stay_locked`: in every run in which tokens are new and no such write comes while the
  session is locked, a session stays locked until it is unlocked;
* `sessions_stay_removed`: an invalidated session is not returned again, whatever the order;
* `lock_is_overwritten`: the run in which a stale copy overwrites the lock.
-/

namespace Ostrich.WebUi

open Interleave

/-! ### The property -/

/-- A call of `validateSession` stores the flag. -/
def Locks (w : SessionWorld) (token : String) (ev : SessionEvent) : Prop :=
  ∃ i data r, ev = .call i (.update token data) r ∧ w.Started i (.validateSession token) ∧
    data.locked = true

/-- A call of `unlockSession` stores its copy. -/
def Unlocks (w : SessionWorld) (token : String) (ev : SessionEvent) : Prop :=
  ∃ i data r, ev = .call i (.update token data) r ∧ w.Started i (.unlockSession token)

/-- A call of `invalidateSession` removes the session. -/
def Removes (w : SessionWorld) (token : String) (ev : SessionEvent) : Prop :=
  ∃ i data, ev = .call i (.remove token) (some data) ∧ w.Started i (.invalidateSession token)

/-- After a session was locked, no call of `validateSession` that starts later returns it unlocked,
unless it was unlocked in between. -/
def StaysLocked (w : SessionWorld) : Prop :=
  ∀ token before ev between j parent session after,
    w.log = before ++ ev :: (between ++ .finish j (.ok (.session (some session))) :: after) →
    Locks w token ev → .start j (.validateSession token) parent ∈ between →
    session.locked = false → ∃ ev' ∈ between, Unlocks w token ev'

/-- The call asks for the session of a token. -/
def Asks (token : String) (t : Task) : Prop :=
  t = .validateSession token ∨ t = .unlockSession token

/-- After a session was removed, no call that starts later returns one for its token. -/
def StaysRemoved (w : SessionWorld) : Prop :=
  ∀ token before ev after j t parent session,
    w.log = before ++ ev :: after → Removes w token ev → .start j t parent ∈ after →
    (Asks token t → .finish j (.ok (.session (some session))) ∉ w.log) ∧
      .finish j (.ok (.created token session)) ∉ w.log

/-- A token that is stored was never stored before. -/
def NewToken (w : SessionWorld) (ev : SessionEvent) : Prop :=
  ∀ i token data r, ev = .call i (.insert token data) r →
    ∀ j data' r', .call j (.insert token data') r' ∉ w.log

/-- A call of `validateSession` does not write an unlocked copy while the stored session is
locked. -/
def InTurn (w : SessionWorld) (ev : SessionEvent) : Prop :=
  ∀ i t token data r, ev = .call i (.update token data) r → w.Running i (.validateSession t) →
    data.locked = false → ∀ stored, w.store.sessions token = some stored → stored.locked = false

/-! ### What a call does -/

def spec : Spec Call Reply Failure Result Task where
  calls t h e := match e with
    | .generateToken | .newId | .now | .purgeExpired => True
    | .insert _ _ => ∃ userSubject username email roles backendToken,
        t = .createSession userSubject username email roles backendToken
    | .get token => Asks token t
    | .update token _ => Asks token t ∧ ∃ found, ⟨.get token, some found⟩ ∈ h
    | .remove token => Asks token t ∨ t = .invalidateSession token
  result t r h :=
    (∀ session, r = .ok (.session (some session)) →
      ∃ token found, Asks token t ∧ ⟨.get token, some found⟩ ∈ h ∧
        (t = .validateSession token → session.locked = false → found.locked = false)) ∧
    ∀ token session, r = .ok (.created token session) → ⟨.insert token session, ()⟩ ∈ h

variable {manager : SessionManager}

/-- A call that returns no session. -/
theorem result_none {t : Task} {r : Except Failure Result} {h : History Call Reply}
    (hsession : ∀ session, r ≠ .ok (.session (some session)))
    (hcreated : ∀ token session, r ≠ .ok (.created token session)) : spec.result t r h :=
  ⟨fun session heq => absurd heq (hsession session),
    fun token session heq => absurd heq (hcreated token session)⟩

/-- A call that returns the session that it read, changed or not. -/
theorem result_session {token : String} {t : Task} {session found : SessionData}
    {h : History Call Reply} (hask : Asks token t) (hfound : ⟨.get token, some found⟩ ∈ h)
    (hlocked : t = .validateSession token → session.locked = false → found.locked = false) :
    spec.result t (.ok (.session (some session))) h := by
  constructor
  · intro session' heq
    obtain rfl : session = session' := by simpa using heq
    exact ⟨token, found, hask, hfound, hlocked⟩
  · intro token' session' heq
    cases heq

/-- The end of a call that keeps its session active. -/
theorem wp_refresh {token : String} {t : Task} {session found : SessionData}
    {h : History Call Reply} (hask : Asks token t) (hfound : ⟨.get token, some found⟩ ∈ h)
    (hlocked : t = .validateSession token → session.locked = false → found.locked = false) :
    (Result.session <$> refresh token session).Wp (spec.calls t) (spec.result t) h := by
  refine ⟨trivial, fun now => ⟨⟨hask, found, List.mem_append_left _ hfound⟩, fun _ => ?_⟩⟩
  exact result_session hask (List.mem_append_left _ (List.mem_append_left _ hfound)) hlocked

/-- What a call does with a session that it read and that has expired. -/
theorem wp_expired {token : String} {t : Task} {h : History Call Reply} (hask : Asks token t) :
    (Result.session <$> (do
      let _ ← await (.remove token)
      return none : SessionM (Option SessionData))).Wp (spec.calls t) (spec.result t) h :=
  ⟨.inl hask, fun _ => result_none (by simp) (by simp)⟩

theorem wp_checkActivity {token : String} {session : SessionData} {h : History Call Reply}
    (hfound : ⟨.get token, some session⟩ ∈ h) :
    (Result.session <$> checkActivity manager token session).Wp
      (spec.calls (.validateSession token)) (spec.result (.validateSession token)) h := by
  have hask : Asks token (.validateSession token) := .inl rfl
  unfold checkActivity
  refine ⟨trivial, fun now => ?_⟩
  have hfound' : ⟨.get token, some session⟩ ∈ h ++ [⟨.now, now⟩] := List.mem_append_left _ hfound
  show Prog.Wp _ _ (Result.session <$> lockOrRefresh token session
    (session.shouldLock manager.inactivityTimeout now)) _
  cases session.shouldLock manager.inactivityTimeout now with
  | none => exact result_none (by simp) (by simp)
  | some shouldLock =>
    by_cases hlock : (shouldLock && !session.locked) = true
    · show Prog.Wp _ _ (Result.session <$> if _ then _ else _) _
      rw [if_pos hlock]
      refine ⟨⟨hask, session, hfound'⟩, fun _ => ?_⟩
      exact result_session hask (List.mem_append_left _ hfound') fun _ hlocked => by cases hlocked
    · show Prog.Wp _ _ (Result.session <$> if _ then _ else _) _
      rw [if_neg hlock]
      exact wp_refresh hask hfound' fun _ hlocked => hlocked

/-- **The calls keep to their specification.** -/
theorem meets_spec : (system manager).Meets spec := by
  intro t
  cases t with
  | createSession userSubject username email roles backendToken =>
    refine ⟨trivial, fun token => ⟨trivial, fun now => ⟨trivial, fun id => ?_⟩⟩⟩
    show Prog.Wp _ _ (_ <$> storeSession token _ (now.addDuration manager.absoluteTimeout)) _
    cases now.addDuration manager.absoluteTimeout with
    | none => exact result_none (by simp) (by simp)
    | some expiresAt =>
      refine ⟨⟨_, _, _, _, _, rfl⟩, fun _ => ⟨trivial, fun _ => ⟨fun session heq => ?_, ?_⟩⟩⟩
      · cases heq
      · intro token' session' heq
        obtain ⟨rfl, rfl⟩ : token = token' ∧ _ = session' := by simpa using heq
        exact List.mem_append_left _ (List.mem_append_right _ (List.mem_singleton_self _))
  | invalidateSession token =>
    refine ⟨.inr rfl, fun removed => ?_⟩
    exact result_none (by simp) (by simp)
  | validateSession token =>
    have hask : Asks token (.validateSession token) := .inl rfl
    refine ⟨hask, fun found => ?_⟩
    cases found with
    | none => exact result_none (by simp) (by simp)
    | some session =>
      refine ⟨trivial, fun now => ?_⟩
      show Prog.Wp _ _ (Result.session <$> if session.isExpired now = true then _ else _) _
      by_cases hexpired : session.isExpired now = true
      · rw [if_pos hexpired]
        exact wp_expired hask
      · rw [if_neg hexpired]
        exact wp_checkActivity (List.mem_cons_self ..)
  | unlockSession token =>
    have hask : Asks token (.unlockSession token) := .inr rfl
    refine ⟨hask, fun found => ?_⟩
    cases found with
    | none => exact result_none (by simp) (by simp)
    | some session =>
      refine ⟨trivial, fun now => ?_⟩
      show Prog.Wp _ _ (Result.session <$> if session.isExpired now = true then _ else _) _
      by_cases hexpired : session.isExpired now = true
      · rw [if_pos hexpired]
        exact wp_expired hask
      · rw [if_neg hexpired]
        exact wp_refresh hask (List.mem_cons_self ..) fun heq => by cases heq

/-! ### What a call does to an entry -/

/-- A call leaves the entry of a token, removes it, or stores a session in it; an update only if
there is one. -/
theorem exec_entry (e : Call) (c : Choice) (s : Store) (token : String) :
    (exec e c s).2.sessions token = s.sessions token ∨ (exec e c s).2.sessions token = none ∨
    (∃ data, e = .insert token data) ∨
    ∃ data, e = .update token data ∧ s.sessions token ≠ none ∧
      (exec e c s).2.sessions token = some data := by
  cases e with
  | insert token' data =>
    by_cases heq : token = token'
    · right; right; left
      exact ⟨data, by rw [heq]⟩
    · left
      exact if_neg heq
  | update token' data =>
    by_cases hsome : (s.sessions token').isSome = true
    · have hstore : (exec (.update token' data) c s).2.sessions token =
          if token = token' then some data else s.sessions token := by
        show (if (s.sessions token').isSome = true then _ else _ : Store).sessions token = _
        rw [if_pos hsome]
        rfl
      by_cases heq : token = token'
      · subst heq
        right; right; right
        refine ⟨data, rfl, fun hnone => ?_, ?_⟩
        · rw [hnone] at hsome
          cases hsome
        · rw [hstore, if_pos rfl]
      · left
        rw [hstore, if_neg heq]
    · left
      show (if (s.sessions token').isSome = true then _ else _ : Store).sessions token = _
      rw [if_neg hsome]
  | remove token' =>
    by_cases heq : token = token'
    · right; left
      exact if_pos heq
    · left
      exact if_neg heq
  | purgeExpired =>
    cases hentry : s.sessions token with
    | none =>
      left
      show (s.sessions token).filter _ = none
      rw [hentry]
      rfl
    | some session =>
      have hfilter : (exec .purgeExpired c s).2.sessions token =
          (some session).filter fun session =>
            !session.isExpired (.ofNanos (s.clock + c.elapsed)) := by
        rw [← hentry]
        rfl
      rw [hfilter, Option.filter_some]
      split_ifs
      · exact .inl rfl
      · exact .inr (.inl rfl)
  | _ => exact .inl rfl

/-- The entry of the token that is updated. -/
theorem exec_update (token : String) (data : SessionData) (c : Choice) (s : Store) :
    (exec (.update token data) c s).2.sessions token = (s.sessions token).map fun _ => data := by
  show (if (s.sessions token).isSome = true then _ else _ : Store).sessions token = _
  cases hentry : s.sessions token with
  | none =>
    rw [if_neg (by decide)]
    exact hentry
  | some old =>
    rw [if_pos (show (some old).isSome = true from rfl)]
    exact if_pos rfl

/-! ### Tokens that were stored -/

/-- A session was stored under the token. -/
def Inserted (log : List SessionEvent) (token : String) : Prop :=
  ∃ i data r, .call i (.insert token data) r ∈ log

/-- The tokens of the map, and those that a call found there, were stored. -/
def Known (w : SessionWorld) : Prop :=
  (∀ token data, w.store.sessions token = some data → Inserted w.log token) ∧
    ∀ j token data, .call j (.get token) (some data) ∈ w.log → Inserted w.log token

/-- The log after a call: no call starts another. -/
theorem log_after (i n : ℕ) (e : Call) (c : Choice) (w : SessionWorld) :
    ((system manager).after i n e c w).log = w.log ++ [.call i e (exec e c w.store).1] := rfl

theorem Inserted.mono {log log' : List SessionEvent} {token : String} (h : Inserted log token) :
    Inserted (log ++ log') token := by
  obtain ⟨i, data, r, hmem⟩ := h
  exact ⟨i, data, r, List.mem_append_left _ hmem⟩

theorem preserves_known {allowed : SessionWorld → SessionEvent → Prop} :
    (system manager).Preserves spec allowed (fun _ => True) Known := by
  refine .of_call (fun w ev hev h => ⟨fun token data hentry => ?_, fun j token data hget => ?_⟩)
    fun {w i n t e c} _ _ h _ _ _ => ⟨fun token data hentry => ?_, fun j token data hget => ?_⟩
  · exact (h.1 token data hentry).mono
  · rcases List.mem_append.mp hget with hget | hget
    · exact (h.2 j token data hget).mono
    · exact absurd (List.mem_singleton.mp hget).symm (hev j _ _)
  · rw [log_after]
    replace hentry : (exec e c w.store).2.sessions token = some data := hentry
    rcases exec_entry e c w.store token with hsame | hnone | ⟨data', rfl⟩ | ⟨data', rfl, hne, -⟩
    · rw [hsame] at hentry
      exact (h.1 token data hentry).mono
    · rw [hnone] at hentry
      cases hentry
    · exact ⟨i, data', _, List.mem_append_right _ (List.mem_singleton_self _)⟩
    · obtain ⟨old, hold⟩ := Option.ne_none_iff_exists'.mp hne
      exact (h.1 token old hold).mono
  · rw [log_after] at hget ⊢
    rcases List.mem_append.mp hget with hget | hget
    · exact (h.2 j token data hget).mono
    · obtain ⟨rfl, hcall, hreply⟩ := Event.call.inj (List.mem_singleton.mp hget)
      subst hcall
      exact (h.1 token data (eq_of_heq hreply).symm).mono

/-! ### Locked sessions -/

/-- Since the log was `base`, the session of the token is locked wherever it is seen, unless it was
unlocked. -/
def LockKept (token : String) (base : List SessionEvent) (w : SessionWorld) : Prop :=
  ∃ between, w.log = base ++ between ∧ ((∀ ev ∈ between, ¬Unlocks w token ev) →
    (∀ data, w.store.sessions token = some data → data.locked = true) ∧
      ∀ j data, .call j (.get token) (some data) ∈ between → data.locked = true)

theorem Unlocks.mono {w w' : SessionWorld} {token : String} {ev : SessionEvent}
    (hlog : ∃ evs, w'.log = w.log ++ evs) (h : Unlocks w token ev) : Unlocks w' token ev := by
  obtain ⟨evs, hevs⟩ := hlog
  obtain ⟨i, data, r, rfl, parent, hstart⟩ := h
  exact ⟨i, data, r, rfl, parent, by rw [hevs]; exact List.mem_append_left _ hstart⟩

theorem preserves_lockKept {token : String} {base : List SessionEvent}
    (hbase : Inserted base token) :
    (system manager).Preserves spec (fun w ev => NewToken w ev ∧ InTurn w ev) (fun _ => True)
      (LockKept token base) := by
  refine .of_call (fun w ev hev h => ?_) fun {w i n t e c} _ _ h hrun hcalls hallowed => ?_
  · obtain ⟨between, hlog, hkept⟩ := h
    refine ⟨between ++ [ev], by rw [World.add_log, hlog, List.append_assoc], fun hno => ?_⟩
    obtain ⟨hstore, hgets⟩ := hkept fun ev' hev' hunlocks =>
      hno ev' (List.mem_append_left _ hev') (hunlocks.mono ⟨_, rfl⟩)
    refine ⟨hstore, fun j data hget => ?_⟩
    rcases List.mem_append.mp hget with hget | hget
    · exact hgets j data hget
    · exact absurd (List.mem_singleton.mp hget).symm (hev j _ _)
  · obtain ⟨between, hlog, hkept⟩ := h
    have hlog' : ((system manager).after i n e c w).log =
        base ++ (between ++ [.call i e (exec e c w.store).1]) := by
      rw [log_after, hlog, List.append_assoc]
    refine ⟨_, hlog', fun hno => ?_⟩
    obtain ⟨hstore, hgets⟩ := hkept fun ev' hev' hunlocks =>
      hno ev' (List.mem_append_left _ hev') (hunlocks.mono ⟨_, log_after i n e c w⟩)
    constructor
    · intro data hentry
      replace hentry : (exec e c w.store).2.sessions token = some data := hentry
      rcases exec_entry e c w.store token with
        hsame | hnone | ⟨data', rfl⟩ | ⟨data', rfl, hne, hset⟩
      · rw [hsame] at hentry
        exact hstore data hentry
      · rw [hnone] at hentry
        cases hentry
      · -- the token would be stored a second time
        obtain ⟨j, data'', r, hmem⟩ := hbase
        refine absurd ?_ (hallowed.1 i token data' _ rfl j data'' r)
        rw [hlog]
        exact List.mem_append_left _ hmem
      · rw [hset] at hentry
        obtain rfl := Option.some.inj hentry
        rcases hcalls.1 with rfl | rfl
        · by_contra hlocked
          rw [Bool.not_eq_true] at hlocked
          obtain ⟨stored, hstored⟩ := Option.ne_none_iff_exists'.mp hne
          have hfalse := hallowed.2 i token token data' _ rfl hrun hlocked stored hstored
          rw [hstore stored hstored] at hfalse
          cases hfalse
        · obtain ⟨parent, hstart⟩ := hrun.started
          refine absurd ⟨i, data', _, rfl, parent, ?_⟩
            (hno _ (List.mem_append_right _ (List.mem_singleton_self _)))
          exact List.mem_append_left _ hstart
    · intro j data hget
      rcases List.mem_append.mp hget with hget | hget
      · exact hgets j data hget
      · obtain ⟨rfl, hcall, hreply⟩ := Event.call.inj (List.mem_singleton.mp hget)
        subst hcall
        exact hstore data (eq_of_heq hreply).symm

/-- **A locked session stays locked**, where tokens are new and no stale copy is written while the
session is locked. -/
theorem sessions_stay_locked {store : Store} (hstore : store.sessions = fun _ => none)
    {cfg : SessionState} (hreach : (system manager).Reach
      (fun w ev => NewToken w ev ∧ InTurn w ev) (System.initial store) cfg) :
    StaysLocked cfg.world := by
  intro token before ev between j parent session after hlog hlocks hstart hunlocked
  have hwf := hreach.wf meets_spec
  -- the state in which the later call ends
  have hcut : cfg.world.log =
      (before ++ ev :: between) ++ .finish j (.ok (.session (some session))) :: after := by
    rw [hlog, List.append_assoc, List.cons_append]
  obtain ⟨mid, a, next, hmid, hmidLog, hstep, -, hrest⟩ := hreach.past hcut (by simp)
  have hgrows : ∃ evs, cfg.world.log = mid.world.log ++ evs := by
    rw [hmidLog]
    exact ⟨_, hcut⟩
  obtain ⟨t, hrun, hresult⟩ := System.Good.finish_step (hmid.good meets_spec) hstep
  obtain ⟨token', found, hask, hfound, hflag⟩ := hresult.1 session rfl
  have ht : t = .validateSession token := by
    refine (hmid.wf meets_spec).started_unique hrun.started ⟨parent, ?_⟩
    rw [hmidLog]
    exact List.mem_append_right _ (List.mem_cons_of_mem _ hstart)
  subst ht
  obtain rfl : token = token' := by
    rcases hask with heq | heq
    · exact Task.validateSession.inj heq
    · cases heq
  have hread : found.locked = false := hflag rfl hunlocked
  have hget : .call j (.get token) (some found) ∈ between := by
    have hsplit : mid.world.log = (before ++ [ev]) ++ between := by
      rw [hmidLog, List.append_assoc]
      rfl
    exact hmid.mem_of_started meets_spec hsplit hstart (World.mem_history.mp hfound) rfl
  -- the state in which the session was locked
  obtain ⟨i, data, r, rfl, -, hlocked⟩ := hlocks
  obtain ⟨mid₀, t₀, c, hmid₀, hmid₀Log, hmade⟩ := hmid.made meets_spec hmidLog
  obtain ⟨n, b, locked, hlockStep, hlockWorld, hlockRest⟩ := hmade.rest
  obtain ⟨-, old, hold⟩ := hmade.calls
  have hinserted : Inserted locked.world.log token := by
    have hknown : Known mid₀.world := by
      refine (preserves_known.reach meets_spec ⟨fun token data hentry => ?_, ?_⟩ hmid₀).2
      · rw [hstore] at hentry
        cases hentry
      · intro j token data hget
        cases hget
    rw [hlockWorld, log_after]
    exact (hknown.2 i token old (World.mem_history.mp hold)).mono
  have hbaseLog : locked.world.log = before ++ [.call i (.update token data) r] := by
    rw [hlockWorld, log_after, hmid₀Log, hmade.reply]
  have hinit : LockKept token locked.world.log locked.world := by
    refine ⟨[], (List.append_nil _).symm, fun _ => ⟨fun data' hentry => ?_, ?_⟩⟩
    · rw [hlockWorld] at hentry
      replace hentry : (exec (.update token data) c mid₀.world.store).2.sessions token
        = some data' := hentry
      rw [exec_update] at hentry
      obtain ⟨-, -, rfl⟩ := Option.map_eq_some_iff.mp hentry
      exact hlocked
    · intro j data' hget
      cases hget
  have hgood : spec.Good locked :=
    (hmid₀.step hlockStep hmade.admitted).good meets_spec
  obtain ⟨-, between', hmidLog', hkept⟩ :=
    (preserves_lockKept hinserted).reach_from meets_spec hgood hinit hlockRest
  have hbetween : between' = between := by
    rw [hmidLog, hbaseLog, List.append_assoc] at hmidLog'
    exact (List.cons.inj (List.append_cancel_left hmidLog')).2.symm
  subst hbetween
  by_contra hno
  have hlockedGet :=
    (hkept fun ev hev hunlocks => hno ⟨ev, hev, hunlocks.mono hgrows⟩).2 j found hget
  rw [hread] at hlockedGet
  cases hlockedGet

/-! ### Removed sessions -/

/-- Since the log was `base`, the token has no session, and none was stored or found. -/
def RemovedKept (token : String) (base : List SessionEvent) (w : SessionWorld) : Prop :=
  ∃ after, w.log = base ++ after ∧ w.store.sessions token = none ∧
    (∀ j data, .call j (.get token) (some data) ∉ after) ∧
      ∀ j data r, .call j (.insert token data) r ∉ after

theorem preserves_removedKept {token : String} {base : List SessionEvent}
    (hbase : Inserted base token) :
    (system manager).Preserves spec NewToken (fun _ => True) (RemovedKept token base) := by
  refine .of_call (fun w ev hev h => ?_) fun {w i n t e c} _ _ h _ _ hallowed => ?_
  · obtain ⟨after, hlog, hnone, hgets, hinserts⟩ := h
    refine ⟨after ++ [ev], by rw [World.add_log, hlog, List.append_assoc], hnone,
      fun j data hget => ?_, fun j data r hinsert => ?_⟩
    · rcases List.mem_append.mp hget with hget | hget
      · exact hgets j data hget
      · exact hev j _ _ (List.mem_singleton.mp hget).symm
    · rcases List.mem_append.mp hinsert with hinsert | hinsert
      · exact hinserts j data r hinsert
      · exact hev j _ _ (List.mem_singleton.mp hinsert).symm
  · obtain ⟨after, hlog, hnone, hgets, hinserts⟩ := h
    have hnot (data : SessionData) : e ≠ .insert token data := by
      rintro rfl
      obtain ⟨j, data', r, hmem⟩ := hbase
      refine hallowed i token data _ rfl j data' r ?_
      rw [hlog]
      exact List.mem_append_left _ hmem
    refine ⟨after ++ [.call i e (exec e c w.store).1], ?_, ?_, fun j data hget => ?_,
      fun j data r hinsert => ?_⟩
    · rw [log_after, hlog, List.append_assoc]
    · show (exec e c w.store).2.sessions token = none
      rcases exec_entry e c w.store token with hsame | hnone' | ⟨data, heq⟩ | ⟨data, -, hne, -⟩
      · rw [hsame, hnone]
      · exact hnone'
      · exact absurd heq (hnot data)
      · exact absurd hnone hne
    · rcases List.mem_append.mp hget with hget | hget
      · exact hgets j data hget
      · obtain ⟨-, hcall, hreply⟩ := Event.call.inj (List.mem_singleton.mp hget)
        subst hcall
        have hentry : w.store.sessions token = some data := (eq_of_heq hreply).symm
        rw [hnone] at hentry
        cases hentry
    · rcases List.mem_append.mp hinsert with hinsert | hinsert
      · exact hinserts j data r hinsert
      · obtain ⟨-, hcall, -⟩ := Event.call.inj (List.mem_singleton.mp hinsert)
        exact hnot data hcall.symm

/-- **A removed session is not returned again**, where tokens are new, in whatever order. -/
theorem sessions_stay_removed {store : Store} (hstore : store.sessions = fun _ => none)
    {cfg : SessionState}
    (hreach : (system manager).Reach NewToken (System.initial store) cfg) :
    StaysRemoved cfg.world := by
  intro token before ev after j t parent session hlog hremoves hstart
  -- the state in which the session was removed
  obtain ⟨i, data, rfl, -⟩ := hremoves
  obtain ⟨mid, t₀, c, hmid, hmidLog, hmade⟩ := hreach.made meets_spec hlog
  obtain ⟨n, a, next, hstep, hnextWorld, hrest⟩ := hmade.rest
  have hentry : mid.world.store.sessions token = some data := hmade.reply.symm
  have hnextLog : next.world.log = before ++ [.call i (.remove token) (some data)] := by
    rw [hnextWorld, log_after, hmidLog, hmade.reply]
    rfl
  have hinserted : Inserted next.world.log token := by
    have hknown : Known mid.world := by
      refine (preserves_known.reach meets_spec ⟨fun token data hentry => ?_, ?_⟩ hmid).2
      · rw [hstore] at hentry
        cases hentry
      · intro j token data hget
        cases hget
    rw [hnextWorld, log_after]
    exact (hknown.1 token data hentry).mono
  have hinit : RemovedKept token next.world.log next.world := by
    refine ⟨[], (List.append_nil _).symm, ?_, by simp, by simp⟩
    rw [hnextWorld]
    show (exec (.remove token) c mid.world.store).2.sessions token = none
    exact if_pos rfl
  have hgood : spec.Good next := (hmid.step hstep hmade.admitted).good meets_spec
  obtain ⟨-, after', hlog', -, hgets, hinserts⟩ :=
    (preserves_removedKept hinserted).reach_from meets_spec hgood hinit hrest
  have hafter : after' = after := by
    rw [hlog, hnextLog, List.append_assoc] at hlog'
    exact (List.cons.inj (List.append_cancel_left hlog')).2.symm
  subst hafter
  -- what a later call did comes after the removal
  have hlater {e : Call} {r : Reply e} (hcall : ⟨e, r⟩ ∈ cfg.world.history j) :
      .call j e r ∈ after' := by
    have hsplit : cfg.world.log = (before ++ [.call i (.remove token) (some data)]) ++ after' := by
      rw [hlog, List.append_assoc]
      rfl
    exact hreach.mem_of_started meets_spec hsplit hstart (World.mem_history.mp hcall) rfl
  have hstarted : cfg.world.Started j t := by
    refine ⟨parent, ?_⟩
    rw [hlog]
    exact List.mem_append_right _ (List.mem_cons_of_mem _ hstart)
  constructor
  · intro hask hfinish
    obtain ⟨t', hstarted', hresult⟩ := hreach.finished meets_spec hfinish
    obtain rfl := (hreach.wf meets_spec).started_unique hstarted hstarted'
    obtain ⟨token', found, hask', hfound, -⟩ := hresult.1 session rfl
    obtain rfl : token = token' := by
      rcases hask with rfl | rfl
      · rcases hask' with heq | heq
        · exact Task.validateSession.inj heq
        · cases heq
      · rcases hask' with heq | heq
        · cases heq
        · exact Task.unlockSession.inj heq
    exact hgets j found (hlater hfound)
  · intro hfinish
    obtain ⟨t', -, hresult⟩ := hreach.finished meets_spec hfinish
    exact hinserts j session () (hlater (hresult.2 token session rfl))

/-- **Sessions stay locked and removed**, in every run from an empty map in which tokens are new
and no stale copy is written while the session is locked. -/
theorem sessions_stay (store : Store) (hstore : store.sessions = fun _ => none)
    (cfg : SessionState) (hreach : (system manager).Reach
      (fun w ev => NewToken w ev ∧ InTurn w ev) (System.initial store) cfg) :
    StaysLocked cfg.world ∧ StaysRemoved cfg.world :=
  ⟨sessions_stay_locked hstore hreach,
    sessions_stay_removed hstore (hreach.mono fun _ _ h => h.1)⟩

/-! ### An instance -/

/-- The map without sessions. -/
def noSessions : Store := ⟨fun _ => none, 0⟩

/-- One step of task `i` after so many seconds. -/
def after (i seconds : ℕ) : Action Task Choice := .run i ⟨seconds * 1000000000, "t", "s"⟩

/-- `n` steps of task `i` at once. -/
def steps (i n : ℕ) : List (Action Task Choice) := List.replicate n (after i 0)

/-- A session is created, and 899 seconds later task 1 reads it and does not find it inactive. -/
def created : List (Action Task Choice) :=
  .arrive (.createSession "user" none none [] none) :: steps 0 6 ++
    [.arrive (.validateSession "t"), after 1 899] ++ steps 1 2

/-- Task 2 reads the session so many seconds later, and locks it. -/
def lockedAfter (seconds : ℕ) : List (Action Task Choice) :=
  [.arrive (.validateSession "t"), after 2 seconds] ++ steps 2 4

/-- Task 3 validates the session. -/
def validated : List (Action Task Choice) := .arrive (.validateSession "t") :: steps 3 6

/-- The event stores a session under the token. -/
def isInsert (token : String) : SessionEvent → Bool
  | .call _ (.insert token' _) _ => token' = token
  | _ => false

/-- Tokens are new, as a check. -/
def checkToken (w : SessionWorld) : SessionEvent → Bool
  | .call _ (.insert token _) _ => w.log.all fun ev => !isInsert token ev
  | _ => true

theorem newToken_of_check {w : SessionWorld} {ev : SessionEvent} (h : checkToken w ev = true) :
    NewToken w ev := by
  rintro i token data r rfl j data' r' hmem
  have hnot := List.all_eq_true.mp h _ hmem
  rw [Bool.not_eq_true'] at hnot
  exact absurd (decide_eq_true rfl) (Bool.eq_false_iff.mp hnot)

/-- No unlocked copy is written while the session is locked, as a check. -/
def checkTurn (w : SessionWorld) : SessionEvent → Bool
  | .call _ (.update token data) _ =>
    data.locked || !(w.store.sessions token).any fun stored => stored.locked
  | _ => true

theorem inTurn_of_check {w : SessionWorld} {ev : SessionEvent} (h : checkTurn w ev = true) :
    InTurn w ev := by
  rintro i t token data r rfl - hdata stored hstored
  replace h : (data.locked || !(w.store.sessions token).any fun stored => stored.locked) = true := h
  rw [hdata, hstored, Bool.false_or, Bool.not_eq_true'] at h
  exact h

/-- Task 2 stores a locked session. -/
def isLock : SessionEvent → Bool
  | .call i (.update token data) _ => i = 2 && token = "t" && data.locked
  | _ => false

theorem of_isLock {ev : SessionEvent} (h : isLock ev = true) :
    ∃ data r, ev = .call 2 (.update "t" data) r ∧ data.locked = true := by
  unfold isLock at h
  split at h
  case h_2 => cases h
  rename_i i token data r
  simp only [Bool.and_eq_true, decide_eq_true_eq] at h
  obtain ⟨⟨rfl, rfl⟩, hdata⟩ := h
  exact ⟨data, r, rfl, hdata⟩

/-- Task `n` starts to validate the session. -/
def isStart (n : ℕ) : SessionEvent → Bool
  | .start i (.validateSession token) _ => i = n && token = "t"
  | _ => false

theorem of_isStart {n : ℕ} {ev : SessionEvent} (h : isStart n ev = true) :
    ∃ parent, ev = .start n (.validateSession "t") parent := by
  unfold isStart at h
  split at h
  case h_2 => cases h
  rename_i i token parent
  simp only [Bool.and_eq_true, decide_eq_true_eq] at h
  obtain ⟨rfl, rfl⟩ := h
  exact ⟨parent, rfl⟩

/-- Task 3 ends with an unlocked session. -/
def isUnlocked : SessionEvent → Bool
  | .finish i (.ok (.session (some session))) => i = 3 && !session.locked
  | _ => false

theorem of_isUnlocked {ev : SessionEvent} (h : isUnlocked ev = true) :
    ∃ session, ev = .finish 3 (.ok (.session (some session))) ∧ session.locked = false := by
  unfold isUnlocked at h
  split at h
  case h_2 => cases h
  rename_i i session
  simp only [Bool.and_eq_true, decide_eq_true_eq, Bool.not_eq_true'] at h
  obtain ⟨rfl, hsession⟩ := h
  exact ⟨session, rfl, hsession⟩

/-- The event starts no call of `unlockSession`. -/
def isNoUnlock : SessionEvent → Bool
  | .start _ (.unlockSession _) _ => false
  | _ => true

/-- A list, cut at the first of its members that passes a test. -/
theorem cut_first {α : Type} {p : α → Bool} {l : List α} (h : l.any p = true) :
    ∃ x, p x = true ∧ l = l.takeWhile (!p ·) ++ x :: (l.dropWhile (!p ·)).tail := by
  induction l with
  | nil => cases h
  | cons y l ih =>
    by_cases hy : p y = true
    · exact ⟨y, hy, by simp [hy]⟩
    · rw [List.any_cons, Bool.or_eq_true, or_iff_right hy] at h
      obtain ⟨x, hx, hl⟩ := ih h
      refine ⟨x, hx, ?_⟩
      have htake : (y :: l).takeWhile (!p ·) = y :: l.takeWhile (!p ·) := by simp [hy]
      have hdrop : (y :: l).dropWhile (!p ·) = l.dropWhile (!p ·) := by simp [hy]
      rw [htake, hdrop, List.cons_append, ← hl]

/-- What comes after the lock. -/
def afterLock (log : List SessionEvent) : List SessionEvent := (log.dropWhile (!isLock ·)).tail

/-- What comes between the lock and the end of the third validation. -/
def beforeUnlocked (log : List SessionEvent) : List SessionEvent :=
  (afterLock log).takeWhile (!isUnlocked ·)

/-- The lock was overwritten, as a check. -/
def overwritten (log : List SessionEvent) : Bool :=
  log.any isLock && log.any (isStart 2) && (afterLock log).any isUnlocked &&
    (beforeUnlocked log).any (isStart 3) && log.all isNoUnlock

theorem not_staysLocked_of_check {w : SessionWorld} (h : overwritten w.log = true) :
    ¬StaysLocked w := by
  intro hstays
  simp only [overwritten, Bool.and_eq_true] at h
  obtain ⟨⟨⟨⟨hlock, hlocker⟩, hunlocked⟩, hstart⟩, hnone⟩ := h
  obtain ⟨ev, hev, hlog⟩ := cut_first hlock
  obtain ⟨ev', hev', hafter⟩ := cut_first hunlocked
  obtain ⟨ev₂, hmem₂, hev₂⟩ := List.any_eq_true.mp hlocker
  obtain ⟨ev₃, hmem₃, hev₃⟩ := List.any_eq_true.mp hstart
  have hlog' : w.log = w.log.takeWhile (!isLock ·) ++ ev ::
      (beforeUnlocked w.log ++ ev' :: ((afterLock w.log).dropWhile (!isUnlocked ·)).tail) := by
    rw [beforeUnlocked, ← hafter]
    exact hlog
  obtain ⟨data, r, rfl, hdata⟩ := of_isLock hev
  obtain ⟨session, rfl, hsession⟩ := of_isUnlocked hev'
  obtain ⟨parent₂, rfl⟩ := of_isStart hev₂
  obtain ⟨parent₃, rfl⟩ := of_isStart hev₃
  obtain ⟨ev₀, -, i₀, data₀, r₀, -, parent₀, hunlock⟩ := hstays "t" _ _ _ 3 parent₃ session _ hlog'
    ⟨2, data, r, rfl, ⟨parent₂, hmem₂⟩, hdata⟩ hmem₃ hsession
  cases List.all_eq_true.mp hnone _ hunlock

/-- Task 1 read the session when it was active and writes its copy after task 2 has locked it. -/
theorem lock_is_overwritten : ∃ cfg, (system .default).Reach NewToken
    (System.initial noSessions) cfg ∧ ¬StaysLocked cfg.world := by
  have hrun : ((system .default).run checkToken
      (created ++ lockedAfter 2 ++ steps 1 3 ++ validated) (System.initial noSessions)).map
        (fun cfg => overwritten cfg.world.log) = some true := by decide +kernel
  obtain ⟨cfg, hcfg, hvalue⟩ := Option.map_eq_some_iff.mp hrun
  exact ⟨cfg, System.reach_of_run (fun _ _ h => newToken_of_check h) _ hcfg,
    not_staysLocked_of_check hvalue⟩

/-- Task 1 writes its copy before task 2 reads the session. -/
theorem sessions_stay_inactive : ∃ cfg : SessionState,
    cfg.world.log.any isLock = true ∧ StaysLocked cfg.world ∧ StaysRemoved cfg.world := by
  have hrun : ((system .default).run (fun w ev => checkToken w ev && checkTurn w ev)
      (created ++ steps 1 3 ++ lockedAfter 901 ++ validated) (System.initial noSessions)).map
        (fun cfg => cfg.world.log.any isLock) = some true := by decide +kernel
  obtain ⟨cfg, hcfg, hvalue⟩ := Option.map_eq_some_iff.mp hrun
  refine ⟨cfg, hvalue, sessions_stay noSessions rfl cfg (System.reach_of_run
    (fun _ _ h => ?_) _ hcfg)⟩
  rw [Bool.and_eq_true] at h
  exact ⟨newToken_of_check h.1, inTurn_of_check h.2⟩

end Ostrich.WebUi
