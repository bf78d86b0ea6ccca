import Ostrich.Common.Equiv.Session
import Ostrich.Common.Provider

/-!
# A disabled account loses access

`validateSession` looks the account of a session up and does not look at its status, so what an
account that is not active can still do depends on the sessions that it has.

* `loses_access`: in every run in which the status of an account is changed from active only when
  the account is `Idle` (it has no active session, and no call in flight has read one), and no
  session is created for an account that is not active, no validation returns a session of an
  account that is not active;
* `keeps_access`: an account is disabled while it has a session, and the session is still valid.
-/

namespace Ostrich.Common.Provider

open Interleave Table Prog

/-! ### The property -/

/-- The account is there and is not active. -/
def NotActive (s : Store) (username : String) : Prop :=
  ∃ row, s.users.get username = some row ∧ row.status ≠ .Active

/-- The calls and replies of the session manager. -/
def sessionPart (h : History Call Reply) : Session.Trace :=
  h.filterMap fun
    | ⟨.session e, r⟩ => some ⟨e, r⟩
    | _ => none

/-- The session was read by its token. -/
def SessionRead (h : Session.Trace) (session : Session) : Prop :=
  ∃ token, ⟨.getByToken token, .ok (some session)⟩ ∈ h

/-- The account has no active session, and no call in flight has read one. -/
structure Idle (w : ProviderWorld) (username : String) : Prop where
  rows : ∀ session ∈ w.store.sessions.rows, session.userId = username → session.status ≠ .Active
  reads : ∀ i session, ¬w.Ended i → SessionRead (sessionPart (w.history i)) session →
    session.userId = username → session.status ≠ .Active

/-- The status of an account is changed from active only when the account is idle, and no session is
created for an account that is not active. -/
def EndsFirst (policy : LockoutPolicy) (w : ProviderWorld) : ProviderEvent → Prop
  | .call _ (.setUserStatus id status) _ =>
    ∀ row ∈ w.store.users.rows, row.id = id → row.status = .Active → status ≠ .Active →
      Idle w row.username
  | .call _ (.recordFailedAttempt username now) _ =>
    ∀ row, w.store.users.get username = some row → row.status = .Active →
      (Password.recordFailedAttempt policy now row).2.status ≠ .Active → Idle w username
  | .call _ (.create session _) _ => ¬NotActive w.store session.userId
  | _ => True

/-! ### What the session manager does -/

/-- The calls of the session manager: an active session is written only after it was read as
active. -/
def sessionCalls (h : Session.Trace) : Session.Call → Prop
  | .update session => session.status = .Active → ∃ read, SessionRead h read ∧
      read.status = .Active ∧ read.id = session.id ∧ read.userId = session.userId
  | .deleteExpired | .lockIdle _ => False
  | _ => True

theorem SessionRead.append {h : Session.Trace} {session : Session} (hread : SessionRead h session)
    (new : Session.Trace) : SessionRead (h ++ new) session :=
  hread.imp fun _ hmem => List.mem_append_left _ hmem

section

open Session

variable {h : Session.Trace} (config : SessionConfig)

theorem does_evaluateActive {session : Session} (hread : SessionRead h session)
    (hactive : session.status = .Active) :
    (evaluateActive config session).Does sessionCalls
      (fun passed h' => passed.userId = session.userId ∧ SessionRead h' session) h := by
  unfold evaluateActive
  rw [does_bind, does_await]
  refine ⟨trivial, fun now => ?_⟩
  split
  · exact (does_fail _).mpr trivial
  · split_ifs
    · rw [does_bind]
      exact does_update nofun ((does_fail _).mpr trivial)
    · rw [does_bind]
      exact does_update nofun ((does_fail _).mpr trivial)
    · dsimp only
      rw [does_bind, does_await]
      refine ⟨trivial, fun now' => ?_⟩
      split_ifs
      · rw [does_bind, does_await]
        refine ⟨trivial, fun now'' => ?_⟩
        rw [does_bind]
        have hread' := ((hread.append [⟨.now, now⟩]).append [⟨.now, now'⟩]).append [⟨.now, now''⟩]
        refine does_update (fun _ => ⟨session, hread', hactive, rfl, rfl⟩) ?_
        exact (does_pure _).mpr ⟨rfl, hread'.append _⟩
      · exact (does_pure _).mpr ⟨rfl, (hread.append _).append _⟩

theorem does_evaluate {session : Session} (hread : SessionRead h session) :
    (evaluate config session).Does sessionCalls (fun passed h' =>
      session.status = .Active ∧ passed.userId = session.userId ∧ SessionRead h' session) h := by
  unfold evaluate
  rw [does_bind, does_await]
  refine ⟨trivial, fun now => ?_⟩
  split_ifs
  · rw [does_bind]
    exact does_update nofun ((does_fail _).mpr trivial)
  · exact (does_fail _).mpr trivial
  · split
    · rename_i hactive
      exact (does_evaluateActive config (hread.append _) hactive).mono fun _ _ h => ⟨hactive, h⟩
    · exact (does_fail _).mpr trivial
    · exact (does_fail _).mpr trivial
    · exact (does_fail _).mpr trivial
    · exact (does_fail _).mpr trivial

/-- A session that is accepted was read as active. -/
theorem does_validateSession (token : String) :
    (Session.validateSession config token).Does sessionCalls (fun passed h' =>
      ∃ read, SessionRead h' read ∧ read.status = .Active ∧ read.userId = passed.userId) h := by
  unfold Session.validateSession
  rw [does_bind, does_await]
  refine ⟨trivial, fun reply => ?_⟩
  rw [does_bind]
  refine does_found fun session hreply => ?_
  subst hreply
  have hread : SessionRead (h ++ [⟨.getByToken token, .ok (some session)⟩]) session :=
    ⟨token, List.mem_append_right _ (List.mem_singleton_self _)⟩
  refine (does_evaluate config hread).mono fun passed h' hpassed => ?_
  exact ⟨session, hpassed.2.2, hpassed.1, hpassed.2.1.symm⟩

theorem does_terminateSession (id : Uuid) :
    (terminateSession id).Does sessionCalls (fun _ _ => True) h := by
  unfold terminateSession
  rw [does_bind, does_await]
  refine ⟨trivial, fun reply => ?_⟩
  rw [does_bind]
  refine does_found fun session _ => ?_
  rw [does_bind]
  exact does_update nofun (does_await.mpr ⟨trivial, fun _ => trivial⟩)

theorem does_terminateAll (adminId : Option String) (sessions : List Session) (n : ℕ) :
    (terminateAll adminId sessions n).Does sessionCalls (fun _ _ => True) h := by
  induction sessions generalizing n h with
  | nil => exact (does_pure _).mpr trivial
  | cons session rest ih =>
    unfold terminateAll
    split_ifs
    · rw [does_bind]
      exact does_update (fun h => by cases h) (ih _)
    · rw [does_bind]
      exact does_update (fun h => by cases h) (ih _)
    · exact ih n

theorem does_terminateUserSessions (userId : String) (adminId : Option String) :
    (terminateUserSessions userId adminId).Does sessionCalls (fun _ _ => True) h := by
  unfold terminateUserSessions
  rw [does_bind, does_await]
  refine ⟨trivial, fun reply => ?_⟩
  rw [does_bind, does_ofExcept]
  exact fun sessions _ => does_terminateAll adminId sessions 0

end

/-! ### What the provider does -/

/-- What the tasks do. -/
def providerSpec : Spec Call Reply AuthError Result Task where
  calls _ h
    | .session e => sessionCalls (sessionPart h) e
    | _ => True
  result _ r h := ∀ info, r = .ok (.validated info) → ∃ read account,
    SessionRead (sessionPart h) read ∧ read.status = .Active ∧
    ⟨.findByUsername read.userId, .ok (some account)⟩ ∈ h ∧ info.user.username = account.username

section

variable {t : Task} {h : History Call Reply} {α : Type} (config : SessionConfig)

theorem sessionPart_append (h h' : History Call Reply) :
    sessionPart (h ++ h') = sessionPart h ++ sessionPart h' := List.filterMap_append ..

/-- An operation of the session manager does what it does there. -/
theorem does_ofSession {p : Session.SessionM α} {result : α → Session.Trace → Prop}
    (hp : p.Does sessionCalls result (sessionPart h)) :
    (ofSession p).Does (providerSpec.calls t)
      (fun r h' => ∀ a, r = .ok a → result a (sessionPart h')) h := by
  induction p generalizing h with
  | ret a =>
    refine (does_pure _).mpr fun a' ha => ?_
    obtain rfl := Except.ok.inj ha
    exact hp a rfl
  | fail e => exact (does_pure _).mpr nofun
  | call e k ih =>
    refine ⟨hp.1, fun r => ih r ?_⟩
    rw [sessionPart_append]
    exact hp.2 r

theorem does_acceptedSession (token : String) :
    (acceptedSession config token).Does (providerSpec.calls t) (fun session h' =>
      ∃ read, SessionRead (sessionPart h') read ∧ read.status = .Active ∧
        read.userId = session.userId) h := by
  unfold acceptedSession
  rw [does_bind]
  refine (does_ofSession (does_validateSession config token)).mono fun r h' hr => ?_
  split
  · exact (does_fail _).mpr trivial
  · exact (does_fail _).mpr trivial
  · exact (does_pure _).mpr (hr _ rfl)

/-- A validation reads an active session and then its account. -/
theorem does_validateSession' (token : String) :
    (validateSession config token).Does (providerSpec.calls t) (fun info h' =>
      ∃ read account, SessionRead (sessionPart h') read ∧ read.status = .Active ∧
        ⟨.findByUsername read.userId, .ok (some account)⟩ ∈ h' ∧
        info.user.username = account.username) h := by
  unfold validateSession
  rw [does_bind]
  refine (does_acceptedSession config token).mono fun session h' ⟨read, hread, hactive, huser⟩ => ?_
  rw [does_bind]
  refine (does_perform _).mpr ⟨trivial, fun reply => ?_⟩
  split
  · exact (does_fail _).mpr trivial
  · exact (does_fail _).mpr trivial
  · rename_i account
    refine (does_pure _).mpr ⟨read, account, ?_, hactive, ?_, rfl⟩
    · rw [sessionPart_append]
      exact hread.append _
    · rw [huser]
      exact List.mem_append_right _ (List.mem_singleton_self _)

/-- Calls that the specification leaves free. -/
def Free : Call → Prop
  | .session .now => True
  | .session _ => False
  | _ => True

theorem does_of_free {p : ProviderM α} (hp : p.Within Free) :
    p.Does (providerSpec.calls t) (fun _ _ => True) h := by
  refine hp.wp (fun h e he => ?_) fun _ _ _ _ _ => trivial
  cases e with
  | session e =>
    cases e with
    | now => trivial
    | _ => exact he.elim
  | _ => trivial

theorem free_createSession (user : AuthenticatedUser) :
    (createSession config user).Within Free := by
  have hmanager : (managerCreateSession config user.username).Within Free := by
    unfold managerCreateSession
    split_ifs
    · exact trivial
    · refine ⟨trivial, fun now => ⟨trivial, fun token => ⟨trivial, fun id => ?_⟩⟩⟩
      dsimp only
      split
      · exact trivial
      · refine ⟨trivial, fun reply => ?_⟩
        cases reply <;> exact trivial
  refine hmanager.bind fun r => ?_
  split <;> exact trivial

/-- Only validations return a validated session. -/
theorem wp_map_of_does {p : ProviderM α} (hp : p.Does (providerSpec.calls t) (fun _ _ => True) h)
    {f : α → Result} (hf : ∀ a info, f a ≠ .validated info) :
    (f <$> p).Wp (providerSpec.calls t) (providerSpec.result t) h := by
  refine (wp_map f p).mpr (Wp.mono hp fun r h _ info hr => ?_)
  cases r with
  | error e => cases hr
  | ok a => exact absurd (Except.ok.inj hr) (hf a info)

/-- **Every task keeps to the specification.** -/
theorem provider_meets (kind : StoreKind) (db : SessionStore.Columns) (policy : LockoutPolicy) :
    (system config kind db policy).Meets providerSpec := by
  intro t
  show (body config t).Wp (providerSpec.calls t) (providerSpec.result t) []
  cases t with
  | createSession user =>
      exact wp_map_of_does (does_of_free (free_createSession config user)) (by simp)
  | validateSession token =>
    refine (wp_map _ _).mpr (Wp.mono (does_validateSession' config token) fun r h hr info heq => ?_)
    cases r with
    | error e => cases heq
    | ok info' =>
      obtain rfl := Result.validated.inj (Except.ok.inj heq)
      exact hr info' rfl
  | invalidateSession token =>
    refine wp_map_of_does ?_ (by simp)
    unfold invalidateSession
    rw [does_bind]
    refine (does_acceptedSession config token).mono fun session h' _ => ?_
    rw [does_bind]
    refine (does_ofSession (does_terminateSession session.id)).mono fun r h' _ => ?_
    cases r with
    | error e => exact (does_fail _).mpr trivial
    | ok a => exact (does_pure _).mpr trivial
  | terminateAllSessionsForUser userId =>
    refine wp_map_of_does ?_ (by simp)
    unfold terminateAllSessionsForUser
    rw [does_bind]
    refine (does_ofSession (does_terminateUserSessions userId none)).mono fun r h' _ => ?_
    cases r with
    | error e => exact (does_fail _).mpr trivial
    | ok a => exact (does_pure _).mpr trivial
  | recordFailedAttempt username =>
    have hfree : (recordFailedAttempt username).Within Free := by
      refine ⟨trivial, fun now => ⟨trivial, fun reply => ?_⟩⟩
      cases reply with
      | ok outcome => exact trivial
      | error e => cases e <;> exact trivial
    exact wp_map_of_does (does_of_free hfree) (by simp)
  | resetFailedAttempts username =>
    have hfree : (await (.resetFailedAttempts username)).Within Free := ⟨trivial, fun _ => trivial⟩
    exact wp_map_of_does (does_of_free hfree) (by simp)
  | unlockAccount username =>
    have hfree : (unlockAccount username).Within Free :=
      ⟨trivial, fun _ => ⟨trivial, fun _ => trivial⟩⟩
    exact wp_map_of_does (does_of_free hfree) (by simp)
  | setUserStatus id status =>
    have hfree : (setUserStatus id status).Within Free := by
      refine ⟨trivial, fun reply => ?_⟩
      cases reply <;> exact trivial
    exact wp_map_of_does (does_of_free hfree) (by simp)

end

/-! ### What the calls do to the sessions -/

section

variable {kind : StoreKind} {s : Sessions} {session row row' : Session}

/-- The rows after an update. -/
theorem rows_update (h : row' ∈ (Sessions.update s kind session).rows) :
    row' ∈ s.rows ∨ row'.status = session.status ∧ (kind = .inMemory ∧ row' = session ∨
      kind = .database ∧ ∃ row ∈ s.rows, row.id = session.id ∧ row'.userId = row.userId) := by
  have hput (h : row' ∈ (s.put session).rows) : row' ∈ s.rows ∨ row' = session := by
    rcases List.mem_append.mp h with h | h
    · exact .inl (List.mem_filter.mp h).1
    · exact .inr (List.mem_singleton.mp h)
  cases kind with
  | inMemory =>
    have hcases : row' ∈ s.rows ∨ row' = session := by
      simp only [Sessions.update] at h
      split at h
      · split_ifs at h
        · exact .inl h
        · exact hput h
      · exact hput h
    rcases hcases with h | rfl
    · exact .inl h
    · exact .inr ⟨rfl, .inl ⟨rfl, rfl⟩⟩
  | database =>
    obtain ⟨old, hold, rfl⟩ := mem_updateWhere.mp h
    split_ifs with hp
    · rw [Bool.and_eq_true, decide_eq_true_eq] at hp
      exact .inr ⟨rfl, .inr ⟨rfl, old, hold, hp.1, rfl⟩⟩
    · exact .inl hold

theorem kept_update (hrow : row ∈ s.rows) :
    ∃ row' ∈ (Sessions.update s .database session).rows,
      row'.id = row.id ∧ row'.userId = row.userId := by
  refine ⟨_, mem_updateWhere.mpr ⟨row, hrow, rfl⟩, ?_⟩
  split_ifs <;> exact ⟨rfl, rfl⟩

variable {db : SessionStore.Columns} {maxConcurrent : ℕ}

theorem userId_rowOf (h : SessionStore.rowOf db session = some row) :
    row.userId = session.userId := by
  unfold SessionStore.rowOf at h
  simp only [Option.bind_eq_bind, Option.bind_eq_some_iff, Option.pure_def] at h
  obtain ⟨_, -, _, -, _, -, _, -, _, -, _, -, _, -, h⟩ := h
  obtain rfl := Option.some.inj h
  rfl

/-- The rows after an insertion. -/
theorem rows_insertSession (db : SessionStore.Columns) (session : Session) (s : Sessions) :
    (SessionStore.insertSession db session s).2 = s ∨
    ∃ row, row.userId = session.userId ∧
      (SessionStore.insertSession db session s).2.rows = s.rows ++ [row] := by
  unfold SessionStore.insertSession
  cases hrow : SessionStore.rowOf db session with
  | none => exact .inl rfl
  | some row =>
    dsimp only
    split_ifs
    · exact .inl rfl
    · exact .inl rfl
    · split
      · exact .inl rfl
      · rename_i s' hinsert
        exact .inr ⟨row, userId_rowOf hrow, (Keyed.rows_of_insert? hinsert).2⟩

/-- The rows after a creation. -/
theorem rows_createIn (h : row' ∈ (createIn kind db session maxConcurrent s).2.rows) :
    row' ∈ s.rows ∨ row'.userId = session.userId := by
  cases kind with
  | inMemory =>
    simp only [createIn, SessionStore.createInMemory] at h
    split_ifs at h
    · exact .inl h
    · rcases List.mem_append.mp h with h | h
      · exact .inl (List.mem_filter.mp h).1
      · rw [List.mem_singleton.mp h]
        exact .inr rfl
  | database =>
    simp only [createIn, SessionStore.createInDatabase] at h
    split_ifs at h
    · exact .inl h
    · rcases rows_insertSession db session s with hsame | ⟨new, huser, hrows⟩
      · rw [hsame] at h
        exact .inl h
      · rw [hrows] at h
        rcases List.mem_append.mp h with h | h
        · exact .inl h
        · rw [List.mem_singleton.mp h]
          exact .inr huser

theorem kept_createIn (hrow : row ∈ s.rows) :
    row ∈ (createIn .database db session maxConcurrent s).2.rows := by
  simp only [createIn, SessionStore.createInDatabase]
  split_ifs
  · exact hrow
  · rcases rows_insertSession db session s with hsame | ⟨new, -, hrows⟩
    · rw [hsame]
      exact hrow
    · rw [hrows]
      exact List.mem_append_left _ hrow

end

/-! ### What the calls do to the accounts -/

section

variable {c : Choice} {s : Store} {username : String}

@[simp] theorem sessions_reply {α : Type} (r : Except AuthError α × Keyed UserRow.username) :
    (c.reply s r).2.sessions = s.sessions := by
  unfold Choice.reply
  split
  · rfl
  · dsimp only
    split_ifs <;> rfl

theorem users_reply {α : Type} (r : Except AuthError α × Keyed UserRow.username) :
    (c.reply s r).2.users = r.2 ∨ (c.reply s r).2.users = s.users := by
  unfold Choice.reply
  split
  · exact .inl rfl
  · dsimp only
    split_ifs
    · exact .inl rfl
    · exact .inr rfl

theorem users_reply_self {α : Type} (r : Except AuthError α) :
    (c.reply s (r, s.users)).2.users = s.users := by
  rcases users_reply (c := c) (s := s) (r, s.users) with h | h <;> exact h

/-- An account that is not active after a statement was not active before, or the statement changed
it. -/
theorem notActive_of_modify {p : UserRow → Bool} {f : UserRow → UserRow}
    {hf : ∀ row, (f row).username = row.username} {α : Type} {r : Except AuthError α}
    (h : NotActive (c.reply s (r, s.users.modify p f hf)).2 username) :
    NotActive s username ∨ ∃ row, s.users.get username = some row ∧ row.status = .Active ∧
      p row = true ∧ (f row).status ≠ .Active := by
  obtain ⟨row', hget, hstatus⟩ := h
  rcases users_reply (c := c) (s := s) (r, s.users.modify p f hf) with hsame | hsame
  · rw [hsame, Keyed.get_modify] at hget
    obtain ⟨row, hrow, rfl⟩ := Option.map_eq_some_iff.mp hget
    by_cases hactive : row.status = .Active
    · split_ifs at hstatus with hp
      · exact .inr ⟨row, hrow, hactive, hp, hstatus⟩
      · exact absurd hactive hstatus
    · exact .inl ⟨row, hrow, hactive⟩
  · rw [hsame] at hget
    exact .inl ⟨row', hget, hstatus⟩

end

/-! ### Runs -/

/-- What holds in every state: an account that is not active is idle, the table still has every
session that was read, and accounts are found by their names. -/
structure Inv (kind : StoreKind) (w : ProviderWorld) : Prop where
  idle : ∀ username, NotActive w.store username → Idle w username
  known : kind = .database → ∀ i token session,
    .call i (.session (.getByToken token)) (.ok (some session)) ∈ w.log →
    ∃ row ∈ w.store.sessions.rows, row.id = session.id ∧ row.userId = session.userId
  named : ∀ i username account,
    .call i (.findByUsername username) (.ok (some account)) ∈ w.log → account.username = username

section

variable {config : SessionConfig} {kind : StoreKind} {db : SessionStore.Columns}
variable {policy : LockoutPolicy} {w : ProviderWorld} {i n : ℕ} {t : Task} {c : Choice}

theorem after_eq (e : Call) : (system config kind db policy).after i n e c w =
    ⟨(exec kind db policy e c w.store).2,
      w.log ++ [.call i e (exec kind db policy e c w.store).1]⟩ :=
  rfl

/-- What a task has read is in the log. -/
theorem sessionRead_iff {w : ProviderWorld} {j : ℕ} {session : Session} :
    SessionRead (sessionPart (w.history j)) session ↔
      ∃ token, .call j (.session (.getByToken token)) (.ok (some session)) ∈ w.log := by
  refine exists_congr fun token => ?_
  rw [← World.mem_history, sessionPart, List.mem_filterMap]
  constructor
  · rintro ⟨⟨e, r⟩, hstep, heq⟩
    split at heq
    · rename_i e' r' hstep'
      obtain ⟨rfl, hr⟩ := Sigma.mk.inj (Option.some.inj heq)
      obtain rfl := eq_of_heq hr
      rw [hstep'] at hstep
      exact hstep
    · cases heq
  · exact fun hmem => ⟨_, hmem, rfl⟩

/-- What a task reads by its token is in the store. -/
theorem mem_of_read {token : String} {session : Session} {s : Sessions}
    {c : Session.Choice} (h : (Session.exec kind (.getByToken token) c s).1 = .ok (some session)) :
    session ∈ s.rows := by
  simp only [Session.exec, Session.Choice.reply] at h
  split at h
  · exact Session.mem_of_getByToken (Except.ok.inj h)
  · cases h

/-- An account stays idle if its sessions stay inactive. -/
theorem Idle.after {e : Call} {username : String} (h : Idle w username)
    (hrows : ∀ session ∈ (exec kind db policy e c w.store).2.sessions.rows,
      session.userId = username → session.status ≠ .Active) :
    Idle ((system config kind db policy).after i n e c w) username where
  rows := hrows
  reads j session hended hread huser := by
    rw [System.ended_after] at hended
    obtain ⟨token, hmem⟩ := sessionRead_iff.mp hread
    rcases (System.call_mem_after _).mp hmem with hmem | hmem
    · exact h.reads j session hended (sessionRead_iff.mpr ⟨token, hmem⟩) huser
    · obtain ⟨-, rfl, hreply⟩ := Event.call.inj hmem
      exact h.rows session (mem_of_read (eq_of_heq hreply).symm) huser

/-- A write of the session manager leaves the account idle. -/
theorem rows_after_session {e : Session.Call} {username : String} (hinv : Inv kind w)
    (h : Idle w username) (hrun : w.Running i t)
    (hcalls : sessionCalls (sessionPart (w.history i)) e) :
    ∀ session ∈ (Session.exec kind e c.session w.store.sessions).2.rows,
      session.userId = username → session.status ≠ .Active := by
  have hsame (s : Sessions) (hs : s = w.store.sessions) : ∀ session ∈ s.rows,
      session.userId = username → session.status ≠ .Active := by
    subst hs
    exact h.rows
  have hread {α : Type} (a : α) : ∀ session ∈ (c.session.reply w.store.sessions
      (a, w.store.sessions)).2.rows, session.userId = username → session.status ≠ .Active := by
    refine hsame _ ?_
    unfold Session.Choice.reply
    split
    · rfl
    · exact ite_self _
  cases e with
  | update new =>
    intro row' hrow' huser hactive
    have hcases : row' ∈ (Sessions.update w.store.sessions kind new).rows ∨
        row' ∈ w.store.sessions.rows := by
      simp only [Session.exec, Session.Choice.reply] at hrow'
      split at hrow'
      · exact .inl hrow'
      · split_ifs at hrow'
        · exact .inl hrow'
        · exact .inr hrow'
    have hold := h.rows row'
    rcases hcases with hrow' | hrow'
    · rcases rows_update hrow' with hrow' | ⟨hstatus, hwrite⟩
      · exact hold hrow' huser hactive
      · -- the session that was read as active is of the same account
        obtain ⟨read, hread, hreadActive, hid, huserId⟩ := hcalls (hstatus ▸ hactive)
        have hne : read.userId ≠ username := fun heq =>
          h.reads i read hrun.not_ended hread heq hreadActive
        rcases hwrite with ⟨-, rfl⟩ | ⟨rfl, row, hrow, hrowId, hrowUser⟩
        · exact hne (huserId.trans huser)
        · obtain ⟨token, hmem⟩ := sessionRead_iff.mp hread
          obtain ⟨known, hknown, hknownId, hknownUser⟩ := hinv.known rfl i token read hmem
          have heq : known = row := w.store.sessions.eq_of_key hknown hrow
            (hknownId.trans (hid.trans hrowId.symm))
          rw [heq, ← hrowUser, huser] at hknownUser
          exact hne hknownUser.symm
    · exact hold hrow' huser hactive
  | deleteExpired => exact hcalls.elim
  | lockIdle idleBefore => exact hcalls.elim
  | getByToken token => exact hread _
  | getById id => exact hread _
  | listActiveForUser userId => exact hread _
  | now => exact h.rows
  | audit event => exact h.rows

/-- The account of a statement that changes statuses is idle. -/
theorem idle_after {e : Call} {username : String} (hinv : Inv kind w) (hrun : w.Running i t)
    (hcalls : providerSpec.calls t (w.history i) e)
    (hends : EndsFirst policy w (.call i e (exec kind db policy e c w.store).1))
    (h : NotActive (exec kind db policy e c w.store).2 username) :
    Idle ((system config kind db policy).after i n e c w) username := by
  have hkeeps (hidle : Idle w username)
      (hs : (exec kind db policy e c w.store).2.sessions = w.store.sessions) :
      Idle ((system config kind db policy).after i n e c w) username := by
    refine hidle.after ?_
    rw [hs]
    exact hidle.rows
  cases e with
  | session e =>
    have hidle := hinv.idle username h
    exact hidle.after (rows_after_session hinv hidle hrun hcalls)
  | generateToken => exact hkeeps (hinv.idle username h) rfl
  | newId => exact hkeeps (hinv.idle username h) rfl
  | auditUnlocked subject => exact hkeeps (hinv.idle username h) rfl
  | create session maxConcurrent =>
    have hcreate : (exec kind db policy (.create session maxConcurrent) c w.store).2.users =
        w.store.users ∧ ∀ row' ∈ (exec kind db policy (.create session maxConcurrent) c
          w.store).2.sessions.rows, row' ∈ w.store.sessions.rows ∨
            row'.userId = session.userId := by
      simp only [exec]
      split
      · exact ⟨rfl, fun row' hrow' => rows_createIn hrow'⟩
      · dsimp only
        split_ifs
        · exact ⟨rfl, fun row' hrow' => rows_createIn hrow'⟩
        · exact ⟨rfl, fun row' hrow' => .inl hrow'⟩
    have hbefore : NotActive w.store username := by
      unfold NotActive at h
      rw [hcreate.1] at h
      exact h
    have hidle := hinv.idle username hbefore
    refine hidle.after fun row' hrow' huser => ?_
    rcases hcreate.2 row' hrow' with hrow' | hrow'
    · exact hidle.rows row' hrow' huser
    · refine absurd ?_ hends
      rw [← hrow', huser]
      exact hbefore
  | findByUsername name =>
    refine hkeeps (hinv.idle username ?_) (sessions_reply _)
    obtain ⟨row, hget, hstatus⟩ := h
    have husers : (exec kind db policy (.findByUsername name) c w.store).2.users = w.store.users :=
      users_reply_self _
    exact ⟨row, husers ▸ hget, hstatus⟩
  | recordFailedAttempt name now =>
    refine hkeeps ?_ (sessions_reply _)
    rcases notActive_of_modify h with hbefore | ⟨row, hget, hactive, hname, hstatus⟩
    · exact hinv.idle username hbefore
    · have heq : username = name := by
        rw [← (Keyed.mem_of_get hget).2]
        exact of_decide_eq_true hname
      subst heq
      exact hends row hget hactive hstatus
  | resetFailedAttempts name =>
    refine hkeeps ?_ (sessions_reply _)
    rcases notActive_of_modify h with hbefore | ⟨row, -, hactive, -, hstatus⟩
    · exact hinv.idle username hbefore
    · exact absurd hactive hstatus
  | unlockAccount name =>
    refine hkeeps ?_ (sessions_reply _)
    rcases notActive_of_modify h with hbefore | ⟨row, -, hactive, -, hstatus⟩
    · exact hinv.idle username hbefore
    · refine absurd ?_ hstatus
      show (if row.status = .Locked then AccountStatus.Active else row.status) = .Active
      rw [hactive]
      rfl
  | setUserStatus id status =>
    refine hkeeps ?_ (sessions_reply _)
    rcases notActive_of_modify h with hbefore | ⟨row, hget, hactive, hid, hstatus⟩
    · exact hinv.idle username hbefore
    · obtain ⟨hrow, hname⟩ := Keyed.mem_of_get hget
      rw [← hname]
      exact hends row hrow (of_decide_eq_true hid) hactive hstatus

/-- The table keeps its sessions. -/
theorem known_after {e : Call} {row : Session} (hcalls : providerSpec.calls t (w.history i) e)
    (hrow : row ∈ w.store.sessions.rows) :
    ∃ row' ∈ (exec .database db policy e c w.store).2.sessions.rows,
      row'.id = row.id ∧ row'.userId = row.userId := by
  have hsame {s : Store} (hs : s.sessions = w.store.sessions) :
      ∃ row' ∈ s.sessions.rows, row'.id = row.id ∧ row'.userId = row.userId := by
    rw [hs]
    exact ⟨row, hrow, rfl, rfl⟩
  have hread {α : Type} (a : α) : ∃ row' ∈ (c.session.reply w.store.sessions
      (a, w.store.sessions)).2.rows, row'.id = row.id ∧ row'.userId = row.userId := by
    unfold Session.Choice.reply
    split
    · exact ⟨row, hrow, rfl, rfl⟩
    · rw [ite_self]
      exact ⟨row, hrow, rfl, rfl⟩
  cases e with
  | session e =>
    cases e with
    | update new =>
      simp only [exec, Session.exec, Session.Choice.reply]
      split
      · exact kept_update hrow
      · dsimp only
        split_ifs
        · exact kept_update hrow
        · exact ⟨row, hrow, rfl, rfl⟩
    | deleteExpired => exact hcalls.elim
    | lockIdle idleBefore => exact hcalls.elim
    | getByToken token => exact hread _
    | getById id => exact hread _
    | listActiveForUser userId => exact hread _
    | now => exact ⟨row, hrow, rfl, rfl⟩
    | audit event => exact ⟨row, hrow, rfl, rfl⟩
  | create session maxConcurrent =>
    simp only [exec]
    split
    · exact ⟨row, kept_createIn hrow, rfl, rfl⟩
    · dsimp only
      split_ifs
      · exact ⟨row, kept_createIn hrow, rfl, rfl⟩
      · exact ⟨row, hrow, rfl, rfl⟩
  | generateToken => exact hsame rfl
  | newId => exact hsame rfl
  | auditUnlocked subject => exact hsame rfl
  | findByUsername name => exact hsame (sessions_reply _)
  | recordFailedAttempt name now => exact hsame (sessions_reply _)
  | resetFailedAttempts name => exact hsame (sessions_reply _)
  | unlockAccount name => exact hsame (sessions_reply _)
  | setUserStatus id status => exact hsame (sessions_reply _)

/-- An account is found by its name. -/
theorem username_of_found {username : String} {account : UserAccount}
    (h : (exec kind db policy (.findByUsername username) c w.store).1 = .ok (some account)) :
    account.username = username := by
  simp only [exec, Choice.reply] at h
  split at h
  · cases hget : w.store.users.get username with
    | none =>
      rw [hget] at h
      cases Except.ok.inj h
    | some row =>
      rw [hget] at h
      simp only [UserRow.intoAccount] at h
      split at h
      · cases h
      · obtain rfl := Option.some.inj (Except.ok.inj h)
        exact (Keyed.mem_of_get hget).2
  · cases h

theorem Inv.add {ev : ProviderEvent} (h : Inv kind w) (hev : ∀ i e r, ev ≠ .call i e r) :
    Inv kind (w.add [ev]) := by
  have hmem {j : ℕ} {e : Call} {r : Reply e} (hmem : .call j e r ∈ (w.add [ev]).log) :
      .call j e r ∈ w.log := by
    rcases List.mem_append.mp hmem with hmem | hmem
    · exact hmem
    · exact absurd (List.mem_singleton.mp hmem).symm (hev _ _ _)
  constructor
  · intro username hnot
    have hidle := h.idle username hnot
    refine ⟨hidle.rows, fun j session hended hread huser => ?_⟩
    obtain ⟨token, hlog⟩ := sessionRead_iff.mp hread
    refine hidle.reads j session (fun hend => hended ?_)
      (sessionRead_iff.mpr ⟨token, hmem hlog⟩) huser
    exact hend.imp (fun ⟨r, hr⟩ => ⟨r, List.mem_append_left _ hr⟩) (List.mem_append_left _)
  · exact fun hkind j token session hlog => h.known hkind j token session (hmem hlog)
  · exact fun j username account hlog => h.named j username account (hmem hlog)

theorem inv_preserved :
    (system config kind db policy).Preserves providerSpec (EndsFirst policy) (fun _ => True)
      (Inv kind) := by
  refine .of_call (fun w ev hev h => h.add hev) ?_
  intro w i n t e c hwf _ h hrun hcalls hends
  constructor
  · exact fun username hnot => idle_after h hrun hcalls hends hnot
  · rintro rfl j token session hmem
    have hkept {row : Session} (hrow : row ∈ w.store.sessions.rows) :
        ∃ row' ∈ (exec .database db policy e c w.store).2.sessions.rows,
          row'.id = row.id ∧ row'.userId = row.userId := known_after hcalls hrow
    rcases (System.call_mem_after _).mp hmem with hmem | hmem
    · obtain ⟨row, hrow, hid, huser⟩ := h.known rfl j token session hmem
      obtain ⟨row', hrow', hid', huser'⟩ := hkept hrow
      exact ⟨row', hrow', hid'.trans hid, huser'.trans huser⟩
    · obtain ⟨-, rfl, hreply⟩ := Event.call.inj hmem
      exact hkept (mem_of_read (eq_of_heq hreply).symm)
  · intro j username account hmem
    rcases (System.call_mem_after _).mp hmem with hmem | hmem
    · exact h.named j username account hmem
    · obtain ⟨-, rfl, hreply⟩ := Event.call.inj hmem
      have hfound : (exec kind db policy (.findByUsername username) c w.store).1 =
        .ok (some account) := (eq_of_heq hreply).symm
      exact username_of_found hfound

end

/-- **An account that is not active has no access**, in every run in which accounts are idle when
their status changes from active and no session is created for an account that is not active. -/
theorem loses_access (config : SessionConfig) (kind : StoreKind) (db : SessionStore.Columns)
    (policy : LockoutPolicy) (store : Store)
    (hstore : ∀ username, NotActive store username → ∀ session ∈ store.sessions.rows,
      session.userId = username → session.status ≠ .Active)
    {cfg next : ProviderState} {a : Action Task Choice} {i : ℕ} {info : SessionInfo}
    (hreach : (system config kind db policy).Reach (EndsFirst policy) (System.initial store) cfg)
    (hstep : (system config kind db policy).step cfg a =
      some (.finish i (.ok (.validated info)), next)) :
    ¬NotActive cfg.world.store info.user.username := by
  have hinit : Inv kind ⟨store, []⟩ := by
    refine ⟨fun username hnot => ⟨hstore username hnot, fun j session _ hread => ?_⟩,
      fun _ _ _ _ hmem => absurd hmem List.not_mem_nil,
      fun _ _ _ hmem => absurd hmem List.not_mem_nil⟩
    obtain ⟨token, hmem⟩ := sessionRead_iff.mp hread
    exact absurd hmem List.not_mem_nil
  intro hnot
  obtain ⟨hgood, hinv⟩ := inv_preserved.reach (provider_meets config kind db policy) hinit hreach
  obtain ⟨t, hrun, hresult⟩ := System.Good.finish_step hgood hstep
  obtain ⟨read, account, hread, hactive, hfound, huser⟩ := hresult info rfl
  have hname : account.username = read.userId :=
    hinv.named i read.userId account (World.mem_history.mp hfound)
  rw [huser, hname] at hnot
  exact (hinv.idle read.userId hnot).reads i read hrun.not_ended hread rfl hactive

/-! ### An instance -/

namespace Instance

open System

def config : SessionConfig where
  inactivityTimeoutSecs := 900
  absoluteTimeoutSecs := 28800
  lockOnInactivity := true
  maxConcurrentSessions := 3

def policy : LockoutPolicy where
  maxAttempts := 5
  lockoutSecs := 1800
  permanentAfter := none

/-- The columns keep every value. -/
def columns : SessionStore.Columns where
  text := some
  varchar _ := some
  timestamptz := some
  jsonb := some

def user (bits : BitVec 128) (username : String) : UserRow where
  id := ⟨bits⟩
  username := username
  passwordHash := none
  roles := ["auditor"]
  status := .Active
  lockedUntil := none
  failedAttempts := 0
  lockoutCount := 0

/-- Two active accounts without sessions. -/
def store : Store where
  users := ⟨[user 1 "alice", user 2 "bob"], by decide⟩
  sessions := .empty _

def alice : AuthenticatedUser where
  id := ⟨1⟩
  username := "alice"
  roles := [.Auditor]
  certificateSubject := none

/-- The session that validates. -/
def info : SessionInfo where
  token := "token"
  user := alice
  expiresAt := 28800
  isValid := true

def choice : Choice where
  session := ⟨none, .ofMicros 0, fun _ => .ofMicros 0, 0⟩
  token := "token"
  id := .nil
  fault := none

/-- Task `i` arrives and makes `n` steps. -/
def steps (i n : ℕ) (t : Task) : List (Action Task Choice) :=
  .arrive t :: List.replicate n (.run i choice)

abbrev sys := system config .database columns policy

/-- The account is there with this status. -/
def hasStatus (username : String) (status : AccountStatus) (s : Store) : Bool :=
  (s.users.get username).any (·.status = status)

theorem notActive_of_hasStatus {username : String} {s : Store}
    (h : hasStatus username .Disabled s = true) : NotActive s username := by
  obtain ⟨row, hget, hstatus⟩ := (Option.any_eq_true _ _).mp h
  refine ⟨row, hget, ?_⟩
  rw [of_decide_eq_true hstatus]
  decide

/-- The next step of task `i` ends it with `info`. -/
def validates (i : ℕ) (cfg : ProviderState) : Bool :=
  match sys.step cfg (.run i choice) with
  | some (.finish j (.ok (.validated result)), _) => j = i && result = info
  | _ => false

theorem step_of_validates {i : ℕ} {cfg : ProviderState} (h : validates i cfg = true) :
    ∃ next, sys.step cfg (.run i choice) = some (.finish i (.ok (.validated info)), next) := by
  unfold validates at h
  split at h
  · rename_i j result next hstep
    rw [Bool.and_eq_true, decide_eq_true_eq, decide_eq_true_eq] at h
    rw [hstep, h.1, h.2]
    exact ⟨next, rfl⟩
  · cases h

/-- Task 2 has not started. -/
def notStarted : ProviderEvent → Bool
  | .start i _ _ => i ≠ 2
  | _ => true

/-- The account is disabled while it has a session, and a validation that starts afterwards accepts
the session. -/
theorem keeps_access : ∃ mid cfg next,
    sys.Reach (fun _ _ => True) (initial store) mid ∧ NotActive mid.world.store "alice" ∧
    (∀ t parent, .start 2 t parent ∉ mid.world.log) ∧
    sys.Reach (fun w _ => NotActive w.store "alice") mid cfg ∧
    sys.step cfg (.run 2 choice) = some (.finish 2 (.ok (.validated info)), next) := by
  let before := steps 0 5 (.createSession alice) ++ steps 1 2 (.setUserStatus ⟨1⟩ .Disabled)
  have hmid : (sys.run (fun _ _ => true) before (initial store)).map (fun mid =>
      (hasStatus "alice" .Disabled mid.world.store, mid.world.log.all notStarted)) =
        some (true, true) := by decide +kernel
  have hcfg : ((sys.run (fun _ _ => true) before (initial store)).bind fun mid =>
      (sys.run (fun w _ => hasStatus "alice" .Disabled w.store)
        (steps 2 5 (.validateSession "token")) mid).map (validates 2)) = some true := by
    decide +kernel
  obtain ⟨mid, hrun, hvalue⟩ := Option.map_eq_some_iff.mp hmid
  obtain ⟨hstatus, hlog⟩ := Prod.mk.inj hvalue
  rw [hrun] at hcfg
  obtain ⟨cfg, hrun', hvalid⟩ := Option.map_eq_some_iff.mp hcfg
  obtain ⟨next, hstep⟩ := step_of_validates hvalid
  refine ⟨mid, cfg, next, reach_of_run (fun _ _ _ => trivial) _ hrun,
    notActive_of_hasStatus hstatus, fun t parent hmem => ?_,
    reach_of_run (fun _ _ h => notActive_of_hasStatus h) _ hrun', hstep⟩
  exact absurd (List.all_eq_true.mp hlog _ hmem) (by simp [notStarted])

/-- A check that is enough for `EndsFirst`: statuses change before any session is read. -/
def endsFirst (w : ProviderWorld) : ProviderEvent → Bool
  | .call _ (.setUserStatus id _) _ =>
    (w.store.users.rows.all fun row => row.id ≠ id || w.store.sessions.rows.all fun session =>
      session.userId ≠ row.username || session.status ≠ .Active) &&
    w.log.all fun
      | .call _ (.session (.getByToken _)) _ => false
      | _ => true
  | .call _ (.recordFailedAttempt ..) _ => false
  | .call _ (.create session _) _ => (w.store.users.get session.userId).all (·.status = .Active)
  | _ => true

theorem endsFirst_sound {w : ProviderWorld} {ev : ProviderEvent} (h : endsFirst w ev = true) :
    EndsFirst policy w ev := by
  unfold endsFirst at h
  split at h
  · rw [Bool.and_eq_true] at h
    intro row hrow hid _ _
    constructor
    · intro session hsession huser
      have hall : ∀ session ∈ w.store.sessions.rows,
          session.userId ≠ row.username ∨ session.status ≠ .Active := by
        simpa [hid] using List.all_eq_true.mp h.1 row hrow
      exact (hall session hsession).resolve_left (not_not.mpr huser)
    · intro j session _ hread
      obtain ⟨token, hmem⟩ := sessionRead_iff.mp hread
      cases List.all_eq_true.mp h.2 _ hmem
  · cases h
  · rintro ⟨row, hget, hstatus⟩
    rw [hget, Option.all_some, decide_eq_true_eq] at h
    exact hstatus h
  · rename_i hset hrecord hcreate
    unfold EndsFirst
    split
    · exact (hset _ _ _ _ rfl).elim
    · exact (hrecord _ _ _ _ rfl).elim
    · exact (hcreate _ _ _ _ rfl).elim
    · trivial

/-- One account is disabled before it has a session; the other one signs in. -/
theorem loses_access_bob : ∃ cfg next,
    sys.Reach (EndsFirst policy) (initial store) cfg ∧
    sys.step cfg (.run 2 choice) = some (.finish 2 (.ok (.validated info)), next) ∧
    NotActive cfg.world.store "bob" ∧ ¬NotActive cfg.world.store "alice" := by
  have hcfg : (sys.run endsFirst (steps 0 2 (.setUserStatus ⟨2⟩ .Disabled) ++
      steps 1 5 (.createSession alice) ++ steps 2 5 (.validateSession "token"))
        (initial store)).map (fun cfg => (validates 2 cfg,
          hasStatus "bob" .Disabled cfg.world.store)) = some (true, true) := by decide +kernel
  obtain ⟨cfg, hrun, hvalue⟩ := Option.map_eq_some_iff.mp hcfg
  obtain ⟨hvalid, hbob⟩ := Prod.mk.inj hvalue
  obtain ⟨next, hstep⟩ := step_of_validates hvalid
  have hreach := reach_of_run (fun _ _ h => endsFirst_sound h) _ hrun
  exact ⟨cfg, next, hreach, hstep, notActive_of_hasStatus hbob,
    loses_access config .database columns policy store
      (fun _ _ _ hmem => absurd hmem List.not_mem_nil) hreach hstep⟩

end Instance

end Ostrich.Common.Provider
