import Ostrich.Common.Session

/-!
# A terminated session stays dead

Every operation of the session manager writes back a copy of a session that it read before, and the
reaper removes terminated sessions.  The table of the database does not take back a session that it
does not have; the map in memory does.

* `stays_dead`: with the database, in every run, and with the map in memory, in every run in which a
  copy of a terminated session that is not terminated is written back only while the session is
  still there, no validation that starts after a termination returns the session;
* `resurrected`: a run in which one does.
-/

namespace Ostrich.Common.Session

open Interleave Table

/-! ### The property -/

/-- The task terminates sessions. -/
def Task.terminates : Task → Bool
  | .terminateSession _ | .adminTerminateSession .. | .terminateUserSessions .. => true
  | _ => false

/-- No validation that starts after the state `next` returns the session. -/
def DeadAfter (id : Uuid) (next cfg : SessionState) : Prop :=
  ∀ i session, (∀ t parent, .start i t parent ∉ next.world.log) →
    .finish i (.ok (.session session)) ∈ cfg.world.log → session.id ≠ id

/-- Once a termination has completed its update, no later validation returns the session. -/
def StaysDead (config : SessionConfig) (kind : StoreKind)
    (allowed : SessionWorld → SessionEvent → Prop) (mid : SessionState) : Prop :=
  ∀ j t session a next, mid.world.Started j t → t.terminates = true →
    (system config kind).step mid a = some (.call j (.update session) (.ok ()), next) →
    allowed mid.world (.call j (.update session) (.ok ())) →
    ∀ cfg, (system config kind).Reach allowed next cfg → DeadAfter session.id next cfg

/-! ### The condition -/

/-- An update that terminates the session was made. -/
def TerminatedIn (w : SessionWorld) (id : Uuid) : Prop :=
  ∃ j session, .call j (.update session) (.ok ()) ∈ w.log ∧ session.id = id ∧
    session.status.terminal = true

/-- The map in memory still has the terminated session of which a copy that is not terminated is
written back. -/
def StillThere (kind : StoreKind) (w : SessionWorld) (ev : SessionEvent) : Prop :=
  kind = .inMemory → ∀ i session r, ev = .call i (.update session) r →
    session.status.terminal = false → TerminatedIn w session.id →
    ∃ row ∈ w.store.rows, row.id = session.id

/-! ### What the tasks do -/

/-- The calls and replies of a task. -/
abbrev Trace := History Call Reply

/-- The session was read. -/
inductive WasRead (h : Trace) (read : Session) : Prop
  | byToken (token : String) (hmem : ⟨.getByToken token, .ok (some read)⟩ ∈ h)
  | byId (id : Uuid) (hmem : ⟨.getById id, .ok (some read)⟩ ∈ h)

/-- The session was read, and it was active. -/
def ReadActive (h : Trace) (session : Session) : Prop :=
  ∃ read, read.id = session.id ∧ read.status = .Active ∧ WasRead h read

/-- Which calls a task makes. -/
def callSpec (t : Task) : Call → Prop
  | .update session => t.terminates = true → session.status.terminal = true
  | _ => True

/-- What the tasks do: terminations write terminated sessions, and validation returns sessions that
it read as active. -/
def sessionSpec : Spec Call Reply SessionError Result Task where
  calls := fun t _ => callSpec t
  result := fun _ r h => ∀ session, r = .ok (.session session) → ReadActive h session

section

variable {calls : Trace → Call → Prop} {h : Trace}

theorem does_await {e : Call} {result : Reply e → Trace → Prop} :
    (await e).Does calls result h ↔ calls h e ∧ ∀ r, result r (h ++ [⟨e, r⟩]) :=
  Prog.does_perform e

theorem does_update {session : Session} {result : Unit → Trace → Prop}
    (hcall : calls h (.update session))
    (hresult : result () (h ++ [⟨.update session, .ok ()⟩])) :
    (update session).Does calls result h := by
  unfold update
  rw [Prog.does_bind, does_await]
  refine ⟨hcall, fun r => (Prog.does_ofExcept r).mpr fun a hr => ?_⟩
  subst hr
  exact hresult

theorem does_found {reply : Except SessionError (Option Session)} {result : Session → Trace → Prop}
    (hresult : ∀ session, reply = .ok (some session) → result session h) :
    (found reply).Does calls result h := by
  unfold found
  split
  · exact (Prog.does_fail _).mpr trivial
  · exact (Prog.does_fail _).mpr trivial
  · rename_i session
    exact (Prog.does_pure _).mpr (hresult session rfl)

variable (hcalls : ∀ h e, calls h e) (config : SessionConfig)

include hcalls

/-- A session that passes is the one that was read. -/
theorem does_evaluateActive (session : Session) :
    (evaluateActive config session).Does calls
      (fun passed h' => passed.id = session.id ∧ ∃ new, h' = h ++ new) h := by
  unfold evaluateActive
  rw [Prog.does_bind, does_await]
  refine ⟨hcalls _ _, fun now => ?_⟩
  split
  · exact (Prog.does_fail _).mpr trivial
  · split_ifs
    · rw [Prog.does_bind]
      exact does_update (hcalls _ _) ((Prog.does_fail _).mpr trivial)
    · rw [Prog.does_bind]
      exact does_update (hcalls _ _) ((Prog.does_fail _).mpr trivial)
    · dsimp only
      rw [Prog.does_bind, does_await]
      refine ⟨hcalls _ _, fun now' => ?_⟩
      split_ifs
      · rw [Prog.does_bind, does_await]
        refine ⟨hcalls _ _, fun now'' => ?_⟩
        rw [Prog.does_bind]
        refine does_update (hcalls _ _) ((Prog.does_pure _).mpr ⟨rfl, ?_⟩)
        simp only [List.append_assoc]
        exact ⟨_, rfl⟩
      · refine (Prog.does_pure _).mpr ⟨rfl, ?_⟩
        rw [List.append_assoc]
        exact ⟨_, rfl⟩

/-- A session that passes was active when it was read. -/
theorem does_evaluate (session : Session) :
    (evaluate config session).Does calls (fun passed h' =>
      passed.id = session.id ∧ session.status = .Active ∧ ∃ new, h' = h ++ new) h := by
  unfold evaluate
  rw [Prog.does_bind, does_await]
  refine ⟨hcalls _ _, fun now => ?_⟩
  split_ifs
  · rw [Prog.does_bind]
    exact does_update (hcalls _ _) ((Prog.does_fail _).mpr trivial)
  · exact (Prog.does_fail _).mpr trivial
  · split
    · rename_i hactive
      refine (does_evaluateActive hcalls config session).mono fun passed h' hpassed => ?_
      obtain ⟨hid, new, rfl⟩ := hpassed
      rw [List.append_assoc]
      exact ⟨hid, hactive, _, rfl⟩
    all_goals exact (Prog.does_fail _).mpr trivial

/-- Validation returns a session that it read as active. -/
theorem does_validate {e : Call} (reply : Reply e → Except SessionError (Option Session))
    (hread : ∀ r read, reply r = .ok (some read) → ∀ new, WasRead ([⟨e, r⟩] ++ new) read) :
    (Prog.perform e >>= fun r => found (reply r) >>= evaluate config).Does calls
      (fun passed h' => ReadActive h' passed) [] := by
  rw [Prog.does_bind, Prog.does_perform]
  refine ⟨hcalls _ _, fun r => ?_⟩
  rw [Prog.does_bind]
  refine does_found fun read hr => ?_
  refine (does_evaluate hcalls config read).mono fun passed h' hpassed => ?_
  obtain ⟨hid, hactive, new, rfl⟩ := hpassed
  exact ⟨read, hid.symm, hactive, hread r read hr new⟩

end

/-- An operation on the session with an id. -/
theorem does_byId {calls : Trace → Call → Prop} {id : Uuid} {p : Session → SessionM Unit}
    (hget : calls [] (.getById id))
    (hp : ∀ session h, (p session).Does calls (fun _ _ => True) h) :
    (await (.getById id) >>= fun reply => found reply >>= p).Does calls (fun _ _ => True) [] := by
  rw [Prog.does_bind, does_await]
  refine ⟨hget, fun r => ?_⟩
  rw [Prog.does_bind]
  exact does_found fun session _ => hp session _

/-- A termination and its audit event. -/
theorem does_terminate {calls : Trace → Call → Prop} {session : Session} {event : SessionAuditEvent}
    {h : Trace} (hupdate : calls h (.update session))
    (haudit : calls (h ++ [⟨.update session, .ok ()⟩]) (.audit event)) :
    (update session >>= fun _ => await (.audit event)).Does calls (fun _ _ => True) h := by
  rw [Prog.does_bind]
  refine does_update hupdate ?_
  exact (Prog.does_perform _).mpr ⟨haudit, fun _ => trivial⟩

/-- Terminating a list of sessions writes terminated sessions. -/
theorem does_terminateAll {calls : Trace → Call → Prop}
    (hcalls : ∀ h session, session.status.terminal = true → calls h (.update session))
    (adminId : Option String) (sessions : List Session) (n : ℕ) (h : Trace) :
    (terminateAll adminId sessions n).Does calls (fun _ _ => True) h := by
  induction sessions generalizing n h with
  | nil => exact (Prog.does_pure _).mpr trivial
  | cons session rest ih =>
    unfold terminateAll
    split_ifs
    · rw [Prog.does_bind]
      exact does_update (hcalls _ _ rfl) (ih _ _)
    · rw [Prog.does_bind]
      exact does_update (hcalls _ _ rfl) (ih _ _)
    · exact ih _ _

/-- A task that returns no session. -/
theorem meets_of_does {t : Task} {α : Type} {p : SessionM α} {f : α → Result}
    (hf : ∀ a session, f a ≠ .session session)
    (hdoes : p.Does (fun _ => callSpec t) (fun _ _ => True) []) :
    (f <$> p).Wp (fun _ => callSpec t) (sessionSpec.result t) [] := by
  rw [Prog.wp_map]
  refine Prog.Wp.mono hdoes fun r h _ session hr => ?_
  cases r with
  | ok a => exact absurd (Except.ok.inj hr) (hf a session)
  | error e => cases hr

/-- **Every task keeps to the specification.** -/
theorem session_meets (config : SessionConfig) (kind : StoreKind) :
    (system config kind).Meets sessionSpec := by
  intro t
  have hquiet (hnot : t.terminates = false) (h : Trace) (e : Call) : callSpec t e := by
    cases e with
    | update session =>
      intro hterm
      rw [hnot] at hterm
      cases hterm
    | _ => trivial
  have hvalidate {p : SessionM Session}
      (hp : p.Does (fun _ => callSpec t) (fun passed h' => ReadActive h' passed) []) :
      (Result.session <$> p).Wp (fun _ => callSpec t) (sessionSpec.result t) [] := by
    rw [Prog.wp_map]
    refine Prog.Wp.mono hp fun r h hr session heq => ?_
    cases r with
    | ok a =>
      obtain rfl := Result.session.inj (Except.ok.inj heq)
      exact hr a rfl
    | error e => cases heq
  cases t with
  | validateSession token =>
    refine hvalidate (does_validate (hquiet rfl) config (e := .getByToken token) (fun r => r) ?_)
    exact fun r read hr new => .byToken token (hr ▸ List.mem_cons_self ..)
  | validateSessionById id =>
    refine hvalidate (does_validate (hquiet rfl) config (e := .getById id) (fun r => r) ?_)
    exact fun r read hr new => .byId id (hr ▸ List.mem_cons_self ..)
  | unlockSession id =>
    refine meets_of_does (by simp) (does_byId (hquiet rfl [] _) fun session h => ?_)
    split_ifs
    · exact (Prog.does_fail _).mpr trivial
    · rw [Prog.does_bind, does_await]
      exact ⟨trivial, fun now => does_update (hquiet rfl [] _) trivial⟩
  | terminateSession id =>
    exact meets_of_does (by simp) (does_byId trivial fun session h => does_terminate
      (fun _ => rfl) trivial)
  | adminTerminateSession id adminId =>
    exact meets_of_does (by simp) (does_byId trivial fun session h => does_terminate
      (fun _ => rfl) trivial)
  | terminateUserSessions userId adminId =>
    refine meets_of_does (by simp) ?_
    unfold terminateUserSessions
    rw [Prog.does_bind, does_await]
    refine ⟨trivial, fun reply => ?_⟩
    rw [Prog.does_bind, Prog.does_ofExcept]
    exact fun sessions _ => does_terminateAll (fun _ _ h _ => h) adminId sessions 0 _
  | cleanupExpired =>
    refine meets_of_does (by simp) ?_
    unfold cleanupExpired
    rw [Prog.does_bind]
    have hlock : (lockIdleSessions config).Does (fun _ => callSpec .cleanupExpired)
        (fun _ _ => True) [] := by
      unfold lockIdleSessions
      split_ifs
      · rw [Prog.does_bind, does_await]
        refine ⟨trivial, fun now => ?_⟩
        split
        · exact (Prog.does_fail _).mpr trivial
        · rw [Prog.does_bind, does_await]
          exact ⟨trivial, fun _ => (Prog.does_pure _).mpr trivial⟩
      · exact (Prog.does_pure _).mpr trivial
    refine hlock.mono fun _ h _ => ?_
    rw [Prog.does_bind, does_await]
    exact ⟨trivial, fun r => (Prog.does_ofExcept r).mpr fun _ _ => trivial⟩

/-! ### Stores -/

/-- The store has the session only as terminated. -/
def Dead (id : Uuid) (s : Sessions) : Prop :=
  ∀ row ∈ s.rows, row.id = id → row.status.terminal = true

section

variable {id : Uuid} {s : Sessions}

theorem Dead.retain (h : Dead id s) (p : Session → Bool) : Dead id (s.retain p) :=
  fun row hrow => h row (List.mem_filter.mp hrow).1

theorem Dead.put (h : Dead id s) {session : Session}
    (hsession : session.id = id → session.status.terminal = true) : Dead id (s.put session) := by
  intro row hrow hid
  rcases List.mem_append.mp hrow with hrow | hrow
  · exact h row (List.mem_filter.mp hrow).1 hid
  · rw [List.mem_singleton.mp hrow] at hid ⊢
    exact hsession hid

theorem Dead.modify (h : Dead id s) {p : Session → Bool} (f : Session → Session)
    (hf : ∀ s, (f s).id = s.id)
    (hp : ∀ row, p row = true → row.id = id → row.status.terminal = true →
      (f row).status.terminal = true) : Dead id (s.modify p f hf) := by
  intro row hrow hid
  obtain ⟨old, hold, rfl⟩ := mem_updateWhere.mp hrow
  split_ifs at hid ⊢ with hpold
  · rw [hf] at hid
    exact hp old hpold hid (h old hold hid)
  · exact h old hold hid

theorem Dead.lockIdle (h : Dead id s) (kind : StoreKind) (idleBefore : DateTime) :
    Dead id (Sessions.lockIdle s kind idleBefore) := by
  refine h.modify lock (fun _ => rfl) fun row hp _ hterm => ?_
  simp only [Bool.and_eq_true, decide_eq_true_eq] at hp
  rw [hp.1] at hterm
  cases hterm

theorem mem_of_getByToken {pick : ℕ} {token : String} {session : Session}
    (h : Sessions.getByToken s pick token = some session) : session ∈ s.rows :=
  (List.mem_filter.mp (List.mem_of_getElem? h)).1

/-- An update leaves a dead session dead, unless it puts back one that is not there. -/
theorem Dead.update (h : Dead id s) {kind : StoreKind} {session : Session}
    (hthere : kind = .inMemory → session.status.terminal = false → session.id = id →
      ∃ row ∈ s.rows, row.id = id) : Dead id (Sessions.update s kind session) := by
  cases kind with
  | database =>
    refine h.modify (Sessions.written session) (fun _ => rfl) fun row hp _ hterm => ?_
    simp only [hterm, Bool.not_true, Bool.false_or, Bool.and_eq_true] at hp
    exact hp.2
  | inMemory =>
    unfold Sessions.update
    dsimp only
    split
    · rename_i existing hexisting
      obtain ⟨hmem, hid⟩ := Keyed.mem_of_get hexisting
      split_ifs with hguard
      · exact h
      · refine h.put fun heq => ?_
        rw [h existing hmem (hid.trans heq)] at hguard
        simpa using hguard
    · rename_i hnone
      refine h.put fun heq => ?_
      by_contra hterm
      obtain ⟨row, hrow, hrowid⟩ := hthere rfl (by simpa using hterm) heq
      exact Keyed.not_mem_of_get hnone hrow (hrowid.trans heq.symm)

/-- A termination leaves the session dead. -/
theorem dead_update (s : Sessions) (kind : StoreKind) {session : Session}
    (hterm : session.status.terminal = true) :
    Dead session.id (Sessions.update s kind session) := by
  have hput : Dead session.id (s.put session) := by
    intro row hrow hid
    rcases List.mem_append.mp hrow with hrow | hrow
    · have hne := (List.mem_filter.mp hrow).2
      rw [hid] at hne
      simp at hne
    · rw [List.mem_singleton.mp hrow]
      exact hterm
  cases kind with
  | database =>
    intro row hrow hid
    obtain ⟨old, hold, rfl⟩ := mem_updateWhere.mp hrow
    split_ifs at hid ⊢ with hp
    · exact hterm
    · simp [hid, hterm] at hp
  | inMemory =>
    unfold Sessions.update
    dsimp only
    split
    · split_ifs with hguard
      · rw [hterm] at hguard
        simp at hguard
      · exact hput
    · exact hput

end

/-! ### Runs -/

variable {config : SessionConfig} {kind : StoreKind} {id : Uuid} {past : List SessionEvent}

/-- What holds after a termination, for the tasks that start later. -/
structure Terminated (id : Uuid) (past : List SessionEvent) (w : SessionWorld) : Prop where
  terminated : TerminatedIn w id
  dead : Dead id w.store
  reads : ∀ i, (∀ t parent, .start i t parent ∉ past) → ∀ read,
    WasRead (w.history i) read → read.id = id → read.status.terminal = true

/-- The store after a call. -/
theorem Dead.exec {w : SessionWorld} (h : Dead id w.store) (hterm : TerminatedIn w id) {i : ℕ}
    {e : Call} {c : Choice} {r : Reply e} (hthere : StillThere kind w (.call i e r)) :
    Dead id (exec kind e c w.store).2 := by
  have hreply {α : Type} {x : α × Sessions} (hx : Dead id x.2) : Dead id (c.reply w.store x).2 := by
    unfold Choice.reply
    split
    · exact hx
    · dsimp only
      split_ifs
      · exact hx
      · exact h
  cases e with
  | getByToken token => exact hreply h
  | getById id' => exact hreply h
  | update session =>
    refine hreply (h.update fun hkind hlive hid => ?_)
    obtain ⟨row, hrow, hrowid⟩ := hthere hkind i session r rfl hlive (hid ▸ hterm)
    exact ⟨row, hrow, hrowid.trans hid⟩
  | listActiveForUser userId => exact hreply h
  | deleteExpired =>
    refine hreply ?_
    cases kind with
    | inMemory => exact h.retain _
    | database => exact h.retain _
  | lockIdle idleBefore => exact hreply (h.lockIdle kind idleBefore)
  | now => exact h
  | audit event => exact h

/-- What a task reads of a dead session. -/
theorem Dead.read {s : Sessions} (h : Dead id s) {e : Call} {c : Choice} {read : Session}
    (hread : WasRead [⟨e, (Session.exec kind e c s).1⟩] read) (hid : read.id = id) :
    read.status.terminal = true := by
  have hreply {x : Option Session × Sessions} (hx : .ok (some read) = (c.reply s x).1) :
      x.1 = some read := by
    unfold Choice.reply at hx
    split at hx
    · exact (Except.ok.inj hx).symm
    · cases hx
  cases hread with
  | byToken token hmem =>
    obtain ⟨rfl, hr⟩ := Sigma.mk.inj (List.mem_singleton.mp hmem)
    exact h read (mem_of_getByToken (hreply (eq_of_heq hr))) hid
  | byId id' hmem =>
    obtain ⟨rfl, hr⟩ := Sigma.mk.inj (List.mem_singleton.mp hmem)
    exact h read (Keyed.mem_of_get (hreply (eq_of_heq hr))).1 hid

theorem WasRead.append {h new : Trace} {read : Session} (hread : WasRead (h ++ new) read) :
    WasRead h read ∨ WasRead new read := by
  cases hread with
  | byToken token hmem => exact (List.mem_append.mp hmem).imp (.byToken token) (.byToken token)
  | byId id hmem => exact (List.mem_append.mp hmem).imp (.byId id) (.byId id)

/-- What one call keeps. -/
theorem Terminated.after {w : SessionWorld} (h : Terminated id past w) {i n : ℕ} {e : Call}
    {c : Choice}
    (hthere : StillThere kind w (.call i e ((system config kind).exec e c w.store).1)) :
    Terminated id past ((system config kind).after i n e c w) := by
  obtain ⟨j, session, hmem, hsession⟩ := h.terminated
  refine ⟨⟨j, session, (system config kind).mem_after_of_mem hmem, hsession⟩,
    h.dead.exec h.terminated hthere, fun k hk read hread hid => ?_⟩
  rw [System.history_after] at hread
  rcases hread.append with hold | hnew
  · exact h.reads k hk read hold hid
  · split_ifs at hnew
    · exact h.dead.read hnew hid
    · cases hnew with
      | byToken _ hmem => cases hmem
      | byId _ hmem => cases hmem

/-- What every other event keeps. -/
theorem Terminated.add {w : SessionWorld} (h : Terminated id past w) {ev : SessionEvent}
    (hev : ∀ i e r, ev ≠ .call i e r) : Terminated id past (w.add [ev]) := by
  obtain ⟨j, session, hmem, hsession⟩ := h.terminated
  refine ⟨⟨j, session, List.mem_append_left _ hmem, hsession⟩, h.dead, fun k hk read hread => ?_⟩
  refine h.reads k hk read ?_
  rw [World.history_add] at hread
  cases ev with
  | call i e r => exact absurd rfl (hev i e r)
  | _ => exact (List.append_nil (w.history k)) ▸ hread

/-- What the termination establishes: the tasks that start later have made no call yet. -/
theorem terminated_of_step {s : Sessions} {mid next : SessionState} {a : Action Task Choice} {j : ℕ}
    {t : Task} {session : Session}
    (hmid : (system config kind).Reach (StillThere kind) (System.initial s) mid)
    (hstarted : mid.world.Started j t) (hterminates : t.terminates = true)
    (hstep : (system config kind).step mid a = some (.call j (.update session) (.ok ()), next))
    (hthere : StillThere kind mid.world (.call j (.update session) (.ok ()))) :
    Terminated session.id next.world.log next.world := by
  have hnext : (system config kind).Reach (StillThere kind) (System.initial s) next :=
    hmid.step hstep hthere
  obtain ⟨c, k, hp, hreply, hworld⟩ := System.step_call hstep
  -- the task writes a terminated session
  obtain ⟨t', hrun, hcalls, -⟩ := (hmid.good (session_meets config kind)).running j _ hp
  have hterm : session.status.terminal = true := by
    obtain rfl := (hmid.wf (session_meets config kind)).started_unique hrun.started hstarted
    exact hcalls hterminates
  have hstore : next.world.store = Sessions.update mid.world.store kind session := by
    rw [hworld]
    show (c.reply mid.world.store ((), _)).2 = _
    have hreply : .ok () = (c.reply mid.world.store ((),
      Sessions.update mid.world.store kind session)).1 :=
      hreply
    unfold Choice.reply at hreply ⊢
    split at hreply
    · rfl
    · cases hreply
  refine ⟨⟨j, session, ?_, rfl, hterm⟩, hstore ▸ dead_update _ kind hterm,
    fun i hi read hread _ => ?_⟩
  · obtain ⟨evs, hlog, -⟩ := System.step_log hstep
    rw [hlog]
    exact List.mem_append_right _ (List.mem_cons_self ..)
  · have hwf := hnext.wf (session_meets config kind)
    cases hread with
    | byToken token hmem =>
      obtain ⟨t, parent, hstart⟩ := hwf.started (World.mem_history.mp hmem)
      exact absurd hstart (hi t parent)
    | byId id hmem =>
      obtain ⟨t, parent, hstart⟩ := hwf.started (World.mem_history.mp hmem)
      exact absurd hstart (hi t parent)

/-- **A terminated session stays dead** when no copy of it is written back after it was reaped. -/
theorem stays_dead (config : SessionConfig) (kind : StoreKind) (s : Sessions) (mid : SessionState)
    (hmid : (system config kind).Reach (StillThere kind) (System.initial s) mid) :
    StaysDead config kind (StillThere kind) mid := by
  intro j t session a next hstarted hterminates hstep hthere cfg hreach i validated
    hlate hfinish hid
  have hnext : (system config kind).Reach (StillThere kind) (System.initial s) next :=
    hmid.step hstep hthere
  have hJ : (system config kind).Preserves sessionSpec (StillThere kind) (fun _ => True)
      (Terminated session.id next.world.log) := by
    refine .of_call (fun w ev hev h => h.add hev) ?_
    intro w i n t e c _ _ h _ _ hthere
    exact h.after hthere
  have hinv := (hJ.reach_from (session_meets config kind) (hnext.good (session_meets config kind))
    (terminated_of_step hmid hstarted hterminates hstep hthere) hreach).2
  obtain ⟨t', -, hresult⟩ := (hnext.trans hreach).finished (session_meets config kind) hfinish
  obtain ⟨read, hreadid, hactive, hread⟩ := hresult validated rfl
  have hterm := hinv.reads i hlate read hread (hreadid.trans hid)
  rw [hactive] at hterm
  cases hterm

/-! ### A run -/

namespace Instance

/-- A time in seconds. -/
def time (secs : ℤ) : DateTime := .ofMicros (secs * 1000000)

def defaults : SessionConfig where
  inactivityTimeoutSecs := 900
  absoluteTimeoutSecs := 28800
  lockOnInactivity := true
  maxConcurrentSessions := 3

/-- A session from 0 to 28800 seconds. -/
def session : Session where
  id := ⟨1⟩
  token := "token"
  userId := "user1"
  status := .Active
  ipAddress := none
  userAgent := none
  createdAt := time 0
  lastActivity := time 0
  expiresAt := time 28800
  metadata := none

def one : Sessions := ⟨[session], List.nodup_singleton _⟩

/-- Task `i` makes a step at a time, in which nothing fails. -/
def go (i : ℕ) (secs : ℤ) : Action Task Choice :=
  .run i { fault := none, now := time secs, nowFor := fun _ => time secs, pick := 0 }

/-- A validation that is to write the time of the last activity; then a termination that is to
write. -/
def validateAndTerminate : List (Action Task Choice) :=
  .arrive (.validateSession "token") :: List.replicate 5 (go 0 100)
    ++ .arrive (.terminateSession ⟨1⟩) :: [go 1 101]

/-- The reaper runs before the validation writes. -/
def reapAndWrite : List (Action Task Choice) :=
  .arrive .cleanupExpired :: List.replicate 4 (go 2 102) ++ List.replicate 2 (go 0 103)

/-- Another validation. -/
def validate (i : ℕ) : List (Action Task Choice) :=
  .arrive (.validateSession "token") :: List.replicate 5 (go i 104)

/-- `StillThere`, as a check. -/
def stillThere (w : SessionWorld) : SessionEvent → Bool
  | .call _ (.update session) _ =>
    session.status.terminal || w.store.rows.any (·.id = session.id)
  | _ => true

theorem stillThere_sound {w : SessionWorld} {ev : SessionEvent} (h : stillThere w ev = true) :
    StillThere .inMemory w ev := by
  rintro - i session r rfl hlive -
  have h : (session.status.terminal || w.store.rows.any (·.id = session.id)) = true := h
  rw [hlive, Bool.false_or] at h
  obtain ⟨row, hrow, hid⟩ := List.any_eq_true.mp h
  exact ⟨row, hrow, of_decide_eq_true hid⟩

/-- The id of the session that the task returned. -/
def validatedBy (log : List SessionEvent) (i : ℕ) : Option Uuid :=
  log.findSome? fun
    | .finish j (.ok (.session validated)) => if j = i then some validated.id else none
    | _ => none

theorem finish_of_validatedBy {log : List SessionEvent} {i : ℕ} {id : Uuid}
    (h : validatedBy log i = some id) :
    ∃ validated, .finish i (.ok (.session validated)) ∈ log ∧ validated.id = id := by
  obtain ⟨ev, hev, heq⟩ := List.exists_of_findSome?_eq_some h
  split at heq
  · rename_i j validated
    split_ifs at heq with hj
    exact ⟨validated, hj ▸ hev, Option.some.inj heq⟩
  · cases heq

/-- The id of the session that task `i` returns, if it starts after the step `a`, which completes
the termination of the session 1 by the task 1. -/
def validatedAfter (check : SessionWorld → SessionEvent → Bool) (a : Action Task Choice)
    (rest : List (Action Task Choice)) (i : ℕ) : Option (Option Uuid) := do
  let mid ← (system defaults .inMemory).run check validateAndTerminate (System.initial one)
  match (system defaults .inMemory).step mid a with
  | some (.call j (.update session) (.ok ()), next) =>
    let cfg ← (system defaults .inMemory).run check rest next
    if j = 1 && session.id = ⟨1⟩ && check mid.world (.call j (.update session) (.ok ()))
        && mid.world.log.any (fun | .start k (.terminateSession _) _ => k = 1 | _ => false)
        && next.world.log.all (fun | .start k _ _ => k ≠ i | _ => true)
      then some (validatedBy cfg.world.log i) else none
  | _ => none

/-- What the id says of the run. -/
theorem run_of_validatedAfter {check : SessionWorld → SessionEvent → Bool} {a : Action Task Choice}
    {rest : List (Action Task Choice)} {i : ℕ} {id : Option Uuid}
    (h : validatedAfter check a rest i = some id) :
    ∃ mid sid session next cfg, (system defaults .inMemory).run check validateAndTerminate
        (System.initial one) = some mid ∧ mid.world.Started 1 (.terminateSession sid) ∧
      (system defaults .inMemory).step mid a = some (.call 1 (.update session) (.ok ()), next) ∧
      session.id = ⟨1⟩ ∧ check mid.world (.call 1 (.update session) (.ok ())) = true ∧
      (system defaults .inMemory).run check rest next = some cfg ∧
      (∀ t parent, .start i t parent ∉ next.world.log) ∧ validatedBy cfg.world.log i = id := by
  obtain ⟨mid, hmid, h⟩ := Option.bind_eq_some_iff.mp h
  split at h
  · rename_i j session next hstep
    obtain ⟨cfg, hcfg, hid⟩ := Option.bind_eq_some_iff.mp h
    split_ifs at hid with hcond
    simp only [Bool.and_eq_true, decide_eq_true_eq] at hcond
    obtain ⟨⟨⟨⟨rfl, hsession⟩, hcheck⟩, hstarted⟩, hlate⟩ := hcond
    obtain ⟨ev, hev, hmatch⟩ := List.any_eq_true.mp hstarted
    split at hmatch
    · rename_i k sid parent
      obtain rfl : k = 1 := of_decide_eq_true hmatch
      refine ⟨mid, sid, session, next, cfg, hmid, ⟨parent, hev⟩, hstep, hsession, hcheck, hcfg,
        fun t parent hmem => ?_, Option.some.inj hid⟩
      have hne := List.all_eq_true.mp hlate _ hmem
      simp at hne
    · cases hmatch
  · cases h

end Instance

open Instance

/-- **A session comes back**: the reaper removes it after its termination, and the validation that
read it before writes it back as active. -/
theorem resurrected :
    ¬∀ s mid, (system defaults .inMemory).Reach (fun _ _ => True) (System.initial s) mid →
      StaysDead defaults .inMemory (fun _ _ => True) mid := by
  intro h
  have hrun : validatedAfter (fun _ _ => true) (go 1 101) (reapAndWrite ++ validate 3) 3
      = some (some ⟨1⟩) := by
    decide +kernel
  obtain ⟨mid, sid, session, next, cfg, hmid, hstarted, hstep, hsession, -, hcfg, hlate, hid⟩ :=
    run_of_validatedAfter hrun
  obtain ⟨validated, hfinish, hvalidated⟩ := finish_of_validatedBy hid
  exact h one mid (System.reach_of_run (fun _ _ _ => trivial) _ hmid) 1 _ session _
    next hstarted rfl
    hstep trivial cfg (System.reach_of_run (fun _ _ _ => trivial) _ hcfg) 3 validated hlate hfinish
    (hvalidated.trans hsession.symm)

/-- The validation writes before the reaper runs. -/
theorem stays_dead_in_turn :
    ∃ mid next cfg, (system defaults .inMemory).Reach (StillThere .inMemory) (System.initial one)
        mid ∧ (system defaults .inMemory).Reach (StillThere .inMemory) next cfg ∧
      validatedBy cfg.world.log 2 = none ∧ DeadAfter ⟨1⟩ next cfg := by
  have hrun : validatedAfter stillThere (go 1 101)
      (List.replicate 2 (go 0 102) ++ .arrive (.validateSession "token") ::
        List.replicate 3 (go 2 103) ++ .arrive .cleanupExpired :: List.replicate 4 (go 3 104)) 2
      = some none := by
    decide +kernel
  obtain ⟨mid, sid, session, next, cfg, hmid, hstarted, hstep, hsession, hcheck, hcfg, -, hid⟩ :=
    run_of_validatedAfter hrun
  have hreach : (system defaults .inMemory).Reach (StillThere .inMemory) (System.initial one) mid :=
    System.reach_of_run (fun _ _ h => stillThere_sound h) _ hmid
  have hrest : (system defaults .inMemory).Reach (StillThere .inMemory) next cfg :=
    System.reach_of_run (fun _ _ h => stillThere_sound h) _ hcfg
  refine ⟨mid, next, cfg, hreach, hrest, hid, ?_⟩
  rw [← hsession]
  exact stays_dead defaults .inMemory one mid hreach 1 _ session _ next hstarted rfl hstep
    (stillThere_sound hcheck) cfg hrest

end Ostrich.Common.Session
