import Ostrich.Common.SessionCap

/-!
# At most so many active sessions

The cap is checked where sessions are created.  An update that writes back an active session makes
one active that was locked, or that was removed in memory, without a check.

* `capped`: in every run in which such an update finds room, no user has more active sessions than
  the configuration allows, in either store;
* `two_active`: with a cap of one, a session is locked, another is created, and the first is
  unlocked.
-/

namespace Ostrich.Common.SessionCap

open Interleave Table SessionStore

/-! ### The property -/

/-- No user has more active sessions than this. -/
def Capped (m : ℕ) (s : Sessions) : Prop := ∀ userId, active userId s ≤ m

/-! ### The condition -/

/-- The task has counted fewer active sessions of the user than it may, and has not inserted
yet. -/
def Pending (m : ℕ) (w : CapWorld) (userId : String) (i : ℕ) : Prop :=
  ¬w.Ended i ∧ (∃ n, .call i (.countActive userId) (.ok n) ∈ w.log ∧ n < m) ∧
    ∀ session r, .call i (.insert session) r ∉ w.log

/-- The lock of a user is taken only when no other creation of the user is under way. -/
def Serialized (m : ℕ) (w : CapWorld) (ev : CapEvent) : Prop :=
  ∀ i userId r, ev = .call i (.countActive userId) r → ∀ j, ¬Pending m w userId j

/-- The user may have another active session, also after the insertion that is under way. -/
def Room (m : ℕ) (w : CapWorld) (userId : String) : Prop :=
  active userId w.store < m ∧
    ((∃ i, Pending m w userId i) → active userId w.store + 1 < m)

/-- The copy of an active session is written back over a session of the user that is locked or
expired, or, in memory, over none. -/
def Reactivates (kind : StoreKind) (s : Sessions) (session : Session) (userId : String) : Prop :=
  session.status = .Active ∧
    match kind with
    | .inMemory => session.userId = userId ∧ ∀ row, Sessions.getById s session.id = some row →
        row.status.terminal = false ∧ (row.userId = userId → row.status ≠ .Active)
    | .database => ∃ row, Sessions.getById s session.id = some row ∧ row.userId = userId ∧
        row.status.terminal = false ∧ row.status ≠ .Active

/-- An update that makes a session of a user active again finds room. -/
def FindsRoom (m : ℕ) (kind : StoreKind) (w : CapWorld) (ev : CapEvent) : Prop :=
  ∀ i session r, ev = .call i (.manager (.update session)) r → ∀ userId,
    Reactivates kind w.store session userId → Room m w userId

/-! ### What the tasks do -/

/-- A creation inserts after it has counted, in the store that does it so. -/
def spec (config : SessionConfig) (kind : StoreKind) :
    Spec Call Reply SessionError Session.Result Task where
  calls _ h e := match e with
    | .create _ maxConcurrent => kind = .inMemory ∧ maxConcurrent = config.maxConcurrentSessions
    | .countActive _ => kind = .database
    | .insert session => (∃ n, ⟨.countActive session.userId, .ok n⟩ ∈ h ∧
        n < config.maxConcurrentSessions) ∧ ∀ other r, ⟨.insert other, r⟩ ∉ h
    | _ => True
  result _ _ _ := True

section

variable {config : SessionConfig} {kind : StoreKind}

/-- The calls of the other operations are all admitted. -/
theorem wp_manage {α : Type} {calls : History Call Reply → Call → Prop}
    (hcalls : ∀ h e, calls h (.manager e)) (p : Session.SessionM α) (h : History Call Reply) :
    (manage p).Wp calls (fun _ _ => True) h := by
  induction p generalizing h with
  | ret a => exact trivial
  | fail e => exact trivial
  | call e k ih => exact ⟨hcalls h e, fun r => ih r _⟩

theorem does_create {t : Task} {session : Session} {h : History Call Reply}
    (hinsert : ∀ other r, ⟨.insert other, r⟩ ∉ h) :
    (create kind session config.maxConcurrentSessions).Does ((spec config kind).calls t)
      (fun _ _ => True) h := by
  unfold create
  cases kind with
  | inMemory =>
    refine (Prog.does_bind _).mpr ((Prog.does_perform _).mpr ⟨⟨rfl, rfl⟩, fun r => ?_⟩)
    exact (Prog.does_ofExcept _).mpr fun _ _ => trivial
  | database =>
    refine (Prog.does_bind _).mpr ((Prog.does_perform _).mpr ⟨rfl, fun r => ?_⟩)
    refine (Prog.does_bind _).mpr ((Prog.does_ofExcept _).mpr fun n hn => ?_)
    subst hn
    by_cases hfull : config.maxConcurrentSessions ≤ n
    · rw [if_pos hfull]
      exact (Prog.does_fail _).mpr trivial
    · rw [if_neg hfull]
      refine (Prog.does_bind _).mpr ((Prog.does_perform _).mpr ⟨⟨⟨n, ?_, by omega⟩, ?_⟩, ?_⟩)
      · exact List.mem_append_right _ (List.mem_singleton_self _)
      · intro other r hmem
        rcases List.mem_append.mp hmem with hmem | hmem
        · exact hinsert other r hmem
        · cases List.mem_singleton.mp hmem
      · exact fun r => (Prog.does_ofExcept _).mpr fun _ _ => trivial

/-- **The tasks keep to their specification.** -/
theorem meets_spec (db : Columns) : (system config db kind).Meets (spec config kind) := by
  intro t
  cases t with
  | manager t => exact wp_manage (fun _ _ => trivial) _ _
  | createSession userId ipAddress userAgent =>
    show (Session.Result.session <$> createSession config kind userId ipAddress userAgent).Wp _ _ _
    rw [Prog.wp_map]
    suffices hdoes : (createSession config kind userId ipAddress userAgent).Does
        ((spec config kind).calls (.createSession userId ipAddress userAgent))
          (fun _ _ => True) [] from Prog.Wp.mono hdoes fun _ _ _ => trivial
    unfold createSession
    by_cases htimeout : config.absoluteTimeoutSecs ≤ 0
    · rw [if_pos htimeout]
      exact (Prog.does_fail _).mpr trivial
    · rw [if_neg htimeout]
      refine (Prog.does_bind _).mpr ?_
      unfold new
      refine (Prog.does_bind _).mpr ((Prog.does_perform _).mpr ⟨trivial, fun now => ?_⟩)
      refine (Prog.does_bind _).mpr ((Prog.does_perform _).mpr ⟨trivial, fun token => ?_⟩)
      refine (Prog.does_bind _).mpr ((Prog.does_perform _).mpr ⟨trivial, fun id => ?_⟩)
      refine (Prog.does_pure _).mpr ?_
      cases DateTime.addDuration now config.absoluteTimeoutSecs with
      | none => exact (Prog.does_fail _).mpr trivial
      | some expiresAt =>
        refine (Prog.does_bind _).mpr ((does_create ?_).mono fun _ _ _ => ?_)
        · intro other r hmem
          simp at hmem
        · exact (Prog.does_pure _).mpr trivial

end

/-! ### Counting -/

section

variable {s : Sessions} {userId : String}

theorem active_modify_le {p : Session → Bool} {f : Session → Session}
    {hf : ∀ row, (f row).id = row.id}
    (h : ∀ row ∈ s.rows, p row = true → (f row).status = .Active → (f row).userId = userId →
      row.status = .Active ∧ row.userId = userId) :
    active userId (s.modify p f hf) ≤ active userId s := by
  unfold active Keyed.modify updateWhere
  rw [List.countP_map]
  refine List.countP_mono_left fun row hmem hrow => ?_
  simp only [Function.comp_apply, Bool.and_eq_true, decide_eq_true_eq] at hrow ⊢
  split_ifs at hrow with hp
  · obtain ⟨hstatus, huser⟩ := h row hmem hp hrow.2 hrow.1
    exact ⟨huser, hstatus⟩
  · exact hrow

theorem active_retain_le (p : Session → Bool) : active userId (s.retain p) ≤ active userId s :=
  (List.filter_sublist).countP_le

theorem active_lockIdle_le (kind : StoreKind) (idleBefore : DateTime) :
    active userId (Sessions.lockIdle s kind idleBefore) ≤ active userId s :=
  @active_modify_le s userId _ Session.lock Session.id_lock fun _ _ _ hlocked => by cases hlocked

theorem active_deleteExpired_le (kind : StoreKind) (now : DateTime) (nowFor : Uuid → DateTime) :
    active userId (Sessions.deleteExpired s kind now nowFor) ≤ active userId s := by
  unfold Sessions.deleteExpired
  cases kind with
  | inMemory => exact active_retain_le _
  | database => exact active_retain_le _

/-- One session more. -/
theorem active_concat (rows : List Session) (session : Session) :
    (rows ++ [session]).countP (fun row => row.userId = userId && row.status = .Active) ≤
      rows.countP (fun row => row.userId = userId && row.status = .Active) +
        if session.userId = userId then 1 else 0 := by
  rw [List.countP_append, List.countP_singleton]
  split_ifs with hactive huser
  · exact Nat.le_refl _
  · simp only [Bool.and_eq_true, decide_eq_true_eq] at hactive
    exact absurd hactive.1 huser
  · omega
  · omega

theorem active_put_le (session : Session) :
    active userId (s.put session) ≤ active userId s + if session.userId = userId then 1 else 0 := by
  have hfilter := (List.filter_sublist (p := fun row : Session => decide (row.id ≠ session.id))
    (l := s.rows)).countP_le (p := fun row => row.userId = userId && row.status = .Active)
  have hconcat := @active_concat userId (s.rows.filter (·.id ≠ session.id)) session
  show (s.rows.filter (·.id ≠ session.id) ++ [session]).countP _ ≤ s.rows.countP _ + _
  omega

/-- At most one row has an id. -/
theorem countP_id_le {p : Session → Bool} {id : Uuid} (hp : ∀ row, p row = true → row.id = id) :
    s.rows.countP p ≤ 1 := by
  have hcount : (s.rows.map Session.id).count id ≤ 1 := List.nodup_iff_count_le_one.mp s.nodup id
  rw [List.count, List.countP_map] at hcount
  refine (List.countP_mono_left fun row _ hrow => ?_).trans hcount
  show (row.id == id) = true
  rw [hp row hrow]
  exact beq_self_eq_true id

theorem countP_updateWhere_le {p q : Session → Bool} (f : Session → Session)
    (rows : List Session) :
    (updateWhere p f rows).countP q ≤ rows.countP q + rows.countP p := by
  unfold updateWhere
  induction rows with
  | nil => exact Nat.le_refl _
  | cons row rows ih =>
    rw [List.map_cons, List.countP_cons, List.countP_cons, List.countP_cons]
    by_cases hp : p row = true
    · rw [if_pos hp, if_pos hp]
      split_ifs <;> omega
    · rw [if_neg hp, if_neg hp]
      omega

/-- An update gives a user at most one more active session. -/
theorem active_update_le (kind : StoreKind) (session : Session) :
    active userId (Sessions.update s kind session) ≤ active userId s + 1 := by
  have hput : active userId (s.put session) ≤ active userId s + 1 := by
    have hle := @active_put_le s userId session
    split_ifs at hle <;> omega
  unfold Sessions.update
  cases kind with
  | inMemory =>
    dsimp only
    split
    · split_ifs
      · exact Nat.le_succ _
      · exact hput
    · exact hput
  | database =>
    have hone : s.rows.countP (fun row =>
        row.id = session.id && (!row.status.terminal || session.status.terminal)) ≤ 1 := by
      refine @countP_id_le s _ session.id fun row hrow => ?_
      rw [Bool.and_eq_true, decide_eq_true_eq] at hrow
      exact hrow.1
    exact (countP_updateWhere_le _ _).trans (Nat.add_le_add_left hone _)

/-- A session is put in the place of an active one of the same user. -/
theorem active_put_le_of_mem {row session : Session} (hrow : row ∈ s.rows)
    (hid : row.id = session.id) (huser : row.userId = userId) (hactive : row.status = .Active) :
    active userId (s.put session) ≤ active userId s := by
  set counts : Session → Bool := fun row => row.userId = userId && row.status = .Active
  have hconcat : (s.rows.filter (·.id ≠ session.id) ++ [session]).countP counts ≤
      (s.rows.filter (·.id ≠ session.id)).countP counts + 1 := by
    have hle : _ ≤ List.countP counts _ + _ :=
      @active_concat userId (s.rows.filter (·.id ≠ session.id)) session
    split_ifs at hle
    · exact hle
    · exact hle.trans (Nat.le_succ _)
  have hsplit := List.countP_eq_countP_filter_add s.rows counts fun row => row.id ≠ session.id
  have hone : 0 < (s.rows.filter fun row => !decide (row.id ≠ session.id)).countP counts := by
    refine List.countP_pos_iff.mpr ⟨row, List.mem_filter.mpr ⟨hrow, by simp [hid]⟩, ?_⟩
    simp [counts, huser, hactive]
  show (s.rows.filter (·.id ≠ session.id) ++ [session]).countP counts ≤ s.rows.countP counts
  omega

/-- An update makes no session active again, unless it is of this kind. -/
theorem active_update_le_of_not {kind : StoreKind} {session : Session}
    (h : ¬Reactivates kind s session userId) :
    active userId (Sessions.update s kind session) ≤ active userId s := by
  have hput (hother : session.status = .Active → session.userId ≠ userId) :
      active userId (s.put session) ≤ active userId s := by
    have hfilter := (List.filter_sublist (p := fun row : Session => decide (row.id ≠ session.id))
      (l := s.rows)).countP_le (p := fun row => row.userId = userId && row.status = .Active)
    have hlast : ¬((decide (session.userId = userId) && decide (session.status = .Active)) =
        true) := by
      rw [Bool.and_eq_true, decide_eq_true_eq, decide_eq_true_eq]
      exact fun ⟨huser, hactive⟩ => hother hactive huser
    show (s.rows.filter (·.id ≠ session.id) ++ [session]).countP _ ≤ s.rows.countP _
    rw [List.countP_append, List.countP_singleton, if_neg hlast]
    exact hfilter
  unfold Sessions.update
  cases kind with
  | inMemory =>
    by_cases hactive : session.status = .Active
    · by_cases huser : session.userId = userId
      · -- the copy goes over a terminal session, or over one that counts already
        have hnot : ¬∀ row, Sessions.getById s session.id = some row →
            row.status.terminal = false ∧ (row.userId = userId → row.status ≠ .Active) :=
          fun hall => h ⟨hactive, huser, hall⟩
        obtain ⟨row, hrow⟩ := not_forall.mp hnot
        obtain ⟨hget, hrow⟩ := Classical.not_imp.mp hrow
        have hlive : session.status.terminal = false := by
          rw [hactive]
          rfl
        simp only [hget, hlive, Bool.not_false, Bool.and_true]
        by_cases hterminal : row.status.terminal = true
        · rw [if_pos hterminal]
        · rw [if_neg hterminal]
          have hcounts : row.userId = userId ∧ row.status = .Active := by
            by_contra hnone
            exact hrow ⟨Bool.not_eq_true _ ▸ hterminal, fun hu ha => hnone ⟨hu, ha⟩⟩
          obtain ⟨hmem, hid⟩ := Keyed.mem_of_get hget
          exact active_put_le_of_mem hmem hid hcounts.1 hcounts.2
      · dsimp only
        split
        · split_ifs
          · exact Nat.le_refl _
          · exact hput fun _ => huser
        · exact hput fun _ => huser
    · dsimp only
      split
      · split_ifs
        · exact Nat.le_refl _
        · exact hput fun ha => absurd ha hactive
      · exact hput fun ha => absurd ha hactive
  | database =>
    refine active_modify_le fun row hmem hp hactive huser => ?_
    rw [Bool.and_eq_true, decide_eq_true_eq, Bool.or_eq_true, Bool.not_eq_true'] at hp
    obtain ⟨hid, hlive⟩ := hp
    have hsession : session.status = .Active := hactive
    have hrow : row.status.terminal = false := by
      rcases hlive with hlive | hterminal
      · exact hlive
      · rw [hsession] at hterminal
        cases hterminal
    refine ⟨by_contra fun hne => h ⟨hsession, row, ?_, huser, hrow, hne⟩, huser⟩
    exact Keyed.get_eq_some.mpr ⟨hmem, hid⟩

/-- An insertion gives one more session to its own user at most. -/
theorem active_insertSession_le (db : Columns) (session : Session) :
    active userId (insertSession db session s).2 ≤
      active userId s + if session.userId = userId then 1 else 0 := by
  unfold insertSession
  cases hrow : rowOf db session with
  | none => exact Nat.le_add_right _ _
  | some row =>
    have huser : row.userId = session.userId := by
      unfold rowOf at hrow
      simp only [Option.bind_eq_bind, Option.bind_eq_some_iff, Option.pure_def,
        Option.some.injEq] at hrow
      obtain ⟨_, _, _, _, _, _, _, _, _, _, _, _, _, _, rfl⟩ := hrow
      rfl
    dsimp only
    by_cases htoken : (s.rows.any fun other => decide (other.token = row.token)) = true
    · rw [if_pos htoken]
      exact Nat.le_add_right _ _
    · rw [if_neg htoken]
      by_cases hexpires : row.expiresAt ≤ row.createdAt
      · rw [if_pos hexpires]
        exact Nat.le_add_right _ _
      · rw [if_neg hexpires]
        cases hinsert : s.insert? row with
        | none => exact Nat.le_add_right _ _
        | some s' =>
          have hrows := (Keyed.rows_of_insert? hinsert).2
          show s'.rows.countP _ ≤ _
          rw [hrows, ← huser]
          exact active_concat s.rows row

/-- A creation in memory finds room for its session. -/
theorem active_createInMemory_le {m : ℕ} (session : Session) (h : active userId s ≤ m) :
    active userId (createInMemory session m s).2 ≤ m := by
  unfold createInMemory
  split_ifs with hfull
  · exact h
  · have hle := @active_put_le s userId session
    show active userId (s.put session) ≤ m
    split_ifs at hle with huser
    · rw [huser] at hfull
      omega
    · omega

/-- A call of the other operations makes no session active, unless it is an update. -/
theorem active_exec_manager (kind : StoreKind) (e : Session.Call) (c : Session.Choice) :
    active userId (Session.exec kind e c s).2 ≤ active userId s ∨
      ∃ session, e = .update session ∧
        (Session.exec kind e c s).2 = Sessions.update s kind session := by
  have hreply {α : Type} {r : α × Sessions} (h : active userId r.2 ≤ active userId s) :
      active userId (c.reply s r).2 ≤ active userId s := by
    unfold Session.Choice.reply
    split
    · exact h
    · dsimp only
      split_ifs
      · exact h
      · exact Nat.le_refl _
  cases e with
  | update session =>
    show active userId (c.reply s ((), Sessions.update s kind session)).2 ≤ _ ∨ _
    unfold Session.Choice.reply
    cases hfault : c.fault with
    | none =>
      refine .inr ⟨session, rfl, ?_⟩
      show (c.reply s ((), Sessions.update s kind session)).2 = _
      unfold Session.Choice.reply
      rw [hfault]
    | some fault =>
      obtain ⟨err, applied⟩ := fault
      cases applied with
      | false => exact .inl (Nat.le_refl _)
      | true =>
        refine .inr ⟨session, rfl, ?_⟩
        show (c.reply s ((), Sessions.update s kind session)).2 = _
        unfold Session.Choice.reply
        rw [hfault]
        rfl
  | getByToken token => exact .inl (hreply (Nat.le_refl _))
  | getById id => exact .inl (hreply (Nat.le_refl _))
  | listActiveForUser user => exact .inl (hreply (Nat.le_refl _))
  | deleteExpired => exact .inl (hreply (active_deleteExpired_le ..))
  | lockIdle idleBefore => exact .inl (hreply (active_lockIdle_le ..))
  | now => exact .inl (Nat.le_refl _)
  | audit event => exact .inl (Nat.le_refl _)

/-- A reading that succeeds returns what it read. -/
theorem reply_of_ok {α : Type} (c : Session.Choice) {x k : α}
    (h : (c.reply s (x, s)).1 = .ok k) : x = k := by
  unfold Session.Choice.reply at h
  split at h
  · exact Except.ok.inj h
  · cases h

/-- A reading leaves the store as it is. -/
theorem reply_snd_self {α : Type} (c : Session.Choice) {x : α} : (c.reply s (x, s)).2 = s := by
  unfold Session.Choice.reply
  split
  · rfl
  · exact ite_self s

/-- What an answer leaves is the store before, or that of the change. -/
theorem answer_cases (c : Choice) (r : Except SessionError Unit × Sessions) :
    (c.answer s r).2 = s ∨ (c.answer s r).2 = r.2 := by
  unfold Choice.answer
  split
  · exact .inr rfl
  · dsimp only
    split_ifs
    · exact .inr rfl
    · exact .inl rfl

end

/-! ### Creations under way -/

section

variable {config : SessionConfig} {db : Columns} {kind : StoreKind} {m : ℕ} {w : CapWorld}
  {userId : String} {j : ℕ}

theorem Pending.of_add {ev : CapEvent} (h : Pending m (w.add [ev]) userId j)
    (hev : ∀ i e r, ev ≠ .call i e r) : Pending m w userId j := by
  obtain ⟨hrunning, ⟨n, hcount, hn⟩, hinsert⟩ := h
  refine ⟨fun hended => hrunning ?_, ⟨n, ?_, hn⟩, fun session r hmem => hinsert session r ?_⟩
  · rcases hended with ⟨r, hmem⟩ | hmem
    · exact .inl ⟨r, List.mem_append_left _ hmem⟩
    · exact .inr (List.mem_append_left _ hmem)
  · rcases List.mem_append.mp hcount with hcount | hcount
    · exact hcount
    · exact absurd (List.mem_singleton.mp hcount).symm (hev _ _ _)
  · exact List.mem_append_left _ hmem

/-- A creation is under way after a call if it was before, or if the call counted. -/
theorem Pending.of_after {i n : ℕ} {e : Call} {c : Choice}
    (h : Pending m ((system config db kind).after i n e c w) userId j) :
    Pending m w userId j ∨
      ∃ k, (.call j (.countActive userId) (.ok k) : CapEvent)
        = .call i e (exec db kind e c w.store).1 ∧ k < m := by
  obtain ⟨hrunning, ⟨k, hcount, hk⟩, hinsert⟩ := h
  rcases System.call_mem_after _ |>.mp hcount with hcount | hcount
  · left
    refine ⟨fun hended => hrunning ((System.ended_after _).mpr hended), ⟨k, hcount, hk⟩, ?_⟩
    exact fun session r hmem => hinsert session r (System.mem_after_of_mem _ hmem)
  · exact .inr ⟨k, hcount, hk⟩

/-- Who inserts is no longer under way. -/
theorem not_pending_insert {i n : ℕ} {session : Session} {c : Choice} :
    ¬Pending m ((system config db kind).after i n (.insert session) c w) userId i := by
  rintro ⟨-, -, hinsert⟩
  exact hinsert session _ ((System.call_mem_after _).mpr (.inr rfl))

end

/-! ### The invariant -/

/-- The cap holds, also after the insertion that is under way. -/
structure CapInv (m : ℕ) (kind : StoreKind) (w : CapWorld) : Prop where
  capped : Capped m w.store
  room : ∀ userId i, Pending m w userId i → active userId w.store < m
  single : ∀ userId i j, Pending m w userId i → Pending m w userId j → i = j
  memory : kind = .inMemory → ∀ i userId r, .call i (.countActive userId) r ∉ w.log

section

variable {config : SessionConfig} {db : Columns} {kind : StoreKind} {m : ℕ} {w : CapWorld}

/-- In memory no creation is under way. -/
theorem CapInv.not_pending (h : CapInv m kind w) (hkind : kind = .inMemory) (userId : String)
    (i : ℕ) : ¬Pending m w userId i := by
  rintro ⟨-, ⟨n, hcount, -⟩, -⟩
  exact h.memory hkind i userId _ hcount

theorem CapInv.add (h : CapInv m kind w) {ev : CapEvent} (hev : ∀ i e r, ev ≠ .call i e r) :
    CapInv m kind (w.add [ev]) where
  capped := h.capped
  room userId i hpending := h.room userId i (hpending.of_add hev)
  single userId i j hi hj := h.single userId i j (hi.of_add hev) (hj.of_add hev)
  memory hkind i userId r hmem := by
    rcases List.mem_append.mp hmem with hmem | hmem
    · exact h.memory hkind i userId r hmem
    · exact hev _ _ _ (List.mem_singleton.mp hmem).symm

/-- A call that does not count keeps the invariant, if it leaves room for what is under way. -/
theorem CapInv.after (h : CapInv m kind w) {i n : ℕ} {e : Call} {c : Choice}
    (hcount : ∀ userId, e ≠ .countActive userId)
    (hcapped : Capped m (exec db kind e c w.store).2)
    (hroom : ∀ userId j, Pending m ((system config db kind).after i n e c w) userId j →
      active userId (exec db kind e c w.store).2 < m) :
    CapInv m kind ((system config db kind).after i n e c w) := by
  have hbefore {userId : String} {j : ℕ}
      (hpending : Pending m ((system config db kind).after i n e c w) userId j) :
      Pending m w userId j := by
    rcases hpending.of_after with hpending | ⟨k, heq, -⟩
    · exact hpending
    · obtain ⟨-, he, -⟩ := Event.call.inj heq
      exact absurd he.symm (hcount userId)
  refine ⟨hcapped, hroom, fun userId j j' hj hj' => ?_, fun hkind j userId r hmem => ?_⟩
  · exact h.single userId j j' (hbefore hj) (hbefore hj')
  · rcases (System.call_mem_after _).mp hmem with hmem | heq
    · exact h.memory hkind j userId r hmem
    · obtain ⟨-, he, -⟩ := Event.call.inj heq
      exact hcount userId he.symm

/-- Nobody gets another active session. -/
theorem CapInv.after_of_le (h : CapInv m kind w) {i n : ℕ} {e : Call} {c : Choice}
    (hcount : ∀ userId, e ≠ .countActive userId)
    (hle : ∀ userId, active userId (exec db kind e c w.store).2 ≤ active userId w.store) :
    CapInv m kind ((system config db kind).after i n e c w) := by
  refine h.after hcount (fun userId => (hle userId).trans (h.capped userId)) ?_
  intro userId j hpending
  rcases hpending.of_after with hpending | ⟨k, heq, -⟩
  · exact lt_of_le_of_lt (hle userId) (h.room userId j hpending)
  · obtain ⟨-, he, -⟩ := Event.call.inj heq
    exact absurd he.symm (hcount userId)

theorem preserves_capInv : (system config db kind).Preserves (spec config kind)
    (fun w ev => Serialized config.maxConcurrentSessions w ev ∧
      FindsRoom config.maxConcurrentSessions kind w ev) (fun _ => True)
    (CapInv config.maxConcurrentSessions kind) := by
  refine .of_call (fun w ev hev h => h.add hev) fun {w i n t e c} _ _ h hrun hcalls hallowed => ?_
  cases e with
  | manager e =>
    by_cases hle : ∀ userId,
        active userId (Session.exec kind e c.manager w.store).2 ≤ active userId w.store
    · exact h.after_of_le (by simp) hle
    · -- an update that gives some user another active session
      obtain ⟨user, hraised⟩ := not_forall.mp hle
      rcases @active_exec_manager w.store user kind e c.manager with hsame | ⟨session, rfl, hstore⟩
      · exact absurd hsame hraised
      · have hroom (userId : String) :
            active userId (Sessions.update w.store kind session) ≤ active userId w.store ∨
              Room config.maxConcurrentSessions w userId := by
          by_cases hagain : Reactivates kind w.store session userId
          · exact .inr (hallowed.2 i session _ rfl userId hagain)
          · exact .inl (active_update_le_of_not hagain)
        have hone (userId : String) := @active_update_le w.store userId kind session
        refine h.after (by simp) (fun userId => ?_) fun userId j hpending => ?_
        · show active userId (Session.exec kind (.update session) c.manager w.store).2 ≤ _
          rw [hstore]
          rcases hroom userId with hge | ⟨hlt, -⟩
          · exact hge.trans (h.capped userId)
          · exact (hone userId).trans hlt
        · show active userId (Session.exec kind (.update session) c.manager w.store).2 < _
          rw [hstore]
          have hbefore : Pending config.maxConcurrentSessions w userId j := by
            rcases hpending.of_after with hpending | ⟨k, heq, -⟩
            · exact hpending
            · obtain ⟨-, he, -⟩ := Event.call.inj heq
              cases he
          rcases hroom userId with hge | ⟨-, hlt⟩
          · exact lt_of_le_of_lt hge (h.room userId j hbefore)
          · exact lt_of_le_of_lt (hone userId) (hlt ⟨j, hbefore⟩)
  | generateToken => exact h.after_of_le (by simp) fun _ => Nat.le_refl _
  | newUuid => exact h.after_of_le (by simp) fun _ => Nat.le_refl _
  | create session maxConcurrent =>
    obtain ⟨hkind, rfl⟩ := hcalls
    refine h.after (by simp) (fun userId => ?_) fun userId j hpending => ?_
    · show active userId (c.answer w.store _).2 ≤ _
      rcases answer_cases c (createInMemory session config.maxConcurrentSessions w.store) with
        heq | heq
      · rw [heq]
        exact h.capped userId
      · rw [heq]
        exact active_createInMemory_le session (h.capped userId)
    · rcases hpending.of_after with hpending | ⟨k, heq, -⟩
      · exact absurd hpending (h.not_pending hkind userId j)
      · obtain ⟨-, he, -⟩ := Event.call.inj heq
        cases he
  | countActive user =>
    have hkind : kind = .database := hcalls
    have hnone : ∀ j, ¬Pending config.maxConcurrentSessions w user j :=
      hallowed.1 i user _ rfl
    have hstore : (exec db kind (.countActive user) c w.store).2 = w.store :=
      reply_snd_self c.manager
    -- a creation that is under way now was before, or is this one
    have hbefore {userId : String} {j : ℕ} (hpending : Pending config.maxConcurrentSessions
        ((system config db kind).after i n (.countActive user) c w) userId j) :
        Pending config.maxConcurrentSessions w userId j ∧ userId ≠ user ∨
          j = i ∧ userId = user ∧ active user w.store < config.maxConcurrentSessions := by
      rcases hpending.of_after with hpending' | ⟨k, heq, hk⟩
      · refine .inl ⟨hpending', fun huser => ?_⟩
        rw [huser] at hpending'
        exact hnone j hpending'
      · obtain ⟨rfl, he, hr⟩ := Event.call.inj heq
        obtain rfl := Call.countActive.inj he
        have hcounted := reply_of_ok c.manager (eq_of_heq hr).symm
        exact .inr ⟨rfl, rfl, hcounted ▸ hk⟩
    refine ⟨fun userId => ?_, fun userId j hpending => ?_, fun userId j j' hj hj' => ?_, ?_⟩
    · show active userId (exec db kind (.countActive user) c w.store).2 ≤ _
      rw [hstore]
      exact h.capped userId
    · show active userId (exec db kind (.countActive user) c w.store).2 < _
      rw [hstore]
      rcases hbefore hpending with ⟨hpending, -⟩ | ⟨-, rfl, hlt⟩
      · exact h.room userId j hpending
      · exact hlt
    · rcases hbefore hj with ⟨hj, hne⟩ | ⟨rfl, huser, -⟩
      · rcases hbefore hj' with ⟨hj', -⟩ | ⟨-, huser, -⟩
        · exact h.single userId j j' hj hj'
        · exact absurd huser hne
      · rcases hbefore hj' with ⟨-, hne⟩ | ⟨rfl, -, -⟩
        · exact absurd huser hne
        · rfl
    · intro hmemory
      rw [hkind] at hmemory
      cases hmemory
  | insert session =>
    obtain ⟨⟨k, hcount, hk⟩, hfirst⟩ := hcalls
    have hpending : Pending config.maxConcurrentSessions w session.userId i :=
      ⟨hrun.not_ended, ⟨k, World.mem_history.mp hcount, hk⟩,
        fun other r hmem => hfirst other r (World.mem_history.mpr hmem)⟩
    have hlt := h.room session.userId i hpending
    have hle (userId : String) : active userId (exec db kind (.insert session) c w.store).2 ≤
        active userId w.store + if session.userId = userId then 1 else 0 := by
      show active userId (c.answer w.store _).2 ≤ _
      rcases answer_cases c (insertSession db session w.store) with heq | heq
      · rw [heq]
        exact Nat.le_add_right _ _
      · rw [heq]
        exact active_insertSession_le db session
    refine h.after (by simp) (fun userId => ?_) fun userId j hafter => ?_
    · have hone := hle userId
      have hcap := h.capped userId
      split_ifs at hone with huser
      · subst huser
        omega
      · omega
    · have hbefore : Pending config.maxConcurrentSessions w userId j := by
        rcases hafter.of_after with hpending | ⟨k, heq, -⟩
        · exact hpending
        · obtain ⟨-, he, -⟩ := Event.call.inj heq
          cases he
      have hone := hle userId
      have hroom := h.room userId j hbefore
      split_ifs at hone with huser
      · subst huser
        obtain rfl := h.single session.userId i j hpending hbefore
        exact absurd hafter not_pending_insert
      · omega

/-- **At most so many active sessions.** -/
theorem capped (store : Sessions) (hstore : Capped config.maxConcurrentSessions store)
    (cfg : CapState) (hreach : (system config db kind).Reach
      (fun w ev => Serialized config.maxConcurrentSessions w ev ∧
        FindsRoom config.maxConcurrentSessions kind w ev) (System.initial store) cfg) :
    Capped config.maxConcurrentSessions cfg.world.store := by
  have hempty (userId : String) (i : ℕ) : ¬Pending config.maxConcurrentSessions
      (System.initial store : CapState).world userId i := by
    rintro ⟨-, ⟨n, hcount, -⟩, -⟩
    exact absurd hcount List.not_mem_nil
  have hinit : CapInv config.maxConcurrentSessions kind
      (System.initial store : CapState).world :=
    ⟨hstore, fun userId i h => absurd h (hempty userId i),
      fun userId i _ h => absurd h (hempty userId i), fun _ _ _ _ => List.not_mem_nil⟩
  exact (preserves_capInv.reach (meets_spec db) hinit hreach).2.capped

end

/-! ### An instance -/

/-- A choice at a time, with no failure. -/
def atTime (now : DateTime) (bits : BitVec 128) (token : String) : Choice :=
  ⟨⟨none, now, fun _ => now, 0⟩, token, ⟨bits⟩⟩

/-- Calls of a task at a time. -/
def calls (i n : ℕ) (c : Choice) : List (Action Task Choice) := List.replicate n (.run i c)

/-- The time at which the first session is created. -/
def early : DateTime := .ofMicros 0

/-- Sixteen minutes later. -/
def late : DateTime := .ofMicros 960000000

/-- A session is created, and it is locked since nobody uses it. -/
def createdAndLocked : List (Action Task Choice) :=
  .arrive (.createSession "user" none none) :: calls 0 5 (atTime early 0 "a") ++
    .arrive (.manager .cleanupExpired) :: calls 1 4 (atTime late 0 "a")

/-- Another session is created. -/
def createdAgain : List (Action Task Choice) :=
  .arrive (.createSession "user" none none) :: calls 2 5 (atTime late 1 "b")

/-- The first session is unlocked. -/
def unlocked (i : ℕ) : List (Action Task Choice) :=
  .arrive (.manager (.unlockSession ⟨0⟩)) :: calls i 4 (atTime late 0 "a")

/-- Fifteen minutes of inactivity, one hour in all. -/
def atMost (m : ℕ) : SessionConfig := ⟨900, 3600, true, m⟩

/-- The database is not used. -/
def unused : Columns := ⟨some, fun _ => some, some, some⟩

/-- Nothing is counted in the database, as a check. -/
def checkMemory : CapEvent → Bool
  | .call _ (.countActive _) _ => false
  | _ => true

theorem serialized_of_check {m : ℕ} {w : CapWorld} {ev : CapEvent} (h : checkMemory ev = true) :
    Serialized m w ev := by
  rintro i userId r rfl
  cases h

/-- An update finds room for its user, as a check. -/
def checkRoom (m : ℕ) (w : CapWorld) : CapEvent → Bool
  | .call _ (.manager (.update session)) _ => decide (active session.userId w.store + 1 < m)
  | _ => true

theorem findsRoom_of_check {m : ℕ} {w : CapWorld} {ev : CapEvent} (h : checkRoom m w ev = true) :
    FindsRoom m .inMemory w ev := by
  rintro i session r rfl userId ⟨-, rfl, -⟩
  have hlt : active session.userId w.store + 1 < m := of_decide_eq_true h
  exact ⟨by omega, fun _ => hlt⟩

/-- With a cap of one, the unlocked session is the second. -/
theorem two_active : ∃ cfg : CapState, (system (atMost 1) unused .inMemory).Reach (Serialized 1)
    (System.initial (.empty Session.id)) cfg ∧ ¬Capped 1 cfg.world.store := by
  have hrun : ((system (atMost 1) unused .inMemory).run (fun _ ev => checkMemory ev)
      (createdAndLocked ++ createdAgain ++ unlocked 3)
        (System.initial (.empty Session.id))).map
          (fun cfg => active "user" cfg.world.store) = some 2 := by decide +kernel
  obtain ⟨cfg, hcfg, hvalue⟩ := Option.map_eq_some_iff.mp hrun
  refine ⟨cfg, System.reach_of_run (fun _ _ h => serialized_of_check h) _ hcfg, fun hcapped => ?_⟩
  have hle := hcapped "user"
  omega

/-- With a cap of two, the first session is unlocked again, and then the second is created. -/
theorem capped_two : ∃ cfg : CapState, active "user" cfg.world.store = 2 ∧
    Capped 2 cfg.world.store := by
  have hrun : ((system (atMost 2) unused .inMemory).run
      (fun w ev => checkMemory ev && checkRoom 2 w ev)
      (createdAndLocked ++ unlocked 2 ++ .arrive (.createSession "user" none none) ::
        calls 3 5 (atTime late 1 "b")) (System.initial (.empty Session.id))).map
          (fun cfg => active "user" cfg.world.store) = some 2 := by decide +kernel
  obtain ⟨cfg, hcfg, hvalue⟩ := Option.map_eq_some_iff.mp hrun
  refine ⟨cfg, hvalue, @capped (atMost 2) unused .inMemory (.empty Session.id)
    (fun _ => Nat.zero_le 2) cfg (System.reach_of_run (fun _ _ h => ?_) _ hcfg)⟩
  rw [Bool.and_eq_true] at h
  exact ⟨serialized_of_check h.1, findsRoom_of_check h.2⟩

end Ostrich.Common.SessionCap
