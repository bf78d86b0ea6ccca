import Ostrich.Common.Equiv.Session
import Ostrich.Common.SessionStore

/-!
# The two session stores agree

* `stores_agree`: both stores give the same results along every sequence of operations that fit the
  table (`Fits`): the columns give back every value unchanged, new sessions have a new id and a new
  token, and an update is of a session that is there and changes none of its fixed columns;
* `stores_differ`: the table keeps no client address that does not parse.
-/

namespace Ostrich.Common.SessionStore

open Table

/-! ### The property -/

/-- The results are the same, lists up to their order. -/
def Same : Result → Result → Prop
  | .done r, .done r' => r = r'
  | .session r, .session r' => r = r'
  | .sessions (.ok l), .sessions (.ok l') => l.Perm l'
  | .sessions (.error e), .sessions (.error e') => e = e'
  | .count r, .count r' => r = r'
  | _, _ => False

/-- Both stores, started empty, give the same results. -/
def Agree (db : Columns) (steps : List Step) : Prop :=
  List.Forall₂ Same (runMemory steps (.empty _)) (runDatabase db steps (.empty _))

/-- An update binds and keeps the values of the session. -/
def Binds (db : Columns) (session : Session) : Prop :=
  nullable db.text session.ipAddress = some session.ipAddress ∧
    nullable (db.varchar 45) session.ipAddress = some session.ipAddress ∧
    nullable db.text session.userAgent = some session.userAgent ∧
    db.timestamptz session.lastActivity = some session.lastActivity ∧
    db.timestamptz session.expiresAt = some session.expiresAt ∧
    nullable db.jsonb session.metadata = some session.metadata

/-- An update of this row leaves its fixed columns, or is refused because it is terminated. -/
def Updates (session row : Session) : Prop :=
  row.id = session.id ∧ (row.status.terminal = true ∧ session.status.terminal = false ∨
    row.token = session.token ∧ row.userId = session.userId ∧ row.createdAt = session.createdAt ∧
      row.createdAt < session.expiresAt)

/-- The operation fits the table. -/
def Fits (db : Columns) (s : Sessions) (step : Step) : Prop :=
  match step.op with
  | .create session maxConcurrent => active session.userId s < maxConcurrent →
      rowOf db session = some session ∧ session.createdAt < session.expiresAt ∧
        ∀ row ∈ s.rows, row.id ≠ session.id ∧ row.token ≠ session.token
  | .getByToken token => db.text token = some token
  | .getById _ => True
  | .update session => Binds db session ∧ ∃ row ∈ s.rows, Updates session row
  | .listActiveForUser userId => db.text userId = some userId
  | .deleteExpired => db.timestamptz step.now = some step.now
  | .lockIdle idleBefore => db.timestamptz idleBefore = some idleBefore

/-- Every operation of the sequence fits the table before it. -/
def AllFit (db : Columns) : List Step → Sessions → Prop
  | [], _ => True
  | step :: rest, s => Fits db s step ∧ AllFit db rest (database db step.op step.now s).2

/-! ### Contents -/

/-- The stores have the same sessions, and no two of them have one token. -/
structure SameRows (mem tab : Sessions) : Prop where
  perm : mem.rows.Perm tab.rows
  tokens : (tab.rows.map Session.token).Nodup

variable {db : Columns} {mem tab : Sessions} {step : Step}

theorem SameRows.get (h : SameRows mem tab) (id : Uuid) : mem.get id = tab.get id := by
  cases htab : tab.get id with
  | none =>
    cases hmem : mem.get id with
    | none => rfl
    | some row =>
      obtain ⟨hrow, hid⟩ := Keyed.mem_of_get hmem
      exact absurd hid (Keyed.not_mem_of_get htab (h.perm.mem_iff.mp hrow))
  | some row =>
    obtain ⟨hrow, hid⟩ := Keyed.mem_of_get htab
    exact Keyed.get_eq_some.mpr ⟨h.perm.mem_iff.mpr hrow, hid⟩

theorem SameRows.active (h : SameRows mem tab) (userId : String) :
    active userId mem = active userId tab := h.perm.countP_eq _

/-- Rows that keep their tokens. -/
theorem SameRows.modify (h : SameRows mem tab) {p : Session → Bool} {f : Session → Session}
    (hf : ∀ row, (f row).id = row.id) (htoken : ∀ row, (f row).token = row.token) :
    SameRows (mem.modify p f hf) (tab.modify p f hf) where
  perm := h.perm.map _
  tokens := by
    have hsame : (updateWhere p f tab.rows).map Session.token = tab.rows.map Session.token := by
      rw [updateWhere, List.map_map]
      refine List.map_congr_left fun row _ => ?_
      show (if p row then f row else row).token = row.token
      split_ifs
      · exact htoken row
      · rfl
    show ((updateWhere p f tab.rows).map Session.token).Nodup
    rw [hsame]
    exact h.tokens

/-- A session in the place of the one with its id. -/
theorem SameRows.put (h : SameRows mem tab) {session : Session}
    (htoken : ∀ row ∈ tab.rows, row.id ≠ session.id → row.token ≠ session.token) :
    SameRows (mem.put session) (tab.put session) where
  perm := (h.perm.filter _).append_right _
  tokens := by
    show ((tab.rows.filter (·.id ≠ session.id) ++ [session]).map Session.token).Nodup
    rw [List.map_append, List.nodup_append]
    refine ⟨h.tokens.sublist (List.filter_sublist.map _), List.nodup_singleton _, ?_⟩
    rintro _ htok _ hsession rfl
    obtain ⟨row, hrow, heq⟩ := List.mem_map.mp htok
    obtain ⟨hrow, hid⟩ := List.mem_filter.mp hrow
    exact htoken row hrow (of_decide_eq_true hid) (heq.trans (List.mem_singleton.mp hsession))

/-- The order of the rows of a table is of no concern. -/
theorem SameRows.of_perm (h : SameRows mem tab) {tab' : Sessions}
    (hperm : tab'.rows.Perm tab.rows) : SameRows mem tab' where
  perm := h.perm.trans hperm.symm
  tokens := (hperm.map Session.token).nodup_iff.mpr h.tokens

theorem SameRows.retain (h : SameRows mem tab) (p : Session → Bool) :
    SameRows (mem.retain p) (tab.retain p) where
  perm := h.perm.filter p
  tokens := h.tokens.sublist (List.filter_sublist.map _)

/-! ### Operations -/

/-- The result of an operation in both stores, and what they have afterwards. -/
def StepAgrees (db : Columns) (mem tab : Sessions) (step : Step) : Prop :=
  Same (memory step.op step.now step.pick mem).1 (database db step.op step.now tab).1 ∧
    SameRows (memory step.op step.now step.pick mem).2 (database db step.op step.now tab).2

theorem filter_eq_toList {α β : Type} [DecidableEq β] {f : α → β} {l : List α}
    (h : (l.map f).Nodup) (b : β) : l.filter (f · = b) = (l.find? (f · = b)).toList := by
  induction l with
  | nil => rfl
  | cons a l ih =>
    obtain ⟨hnot, hnodup⟩ := List.nodup_cons.mp h
    by_cases ha : f a = b
    · have hnone : l.filter (f · = b) = [] := by
        refine List.filter_eq_nil_iff.mpr fun x hx hxb => hnot ?_
        rw [ha, ← of_decide_eq_true hxb]
        exact List.mem_map_of_mem hx
      simp [ha, hnone]
    · simp [ha, ih hnodup]

/-- A new session. -/
theorem stepAgrees_create (h : SameRows mem tab) {session : Session} {maxConcurrent : ℕ}
    {now : DateTime} {pick : ℕ} (hfits : Fits db tab ⟨.create session maxConcurrent, now, pick⟩) :
    StepAgrees db mem tab ⟨.create session maxConcurrent, now, pick⟩ := by
  unfold StepAgrees memory database createInMemory createInDatabase
  dsimp only
  rw [h.active]
  split_ifs with hmax
  · exact ⟨rfl, h⟩
  · obtain ⟨hrow, hexpires, hnew⟩ := hfits (by omega)
    have htoken : (tab.rows.any (·.token = session.token)) = false := by
      rw [List.any_eq_false]
      intro row hrow'
      simpa using (hnew row hrow').2
    have hid : session.id ∉ tab.rows.map Session.id := by
      intro hmem
      obtain ⟨row, hrow', hid⟩ := List.mem_map.mp hmem
      exact (hnew row hrow').1 hid
    have hinsert : insertSession db session tab = (.ok (), tab.put session) := by
      unfold insertSession
      rw [hrow]
      dsimp only
      rw [htoken, if_neg Bool.false_ne_true, if_neg (DateTime.not_le.mpr hexpires),
        Keyed.insert?_eq_put hid]
    rw [hinsert]
    exact ⟨rfl, h.put fun row hrow' _ => (hnew row hrow').2⟩

theorem stepAgrees_getByToken (h : SameRows mem tab) {token : String} {now : DateTime} {pick : ℕ}
    (hfits : Fits db tab ⟨.getByToken token, now, pick⟩) :
    StepAgrees db mem tab ⟨.getByToken token, now, pick⟩ := by
  have htext : db.text token = some token := hfits
  have hmem : mem.rows.filter (·.token = token) = (tab.rows.find? (·.token = token)).toList := by
    have hperm := h.perm.filter (·.token = token)
    rw [filter_eq_toList h.tokens token] at hperm
    cases hfound : tab.rows.find? (·.token = token) with
    | none =>
      rw [hfound] at hperm
      exact hperm.eq_nil
    | some row =>
      rw [hfound] at hperm
      exact List.perm_singleton.mp hperm
  have hget : Sessions.getByToken mem pick token = tab.rows.find? (·.token = token) := by
    unfold Sessions.getByToken
    dsimp only
    rw [hmem]
    cases tab.rows.find? (·.token = token) with
    | none => rfl
    | some row => simp [Nat.mod_one]
  unfold StepAgrees memory database
  dsimp only
  rw [htext, hget]
  exact ⟨rfl, h⟩

/-- The rows that an update changes. -/
def changes (session row : Session) : Bool :=
  row.id = session.id && (!row.status.terminal || session.status.terminal)

/-- The columns that it writes. -/
def write (session row : Session) : Session :=
  { row with
    status := session.status
    lastActivity := session.lastActivity
    expiresAt := session.expiresAt
    ipAddress := session.ipAddress
    userAgent := session.userAgent
    metadata := session.metadata }

theorem updateSession_eq {session : Session} (h : Binds db session) :
    updateSession db session tab =
      if tab.rows.any fun row => changes session row && decide (session.expiresAt ≤ row.createdAt)
      then (.error refused, tab)
      else (.ok (), tab.modify (changes session) (write session) fun _ => rfl) := by
  obtain ⟨hip, hvarchar, hagent, hactivity, hexpires, hmetadata⟩ := h
  unfold updateSession
  simp only [hip, hagent, hactivity, hexpires, hmetadata, Option.pure_def, Option.bind_eq_bind,
    Option.bind_some, hvarchar]
  rfl

/-- An update of a session that is there. -/
theorem stepAgrees_update (h : SameRows mem tab) {session : Session} {now : DateTime} {pick : ℕ}
    (hfits : Fits db tab ⟨.update session, now, pick⟩) :
    StepAgrees db mem tab ⟨.update session, now, pick⟩ := by
  obtain ⟨hbinds, row, hrow, hid, hupdates⟩ := hfits
  have hget : Sessions.getById mem session.id = some row := by
    show mem.get session.id = some row
    rw [h.get]
    exact Keyed.get_eq_some.mpr ⟨hrow, hid⟩
  have hone {row' : Session} (hrow' : row' ∈ tab.rows) (hid' : row'.id = session.id) :
      row' = row := tab.eq_of_key hrow' hrow (hid'.trans hid.symm)
  unfold StepAgrees memory database
  dsimp only
  rw [updateSession_eq hbinds]
  unfold Sessions.update
  dsimp only
  rw [hget]
  dsimp only
  by_cases hguard : (row.status.terminal && !session.status.terminal) = true
  · -- the guard of both stores: nothing changes
    have hnone {row' : Session} (hrow' : row' ∈ tab.rows) : changes session row' = false := by
      unfold changes
      by_cases hid' : row'.id = session.id
      · rw [hone hrow' hid', hid]
        revert hguard
        cases row.status.terminal <;> cases session.status.terminal <;> simp
      · simp [hid']
    have hany : (tab.rows.any fun row =>
        changes session row && decide (session.expiresAt ≤ row.createdAt)) = false := by
      rw [List.any_eq_false]
      intro row' hrow'
      simp [hnone hrow']
    have hrows : (tab.modify (changes session) (write session) fun _ => rfl).rows = tab.rows := by
      refine (List.map_congr_left fun row' hrow' => ?_).trans (List.map_id _)
      show (if changes session row' then write session row' else row') = row'
      rw [hnone hrow', if_neg Bool.false_ne_true]
    rw [if_pos hguard, hany, if_neg Bool.false_ne_true]
    exact ⟨rfl, h.of_perm (hrows ▸ List.Perm.refl _)⟩
  · obtain ⟨htoken, huser, hcreated, hexpires⟩ := hupdates.resolve_left fun hterminal =>
      hguard (by simp [hterminal.1, hterminal.2])
    have hchanges {row' : Session} (hrow' : row' ∈ tab.rows) :
        changes session row' = decide (row'.id = session.id) := by
      unfold changes
      by_cases hid' : row'.id = session.id
      · rw [hone hrow' hid', hid]
        revert hguard
        cases row.status.terminal <;> cases session.status.terminal <;> simp
      · simp [hid']
    have hany : (tab.rows.any fun row =>
        changes session row && decide (session.expiresAt ≤ row.createdAt)) = false := by
      rw [List.any_eq_false]
      intro row' hrow'
      rw [hchanges hrow']
      by_cases hid' : row'.id = session.id
      · have hle : ¬session.expiresAt ≤ row.createdAt := DateTime.not_le.mpr hexpires
        rw [hone hrow' hid']
        simp [hle]
      · simp [hid']
    have hwrite : write session row = session := by
      unfold write
      rw [hid, htoken, huser, hcreated]
    have hput : (tab.modify (changes session) (write session) fun _ => rfl).rows.Perm
        (tab.put session).rows :=
      Keyed.modify_perm_put (fun row' hrow' => hchanges hrow') ⟨row, hrow, hid, hwrite⟩
    rw [if_neg hguard, hany, if_neg Bool.false_ne_true]
    refine ⟨rfl, (h.put fun row' hrow' hne htoken' => hne ?_).of_perm hput⟩
    -- tokens are unique: a row with the token of the session is its row
    have hsame := List.inj_on_of_nodup_map h.tokens hrow' hrow (htoken'.trans htoken.symm)
    rw [hsame, hid]

theorem stepAgrees_listActiveForUser (h : SameRows mem tab) {userId : String} {now : DateTime}
    {pick : ℕ} (hfits : Fits db tab ⟨.listActiveForUser userId, now, pick⟩) :
    StepAgrees db mem tab ⟨.listActiveForUser userId, now, pick⟩ := by
  have htext : db.text userId = some userId := hfits
  unfold StepAgrees memory database
  dsimp only
  rw [htext]
  refine ⟨?_, h⟩
  show List.Perm (Sessions.listActiveForUser mem pick userId) _
  have hperm := h.perm.filter fun row =>
    row.userId = userId && (row.status = .Active || row.status = .Locked)
  refine List.Perm.trans ?_ hperm
  unfold Sessions.listActiveForUser
  dsimp only
  cases hget : (List.permutations _)[pick]? with
  | none => exact List.Perm.refl _
  | some l => exact List.mem_permutations.mp (List.mem_of_getElem? hget)

theorem stepAgrees_deleteExpired (h : SameRows mem tab) {now : DateTime} {pick : ℕ}
    (hfits : Fits db tab ⟨.deleteExpired, now, pick⟩) :
    StepAgrees db mem tab ⟨.deleteExpired, now, pick⟩ := by
  have hnow : db.timestamptz now = some now := hfits
  have hretain := h.retain fun row => !row.isExpired now && !row.status.terminal
  have hcount := congrArg₂ (· - ·) h.perm.length_eq hretain.perm.length_eq
  unfold StepAgrees memory database
  dsimp only
  rw [hnow]
  exact ⟨congrArg Except.ok hcount, hretain⟩

theorem stepAgrees_lockIdle (h : SameRows mem tab) {idleBefore now : DateTime} {pick : ℕ}
    (hfits : Fits db tab ⟨.lockIdle idleBefore, now, pick⟩) :
    StepAgrees db mem tab ⟨.lockIdle idleBefore, now, pick⟩ := by
  have hbefore : db.timestamptz idleBefore = some idleBefore := hfits
  unfold StepAgrees memory database
  dsimp only
  rw [hbefore]
  exact ⟨congrArg Except.ok (h.perm.countP_eq _),
    h.modify (f := Session.lock) (fun _ => rfl) fun _ => rfl⟩

theorem stepAgrees_of_fits (h : SameRows mem tab) (hfits : Fits db tab step) :
    StepAgrees db mem tab step := by
  obtain ⟨op, now, pick⟩ := step
  cases op with
  | create session maxConcurrent => exact stepAgrees_create h hfits
  | getByToken token => exact stepAgrees_getByToken h hfits
  | getById id => exact ⟨congrArg Except.ok (h.get id), h⟩
  | update session => exact stepAgrees_update h hfits
  | listActiveForUser userId => exact stepAgrees_listActiveForUser h hfits
  | deleteExpired => exact stepAgrees_deleteExpired h hfits
  | lockIdle idleBefore => exact stepAgrees_lockIdle h hfits

/-! ### Runs -/

theorem forall₂_same (steps : List Step) (h : SameRows mem tab) (hfit : AllFit db steps tab) :
    List.Forall₂ Same (runMemory steps mem) (runDatabase db steps tab) := by
  induction steps generalizing mem tab with
  | nil => exact .nil
  | cons step rest ih =>
    obtain ⟨hsame, hrows⟩ := stepAgrees_of_fits h hfit.1
    exact .cons hsame (ih hrows hfit.2)

/-- **The stores agree along every sequence of operations that fit the table.** -/
theorem stores_agree (db : Columns) (steps : List Step) (hfit : AllFit db steps (.empty _)) :
    Agree db steps :=
  forall₂_same steps ⟨List.Perm.refl _, List.nodup_nil⟩ hfit

/-! ### An instance -/

namespace Instance

open Session.Instance

/-- Texts without the character 0 and times of whole microseconds. -/
def postgres : Columns where
  text value := if value.toList.contains (Char.ofNat 0) then none else some value
  varchar n value := if value.toList.contains (Char.ofNat 0) || n < value.length then none
    else some value
  timestamptz t := some (.ofMicros t.toMicros)
  jsonb value := some value

/-- An operation at a time in seconds. -/
def timed (secs : ℤ) (op : Operation) : Step := ⟨op, time secs, 0⟩

/-- A session is used and ended. -/
def logout : List Step :=
  [timed 0 (.create session 3), timed 100 (.getByToken "token"),
    timed 100 (.update (session.touch (time 100))), timed 101 (.listActiveForUser "user1"),
    timed 102 (.update session.terminate), timed 103 (.update session), timed 104 .deleteExpired]

/-- A session from behind two proxies. -/
def proxied : List Step :=
  [timed 0 (.create { session with ipAddress := some "10.0.0.1, 10.0.0.2" } 3),
    timed 1 (.getByToken "token")]

/-- The client address of the session that an operation found. -/
def addressOf : Result → Option (Option String)
  | .session (.ok found) => found.map Session.ipAddress
  | _ => none

theorem addressOf_eq {r r' : Result} (h : Same r r') : addressOf r = addressOf r' := by
  unfold Same at h
  split at h
  · rfl
  · rw [h]
  · rfl
  · rfl
  · rfl
  · exact h.elim

end Instance

open Instance in
/-- The map keeps the address as it was given, and the table drops it. -/
theorem stores_differ : ¬Agree postgres proxied := by
  intro h
  have haddress : (runMemory proxied (.empty _)).map addressOf
      = (runDatabase postgres proxied (.empty _)).map addressOf := by
    rw [← List.forall₂_eq_eq_eq, List.forall₂_map_left_iff, List.forall₂_map_right_iff]
    exact h.imp fun _ _ => addressOf_eq
  revert haddress
  decide +kernel

open Instance Session.Instance in
theorem stores_agree_logout : Agree postgres logout := by
  refine stores_agree postgres logout
    ⟨fun _ => ⟨rfl, by decide +kernel, fun row hrow => absurd hrow List.not_mem_nil⟩, rfl,
      ⟨⟨rfl, rfl, rfl, rfl, rfl, rfl⟩, session, .head _, rfl,
        .inr ⟨rfl, rfl, rfl, by decide +kernel⟩⟩, rfl,
      ⟨⟨rfl, rfl, rfl, rfl, rfl, rfl⟩, session.touch (time 100), .head _, rfl,
        .inr ⟨rfl, rfl, rfl, by decide +kernel⟩⟩,
      ⟨⟨rfl, rfl, rfl, rfl, rfl, rfl⟩, session.terminate, .head _, rfl, .inl ⟨rfl, rfl⟩⟩, rfl,
      trivial⟩

end Ostrich.Common.SessionStore
