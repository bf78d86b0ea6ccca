import Ostrich.Kra.Recovery
import Mathlib.Data.List.Dedup

/-!
# The progress of a recovery

Calls of `submitShare` for one session, one after the other and without failures of the database.
A row of the table of shares is made without a time of submission, which nothing sets later, and
without the index of the share.

* `answer_cases`: a call either stores a row or fails and changes nothing;
* `counted_iff`, `repeatsRefused`, `rebuildable_iff`: the three parts of the progress;
* `progress_iff`: a run shows its progress exactly when it stores no share at all.
-/

namespace Ostrich.Kra

open Interleave Table

/-! ### Runs -/

/-- A call of `submitShare`, and the id that the database gets for the row. -/
structure Submission where
  agentId : Uuid
  share : Share
  rowId : Uuid

/-- What the statements of the call get. -/
def Submission.choices (sub : Submission) : List Choice := [{}, {}, { id := sub.rowId }, {}]

/-- The row of a submission. -/
def Submission.row (sessionId : Uuid) (sub : Submission) : RecoveryShareRow where
  id := sub.rowId
  recoveryRequestId := sessionId
  agentId := sub.agentId
  encryptedShare := sub.share.value
  submittedAt := none

abbrev Answer := Except Failure RecoverySession

/-- What is left of a run that may have had too few choices. -/
def ofSolo (s : Store) :
    Option (Prog.Solo Call Reply Failure RecoverySession Store Choice) → Answer × Store
  | some run => (run.result, run.store)
  | none => (.error .panic, s)

/-- The answer to a submission, and the store after it. -/
def answer (sessionId : Uuid) (sub : Submission) (s : Store) : Answer × Store :=
  ofSolo s ((submitShare sessionId sub.agentId sub.share).solo exec sub.choices s)

/-- The answers to submissions, and the store after them. -/
def serve (sessionId : Uuid) : Store → List Submission → List (Submission × Answer) × Store
  | s, [] => ([], s)
  | s, sub :: run =>
    ((sub, (answer sessionId sub s).1) :: (serve sessionId (answer sessionId sub s).2 run).1,
      (serve sessionId (answer sessionId sub s).2 run).2)

/-- The submissions that were accepted. -/
def accepted (log : List (Submission × Answer)) : List Submission :=
  log.filterMap fun a => if a.2.isOk then some a.1 else none

/-! ### The property -/

/-- A successful call counts the agents whose share was accepted, its own included. -/
def Counted (sessionId : Uuid) (s : Store) (run : List Submission) : Prop :=
  ∀ before sub after session, run = before ++ sub :: after →
    (answer sessionId sub (serve sessionId s before).2).1 = .ok session →
    session.sharesCollected = (((accepted (serve sessionId s (before ++ [sub])).1).map
      Submission.agentId).dedup.length : ℤ)

/-- A second submission of an agent fails and changes nothing. -/
def RepeatsRefused (sessionId : Uuid) (s : Store) (run : List Submission) : Prop :=
  ∀ before sub after, run = before ++ sub :: after →
    sub.agentId ∈ (accepted (serve sessionId s before).1).map Submission.agentId →
    ∃ e, answer sessionId sub (serve sessionId s before).2 =
      (.error e, (serve sessionId s before).2)

/-- The rows of a session. -/
def sessionRows (sessionId : Uuid) (s : Store) : List RecoveryShareRow :=
  s.shares.rows.filter (·.recoveryRequestId = sessionId)

/-- The shares that were accepted. -/
def acceptedShares (sessionId : Uuid) (s : Store) (run : List Submission) : List Share :=
  (accepted (serve sessionId s run).1).map Submission.share

/-- What is stored for the session determines the shares that were accepted. -/
def Rebuildable (sessionId : Uuid) (s : Store) (run : List Submission) : Prop :=
  ∀ other, sessionRows sessionId (serve sessionId s other).2
      = sessionRows sessionId (serve sessionId s run).2 →
    acceptedShares sessionId s other = acceptedShares sessionId s run

structure Progress (sessionId : Uuid) (s : Store) (run : List Submission) : Prop where
  counted : Counted sessionId s run
  repeatsRefused : RepeatsRefused sessionId s run
  rebuildable : Rebuildable sessionId s run

/-- The session exists, the agent is registered and has no share in it, and the id of the row is
new. -/
structure Acceptable (sessionId : Uuid) (sub : Submission) (s : Store) : Prop where
  session : s.requests.get sessionId ≠ none
  agent : s.agents.get sub.agentId ≠ none
  first : ∀ row ∈ s.shares.rows, row.recoveryRequestId = sessionId → row.agentId ≠ sub.agentId
  fresh : ∀ row ∈ s.shares.rows, row.id ≠ sub.rowId

variable {sessionId : Uuid} {sub : Submission} {s : Store}

/-! ### One call -/

/-- A program that goes on with the reply to its call. -/
theorem ofSolo_call {d s' : Store} {e : Call} {k : Reply e → KraM RecoverySession} {c : Choice}
    {cs : List Choice} {r : Reply e} (h : exec e c s = (r, s')) :
    ofSolo d ((Prog.call e k).solo exec (c :: cs) s) = ofSolo d ((k r).solo exec cs s') := by
  rw [Prog.solo, h]
  cases (k r).solo exec cs s' with
  | none => rfl
  | some run => rfl

/-- The session that a call returns. -/
def sessionOf (request : RecoveryRequestRow) (sessionId : Uuid) (s : Store) : RecoverySession :=
  { id := sessionId, escrowId := request.escrowedKeyId, status := .CollectingShares
    threshold := request.requiredShares.toNat
    sharesCollected := s.shares.rows.countP fun row =>
      row.recoveryRequestId = sessionId && row.submittedAt.isSome
    requestor := request.requestor, justification := request.justification
    approvedBy := none, createdAt := request.createdAt, completedAt := none }

/-- A call for a session that does not exist. -/
theorem answer_of_no_session (h : s.requests.get sessionId = none) :
    ∃ e, answer sessionId sub s = (.error e, s) := by
  have hfind : exec (.findRecoveryRequest sessionId) {} s = (.ok none, s) := by
    show (Except.ok (s.requests.get sessionId), s) = _
    rw [h]
  exact ⟨_, (ofSolo_call rfl).trans (ofSolo_call hfind)⟩

/-- A call whose row is refused. -/
theorem answer_of_refused {request : RecoveryRequestRow}
    (hrequest : s.requests.get sessionId = some request) {e : String}
    (hinsert : insertShare (sub.row sessionId) s = (.error e, s)) :
    ∃ e, answer sessionId sub s = (.error e, s) := by
  have hfind : exec (.findRecoveryRequest sessionId) {} s = (.ok (some request), s) := by
    show (Except.ok (s.requests.get sessionId), s) = _
    rw [hrequest]
  have hcreate : exec (.createRecoveryShare sessionId sub.agentId sub.share.value)
      { id := sub.rowId } s = (.error e, s) := hinsert
  exact ⟨_, (ofSolo_call rfl).trans ((ofSolo_call hfind).trans (ofSolo_call hcreate))⟩

/-- A call whose row is stored. -/
theorem answer_of_stored {request : RecoveryRequestRow}
    (hrequest : s.requests.get sessionId = some request) {row : RecoveryShareRow} {s' : Store}
    (hinsert : insertShare (sub.row sessionId) s = (.ok row, s')) :
    answer sessionId sub s = (.ok (sessionOf request sessionId s'), s') := by
  have hfind : exec (.findRecoveryRequest sessionId) {} s = (.ok (some request), s) := by
    show (Except.ok (s.requests.get sessionId), s) = _
    rw [hrequest]
  have hcreate : exec (.createRecoveryShare sessionId sub.agentId sub.share.value)
      { id := sub.rowId } s = (.ok row, s') := hinsert
  exact (ofSolo_call rfl).trans ((ofSolo_call hfind).trans
    ((ofSolo_call hcreate).trans (ofSolo_call rfl)))

theorem insertShare_of_acceptable (h : Acceptable sessionId sub s) :
    ∃ shares, insertShare (sub.row sessionId) s = (.ok (sub.row sessionId), { s with shares }) ∧
      shares.rows = s.shares.rows ++ [sub.row sessionId] := by
  have hforeign : ¬(s.requests.get (sub.row sessionId).recoveryRequestId = none ∨
      s.agents.get (sub.row sessionId).agentId = none) := by
    rintro (hnone | hnone)
    · exact h.session hnone
    · exact h.agent hnone
  have hunique : ¬(s.shares.rows.any fun row' =>
      row'.recoveryRequestId = (sub.row sessionId).recoveryRequestId &&
        row'.agentId = (sub.row sessionId).agentId) = true := by
    rw [List.any_eq_true]
    rintro ⟨row, hrow, hsame⟩
    rw [Bool.and_eq_true, decide_eq_true_eq, decide_eq_true_eq] at hsame
    exact h.first row hrow hsame.1 hsame.2
  have hkey : RecoveryShareRow.id (sub.row sessionId) ∉ s.shares.rows.map RecoveryShareRow.id := by
    intro hmem
    obtain ⟨row, hrow, hid⟩ := List.mem_map.mp hmem
    exact h.fresh row hrow hid
  cases hinsert : s.shares.insert? (sub.row sessionId) with
  | none =>
    unfold Keyed.insert? at hinsert
    rw [dif_neg hkey] at hinsert
    cases hinsert
  | some shares =>
    refine ⟨shares, ?_, (Keyed.rows_of_insert? hinsert).2⟩
    unfold insertShare
    rw [if_neg hforeign, if_neg hunique, hinsert]

theorem insertShare_of_not_acceptable (hsession : s.requests.get sessionId ≠ none)
    (h : ¬Acceptable sessionId sub s) :
    ∃ e, insertShare (sub.row sessionId) s = (.error e, s) := by
  unfold insertShare
  split_ifs with hforeign hunique
  · exact ⟨_, rfl⟩
  · exact ⟨_, rfl⟩
  · cases hinsert : s.shares.insert? (sub.row sessionId) with
    | none => exact ⟨_, rfl⟩
    | some shares =>
      have hkey := (Keyed.rows_of_insert? hinsert).1
      rw [not_or] at hforeign
      rw [List.any_eq_true] at hunique
      refine absurd ⟨hsession, hforeign.2, fun row hrow hid hagent => ?_, fun row hrow hid => ?_⟩ h
      · refine hunique ⟨row, hrow, ?_⟩
        rw [Bool.and_eq_true, decide_eq_true_eq, decide_eq_true_eq]
        exact ⟨hid, hagent⟩
      · exact hkey (List.mem_map.mpr ⟨row, hrow, hid⟩)

/-- **A call either stores a row or fails and changes nothing.** -/
theorem answer_cases (sessionId : Uuid) (sub : Submission) (s : Store) :
    (Acceptable sessionId sub s ∧ ∃ request shares, s.requests.get sessionId = some request ∧
      shares.rows = s.shares.rows ++ [sub.row sessionId] ∧
      answer sessionId sub s =
        (.ok (sessionOf request sessionId { s with shares }), { s with shares })) ∨
    ¬Acceptable sessionId sub s ∧ ∃ e, answer sessionId sub s = (.error e, s) := by
  by_cases h : Acceptable sessionId sub s
  · left
    obtain ⟨request, hrequest⟩ := Option.ne_none_iff_exists'.mp h.session
    obtain ⟨shares, hinsert, hrows⟩ := insertShare_of_acceptable h
    exact ⟨h, request, shares, hrequest, hrows, answer_of_stored hrequest hinsert⟩
  · right
    refine ⟨h, ?_⟩
    by_cases hsession : s.requests.get sessionId = none
    · exact answer_of_no_session hsession
    · obtain ⟨request, hrequest⟩ := Option.ne_none_iff_exists'.mp hsession
      obtain ⟨e, hinsert⟩ := insertShare_of_not_acceptable hsession h
      exact answer_of_refused hrequest hinsert

/-! ### Runs -/

theorem serve_append (first second : List Submission) : ∀ s : Store,
    serve sessionId s (first ++ second) =
      ((serve sessionId s first).1 ++ (serve sessionId (serve sessionId s first).2 second).1,
        (serve sessionId (serve sessionId s first).2 second).2) := by
  induction first with
  | nil => exact fun _ => rfl
  | cons sub first ih =>
    intro s
    rw [List.cons_append, serve, ih]
    rfl

/-- One more submission that is accepted. -/
theorem accepted_cons_ok {log : List (Submission × Answer)} {session : RecoverySession} :
    accepted ((sub, .ok session) :: log) = sub :: accepted log := rfl

theorem accepted_cons_error {log : List (Submission × Answer)} {e : Failure} :
    accepted ((sub, .error e) :: log) = accepted log := rfl

theorem accepted_append (first second : List (Submission × Answer)) :
    accepted (first ++ second) = accepted first ++ accepted second :=
  List.filterMap_append ..

/-- What a run leaves: a row for each accepted submission. -/
theorem serve_store (run : List Submission) : ∀ s : Store,
    ∃ shares, (serve sessionId s run).2 = { s with shares } ∧
      shares.rows = s.shares.rows ++
        (accepted (serve sessionId s run).1).map (Submission.row sessionId) := by
  induction run with
  | nil => exact fun s => ⟨s.shares, rfl, (List.append_nil _).symm⟩
  | cons sub run ih =>
    intro s
    rcases answer_cases sessionId sub s with ⟨-, request, shares, -, hrows, heq⟩ | ⟨-, e, heq⟩
    · obtain ⟨shares', hstore, hrows'⟩ := ih { s with shares }
      refine ⟨shares', ?_, ?_⟩
      · show (serve sessionId (answer sessionId sub s).2 run).2 = _
        rw [heq, hstore]
      · show shares'.rows = _ ++ (accepted ((sub, (answer sessionId sub s).1) ::
          (serve sessionId (answer sessionId sub s).2 run).1)).map _
        rw [heq, accepted_cons_ok, hrows', hrows, List.map_cons, List.append_assoc]
        rfl
    · obtain ⟨shares', hstore, hrows'⟩ := ih s
      refine ⟨shares', ?_, ?_⟩
      · show (serve sessionId (answer sessionId sub s).2 run).2 = _
        rw [heq, hstore]
      · show shares'.rows = _ ++ (accepted ((sub, (answer sessionId sub s).1) ::
          (serve sessionId (answer sessionId sub s).2 run).1)).map _
        rw [heq, accepted_cons_error, hrows']

/-- A run none of whose submissions can be accepted. -/
theorem serve_of_none {run : List Submission} (h : ∀ sub ∈ run, ¬Acceptable sessionId sub s) :
    (serve sessionId s run).2 = s ∧ accepted (serve sessionId s run).1 = [] := by
  induction run with
  | nil => exact ⟨rfl, rfl⟩
  | cons sub run ih =>
    rcases answer_cases sessionId sub s with ⟨hacceptable, -⟩ | ⟨-, e, heq⟩
    · exact absurd hacceptable (h sub List.mem_cons_self)
    · obtain ⟨hstore, haccepted⟩ := ih fun sub' hsub' => h sub' (List.mem_cons_of_mem sub hsub')
      rw [serve, heq]
      exact ⟨hstore, haccepted⟩

/-- The first submission of a run that can be accepted. -/
theorem exists_first {run : List Submission} (h : ∃ sub ∈ run, Acceptable sessionId sub s) :
    ∃ before sub after, run = before ++ sub :: after ∧ Acceptable sessionId sub s ∧
      ∀ sub' ∈ before, ¬Acceptable sessionId sub' s := by
  induction run with
  | nil =>
    obtain ⟨sub, hmem, -⟩ := h
    cases hmem
  | cons head run ih =>
    by_cases hhead : Acceptable sessionId head s
    · exact ⟨[], head, run, rfl, hhead, fun sub' hsub' => by cases hsub'⟩
    · obtain ⟨sub, hmem, hacceptable⟩ := h
      have hrun : ∃ sub ∈ run, Acceptable sessionId sub s := by
        rcases List.mem_cons.mp hmem with rfl | hmem
        · exact absurd hacceptable hhead
        · exact ⟨sub, hmem, hacceptable⟩
      obtain ⟨before, sub', after, hsplit, hfirst, hbefore⟩ := ih hrun
      refine ⟨head :: before, sub', after, congrArg _ hsplit, hfirst, fun sub'' hsub'' => ?_⟩
      rcases List.mem_cons.mp hsub'' with rfl | hsub''
      · exact hhead
      · exact hbefore sub'' hsub''

/-! ### The three parts -/

/-- No share of the session has a time of submission. -/
theorem count_eq_zero (hnew : ∀ row ∈ s.shares.rows, row.recoveryRequestId ≠ sessionId)
    {shares : Keyed RecoveryShareRow.id} {subs : List Submission}
    (hrows : shares.rows = s.shares.rows ++ subs.map (Submission.row sessionId)) :
    (shares.rows.countP fun row =>
      row.recoveryRequestId = sessionId && row.submittedAt.isSome) = 0 := by
  rw [List.countP_eq_zero]
  intro row hrow hcounted
  rw [Bool.and_eq_true, decide_eq_true_eq] at hcounted
  rw [hrows, List.mem_append] at hrow
  rcases hrow with hrow | hrow
  · exact hnew row hrow hcounted.1
  · obtain ⟨sub, -, rfl⟩ := List.mem_map.mp hrow
    cases hcounted.2

theorem counted_iff (hnew : ∀ row ∈ s.shares.rows, row.recoveryRequestId ≠ sessionId)
    (run : List Submission) :
    Counted sessionId s run ↔ ∀ sub ∈ run, ¬Acceptable sessionId sub s := by
  constructor
  · intro hcounted sub hsub hacceptable
    obtain ⟨before, sub', after, hsplit, hfirst, hbefore⟩ := exists_first ⟨sub, hsub, hacceptable⟩
    obtain ⟨hstore, haccepted⟩ := serve_of_none hbefore
    rcases answer_cases sessionId sub' s with ⟨-, request, shares, -, hrows, heq⟩ | ⟨hnot, -⟩
    · have hanswer := hcounted before sub' after (sessionOf request sessionId { s with shares })
        hsplit (by rw [hstore, heq])
      have hlog : accepted (serve sessionId s (before ++ [sub'])).1 = [sub'] := by
        rw [serve_append, accepted_append, haccepted, hstore, serve, heq]
        rfl
      have hzero := @count_eq_zero _ _ hnew _ [sub'] hrows
      rw [hlog] at hanswer
      have hcount : (sessionOf request sessionId { s with shares }).sharesCollected = 0 := by
        show ((shares.rows.countP _ : ℕ) : ℤ) = 0
        rw [hzero]
        rfl
      rw [hcount, List.map_singleton, List.dedup_eq_self.mpr (List.nodup_singleton _)] at hanswer
      cases hanswer
    · exact hnot hfirst
  · intro hnone before sub after session hsplit hok
    have hbefore := @serve_of_none sessionId s before
      fun sub' hsub' => hnone sub' (by rw [hsplit]; exact List.mem_append_left _ hsub')
    rw [hbefore.1] at hok
    rcases answer_cases sessionId sub s with ⟨hacceptable, -⟩ | ⟨-, e, heq⟩
    · exact absurd hacceptable (hnone sub (by rw [hsplit]; simp))
    · rw [heq] at hok
      cases hok

/-- The agent of an accepted share cannot submit another. -/
theorem repeatsRefused (sessionId : Uuid) (s : Store) (run : List Submission) :
    RepeatsRefused sessionId s run := by
  intro before sub after _ hmem
  obtain ⟨earlier, hearlier, hagent⟩ := List.mem_map.mp hmem
  obtain ⟨shares, hstore, hrows⟩ := @serve_store sessionId before s
  rcases answer_cases sessionId sub (serve sessionId s before).2 with ⟨hacceptable, -⟩ | ⟨-, h⟩
  · have hrow : earlier.row sessionId ∈ (serve sessionId s before).2.shares.rows := by
      rw [hstore]
      show _ ∈ shares.rows
      rw [hrows]
      exact List.mem_append_right _ (List.mem_map_of_mem hearlier)
    exact absurd hagent (hacceptable.first _ hrow rfl)
  · exact h

/-- The submission with the next index. -/
def Submission.reindex (sub : Submission) : Submission :=
  { sub with share := { sub.share with index := sub.share.index + 1 } }

/-- The index of a share changes nothing. -/
theorem answer_reindex (sub : Submission) (s : Store) :
    answer sessionId sub.reindex s = answer sessionId sub s := rfl

theorem serve_reindex (run : List Submission) : ∀ s : Store,
    (serve sessionId s (run.map Submission.reindex)).2 = (serve sessionId s run).2 ∧
      accepted (serve sessionId s (run.map Submission.reindex)).1 =
        (accepted (serve sessionId s run).1).map Submission.reindex := by
  induction run with
  | nil => exact fun s => ⟨rfl, rfl⟩
  | cons sub run ih =>
    intro s
    obtain ⟨hstore, haccepted⟩ := ih (answer sessionId sub s).2
    rw [List.map_cons, serve, serve, answer_reindex]
    refine ⟨hstore, ?_⟩
    cases hanswer : (answer sessionId sub s).1 with
    | ok session =>
      rw [accepted_cons_ok, accepted_cons_ok, haccepted]
      rfl
    | error e => rw [accepted_cons_error, accepted_cons_error, haccepted]

/-- The accepted submissions of a run that has one. -/
theorem accepted_eq_nil_iff (run : List Submission) :
    accepted (serve sessionId s run).1 = [] ↔ ∀ sub ∈ run, ¬Acceptable sessionId sub s := by
  constructor
  · intro hnil sub hsub hacceptable
    obtain ⟨before, sub', after, rfl, hfirst, hbefore⟩ := exists_first ⟨sub, hsub, hacceptable⟩
    obtain ⟨hstore, -⟩ := serve_of_none hbefore
    rcases answer_cases sessionId sub' s with ⟨-, request, shares, -, -, heq⟩ | ⟨hnot, -⟩
    · rw [serve_append, accepted_append, hstore, serve, heq, accepted_cons_ok] at hnil
      exact absurd hnil (by simp)
    · exact hnot hfirst
  · exact fun h => (serve_of_none h).2

theorem rebuildable_iff (hnew : ∀ row ∈ s.shares.rows, row.recoveryRequestId ≠ sessionId)
    (run : List Submission) :
    Rebuildable sessionId s run ↔ ∀ sub ∈ run, ¬Acceptable sessionId sub s := by
  rw [← accepted_eq_nil_iff]
  constructor
  · intro h
    obtain ⟨hstore, haccepted⟩ := @serve_reindex sessionId run s
    have hsame := h (run.map Submission.reindex) (by rw [hstore])
    unfold acceptedShares at hsame
    rw [haccepted, List.map_map] at hsame
    cases hlog : accepted (serve sessionId s run).1 with
    | nil => rfl
    | cons sub rest =>
      rw [hlog, List.map_cons, List.map_cons] at hsame
      have hindex := congrArg Share.index (List.cons.inj hsame).1
      replace hindex : sub.share.index + 1 = sub.share.index := hindex
      have hnat := congrArg UInt8.toNat hindex
      rw [UInt8.toNat_add] at hnat
      have hlt := sub.share.index.toNat_lt
      have hone : (1 : UInt8).toNat = 1 := rfl
      omega
  · intro hnil other hrows
    have hlength : ∀ run', (sessionRows sessionId (serve sessionId s run').2).length =
        (acceptedShares sessionId s run').length := by
      intro run'
      obtain ⟨shares, hstore, hrows⟩ := @serve_store sessionId run' s
      have hold : s.shares.rows.filter (·.recoveryRequestId = sessionId) = [] := by
        rw [List.filter_eq_nil_iff]
        intro row hrow hid
        exact hnew row hrow (of_decide_eq_true hid)
      unfold sessionRows acceptedShares
      rw [hstore]
      show (shares.rows.filter _).length = _
      rw [hrows, List.filter_append, hold, List.nil_append, List.filter_eq_self.mpr,
        List.length_map, List.length_map]
      intro row hrow
      obtain ⟨sub, -, rfl⟩ := List.mem_map.mp hrow
      exact decide_eq_true rfl
    have hother := hlength other
    rw [hrows, hlength run] at hother
    have hempty : acceptedShares sessionId s run = [] := by
      unfold acceptedShares
      rw [hnil]
      rfl
    rw [hempty] at hother ⊢
    exact List.eq_nil_of_length_eq_zero hother.symm

/-- **A run shows its progress exactly when it stores no share**: in a session without shares, no
submission is for an existing session, by a registered agent, and with a new id. -/
theorem progress_iff (hnew : ∀ row ∈ s.shares.rows, row.recoveryRequestId ≠ sessionId)
    (run : List Submission) :
    Progress sessionId s run ↔ ∀ sub ∈ run, ¬Acceptable sessionId sub s := by
  constructor
  · exact fun h => (counted_iff hnew run).mp h.counted
  · exact fun h => ⟨(counted_iff hnew run).mpr h, repeatsRefused sessionId s run,
      (rebuildable_iff hnew run).mpr h⟩

/-- A session, and an agent. -/
def oneSession : Store where
  escrowedKeys := .empty _
  agents := ⟨[⟨⟨7⟩, true⟩], List.nodup_singleton _⟩
  requests := ⟨[⟨⟨1⟩, ⟨2⟩, "officer", "lost key", "pending", 3, 5, .ofMicros 0⟩],
    List.nodup_singleton _⟩
  shares := .empty _

/-- The submission of a stranger is refused; that run shows its progress. -/
theorem progress_of_stranger : Progress ⟨1⟩ oneSession [⟨⟨8⟩, ⟨1, [42]⟩, ⟨9⟩⟩] := by
  refine (progress_iff (fun row hrow => ?_) _).mpr fun sub hsub hacceptable => ?_
  · cases hrow
  · obtain rfl := List.mem_singleton.mp hsub
    exact hacceptable.agent rfl

/-- The first share of a session is accepted and counted as none. -/
theorem no_progress_of_first : ¬Progress ⟨1⟩ oneSession [⟨⟨7⟩, ⟨1, [42]⟩, ⟨9⟩⟩] := by
  intro h
  have hnone := (counted_iff (fun row hrow => by cases hrow) _).mp h.counted
  refine hnone _ (List.mem_singleton_self _) ⟨?_, ?_, fun row hrow => ?_, fun row hrow => ?_⟩
  · decide
  · decide
  · cases hrow
  · cases hrow

end Ostrich.Kra
