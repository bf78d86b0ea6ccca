import Ostrich.Kra.Equiv.Shamir
import Ostrich.Kra.Recovery

/-!
# What escrow and recovery do

`kraSpec` says what each operation leaves in its history: a completed recovery is decided by the
rows that it read and by `recover`, the pure part of `completeRecovery`.  `Grows` says what every
call keeps of the database: no row of it is changed or removed.
-/

namespace Ostrich.Kra

open Interleave Table Prog System

/-! ### What the operations do -/

/-- The last part of `completeRecovery`. -/
def recover (aead : Aead) (shares : List Share) (threshold : ℕ) (key : EscrowedKeyRow) :
    Except Failure (List UInt8) :=
  match reconstruct shares threshold with
  | .ok kek => match unwrapKey aead kek key.wrappedKey key.certificateId.asBytes with
    | .ok privateKey => .ok privateKey
    | .error e => .error (.error e)
  | .err e => .error (.error e)
  | .panic => .error .panic
  | .hang => .error .panic

/-- How `completeRecovery` ends. -/
inductive Completed (aead : Aead) (sessionId : Uuid) (shares : List Share) (threshold : ℕ)
    (h : History Call Reply) : Except Failure Result → Prop
  | insufficient (hlen : shares.length < threshold) :
      Completed aead sessionId shares threshold h
        (.error (.error (.InsufficientShares threshold shares.length)))
  | noRequest {e : String} (hmem : ⟨.findRecoveryRequest sessionId, .error e⟩ ∈ h) :
      Completed aead sessionId shares threshold h (.error (.error (.Database e)))
  | noSession {e : Failure} (hmem : ⟨.findRecoveryRequest sessionId, .ok none⟩ ∈ h) :
      Completed aead sessionId shares threshold h (.error e)
  | noRead {request : RecoveryRequestRow} {e : String}
      (hmem : ⟨.findEscrowedKey request.escrowedKeyId, .error e⟩ ∈ h) :
      Completed aead sessionId shares threshold h (.error (.error (.Database e)))
  | noKey {request : RecoveryRequestRow} {e : Failure}
      (hrequest : ⟨.findRecoveryRequest sessionId, .ok (some request)⟩ ∈ h)
      (hmem : ⟨.findEscrowedKey request.escrowedKeyId, .ok none⟩ ∈ h) :
      Completed aead sessionId shares threshold h (.error e)
  | decided {request : RecoveryRequestRow} {key : EscrowedKeyRow}
      (hrequest : ⟨.findRecoveryRequest sessionId, .ok (some request)⟩ ∈ h)
      (hkey : ⟨.findEscrowedKey request.escrowedKeyId, .ok (some key)⟩ ∈ h) :
      Completed aead sessionId shares threshold h
        ((recover aead shares threshold key).map .recovered)

/-- What `escrowKey` has done when it returns. -/
def Escrowed (aead : Aead) (request : KeyEscrowRequest) (key : EscrowedKey) (shares : List Share)
    (h : History Call Reply) : Prop :=
  ∃ kek nonce wrapped draws row,
    wrapKey aead kek request.privateKey request.certificateId.asBytes nonce = .ok wrapped ∧
    split draws kek request.threshold request.numAgents = .ok shares ∧
    ⟨.createEscrowedKey request.certificateId wrapped request.keyType request.keyType,
      .ok row⟩ ∈ h ∧
    key.id = row.id

/-- What `initiateRecovery` has done when it returns. -/
def Initiated (request : RecoveryRequest) (session : RecoverySession) (h : History Call Reply) :
    Prop :=
  session.threshold = 3 ∧ ∃ row, session.id = row.id ∧
    ⟨.createRecoveryRequest request.escrowId request.requestor request.justification 3
      5, .ok row⟩ ∈ h

/-- How the operations end. -/
def kraSpec (aead : Aead) : Spec Call Reply Failure Result Task where
  calls _ _ _ := True
  result
    | .escrowKey request, r, h => ∀ key shares, r = .ok (.escrowed key shares) →
        Escrowed aead request key shares h
    | .initiateRecovery request, r, h => ∀ session, r = .ok (.session session) →
        Initiated request session h
    | .submitShare .., r, _ => ∀ privateKey, r ≠ .ok (.recovered privateKey)
    | .completeRecovery sessionId shares threshold, r, h =>
        Completed aead sessionId shares threshold h r

section

variable {aead : Aead} {h : History Call Reply} {α : Type}

/-- Every call is admitted. -/
abbrev anyCall : History Call Reply → Call → Prop := fun _ _ => True

theorem does_any (p : KraM α) : p.Does anyCall (fun _ _ => True) h := by
  refine (within_of_forall (fun _ => trivial) p).wp (fun _ _ he => he) fun _ _ _ _ _ => trivial

/-- The end of a completion: the result of unwrapping and its record. -/
def auditUnwrapped (sessionId : Uuid) : Except Error (List UInt8) → KraM (List UInt8)
  | .error e => do
    await (.audit "system" sessionId.toString "complete_recovery" .Failure)
    raise e
  | .ok privateKey => do
    await (.audit "system" sessionId.toString "complete_recovery" .Success)
    return privateKey

theorem completeRecovery_wp (sessionId : Uuid) (shares : List Share) (threshold : ℕ) :
    (completeRecovery aead sessionId shares threshold).Wp anyCall
      (fun r h' => Completed aead sessionId shares threshold h' (r.map .recovered)) [] := by
  unfold completeRecovery
  split_ifs with hlen
  · exact .insufficient hlen
  · refine ⟨trivial, fun reply => ?_⟩
    cases reply with
    | error e => exact .noRequest (List.mem_singleton_self _)
    | ok found =>
      cases found with
      | none => exact .noSession (List.mem_singleton_self _)
      | some request =>
        have hrequest {reply : Reply (.findEscrowedKey request.escrowedKeyId)}
            (new : History Call Reply) :
            (⟨.findRecoveryRequest sessionId, .ok (some request)⟩ : (e : Call) × Reply e) ∈
              [⟨.findRecoveryRequest sessionId, .ok (some request)⟩]
                ++ [⟨.findEscrowedKey request.escrowedKeyId, reply⟩] ++ new := by simp
        have hread (reply : Reply (.findEscrowedKey request.escrowedKeyId))
            (new : History Call Reply) :
            (⟨.findEscrowedKey request.escrowedKeyId, reply⟩ : (e : Call) × Reply e) ∈
              [⟨.findRecoveryRequest sessionId, .ok (some request)⟩]
                ++ [⟨.findEscrowedKey request.escrowedKeyId, reply⟩] ++ new := by simp
        refine ⟨trivial, fun reply => ?_⟩
        cases reply with
        | error e => exact .noRead (hread (.error e) [])
        | ok found =>
          cases found with
          | none => exact .noKey (hrequest []) (hread (.ok none) [])
          | some key =>
            have hdecided (new : History Call Reply) : Completed aead sessionId shares threshold
                ([⟨.findRecoveryRequest sessionId, .ok (some request)⟩]
                  ++ [⟨.findEscrowedKey request.escrowedKeyId, .ok (some key)⟩] ++ new)
                ((recover aead shares threshold key).map .recovered) :=
              .decided (hrequest new) (hread (.ok (some key)) new)
            unfold recover at hdecided
            cases hrec : reconstruct shares threshold with
            | err e =>
              rw [hrec] at hdecided
              exact hdecided []
            | panic =>
              rw [hrec] at hdecided
              exact hdecided []
            | hang =>
              rw [hrec] at hdecided
              exact hdecided []
            | ok kek =>
              rw [hrec] at hdecided
              dsimp only at hdecided
              show Wp anyCall _ (auditUnwrapped sessionId
                (unwrapKey aead kek key.wrappedKey key.certificateId.asBytes)) _
              cases hunwrap : unwrapKey aead kek key.wrappedKey key.certificateId.asBytes with
              | error e =>
                rw [hunwrap] at hdecided
                exact ⟨trivial, fun _ => hdecided _⟩
              | ok privateKey =>
                rw [hunwrap] at hdecided
                exact ⟨trivial, fun _ => hdecided _⟩

theorem does_query {r : Except String α} {result : α → History Call Reply → Prop} :
    (query r).Does anyCall result h ↔ ∀ a, r = .ok a → result a h := by
  cases r with
  | ok a =>
    refine (does_pure a).trans ⟨fun hres _ heq => ?_, fun hres => hres a rfl⟩
    exact Except.ok.inj heq ▸ hres
  | error e => exact ⟨fun _ => nofun, fun _ => (does_fail _).mpr trivial⟩

theorem does_liftExcept {r : Except Error α} {result : α → History Call Reply → Prop} :
    (liftExcept r).Does anyCall result h ↔ ∀ a, r = .ok a → result a h := by
  cases r with
  | ok a =>
    refine (does_pure a).trans ⟨fun hres _ heq => ?_, fun hres => hres a rfl⟩
    exact Except.ok.inj heq ▸ hres
  | error e => exact ⟨fun _ => nofun, fun _ => (does_fail _).mpr trivial⟩

theorem does_liftOutcome {r : Outcome Error α} {result : α → History Call Reply → Prop} :
    (liftOutcome r).Does anyCall result h ↔ ∀ a, r = .ok a → result a h := by
  cases r with
  | ok a =>
    refine (does_pure a).trans ⟨fun hres _ heq => ?_, fun hres => hres a rfl⟩
    exact Outcome.ok.inj heq ▸ hres
  | err e => exact ⟨fun _ => nofun, fun _ => (does_fail _).mpr trivial⟩
  | panic => exact ⟨fun _ => nofun, fun _ => (does_fail _).mpr trivial⟩
  | hang => exact ⟨fun _ => nofun, fun _ => (does_fail _).mpr trivial⟩

theorem does_fillBytes {n : ℕ} {what : String} {result : Bytes n → History Call Reply → Prop}
    (hresult : ∀ bytes, result bytes (h ++ [⟨.fill n, some bytes⟩])) :
    (fillBytes n what).Does anyCall result h := by
  refine ⟨trivial, fun reply => ?_⟩
  cases reply with
  | none => exact (does_fail _).mpr trivial
  | some bytes => exact (does_pure _).mpr (hresult bytes)

/-- The records of the distribution only add to the history. -/
theorem does_auditShares (requestor : String) (shares : List Share) (idx : ℕ) :
    (auditShares requestor idx shares).Does anyCall (fun _ h' => ∃ new, h' = h ++ new) h := by
  induction shares generalizing idx h with
  | nil => exact (does_pure _).mpr ⟨[], (List.append_nil h).symm⟩
  | cons share rest ih =>
    unfold auditShares
    rw [does_bind]
    refine (does_perform _).mpr ⟨trivial, fun r => (ih (idx + 1)).mono ?_⟩
    rintro _ h' ⟨new, rfl⟩
    exact ⟨_, List.append_assoc ..⟩

theorem escrowKey_does (request : KeyEscrowRequest) :
    (escrowKey aead request).Does anyCall
      (fun r h' => Escrowed aead request r.1 r.2 h') h := by
  unfold escrowKey
  split_ifs
  · exact (does_fail _).mpr trivial
  · exact (does_fail _).mpr trivial
  · rw [does_bind]
    refine does_fillBytes fun kek => ?_
    rw [does_bind]
    refine does_fillBytes fun nonce => ?_
    rw [does_bind, does_liftExcept]
    intro wrapped hwrapped
    rw [does_bind]
    refine (does_perform _).mpr ⟨trivial, fun draws => ?_⟩
    rw [does_bind, does_liftOutcome]
    intro shares hshares
    rw [does_bind]
    refine (does_perform _).mpr ⟨trivial, fun reply => ?_⟩
    rw [does_bind, does_query]
    rintro row rfl
    rw [does_bind]
    refine (does_perform _).mpr ⟨trivial, fun _ => ?_⟩
    rw [does_bind]
    refine (does_auditShares request.requestor shares 0).mono ?_
    rintro _ h' ⟨new, rfl⟩
    refine (does_pure _).mpr ⟨kek.1, nonce, wrapped, draws, row, hwrapped, hshares, ?_, rfl⟩
    simp

theorem initiateRecovery_does (request : RecoveryRequest) :
    (initiateRecovery request).Does anyCall (fun session h' => Initiated request session h') h := by
  unfold initiateRecovery
  rw [does_bind]
  refine (does_perform _).mpr ⟨trivial, fun _ => ?_⟩
  rw [does_bind]
  refine (does_perform _).mpr ⟨trivial, fun reply => ?_⟩
  rw [does_bind, does_query]
  intro found _
  split
  · exact (does_fail _).mpr trivial
  · dsimp only
    rw [does_bind]
    refine (does_perform _).mpr ⟨trivial, fun reply => ?_⟩
    rw [does_bind, does_query]
    rintro row rfl
    exact (does_pure _).mpr ⟨rfl, row, rfl, List.mem_append_right _ (List.mem_singleton_self _)⟩

end

/-- **Every operation ends as specified.** -/
theorem kra_meets (aead : Aead) : (system aead).Meets (kraSpec aead) := by
  intro t
  show (body aead t).Wp _ _ []
  cases t with
  | escrowKey request =>
    refine (wp_map _ _).mpr (Wp.mono (escrowKey_does request) fun r h hr key shares heq => ?_)
    cases r with
    | error e => cases heq
    | ok a =>
      obtain ⟨rfl, rfl⟩ := Result.escrowed.inj (Except.ok.inj heq)
      exact hr a rfl
  | initiateRecovery request =>
    refine (wp_map _ _).mpr (Wp.mono (initiateRecovery_does request) fun r h hr session heq => ?_)
    cases r with
    | error e => cases heq
    | ok a =>
      obtain rfl := Result.session.inj (Except.ok.inj heq)
      exact hr a rfl
  | submitShare sessionId agentId share =>
    refine (wp_map _ _).mpr (Wp.mono (does_any _) fun r h _ privateKey heq => ?_)
    cases r with
    | error e => cases heq
    | ok a => cases Except.ok.inj heq
  | completeRecovery sessionId shares threshold =>
    exact (wp_map _ _).mpr (completeRecovery_wp sessionId shares threshold)

/-! ### The database only grows -/

/-- The rows of `s` are in `s'`, and the agents are the same. -/
structure Grows (s s' : Store) : Prop where
  escrowedKeys : ∀ id row, s.escrowedKeys.get id = some row → s'.escrowedKeys.get id = some row
  requests : ∀ id row, s.requests.get id = some row → s'.requests.get id = some row
  shares : ∀ row ∈ s.shares.rows, row ∈ s'.shares.rows
  agents : s'.agents = s.agents

theorem Grows.refl (s : Store) : Grows s s :=
  ⟨fun _ _ h => h, fun _ _ h => h, fun _ h => h, rfl⟩

theorem Grows.trans {s s' s'' : Store} (h : Grows s s') (h' : Grows s' s'') : Grows s s'' where
  escrowedKeys id row hget := h'.escrowedKeys id row (h.escrowedKeys id row hget)
  requests id row hget := h'.requests id row (h.requests id row hget)
  shares row hrow := h'.shares row (h.shares row hrow)
  agents := h'.agents.trans h.agents

section

variable {s : Store} {c : Choice}

/-- A row stays when another one is inserted. -/
theorem get_of_insert? {ρ κ : Type} [DecidableEq κ] {key : ρ → κ} {t t' : Keyed key} {row new : ρ}
    {k : κ} (hinsert : t.insert? new = some t') (hget : t.get k = some row) :
    t'.get k = some row := by
  obtain ⟨hrow, hkey⟩ := Keyed.mem_of_get hget
  refine Keyed.get_eq_some.mpr ⟨?_, hkey⟩
  rw [(Keyed.rows_of_insert? hinsert).2]
  exact List.mem_append_left _ hrow

/-- The new row is there. -/
theorem get_insert? {ρ κ : Type} [DecidableEq κ] {key : ρ → κ} {t t' : Keyed key} {new : ρ}
    (hinsert : t.insert? new = some t') : t'.get (key new) = some new := by
  refine Keyed.get_eq_some.mpr ⟨?_, rfl⟩
  rw [(Keyed.rows_of_insert? hinsert).2]
  exact List.mem_append_right _ (List.mem_singleton_self _)

theorem grows_insertEscrowedKey (row : EscrowedKeyRow) : Grows s (insertEscrowedKey row s).2 := by
  unfold insertEscrowedKey
  split
  · exact .refl s
  · rename_i hinsert
    exact ⟨fun _ _ => get_of_insert? hinsert, fun _ _ h => h, fun _ h => h, rfl⟩

theorem grows_insertRequest (row : RecoveryRequestRow) : Grows s (insertRequest row s).2 := by
  unfold insertRequest
  split_ifs
  · exact .refl s
  · split
    · exact .refl s
    · rename_i hinsert
      exact ⟨fun _ _ h => h, fun _ _ => get_of_insert? hinsert, fun _ h => h, rfl⟩

theorem grows_insertShare (row : RecoveryShareRow) : Grows s (insertShare row s).2 := by
  unfold insertShare
  split_ifs
  · exact .refl s
  · exact .refl s
  · split
    · exact .refl s
    · rename_i hinsert
      refine ⟨fun _ _ h => h, fun _ _ h => h, fun row' hrow' => ?_, rfl⟩
      show row' ∈ _
      rw [(Keyed.rows_of_insert? hinsert).2]
      exact List.mem_append_left _ hrow'

theorem grows_reply {α : Type} {r : Except String α × Store} (h : Grows s r.2) :
    Grows s (c.reply s r).2 := by
  unfold Choice.reply
  split
  · exact h
  · dsimp only
    split_ifs
    · exact h
    · exact .refl s

/-- **No call changes or removes a row.** -/
theorem grows_exec (e : Call) : Grows s (exec e c s).2 := by
  cases e with
  | createEscrowedKey certificateId wrappedKey keyType algorithm =>
    exact grows_reply (grows_insertEscrowedKey _)
  | createRecoveryRequest escrowedKeyId requestor justification requiredShares totalAgents =>
    exact grows_reply (grows_insertRequest _)
  | createRecoveryShare recoveryRequestId agentId encryptedShare =>
    exact grows_reply (grows_insertShare _)
  | findEscrowedKey id => exact grows_reply (.refl s)
  | findRecoveryRequest id => exact grows_reply (.refl s)
  | countSubmittedShares recoveryRequestId => exact grows_reply (.refl s)
  | fill n => exact .refl s
  | draws => exact .refl s
  | audit actor target action outcome => exact .refl s

/-- A statement that returns did not fail. -/
theorem ok_of_reply {α : Type} {r : Except String α × Store} {a : α}
    (h : (c.reply s r).1 = .ok a) : c.fault = none ∧ r.1 = .ok a := by
  unfold Choice.reply at h
  split at h
  · exact ⟨‹_›, h⟩
  · cases h

/-- A key that was stored is there. -/
theorem escrowedKey_of_reply {certificateId : Uuid} {wrappedKey : List UInt8}
    {keyType algorithm : String} {row : EscrowedKeyRow}
    (h : (exec (.createEscrowedKey certificateId wrappedKey keyType algorithm) c s).1 = .ok row) :
    row.certificateId = certificateId ∧ row.wrappedKey = wrappedKey ∧
      (exec (.createEscrowedKey certificateId wrappedKey keyType algorithm) c s).2.escrowedKeys.get
        row.id = some row := by
  obtain ⟨hfault, hrow⟩ := ok_of_reply h
  simp only [exec, Choice.reply, hfault]
  unfold insertEscrowedKey at hrow ⊢
  split at hrow
  · cases hrow
  · rename_i hinsert
    obtain rfl := Except.ok.inj hrow
    exact ⟨rfl, rfl, get_insert? hinsert⟩

/-- A request that was stored is there. -/
theorem request_of_reply {escrowedKeyId : Uuid} {requestor justification : String}
    {requiredShares totalAgents : ℤ} {row : RecoveryRequestRow}
    (h : (exec (.createRecoveryRequest escrowedKeyId requestor justification requiredShares
      totalAgents) c s).1 = .ok row) :
    row.escrowedKeyId = escrowedKeyId ∧
      (exec (.createRecoveryRequest escrowedKeyId requestor justification requiredShares
        totalAgents) c s).2.requests.get row.id = some row := by
  obtain ⟨hfault, hrow⟩ := ok_of_reply h
  simp only [exec, Choice.reply, hfault]
  unfold insertRequest at hrow ⊢
  split_ifs at hrow ⊢
  · split at hrow
    · cases hrow
    · rename_i hinsert
      obtain rfl := Except.ok.inj hrow
      exact ⟨rfl, get_insert? hinsert⟩

end

end Ostrich.Kra
