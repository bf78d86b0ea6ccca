import Ostrich.Kra.Equiv.Recovery
import Ostrich.Kra.Instance

/-!
# Recovering an escrowed key at its threshold

A session is opened for 3-of-5, whatever the threshold of the key is.

* `recoverable_iff`: the session of an escrowed key has its threshold, and every completion with
  this many distinct shares returns the key, exactly if the threshold is 3;
* `threshold_lost`: the session of a key that was escrowed 2-of-3.
-/

namespace Ostrich.Kra

open Interleave Table System

/-! ### Wrapping and splitting -/

/-- Opening undoes sealing, and sealing adds a tag. -/
structure Aead.Lawful (aead : Aead) : Prop where
  open_seal : ∀ {key nonce aad text sealed}, aead.sealInPlaceAppendTag key nonce aad text
    = some sealed →
    aead.openInPlace key nonce aad sealed = some text
  length_seal : ∀ {key nonce aad text sealed},
    aead.sealInPlaceAppendTag key nonce aad text = some sealed → sealed.length
      = text.length + tagLen

/-- A wrapped key unwraps. -/
theorem unwrapKey_wrapKey {aead : Aead} (hlawful : aead.Lawful)
    {kek plaintext aad wrapped : List UInt8}
    {nonce : Bytes nonceLen} (h : wrapKey aead kek plaintext aad nonce = .ok wrapped) :
    unwrapKey aead kek wrapped aad = .ok plaintext := by
  unfold wrapKey at h
  split at h
  · cases h
  · rename_i hkek
    split at h
    · cases h
    · rename_i sealed hseal
      obtain rfl := Except.ok.inj h
      have hlen : ¬(nonce.1 ++ sealed).length < nonceLen + tagLen := by
        rw [List.length_append, nonce.2, hlawful.length_seal hseal]
        omega
      have htake : (nonce.1 ++ sealed).take nonceLen = nonce.1 := by
        exact List.take_left' nonce.2
      have hdrop : (nonce.1 ++ sealed).drop nonceLen = sealed := by
        exact List.drop_left' nonce.2
      rw [unwrapKey, if_neg hlen, hkek, htake, hdrop, hlawful.open_seal hseal]

/-- The bounds that `split` checks. -/
theorem bounds_of_split {draws : ℕ → UInt8} {secret : List UInt8} {threshold numShares : ℕ}
    {shares : List Share} (h : split draws secret threshold numShares = .ok shares) :
    1 ≤ threshold ∧ threshold ≤ numShares ∧ numShares ≤ 255 := by
  unfold split at h
  split_ifs at h with h₁ h₂ h₃
  omega

/-- Distinct shares of one split have distinct indices. -/
theorem nodup_index {draws : ℕ → UInt8} {secret : List UInt8} {threshold numShares : ℕ}
    {shares picked : List Share} (h : split draws secret threshold numShares = .ok shares)
    (hpicked : picked ⊆ shares) (hnodup : picked.Nodup) : (picked.map Share.index).Nodup := by
  obtain ⟨ht, htn, hn⟩ := bounds_of_split h
  rw [split_eq draws secret ht htn hn] at h
  obtain rfl := Outcome.ok.inj h
  refine (List.nodup_map_iff_inj_on hnodup).mpr fun a ha b hb hab => ?_
  obtain ⟨i, -, rfl⟩ := List.mem_map.mp (hpicked ha)
  obtain ⟨j, -, rfl⟩ := List.mem_map.mp (hpicked hb)
  have hindex : UInt8.ofNat (i + 1) = UInt8.ofNat (j + 1) := hab
  rw [hindex]

/-- As many distinct shares as the threshold says rebuild the secret. -/
theorem reconstruct_of_split {draws : ℕ → UInt8} {secret : List UInt8} {threshold numShares : ℕ}
    {shares picked : List Share} (h : split draws secret threshold numShares = .ok shares)
    (hpicked : picked ⊆ shares) (hnodup : picked.Nodup) (hlen : threshold ≤ picked.length) :
    reconstruct picked threshold = .ok secret := by
  have hindex := nodup_index h hpicked hnodup
  obtain ⟨ht, htn, hn⟩ := bounds_of_split h
  rw [split_eq draws secret ht htn hn] at h
  obtain rfl := Outcome.ok.inj h
  refine reconstruct_of_shareValue draws secret ht hlen (fun s hs => ?_) hindex
  obtain ⟨i, -, rfl⟩ := List.mem_map.mp (hpicked hs)
  rfl

/-! ### The property -/

/-- None of the statements of the task failed. -/
def Undisturbed (w : KraWorld) (k : ℕ) : Prop :=
  ∀ id e, ⟨.findRecoveryRequest id, .error e⟩ ∉ w.history k ∧
    ⟨.findEscrowedKey id, .error e⟩ ∉ w.history k

/-- In every state that the run goes on to, as many distinct shares as `threshold` says complete the
session with the key: when the completion has the database for itself, and when it is one of the
tasks. -/
def Recoverable (aead : Aead) (mid : KraState) (session : RecoverySession) (threshold : ℕ)
    (shares : List Share) (privateKey : List UInt8) : Prop :=
  ∀ picked, picked ⊆ shares → picked.Nodup → threshold ≤ picked.length →
    ∀ cfg, (system aead).Reach (fun _ _ => True) mid cfg →
      (∀ cs : List Choice, 3 ≤ cs.length → (∀ c ∈ cs, c.fault = none) →
        (completeRecovery aead session.id picked session.threshold).alone exec cs cfg.world.store
          = some (.ok privateKey)) ∧
      ∀ k r, mid.world.Fresh k →
        cfg.world.Started k (.completeRecovery session.id picked session.threshold) →
        .finish k r ∈ cfg.world.log → Undisturbed cfg.world k → r = .ok (.recovered privateKey)

/-! ### The rows of an escrow and of a session -/

section

variable {aead : Aead} {store : Store} {cfg : KraState} {i : ℕ}

/-- The rows of a later state. -/
theorem grows_of_reach {mid : KraState} (h : (system aead).Reach (fun _ _ => True) mid cfg) :
    Grows mid.world.store cfg.world.store :=
  h.store Grows.refl Grows.trans fun _ e _ _ _ => grows_exec e

/-- The state right after a call of the log. -/
theorem exists_reply (hreach : (system aead).Reach (fun _ _ => True) (initial store) cfg) {e : Call}
    {r : Reply e} (hmem : ⟨e, r⟩ ∈ cfg.world.history i) :
    ∃ c s, (exec e c s).1 = r ∧ Grows (exec e c s).2 cfg.world.store := by
  obtain ⟨pre, post, hlog⟩ := List.append_of_mem (World.mem_history.mp hmem)
  obtain ⟨mid, t, c, -, -, hmade⟩ := hreach.made (kra_meets aead) hlog
  refine ⟨c, mid.world.store, hmade.reply.symm, ?_⟩
  obtain ⟨n, a, next, -, hnext, hrest⟩ := hmade.rest
  have hgrows := grows_of_reach hrest
  rw [hnext] at hgrows
  exact hgrows

/-- The row of a key that was escrowed. -/
theorem escrowed_row (hreach : (system aead).Reach (fun _ _ => True) (initial store) cfg)
    {request : KeyEscrowRequest} {key : EscrowedKey} {shares : List Share}
    (hstart : cfg.world.Started i (.escrowKey request))
    (hfinish : .finish i (.ok (.escrowed key shares)) ∈ cfg.world.log) :
    ∃ kek nonce draws row, cfg.world.store.escrowedKeys.get key.id = some row ∧
      row.certificateId = request.certificateId ∧
      wrapKey aead kek request.privateKey request.certificateId.asBytes nonce = .ok row.wrappedKey ∧
      split draws kek request.threshold request.numAgents = .ok shares := by
  obtain ⟨t, ht, hresult⟩ := hreach.finished (kra_meets aead) hfinish
  obtain rfl := (hreach.wf (kra_meets aead)).started_unique ht hstart
  obtain ⟨kek, nonce, wrapped, draws, row, hwrap, hsplit, hmem, hid⟩ := hresult key shares rfl
  obtain ⟨c, s, hreply, hgrows⟩ := exists_reply hreach hmem
  obtain ⟨hcertificate, rfl, hget⟩ := escrowedKey_of_reply hreply
  rw [hid]
  exact ⟨kek, nonce, draws, row, hgrows.escrowedKeys _ _ hget, hcertificate, hwrap, hsplit⟩

/-- The row of a session that was opened. -/
theorem session_row (hreach : (system aead).Reach (fun _ _ => True) (initial store) cfg)
    {request : RecoveryRequest} {session : RecoverySession}
    (hstart : cfg.world.Started i (.initiateRecovery request))
    (hfinish : .finish i (.ok (.session session)) ∈ cfg.world.log) :
    session.threshold = 3 ∧ ∃ row, cfg.world.store.requests.get session.id = some row ∧
      row.escrowedKeyId = request.escrowId := by
  obtain ⟨t, ht, hresult⟩ := hreach.finished (kra_meets aead) hfinish
  obtain rfl := (hreach.wf (kra_meets aead)).started_unique ht hstart
  obtain ⟨hthreshold, row, hid, hmem⟩ := hresult session rfl
  obtain ⟨c, s, hreply, hgrows⟩ := exists_reply hreach hmem
  obtain ⟨hkey, hget⟩ := request_of_reply hreply
  rw [hid]
  exact ⟨hthreshold, row, hgrows.requests _ _ hget, hkey⟩

end

/-! ### Completions -/

section

variable {aead : Aead} {session : Uuid} {request : RecoveryRequestRow} {key : EscrowedKeyRow}
  {picked : List Share} {threshold : ℕ} {privateKey : List UInt8}

/-- A completion that has the database for itself. -/
theorem alone_completeRecovery {s : Store} (hlen : threshold ≤ picked.length)
    (hrequest : s.requests.get session = some request)
    (hkey : s.escrowedKeys.get request.escrowedKeyId = some key)
    (hrecover : recover aead picked threshold key = .ok privateKey) {cs : List Choice}
    (hcs : 3 ≤ cs.length) (hfault : ∀ c ∈ cs, c.fault = none) :
    (completeRecovery aead session picked threshold).alone exec cs s = some (.ok privateKey) := by
  match cs, hcs with
  | c₁ :: c₂ :: c₃ :: rest, _ =>
    have h₁ : c₁.fault = none := hfault c₁ (by simp)
    have h₂ : c₂.fault = none := hfault c₂ (by simp)
    have hread : (exec (.findRecoveryRequest session) c₁ s) = (.ok (some request), s) := by
      simp only [exec, Choice.reply, h₁, hrequest]
    have hread' : (exec (.findEscrowedKey request.escrowedKeyId) c₂ s) = (.ok (some key), s) := by
      simp only [exec, Choice.reply, h₂, hkey]
    unfold completeRecovery
    rw [if_neg (by omega)]
    show Prog.alone exec (.call (.findRecoveryRequest session) _) _ s = _
    rw [Prog.alone, hread]
    show Prog.alone exec (.call (.findEscrowedKey request.escrowedKeyId) _) _ s = _
    rw [Prog.alone, hread']
    show Prog.alone exec (Prog.bind (liftOutcome (reconstruct picked threshold)) _) _ s = _
    unfold recover at hrecover
    cases hkek : reconstruct picked threshold with
    | ok kek =>
      rw [hkek] at hrecover
      dsimp only at hrecover
      dsimp only [liftOutcome, Prog.bind]
      cases hunwrap : unwrapKey aead kek key.wrappedKey key.certificateId.asBytes with
      | error e =>
        rw [hunwrap] at hrecover
        cases hrecover
      | ok plaintext =>
        rw [hunwrap] at hrecover
        obtain rfl := Except.ok.inj hrecover
        rfl
    | _ =>
      rw [hkek] at hrecover
      cases hrecover

/-- What a completion that starts after `mid` does with the rows of `mid`. -/
theorem completed_of_rows {h : History Call Reply} {r : Except Failure Result}
    (hdone : Completed aead session picked threshold h r) (hlen : threshold ≤ picked.length)
    (hrequest : ∀ x, ⟨.findRecoveryRequest session, .ok x⟩ ∈ h → x = some request)
    (hkey : ∀ x, ⟨.findEscrowedKey request.escrowedKeyId, .ok x⟩ ∈ h → x = some key)
    (hfault : ∀ id e, ⟨.findRecoveryRequest id, .error e⟩ ∉ h ∧ ⟨.findEscrowedKey id, .error e⟩ ∉ h)
    (hrecover : recover aead picked threshold key = .ok privateKey) :
    r = .ok (.recovered privateKey) := by
  cases hdone with
  | insufficient hlt => omega
  | noRequest hmem => exact absurd hmem (hfault _ _).1
  | noRead hmem => exact absurd hmem (hfault _ _).2
  | noSession hmem => cases hrequest _ hmem
  | noKey hread hmem =>
    obtain rfl := Option.some.inj (hrequest _ hread)
    cases hkey _ hmem
  | decided hread hmem =>
    obtain rfl := Option.some.inj (hrequest _ hread)
    obtain rfl := Option.some.inj (hkey _ hmem)
    rw [hrecover]
    rfl

end

/-! ### Reads after a state -/

/-- The rows of `mid` are kept, and the tasks that start after `mid` read them. -/
structure Reads (mid w : KraWorld) : Prop where
  grows : Grows mid.store w.store
  request : ∀ {k id row x}, mid.Fresh k → mid.store.requests.get id = some row →
    ⟨.findRecoveryRequest id, .ok x⟩ ∈ w.history k → x = some row
  key : ∀ {k id row x}, mid.Fresh k → mid.store.escrowedKeys.get id = some row →
    ⟨.findEscrowedKey id, .ok x⟩ ∈ w.history k → x = some row

theorem Reads.refl (w : KraWorld) : Reads w w where
  grows := .refl _
  request hfresh _ hmem := by
    rw [hfresh.history] at hmem
    cases hmem
  key hfresh _ hmem := by
    rw [hfresh.history] at hmem
    cases hmem

theorem preserves_reads (aead : Aead) (mid : KraWorld) :
    (system aead).Preserves (kraSpec aead) (fun _ _ => True) (fun _ => True) (Reads mid) := by
  refine .of_call (fun w ev hev h => ?_) fun {w i n t e c} _ _ h hrun _ _ => ?_
  · have hhistory (k : ℕ) : (w.add [ev]).history k = w.history k := by
      rw [World.history_add]
      cases ev with
      | call j e r => exact absurd rfl (hev j e r)
      | _ => exact List.append_nil _
    refine ⟨h.grows, fun {k id row x} hfresh hrow hmem => ?_,
      fun {k id row x} hfresh hrow hmem => ?_⟩
    · exact h.request hfresh hrow (hhistory k ▸ hmem)
    · exact h.key hfresh hrow (hhistory k ▸ hmem)
  · refine ⟨h.grows.trans (grows_exec e), fun {k id row x} hfresh hrow hmem => ?_,
      fun {k id row x} hfresh hrow hmem => ?_⟩
    · rcases (system aead).call_mem_after.mp (World.mem_history.mp hmem) with hold | hnew
      · exact h.request hfresh hrow (World.mem_history.mpr hold)
      · obtain ⟨rfl, rfl, hreply⟩ := Event.call.inj hnew
        have hx := Except.ok.inj (ok_of_reply (eq_of_heq hreply).symm).2
        rw [← hx, h.grows.requests _ _ hrow]
    · rcases (system aead).call_mem_after.mp (World.mem_history.mp hmem) with hold | hnew
      · exact h.key hfresh hrow (World.mem_history.mpr hold)
      · obtain ⟨rfl, rfl, hreply⟩ := Event.call.inj hnew
        have hx := Except.ok.inj (ok_of_reply (eq_of_heq hreply).symm).2
        rw [← hx, h.grows.escrowedKeys _ _ hrow]

/-! ### The threshold -/

/-- **A key is recoverable at its threshold exactly if that is 3.** -/
theorem recoverable_iff {aead : Aead} (hlawful : aead.Lawful) (store : Store) {mid : KraState}
    {i j : ℕ} {request : KeyEscrowRequest} {key : EscrowedKey} {shares : List Share}
    {recovery : RecoveryRequest} {session : RecoverySession}
    (hreach : (system aead).Reach (fun _ _ => True) (initial store) mid)
    (hescrow : mid.world.Started i (.escrowKey request))
    (hescrowed : .finish i (.ok (.escrowed key shares)) ∈ mid.world.log)
    (hinitiate : mid.world.Started j (.initiateRecovery recovery))
    (hinitiated : .finish j (.ok (.session session)) ∈ mid.world.log)
    (hid : recovery.escrowId = key.id) :
    (session.threshold = request.threshold ∧
      Recoverable aead mid session request.threshold shares request.privateKey) ↔
    request.threshold = 3 := by
  obtain ⟨hthreshold, row, hrow, hkeyId⟩ := session_row hreach hinitiate hinitiated
  rw [hthreshold]
  refine ⟨fun h => h.1.symm, fun ht => ⟨ht.symm, fun picked hpicked hnodup hlen cfg hrest => ?_⟩⟩
  obtain ⟨kek, nonce, draws, keyRow, hkey, hcertificate, hwrap, hsplit⟩ :=
    escrowed_row hreach hescrow hescrowed
  rw [hthreshold]
  rw [ht] at hlen hsplit
  have hkey' : mid.world.store.escrowedKeys.get row.escrowedKeyId = some keyRow := by
    rw [hkeyId, hid, hkey]
  have hrecover : recover aead picked 3 keyRow = .ok request.privateKey := by
    unfold recover
    rw [reconstruct_of_split hsplit hpicked hnodup hlen]
    dsimp only
    rw [hcertificate, unwrapKey_wrapKey hlawful hwrap]
  obtain ⟨-, hreads⟩ := (preserves_reads aead mid.world).reach_from (kra_meets aead)
    (hreach.good (kra_meets aead)) (.refl _) hrest
  constructor
  · intro cs hcs hfault
    exact alone_completeRecovery hlen (hreads.grows.requests _ _ hrow)
      (hreads.grows.escrowedKeys _ _ hkey') hrecover hcs hfault
  · intro k r hfresh hstart hfinish hfault
    have hwhole := hreach.trans hrest
    obtain ⟨t, hstarted, hresult⟩ := hwhole.finished (kra_meets aead) hfinish
    obtain rfl := (hwhole.wf (kra_meets aead)).started_unique hstarted hstart
    exact completed_of_rows hresult hlen (fun _ => hreads.request hfresh hrow)
      (fun _ => hreads.key hfresh hkey') hfault hrecover

/-! ### An instance -/

theorem smallAead_lawful : smallAead.Lawful where
  open_seal {key nonce aad text sealed} h := by
    obtain rfl := Option.some.inj h
    have hlen : (text ++ smallTag key nonce aad).length - tagLen = text.length := by
      rw [List.length_append]
      exact Nat.add_sub_cancel ..
    show (if _ then _ else _) = _
    rw [hlen, List.drop_left, List.take_left, if_pos rfl]
  length_seal h := by
    obtain rfl := Option.some.inj h
    exact List.length_append

/-- The threshold of the session that was opened for the key of this request. -/
def openedFor (threshold numAgents : ℕ) (cfg : KraState) : Option ℕ :=
  match cfg.world.log.filter fun ev => ev matches .start .. | .finish .. with
  | [.start 0 (.escrowKey request) _, .finish 0 (.ok (.escrowed key _)),
      .start 1 (.initiateRecovery recovery) _, .finish 1 (.ok (.session session))] =>
    if request = escrowRequest threshold numAgents ∧ recovery.escrowId = key.id then
      some session.threshold
    else none
  | _ => none

/-- The tasks of this log. -/
theorem tasks_of_openedFor {threshold numAgents n : ℕ} {cfg : KraState}
    (h : openedFor threshold numAgents cfg = some n) :
    ∃ key shares recovery session, session.threshold = n ∧ recovery.escrowId = key.id ∧
      cfg.world.Started 0 (.escrowKey (escrowRequest threshold numAgents)) ∧
      .finish 0 (.ok (.escrowed key shares)) ∈ cfg.world.log ∧
      cfg.world.Started 1 (.initiateRecovery recovery) ∧
      .finish 1 (.ok (.session session)) ∈ cfg.world.log := by
  unfold openedFor at h
  split at h
  · rename_i request parent key shares recovery parent' session hlog
    split_ifs at h with hrequest
    have hmem {ev : KraEvent} (hev : ev ∈ [.start 0 (.escrowKey request) parent,
        .finish 0 (.ok (.escrowed key shares)), .start 1 (.initiateRecovery recovery) parent',
        .finish 1 (.ok (.session session))]) : ev ∈ cfg.world.log := by
      rw [← hlog] at hev
      exact (List.mem_filter.mp hev).1
    refine ⟨key, shares, recovery, session, Option.some.inj h, hrequest.2, ⟨parent, ?_⟩, ?_,
      ⟨parent', ?_⟩, ?_⟩
    · rw [← hrequest.1]
      exact hmem (by simp)
    · exact hmem (by simp)
    · exact hmem (by simp)
    · exact hmem (by simp)
  · cases h

/-- A key that was escrowed 3-of-5. -/
theorem recoverable_iff_three :
    ∃ (mid : KraState) (shares : List Share) (session : RecoverySession),
    (system smallAead).Reach (fun _ _ => True) (initial threeAgents) mid ∧
    session.threshold = 3 ∧ Recoverable smallAead mid session 3 shares [1, 2, 3] := by
  have hrun : ((system smallAead).run (fun _ _ => true) (escrowThenInitiate 3 5)
      (initial threeAgents)).bind (openedFor 3 5) = some 3 := by decide +kernel
  obtain ⟨mid, hmid, hopened⟩ := Option.bind_eq_some_iff.mp hrun
  have hreach := reach_of_run (fun _ _ _ => trivial) _ hmid
  obtain ⟨key, shares, recovery, session, hthreshold, hid, hescrow, hescrowed, hinitiate,
    hinitiated⟩ :=
    tasks_of_openedFor hopened
  exact ⟨mid, shares, session, hreach, (recoverable_iff smallAead_lawful threeAgents hreach hescrow
    hescrowed hinitiate hinitiated hid).mpr rfl⟩

/-- The session of a key that was escrowed 2-of-3 has the threshold 3. -/
theorem threshold_lost : ∃ (mid : KraState) (key : EscrowedKey) (shares : List Share)
    (recovery : RecoveryRequest) (session : RecoverySession),
    (system smallAead).Reach (fun _ _ => True) (initial threeAgents) mid ∧
    mid.world.Started 0 (.escrowKey (escrowRequest 2 3)) ∧
    .finish 0 (.ok (.escrowed key shares)) ∈ mid.world.log ∧
    recovery.escrowId = key.id ∧ mid.world.Started 1 (.initiateRecovery recovery) ∧
    .finish 1 (.ok (.session session)) ∈ mid.world.log ∧
    session.threshold ≠ (escrowRequest 2 3).threshold := by
  have hrun : ((system smallAead).run (fun _ _ => true) (escrowThenInitiate 2 3)
      (initial threeAgents)).bind (openedFor 2 3) = some 3 := by decide +kernel
  obtain ⟨mid, hmid, hopened⟩ := Option.bind_eq_some_iff.mp hrun
  obtain ⟨key, shares, recovery, session, hthreshold, hid, hescrow, hescrowed, hinitiate,
    hinitiated⟩ :=
    tasks_of_openedFor hopened
  refine ⟨mid, key, shares, recovery, session, reach_of_run (fun _ _ _ => trivial) _ hmid, hescrow,
    hescrowed, hid, hinitiate, hinitiated, ?_⟩
  rw [hthreshold]
  decide

end Ostrich.Kra
