import Ostrich.Est.Equiv.Rest
import Ostrich.Est.Equiv.Revocation
import Ostrich.Lib.Total

/-!
# The budget of an enrollment token

A token is minted for `m` certificates.  `simple_enroll` spends a use before it asks the CA and
takes it back when the issuance fails, also when the CA did issue and only its answer or the update
of the enrollment row was lost; `server_key_gen` spends the use after the CA issued, so several
requests can get a certificate for one use.

* `uses_in_range`: the uses that remain are between 0 and `m`, in every run;
* `within_budget`: the CA issues at most `m` certificates in every run in which a use is taken back
  only if the CA did not issue, and in which a use is reserved, or a certificate issued without one,
  only while more uses remain than certificates are still to be paid for (`Guarded`);
* `over_budget`: a lost answer, and a second certificate for a token of one use.
-/

namespace Ostrich.Est

open Interleave Table

/-! ### Uses -/

/-- The uses that a token has left. -/
def Store.usesRemaining (id : Uuid) (s : Store) : Option ℤ :=
  (s.tokens.get id).map (·.usesRemaining)

/-- What a statement adds to the uses of a token. -/
def Query.gain (id : Uuid) : (q : Query) → q.Result → ℤ
  | .consumeEnrollmentToken id' _, spent => if id' = id ∧ spent = true then -1 else 0
  | .refundEnrollmentToken id', _ => if id' = id then 1 else 0
  | _, _ => 0

/-- The token is minted for `m` certificates. -/
def Minted (id : Uuid) (m : ℤ) (s : Store) : Prop :=
  ∃ hash identity profile createdBy expiresAt now before,
    (Query.createEnrollmentToken id hash identity profile createdBy expiresAt m).run now before
      = .ok ((), s)

variable {id : Uuid} {m u : ℤ} {s : Store}

theorem mem_of_insertRow {α κ : Type} [DecidableEq κ] {key : α → κ} {row : α} {t t' : Keyed key}
    (h : insertRow row t = .ok t') : row ∈ t'.rows := by
  rw [rows_of_insertRow h]
  exact List.mem_append_right _ (List.mem_singleton_self _)

theorem Minted.uses (h : Minted id m s) : s.usesRemaining id = some m ∧ 1 ≤ m := by
  obtain ⟨hash, identity, profile, createdBy, expiresAt, now, before, hrun⟩ := h
  unfold Query.run at hrun
  dsimp only at hrun
  split_ifs at hrun with hhash hm
  obtain ⟨tokens, hinsert, hrun⟩ := bind_eq_ok hrun
  obtain rfl := (Prod.mk.inj (Except.ok.inj hrun)).2
  refine ⟨?_, by omega⟩
  have hrow := mem_of_insertRow hinsert
  exact Option.map_eq_some_iff.mpr ⟨_, Keyed.get_eq_some.mpr ⟨hrow, rfl⟩, rfl⟩

/-- The uses of a token after a change of its table. -/
theorem uses_of_modify (p : EnrollmentToken → Bool) (f : EnrollmentToken → EnrollmentToken)
    (hf : ∀ row, (f row).id = row.id) {row : EnrollmentToken}
    (hrow : s.tokens.get id = some row) :
    Store.usesRemaining id { s with tokens := s.tokens.modify p f hf }
      = some (if p row then f row else row).usesRemaining := by
  rw [Store.usesRemaining, Keyed.get_modify, hrow]
  rfl

/-- The statements of an administrator, which no request makes. -/
def Query.admin : Query → Bool
  | .createEnrollmentToken .. | .revokeEnrollmentToken .. => true
  | _ => false

/-- **A statement** changes the uses by its gain, and spends no use that is not there. -/
theorem uses_of_run {q : Query} {now : DateTime} {a : q.Result} {s' : Store}
    (hadmin : q.admin = false) (hrun : q.run now s = .ok (a, s'))
    (hu : s.usesRemaining id = some u) (hpos : 0 ≤ u) :
    s'.usesRemaining id = some (u + q.gain id a) ∧ 0 ≤ u + q.gain id a := by
  have hsame (hgain : q.gain id a = 0) (hs : s'.usesRemaining id = s.usesRemaining id) :
      s'.usesRemaining id = some (u + q.gain id a) ∧ 0 ≤ u + q.gain id a := by
    rw [hgain, add_zero, hs]
    exact ⟨hu, hpos⟩
  obtain ⟨row, hrow, rfl⟩ := Option.map_eq_some_iff.mp hu
  have hid : row.id = id := (Keyed.mem_of_get hrow).2
  cases q with
  | createEnrollmentToken => cases hadmin
  | revokeEnrollmentToken => cases hadmin
  | consumeEnrollmentToken id' cert =>
    unfold Query.run at hrun
    dsimp only at hrun
    split_ifs at hrun
    obtain ⟨rfl, rfl⟩ := Prod.mk.inj (Except.ok.inj hrun)
    have huses := uses_of_modify (fun t => t.id = id' && t.live now)
      (EnrollmentToken.spend now cert) (fun _ => rfl) hrow
    by_cases hmatch : (row.id = id' && row.live now) = true
    · -- the row of the token is live, so a use is spent
      have hany : (s.tokens.rows.any fun t => t.id = id' && t.live now) = true :=
        List.any_eq_true.mpr ⟨row, (Keyed.mem_of_get hrow).1, hmatch⟩
      have hgain : (Query.consumeEnrollmentToken id' cert).gain id
          (s.tokens.rows.any fun t => t.id = id' && t.live now) = -1 := by
        simp only [Bool.and_eq_true, decide_eq_true_eq] at hmatch
        exact if_pos ⟨hmatch.1.symm.trans hid, hany⟩
      rw [if_pos hmatch] at huses
      rw [hgain]
      refine ⟨huses, ?_⟩
      simp only [Bool.and_eq_true, decide_eq_true_eq, EnrollmentToken.live] at hmatch
      have := hmatch.2.1
      omega
    · rw [if_neg hmatch] at huses
      refine hsame (if_neg ?_) (huses.trans hu.symm)
      rintro ⟨rfl, hany⟩
      obtain ⟨row', hrow', hmatch'⟩ := List.any_eq_true.mp hany
      have hid' : row'.id = id' := by
        simp only [Bool.and_eq_true, decide_eq_true_eq] at hmatch'
        exact hmatch'.1
      rw [s.tokens.eq_of_key hrow' (Keyed.mem_of_get hrow).1 (hid'.trans hid.symm)] at hmatch'
      exact hmatch hmatch'
  | refundEnrollmentToken id' =>
    unfold Query.run at hrun
    dsimp only at hrun
    split_ifs at hrun
    obtain ⟨rfl, rfl⟩ := Prod.mk.inj (Except.ok.inj hrun)
    have huses := uses_of_modify (·.id = id') EnrollmentToken.refund (fun _ => rfl) hrow
    by_cases hmatch : id' = id
    · have hgain : (Query.refundEnrollmentToken id').gain id () = 1 := if_pos hmatch
      rw [if_pos (decide_eq_true (hid.trans hmatch.symm))] at huses
      rw [hgain]
      exact ⟨huses, by omega⟩
    · rw [if_neg (by simpa [hid] using Ne.symm hmatch)] at huses
      exact hsame (if_neg hmatch) (huses.trans hu.symm)
  | recordEnrollmentTokenCert id' certId =>
    unfold Query.run at hrun
    dsimp only at hrun
    split_ifs at hrun
    obtain ⟨rfl, rfl⟩ := Prod.mk.inj (Except.ok.inj hrun)
    have huses := uses_of_modify (·.id = id') (fun t => { t with usedByCert := some certId })
      (fun _ => rfl) hrow
    refine hsame rfl (huses.trans ?_)
    rw [hu]
    split_ifs <;> rfl
  | createEnrollment id' client kind csr status time =>
    obtain ⟨enrollments, -, hrun⟩ := bind_eq_ok hrun
    obtain ⟨-, rfl⟩ := Prod.mk.inj (Except.ok.inj hrun)
    exact hsame rfl rfl
  | markEnrollmentIssued id' certId profile time =>
    unfold Query.run at hrun
    dsimp only at hrun
    split at hrun
    · cases hrun
    · split_ifs at hrun
      obtain ⟨-, rfl⟩ := Prod.mk.inj (Except.ok.inj hrun)
      exact hsame rfl rfl
  | findLiveEnrollmentToken hash =>
    obtain ⟨-, rfl⟩ := Prod.mk.inj (Except.ok.inj hrun)
    exact hsame rfl rfl
  | enrollmentTokenProfile id' =>
    obtain ⟨-, rfl⟩ := Prod.mk.inj (Except.ok.inj hrun)
    exact hsame rfl rfl
  | listAllowedIdentities username =>
    obtain ⟨-, rfl⟩ := Prod.mk.inj (Except.ok.inj hrun)
    exact hsame rfl rfl
  | listEnrollmentsByClient client =>
    obtain ⟨-, rfl⟩ := Prod.mk.inj (Except.ok.inj hrun)
    exact hsame rfl rfl
  | findCertificateById id' =>
    obtain ⟨-, rfl⟩ := Prod.mk.inj (Except.ok.inj hrun)
    exact hsame rfl rfl

/-! ### Sums over the requests -/

/-- The uses that a request gave back, less those that it took. -/
def Ledger.net (l : Ledger) : ℤ := l.refunded - l.reserved - l.spent

/-- The certificates that a request got without reserving a use, less the uses that it spent. -/
def Ledger.debt (l : Ledger) : ℤ := if l.reserved = 0 then l.issued - l.spent else 0

/-- What the ledger says by `f` of a request that presented the token. -/
def share (id : Uuid) (f : Ledger → ℤ) (h : History Call Reply) : ℤ :=
  if (ledger h).token = some id then f (ledger h) else 0

/-- The number of certificates that the CA issued to the token. -/
def issuedTo (id : Uuid) (w : EstWorld) : ℤ := w.total (share id (·.issued))

/-- The number of certificates that `server_key_gen` requests got for the token and have not spent
a use for. -/
def owed (id : Uuid) (w : EstWorld) : ℤ := w.total (share id Ledger.debt)

theorem share_nil {f : Ledger → ℤ} : share id f [] = 0 := if_neg nofun

/-- What a call adds to the uses of a token. -/
def Call.gain (id : Uuid) : (e : Call) → Reply e → ℤ
  | .db q, r => r.effect.elim 0 (q.gain id)
  | _, _ => 0

variable {t : Task} {h : History Call Reply} {e : Call}

/-- A call that the ledger does not record. -/
theorem share_of_quiet {f : Ledger → ℤ} (he : Quiet e) (r : Reply e) :
    share id f (h ++ [⟨e, r⟩]) = share id f h := by
  rw [share, ledger_append, record_of_quiet he, ← share]

theorem gain_of_quiet (he : Quiet e) (r : Reply e) : e.gain id r = 0 := by
  cases e with
  | db q =>
    show r.effect.elim 0 (q.gain id) = 0
    cases r.effect with
    | none => rfl
    | some a => cases q <;> first | rfl | exact he.elim
  | _ => rfl

theorem gain_find {hash : List UInt8} (r : Reply (.db (.findLiveEnrollmentToken hash))) :
    Call.gain id (.db (.findLiveEnrollmentToken hash)) r = 0 := by
  show r.effect.elim 0 (Query.gain id (.findLiveEnrollmentToken hash)) = 0
  cases r.effect <;> rfl

theorem gain_consume {id' : Uuid} {cert : Option Uuid}
    (r : Reply (.db (.consumeEnrollmentToken id' cert))) :
    Call.gain id (.db (.consumeEnrollmentToken id' cert)) r
      = if id' = id ∧ r.effect = some true then -1 else 0 := by
  show r.effect.elim 0 (Query.gain id (.consumeEnrollmentToken id' cert)) = _
  cases r.effect with
  | none => simp
  | some spent => simp [Query.gain]

theorem gain_refund {id' : Uuid} (r : Reply (.db (.refundEnrollmentToken id'))) :
    Call.gain id (.db (.refundEnrollmentToken id')) r
      = if id' = id ∧ r.effect = some () then 1 else 0 := by
  show r.effect.elim 0 (Query.gain id (.refundEnrollmentToken id')) = _
  cases r.effect with
  | none => simp
  | some refunded => simp [Query.gain]

/-- The state of the ledger in which a call is made that is not quiet. -/
theorem calls_cases (hcalls : Calls t h e) : Quiet e ∨
    (∃ hash, e = .db (.findLiveEnrollmentToken hash) ∧ ledger h = {}) ∨
    (∃ id, e = .db (.consumeEnrollmentToken id none) ∧ ledger h = { token := some id }) ∨
    (∃ id cert issued, e = .db (.consumeEnrollmentToken id (some cert)) ∧
      ledger h = { token := some id, issued }) ∨
    (∃ id issued, issued ≤ 1 ∧ e = .db (.refundEnrollmentToken id) ∧
      ledger h = { token := some id, reserved := 1, issued }) ∨
    ∃ request token reserved, reserved ≤ 1 ∧ e = .issueCertificate request ∧
      ledger h = { token, reserved } := by
  cases e with
  | db q =>
    cases q with
    | createEnrollmentToken => exact hcalls.elim
    | revokeEnrollmentToken => exact hcalls.elim
    | findLiveEnrollmentToken hash => exact .inr (.inl ⟨hash, rfl, hcalls⟩)
    | consumeEnrollmentToken id cert =>
      cases cert with
      | none => exact .inr (.inr (.inl ⟨id, rfl, hcalls⟩))
      | some cert =>
        obtain ⟨issued, hl⟩ := hcalls
        exact .inr (.inr (.inr (.inl ⟨id, cert, issued, rfl, hl⟩)))
    | refundEnrollmentToken id =>
      obtain ⟨issued, hissued, hl⟩ := hcalls
      exact .inr (.inr (.inr (.inr (.inl ⟨id, issued, hissued, rfl, hl⟩))))
    | _ => exact .inl trivial
  | issueCertificate request =>
    refine .inr (.inr (.inr (.inr (.inr ?_))))
    cases t with
    | simpleEnroll credential label body =>
      rcases hcalls with hl | ⟨id, hl⟩
      · exact ⟨request, none, 0, zero_le_one, rfl, hl⟩
      · exact ⟨request, some id, 1, le_rfl, rfl, hl⟩
    | simpleReenroll credential label body => exact ⟨request, none, 0, zero_le_one, rfl, hcalls⟩
    | serverKeyGen credential label contentType body =>
      obtain ⟨token, hl⟩ := hcalls
      exact ⟨request, token, 0, zero_le_one, rfl, hl⟩
  | _ => exact .inl trivial

/-- A request that presents a token. -/
theorem record_find (hash : List UInt8) (r : Reply (.db (.findLiveEnrollmentToken hash))) :
    ({} : Ledger).record ⟨_, r⟩ = {} ∨
      ∃ id, ({} : Ledger).record ⟨_, r⟩ = { token := some id } :=
  match r with
  | .ok none => .inl rfl
  | .ok (some (id, _, _)) => .inr ⟨id, rfl⟩
  | .error .. => .inl rfl

/-- **The books balance**: the ledger gains what the uses of the token gain. -/
theorem share_net (hcalls : Calls t h e) (r : Reply e) :
    share id Ledger.net (h ++ [⟨e, r⟩]) = share id Ledger.net h + e.gain id r := by
  rcases calls_cases hcalls with hquiet | ⟨hash, rfl, hl⟩ | ⟨id', rfl, hl⟩ |
    ⟨id', cert, issued, rfl, hl⟩ | ⟨id', issued, -, rfl, hl⟩ | ⟨request, token,
      reserved, -, rfl, hl⟩
  · rw [share_of_quiet hquiet, gain_of_quiet hquiet, add_zero]
  · rw [gain_find, share, share, ledger_append, hl]
    rcases record_find hash r with hr | ⟨id', hr⟩
    · rw [hr, add_zero]
    · simp [hr, Ledger.net]
  · rw [share, share, ledger_append, hl, gain_consume]
    by_cases hspent : r.effect = some true
    · simp [Ledger.record, Ledger.net, hspent]
    · simp [Ledger.record, Ledger.net, hspent]
  · rw [share, share, ledger_append, hl, gain_consume]
    by_cases hspent : r.effect = some true
    · simp [Ledger.record, Ledger.net, hspent]
    · simp [Ledger.record, Ledger.net, hspent]
  · rw [share, share, ledger_append, hl, gain_refund]
    by_cases hrefund : r.effect = some ()
    · by_cases hid : id' = id
      · simp [Ledger.record, Ledger.net, hrefund, hid]
      · simp [Ledger.record, hrefund, hid]
    · simp [Ledger.record, Ledger.net, hrefund]
  · rw [share, share, ledger_append, hl]
    by_cases hissued : r.issued = true
    · simp [Ledger.record, Ledger.net, Call.gain, hissued]
    · simp [Ledger.record, Ledger.net, Call.gain, hissued]

theorem admin_of_calls {q : Query} (hcalls : Calls t h (.db q)) : q.admin = false := by
  cases q with
  | createEnrollmentToken => exact hcalls.elim
  | revokeEnrollmentToken => exact hcalls.elim
  | _ => rfl

/-- **A call** changes the uses of the token by its gain. -/
theorem uses_of_exec (hcalls : Calls t h e) (c : Choice) (hu : s.usesRemaining id = some u)
    (hpos : 0 ≤ u) : (exec e c s).2.usesRemaining id = some (u + e.gain id (exec e c s).1) ∧
      0 ≤ u + e.gain id (exec e c s).1 := by
  have hsame (hgain : e.gain id (exec e c s).1 = 0)
      (hs : (exec e c s).2.usesRemaining id = s.usesRemaining id) :
      (exec e c s).2.usesRemaining id = some (u + e.gain id (exec e c s).1) ∧
        0 ≤ u + e.gain id (exec e c s).1 := by
    rw [hgain, add_zero, hs]
    exact ⟨hu, hpos⟩
  cases e with
  | db q =>
    rcases exec_cases q c.fault c.now s with ⟨heffect, hs⟩ | ⟨a, heffect, hrun⟩
    · refine hsame ?_ (congrArg _ hs)
      show (q.exec c.fault c.now s).1.effect.elim 0 (q.gain id) = 0
      rw [heffect]
      rfl
    · have hgain : Call.gain id (.db q) (exec (.db q) c s).1 = q.gain id a := by
        show (q.exec c.fault c.now s).1.effect.elim 0 (q.gain id) = q.gain id a
        rw [heffect]
        rfl
      rw [hgain]
      exact uses_of_run (admin_of_calls hcalls) hrun hu hpos
  | issueCertificate request =>
    refine hsame rfl ?_
    unfold exec
    dsimp only
    split <;> rfl
  | _ => exact hsame rfl rfl

/-! ### Invariants of every run -/

variable {env : Env} {allowed : EstWorld → EstEvent → Prop}

/-- The uses that remain are those that the token was minted for, less those that requests took. -/
def Balanced (id : Uuid) (m : ℤ) (w : EstWorld) : Prop :=
  ∃ u, w.store.usesRemaining id = some u ∧ 0 ≤ u ∧ u = m + w.total (share id Ledger.net)

theorem balanced_preserved :
    (system env).Preserves spec allowed (fun _ => True) (Balanced id m) := by
  refine .of_call ?_ ?_
  · rintro w ev hev ⟨u, hu, hpos, hnet⟩
    refine ⟨u, hu, hpos, ?_⟩
    rwa [World.total_add share_nil hev]
  · rintro w i n t e c - - ⟨u, hu, hpos, hnet⟩ - hcalls -
    obtain ⟨hu', hpos'⟩ := uses_of_exec hcalls c hu hpos
    refine ⟨_, hu', hpos', ?_⟩
    rw [(system env).total_after share_nil, share_net hcalls, hnet]
    show _ + e.gain id (exec e c w.store).1 = _ + (_ + (_ + e.gain id (exec e c w.store).1 - _))
    omega

/-- What holds of the empty ledger and is kept by every call holds of every ledger. -/
theorem ledger_preserved {P : Ledger → Prop}
    (hcall : ∀ w i t e r, Calls t (w.history i) e → allowed w (.call i e r) →
      P (ledger (w.history i)) → P ((ledger (w.history i)).record ⟨e, r⟩)) :
    (system env).Preserves spec allowed (fun _ => True) fun w => ∀ i, P (ledger (w.history i)) := by
  refine .of_call ?_ ?_
  · intro w ev hev h i
    have hnone : World.historyOf i [ev] = [] := by
      cases ev with
      | call j e r => exact absurd rfl (hev j e r)
      | _ => rfl
    rw [World.history_add, hnone, List.append_nil]
    exact h i
  · intro w i n t e c _ _ h _ hcalls hallowed j
    rw [(system env).history_after]
    split_ifs with hij
    · rw [hij, ledger_append]
      exact hcall w i t e _ hcalls hallowed (h i)
    · rw [List.append_nil]
      exact h j

/-- A request takes back what it reserved at most. -/
theorem refunded_preserved : (system env).Preserves spec allowed (fun _ => True)
    fun w => ∀ i, (ledger (w.history i)).refunded ≤ (ledger (w.history i)).reserved := by
  refine ledger_preserved (P := fun l => l.refunded ≤ l.reserved) fun w i t e r hcalls _ hl => ?_
  rcases calls_cases hcalls with hquiet | ⟨hash, rfl, h⟩ | ⟨id', rfl, h⟩ |
    ⟨id', cert, issued, rfl, h⟩ | ⟨id', issued, -, rfl, h⟩ | ⟨request, token, reserved, -, rfl, h⟩
  · rwa [record_of_quiet hquiet]
  · rw [h]
    rcases record_find hash r with hr | ⟨id, hr⟩ <;> rw [hr]
  · rw [h, Ledger.record]
    split_ifs <;> simp
  · rw [h, Ledger.record]
    split_ifs <;> simp
  · rw [h, Ledger.record]
    split_ifs <;> simp
  · rw [h, Ledger.record]
    split_ifs <;> simp

/-- **The uses that remain** are between 0 and `m` in every state of every run. -/
theorem uses_in_range {cfg : EstConfig} (hminted : Minted id m s)
    (hreach : (system env).Reach allowed (System.initial s) cfg) :
    ∃ u, cfg.world.store.usesRemaining id = some u ∧ 0 ≤ u ∧ u ≤ m := by
  obtain ⟨hu, hm⟩ := hminted.uses
  have hinit : Balanced id m ⟨s, []⟩ := ⟨m, hu, by omega, (add_zero m).symm⟩
  obtain ⟨u, hu, hpos, hnet⟩ := (balanced_preserved.reach (meets_spec env) hinit hreach).2
  have hrefunded := (refunded_preserved.reach (meets_spec env) (fun _ => le_rfl) hreach).2
  refine ⟨u, hu, hpos, ?_⟩
  have htotal : cfg.world.total (share id Ledger.net) ≤ 0 := by
    refine World.total_nonpos fun i => ?_
    unfold share Ledger.net
    have := hrefunded i
    split_ifs <;> omega
  omega

/-! ### Guarded runs -/

/-- More uses remain than certificates are still to be paid for. -/
def spare (id : Uuid) (w : EstWorld) : Bool := (w.store.usesRemaining id).any (owed id w < ·)

/-- The call takes a use back although the CA issued for the request. -/
def refundsIssued (id : Uuid) (l : Ledger) : Call → Bool
  | .db (.refundEnrollmentToken id') => id' = id && l.issued ≠ 0
  | _ => false

/-- The call reserves a use of the token, or gets a certificate without one. -/
def commits (id : Uuid) (l : Ledger) : (e : Call) → Reply e → Bool
  | .db (.consumeEnrollmentToken id' none), r => id' = id && r.effect = some true
  | .issueCertificate _, r => l.token = some id && l.reserved = 0 && r.issued
  | _, _ => false

/-- A use of the token is taken back only if the CA did not issue for the request; a use is
reserved, or a certificate issued without one, only while one is to spare. -/
def guarded (id : Uuid) (w : EstWorld) : EstEvent → Bool
  | .call i e r => !refundsIssued id (ledger (w.history i)) e &&
    (!commits id (ledger (w.history i)) e r || spare id w)
  | _ => true

/-- A request of the token got at most a certificate for each use that it reserved and did not take
back; one that reserved none takes none back. -/
def Ledger.Paid (id : Uuid) (l : Ledger) : Prop :=
  l.token = some id → (l.reserved = 0 → l.refunded = 0) ∧
    (l.reserved ≠ 0 → l.issued + l.refunded ≤ l.reserved)

theorem paid_preserved : (system env).Preserves spec (guarded id · ·) (fun _ => True)
    fun w => ∀ i, (ledger (w.history i)).Paid id := by
  refine ledger_preserved (P := Ledger.Paid id) fun w i t e r hcalls hguard hl => ?_
  rcases calls_cases hcalls with hquiet | ⟨hash, rfl, h⟩ | ⟨id', rfl, h⟩ |
    ⟨id', cert, issued, rfl, h⟩ | ⟨id', issued, -, rfl, h⟩ |
    ⟨request, token, reserved, hreserved, rfl, h⟩
  · rwa [record_of_quiet hquiet]
  · rw [h]
    rcases record_find hash r with hr | ⟨id', hr⟩ <;> rw [hr] <;> simp [Ledger.Paid]
  · rw [h, Ledger.record]
    split_ifs <;> simp [Ledger.Paid]
  · rw [h, Ledger.record]
    split_ifs <;> simp [Ledger.Paid]
  · -- the CA has not issued, so the use can come back
    rw [h, Ledger.record]
    intro htoken
    have hid : id' = id := by
      split_ifs at htoken <;> exact Option.some.inj htoken
    have hissued : issued = 0 := by
      simp only [guarded, refundsIssued, h, hid, Bool.and_eq_true] at hguard
      simpa using hguard.1
    rw [hissued]
    split_ifs <;> simp
  · rw [h, Ledger.record]
    have hone : reserved ≠ 0 → 1 ≤ reserved := Nat.pos_of_ne_zero
    split_ifs <;> simp_all [Ledger.Paid]

/-- The certificates that are still to be paid for are covered by the uses that remain. -/
def Covered (id : Uuid) (w : EstWorld) : Prop :=
  ∃ u, w.store.usesRemaining id = some u ∧ owed id w ≤ u

/-- A call adds no more to what is owed than it leaves of uses, unless it commits one. -/
theorem share_debt (hcalls : Calls t h e) (r : Reply e) :
    share id Ledger.debt (h ++ [⟨e, r⟩]) ≤ share id Ledger.debt h + e.gain id r
      + if commits id (ledger h) e r then 1 else 0 := by
  have hnonneg : (0 : ℤ) ≤ if commits id (ledger h) e r then 1 else 0 := by
    split_ifs <;> simp
  rcases calls_cases hcalls with hquiet | ⟨hash, rfl, hl⟩ | ⟨id', rfl, hl⟩ |
    ⟨id', cert, issued, rfl, hl⟩ | ⟨id', issued, -, rfl, hl⟩ | ⟨request, token,
      reserved, -, rfl, hl⟩
  · rw [share_of_quiet hquiet, gain_of_quiet hquiet, add_zero]
    split_ifs <;> omega
  · rw [gain_find, share, share, ledger_append, hl]
    rcases record_find hash r with hr | ⟨id', hr⟩
    · simp [hr, commits]
    · simp [hr, commits, Ledger.debt]
  · rw [gain_consume, share, share, ledger_append, hl]
    rw [hl] at hnonneg
    by_cases hspent : r.effect = some true
    · simp only [Ledger.record, Ledger.debt, hspent, commits]
      split_ifs <;> simp_all
    · simpa [Ledger.record, Ledger.debt, hspent] using hnonneg
  · rw [gain_consume, share, share, ledger_append, hl]
    by_cases hspent : r.effect = some true
    · simp only [Ledger.record, Ledger.debt, hspent, commits]
      split_ifs <;> simp_all
    · simp [Ledger.record, Ledger.debt, hspent, commits]
  · rw [gain_refund, share, share, ledger_append, hl]
    by_cases hrefund : r.effect = some ()
    · simp only [Ledger.record, Ledger.debt, hrefund, commits]
      split_ifs <;> simp_all
    · simp [Ledger.record, Ledger.debt, hrefund, commits]
  · rw [share, share, ledger_append, hl]
    by_cases hissued : r.issued = true
    · simp only [Ledger.record, Ledger.debt, Call.gain, hissued, commits]
      split_ifs <;> simp_all
    · simp [Ledger.record, Ledger.debt, Call.gain, hissued, commits]

theorem covered_preserved : (system env).Preserves spec (guarded id · ·)
    (fun w => True ∧ Balanced id m w) (Covered id) := by
  refine .of_call ?_ ?_
  · rintro w ev hev ⟨u, hu, howed⟩
    refine ⟨u, hu, ?_⟩
    rwa [owed, World.total_add share_nil hev]
  · rintro w i n t e c - ⟨-, u, hu, hpos, -⟩ ⟨u', hu', howed⟩ - hcalls hguard
    obtain rfl : u = u' := Option.some.inj (hu.symm.trans hu')
    obtain ⟨hafter, -⟩ := uses_of_exec hcalls c hu hpos
    refine ⟨_, hafter, ?_⟩
    have hdebt : share id Ledger.debt (w.history i ++ [⟨e, ((system env).exec e c w.store).1⟩])
        ≤ share id Ledger.debt (w.history i) + e.gain id (exec e c w.store).1
          + if commits id (ledger (w.history i)) e (exec e c w.store).1 then 1 else 0 :=
      share_debt hcalls _
    have hspare : commits id (ledger (w.history i)) e (exec e c w.store).1 = true →
        owed id w < u := by
      intro hcommits
      rcases Bool.or_eq_true_iff.mp (Bool.and_eq_true_iff.mp hguard).2 with hnot | hspare
      · rw [show commits id _ e ((system env).exec e c w.store).1 = true from hcommits] at hnot
        cases hnot
      · simpa [spare, hu] using hspare
    have hafter : owed id ((system env).after i n e c w) = owed id w
        + (share id Ledger.debt (w.history i ++ [⟨e, ((system env).exec e c w.store).1⟩])
          - share id Ledger.debt (w.history i)) :=
      (system env).total_after share_nil i n e c w
    calc owed id ((system env).after i n e c w)
        = _ := hafter
      _ ≤ owed id w + (e.gain id (exec e c w.store).1
            + if commits id (ledger (w.history i)) e (exec e c w.store).1 then 1 else 0) := by
          omega
      _ ≤ u + e.gain id (exec e c w.store).1 := by
          split_ifs with hcommits
          · have := hspare hcommits
            omega
          · omega

/-- The CA issues at most `m` certificates to the token, and its uses are between 0 and `m`. -/
def InBudget (id : Uuid) (m : ℤ) (w : EstWorld) : Prop :=
  issuedTo id w ≤ m ∧ ∃ u, w.store.usesRemaining id = some u ∧ 0 ≤ u ∧ u ≤ m

/-- **The budget**: a token is good for the certificates it was minted for, in every guarded run. -/
theorem within_budget (env : Env) (id : Uuid) (m : ℤ) (s : Store) (cfg : EstConfig)
    (hminted : Minted id m s)
    (hreach : (system env).Reach (guarded id · ·) (System.initial s) cfg) :
    InBudget id m cfg.world := by
  refine ⟨?_, uses_in_range hminted hreach⟩
  obtain ⟨hu, hm⟩ := hminted.uses
  have hinit : Balanced id m ⟨s, []⟩ ∧ Covered id ⟨s, []⟩ :=
    ⟨⟨m, hu, by omega, (add_zero m).symm⟩, m, hu, by show (0 : ℤ) ≤ m; omega⟩
  obtain ⟨⟨u, hu, -, hnet⟩, u', hu', howed⟩ :=
    ((balanced_preserved.and covered_preserved).reach (meets_spec env) hinit hreach).2
  obtain rfl : u = u' := Option.some.inj (hu.symm.trans hu')
  have hpaid := (paid_preserved.reach (meets_spec env) (fun _ => nofun) hreach).2
  -- a certificate is paid for by a use that was taken, or it is still owed
  have hissued : issuedTo id cfg.world
      ≤ cfg.world.total fun h => share id Ledger.debt h - share id Ledger.net h := by
    refine World.total_mono fun i => ?_
    have hpaid := hpaid i
    unfold share Ledger.debt Ledger.net
    unfold Ledger.Paid at hpaid
    dsimp only
    split_ifs with htoken hreserved
    · have := (hpaid htoken).1 hreserved
      omega
    · have := (hpaid htoken).2 hreserved
      omega
    · omega
  rw [World.total_sub] at hissued
  unfold owed at howed
  omega

/-! ### One use -/

namespace Instance

/-- No certificate is read. -/
def service : Env := Instance.env fun _ => .error "no certificates"

theorem minted_one : Minted ⟨7⟩ 1 (minted 1) :=
  ⟨[7], "device", none, "operator", time 3600, time 0, {}, rfl⟩

end Instance

open Instance

/-- **Two certificates for one use**: the CA issues, its answer to the first device gets lost, and
the use goes back to the token. -/
theorem over_budget : ¬∀ env id m s cfg, Minted id m s →
    (system env).Reach (fun _ _ => True) (System.initial s) cfg → InBudget id m cfg.world := by
  intro h
  have hrun : ((system service).run (fun _ _ => true)
      ([.arrive enrollDevice] ++ steps 0 10 (.error "timeout") ++ [.arrive enrollDevice]
        ++ steps 1 14 answered) (System.initial (minted 1))).map (issuedTo ⟨7⟩ ·.world)
      = some 2 := by
    decide +kernel
  obtain ⟨cfg, hcfg, hissued⟩ := Option.map_eq_some_iff.mp hrun
  have hreach := System.reach_of_run (fun _ _ _ => trivial) _ hcfg
  have hbudget := (h service ⟨7⟩ 1 (minted 1) cfg minted_one hreach).1
  omega

/-- A device gets its certificate. -/
theorem within_budget_of_device : ∃ cfg, (system service).Reach (guarded ⟨7⟩ · ·)
    (System.initial (minted 1)) cfg ∧ issuedTo ⟨7⟩ cfg.world = 1 ∧ InBudget ⟨7⟩ 1 cfg.world := by
  have hrun : ((system service).run (guarded ⟨7⟩) ([.arrive enrollDevice] ++ steps 0 14 answered)
      (System.initial (minted 1))).map (issuedTo ⟨7⟩ ·.world) = some 1 := by
    decide +kernel
  obtain ⟨cfg, hcfg, hissued⟩ := Option.map_eq_some_iff.mp hrun
  have hreach : (system service).Reach (guarded ⟨7⟩ · ·) (System.initial (minted 1)) cfg :=
    System.reach_of_run (fun _ _ h => h) _ hcfg
  exact ⟨cfg, hreach, hissued, within_budget service ⟨7⟩ 1 (minted 1) cfg minted_one hreach⟩

end Ostrich.Est
