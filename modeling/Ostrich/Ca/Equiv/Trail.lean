import Ostrich.Ca.Equiv.Issuance
import Ostrich.Ca.Instance

/-!
# Certificates and their audit records

`issue` and `revoke` first write the certificate and then do what can still fail: they link the
approval request and write the audit record.

* `together_of_sound`: in every run in which nothing fails after a certificate was written, a call
  that returns an error has changed no certificate, and every change has its record;
* `issued_without_record`: the audit sink fails, and the certificate stays.
-/

namespace Ostrich.Ca

open Common Interleave Table System

/-! ### The property -/

/-- The statements that change certificates. -/
def Query.changes : Query → Bool
  | .createCertificate _ | .revoke .. => true
  | _ => false

/-- The record is about this change. -/
def AuditEvent.Names (event : AuditEvent) : Query → Prop
  | .createCertificate cert => event.action = "issue" ∧
      event.target = cert.tbs.subject.toStringRfc4514 ∧ event.profile = cert.profileName ∧
      event.requestId = cert.requestId
  | .revoke id _ => event.action = "revoke" ∧ event.target = id.toString
  | _ => True

/-- The statement ran in this history. -/
def Applied (h : Trace) (q : Query) : Prop := ∃ r, ⟨.db q, r⟩ ∈ h ∧ r.applied = true

/-- This history has the record of a success for the change. -/
def Recorded (h : Trace) (q : Query) : Prop :=
  ∃ event, event.success = true ∧ event.Names q ∧ ⟨.audit event, true⟩ ∈ h

/-- The step fails when the certificate has been written. -/
def late : (e : Call) → Reply e → Bool
  | .db (.createCertificate _), .error _ applied => applied
  | .db (.revoke _ _), .error _ applied => applied
  | .db (.markRequestCompleted _ _), .error _ _ => true
  | .audit event, written => event.success && !written
  | _, _ => false

/-- No step fails, and no call is dropped, when its certificate has been written. -/
def Sound (w : OpWorld) : OpEvent → Prop
  | .call _ e r => late e r = false
  | .abort i => ∀ q, q.changes = true → ¬Applied (w.history i) q
  | _ => True

/-- The certificates and the records go together: each certificate that is new, or newly revoked,
comes from a call that has written the record, or has not ended yet. -/
structure Together (store : Store) (w : OpWorld) : Prop where
  created : ∀ row ∈ w.store.certificates, (∃ old ∈ store.certificates, old.id = row.id) ∨
    ∃ i cert, cert.id = row.id ∧ Applied (w.history i) (.createCertificate cert) ∧
      (w.Ended i → Recorded (w.history i) (.createCertificate cert))
  revoked : ∀ row ∈ w.store.certificates, row.revoked = true →
    (∃ old ∈ store.certificates, old.id = row.id ∧ old.revoked = true) ∨
    ∃ i reason, Applied (w.history i) (.revoke row.id reason) ∧
      (w.Ended i → Recorded (w.history i) (.revoke row.id reason))

/-! ### What the operations do -/

/-- How an operation ends: a step failed late, or its changes are those of a success and have their
records. -/
def Ends (r : Except Error (Option Certificate)) (h : Trace) : Prop :=
  (∃ s ∈ h, late s.1 s.2 = true) ∨
    ∀ q, q.changes = true → Applied h q → (∃ a, r = .ok a) ∧ Recorded h q

/-- What the operations do; new certificates are not revoked. -/
def operationSpec : Spec Call Reply Error (Option Certificate) Operation where
  calls
    | _, _, .db (.createCertificate cert) => cert.revoked = false
    | _, _, _ => True
  result _ r h := Ends r h

/-- The changes of a history are among these. -/
def Changes (P : Query → Prop) (h : Trace) : Prop := ∀ q, q.changes = true → Applied h q → P q

section

variable {P : Query → Prop} {h : Trace}

theorem changes_of_checks (hclean : ∀ s ∈ h, s.1.checks = true) : Changes P h := by
  rintro q hq ⟨r, hmem, -⟩
  have hcheck := hclean _ hmem
  cases q with
  | createCertificate cert => cases hcheck
  | revoke id reason => cases hcheck
  | _ => cases hq

/-- The next call changes nothing, or this. -/
theorem Changes.append (hchanges : Changes P h) {e : Call} {r : Reply e}
    (hnew : ∀ q, q.changes = true → Applied [⟨e, r⟩] q → P q) : Changes P (h ++ [⟨e, r⟩]) := by
  rintro q hq ⟨r', hmem, happlied⟩
  rcases List.mem_append.mp hmem with hmem | hmem
  · exact hchanges q hq ⟨r', hmem, happlied⟩
  · exact hnew q hq ⟨r', hmem, happlied⟩

/-- A call that is no change adds none. -/
theorem Changes.append_other (hchanges : Changes P h) {e : Call} {r : Reply e}
    (hother : ∀ q, e = .db q → q.changes = false) : Changes P (h ++ [⟨e, r⟩]) := by
  refine hchanges.append fun q hq happlied => ?_
  obtain ⟨r', hmem, -⟩ := happlied
  obtain ⟨rfl, -⟩ := Sigma.mk.inj (List.mem_singleton.mp hmem)
  exact absurd hq (by rw [hother q rfl]; decide)

theorem Changes.append_audit (hchanges : Changes P h) (event : AuditEvent) (written : Bool) :
    Changes P (h ++ [⟨.audit event, written⟩]) := by
  refine hchanges.append_other fun q hq => ?_
  cases hq

/-- A statement adds itself, if it ran. -/
theorem Changes.append_self (hchanges : Changes P h) {q : Query} {r : Reply (.db q)}
    (hself : r.applied = true → P q) : Changes P (h ++ [⟨.db q, r⟩]) := by
  refine hchanges.append fun q' _ happlied => ?_
  obtain ⟨r', hmem, happlied⟩ := happlied
  have heq := List.mem_singleton.mp hmem
  cases heq
  exact hself happlied

theorem ends_of_none {r : Except Error (Option Certificate)} (h₀ : Changes (fun _ => False) h) :
    Ends r h := .inr fun q hq happlied => (h₀ q hq happlied).elim

theorem ends_of_late {r : Except Error (Option Certificate)} {e : Call} {reply : Reply e}
    (hlate : late e reply = true) : Ends r (h ++ [⟨e, reply⟩]) :=
  .inl ⟨_, List.mem_append_right _ (List.mem_singleton_self _), hlate⟩

end

variable (env : Env)

/-- The calls of the checks are admitted. -/
theorem operationSpec_checks (t : Operation) (h : Trace) (e : Call) (he : e.checks = true) :
    operationSpec.calls t h e := by
  cases e with
  | db q =>
    cases q with
    | createCertificate cert => cases he
    | _ => trivial
  | _ => trivial

/-- A record of a success is written, or the operation ends late. -/
theorem wp_record {t : Operation} {event : AuditEvent} (hsuccess : event.success = true)
    (a : Option Certificate) {h : Trace}
    (hchanges : Changes (fun q => event.Names q) h) :
    (record event).Wp (operationSpec.calls t) (fun r h' => Ends (r.map fun _ => a) h') h := by
  unfold record
  rw [Prog.wp_bind]
  refine (Prog.wp_perform _).mpr ⟨trivial, fun written => ?_⟩
  cases written with
  | false =>
    refine ends_of_late ?_
    rw [late, hsuccess]
    rfl
  | true =>
    refine .inr fun q hq happlied => ⟨⟨a, rfl⟩, event, hsuccess, ?_,
      List.mem_append_right _ (List.mem_singleton_self _)⟩
    exact hchanges.append_audit event true q hq happlied

theorem wp_commit (request : IssuanceRequest) {x : Uuid × Certificate} {h h' : Trace}
    (hclean : ∀ s ∈ h', s.1.checks = true) (hprepared : Prepared env request h h' x) :
    (commit env request x).Wp (operationSpec.calls (.issue request))
      (fun r h => Ends (r.map some) h) h' := by
  have hnames : (issuanceEvent request x.1).Names (.createCertificate x.2) := by
    obtain ⟨name, hname, hcontent⟩ := Option.map_eq_some_iff.mp hprepared.content
    have hsubject : x.2.tbs.subject = request.subject := congrArg Content.subject hcontent
    have hprofile : name = request.profileName := congrArg Content.profileName hcontent
    refine ⟨rfl, ?_, ?_, hprepared.requestId.symm⟩
    · rw [hsubject]
      rfl
    · rw [hname, hprofile]
      rfl
  have hrecord {h : Trace} (hchanges : Changes (· = .createCertificate x.2) h) :
      (do record (issuanceEvent request x.1); return x.2 : CaM Certificate).Wp
        (operationSpec.calls (.issue request)) (fun r h => Ends (r.map some) h) h := by
    rw [Prog.wp_bind]
    have hnamed : Changes (fun q => (issuanceEvent request x.1).Names q) h := by
      intro q hq happlied
      rw [hchanges q hq happlied]
      exact hnames
    refine (wp_record rfl (some x.2) hnamed).mono fun r h hr => ?_
    cases r with
    | ok u => exact hr
    | error e => exact hr
  unfold commit
  rw [Prog.wp_bind]
  unfold query
  rw [Prog.wp_bind]
  refine (Prog.wp_perform _).mpr ⟨hprepared.not_revoked, fun reply => ?_⟩
  cases reply with
  | error e applied =>
    cases applied with
    | true => exact ends_of_late rfl
    | false => exact ends_of_none ((changes_of_checks hclean).append_self nofun)
  | ok u =>
    have hchanges : Changes (· = .createCertificate x.2)
        (h' ++ [⟨.db (.createCertificate x.2), .ok u⟩]) :=
      (changes_of_checks hclean).append_self fun _ => rfl
    show Prog.Wp _ _ (linkApproval env request x.2.id >>= _) _
    rw [Prog.wp_bind]
    unfold linkApproval
    split
    · exact hrecord hchanges
    · split_ifs
      · unfold query
        rw [Prog.wp_bind]
        refine (Prog.wp_perform _).mpr ⟨trivial, fun reply => ?_⟩
        cases reply with
        | error e applied => exact ends_of_late rfl
        | ok u => exact hrecord (hchanges.append_other fun q hq => by cases hq; rfl)
      · exact hrecord hchanges

theorem wp_issue (request : IssuanceRequest) :
    (operation env (.issue request)).Wp (operationSpec.calls (.issue request)) Ends [] := by
  show Prog.Wp _ _ (issue env request >>= fun certificate => pure (some certificate)) []
  rw [Prog.wp_bind, issue_eq, Prog.wp_bind]
  have hdoes : (prepare env request).Does (fun _ e => e.checks = true)
      (fun x h' => Prepared env request [] h' x) [] := does_prepare env (fun _ _ h => h) request []
  refine (Prog.Wp.within hdoes (operationSpec_checks (.issue request))).mono ?_
  rintro r h ⟨⟨new, rfl, hclean⟩, hprepared⟩
  cases r with
  | error e => exact ends_of_none (changes_of_checks hclean)
  | ok x =>
    refine (wp_commit env request hclean (hprepared x rfl)).mono fun r h hr => ?_
    cases r with
    | ok cert => exact hr
    | error e => exact hr

theorem wp_revoke (certificateId : Uuid) (reason : ℤ) :
    (operation env (.revoke certificateId reason)).Wp
      (operationSpec.calls (.revoke certificateId reason)) Ends [] := by
  have hfind {r : Reply (.db (.findCertificateById certificateId))} :
      Changes (fun _ => False) [⟨.db (.findCertificateById certificateId), r⟩] :=
    Changes.append_other (h := []) (fun _ _ h => by cases h.choose_spec.1) fun q hq => by
      cases hq
      rfl
  show Prog.Wp _ _ (revoke certificateId reason >>= fun _ => pure none) []
  rw [Prog.wp_bind]
  unfold revoke
  rw [Prog.wp_bind]
  refine (Prog.wp_perform _).mpr ⟨trivial, fun reply => ?_⟩
  match reply with
  | .error e _ => exact ⟨trivial, fun _ => ends_of_none (hfind.append_audit _ _)⟩
  | .ok none => exact ⟨trivial, fun _ => ends_of_none (hfind.append_audit _ _)⟩
  | .ok (some cert) =>
    dsimp only
    split
    · refine ⟨trivial, fun written => ?_⟩
      cases written with
      | true => exact ends_of_none (hfind.append_audit _ _)
      | false => exact ends_of_none (hfind.append_audit _ _)
    · rw [Prog.wp_bind]
      refine (Prog.wp_perform _).mpr ⟨trivial, fun reply => ?_⟩
      match reply with
      | .error e true =>
        refine ⟨trivial, fun _ =>
          .inl ⟨⟨.db (.revoke certificateId reason), .error e true⟩, ?_, rfl⟩⟩
        simp
      | .error e false =>
        exact ⟨trivial, fun _ =>
          ends_of_none ((hfind.append_self fun h => by cases h).append_audit _ _)⟩
      | .ok () =>
        have hchanges : Changes (fun q => (revocationEvent certificateId).Names q)
            ([⟨.db (.findCertificateById certificateId), .ok (some cert)⟩]
              ++ [⟨.db (.revoke certificateId reason), .ok ()⟩]) := by
          refine Changes.append_self (fun q hq happlied => (hfind q hq happlied).elim) fun _ => ?_
          exact ⟨rfl, rfl⟩
        refine (wp_record rfl none hchanges).mono fun r h hr => ?_
        cases r with
        | ok u => exact hr
        | error e => exact hr

/-- **The operations end as specified.** -/
theorem operations_meets : (operations env).Meets operationSpec := by
  intro t
  cases t with
  | issue request => exact wp_issue env request
  | revoke certificateId reason => exact wp_revoke env certificateId reason

/-! ### Runs -/

/-- What holds in every state of a sound run. -/
structure TrailInv (store : Store) (w : OpWorld) : Prop where
  punctual : ∀ i e r, .call i e r ∈ w.log → late e r = false
  aborted : ∀ i, .abort i ∈ w.log → Changes (fun _ => False) (w.history i)
  created : ∀ row ∈ w.store.certificates, (∃ old ∈ store.certificates, old.id = row.id) ∨
    ∃ i cert, cert.id = row.id ∧ Applied (w.history i) (.createCertificate cert)
  revoked : ∀ row ∈ w.store.certificates, row.revoked = true →
    (∃ old ∈ store.certificates, old.id = row.id ∧ old.revoked = true) ∨
    ∃ i reason, Applied (w.history i) (.revoke row.id reason)

/-- An event that is no call leaves the histories. -/
theorem history_add_other {w : OpWorld} {ev : OpEvent} (hev : ∀ i e r, ev ≠ .call i e r) (i : ℕ) :
    (w.add [ev]).history i = w.history i := by
  rw [World.history_add]
  cases ev with
  | call j e r => exact absurd rfl (hev j e r)
  | _ => exact List.append_nil _

/-- A new event that is neither a call nor an abortion keeps the invariant. -/
theorem TrailInv.add {store : Store} {w : OpWorld} (h : TrailInv store w) {ev : OpEvent}
    (hcall : ∀ i e r, ev ≠ .call i e r)
    (habort : ∀ i, ev = .abort i → Changes (fun _ => False) (w.history i)) :
    TrailInv store (w.add [ev]) := by
  have hhistory := history_add_other (w := w) hcall
  refine ⟨fun i e r hmem => ?_, fun i hmem => ?_, fun row hrow => ?_, fun row hrow hrevoked => ?_⟩
  · rcases List.mem_append.mp hmem with hmem | hmem
    · exact h.punctual i e r hmem
    · exact absurd (List.mem_singleton.mp hmem).symm (hcall i e r)
  · rw [hhistory]
    rcases List.mem_append.mp hmem with hmem | hmem
    · exact h.aborted i hmem
    · exact habort i (List.mem_singleton.mp hmem).symm
  · rcases h.created row hrow with hold | ⟨i, cert, hid, happlied⟩
    · exact .inl hold
    · exact .inr ⟨i, cert, hid, (hhistory i).symm ▸ happlied⟩
  · rcases h.revoked row hrow hrevoked with hold | ⟨i, reason, happlied⟩
    · exact .inl hold
    · exact .inr ⟨i, reason, (hhistory i).symm ▸ happlied⟩

/-- What a call does to the certificates: nothing, or what its statement does, which then ran. -/
theorem certificates_exec (e : Call) (c : Choice) (s : Store) :
    (exec e c s).2.certificates = s.certificates ∨ ∃ q, Applied [⟨e, (exec e c s).1⟩] q ∧
      ((∃ cert, q = .createCertificate cert ∧
          (exec e c s).2.certificates = s.certificates ++ [cert]) ∨
        ∃ id reason, q = .revoke id reason ∧ (exec e c s).2.certificates =
          updateWhere (fun c => c.id = id && !c.revoked) (·.asRevoked c.now reason)
            s.certificates) := by
  cases e with
  | db q =>
    rcases q.exec_effect c.fault c.now s with ⟨happlied, heffect⟩ | ⟨-, hsame⟩
    · rcases heffect.certificates with hsame | hchange
      · exact .inl hsame
      · exact .inr ⟨q, ⟨_, List.mem_singleton_self _, happlied⟩, hchange⟩
    · exact .inl (congrArg Store.certificates hsame)
  | _ => exact .inl rfl

/-- What was applied stays applied. -/
theorem Applied.append_left {h : Trace} {q : Query} (happlied : Applied h q) (new : Trace) :
    Applied (h ++ new) q := by
  obtain ⟨r, hmem, hr⟩ := happlied
  exact ⟨r, List.mem_append_left _ hmem, hr⟩

theorem Applied.append_right {new : Trace} {q : Query} (happlied : Applied new q) (h : Trace) :
    Applied (h ++ new) q := by
  obtain ⟨r, hmem, hr⟩ := happlied
  exact ⟨r, List.mem_append_right _ hmem, hr⟩

/-- A call keeps the invariant. -/
theorem TrailInv.call {store : Store} {w : OpWorld} (h : TrailInv store w) {i n : ℕ}
    {t : Operation} {e : Call} {c : Choice} (hrun : w.Running i t)
    (hcalls : operationSpec.calls t (w.history i) e)
    (hsound : late e (exec e c w.store).1 = false) :
    TrailInv store ((operations env).after i n e c w) := by
  have hhistory (j : ℕ) : ((operations env).after i n e c w).history j
      = w.history j ++ if j = i then [⟨e, (exec e c w.store).1⟩] else [] :=
    (operations env).history_after i n j e c w
  have hkeep {j : ℕ} {q : Query} (happlied : Applied (w.history j) q) :
      Applied (((operations env).after i n e c w).history j) q := by
    rw [hhistory]
    exact happlied.append_left _
  have hnew {q : Query} (happlied : Applied [⟨e, (exec e c w.store).1⟩] q) :
      Applied (((operations env).after i n e c w).history i) q := by
    rw [hhistory, if_pos rfl]
    exact happlied.append_right _
  refine ⟨fun j e' r hmem => ?_, fun j hmem => ?_, fun row hrow => ?_, fun row hrow hrevoked => ?_⟩
  · rcases (operations env).call_mem_after.mp hmem with hold | heq
    · exact h.punctual j e' r hold
    · cases heq
      exact hsound
  · have hold : .abort j ∈ w.log := ((operations env).mem_after_iff (by simp) (by simp)).mp hmem
    have hij : j ≠ i := fun heq => hrun.not_ended (heq ▸ .inr hold)
    rw [hhistory, if_neg hij, List.append_nil]
    exact h.aborted j hold
  · -- an old row keeps its id, and a new one was inserted by this call
    have hold {old : Certificate} (hmem : old ∈ w.store.certificates) (hid : old.id = row.id) :
        (∃ old ∈ store.certificates, old.id = row.id) ∨ ∃ j cert, cert.id = row.id ∧
          Applied (((operations env).after i n e c w).history j) (.createCertificate cert) := by
      rw [← hid]
      rcases h.created old hmem with hold | ⟨j, cert, hcert, happlied⟩
      · exact .inl hold
      · exact .inr ⟨j, cert, hcert, hkeep happlied⟩
    replace hrow : row ∈ (exec e c w.store).2.certificates := hrow
    rcases certificates_exec e c w.store with
      hsame | ⟨q, happlied, ⟨cert, rfl, hinsert⟩ | ⟨id, reason, rfl, hupdate⟩⟩
    · exact hold (hsame ▸ hrow) rfl
    · rw [hinsert] at hrow
      rcases List.mem_append.mp hrow with hmem | hmem
      · exact hold hmem rfl
      · rw [List.mem_singleton.mp hmem]
        exact .inr ⟨i, cert, rfl, hnew happlied⟩
    · rw [hupdate] at hrow
      obtain ⟨old, hmem, hrow⟩ := mem_updateWhere.mp hrow
      refine hold hmem ?_
      rw [hrow]
      split_ifs
      · rfl
      · rfl
  · have hold (hmem : row ∈ w.store.certificates) :
        (∃ old ∈ store.certificates, old.id = row.id ∧ old.revoked = true) ∨ ∃ j reason,
          Applied (((operations env).after i n e c w).history j) (.revoke row.id reason) := by
      rcases h.revoked row hmem hrevoked with hold | ⟨j, reason, happlied⟩
      · exact .inl hold
      · exact .inr ⟨j, reason, hkeep happlied⟩
    replace hrow : row ∈ (exec e c w.store).2.certificates := hrow
    rcases certificates_exec e c w.store with
      hsame | ⟨q, happlied, ⟨cert, rfl, hinsert⟩ | ⟨id, reason, rfl, hupdate⟩⟩
    · exact hold (hsame ▸ hrow)
    · rw [hinsert] at hrow
      rcases List.mem_append.mp hrow with hmem | hmem
      · exact hold hmem
      · -- a certificate is not inserted as revoked
        obtain ⟨r, hcall, -⟩ := happlied
        obtain ⟨rfl, -⟩ := Sigma.mk.inj (List.mem_singleton.mp hcall)
        have hnot : cert.revoked = false := hcalls
        rw [List.mem_singleton.mp hmem, hnot] at hrevoked
        cases hrevoked
    · rw [hupdate] at hrow
      obtain ⟨old, hmem, hrow⟩ := mem_updateWhere.mp hrow
      split_ifs at hrow with hmatch
      · have hid : old.id = id := by
          rw [Bool.and_eq_true, decide_eq_true_eq] at hmatch
          exact hmatch.1
        have hrowId : row.id = id := by rw [hrow, ← hid]; rfl
        rw [hrowId]
        exact .inr ⟨i, reason, hnew happlied⟩
      · rw [hrow] at hold ⊢
        exact hold hmem

theorem preserves_trail (store : Store) :
    (operations env).Preserves operationSpec Sound (fun _ => True) (TrailInv store) where
  start _ _ h _ _ := h.add (fun _ _ _ => nofun) fun _ => nofun
  call _ _ h hrun _ hcalls hsound := h.call env hrun hcalls hsound
  finish _ _ h _ _ _ := h.add (fun _ _ _ => nofun) fun _ => nofun
  abort _ _ h _ hsound := h.add (fun _ _ _ => nofun) fun i heq => by
    cases heq
    exact fun q hq happlied => hsound q hq happlied

section

variable {env} {store : Store} {cfg : OpConfig}
  (hreach : (operations env).Reach Sound (initial store) cfg)

include hreach

theorem reach_trail : TrailInv store cfg.world := by
  refine ((preserves_trail env store).reach (operations_meets env) ?_ hreach).2
  refine ⟨fun _ _ _ h => ?_, fun _ h => ?_, fun row hrow => ?_, fun row hrow hrevoked => ?_⟩
  · cases h
  · cases h
  · exact .inl ⟨row, hrow, rfl⟩
  · exact .inl ⟨row, hrow, rfl, hrevoked⟩

/-- How a call has ended. -/
theorem ends_of_finish {i : ℕ} {r : Except Error (Option Certificate)}
    (hfinish : .finish i r ∈ cfg.world.log) {q : Query} (hq : q.changes = true)
    (happlied : Applied (cfg.world.history i) q) :
    (∃ a, r = .ok a) ∧ Recorded (cfg.world.history i) q := by
  obtain ⟨t, -, hends⟩ := hreach.finished (operations_meets env) hfinish
  rcases hends with ⟨s, hs, hlate⟩ | hends
  · rw [(reach_trail hreach).punctual i s.1 s.2 (World.mem_history.mp hs)] at hlate
    cases hlate
  · exact hends q hq happlied

/-- The changes of a call that has ended are recorded. -/
theorem recorded_of_ended {i : ℕ} (hended : cfg.world.Ended i) {q : Query}
    (hq : q.changes = true) (happlied : Applied (cfg.world.history i) q) :
    Recorded (cfg.world.history i) q := by
  rcases hended with ⟨r, hfinish⟩ | habort
  · exact (ends_of_finish hreach hfinish hq happlied).2
  · exact ((reach_trail hreach).aborted i habort q hq happlied).elim

end

/-- **Certificates and records go together** in every sound run: a call that returned an error
changed the certificates in none of its steps, and every change has its record. -/
theorem together_of_sound (store : Store) {cfg : OpConfig}
    (hreach : (operations env).Reach Sound (initial store) cfg) :
    Together store cfg.world ∧
    ∀ i e, .finish i (.error e) ∈ cfg.world.log →
      ∀ mid a ev next, (operations env).Reach Sound (initial store) mid →
        (operations env).step mid a = some (ev, next) → Event.task ev = i →
        (operations env).Reach Sound next cfg →
        next.world.store.certificates = mid.world.store.certificates := by
  have hinv := reach_trail hreach
  refine ⟨⟨fun row hrow => ?_, fun row hrow hrevoked => ?_⟩, ?_⟩
  · rcases hinv.created row hrow with hold | ⟨i, cert, hid, happlied⟩
    · exact .inl hold
    · exact .inr ⟨i, cert, hid, happlied, fun hended =>
        recorded_of_ended hreach hended rfl happlied⟩
  · rcases hinv.revoked row hrow hrevoked with hold | ⟨i, reason, happlied⟩
    · exact .inl hold
    · exact .inr ⟨i, reason, happlied, fun hended => recorded_of_ended hreach hended rfl happlied⟩
  · intro i e hfinish mid a ev next hmid hstep htask hrest
    rcases step_store hstep with hsame | ⟨j, e', c, k, -, rfl, hnext⟩
    · rw [hsame]
    · obtain rfl : j = i := htask
      rw [hnext]
      rcases certificates_exec e' c mid.world.store with hsame | ⟨q, happlied, hchange⟩
      · exact hsame
      · -- the change is in the history of the failed call
        obtain ⟨evs, hlog, -⟩ := step_log hstep
        have hmem : .call j e' (exec e' c mid.world.store).1 ∈ cfg.world.log := by
          refine hrest.mem_log ?_
          rw [hlog]
          exact List.mem_append_right _ (List.mem_cons_self ..)
        obtain ⟨r, hr, happlied⟩ := happlied
        have happlied : Applied (cfg.world.history j) q := by
          refine ⟨r, ?_, happlied⟩
          rw [List.mem_singleton.mp hr]
          exact World.mem_history.mpr hmem
        have hq : q.changes = true := by
          rcases hchange with ⟨cert, rfl, -⟩ | ⟨id, reason, rfl, -⟩
          · rfl
          · rfl
        obtain ⟨⟨a, ha⟩, -⟩ := ends_of_finish hreach hfinish hq happlied
        cases ha

/-! ### An instance -/

namespace Instance

/-- A request of the user "user" with a CSR for the common name "a". -/
def issuance : IssuanceRequest where
  profileName := "server"
  subject := { commonName := "a" }
  subjectAltNames := []
  publicKey := Der.tlv 0x30 []
  requestor := "user"
  authenticatedCaller := none
  csrDer := some (csr [97])
  approvalRequestId := none
  requestId := some (uuid 5)

/-- The certificate 13 is issued; the audit sink works or not. -/
def issuing (audited : Bool) : List (Action Operation Choice) :=
  .arrive (.issue issuance) :: (List.range 5).map (fun j => .run 0 (choice (10 + j) 1))
    ++ [.run 0 { choice 15 1 with audited }, .run 0 (choice 16 1)]

/-- Then it is revoked. -/
def revoking : List (Action Operation Choice) :=
  .arrive (.revoke (uuid 13) 1) :: List.replicate 4 (.run 1 (choice 20 2))

/-- The ids of the certificates, which of them are revoked, and how the calls ended. -/
def summary (cfg : OpConfig) : List (Uuid × Bool) × List (ℕ × Bool) :=
  (cfg.world.store.certificates.map fun row => (row.id, row.revoked),
    cfg.world.log.filterMap fun
      | .finish i (.ok _) => some (i, true)
      | .finish i (.error _) => some (i, false)
      | _ => none)

/-- No step fails late, and no call is dropped. -/
def sound (_ : OpWorld) : OpEvent → Bool
  | .call _ e r => !late e r
  | .abort _ => false
  | _ => true

theorem sound_of_check (w : OpWorld) (ev : OpEvent) (h : sound w ev = true) : Sound w ev := by
  cases ev with
  | call i e r =>
    show late e r = false
    simpa [sound] using h
  | abort i => cases h
  | _ => trivial

/-- A certificate is issued and revoked. -/
theorem together_of_sound_revoked : ∃ cfg : OpConfig,
    (operations (authority false)).Reach Sound (initial {}) cfg ∧
    summary cfg = ([(uuid 13, true)], [(0, true), (1, true)]) ∧ Together {} cfg.world := by
  have hrun : ((operations (authority false)).run sound (issuing true ++ revoking)
      (initial {})).map summary = some ([(uuid 13, true)], [(0, true), (1, true)]) := by
    decide +kernel
  obtain ⟨cfg, hcfg, hsummary⟩ := Option.map_eq_some_iff.mp hrun
  have hreach := reach_of_run sound_of_check _ hcfg
  exact ⟨cfg, hreach, hsummary, (together_of_sound (authority false) {} hreach).1⟩

/-- No audit event was written. -/
def unwritten : OpEvent → Bool
  | .call _ (.audit _) written => !written
  | _ => true

/-- The audit sink fails: the only call returns an error, its certificate is in the table that was
empty before, and no record has been written. -/
theorem issued_without_record : ∃ cfg : OpConfig,
    (operations (authority false)).Reach (fun _ _ => True) (initial {}) cfg ∧
    (∃ e, .finish 0 (.error e) ∈ cfg.world.log) ∧
    (∃ row ∈ cfg.world.store.certificates, row.id = uuid 13) ∧
    ∀ i event, .call i (.audit event) true ∉ cfg.world.log := by
  have hrun : ((operations (authority false)).run (fun _ _ => true) (issuing false)
      (initial {})).map (fun cfg => (summary cfg, cfg.world.log.all unwritten)) =
        some (([(uuid 13, false)], [(0, false)]), true) := by decide +kernel
  obtain ⟨cfg, hcfg, hvalue⟩ := Option.map_eq_some_iff.mp hrun
  obtain ⟨hsummary, hlog⟩ := Prod.mk.inj hvalue
  obtain ⟨hrows, hends⟩ := Prod.mk.inj hsummary
  have hreach := reach_of_run (fun _ _ _ => trivial) _ hcfg
  have hfinish : ∃ e, .finish 0 (.error e) ∈ cfg.world.log := by
    have hmem : (0, false) ∈ [(0, false)] := List.mem_singleton_self _
    rw [← hends] at hmem
    obtain ⟨ev, hev, heq⟩ := List.mem_filterMap.mp hmem
    split at heq
    · cases heq
    · cases heq
      exact ⟨_, hev⟩
    · cases heq
  have hrow : ∃ row ∈ cfg.world.store.certificates, row.id = uuid 13 := by
    have hmem : (uuid 13, false) ∈ [(uuid 13, false)] := List.mem_singleton_self _
    rw [← hrows] at hmem
    obtain ⟨row, hrow, heq⟩ := List.mem_map.mp hmem
    exact ⟨row, hrow, (Prod.mk.inj heq).1⟩
  refine ⟨cfg, hreach, hfinish, hrow, fun i event hmem => ?_⟩
  cases List.all_eq_true.mp hlog _ hmem

end Instance

end Ostrich.Ca
