import Ostrich.Est.Rest

/-!
# What a request does with its enrollment token

`ledger` reads off the history of a request which token it presented, how many uses it reserved,
spent and took back, and how many certificates the CA issued for it.  Most calls leave it as it is
(`Quiet`); `Calls` says in which state of the ledger the others are made, and `meets_spec` that the
handlers keep to that.
-/

namespace Ostrich.Est

open Common Interleave X509

/-! ### The ledger of a request -/

/-- What a request did with its token. -/
structure Ledger where
  token : Option Uuid := none
  /-- Uses that were spent before the CA was asked. -/
  reserved : ℕ := 0
  /-- Uses that were spent after it issued. -/
  spent : ℕ := 0
  refunded : ℕ := 0
  issued : ℕ := 0
  deriving DecidableEq, Repr

/-- Add a call; a statement counts if it ran, whether its reply arrived or not. -/
def Ledger.record (l : Ledger) : (e : Call) × Reply e → Ledger
  | ⟨.db (.findLiveEnrollmentToken _), .ok (some (id, _, _))⟩ => { l with token := some id }
  | ⟨.db (.consumeEnrollmentToken _ none), r⟩ =>
    if r.effect = some true then { l with reserved := l.reserved + 1 } else l
  | ⟨.db (.consumeEnrollmentToken _ (some _)), r⟩ =>
    if r.effect = some true then { l with spent := l.spent + 1 } else l
  | ⟨.db (.refundEnrollmentToken _), r⟩ =>
    if r.effect = some () then { l with refunded := l.refunded + 1 } else l
  | ⟨.issueCertificate _, r⟩ => if r.issued then { l with issued := l.issued + 1 } else l
  | _ => l

/-- The ledger of a history. -/
def ledger (h : History Call Reply) : Ledger := h.foldl Ledger.record {}

theorem ledger_append (h : History Call Reply) (s : (e : Call) × Reply e) :
    ledger (h ++ [s]) = (ledger h).record s := by
  rw [ledger, ledger, List.foldl_append, List.foldl_cons, List.foldl_nil]

/-- The calls that leave the ledger and the uses of the tokens as they are. -/
def Quiet : Call → Prop
  | .db (.createEnrollmentToken ..) | .db (.findLiveEnrollmentToken _)
  | .db (.consumeEnrollmentToken ..) | .db (.refundEnrollmentToken _)
  | .db (.revokeEnrollmentToken ..) | .issueCertificate _ => False
  | _ => True

theorem record_of_quiet {l : Ledger} {s : (e : Call) × Reply e} (h : Quiet s.1) :
    l.record s = l := by
  unfold Ledger.record
  split <;> first | exact h.elim | rfl

theorem ledger_of_quiet {h new : History Call Reply} (hnew : ∀ s ∈ new, Quiet s.1) :
    ledger (h ++ new) = ledger h := by
  induction new using List.reverseRecOn with
  | nil => rw [List.append_nil]
  | append_singleton new s ih =>
    rw [← List.append_assoc, ledger_append, record_of_quiet (hnew s (by simp))]
    exact ih fun s' hs' => hnew s' (List.mem_append_left _ hs')

/-! ### The specification -/

/-- The calls that a request makes. -/
def Calls (t : Task) (h : History Call Reply) : Call → Prop
  | .db (.findLiveEnrollmentToken _) => ledger h = {}
  | .db (.consumeEnrollmentToken id none) => ledger h = { token := some id }
  | .db (.consumeEnrollmentToken id (some _)) =>
    ∃ issued, ledger h = { token := some id, issued }
  | .db (.refundEnrollmentToken id) =>
    ∃ issued, issued ≤ 1 ∧ ledger h = { token := some id, reserved := 1, issued }
  | .issueCertificate _ =>
    match t with
    | .simpleEnroll .. => ledger h = {} ∨ ∃ id, ledger h = { token := some id, reserved := 1 }
    | .simpleReenroll .. => ledger h = {}
    | .serverKeyGen .. => ∃ token, ledger h = { token }
  | .db (.createEnrollmentToken ..) | .db (.revokeEnrollmentToken ..) => False
  | _ => True

/-- What the requests do. -/
def spec : Spec Call Reply Error Response Task where
  calls := Calls
  result := fun _ _ _ => True

theorem calls_of_quiet {t : Task} {h : History Call Reply} {e : Call} (he : Quiet e) :
    Calls t h e := by
  unfold Calls
  split <;> first | exact he.elim | trivial

/-- The calls of a program are those of a request. -/
abbrev Safe {α : Type} (t : Task) (p : EstM α) (h : History Call Reply) : Prop :=
  p.Wp (Calls t) (fun _ _ => True) h

variable {env : Env} {t : Task} {h : History Call Reply} {α β : Type}

/-- A program of quiet calls leaves the ledger as it is. -/
theorem wp_of_quiet {p : EstM α} {result : Except Error α → History Call Reply → Prop}
    (hp : p.Within Quiet) (hresult : ∀ r h', ledger h' = ledger h → result r h') :
    p.Wp (Calls t) result h :=
  hp.wp (fun _ _ => calls_of_quiet) fun r _ hnew => hresult r _ (ledger_of_quiet hnew)

theorem safe_of_quiet {p : EstM α} (hp : p.Within Quiet) : Safe t p h :=
  wp_of_quiet hp fun _ _ _ => trivial

/-- A program of quiet calls before another program. -/
theorem safe_bind {p : EstM α} {f : α → EstM β} (hp : p.Within Quiet)
    (hf : ∀ a h', ledger h' = ledger h → Safe t (f a) h') : Safe t (p >>= f) h := by
  refine (Prog.wp_bind p).mpr (wp_of_quiet hp fun r h' hledger => ?_)
  cases r with
  | ok a => exact hf a h' hledger
  | error e => exact trivial

/-! ### Quiet programs -/

theorem await_quiet {e : Call} (he : Quiet e) : (await e).Within Quiet :=
  ⟨he, fun _ => trivial⟩

theorem await_bind {e : Call} {f : Reply e → EstM α} (he : Quiet e)
    (hf : ∀ r, (f r).Within Quiet) : (await e >>= f).Within Quiet :=
  (await_quiet he).bind hf

theorem query_quiet {q : Query} {f : Ca.DbError → Error} (hq : Quiet (.db q)) :
    (query q f).Within Quiet :=
  await_bind hq fun r => by cases r <;> exact trivial

theorem query_bind {q : Query} {f : Ca.DbError → Error} {g : q.Result → EstM α}
    (hq : Quiet (.db q)) (hg : ∀ a, (g a).Within Quiet) : (query q f >>= g).Within Quiet :=
  (query_quiet hq).bind hg

theorem deny_quiet {resource action : String} {e : Error} :
    (deny resource action e : EstM α).Within Quiet :=
  await_bind trivial fun _ => trivial

theorem rejectUnissuableClientId_quiet {clientIdentifier resource : String} :
    (rejectUnissuableClientId clientIdentifier resource).Within Quiet := by
  unfold rejectUnissuableClientId
  split
  · exact trivial
  · exact await_bind trivial fun _ => trivial

theorem decodeCsr_quiet {resource text : String} {body : List UInt8} :
    (decodeCsr env resource text body).Within Quiet := by
  unfold decodeCsr
  split
  · exact deny_quiet
  · split_ifs
    · exact deny_quiet
    · split
      · exact trivial
      · exact deny_quiet
      · exact trivial
      · exact trivial

theorem verifyCsr_quiet {resource : String} {csr : ParsedCsr} :
    (verifyCsr env resource csr).Within Quiet := by
  unfold verifyCsr
  split
  · exact trivial
  · exact deny_quiet
  · exact trivial
  · exact trivial
  · exact trivial

theorem csrCommonName_quiet {der : List UInt8} : (csrCommonName env der).Within Quiet := by
  unfold csrCommonName
  split <;> exact trivial

theorem identityAuthorized_quiet {user : AuthenticatedUser} {cn : Option String}
    {sans : List String} : (identityAuthorized env user cn sans).Within Quiet := by
  unfold identityAuthorized
  split_ifs
  · exact trivial
  · split
    · exact trivial
    · dsimp only
      split_ifs
      · exact trivial
      · exact query_bind trivial fun _ => trivial

theorem efsNames_quiet {client : String} {efs : Bool} {body : List UInt8} :
    (efsNames env client efs body).Within Quiet := by
  unfold efsNames
  split_ifs
  · exact deny_quiet
  · split
    · exact deny_quiet
    · split
      · split_ifs
        · exact deny_quiet
        · exact trivial
      · exact trivial

theorem csrNames_quiet {body : List UInt8} : (csrNames env body).Within Quiet := by
  unfold csrNames
  refine decodeCsr_quiet.bind fun ⟨csrDer, parsed⟩ => ?_
  dsimp only
  split <;> exact trivial

theorem enforceTokenProfilePin_quiet {user : AuthenticatedUser} {profile : String} :
    (enforceTokenProfilePin user profile).Within Quiet := by
  unfold enforceTokenProfilePin
  split_ifs
  · refine query_bind trivial fun found => ?_
    cases found with
    | none => exact trivial
    | some pinned =>
      dsimp only
      split_ifs <;> exact trivial
  · exact trivial

theorem resolveEnrollment_quiet {label : Option String} {user : AuthenticatedUser} :
    (resolveEnrollment env label user).Within Quiet := by
  unfold resolveEnrollment
  split
  · split_ifs
    · refine Prog.Within.bind ?_ fun _ => trivial
      unfold resolveEnrollProfile
      split_ifs
      · refine await_bind trivial fun r => ?_
        split <;> exact trivial
      · exact trivial
    · exact trivial
  · refine (Prog.within_ofExcept _).bind fun parsed => ?_
    refine enforceTokenProfilePin_quiet.bind fun _ => ?_
    exact (Prog.within_ofExcept _).bind fun _ => trivial

theorem createEnrollment_quiet {client kind what : String} {csr : List UInt8} :
    (createEnrollment client kind csr what).Within Quiet :=
  await_bind trivial fun _ => await_bind trivial fun _ => query_quiet trivial

theorem respond_quiet {efs : Bool} {id : Uuid} {missing : String} {f : Ca.DbError → Error} :
    (respond env efs id missing f).Within Quiet := by
  unfold respond
  refine query_bind trivial fun found => ?_
  cases found with
  | none => exact trivial
  | some certificate =>
    dsimp only
    split <;> exact trivial

theorem issuanceFailed_quiet {e : Error} {action : String} :
    (issuanceFailed e action (return ()) : EstM α).Within Quiet := by
  unfold issuanceFailed
  split_ifs
  · exact trivial
  · exact Prog.Within.bind trivial fun _ => await_bind trivial fun _ => trivial

theorem finalizeEnrollmentTokenIfPresent_quiet {user : AuthenticatedUser} {id : Uuid} :
    (finalizeEnrollmentTokenIfPresent user id).Within Quiet := by
  unfold finalizeEnrollmentTokenIfPresent
  split_ifs
  · exact await_bind trivial fun _ => await_quiet trivial
  · exact trivial

theorem priorCertificates_quiet {csr : ParsedCsr} (enrollments : List EstEnrollment)
    (seen : Bool × Bool × Option String) :
    (priorCertificates env csr enrollments seen).Within Quiet := by
  induction enrollments generalizing seen with
  | nil => exact trivial
  | cons enrollment rest ih =>
    unfold priorCertificates
    split
    · exact ih _
    · refine query_bind trivial fun found => ?_
      split
      · split_ifs
        · exact ih _
        · exact ih _
      · exact ih _

/-! ### The programs that touch the token -/

/-- A principal and what the ledger says after it was authenticated. -/
def Presented (user : AuthenticatedUser) (l : Ledger) : Prop :=
  hasRole user .EstEnrollee = false ∧ l = {} ∨
    hasRole user .EstEnrollee = true ∧ user.roles = [.EstEnrollee] ∧ l = { token := some user.id }

theorem authenticate_wp (credential : Credential) : (authenticate env credential).Wp (Calls t)
    (fun r h => ∀ user, r = .ok user → Presented user (ledger h)) [] := by
  have haccount (account : Account) : hasRole account.user .EstEnrollee = false := by
    simpa [hasRole] using account.not_enrollee
  cases credential with
  | certificate account =>
    intro user huser
    obtain rfl := Except.ok.inj huser
    exact .inl ⟨haccount account, rfl⟩
  | bearer token =>
    refine (Prog.wp_bind _).mpr ((Prog.wp_perform _).mpr ⟨rfl, fun r => ?_⟩)
    dsimp only
    split
    · intro user huser
      obtain rfl := Except.ok.inj huser
      exact .inr ⟨rfl, rfl, rfl⟩
    · rename_i hr
      -- no live token: the ledger is empty still
      have hledger : ledger ([] ++ [⟨.db (.findLiveEnrollmentToken (env.hashToken token)), r⟩])
          = {} := by
        match r, hr with
        | .ok none, _ => rfl
        | .ok (some (id, identity, expiresAt)), hr => exact absurd rfl (hr id identity expiresAt)
        | .error .., _ => rfl
      split
      · intro user huser
        obtain rfl := Except.ok.inj huser
        exact .inl ⟨haccount _, hledger⟩
      · exact fun _ huser => by cases huser

/-- A request starts with its principal. -/
theorem safe_of_presented {permission : Permission} {f : AuthenticatedUser → EstM Response}
    (credential : Credential)
    (hf : ∀ user h, Presented user (ledger h) →
      anyRoleHasPermission user.roles permission = true → Safe t (f user) h) :
    Safe t (do let user ← authenticate env credential; authorize user permission; f user) [] := by
  refine (Prog.wp_bind _).mpr ((authenticate_wp credential).mono fun r h huser => ?_)
  cases r with
  | error e => exact trivial
  | ok user =>
    refine (Prog.wp_bind _).mpr ?_
    unfold authorize
    split_ifs with hpermission
    · exact hf user h (huser user rfl) hpermission
    · exact trivial

/-- The ledger after a use was reserved: it is one, unless the principal has no token. -/
def Reserved (user : AuthenticatedUser) (l : Ledger) : Prop :=
  hasRole user .EstEnrollee = false ∧ l = {} ∨
    hasRole user .EstEnrollee = true ∧ l = { token := some user.id, reserved := 1 }

theorem reserve_wp {user : AuthenticatedUser} (huser : Presented user (ledger h)) :
    (reserveEnrollmentTokenIfPresent user).Wp (Calls t)
      (fun r h' => r = .ok () → Reserved user (ledger h')) h := by
  unfold reserveEnrollmentTokenIfPresent
  rcases huser with ⟨hrole, hledger⟩ | ⟨hrole, -, hledger⟩
  · rw [hrole, if_neg Bool.false_ne_true]
    exact fun _ => .inl ⟨hrole, hledger⟩
  · rw [if_pos hrole]
    refine (Prog.wp_bind _).mpr ((Prog.wp_perform _).mpr ⟨hledger, fun r => ?_⟩)
    dsimp only
    split
    · intro _
      refine .inr ⟨hrole, ?_⟩
      rw [ledger_append, hledger]
      rfl
    · exact fun heq => by cases heq
    · exact fun heq => by cases heq

/-- Issuance adds at most one certificate to the ledger, and makes no other call that touches it. -/
theorem enroll_wp {id : Uuid} {csr : List UInt8} {client profile : String}
    {metadata : List (String × String)} {l : Ledger} (hl : ledger h = l)
    (hcalls : ∀ h' request, ledger h' = l → Calls t h' (.issueCertificate request)) :
    (enroll env id csr client profile metadata).Wp (Calls t)
      (fun _ h' => ∃ n ≤ 1, ledger h' = { l with issued := l.issued + n }) h := by
  have hsame {h' : History Call Reply} (h : ledger h' = l) :
      ∃ n ≤ 1, ledger h' = { l with issued := l.issued + n } := ⟨0, zero_le_one, h⟩
  have hone {h' h'' : History Call Reply} (hledger : ledger h'' = ledger h')
      (hissued : ∃ n ≤ 1, ledger h' = { l with issued := l.issued + n }) :
      ∃ n ≤ 1, ledger h'' = { l with issued := l.issued + n } := by
    rwa [hledger]
  unfold enroll
  refine (Prog.wp_bind _).mpr (wp_of_quiet ?_ fun r h' hledger => ?_)
  · unfold ofOutcome
    split <;> exact trivial
  · cases r with
    | error e => exact hsame (hledger.trans hl)
    | ok request =>
      refine (Prog.wp_bind _).mpr ((Prog.wp_perform _).mpr
        ⟨hcalls h' request (hledger.trans hl), fun reply => ?_⟩)
      have hreply : ∃ n ≤ 1, ledger (h' ++ [⟨.issueCertificate request, reply⟩])
          = { l with issued := l.issued + n } := by
        rw [ledger_append, hledger, hl, Ledger.record]
        split_ifs
        · exact ⟨1, le_rfl, rfl⟩
        · exact ⟨0, zero_le_one, rfl⟩
      dsimp only
      split
      · exact hreply
      · split
        · exact hreply
        · refine wp_of_quiet ?_ fun _ _ hquiet => hone hquiet hreply
          exact await_bind trivial fun _ => query_bind trivial fun _ => trivial

theorem refund_safe {user : AuthenticatedUser} {n : ℕ} (hn : n ≤ 1) (h : History Call Reply)
    (huser : hasRole user .EstEnrollee = true →
      ledger h = { token := some user.id, reserved := 1, issued := n }) :
    Safe t (refundEnrollmentTokenIfPresent user) h := by
  unfold refundEnrollmentTokenIfPresent
  split_ifs with hrole
  · exact (Prog.wp_bind _).mpr ((Prog.wp_perform _).mpr ⟨⟨n, hn, huser hrole⟩, fun _ => trivial⟩)
  · exact trivial

/-! ### The handlers -/

theorem issueSimple_safe {credential : Credential} {label label' : Option String}
    {body csr : List UInt8} {user : AuthenticatedUser} (huser : Presented user (ledger h)) :
    Safe (.simpleEnroll credential label' body) (issueSimple env user label csr) h := by
  unfold issueSimple
  refine safe_bind createEnrollment_quiet fun enrollment h₁ h₁eq => ?_
  refine safe_bind resolveEnrollment_quiet.attempt fun resolved h₂ h₂eq => ?_
  have huser₂ : Presented user (ledger h₂) := by rwa [h₂eq, h₁eq]
  split
  · exact safe_of_quiet issuanceFailed_quiet
  · refine (Prog.wp_bind _).mpr ((Prog.wp_attempt _).mpr ((reserve_wp huser₂).mono ?_))
    intro r h₃ hreserved
    cases r with
    | error e => exact safe_of_quiet issuanceFailed_quiet
    | ok _ =>
      have hcalls : ∀ h' request, ledger h' = ledger h₃ →
          Calls (.simpleEnroll credential label' body) h' (.issueCertificate request) := by
        intro h' request heq
        rcases hreserved rfl with ⟨-, hl⟩ | ⟨-, hl⟩
        · exact .inl (heq.trans hl)
        · exact .inr ⟨user.id, heq.trans hl⟩
      refine (Prog.wp_bind _).mpr ((Prog.wp_attempt _).mpr ((enroll_wp rfl hcalls).mono ?_))
      rintro r h₄ ⟨n, hn, h₄eq⟩
      cases r with
      | error e =>
        dsimp only
        unfold issuanceFailed
        split_ifs
        · exact trivial
        · -- the use is taken back whether the CA issued or not
          refine (Prog.wp_bind _).mpr ((refund_safe hn h₄ fun hrole => ?_).mono fun r h₅ _ => ?_)
          · rcases hreserved rfl with ⟨hrole', -⟩ | ⟨-, hl⟩
            · rw [hrole] at hrole'
              cases hrole'
            · rw [h₄eq, hl, Nat.zero_add]
          · cases r with
            | error e => exact trivial
            | ok _ => exact safe_of_quiet (await_bind trivial fun _ => trivial)
      | ok certificateId =>
        refine safe_of_quiet (finalizeEnrollmentTokenIfPresent_quiet.bind fun _ => ?_)
        exact respond_quiet.bind fun _ => await_bind trivial fun _ => trivial

theorem simpleEnroll_safe {credential : Credential} {label label' : Option String}
    {body body' : List UInt8} {user : AuthenticatedUser} (huser : Presented user (ledger h)) :
    Safe (.simpleEnroll credential label' body') (simpleEnroll env user label body) h := by
  unfold simpleEnroll
  refine safe_bind rejectUnissuableClientId_quiet fun _ h₁ h₁eq => ?_
  refine safe_bind decodeCsr_quiet fun ⟨csrDer, parsedCsr⟩ h₂ h₂eq => ?_
  refine safe_bind verifyCsr_quiet fun _ h₃ h₃eq => ?_
  refine safe_bind csrCommonName_quiet fun cn h₄ h₄eq => ?_
  refine safe_bind identityAuthorized_quiet fun authorized h₅ h₅eq => ?_
  split_ifs
  · refine issueSimple_safe ?_
    rwa [h₅eq, h₄eq, h₃eq, h₂eq, h₁eq]
  · exact safe_of_quiet deny_quiet

theorem simpleReenroll_safe {credential : Credential} {label label' : Option String}
    {body body' : List UInt8} {user : AuthenticatedUser} (hl : ledger h = {}) :
    Safe (.simpleReenroll credential label' body') (simpleReenroll env user label body) h := by
  unfold simpleReenroll
  refine safe_bind rejectUnissuableClientId_quiet fun _ h₁ h₁eq => ?_
  refine safe_bind decodeCsr_quiet fun ⟨csrDer, parsedCsr⟩ h₂ h₂eq => ?_
  refine safe_bind verifyCsr_quiet fun _ h₃ h₃eq => ?_
  refine safe_bind (query_quiet trivial) fun prior h₄ h₄eq => ?_
  refine safe_bind (priorCertificates_quiet _ _) fun ⟨subjectMatches, had, profile⟩ h₅ h₅eq => ?_
  dsimp only
  split_ifs
  · unfold issueRenewal
    refine safe_bind createEnrollment_quiet fun enrollment h₆ h₆eq => ?_
    refine safe_bind resolveEnrollment_quiet.attempt fun resolved h₇ h₇eq => ?_
    have hl₇ : ledger h₇ = {} := by rw [h₇eq, h₆eq, h₅eq, h₄eq, h₃eq, h₂eq, h₁eq, hl]
    split
    · exact safe_of_quiet issuanceFailed_quiet
    · have hcalls : ∀ h' request, ledger h' = {} →
          Calls (.simpleReenroll credential label' body') h' (.issueCertificate request) :=
        fun _ _ heq => heq
      refine (Prog.wp_bind _).mpr ((Prog.wp_attempt _).mpr
        ((enroll_wp hl₇ hcalls).mono fun r h₈ _ => ?_))
      cases r with
      | error e => exact safe_of_quiet issuanceFailed_quiet
      | ok certificateId =>
        exact safe_of_quiet (respond_quiet.bind fun _ => await_bind trivial fun _ => trivial)
  · exact safe_of_quiet deny_quiet
  · exact safe_of_quiet deny_quiet

theorem issueServerKey_safe {credential : Credential} {label contentType : Option String}
    {body : List UInt8} {user : AuthenticatedUser} {resolved : ParsedLabel} {efs : Bool}
    {subject : DistinguishedName} {sans : List String} (huser : Presented user (ledger h)) :
    Safe (.serverKeyGen credential label contentType body)
      (issueServerKey env user resolved efs subject sans) h := by
  unfold issueServerKey
  refine safe_bind (await_quiet trivial) fun generated h₁ h₁eq => ?_
  refine safe_bind (Prog.within_ofExcept _) fun csrDer h₂ h₂eq => ?_
  refine safe_bind createEnrollment_quiet fun enrollment h₃ h₃eq => ?_
  have huser₃ : Presented user (ledger h₃) := by rwa [h₃eq, h₂eq, h₁eq]
  have hcalls : ∀ h' request, ledger h' = ledger h₃ →
      Calls (.serverKeyGen credential label contentType body) h' (.issueCertificate request) := by
    intro h' request heq
    rcases huser₃ with ⟨-, hl⟩ | ⟨-, -, hl⟩
    · exact ⟨none, heq.trans hl⟩
    · exact ⟨some user.id, heq.trans hl⟩
  refine (Prog.wp_bind _).mpr ((Prog.wp_attempt _).mpr ((enroll_wp rfl hcalls).mono ?_))
  rintro r h₄ ⟨n, -, h₄eq⟩
  cases r with
  | error e =>
    dsimp only
    split_ifs
    · exact trivial
    · exact safe_of_quiet (await_bind trivial fun _ => await_bind trivial fun _ => trivial)
  | ok certificateId =>
    refine safe_bind (await_quiet trivial) fun _ h₅ h₅eq => ?_
    have hrest (h' : History Call Reply) : Safe (.serverKeyGen credential label contentType body)
        (do
          let response ← respond env efs certificateId "Issued certificate not found" fun e =>
            .Internal ("Failed to load issued certificate: " ++ e.display)
          await (.audit "est:enrollment" "serverkeygen" true)
          return response) h' :=
      safe_of_quiet (respond_quiet.bind fun _ => await_bind trivial fun _ => trivial)
    refine (Prog.wp_bind _).mpr ?_
    unfold consumeEnrollmentTokenIfPresent
    split_ifs with hrole
    · rcases huser₃ with ⟨hrole', -⟩ | ⟨-, -, hl⟩
      · rw [hrole] at hrole'
        cases hrole'
      · -- the use is spent now, after the CA issued
        refine (Prog.wp_bind _).mpr ((Prog.wp_perform _).mpr ⟨⟨n, ?_⟩, fun r => ?_⟩)
        · rw [h₅eq, h₄eq, hl, Nat.zero_add]
        · exact (Prog.wp_perform _).mpr ⟨trivial, fun _ => hrest _⟩
    · exact hrest _

theorem authorizedKey_safe {credential : Credential} {label contentType : Option String}
    {body : List UInt8} {user : AuthenticatedUser} {resolved : ParsedLabel} {efs : Bool}
    {names : DistinguishedName × List String} {e : Error} (huser : Presented user (ledger h)) :
    Safe (.serverKeyGen credential label contentType body) (do
      if ← identityAuthorized env user names.1.commonName names.2 then
        issueServerKey env user resolved efs names.1 names.2
      else deny "est:serverkeygen" "identity_not_bound" e) h := by
  refine safe_bind identityAuthorized_quiet fun authorized h' heq => ?_
  split_ifs
  · refine issueServerKey_safe ?_
    rwa [heq]
  · exact safe_of_quiet deny_quiet

theorem serverKeyGen_safe {credential : Credential}
    {label label' contentType contentType' : Option String} {body body' : List UInt8}
    {user : AuthenticatedUser} (huser : Presented user (ledger h)) :
    Safe (.serverKeyGen credential label' contentType' body')
      (serverKeyGen env user label contentType body) h := by
  unfold serverKeyGen
  refine safe_bind rejectUnissuableClientId_quiet fun _ h₁ h₁eq => ?_
  refine safe_bind resolveEnrollment_quiet.attempt fun resolved h₂ h₂eq => ?_
  split
  · split_ifs
    · exact trivial
    · exact safe_of_quiet deny_quiet
  · dsimp only
    split
    · exact safe_of_quiet deny_quiet
    · have huser₂ : Presented user (ledger h₂) := by rwa [h₂eq, h₁eq]
      split_ifs
      · exact safe_bind efsNames_quiet fun _ _ heq => authorizedKey_safe (heq ▸ huser₂)
      · exact safe_bind csrNames_quiet fun _ _ heq => authorizedKey_safe (heq ▸ huser₂)

/-- **The requests keep to the specification.** -/
theorem meets_spec (env : Env) : (system env).Meets spec := by
  intro t
  cases t with
  | simpleEnroll credential label body =>
    exact safe_of_presented (t := .simpleEnroll credential label body) credential
      fun user h huser _ => simpleEnroll_safe huser
  | simpleReenroll credential label body =>
    refine safe_of_presented (t := .simpleReenroll credential label body) credential
      fun user h huser hpermission => ?_
    rcases huser with ⟨-, hl⟩ | ⟨-, hroles, -⟩
    · exact simpleReenroll_safe hl
    · -- an enrollment token does not renew
      rw [hroles] at hpermission
      cases hpermission
  | serverKeyGen credential label contentType body =>
    exact safe_of_presented (t := .serverKeyGen credential label contentType body) credential
      fun user h huser _ => serverKeyGen_safe huser

end Ostrich.Est
