import Ostrich.Ca.Equiv.AutoIssue
import Ostrich.X509.SubjectKey

/-!
# The keys that are certified

`issue` checks its policy against the key type that the profile names, and certifies the key of the
request.

* `keys_allowed_iff`: every certificate for a request has a key that the policy allows exactly when
  the policy allows the key of the request, or the request is not accepted;
* `small_key_certified`: an RSA key of 1024 bits under a profile for P-256.
-/

namespace Ostrich.Ca

open Common Interleave X509 Prog

/-! ### The property -/

/-- Every certificate that is issued for the request, from whatever store and with whatever
replies, has a key that the policy allows. -/
def KeysAllowed (env : Env) (request : IssuanceRequest) : Prop :=
  ∀ (s : Store) (cs : List Choice) (run : TaskRun Certificate) (cert : Certificate),
    (issue env request).solo exec cs s = some run → run.result = .ok cert →
      env.secureDefaults.AllowsKey cert.tbs.publicKey

/-! ### The condition -/

/-- The request passes the checks of `issue`, with an approval where one is needed. -/
structure Accepts (env : Env) (request : IssuanceRequest) : Prop where
  approval : env.requireApproval = true →
    env.approvalRepo = true ∧ ∃ id, request.approvalRequestId = some id
  profile : ∃ profile, env.profiles request.profileName = some profile ∧
    (request.authenticatedCaller.isSome && profile.basicConstraintsCa) = false ∧
    profile.validate = .ok () ∧ env.secureDefaults.validateProfile profile = .ok () ∧
    Accepted env profile request ∧ Buildable env profile request

/-! ### What is issued -/

section

variable {env : Env} {request : IssuanceRequest}

theorem does_commit (x : Uuid × Certificate) (h : Trace) :
    (commit env request x).Does (fun _ _ => True) (fun cert _ => cert = x.2) h := by
  have hlink : (linkApproval env request x.2.id).Does (fun _ _ => True) (fun _ _ => True)
      (h ++ [⟨.db (.createCertificate x.2), .ok ()⟩]) := by
    unfold linkApproval
    split
    · exact (Prog.does_pure _).mpr trivial
    · split
      · exact @does_query (fun _ _ => True) _ (.markRequestCompleted _ _) (fun _ _ => True) trivial
          fun _ => trivial
      · exact (Prog.does_pure _).mpr trivial
  unfold commit
  rw [Prog.does_bind]
  refine @does_query (fun _ _ => True) _ (.createCertificate x.2) _ trivial fun _ => ?_
  rw [Prog.does_bind]
  refine hlink.mono fun _ h' _ => ?_
  rw [Prog.does_bind]
  exact does_record trivial fun _ => (Prog.does_pure _).mpr rfl

/-- A certificate that is issued is for the key of a request that is accepted. -/
theorem accepts_of_issued {s : Store} {cs : List Choice} {run : TaskRun Certificate}
    {cert : Certificate} (hrun : (issue env request).solo exec cs s = some run)
    (hok : run.result = .ok cert) :
    Accepts env request ∧ cert.tbs.publicKey = request.publicKey := by
  rw [issue_eq] at hrun
  rcases solo_bind hrun with ⟨e, -, herr⟩ | ⟨x, h, s₁, cs₁, second, hfirst, hsecond, rfl⟩
  · rw [hok] at herr
    cases herr
  · have hprepared : Prepared env request [] h x :=
      Wp.solo (@does_prepare env (fun _ _ => True) (fun _ _ _ => trivial) request [])
        hfirst x rfl
    have hcert : cert = x.2 :=
      Wp.solo (does_commit x []) hsecond cert hok
    refine ⟨⟨fun hrequire => ?_, hprepared.profile⟩, ?_⟩
    · obtain ⟨hrepo, id, -, hid, -⟩ := hprepared.approved hrequire
      exact ⟨hrepo, id, hid⟩
    · obtain ⟨name, -, hcontent⟩ := Option.map_eq_some_iff.mp hprepared.content
      rw [hcert]
      exact congrArg Content.publicKey hcontent

/-! ### A run for an accepted request -/

/-- An approval that was not used. -/
def unusedApproval (id : Uuid) : ApprovalRequestRecord where
  id := id
  requestType := .Issuance
  certificateId := none
  requestorId := id
  requestorUsername := ""
  status := .Approved
  requestDetails := .null
  createdAt := .ofMicros 0
  expiresAt := .ofMicros 0
  approvedAt := none
  completedAt := none

/-- The tables with the approval of the request. -/
def approvedStore (request : IssuanceRequest) : Store :=
  { requests := request.approvalRequestId.toList.map unusedApproval }

theorem ends_await (e : Call) (c : Choice) (s : Store) :
    Prog.Ends exec c (await e) s (exec e c s).1 (exec e c s).2 := ends_perform e

/-- The first part ends, so the whole does if the rest does. -/
theorem exists_ends_bind {α β : Type} {p : CaM α} {f : α → CaM β} {c : Choice} {s s' s'' : Store}
    {a : α} (hp : Prog.Ends exec c p s a s') (hf : ∃ b, Prog.Ends exec c (f a) s' b s'') :
    ∃ b, Prog.Ends exec c (p >>= f) s b s'' := by
  obtain ⟨b, hf⟩ := hf
  exact ⟨b, hp.bind hf⟩

theorem ends_query {q : Query} {c : Choice} {s s' : Store} {a : q.Result}
    (hfault : c.fault = .none) (hrun : q.run c.now s = .ok (a, s')) :
    Prog.Ends exec c (query q) s a s' := by
  have hexec : exec (.db q) c s = (.ok a, s') := by
    show q.exec c.fault c.now s = _
    unfold Query.exec
    rw [hrun, hfault]
  unfold query
  refine Prog.Ends.bind (ends_await (.db q) c s) ?_
  rw [hexec]
  exact ends_pure a

variable {c : Choice}

theorem ends_requestIdOf {s : Store} : ∃ id, Prog.Ends exec c (requestIdOf request) s id s := by
  unfold requestIdOf
  split
  · exact ⟨_, ends_pure _⟩
  · exact ⟨c.uuid, ends_await .newUuid c s⟩

theorem ends_approvalOf {event : AuditEvent} (hfault : c.fault = .none)
    (h : Accepts env request) :
    Prog.Ends exec c (checkApproval env event request) (approvedStore request) ()
      (approvedStore request) := by
  unfold checkApproval
  cases hrequire : env.requireApproval with
  | false => exact ends_pure ()
  | true =>
    obtain ⟨hrepo, id, hid⟩ := h.approval hrequire
    have hread : Query.run (.getRequest id) c.now (approvedStore request) =
        .ok (some (unusedApproval id), approvedStore request) := by
      unfold approvedStore
      rw [hid]
      show Except.ok (List.find? _ [unusedApproval id], _) = _
      rw [List.find?_cons_of_pos (by exact decide_eq_true rfl)]
    rw [if_neg (by decide), hid]
    dsimp only
    rw [if_neg (by rw [hrepo]; decide)]
    refine (ends_query hfault hread).bind ?_
    exact ends_pure ()

theorem ends_checkRequest {event : AuditEvent} {profile : CertificateProfile} {s : Store}
    (h : Accepted env profile request) :
    Prog.Ends exec c (checkRequest env event profile request) s () s := by
  unfold checkRequest
  rw [if_neg]
  · cases hcsr : request.csrDer with
    | none =>
      dsimp only
      rw [if_neg]
      · exact ends_pure ()
      · intro hrefused
        rw [Bool.and_eq_true, Bool.not_eq_true'] at hrefused
        rw [h.possession hcsr hrefused.1] at hrefused
        cases hrefused.2
    | some csrDer =>
      obtain ⟨parsed, hparsed, hsigned, hkey⟩ := h.csr csrDer hcsr
      dsimp only
      unfold checkCsr
      rw [hparsed]
      refine Prog.Ends.bind (ends_pure parsed) ?_
      rw [hsigned]
      refine Prog.Ends.bind (ends_pure true) ?_
      rw [if_neg (by decide), if_neg (not_not.mpr hkey)]
      exact ends_pure ()
  · intro hrefused
    rw [Bool.and_eq_true] at hrefused
    rw [h.names hrefused.1] at hrefused
    cases hrefused.2

theorem ends_buildCertificateOf {profile : CertificateProfile} {requestId : Uuid} {s : Store}
    {issuer : DistinguishedName} {algorithm : Crypto.Algorithm}
    {bytes : { bytes : List UInt8 // bytes.length = 20 }} {notAfter : DateTime}
    {keyId der raw signature : List UInt8} (hrandom : c.random = .ok bytes)
    (hraw : c.signature = .ok raw) (hissuer : env.caSubject = .ok issuer)
    (halgorithm : env.signatureAlgorithm = .ok algorithm)
    (hend : c.now.addSeconds (profile.validityDays * 86400) = some notAfter)
    (hafter : ¬notAfter ≤ c.now) (hkey : env.keyIdentifier request.publicKey = .ok keyId)
    (hder : env.certificateToDer (tbsCertificate profile request (clearHighBit bytes.1) issuer
      c.now notAfter) = .ok der)
    (hsignature : env.encodeSignature algorithm raw = .ok signature) :
    ∃ cert, Prog.Ends exec c (buildCertificate env profile request requestId) s cert s := by
  have hdraw : exec .randomBytes c s = (.ok bytes, s) := by
    show (c.random, s) = _
    rw [hrandom]
  have hsigned : exec (.sign der) c s = (.ok raw, s) := by
    show (c.signature, s) = _
    rw [hraw]
  have hserial : Prog.Ends exec c generateSerialNumber s (clearHighBit bytes.1) s := by
    refine Prog.Ends.bind (ends_await .randomBytes c s) ?_
    rw [hdraw]
    dsimp only
    rw [serialNumberFromBytes_clearHighBit]
    exact ends_pure _
  have hsign : Prog.Ends exec c (signDer env algorithm der) s signature s := by
    refine Prog.Ends.bind (ends_await (.sign der) c s) ?_
    rw [hsigned]
    dsimp only
    rw [hsignature]
    exact ends_pure _
  unfold buildCertificate
  refine exists_ends_bind hserial ?_
  rw [hissuer, halgorithm]
  refine exists_ends_bind (ends_pure issuer) (exists_ends_bind (ends_pure algorithm) ?_)
  refine exists_ends_bind (ends_await .now c s) ?_
  have hnow : exec .now c s = (c.now, s) := rfl
  rw [hnow]
  dsimp only
  rw [hend]
  dsimp only
  rw [hkey]
  refine exists_ends_bind (ends_pure keyId) ?_
  rw [if_neg hafter, hder]
  refine exists_ends_bind (ends_pure der) (exists_ends_bind hsign ?_)
  exact exists_ends_bind (ends_await .newUuid c s) ⟨_, ends_pure _⟩

/-- Storing the certificate and linking the approval. -/
theorem ends_commit (x : Uuid × Certificate) (hfault : c.fault = .none)
    (haudited : c.audited = true) :
    ∃ s', Prog.Ends exec c (commit env request x) (approvedStore request) x.2 s' := by
  have hstored : Query.run (.createCertificate x.2) c.now (approvedStore request) =
      .ok ((), { approvedStore request with certificates := [x.2] }) := rfl
  have hlink : ∃ s', Prog.Ends exec c (linkApproval env request x.2.id)
      { approvedStore request with certificates := [x.2] } () s' := by
    unfold linkApproval
    cases hid : request.approvalRequestId with
    | none => exact ⟨_, ends_pure ()⟩
    | some id =>
      dsimp only
      split_ifs
      · have hupdate : Query.run (.markRequestCompleted id x.2.id) c.now
            { approvedStore request with certificates := [x.2] } =
            .ok ((), { approvedStore request with
              certificates := [x.2]
              requests := [(unusedApproval id).asCompleted c.now x.2.id] }) := by
          unfold approvedStore
          rw [hid]
          show (updateRow [unusedApproval id] _ _ >>= _) = _
          unfold updateRow Table.updateWhere
          simp [unusedApproval]
        exact ⟨_, ends_query hfault hupdate⟩
      · exact ⟨_, ends_pure ()⟩
  obtain ⟨s', hlink⟩ := hlink
  refine ⟨s', ?_⟩
  unfold commit
  refine (ends_query hfault hstored).bind (hlink.bind ?_)
  have hrecord : Prog.Ends exec c (record (issuanceEvent request x.1)) s' () s' := by
    have hexec : exec (.audit (issuanceEvent request x.1)) c s' = (true, s') := by
      show (c.audited, s') = _
      rw [haudited]
    refine Prog.Ends.bind (ends_await _ c s') ?_
    rw [hexec]
    exact ends_pure ()
  exact hrecord.bind (ends_pure _)

/-- **An accepted request gets a certificate**, in some run. -/
theorem exists_issued (h : Accepts env request) :
    ∃ (s : Store) (cs : List Choice) (run : TaskRun Certificate) (cert : Certificate),
      (issue env request).solo exec cs s = some run ∧ run.result = .ok cert := by
  obtain ⟨profile, hprofile, hcaller, hvalid, hpolicy, haccepted, hbuild⟩ := h.profile
  obtain ⟨issuer, algorithm, bytes, notBefore, notAfter, keyId, der, raw, signature, hissuer,
    halgorithm, hend, hafter, hkey, hder, hsignature⟩ := hbuild
  -- the same answers for all calls
  let c : Choice := ⟨.none, notBefore, ⟨0⟩, .ok bytes, .ok raw, true⟩
  obtain ⟨requestId, hid⟩ := @ends_requestIdOf request c (approvedStore request)
  obtain ⟨cert, hcert⟩ := @ends_buildCertificateOf env request c profile requestId
    (approvedStore request) issuer algorithm bytes notAfter keyId der raw signature rfl rfl hissuer
    halgorithm hend hafter hkey hder hsignature
  have hprepare : Prog.Ends exec c (prepare env request) (approvedStore request) (requestId, cert)
      (approvedStore request) := by
    unfold prepare
    refine hid.bind ?_
    rw [hprofile]
    dsimp only
    rw [if_neg (by rw [hcaller]; decide), hvalid, hpolicy]
    refine Prog.Ends.bind (ends_pure ()) (Prog.Ends.bind (ends_pure ()) ?_)
    refine Prog.Ends.bind (ends_approvalOf rfl h) (Prog.Ends.bind (ends_checkRequest haccepted) ?_)
    exact hcert.bind (ends_pure _)
  obtain ⟨s', hcommit⟩ := @ends_commit env request c (requestId, cert) rfl rfl
  have hissue : Prog.Ends exec c (issue env request) (approvedStore request) cert s' := by
    rw [issue_eq]
    exact hprepare.bind hcommit
  obtain ⟨k, history, hends⟩ := hissue
  exact ⟨_, List.replicate k c ++ [], _, cert, hends [], rfl⟩

end

/-! ### The result -/

/-- **The keys that are certified are allowed exactly when** the key of the request is, or the
request is not accepted: the policy does not look at the key. -/
theorem keys_allowed_iff (env : Env) (request : IssuanceRequest) :
    KeysAllowed env request ↔
      env.secureDefaults.AllowsKey request.publicKey ∨ ¬Accepts env request := by
  constructor
  · intro h
    by_cases haccepts : Accepts env request
    · obtain ⟨s, cs, run, cert, hrun, hok⟩ := exists_issued haccepts
      left
      rw [← (accepts_of_issued hrun hok).2]
      exact h s cs run cert hrun hok
    · exact .inr haccepts
  · rintro h s cs run cert hrun hok
    obtain ⟨haccepts, hkey⟩ := accepts_of_issued hrun hok
    rw [hkey]
    rcases h with hallowed | hnot
    · exact hallowed
    · exact absurd haccepts hnot

/-- An RSA key of 1024 bits. -/
def smallKey : List UInt8 :=
  Der.tlv 0x30 (Der.tlv 0x30 (Der.tlv 0x06 rsaEncryption ++ Der.tlv 0x05 []) ++
    Der.tlv 0x03 (0 :: Der.tlv 0x30 (Der.tlv 0x02 (0 :: 0xC1 :: (List.replicate 126 0 ++ [1])) ++
      Der.tlv 0x02 [1, 0, 1])))

/-- A profile of subordinate authorities, for keys on P-256. -/
def subordinate : CertificateProfile :=
  { name := "subordinate", profileType := .IntermediateCa, validityDays := 365, keyType := "ec_p256"
    algorithm := "ecdsa_p256_sha256", keyUsage := [.KeyCertSign], extendedKeyUsage := []
    basicConstraintsCa := true, basicConstraintsPathLen := some 0, subjectAltNameRequired := false }

/-- The default policy, with that profile. -/
def subordinates : Env :=
  { Instance.authority false with profiles := fun _ => some subordinate }

/-- A request without a CSR, as for the key of an authority. -/
def smallKeyRequest : IssuanceRequest where
  profileName := "subordinate"
  subject := { commonName := "sub" }
  subjectAltNames := []
  publicKey := smallKey
  requestor := "admin"
  authenticatedCaller := none
  csrDer := none
  approvalRequestId := none
  requestId := none

/-- The serial number that is drawn. -/
def drawn : { bytes : List UInt8 // bytes.length = 20 } := ⟨List.replicate 20 1, rfl⟩

theorem accepts_smallKey : Accepts subordinates smallKeyRequest := by
  refine ⟨?_, subordinate, rfl, rfl, rfl, by rfl, ⟨?_, ?_, ?_⟩, ?_⟩
  · intro h
    cases h
  · intro h
    cases h
  · intro csrDer h
    cases h
  · intro _ _
    rfl
  · have hkeyId (spki : List UInt8) : subordinates.keyIdentifier spki = .ok (spki.take 20) := rfl
    have hder (tbs : TbsCertificate) :
        subordinates.certificateToDer tbs = .ok tbs.serialNumber := rfl
    have hsignature (algorithm : Crypto.Algorithm) (raw : List UInt8) :
        subordinates.encodeSignature algorithm raw = .ok raw := rfl
    exact ⟨{ commonName := "ca" }, .Ed25519, drawn, Instance.time 0, Instance.time 31536000,
      _, _, [1], _, rfl, rfl, by decide +kernel, by decide, hkeyId _, hder _, hsignature _ _⟩

/-- A policy does not allow a smaller RSA key. -/
theorem not_allowsKey {policy : SecureDefaults} {spki : List UInt8} {bits : ℕ}
    (hkey : subjectKey spki = .rsa bits) (hsmall : bits < policy.minRsaKeySize) :
    ¬policy.AllowsKey spki := by
  rintro ⟨-, hlarge⟩
  rw [hkey] at hlarge
  replace hlarge : policy.minRsaKeySize ≤ bits := hlarge
  omega

/-- The policy asks for 2048 bits, and the profile is for P-256. -/
theorem small_key_certified : ¬KeysAllowed subordinates smallKeyRequest := by
  intro h
  obtain ⟨s, cs, run, cert, hrun, hok⟩ := exists_issued accepts_smallKey
  have hallowed := h s cs run cert hrun hok
  have hrequest : smallKeyRequest.publicKey = smallKey := rfl
  rw [(accepts_of_issued hrun hok).2, hrequest] at hallowed
  have hkey : subjectKey smallKey = .rsa 1024 := by decide +kernel
  exact not_allowsKey hkey (by decide) hallowed

end Ostrich.Ca
