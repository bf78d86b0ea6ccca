import Ostrich.Ocsp.Equiv.Cache
import Ostrich.Ocsp.Instance

/-!
# The CertID of an answer

The key of an entry of the cache is the serial number and the hash algorithm of a request, without
the hashes of the issuer; and the octets of a serial number are encoded anew.

* `answers_iff`: in every run, the answer to a request carries the CertID and the nonce of the
  request exactly when the serial number is canonical and the cache, if it answered, had an entry
  for the issuer of the request;
* `answers_other_issuer`: a run in which it had one for another issuer.
-/

namespace Ostrich.Ocsp

open DerUtil Interleave

variable (env : Env)

/-- The response carries one CertID, that of the request, and its nonce. -/
structure Answers (request : OcspRequest) (resp : OcspResponse) : Prop where
  certIds : resp.responses.map (·.certId) = [request.certId]
  nonce : env.includeNonce = true → resp.nonce = request.nonce

/-- The signed bytes are those of the responses and the nonce. -/
def OcspResponse.Signed (resp : OcspResponse) : Prop :=
  ∃ name producedAt,
    encodeTbsResponseData name producedAt resp.responses resp.nonce = .ok resp.tbsResponseData

/-- The response is for the issuer of the request. -/
def SameIssuer (request : OcspRequest) (resp : OcspResponse) : Prop :=
  ∀ single ∈ resp.responses, single.issuerNameHash = request.issuerNameHash ∧
    single.issuerKeyHash = request.issuerKeyHash

variable {env}

theorem certId_eq_iff {request request' : OcspRequest} {status : CertStatus}
    {thisUpdate : DateTime} {nextUpdate : Option DateTime}
    (hserial : request'.serialNumber = request.serialNumber)
    (halg : request'.hashAlgorithm.oid = request.hashAlgorithm.oid) :
    (singleResponse request' status thisUpdate nextUpdate).certId = request.certId ↔
      Canonical request.serialNumber = true ∧
        request'.issuerNameHash = request.issuerNameHash ∧
        request'.issuerKeyHash = request.issuerKeyHash := by
  rw [← unsignedContent_eq_iff]
  simp only [SingleResponse.certId, OcspRequest.certId, singleResponse, hserial, halg,
    CertId.mk.injEq, true_and]
  exact ⟨fun ⟨hname, hkey, hcanonical⟩ => ⟨hcanonical, hname, hkey⟩,
    fun ⟨hcanonical, hname, hkey⟩ => ⟨hname, hkey, hcanonical⟩⟩

/-- When a response that was made for a request with the same key answers a request. -/
theorem MadeFor.answersFor_iff {request request' : OcspRequest} {status : CertStatus}
    {resp : OcspResponse} (hmade : MadeFor env request' status resp)
    (hkey : request'.cacheKey = request.cacheKey)
    (hnonce : env.includeNonce = true → resp.nonce = request.nonce) :
    Answers env request resp ↔ Canonical request.serialNumber = true ∧ SameIssuer request resp := by
  obtain ⟨thisUpdate, nextUpdate, hresponses⟩ := hmade.responses
  obtain ⟨hserial, halg⟩ := cacheKey_inj hkey
  have hcert : (singleResponse request' status thisUpdate nextUpdate).certId = request.certId ↔ _ :=
    certId_eq_iff hserial halg
  have hsame : SameIssuer request resp ↔ request'.issuerNameHash = request.issuerNameHash ∧
      request'.issuerKeyHash = request.issuerKeyHash := by
    unfold SameIssuer
    rw [hresponses]
    exact List.forall_mem_singleton
  rw [hsame, ← hcert]
  constructor
  · intro hanswers
    have hids := hanswers.certIds
    rw [hresponses] at hids
    exact List.singleton_inj.mp hids
  · intro hid
    refine ⟨?_, hnonce⟩
    rw [hresponses]
    exact congrArg (fun id => [id]) hid

/-- **When an answer is to the question that was asked.** -/
theorem answers_iff (env : Env) (db : Ca.Store) (cfg : OcspConfig)
    (hreach : (system env).Reach (fun _ _ => True) (System.initial { db }) cfg) (i : ℕ)
    (der : List UInt8) (request : OcspRequest) (resp : OcspResponse)
    (hstarted : cfg.world.Started i (.processRequest der))
    (hparse : fromDer env.oidText der = .ok request)
    (hfinish : .finish i (.ok (some resp)) ∈ cfg.world.log) :
    resp.Signed ∧ (Answers env request resp ↔ Canonical request.serialNumber = true ∧
      ∀ cached, .call i (.cacheGet request.cacheKey) (some cached) ∈ cfg.world.log →
        SameIssuer request cached) := by
  cases answered hreach hstarted hparse hfinish with
  | cached hcacheable hhit =>
    -- the one hit of the task is the answer
    have hmem : ⟨.cacheGet request.cacheKey, some resp⟩ ∈ cfg.world.history i := by
      rw [hhit]
      exact List.mem_cons_self ..
    obtain ⟨request', status, hkey, hcacheable', hmade, -⟩ :=
      (cacheOk hreach).hits i _ _ (World.mem_history.mp hmem)
    refine ⟨hmade.signed, ?_⟩
    have hnonce (hinclude : env.includeNonce = true) : resp.nonce = request.nonce := by
      simp only [OcspRequest.cacheable, hinclude, Bool.not_true, Bool.or_false,
        Option.isNone_iff_eq_none] at hcacheable hcacheable'
      rw [hmade.nonce, if_pos hinclude, hcacheable, hcacheable']
    rw [hmade.answersFor_iff hkey.symm hnonce]
    refine and_congr_right fun _ => ⟨fun hsame cached hcached => ?_, fun hall => ?_⟩
    · have hcached := World.mem_history.mpr hcached
      rw [hhit] at hcached
      rcases List.mem_cons.mp hcached with heq | hcached
      · obtain ⟨-, heq⟩ := Sigma.mk.inj heq
        rw [Option.some.inj (eq_of_heq heq)]
        exact hsame
      · have heq := List.mem_singleton.mp hcached
        cases heq
    · exact hall resp (World.mem_history.mp hmem)
  | made hmade hstatus hnohit =>
    refine ⟨hmade.signed, ?_⟩
    have hnonce (hinclude : env.includeNonce = true) : resp.nonce = request.nonce := by
      rw [hmade.nonce, if_pos hinclude]
    rw [hmade.answersFor_iff rfl hnonce]
    have hsame : SameIssuer request resp := by
      obtain ⟨thisUpdate, nextUpdate, hresponses⟩ := hmade.responses
      unfold SameIssuer
      rw [hresponses]
      exact List.forall_mem_singleton.mpr ⟨rfl, rfl⟩
    refine and_congr_right fun _ => ⟨fun _ cached hcached => ?_, fun _ => hsame⟩
    exact absurd (World.mem_history.mpr hcached) (hnohit _ _)

/-! ### Runs -/

open Instance

/-- Two requests for the serial number 5, with the hashes of two issuers. -/
def otherIssuer : List (Action Task Choice) :=
  statement 0 (.createCertificate (Ca.Instance.cert 5)) 1
    ++ .arrive (.processRequest (requestDer [1] [1] [5])) :: steps 1 11 2
    ++ .arrive (.processRequest (requestDer [2] [2] [5])) :: steps 2 3 3

/-- **An answer with the CertID of another request**: the first request decides the CertID of the
second. -/
theorem answers_other_issuer :
    ¬∀ db cfg, (system responder).Reach (fun _ _ => True) (System.initial { db }) cfg →
      ∀ i der request resp, cfg.world.Started i (.processRequest der) →
        fromDer responder.oidText der = .ok request →
        .finish i (.ok (some resp)) ∈ cfg.world.log → Answers responder request resp := by
  intro h
  have hrun : ((system responder).run (fun _ _ => true) otherIssuer (System.initial {})).map
      (fun cfg => (startedAs cfg.world.log 2 (requestDer [2] [2] [5]),
        (answerOf cfg.world.log 2).map fun resp => resp.responses.map (·.certId)))
      = some (true, some [⟨"1.3.14.3.2.26", [1], [1], [5]⟩]) := by
    decide +kernel
  obtain ⟨cfg, hcfg, hlog⟩ := Option.map_eq_some_iff.mp hrun
  obtain ⟨hstarted, hanswer⟩ := Prod.mk.inj hlog
  obtain ⟨resp, hresp, hids⟩ := Option.map_eq_some_iff.mp hanswer
  have hparse : fromDer responder.oidText (requestDer [2] [2] [5])
      = .ok ⟨[5], [2], [2], .Sha1, none⟩ := by
    decide +kernel
  have hanswers := h {} cfg (System.reach_of_run (fun _ _ _ => trivial) _ hcfg) 2 _ _ resp
    (started_of_startedAs hstarted) hparse (finish_of_answerOf hresp)
  have hcertIds := hanswers.certIds
  rw [hids] at hcertIds
  cases hcertIds

/-- The first request, which the cache does not answer. -/
theorem answers_first_request :
    ∃ cfg resp, (system responder).Reach (fun _ _ => True) (System.initial {}) cfg ∧
      .finish 1 (.ok (some resp)) ∈ cfg.world.log ∧
      resp.responses.map (·.certId) = [⟨"1.3.14.3.2.26", [1], [1], [5]⟩] ∧ resp.Signed ∧
      (Answers responder ⟨[5], [1], [1], .Sha1, none⟩ resp ↔ Canonical [5] = true ∧
        ∀ cached, .call 1 (.cacheGet (.new [5] "1.3.14.3.2.26")) (some cached) ∈ cfg.world.log →
          SameIssuer ⟨[5], [1], [1], .Sha1, none⟩ cached) := by
  have hrun : ((system responder).run (fun _ _ => true) otherIssuer (System.initial {})).map
      (fun cfg => (startedAs cfg.world.log 1 (requestDer [1] [1] [5]),
        (answerOf cfg.world.log 1).map fun resp => resp.responses.map (·.certId)))
      = some (true, some [⟨"1.3.14.3.2.26", [1], [1], [5]⟩]) := by
    decide +kernel
  obtain ⟨cfg, hcfg, hlog⟩ := Option.map_eq_some_iff.mp hrun
  obtain ⟨hstarted, hanswer⟩ := Prod.mk.inj hlog
  obtain ⟨resp, hresp, hids⟩ := Option.map_eq_some_iff.mp hanswer
  have hparse : fromDer responder.oidText (requestDer [1] [1] [5])
      = .ok ⟨[5], [1], [1], .Sha1, none⟩ := by
    decide +kernel
  have hreach : (system responder).Reach (fun _ _ => True) (System.initial {}) cfg :=
    System.reach_of_run (fun _ _ _ => trivial) _ hcfg
  have hfinish := finish_of_answerOf hresp
  exact ⟨cfg, resp, hreach, hfinish, hids, answers_iff _ {} cfg hreach 1 _ _ resp
    (started_of_startedAs hstarted) hparse hfinish⟩

end Ostrich.Ocsp
