import Ostrich.Ca.Issuance

/-!
# Revocation and CRLs (`ostrich-ca/src/revocation.rs`, `ostrich-x509/src/crl.rs`)

`revoke` revokes a certificate.  `buildFullCrl` and `buildDeltaCrl` read the revoked certificates,
take the next number, sign a list that is dated now, and store it, each by a call of its own.
-/

namespace Ostrich.Ca

open Crypto Interleave

/-! ### Revocation -/

/-- The audit record of a revocation that succeeds. -/
def revocationEvent (certificateId : Uuid) : AuditEvent where
  target := certificateId.toString
  action := "revoke"

/-- Revoke a certificate. -/
def revoke (certificateId : Uuid) (reason : ℤ) : CaM Unit := do
  let event := revocationEvent certificateId
  match ← await (.db (.findCertificateById certificateId)) with
  | .error e _ =>
    let _ ← await (.audit (event.failed (some "lookup_failed")))
    .fail (.Database e)
  | .ok none =>
    let _ ← await (.audit (event.failed (some "certificate_not_found")))
    .fail (.InvalidRequest "Certificate not found")
  | .ok (some cert) =>
    if cert.revoked then
      refuse (event.failed (some "already_revoked")) (.Revocation "Certificate already revoked")
    else
      match ← await (.db (.revoke certificateId reason)) with
      | .error e _ =>
        let _ ← await (.audit (event.failed (some "database_error")))
        .fail (.Database e)
      | .ok () => record event

/-! ### Certificate revocation lists -/

/-- A program of which an error names the stage that failed. -/
abbrev StageM := Prog Call Reply (String × Error)

/-- Make a call. -/
def stageAwait (e : Call) : StageM (Reply e) := Prog.perform e

/-- Run a statement as a stage. -/
def stageQuery (stage : String) (q : Query) : StageM q.Result := do
  match ← stageAwait (.db q) with
  | .ok a => return a
  | .error e _ => .fail (stage, .Database e)

/-- A function of another crate as a stage. -/
def stageOf {α : Type} (stage : String) (wrap : String → Error) : Except String α → StageM α
  | .ok a => return a
  | .error e => .fail (stage, wrap e)

/-- `RevocationReason::from_i32`. -/
def revocationReasonFromI32 (value : ℤ) : Option ℤ :=
  if 0 ≤ value ∧ value ≤ 10 ∧ value ≠ 7 then some value else none

/-- The entry of a certificate that was revoked at `revocationTime`. -/
def revokedInfo (cert : Certificate) (revocationTime : DateTime) : RevokedCertificateInfo :=
  ⟨cert.serialNumber, revocationTime, cert.revocationReason.bind revocationReasonFromI32⟩

/-- The entries of a full CRL. -/
def fullInfo (revokedCerts : List Certificate) : List RevokedCertificateInfo :=
  revokedCerts.filterMap fun cert => do
    let revocationTime ← cert.revocationTime
    return revokedInfo cert revocationTime

/-- The entries of a delta CRL: what was revoked after the base CRL. -/
def deltaInfo (base : Crl) (revokedCerts : List Certificate) : List RevokedCertificateInfo :=
  revokedCerts.filterMap fun cert => do
    let revocationTime ← cert.revocationTime
    if revocationTime ≤ base.thisUpdate then none
    else return revokedInfo cert revocationTime

variable (env : Env)

/-- Build, sign and store a CRL with these entries. -/
def signCrl (caId : Uuid) (entries : List RevokedCertificateInfo) (freshestCrlUrl : Option String)
    (baseCrlNumber : Option ℤ) : StageM Crl := do
  let crlNumber ← stageQuery "crl_number_failed" (.nextCrlNumber caId)
  let algorithm ← stageOf "unsupported_ca_key_type"
    (fun _ => .CrlGeneration "CRL signing is not available for the CA key") env.signatureAlgorithm
  let thisUpdate ← stageAwait .now
  match thisUpdate.addSeconds (env.crlValidityHours * 3600) with
  | none => .fail ("crl_build_failed", .Panic)
  | some nextUpdate =>
    if nextUpdate ≤ thisUpdate then
      .fail ("crl_build_failed", .X509 "Next update must be later than this update")
    else
      let tbs : TbsCrl := { thisUpdate, nextUpdate, crlNumber, revokedCertificates := entries,
                            baseCrlNumber, freshestCrlUrl }
      let der ← stageOf "crl_build_failed" .X509 (env.crlToDer tbs)
      match ← stageAwait (.sign der) with
      | .error e => .fail ("signing_failed", .Crypto e)
      | .ok raw =>
        let signature ← stageOf "crl_encoding_failed"
          (fun e => .CrlGeneration ("failed to encode signature: " ++ e))
          (env.encodeSignature algorithm raw)
        let crl : Crl := { caId, crlNumber, thisUpdate, nextUpdate, tbs, signature,
                           isDelta := baseCrlNumber.isSome, baseCrlNumber }
        stageQuery "crl_store_failed" (.createCrl crl)
        return crl

/-- Build, sign and store a full CRL. -/
def buildFullCrl (caId : Uuid) : StageM Crl := do
  let revokedCerts ← stageQuery "revoked_lookup_failed" (.findRevoked caId)
  signCrl env caId (fullInfo revokedCerts) env.deltaCrlUrl none

/-- Build, sign and store a delta CRL. -/
def buildDeltaCrl (caId : Uuid) : StageM Crl := do
  match ← stageQuery "base_crl_lookup_failed" (.findLatestCrl caId) with
  | none => .fail ("no_base_crl",
      .CrlGeneration "no base CRL exists; generate a full CRL before a delta")
  | some base =>
    let revokedCerts ← stageQuery "revoked_lookup_failed" (.findRevoked caId)
    signCrl env caId (deltaInfo base revokedCerts) none (some base.crlNumber)

/-- The audit record of a CRL generation that succeeds. -/
def crlAuditEvent (caId : Uuid) (action : String) : AuditEvent where
  target := caId.toString
  action := action

/-- Record how the generation of a CRL ended. -/
def generateBy (event : AuditEvent) (build : StageM Crl) : CaM Crl := do
  match ← build.result with
  | .ok crl =>
    record event
    return crl
  | .error (failure, e) =>
    let _ ← await (.audit (event.failed (some failure)))
    .fail e

/-- Generate a new CRL. -/
def generateCrl (caId : Uuid) : CaM Crl :=
  generateBy (crlAuditEvent caId "generate") (buildFullCrl env caId)

/-- Generate a delta CRL. -/
def generateDeltaCrl (caId : Uuid) : CaM Crl :=
  generateBy (crlAuditEvent caId "generate_delta") (buildDeltaCrl env caId)

end Ostrich.Ca
