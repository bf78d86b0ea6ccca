import Ostrich.Ocsp.Equiv.DerUtil
import Ostrich.Ocsp.Responder

/-!
# What the tasks of the OCSP responder do

`ocspSpec env` says, call by call, which tasks make it and what they have seen before, and how a
request is answered: by an entry of the cache, or by a response that is made for it from what the
database said (`Answer`).  `ocsp_meets` proves it of every task.
-/

namespace Ostrich.Ocsp

open Interleave

/-- The calls and replies of a task. -/
abbrev Trace := History Call Reply

variable (env : Env)

/-! ### The specification -/

/-- The response is made for the request, with this status. -/
structure MadeFor (request : OcspRequest) (status : CertStatus) (resp : OcspResponse) : Prop where
  responses : ∃ thisUpdate nextUpdate,
    resp.responses = [singleResponse request status thisUpdate nextUpdate]
  nonce : resp.nonce = if env.includeNonce then request.nonce else none
  signed : ∃ name producedAt,
    encodeTbsResponseData name producedAt resp.responses resp.nonce = .ok resp.tbsResponseData

/-- The status that the database gave. -/
inductive StatusSeen (h : Trace) (request : OcspRequest) : CertStatus → Prop
  | unknown (hrow : ⟨.findBySerial request.serialNumber, .ok none⟩ ∈ h) :
      StatusSeen h request .Unknown
  | good {cert : Ca.Certificate}
      (hrow : ⟨.findBySerial request.serialNumber, .ok (some cert)⟩ ∈ h)
      (hgood : cert.revoked = false) : StatusSeen h request .Good
  | revoked {cert : Ca.Certificate} {time : DateTime} {reason : Option UInt8}
      (hrow : ⟨.findBySerial request.serialNumber, .ok (some cert)⟩ ∈ h)
      (hrevoked : cert.revoked = true) : StatusSeen h request (.Revoked time reason)

/-- The cache had no response. -/
def NoHit (h : Trace) : Prop := ∀ key cached, ⟨.cacheGet key, some cached⟩ ∉ h

/-- How a request is answered. -/
inductive Answer (h : Trace) (request : OcspRequest) (resp : OcspResponse) : Prop
  | cached (hcacheable : request.cacheable env = true)
      (hhit : h = [⟨.cacheGet request.cacheKey, some resp⟩, ⟨.audit "cache_hit", ()⟩])
  | made {status : CertStatus} (hmade : MadeFor env request status resp)
      (hstatus : StatusSeen h request status) (hnohit : NoHit h)

/-- The task is for this request. -/
def Task.isFor (t : Task) (request : OcspRequest) : Prop :=
  ∃ der, t = .processRequest der ∧ fromDer env.oidText der = .ok request

/-- Which calls a task makes after the history `h`. -/
def callSpec (t : Task) (h : Trace) : Call → Prop
  | .cacheInsert key resp => ∃ request status, t.isFor env request ∧ key = request.cacheKey ∧
      request.cacheable env = true ∧ MadeFor env request status resp ∧
      StatusSeen h request status ∧ status ≠ .Unknown
  | .cacheInvalidate serialNumber => t = .invalidateCache serialNumber
  | .ca q => t = .ca q
  | _ => True

/-- What the tasks do. -/
def ocspSpec : Spec Call Reply Error (Option OcspResponse) Task where
  calls := callSpec env
  result := fun t r h => ∀ resp, r = .ok (some resp) → ∃ request, t.isFor env request ∧
    Answer env h request resp

/-! ### Rules -/

section

variable {calls : Trace → Call → Prop} {h : Trace} {α : Type}

theorem does_await {e : Call} {result : Reply e → Trace → Prop} :
    (await e).Does calls result h ↔ calls h e ∧ ∀ r, result r (h ++ [⟨e, r⟩]) :=
  Prog.does_perform e

theorem does_ofExcept {text : String} {x : Except String α} {result : α → Trace → Prop}
    (hx : ∀ a, x = .ok a → result a h) : (ofExcept text x).Does calls result h := by
  cases x with
  | ok a => exact (Prog.does_pure a).mpr (hx a rfl)
  | error e => exact (Prog.does_fail _).mpr trivial

end

/-! ### Histories -/

/-- The calls that every task may make. -/
def Call.quiet : Call → Bool
  | .now | .sign _ | .audit _ => true
  | _ => false

/-- The calls that do not look into the cache. -/
def Call.misses : Call → Bool
  | .cacheGet _ => false
  | _ => true

/-- The history grew, and not by a look into the cache. -/
abbrev Grows (h h' : Trace) : Prop := History.Grows Call.misses h h'

theorem StatusSeen.grows {h h' : Trace} {request : OcspRequest} {status : CertStatus}
    (hstatus : StatusSeen h request status) (hgrow : Grows h h') :
    StatusSeen h' request status := by
  cases hstatus with
  | unknown hrow => exact .unknown (hgrow.mem hrow)
  | good hrow hgood => exact .good (hgrow.mem hrow) hgood
  | revoked hrow hrevoked => exact .revoked (hgrow.mem hrow) hrevoked

theorem NoHit.grows {h h' : Trace} (hnohit : NoHit h) (hgrow : Grows h h') : NoHit h' :=
  fun key cached => hgrow.not_mem rfl (hnohit key cached)

/-! ### The responder -/

section

variable {calls : Trace → Call → Prop} (hquiet : ∀ h e, e.quiet = true → calls h e)

include hquiet

/-- A response is signed over its encoding. -/
theorem does_signResponse (responses : List SingleResponse) (nonce : Option (List UInt8))
    (h : Trace) : (signResponse env responses nonce).Does calls (fun resp h' => Grows h h' ∧
      resp.responses = responses ∧ resp.nonce = (if env.includeNonce then nonce else none) ∧
      ∃ name producedAt, encodeTbsResponseData name producedAt resp.responses resp.nonce
        = .ok resp.tbsResponseData) h := by
  unfold signResponse
  rw [Prog.does_bind]
  refine does_ofExcept fun algorithm _ => ?_
  cases env.caCertificateDer with
  | none => exact (Prog.does_fail _).mpr trivial
  | some caCertDer =>
    dsimp only
    rw [Prog.does_bind]
    refine does_ofExcept fun name _ => ?_
    rw [Prog.does_bind, does_await]
    refine ⟨hquiet _ _ rfl, fun producedAt => ?_⟩
    rw [Prog.does_bind, Prog.does_ofExcept]
    intro tbsDer htbs
    rw [Prog.does_bind, does_await]
    refine ⟨hquiet _ _ rfl, fun signed => ?_⟩
    rw [Prog.does_bind]
    refine does_ofExcept fun signature _ => ?_
    rw [Prog.does_bind]
    refine does_ofExcept fun encoded _ => ?_
    rw [Prog.does_bind]
    refine does_ofExcept fun signatureAlgorithm _ => ?_
    rw [Prog.does_bind, does_await]
    refine ⟨hquiet _ _ rfl, fun now => (Prog.does_pure _).mpr ?_⟩
    refine ⟨?_, rfl, rfl, name, producedAt, htbs⟩
    exact ((grows_one rfl producedAt).trans (grows_one rfl signed)).trans (grows_one rfl now)

/-- The response to a request, with a status that the database gave. -/
theorem does_sign_single (request : OcspRequest) (status : CertStatus) (thisUpdate : DateTime)
    (nextUpdate : Option DateTime) (h : Trace) :
    (signResponse env [singleResponse request status thisUpdate nextUpdate] request.nonce).Does
      calls (fun resp h' => Grows h h' ∧ MadeFor env request status resp) h := by
  refine (does_signResponse env hquiet _ request.nonce h).mono fun resp h' hspec => ?_
  obtain ⟨hgrow, hresponses, hnonce, hsigned⟩ := hspec
  exact ⟨hgrow, ⟨thisUpdate, nextUpdate, hresponses⟩, hnonce, hsigned⟩

/-- The status of the certificate that was found. -/
theorem does_certStatusOf (request : OcspRequest) (cert : Ca.Certificate) {h : Trace}
    (hrow : ⟨.findBySerial request.serialNumber, .ok (some cert)⟩ ∈ h) :
    (certStatusOf cert).Does calls (fun status h' => Grows h h' ∧ StatusSeen h' request status ∧
      status ≠ .Unknown) h := by
  unfold certStatusOf
  split_ifs with hrevoked
  · dsimp only
    split
    · exact (Prog.does_pure _).mpr ⟨.refl h, .revoked hrow hrevoked, by simp⟩
    · rw [Prog.does_bind, does_await]
      refine ⟨hquiet _ _ rfl, fun time => (Prog.does_pure _).mpr ⟨grows_one rfl time, ?_, by simp⟩⟩
      exact .revoked (List.mem_append_left _ hrow) hrevoked
  · exact (Prog.does_pure _).mpr ⟨.refl h, .good hrow (by simpa using hrevoked), by simp⟩

/-- The answer of a response that is made. -/
theorem does_respond (request : OcspRequest) (cert : Ca.Certificate) {h : Trace}
    (hrow : ⟨.findBySerial request.serialNumber, .ok (some cert)⟩ ∈ h) (hnohit : NoHit h)
    (hinsert : request.cacheable env = true → ∀ h' status resp, MadeFor env request status resp →
      StatusSeen h' request status → status ≠ .Unknown →
      calls h' (.cacheInsert request.cacheKey resp)) :
    (respond env request cert).Does calls (fun resp h' => Answer env h' request resp) h := by
  unfold respond
  rw [Prog.does_bind]
  refine (does_certStatusOf hquiet request cert hrow).mono fun status h₁ h₁spec => ?_
  obtain ⟨hgrow₁, hstatus, hknown⟩ := h₁spec
  rw [Prog.does_bind, does_await]
  refine ⟨hquiet _ _ rfl, fun thisUpdate => ?_⟩
  rw [Prog.does_bind, does_await]
  refine ⟨hquiet _ _ rfl, fun now => ?_⟩
  cases now.addDuration env.responseValidity with
  | none => exact (Prog.does_fail _).mpr trivial
  | some nextUpdate =>
    dsimp only
    rw [Prog.does_bind]
    refine (does_sign_single env hquiet request status thisUpdate _ _).mono
      fun resp h₂ h₂spec => ?_
    obtain ⟨hgrow₂, hmade⟩ := h₂spec
    have hgrow₂ : Grows h₁ h₂ :=
      ((grows_one rfl thisUpdate).trans (grows_one rfl now)).trans hgrow₂
    have hstatus := hstatus.grows hgrow₂
    rw [Prog.does_bind]
    have hremember : (remember env request resp).Does calls (fun _ h' => Grows h₂ h') h₂ := by
      unfold remember
      split_ifs with hcacheable
      · exact does_await.mpr ⟨hinsert hcacheable h₂ status resp hmade hstatus hknown,
          fun r => grows_one rfl r⟩
      · exact (Prog.does_pure _).mpr (.refl h₂)
    refine hremember.mono fun _ h₃ hgrow₃ => ?_
    rw [Prog.does_bind]
    refine does_await.mpr ⟨hquiet _ _ rfl, fun a => (Prog.does_pure _).mpr ?_⟩
    have hgrow := (hgrow₃.trans (grows_one rfl a) : Grows h₂ (h₃ ++ [⟨.audit _, a⟩]))
    exact .made hmade (hstatus.grows hgrow) (hnohit.grows ((hgrow₁.trans hgrow₂).trans hgrow))

/-- The history of a look-up in the cache. -/
def LookedUp (request : OcspRequest) (h : Trace) : Option OcspResponse → Prop
  | some resp => request.cacheable env = true ∧ h = [⟨.cacheGet request.cacheKey, some resp⟩]
  | none => NoHit h

/-- **How a request is answered.** -/
theorem does_processRequest (request : OcspRequest)
    (hget : ∀ h key, calls h (.cacheGet key)) (hfind : ∀ h serial, calls h (.findBySerial serial))
    (hinsert : request.cacheable env = true → ∀ h' status resp, MadeFor env request status resp →
      StatusSeen h' request status → status ≠ .Unknown →
      calls h' (.cacheInsert request.cacheKey resp)) :
    (processRequest env request).Does calls (fun resp h' => Answer env h' request resp) [] := by
  unfold processRequest
  rw [Prog.does_bind]
  have hlookup : (lookup env request).Does calls (fun r h' => LookedUp env request h' r) [] := by
    unfold lookup
    split_ifs with hcacheable
    · refine does_await.mpr ⟨hget _ _, fun r => ?_⟩
      cases r with
      | none =>
        intro key cached hmem
        have heq := List.mem_singleton.mp hmem
        cases heq
      | some resp => exact ⟨hcacheable, rfl⟩
    · exact (Prog.does_pure _).mpr fun key cached hmem => absurd hmem List.not_mem_nil
  refine hlookup.mono fun r h₁ h₁spec => ?_
  cases r with
  | some resp =>
    obtain ⟨hcacheable, rfl⟩ := h₁spec
    dsimp only
    rw [Prog.does_bind]
    exact does_await.mpr ⟨hquiet _ _ rfl, fun _ => (Prog.does_pure _).mpr (.cached hcacheable rfl)⟩
  | none =>
    dsimp only at h₁spec ⊢
    rw [Prog.does_bind]
    refine does_await.mpr ⟨hquiet _ _ rfl, fun a => ?_⟩
    rw [Prog.does_bind, does_await]
    refine ⟨hfind _ _, fun row => ?_⟩
    have hgrow : Grows h₁ (h₁ ++ [⟨.audit "check_status", a⟩]
        ++ [⟨.findBySerial request.serialNumber, row⟩]) :=
      (grows_one rfl a).trans (grows_one rfl row)
    have hseen : ⟨.findBySerial request.serialNumber, row⟩ ∈ h₁ ++ [⟨.audit "check_status", a⟩]
        ++ [⟨.findBySerial request.serialNumber, row⟩] :=
      List.mem_append_right _ (List.mem_singleton_self _)
    cases row with
    | error e => exact (Prog.does_fail _).mpr trivial
    | ok row =>
      cases row with
      | none =>
        dsimp only
        unfold createUnknownResponse
        rw [Prog.does_bind, does_await]
        refine ⟨hquiet _ _ rfl, fun thisUpdate => ?_⟩
        refine (does_sign_single env hquiet request .Unknown thisUpdate none _).mono
          fun resp h₂ h₂spec => ?_
        have hgrow₂ := (grows_one rfl thisUpdate).trans h₂spec.1
        exact .made h₂spec.2 (.unknown (hgrow₂.mem hseen)) (h₁spec.grows (hgrow.trans hgrow₂))
      | some cert => exact does_respond env hquiet request cert hseen (h₁spec.grows hgrow) hinsert

end

/-- **Every task keeps to the specification.** -/
theorem ocsp_meets : (system env).Meets (ocspSpec env) := by
  intro t
  have hquiet (h : Trace) (e : Call) (he : e.quiet = true) : callSpec env t h e := by
    cases e with
    | cacheInsert => cases he
    | cacheInvalidate => cases he
    | ca => cases he
    | _ => trivial
  cases t with
  | processRequest der =>
    suffices hdoes : (body env (.processRequest der)).Does (callSpec env (.processRequest der))
        (fun r h => ∀ resp, r = some resp → ∃ request,
          (Task.processRequest der).isFor env request ∧ Answer env h request resp) [] by
      exact Prog.Wp.mono hdoes fun r h hr resp heq => hr _ heq resp rfl
    unfold body
    rw [Prog.does_bind, Prog.does_ofExcept]
    intro request hrequest
    rw [Prog.does_bind]
    refine (does_processRequest env hquiet request (fun _ _ => trivial) (fun _ _ => trivial)
      ?_).mono fun resp h hanswer => (Prog.does_pure _).mpr fun resp' heq => ?_
    · exact fun hcacheable h' status resp hmade hstatus hknown =>
        ⟨request, status, ⟨der, rfl, hrequest⟩, rfl, hcacheable, hmade, hstatus, hknown⟩
    · obtain rfl := Option.some.inj heq
      exact ⟨request, ⟨der, rfl, hrequest⟩, hanswer⟩
  | invalidateCache serialNumber =>
    refine ⟨rfl, fun _ resp heq => ?_⟩
    cases heq
  | ca q =>
    refine ⟨rfl, fun _ resp heq => ?_⟩
    cases heq

end Ostrich.Ocsp
