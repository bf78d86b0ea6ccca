import Ostrich.Ca.Equiv.Log
import Ostrich.Ocsp.Equiv.Cache
import Ostrich.Ocsp.Instance

/-!
# Finding the certificates that were issued

A row holds the twenty octets of its serial number; the certificate holds the shortest octets of the
number, and a client asks with those (`serialOctets`).

* `hasStatus_iff`: the row of a certificate that was issued is found exactly when the draw of its
  serial number gives shortest octets (`drawCanonical`), and then no request for it is answered
  "unknown";
* `unknown_leading_zero`: a draw that starts with zeros.
-/

namespace Ostrich.Ocsp

open Common DerUtil Interleave

/-- The content octets of the serial number in the certificate. -/
def serialOctets (cert : Ca.Certificate) : List UInt8 :=
  Der.uintContent (Der.ofBytes cert.tbs.serialNumber)

/-- The certificate has a status: its row is found by the octets in the certificate, and no request
with these octets is answered "unknown". -/
structure HasStatus (env : Env) (db : Ca.Store) (cert : Ca.Certificate) : Prop where
  found : ∃ row ∈ db.withSerial (serialOctets cert), row.id = cert.id
  known : ∀ cfg, (system env).Reach (fun _ _ => True) (System.initial { db }) cfg →
    ∀ i der request resp, cfg.world.Started i (.processRequest der) →
      fromDer env.oidText der = .ok request → request.serialNumber = serialOctets cert →
      .finish i (.ok (some resp)) ∈ cfg.world.log →
      ∀ single ∈ resp.responses, single.certStatus ≠ .Unknown

/-- With its high bit cleared, the first octet is not zero, or the second one has its high bit
set. -/
def drawCanonical : List UInt8 → Bool
  | b :: c :: _ => b &&& 0x7F ≠ 0 || 0x80 ≤ c
  | _ => false

/-! ### Octets -/

theorem canonical_clearHighBit {bytes : List UInt8} (hlen : bytes.length = 20) :
    Canonical (Ca.clearHighBit bytes) = drawCanonical bytes := by
  match bytes, hlen with
  | b :: c :: rest, _ =>
    have hall : ∀ n < 256, UInt8.ofNat n &&& 0x7F < 0x80 := by decide +kernel
    have hlt : b &&& 0x7F < 0x80 := by
      have hb := hall b.toNat b.toNat_lt
      rwa [UInt8.ofNat_toNat] at hb
    simp [Ca.clearHighBit, Canonical, drawCanonical, hlt]

/-! ### Rows -/

section

variable {env : Env} {db : Ca.Store} {cfg : OcspConfig}

/-- A serial number that has a row is found in every state of a run. -/
theorem not_none_of_row (hreach : (system env).Reach (fun _ _ => True) (System.initial { db }) cfg)
    {serial : List UInt8} (hrow : db.withSerial serial ≠ []) {i : ℕ} :
    .call i (.findBySerial serial) (.ok none) ∉ cfg.world.log := by
  intro hmem
  obtain ⟨pre, post, hlog⟩ := List.append_of_mem hmem
  obtain ⟨mid, t, c, hmid, -, hmade⟩ := hreach.made (ocsp_meets env) hlog
  have hreply := hmade.reply
  -- the row is still there
  obtain ⟨row, hmemRow⟩ := List.exists_mem_of_ne_nil _ hrow
  obtain ⟨hin, hserial⟩ := List.mem_filter.mp hmemRow
  obtain ⟨row', hin', hlater⟩ := (reach_evolves hmid).certificates row hin
  have hfound : row' ∈ mid.world.store.db.withSerial serial :=
    List.mem_filter.mpr ⟨hin', by simpa [hlater.serialNumber] using hserial⟩
  have hpos : 0 < (mid.world.store.db.withSerial serial).length := List.length_pos_of_mem hfound
  unfold system exec at hreply
  dsimp only at hreply
  split at hreply
  · have hnone : findBySerial mid.world.store.db c.pick serial = none :=
      (Except.ok.inj hreply).symm
    rw [findBySerial, List.getElem?_eq_none_iff] at hnone
    have hlt := Nat.mod_lt c.pick hpos
    omega
  · cases hreply

/-- A request for a serial number that has a row is not answered "unknown". -/
theorem known_of_row (hreach : (system env).Reach (fun _ _ => True) (System.initial { db }) cfg)
    {i : ℕ} {der : List UInt8} {request : OcspRequest} {resp : OcspResponse}
    (hrow : db.withSerial request.serialNumber ≠ [])
    (hstarted : cfg.world.Started i (.processRequest der))
    (hparse : fromDer env.oidText der = .ok request)
    (hfinish : .finish i (.ok (some resp)) ∈ cfg.world.log) :
    ∀ single ∈ resp.responses, single.certStatus ≠ .Unknown := by
  have hstatus {request' : OcspRequest} {status : CertStatus}
      (hmade : MadeFor env request' status resp) (hknown : status ≠ .Unknown) :
      ∀ single ∈ resp.responses, single.certStatus ≠ .Unknown := by
    obtain ⟨thisUpdate, nextUpdate, hresponses⟩ := hmade.responses
    rw [hresponses]
    exact List.forall_mem_singleton.mpr hknown
  cases answered hreach hstarted hparse hfinish with
  | cached hcacheable hhit =>
    have hmem : ⟨.cacheGet request.cacheKey, some resp⟩ ∈ cfg.world.history i := by
      rw [hhit]
      exact List.mem_cons_self ..
    obtain ⟨request', status, -, -, hmade, hknown⟩ :=
      (cacheOk hreach).hits i _ _ (World.mem_history.mp hmem)
    exact hstatus hmade hknown
  | made hmade hseen hnohit =>
    refine hstatus hmade ?_
    rintro rfl
    cases hseen with
    | unknown hnone => exact not_none_of_row hreach hrow (World.mem_history.mp hnone)

end

/-- **When a certificate that was issued has an OCSP status.** -/
theorem hasStatus_iff (caEnv : Ca.Env) (env : Env) (cfg : Ca.CaConfig)
    (hreach : (Ca.system caEnv).Reach (fun _ _ => True) (System.initial {}) cfg) (i : ℕ)
    (t : Ca.Task) (cert : Ca.Certificate) (hstarted : cfg.world.Started i t)
    (hissued : ∀ c, t ≠ .storeCertificate c)
    (hran : Ca.Ran cfg.world.log i (.createCertificate cert)) :
    ∃ bytes, .call i .randomBytes (.ok bytes) ∈ cfg.world.log ∧
      cert.serialNumber = Ca.clearHighBit bytes.1 ∧
      (HasStatus env cfg.world.store cert ↔ drawCanonical bytes.1 = true) := by
  obtain ⟨mid, t', now, s, hsub, ⟨parent, hstart⟩, hcalls, -, heffect, hevolves⟩ :=
    Ca.ran_at hreach hran
  obtain rfl := (hreach.wf (Ca.ca_meets caEnv)).started_unique ⟨parent, hsub hstart⟩ hstarted
  rcases hcalls with ⟨request, -, hissues⟩ | ⟨⟨c, hc⟩, -⟩
  · obtain ⟨bytes, hdraw, hserial⟩ := hissues.serialNumber
    refine ⟨bytes, hsub (World.mem_history.mp hdraw), hserial, ?_⟩
    have hoctets : serialOctets cert = unsignedContent cert.serialNumber := by
      rw [serialOctets, hissues.tbs_serialNumber, uintContent_ofBytes]
    -- the row of the certificate, with its serial number
    obtain ⟨row, hrow, hlater⟩ : ∃ row ∈ cfg.world.store.certificates, cert.Later row := by
      cases heffect with
      | read hq => cases hq
      | createCertificate hid _ =>
        exact hevolves.certificates cert (List.mem_append_right _ (List.mem_singleton_self _))
    rw [← canonical_clearHighBit bytes.2, ← hserial, ← unsignedContent_eq_iff, ← hoctets]
    constructor
    · rintro ⟨⟨row', hrow', hid⟩, -⟩
      obtain ⟨hmem, hserial'⟩ := List.mem_filter.mp hrow'
      have heq := (Ca.reach_unique hreach).certificates row' hmem row hrow
        (hid.trans hlater.id.symm)
      have hrowSerial : row'.serialNumber = serialOctets cert := of_decide_eq_true hserial'
      rw [← hrowSerial, heq, hlater.serialNumber]
    · intro hcanonical
      have hfound : row ∈ cfg.world.store.withSerial (serialOctets cert) := by
        refine List.mem_filter.mpr ⟨hrow, decide_eq_true ?_⟩
        rw [hlater.serialNumber, hcanonical]
      refine ⟨⟨row, hfound, hlater.id⟩, ?_⟩
      intro ocfg horeach j der request resp hst hparse hasked hfinish
      refine known_of_row horeach ?_ hst hparse hfinish
      rw [hasked]
      exact List.ne_nil_of_mem hfound
  · exact absurd hc (hissued c)

/-! ### Runs -/

open Ca.Instance

/-- The certificate that task `i` stored. -/
def storedBy (log : List Ca.CaEvent) (i : ℕ) : Option Ca.Certificate :=
  log.findSome? fun
    | .call j (.db (.createCertificate cert)) (.ok ()) => if j = i then some cert else none
    | _ => none

theorem ran_of_storedBy {log : List Ca.CaEvent} {i : ℕ} {cert : Ca.Certificate}
    (h : storedBy log i = some cert) : Ca.Ran log i (.createCertificate cert) := by
  obtain ⟨ev, hev, heq⟩ := List.exists_of_findSome?_eq_some h
  split at heq
  · split_ifs at heq with hj
    obtain rfl := Option.some.inj heq
    exact ⟨.ok (), hj ▸ hev, rfl⟩
  · cases heq

/-- Task `i` serves a direct request. -/
def isDirect (log : List Ca.CaEvent) (i : ℕ) : Bool :=
  log.any fun
    | .start j (.issueCertificate _ _) _ => j = i
    | _ => false

theorem started_of_isDirect {w : Ca.CaWorld} {i : ℕ} (h : isDirect w.log i = true) :
    ∃ t, w.Started i t ∧ ∀ c, t ≠ .storeCertificate c := by
  obtain ⟨ev, hev, hmatch⟩ := List.any_eq_true.mp h
  split at hmatch
  · exact ⟨_, ⟨_, of_decide_eq_true hmatch ▸ hev⟩, by simp⟩
  · cases hmatch

/-- A certificate is issued, with these octets drawn. -/
def issuedWith (bytes : { bytes : List UInt8 // bytes.length = 20 }) :
    List (Action Ca.Task Ca.Choice) :=
  .arrive (.issueCertificate (raStaff 3) { directRequest with approvalRequestId := none })
    :: (List.range 8).map fun n => .run 0 { choice n 5 with random := .ok bytes }

/-- **A certificate without a status**: the octets that were drawn start with a zero, and the second
one has its high bit clear. -/
theorem unknown_leading_zero :
    ¬∀ cfg, (Ca.system (authority false)).Reach (fun _ _ => True) (System.initial {}) cfg →
      ∀ i t cert, cfg.world.Started i t → (∀ c, t ≠ .storeCertificate c) →
        Ca.Ran cfg.world.log i (.createCertificate cert) →
        HasStatus Instance.responder cfg.world.store cert := by
  intro h
  have hrun : ((Ca.system (authority false)).run (fun _ _ => true)
      (issuedWith ⟨0 :: 1 :: List.replicate 18 7, rfl⟩) (System.initial {})).map (fun cfg =>
        (isDirect cfg.world.log 0, (storedBy cfg.world.log 0).map fun cert =>
          (cfg.world.store.withSerial (serialOctets cert)).length)) = some (true, some 0) := by
    decide +kernel
  obtain ⟨cfg, hcfg, hlog⟩ := Option.map_eq_some_iff.mp hrun
  obtain ⟨hdirect, hstored⟩ := Prod.mk.inj hlog
  obtain ⟨cert, hcert, hnone⟩ := Option.map_eq_some_iff.mp hstored
  obtain ⟨t, hstarted, hissued⟩ := started_of_isDirect hdirect
  have hstatus := h cfg (System.reach_of_run (fun _ _ _ => trivial) _ hcfg) 0 t cert
    hstarted hissued
    (ran_of_storedBy hcert)
  obtain ⟨row, hrow, -⟩ := hstatus.found
  rw [List.length_eq_zero_iff.mp hnone] at hrow
  cases hrow

/-- A draw whose first octet is not zero. -/
theorem hasStatus_of_draw :
    ∃ cfg cert bytes, (Ca.system (authority false)).Reach (fun _ _ => True)
      (System.initial {}) cfg ∧
      Ca.Ran cfg.world.log 0 (.createCertificate cert) ∧
      cert.serialNumber = 5 :: List.replicate 19 7 ∧ cert.serialNumber = Ca.clearHighBit bytes ∧
      (HasStatus Instance.responder cfg.world.store cert ↔ drawCanonical bytes = true) := by
  have hrun : ((Ca.system (authority false)).run (fun _ _ => true)
      (issuedWith ⟨0x85 :: List.replicate 19 7, rfl⟩) (System.initial {})).map (fun cfg =>
        (isDirect cfg.world.log 0, (storedBy cfg.world.log 0).map (·.serialNumber)))
      = some (true, some (5 :: List.replicate 19 7)) := by
    decide +kernel
  obtain ⟨cfg, hcfg, hlog⟩ := Option.map_eq_some_iff.mp hrun
  obtain ⟨hdirect, hstored⟩ := Prod.mk.inj hlog
  obtain ⟨cert, hcert, hserial⟩ := Option.map_eq_some_iff.mp hstored
  obtain ⟨t, hstarted, hissued⟩ := started_of_isDirect hdirect
  have hreach : (Ca.system (authority false)).Reach (fun _ _ => True) (System.initial {}) cfg :=
    System.reach_of_run (fun _ _ _ => trivial) _ hcfg
  obtain ⟨bytes, -, hdraw, hiff⟩ :=
    hasStatus_iff (authority false) Instance.responder cfg hreach 0 t
    cert hstarted hissued (ran_of_storedBy hcert)
  exact ⟨cfg, cert, bytes.1, hreach, ran_of_storedBy hcert, hserial, hdraw, hiff⟩

end Ostrich.Ocsp
