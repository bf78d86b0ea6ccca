import Ostrich.Ocsp.Equiv.Cache
import Ostrich.Ocsp.Instance

/-!
# Answers after an invalidation

A request reads the row of a certificate, signs, and then puts its response into the cache.  A
revocation and an invalidation can come between, and the entry outlasts them.

* `no_stale_good`: in every run in which no certificate is revoked between the read and the
  insertion of a request, and in which no two certificates have one serial number, a request for a
  revoked certificate that starts after an invalidation is not answered "good";
* `stale_good`: a run in which one is.
-/

namespace Ostrich.Ocsp

open Interleave

/-! ### The property -/

/-- The response does not say "good". -/
def OcspResponse.NotGood (resp : OcspResponse) : Prop :=
  ∀ single ∈ resp.responses, single.certStatus ≠ .Good

/-- A certificate with the serial number is revoked. -/
def Store.RevokedSerial (s : Store) (serial : List UInt8) : Prop :=
  ∃ row ∈ s.db.certificates, row.serialNumber = serial ∧ row.revoked = true

/-- No request for the serial number that starts after the state `next` is answered "good". -/
def NotGoodAfter (env : Env) (serial : List UInt8) (next cfg : OcspConfig) : Prop :=
  ∀ i der request resp, (∀ t parent, .start i t parent ∉ next.world.log) →
    cfg.world.Started i (.processRequest der) → fromDer env.oidText der = .ok request →
    request.serialNumber = serial → .finish i (.ok (some resp)) ∈ cfg.world.log → resp.NotGood

/-- Once a revocation has committed and an invalidation has completed, no later request is answered
"good". -/
def NoStaleGood (env : Env) (allowed : OcspWorld → OcspEvent → Prop) (mid : OcspConfig) : Prop :=
  ∀ serial a j r next, mid.world.store.RevokedSerial serial →
    (system env).step mid a = some (.call j (.cacheInvalidate serial) r, next) →
    allowed mid.world (.call j (.cacheInvalidate serial) r) →
    ∀ cfg, (system env).Reach allowed next cfg → NotGoodAfter env serial next cfg

/-! ### The condition -/

/-- When a request that read a certificate as not revoked puts its response into the cache, no
certificate with that serial number is revoked; and a request reads the only certificate with its
serial number. -/
structure Fresh (w : OcspWorld) (ev : OcspEvent) : Prop where
  insert : ∀ i key resp r, ev = .call i (.cacheInsert key resp) r → ∀ serial cert,
    .call i (.findBySerial serial) (.ok (some cert)) ∈ w.log → cert.revoked = false →
    ¬w.store.RevokedSerial serial
  unique : ∀ i serial r, ev = .call i (.findBySerial serial) r →
    ∀ row ∈ w.store.db.withSerial serial, ∀ row' ∈ w.store.db.withSerial serial, row = row'

/-! ### After the invalidation -/

/-- What holds after the invalidation of a revoked certificate, for the tasks that start later. -/
structure Invalidated (serial : List UInt8) (past : List OcspEvent) (w : OcspWorld) : Prop where
  revoked : w.store.RevokedSerial serial
  entries : ∀ e ∈ w.store.cache, e.1.serialNumber = X509.hexEncode serial → e.2.response.NotGood
  hits : ∀ i, (∀ t parent, .start i t parent ∉ past) → ∀ key resp,
    .call i (.cacheGet key) (some resp) ∈ w.log → key.serialNumber = X509.hexEncode serial →
    resp.NotGood
  rows : ∀ i, (∀ t parent, .start i t parent ∉ past) → ∀ cert,
    .call i (.findBySerial serial) (.ok (some cert)) ∈ w.log → cert.revoked = true

variable {env : Env} {serial : List UInt8} {past : List OcspEvent}

/-- A revocation stays. -/
theorem revokedSerial_exec (e : Call) (c : Choice) {s : Store} (h : s.RevokedSerial serial) :
    (exec env e c s).2.RevokedSerial serial := by
  obtain ⟨row, hrow, hserial, hrevoked⟩ := h
  obtain ⟨row', hrow', hlater⟩ := (exec_evolves e c s).certificates row hrow
  refine ⟨row', hrow', hlater.serialNumber.trans hserial, ?_⟩
  rw [hlater.revoked hrevoked]
  exact hrevoked

theorem mem_withSerial_of_find {db : Ca.Store} {pick : ℕ} {cert : Ca.Certificate}
    (h : findBySerial db pick serial = some cert) : cert ∈ db.withSerial serial :=
  List.mem_of_getElem? h

/-- The response that a request puts into the cache is not "good" when the certificate is
revoked. -/
theorem notGood_of_insert {w : OcspWorld} {i : ℕ} {t : Task} {key : CacheKey} {resp : OcspResponse}
    {r : Reply (.cacheInsert key resp)} (hrevoked : w.store.RevokedSerial serial)
    (hcalls : callSpec env t (w.history i) (.cacheInsert key resp))
    (hfresh : Fresh w (.call i (.cacheInsert key resp) r))
    (hkey : key.serialNumber = X509.hexEncode serial) : resp.NotGood := by
  obtain ⟨request, status, -, rfl, -, hmade, hseen, -⟩ := hcalls
  have hserial : request.serialNumber = serial := hexEncode_injective hkey
  obtain ⟨thisUpdate, nextUpdate, hresponses⟩ := hmade.responses
  unfold OcspResponse.NotGood
  rw [hresponses]
  refine List.forall_mem_singleton.mpr fun hgood => ?_
  have hgood : status = .Good := hgood
  subst hgood
  cases hseen with
  | good hrow hnot =>
    rw [hserial] at hrow
    exact hfresh.insert i _ _ r rfl serial _ (World.mem_history.mp hrow) hnot hrevoked

/-- What one call keeps. -/
theorem Invalidated.after {w : OcspWorld} (h : Invalidated serial past w) {i n : ℕ} {t : Task}
    {e : Call} {c : Choice} (hcalls : callSpec env t (w.history i) e)
    (hfresh : Fresh w (.call i e ((system env).exec e c w.store).1)) :
    Invalidated serial past ((system env).after i n e c w) := by
  refine ⟨revokedSerial_exec e c h.revoked, fun x hx hkey => ?_, fun j hj key resp hmem hkey => ?_,
    fun j hj cert hmem => ?_⟩
  · rcases mem_cache_of_exec hx with hx | rfl
    · exact h.entries x hx hkey
    · exact notGood_of_insert h.revoked hcalls hfresh hkey
  · rcases ((system env).call_mem_after).mp hmem with hold | hnew
    · exact h.hits j hj key resp hold hkey
    · obtain ⟨-, rfl, hr⟩ := Event.call.inj hnew
      have hget : w.store.cache.get c.now key = some resp := (eq_of_heq hr).symm
      obtain ⟨entry, hentry, rfl⟩ := Cache.mem_of_get hget
      exact h.entries _ hentry hkey
  · rcases ((system env).call_mem_after).mp hmem with hold | hnew
    · exact h.rows j hj cert hold
    · obtain ⟨-, rfl, hr⟩ := Event.call.inj hnew
      -- the row that is found is the revoked one
      obtain ⟨row, hrow, hserial, hrevoked⟩ := h.revoked
      have hreply : Except.ok (some cert) = (exec env (.findBySerial serial) c w.store).1 :=
        eq_of_heq hr
      unfold exec at hreply
      dsimp only at hreply
      split at hreply
      · have hfound := mem_withSerial_of_find (Except.ok.inj hreply).symm
        have hrow : row ∈ w.store.db.withSerial serial :=
          List.mem_filter.mpr ⟨hrow, decide_eq_true hserial⟩
        rw [hfresh.unique i serial _ rfl cert hfound row hrow]
        exact hrevoked
      · cases hreply

/-- What every other event keeps. -/
theorem Invalidated.add {w : OcspWorld} (h : Invalidated serial past w) {ev : OcspEvent}
    (hev : ∀ i e r, ev ≠ .call i e r) : Invalidated serial past (w.add [ev]) := by
  have hold {i : ℕ} {e : Call} {r : Reply e} (hmem : .call i e r ∈ (w.add [ev]).log) :
      .call i e r ∈ w.log := by
    rcases List.mem_append.mp hmem with hmem | hmem
    · exact hmem
    · exact absurd (List.mem_singleton.mp hmem).symm (hev _ _ _)
  exact ⟨h.revoked, h.entries, fun i hi key resp hmem => h.hits i hi key resp (hold hmem),
    fun i hi cert hmem => h.rows i hi cert (hold hmem)⟩

/-- What the invalidation establishes: the tasks that start later have made no call yet. -/
theorem invalidated_of_step {db : Ca.Store} {mid next : OcspConfig} {a : Action Task Choice} {j : ℕ}
    {r : Unit} (hmid : (system env).Reach Fresh (System.initial { db }) mid)
    (hrevoked : mid.world.store.RevokedSerial serial)
    (hstep : (system env).step mid a = some (.call j (.cacheInvalidate serial) r, next))
    (hfresh : Fresh mid.world (.call j (.cacheInvalidate serial) r)) :
    Invalidated serial next.world.log next.world := by
  have hnext : (system env).Reach Fresh (System.initial { db }) next := hmid.step hstep hfresh
  have hwf := hnext.wf (ocsp_meets env)
  have hnone {i : ℕ} (hi : ∀ t parent, .start i t parent ∉ next.world.log) {e : Call} {r : Reply e}
      (hmem : .call i e r ∈ next.world.log) : False := by
    obtain ⟨t, parent, hstart⟩ := hwf.started hmem
    exact hi t parent hstart
  -- the store after the step
  have hstore : next.world.store =
      { mid.world.store with cache := mid.world.store.cache.invalidate serial } := by
    obtain ⟨c, k, -, -, hworld⟩ := System.step_call hstep
    rw [hworld]
    rfl
  refine ⟨?_, fun e he hkey => ?_, fun i hi key resp hmem _ => absurd (hnone hi hmem) id,
    fun i hi cert hmem => absurd (hnone hi hmem) id⟩
  · rw [hstore]
    exact hrevoked
  · rw [hstore] at he
    exact absurd hkey (Cache.mem_of_invalidate he).2

/-- **No stale "good"** when no certificate is revoked between the read and the insertion of a
request. -/
theorem no_stale_good (env : Env) (db : Ca.Store) (mid : OcspConfig)
    (hmid : (system env).Reach Fresh (System.initial { db }) mid) :
    NoStaleGood env Fresh mid := by
  intro serial a j r next hrevoked hstep hfresh cfg hreach i der request resp hlate hstarted hparse
    hserial hfinish
  have hnext : (system env).Reach Fresh (System.initial { db }) next := hmid.step hstep hfresh
  have hcfg := hnext.trans hreach
  have hJ : (system env).Preserves (ocspSpec env) Fresh (fun _ => True)
      (Invalidated serial next.world.log) := by
    refine .of_call (fun w ev hev h => h.add hev) ?_
    intro w i n t e c _ _ h _ hcalls hfresh
    exact h.after hcalls hfresh
  have hgood := (hnext.good (ocsp_meets env))
  have hinv := (hJ.reach_from (ocsp_meets env) hgood
    (invalidated_of_step hmid hrevoked hstep hfresh) hreach).2
  cases answered hcfg hstarted hparse hfinish with
  | cached hcacheable hhit =>
    have hmem : ⟨.cacheGet request.cacheKey, some resp⟩ ∈ cfg.world.history i := by
      rw [hhit]
      exact List.mem_cons_self ..
    exact hinv.hits i hlate _ resp (World.mem_history.mp hmem) (congrArg X509.hexEncode hserial)
  | made hmade hseen hnohit =>
    obtain ⟨thisUpdate, nextUpdate, hresponses⟩ := hmade.responses
    unfold OcspResponse.NotGood
    rw [hresponses]
    refine List.forall_mem_singleton.mpr fun hstatus => ?_
    have hstatus : _ = CertStatus.Good := hstatus
    subst hstatus
    cases hseen with
    | good hrow hnot =>
      rw [hserial] at hrow
      rw [hinv.rows i hlate _ (World.mem_history.mp hrow)] at hnot
      cases hnot

/-! ### Runs -/

open Instance

/-- `Fresh`, as a check. -/
def fresh (w : OcspWorld) : OcspEvent → Bool
  | .call i (.cacheInsert _ _) _ => w.log.all fun
    | .call j (.findBySerial serial) (.ok (some cert)) => i ≠ j || cert.revoked ||
      w.store.db.certificates.all fun row => row.serialNumber ≠ serial || !row.revoked
    | _ => true
  | .call _ (.findBySerial serial) _ => (w.store.db.withSerial serial).length ≤ 1
  | _ => true

theorem fresh_sound {w : OcspWorld} {ev : OcspEvent} (h : fresh w ev = true) : Fresh w ev := by
  constructor
  · rintro i key resp r rfl serial cert hread hnot ⟨row, hrow, hserial, hrevoked⟩
    have hall := List.all_eq_true.mp h _ hread
    simp only [ne_eq, not_true_eq_false, decide_false, Bool.false_or, hnot] at hall
    have hrow := List.all_eq_true.mp hall row hrow
    simp [hserial, hrevoked] at hrow
  · rintro i serial r rfl row hrow row' hrow'
    have hlen : (w.store.db.withSerial serial).length ≤ 1 := of_decide_eq_true h
    match hrows : w.store.db.withSerial serial with
    | [] => simp [hrows] at hrow
    | [x] =>
      rw [hrows, List.mem_singleton] at hrow hrow'
      rw [hrow, hrow']
    | _ :: _ :: _ =>
      rw [hrows] at hlen
      simp at hlen

/-- Is a certificate with the serial number revoked? -/
def isRevoked (serial : List UInt8) (cfg : OcspConfig) : Bool :=
  cfg.world.store.db.certificates.any fun row => row.serialNumber = serial && row.revoked

theorem revokedSerial_of_isRevoked {serial : List UInt8} {cfg : OcspConfig}
    (h : isRevoked serial cfg = true) : cfg.world.store.RevokedSerial serial := by
  obtain ⟨row, hrow, hmatch⟩ := List.any_eq_true.mp h
  simp only [Bool.and_eq_true, decide_eq_true_eq] at hmatch
  exact ⟨row, hrow, hmatch⟩

/-- The statuses that the request for the serial number 5 with the task number `k` is answered
with, if it starts after the step `a`, which invalidates the cache for the revoked serial
number. -/
def statusesAfter (check : OcspWorld → OcspEvent → Bool) (before : List (Action Task Choice))
    (a : Action Task Choice) (rest : List (Action Task Choice)) (k : ℕ) :
    Option (List CertStatus) := do
  let mid ← (system responder).run check before (System.initial {})
  match (system responder).step mid a with
  | some (.call j (.cacheInvalidate serial) r, next) =>
    let cfg ← (system responder).run check rest next
    let resp ← answerOf cfg.world.log k
    if serial = [5] && isRevoked [5] mid && check mid.world (.call j (.cacheInvalidate serial) r)
        && next.world.log.all (fun | .start i _ _ => i ≠ k | _ => true)
        && startedAs cfg.world.log k (requestDer [1] [1] [5])
      then some (resp.responses.map (·.certStatus)) else none
  | _ => none

/-- What the statuses say of the run. -/
theorem run_of_statusesAfter {check : OcspWorld → OcspEvent → Bool}
    {before rest : List (Action Task Choice)} {a : Action Task Choice} {k : ℕ}
    {statuses : List CertStatus} (h : statusesAfter check before a rest k = some statuses) :
    ∃ mid j r next cfg resp, (system responder).run check before (System.initial {}) = some mid ∧
      mid.world.store.RevokedSerial [5] ∧
      (system responder).step mid a = some (.call j (.cacheInvalidate [5]) r, next) ∧
      check mid.world (.call j (.cacheInvalidate [5]) r) = true ∧
      (system responder).run check rest next = some cfg ∧
      (∀ t parent, .start k t parent ∉ next.world.log) ∧
      cfg.world.Started k (.processRequest (requestDer [1] [1] [5])) ∧
      .finish k (.ok (some resp)) ∈ cfg.world.log ∧ resp.responses.map (·.certStatus)
        = statuses := by
  obtain ⟨mid, hmid, h⟩ := Option.bind_eq_some_iff.mp h
  split at h
  · rename_i j serial r next hstep
    obtain ⟨cfg, hcfg, h⟩ := Option.bind_eq_some_iff.mp h
    obtain ⟨resp, hresp, hstatuses⟩ := Option.bind_eq_some_iff.mp h
    split_ifs at hstatuses with hcond
    simp only [Bool.and_eq_true, decide_eq_true_eq] at hcond
    obtain ⟨⟨⟨⟨rfl, hrevoked⟩, hcheck⟩, hlate⟩, hstarted⟩ := hcond
    refine ⟨mid, j, r, next, cfg, resp, hmid, revokedSerial_of_isRevoked hrevoked, hstep, hcheck,
      hcfg, fun t parent hmem => ?_, started_of_startedAs hstarted, finish_of_answerOf hresp,
      Option.some.inj hstatuses⟩
    have hne := List.all_eq_true.mp hlate _ hmem
    simp at hne
  · cases h

/-- A request for the serial number 5. -/
def request5 : Action Task Choice := .arrive (.processRequest (requestDer [1] [1] [5]))

theorem parse_request5 : fromDer responder.oidText (requestDer [1] [1] [5])
    = .ok ⟨[5], [1], [1], .Sha1, none⟩ := by
  decide +kernel

/-- A request that made `k` steps before the revocation of its certificate; then an invalidation
arrives. -/
def requestThenRevoke (k : ℕ) : List (Action Task Choice) :=
  statement 0 (.createCertificate (Ca.Instance.cert 5)) 1 ++ request5 :: steps 1 k 2
    ++ statement 2 (.revoke (Ca.Instance.uuid 5) 1) 3 ++ [.arrive (.invalidateCache [5])]

/-- **A stale "good"**: the first request has read and signed before the revocation, and puts its
response into the cache after the invalidation. -/
theorem stale_good :
    ¬∀ db mid, (system responder).Reach (fun _ _ => True) (System.initial { db }) mid →
      NoStaleGood responder (fun _ _ => True) mid := by
  intro h
  have hrun : statusesAfter (fun _ _ => true) (requestThenRevoke 8) (go 3 4)
      (steps 1 3 5 ++ request5 :: steps 4 3 6) 4 = some [.Good] := by
    decide +kernel
  obtain ⟨mid, j, r, next, cfg, resp, hmid, hrevoked, hstep, -, hcfg, hlate, hstarted, hfinish,
    hstatuses⟩ := run_of_statusesAfter hrun
  have hgood : resp.NotGood := h {} mid (System.reach_of_run (fun _ _ _ => trivial) _ hmid) [5] _ j
    r next hrevoked hstep trivial cfg (System.reach_of_run (fun _ _ _ => trivial) _ hcfg) 4 _ _ resp
    hlate hstarted parse_request5 rfl hfinish
  obtain ⟨single, hsingle, hstatus⟩ := List.mem_map.mp (hstatuses ▸ List.mem_singleton_self _)
  exact hgood single hsingle hstatus

/-- The first request ends before the revocation, and the one after the invalidation is answered
"revoked". -/
theorem no_stale_good_in_turn :
    ∃ mid next cfg resp, (system responder).Reach Fresh (System.initial {}) mid ∧
      mid.world.store.RevokedSerial [5] ∧ (system responder).Reach Fresh next cfg ∧
      .finish 4 (.ok (some resp)) ∈ cfg.world.log ∧
      resp.responses.map (·.certStatus) = [.Revoked (Ca.Instance.time 3) (some 1)] ∧
      NotGoodAfter responder [5] next cfg := by
  have hrun : statusesAfter fresh (requestThenRevoke 11) (go 3 4) (request5 :: steps 4 11 6) 4
      = some [.Revoked (Ca.Instance.time 3) (some 1)] := by
    decide +kernel
  obtain ⟨mid, j, r, next, cfg, resp, hmid, hrevoked, hstep, hcheck, hcfg, -, -, hfinish,
    hstatuses⟩ := run_of_statusesAfter hrun
  have hreach : (system responder).Reach Fresh (System.initial {}) mid :=
    System.reach_of_run (fun _ _ h => fresh_sound h) _ hmid
  have hrest : (system responder).Reach Fresh next cfg :=
    System.reach_of_run (fun _ _ h => fresh_sound h) _ hcfg
  exact ⟨mid, next, cfg, resp, hreach, hrevoked, hrest, hfinish, hstatuses,
    no_stale_good responder {} mid hreach [5] _ j r next hrevoked hstep (fresh_sound hcheck) cfg
      hrest⟩

end Ostrich.Ocsp
