import Ostrich.Ca.Equiv.Crl
import Ostrich.Ca.Instance

/-!
# Completeness of delta CRLs

A delta CRL lists what was revoked after the `thisUpdate` of its base.  The base lists what was
revoked when its generation read the table, which is before it takes its `thisUpdate`: a revocation
in between is in neither.

* `delta_complete`: in every run in which each delta CRL is read when all revocations that its base
  did not read are later than the base's `thisUpdate`, no revoked certificate is missing from both;
* `delta_misses_revocation`: a run in which one is.
-/

namespace Ostrich.Ca

open Common Interleave Table

/-! ### The property -/

/-- `base` is the base of `delta`. -/
structure BaseOf (s : Store) (delta base : Crl) : Prop where
  stored : base ∈ s.crls
  caId : base.caId = delta.caId
  full : base.isDelta = false
  number : delta.baseCrlNumber = some base.crlNumber

/-- `pre` is the log up to the read of the revoked certificates by the task that stored `delta`. -/
def BeforeRead (log : List CaEvent) (delta : Crl) (pre : List CaEvent) : Prop :=
  ∃ i delta₀ rows post, Ran log i (.createCrl delta₀) ∧ delta₀.stored = delta ∧
    log = pre ++ .call i (.db (.findRevoked delta.caId)) (.ok rows) :: post

/-- The revocation of the certificate was committed. -/
def RevocationCommitted (log : List CaEvent) (c : Certificate) : Prop :=
  ∃ i reason, Ran log i (.revoke c.id reason)

/-- Every delta CRL has a base, and every certificate whose revocation was committed before its
read is in one of the two. -/
def DeltaComplete (w : CaWorld) : Prop :=
  ∀ delta ∈ w.store.crls, delta.isDelta = true → ∃ base, BaseOf w.store delta base ∧
    (∃ pre, BeforeRead w.log delta pre) ∧ ∀ pre, BeforeRead w.log delta pre →
      ∀ c ∈ w.store.certificates, c.caId = delta.caId → RevocationCommitted pre c →
        c.serialNumber ∈ base.serials ∨ c.serialNumber ∈ delta.serials

/-! ### The condition -/

/-- The generation of `crl` read the certificate. -/
def GenerationRead (log : List CaEvent) (crl : Crl) (c : Certificate) : Prop :=
  ∃ j crl₀ rows, Ran log j (.createCrl crl₀) ∧ crl₀.stored = crl ∧
    Answered log j (.findRevoked crl.caId) rows ∧ ∃ c' ∈ rows, c'.id = c.id

/-- When a delta CRL reads the revoked certificates, those that the generation of its base did not
read were revoked after the base's `thisUpdate`. -/
def RevokedAfterBase (w : CaWorld) (ev : CaEvent) : Prop :=
  ∀ i caId rows base, ev = .call i (.db (.findRevoked caId)) (.ok rows) →
    Answered w.log i (.findLatestCrl caId) (some base) →
    ∀ c ∈ w.store.revokedOf caId, GenerationRead w.log base c ∨
      ∀ t, c.revocationTime = some t → base.thisUpdate < t

variable {env : Env} {allowed : CaWorld → CaEvent → Prop} {cfg : CaConfig}

/-! ### Completeness -/

section

variable (hreach : (system env).Reach allowed (System.initial {}) cfg)

include hreach

/-- The latest CRL that a task was given is a full CRL of the CA. -/
theorem latest_of_read {i : ℕ} {caId : Uuid} {base : Crl}
    (h : Answered cfg.world.log i (.findLatestCrl caId) (some base)) :
    base ∈ cfg.world.store.crls ∧ base.caId = caId ∧ base.isDelta = false := by
  obtain ⟨pre, post, hlog⟩ := List.append_of_mem h
  obtain ⟨mid, t, -, hat⟩ := query_at hreach hlog
  obtain ⟨now, s, hrun⟩ := hat.run _ rfl
  have hfind := (Prod.mk.inj (Except.ok.inj hrun)).1
  obtain ⟨hmem, hca, hfull⟩ := mem_fullCrls.mp (List.mem_of_find?_eq_some hfind)
  exact ⟨hat.evolves.crls hmem, hca, hfull⟩

/-- A certificate that the generation of a full CRL read is in the CRL. -/
theorem mem_serials_of_generationRead {crl : Crl} (hfull : crl.isDelta = false)
    {log : List CaEvent} (hlog : log ⊆ cfg.world.log) {c : Certificate}
    (hc : c ∈ cfg.world.store.certificates) (h : GenerationRead log crl c) :
    c.serialNumber ∈ crl.serials := by
  obtain ⟨j, crl₀, rows, hran, rfl, hread, c', hc', hid⟩ := h
  refine (mem_serials_of_read hreach (hran.mono hlog) hfull (hlog hread)).mpr ⟨c', hc', ?_⟩
  -- ids are unique, so the row that was read is the certificate
  have hmem := (mem_revokedOf.mp (rows_of_read hreach (hlog hread) hc')).1
  rw [(reach_unique hreach).certificates c' hmem c hc hid]

/-- A certificate whose revocation was committed is revoked from then on. -/
theorem mem_revokedOf_of_committed {mid : CaConfig}
    (hmid : (system env).Reach allowed (System.initial {}) mid)
    (hevolves : mid.world.store.Evolves cfg.world.store) {c : Certificate}
    (hc : c ∈ cfg.world.store.certificates) (h : RevocationCommitted mid.world.log c) :
    c ∈ mid.world.store.revokedOf c.caId := by
  obtain ⟨i, reason, hran⟩ := h
  obtain ⟨c', hc', hid, hrevoked⟩ := ran_revoke hmid hran
  have hlater : c'.Later c :=
    hevolves.certificates.of_key (fun h => h.id) (reach_unique hreach).certificates hc' hc hid.symm
  obtain rfl := hlater.revoked hrevoked
  exact mem_revokedOf.mpr ⟨hc', rfl, hrevoked⟩

end

/-- **Delta CRLs are complete** when no revocation comes between the read of a base CRL and its
`thisUpdate`. -/
theorem delta_complete (env : Env) (cfg : CaConfig)
    (hreach : (system env).Reach RevokedAfterBase (System.initial {}) cfg) :
    DeltaComplete cfg.world := by
  intro delta hdelta hisDelta
  have hmade {i : ℕ} {delta₀ : Crl} (hran : Ran cfg.world.log i (.createCrl delta₀))
      (heq : delta₀.stored = delta) : ∃ base rows, BaseOf cfg.world.store delta base ∧
        Answered cfg.world.log i (.findLatestCrl delta.caId) (some base) ∧
        Answered cfg.world.log i (.findRevoked delta.caId) rows ∧
        delta.serials = serialsOf (deltaInfo base rows) ∧
        cfg.world.Started i (.generateDeltaCrl delta.caId) := by
    subst heq
    obtain ⟨base, rows, hlatest, hread, hentries, hnumber, hstarted⟩ :=
      delta_of_ran hreach hran hisDelta
    obtain ⟨hstored, hca, hfull⟩ := latest_of_read hreach hlatest
    exact ⟨base, rows, ⟨hstored, hca, hfull, hnumber⟩, hlatest, hread, congrArg serialsOf hentries,
      hstarted⟩
  obtain ⟨i, delta₀, hran, heq⟩ := crl_ran hreach hdelta
  obtain ⟨base, rows, hbase, -, hread, -⟩ := hmade hran heq
  obtain ⟨pre, post, hlog⟩ := List.append_of_mem hread
  refine ⟨base, hbase, ⟨pre, i, delta₀, rows, post, hran, heq, hlog⟩, ?_⟩
  clear hlog
  rintro pre ⟨j, delta₁, rows', post', hran', heq', hlog⟩ c hc hca hcommitted
  obtain ⟨base', rows'', hbase', hlatest, hread', hserials, hstarted⟩ := hmade hran' heq'
  -- the base is the one with its number
  obtain rfl : base' = base := by
    refine (reach_unique hreach).crls base' hbase'.stored base hbase.stored (Prod.ext ?_ ?_)
    · exact hbase'.caId.trans hbase.caId.symm
    · exact Option.some.inj (hbase'.number.symm.trans hbase.number)
  obtain rfl : rows'' = rows' := by
    refine findRevoked_unique hreach hread' ?_
    unfold Answered
    rw [hlog]
    exact List.mem_append_right _ (List.mem_cons_self ..)
  obtain ⟨mid, t, rfl, hat⟩ := query_at hreach hlog
  have hsub : mid.world.log ⊆ cfg.world.log := by
    rw [hlog]
    exact List.subset_append_left _ _
  -- the base was read before the revoked certificates
  have hlatest' : Answered mid.world.log j (.findLatestCrl delta.caId) (some base') := by
    obtain ⟨parent, hstart⟩ := hat.started
    obtain rfl : t = .generateDeltaCrl delta.caId :=
      (hreach.wf (ca_meets env)).started_unique ⟨parent, hsub hstart⟩ hstarted
    rcases hat.calls with ⟨heq, -⟩ | ⟨other, -, hhist⟩
    · cases heq
    · have hother : Answered mid.world.log j (.findLatestCrl delta.caId) (some other) := by
        refine World.mem_history.mp ?_
        rw [hhist]
        exact List.mem_singleton_self _
      rwa [findLatestCrl_unique hreach hlatest (hsub hother)]
  have hrevoked : c ∈ mid.world.store.revokedOf delta.caId := by
    rw [← hca]
    exact mem_revokedOf_of_committed hreach hat.reach hat.evolves hc hcommitted
  rcases hat.admitted j delta.caId rows'' base' rfl hlatest' c hrevoked with hbaseRead | hafter
  · exact .inl (mem_serials_of_generationRead hreach hbase'.full hsub hc hbaseRead)
  · right
    obtain ⟨now, s, hrun⟩ := hat.run _ rfl
    obtain ⟨rfl, -⟩ := Prod.mk.inj (Except.ok.inj hrun)
    obtain ⟨hmem, -, hrev⟩ := mem_revokedOf.mp hrevoked
    obtain ⟨time, htime⟩ := revocationTime_of_revoked hat.reach hmem hrev
    rw [hserials]
    exact mem_serialsOf_deltaInfo hrevoked htime (DateTime.not_le.mpr (hafter time htime))

/-! ### Runs -/

open Instance

/-- The event is a revocation of the certificate. -/
def revokes (c : Certificate) : CaEvent → Bool
  | .call _ (.db (.revoke id _)) (.ok ()) => id = c.id
  | _ => false

/-- The event stores the CRL, by task `i`. -/
def storesCrl (i : ℕ) (crl : Crl) : CaEvent → Bool
  | .call j (.db (.createCrl crl₀)) (.ok ()) => j = i && crl₀.stored = crl
  | _ => false

/-- The task that reads the revoked certificates of the CA. -/
def readsRevoked (caId : Uuid) : CaEvent → Option ℕ
  | .call i (.db (.findRevoked ca)) (.ok _) => if ca = caId then some i else none
  | _ => none

/-- The certificate is revoked before the read for `delta` and in no CRL. -/
def missed (w : CaWorld) (n : ℕ) (delta : Crl) (c : Certificate) : Bool :=
  delta.isDelta && c.caId = delta.caId && (w.log.take n).any (revokes c)
    && w.store.crls.all (fun crl => !crl.serials.contains c.serialNumber)
    && match (w.log[n]?).bind (readsRevoked delta.caId) with
      | some i => w.log.any (storesCrl i delta)
      | none => false

theorem not_deltaComplete_of_missed {w : CaWorld} {n : ℕ} {delta : Crl} {c : Certificate}
    (hdelta : delta ∈ w.store.crls) (hc : c ∈ w.store.certificates)
    (h : missed w n delta c = true) : ¬DeltaComplete w := by
  intro hcomplete
  simp only [missed, Bool.and_eq_true, decide_eq_true_eq] at h
  obtain ⟨⟨⟨⟨hisDelta, hca⟩, hrevoked⟩, hnone⟩, hread⟩ := h
  obtain ⟨base, hbase, -, hcovered⟩ := hcomplete delta hdelta hisDelta
  have hmissing (crl : Crl) (hcrl : crl ∈ w.store.crls) : c.serialNumber ∉ crl.serials := by
    have := List.all_eq_true.mp hnone crl hcrl
    simpa using this
  -- the read is the event after the first `n`
  split at hread
  · rename_i i hi
    obtain ⟨ev, hev, hreads⟩ := Option.bind_eq_some_iff.mp hi
    obtain ⟨hn, rfl⟩ := List.getElem?_eq_some_iff.mp hev
    have hbefore : BeforeRead w.log delta (w.log.take n) := by
      unfold readsRevoked at hreads
      split at hreads
      · rename_i j ca rows heq
        split_ifs at hreads with hcaId
        subst hcaId
        obtain rfl := Option.some.inj hreads
        obtain ⟨stores, hstores, hmatch⟩ := List.any_eq_true.mp hread
        unfold storesCrl at hmatch
        split at hmatch
        · rename_i k crl₀
          simp only [Bool.and_eq_true, decide_eq_true_eq] at hmatch
          obtain ⟨rfl, hstored⟩ := hmatch
          refine ⟨k, crl₀, rows, w.log.drop (n + 1), ⟨_, hstores, rfl⟩, hstored, ?_⟩
          rw [← heq, List.getElem_cons_drop hn, List.take_append_drop]
        · cases hmatch
      · cases hreads
    have hcommitted : RevocationCommitted (w.log.take n) c := by
      obtain ⟨ev, hev, hmatch⟩ := List.any_eq_true.mp hrevoked
      unfold revokes at hmatch
      split at hmatch
      · rename_i j id reason
        obtain rfl := of_decide_eq_true hmatch
        exact ⟨j, reason, _, hev, rfl⟩
      · cases hmatch
    rcases hcovered _ hbefore c hc hca hcommitted with hin | hin
    · exact hmissing base hbase.stored hin
    · exact hmissing delta hdelta hin
  · cases hread

/-- A full CRL is generated while a certificate is revoked, then a delta CRL. -/
def revokeDuringFullCrl : List (Action Task Choice) :=
  .arrive (.storeCertificate (cert 5)) :: steps 0 0 2 1
    -- the generation reads before the revocation and takes its `thisUpdate` after it
    ++ .arrive (.generateCrl (uuid 1)) :: go 1 0 5
    :: .arrive (.revoke (uuid 5) 1) :: steps 2 0 4 10 ++ steps 1 0 6 20
    ++ .arrive (.generateDeltaCrl (uuid 1)) :: steps 3 0 8 30

/-- **A revocation that no CRL lists.** -/
theorem delta_misses_revocation :
    ¬∀ cfg, (system (authority true)).Reach (fun _ _ => True) (System.initial {}) cfg →
      DeltaComplete cfg.world := by
  intro h
  have hrun : ((system (authority true)).run (fun _ _ => true) revokeDuringFullCrl
      (System.initial {})).map (fun cfg => cfg.world.store.crls.any fun delta =>
        cfg.world.store.certificates.any fun c => missed cfg.world 18 delta c) = some true := by
    decide +kernel
  obtain ⟨cfg, hcfg, hmissed⟩ := Option.map_eq_some_iff.mp hrun
  obtain ⟨delta, hdelta, hmissed⟩ := List.any_eq_true.mp hmissed
  obtain ⟨c, hc, hmissed⟩ := List.any_eq_true.mp hmissed
  exact not_deltaComplete_of_missed hdelta hc hmissed
    (h cfg (System.reach_of_run (fun _ _ _ => trivial) _ hcfg))

/-- `RevokedAfterBase` as a check: everything was revoked after the CRLs that were given out. -/
def revokedAfterBase (w : CaWorld) : CaEvent → Bool
  | .call _ (.db (.findRevoked caId)) (.ok _) => w.log.all fun
    | .call _ (.db (.findLatestCrl _)) (.ok (some base)) => (w.store.revokedOf caId).all fun c =>
        c.revocationTime.all fun t => base.thisUpdate < t
    | _ => true
  | _ => true

theorem revokedAfterBase_sound (w : CaWorld) (ev : CaEvent) (h : revokedAfterBase w ev = true) :
    RevokedAfterBase w ev := by
  rintro i caId rows base rfl hlatest c hc
  right
  intro t ht
  have hall := List.all_eq_true.mp (List.all_eq_true.mp h _ hlatest) c hc
  rw [ht] at hall
  exact of_decide_eq_true hall

/-- A certificate is revoked after the full CRL, and is in the delta CRL. -/
theorem delta_complete_revoked_later :
    ∃ cfg, (system (authority true)).Reach RevokedAfterBase (System.initial {}) cfg ∧
      (∃ delta ∈ cfg.world.store.crls, delta.isDelta = true ∧ [5] ∈ delta.serials) ∧
      DeltaComplete cfg.world := by
  have hrun : ((system (authority true)).run revokedAfterBase
      (.arrive (.storeCertificate (cert 5)) :: steps 0 0 2 1
        ++ .arrive (.generateCrl (uuid 1)) :: steps 1 0 7 20
        ++ .arrive (.revoke (uuid 5) 1) :: steps 2 0 4 30
        ++ .arrive (.generateDeltaCrl (uuid 1)) :: steps 3 0 8 40) (System.initial {})).map
      (fun cfg => cfg.world.store.crls.any fun delta =>
        delta.isDelta && delta.serials.contains [5]) = some true := by
    decide +kernel
  obtain ⟨cfg, hcfg, hdelta⟩ := Option.map_eq_some_iff.mp hrun
  have hreach := System.reach_of_run revokedAfterBase_sound _ hcfg
  obtain ⟨delta, hmem, hdelta⟩ := List.any_eq_true.mp hdelta
  simp only [Bool.and_eq_true, List.contains_iff_mem] at hdelta
  exact ⟨cfg, hreach, ⟨delta, hmem, hdelta⟩, delta_complete _ cfg hreach⟩

end Ostrich.Ca
