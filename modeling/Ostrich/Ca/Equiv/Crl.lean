import Ostrich.Ca.Equiv.Log

/-!
# Revocation lists over whole runs

A generation reads the revoked certificates, then takes a number, then stores its list; other tasks
come between.  `full_of_ran` and `delta_of_ran` say what a stored list was made from, `rows_of_read`
what was revoked when it was read.
-/

namespace Ostrich.Ca

open Common Interleave Table

variable {env : Env} {allowed : CaWorld → CaEvent → Prop} {cfg : CaConfig}

/-! ### Entries -/

/-- The serial numbers of these entries. -/
def serialsOf (entries : List RevokedCertificateInfo) : List (List UInt8) :=
  entries.map (·.serialNumber)

theorem Crl.serials_stored (crl : Crl) :
    crl.stored.serials = serialsOf crl.tbs.revokedCertificates := rfl

theorem mem_serialsOf_fullInfo {rows : List Certificate} {serial : List UInt8} :
    serial ∈ serialsOf (fullInfo rows) ↔
      ∃ c ∈ rows, c.revocationTime ≠ none ∧ c.serialNumber = serial := by
  unfold serialsOf fullInfo
  rw [List.mem_map]
  constructor
  · rintro ⟨info, hinfo, rfl⟩
    obtain ⟨c, hc, heq⟩ := List.mem_filterMap.mp hinfo
    cases ht : c.revocationTime with
    | none => simp [ht] at heq
    | some t =>
      obtain rfl : revokedInfo c t = info := by simpa [ht] using heq
      exact ⟨c, hc, by simp [ht], rfl⟩
  · rintro ⟨c, hc, htime, rfl⟩
    obtain ⟨t, ht⟩ := Option.ne_none_iff_exists'.mp htime
    exact ⟨revokedInfo c t, List.mem_filterMap.mpr ⟨c, hc, by simp [ht]⟩, rfl⟩

theorem mem_serialsOf_deltaInfo {base : Crl} {rows : List Certificate} {c : Certificate}
    {t : DateTime} (hc : c ∈ rows) (ht : c.revocationTime = some t)
    (hafter : ¬t ≤ base.thisUpdate) : c.serialNumber ∈ serialsOf (deltaInfo base rows) := by
  refine List.mem_map.mpr ⟨revokedInfo c t, List.mem_filterMap.mpr ⟨c, hc, ?_⟩, rfl⟩
  simp [ht, hafter]

theorem mem_revokedOf {s : Store} {caId : Uuid} {c : Certificate} :
    c ∈ s.revokedOf caId ↔ c ∈ s.certificates ∧ c.caId = caId ∧ c.revoked = true := by
  simp [Store.revokedOf]

theorem mem_fullCrls {s : Store} {caId : Uuid} {crl : Crl} :
    crl ∈ s.fullCrls caId ↔ crl ∈ s.crls ∧ crl.caId = caId ∧ crl.isDelta = false := by
  simp [Store.fullCrls]

/-! ### What a generation reads -/

section

variable (hreach : (system env).Reach allowed (System.initial {}) cfg)

include hreach

/-- A task reads the revoked certificates once. -/
theorem findRevoked_unique {i : ℕ} {caId : Uuid} {rows rows' : List Certificate}
    (h : Answered cfg.world.log i (.findRevoked caId) rows)
    (h' : Answered cfg.world.log i (.findRevoked caId) rows') : rows = rows' := by
  have heq := hreach.once (ca_meets env) (P := fun e => ∃ caId, e = .db (.findRevoked caId))
    (by
      rintro t hist _ hcalls ⟨ca, rfl⟩ s hs ⟨ca', hca'⟩
      rcases hcalls with ⟨-, rfl⟩ | ⟨base, -, rfl⟩
      · cases hs
      · rw [List.mem_singleton.mp hs] at hca'
        cases hca') h ⟨caId, rfl⟩ h' ⟨caId, rfl⟩
  exact DbReply.ok.inj (eq_of_heq (Event.call.inj heq).2.2)

/-- A task reads the latest CRL once. -/
theorem findLatestCrl_unique {i : ℕ} {caId : Uuid} {crl crl' : Option Crl}
    (h : Answered cfg.world.log i (.findLatestCrl caId) crl)
    (h' : Answered cfg.world.log i (.findLatestCrl caId) crl') : crl = crl' := by
  have heq := hreach.once (ca_meets env) (P := fun e => ∃ caId, e = .db (.findLatestCrl caId))
    (by
      rintro t hist _ hcalls ⟨ca, rfl⟩ s hs
      obtain ⟨-, rfl⟩ := hcalls
      cases hs) h ⟨caId, rfl⟩ h' ⟨caId, rfl⟩
  exact DbReply.ok.inj (eq_of_heq (Event.call.inj heq).2.2)

/-- What a stored full CRL was made from. -/
theorem full_of_ran {i : ℕ} {crl : Crl} (h : Ran cfg.world.log i (.createCrl crl))
    (hfull : crl.isDelta = false) : ∃ rows, Answered cfg.world.log i (.findRevoked crl.caId) rows ∧
      crl.tbs.revokedCertificates = fullInfo rows ∧
      Answered cfg.world.log i (.nextCrlNumber crl.caId) crl.crlNumber := by
  obtain ⟨mid, t, now, s, hlog, -, hcalls, -⟩ := ran_at hreach h
  obtain ⟨caId, entries, base, before, number, thisUpdate, der, signature, hread, hhist, hof⟩ :=
    hcalls
  obtain rfl := hof.caId
  obtain rfl := hof.crlNumber
  cases hread with
  | @full _ rows =>
    refine ⟨rows, hlog (World.mem_history.mp ?_), hof.entries, hlog (World.mem_history.mp ?_)⟩
    · rw [hhist]
      simp
    · rw [hhist]
      simp
  | delta =>
    rw [hof.isDelta] at hfull
    cases hfull

/-- What a stored delta CRL was made from. -/
theorem delta_of_ran {i : ℕ} {crl : Crl} (h : Ran cfg.world.log i (.createCrl crl))
    (hdelta : crl.isDelta = true) : ∃ base rows,
      Answered cfg.world.log i (.findLatestCrl crl.caId) (some base) ∧
      Answered cfg.world.log i (.findRevoked crl.caId) rows ∧
      crl.tbs.revokedCertificates = deltaInfo base rows ∧
      crl.baseCrlNumber = some base.crlNumber ∧
        cfg.world.Started i (.generateDeltaCrl crl.caId) := by
  obtain ⟨mid, t, now, s, hlog, hstarted, hcalls, -⟩ := ran_at hreach h
  obtain ⟨caId, entries, base, before, number, thisUpdate, der, signature, hread, hhist, hof⟩ :=
    hcalls
  obtain rfl := hof.caId
  cases hread with
  | full =>
    rw [hof.isDelta] at hdelta
    cases hdelta
  | @delta _ base rows =>
    refine ⟨base, rows, hlog (World.mem_history.mp ?_), hlog (World.mem_history.mp ?_),
      hof.entries, hof.baseCrlNumber, ?_⟩
    · rw [hhist]
      simp
    · rw [hhist]
      simp
    · obtain ⟨parent, hstart⟩ := hstarted
      exact ⟨parent, hlog hstart⟩

/-- What is read is what is revoked, and it stays so. -/
theorem rows_of_read {i : ℕ} {caId : Uuid} {rows : List Certificate}
    (h : Answered cfg.world.log i (.findRevoked caId) rows) {c : Certificate} (hc : c ∈ rows) :
    c ∈ cfg.world.store.revokedOf caId := by
  obtain ⟨pre, post, hlog⟩ := List.append_of_mem h
  obtain ⟨mid, t, -, hat⟩ := query_at hreach hlog
  obtain ⟨now, s, hrun⟩ := hat.run rows rfl
  obtain ⟨rfl, -⟩ := Prod.mk.inj (Except.ok.inj hrun)
  obtain ⟨hmem, hca, hrevoked⟩ := mem_revokedOf.mp hc
  obtain ⟨c', hc', hlater⟩ := hat.evolves.certificates c hmem
  rw [hlater.revoked hrevoked] at hc'
  exact mem_revokedOf.mpr ⟨hc', hca, hrevoked⟩

/-- The serial numbers that a full CRL lists are those of the certificates that its generation
read. -/
theorem mem_serials_of_read {i : ℕ} {crl : Crl} {rows : List Certificate} {serial : List UInt8}
    (h : Ran cfg.world.log i (.createCrl crl)) (hfull : crl.isDelta = false)
    (hread : Answered cfg.world.log i (.findRevoked crl.caId) rows) :
    serial ∈ crl.serials ↔ ∃ c ∈ rows, c.serialNumber = serial := by
  obtain ⟨rows', hread', hentries, -⟩ := full_of_ran hreach h hfull
  obtain rfl := findRevoked_unique hreach hread hread'
  rw [show crl.serials = serialsOf (fullInfo rows) from congrArg serialsOf hentries,
    mem_serialsOf_fullInfo]
  refine exists_congr fun c => and_congr_right fun hc => and_iff_right ?_
  obtain ⟨hmem, -, hrevoked⟩ := mem_revokedOf.mp (rows_of_read hreach hread hc)
  obtain ⟨t, ht⟩ := revocationTime_of_revoked hreach hmem hrevoked
  rw [ht]
  exact Option.some_ne_none t

end

end Ostrich.Ca
