import Ostrich.Ca.Equiv.Crl
import Ostrich.Ca.Instance

/-!
# The sequence of CRLs

The number of a CRL is one more than the last number of the table, which is read after the revoked
certificates: a generation can take a higher number than another one and list less.

* `crlNumbers_nodup`: the numbers of a CA are distinct, in every run;
* `crl_monotone`: in every run in which no full CRL that lists more is stored between the two reads
  of a generation, a full CRL lists everything that those with a lower number list;
* `crl_drops_revocation`: a run in which a CRL lists less than the one before.
-/

namespace Ostrich.Ca

open Common Interleave Table

/-! ### The property -/

/-- The numbers of the CRLs of a CA. -/
def Store.crlNumbers (s : Store) (caId : Uuid) : List ℤ :=
  (s.crls.filter fun crl => crl.caId = caId).map (·.crlNumber)

/-- The CRLs of a CA have distinct numbers, a full CRL lists what those before it list, and so does
the latest one. -/
structure CrlMonotone (s : Store) : Prop where
  numbers : ∀ caId, (s.crlNumbers caId).Nodup
  serials : ∀ caId, ∀ m ∈ s.fullCrls caId, ∀ n ∈ s.fullCrls caId, m.crlNumber < n.crlNumber →
    m.serials ⊆ n.serials
  latest : ∀ caId now latest s', Query.run (.findLatestCrl caId) now s = .ok (some latest, s') →
    ∀ m ∈ s.fullCrls caId, m.serials ⊆ latest.serials

/-! ### The condition -/

/-- When a generation of a full CRL takes its number, the full CRLs of the CA that were stored since
it read the revoked certificates list only certificates that it read. -/
def NoneListsMore (w : CaWorld) (ev : CaEvent) : Prop :=
  ∀ i caId number rows pre post, ev = .call i (.db (.nextCrlNumber caId)) (.ok number) →
    w.log = pre ++ .call i (.db (.findRevoked caId)) (.ok rows) :: post →
    ∀ j crl, Ran post j (.createCrl crl) → crl.caId = caId → crl.isDelta = false →
      ∀ serial ∈ crl.serials, ∃ c ∈ rows, c.serialNumber = serial

variable {env : Env} {allowed : CaWorld → CaEvent → Prop} {cfg : CaConfig}

/-! ### Numbers -/

/-- The last number is that of a CRL, or there is none. -/
theorem maxCrlNumber_cases (s : Store) (caId : Uuid) :
    s.maxCrlNumber caId = 0 ∨
      ∃ crl ∈ s.crls, crl.caId = caId ∧ crl.crlNumber = s.maxCrlNumber caId := by
  unfold Store.maxCrlNumber
  cases hmax : ((s.crls.filter fun crl => crl.caId = caId).map (·.crlNumber)).max? with
  | none => exact .inl rfl
  | some n =>
    obtain ⟨crl, hcrl, heq⟩ := List.mem_map.mp (List.max?_eq_some_iff.mp hmax).1
    obtain ⟨hcrl, hca⟩ := List.mem_filter.mp hcrl
    exact .inr ⟨crl, hcrl, by simpa using hca, heq⟩

/-- No number is higher than the last. -/
theorem le_maxCrlNumber {s : Store} {caId : Uuid} {crl : Crl} (hcrl : crl ∈ s.crls)
    (hca : crl.caId = caId) : crl.crlNumber ≤ s.maxCrlNumber caId := by
  have hmem : crl.crlNumber ∈
      (s.crls.filter fun crl => crl.caId = caId).map (·.crlNumber) :=
    List.mem_map.mpr ⟨crl, List.mem_filter.mpr ⟨hcrl, by simpa using hca⟩, rfl⟩
  unfold Store.maxCrlNumber
  cases hmax : ((s.crls.filter fun crl => crl.caId = caId).map (·.crlNumber)).max? with
  | none =>
    rw [List.max?_eq_none_iff.mp hmax] at hmem
    cases hmem
  | some n => exact (List.max?_eq_some_iff.mp hmax).2 _ hmem

/-- The numbers of a CA start at 1 and have no gaps; a number that a generation took is the first
one, or the one before it is stored. -/
structure Numbered (w : CaWorld) : Prop where
  pos : ∀ crl ∈ w.store.crls, 1 ≤ crl.crlNumber
  below : ∀ crl ∈ w.store.crls, ∀ k, 1 ≤ k → k ≤ crl.crlNumber →
    ∃ crl' ∈ w.store.crls, crl'.caId = crl.caId ∧ crl'.crlNumber = k
  taken : ∀ i caId number, Answered w.log i (.nextCrlNumber caId) number →
    number = 1 ∨ ∃ crl ∈ w.store.crls, crl.caId = caId ∧ crl.crlNumber = number - 1

/-- More CRLs keep the numbers that were taken. -/
theorem Numbered.taken_after {w : CaWorld} (h : Numbered w) {i n : ℕ} {e : Call} {c : Choice}
    {j : ℕ} {caId : Uuid} {number : ℤ}
    (htaken : Answered ((system env).after i n e c w).log j (.nextCrlNumber caId) number) :
    number = 1 ∨ ∃ crl ∈ ((system env).after i n e c w).store.crls,
      crl.caId = caId ∧ crl.crlNumber = number - 1 := by
  have hcrls : w.store.crls ⊆ ((system env).after i n e c w).store.crls :=
    (exec_evolves e c w.store).crls
  rcases ((system env).call_mem_after).mp htaken with hold | hnew
  · refine (h.taken j caId number hold).imp_right fun ⟨crl, hcrl, hspec⟩ => ?_
    exact ⟨crl, hcrls hcrl, hspec⟩
  · obtain ⟨-, rfl, hr⟩ := Event.call.inj hnew
    have hrun := Query.run_of_exec_ok (eq_of_heq hr).symm
    rw [Query.run] at hrun
    split_ifs at hrun
    have hnumber : w.store.maxCrlNumber caId + 1 = number :=
      (Prod.mk.inj (Except.ok.inj hrun)).1
    rcases maxCrlNumber_cases w.store caId with hzero | ⟨crl, hcrl, hca, hmax⟩
    · left
      omega
    · exact .inr ⟨crl, hcrls hcrl, hca, by omega⟩

/-- A new CRL has the number after one that is stored. -/
theorem Numbered.insert {w : CaWorld} (h : Numbered w) {crl : Crl} {s : Store}
    (hcrls : s.crls = w.store.crls ++ [crl.stored]) (hnumber : crl.crlNumber = 1 ∨
      ∃ last ∈ w.store.crls, last.caId = crl.caId ∧ last.crlNumber = crl.crlNumber - 1) :
    (∀ c ∈ s.crls, 1 ≤ c.crlNumber) ∧ ∀ c ∈ s.crls, ∀ k, 1 ≤ k → k ≤ c.crlNumber →
      ∃ c' ∈ s.crls, c'.caId = c.caId ∧ c'.crlNumber = k := by
  have hself : crl.stored ∈ s.crls := by
    rw [hcrls]
    exact List.mem_append_right _ (List.mem_singleton_self _)
  have hold : w.store.crls ⊆ s.crls := by
    rw [hcrls]
    exact List.subset_append_left _ _
  have hbelow (c : Crl) (hc : c ∈ w.store.crls) (k : ℤ) (hk : 1 ≤ k) (hle : k ≤ c.crlNumber) :
      ∃ c' ∈ s.crls, c'.caId = c.caId ∧ c'.crlNumber = k := by
    obtain ⟨c', hc', hspec⟩ := h.below c hc k hk hle
    exact ⟨c', hold hc', hspec⟩
  refine ⟨fun c hc => ?_, fun c hc k hk hle => ?_⟩ <;> rw [hcrls] at hc <;>
    rcases List.mem_append.mp hc with hc | hc
  · exact h.pos c hc
  · rw [List.mem_singleton.mp hc]
    show 1 ≤ crl.crlNumber
    rcases hnumber with hone | ⟨last, hlast, -, hprev⟩
    · omega
    · have := h.pos last hlast
      omega
  · exact hbelow c hc k hk hle
  · rw [List.mem_singleton.mp hc] at hle ⊢
    have hle : k ≤ crl.crlNumber := hle
    -- the number itself, or one below the last
    by_cases hlast : k = crl.crlNumber
    · exact ⟨crl.stored, hself, rfl, hlast.symm⟩
    · rcases hnumber with hone | ⟨last, hmem, hca, hprev⟩
      · omega
      · obtain ⟨c', hc', hca', hk'⟩ := hbelow last hmem k hk (by omega)
        exact ⟨c', hc', hca'.trans hca, hk'⟩

theorem numbered (hreach : (system env).Reach allowed (System.initial {}) cfg) :
    Numbered cfg.world := by
  have hJ : (system env).Preserves (caSpec env) allowed (fun _ => True) Numbered := by
    refine .of_call (fun w ev hev h => ⟨h.pos, h.below, fun i caId number htaken => ?_⟩) ?_
    · rcases List.mem_append.mp htaken with htaken | htaken
      · exact h.taken i caId number htaken
      · exact absurd (List.mem_singleton.mp htaken).symm (hev _ _ _)
    · intro w i n t e c _ _ h _ hcalls _
      rcases @after_crls env i n e c w with hsame | ⟨crl, rfl, -, hcrls, -⟩
      · refine ⟨?_, ?_, fun j caId number => h.taken_after⟩ <;> rw [hsame]
        · exact h.pos
        · exact h.below
      · obtain ⟨caId, entries, base, before, number, thisUpdate, der, sig, -, hhist, hof⟩ := hcalls
        have htaken : Answered w.log i (.nextCrlNumber caId) number := by
          refine World.mem_history.mp ?_
          rw [hhist]
          simp
        have hnumber := h.taken i caId number htaken
        rw [← hof.caId, ← hof.crlNumber] at hnumber
        obtain ⟨hpos, hbelow⟩ := h.insert hcrls hnumber
        exact ⟨hpos, hbelow, fun j caId number => h.taken_after⟩
  exact (hJ.reach (ca_meets env) ⟨by simp, by simp, by simp [Answered]⟩ hreach).2

/-- **The numbers of a CA are distinct**, in every run. -/
theorem crlNumbers_nodup (hreach : (system env).Reach allowed (System.initial {}) cfg)
    (caId : Uuid) : (cfg.world.store.crlNumbers caId).Nodup := by
  have hstep (e : Call) (c : Choice) (s : Store) (h : (s.crlNumbers caId).Nodup) :
      ((exec e c s).2.crlNumbers caId).Nodup := by
    rcases exec_effect e c s with ⟨q, rfl, heffect⟩ | hsame
    · rcases heffect.crls with hsame | ⟨crl, rfl, hcrls, hnew⟩
      · unfold Store.crlNumbers
        rwa [hsame]
      · unfold Store.crlNumbers at h ⊢
        rw [hcrls, List.filter_append, List.map_append, List.nodup_append]
        refine ⟨h, ?_, fun a ha b hb hab => ?_⟩
        · by_cases hca : crl.stored.caId = caId <;> simp [hca]
        · obtain ⟨old, hold, rfl⟩ := List.mem_map.mp ha
          obtain ⟨new, hmem, rfl⟩ := List.mem_map.mp hb
          obtain ⟨hold, hca⟩ := List.mem_filter.mp hold
          obtain ⟨hmem, hca'⟩ := List.mem_filter.mp hmem
          obtain rfl := List.mem_singleton.mp hmem
          refine hnew old hold (Prod.ext ?_ hab)
          exact (of_decide_eq_true hca).trans (of_decide_eq_true hca').symm
    · rwa [hsame]
  exact hreach.store (R := fun s s' => (s.crlNumbers caId).Nodup → (s'.crlNumbers caId).Nodup)
    (fun _ h => h) (fun h h' hs => h' (h hs)) (fun _ e c w _ => hstep e c w.store) List.nodup_nil

/-! ### Contents -/

section

variable (hreach : (system env).Reach allowed (System.initial {}) cfg)

include hreach

/-- A CRL that was stored lists only certificates that are revoked. -/
theorem revoked_of_mem_serials {j : ℕ} {crl : Crl} (h : Ran cfg.world.log j (.createCrl crl))
    (hfull : crl.isDelta = false) {serial : List UInt8} (hserial : serial ∈ crl.serials) :
    ∃ c ∈ cfg.world.store.revokedOf crl.caId, c.serialNumber = serial := by
  obtain ⟨rows, hread, -⟩ := full_of_ran hreach h hfull
  obtain ⟨c, hc, hserial⟩ := (mem_serials_of_read hreach h hfull hread).mp hserial
  exact ⟨c, rows_of_read hreach hread hc, hserial⟩

/-- When a generation takes its number, every CRL with a lower one is stored. -/
theorem stored_of_number_lt {i : ℕ} {caId : Uuid} {number : ℤ}
    {mid : CaConfig} {t : Task}
    (hat : QueryAt env allowed cfg mid i t (.nextCrlNumber caId) (.ok number)) {crl : Crl}
    (hcrl : crl ∈ cfg.world.store.crls) (hca : crl.caId = caId) (hlt : crl.crlNumber < number) :
    crl ∈ mid.world.store.crls := by
  have hpos := (numbered hreach).pos crl hcrl
  obtain ⟨now, s, hrun⟩ := hat.run _ rfl
  rw [Query.run] at hrun
  split_ifs at hrun
  have hnumber : mid.world.store.maxCrlNumber caId + 1 = number :=
    (Prod.mk.inj (Except.ok.inj hrun)).1
  rcases maxCrlNumber_cases mid.world.store caId with hzero | ⟨last, hlast, hlastCa, hmax⟩
  · omega
  · obtain ⟨crl', hcrl', hca', hsame⟩ :=
      (numbered hat.reach).below last hlast crl.crlNumber hpos (by omega)
    have heq := (reach_unique hreach).crls crl' (hat.evolves.crls hcrl') crl hcrl
      (Prod.ext ((hca'.trans hlastCa).trans hca.symm) hsame)
    rwa [← heq]

end

/-- The certificates that a full CRL with a lower number lists are among those that the generation
of the higher one read. -/
theorem read_of_number_lt (hreach : (system env).Reach NoneListsMore (System.initial {}) cfg)
    {i : ℕ} {caId : Uuid} {number : ℤ} {rows : List Certificate}
    (htaken : Answered cfg.world.log i (.nextCrlNumber caId) number)
    (hread : Answered cfg.world.log i (.findRevoked caId) rows)
    {crl : Crl} (hcrl : crl ∈ cfg.world.store.fullCrls caId) (hlt : crl.crlNumber < number)
    {serial : List UInt8} (hserial : serial ∈ crl.serials) :
    ∃ c ∈ rows, c.serialNumber = serial := by
  obtain ⟨hmem, hca, hfull⟩ := mem_fullCrls.mp hcrl
  obtain ⟨pre, post, hlog⟩ := List.append_of_mem htaken
  obtain ⟨mid, t, rfl, hat⟩ := query_at hreach hlog
  have hsub : mid.world.log ⊆ cfg.world.log := by
    rw [hlog]
    exact List.subset_append_left _ _
  have hstored := stored_of_number_lt hreach hat hmem hca hlt
  obtain ⟨j, crl₀, ⟨r, hmade, happlied⟩, rfl⟩ := crl_ran hat.reach hstored
  -- the generation has read the revoked certificates before it takes the number
  obtain ⟨rows', hread'⟩ : ∃ rows', Answered mid.world.log i (.findRevoked caId) rows' := by
    obtain ⟨entries, base, hhist⟩ := hat.calls
    generalize hhistory : mid.world.history i = history at hhist
    cases hhist with
    | @full _ rows' =>
      refine ⟨rows', World.mem_history.mp ?_⟩
      rw [hhistory]
      simp
    | @delta _ base rows' =>
      refine ⟨rows', World.mem_history.mp ?_⟩
      rw [hhistory]
      simp
  obtain rfl := findRevoked_unique hreach hread (hsub hread')
  obtain ⟨pre, between, hsplit⟩ := List.append_of_mem hread'
  rw [hsplit] at hmade
  rcases List.mem_append.mp hmade with hmade | hmade
  · -- the other CRL was stored before the read: what it lists was revoked then
    obtain ⟨before, t', rfl, hat'⟩ := query_at hat.reach hsplit
    obtain ⟨c, hc, hserial⟩ :=
      revoked_of_mem_serials hat'.reach ⟨r, hmade, happlied⟩ hfull hserial
    obtain ⟨now, s, hrun⟩ := hat'.run _ rfl
    obtain ⟨rfl, -⟩ := Prod.mk.inj (Except.ok.inj hrun)
    exact ⟨c, hca ▸ hc, hserial⟩
  · rcases List.mem_cons.mp hmade with heq | hmade
    · obtain ⟨-, hcall, -⟩ := Event.call.inj heq
      cases hcall
    · exact hat.admitted i caId number rows pre between rfl hsplit j crl₀ ⟨r, hmade, happlied⟩ hca
        hfull serial hserial

/-- **CRLs only grow** when no full CRL that lists more is stored between the reads of a
generation. -/
theorem crl_monotone (env : Env) (cfg : CaConfig)
    (hreach : (system env).Reach NoneListsMore (System.initial {}) cfg) :
    CrlMonotone cfg.world.store := by
  have hserials (caId : Uuid) (m : Crl) (hm : m ∈ cfg.world.store.fullCrls caId) (n : Crl)
      (hn : n ∈ cfg.world.store.fullCrls caId) (hlt : m.crlNumber < n.crlNumber) :
      m.serials ⊆ n.serials := by
    intro serial hserial
    obtain ⟨hmem, hca, hfull⟩ := mem_fullCrls.mp hn
    obtain ⟨i, n₀, hran, rfl⟩ := crl_ran hreach hmem
    obtain ⟨rows, hread, -, htaken⟩ := full_of_ran hreach hran hfull
    refine (mem_serials_of_read hreach hran hfull hread).mpr ?_
    rw [show n₀.caId = caId from hca] at hread htaken
    exact read_of_number_lt hreach htaken hread hm hlt hserial
  refine ⟨crlNumbers_nodup hreach, hserials, fun caId now latest s' hrun m hm => ?_⟩
  have hfind := (Prod.mk.inj (Except.ok.inj hrun)).1
  have hlatest := List.mem_of_find?_eq_some hfind
  have hle : m.crlNumber ≤ latest.crlNumber := by
    have hall := List.find?_some hfind
    exact of_decide_eq_true (List.all_eq_true.mp hall m hm)
  rcases lt_or_eq_of_le hle with hlt | heq
  · exact hserials caId m hm latest hlatest hlt
  · obtain ⟨hm, hmCa, -⟩ := mem_fullCrls.mp hm
    obtain ⟨hl, hlCa, -⟩ := mem_fullCrls.mp hlatest
    rw [(reach_unique hreach).crls m hm latest hl (Prod.ext (hmCa.trans hlCa.symm) heq)]
    exact List.Subset.refl _

/-! ### Runs -/

open Instance

/-- A later full CRL of the CA lists less than an earlier one. -/
def drops (s : Store) (caId : Uuid) : Bool :=
  (s.fullCrls caId).any fun m => (s.fullCrls caId).any fun n =>
    decide (m.crlNumber < n.crlNumber) && m.serials.any fun serial => !n.serials.contains serial

theorem not_crlMonotone_of_drops {s : Store} {caId : Uuid} (h : drops s caId = true) :
    ¬CrlMonotone s := by
  intro hmono
  obtain ⟨m, hm, h⟩ := List.any_eq_true.mp h
  obtain ⟨n, hn, h⟩ := List.any_eq_true.mp h
  obtain ⟨hlt, h⟩ := Bool.and_eq_true_iff.mp h
  obtain ⟨serial, hserial, h⟩ := List.any_eq_true.mp h
  have hin := hmono.serials caId m hm n hn (of_decide_eq_true hlt) hserial
  simp [hin] at h

/-- Two full CRLs: the first to read is the last to take a number, and a certificate is revoked
after its read. -/
def overlappingCrls : List (Action Task Choice) :=
  .arrive (.storeCertificate (cert 5)) :: steps 0 0 2 1
    ++ .arrive (.generateCrl (uuid 1)) :: go 1 0 5
    :: .arrive (.revoke (uuid 5) 1) :: steps 2 0 4 10
    ++ .arrive (.generateCrl (uuid 1)) :: steps 3 0 7 20 ++ steps 1 0 6 30

/-- **A CRL that drops a published revocation.** -/
theorem crl_drops_revocation :
    ¬∀ cfg, (system (authority true)).Reach (fun _ _ => True) (System.initial {}) cfg →
      CrlMonotone cfg.world.store := by
  intro h
  have hrun : ((system (authority true)).run (fun _ _ => true) overlappingCrls
      (System.initial {})).map (fun cfg => drops cfg.world.store (uuid 1)) = some true := by
    decide +kernel
  obtain ⟨cfg, hcfg, hdrops⟩ := Option.map_eq_some_iff.mp hrun
  exact not_crlMonotone_of_drops hdrops
    (h cfg (System.reach_of_run (fun _ _ _ => trivial) _ hcfg))

/-- The event stores a CRL. -/
def isCreateCrl : CaEvent → Bool
  | .call _ (.db (.createCrl _)) _ => true
  | _ => false

/-- `NoneListsMore` as a check: no CRL was stored since the read. -/
def noneListsMore (w : CaWorld) : CaEvent → Bool
  | .call i (.db (.nextCrlNumber _)) (.ok _) => (List.range w.log.length).all fun n =>
    match w.log[n]? with
    | some (.call j (.db (.findRevoked _)) _) => j ≠ i || !(w.log.drop (n + 1)).any isCreateCrl
    | _ => true
  | _ => true

theorem noneListsMore_sound (w : CaWorld) (ev : CaEvent) (h : noneListsMore w ev = true) :
    NoneListsMore w ev := by
  rintro i caId number rows pre post rfl hlog j crl ⟨r, hstored, -⟩ - - serial -
  have hlt : pre.length < w.log.length := by
    rw [hlog, List.length_append, List.length_cons]
    omega
  have hn := List.all_eq_true.mp h pre.length (List.mem_range.mpr hlt)
  have hdrop : w.log.drop (pre.length + 1) = post := by
    rw [hlog, ← List.drop_drop, List.drop_left, List.drop_one, List.tail_cons]
  rw [hdrop, hlog, List.getElem?_append_right le_rfl, Nat.sub_self] at hn
  have hnone : post.any isCreateCrl = false := by simpa using hn
  rw [List.any_eq_true.mpr ⟨_, hstored, rfl⟩] at hnone
  cases hnone

/-- Two full CRLs, one after the other, with a revocation before the first. -/
theorem crl_monotone_two_crls :
    ∃ cfg, (system (authority true)).Reach NoneListsMore (System.initial {}) cfg ∧
      ((cfg.world.store.fullCrls (uuid 1)).map fun crl => (crl.crlNumber, crl.serials))
        = [(1, [[5]]), (2, [[5]])] ∧ CrlMonotone cfg.world.store := by
  have hrun : ((system (authority true)).run noneListsMore
      (.arrive (.storeCertificate (cert 5)) :: steps 0 0 2 1
        ++ .arrive (.revoke (uuid 5) 1) :: steps 1 0 4 10
        ++ .arrive (.generateCrl (uuid 1)) :: steps 2 0 7 20
        ++ .arrive (.generateCrl (uuid 1)) :: steps 3 0 7 30) (System.initial {})).map
      (fun cfg => (cfg.world.store.fullCrls (uuid 1)).map fun crl => (crl.crlNumber, crl.serials))
        = some [(1, [[5]]), (2, [[5]])] := by
    decide +kernel
  obtain ⟨cfg, hcfg, hcrls⟩ := Option.map_eq_some_iff.mp hrun
  have hreach := System.reach_of_run noneListsMore_sound _ hcfg
  exact ⟨cfg, hreach, hcrls, crl_monotone _ cfg hreach⟩

end Ostrich.Ca
