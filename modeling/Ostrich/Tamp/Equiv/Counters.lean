import Ostrich.Tamp.Equiv.Manager
import Ostrich.Tamp.Instance

/-!
# Sequence numbers

The counter of a target and a signer is advanced by the messages that are issued and by those that
are ingested.

* `counted_reach`: in every run the numbers of a target and a signer increase strictly, so that
  none is taken twice;
* `found_unique`: a target has one id, whoever looks for it;
* `issued_increase`: the numbers of the messages of one signer to one target are never used twice,
  and they increase.
-/

namespace Ostrich.Tamp

open Interleave Table

/-! ### The counter in the store -/

section

variable {s s' : Store} {targetId : Uuid} {signerKeyId : List UInt8}

theorem lastSeq_setSeq (s : Store) (id targetId : Uuid) (ski signerKeyId : List UInt8) (n : ℤ) :
    (s.setSeq id ski n).lastSeq targetId signerKeyId =
      if (id, ski) = (targetId, signerKeyId) then some n else s.lastSeq targetId signerKeyId := by
  unfold Store.lastSeq Store.setSeq
  rw [Keyed.get_put]
  show Option.map _ (if (id, ski) = (targetId, signerKeyId) then _ else _) = _
  split_ifs
  · rfl
  · rfl

/-- Setting a counter to a greater number. -/
theorem lastSeq_setSeq_le {id : Uuid} {ski : List UInt8} {n last : ℤ}
    (hgreater : ∀ last, s.lastSeq id ski = some last → last < n)
    (h : s.lastSeq targetId signerKeyId = some last) :
    ∃ last', (s.setSeq id ski n).lastSeq targetId signerKeyId = some last' ∧ last ≤ last' := by
  rw [lastSeq_setSeq]
  by_cases hkey : (id, ski) = (targetId, signerKeyId)
  · obtain ⟨rfl, rfl⟩ := Prod.mk.inj hkey
    rw [if_pos rfl]
    exact ⟨n, rfl, (hgreater last h).le⟩
  · rw [if_neg hkey]
    exact ⟨last, h, le_rfl⟩

/-- A write changes trust anchors only. -/
theorem applyOneWrite_frame {id : Uuid} {w : TrustAnchorWrite}
    (h : applyOneWrite id s w = .ok s') : s' = { s with trustAnchors := s'.trustAnchors } := by
  cases w with
  | Insert spki keyId title isApex taDer =>
    obtain ⟨kept, -, hinsert⟩ := applyOneWrite_insert_eq_ok.mp h
    obtain ⟨-, -, _, -, rfl⟩ := insertAnchor_eq_ok.mp hinsert
    rfl
  | Remove spki =>
    obtain rfl := Except.ok.inj h
    rfl
  | Update spki taDer =>
    obtain rfl := Except.ok.inj h
    rfl

/-- **The frame of the writes**: they change trust anchors and communities only. -/
theorem Effect.frame {q : Query} (h : Effect s q s') (hq : q.writes = true) :
    s' = { s with trustAnchors := s'.trustAnchors, communities := s'.communities } := by
  cases h with
  | same => rfl
  | written hw =>
    refine applyTrustAnchorWrites_keeps (P := fun s' => s' = { s with
      trustAnchors := s'.trustAnchors, communities := s'.communities })
      (fun w _ s₁ s₂ h₁ hw => ?_) rfl hw
    rw [applyOneWrite_frame hw, h₁]
  | community hc => rw [applyCommunityUpdate_keeps hc]
  | apex hw =>
    unfold applyApexUpdate at hw
    rw [applyOneWrite_frame hw]
    split_ifs <;> rfl
  | _ => cases hq

/-- **No query takes a counter back.** -/
theorem Effect.lastSeq_le {q : Query} (h : Effect s q s') {last : ℤ}
    (hlast : s.lastSeq targetId signerKeyId = some last) :
    ∃ last', s'.lastSeq targetId signerKeyId = some last' ∧ last ≤ last' := by
  have hsame (heq : s'.sequenceNumbers = s.sequenceNumbers) :
      ∃ last', s'.lastSeq targetId signerKeyId = some last' ∧ last ≤ last' := by
    refine ⟨last, ?_, le_rfl⟩
    unfold Store.lastSeq at hlast ⊢
    rw [heq]
    exact hlast
  cases q with
  | checkAndAdvanceSeq id ski n =>
    cases h with
    | same => exact hsame rfl
    | checked hgreater => exact lastSeq_setSeq_le hgreater hlast
  | allocateNextSeq id ski =>
    cases h with
    | same => exact hsame rfl
    | allocated hgreater => exact lastSeq_setSeq_le hgreater hlast
  | applyTrustAnchorWrites =>
    refine hsame ?_
    rw [h.frame rfl]
  | applyCommunityUpdate =>
    refine hsame ?_
    rw [h.frame rfl]
  | applyApexUpdate =>
    refine hsame ?_
    rw [h.frame rfl]
  | _ => cases h <;> exact hsame rfl

end

/-! ### Numbers in a log -/

/-- The event advances the counter of a target and a signer to a number. -/
inductive Advances : TampEvent → Uuid → List UInt8 → ℤ → Prop
  | checked {i : ℕ} {id : Uuid} {ski : List UInt8} {n : ℤ} :
    Advances (.call i (.db (.checkAndAdvanceSeq id ski n)) (.ok true)) id ski n
  | allocated {i : ℕ} {id : Uuid} {ski : List UInt8} {n : ℤ} :
    Advances (.call i (.db (.allocateNextSeq id ski)) (.ok n)) id ski n

/-- An advance is to a greater number, which the counter then has. -/
theorem advances_exec {i : ℕ} {e : Call} {c : Choice} {s : Store} {id : Uuid} {ski : List UInt8}
    {n : ℤ} (h : Advances (.call i e (exec e c s).1) id ski n) :
    (∀ last, s.lastSeq id ski = some last → last < n) ∧
      (exec e c s).2.lastSeq id ski = some n := by
  have hset (s : Store) : (s.setSeq id ski n).lastSeq id ski = some n := by
    rw [lastSeq_setSeq, if_pos rfl]
  generalize hr : (exec e c s).1 = r at h
  cases h with
  | checked =>
    have hrun := run_of_exec hr
    have hstore : ((Query.checkAndAdvanceSeq id ski n).exec c.fault s).2 =
        (exec (.db (.checkAndAdvanceSeq id ski n)) c s).2 := rfl
    rw [← hstore]
    unfold Query.run at hrun
    dsimp only at hrun
    cases hlast : s.lastSeq id ski with
    | some last =>
      rw [hlast] at hrun
      dsimp only at hrun
      split_ifs at hrun with hle
      · cases (Prod.mk.inj (Except.ok.inj hrun)).1
      · rw [← (Prod.mk.inj (Except.ok.inj hrun)).2]
        refine ⟨fun last' hlast' => ?_, hset s⟩
        obtain rfl := Option.some.inj hlast'
        omega
    | none =>
      rw [hlast] at hrun
      rw [← (Prod.mk.inj (Except.ok.inj (referring_eq_ok.mp hrun).2)).2]
      refine ⟨fun _ h => ?_, hset s⟩
      cases h
  | allocated =>
    have hrun := run_of_exec hr
    have hstore : ((Query.allocateNextSeq id ski).exec c.fault s).2 =
        (exec (.db (.allocateNextSeq id ski)) c s).2 := rfl
    rw [← hstore]
    unfold Query.run at hrun
    dsimp only at hrun
    cases hlast : s.lastSeq id ski with
    | some last =>
      rw [hlast] at hrun
      dsimp only at hrun
      split_ifs at hrun
      obtain ⟨hn, hs⟩ := Prod.mk.inj (Except.ok.inj hrun)
      rw [← hs, hn]
      refine ⟨fun last' hlast' => ?_, hset s⟩
      obtain rfl := Option.some.inj hlast'
      have hn : last + 1 = n := hn
      omega
    | none =>
      rw [hlast] at hrun
      obtain ⟨hn, hs⟩ := Prod.mk.inj (Except.ok.inj (referring_eq_ok.mp hrun).2)
      have hn : (1 : ℤ) = n := hn
      rw [← hs, hn]
      refine ⟨fun _ h => ?_, hset s⟩
      cases h

/-- The numbers of the log are below the counters, and they increase. -/
structure Counted (w : TampWorld) : Prop where
  below : ∀ ev ∈ w.log, ∀ id ski n, Advances ev id ski n →
    ∃ last, w.store.lastSeq id ski = some last ∧ n ≤ last
  increase : w.log.Pairwise fun ev ev' => ∀ id ski n n', Advances ev id ski n →
    Advances ev' id ski n' → n < n'

theorem exec_lastSeq_le (e : Call) (c : Choice) {s : Store} {id : Uuid} {ski : List UInt8}
    {last : ℤ} (h : s.lastSeq id ski = some last) :
    ∃ last', (exec e c s).2.lastSeq id ski = some last' ∧ last ≤ last' := by
  cases e with
  | db q => exact (exec_effect q c.fault s).lastSeq_le h
  | newUuid => exact ⟨last, h, le_rfl⟩
  | sign => exact ⟨last, h, le_rfl⟩
  | audit => exact ⟨last, h, le_rfl⟩

/-- Events that are no calls advance nothing. -/
theorem Counted.add {w : TampWorld} (h : Counted w) {ev : TampEvent}
    (hev : ∀ i e r, ev ≠ .call i e r) : Counted (w.add [ev]) := by
  have hno {id : Uuid} {ski : List UInt8} {n : ℤ} : ¬Advances ev id ski n := by
    intro hadvances
    cases hadvances
    · exact hev _ _ _ rfl
    · exact hev _ _ _ rfl
  constructor
  · intro ev' hev' id ski n hadvances
    rcases List.mem_append.mp hev' with hold | hnew
    · exact h.below ev' hold id ski n hadvances
    · rw [List.mem_singleton.mp hnew] at hadvances
      exact absurd hadvances hno
  · refine List.pairwise_append.mpr ⟨h.increase, List.pairwise_singleton _ _, ?_⟩
    intro ev' _ ev'' hev'' id ski n n' _ hadvances
    rw [List.mem_singleton.mp hev''] at hadvances
    exact absurd hadvances hno

/-- One more call. -/
theorem Counted.call {w : TampWorld} (h : Counted w) (i : ℕ) (e : Call) (c : Choice) :
    Counted ⟨(exec e c w.store).2, w.log ++ [.call i e (exec e c w.store).1]⟩ := by
  constructor
  · intro ev hev id ski n hadvances
    rcases List.mem_append.mp hev with hold | hnew
    · obtain ⟨last, hlast, hle⟩ := h.below ev hold id ski n hadvances
      obtain ⟨last', hlast', hle'⟩ := exec_lastSeq_le e c hlast
      exact ⟨last', hlast', hle.trans hle'⟩
    · rw [List.mem_singleton.mp hnew] at hadvances
      exact ⟨n, (advances_exec hadvances).2, le_rfl⟩
  · refine List.pairwise_append.mpr ⟨h.increase, List.pairwise_singleton _ _, ?_⟩
    intro ev hev ev' hev' id ski n n' hadvances hadvances'
    rw [List.mem_singleton.mp hev'] at hadvances'
    -- the old number is at most the counter, which is below the new one
    obtain ⟨last, hlast, hle⟩ := h.below ev hev id ski n hadvances
    exact lt_of_le_of_lt hle ((advances_exec hadvances').1 last hlast)

theorem counted_reach (env : Env) {allowed : TampWorld → TampEvent → Prop} {store : Store}
    {cfg : TampState} (hreach : (system env).Reach allowed (System.initial store) cfg) :
    Counted cfg.world := by
  have hinit : Counted (System.initial store : TampState).world :=
    ⟨fun _ hev => absurd hev List.not_mem_nil, List.Pairwise.nil⟩
  have hJ : (system env).Preserves (spec env) allowed (fun _ => True) Counted :=
    .of_call (fun w ev hev h => h.add hev) fun {w i n t e c} _ _ h _ _ _ => h.call i e c
  exact (hJ.reach (meets env) hinit hreach).2

/-- Two advances of a counter to one number are one. -/
theorem Counted.eq_of_advances {w : TampWorld} (h : Counted w) {ev ev' : TampEvent} {id : Uuid}
    {ski : List UInt8} {n : ℤ} (hev : ev ∈ w.log) (hev' : ev' ∈ w.log)
    (hadvances : Advances ev id ski n) (hadvances' : Advances ev' id ski n) : ev = ev' := by
  by_contra hne
  set before : TampEvent → TampEvent → Prop := fun ev ev' =>
    ∀ id ski n n', Advances ev id ski n → Advances ev' id ski n' → n < n'
  have hsymm : Std.Symm fun ev ev' => before ev ev' ∨ before ev' ev := ⟨fun _ _ h => h.symm⟩
  have hboth : w.log.Pairwise fun ev ev' => before ev ev' ∨ before ev' ev :=
    h.increase.imp fun hlt => .inl hlt
  rcases hboth.forall hev hev' hne with hlt | hlt
  · exact lt_irrefl n (hlt id ski n n hadvances hadvances')
  · exact lt_irrefl n (hlt id ski n n hadvances' hadvances)

/-! ### Targets -/

section

variable {s s' : Store} {targetDer : List UInt8}

/-- The row of a target stays. -/
theorem Effect.target_get {q : Query} (h : Effect s q s') {row : TampTargetRow}
    (hrow : s.targets.get targetDer = some row) : s'.targets.get targetDer = some row := by
  cases q with
  | insertTarget id label der usesApex =>
    cases h with
    | same => exact hrow
    | target hnew _ =>
      show (s.targets.put _).get targetDer = some row
      rw [Keyed.get_put, if_neg]
      · exact hrow
      · rintro rfl
        rw [hrow] at hnew
        cases hnew
  | applyTrustAnchorWrites =>
    rw [h.frame rfl]
    exact hrow
  | applyCommunityUpdate =>
    rw [h.frame rfl]
    exact hrow
  | applyApexUpdate =>
    rw [h.frame rfl]
    exact hrow
  | _ => cases h <;> exact hrow

/-- The target has this id in the store. -/
def HasId (s : Store) (targetDer : List UInt8) (id : Uuid) : Prop :=
  ∃ row, s.targets.get targetDer = some row ∧ row.id = id

/-- The event tells the id of a target. -/
inductive Tells : TampEvent → List UInt8 → Uuid → Prop
  | read {i : ℕ} {targetDer : List UInt8} {row : TampTargetRow} :
    Tells (.call i (.db (.findTargetByDer targetDer)) (.ok (some row))) targetDer row.id
  | inserted {i : ℕ} {new id : Uuid} {label : String} {targetDer : List UInt8} {apex : Bool} :
    Tells (.call i (.db (.insertTarget new label targetDer apex)) (.ok id)) targetDer id

/-- What is told is so. -/
theorem tells_exec {i : ℕ} {e : Call} {c : Choice} {id : Uuid}
    (h : Tells (.call i e (exec e c s).1) targetDer id) : HasId (exec e c s).2 targetDer id := by
  generalize hr : (exec e c s).1 = r at h
  cases h with
  | read =>
    rename_i row
    have hrun := run_of_exec hr
    obtain ⟨hrow, hs⟩ := Prod.mk.inj (Except.ok.inj hrun)
    refine ⟨row, ?_, rfl⟩
    show ((Query.findTargetByDer targetDer).exec c.fault s).2.targets.get targetDer = some row
    rw [← hs]
    exact hrow
  | inserted =>
    rename_i new label apex
    have hrun : insertTarget new label targetDer apex s = _ := run_of_exec hr
    show HasId ((Query.insertTarget new label targetDer apex).exec c.fault s).2 targetDer id
    generalize ((Query.insertTarget new label targetDer apex).exec c.fault s).2 = s' at hrun ⊢
    unfold insertTarget at hrun
    cases hlabel : varchar 255 label with
    | none =>
      rw [hlabel] at hrun
      cases hrun
    | some kept =>
      rw [hlabel] at hrun
      cases hget : s.targets.get targetDer with
      | some row =>
        rw [hget] at hrun
        obtain ⟨hid, rfl⟩ := Prod.mk.inj (Except.ok.inj hrun)
        exact ⟨row, hget, hid⟩
      | none =>
        rw [hget] at hrun
        dsimp only at hrun
        split_ifs at hrun
        obtain ⟨hid, rfl⟩ := Prod.mk.inj (Except.ok.inj hrun)
        have hid : new = id := hid
        subst hid
        refine ⟨⟨new, kept, targetDer, apex⟩, ?_, rfl⟩
        show (s.targets.put _).get targetDer = _
        rw [Keyed.get_put, if_pos rfl]

theorem HasId.exec {id : Uuid} (h : HasId s targetDer id) (e : Call) (c : Choice) :
    HasId (exec e c s).2 targetDer id := by
  obtain ⟨row, hrow, hid⟩ := h
  cases e with
  | db q => exact ⟨row, (exec_effect q c.fault s).target_get hrow, hid⟩
  | newUuid => exact ⟨row, hrow, hid⟩
  | sign => exact ⟨row, hrow, hid⟩
  | audit => exact ⟨row, hrow, hid⟩

end

/-- What was told of targets is so. -/
theorem told_reach (env : Env) {allowed : TampWorld → TampEvent → Prop} {store : Store}
    {cfg : TampState} (hreach : (system env).Reach allowed (System.initial store) cfg)
    {ev : TampEvent} (hev : ev ∈ cfg.world.log) {targetDer : List UInt8} {id : Uuid}
    (h : Tells ev targetDer id) : HasId cfg.world.store targetDer id := by
  have hother {w : TampWorld} {ev' : TampEvent} (hev' : ∀ i e r, ev' ≠ .call i e r)
      (hold : ∀ ev ∈ w.log, ∀ {targetDer id}, Tells ev targetDer id → HasId w.store targetDer id) :
      ∀ ev ∈ (w.add [ev']).log, ∀ {targetDer id}, Tells ev targetDer id →
        HasId (w.add [ev']).store targetDer id := by
    intro ev hev targetDer id htells
    rcases List.mem_append.mp hev with hmem | hmem
    · exact hold ev hmem htells
    · rw [List.mem_singleton.mp hmem] at htells
      cases htells
      · exact absurd rfl (hev' _ _ _)
      · exact absurd rfl (hev' _ _ _)
  have hJ : (system env).Preserves (spec env) allowed (fun _ => True) fun w => ∀ ev ∈ w.log,
      ∀ {targetDer id}, Tells ev targetDer id → HasId w.store targetDer id := by
    refine .of_call (fun w ev hev h => hother hev h) fun {w i n t e c} _ _ h _ _ _ => ?_
    intro ev hev targetDer id htells
    rcases List.mem_append.mp hev with hmem | hmem
    · exact (h ev hmem htells).exec e c
    · obtain rfl := List.mem_singleton.mp hmem
      exact tells_exec htells
  exact (hJ.reach (meets env) (fun _ h => absurd h List.not_mem_nil) hreach).2 ev hev h

/-- **A target has one id**, whoever looked for it. -/
theorem found_unique (env : Env) {allowed : TampWorld → TampEvent → Prop} {store : Store}
    {cfg : TampState} (hreach : (system env).Reach allowed (System.initial store) cfg)
    {targetDer : List UInt8} {i j : ℕ} {id id' : Uuid}
    (h : Found targetDer id (cfg.world.history i))
    (h' : Found targetDer id' (cfg.world.history j)) : id = id' := by
  have hid {i : ℕ} {id : Uuid} (h : Found targetDer id (cfg.world.history i)) :
      HasId cfg.world.store targetDer id := by
    rcases h with ⟨row, rfl, hread⟩ | ⟨new, label, hinsert⟩
    · exact told_reach env hreach (World.mem_history.mp hread) .read
    · exact told_reach env hreach (World.mem_history.mp hinsert) .inserted
  obtain ⟨row, hrow, rfl⟩ := hid h
  obtain ⟨row', hrow', rfl⟩ := hid h'
  rw [hrow] at hrow'
  rw [Option.some.inj hrow']

/-! ### Numbers of issued messages -/

/-- The counters are between zero and the greatest BIGINT. -/
def BigintNumbers (s : Store) : Prop :=
  ∀ id ski last, s.lastSeq id ski = some last → 0 ≤ last ∧ last ≤ maxBigint

theorem BigintNumbers.setSeq {s : Store} (h : BigintNumbers s) {id : Uuid} {ski : List UInt8}
    {n : ℤ} (hn : 0 ≤ n ∧ n ≤ maxBigint) : BigintNumbers (s.setSeq id ski n) := by
  intro id' ski' last hlast
  rw [lastSeq_setSeq] at hlast
  split_ifs at hlast
  · rw [← Option.some.inj hlast]
    exact hn
  · exact h id' ski' last hlast

theorem BigintNumbers.of_eq {s s' : Store} (h : BigintNumbers s)
    (heq : s'.sequenceNumbers = s.sequenceNumbers) : BigintNumbers s' := by
  intro id ski last hlast
  unfold Store.lastSeq at hlast
  rw [heq] at hlast
  exact h id ski last hlast

/-- **A call that a task makes keeps the counters in their range.** -/
theorem BigintNumbers.exec {env : Env} {t : Task} {h : Trace} {e : Call} {s : Store}
    (hs : BigintNumbers s) (hcalls : Admitted env t h e) (c : Choice) :
    BigintNumbers (exec e c s).2 := by
  cases e with
  | newUuid => exact hs
  | sign => exact hs
  | audit => exact hs
  | db q =>
    show BigintNumbers (q.exec c.fault s).2
    rcases exec_store q c.fault s with heq | ⟨a, s', hrun, heq⟩
    · rw [heq]
      exact hs
    · rw [heq]
      cases q with
      | checkAndAdvanceSeq id ski n =>
        have hn : 0 ≤ n ∧ n ≤ maxBigint := hcalls.2
        unfold Query.run at hrun
        dsimp only at hrun
        cases hlast : s.lastSeq id ski with
        | some last =>
          rw [hlast] at hrun
          dsimp only at hrun
          split_ifs at hrun with hle
          · rw [← (Prod.mk.inj (Except.ok.inj hrun)).2]
            exact hs
          · rw [← (Prod.mk.inj (Except.ok.inj hrun)).2]
            exact hs.setSeq hn
        | none =>
          rw [hlast] at hrun
          rw [← (Prod.mk.inj (Except.ok.inj (referring_eq_ok.mp hrun).2)).2]
          exact hs.setSeq hn
      | allocateNextSeq id ski =>
        unfold Query.run at hrun
        dsimp only at hrun
        cases hlast : s.lastSeq id ski with
        | some last =>
          rw [hlast] at hrun
          dsimp only at hrun
          split_ifs at hrun with hmax
          rw [← (Prod.mk.inj (Except.ok.inj hrun)).2]
          obtain ⟨hlow, hhigh⟩ := hs id ski last hlast
          exact hs.setSeq ⟨by omega, by omega⟩
        | none =>
          rw [hlast] at hrun
          rw [← (Prod.mk.inj (Except.ok.inj (referring_eq_ok.mp hrun).2)).2]
          exact hs.setSeq ⟨by decide, by decide⟩
      | applyTrustAnchorWrites =>
        refine hs.of_eq ?_
        rw [(run_effect hrun).frame rfl]
      | applyCommunityUpdate =>
        refine hs.of_eq ?_
        rw [(run_effect hrun).frame rfl]
      | applyApexUpdate =>
        refine hs.of_eq ?_
        rw [(run_effect hrun).frame rfl]
      | _ => cases run_effect hrun <;> exact hs.of_eq rfl

/-- The counters, and the numbers they were advanced to, are in their range. -/
structure InBigint (w : TampWorld) : Prop where
  store : BigintNumbers w.store
  advances : ∀ ev ∈ w.log, ∀ id ski n, Advances ev id ski n → 0 ≤ n ∧ n ≤ maxBigint

theorem inBigint_reach (env : Env) {allowed : TampWorld → TampEvent → Prop} {store : Store}
    (hstore : BigintNumbers store) {cfg : TampState}
    (hreach : (system env).Reach allowed (System.initial store) cfg) : InBigint cfg.world := by
  have hinit : InBigint (System.initial store : TampState).world :=
    ⟨hstore, fun _ hev => absurd hev List.not_mem_nil⟩
  have hJ : (system env).Preserves (spec env) allowed (fun _ => True) InBigint := by
    refine .of_call (fun w ev hev h => ⟨h.store, fun ev' hev' id ski n hadvances => ?_⟩)
      fun {w i n t e c} _ _ h _ hcalls _ => ?_
    · rcases List.mem_append.mp hev' with hold | hnew
      · exact h.advances ev' hold id ski n hadvances
      · rw [List.mem_singleton.mp hnew] at hadvances
        cases hadvances
        · exact absurd rfl (hev _ _ _)
        · exact absurd rfl (hev _ _ _)
    · have hstore' : BigintNumbers (Tamp.exec e c w.store).2 := h.store.exec hcalls c
      refine ⟨hstore', fun ev' hev' id ski m hadvances => ?_⟩
      rcases List.mem_append.mp hev' with hold | hnew
      · exact h.advances ev' hold id ski m hadvances
      · rw [List.mem_singleton.mp hnew] at hadvances
        -- the counter now has the number it was advanced to
        exact hstore' id ski m (advances_exec hadvances).2
  exact (hJ.reach (meets env) hinit hreach).2

theorem asU64_of_bigint {n : ℤ} (h : 0 ≤ n ∧ n ≤ maxBigint) : asU64 n = n.toNat := by
  unfold maxBigint at h
  unfold asU64
  rw [Int.emod_eq_of_lt h.1 (by omega)]

/-- The number of an issued message was allocated by its task. -/
theorem allocated_of_issued {env : Env} {allowed : TampWorld → TampEvent → Prop} {store : Store}
    (hstore : BigintNumbers store) {cfg : TampState}
    (hreach : (system env).Reach allowed (System.initial store) cfg) {i : ℕ} {t : Task}
    {m : IssuedMessage} (hfinish : .finish i (.ok (.issued m)) ∈ cfg.world.log)
    (hstarted : cfg.world.Started i t) :
    ∃ targetDer id signer, env.targetToDer t.target = .ok targetDer ∧
      Found targetDer id (cfg.world.history i) ∧ t.signer = some signer ∧
      .call i (.db (.allocateNextSeq id signer.ski)) (.ok (m.seqNum : ℤ)) ∈ cfg.world.log := by
  obtain ⟨t', hstarted', id, draft, hissued⟩ := hreach.finished (meets env) hfinish
  obtain rfl := (hreach.wf (meets env)).started_unique hstarted hstarted'
  obtain ⟨targetDer, hder, hfound⟩ := hissued.located
  obtain ⟨signer, next, hsigner, hreplied, hn⟩ := hissued.numbered
  have hmem := World.mem_history.mp hreplied
  obtain hrange := (inBigint_reach env hstore hreach).advances _ hmem id signer.ski next .allocated
  have hnext : (m.seqNum : ℤ) = next := by
    rw [hn, asU64_of_bigint hrange, Int.toNat_of_nonneg hrange.1]
  exact ⟨targetDer, id, signer, hder, hfound, hsigner, hnext ▸ hmem⟩

/-- **The numbers of the messages of one signer to one target are never used twice, and they
increase**: a call that starts after a message was issued issues one with a greater number. -/
theorem issued_increase {env : Env} {allowed : TampWorld → TampEvent → Prop} {store : Store}
    (hstore : BigintNumbers store) {cfg cfg' : TampState}
    (hreach : (system env).Reach allowed (System.initial store) cfg)
    (hlater : (system env).Reach allowed cfg cfg') {i j : ℕ} {t t' : Task} {m m' : IssuedMessage}
    (hfinish : .finish i (.ok (.issued m)) ∈ cfg.world.log)
    (hfinish' : .finish j (.ok (.issued m')) ∈ cfg'.world.log) (hstarted : cfg.world.Started i t)
    (hstarted' : cfg'.world.Started j t') (htarget : t.target = t'.target)
    (hsigner : t.signer.map (·.ski) = t'.signer.map (·.ski)) :
    (m.seqNum = m'.seqNum → i = j) ∧ (cfg.world.Fresh j → m.seqNum < m'.seqNum) := by
  have hreach' := hreach.trans hlater
  obtain ⟨parent, hstart⟩ := hstarted
  obtain ⟨targetDer, id, signer, hder, hfound, hski, hmem⟩ := allocated_of_issued hstore hreach
    hfinish ⟨parent, hstart⟩
  obtain ⟨targetDer', id', signer', hder', hfound', hski', hmem'⟩ :=
    allocated_of_issued hstore hreach' hfinish' hstarted'
  -- the two calls advanced the same counter
  rw [htarget, hder'] at hder
  obtain rfl := Except.ok.inj hder
  have hfoundLater : Found targetDer' id (cfg'.world.history i) := by
    rcases hfound with ⟨row, hid, hread⟩ | ⟨new, label, hinsert⟩
    · exact .inl ⟨row, hid, World.mem_history.mpr (hlater.mem_log (World.mem_history.mp hread))⟩
    · exact .inr ⟨new, label,
        World.mem_history.mpr (hlater.mem_log (World.mem_history.mp hinsert))⟩
  obtain rfl := found_unique env hreach' hfoundLater hfound'
  rw [hski, hski'] at hsigner
  have hsame : signer.ski = signer'.ski := Option.some.inj hsigner
  rw [hsame] at hmem
  have hcounted := counted_reach env hreach'
  constructor
  · intro heq
    rw [heq] at hmem
    have hevent := hcounted.eq_of_advances (hlater.mem_log hmem) hmem' .allocated .allocated
    injection hevent
  · intro hfresh
    obtain ⟨evs, hevs⟩ := hlater.log
    have hnew : .call j (.db (.allocateNextSeq id signer'.ski)) (.ok (m'.seqNum : ℤ)) ∈ evs := by
      rw [hevs] at hmem'
      exact (List.mem_append.mp hmem').resolve_left fun hold => hfresh _ hold rfl
    have hlt := List.pairwise_append.mp (hevs ▸ hcounted.increase)
    exact Int.ofNat_lt.mp (hlt.2.2 _ hmem _ hnew id signer'.ski _ _ .allocated .allocated)

/-! ### An instance -/

/-- An update of all modules that adds a trust anchor. -/
def addition (octet : UInt8) : Task :=
  .issueTrustAnchorUpdate .AllModules "all" signer [.Add (anchor octet)]

/-- What the event issues, with its task. -/
def issuedBy : TampEvent → Option (ℕ × IssuedMessage)
  | .finish i (.ok (.issued m)) => some (i, m)
  | _ => none

theorem mem_issuedBy {w : TampWorld} {i : ℕ} {m : IssuedMessage}
    (h : (i, m) ∈ w.log.filterMap issuedBy) : .finish i (.ok (.issued m)) ∈ w.log := by
  obtain ⟨ev, hmem, hev⟩ := List.mem_filterMap.mp h
  unfold issuedBy at hev
  split at hev
  · obtain ⟨rfl, rfl⟩ := Prod.mk.inj (Option.some.inj hev)
    exact hmem
  · cases hev

/-- The event starts an update of the signer, as a check. -/
def startsUpdate (i : ℕ) : TampEvent → Bool
  | .start j (.issueTrustAnchorUpdate target _ signer' _) _ =>
    j = i && target = .AllModules && signer' = signer
  | _ => false

theorem started_of_startsUpdate {w : TampWorld} {i : ℕ} (h : w.log.any (startsUpdate i) = true) :
    ∃ label edits, w.Started i (.issueTrustAnchorUpdate .AllModules label signer edits) := by
  obtain ⟨ev, hmem, hev⟩ := List.any_eq_true.mp h
  unfold startsUpdate at hev
  split at hev
  · rename_i j target label signer' edits parent
    simp only [Bool.and_eq_true, decide_eq_true_eq] at hev
    obtain ⟨⟨rfl, rfl⟩, rfl⟩ := hev
    exact ⟨label, edits, parent, hmem⟩
  · cases hev

/-- The task issued its update, and no later one has started, as a check. -/
def checkSent (i : ℕ) (w : TampWorld) : Bool :=
  w.log.any (startsUpdate i) && (w.log.filterMap issuedBy).any (fun x => x.1 = i) &&
    w.log.all fun ev => ev.task ≤ i

theorem sent_of_check {w : TampWorld} {i : ℕ} (h : checkSent i w = true) :
    (∃ m, .finish i (.ok (.issued m)) ∈ w.log) ∧
      (∃ label edits, w.Started i (.issueTrustAnchorUpdate .AllModules label signer edits)) ∧
      w.Fresh (i + 1) := by
  unfold checkSent at h
  rw [Bool.and_eq_true, Bool.and_eq_true] at h
  obtain ⟨⟨hstarts, hissued⟩, htasks⟩ := h
  refine ⟨?_, started_of_startsUpdate hstarts, fun ev hev => ?_⟩
  · obtain ⟨⟨j, m⟩, hmem, hj⟩ := List.any_eq_true.mp hissued
    obtain rfl : j = i := of_decide_eq_true hj
    exact ⟨m, mem_issuedBy hmem⟩
  · have hle : ev.task ≤ i := of_decide_eq_true (List.all_eq_true.mp htasks ev hev)
    omega

theorem check_twoAdditions : (((system (derEnv nothingKnown)).run (fun _ _ => true)
    (whole 0 (addition 7) 10) (System.initial {})).bind fun cfg =>
      ((system (derEnv nothingKnown)).run (fun _ _ => true) (whole 1 (addition 8) 8) cfg).map
        fun cfg' => checkSent 0 cfg.world && checkSent 1 cfg'.world) = some true := by
  decide +kernel

theorem bigintNumbers_empty : BigintNumbers {} := fun _ _ _ h => by cases h

/-- The second of two updates has the greater number. -/
theorem additions_increase : ∃ (cfg : TampState) (m m' : IssuedMessage),
    .finish 0 (.ok (.issued m)) ∈ cfg.world.log ∧ .finish 1 (.ok (.issued m')) ∈ cfg.world.log ∧
      m.seqNum < m'.seqNum := by
  obtain ⟨cfg, hcfg, hrest⟩ := Option.bind_eq_some_iff.mp check_twoAdditions
  obtain ⟨cfg', hcfg', hvalue⟩ := Option.map_eq_some_iff.mp hrest
  rw [Bool.and_eq_true] at hvalue
  obtain ⟨⟨m, hfinish⟩, ⟨_, _, hstarted⟩, hfresh⟩ := sent_of_check hvalue.1
  obtain ⟨⟨m', hfinish'⟩, ⟨_, _, hstarted'⟩, -⟩ := sent_of_check hvalue.2
  have hreach : (system (derEnv nothingKnown)).Reach (fun _ _ => True) (System.initial {}) cfg :=
    System.reach_of_run (fun _ _ _ => trivial) _ hcfg
  have hlater : (system (derEnv nothingKnown)).Reach (fun _ _ => True) cfg cfg' :=
    System.reach_of_run (fun _ _ _ => trivial) _ hcfg'
  exact ⟨cfg', m, m', hlater.mem_log hfinish, hfinish',
    (issued_increase bigintNumbers_empty hreach hlater hfinish hfinish' hstarted hstarted' rfl
      rfl).2 hfresh⟩

end Ostrich.Tamp
