import Ostrich.Lib.Alone
import Ostrich.Lib.EditList
import Ostrich.Tamp.Equiv.Anchors
import Ostrich.Tamp.Equiv.Counters

/-!
# Lists of edits

The edits of a `TAMPUpdate` are checked against the store as it is before all of them, and written
one after the other.

* `edits_iff`: a list is applied as a sequence, all or nothing, exactly if a list that is legal as a
  sequence passes these checks (and can be sent and stored), and a list that passes them and whose
  writes succeed changes no key after its removal;
* `replacement_refused`: a key that is removed and added again is refused, and one that is removed
  and changed is not.
-/

namespace Ostrich.Tamp

open Interleave Table EditList

/-! ### Writes as edits -/

/-- The title as it is stored. -/
def keptTitle (title : Option String) : Option String := (storedTitle title).toOption.getD title

/-- A write as an edit of the table of trust anchors. -/
def TrustAnchorWrite.edit (targetId : Uuid) :
    TrustAnchorWrite → Edit (Uuid × List UInt8) TampTrustAnchorRow
  | .Insert pubKeySpki keyId taTitle isApex taDer =>
    .add (targetId, pubKeySpki)
      { targetId, pubKeySpki, keyId, taTitle := keptTitle taTitle, isApex, taDer }
  | .Remove pubKeySpki => .remove (targetId, pubKeySpki)
  | .Update pubKeySpki taDer => .change (targetId, pubKeySpki) fun row => { row with taDer }

/-- The title fits its column. -/
def TrustAnchorWrite.Fits : TrustAnchorWrite → Prop
  | .Insert _ _ taTitle _ _ => ∃ kept, storedTitle taTitle = .ok kept
  | _ => True

/-- The writes add no apex. -/
def NoApex (writes : List TrustAnchorWrite) : Prop :=
  ∀ spki keyId title isApex taDer, .Insert spki keyId title isApex taDer ∈ writes → isApex = false

/-- The trust anchors by their keys. -/
abbrev Store.anchors (s : Store) : Uuid × List UInt8 → Option TampTrustAnchorRow :=
  s.trustAnchors.get

section

variable {s s' : Store} {targetId : Uuid}

theorem anchors_updateAnchor {key : Uuid × List UInt8} {taDer : List UInt8} (hs : s' =
    updateAnchor key taDer s) : s'.anchors =
      (Edit.change key fun row : TampTrustAnchorRow => { row with taDer }).write s.anchors := by
  ext1 k
  have hget : s'.anchors k =
      (s.anchors k).map fun row => if row.key = key then { row with taDer } else row := by
    subst hs
    have hkeeps (row : TampTrustAnchorRow) : { row with taDer }.key = row.key := rfl
    refine (@Keyed.get_modify _ _ _ _ _ _ hkeeps k s.trustAnchors).trans ?_
    simp only [decide_eq_true_eq]
  rw [hget]
  by_cases hkey : k = key
  · subst hkey
    refine Eq.trans ?_ (write_change ..).symm
    refine Option.map_congr fun row hrow => ?_
    rw [if_pos (Keyed.mem_of_get hrow).2]
  · rw [write_of_ne (e := .change key _) hkey]
    cases hrow : s.anchors k with
    | none => rfl
    | some row =>
      show some (if row.key = key then _ else row) = some row
      rw [if_neg]
      rw [(Keyed.mem_of_get hrow).2]
      exact hkey

theorem anchors_deleteAnchors {key : Uuid × List UInt8} (hs : s' =
    deleteAnchors (fun row => row.key = key) s) :
    s'.anchors = (Edit.remove key).write s.anchors := by
  ext1 k
  have hmem (row : TampTrustAnchorRow) :
      row ∈ s'.trustAnchors.rows ↔ row ∈ s.trustAnchors.rows ∧ row.key ≠ key := by
    subst hs
    unfold deleteAnchors Keyed.retain
    simp [List.mem_filter]
  by_cases hkey : k = key
  · subst hkey
    rw [write_remove]
    refine List.find?_eq_none.mpr fun row hrow => ?_
    rw [decide_eq_true_eq]
    exact ((hmem row).mp hrow).2
  · rw [write_of_ne (e := .remove key) hkey]
    cases hget : s.anchors k with
    | some row =>
      obtain ⟨hrow, rfl⟩ := Keyed.get_eq_some.mp hget
      exact Keyed.get_eq_some.mpr ⟨(hmem row).mpr ⟨hrow, hkey⟩, rfl⟩
    | none =>
      refine List.find?_eq_none.mpr fun row hrow => ?_
      rw [decide_eq_true_eq]
      exact Keyed.not_mem_of_get hget ((hmem row).mp hrow).1

theorem anchors_insertAnchor {row : TampTrustAnchorRow} (h : insertAnchor row s = .ok s') :
    s.anchors row.key = none ∧ s'.anchors = (Edit.add row.key row).write s.anchors := by
  obtain ⟨-, -, anchors, hrows, rfl⟩ := insertAnchor_eq_ok.mp h
  have hnot := (Keyed.rows_of_insert? hrows).1
  obtain rfl := Option.some.inj (hrows.symm.trans (Keyed.insert?_eq_put hnot))
  constructor
  · refine List.find?_eq_none.mpr fun row' hrow' => ?_
    rw [decide_eq_true_eq]
    exact fun heq => hnot (List.mem_map.mpr ⟨row', hrow', heq⟩)
  · ext1 k
    show (Keyed.put _ _).get k = _
    rw [Keyed.get_put]
    split_ifs with hkey
    · subst hkey
      exact (write_add ..).symm
    · rw [write_of_ne (e := .add row.key row) (Ne.symm hkey)]

/-- What one write does to the trust anchors. -/
theorem anchors_applyOneWrite {w : TrustAnchorWrite} (h : applyOneWrite targetId s w = .ok s') :
    s'.anchors = (w.edit targetId).write s.anchors := by
  cases w with
  | Insert spki keyId title isApex taDer =>
    obtain ⟨kept, htitle, hinsert⟩ := applyOneWrite_insert_eq_ok.mp h
    have hkept : keptTitle title = kept := by
      unfold keptTitle
      rw [htitle]
      rfl
    simp only [TrustAnchorWrite.edit, hkept]
    exact (anchors_insertAnchor hinsert).2
  | Remove spki => exact anchors_deleteAnchors (Except.ok.inj h).symm
  | Update spki taDer => exact anchors_updateAnchor (Except.ok.inj h).symm

/-- When one write succeeds. -/
theorem applyOneWrite_succeeds_iff (htarget : s.hasTarget targetId = true) {w : TrustAnchorWrite}
    (hplain : NoApex [w]) : (∃ s', applyOneWrite targetId s w = .ok s') ↔
      w.Fits ∧ ∀ key value, w.edit targetId = .add key value → s.anchors key = none := by
  cases w with
  | Insert spki keyId title isApex taDer =>
    obtain rfl := hplain _ _ _ _ _ (List.mem_singleton_self _)
    constructor
    · rintro ⟨s', h⟩
      obtain ⟨kept, htitle, hinsert⟩ := applyOneWrite_insert_eq_ok.mp h
      refine ⟨⟨kept, htitle⟩, fun key value heq => ?_⟩
      obtain ⟨rfl, -⟩ := Edit.add.inj heq
      exact (anchors_insertAnchor hinsert).1
    · rintro ⟨⟨kept, htitle⟩, hnone⟩
      have hnone := hnone _ _ rfl
      refine ⟨_, applyOneWrite_insert_eq_ok.mpr ⟨kept, htitle, insertAnchor_eq_ok.mpr
        ⟨fun h => Bool.noConfusion h, htarget, _, Keyed.insert?_eq_put fun hmem => ?_, rfl⟩⟩⟩
      obtain ⟨row, hrow, hkey⟩ := List.mem_map.mp hmem
      exact Keyed.not_mem_of_get hnone hrow hkey
  | Remove spki => exact ⟨fun _ => ⟨trivial, fun _ _ heq => by cases heq⟩, fun _ => ⟨_, rfl⟩⟩
  | Update spki taDer =>
    exact ⟨fun _ => ⟨trivial, fun _ _ heq => by cases heq⟩, fun _ => ⟨_, rfl⟩⟩

/-- **A batch of writes** does what the edits do in sequence, and succeeds exactly if each title
fits and no key is added that is there when its turn comes. -/
theorem applyTrustAnchorWrites_iff {writes : List TrustAnchorWrite} (hplain : NoApex writes)
    (htarget : s.hasTarget targetId = true) :
    ((∃ s', applyTrustAnchorWrites targetId writes s = .ok s') ↔ (∀ w ∈ writes, w.Fits) ∧
      Inserts (writes.map (TrustAnchorWrite.edit targetId)) s.anchors) ∧
    ∀ s', applyTrustAnchorWrites targetId writes s = .ok s' →
      s'.anchors = result (writes.map (TrustAnchorWrite.edit targetId)) s.anchors := by
  unfold applyTrustAnchorWrites
  induction writes generalizing s with
  | nil =>
    refine ⟨⟨fun _ => ⟨fun _ h => absurd h List.not_mem_nil, trivial⟩, fun _ => ⟨s, rfl⟩⟩, ?_⟩
    intro s' h
    obtain rfl := Except.ok.inj h
    rfl
  | cons w writes ih =>
    have hone := applyOneWrite_succeeds_iff htarget (w := w) fun spki keyId title isApex taDer h =>
      hplain spki keyId title isApex taDer (List.mem_singleton.mp h ▸ List.mem_cons_self ..)
    have hrest : NoApex writes := fun spki keyId title isApex taDer h =>
      hplain spki keyId title isApex taDer (List.mem_cons_of_mem _ h)
    rw [List.foldlM_cons, List.forall_mem_cons, List.map_cons]
    cases hw : applyOneWrite targetId s w with
    | error e =>
      have hnot : ¬(w.Fits ∧ ∀ key value, w.edit targetId = .add key value →
          s.anchors key = none) := by
        rw [← hone, hw]
        rintro ⟨s', h⟩
        cases h
      constructor
      · constructor
        · rintro ⟨s', h⟩
          cases h
        · rintro ⟨⟨hfits, -⟩, hadd, -⟩
          exact absurd ⟨hfits, hadd⟩ hnot
      · intro s' h
        cases h
    | ok s₁ =>
      have hfirst := hone.mp ⟨s₁, hw⟩
      have htarget₁ : s₁.hasTarget targetId = true := by
        rw [applyOneWrite_frame hw]
        exact htarget
      obtain ⟨hiff, hresult⟩ := ih hrest htarget₁
      rw [anchors_applyOneWrite hw] at hiff hresult
      constructor
      · show (∃ s', writes.foldlM (applyOneWrite targetId) s₁ = .ok s') ↔ _
        rw [hiff]
        constructor
        · rintro ⟨hfits, hinserts⟩
          exact ⟨⟨hfirst.1, hfits⟩, hfirst.2, hinserts⟩
        · rintro ⟨⟨-, hfits⟩, -, hinserts⟩
          exact ⟨hfits, hinserts⟩
      · exact hresult

end

/-! ### The call by itself -/

section

variable {env : Env} {c : Choice} {s s' : Store} {targetId : Uuid}

/-- A query on a connection that does not fail. -/
theorem outcome_query_eq_ok (hc : c.fault = .none) {q : Query} {a : q.Result} :
    (query q).outcome exec c s = (.ok a, s') ↔ q.run s = .ok (a, s') := by
  have heq : (query q).outcome exec c s =
      (stored (q.exec c.fault s).1).outcome exec c (q.exec c.fault s).2 := rfl
  rw [heq, hc]
  unfold Query.exec
  cases hrun : q.run s with
  | error e =>
    constructor
    · intro h
      cases (Prod.mk.inj h).1
    · intro h
      cases h
  | ok r =>
    obtain ⟨b, s₁⟩ := r
    constructor
    · intro h
      obtain ⟨hb, rfl⟩ := Prod.mk.inj h
      obtain rfl := Except.ok.inj hb
      rfl
    · intro h
      obtain ⟨rfl, rfl⟩ := Prod.mk.inj (Except.ok.inj h)
      rfl

/-- The target with this encoding, as a row that is there or a new one. -/
def openTarget (id : Uuid) (label : String) (targetDer : List UInt8) (s : Store) :
    Except String (Uuid × Store) :=
  (s.targets.get targetDer).elim (insertTarget id label targetDer true s) fun row =>
    .ok (row.id, s)

theorem outcome_getOrCreateTarget_eq_ok (hc : c.fault = .none) {targetDer : List UInt8}
    {label : String} {id : Uuid} :
    (getOrCreateTarget targetDer label).outcome exec c s = (.ok id, s') ↔
      openTarget c.uuid label targetDer s = .ok (id, s') := by
  unfold getOrCreateTarget openTarget
  rw [Prog.outcome_bind_eq_ok]
  constructor
  · rintro ⟨found, s₁, hfound, h⟩
    obtain ⟨rfl, rfl⟩ := Prod.mk.inj (Except.ok.inj ((outcome_query_eq_ok hc).mp hfound))
    cases hget : s.targets.get targetDer with
    | some row =>
      rw [hget] at h
      obtain ⟨rfl, rfl⟩ := Prog.outcome_pure_eq_ok.mp h
      rfl
    | none =>
      rw [hget] at h
      exact (outcome_query_eq_ok (q := .insertTarget c.uuid label targetDer true) hc).mp h
  · intro h
    refine ⟨s.targets.get targetDer, s,
      (outcome_query_eq_ok (q := .findTargetByDer targetDer) hc).mpr rfl, ?_⟩
    cases hget : s.targets.get targetDer with
    | some row =>
      rw [hget] at h
      obtain ⟨rfl, rfl⟩ := Prod.mk.inj (Except.ok.inj h)
      rfl
    | none =>
      rw [hget] at h
      exact (outcome_query_eq_ok (q := .insertTarget c.uuid label targetDer true) hc).mpr h

theorem outcome_trustAnchorExists_eq_ok (hc : c.fault = .none) {spki : List UInt8}
    {present : Bool} : (query (.trustAnchorExists targetId spki)).outcome exec c s =
      (.ok present, s') ↔ present = (s.anchors (targetId, spki)).isSome ∧ s' = s := by
  rw [outcome_query_eq_ok hc]
  show Except.ok (_, s) = Except.ok (_, s') ↔ _
  simp only [Except.ok.injEq, Prod.mk.injEq, eq_comm]

/-- **An edit is prepared** exactly if it can be encoded and is allowed in the store as it is. -/
theorem outcome_prepareEdit_eq_ok (hc : c.fault = .none) {edit : TrustAnchorEdit}
    {x : TrustAnchorUpdate × TrustAnchorWrite} :
    (prepareEdit env targetId edit).outcome exec c s = (.ok x, s') ↔
      s' = s ∧ editDraft env edit = .ok x ∧ (x.2.edit targetId).Allowed s.anchors := by
  cases edit with
  | Add ta =>
    unfold prepareEdit editDraft
    simp only [Prog.outcome_bind_eq_ok, Prog.outcome_ofExcept_eq_ok,
      outcome_trustAnchorExists_eq_ok hc, Cms.bind_eq_ok]
    constructor
    · rintro ⟨⟨spki, keyId, title⟩, s₁, ⟨hidentity, rfl⟩, present, s₂, ⟨rfl, rfl⟩, h⟩
      cases hget : s₂.anchors (targetId, spki) with
      | some row =>
        rw [hget] at h
        cases (Prod.mk.inj h).1
      | none =>
        rw [hget] at h
        obtain ⟨taDer, s₃, hencode, hret⟩ := Prog.outcome_bind_eq_ok.mp h
        obtain ⟨hder, rfl⟩ := Prog.outcome_ofExcept_eq_ok.mp hencode
        obtain ⟨rfl, rfl⟩ := Prog.outcome_pure_eq_ok.mp hret
        exact ⟨rfl, ⟨_, hidentity, _, hder, rfl⟩, hget⟩
    · rintro ⟨rfl, ⟨⟨spki, keyId, title⟩, hidentity, taDer, hder, h⟩, hallowed⟩
      obtain rfl := Except.ok.inj h
      have hget : s'.anchors (targetId, spki) = none := hallowed
      refine ⟨_, _, ⟨hidentity, rfl⟩, _, _, ⟨rfl, rfl⟩, ?_⟩
      rw [hget]
      exact Prog.outcome_bind_eq_ok.mpr
        ⟨taDer, s', Prog.outcome_ofExcept_eq_ok.mpr ⟨hder, rfl⟩, rfl⟩
  | Remove spki =>
    unfold prepareEdit editDraft
    simp only [Prog.outcome_bind_eq_ok, Prog.outcome_ofExcept_eq_ok, Cms.bind_eq_ok]
    constructor
    · rintro ⟨info, _, ⟨hinfo, rfl⟩, h⟩
      obtain ⟨rfl, rfl⟩ := Prog.outcome_pure_eq_ok.mp h
      exact ⟨rfl, ⟨info, hinfo, rfl⟩, trivial⟩
    · rintro ⟨rfl, ⟨info, hinfo, h⟩, -⟩
      obtain rfl := Except.ok.inj h
      exact ⟨info, s', ⟨hinfo, rfl⟩, rfl⟩
  | Change spki change =>
    unfold prepareEdit editDraft
    simp only [Prog.outcome_bind_eq_ok, outcome_trustAnchorExists_eq_ok hc, Cms.bind_eq_ok]
    constructor
    · rintro ⟨present, s₁, ⟨rfl, rfl⟩, h⟩
      cases hget : s₁.anchors (targetId, spki) with
      | none =>
        rw [hget] at h
        cases (Prod.mk.inj h).1
      | some row =>
        rw [hget] at h
        obtain ⟨taDer, _, hencode, hret⟩ := Prog.outcome_bind_eq_ok.mp h
        obtain ⟨hder, rfl⟩ := Prog.outcome_ofExcept_eq_ok.mp hencode
        obtain ⟨rfl, rfl⟩ := Prog.outcome_pure_eq_ok.mp hret
        refine ⟨rfl, ⟨taDer, hder, rfl⟩, ?_⟩
        show s'.anchors (targetId, spki) ≠ none
        rw [hget]
        exact Option.some_ne_none row
    · rintro ⟨rfl, ⟨taDer, hder, h⟩, hallowed⟩
      obtain rfl := Except.ok.inj h
      obtain ⟨row, hget⟩ := Option.ne_none_iff_exists'.mp hallowed
      refine ⟨_, _, ⟨rfl, rfl⟩, ?_⟩
      rw [hget]
      exact Prog.outcome_bind_eq_ok.mpr
        ⟨taDer, s', Prog.outcome_ofExcept_eq_ok.mpr ⟨hder, rfl⟩, rfl⟩

/-- The prepared writes as edits. -/
def editsOf (targetId : Uuid) (prepared : List (TrustAnchorUpdate × TrustAnchorWrite)) :
    List (Edit (Uuid × List UInt8) TampTrustAnchorRow) :=
  prepared.map fun x => x.2.edit targetId

/-- All edits are checked against the same store. -/
theorem outcome_prepareEdits_eq_ok (hc : c.fault = .none) {edits : List TrustAnchorEdit}
    {prepared : List (TrustAnchorUpdate × TrustAnchorWrite)} :
    (prepareEdits env targetId edits).outcome exec c s = (.ok prepared, s') ↔
      s' = s ∧ edits.mapM (editDraft env) = .ok prepared ∧
        Checked (editsOf targetId prepared) s.anchors := by
  induction edits generalizing prepared s' with
  | nil =>
    unfold prepareEdits
    rw [Prog.outcome_pure_eq_ok]
    constructor
    · rintro ⟨rfl, rfl⟩
      exact ⟨rfl, rfl, fun e he => absurd he List.not_mem_nil⟩
    · rintro ⟨rfl, h, -⟩
      exact ⟨(Except.ok.inj h).symm, rfl⟩
  | cons edit edits ih =>
    unfold prepareEdits
    simp only [Prog.outcome_bind_eq_ok, outcome_prepareEdit_eq_ok hc, List.mapM_cons,
      Cms.bind_eq_ok]
    constructor
    · rintro ⟨x, _, ⟨rfl, hx, hallowed⟩, rest, s₁, hrest, h⟩
      obtain ⟨rfl, hdraft, hchecked⟩ := ih.mp hrest
      obtain ⟨rfl, rfl⟩ := Prog.outcome_pure_eq_ok.mp h
      refine ⟨rfl, ⟨x, hx, rest, hdraft, rfl⟩, ?_⟩
      exact List.forall_mem_cons.mpr ⟨hallowed, hchecked⟩
    · rintro ⟨rfl, ⟨x, hx, rest, hdraft, h⟩, hchecked⟩
      obtain rfl := Except.ok.inj h
      obtain ⟨hallowed, hchecked⟩ := List.forall_mem_cons.mp hchecked
      exact ⟨x, s', ⟨rfl, hx, hallowed⟩, rest, s', ih.mpr ⟨rfl, hdraft, hchecked⟩, rfl⟩

/-- The envelope that is made of a message body, with the signature that was given. -/
def Sealed (env : Env) (c : Choice) (signer : SignerContext) (contentType : ObjectIdentifier)
    (content envelope : List UInt8) : Prop :=
  ∃ tbs raw, Cms.tbs env.codec contentType content = .ok tbs ∧ c.signature = .ok raw ∧
    Cms.envelope env.codec signer.ski contentType content signer.algorithm [] raw = .ok envelope

theorem outcome_signOutbound_eq_ok {signer : SignerContext} {contentType : ObjectIdentifier}
    {content envelope : List UInt8} :
    (signOutbound env signer contentType content).outcome exec c s = (.ok envelope, s') ↔
      s' = s ∧ Sealed env c signer contentType content envelope := by
  have hsign {tbs : List UInt8} {r : Except String (List UInt8)} {s₁ : Store} :
      (await (.sign signer.key signer.algorithm tbs)).outcome exec c s = (.ok r, s₁) ↔
        r = c.signature ∧ s₁ = s := by
    show (Except.ok c.signature, s) = (Except.ok r, s₁) ↔ _
    simp only [Prod.mk.injEq, Except.ok.injEq, eq_comm]
  unfold signOutbound signMessageWithUnsignedAttrs Sealed
  simp only [Prog.outcome_bind_eq_ok, Prog.outcome_ofExcept_eq_ok, Cms.crypto_eq_ok]
  constructor
  · rintro ⟨tbs, s₁, ⟨htbs, rfl⟩, r, s₂, hr, raw, s₃, ⟨hraw, rfl⟩, henvelope, rfl⟩
    obtain ⟨rfl, rfl⟩ := hsign.mp hr
    exact ⟨rfl, tbs, raw, htbs, hraw, henvelope⟩
  · rintro ⟨rfl, tbs, raw, htbs, hraw, henvelope⟩
    exact ⟨tbs, s', ⟨htbs, rfl⟩, c.signature, s', hsign.mpr ⟨rfl, rfl⟩, raw, s', ⟨hraw, rfl⟩,
      henvelope, rfl⟩

theorem outcome_finalize (hc : c.fault = .none) (label : String) (contentType : ObjectIdentifier)
    (messageName : String) (seq : ℕ) (envelope : List UInt8) :
    (finalize label contentType messageName seq envelope).outcome exec c s =
      (.ok { contentType, messageName, seqNum := seq, envelope }, s) := by
  have heq : (finalize label contentType messageName seq envelope).outcome exec c s =
      (.ok { contentType, messageName, seqNum := seq, envelope },
        (Query.exec .logMessage c.fault s).2) := rfl
  rw [heq, hc]
  rfl

/-! ### What the calls before the write keep -/

/-- The program leaves the trust anchors. -/
def Keeps {α : Type} (c : Choice) (p : TampM α) : Prop :=
  ∀ s, (p.outcome exec c s).2.trustAnchors = s.trustAnchors

/-- Only writes change trust anchors. -/
theorem Effect.trustAnchors {q : Query} (h : Effect s q s') (hq : q.writes = false) :
    s'.trustAnchors = s.trustAnchors := by
  cases h with
  | written => cases hq
  | community => cases hq
  | apex => cases hq
  | _ => rfl

theorem keeps_query {q : Query} (hq : q.writes = false) : Keeps c (query q) := by
  intro s
  have heq : ((query q).outcome exec c s).2 = (q.exec c.fault s).2 := by
    show ((stored (q.exec c.fault s).1).outcome exec c (q.exec c.fault s).2).2 = _
    cases (q.exec c.fault s).1 <;> rfl
  rw [heq]
  exact (exec_effect q c.fault s).trustAnchors hq

theorem Plain.keeps {α : Type} {p : TampM α} {good : α → Trace → Prop} {h : Trace}
    (hp : Plain p good h) : Keeps c p := by
  intro s
  refine hp.outcome (F := Store.trustAnchors) fun _ e he s => ?_
  cases e with
  | db q =>
    have hq : q.writes = false := by cases q <;> first | rfl | exact Bool.noConfusion he
    exact (exec_effect q c.fault s).trustAnchors hq
  | _ => rfl

/-- A failed write leaves the store. -/
theorem outcome_query_eq_error (hc : c.fault = .none) {q : Query} {e : Error}
    (h : (query q).outcome exec c s = (.error e, s')) : s' = s := by
  have heq : (query q).outcome exec c s =
      (stored (q.exec c.fault s).1).outcome exec c (q.exec c.fault s).2 := rfl
  rw [heq, hc] at h
  unfold Query.exec at h
  cases hrun : q.run s with
  | error e' =>
    rw [hrun] at h
    exact (Prod.mk.inj h).2.symm
  | ok r =>
    rw [hrun] at h
    cases (Prod.mk.inj h).1

theorem Keeps.bind {α β : Type} {p : TampM α} {f : α → TampM β} (hp : Keeps c p)
    (hf : ∀ a, Keeps c (f a)) : Keeps c (p >>= f) := by
  intro s
  have hkeep := hp s
  rcases Prog.outcome_bind exec c s p f with
    ⟨a, s₁, hok, heq⟩ | ⟨e, s₁, herror, heq⟩
  · rw [hok] at hkeep
    rw [heq, hf a s₁, hkeep]
  · rw [herror] at hkeep
    rw [heq, hkeep]

/-- A sequence that fails leaves the trust anchors, if it does so after its first part. -/
theorem Keeps.bind_error {α β : Type} {p : TampM α} {f : α → TampM β} {e : Error}
    (hp : Keeps c p) (h : (p >>= f).outcome exec c s = (.error e, s'))
    (hf : ∀ a s₁, s₁.trustAnchors = s.trustAnchors → (f a).outcome exec c s₁ = (.error e, s') →
      s'.trustAnchors = s.trustAnchors) : s'.trustAnchors = s.trustAnchors := by
  have hkeep := hp s
  rcases Prog.outcome_bind_eq_error h with herror | ⟨a, s₁, hok, hrest⟩
  · rw [herror] at hkeep
    exact hkeep
  · rw [hok] at hkeep
    exact hf a s₁ hkeep hrest

theorem openTarget_eq_ok {id freshId : Uuid} {label : String} {targetDer : List UInt8}
    (h : openTarget freshId label targetDer s = .ok (id, s')) :
    s'.trustAnchors = s.trustAnchors ∧ s'.hasTarget id = true ∧
      id = ((s.targets.get targetDer).map (·.id)).getD freshId := by
  unfold openTarget at h
  cases hget : s.targets.get targetDer with
  | some row =>
    rw [hget] at h
    obtain ⟨rfl, rfl⟩ := Prod.mk.inj (Except.ok.inj h)
    refine ⟨rfl, ?_, rfl⟩
    exact List.any_eq_true.mpr ⟨row, (Keyed.mem_of_get hget).1, decide_eq_true rfl⟩
  | none =>
    rw [hget] at h
    have h : insertTarget freshId label targetDer true s = .ok (id, s') := h
    unfold insertTarget at h
    rw [hget] at h
    cases hlabel : varchar 255 label with
    | none =>
      rw [hlabel] at h
      cases h
    | some kept =>
      rw [hlabel] at h
      dsimp only at h
      split_ifs at h
      obtain ⟨rfl, rfl⟩ := Prod.mk.inj (Except.ok.inj h)
      refine ⟨rfl, List.any_eq_true.mpr ?_, rfl⟩
      exact ⟨_, List.mem_append_right _ (List.mem_singleton_self _), decide_eq_true rfl⟩

end

/-! ### Lists of edits -/

section

variable (env : Env) (c : Choice) (target : TargetIdentifier) (label : String)
  (signer : SignerContext) (edits : List TrustAnchorEdit) (s : Store)

/-- The id that the target has or gets. -/
def targetIdOf : Uuid :=
  (((env.targetToDer target).toOption.bind s.targets.get).map (·.id)).getD c.uuid

/-- The result and the store after the call. -/
abbrev updated : Except Error IssuedMessage × Store :=
  (issueTrustAnchorUpdate env target label signer edits).outcome exec c s

/-- All but the order of the edits allows the call: the target can be found or made, it has another
number, the message can be made, and the titles fit. -/
def Ready (prepared : List (TrustAnchorUpdate × TrustAnchorWrite)) : Prop :=
  ∃ targetDer s₁ next s₂ der envelope, env.targetToDer target = .ok targetDer ∧
    openTarget c.uuid label targetDer s = .ok (targetIdOf env c target s, s₁) ∧
    (Query.allocateNextSeq (targetIdOf env c target s) signer.ski).run s₁ = .ok (next, s₂) ∧
    env.messageToDer ((updateDraft target prepared).message (asU64 next)) = .ok der ∧
    Sealed env c signer Oids.idCtTampUpdate der envelope ∧ ∀ x ∈ prepared, x.2.Fits

/-- The prepared edits of the target. -/
abbrev preparedEdits (prepared : List (TrustAnchorUpdate × TrustAnchorWrite)) :
    List (Edit (Uuid × List UInt8) TampTrustAnchorRow) :=
  editsOf (targetIdOf env c target s) prepared

/-- The edits are applied as a sequence, all or nothing. -/
structure AppliedInSequence : Prop where
  succeeds : (∃ m s', updated env c target label signer edits s = (.ok m, s')) ↔
    ∃ prepared, edits.mapM (editDraft env) = .ok prepared ∧
      Legal (preparedEdits env c target s prepared) s.anchors
  result : ∀ m s', updated env c target label signer edits s = (.ok m, s') →
    ∀ prepared, edits.mapM (editDraft env) = .ok prepared →
      s'.anchors = result (preparedEdits env c target s prepared) s.anchors
  unchanged : ∀ e s', updated env c target label signer edits s = (.error e, s') →
    s'.trustAnchors = s.trustAnchors

end

section

variable {env : Env} {c : Choice} {target : TargetIdentifier} {label : String}
  {signer : SignerContext} {edits : List TrustAnchorEdit} {s : Store}

/-- A number is allocated, and the other tables stay. -/
theorem allocate_keeps {s₁ s₂ : Store} {id : Uuid} {ski : List UInt8} {next : ℤ}
    (h : (Query.allocateNextSeq id ski).run s₁ = .ok (next, s₂)) :
    s₂.trustAnchors = s₁.trustAnchors ∧ s₂.targets = s₁.targets := by
  have heffect := run_effect h
  cases heffect with
  | same => exact ⟨rfl, rfl⟩
  | allocated => exact ⟨rfl, rfl⟩

/-- No edit adds an apex. -/
theorem noApex_of_drafts {prepared : List (TrustAnchorUpdate × TrustAnchorWrite)}
    (h : edits.mapM (editDraft env) = .ok prepared) : NoApex (prepared.map (·.2)) := by
  intro spki keyId title isApex taDer hmem
  obtain ⟨x, hx, hwrite⟩ := List.mem_map.mp hmem
  obtain ⟨edit, -, hedit⟩ := mem_of_mapM_editDraft h x hx
  cases edit with
  | Add ta =>
    simp only [editDraft] at hedit
    obtain ⟨identity, -, hrest⟩ := Cms.bind_eq_ok.mp hedit
    obtain ⟨der, -, hret⟩ := Cms.bind_eq_ok.mp hrest
    obtain rfl := Except.ok.inj hret
    injection hwrite with _ _ _ hapex _
    exact hapex.symm
  | Remove spki =>
    simp only [editDraft] at hedit
    obtain ⟨info, -, hret⟩ := Cms.bind_eq_ok.mp hedit
    obtain rfl := Except.ok.inj hret
    cases hwrite
  | Change spki change =>
    simp only [editDraft] at hedit
    obtain ⟨der, -, hret⟩ := Cms.bind_eq_ok.mp hedit
    obtain rfl := Except.ok.inj hret
    cases hwrite

/-- **A call that succeeds**: what was checked before it, and what it wrote. -/
theorem updated_eq_ok (hc : c.fault = .none) (hedits : edits ≠ []) {m : IssuedMessage}
    {s' : Store} (h : updated env c target label signer edits s = (.ok m, s')) :
    ∃ prepared, edits.mapM (editDraft env) = .ok prepared ∧
      Ready env c target label signer s prepared ∧
      Checked (preparedEdits env c target s prepared) s.anchors ∧
      Inserts (preparedEdits env c target s prepared) s.anchors ∧
      s'.anchors = EditList.result (preparedEdits env c target s prepared) s.anchors := by
  unfold updated at h
  rw [issueTrustAnchorUpdate_eq (List.isEmpty_eq_false_iff.mpr hedits)] at h
  unfold issue at h
  obtain ⟨targetDer, s₀, hder, h₁⟩ := Prog.outcome_bind_eq_ok.mp h
  obtain ⟨hder, hs₀⟩ := Prog.outcome_ofExcept_eq_ok.mp hder
  have hder := Cms.asn1_eq_ok.mp hder
  rw [hs₀] at h₁
  obtain ⟨id, s₁, hopen, h₂⟩ := Prog.outcome_bind_eq_ok.mp h₁
  have hopen := (outcome_getOrCreateTarget_eq_ok hc).mp hopen
  obtain ⟨hanchors₁, htarget₁, hid⟩ := openTarget_eq_ok hopen
  have hid : id = targetIdOf env c target s := by
    unfold targetIdOf
    rw [hder]
    exact hid
  rw [hid] at hopen htarget₁ h₂
  obtain ⟨prepared, s₂, hprepare, h₃⟩ := Prog.outcome_bind_eq_ok.mp h₂
  obtain ⟨hs₂, hdrafts, hchecked⟩ := (outcome_prepareEdits_eq_ok hc).mp hprepare
  rw [hs₂] at h₃
  obtain ⟨n, s₃, hnumber, h₄⟩ := Prog.outcome_bind_eq_ok.mp h₃
  obtain ⟨next, s₄, hnext, hn⟩ := Prog.outcome_bind_eq_ok.mp hnumber
  have hnext := (outcome_query_eq_ok hc).mp hnext
  obtain ⟨rfl, rfl⟩ := Prog.outcome_pure_eq_ok.mp hn
  obtain ⟨hanchors₃, htargets₃⟩ := allocate_keeps hnext
  obtain ⟨der, s₅, hencode, h₅⟩ := Prog.outcome_bind_eq_ok.mp h₄
  obtain ⟨hencode, hs₅⟩ := Prog.outcome_ofExcept_eq_ok.mp hencode
  rw [hs₅] at h₅
  obtain ⟨envelope, s₆, hsign, h₆⟩ := Prog.outcome_bind_eq_ok.mp h₅
  obtain ⟨hs₆, hsealed⟩ := outcome_signOutbound_eq_ok.mp hsign
  rw [hs₆] at h₆
  obtain ⟨_, s₇, hcommit, h₇⟩ := Prog.outcome_bind_eq_ok.mp h₆
  rw [outcome_finalize hc] at h₇
  obtain ⟨-, rfl⟩ := Prod.mk.inj h₇
  -- the writes
  obtain ⟨_, s₈, hwrite, hret⟩ := Prog.outcome_bind_eq_ok.mp hcommit
  obtain ⟨-, rfl⟩ := Prog.outcome_pure_eq_ok.mp hret
  have hwrite := map_unit_eq_ok ((outcome_query_eq_ok hc).mp hwrite)
  have htarget₃ : s₃.hasTarget (targetIdOf env c target s) = true := by
    unfold Store.hasTarget
    rw [htargets₃]
    exact htarget₁
  have hsame : s₃.anchors = s.anchors := by
    unfold Store.anchors
    rw [hanchors₃, hanchors₁]
  obtain ⟨hiff, hresult⟩ := applyTrustAnchorWrites_iff (noApex_of_drafts hdrafts) htarget₃
  have hmap : (prepared.map (·.2)).map (TrustAnchorWrite.edit (targetIdOf env c target s)) =
      preparedEdits env c target s prepared := List.map_map
  rw [hmap, hsame] at hiff hresult
  obtain ⟨hfits, hinserts⟩ := hiff.mp ⟨_, hwrite⟩
  have hchecked : Checked (preparedEdits env c target s prepared) s.anchors := by
    unfold Store.anchors at hchecked ⊢
    rw [hanchors₁] at hchecked
    exact hchecked
  refine ⟨prepared, hdrafts, ⟨targetDer, s₁, next, s₃, der, envelope, hder, hopen, hnext,
    Cms.asn1_eq_ok.mp hencode, hsealed, fun x hx => ?_⟩, hchecked, hinserts, hresult _ hwrite⟩
  exact hfits x.2 (List.mem_map_of_mem hx)

/-- **When the call succeeds.** -/
theorem updated_succeeds (hc : c.fault = .none) (hedits : edits ≠ [])
    {prepared : List (TrustAnchorUpdate × TrustAnchorWrite)}
    (hdrafts : edits.mapM (editDraft env) = .ok prepared)
    (hready : Ready env c target label signer s prepared)
    (hchecked : Checked (preparedEdits env c target s prepared) s.anchors)
    (hinserts : Inserts (preparedEdits env c target s prepared) s.anchors) :
    ∃ m s', updated env c target label signer edits s = (.ok m, s') := by
  obtain ⟨targetDer, s₁, next, s₂, der, envelope, hder, hopen, hnext, hencode, hsealed, hfits⟩ :=
    hready
  obtain ⟨hanchors₁, htarget₁, -⟩ := openTarget_eq_ok hopen
  obtain ⟨hanchors₂, htargets₂⟩ := allocate_keeps hnext
  have hsame₁ : s₁.anchors = s.anchors := by
    unfold Store.anchors
    rw [hanchors₁]
  have hsame₂ : s₂.anchors = s.anchors := by
    unfold Store.anchors
    rw [hanchors₂, hanchors₁]
  have htarget₂ : s₂.hasTarget (targetIdOf env c target s) = true := by
    unfold Store.hasTarget
    rw [htargets₂]
    exact htarget₁
  obtain ⟨s', hwrite⟩ : ∃ s', applyTrustAnchorWrites (targetIdOf env c target s)
      (prepared.map (·.2)) s₂ = .ok s' := by
    refine (applyTrustAnchorWrites_iff (noApex_of_drafts hdrafts) htarget₂).1.mpr ⟨?_, ?_⟩
    · intro w hw
      obtain ⟨x, hx, rfl⟩ := List.mem_map.mp hw
      exact hfits x hx
    · rw [List.map_map, hsame₂]
      exact hinserts
  have hrun : (Query.applyTrustAnchorWrites (targetIdOf env c target s)
      (prepared.map (·.2))).run s₂ = .ok ((), s') := congrArg (Except.map ((), ·)) hwrite
  unfold updated
  rw [issueTrustAnchorUpdate_eq (List.isEmpty_eq_false_iff.mpr hedits)]
  unfold issue
  refine ⟨⟨Oids.idCtTampUpdate, "TAMPUpdate", asU64 next, envelope⟩, s', ?_⟩
  refine Prog.outcome_bind_eq_ok.mpr ⟨targetDer, s,
    Prog.outcome_ofExcept_eq_ok.mpr ⟨Cms.asn1_eq_ok.mpr hder, rfl⟩, ?_⟩
  refine Prog.outcome_bind_eq_ok.mpr ⟨_, s₁, (outcome_getOrCreateTarget_eq_ok hc).mpr hopen, ?_⟩
  refine Prog.outcome_bind_eq_ok.mpr ⟨prepared, s₁,
    (outcome_prepareEdits_eq_ok hc).mpr ⟨rfl, hdrafts, ?_⟩, ?_⟩
  · rw [hsame₁]
    exact hchecked
  refine Prog.outcome_bind_eq_ok.mpr ⟨asU64 next, s₂,
    Prog.outcome_bind_eq_ok.mpr ⟨next, s₂, (outcome_query_eq_ok hc).mpr hnext, rfl⟩, ?_⟩
  refine Prog.outcome_bind_eq_ok.mpr ⟨der, s₂,
    Prog.outcome_ofExcept_eq_ok.mpr ⟨Cms.asn1_eq_ok.mpr hencode, rfl⟩, ?_⟩
  refine Prog.outcome_bind_eq_ok.mpr ⟨envelope, s₂,
    outcome_signOutbound_eq_ok.mpr ⟨rfl, hsealed⟩, ?_⟩
  refine Prog.outcome_bind_eq_ok.mpr ⟨(), s',
    Prog.outcome_bind_eq_ok.mpr ⟨(), s', (outcome_query_eq_ok hc).mpr hrun, rfl⟩, ?_⟩
  exact outcome_finalize hc ..

/-- **A call that fails** leaves the trust anchors. -/
theorem updated_eq_error (hc : c.fault = .none) {e : Error} {s' : Store}
    (h : updated env c target label signer edits s = (.error e, s')) :
    s'.trustAnchors = s.trustAnchors := by
  unfold updated at h
  cases hedits : edits.isEmpty with
  | true =>
    unfold issueTrustAnchorUpdate at h
    rw [if_pos hedits] at h
    rw [← (Prod.mk.inj h).2]
  | false =>
    rw [issueTrustAnchorUpdate_eq hedits] at h
    unfold issue at h
    have hpure {α : Type} (x : Except Error α) : Keeps c (Prog.ofExcept x) := fun s => by
      cases x <;> rfl
    refine (hpure _).bind_error h fun targetDer s₀ hs₀ h₀ => hs₀ ▸ ?_
    refine (plain_getOrCreateTarget targetDer label (h := [])).keeps.bind_error h₀
      fun id s₁ hs₁ h₁ => hs₁ ▸ ?_
    refine (plain_prepareEdits id edits (h := [])).keeps.bind_error h₁
      fun prepared s₂ hs₂ h₂ => hs₂ ▸ ?_
    have hnumber : Keeps c (nextSeq id signer.ski) :=
      Keeps.bind (keeps_query (q := .allocateNextSeq id signer.ski) rfl) fun _ _ => rfl
    refine hnumber.bind_error h₂ fun n s₃ hs₃ h₃ => hs₃ ▸ ?_
    refine (hpure _).bind_error h₃ fun der s₄ hs₄ h₄ => hs₄ ▸ ?_
    refine (plain_signMessageWithUnsignedAttrs signer _ der [] (h := [])).keeps.bind_error h₄
      fun envelope s₅ hs₅ h₅ => hs₅ ▸ ?_
    rcases Prog.outcome_bind_eq_error h₅ with hcommit | ⟨_, s₆, -, hfinal⟩
    · rcases Prog.outcome_bind_eq_error hcommit with hwrite | ⟨_, s₇, -, hret⟩
      · rw [outcome_query_eq_error hc hwrite]
      · cases (Prod.mk.inj hret).1
    · rw [outcome_finalize hc] at hfinal
      cases (Prod.mk.inj hfinal).1

/-- **Lists of edits.** -/
theorem edits_iff (hc : c.fault = .none) (hedits : edits ≠ []) :
    AppliedInSequence env c target label signer edits s ↔
      ∀ prepared, edits.mapM (editDraft env) = .ok prepared →
        (Legal (preparedEdits env c target s prepared) s.anchors →
          Ready env c target label signer s prepared ∧
            Checked (preparedEdits env c target s prepared) s.anchors) ∧
        (Ready env c target label signer s prepared →
          Checked (preparedEdits env c target s prepared) s.anchors →
          Inserts (preparedEdits env c target s prepared) s.anchors →
          Unremoved (preparedEdits env c target s prepared)) := by
  constructor
  · rintro ⟨hsucceeds, -, -⟩ prepared hdrafts
    constructor
    · intro hlegal
      obtain ⟨m, s', hok⟩ := hsucceeds.mpr ⟨prepared, hdrafts, hlegal⟩
      obtain ⟨prepared', hdrafts', hready, hchecked, -⟩ := updated_eq_ok hc hedits hok
      obtain rfl := Except.ok.inj (hdrafts.symm.trans hdrafts')
      exact ⟨hready, hchecked⟩
    · intro hready hchecked hinserts
      have hok := updated_succeeds hc hedits hdrafts hready hchecked hinserts
      obtain ⟨prepared', hdrafts', hlegal⟩ := hsucceeds.mp hok
      obtain rfl := Except.ok.inj (hdrafts.symm.trans hdrafts')
      exact (legal_iff_unremoved hchecked hinserts).mp hlegal
  · intro hcondition
    refine ⟨⟨?_, ?_⟩, ?_, fun e s' herror => updated_eq_error hc herror⟩
    · rintro ⟨m, s', hok⟩
      obtain ⟨prepared, hdrafts, hready, hchecked, hinserts, -⟩ := updated_eq_ok hc hedits hok
      refine ⟨prepared, hdrafts, (legal_iff_unremoved hchecked hinserts).mpr ?_⟩
      exact (hcondition prepared hdrafts).2 hready hchecked hinserts
    · rintro ⟨prepared, hdrafts, hlegal⟩
      obtain ⟨hready, hchecked⟩ := (hcondition prepared hdrafts).1 hlegal
      exact updated_succeeds hc hedits hdrafts hready hchecked hlegal.inserts
    · intro m s' hok prepared hdrafts
      obtain ⟨prepared', hdrafts', -, -, -, hresult⟩ := updated_eq_ok hc hedits hok
      obtain rfl := Except.ok.inj (hdrafts.symm.trans hdrafts')
      exact hresult

end

/-! ### An instance -/

/-- The key 7 can be removed. -/
def removingEnv : Env := derEnv ⟨[ed25519 7], [], [], []⟩

/-- The call for these edits, when nothing fails. -/
abbrev updatedSeven (edits : List TrustAnchorEdit) (s : Store) :
    Except Error IssuedMessage × Store :=
  updated removingEnv (calm 1) .AllModules "all" signer edits s

/-- The trust anchor with key 7 is there. -/
def withSeven : Store := (updatedSeven [.Add (anchor 7)] {}).2

/-- It is removed and added again. -/
def replacement : List TrustAnchorEdit := [.Remove (spkiDer (ed25519 7)), .Add (anchor 7)]

def preparedReplacement : List (TrustAnchorUpdate × TrustAnchorWrite) :=
  [(.Remove (ed25519 7), .Remove (spkiDer (ed25519 7))),
    (.Add (anchor 7), .Insert (spkiDer (ed25519 7)) (some [7]) none false
      ((anchorDer (anchor 7)).toOption.getD []))]

/-- It is removed and then changed. -/
def staleChange : List TrustAnchorEdit :=
  [.Remove (spkiDer (ed25519 7)), .Change (spkiDer (ed25519 7)) retitle]

def preparedStaleChange : List (TrustAnchorUpdate × TrustAnchorWrite) :=
  [(.Remove (ed25519 7), .Remove (spkiDer (ed25519 7))),
    (.Change retitle, .Update (spkiDer (ed25519 7)) ((changeDer retitle).toOption.getD []))]

/-- The prepared addition. -/
def preparedAddition : List (TrustAnchorUpdate × TrustAnchorWrite) := preparedReplacement.tail

theorem check_edits :
    (replacement.mapM (editDraft removingEnv) = .ok preparedReplacement ∧
      (updatedSeven replacement withSeven).1.toOption = none) ∧
    (staleChange.mapM (editDraft removingEnv) = .ok preparedStaleChange ∧
      (updatedSeven staleChange withSeven).1.toOption.isSome = true) ∧
    ([TrustAnchorEdit.Add (anchor 7)].mapM (editDraft removingEnv) = .ok preparedAddition ∧
      (updatedSeven [.Add (anchor 7)] {}).1.toOption.isSome = true) := by
  decide +kernel

theorem ok_of_isSome {r : Except Error IssuedMessage × Store} (h : r.1.toOption.isSome = true) :
    ∃ m s', r = (.ok m, s') := by
  obtain ⟨x, s'⟩ := r
  cases x with
  | ok m => exact ⟨m, s', rfl⟩
  | error e => cases h

/-- **A replacement is refused, and a change of a removed key is not.** -/
theorem replacement_refused :
    ¬AppliedInSequence removingEnv (calm 1) .AllModules "all" signer replacement withSeven ∧
    ¬AppliedInSequence removingEnv (calm 1) .AllModules "all" signer staleChange withSeven := by
  constructor
  · intro h
    obtain ⟨m, s', hok⟩ := h.succeeds.mpr ⟨preparedReplacement, check_edits.1.1, trivial,
      write_remove withSeven.anchors _, trivial⟩
    have hrefused := check_edits.1.2
    unfold updatedSeven at hrefused
    rw [hok] at hrefused
    cases hrefused
  · intro h
    obtain ⟨prepared, hdrafts, hlegal⟩ := h.succeeds.mp (ok_of_isSome check_edits.2.1.2)
    obtain rfl := Except.ok.inj (check_edits.2.1.1.symm.trans hdrafts)
    exact hlegal.2.1 (write_remove withSeven.anchors _)

/-- An addition to the empty store. -/
theorem addition_applied :
    AppliedInSequence removingEnv (calm 1) .AllModules "all" signer [.Add (anchor 7)] {} := by
  refine (edits_iff rfl (by simp)).mpr fun prepared hdrafts => ?_
  obtain rfl := Except.ok.inj (check_edits.2.2.1.symm.trans hdrafts)
  obtain ⟨m, s', houtcome⟩ := ok_of_isSome check_edits.2.2.2
  obtain ⟨prepared, hdrafts', hready, hchecked, -⟩ := updated_eq_ok rfl (by simp) houtcome
  obtain rfl := Except.ok.inj (check_edits.2.2.1.symm.trans hdrafts')
  exact ⟨fun _ => ⟨hready, hchecked⟩, fun _ _ _ => List.pairwise_singleton ..⟩

end Ostrich.Tamp
