import Ostrich.Tamp.Equiv.Envelope
import Ostrich.Tamp.Equiv.Manager

/-!
# What the stored trust anchors decode as

The columns of a trust anchor (its key, its key id and its title) are those of the anchor that is
stored with them, as DER.  A `Change` edit stores the DER of the change in place of the anchor.

* `anchors_wellFormed`: the rows stay well formed in every run in which no change is written to a
  row and no title is cut;
* `change_not_wellFormed`: after a change the row is not.
-/

namespace Ostrich.Tamp

open Interleave Table

/-! ### The property -/

section

variable (env : Env) (anchorFromDer : List UInt8 → Except String TrustAnchorChoice)

/-- The row has the DER of a trust anchor with these columns. -/
def TampTrustAnchorRow.WellFormed (row : TampTrustAnchorRow) : Prop :=
  ∃ ta, anchorFromDer row.taDer = .ok ta ∧
    taIdentity env ta = .ok (row.pubKeySpki, row.keyId, row.taTitle)

/-- All rows are well formed. -/
def AnchorsWellFormed (s : Store) : Prop :=
  ∀ row ∈ s.trustAnchors.rows, row.WellFormed env anchorFromDer

/-- The crate `der` decodes what it encoded. -/
def DecodesAnchors : Prop :=
  ∀ ta der, env.anchorToDer ta = .ok der → anchorFromDer der = .ok ta

end

/-! ### The condition -/

/-- The title is stored as it is, or not at all. -/
def KeptTitle (title : Option String) : Prop := ∀ kept, storedTitle title = .ok kept → kept = title

/-- The write cuts no title and changes no row. -/
def Harmless (targetId : Uuid) (s : Store) : TrustAnchorWrite → Prop
  | .Insert _ _ title _ _ => KeptTitle title
  | .Remove _ => True
  | .Update spki _ => s.trustAnchors.get (targetId, spki) = none

/-- So are all the writes, one after the other. -/
def AllHarmless (targetId : Uuid) : List TrustAnchorWrite → Store → Prop
  | [], _ => True
  | w :: writes, s => Harmless targetId s w ∧
    ∀ s', applyOneWrite targetId s w = .ok s' → AllHarmless targetId writes s'

/-- No change is written to a row, and no title is cut. -/
def Unchanged (w : TampWorld) : TampEvent → Prop
  | .call _ (.db (.applyTrustAnchorWrites targetId writes)) _ =>
    AllHarmless targetId writes w.store
  | .call _ (.db (.applyApexUpdate _ _ _ _ _ taTitle _)) _ => KeptTitle taTitle
  | _ => True

/-! ### One write -/

section

variable {env : Env} {anchorFromDer : List UInt8 → Except String TrustAnchorChoice}
  {s s' : Store} {targetId : Uuid}

/-- What is inserted is a trust anchor with its identity. -/
def Honest (env : Env) : TrustAnchorWrite → Prop
  | .Insert spki keyId title _ taDer => ∃ ta, taIdentity env ta = .ok (spki, keyId, title) ∧
    env.anchorToDer ta = .ok taDer
  | _ => True

theorem wellFormed_deleteAnchors (h : AnchorsWellFormed env anchorFromDer s)
    (p : TampTrustAnchorRow → Bool) : AnchorsWellFormed env anchorFromDer (deleteAnchors p s) :=
  fun row hrow => h row (List.mem_filter.mp hrow).1

theorem wellFormed_applyOneWrite (hdecodes : DecodesAnchors env anchorFromDer)
    (h : AnchorsWellFormed env anchorFromDer s) {w : TrustAnchorWrite} (hhonest : Honest env w)
    (hharmless : Harmless targetId s w) (hw : applyOneWrite targetId s w = .ok s') :
    AnchorsWellFormed env anchorFromDer s' := by
  cases w with
  | Insert spki keyId title isApex taDer =>
    obtain ⟨kept, htitle, hinsert⟩ := applyOneWrite_insert_eq_ok.mp hw
    obtain ⟨-, -, anchors, hrows, rfl⟩ := insertAnchor_eq_ok.mp hinsert
    obtain ⟨ta, hidentity, hder⟩ := hhonest
    intro row hrow
    rw [show ({ s with trustAnchors := anchors } : Store).trustAnchors = anchors from rfl,
      (Keyed.rows_of_insert? hrows).2] at hrow
    rcases List.mem_append.mp hrow with hold | hnew
    · exact h row hold
    · rw [List.mem_singleton.mp hnew]
      refine ⟨ta, hdecodes ta taDer hder, ?_⟩
      rw [hidentity, hharmless kept htitle]
  | Remove spki =>
    obtain rfl := Except.ok.inj hw
    exact wellFormed_deleteAnchors h _
  | Update spki taDer =>
    obtain rfl := Except.ok.inj hw
    have hnone : s.trustAnchors.get (targetId, spki) = none := hharmless
    intro row hrow
    obtain ⟨old, hold, rfl⟩ := mem_updateWhere.mp hrow
    -- there is no row with the key
    rw [if_neg]
    · exact h old hold
    · rw [decide_eq_true_eq]
      exact Keyed.not_mem_of_get hnone hold

theorem wellFormed_applyTrustAnchorWrites (hdecodes : DecodesAnchors env anchorFromDer)
    (h : AnchorsWellFormed env anchorFromDer s) {writes : List TrustAnchorWrite}
    (hhonest : ∀ w ∈ writes, Honest env w) (hharmless : AllHarmless targetId writes s)
    (hw : applyTrustAnchorWrites targetId writes s = .ok s') :
    AnchorsWellFormed env anchorFromDer s' := by
  unfold applyTrustAnchorWrites at hw
  induction writes generalizing s with
  | nil =>
    obtain rfl := Except.ok.inj hw
    exact h
  | cons w writes ih =>
    rw [List.foldlM_cons] at hw
    obtain ⟨hone, hrest⟩ := hharmless
    cases hfirst : applyOneWrite targetId s w with
    | error e =>
      rw [hfirst] at hw
      cases hw
    | ok s₁ =>
      rw [hfirst] at hw
      have hs₁ := wellFormed_applyOneWrite hdecodes h (hhonest w (List.mem_cons_self ..)) hone
        hfirst
      exact ih hs₁ (fun w' hw' => hhonest w' (List.mem_cons_of_mem _ hw')) (hrest s₁ hfirst) hw

theorem wellFormed_applyApexUpdate (hdecodes : DecodesAnchors env anchorFromDer)
    (h : AnchorsWellFormed env anchorFromDer s) {clearTrustAnchors clearCommunities : Bool}
    {spki taDer : List UInt8} {keyId : Option (List UInt8)} {title : Option String}
    (hhonest : Honest env (.Insert spki keyId title true taDer)) (htitle : KeptTitle title)
    (hw : applyApexUpdate targetId clearTrustAnchors clearCommunities spki keyId title taDer s =
      .ok s') : AnchorsWellFormed env anchorFromDer s' := by
  unfold applyApexUpdate at hw
  refine wellFormed_applyOneWrite hdecodes (wellFormed_deleteAnchors ?_ _) hhonest htitle hw
  split_ifs
  · exact wellFormed_deleteAnchors h _
  · exact h
  · exact wellFormed_deleteAnchors h _
  · exact h

/-! ### What is written -/

/-- Each prepared edit was prepared by itself. -/
theorem mem_of_mapM_editDraft {edits : List TrustAnchorEdit}
    {prepared : List (TrustAnchorUpdate × TrustAnchorWrite)}
    (h : edits.mapM (editDraft env) = .ok prepared) :
    ∀ x ∈ prepared, ∃ edit ∈ edits, editDraft env edit = .ok x := by
  induction edits generalizing prepared with
  | nil =>
    obtain rfl := Except.ok.inj h
    exact fun x hx => absurd hx List.not_mem_nil
  | cons edit edits ih =>
    rw [List.mapM_cons] at h
    obtain ⟨first, hfirst, h⟩ := Cms.bind_eq_ok.mp h
    obtain ⟨rest, hrest, h⟩ := Cms.bind_eq_ok.mp h
    obtain rfl := Except.ok.inj h
    intro x hx
    rcases List.mem_cons.mp hx with rfl | hx
    · exact ⟨edit, List.mem_cons_self .., hfirst⟩
    · obtain ⟨edit', hmem, hedit'⟩ := ih hrest x hx
      exact ⟨edit', List.mem_cons_of_mem _ hmem, hedit'⟩

theorem honest_editDraft {edit : TrustAnchorEdit} {x : TrustAnchorUpdate × TrustAnchorWrite}
    (h : editDraft env edit = .ok x) : Honest env x.2 := by
  cases edit with
  | Add ta =>
    simp only [editDraft] at h
    obtain ⟨identity, hidentity, h⟩ := Cms.bind_eq_ok.mp h
    obtain ⟨taDer, hder, h⟩ := Cms.bind_eq_ok.mp h
    obtain rfl := Except.ok.inj h
    exact ⟨ta, hidentity, Cms.asn1_eq_ok.mp hder⟩
  | Remove spki =>
    simp only [editDraft] at h
    obtain ⟨info, -, h⟩ := Cms.bind_eq_ok.mp h
    obtain rfl := Except.ok.inj h
    exact trivial
  | Change spki change =>
    simp only [editDraft] at h
    obtain ⟨taDer, -, h⟩ := Cms.bind_eq_ok.mp h
    obtain rfl := Except.ok.inj h
    exact trivial

/-- What a task writes is honest. -/
def HonestQuery (env : Env) : Query → Prop
  | .applyTrustAnchorWrites _ writes => ∀ w ∈ writes, Honest env w
  | .applyApexUpdate _ _ _ spki keyId title taDer =>
    Honest env (.Insert spki keyId title true taDer)
  | _ => True

theorem honest_draft {t : Task} {draft : Draft} (hdraft : t.draft env = .ok (some draft))
    {id : Uuid} {q : Query} (hq : draft.write id = some q) : HonestQuery env q := by
  cases t with
  | issueTrustAnchorUpdate target label signer edits =>
    simp only [Task.draft] at hdraft
    obtain ⟨prepared, hprepared, h⟩ := Cms.bind_eq_ok.mp hdraft
    obtain rfl := Option.some.inj (Except.ok.inj h)
    obtain rfl := Option.some.inj hq
    intro w hw
    obtain ⟨x, hx, rfl⟩ := List.mem_map.mp hw
    obtain ⟨edit, -, hedit⟩ := mem_of_mapM_editDraft hprepared x hx
    exact honest_editDraft hedit
  | issueApexUpdate target label signer apexTa clearTrustAnchors clearCommunities key =>
    simp only [Task.draft] at hdraft
    obtain ⟨identity, hidentity, h⟩ := Cms.bind_eq_ok.mp hdraft
    obtain ⟨apexDer, hder, h⟩ := Cms.bind_eq_ok.mp h
    obtain rfl := Option.some.inj (Except.ok.inj h)
    obtain rfl := Option.some.inj hq
    exact ⟨apexTa, hidentity, Cms.asn1_eq_ok.mp hder⟩
  | issueStatusQuery =>
    obtain rfl := Option.some.inj (Except.ok.inj hdraft)
    cases hq
  | issueCommunityUpdate =>
    obtain rfl := Option.some.inj (Except.ok.inj hdraft)
    obtain rfl := Option.some.inj hq
    exact trivial
  | issueSequenceNumberAdjust =>
    obtain rfl := Option.some.inj (Except.ok.inj hdraft)
    cases hq
  | registerTargetSigner => cases Except.ok.inj hdraft
  | ingest => cases Except.ok.inj hdraft

/-- A query that keeps the condition keeps the rows well formed. -/
theorem wellFormed_exec (hdecodes : DecodesAnchors env anchorFromDer) {w : TampWorld}
    (h : AnchorsWellFormed env anchorFromDer w.store) {i : ℕ} {q : Query} {c : Choice}
    (hhonest : HonestQuery env q) {r : DbReply q.Result}
    (hunchanged : Unchanged w (.call i (.db q) r)) :
    AnchorsWellFormed env anchorFromDer (q.exec c.fault w.store).2 := by
  have heffect := exec_effect q c.fault w.store
  generalize (q.exec c.fault w.store).2 = s' at heffect
  cases heffect with
  | written hw => exact wellFormed_applyTrustAnchorWrites hdecodes h hhonest hunchanged hw
  | apex hw => exact wellFormed_applyApexUpdate hdecodes h hhonest hunchanged hw
  | community hc =>
    rw [applyCommunityUpdate_keeps hc]
    exact h
  | _ => exact h

end

/-! ### Over whole runs -/

/-- **Stored trust anchors**: in every run in which no change is written to a row and no title is
cut, every row has the DER of a trust anchor with its columns. -/
theorem anchors_wellFormed {env : Env}
    {anchorFromDer : List UInt8 → Except String TrustAnchorChoice}
    (hdecodes : DecodesAnchors env anchorFromDer) {store : Store}
    (hstore : AnchorsWellFormed env anchorFromDer store) {cfg : TampState}
    (hreach : (system env).Reach Unchanged (System.initial store) cfg) :
    AnchorsWellFormed env anchorFromDer cfg.world.store := by
  have hJ : (system env).Preserves (spec env) Unchanged (fun _ => True)
      (fun w => AnchorsWellFormed env anchorFromDer w.store) := by
    refine .of_call (fun _ _ _ h => h) fun {w i n t e c} _ _ h _ hcalls hallowed => ?_
    cases e with
    | db q =>
      have hhonest : HonestQuery env q := by
        cases hq : q.writes with
        | false => cases q <;> first | exact trivial | exact Bool.noConfusion hq
        | true =>
          obtain ⟨id, k, draft, hwrites⟩ : ∃ id k draft,
              Writes env t (w.history i) id k draft q := by
            cases q with
            | applyTrustAnchorWrites => exact hcalls rfl
            | applyCommunityUpdate => exact hcalls rfl
            | applyApexUpdate => exact hcalls rfl
            | _ => exact Bool.noConfusion hq
          exact honest_draft hwrites.drafted hwrites.write
      exact wellFormed_exec hdecodes h hhonest hallowed
    | newUuid => exact h
    | sign => exact h
    | audit => exact h
  exact (hJ.reach (meets env) hstore hreach).2

/-! ### An instance -/

/-- The trust anchor with key 7, and the encoding of it alone. -/
def sevenEnv : Env :=
  { derEnv nothingKnown with anchorToDer := Cms.restricted anchorDer [anchor 7] }

/-- The decoder of that encoding. -/
def sevenFromDer : List UInt8 → Except String TrustAnchorChoice := decode anchorDer [anchor 7]

/-- A change of the title of key 7. -/
def retitle : TrustAnchorChangeInfoChoice :=
  .TaChange ⟨ed25519 7, none, some "new", none, none⟩

/-- The anchor is added. -/
def addSeven : List (Action Task Choice) :=
  whole 0 (.issueTrustAnchorUpdate .AllModules "all" signer [.Add (anchor 7)]) 10

/-- The anchor is added, and then changed. -/
def addThenChange : List (Action Task Choice) :=
  addSeven ++ whole 1 (.issueTrustAnchorUpdate .AllModules "all" signer
    [.Change (spkiDer (ed25519 7)) retitle]) 8

theorem decodesAnchors_seven : DecodesAnchors sevenEnv sevenFromDer :=
  fun _ _ h => Cms.decode_of_restricted rfl (fun _ h => h) h

theorem anchorsWellFormed_empty : AnchorsWellFormed sevenEnv sevenFromDer {} :=
  fun _ hrow => absurd hrow List.not_mem_nil

/-- The rows of a store do not decode, as a check. -/
def checkUndecoded (s : Store) : Bool :=
  s.trustAnchors.rows.any fun row => (sevenFromDer row.taDer).toOption = none

theorem check_addThenChange : ((system sevenEnv).run (fun _ _ => true) addThenChange
    (System.initial {})).map (fun cfg => checkUndecoded cfg.world.store) = some true := by
  decide +kernel

/-- The DER of the change is no trust anchor. -/
theorem change_not_wellFormed : DecodesAnchors sevenEnv sevenFromDer ∧
    AnchorsWellFormed sevenEnv sevenFromDer {} ∧ ∃ cfg : TampState,
      (system sevenEnv).Reach (fun _ _ => True) (System.initial {}) cfg ∧
        ¬AnchorsWellFormed sevenEnv sevenFromDer cfg.world.store := by
  obtain ⟨cfg, hcfg, hvalue⟩ := Option.map_eq_some_iff.mp check_addThenChange
  refine ⟨decodesAnchors_seven, anchorsWellFormed_empty, cfg,
    System.reach_of_run (fun _ _ _ => trivial) _ hcfg, fun h => ?_⟩
  obtain ⟨row, hrow, hundecoded⟩ := List.any_eq_true.mp hvalue
  rw [decide_eq_true_eq] at hundecoded
  obtain ⟨ta, hta, -⟩ := h row hrow
  rw [hta] at hundecoded
  cases hundecoded

/-- The step inserts anchors without a title, as a check. -/
def untitled (_ : TampWorld) : TampEvent → Bool
  | .call _ (.db (.applyTrustAnchorWrites _ [.Insert _ _ none _ _])) _ => true
  | .call _ (.db (.applyTrustAnchorWrites ..)) _ => false
  | .call _ (.db (.applyApexUpdate ..)) _ => false
  | _ => true

theorem keptTitle_none : KeptTitle none := fun _ h => (Except.ok.inj h).symm

theorem unchanged_of_untitled {w : TampWorld} {ev : TampEvent} (h : untitled w ev = true) :
    Unchanged w ev := by
  unfold untitled at h
  split at h
  · exact ⟨keptTitle_none, fun _ _ => trivial⟩
  · cases h
  · cases h
  · rename_i hnone hwrites hapex
    unfold Unchanged
    split
    · exact absurd rfl (hwrites _ _ _ _)
    · exact absurd rfl (hapex _ _ _ _ _ _ _ _ _)
    · trivial

theorem check_addSeven : ((system sevenEnv).run untitled addSeven (System.initial {})).map
    (fun cfg => cfg.world.store.trustAnchors.rows.length) = some 1 := by
  decide +kernel

/-- The added anchor is well formed. -/
theorem added_wellFormed : ∃ cfg : TampState, cfg.world.store.trustAnchors.rows.length = 1 ∧
    AnchorsWellFormed sevenEnv sevenFromDer cfg.world.store := by
  obtain ⟨cfg, hcfg, hvalue⟩ := Option.map_eq_some_iff.mp check_addSeven
  exact ⟨cfg, hvalue, anchors_wellFormed decodesAnchors_seven anchorsWellFormed_empty
    (System.reach_of_run (fun _ _ => unchanged_of_untitled) _ hcfg)⟩

end Ostrich.Tamp
