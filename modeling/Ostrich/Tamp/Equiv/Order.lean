import Ostrich.Tamp.Equiv.Anchors
import Ostrich.Tamp.Equiv.Counters

/-!
# The order of the writes

A message gets its number before it is signed, and its edits are written after that, so that two
messages can be written in the other order than that of their numbers.

* `rows_agree`: if the edits are written in the order of the numbers, no connection is lost at a
  write and no call is dropped after it, then the rows are what the messages of the successful calls
  make of the rows at the start, in the order of their numbers;
* `rows_disagree`: a removal that overtakes the addition before it leaves the trust anchor.
-/

namespace Ostrich.Tamp

open Interleave Table

/-! ### What a message says -/

section

variable (env : Env)

/-- The key of a change. -/
def TrustAnchorChangeInfoChoice.spki : TrustAnchorChangeInfoChoice → SubjectPublicKeyInfo
  | .TbsCertChange change => change.subjectPublicKeyInfo
  | .TaChange change => change.pubKey

/-- What an update says is to be written. -/
def updateWrite : TrustAnchorUpdate → Except Error TrustAnchorWrite
  | .Add ta => do
    let identity ← taIdentity env ta
    let taDer ← Cms.asn1 (env.anchorToDer ta)
    return .Insert identity.1 identity.2.1 identity.2.2 false taDer
  | .Remove spkiInfo => do
    let spki ← Cms.asn1 (env.spkiToDer spkiInfo)
    return .Remove spki
  | .Change change => do
    let spki ← Cms.asn1 (env.spkiToDer change.spki)
    let taDer ← Cms.asn1 (env.changeToDer change)
    return .Update spki taDer

/-- What a message says is to be written for its target. -/
def messageQuery (id : Uuid) : OutboundMessage → Except Error (Option Query)
  | .Update m => do
    let writes ← m.updates.mapM (updateWrite env)
    return some (.applyTrustAnchorWrites id writes)
  | .CommunityUpdate m =>
    .ok (some (.applyCommunityUpdate id (m.remove.getD []) (m.add.getD [])))
  | .ApexUpdate m => do
    let identity ← taIdentity env m.apexTa
    let apexDer ← Cms.asn1 (env.anchorToDer m.apexTa)
    return some (.applyApexUpdate id m.clearTrustAnchors m.clearCommunities identity.1 identity.2.1
      identity.2.2 apexDer)
  | _ => .ok none

/-- The store after a write. -/
def applyQuery (s : Store) (q : Query) : Except String Store := (q.run s).map (·.2)

/-- The store of a target that follows the message. -/
def applyMessage (id : Uuid) (s : Store) (m : OutboundMessage) : Except String Store := do
  let q ← (messageQuery env id m).mapError fun _ => "malformed message"
  q.elim (.ok s) (applyQuery s)

/-- A change names its own key, as the message does not say another. -/
def TrustAnchorEdit.NamesOwnKey : TrustAnchorEdit → Prop
  | .Change spki change => env.spkiToDer change.spki = .ok spki
  | _ => True

/-- The key of a decoded encoding has this encoding, as the crate `der` decodes DER only. -/
def CanonicalKeys : Prop :=
  ∀ der spki, env.spkiFromDer der = .ok spki → env.spkiToDer spki = .ok der

end

section

variable {env : Env}

theorem updateWrite_of_editDraft (hcanonical : CanonicalKeys env) {edit : TrustAnchorEdit}
    (hown : edit.NamesOwnKey env) {x : TrustAnchorUpdate × TrustAnchorWrite}
    (h : editDraft env edit = .ok x) : updateWrite env x.1 = .ok x.2 := by
  cases edit with
  | Add ta =>
    simp only [editDraft] at h
    obtain ⟨identity, hidentity, hrest⟩ := Cms.bind_eq_ok.mp h
    obtain ⟨taDer, hder, hret⟩ := Cms.bind_eq_ok.mp hrest
    obtain rfl := Except.ok.inj hret
    simp only [updateWrite]
    rw [hidentity, hder]
    rfl
  | Remove spki =>
    simp only [editDraft] at h
    obtain ⟨info, hinfo, hret⟩ := Cms.bind_eq_ok.mp h
    obtain rfl := Except.ok.inj hret
    simp only [updateWrite]
    rw [hcanonical spki info (Cms.asn1_eq_ok.mp hinfo)]
    rfl
  | Change spki change =>
    simp only [editDraft] at h
    obtain ⟨taDer, hder, hret⟩ := Cms.bind_eq_ok.mp h
    obtain rfl := Except.ok.inj hret
    have hkey : env.spkiToDer change.spki = .ok spki := hown
    simp only [updateWrite]
    rw [hkey, hder]
    rfl

theorem mapM_updateWrite (hcanonical : CanonicalKeys env) {edits : List TrustAnchorEdit}
    (hown : ∀ edit ∈ edits, edit.NamesOwnKey env)
    {prepared : List (TrustAnchorUpdate × TrustAnchorWrite)}
    (h : edits.mapM (editDraft env) = .ok prepared) :
    (prepared.map (·.1)).mapM (updateWrite env) = .ok (prepared.map (·.2)) := by
  induction edits generalizing prepared with
  | nil =>
    obtain rfl := Except.ok.inj h
    rfl
  | cons edit edits ih =>
    rw [List.mapM_cons] at h
    obtain ⟨x, hx, htail⟩ := Cms.bind_eq_ok.mp h
    obtain ⟨rest, hrest, hret⟩ := Cms.bind_eq_ok.mp htail
    obtain rfl := Except.ok.inj hret
    obtain ⟨hfirst, hothers⟩ := List.forall_mem_cons.mp hown
    rw [List.map_cons, List.map_cons, List.mapM_cons,
      updateWrite_of_editDraft hcanonical hfirst hx, ih hothers hrest]
    rfl

/-- The task changes trust anchors by their own keys only. -/
def Task.NamesOwnKeys (env : Env) : Task → Prop
  | .issueTrustAnchorUpdate _ _ _ edits => ∀ edit ∈ edits, edit.NamesOwnKey env
  | _ => True

/-- **A message says what is written.** -/
theorem messageQuery_of_draft (hcanonical : CanonicalKeys env) {t : Task}
    (hown : t.NamesOwnKeys env) {draft : Draft} (hdraft : t.draft env = .ok (some draft))
    (id : Uuid) (n : ℕ) : messageQuery env id (draft.message n) = .ok (draft.write id) := by
  cases t with
  | issueTrustAnchorUpdate target label signer edits =>
    simp only [Task.draft] at hdraft
    obtain ⟨prepared, hprepared, hret⟩ := Cms.bind_eq_ok.mp hdraft
    obtain rfl := Option.some.inj (Except.ok.inj hret)
    simp only [messageQuery, updateDraft]
    rw [mapM_updateWrite hcanonical hown hprepared]
    rfl
  | issueApexUpdate target label signer apexTa clearTrustAnchors clearCommunities key =>
    simp only [Task.draft] at hdraft
    obtain ⟨identity, hidentity, hrest⟩ := Cms.bind_eq_ok.mp hdraft
    obtain ⟨apexDer, hder, hret⟩ := Cms.bind_eq_ok.mp hrest
    obtain rfl := Option.some.inj (Except.ok.inj hret)
    simp only [messageQuery, apexDraft]
    rw [hidentity, hder]
    rfl
  | issueStatusQuery =>
    obtain rfl := Option.some.inj (Except.ok.inj hdraft)
    rfl
  | issueCommunityUpdate target label signer add remove =>
    obtain rfl := Option.some.inj (Except.ok.inj hdraft)
    cases add <;> cases remove <;> rfl
  | issueSequenceNumberAdjust =>
    obtain rfl := Option.some.inj (Except.ok.inj hdraft)
    rfl
  | registerTargetSigner => cases Except.ok.inj hdraft
  | ingest => cases Except.ok.inj hdraft

end

/-! ### Writes on stores with the same rows -/

/-- The rows are the same, and the targets are still there. -/
structure SameRows (s s' : Store) : Prop where
  trustAnchors : s'.trustAnchors = s.trustAnchors
  communities : s'.communities = s.communities
  targets : ∀ id, s.hasTarget id = true → s'.hasTarget id = true

section

variable {s s' t : Store} {targetId : Uuid}

theorem SameRows.refl (s : Store) : SameRows s s := ⟨rfl, rfl, fun _ h => h⟩

theorem SameRows.trans {s'' : Store} (h : SameRows s s') (h' : SameRows s' s'') :
    SameRows s s'' :=
  ⟨h'.trustAnchors.trans h.trustAnchors, h'.communities.trans h.communities,
    fun id hid => h'.targets id (h.targets id hid)⟩

/-- What is done to the same rows gives the same rows. -/
theorem SameRows.fold {α : Type} {f : Store → α → Except String Store}
    {l : List α} (hf : ∀ a ∈ l, ∀ {s s' t : Store}, SameRows s s' → f s a = .ok t →
      ∃ t', f s' a = .ok t' ∧ SameRows t t') (h : SameRows s s')
    (hfold : l.foldlM f s = .ok t) : ∃ t', l.foldlM f s' = .ok t' ∧ SameRows t t' := by
  induction l generalizing s s' with
  | nil =>
    obtain rfl := Except.ok.inj hfold
    exact ⟨s', rfl, h⟩
  | cons a l ih =>
    rw [List.foldlM_cons] at hfold ⊢
    cases hfirst : f s a with
    | error e =>
      rw [hfirst] at hfold
      cases hfold
    | ok s₁ =>
      rw [hfirst] at hfold
      obtain ⟨s₁', hfirst', h₁⟩ := hf a (List.mem_cons_self ..) h hfirst
      rw [hfirst']
      exact ih (fun b hb => hf b (List.mem_cons_of_mem _ hb)) h₁ hfold

theorem SameRows.applyOneWrite {w : TrustAnchorWrite} (h : SameRows s s')
    (hw : applyOneWrite targetId s w = .ok t) :
    ∃ t', Tamp.applyOneWrite targetId s' w = .ok t' ∧ SameRows t t' := by
  cases w with
  | Insert spki keyId title isApex taDer =>
    obtain ⟨kept, htitle, hinsert⟩ := applyOneWrite_insert_eq_ok.mp hw
    obtain ⟨hapex, htarget, anchors, hrows, rfl⟩ := insertAnchor_eq_ok.mp hinsert
    refine ⟨{ s' with trustAnchors := anchors }, applyOneWrite_insert_eq_ok.mpr ⟨kept, htitle,
      insertAnchor_eq_ok.mpr ⟨?_, h.targets _ htarget, anchors, ?_, rfl⟩⟩, rfl, h.communities,
      h.targets⟩
    · unfold Store.hasApex at hapex ⊢
      rw [h.trustAnchors]
      exact hapex
    · rw [h.trustAnchors]
      exact hrows
  | Remove spki =>
    obtain rfl := Except.ok.inj hw
    refine ⟨_, rfl, ?_, h.communities, h.targets⟩
    show s'.trustAnchors.retain _ = s.trustAnchors.retain _
    rw [h.trustAnchors]
  | Update spki taDer =>
    obtain rfl := Except.ok.inj hw
    refine ⟨_, rfl, ?_, h.communities, h.targets⟩
    exact congrArg (fun anchors : Anchors => anchors.modify (·.key = (targetId, spki))
      (fun row => { row with taDer }) fun _ => rfl) h.trustAnchors

theorem SameRows.addCommunity {communityOid : String} (h : SameRows s s')
    (hadd : addCommunity targetId s communityOid = .ok t) :
    ∃ t', Tamp.addCommunity targetId s' communityOid = .ok t' ∧ SameRows t t' := by
  unfold Tamp.addCommunity at hadd ⊢
  rw [h.communities]
  cases hinsert : s.communities.insert? { targetId, communityOid } with
  | none =>
    rw [hinsert] at hadd
    obtain rfl := Except.ok.inj hadd
    exact ⟨s', rfl, h⟩
  | some communities =>
    rw [hinsert] at hadd
    obtain ⟨htarget, hret⟩ := referring_eq_ok.mp hadd
    obtain rfl := Except.ok.inj hret
    exact ⟨_, referring_eq_ok.mpr ⟨h.targets _ htarget, rfl⟩, h.trustAnchors, rfl, h.targets⟩

theorem SameRows.deleteAnchors (h : SameRows s s') (p : TampTrustAnchorRow → Bool) :
    SameRows (deleteAnchors p s) (Tamp.deleteAnchors p s') := by
  refine ⟨?_, h.communities, h.targets⟩
  show s'.trustAnchors.retain _ = s.trustAnchors.retain _
  rw [h.trustAnchors]

theorem SameRows.retainCommunities (h : SameRows s s') (p : CommunityRow → Bool) :
    SameRows { s with communities := s.communities.retain p }
      { s' with communities := s'.communities.retain p } := by
  refine ⟨h.trustAnchors, ?_, h.targets⟩
  show s'.communities.retain _ = s.communities.retain _
  rw [h.communities]

/-- **Writes** do the same to stores with the same rows. -/
theorem SameRows.applyQuery {q : Query} (hq : q.writes = true) (h : SameRows s s')
    (hrun : applyQuery s q = .ok t) : ∃ t', Tamp.applyQuery s' q = .ok t' ∧ SameRows t t' := by
  have hwrite {x x' : Except String Store} (hx : ∀ t, x = .ok t → ∃ t', x' = .ok t' ∧ SameRows t t')
      (hmap : (x.map ((), ·)).map (·.2) = .ok t) :
      ∃ t', ((x'.map ((), ·)).map (·.2)) = .ok t' ∧ SameRows t t' := by
    cases x with
    | error e => cases hmap
    | ok s₁ =>
      obtain rfl := Except.ok.inj hmap
      obtain ⟨t', rfl, hsame⟩ := hx _ rfl
      exact ⟨t', rfl, hsame⟩
  cases q with
  | applyTrustAnchorWrites id writes =>
    exact hwrite (fun t ht =>
      SameRows.fold (f := Tamp.applyOneWrite id) (fun _ _ => SameRows.applyOneWrite) h ht) hrun
  | applyCommunityUpdate id remove add =>
    exact hwrite (fun t ht => SameRows.fold (f := Tamp.addCommunity id)
      (fun _ _ => SameRows.addCommunity) (h.retainCommunities _) ht) hrun
  | applyApexUpdate id clearTrustAnchors clearCommunities spki keyId title taDer =>
    refine hwrite (fun t ht => ?_) hrun
    unfold applyApexUpdate at ht ⊢
    refine SameRows.applyOneWrite (SameRows.deleteAnchors ?_ _) ht
    split_ifs
    · exact (h.deleteAnchors _).retainCommunities _
    · exact h.retainCommunities _
    · exact h.deleteAnchors _
    · exact h
  | _ => cases hq

/-- A write leaves the other tables. -/
theorem applyQuery_frame {q : Query} (hq : q.writes = true) (h : applyQuery s q = .ok t) :
    t = { s with trustAnchors := t.trustAnchors, communities := t.communities } := by
  unfold applyQuery at h
  cases hrun : q.run s with
  | error e =>
    rw [hrun] at h
    cases h
  | ok r =>
    obtain ⟨a, s₁⟩ := r
    rw [hrun] at h
    obtain rfl := Except.ok.inj h
    exact (run_effect hrun).frame hq

/-- The other queries leave the rows. -/
theorem Effect.sameRows {q : Query} (h : Effect s q s') (hq : q.writes = false) :
    SameRows s s' := by
  cases h with
  | same => exact .refl s
  | target hnew hid =>
    refine ⟨rfl, rfl, fun id hold => ?_⟩
    obtain ⟨row, hrow, hrowId⟩ := List.any_eq_true.mp hold
    refine List.any_eq_true.mpr ⟨row, ?_, hrowId⟩
    refine List.mem_append_left _ (List.mem_filter.mpr ⟨hrow, ?_⟩)
    exact decide_eq_true (Keyed.not_mem_of_get hnew hrow)
  | checked => exact ⟨rfl, rfl, fun _ h => h⟩
  | allocated => exact ⟨rfl, rfl, fun _ h => h⟩
  | written => cases hq
  | community => cases hq
  | apex => cases hq
  | signer => exact ⟨rfl, rfl, fun _ h => h⟩

end

/-! ### The property -/

def DbReply.isOk {α : Type} : DbReply α → Bool
  | .ok _ => true
  | _ => false

/-- The write that the event commits, with its task. -/
def committed : TampEvent → Option (ℕ × Query)
  | .call i (.db q) r => if q.writes && DbReply.isOk r then some (i, q) else none
  | _ => none

/-- The committed writes. -/
def commits (w : TampWorld) : List (ℕ × Query) := w.log.filterMap committed

/-- The task was given this number. -/
def Given (w : TampWorld) (i n : ℕ) : Prop :=
  ∃ id ski next, .call i (.db (.allocateNextSeq id ski)) (.ok next) ∈ w.log ∧ n = asU64 next

/-- The task updates trust anchors or communities. -/
def Task.updates : Task → Bool
  | .issueTrustAnchorUpdate .. | .issueCommunityUpdate .. | .issueApexUpdate .. => true
  | _ => false

/-- The message that the call signed. -/
def Carries (env : Env) (w : TampWorld) (i : ℕ) (m : IssuedMessage) (message : OutboundMessage) :
    Prop :=
  ∃ t draft signer der raw unsignedAttrs, w.Started i t ∧ t.draft env = .ok (some draft) ∧
    message = draft.message m.seqNum ∧ t.signer = some signer ∧
    env.messageToDer message = .ok der ∧
    Cms.envelope env.codec signer.ski m.contentType der signer.algorithm unsignedAttrs raw =
      .ok m.envelope

/-- These are the successful calls, with their numbers and messages. -/
def Successful (env : Env) (w : TampWorld) (calls : List (ℕ × ℕ × OutboundMessage)) : Prop :=
  ∀ i n message, (i, n, message) ∈ calls ↔
    ∃ m, .finish i (.ok (.issued m)) ∈ w.log ∧ m.seqNum = n ∧ Carries env w i m message

/-- The rows are what the messages of the successful calls make of the rows at the start, in the
order of their numbers. -/
def Agrees (env : Env) (store : Store) (targetDer : List UInt8) (w : TampWorld) : Prop :=
  ∃ id calls s, (∀ row, w.store.targets.get targetDer = some row → row.id = id) ∧
    Successful env w calls ∧ calls.Pairwise (fun x y => x.2.1 < y.2.1) ∧
    (calls.map fun x => x.2.2).foldlM (applyMessage env id)
      { store with targets := w.store.targets } = .ok s ∧
    s.trustAnchors = w.store.trustAnchors ∧ s.communities = w.store.communities

/-! ### The condition -/

/-- The calls are updates for one target and signer. -/
def Concerns (env : Env) (targetDer ski : List UInt8) : TampEvent → Prop
  | .start _ t _ => t.updates = true ∧ env.targetToDer t.target = .ok targetDer ∧
    ∃ signer, t.signer = some signer ∧ signer.ski = ski
  | _ => True

/-- Changes name their own keys, writes are committed in the order of the numbers, no connection is
lost at a write, and no call is dropped after its write. -/
def InOrder (env : Env) (w : TampWorld) : TampEvent → Prop
  | .start _ t _ => t.NamesOwnKeys env
  | .call i (.db q) r => (q.writes = true → r ≠ .lost) ∧
    (committed (.call i (.db q) r) ≠ none → ∀ j q', (j, q') ∈ commits w →
      ∀ n n', Given w j n → Given w i n' → n < n')
  | .abort i => ∀ q, (i, q) ∉ commits w
  | _ => True

/-- The step is one of such a run. -/
def InOrderFor (env : Env) (targetDer ski : List UInt8) (w : TampWorld) (ev : TampEvent) : Prop :=
  Concerns env targetDer ski ev ∧ InOrder env w ev

/-! ### Commits in a log -/

section

variable {w : TampWorld} {i j n : ℕ} {q : Query}

theorem commits_concat (s : Store) (ev : TampEvent) :
    commits ⟨s, w.log ++ [ev]⟩ = commits w ++ (committed ev).toList := by
  unfold commits
  rw [List.filterMap_append]
  congr 1

/-- A commit is an answered write. -/
theorem mem_commits : (i, q) ∈ commits w ↔
    q.writes = true ∧ ∃ a, .call i (.db q) (.ok a) ∈ w.log := by
  unfold commits
  rw [List.mem_filterMap]
  constructor
  · rintro ⟨ev, hev, hcommitted⟩
    unfold committed at hcommitted
    split at hcommitted
    · rename_i j q' r
      split_ifs at hcommitted with hok
      obtain ⟨rfl, rfl⟩ := Prod.mk.inj (Option.some.inj hcommitted)
      rw [Bool.and_eq_true] at hok
      refine ⟨hok.1, ?_⟩
      cases r with
      | ok a => exact ⟨a, hev⟩
      | error e => cases hok.2
      | lost => cases hok.2
    · cases hcommitted
  · rintro ⟨hq, a, hmem⟩
    refine ⟨_, hmem, ?_⟩
    show (if q.writes && true then some (i, q) else none) = _
    rw [hq]
    rfl

/-- A task that has committed has written. -/
theorem not_noWrite_of_mem_commits (h : (i, q) ∈ commits w) : ¬NoWrite (w.history i) := by
  obtain ⟨hq, a, hmem⟩ := mem_commits.mp h
  exact fun hno => hno q hq a (World.mem_history.mpr hmem)

theorem Given.mono {w' : TampWorld} (h : Given w i n) (hlog : ∀ ev ∈ w.log, ev ∈ w'.log) :
    Given w' i n := by
  obtain ⟨id, ski, next, hmem, hn⟩ := h
  exact ⟨id, ski, next, hlog _ hmem, hn⟩

/-- Who is given a number by one more event. -/
theorem given_concat {s : Store} {ev : TampEvent} (h : Given ⟨s, w.log ++ [ev]⟩ j n) :
    Given w j n ∨ ∃ id ski next, ev = .call j (.db (.allocateNextSeq id ski)) (.ok next) := by
  obtain ⟨id, ski, next, hmem, hn⟩ := h
  rcases List.mem_append.mp hmem with hold | hnew
  · exact .inl ⟨id, ski, next, hold, hn⟩
  · exact .inr ⟨id, ski, next, (List.mem_singleton.mp hnew).symm⟩

end

/-! ### The rows are those of the commits -/

/-- The rows are what the commits make of the rows at the start, and the numbers of the commits
increase. -/
structure Serial (store : Store) (w : TampWorld) : Prop where
  rows : ∃ s, ((commits w).map (·.2)).foldlM applyQuery { store with targets := w.store.targets } =
    .ok s ∧ s.targets = w.store.targets ∧ s.trustAnchors = w.store.trustAnchors ∧
    s.communities = w.store.communities
  increase : (commits w).Pairwise fun x y => ∀ n n', Given w x.1 n → Given w y.1 n' → n < n'

section

variable {store : Store} {w : TampWorld}

/-- Writes leave the targets. -/
theorem targets_of_fold {qs : List Query} (hqs : ∀ q ∈ qs, q.writes = true) {s t : Store}
    (h : qs.foldlM applyQuery s = .ok t) : t.targets = s.targets := by
  induction qs generalizing s with
  | nil =>
    obtain rfl := Except.ok.inj h
    rfl
  | cons q qs ih =>
    rw [List.foldlM_cons] at h
    obtain ⟨hq, hqs⟩ := List.forall_mem_cons.mp hqs
    cases hfirst : applyQuery s q with
    | error e =>
      rw [hfirst] at h
      cases h
    | ok s₁ =>
      rw [hfirst] at h
      rw [ih hqs h, applyQuery_frame hq hfirst]

theorem writes_of_mem_commits {q : Query} (h : q ∈ (commits w).map (·.2)) : q.writes = true := by
  obtain ⟨⟨i, q'⟩, hmem, rfl⟩ := List.mem_map.mp h
  exact (mem_commits.mp hmem).1

/-- An event that commits nothing and gives no number, and leaves the rows. -/
theorem Serial.same (h : Serial store w) {s : Store} {ev : TampEvent}
    (hcommitted : committed ev = none) (hrows : SameRows w.store s)
    (hgiven : ∀ i q n, (i, q) ∈ commits w → Given ⟨s, w.log ++ [ev]⟩ i n → Given w i n) :
    Serial store ⟨s, w.log ++ [ev]⟩ := by
  have hsame : commits ⟨s, w.log ++ [ev]⟩ = commits w := by
    rw [commits_concat, hcommitted]
    exact List.append_nil _
  constructor
  · obtain ⟨s₀, hfold, htargets, hanchors, hcommunities⟩ := h.rows
    rw [hsame]
    -- the targets at the start may be more now
    have hstart : SameRows { store with targets := w.store.targets }
        { store with targets := s.targets } := ⟨rfl, rfl, hrows.targets⟩
    have hwrites : ∀ q ∈ (commits w).map (·.2), q.writes = true := fun _ => writes_of_mem_commits
    obtain ⟨t, ht, hsameRows⟩ := SameRows.fold (f := applyQuery)
      (fun q hq => SameRows.applyQuery (hwrites q hq)) hstart hfold
    have htargets' := targets_of_fold hwrites ht
    refine ⟨t, ht, htargets', ?_, ?_⟩
    · rw [hsameRows.trustAnchors, hanchors, hrows.trustAnchors]
    · rw [hsameRows.communities, hcommunities, hrows.communities]
  · rw [hsame]
    refine h.increase.imp_of_mem fun {x y} hx hy hlt n n' hn hn' => ?_
    exact hlt n n' (hgiven _ _ n hx hn) (hgiven _ _ n' hy hn')

/-- A write that is committed with the greatest number. -/
theorem Serial.commit (h : Serial store w) {i : ℕ} {q : Query} {a : q.Result} {s : Store}
    (hq : q.writes = true) (hrun : q.run w.store = .ok (a, s))
    (hlast : ∀ j q', (j, q') ∈ commits w → ∀ n n', Given w j n → Given w i n' → n < n') :
    Serial store ⟨s, w.log ++ [.call i (.db q) (.ok a)]⟩ := by
  have hcommitted : committed (.call i (.db q) (.ok a)) = some (i, q) := by
    show (if q.writes && true then some (i, q) else none) = _
    rw [hq]
    rfl
  have hgiven {j n : ℕ} (hn : Given ⟨s, w.log ++ [.call i (.db q) (.ok a)]⟩ j n) : Given w j n := by
    rcases given_concat hn with hold | ⟨id, ski, next, heq⟩
    · exact hold
    · cases heq
      cases hq
  have hcommits := commits_concat (w := w) s (.call i (.db q) (.ok a))
  rw [hcommitted] at hcommits
  have happly : applyQuery w.store q = .ok s := by
    unfold applyQuery
    rw [hrun]
    rfl
  have hframe := applyQuery_frame hq happly
  constructor
  · obtain ⟨s₀, hfold, htargets, hanchors, hcommunities⟩ := h.rows
    have hrows : SameRows w.store s₀ := ⟨hanchors, hcommunities, fun id hid => by
      unfold Store.hasTarget at hid ⊢
      rw [htargets]
      exact hid⟩
    obtain ⟨t, ht, hsame⟩ := hrows.applyQuery hq happly
    have hstart : s.targets = w.store.targets := by rw [hframe]
    refine ⟨t, ?_, ?_, hsame.trustAnchors, hsame.communities⟩
    · rw [hcommits, hstart, List.map_append, List.foldlM_append, hfold]
      show [q].foldlM applyQuery s₀ = .ok t
      rw [List.foldlM_cons, ht]
      rfl
    · rw [applyQuery_frame hq ht, hstart]
      exact htargets
  · rw [hcommits]
    refine List.pairwise_append.mpr
      ⟨?_, List.pairwise_singleton _ _, fun x hx y hy n n' hn hn' => ?_⟩
    · exact h.increase.imp fun {x y} hlt n n' hn hn' => hlt n n' (hgiven hn) (hgiven hn')
    · rw [show y = (i, q) from List.mem_singleton.mp hy] at hn'
      exact hlast x.1 x.2 hx n n' (hgiven hn) (hgiven hn')

/-- A refused query leaves the store. -/
theorem store_of_exec_error {q : Query} {fault : Fault} {e : String} {s : Store}
    (h : (q.exec fault s).1 = .error e) : (q.exec fault s).2 = s := by
  unfold Query.exec at h ⊢
  cases fault with
  | none =>
    cases hrun : q.run s with
    | error e' => rfl
    | ok r =>
      rw [hrun] at h
      cases h
  | before => cases h
  | after =>
    cases hrun : q.run s with
    | error e' => rfl
    | ok r =>
      rw [hrun] at h
      cases h

/-- **One call** of a run in order. -/
theorem Serial.call {env : Env} {targetDer ski : List UInt8} (h : Serial store w) {i : ℕ} {t : Task}
    {e : Call} {c : Choice} (hcalls : Admitted env t (w.history i) e)
    (hallowed : InOrderFor env targetDer ski w (.call i e (exec e c w.store).1)) :
    Serial store ⟨(exec e c w.store).2, w.log ++ [.call i e (exec e c w.store).1]⟩ := by
  have hgiven {s : Store} {r : Reply e} {j n : ℕ} {q : Query} (hcommit : (j, q) ∈ commits w)
      (hn : Given ⟨s, w.log ++ [.call i e r]⟩ j n) : Given w j n := by
    rcases given_concat hn with hold | ⟨id, ski', next, heq⟩
    · exact hold
    · -- the task that is given a number has not written
      cases heq
      have hallocates : Allocates env t (w.history _) id ski' := hcalls
      exact absurd hallocates.noWrite (not_noWrite_of_mem_commits hcommit)
  cases e with
  | db q =>
    obtain ⟨-, hlost, hlast⟩ := hallowed
    show Serial store ⟨(q.exec c.fault w.store).2,
      w.log ++ [.call i (.db q) (q.exec c.fault w.store).1]⟩
    have hlost : q.writes = true → (q.exec c.fault w.store).1 ≠ .lost := hlost
    have hlast : committed (.call i (.db q) (q.exec c.fault w.store).1) ≠ none → _ := hlast
    cases hq : q.writes with
    | false =>
      refine h.same ?_ ((exec_effect q c.fault w.store).sameRows hq)
        fun j q' n hj hn => hgiven hj hn
      show (if q.writes && _ then _ else _) = _
      rw [hq]
      rfl
    | true =>
      cases hr : (q.exec c.fault w.store).1 with
      | ok a =>
        rw [hr] at hlast
        refine h.commit hq (run_of_exec hr) (hlast ?_)
        show (if q.writes && true then some (i, q) else none) ≠ none
        rw [hq]
        exact Option.some_ne_none _
      | error e =>
        rw [store_of_exec_error hr]
        refine h.same ?_ (.refl _) fun j q' n hj hn => hgiven hj hn
        show (if q.writes && false then some (i, q) else none) = none
        rw [Bool.and_false]
        rfl
      | lost => exact absurd hr (hlost hq)
  | newUuid => exact h.same rfl (.refl _) fun j q' n hj hn => hgiven hj hn
  | sign => exact h.same rfl (.refl _) fun j q' n hj hn => hgiven hj hn
  | audit => exact h.same rfl (.refl _) fun j q' n hj hn => hgiven hj hn

end

/-- **The invariant.** -/
theorem serial_reach {env : Env} {targetDer ski : List UInt8} {store : Store} {cfg : TampState}
    (hreach : (system env).Reach (InOrderFor env targetDer ski) (System.initial store) cfg) :
    Serial store cfg.world := by
  have hJ : (system env).Preserves (spec env) (InOrderFor env targetDer ski) (fun _ => True)
      (Serial store) := by
    refine .of_call (fun w ev hev h => ?_) fun {w i n t e c} _ _ h _ hcalls hallowed =>
      h.call hcalls hallowed
    refine h.same ?_ (.refl _) fun i q n _ hn => ?_
    · unfold committed
      split
      · exact absurd rfl (hev _ _ _)
      · rfl
    · rcases given_concat hn with hold | ⟨id, ski', next, heq⟩
      · exact hold
      · exact absurd heq (hev _ _ _)
  exact (hJ.reach (meets env) ⟨⟨store, rfl, rfl, rfl, rfl⟩, List.Pairwise.nil⟩ hreach).2

/-! ### The successful calls -/

section

variable {env : Env} {targetDer ski : List UInt8} {store : Store} {cfg : TampState}

/-- Every task is one of such a run. -/
theorem started_inOrder
    (hreach : (system env).Reach (InOrderFor env targetDer ski) (System.initial store) cfg) :
    ∀ i t parent, .start i t parent ∈ cfg.world.log → t.updates = true ∧
      env.targetToDer t.target = .ok targetDer ∧ t.NamesOwnKeys env := by
  have hJ : (system env).Preserves (spec env) (InOrderFor env targetDer ski) (fun _ => True)
      fun w => ∀ i t parent, .start i t parent ∈ w.log → t.updates = true ∧
        env.targetToDer t.target = .ok targetDer ∧ t.NamesOwnKeys env := by
    have hother (ev : TampEvent) {w : TampWorld} {s : Store}
        (hev : ∀ i t parent, ev ≠ .start i t parent)
        (h : ∀ i t parent, .start i t parent ∈ w.log → t.updates = true ∧
          env.targetToDer t.target = .ok targetDer ∧ t.NamesOwnKeys env) :
        ∀ i t parent, .start i t parent ∈ (⟨s, w.log ++ [ev]⟩ : TampWorld).log →
          t.updates = true ∧ env.targetToDer t.target = .ok targetDer ∧ t.NamesOwnKeys env := by
      intro i t parent hmem
      rcases List.mem_append.mp hmem with hold | hnew
      · exact h i t parent hold
      · exact absurd (List.mem_singleton.mp hnew).symm (hev i t parent)
    constructor
    · intro w i t _ _ h _ hallowed i' t' parent hmem
      rcases List.mem_append.mp hmem with hold | hnew
      · exact h i' t' parent hold
      · cases List.mem_singleton.mp hnew
        obtain ⟨⟨hupdates, htarget, -⟩, hown⟩ := hallowed
        exact ⟨hupdates, htarget, hown⟩
    · intro w i n t e c _ _ h _ _ _ _
      exact hother (.call i e (exec e c w.store).1) (by simp) h
    · intro w i t r _ _ h _ _ _
      exact hother (.finish i r) (by simp) h
    · intro w i t _ _ h _ _
      exact hother (.abort i) (by simp) h
  exact (hJ.reach (meets env) (fun _ _ _ h => absurd h List.not_mem_nil) hreach).2

/-- A call that was dropped has not written. -/
theorem not_committed_of_abort
    (hreach : (system env).Reach (InOrderFor env targetDer ski) (System.initial store) cfg) {i : ℕ}
    (habort : .abort i ∈ cfg.world.log) (q : Query) : (i, q) ∉ commits cfg.world := by
  intro hmem
  obtain ⟨hq, a, hcall⟩ := mem_commits.mp hmem
  obtain ⟨pre, post, hlog⟩ := List.append_of_mem habort
  obtain ⟨mid, _, next, -, hpre, -, hallowed, -⟩ := hreach.past hlog (by simp)
  rw [hlog] at hcall
  rcases List.mem_append.mp hcall with hbefore | hafter
  · refine hallowed.2 q (mem_commits.mpr ⟨hq, a, ?_⟩)
    rw [hpre]
    exact hbefore
  · have hpost : .call i (.db q) (.ok a) ∈ post := by
      rcases List.mem_cons.mp hafter with heq | hpost
      · cases heq
      · exact hpost
    have hlog' : cfg.world.log = (pre ++ [.abort i]) ++ post := by
      rw [hlog, List.append_assoc, List.singleton_append]
    exact hreach.not_mem_of_ended (meets env) hlog'
      (.inr (List.mem_append_right _ (List.mem_singleton_self _))) hpost

/-- A task is given one number. -/
theorem given_unique
    (hreach : (system env).Reach (InOrderFor env targetDer ski) (System.initial store) cfg)
    {i n n' : ℕ} (h : Given cfg.world i n) (h' : Given cfg.world i n') : n = n' := by
  obtain ⟨id, ski', next, hmem, rfl⟩ := h
  obtain ⟨id', ski'', next', hmem', rfl⟩ := h'
  have heq := hreach.once (meets env) (P := fun e => ∃ id ski, e = .db (.allocateNextSeq id ski))
    (fun t h e hcalls hP s hs hP' => by
      obtain ⟨id, ski, rfl⟩ := hP
      obtain ⟨e', r'⟩ := s
      obtain ⟨id', ski', rfl⟩ := hP'
      have hallocates : Allocates env t h id ski := hcalls
      exact hallocates.noNumber id' ski' r' hs) hmem ⟨id, ski', rfl⟩ hmem' ⟨id', ski'', rfl⟩
  cases heq
  rfl

/-- What is known of a successful call. -/
theorem issued_of_finish {allowed : TampWorld → TampEvent → Prop}
    (hreach : (system env).Reach allowed (System.initial store) cfg) {i : ℕ} {m : IssuedMessage}
    (h : .finish i (.ok (.issued m)) ∈ cfg.world.log) :
    ∃ t id draft, cfg.world.Started i t ∧ Issued env t (cfg.world.history i) m id draft ∧
      Given cfg.world i m.seqNum ∧ Carries env cfg.world i m (draft.message m.seqNum) := by
  obtain ⟨t, hstarted, id, draft, hissued⟩ := hreach.finished (meets env) h
  obtain ⟨signer, next, -, hreplied, hn⟩ := hissued.numbered
  obtain ⟨signer', der, raw, unsignedAttrs, hsigner, hder, henvelope⟩ := hissued.envelope
  refine ⟨t, id, draft, hstarted, hissued,
    ⟨id, signer.ski, next, World.mem_history.mp hreplied, hn⟩,
    t, draft, signer', der, raw, unsignedAttrs, hstarted, hissued.drafted, rfl, hsigner, hder,
    henvelope⟩

/-- An update writes. -/
theorem write_of_updates {t : Task} (hupdates : t.updates = true) {draft : Draft}
    (hdraft : t.draft env = .ok (some draft)) (id : Uuid) :
    ∃ q, draft.write id = some q ∧ q.writes = true := by
  cases t with
  | issueTrustAnchorUpdate target label signer edits =>
    simp only [Task.draft] at hdraft
    obtain ⟨prepared, -, hret⟩ := Cms.bind_eq_ok.mp hdraft
    obtain rfl := Option.some.inj (Except.ok.inj hret)
    exact ⟨_, rfl, rfl⟩
  | issueCommunityUpdate =>
    obtain rfl := Option.some.inj (Except.ok.inj hdraft)
    exact ⟨_, rfl, rfl⟩
  | issueApexUpdate target label signer apexTa clearTrustAnchors clearCommunities key =>
    simp only [Task.draft] at hdraft
    obtain ⟨identity, -, hrest⟩ := Cms.bind_eq_ok.mp hdraft
    obtain ⟨apexDer, -, hret⟩ := Cms.bind_eq_ok.mp hrest
    obtain rfl := Option.some.inj (Except.ok.inj hret)
    exact ⟨_, rfl, rfl⟩
  | issueStatusQuery => cases hupdates
  | issueSequenceNumberAdjust => cases hupdates
  | registerTargetSigner => cases hupdates
  | ingest => cases hupdates

/-- A successful call has committed. -/
theorem mem_commits_of_issued {i : ℕ} {t : Task} {m : IssuedMessage} {id : Uuid} {draft : Draft}
    (hupdates : t.updates = true) (h : Issued env t (cfg.world.history i) m id draft) :
    ∃ q, (i, q) ∈ commits cfg.world := by
  obtain ⟨q, hwrite, hq⟩ := write_of_updates hupdates h.drafted id
  obtain ⟨a, hreplied⟩ := h.written q hwrite
  exact ⟨q, mem_commits.mpr ⟨hq, a, World.mem_history.mp hreplied⟩⟩

/-- **A commit is of a successful call**, and its message says what was written. -/
theorem issued_of_commit (hcanonical : CanonicalKeys env)
    (hreach : (system env).Reach (InOrderFor env targetDer ski) (System.initial store) cfg)
    (hended : ∀ i t, cfg.world.Started i t → cfg.world.Ended i) {id : Uuid}
    (hid : ∀ row, cfg.world.store.targets.get targetDer = some row → row.id = id)
    {i : ℕ} {q : Query} (h : (i, q) ∈ commits cfg.world) :
    ∃ m message, .finish i (.ok (.issued m)) ∈ cfg.world.log ∧ Given cfg.world i m.seqNum ∧
      Carries env cfg.world i m message ∧ messageQuery env id message = .ok (some q) := by
  obtain ⟨hq, a, hcall⟩ := mem_commits.mp h
  obtain ⟨pre, post, hlog⟩ := List.append_of_mem hcall
  obtain ⟨mid, t, c, -, hpre, hmade⟩ := hreach.made (meets env) hlog
  have hstarted : cfg.world.Started i t := by
    obtain ⟨parent, hstart⟩ := hmade.running.started
    rw [hpre] at hstart
    refine ⟨parent, ?_⟩
    rw [hlog]
    exact List.mem_append_left _ hstart
  -- what the task was when it wrote
  obtain ⟨id', n, draft, hwrites⟩ : ∃ id n draft,
      Writes env t (mid.world.history i) id n draft q := by
    have hcalls := hmade.calls
    cases q with
    | applyTrustAnchorWrites => exact hcalls rfl
    | applyCommunityUpdate => exact hcalls rfl
    | applyApexUpdate => exact hcalls rfl
    | _ => cases hq
  -- the call did not fail
  rcases hended i t hstarted with ⟨r, hfinish⟩ | habort
  swap
  · exact absurd h (not_committed_of_abort hreach habort q)
  obtain ⟨t', hstarted', hresult⟩ := hreach.finished (meets env) hfinish
  have hresult : EndsWith env t' (cfg.world.history i) r := hresult
  obtain rfl := (hreach.wf (meets env)).started_unique hstarted hstarted'
  cases r with
  | error e => exact absurd hresult (not_noWrite_of_mem_commits h)
  | ok result =>
    cases result with
    | registered => exact absurd hresult (not_noWrite_of_mem_commits h)
    | ingested o => exact absurd hresult.1 (not_noWrite_of_mem_commits h)
    | issued m =>
      obtain ⟨t', id'', draft', hstarted'', hissued, hgiven, hcarries⟩ :=
        issued_of_finish hreach hfinish
      obtain rfl := (hreach.wf (meets env)).started_unique hstarted hstarted''
      obtain rfl : draft = draft' :=
        Option.some.inj (Except.ok.inj (hwrites.drafted.symm.trans hissued.drafted))
      obtain ⟨parent, hstart⟩ := hstarted
      obtain ⟨-, htarget, hown⟩ := started_inOrder hreach i t parent hstart
      -- the id that it found is that of the target
      have hids : id' = id := by
        obtain ⟨der, hder, hfound⟩ := hwrites.located
        obtain rfl : der = targetDer := Except.ok.inj (hder.symm.trans htarget)
        have hmem {e : Call} {r : Reply e} (hin : ⟨e, r⟩ ∈ mid.world.history i) :
            .call i e r ∈ cfg.world.log := by
          rw [hlog]
          refine List.mem_append_left _ ?_
          rw [← hpre]
          exact World.mem_history.mp hin
        have htold : HasId cfg.world.store der id' := by
          rcases hfound with ⟨row, rfl, hread⟩ | ⟨new, label, hinsert⟩
          · exact told_reach env hreach (hmem hread) .read
          · exact told_reach env hreach (hmem hinsert) .inserted
        obtain ⟨row, hrow, hrowId⟩ := htold
        rw [← hrowId, hid row hrow]
      refine ⟨m, draft.message m.seqNum, hfinish, hgiven, hcarries, ?_⟩
      rw [messageQuery_of_draft hcanonical hown hwrites.drafted, ← hids, hwrites.write]

/-- Folds of functions that agree. -/
theorem foldlM_eq_of_mem {α β : Type} {f : Store → α → Except String Store}
    {g : Store → β → Except String Store} {l : List α} {k : α → β}
    (h : ∀ a ∈ l, ∀ s, g s (k a) = f s a) (s : Store) : (l.map k).foldlM g s = l.foldlM f s := by
  induction l generalizing s with
  | nil => rfl
  | cons a l ih =>
    rw [List.map_cons, List.foldlM_cons, List.foldlM_cons, h a (List.mem_cons_self ..)]
    congr 1
    ext1 s₁
    exact ih (fun b hb => h b (List.mem_cons_of_mem _ hb)) s₁

theorem applyMessage_eq {id : Uuid} {message : OutboundMessage} {q : Query}
    (h : messageQuery env id message = .ok (some q)) (s : Store) :
    applyMessage env id s message = applyQuery s q := by
  unfold applyMessage
  rw [h]
  rfl

/-- **The order of the writes**: in every run of updates for one target and signer in which changes
name their own keys, writes are committed in the order of the numbers, no connection is lost at a
write and no call is dropped after it, once all calls have ended, the rows are what the messages of
the successful calls make of the rows at the start, in the order of their numbers. -/
theorem rows_agree (hcanonical : CanonicalKeys env)
    (hreach : (system env).Reach (InOrderFor env targetDer ski) (System.initial store) cfg)
    (hended : ∀ i t, cfg.world.Started i t → cfg.world.Ended i) :
    Agrees env store targetDer cfg.world := by
  obtain ⟨id, hid⟩ : ∃ id, ∀ row,
      cfg.world.store.targets.get targetDer = some row → row.id = id := by
    cases hget : cfg.world.store.targets.get targetDer with
    | none => exact ⟨⟨0⟩, fun row h => by cases h⟩
    | some row => exact ⟨row.id, fun row' h => by rw [Option.some.inj h]⟩
  have hserial := serial_reach hreach
  -- the number and the message of each commit
  have hcall (x : ℕ × Query) : ∃ y : ℕ × OutboundMessage, x ∈ commits cfg.world →
      ∃ m, .finish x.1 (.ok (.issued m)) ∈ cfg.world.log ∧ m.seqNum = y.1 ∧
        Given cfg.world x.1 y.1 ∧ Carries env cfg.world x.1 m y.2 ∧
        messageQuery env id y.2 = .ok (some x.2) := by
    by_cases hx : x ∈ commits cfg.world
    · obtain ⟨m, message, hfinish, hgiven, hcarries, hquery⟩ :=
        issued_of_commit hcanonical hreach hended hid (i := x.1) (q := x.2) hx
      exact ⟨(m.seqNum, message), fun _ => ⟨m, hfinish, rfl, hgiven, hcarries, hquery⟩⟩
    · exact ⟨(0, .SeqNumAdjust ⟨⟨.AllModules, 0⟩⟩), fun h => absurd h hx⟩
  choose f hf using hcall
  obtain ⟨s, hfold, -, hanchors, hcommunities⟩ := hserial.rows
  refine ⟨id, (commits cfg.world).map fun x => (x.1, f x), s, hid, ?_, ?_, ?_, hanchors,
    hcommunities⟩
  · intro i n message
    constructor
    · intro hmem
      obtain ⟨x, hx, heq⟩ := List.mem_map.mp hmem
      obtain ⟨m, hfinish, hn, -, hcarries, -⟩ := hf x hx
      obtain ⟨hi, hvalue⟩ := Prod.mk.inj heq
      rw [hvalue] at hn hcarries
      rw [hi] at hfinish hcarries
      exact ⟨m, hfinish, hn, hcarries⟩
    · rintro ⟨m, hfinish, rfl, hcarries⟩
      obtain ⟨t, id', draft, hstarted, hissued, hgiven, -⟩ := issued_of_finish hreach hfinish
      obtain ⟨parent, hstart⟩ := hstarted
      have hupdates := (started_inOrder hreach i t parent hstart).1
      obtain ⟨q, hcommit⟩ := mem_commits_of_issued hupdates hissued
      obtain ⟨m', -, hn', hgiven', hcarries', -⟩ := hf (i, q) hcommit
      -- both messages are the draft with the one number
      refine List.mem_map.mpr ⟨(i, q), hcommit, ?_⟩
      have hnumber : (f (i, q)).1 = m.seqNum := given_unique hreach hgiven' hgiven
      obtain ⟨t₁, draft₁, -, -, -, -, hstarted₁, hdraft₁, hmessage₁, -⟩ := hcarries
      obtain ⟨t₂, draft₂, -, -, -, -, hstarted₂, hdraft₂, hmessage₂, -⟩ := hcarries'
      obtain rfl := (hreach.wf (meets env)).started_unique hstarted₁ hstarted₂
      obtain rfl := Option.some.inj (Except.ok.inj (hdraft₁.symm.trans hdraft₂))
      rw [hn', hnumber] at hmessage₂
      refine Prod.ext rfl (Prod.ext hnumber ?_)
      exact hmessage₂.trans hmessage₁.symm
  · refine List.pairwise_map.mpr (hserial.increase.imp_of_mem fun {x y} hx hy hlt => ?_)
    obtain ⟨-, -, -, hgivenX, -⟩ := hf x hx
    obtain ⟨-, -, -, hgivenY, -⟩ := hf y hy
    exact hlt _ _ hgivenX hgivenY
  · rw [List.map_map]
    refine (foldlM_eq_of_mem (f := fun s (x : ℕ × Query) => applyQuery s x.2)
      (fun x hx s => ?_) _).trans ?_
    · obtain ⟨-, -, -, -, -, hquery⟩ := hf x hx
      exact applyMessage_eq hquery s
    · rw [List.foldlM_map] at hfold
      exact hfold

end

/-! ### An instance -/

/-- The keys 7 can be added and removed. -/
def orderEnv : Env := derEnv ⟨[ed25519 7], [], [], []⟩

/-- What is decoded has the encoding. -/
theorem encode_of_decode {α : Type} {encode : α → Except String (List UInt8)} {known : List α}
    {der : List UInt8} {a : α} (h : decode encode known der = .ok a) : encode a = .ok der := by
  unfold decode at h
  split at h
  · rename_i b hfind
    obtain rfl := Except.ok.inj h
    have hencode : (encode b).toOption = some der := by
      have hfound := List.find?_some hfind
      exact of_decide_eq_true hfound
    cases hb : encode b with
    | error e =>
      rw [hb] at hencode
      cases hencode
    | ok der' =>
      rw [hb] at hencode
      rw [Option.some.inj hencode]
  · cases h

theorem canonicalKeys_order : CanonicalKeys orderEnv := fun _ _ h => encode_of_decode h

/-- The event is the start of a task with these edits. -/
def startsEdits (i : ℕ) (edits : List TrustAnchorEdit) : TampEvent → Bool
  | .start j (.issueTrustAnchorUpdate target _ _ edits') _ =>
    j = i && target = .AllModules && edits' = edits
  | _ => false

/-- The number of the message that the event issues, with its task. -/
def issuedNumber : TampEvent → Option (ℕ × ℕ)
  | .finish i (.ok (.issued m)) => some (i, m.seqNum)
  | _ => none

theorem mem_issuedNumber {w : TampWorld} {i n : ℕ} : (i, n) ∈ w.log.filterMap issuedNumber ↔
    ∃ m, .finish i (.ok (.issued m)) ∈ w.log ∧ m.seqNum = n := by
  rw [List.mem_filterMap]
  constructor
  · rintro ⟨ev, hev, hnumber⟩
    unfold issuedNumber at hnumber
    split at hnumber
    · obtain ⟨rfl, rfl⟩ := Prod.mk.inj (Option.some.inj hnumber)
      exact ⟨_, hev, rfl⟩
    · cases hnumber
  · rintro ⟨m, hev, rfl⟩
    exact ⟨_, hev, rfl⟩

/-- The task is an update of the signer for all modules. -/
def ofSigner : TampEvent → Bool
  | .start _ (.issueTrustAnchorUpdate target _ signer' _) _ =>
    target = .AllModules && signer' = signer
  | .start .. => false
  | _ => true

theorem concerns_of_ofSigner {ev : TampEvent} (h : ofSigner ev = true) :
    Concerns orderEnv [0x83, 0x00] [0x01] ev := by
  cases ev with
  | start i t parent =>
    cases t with
    | issueTrustAnchorUpdate target label signer' edits =>
      have h : (decide (target = .AllModules) && decide (signer' = signer)) = true := h
      rw [Bool.and_eq_true, decide_eq_true_eq, decide_eq_true_eq] at h
      obtain ⟨rfl, rfl⟩ := h
      exact ⟨rfl, rfl, signer, rfl, rfl⟩
    | _ => cases h
  | _ => exact trivial

theorem started_of_startsEdits {w : TampWorld} {i : ℕ} {edits : List TrustAnchorEdit}
    (h : w.log.any (startsEdits i edits) = true) :
    ∃ label signer, w.Started i (.issueTrustAnchorUpdate .AllModules label signer edits) := by
  obtain ⟨ev, hev, hstarts⟩ := List.any_eq_true.mp h
  unfold startsEdits at hstarts
  split at hstarts
  · simp only [Bool.and_eq_true, decide_eq_true_eq] at hstarts
    obtain ⟨⟨rfl, rfl⟩, rfl⟩ := hstarts
    exact ⟨_, _, _, hev⟩
  · cases hstarts

/-- The edits of the two tasks: key 7 is added, and it is removed. -/
def additionOfSeven : List TrustAnchorEdit := [.Add (anchor 7)]

def removalOfSeven : List TrustAnchorEdit := [.Remove (spkiDer (ed25519 7))]

/-- Their messages. -/
def messageAdd : OutboundMessage := .Update ⟨⟨.AllModules, 1⟩, [.Add (anchor 7)]⟩

def messageRemove : OutboundMessage := .Update ⟨⟨.AllModules, 2⟩, [.Remove (ed25519 7)]⟩

/-- The removal gets its number after the addition, and is written before it. -/
def overtaking : List (Action Task Choice) :=
  whole 0 (.issueTrustAnchorUpdate .AllModules "all" signer additionOfSeven) 6 ++
    whole 1 (.issueTrustAnchorUpdate .AllModules "all" signer removalOfSeven) 7 ++ steps 0 4

/-- The rows after the two messages, in the order of their numbers. -/
def inNumberOrder (w : TampWorld) : Except String Store :=
  [messageAdd, messageRemove].foldlM (applyMessage orderEnv ⟨1⟩)
    { ({} : Store) with targets := w.store.targets }

/-- The two messages were issued, and the rows are not what they say, as a check. -/
def checkOvertaken (w : TampWorld) : Bool :=
  w.log.any (startsEdits 0 additionOfSeven) && w.log.any (startsEdits 1 removalOfSeven) &&
    w.log.all (fun ev => ev.task < 2) && w.log.filterMap issuedNumber = [(1, 2), (0, 1)] &&
    (w.store.targets.get [0x83, 0x00]).map (·.id) = some ⟨1⟩ &&
    (inNumberOrder w).toOption.map (·.trustAnchors.rows.length) = some 0 &&
    w.store.trustAnchors.rows.length = 1

theorem check_overtaking : ((system orderEnv).run (fun _ => ofSigner) overtaking
    (System.initial {})).map (fun cfg => checkOvertaken cfg.world) = some true := by
  decide +kernel

/-- The message of a task with these edits. -/
theorem carries_of_started {w : TampWorld} (hwf : w.Wf) {i : ℕ} {edits : List TrustAnchorEdit}
    {prepared : List (TrustAnchorUpdate × TrustAnchorWrite)}
    (hstarts : w.log.any (startsEdits i edits) = true)
    (hprepared : edits.mapM (editDraft orderEnv) = .ok prepared) {m : IssuedMessage}
    {message : OutboundMessage} (h : Carries orderEnv w i m message) :
    message = .Update ⟨⟨.AllModules, m.seqNum⟩, prepared.map (·.1)⟩ := by
  obtain ⟨t, draft, -, -, -, -, hstarted, hdraft, hmessage, -⟩ := h
  obtain ⟨label, signer', hstarted'⟩ := started_of_startsEdits hstarts
  obtain rfl := hwf.started_unique hstarted hstarted'
  simp only [Task.draft] at hdraft
  rw [hprepared] at hdraft
  obtain rfl := Option.some.inj (Except.ok.inj hdraft)
  exact hmessage

theorem prepared_additionOfSeven : additionOfSeven.mapM (editDraft orderEnv) =
    .ok [(.Add (anchor 7), .Insert (spkiDer (ed25519 7)) (some [7]) none false
      ((anchorDer (anchor 7)).toOption.getD []))] := by
  rfl

theorem prepared_removalOfSeven : removalOfSeven.mapM (editDraft orderEnv) =
    .ok [(.Remove (ed25519 7), .Remove (spkiDer (ed25519 7)))] := by
  rfl

/-- A list in order that has these two members. -/
theorem eq_pair_of_pairwise {α : Type} {l : List (ℕ × ℕ × α)} {a b : ℕ × ℕ × α}
    (hl : ∀ x, x ∈ l ↔ x = a ∨ x = b) (hlt : a.2.1 < b.2.1)
    (hpairwise : l.Pairwise fun x y => x.2.1 < y.2.1) : l = [a, b] := by
  have hpair : [a, b].Pairwise fun x y : ℕ × ℕ × α => x.2.1 < y.2.1 :=
    List.pairwise_pair.mpr hlt
  have hmem : ∀ x, x ∈ l ↔ x ∈ [a, b] := fun x => by
    rw [hl, List.mem_cons, List.mem_singleton]
  have hne {l : List (ℕ × ℕ × α)} (h : l.Pairwise fun x y => x.2.1 < y.2.1) : l.Nodup :=
    h.imp fun {x y} hlt heq => absurd (heq ▸ hlt) (lt_irrefl _)
  have hperm : l.Perm [a, b] :=
    (List.perm_ext_iff_of_nodup (hne hpairwise) (hne hpair)).mpr hmem
  refine hperm.eq_of_pairwise (fun x y _ _ hxy hyx => absurd hxy hyx.asymm) hpairwise hpair

/-- **A removal that overtakes.** -/
theorem rows_disagree : CanonicalKeys orderEnv ∧ ∃ cfg : TampState,
    (system orderEnv).Reach (fun _ => Concerns orderEnv [0x83, 0x00] [0x01]) (System.initial {})
      cfg ∧ (∀ i t, cfg.world.Started i t → cfg.world.Ended i) ∧
      ¬Agrees orderEnv {} [0x83, 0x00] cfg.world := by
  obtain ⟨cfg, hcfg, hvalue⟩ := Option.map_eq_some_iff.mp check_overtaking
  unfold checkOvertaken at hvalue
  simp only [Bool.and_eq_true, decide_eq_true_eq] at hvalue
  obtain ⟨⟨⟨⟨⟨⟨hadd, hremove⟩, htasks⟩, hissued⟩, hrowId⟩, hempty⟩, hone⟩ := hvalue
  have hreach := System.reach_of_run
    (fun (w : TampWorld) ev (h : ofSigner ev = true) => concerns_of_ofSigner h) _ hcfg
  have hwf := System.Reach.wf (meets orderEnv) hreach
  have hfinish {i n : ℕ} : (∃ m, .finish i (.ok (.issued m)) ∈ cfg.world.log ∧ m.seqNum = n) ↔
      (i, n) = (1, 2) ∨ (i, n) = (0, 1) := by
    rw [← mem_issuedNumber, hissued, List.mem_cons, List.mem_singleton]
  refine ⟨canonicalKeys_order, cfg, hreach, fun i t hstarted => ?_, ?_⟩
  · obtain ⟨parent, hstart⟩ := hstarted
    have hlt : i < 2 := of_decide_eq_true (List.all_eq_true.mp htasks _ hstart)
    have hnumber : ∃ n, (i, n) = (1, 2) ∨ (i, n) = (0, 1) := by
      interval_cases i
      · exact ⟨1, .inr rfl⟩
      · exact ⟨2, .inl rfl⟩
    obtain ⟨n, hn⟩ := hnumber
    obtain ⟨m, hmem, -⟩ := hfinish.mpr hn
    exact .inl ⟨_, hmem⟩
  · rintro ⟨id, calls, s, hid, hsuccessful, hpairwise, hfold, hanchors, -⟩
    obtain ⟨row, hrow, hrowId⟩ := Option.map_eq_some_iff.mp hrowId
    obtain rfl : (⟨1⟩ : Uuid) = id := by rw [← hrowId, hid row hrow]
    -- the two messages, in the order of their numbers
    have hcalls : calls = [(0, 1, messageAdd), (1, 2, messageRemove)] := by
      refine eq_pair_of_pairwise (fun x => ?_) (by decide) hpairwise
      obtain ⟨i, n, message⟩ := x
      have hof {m : IssuedMessage} {message : OutboundMessage} (hm : m.seqNum = n)
          (hcarries : Carries orderEnv cfg.world i m message)
          (hn : (i, n) = (1, 2) ∨ (i, n) = (0, 1)) :
          (i, n, message) = (0, 1, messageAdd) ∨ (i, n, message) = (1, 2, messageRemove) := by
        rcases hn with hn | hn
        · obtain ⟨rfl, rfl⟩ := Prod.mk.inj hn
          have hmessage := carries_of_started hwf hremove prepared_removalOfSeven hcarries
          rw [hm] at hmessage
          exact .inr (by rw [hmessage]; rfl)
        · obtain ⟨rfl, rfl⟩ := Prod.mk.inj hn
          have hmessage := carries_of_started hwf hadd prepared_additionOfSeven hcarries
          rw [hm] at hmessage
          exact .inl (by rw [hmessage]; rfl)
      constructor
      · intro hmem
        obtain ⟨m, hmem, hm, hcarries⟩ := (hsuccessful i n message).mp hmem
        exact hof hm hcarries (hfinish.mp ⟨m, hmem, hm⟩)
      · intro heq
        have hn : (i, n) = (1, 2) ∨ (i, n) = (0, 1) := by
          rcases heq with heq | heq
          · obtain ⟨rfl, h⟩ := Prod.mk.inj heq
            exact .inr (by rw [(Prod.mk.inj h).1])
          · obtain ⟨rfl, h⟩ := Prod.mk.inj heq
            exact .inl (by rw [(Prod.mk.inj h).1])
        obtain ⟨m, hmem, hm⟩ := hfinish.mpr hn
        obtain ⟨t, id, draft, -, -, -, hcarries⟩ := issued_of_finish hreach hmem
        have hsame : draft.message m.seqNum = message := by
          rcases hof hm hcarries hn with h | h <;> rcases heq with h' | h' <;>
            simp only [Prod.mk.injEq] at h h'
          · rw [h.2.2, h'.2.2]
          · omega
          · omega
          · rw [h.2.2, h'.2.2]
        exact (hsuccessful i n message).mpr ⟨m, hmem, hm, hsame ▸ hcarries⟩
    rw [hcalls] at hfold
    have hfold : inNumberOrder cfg.world = .ok s := hfold
    rw [hfold] at hempty
    have hempty : s.trustAnchors.rows.length = 0 := Option.some.inj hempty
    rw [hanchors, hone] at hempty
    cases hempty

/-- The key is added by itself. -/
def addingSeven : List (Action Task Choice) :=
  whole 0 (.issueTrustAnchorUpdate .AllModules "all" signer additionOfSeven) 10

/-- The step is one of a run with one write, of the addition. -/
def addsOnce (w : TampWorld) : TampEvent → Bool
  | .start _ (.issueTrustAnchorUpdate target _ signer' edits) _ =>
    target = .AllModules && signer' = signer && edits = additionOfSeven
  | .start .. => false
  | .call _ (.db q) r => !q.writes || (DbReply.isOk r && (commits w).isEmpty)
  | .abort _ => false
  | _ => true

theorem inOrder_of_addsOnce {w : TampWorld} {ev : TampEvent} (h : addsOnce w ev = true) :
    InOrderFor orderEnv [0x83, 0x00] [0x01] w ev := by
  cases ev with
  | start i t parent =>
    cases t with
    | issueTrustAnchorUpdate target label signer' edits =>
      have h : (decide (target = .AllModules) && decide (signer' = signer) &&
        decide (edits = additionOfSeven)) = true := h
      rw [Bool.and_eq_true, Bool.and_eq_true, decide_eq_true_eq, decide_eq_true_eq,
        decide_eq_true_eq] at h
      obtain ⟨⟨rfl, rfl⟩, rfl⟩ := h
      refine ⟨⟨rfl, rfl, signer, rfl, rfl⟩, fun edit hedit => ?_⟩
      obtain rfl := List.mem_singleton.mp hedit
      exact trivial
    | _ => cases h
  | call i e r =>
    cases e with
    | db q =>
      have h : (!q.writes || (DbReply.isOk r && (commits w).isEmpty)) = true := h
      rw [Bool.or_eq_true, Bool.not_eq_true', Bool.and_eq_true, List.isEmpty_iff] at h
      refine ⟨trivial, fun hq hr => ?_, fun hcommitted j q' hmem => ?_⟩
      · rw [hr, hq] at h
        rcases h with h | h
        · cases h
        · cases h.1
      · rcases h with h | h
        · refine absurd ?_ hcommitted
          show (if q.writes && _ then _ else _) = _
          rw [h]
          rfl
        · rw [h.2] at hmem
          cases hmem
    | _ => exact ⟨trivial, trivial⟩
  | finish => exact ⟨trivial, trivial⟩
  | abort => cases h

theorem check_addingSeven : ((system orderEnv).run addsOnce addingSeven (System.initial {})).map
    (fun cfg => cfg.world.log.all (fun ev => ev.task < 1) &&
      cfg.world.log.filterMap issuedNumber = [(0, 1)] &&
      cfg.world.store.trustAnchors.rows.length = 1) = some true := by
  decide +kernel

/-- The rows agree after the addition. -/
theorem addition_agrees : ∃ cfg : TampState, cfg.world.store.trustAnchors.rows.length = 1 ∧
    Agrees orderEnv {} [0x83, 0x00] cfg.world := by
  obtain ⟨cfg, hcfg, hvalue⟩ := Option.map_eq_some_iff.mp check_addingSeven
  simp only [Bool.and_eq_true, decide_eq_true_eq] at hvalue
  obtain ⟨⟨htasks, hissued⟩, hone⟩ := hvalue
  refine ⟨cfg, hone, rows_agree canonicalKeys_order
    (System.reach_of_run (fun _ _ => inOrder_of_addsOnce) _ hcfg) fun i t hstarted => ?_⟩
  obtain ⟨parent, hstart⟩ := hstarted
  have hlt : i < 1 := of_decide_eq_true (List.all_eq_true.mp htasks _ hstart)
  have hmem : (i, 1) ∈ cfg.world.log.filterMap issuedNumber := by
    rw [hissued, Nat.lt_one_iff.mp hlt]
    exact List.mem_singleton_self _
  obtain ⟨m, hfinish, -⟩ := mem_issuedNumber.mp hmem
  exact .inl ⟨_, hfinish⟩

end Ostrich.Tamp
