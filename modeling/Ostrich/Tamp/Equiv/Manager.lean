import Ostrich.Tamp.Equiv.Cms
import Ostrich.Tamp.Equiv.Repository

/-!
# What the calls of the TAMP manager do

A task that issues a message has a draft (`Task.draft`): the message for each number, and the query
that writes its edits.  `spec` says of every task which counters it advances, what it writes and
how it ends, and `meets` that the programs keep to it:

* a number is allocated once, and a write comes after it and only once;
* a message that was issued has the number, and its write was committed;
* a call that failed has committed no write;
* a message that was ingested verified, and its number was checked.
-/

namespace Ostrich.Tamp

open Interleave Table

/-- The history of a task. -/
abbrev Trace : Type := History Call Reply

/-- The query was answered. -/
def Replied (h : Trace) (q : Query) (a : q.Result) : Prop := ⟨.db q, .ok a⟩ ∈ h

/-! ### Rules -/

section

variable {calls : Trace → Call → Prop} {h : Trace} {α β : Type}

theorem does_await {e : Call} {result : Reply e → Trace → Prop} :
    (await e).Does calls result h ↔ calls h e ∧ ∀ r, result r (h ++ [⟨e, r⟩]) :=
  Prog.does_perform e

theorem does_query {q : Query} {result : q.Result → Trace → Prop} (hq : calls h (.db q))
    (hresult : ∀ a, result a (h ++ [⟨.db q, .ok a⟩])) : (query q).Does calls result h := by
  unfold query
  rw [Prog.does_bind, does_await]
  refine ⟨hq, fun r => ?_⟩
  cases r with
  | ok a => exact (Prog.does_pure a).mpr (hresult a)
  | error e => exact (Prog.does_fail _).mpr trivial
  | lost => exact (Prog.does_fail _).mpr trivial

/-- A program that starts with a call. -/
theorem wp_await {e : Call} {f : Reply e → TampM α} {result : Except Error α → Trace → Prop} :
    (await e >>= f).Wp calls result h ↔
      calls h e ∧ ∀ r, (f r).Wp calls result (h ++ [⟨e, r⟩]) := Prog.wp_bind _

/-- A program that starts with a query. -/
theorem wp_query {q : Query} {f : q.Result → TampM α} {result : Except Error α → Trace → Prop}
    (hq : calls h (.db q)) (hok : ∀ a, (f a).Wp calls result (h ++ [⟨.db q, .ok a⟩]))
    (herror : ∀ e r, (∀ a, r ≠ .ok a) → result (.error e) (h ++ [⟨.db q, r⟩])) :
    (query q >>= f).Wp calls result h := by
  unfold query
  rw [Prog.bind_assoc, wp_await]
  refine ⟨hq, fun r => ?_⟩
  cases r with
  | ok a => exact hok a
  | error e => exact herror _ _ (by simp)
  | lost => exact herror _ _ (by simp)

end

/-! ### Kinds of calls -/

/-- The query changes trust anchors or communities. -/
def Query.writes : Query → Bool
  | .applyTrustAnchorWrites .. | .applyCommunityUpdate .. | .applyApexUpdate .. => true
  | _ => false

/-- The call neither advances a counter nor writes. -/
def Call.plain : Call → Bool
  | .db (.allocateNextSeq ..) | .db (.checkAndAdvanceSeq ..) => false
  | .db q => !q.writes
  | _ => true

/-- The history grew by plain calls. -/
abbrev Grows (h h' : Trace) : Prop := History.Grows Call.plain h h'

/-- No write was committed. -/
def NoWrite (h : Trace) : Prop := ∀ q : Query, q.writes = true → ∀ a, ¬Replied h q a

/-- No number was allocated. -/
def NoNumber (h : Trace) : Prop := ∀ id ski r, ⟨.db (.allocateNextSeq id ski), r⟩ ∉ h

theorem noWrite_nil : NoWrite [] := fun _ _ _ => List.not_mem_nil

theorem noNumber_nil : NoNumber [] := fun _ _ _ => List.not_mem_nil

/-- A write is not plain. -/
theorem plain_of_writes {q : Query} (h : q.writes = true) : (Call.db q).plain = false := by
  cases q <;> first | rfl | cases h

theorem NoWrite.grows {h h' : Trace} (hno : NoWrite h) (hgrow : Grows h h') : NoWrite h' :=
  fun q hq a => hgrow.not_mem (plain_of_writes hq) (hno q hq a)

theorem NoNumber.grows {h h' : Trace} (hno : NoNumber h) (hgrow : Grows h h') : NoNumber h' :=
  fun id ski r => hgrow.not_mem rfl (hno id ski r)

/-- One more call that commits no write. -/
theorem NoWrite.concat {h : Trace} (hno : NoWrite h) {e : Call} {r : Reply e}
    (hnew : ∀ q a, q.writes = true → (⟨.db q, .ok a⟩ : (e : Call) × Reply e) ≠ ⟨e, r⟩) :
    NoWrite (h ++ [⟨e, r⟩]) := by
  intro q hq a hmem
  rcases List.mem_append.mp hmem with hmem | hmem
  · exact hno q hq a hmem
  · exact hnew q a hq (List.mem_singleton.mp hmem)

/-! ### Drafts -/

variable (env : Env)

/-- What an edit says on the wire, and its write. -/
def editDraft : TrustAnchorEdit → Except Error (TrustAnchorUpdate × TrustAnchorWrite)
  | .Add ta => do
    let identity ← taIdentity env ta
    let taDer ← Cms.asn1 (env.anchorToDer ta)
    return (.Add ta, .Insert identity.1 identity.2.1 identity.2.2 false taDer)
  | .Remove spki => do
    let spkiInfo ← Cms.asn1 (env.spkiFromDer spki)
    return (.Remove spkiInfo, .Remove spki)
  | .Change spki change => do
    let taDer ← Cms.asn1 (env.changeToDer change)
    return (.Change change, .Update spki taDer)

/-- A message for each number, and what is written for each target. -/
structure Draft where
  message : ℕ → OutboundMessage
  write : Uuid → Option Query

def updateDraft (target : TargetIdentifier)
    (prepared : List (TrustAnchorUpdate × TrustAnchorWrite)) : Draft where
  message n := .Update { msgRef := { target, seqNum := n }, updates := prepared.map (·.1) }
  write id := some (.applyTrustAnchorWrites id (prepared.map (·.2)))

def statusQueryDraft (target : TargetIdentifier) (terse : Bool) : Draft where
  message n := .StatusQuery
    { terse := if terse then .Terse else .Verbose, query := { target, seqNum := n } }
  write _ := none

def communityDraft (target : TargetIdentifier) (add remove : List ObjectIdentifier) : Draft where
  message n := .CommunityUpdate
    { msgRef := { target, seqNum := n }
      remove := if remove.isEmpty then none else some remove
      add := if add.isEmpty then none else some add }
  write id := some (.applyCommunityUpdate id remove add)

def adjustDraft (target : TargetIdentifier) : Draft where
  message n := .SeqNumAdjust { msgRef := { target, seqNum := n } }
  write _ := none

def apexDraft (target : TargetIdentifier) (apexTa : TrustAnchorChoice)
    (clearTrustAnchors clearCommunities : Bool) (prepared : TaIdentity × List UInt8) : Draft where
  message n := .ApexUpdate
    { msgRef := { target, seqNum := n }, clearTrustAnchors, clearCommunities
      seqNumber := some n, apexTa }
  write id := some (.applyApexUpdate id clearTrustAnchors clearCommunities prepared.1.1
    prepared.1.2.1 prepared.1.2.2 prepared.2)

/-- What a task is going to say and write. -/
def Task.draft : Task → Except Error (Option Draft)
  | .issueStatusQuery target _ _ terse => .ok (some (statusQueryDraft target terse))
  | .issueTrustAnchorUpdate target _ _ edits => do
    let prepared ← edits.mapM (editDraft env)
    return some (updateDraft target prepared)
  | .issueCommunityUpdate target _ _ add remove => .ok (some (communityDraft target add remove))
  | .issueSequenceNumberAdjust target _ _ => .ok (some (adjustDraft target))
  | .issueApexUpdate target _ _ apexTa clearTrustAnchors clearCommunities _ => do
    let identity ← taIdentity env apexTa
    let apexDer ← Cms.asn1 (env.anchorToDer apexTa)
    return some (apexDraft target apexTa clearTrustAnchors clearCommunities (identity, apexDer))
  | .registerTargetSigner .. | .ingest .. => .ok none

def Task.target : Task → TargetIdentifier
  | .issueStatusQuery target .. | .issueTrustAnchorUpdate target .. => target
  | .issueCommunityUpdate target .. | .issueSequenceNumberAdjust target .. => target
  | .issueApexUpdate target .. | .registerTargetSigner target .. | .ingest target .. => target

/-- Whose messages the task issues. -/
def Task.signer : Task → Option SignerContext
  | .issueStatusQuery _ _ signer _ | .issueTrustAnchorUpdate _ _ signer _ => some signer
  | .issueCommunityUpdate _ _ signer _ _ | .issueSequenceNumberAdjust _ _ signer => some signer
  | .issueApexUpdate _ _ signer _ _ _ _ => some signer
  | .registerTargetSigner .. | .ingest .. => none

/-! ### The specification -/

/-- The id of the target with this encoding was read, or its row was inserted. -/
def Found (targetDer : List UInt8) (id : Uuid) (h : Trace) : Prop :=
  (∃ row, row.id = id ∧ Replied h (.findTargetByDer targetDer) (some row)) ∨
    ∃ new label, Replied h (.insertTarget new label targetDer true) id

/-- The task found its target. -/
def Located (t : Task) (id : Uuid) (h : Trace) : Prop :=
  ∃ targetDer, env.targetToDer t.target = .ok targetDer ∧ Found targetDer id h

/-- The task was given this number. -/
def Numbered (t : Task) (id : Uuid) (n : ℕ) (h : Trace) : Prop :=
  ∃ signer next, t.signer = some signer ∧ Replied h (.allocateNextSeq id signer.ski) next ∧
    n = asU64 next

/-- The task can write this now. -/
structure Writes (t : Task) (h : Trace) (id : Uuid) (n : ℕ) (draft : Draft) (q : Query) :
    Prop where
  located : Located env t id h
  numbered : Numbered t id n h
  drafted : t.draft env = .ok (some draft)
  write : draft.write id = some q
  encoded : ∃ der, env.messageToDer (draft.message n) = .ok der
  noWrite : NoWrite h

/-- The task can be given a number now. -/
structure Allocates (t : Task) (h : Trace) (id : Uuid) (ski : List UInt8) : Prop where
  located : Located env t id h
  signer : ∃ signer, t.signer = some signer ∧ signer.ski = ski
  noNumber : NoNumber h
  noWrite : NoWrite h

/-- What is known of a message that was issued. -/
structure Issued (t : Task) (h : Trace) (m : IssuedMessage) (id : Uuid) (draft : Draft) :
    Prop where
  located : Located env t id h
  numbered : Numbered t id m.seqNum h
  drafted : t.draft env = .ok (some draft)
  envelope : ∃ signer der raw unsignedAttrs, t.signer = some signer ∧
    env.messageToDer (draft.message m.seqNum) = .ok der ∧
    Cms.envelope env.codec signer.ski m.contentType der signer.algorithm unsignedAttrs raw =
      .ok m.envelope
  written : ∀ q, draft.write id = some q → ∃ a, Replied h q a

/-- What is known of a message that was ingested. -/
structure Ingested (contentInfoDer : List UInt8) (t : Task) (h : Trace) (o : IngestOutcome)
    (id : Uuid) (parsed : Cms.ParsedTampMessage) (spki : List UInt8) : Prop where
  located : Located env t id h
  parses : Cms.parse env.codec contentInfoDer = .ok parsed
  key : Replied h (.findTargetSignerSpki id parsed.signerSki) (some spki)
  verified : Cms.verify env.codec parsed spki = .ok ()
  decoded : decodeInbound env parsed.contentType parsed.content =
    .ok (o.messageName, o.seqNum, o.statusCodes)
  contentType : o.contentType = parsed.contentType
  checked : ∀ n, o.seqNum = some n → (n : ℤ) ≤ maxBigint ∧
    Replied h (.checkAndAdvanceSeq id parsed.signerSki n) true

/-- A call that the task can make now. -/
def Admitted (t : Task) (h : Trace) : Call → Prop
  | .db (.allocateNextSeq id ski) => Allocates env t h id ski
  | .db (.checkAndAdvanceSeq _ _ n) => t.signer = none ∧ 0 ≤ n ∧ n ≤ maxBigint
  | .db q => q.writes = true → ∃ id n draft, Writes env t h id n draft q
  | _ => True

/-- How the task can end. -/
def EndsWith (t : Task) (h : Trace) : Except Error Result → Prop
  | .ok (.issued m) => ∃ id draft, Issued env t h m id draft
  | .ok .registered => NoWrite h
  | .ok (.ingested o) => NoWrite h ∧ ∃ target label contentInfoDer,
    t = .ingest target label contentInfoDer ∧ ∃ id parsed spki,
      Ingested env contentInfoDer t h o id parsed spki
  | .error _ => NoWrite h

/-- What the tasks do. -/
def spec : Spec Call Reply Error Result Task where
  calls := Admitted env
  result t r h := EndsWith env t h r

/-! ### Parts of the programs -/

section

variable {env} {t : Task} {h : Trace}

theorem admitted_of_plain {e : Call} (he : e.plain = true) : Admitted env t h e := by
  cases e with
  | db q =>
    cases q with
    | allocateNextSeq => cases he
    | checkAndAdvanceSeq => cases he
    | applyTrustAnchorWrites => cases he
    | applyCommunityUpdate => cases he
    | applyApexUpdate => cases he
    | _ => exact fun hq => Bool.noConfusion hq
  | _ => exact trivial

theorem admitted_of_writes {q : Query} (hq : q.writes = true) {id : Uuid} {n : ℕ} {draft : Draft}
    (h' : Writes env t h id n draft q) : Admitted env t h (.db q) := by
  cases q with
  | applyTrustAnchorWrites => exact fun _ => ⟨id, n, draft, h'⟩
  | applyCommunityUpdate => exact fun _ => ⟨id, n, draft, h'⟩
  | applyApexUpdate => exact fun _ => ⟨id, n, draft, h'⟩
  | _ => exact Bool.noConfusion hq

/-- A part that makes plain calls. -/
def Plain {α : Type} (p : TampM α) (good : α → Trace → Prop) (h : Trace) : Prop :=
  p.Does (fun _ e => e.plain = true) good h

/-- **The rule for a part that makes plain calls.** -/
theorem Plain.bind {α β : Type} {p : TampM α} {good : α → Trace → Prop} {f : α → TampM β}
    {result : Except Error β → Trace → Prop} (hp : Plain p good h)
    (hok : ∀ a h', Grows h h' → good a h' → (f a).Wp (Admitted env t) result h')
    (herror : ∀ e h', Grows h h' → result (.error e) h') :
    (p >>= f).Wp (Admitted env t) result h := by
  rw [Prog.wp_bind]
  have hwithin : p.Wp (Admitted env t) _ h := Prog.Wp.within hp fun _ _ => admitted_of_plain
  refine hwithin.mono fun r h' hr => ?_
  cases r with
  | ok a => exact hok a h' hr.1 (hr.2 a rfl)
  | error e => exact herror e h' hr.1

theorem plain_getOrCreateTarget (targetDer : List UInt8) (label : String) :
    Plain (getOrCreateTarget targetDer label) (fun id h' => Found targetDer id h') h := by
  unfold Plain getOrCreateTarget
  rw [Prog.does_bind]
  refine does_query rfl fun row => ?_
  cases row with
  | some row =>
    refine (Prog.does_pure _).mpr (.inl ⟨row, rfl, ?_⟩)
    exact List.mem_append_right _ (List.mem_singleton_self _)
  | none =>
    dsimp only
    rw [Prog.does_bind, does_await]
    refine ⟨rfl, fun new => does_query (q := .insertTarget new label targetDer true) rfl
      fun id => ?_⟩
    exact .inr ⟨new, label, List.mem_append_right _ (List.mem_singleton_self _)⟩

theorem plain_prepareEdit (id : Uuid) (edit : TrustAnchorEdit) :
    Plain (prepareEdit env id edit) (fun prepared _ => editDraft env edit = .ok prepared) h := by
  unfold Plain
  cases edit with
  | Add ta =>
    unfold prepareEdit
    rw [Prog.does_bind, Prog.does_ofExcept]
    intro identity hidentity
    obtain ⟨spki, keyId, title⟩ := identity
    dsimp only
    rw [Prog.does_bind]
    refine does_query rfl fun present => ?_
    split_ifs
    · exact (Prog.does_fail _).mpr trivial
    · rw [Prog.does_bind, Prog.does_ofExcept]
      intro taDer hder
      refine (Prog.does_pure _).mpr ?_
      simp only [editDraft]
      rw [hidentity, hder]
      rfl
  | Remove spki =>
    unfold prepareEdit
    rw [Prog.does_bind, Prog.does_ofExcept]
    intro info hinfo
    refine (Prog.does_pure _).mpr ?_
    simp only [editDraft]
    rw [hinfo]
    rfl
  | Change spki change =>
    unfold prepareEdit
    rw [Prog.does_bind]
    refine does_query rfl fun present => ?_
    split_ifs
    · exact (Prog.does_fail _).mpr trivial
    · rw [Prog.does_bind, Prog.does_ofExcept]
      intro taDer hder
      refine (Prog.does_pure _).mpr ?_
      simp only [editDraft]
      rw [hder]
      rfl

/-- The edits are prepared one by one. -/
theorem plain_prepareEdits (id : Uuid) (edits : List TrustAnchorEdit) :
    Plain (prepareEdits env id edits)
      (fun prepared _ => edits.mapM (editDraft env) = .ok prepared) h := by
  unfold Plain
  induction edits generalizing h with
  | nil => exact (Prog.does_pure _).mpr rfl
  | cons edit edits ih =>
    unfold prepareEdits
    rw [Prog.does_bind]
    refine (plain_prepareEdit id edit).mono fun prepared h₁ hprepared => ?_
    rw [Prog.does_bind]
    refine ih.mono fun rest h₂ hrest => ?_
    refine (Prog.does_pure _).mpr ?_
    rw [List.mapM_cons, hprepared, hrest]
    rfl

theorem plain_signMessageWithUnsignedAttrs (signer : SignerContext)
    (contentType : ObjectIdentifier) (content : List UInt8)
    (unsignedAttrs : List (ObjectIdentifier × Any)) :
    Plain (signMessageWithUnsignedAttrs env signer contentType content unsignedAttrs)
      (fun envelope _ => ∃ raw unsignedAttrs, Cms.envelope env.codec signer.ski contentType content
        signer.algorithm unsignedAttrs raw = .ok envelope) h := by
  unfold Plain signMessageWithUnsignedAttrs
  rw [Prog.does_bind, Prog.does_ofExcept]
  intro tbs _
  rw [Prog.does_bind, does_await]
  refine ⟨rfl, fun raw => ?_⟩
  rw [Prog.does_bind, Prog.does_ofExcept]
  intro rawSig _
  rw [Prog.does_ofExcept]
  exact fun envelope henvelope => ⟨rawSig, unsignedAttrs, henvelope⟩

theorem plain_signApexUpdate (signer : SignerContext) (der : List UInt8)
    (contingencyDecryptKey : Option (List UInt8)) :
    Plain (signApexUpdate env signer der contingencyDecryptKey)
      (fun envelope _ => ∃ raw unsignedAttrs, Cms.envelope env.codec signer.ski
        Oids.idCtTampApexUpdate der signer.algorithm unsignedAttrs raw = .ok envelope) h := by
  cases contingencyDecryptKey with
  | none => exact plain_signMessageWithUnsignedAttrs signer _ der []
  | some key =>
    unfold Plain signApexUpdate
    rw [Prog.does_bind, Prog.does_ofExcept]
    exact fun unsignedAttrs _ => plain_signMessageWithUnsignedAttrs signer _ der unsignedAttrs

/-- A message is issued after its write; this does not fail. -/
theorem wp_finalize {label messageName : String} {contentType : ObjectIdentifier} {seq : ℕ}
    {envelope : List UInt8} {result : Except Error IssuedMessage → Trace → Prop}
    (hresult : ∀ h', Grows h h' →
      result (.ok { contentType, messageName, seqNum := seq, envelope }) h') :
    (finalize label contentType messageName seq envelope).Wp (Admitted env t) result h := by
  unfold finalize
  rw [wp_await]
  refine ⟨admitted_of_plain rfl, fun logged => ?_⟩
  rw [wp_await]
  refine ⟨admitted_of_plain rfl, fun audited => ?_⟩
  exact hresult _ ((grows_one rfl logged).trans (grows_one rfl audited))

/-- A result of a crate. -/
theorem wp_ofExcept {α β : Type} {x : Except Error α} {f : α → TampM β}
    {result : Except Error β → Trace → Prop}
    (hok : ∀ a, x = .ok a → (f a).Wp (Admitted env t) result h)
    (herror : ∀ e, result (.error e) h) :
    (Prog.ofExcept x >>= f).Wp (Admitted env t) result h := by
  cases x with
  | ok a => exact hok a rfl
  | error e => exact herror e

end

/-! ### Issuing -/

/-- A query that may have to be run. -/
def commit : Option Query → TampM Unit
  | none => return ()
  | some q => do
    let _ ← query q

/-- What the tasks that issue a message have in common. -/
def issue {α : Type} (target : TargetIdentifier) (label : String) (signer : SignerContext)
    (contentType : ObjectIdentifier) (messageName : String) (prepare : Uuid → TampM α)
    (draft : α → Draft) (sign : List UInt8 → TampM (List UInt8)) : TampM IssuedMessage := do
  let targetDer ← Prog.ofExcept (Cms.asn1 (env.targetToDer target))
  let targetId ← getOrCreateTarget targetDer label
  let prepared ← prepare targetId
  let seq ← nextSeq targetId signer.ski
  let der ← Prog.ofExcept (Cms.asn1 (env.messageToDer ((draft prepared).message seq)))
  let envelope ← sign der
  commit ((draft prepared).write targetId)
  finalize label contentType messageName seq envelope

section

variable {env} {t : Task} {target : TargetIdentifier} {label : String} {signer : SignerContext}

theorem issueStatusQuery_eq (terse : Bool) : issueStatusQuery env target label signer terse =
    issue env target label signer Oids.idCtTampStatusQuery "TAMPStatusQuery" (fun _ => pure ())
      (fun _ => statusQueryDraft target terse)
      (signOutbound env signer Oids.idCtTampStatusQuery) := rfl

theorem issueTrustAnchorUpdate_eq {edits : List TrustAnchorEdit} (h : edits.isEmpty = false) :
    issueTrustAnchorUpdate env target label signer edits =
    issue env target label signer Oids.idCtTampUpdate "TAMPUpdate"
      (fun id => prepareEdits env id edits) (updateDraft target)
      (signOutbound env signer Oids.idCtTampUpdate) := by
  unfold issueTrustAnchorUpdate issue commit
  rw [if_neg (by simp [h])]
  simp only [updateDraft, Prog.bind_assoc]
  rfl

theorem issueCommunityUpdate_eq {add remove : List ObjectIdentifier}
    (h : (add.isEmpty && remove.isEmpty) = false) :
    issueCommunityUpdate env target label signer add remove =
    issue env target label signer Oids.idCtTampCommunityUpdate "TAMPCommunityUpdate"
      (fun _ => pure ()) (fun _ => communityDraft target add remove)
      (signOutbound env signer Oids.idCtTampCommunityUpdate) := by
  unfold issueCommunityUpdate issue commit
  rw [if_neg (by simp [h])]
  simp only [communityDraft, Prog.bind_assoc]
  rfl

theorem issueSequenceNumberAdjust_eq : issueSequenceNumberAdjust env target label signer =
    issue env target label signer Oids.idCtTampSeqNumAdjust "SequenceNumberAdjust"
      (fun _ => pure ()) (fun _ => adjustDraft target)
      (signOutbound env signer Oids.idCtTampSeqNumAdjust) := rfl

/-- What is prepared for an apex update. -/
def prepareApex (env : Env) (apexTa : TrustAnchorChoice) : TampM (TaIdentity × List UInt8) := do
  let identity ← Prog.ofExcept (taIdentity env apexTa)
  let apexDer ← Prog.ofExcept (Cms.asn1 (env.anchorToDer apexTa))
  return (identity, apexDer)

theorem issueApexUpdate_eq {apexTa : TrustAnchorChoice} {clearTrustAnchors clearCommunities : Bool}
    {key : Option (List UInt8)} :
    issueApexUpdate env target label signer apexTa clearTrustAnchors clearCommunities key =
    issue env target label signer Oids.idCtTampApexUpdate "TAMPApexUpdate"
      (fun _ => prepareApex env apexTa)
      (apexDraft target apexTa clearTrustAnchors clearCommunities)
      (fun der => signApexUpdate env signer der key) := by
  unfold issueApexUpdate issue commit prepareApex
  simp only [apexDraft, Prog.bind_assoc]
  rfl

theorem Found.grows {targetDer : List UInt8} {id : Uuid} {h h' : Trace}
    (hfound : Found targetDer id h) (hgrow : Grows h h') : Found targetDer id h' := by
  rcases hfound with ⟨row, hid, hread⟩ | ⟨new, label, hinsert⟩
  · exact .inl ⟨row, hid, hgrow.mem hread⟩
  · exact .inr ⟨new, label, hgrow.mem hinsert⟩

/-- What was found stays found. -/
theorem Found.append {targetDer : List UInt8} {id : Uuid} {h new : Trace}
    (hfound : Found targetDer id h) : Found targetDer id (h ++ new) := by
  rcases hfound with ⟨row, hid, hread⟩ | ⟨new', label, hinsert⟩
  · exact .inl ⟨row, hid, List.mem_append_left _ hread⟩
  · exact .inr ⟨new', label, List.mem_append_left _ hinsert⟩

/-- **A task that issues a message**: its number is allocated once, its write comes after it, and if
it fails then nothing was written. -/
theorem wp_issue {α : Type} {contentType : ObjectIdentifier} {messageName : String}
    {prepare : Uuid → TampM α} {draft : α → Draft} {sign : List UInt8 → TampM (List UInt8)}
    (htarget : t.target = target) (hsigner : t.signer = some signer)
    (hprepare : ∀ id h, Plain (prepare id)
      (fun prepared _ => t.draft env = .ok (some (draft prepared))) h)
    (hwrites : ∀ prepared id q, (draft prepared).write id = some q → q.writes = true)
    (hsign : ∀ der h, Plain (sign der) (fun envelope _ => ∃ raw unsignedAttrs,
      Cms.envelope env.codec signer.ski contentType der signer.algorithm unsignedAttrs raw =
        .ok envelope) h) :
    (issue env target label signer contentType messageName prepare draft sign).Wp (Admitted env t)
      (fun r h => EndsWith env t h (r.map .issued)) [] := by
  unfold issue
  refine wp_ofExcept (fun targetDer hder => ?_) fun e => noWrite_nil
  have htargetDer : env.targetToDer t.target = .ok targetDer := by
    rw [htarget]
    exact Cms.asn1_eq_ok.mp hder
  refine (plain_getOrCreateTarget targetDer label).bind (fun id h₁ hgrow₁ hfound => ?_)
    fun e h' hgrow => noWrite_nil.grows hgrow
  refine (hprepare id h₁).bind (fun prepared h₂ hgrow₂ hdraft => ?_)
    fun e h' hgrow => noWrite_nil.grows (hgrow₁.trans hgrow)
  have hfound₂ := hfound.grows hgrow₂
  have hno₂ : NoWrite h₂ := noWrite_nil.grows (hgrow₁.trans hgrow₂)
  -- the number
  unfold nextSeq
  rw [Prog.bind_assoc]
  refine wp_query ⟨⟨targetDer, htargetDer, hfound₂⟩, ⟨signer, hsigner, rfl⟩,
    noNumber_nil.grows (hgrow₁.trans hgrow₂), hno₂⟩ (fun next => ?_)
    fun e r hr => hno₂.concat fun q a hq heq => ?_
  swap
  · cases heq
    exact Bool.noConfusion hq
  set h₃ : Trace := h₂ ++ [⟨.db (.allocateNextSeq id signer.ski), .ok next⟩] with hh₃
  have hfound₃ : Found targetDer id h₃ := hfound₂.append
  have hnumber₃ : Numbered t id (asU64 next) h₃ :=
    ⟨signer, next, hsigner, List.mem_append_right _ (List.mem_singleton_self _), rfl⟩
  have hno₃ : NoWrite h₃ := hno₂.concat fun q a hq heq => by
    cases heq
    exact Bool.noConfusion hq
  refine wp_ofExcept (fun der hencoded => ?_) fun e => hno₃
  have hencoded := Cms.asn1_eq_ok.mp hencoded
  refine (hsign der h₃).bind (fun envelope h₄ hgrow₄ henvelope => ?_)
    fun e h' hgrow => hno₃.grows hgrow
  obtain ⟨raw, unsignedAttrs, henvelope⟩ := henvelope
  have hfound₄ := hfound₃.grows hgrow₄
  have hnumber₄ : Numbered t id (asU64 next) h₄ := by
    obtain ⟨signer', next', hsigner', hreplied, hnext⟩ := hnumber₃
    exact ⟨signer', next', hsigner', hgrow₄.mem hreplied, hnext⟩
  have hissued {h' h'' : Trace} (hsub : ∀ s ∈ h₄, s ∈ h') (hgrow : Grows h' h'')
      (hwritten : ∀ q, (draft prepared).write id = some q → ∃ a, Replied h' q a) :
      EndsWith env t h'' (.ok (.issued ⟨contentType, messageName, asU64 next, envelope⟩)) := by
    have hsub' : ∀ s ∈ h₄, s ∈ h'' := fun s hs => hgrow.mem (hsub s hs)
    refine ⟨id, draft prepared, ⟨targetDer, htargetDer, ?_⟩, ?_, hdraft, ?_, ?_⟩
    · rcases hfound₄ with ⟨row, hid, hread⟩ | ⟨new, label, hinsert⟩
      · exact .inl ⟨row, hid, hsub' _ hread⟩
      · exact .inr ⟨new, label, hsub' _ hinsert⟩
    · obtain ⟨signer', next', hsigner', hreplied, hnext⟩ := hnumber₄
      exact ⟨signer', next', hsigner', hsub' _ hreplied, hnext⟩
    · exact ⟨signer, der, raw, unsignedAttrs, hsigner, hencoded, henvelope⟩
    · intro q hq
      obtain ⟨a, ha⟩ := hwritten q hq
      exact ⟨a, hgrow.mem ha⟩
  -- the write
  cases hwrite : (draft prepared).write id with
  | none =>
    show (finalize label contentType messageName (asU64 next) envelope).Wp _ _ _
    exact wp_finalize fun h' hgrow => hissued (fun _ hs => hs) hgrow fun q hq => by
      rw [hwrite] at hq
      cases hq
  | some q =>
    have hq := hwrites prepared id q hwrite
    have hadmitted : Admitted env t h₄ (.db q) := by
      have hwritable : Writes env t h₄ id (asU64 next) (draft prepared) q :=
        ⟨⟨targetDer, htargetDer, hfound₄⟩, hnumber₄, hdraft, hwrite, ⟨der, hencoded⟩,
          hno₃.grows hgrow₄⟩
      exact admitted_of_writes hq hwritable
    unfold commit
    rw [Prog.bind_assoc]
    refine wp_query hadmitted (fun a => ?_) fun e r hr => (hno₃.grows hgrow₄).concat ?_
    · show (finalize label contentType messageName (asU64 next) envelope).Wp _ _ _
      refine wp_finalize fun h' hgrow => hissued (fun _ hs => List.mem_append_left _ hs) hgrow
        fun q' hq' => ?_
      obtain rfl : q = q' := Option.some.inj (hwrite.symm.trans hq')
      exact ⟨a, List.mem_append_right _ (List.mem_singleton_self _)⟩
    · intro q' a _ heq
      cases heq
      exact hr a rfl

/-! ### Ingesting -/

/-- The number of an inbound message is checked. -/
theorem wp_checkReplay (hsigner : t.signer = none) (hno : NoWrite h) {id : Uuid}
    {label messageName : String} {signerSki : List UInt8} {seqNum : Option ℕ} {α : Type}
    {f : Unit → TampM α} {result : Except Error α → Trace → Prop}
    (hok : ∀ h', (∀ s ∈ h, s ∈ h') → NoWrite h' → (∀ n, seqNum = some n → (n : ℤ) ≤ maxBigint ∧
      Replied h' (.checkAndAdvanceSeq id signerSki n) true) → (f ()).Wp (Admitted env t) result h')
    (herror : ∀ e h', NoWrite h' → result (.error e) h') :
    (checkReplay id label messageName signerSki seqNum >>= f).Wp (Admitted env t) result h := by
  cases seqNum with
  | none => exact hok h (fun _ hs => hs) hno fun n hn => by cases hn
  | some n =>
    simp only [checkReplay]
    rw [Prog.bind_assoc]
    refine wp_ofExcept (fun seq hseq => ?_) fun e => herror e h hno
    unfold seqToI64 at hseq
    split_ifs at hseq with hle
    obtain rfl := Except.ok.inj hseq
    have hno' (r : DbReply Bool) :
        NoWrite (h ++ [⟨.db (.checkAndAdvanceSeq id signerSki n), r⟩]) := by
      refine hno.concat fun q a hq heq => ?_
      cases heq
      exact Bool.noConfusion hq
    rw [Prog.bind_assoc]
    refine wp_query (q := .checkAndAdvanceSeq id signerSki n) ⟨hsigner, Int.natCast_nonneg n, hle⟩
      (fun fresh => ?_) fun e r _ => herror e _ (hno' r)
    cases fresh with
    | true =>
      refine hok _ (fun _ hs => List.mem_append_left _ hs) (hno' _) fun n' hn' => ?_
      obtain rfl := Option.some.inj hn'
      exact ⟨hle, List.mem_append_right _ (List.mem_singleton_self _)⟩
    | false =>
      show ((await (.audit ⟨messageName, label, .Failure⟩) >>= fun _ => .fail _) >>= f).Wp _ _ _
      rw [Prog.bind_assoc, wp_await]
      refine ⟨trivial, fun r => herror _ _ ((hno' _).concat fun q a hq heq => ?_)⟩
      cases heq

/-- **A task that ingests a message**: what it accepts verified under a key that is registered for
the target, and its number was advanced. -/
theorem wp_ingest (target : TargetIdentifier) (label : String) (contentInfoDer : List UInt8) :
    (ingest env target label contentInfoDer).Wp
      (Admitted env (.ingest target label contentInfoDer))
      (fun r h => EndsWith env (.ingest target label contentInfoDer) h (r.map .ingested)) [] := by
  unfold ingest
  refine wp_ofExcept (fun parsed hparsed => ?_) fun e => noWrite_nil
  refine wp_ofExcept (fun targetDer hder => ?_) fun e => noWrite_nil
  have hder := Cms.asn1_eq_ok.mp hder
  refine (plain_getOrCreateTarget targetDer label).bind (fun id h₁ hgrow₁ hfound => ?_)
    fun e h' hgrow => noWrite_nil.grows hgrow
  have hno₁ : NoWrite h₁ := noWrite_nil.grows hgrow₁
  refine wp_query (q := .findTargetSignerSpki id parsed.signerSki) (admitted_of_plain rfl)
    (fun found => ?_) fun e r _ => hno₁.grows (grows_one rfl r)
  set h₂ : Trace := h₁ ++ [⟨.db (.findTargetSignerSpki id parsed.signerSki), .ok found⟩]
  have hno₂ : NoWrite h₂ := hno₁.grows (grows_one rfl _)
  refine wp_ofExcept (fun spki hspki => ?_) fun e => hno₂
  obtain rfl := Cms.okOr_eq_ok.mp hspki
  refine wp_ofExcept (fun _ hverify => ?_) fun e => hno₂
  refine wp_ofExcept (fun inbound hinbound => ?_) fun e => hno₂
  obtain ⟨messageName, seqNum, statusCodes⟩ := inbound
  refine wp_checkReplay rfl hno₂ (fun h₃ hsub hno₃ hchecked => ?_) fun e h' hno => hno
  refine wp_query (q := .logMessage) (admitted_of_plain rfl) (fun _ => ?_)
    fun e r _ => hno₃.grows (grows_one rfl r)
  rw [wp_await]
  refine ⟨trivial, fun r => ?_⟩
  set h₄ : Trace := h₃ ++ [⟨.db .logMessage, .ok ()⟩] ++
    [⟨.audit ⟨messageName, label,
      if statusCodes.all (·.isSuccess) then .Success else .Failure⟩, r⟩] with hh₄
  have hgrow₄ : Grows h₃ h₄ := (grows_one rfl _).trans (grows_one rfl r)
  refine ⟨hno₃.grows hgrow₄, target, label, contentInfoDer, rfl, id, parsed, spki,
    ⟨targetDer, hder, ?_⟩, hparsed, ?_, hverify, hinbound, rfl, fun n hn => ?_⟩
  · rcases hfound with ⟨row, hid, hread⟩ | ⟨new, label', hinsert⟩
    · exact .inl ⟨row, hid, hgrow₄.mem (hsub _ (List.mem_append_left _ hread))⟩
    · exact .inr ⟨new, label', hgrow₄.mem (hsub _ (List.mem_append_left _ hinsert))⟩
  · exact hgrow₄.mem (hsub _ (List.mem_append_right _ (List.mem_singleton_self _)))
  · obtain ⟨hle, hreplied⟩ := hchecked n hn
    exact ⟨hle, hgrow₄.mem hreplied⟩

/-! ### All tasks -/

theorem wp_registerTargetSigner (signerSki signerSpki : List UInt8) :
    (registerTargetSigner env target label signerSki signerSpki).Wp (Admitted env t)
      (fun r h => EndsWith env t h (r.map fun _ => .registered)) [] := by
  unfold registerTargetSigner
  refine wp_ofExcept (fun targetDer _ => ?_) fun e => noWrite_nil
  refine (plain_getOrCreateTarget targetDer label).bind (fun id h₁ hgrow₁ _ => ?_)
    fun e h' hgrow => noWrite_nil.grows hgrow
  have hno₁ : NoWrite h₁ := noWrite_nil.grows hgrow₁
  refine wp_query (q := .registerTargetSigner id signerSki signerSpki) (admitted_of_plain rfl)
    (fun _ => ?_) fun e r _ => hno₁.grows (grows_one rfl r)
  refine ⟨trivial, fun r => ?_⟩
  exact hno₁.grows ((grows_one rfl _).trans (grows_one rfl r))

theorem plain_prepareApex (apexTa : TrustAnchorChoice) :
    Plain (prepareApex env apexTa) (fun prepared _ => ∃ identity apexDer,
      prepared = (identity, apexDer) ∧ taIdentity env apexTa = .ok identity ∧
        Cms.asn1 (env.anchorToDer apexTa) = .ok apexDer) h := by
  unfold Plain prepareApex
  rw [Prog.does_bind, Prog.does_ofExcept]
  intro identity hidentity
  rw [Prog.does_bind, Prog.does_ofExcept]
  intro apexDer hder
  exact (Prog.does_pure _).mpr ⟨identity, apexDer, rfl, hidentity, hder⟩

/-- **The programs keep to the specification.** -/
theorem meets (env : Env) : (system env).Meets (spec env) := by
  intro t
  cases t with
  | issueStatusQuery target label signer terse =>
    refine (Prog.wp_map _ _).mpr ?_
    rw [issueStatusQuery_eq]
    exact wp_issue rfl rfl (fun _ _ => (Prog.does_pure ()).mpr rfl) (fun _ _ _ hq => by cases hq)
      fun der h => plain_signMessageWithUnsignedAttrs signer _ der []
  | issueTrustAnchorUpdate target label signer edits =>
    refine (Prog.wp_map _ _).mpr ?_
    cases hedits : edits.isEmpty with
    | true =>
      unfold issueTrustAnchorUpdate
      rw [if_pos hedits]
      exact noWrite_nil
    | false =>
      rw [issueTrustAnchorUpdate_eq hedits]
      refine wp_issue rfl rfl (fun id h => ?_) (fun prepared id q hq => ?_)
        fun der h => plain_signMessageWithUnsignedAttrs signer _ der []
      · refine Prog.Does.mono (plain_prepareEdits id edits) fun prepared h hprepared => ?_
        simp only [Task.draft]
        rw [hprepared]
        rfl
      · obtain rfl := Option.some.inj hq
        rfl
  | issueCommunityUpdate target label signer add remove =>
    refine (Prog.wp_map _ _).mpr ?_
    cases hempty : add.isEmpty && remove.isEmpty with
    | true =>
      unfold issueCommunityUpdate
      rw [if_pos hempty]
      exact noWrite_nil
    | false =>
      rw [issueCommunityUpdate_eq hempty]
      refine wp_issue rfl rfl (fun _ _ => (Prog.does_pure ()).mpr rfl) (fun prepared id q hq => ?_)
        fun der h => plain_signMessageWithUnsignedAttrs signer _ der []
      obtain rfl := Option.some.inj hq
      rfl
  | issueSequenceNumberAdjust target label signer =>
    refine (Prog.wp_map _ _).mpr ?_
    rw [issueSequenceNumberAdjust_eq]
    exact wp_issue rfl rfl (fun _ _ => (Prog.does_pure ()).mpr rfl) (fun _ _ _ hq => by cases hq)
      fun der h => plain_signMessageWithUnsignedAttrs signer _ der []
  | issueApexUpdate target label signer apexTa clearTrustAnchors clearCommunities key =>
    refine (Prog.wp_map _ _).mpr ?_
    rw [issueApexUpdate_eq]
    refine wp_issue rfl rfl (fun id h => ?_) (fun prepared id q hq => ?_)
      fun der h => plain_signApexUpdate signer der key
    · refine Prog.Does.mono (plain_prepareApex apexTa) fun prepared h hprepared => ?_
      obtain ⟨identity, apexDer, rfl, hidentity, hder⟩ := hprepared
      simp only [Task.draft]
      rw [hidentity, hder]
      rfl
    · obtain rfl := Option.some.inj hq
      rfl
  | registerTargetSigner target label signerSki signerSpki =>
    exact (Prog.wp_map _ _).mpr (wp_registerTargetSigner signerSki signerSpki)
  | ingest target label contentInfoDer =>
    exact (Prog.wp_map _ _).mpr (wp_ingest target label contentInfoDer)

end

end Ostrich.Tamp
