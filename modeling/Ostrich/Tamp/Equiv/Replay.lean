import Ostrich.Tamp.Equiv.Counters
import Ostrich.Tamp.Equiv.Envelope

/-!
# Envelopes that are presented again

The number of an inbound message is checked against the counter of the target and the signer.  A
`TAMPError` may have no number, and then nothing is checked.

* `no_envelope_twice`: no envelope with a number is accepted twice for one target;
* `error_accepted_twice`: an envelope without a number is.
-/

namespace Ostrich.Tamp

open Interleave

/-! ### The property -/

/-- The task accepted this envelope for this target. -/
def Accepted (w : TampWorld) (i : ℕ) (target : TargetIdentifier) (contentInfoDer : List UInt8) :
    Prop :=
  ∃ label o, w.Started i (.ingest target label contentInfoDer) ∧
    .finish i (.ok (.ingested o)) ∈ w.log

/-- No envelope is accepted twice. -/
def NoReplay (w : TampWorld) : Prop :=
  ∀ contentInfoDer i j target target', Accepted w i target contentInfoDer →
    Accepted w j target' contentInfoDer → i = j

/-- A message that the envelope carries has a number. -/
def Carried (env : Env) (contentInfoDer : List UInt8) : Prop :=
  ∀ parsed inbound, Cms.parse env.codec contentInfoDer = .ok parsed →
    decodeInbound env parsed.contentType parsed.content = .ok inbound → inbound.2.1 ≠ none

/-! ### Over whole runs -/

section

variable {env : Env} {store : Store} {cfg : TampState} {contentInfoDer : List UInt8}

/-- What was accepted was checked. -/
theorem ingested_of_accepted {allowed : TampWorld → TampEvent → Prop}
    (hreach : (system env).Reach allowed (System.initial store) cfg) {i : ℕ}
    {target : TargetIdentifier} (h : Accepted cfg.world i target contentInfoDer) :
    ∃ label o id parsed spki,
      Ingested env contentInfoDer (.ingest target label contentInfoDer) (cfg.world.history i) o id
        parsed spki := by
  obtain ⟨label, o, hstarted, hfinish⟩ := h
  obtain ⟨t, hstarted', -, target', label', der, heq, id, parsed, spki, hingested⟩ :=
    hreach.finished (meets env) hfinish
  obtain rfl := (hreach.wf (meets env)).started_unique hstarted hstarted'
  obtain ⟨rfl, rfl, rfl⟩ := Task.ingest.inj heq
  exact ⟨label, o, id, parsed, spki, hingested⟩

/-- **Replay**: in every run, no envelope that carries a number is accepted twice for one target. -/
theorem no_envelope_twice
    (hreach : (system env).Reach (fun _ _ => True) (System.initial store) cfg)
    (hcarried : Carried env contentInfoDer) {target target' : TargetIdentifier}
    (htarget : env.targetToDer target = env.targetToDer target') {i j : ℕ}
    (hi : Accepted cfg.world i target contentInfoDer)
    (hj : Accepted cfg.world j target' contentInfoDer) : i = j := by
  obtain ⟨label, o, id, parsed, spki, hingested⟩ := ingested_of_accepted hreach hi
  obtain ⟨label', o', id', parsed', spki', hingested'⟩ := ingested_of_accepted hreach hj
  -- both were parsed and decoded alike
  obtain rfl : parsed = parsed' :=
    Except.ok.inj (hingested.parses.symm.trans hingested'.parses)
  have hdecoded := Except.ok.inj (hingested.decoded.symm.trans hingested'.decoded)
  obtain ⟨-, hseq⟩ := Prod.mk.inj hdecoded
  have hseq : o.seqNum = o'.seqNum := (Prod.mk.inj hseq).1
  cases hn : o.seqNum with
  | none => exact absurd hn (hcarried parsed _ hingested.parses hingested.decoded)
  | some n =>
    obtain ⟨targetDer, hder, hfound⟩ := hingested.located
    obtain ⟨targetDer', hder', hfound'⟩ := hingested'.located
    obtain rfl : targetDer = targetDer' := by
      have hder : env.targetToDer target = .ok targetDer := hder
      have hder' : env.targetToDer target' = .ok targetDer' := hder'
      exact Except.ok.inj (hder.symm.trans (htarget.trans hder'))
    obtain rfl := found_unique env hreach hfound hfound'
    -- the two tasks took one number
    have hadvance := World.mem_history.mp (hingested.checked n hn).2
    have hadvance' := World.mem_history.mp (hingested'.checked n (hseq ▸ hn)).2
    have heq := (counted_reach env hreach).eq_of_advances hadvance hadvance' .checked .checked
    exact (Event.call.inj heq).1

end

/-! ### An instance -/

/-- The key of the target is registered, and an envelope is presented twice; the first takes so many
steps. -/
def twice (contentInfoDer : List UInt8) (n : ℕ) : List (Action Task Choice) :=
  whole 0 (.registerTargetSigner .AllModules "all" [0x09] (spkiDer Cms.targetKey)) 6 ++
    whole 1 (.ingest .AllModules "all" contentInfoDer) n ++
    whole 2 (.ingest .AllModules "all" contentInfoDer) 5

/-- The event is the start of the ingestion of the envelope. -/
def presents (i : ℕ) (contentInfoDer : List UInt8) : TampEvent → Bool
  | .start j (.ingest target _ der) _ =>
    j = i && target = .AllModules && der = contentInfoDer
  | _ => false

/-- The event is a successful end of an ingestion. -/
def accepts (i : ℕ) : TampEvent → Bool
  | .finish j (.ok (.ingested _)) => j = i
  | _ => false

/-- The envelope was accepted, as a check. -/
def checkAccepted (i : ℕ) (contentInfoDer : List UInt8) (w : TampWorld) : Bool :=
  w.log.any (presents i contentInfoDer) && w.log.any (accepts i)

theorem accepted_of_check {i : ℕ} {contentInfoDer : List UInt8} {w : TampWorld}
    (h : checkAccepted i contentInfoDer w = true) :
    Accepted w i .AllModules contentInfoDer := by
  unfold checkAccepted at h
  rw [Bool.and_eq_true, List.any_eq_true, List.any_eq_true] at h
  obtain ⟨⟨ev, hev, hpresents⟩, ev', hev', haccepts⟩ := h
  have hstart : ∃ label parent,
      ev = .start i (.ingest .AllModules label contentInfoDer) parent := by
    unfold presents at hpresents
    split at hpresents
    · simp only [Bool.and_eq_true, decide_eq_true_eq] at hpresents
      obtain ⟨⟨rfl, rfl⟩, rfl⟩ := hpresents
      exact ⟨_, _, rfl⟩
    · cases hpresents
  have hfinish : ∃ o, ev' = .finish i (.ok (.ingested o)) := by
    unfold accepts at haccepts
    split at haccepts
    · obtain rfl := of_decide_eq_true haccepts
      exact ⟨_, rfl⟩
    · cases haccepts
  obtain ⟨label, parent, rfl⟩ := hstart
  obtain ⟨o, rfl⟩ := hfinish
  exact ⟨label, o, ⟨parent, hev⟩, hev'⟩

theorem check_errorTwice : ((system (derEnv Cms.errorKnown)).run (fun _ _ => true)
    (twice (Cms.errorEnvelope Oids.idCtTampError) 5) (System.initial {})).map (fun cfg =>
      checkAccepted 1 (Cms.errorEnvelope Oids.idCtTampError) cfg.world &&
        checkAccepted 2 (Cms.errorEnvelope Oids.idCtTampError) cfg.world) = some true := by
  decide +kernel

/-- The error without a number is accepted again. -/
theorem error_accepted_twice : ∃ cfg : TampState,
    (system (derEnv Cms.errorKnown)).Reach (fun _ _ => True) (System.initial {}) cfg ∧
      ¬NoReplay cfg.world := by
  obtain ⟨cfg, hcfg, hvalue⟩ := Option.map_eq_some_iff.mp check_errorTwice
  rw [Bool.and_eq_true] at hvalue
  refine ⟨cfg, System.reach_of_run (fun _ _ _ => trivial) _ hcfg, fun h => ?_⟩
  have heq := h _ 1 2 _ _ (accepted_of_check hvalue.1) (accepted_of_check hvalue.2)
  exact absurd heq (by decide)

/-! ### An envelope with a number -/

/-- An error of the target that refers to a message. -/
def numberedMessage : TampError := ⟨Oids.idCtTampUpdate, .Other, some ⟨.AllModules, 5⟩⟩

/-- Its encoding. -/
def numberedContent : List UInt8 :=
  [0x30, 0x16, 0x06, 0x0A, 0x60, 0x86, 0x48, 0x01, 0x65, 0x02, 0x01, 0x02, 0x4D, 0x03, 0x0A, 0x01,
    0x7F, 0x30, 0x05, 0x83, 0x00, 0x02, 0x01, 0x05]

/-- The digest of the encoding. -/
def numberedDigest : List UInt8 :=
  [0x89, 0x6D, 0x63, 0xC0, 0x6B, 0xEC, 0x96, 0x9C, 0xC6, 0x52, 0x4B, 0xAE, 0xBB, 0x4F, 0x18, 0x3E,
    0x83, 0xCD, 0x9A, 0x2A, 0x97, 0xFB, 0x8F, 0x35, 0x65, 0x57, 0x9C, 0xF4, 0x51, 0xBC, 0x3B, 0x16]

/-- Its signature with the key of the target. -/
def numberedSignature : List UInt8 :=
  [0x8E, 0xCA, 0xB4, 0xF6, 0x72, 0x67, 0x23, 0x28, 0xD8, 0x3F, 0x15, 0x9B, 0x54, 0xA7, 0x44, 0x6F,
    0x16, 0x31, 0x48, 0xFE, 0xAD, 0xB8, 0x65, 0x1F, 0x6A, 0x51, 0x39, 0xC4, 0xC2, 0xBB, 0x06, 0x09,
    0x7E, 0x16, 0x93, 0xF5, 0xEA, 0xCD, 0x24, 0x02, 0x62, 0x29, 0x94, 0x39, 0x52, 0x36, 0x8C, 0x2D,
    0xAC, 0xAC, 0xE6, 0xE5, 0x8E, 0x81, 0x7A, 0xBA, 0xD8, 0xDC, 0xB4, 0x2E, 0x71, 0x23, 0x6F, 0x0D]

def numberedSigned : SignedData :=
  Cms.signedOf Oids.idCtTampError numberedContent numberedDigest numberedSignature

def numberedEnvelope : List UInt8 := Cms.envelopeOf numberedSigned

def numberedKnown : Known where
  keys := [Cms.targetKey]
  signed := [numberedSigned]
  errors := [numberedMessage]
  signatures := [(spkiDer Cms.targetKey, Cms.attrsDerOf numberedDigest, numberedSignature)]

/-- What is parsed of the envelope with a number. -/
def numberedParsed : Cms.ParsedTampMessage where
  contentType := Oids.idCtTampError
  content := numberedContent
  signerSki := [0x09]
  signedAttrsDer := Cms.attrsDerOf numberedDigest
  signature := numberedSignature
  signatureAlgOid := "1.3.101.112"

theorem check_numbered :
    Cms.parse (derEnv numberedKnown).codec numberedEnvelope = .ok numberedParsed ∧
    decodeInbound (derEnv numberedKnown) Oids.idCtTampError numberedContent =
      .ok ("TAMPError", some 5, [.Other]) ∧
    ((system (derEnv numberedKnown)).run (fun _ _ => true) (twice numberedEnvelope 6)
      (System.initial {})).map (fun cfg => checkAccepted 1 numberedEnvelope cfg.world) =
        some true := by
  decide +kernel

theorem carried_numbered : Carried (derEnv numberedKnown) numberedEnvelope := by
  intro parsed inbound hparsed hinbound
  obtain ⟨hparse, hdecode, -⟩ := check_numbered
  obtain rfl := Except.ok.inj (hparse.symm.trans hparsed)
  obtain rfl := Except.ok.inj (hdecode.symm.trans hinbound)
  simp

/-- The envelope with a number is accepted by the first task only. -/
theorem numbered_accepted_once : ∃ cfg : TampState,
    Accepted cfg.world 1 .AllModules numberedEnvelope ∧
      ¬Accepted cfg.world 2 .AllModules numberedEnvelope := by
  obtain ⟨cfg, hcfg, hvalue⟩ := Option.map_eq_some_iff.mp check_numbered.2.2
  have hfirst := accepted_of_check hvalue
  refine ⟨cfg, hfirst, fun hsecond => ?_⟩
  have heq := no_envelope_twice (System.reach_of_run (fun _ _ _ => trivial) _ hcfg)
    carried_numbered rfl hfirst hsecond
  exact absurd heq (by decide)

end Ostrich.Tamp
