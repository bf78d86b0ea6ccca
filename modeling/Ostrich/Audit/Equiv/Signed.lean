import Ostrich.Audit.Equiv.Chain

/-!
# Rewriting a signed audit log

A signing sink signs the hash of every row that it writes (`signed_reach`).  `verify_signed_chain`
passes over a row without a signature, so that an attacker who removes the signatures can write any
records (`stripped_accepted`).

`rewrite_detected_iff` says of which tables the verifier's acceptance does mean that every row is an
original one: those whose unsigned rows have the hash of an original row, and whose rows have the
layout of an original row of the same hash.
-/

namespace Ostrich.Audit

open Interleave

/-! ### Every row is signed -/

/-- Every row has a signature, which the signer made for the hash of the row. -/
def SignedInv (w : AuditWorld) : Prop :=
  ∀ row ∈ w.store.table, ∃ signature, row.signature = some signature ∧
    ∃ i, .call i (.sign row.eventHash) (some (.ok signature)) ∈ w.log

/-- The table keeps the hash and the signature of every row. -/
theorem hash_of_stored {env : Hashing} {row kept : Row} (h : env.stored row = some kept) :
    kept.eventHash = row.eventHash ∧ kept.signature = row.signature := by
  unfold Hashing.stored at h
  simp only [Option.bind_eq_bind, Option.bind_eq_some_iff, Option.pure_def,
    Option.some.injEq] at h
  obtain ⟨_, -, _, -, _, -, _, -, _, -, _, -, _, -, _, -, _, -, _, -, _, -, rfl⟩ := h
  exact ⟨rfl, rfl⟩

theorem SignedInv.mono {w w' : AuditWorld} (h : SignedInv w)
    (htable : w'.store.table = w.store.table) (hlog : ∀ ev ∈ w.log, ev ∈ w'.log) :
    SignedInv w' := by
  intro row hrow
  rw [htable] at hrow
  obtain ⟨signature, hsignature, i, hsign⟩ := h row hrow
  exact ⟨signature, hsignature, i, hlog _ hsign⟩

theorem exec_table_of_not_commit (env : Hashing) {e : Call} (he : ∀ tx row, e ≠ .commit tx row)
    (c : Choice) (s : Store) : (exec env e c s).2.table = s.table := by
  cases e with
  | beginAppend =>
    rcases exec_beginAppend env c s with ⟨hstore, -⟩ | ⟨head, -, hexec⟩
    · rw [hstore]
    · rw [hexec]
  | sign hash =>
    rw [exec]
    split_ifs <;> rfl
  | commit tx row => exact absurd rfl (he tx row)

theorem signedInv_preserves (env : Hashing) (keyLabel : String)
    (allowed : AuditWorld → AuditLogEvent → Prop) :
    (sink env (some keyLabel)).Preserves (sinkSpec env (some keyLabel)) allowed (fun _ => True)
      SignedInv where
  start _ _ h _ _ := h.mono rfl fun _ => List.mem_append_left _
  finish _ _ h _ _ _ := h.mono rfl fun _ => List.mem_append_left _
  abort _ _ h _ _ := h.mono rfl fun _ => List.mem_append_left _
  call := by
    intro w i n event e c _ _ h _ _ hcalls _
    by_cases he : ∀ tx row, e ≠ .commit tx row
    · exact h.mono (exec_table_of_not_commit env he c w.store) fun _ => List.mem_append_left _
    · obtain ⟨tx, row, rfl⟩ : ∃ tx row, e = .commit tx row := by
        by_contra hnone
        exact he fun tx row heq => hnone ⟨tx, row, heq⟩
      rcases exec_commit env tx row c w.store with ⟨hstore, -⟩ | ⟨kept, -, hstored, -, hstore⟩
      · exact h.mono (congrArg Store.table hstore) fun _ => List.mem_append_left _
      · intro other hother
        have htable : other ∈ w.store.table ++ [kept] := by
          rw [← show (exec env (.commit tx row) c w.store).2.table = w.store.table ++ [kept] by
            rw [hstore]]
          exact hother
        rcases List.mem_append.mp htable with hold | hnew
        · obtain ⟨signature, hsignature, j, hsign⟩ := h other hold
          exact ⟨signature, hsignature, j, List.mem_append_left _ hsign⟩
        · obtain ⟨hhash, hsig⟩ := hash_of_stored hstored
          obtain ⟨signature, hsignature, hsign⟩ := hcalls.2.signature keyLabel rfl
          rw [List.mem_singleton.mp hnew, hhash, hsig]
          exact ⟨signature, hsignature, i, List.mem_append_left _ (World.mem_history.mp hsign)⟩

/-- **Every row of a signing sink is signed**, whatever the events are. -/
theorem signed_reach {env : Hashing} {keyLabel : String}
    {allowed : AuditWorld → AuditLogEvent → Prop} {cfg : AuditConfig}
    (hreach : (sink env (some keyLabel)).Reach allowed (System.initial {}) cfg) :
    SignedInv cfg.world :=
  ((signedInv_preserves env keyLabel allowed).reach (record_meets env (some keyLabel))
    (fun _ h => absurd h List.not_mem_nil) hreach).2

/-! ### What the verifier accepts -/

/-- A signature in the accepted rows verifies. -/
theorem verify_of_verifySignatures {verify : List UInt8 → List UInt8 → Except String Bool}
    {rows : List Row} (h : verifySignatures verify rows = .ok true) {row : Row} (hrow : row ∈ rows)
    {signature : List UInt8} (hsignature : row.signature = some signature) :
    verify row.eventHash signature = .ok true := by
  induction rows with
  | nil => cases hrow
  | cons first rows ih =>
    rw [verifySignatures] at h
    split at h
    · rename_i hnone
      rcases List.mem_cons.mp hrow with rfl | hrow
      · rw [hsignature] at hnone
        cases hnone
      · exact ih h hrow
    · rename_i found hfound
      split at h
      · cases h
      · cases h
      · rename_i hverify
        rcases List.mem_cons.mp hrow with rfl | hrow
        · rw [hsignature] at hfound
          rw [Option.some.inj hfound]
          exact hverify
        · exact ih h hrow

theorem verifySignedChain_eq_true {env : Hashing}
    {verify : List UInt8 → List UInt8 → Except String Bool} {rows : List Row}
    (h : verifySignedChain env verify rows = .ok true) :
    env.verifyChain rows = true ∧ verifySignatures verify rows = .ok true := by
  unfold verifySignedChain at h
  split_ifs at h with hchain
  · exact ⟨hchain, h⟩
  · cases h

/-- A signature of the log is valid only for the hash that it was made for. -/
def Binding (verify : List UInt8 → List UInt8 → Except String Bool) (w : AuditWorld) : Prop :=
  ∀ i hash signature, .call i (.sign hash) (some (.ok signature)) ∈ w.log →
    ∀ other, verify other signature = .ok true → other = hash

/-- No two rows of the tables are a collision of the hash function. -/
def NoCollision (env : Hashing) (rows originals : List Row) : Prop :=
  ∀ row ∈ rows, ∀ original ∈ originals, env.computeEventHash row = env.computeEventHash original →
    (env.hashParts id id row).flatten = (env.hashParts id id original).flatten

theorem noCollision_of_injective {env : Hashing} (h : Function.Injective env.sha256)
    {rows originals : List Row} : NoCollision env rows originals := by
  intro row _ original _ heq
  unfold Hashing.computeEventHash at heq
  exact h heq

/-- **When a rewrite of a signed log is detected.**  `rows` is any table whose signatures, where
there are any, are taken from the original table.  If the verifier accepts it, all its rows are
original rows if and only if its unsigned rows have hashes of original rows and its rows with such
a hash have the layout of an original row with that hash. -/
theorem rewrite_detected_iff {env : Hashing} {keyLabel : String} {cfg : AuditConfig}
    (hreach : (sink env (some keyLabel)).Reach (fun _ _ => True) (System.initial {}) cfg)
    (hintact : ∀ original ∈ cfg.world.store.table,
      env.computeEventHash original = original.eventHash)
    (hjson : JsonText env) {verify : List UInt8 → List UInt8 → Except String Bool}
    (hbinding : Binding verify cfg.world) {rows : List Row}
    (hcollision : NoCollision env rows cfg.world.store.table)
    (hcopied : ∀ row ∈ rows, ∀ signature, row.signature = some signature →
      ∃ original ∈ cfg.world.store.table, original.signature = some signature)
    (haccepted : verifySignedChain env verify rows = .ok true) :
    (∀ row ∈ rows, ∃ original ∈ cfg.world.store.table, row.content = original.content) ↔
      (∀ row ∈ rows, row.signature = none →
        ∃ original ∈ cfg.world.store.table, original.eventHash = row.eventHash) ∧
      ∀ row ∈ rows, (∃ original ∈ cfg.world.store.table, original.eventHash = row.eventHash) →
        ∃ original ∈ cfg.world.store.table, original.eventHash = row.eventHash ∧
          env.SameLayout id id row original := by
  obtain ⟨hchain, hsignatures⟩ := verifySignedChain_eq_true haccepted
  have hhash : ∀ row ∈ rows, env.computeEventHash row = row.eventHash :=
    Hashing.eventHash_of_verifyChain hchain
  constructor
  · intro horiginal
    have hwith : ∀ row ∈ rows, ∃ original ∈ cfg.world.store.table,
        original.eventHash = row.eventHash ∧ env.SameLayout id id row original := by
      intro row hrow
      obtain ⟨original, hmem, hcontent⟩ := horiginal row hrow
      refine ⟨original, hmem, ?_, Hashing.sameLayout_of_content hcontent⟩
      rw [← hintact original hmem, ← hhash row hrow, computeEventHash_congr hcontent]
    refine ⟨fun row hrow _ => ?_, fun row hrow _ => hwith row hrow⟩
    obtain ⟨original, hmem, heq, -⟩ := hwith row hrow
    exact ⟨original, hmem, heq⟩
  · rintro ⟨hunsigned, hlayout⟩ row hrow
    -- the hash of the row is one that was signed for an original row
    have hknown : ∃ original ∈ cfg.world.store.table, original.eventHash = row.eventHash := by
      cases hsignature : row.signature with
      | none => exact hunsigned row hrow hsignature
      | some signature =>
        have hverify := verify_of_verifySignatures hsignatures hrow hsignature
        obtain ⟨original, hmem, hcopy⟩ := hcopied row hrow signature hsignature
        obtain ⟨signature', hsigned, i, hsign⟩ := signed_reach hreach original hmem
        obtain rfl := Option.some.inj (hsigned.symm.trans hcopy)
        exact ⟨original, hmem, (hbinding i _ _ hsign _ hverify).symm⟩
    obtain ⟨original, hmem, heq, hsame⟩ := hlayout row hrow hknown
    have hflatten : (env.hashParts id id row).flatten = (env.hashParts id id original).flatten := by
      apply hcollision row hrow original hmem
      rw [hhash row hrow, hintact original hmem, heq]
    exact ⟨original, hmem, (Hashing.content_eq_iff_sameLayout hjson Function.injective_id
      Function.injective_id hflatten).mpr hsame⟩

/-! ### Runs -/

open Instance

/-- The hash of the first record of `ca`. -/
def firstHash : List UInt8 := plain.computeHash (event "ca" "rootcert")

/-- One call that runs through, with a signature over the hash. -/
def signOne : List (Action AuditEvent Choice) :=
  [.arrive (event "ca" "rootcert"), .run 0 {}, .run 0 { signature := .ok (0 :: firstHash) },
    .run 0 {}, .run 0 {}]

/-- A signature of a hash is the hash after a zero. -/
def verifyTagged (hash signature : List UInt8) : Except String Bool :=
  .ok (decide (signature = 0 :: hash))

/-- The row of another record, with its own hash and without a signature. -/
def forged : Row :=
  { (event "mallory" "rootcert").toDbModel with
    eventHash := plain.computeHash (event "mallory" "rootcert") }

theorem binding_verifyTagged {w : AuditWorld}
    (h : (w.log.all fun
      | .call _ (.sign hash) (some (.ok signature)) => signature = 0 :: hash
      | _ => true) = true) : Binding verifyTagged w := by
  intro i hash signature hmem other hverify
  have hmade : signature = 0 :: hash := of_decide_eq_true (List.all_eq_true.mp h _ hmem)
  have hvalid : signature = 0 :: other := of_decide_eq_true (Except.ok.inj hverify)
  exact (List.cons.inj (hvalid.symm.trans hmade)).2

/-- What the statements below need of the state after the call: signatures are made by the rule of
`verifyTagged`, and the table is one row of `ca`, with its hash and signature. -/
def signedState (cfg : AuditConfig) : Bool :=
  (cfg.world.log.all fun
    | .call _ (.sign hash) (some (.ok signature)) => signature = 0 :: hash
    | _ => true)
  && (cfg.world.store.table.map fun row => (row.actor, row.eventHash, plain.computeEventHash row,
    row.signature)) = [("ca", firstHash, firstHash, some (0 :: firstHash))]
  && (match verifySignedChain plain verifyTagged cfg.world.store.table with
    | .ok true => true
    | _ => false)

theorem signOne_reaches : ∃ cfg, (sink plain (some "audit")).Reach (fun _ _ => True)
    (System.initial {}) cfg ∧ signedState cfg = true := by
  have hrun : ((sink plain (some "audit")).run (fun _ _ => true) signOne (System.initial {})).map
      signedState = some true := by
    decide +kernel
  obtain ⟨cfg, hcfg, hstate⟩ := Option.map_eq_some_iff.mp hrun
  exact ⟨cfg, System.reach_of_run (fun _ _ _ => trivial) _ hcfg, hstate⟩

section

variable {cfg : AuditConfig} (h : signedState cfg = true)

include h

theorem signedState_binding : Binding verifyTagged cfg.world := by
  simp only [signedState, Bool.and_eq_true] at h
  exact binding_verifyTagged h.1.1

theorem signedState_row {row : Row} (hrow : row ∈ cfg.world.store.table) :
    row.actor = "ca" ∧ plain.computeEventHash row = row.eventHash := by
  simp only [signedState, Bool.and_eq_true] at h
  have hmem := List.mem_map_of_mem (f := fun row : Row => (row.actor, row.eventHash,
    plain.computeEventHash row, row.signature)) hrow
  rw [of_decide_eq_true h.1.2] at hmem
  obtain ⟨hactor, hhash, hcomputed, -⟩ := by simpa using List.mem_singleton.mp hmem
  exact ⟨hactor, hcomputed.trans hhash.symm⟩

theorem signedState_accepted :
    verifySignedChain plain verifyTagged cfg.world.store.table = .ok true := by
  simp only [signedState, Bool.and_eq_true] at h
  have haccepted := h.2
  split at haccepted
  · assumption
  · cases haccepted

end

/-- **A log without signatures is accepted**: the sink wrote a signed record of `ca`, and the
verifier accepts an unsigned record of `mallory` in its place. -/
theorem stripped_accepted : ∃ cfg rows, (sink plain (some "audit")).Reach (fun _ _ => True)
      (System.initial {}) cfg ∧ Binding verifyTagged cfg.world ∧
    (∀ row ∈ rows, ∀ signature, row.signature = some signature →
      ∃ original ∈ cfg.world.store.table, original.signature = some signature) ∧
    verifySignedChain plain verifyTagged rows = .ok true ∧
    ¬∀ row ∈ rows, ∃ original ∈ cfg.world.store.table, row.content = original.content := by
  obtain ⟨cfg, hreach, hstate⟩ := signOne_reaches
  refine ⟨cfg, [forged], hreach, signedState_binding hstate, ?_, ?_, ?_⟩
  · intro row hrow signature hsignature
    rw [List.mem_singleton.mp hrow, show forged.signature = none from rfl] at hsignature
    cases hsignature
  · have hchain : plain.verifyChain [forged] = true := by decide +kernel
    rw [verifySignedChain, if_pos hchain]
    rfl
  · intro hall
    obtain ⟨original, hmem, hcontent⟩ := hall forged (List.mem_singleton_self _)
    have hactor : forged.actor = original.actor := congrArg Content.actor hcontent
    rw [(signedState_row hstate hmem).1] at hactor
    exact absurd hactor (by decide +kernel)

/-- The table that the sink wrote is accepted, and its rows are original. -/
theorem rewrite_detected_iff_unchanged : ∃ cfg : AuditConfig,
    verifySignedChain plain verifyTagged cfg.world.store.table = .ok true ∧
    ((∀ row ∈ cfg.world.store.table, ∃ original ∈ cfg.world.store.table,
        row.content = original.content) ↔
      (∀ row ∈ cfg.world.store.table, row.signature = none →
        ∃ original ∈ cfg.world.store.table, original.eventHash = row.eventHash) ∧
      ∀ row ∈ cfg.world.store.table,
        (∃ original ∈ cfg.world.store.table, original.eventHash = row.eventHash) →
        ∃ original ∈ cfg.world.store.table, original.eventHash = row.eventHash ∧
          plain.SameLayout id id row original) := by
  obtain ⟨cfg, hreach, hstate⟩ := signOne_reaches
  refine ⟨cfg, signedState_accepted hstate, rewrite_detected_iff hreach ?_ jsonText_plain
    (signedState_binding hstate) ?_ ?_ (signedState_accepted hstate)⟩
  · exact fun original hmem => (signedState_row hstate hmem).2
  · exact noCollision_of_injective Function.injective_id
  · exact fun row hrow signature hsignature => ⟨row, hrow, hsignature⟩

end Ostrich.Audit
