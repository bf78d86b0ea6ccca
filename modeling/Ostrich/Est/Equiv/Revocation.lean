import Ostrich.Est.Instance

/-!
# Revocation of enrollment tokens

A revocation takes away the uses that are left.  A use that was reserved before comes back when its
issuance fails (`refund_enrollment_token`), and no statement looks at `revoked_at`.

* `revocation_final`: after a revocation the token is not found and not spent, along every sequence
  of statements in which no use is refunded to a revoked token;
* `revoked_comes_back`: a reserved use, a revocation and a refund.
-/

namespace Ostrich.Est

open Ca (Fault)
open Table

/-! ### Sequences of statements -/

/-- A statement, how its connection fails, and the time of the database. -/
structure Statement where
  query : Query
  fault : Fault
  now : DateTime

/-- The tables after a sequence of statements. -/
def Store.after : Store → List Statement → Store
  | s, [] => s
  | s, st :: rest => Store.after (st.query.exec st.fault st.now s).2 rest

/-- Every statement of the sequence is one that `allowed` admits in the tables before it. -/
def Along (allowed : Store → Statement → Prop) : Store → List Statement → Prop
  | _, [] => True
  | s, st :: rest => allowed s st ∧ Along allowed (st.query.exec st.fault st.now s).2 rest

/-- The token is not found, and cannot be spent. -/
def Store.Refuses (s : Store) (id : Uuid) : Prop :=
  (∀ hash fault now token, ((Query.findLiveEnrollmentToken hash).exec fault now s).1
    = .ok (some token) → token.1 ≠ id) ∧
  ∀ cert fault now, ((Query.consumeEnrollmentToken id cert).exec fault now s).1 ≠ .ok true

/-- Once a revocation has returned `true`, the token is refused after every sequence of
statements. -/
def RevocationFinal (allowed : Store → Statement → Prop) (s : Store) (id : Uuid) : Prop :=
  ∀ createdBy fault now,
    ((Query.revokeEnrollmentToken id createdBy).exec fault now s).1 = .ok true →
    ∀ rest, Along allowed ((Query.revokeEnrollmentToken id createdBy).exec fault now s).2 rest →
      Store.Refuses (Store.after
        ((Query.revokeEnrollmentToken id createdBy).exec fault now s).2 rest) id

/-- A use is refunded only to a token that is not revoked. -/
def RefundsUnrevoked (s : Store) (st : Statement) : Prop :=
  ∀ id, st.query = .refundEnrollmentToken id →
    ∀ row ∈ s.tokens.rows, row.id = id → row.revokedAt = none

/-! ### Revoked tokens -/

/-- The token is revoked and has no uses left. -/
def Revoked (id : Uuid) (s : Store) : Prop :=
  ∃ row ∈ s.tokens.rows, row.id = id ∧ row.usesRemaining = 0 ∧ row.revokedAt ≠ none

variable {id : Uuid} {s : Store}

/-- The row of a token after a change of the table. -/
theorem Revoked.modify {tokens : Keyed EnrollmentToken.id} {p : EnrollmentToken → Bool}
    {f : EnrollmentToken → EnrollmentToken} {hf : ∀ row, (f row).id = row.id}
    (h : Revoked id s) (htokens : tokens = s.tokens.modify p f hf)
    (hp : ∀ row ∈ s.tokens.rows, row.id = id → row.usesRemaining = 0 → row.revokedAt ≠ none →
      p row = true → (f row).usesRemaining = 0 ∧ (f row).revokedAt ≠ none) :
    Revoked id { s with tokens } := by
  obtain ⟨row, hrow, hid, huses, hrevoked⟩ := h
  subst htokens
  refine ⟨_, mem_updateWhere.mpr ⟨row, hrow, rfl⟩, ?_⟩
  split_ifs with hmatch
  · exact ⟨(hf row).trans hid, hp row hrow hid huses hrevoked hmatch⟩
  · exact ⟨hid, huses, hrevoked⟩

theorem not_live {row : EnrollmentToken} {now : DateTime} (h : row.usesRemaining = 0) :
    row.live now = false := by
  simp [EnrollmentToken.live, h]

theorem rows_of_insertRow {α κ : Type} [DecidableEq κ] {key : α → κ} {row : α} {t t' : Keyed key}
    (h : insertRow row t = .ok t') : t'.rows = t.rows ++ [row] := by
  unfold insertRow at h
  split at h
  · rename_i t'' hinsert
    obtain rfl := Except.ok.inj h
    exact (Keyed.rows_of_insert? hinsert).2
  · cases h

/-- What a statement that refunds nothing to the token keeps. -/
theorem Revoked.run (h : Revoked id s) {q : Query} {now : DateTime} {r : q.Result × Store}
    (hallowed : q ≠ .refundEnrollmentToken id) (hrun : q.run now s = .ok r) : Revoked id r.2 := by
  cases q with
  | createEnrollmentToken id' hash identity profile createdBy expiresAt maxUses =>
    unfold Query.run at hrun
    dsimp only at hrun
    split_ifs at hrun
    obtain ⟨tokens, hinsert, hrun⟩ := bind_eq_ok hrun
    obtain rfl := Except.ok.inj hrun
    obtain ⟨row, hrow, hrevoked⟩ := h
    refine ⟨row, ?_, hrevoked⟩
    show row ∈ tokens.rows
    rw [rows_of_insertRow hinsert]
    exact List.mem_append_left _ hrow
  | findLiveEnrollmentToken hash =>
    obtain rfl := Except.ok.inj hrun
    exact h
  | consumeEnrollmentToken id' cert =>
    unfold Query.run at hrun
    dsimp only at hrun
    split_ifs at hrun
    obtain rfl := Except.ok.inj hrun
    refine h.modify rfl fun row _ _ huses _ hmatch => ?_
    simp [not_live huses] at hmatch
  | refundEnrollmentToken id' =>
    unfold Query.run at hrun
    dsimp only at hrun
    split_ifs at hrun
    obtain rfl := Except.ok.inj hrun
    refine h.modify rfl fun row _ hid _ _ hmatch => ?_
    exact absurd (congrArg Query.refundEnrollmentToken ((of_decide_eq_true hmatch).symm.trans hid))
      hallowed
  | recordEnrollmentTokenCert id' certId =>
    unfold Query.run at hrun
    dsimp only at hrun
    split_ifs at hrun
    obtain rfl := Except.ok.inj hrun
    exact h.modify rfl fun row _ _ huses hrevoked _ => ⟨huses, hrevoked⟩
  | enrollmentTokenProfile id' =>
    obtain rfl := Except.ok.inj hrun
    exact h
  | revokeEnrollmentToken id' createdBy =>
    obtain rfl := Except.ok.inj hrun
    exact h.modify rfl fun row _ _ huses _ hmatch => by simp [not_live huses] at hmatch
  | listAllowedIdentities username =>
    obtain rfl := Except.ok.inj hrun
    exact h
  | createEnrollment id' client kind csr status time =>
    obtain ⟨enrollments, -, hrun⟩ := bind_eq_ok hrun
    obtain rfl := Except.ok.inj hrun
    exact h
  | markEnrollmentIssued id' certId profile time =>
    unfold Query.run at hrun
    dsimp only at hrun
    split at hrun
    · cases hrun
    · split_ifs at hrun
      obtain rfl := Except.ok.inj hrun
      exact h
  | listEnrollmentsByClient client =>
    obtain rfl := Except.ok.inj hrun
    exact h
  | findCertificateById id' =>
    obtain rfl := Except.ok.inj hrun
    exact h

/-- A statement over a connection: it ran, or the tables are those before. -/
theorem exec_cases (q : Query) (fault : Fault) (now : DateTime) (s : Store) :
    ((q.exec fault now s).1.effect = none ∧ (q.exec fault now s).2 = s) ∨
      ∃ a, (q.exec fault now s).1.effect = some a ∧
        q.run now s = .ok (a, (q.exec fault now s).2) := by
  unfold Query.exec
  split
  · exact .inl ⟨rfl, rfl⟩
  · rename_i a s' hrun
    cases fault with
    | none => exact .inr ⟨a, rfl, hrun⟩
    | before => exact .inl ⟨rfl, rfl⟩
    | after => exact .inr ⟨a, rfl, hrun⟩

/-- The result of a statement whose connection did not fail. -/
theorem run_of_exec {q : Query} {fault : Fault} {now : DateTime} {s : Store} {a : q.Result}
    (h : (q.exec fault now s).1 = .ok a) : q.run now s = .ok (a, (q.exec fault now s).2) := by
  unfold Query.exec at h ⊢
  split at h
  · cases h
  · rename_i a' s' hrun
    cases fault with
    | none =>
      obtain rfl := DbReply.ok.inj h
      exact hrun
    | before => cases h
    | after => cases h

/-- What a statement keeps. -/
theorem Revoked.exec (h : Revoked id s) {st : Statement} (hallowed : RefundsUnrevoked s st) :
    Revoked id (st.query.exec st.fault st.now s).2 := by
  rcases exec_cases st.query st.fault st.now s with ⟨-, hsame⟩ | ⟨a, -, hrun⟩
  · rwa [hsame]
  · refine h.run (fun hq => ?_) hrun
    obtain ⟨row, hrow, hid, -, hrevoked⟩ := h
    exact hrevoked (hallowed id hq row hrow hid)

/-- What a sequence of statements keeps. -/
theorem Revoked.after (h : Revoked id s) (rest : List Statement)
    (hallowed : Along RefundsUnrevoked s rest) : Revoked id (s.after rest) := by
  induction rest generalizing s with
  | nil => exact h
  | cons st rest ih => exact ih (h.exec hallowed.1) hallowed.2

/-- A revoked token is refused: it has no uses left, and no other row has its id. -/
theorem Revoked.refuses (h : Revoked id s) : s.Refuses id := by
  obtain ⟨row, hrow, hid, huses, -⟩ := h
  have hnone (row' : EnrollmentToken) (hrow' : row' ∈ s.tokens.rows) (hid' : row'.id = id)
      (now : DateTime) : row'.live now = false := by
    rw [s.tokens.eq_of_key hrow' hrow (hid'.trans hid.symm)]
    exact not_live huses
  constructor
  · intro hash fault now token hfound hid'
    have hrun := (Prod.mk.inj (Except.ok.inj (run_of_exec hfound))).1
    obtain ⟨row', hrow', rfl⟩ := Option.map_eq_some_iff.mp hrun
    have hlive := List.find?_some hrow'
    rw [hnone row' (List.mem_of_find?_eq_some hrow') hid' now] at hlive
    simp at hlive
  · intro cert fault now hspent
    have hrun := run_of_exec hspent
    unfold Query.run at hrun
    dsimp only at hrun
    split_ifs at hrun
    have hany := (Prod.mk.inj (Except.ok.inj hrun)).1
    obtain ⟨row', hrow', hmatch⟩ := List.any_eq_true.mp hany
    simp only [Bool.and_eq_true, decide_eq_true_eq] at hmatch
    rw [hnone row' hrow' hmatch.1 now] at hmatch
    cases hmatch.2

/-- What the revocation establishes. -/
theorem revoked_of_revoke {createdBy : Option String} {fault : Fault} {now : DateTime}
    (h : ((Query.revokeEnrollmentToken id createdBy).exec fault now s).1 = .ok true) :
    Revoked id ((Query.revokeEnrollmentToken id createdBy).exec fault now s).2 := by
  have hrun := run_of_exec h
  obtain ⟨hany, hstore⟩ := Prod.mk.inj (Except.ok.inj hrun)
  obtain ⟨row, hrow, hmatch⟩ := List.any_eq_true.mp hany
  rw [← hstore]
  refine ⟨_, mem_updateWhere.mpr ⟨row, hrow, rfl⟩, ?_⟩
  rw [if_pos hmatch]
  simp only [Bool.and_eq_true, decide_eq_true_eq] at hmatch
  exact ⟨hmatch.1.1, rfl, by simp [EnrollmentToken.revoke]⟩

/-- **Revocation is final** when no use is refunded to a revoked token. -/
theorem revocation_final (s : Store) (id : Uuid) : RevocationFinal RefundsUnrevoked s id :=
  fun _ _ _ hrevoke rest hallowed => ((revoked_of_revoke hrevoke).after rest hallowed).refuses

/-! ### A sequence of statements -/

open Instance

/-- A use of the token is reserved. -/
def reserved : Store := (minted 2).after [⟨.consumeEnrollmentToken ⟨7⟩ none, .none, time 1⟩]

/-- **A revoked token comes back**: the issuance for which a use was reserved fails after the
revocation. -/
theorem revoked_comes_back : ¬∀ s id, RevocationFinal (fun _ _ => True) s id := by
  intro h
  have hrefund := h reserved ⟨7⟩ none .none (time 2) (by decide +kernel)
    [⟨.refundEnrollmentToken ⟨7⟩, .none, time 3⟩] ⟨trivial, trivial⟩
  exact hrefund.1 [7] .none (time 4) (⟨7⟩, "device", time 3600) (by decide +kernel) rfl

/-- The reserved use is spent, and the token is revoked. -/
theorem revocation_final_of_use :
    ((Query.revokeEnrollmentToken ⟨7⟩ none).exec .none (time 2) reserved).1 = .ok true ∧
      Store.Refuses (Store.after ((Query.revokeEnrollmentToken ⟨7⟩ none).exec .none (time 2)
        reserved).2 [⟨.consumeEnrollmentToken ⟨7⟩ none, .none, time 3⟩]) ⟨7⟩ := by
  have hrevoke : ((Query.revokeEnrollmentToken ⟨7⟩ none).exec .none (time 2) reserved).1
      = .ok true := by
    decide +kernel
  refine ⟨hrevoke, revocation_final reserved ⟨7⟩ none .none (time 2) hrevoke _ ⟨?_, trivial⟩⟩
  exact fun _ hq => by cases hq

end Ostrich.Est
