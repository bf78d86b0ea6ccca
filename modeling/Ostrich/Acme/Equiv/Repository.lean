import Ostrich.Acme.Rest

/-!
# What the calls do to the tables

For each table, the ways in which a call can change it (`exec_accounts`, `exec_orders`,
`exec_authorizations`, `exec_challenges`).  From these: keys stay unique (`Store.Unique.exec`) and
rows stay, with the columns that no statement writes (`Store.Evolves.exec`).
-/

namespace Ostrich.Acme

open Interleave Table

/-! ### Statements over a failing connection -/

/-- A statement over a failing connection leaves the store or does what it does. -/
theorem Query.exec_store (q : Query) (fault : Fault) (d : Drawn) (s : Store) :
    (q.exec fault d s).2 = s ∨ ∃ a, q.run d s = .ok (a, (q.exec fault d s).2) := by
  unfold Query.exec
  cases fault <;> cases hrun : q.run d s with
  | error e => exact .inl rfl
  | ok p => first | exact .inl rfl | exact .inr ⟨p.1, rfl⟩

/-- A statement that replied with a result did what it does. -/
theorem Query.run_of_exec_ok {q : Query} {fault : Fault} {d : Drawn} {s : Store} {a : q.Result}
    (h : (q.exec fault d s).1 = .ok a) : q.run d s = .ok (a, (q.exec fault d s).2) := by
  unfold Query.exec at h ⊢
  cases fault <;> cases hrun : q.run d s with
  | error e => rw [hrun] at h; cases h
  | ok p =>
    rw [hrun] at h
    first
    | exact congrArg Except.ok (Prod.ext (Except.ok.inj h) rfl)
    | cases h

theorem insertRow_eq_ok {α : Type} {rows rows' : List α} {taken : α → Bool} {row a : α}
    (h : insertRow rows taken row = .ok (a, rows')) :
    a = row ∧ rows' = rows ++ [row] ∧ ∀ r ∈ rows, taken r = false := by
  unfold insertRow at h
  split_ifs at h with htaken
  obtain ⟨rfl, rfl⟩ := Prod.mk.inj (Except.ok.inj h)
  exact ⟨rfl, rfl, by simpa using htaken⟩

theorem updateRow_eq_ok {α : Type} {rows rows' : List α} {p : α → Bool} {f : α → α} {a : α}
    (h : updateRow rows p f = .ok (a, rows')) :
    rows' = updateWhere p f rows ∧ ∃ row ∈ rows, p row = true ∧ a = f row := by
  unfold updateRow at h
  split at h
  · cases h
  · rename_i row hrow
    obtain ⟨rfl, rfl⟩ := Prod.mk.inj (Except.ok.inj h)
    exact ⟨rfl, row, List.mem_of_find?_eq_some hrow, by simpa using List.find?_some hrow, rfl⟩

/-! ### The changes of each table -/

/-- What a statement does to the store. -/
inductive Effect (d : Drawn) (s : Store) : Query → Store → Prop
  | read (q : Query) : Effect d s q s
  | nonces (q : Query) (nonces : List AcmeNonce) : Effect d s q { s with nonces }
  | createAccount {accountId thumbprint : String} {jwk : Jwk} {contact : List String}
      {status : String} {tos : Bool}
      (hnew : ∀ a ∈ s.accounts, a.id ≠ d.uuid ∧ a.accountId ≠ accountId) :
      Effect d s (.createAccount accountId thumbprint jwk contact status tos)
        { s with accounts := s.accounts
            ++ [⟨d.uuid, accountId, thumbprint, jwk, contact, status, tos, d.now, d.now⟩] }
  | updateAccount {accountId : String} {contact : Option (List String)} {status : Option String} :
      Effect d s (.updateAccount accountId contact status)
        { s with accounts := updateWhere (fun a => a.accountId = accountId) (fun a =>
            { a with contact := contact.getD a.contact, status := status.getD a.status,
                     updatedAt := d.now }) s.accounts }
  | createOrder {orderId : String} {accountId : Uuid} {status : String} {ids : List Identifier}
      {notBefore notAfter : Option DateTime} {expires : DateTime}
      (hnew : ∀ o ∈ s.orders, o.id ≠ d.uuid ∧ o.orderId ≠ orderId) :
      Effect d s (.createOrder orderId accountId status ids notBefore notAfter expires)
        { s with orders := s.orders ++ [⟨d.uuid, orderId, accountId, status, ids, notBefore,
            notAfter, expires, none, none, d.now, d.now⟩] }
  | updateOrderStatus {orderId : Uuid} {status : String} :
      Effect d s (.updateOrderStatus orderId status)
        { s with orders := updateWhere (fun o => o.id = orderId) (fun o =>
            { o with status, updatedAt := d.now }) s.orders }
  | updateOrderCertificate {orderId certificateId : Uuid} {csrDer : List UInt8} :
      Effect d s (.updateOrderCertificate orderId certificateId csrDer)
        { s with orders := updateWhere (fun o => o.id = orderId) (fun o =>
            { o with certificateId := some certificateId, csrDer := some csrDer,
                     updatedAt := d.now }) s.orders }
  | createAuthorization {authorizationId : String} {orderId : Uuid} {type value status : String}
      {expires : DateTime} {wildcard : Bool} (horder : ∃ o ∈ s.orders, o.id = orderId)
      (hnew : ∀ a ∈ s.authorizations, a.id ≠ d.uuid ∧ a.authorizationId ≠ authorizationId) :
      Effect d s (.createAuthorization authorizationId orderId type value status expires wildcard)
        { s with authorizations := s.authorizations ++ [⟨d.uuid, authorizationId, orderId, type,
            value, status, expires, wildcard, d.now, d.now⟩] }
  | updateAuthorizationStatus {authorizationId status : String} :
      Effect d s (.updateAuthorizationStatus authorizationId status)
        { s with authorizations :=
          updateWhere (fun a => a.authorizationId = authorizationId) (fun a =>
            { a with status, updatedAt := d.now }) s.authorizations }
  | createChallenge {challengeId : String} {authorizationId : Uuid} {type token status : String}
      (hauthz : ∃ a ∈ s.authorizations, a.id = authorizationId)
      (hnew : ∀ c ∈ s.challenges, c.id ≠ d.uuid ∧ c.challengeId ≠ challengeId) :
      Effect d s (.createChallenge challengeId authorizationId type token status)
        { s with challenges := s.challenges ++ [⟨d.uuid, challengeId, authorizationId, type,
            token, status, none, none, d.now, d.now⟩] }
  | updateChallengeStatus {challengeId status : String} {validatedAt : Option DateTime}
      {errorDetail : Option ProblemDocument} :
      Effect d s (.updateChallengeStatus challengeId status validatedAt errorDetail)
        { s with challenges := updateWhere (fun c => c.challengeId = challengeId) (fun c =>
            { c with status, validatedAt, errorDetail, updatedAt := d.now }) s.challenges }

/-- A successful statement has its effect. -/
theorem Query.run_effect {q : Query} {d : Drawn} {s s' : Store} {a : q.Result}
    (h : q.run d s = .ok (a, s')) : Effect d s q s' := by
  cases q with
  | createAccount =>
    obtain ⟨⟨row, rows⟩, hins, h⟩ := bind_eq_ok h
    obtain ⟨rfl, rfl, hnew⟩ := insertRow_eq_ok hins
    obtain ⟨-, rfl⟩ := Prod.mk.inj (Except.ok.inj h)
    refine .createAccount fun a ha => ?_
    have := hnew a ha
    simp only [Bool.or_eq_false_iff, decide_eq_false_iff_not] at this
    exact this.1
  | createOrder =>
    rw [Query.run] at h
    split_ifs at h
    obtain ⟨⟨row, rows⟩, hins, h⟩ := bind_eq_ok h
    obtain ⟨rfl, rfl, hnew⟩ := insertRow_eq_ok hins
    obtain ⟨-, rfl⟩ := Prod.mk.inj (Except.ok.inj h)
    refine .createOrder fun o ho => ?_
    simpa using hnew o ho
  | createAuthorization =>
    rw [Query.run] at h
    split_ifs at h with hfk
    obtain ⟨⟨row, rows⟩, hins, h⟩ := bind_eq_ok h
    obtain ⟨rfl, rfl, hnew⟩ := insertRow_eq_ok hins
    obtain ⟨-, rfl⟩ := Prod.mk.inj (Except.ok.inj h)
    refine .createAuthorization (by simpa using hfk) fun a ha => ?_
    simpa using hnew a ha
  | createChallenge =>
    rw [Query.run] at h
    split_ifs at h with hfk
    obtain ⟨⟨row, rows⟩, hins, h⟩ := bind_eq_ok h
    obtain ⟨rfl, rfl, hnew⟩ := insertRow_eq_ok hins
    obtain ⟨-, rfl⟩ := Prod.mk.inj (Except.ok.inj h)
    refine .createChallenge (by simpa using hfk) fun c hc => ?_
    simpa using hnew c hc
  | createNonce =>
    obtain ⟨⟨row, rows⟩, -, h⟩ := bind_eq_ok h
    obtain ⟨-, rfl⟩ := Prod.mk.inj (Except.ok.inj h)
    exact .nonces _ _
  | updateAccount =>
    obtain ⟨⟨row, rows⟩, hupd, h⟩ := bind_eq_ok h
    obtain ⟨rfl, -⟩ := updateRow_eq_ok hupd
    obtain ⟨-, rfl⟩ := Prod.mk.inj (Except.ok.inj h)
    exact .updateAccount
  | updateOrderStatus =>
    obtain ⟨⟨row, rows⟩, hupd, h⟩ := bind_eq_ok h
    obtain ⟨rfl, -⟩ := updateRow_eq_ok hupd
    obtain ⟨-, rfl⟩ := Prod.mk.inj (Except.ok.inj h)
    exact .updateOrderStatus
  | updateOrderCertificate =>
    rw [Query.run] at h
    split_ifs at h
    obtain ⟨⟨row, rows⟩, hupd, h⟩ := bind_eq_ok h
    obtain ⟨rfl, -⟩ := updateRow_eq_ok hupd
    obtain ⟨-, rfl⟩ := Prod.mk.inj (Except.ok.inj h)
    exact .updateOrderCertificate
  | updateAuthorizationStatus =>
    obtain ⟨⟨row, rows⟩, hupd, h⟩ := bind_eq_ok h
    obtain ⟨rfl, -⟩ := updateRow_eq_ok hupd
    obtain ⟨-, rfl⟩ := Prod.mk.inj (Except.ok.inj h)
    exact .updateAuthorizationStatus
  | updateChallengeStatus =>
    obtain ⟨⟨row, rows⟩, hupd, h⟩ := bind_eq_ok h
    obtain ⟨rfl, -⟩ := updateRow_eq_ok hupd
    obtain ⟨-, rfl⟩ := Prod.mk.inj (Except.ok.inj h)
    exact .updateChallengeStatus
  | consumeNonce =>
    obtain ⟨-, rfl⟩ := Prod.mk.inj (Except.ok.inj h)
    exact .nonces _ _
  | findAccountByJwk | findAccountById | findAccountByUuid | findOrderById | findOrderByUuid
  | findAuthorizationById | findAuthorizationByUuid | listAuthorizationsByOrder
  | findChallengeById | listChallengesByAuthorization =>
    obtain ⟨-, rfl⟩ := Prod.mk.inj (Except.ok.inj h)
    exact .read _

/-- A call leaves the store, or is a statement that has its effect. -/
theorem exec_effect (e : Call) (c : Choice) (s : Store) :
    (exec e c s).2 = s ∨ ∃ q, e = .db q ∧ Effect c.drawn s q (exec e c s).2 := by
  cases e with
  | db q =>
    rcases q.exec_store c.fault c.drawn s with h | ⟨a, h⟩
    · exact .inl h
    · exact .inr ⟨q, rfl, q.run_effect h⟩
  | newUuid | now | recordAudit | validate | isRequestAllowed | issueCertificate
  | spawnValidation => exact .inl rfl

/-- How a call changes the accounts. -/
theorem exec_accounts (e : Call) (c : Choice) (s : Store) :
    Change AcmeAccount.id AcmeAccount.accountId
      (fun row => ∃ thumbprint jwk contact status tos,
        e = .db (.createAccount row.accountId thumbprint jwk contact status tos))
      (fun p f => ∃ accountId contact status, e = .db (.updateAccount accountId contact status) ∧
        p = (fun a => decide (a.accountId = accountId)) ∧
        f = fun a => { a with contact := contact.getD a.contact,
                              status := status.getD a.status, updatedAt := c.drawn.now })
      s.accounts (exec e c s).2.accounts := by
  rcases exec_effect e c s with h | ⟨q, rfl, h⟩
  · rw [h]
    exact .same
  generalize (exec (.db q) c s).2 = s' at h
  cases h with
  | createAccount hnew =>
    exact .insert _ ⟨_, _, _, _, _, rfl⟩ (fun a ha => (hnew a ha).1) (fun a ha => (hnew a ha).2)
  | updateAccount => exact .update _ _ ⟨_, _, _, rfl, rfl, rfl⟩
  | _ => exact .same

/-- How a call changes the orders. -/
theorem exec_orders (e : Call) (c : Choice) (s : Store) :
    Change AcmeOrder.id AcmeOrder.orderId
      (fun row => ∃ orderId accountId ids notBefore notAfter expires,
        e = .db (.createOrder orderId accountId row.status ids notBefore notAfter expires))
      (fun p f => ∃ orderId, p = (fun o => decide (o.id = orderId)) ∧
        ((∃ status, e = .db (.updateOrderStatus orderId status) ∧
            f = fun o => { o with status, updatedAt := c.drawn.now }) ∨
          ∃ certificateId csrDer,
            e = .db (.updateOrderCertificate orderId certificateId csrDer) ∧
            f = fun o => { o with certificateId := some certificateId, csrDer := some csrDer,
                                  updatedAt := c.drawn.now }))
      s.orders (exec e c s).2.orders := by
  rcases exec_effect e c s with h | ⟨q, rfl, h⟩
  · rw [h]
    exact .same
  generalize (exec (.db q) c s).2 = s' at h
  cases h with
  | createOrder hnew =>
    exact .insert _ ⟨_, _, _, _, _, _, rfl⟩ (fun o ho => (hnew o ho).1) (fun o ho => (hnew o ho).2)
  | updateOrderStatus => exact .update _ _ ⟨_, rfl, .inl ⟨_, rfl, rfl⟩⟩
  | updateOrderCertificate => exact .update _ _ ⟨_, rfl, .inr ⟨_, _, rfl, rfl⟩⟩
  | _ => exact .same

/-- How a call changes the authorizations. -/
theorem exec_authorizations (e : Call) (c : Choice) (s : Store) :
    Change AcmeAuthorization.id AcmeAuthorization.authorizationId
      (fun row => ∃ authorizationId orderId type value expires wildcard,
        e = .db (.createAuthorization authorizationId orderId type value row.status expires
          wildcard))
      (fun p f => ∃ authorizationId status,
        e = .db (.updateAuthorizationStatus authorizationId status) ∧
        p = (fun a => decide (a.authorizationId = authorizationId)) ∧
        f = fun a => { a with status, updatedAt := c.drawn.now })
      s.authorizations (exec e c s).2.authorizations := by
  rcases exec_effect e c s with h | ⟨q, rfl, h⟩
  · rw [h]
    exact .same
  generalize (exec (.db q) c s).2 = s' at h
  cases h with
  | createAuthorization _ hnew =>
    exact .insert _ ⟨_, _, _, _, _, _, rfl⟩ (fun a ha => (hnew a ha).1) (fun a ha => (hnew a ha).2)
  | updateAuthorizationStatus => exact .update _ _ ⟨_, _, rfl, rfl, rfl⟩
  | _ => exact .same

/-- How a call changes the challenges. -/
theorem exec_challenges (e : Call) (c : Choice) (s : Store) :
    Change AcmeChallenge.id AcmeChallenge.challengeId
      (fun row => (∃ challengeId authorizationId type token,
        e = .db (.createChallenge challengeId authorizationId type token row.status)) ∧
        ∃ a ∈ s.authorizations, a.id = row.authorizationId)
      (fun p f => ∃ challengeId status validatedAt errorDetail,
        e = .db (.updateChallengeStatus challengeId status validatedAt errorDetail) ∧
        p = (fun c => decide (c.challengeId = challengeId)) ∧
        f = fun row => { row with status, validatedAt, errorDetail, updatedAt := c.drawn.now })
      s.challenges (exec e c s).2.challenges := by
  rcases exec_effect e c s with h | ⟨q, rfl, h⟩
  · rw [h]
    exact .same
  generalize (exec (.db q) c s).2 = s' at h
  cases h with
  | createChallenge hauthz hnew =>
    exact .insert _ ⟨⟨_, _, _, _, rfl⟩, hauthz⟩ (fun a ha => (hnew a ha).1)
      (fun a ha => (hnew a ha).2)
  | updateChallengeStatus => exact .update _ _ ⟨_, _, _, _, rfl, rfl, rfl⟩
  | _ => exact .same

/-! ### Rows stay -/

/-- The columns of an order that no statement writes. -/
def AcmeOrder.fixed (o : AcmeOrder) : AcmeOrder :=
  { o with status := "", certificateId := none, csrDer := none, updatedAt := 0 }

/-- The columns of an authorization that no statement writes. -/
def AcmeAuthorization.fixed (a : AcmeAuthorization) : AcmeAuthorization :=
  { a with status := "", updatedAt := 0 }

/-- The columns of a challenge that no statement writes. -/
def AcmeChallenge.fixed (c : AcmeChallenge) : AcmeChallenge :=
  { c with status := "", validatedAt := none, errorDetail := none, updatedAt := 0 }

theorem AcmeOrder.fixed_eq {a b : AcmeOrder} (h : a.fixed = b.fixed) :
    a.id = b.id ∧ a.orderId = b.orderId ∧ a.identifiers = b.identifiers := by
  obtain ⟨hid, hname, -, -, hids, -⟩ := AcmeOrder.mk.inj h
  exact ⟨hid, hname, hids⟩

theorem AcmeAuthorization.fixed_eq {a b : AcmeAuthorization} (h : a.fixed = b.fixed) :
    a.id = b.id ∧ a.authorizationId = b.authorizationId ∧ a.orderId = b.orderId ∧
      a.identifierType = b.identifierType ∧ a.identifierValue = b.identifierValue ∧
      a.wildcard = b.wildcard := by
  obtain ⟨hid, hname, horder, htype, hvalue, -, -, hwildcard, -⟩ := AcmeAuthorization.mk.inj h
  exact ⟨hid, hname, horder, htype, hvalue, hwildcard⟩

theorem AcmeChallenge.fixed_eq {a b : AcmeChallenge} (h : a.fixed = b.fixed) :
    a.id = b.id ∧ a.challengeId = b.challengeId ∧ a.authorizationId = b.authorizationId := by
  obtain ⟨hid, hname, hauthz, -⟩ := AcmeChallenge.mk.inj h
  exact ⟨hid, hname, hauthz⟩

/-- The rows of `s` are still in `s'`. -/
structure Store.Evolves (s s' : Store) : Prop where
  orders : Table.Evolves AcmeOrder.fixed s.orders s'.orders
  authorizations : Table.Evolves AcmeAuthorization.fixed s.authorizations s'.authorizations
  challenges : Table.Evolves AcmeChallenge.fixed s.challenges s'.challenges

theorem Store.Evolves.refl (s : Store) : s.Evolves s :=
  ⟨.refl _ _, .refl _ _, .refl _ _⟩

theorem exec_evolves (e : Call) (c : Choice) (s : Store) : s.Evolves (exec e c s).2 where
  orders := by
    refine (exec_orders e c s).evolves ?_
    rintro p f ⟨_, -, ⟨_, -, rfl⟩ | ⟨_, _, -, rfl⟩⟩ row <;> rfl
  authorizations := by
    refine (exec_authorizations e c s).evolves ?_
    rintro p f ⟨_, _, -, -, rfl⟩ row
    rfl
  challenges := by
    refine (exec_challenges e c s).evolves ?_
    rintro p f ⟨_, _, _, _, -, -, rfl⟩ row
    rfl

/-- The primary keys and the unique texts. -/
structure Store.Keys (s : Store) : Prop where
  orders : Unique AcmeOrder.id s.orders ∧ Unique AcmeOrder.orderId s.orders
  authorizations : Unique AcmeAuthorization.id s.authorizations ∧
    Unique AcmeAuthorization.authorizationId s.authorizations
  challenges : Unique AcmeChallenge.id s.challenges ∧
    Unique AcmeChallenge.challengeId s.challenges

theorem Store.Keys.exec {s : Store} (h : s.Keys) (e : Call) (c : Choice) :
    (Acme.exec e c s).2.Keys where
  orders := by
    refine (exec_orders e c s).unique ?_ h.orders
    rintro p f ⟨_, -, ⟨_, -, rfl⟩ | ⟨_, _, -, rfl⟩⟩ row <;> exact ⟨rfl, rfl⟩
  authorizations := by
    refine (exec_authorizations e c s).unique ?_ h.authorizations
    rintro p f ⟨_, _, -, -, rfl⟩ row
    exact ⟨rfl, rfl⟩
  challenges := by
    refine (exec_challenges e c s).unique ?_ h.challenges
    rintro p f ⟨_, _, _, _, -, -, rfl⟩ row
    exact ⟨rfl, rfl⟩

/-! ### What a reply says -/

/-- The table has this order, up to the columns that are written. -/
def Store.HasOrder (s : Store) (row : AcmeOrder) : Prop := ∃ r ∈ s.orders, r.fixed = row.fixed

def Store.HasAuthorization (s : Store) (row : AcmeAuthorization) : Prop :=
  ∃ r ∈ s.authorizations, r.fixed = row.fixed

def Store.HasChallenge (s : Store) (row : AcmeChallenge) : Prop :=
  ∃ r ∈ s.challenges, r.fixed = row.fixed

/-- The rows of a reply are rows of the tables. -/
def Known (s : Store) : (e : Call) → Reply e → Prop
  | .db (.findOrderById orderId), .ok (some row) => row.orderId = orderId ∧ s.HasOrder row
  | .db (.findOrderByUuid id), .ok (some row) => row.id = id ∧ s.HasOrder row
  | .db (.findAuthorizationByUuid id), .ok (some row) => row.id = id ∧ s.HasAuthorization row
  | .db (.listAuthorizationsByOrder orderId), .ok rows =>
    ∀ row ∈ rows, row.orderId = orderId ∧ s.HasAuthorization row
  | .db (.findChallengeById challengeId), .ok (some row) =>
    row.challengeId = challengeId ∧ s.HasChallenge row
  | .db (.updateChallengeStatus challengeId ..), .ok row =>
    row.challengeId = challengeId ∧ s.HasChallenge row
  | _, _ => True

theorem Store.Evolves.hasOrder {s s' : Store} (h : s.Evolves s') {row : AcmeOrder}
    (hrow : s.HasOrder row) : s'.HasOrder row := by
  obtain ⟨r, hr, hfixed⟩ := hrow
  obtain ⟨r', hr', hfixed'⟩ := h.orders r hr
  exact ⟨r', hr', hfixed'.trans hfixed⟩

theorem Store.Evolves.hasAuthorization {s s' : Store} (h : s.Evolves s') {row : AcmeAuthorization}
    (hrow : s.HasAuthorization row) : s'.HasAuthorization row := by
  obtain ⟨r, hr, hfixed⟩ := hrow
  obtain ⟨r', hr', hfixed'⟩ := h.authorizations r hr
  exact ⟨r', hr', hfixed'.trans hfixed⟩

theorem Store.Evolves.hasChallenge {s s' : Store} (h : s.Evolves s') {row : AcmeChallenge}
    (hrow : s.HasChallenge row) : s'.HasChallenge row := by
  obtain ⟨r, hr, hfixed⟩ := hrow
  obtain ⟨r', hr', hfixed'⟩ := h.challenges r hr
  exact ⟨r', hr', hfixed'.trans hfixed⟩

theorem Known.evolves {s s' : Store} (h : s.Evolves s') {e : Call} {r : Reply e}
    (hr : Known s e r) : Known s' e r := by
  unfold Known at hr ⊢
  split at hr
  · exact ⟨hr.1, h.hasOrder hr.2⟩
  · exact ⟨hr.1, h.hasOrder hr.2⟩
  · exact ⟨hr.1, h.hasAuthorization hr.2⟩
  · exact fun row hrow => ⟨(hr row hrow).1, h.hasAuthorization (hr row hrow).2⟩
  · exact ⟨hr.1, h.hasChallenge hr.2⟩
  · exact ⟨hr.1, h.hasChallenge hr.2⟩
  · exact trivial

/-- A reading statement replies with what the table holds. -/
theorem read_of_exec_ok {q : Query} {c : Choice} {s : Store} {a b : q.Result}
    (hread : q.run c.drawn s = .ok (b, s)) (h : (exec (.db q) c s).1 = .ok a) :
    a = b ∧ (exec (.db q) c s).2 = s := by
  have hrun := Query.run_of_exec_ok h
  rw [hread] at hrun
  obtain ⟨rfl, hs⟩ := Prod.mk.inj (Except.ok.inj hrun)
  exact ⟨rfl, hs.symm⟩

/-- What a call replies is known after it. -/
theorem known_exec (e : Call) (c : Choice) (s : Store) : Known (exec e c s).2 e (exec e c s).1 := by
  have hfind {α : Type} {p : α → Bool} {rows : List α} {row : α} (h : some row = rows.find? p) :
      p row = true ∧ row ∈ rows := ⟨List.find?_some h.symm, List.mem_of_find?_eq_some h.symm⟩
  generalize hr : (exec e c s).1 = r
  unfold Known
  split
  · obtain ⟨ha, hs⟩ := read_of_exec_ok rfl hr
    obtain ⟨hp, hmem⟩ := hfind ha
    rw [hs]
    exact ⟨of_decide_eq_true hp, _, hmem, rfl⟩
  · obtain ⟨ha, hs⟩ := read_of_exec_ok rfl hr
    obtain ⟨hp, hmem⟩ := hfind ha
    rw [hs]
    exact ⟨of_decide_eq_true hp, _, hmem, rfl⟩
  · obtain ⟨ha, hs⟩ := read_of_exec_ok rfl hr
    obtain ⟨hp, hmem⟩ := hfind ha
    rw [hs]
    exact ⟨of_decide_eq_true hp, _, hmem, rfl⟩
  · obtain ⟨rfl, hs⟩ := read_of_exec_ok rfl hr
    intro row hrow
    obtain ⟨hmem, hp⟩ := List.mem_filter.mp ((List.mem_insertionSort _).mp hrow)
    rw [hs]
    exact ⟨of_decide_eq_true hp, row, hmem, rfl⟩
  · obtain ⟨ha, hs⟩ := read_of_exec_ok rfl hr
    obtain ⟨hp, hmem⟩ := hfind ha
    rw [hs]
    exact ⟨of_decide_eq_true hp, _, hmem, rfl⟩
  · obtain ⟨⟨row, rows⟩, hupd, hrun⟩ := bind_eq_ok (Query.run_of_exec_ok hr)
    obtain ⟨rfl, old, hold, hp, hrow⟩ := updateRow_eq_ok hupd
    obtain ⟨rfl, hs⟩ := Prod.mk.inj (Except.ok.inj hrun)
    rw [exec, ← hs, hrow]
    refine ⟨of_decide_eq_true hp, _, mem_updateWhere.mpr ⟨old, hold, rfl⟩, ?_⟩
    rw [if_pos hp]
  · exact trivial

end Ostrich.Acme
