import Ostrich.Acme.Equiv.Rest
import Ostrich.Acme.Instance

/-!
# The life of an account

An account has two names: the `account_id` of its URL, `acct-` and a UUID, and the UUID of its row.
`update_account` requires that the name in the URL is the UUID of the row and then looks for a row
with that `account_id`, of which there is none.  So no request ever changes an account, and
`verify_jws_account` does not look at the status either (`accounts_never_updated`).
-/

namespace Ostrich.Acme

open Interleave Table

variable {env : Env} {w : AcmeWorld} {i n : ℕ} {t : Task} {e : Call} {c : Choice}

/-! ### Names -/

/-- The names of accounts are longer than the text of a UUID. -/
theorem acct_ne_uuid (id id' : Uuid) : "acct-" ++ id.toString ≠ id'.toString := by
  intro h
  have hlength := congrArg String.length h
  rw [String.length_append, Uuid.length_toString, Uuid.length_toString] at hlength
  exact absurd hlength (by decide)

/-- What holds of the accounts and of the requests to update them. -/
structure AccountInv (w : AcmeWorld) : Prop where
  named : ∀ a ∈ w.store.accounts, ∃ id : Uuid, a.accountId = "acct-" ++ id.toString
  not_updated : ∀ i accountId contact status row,
    .call i (.db (.updateAccount accountId contact status)) (.ok row) ∉ w.log
  refused : ∀ i id body r, w.Started i (.updateAccount id body) → .finish i r ∈ w.log →
    ∃ e, r = .error e

/-- No account has the name that an update looks for. -/
theorem AccountInv.accountId_ne (h : AccountInv w) {accountId : String}
    (hid : ∃ id : Uuid, accountId = id.toString) :
    ∀ a ∈ w.store.accounts, a.accountId ≠ accountId := by
  obtain ⟨id, rfl⟩ := hid
  intro a ha hname
  obtain ⟨id', hid'⟩ := h.named a ha
  exact acct_ne_uuid id' id (hid'.symm.trans hname)

/-- No call changes an account. -/
theorem AccountInv.accounts_kept (h : AccountInv w) (hcalls : callSpec env t (w.history i) e) :
    ∀ a ∈ w.store.accounts, a ∈ (exec e c w.store).2.accounts := by
  intro a ha
  have hchange := exec_accounts e c w.store
  generalize (exec e c w.store).2.accounts = rows at hchange ⊢
  cases hchange with
  | same => exact ha
  | insert new _ _ _ => exact List.mem_append_left _ ha
  | update p f hupdated =>
    obtain ⟨accountId, _, _, rfl, rfl, -⟩ := hupdated
    refine mem_updateWhere.mpr ⟨a, ha, ?_⟩
    rw [if_neg (by simpa using h.accountId_ne hcalls a ha)]

theorem AccountInv.named_after (h : AccountInv w) (hcalls : callSpec env t (w.history i) e) :
    ∀ a ∈ (exec e c w.store).2.accounts, ∃ id : Uuid, a.accountId = "acct-" ++ id.toString := by
  intro a ha
  have hchange := exec_accounts e c w.store
  generalize (exec e c w.store).2.accounts = rows at hchange ha
  cases hchange with
  | same => exact h.named a ha
  | insert new hcreated _ _ =>
    rcases List.mem_append.mp ha with ha | ha
    · exact h.named a ha
    · obtain ⟨_, _, _, _, _, rfl⟩ := hcreated
      rw [List.mem_singleton.mp ha]
      exact hcalls
  | update p f hupdated =>
    obtain ⟨_, _, _, rfl, rfl, rfl⟩ := hupdated
    obtain ⟨old, hold, rfl⟩ := mem_updateWhere.mp ha
    split_ifs <;> exact h.named old hold

theorem accountInv_preserves (env : Env) (allowed : AcmeWorld → AcmeEvent → Prop) :
    (acme env).Preserves (acmeSpec env) allowed (fun _ => True) AccountInv where
  start := by
    intro w i t _ _ h hn _
    refine ⟨h.named, fun j _ _ _ _ hmem => h.not_updated j _ _ _ _ (by simpa using hmem), ?_⟩
    intro j id body r hstart hfinish
    replace hfinish : .finish j r ∈ w.log := by simpa using hfinish
    obtain ⟨parent, hparent⟩ := hstart
    rcases List.mem_append.mp hparent with hparent | hparent
    · exact h.refused j id body r ⟨parent, hparent⟩ hfinish
    · obtain ⟨rfl, -, -⟩ := Event.start.inj (List.mem_singleton.mp hparent)
      exact absurd rfl (hn _ hfinish)
  call := by
    intro w i n t e c _ _ h hrun hn hcalls _
    refine ⟨h.named_after hcalls, fun j accountId contact status row hmem => ?_, ?_⟩
    · rcases (System.call_mem_after _).mp hmem with hold | hnew
      · exact h.not_updated j _ _ _ _ hold
      · obtain ⟨rfl, rfl, hr⟩ := Event.call.inj hnew
        obtain ⟨⟨_, rows⟩, hupd, -⟩ := bind_eq_ok (Query.run_of_exec_ok (eq_of_heq hr).symm)
        obtain ⟨-, a, ha, hp, -⟩ := updateRow_eq_ok hupd
        exact h.accountId_ne hcalls a ha (of_decide_eq_true hp)
    · rintro j id body r ⟨parent, hparent⟩ hfinish
      replace hfinish := (System.mem_after_iff _ (by simp) (by simp)).mp hfinish
      rcases (System.start_mem_after _).mp hparent with hparent | ⟨-, rfl, -⟩
      · exact h.refused j id body r ⟨parent, hparent⟩ hfinish
      · exact absurd rfl (hn _ hfinish)
  finish := by
    intro w i t r hwf _ h hrun hres _
    refine ⟨h.named, fun j _ _ _ _ hmem => h.not_updated j _ _ _ _ (by simpa using hmem), ?_⟩
    intro j id body r' hstart hfinish
    replace hstart : w.Started j (.updateAccount id body) := by
      obtain ⟨parent, hparent⟩ := hstart
      exact ⟨parent, by simpa using hparent⟩
    rcases List.mem_append.mp hfinish with hfinish | hfinish
    · exact h.refused j id body r' hstart hfinish
    · obtain ⟨rfl, rfl⟩ := Event.finish.inj (List.mem_singleton.mp hfinish)
      cases r' with
      | error e => exact ⟨e, rfl⟩
      | ok response =>
        have ht := hwf.started_unique hrun.started hstart
        obtain ⟨_, _, _, hreplied⟩ := hres id body response ht rfl
        exact absurd (World.mem_history.mp hreplied) (h.not_updated _ _ _ _ _)
  abort _ _ h _ _ := by
    refine ⟨h.named, fun j _ _ _ _ hmem => h.not_updated j _ _ _ _ (by simpa using hmem), ?_⟩
    rintro j id body r ⟨parent, hparent⟩ hfinish
    exact h.refused j id body r ⟨parent, by simpa using hparent⟩ (by simpa using hfinish)

/-! ### Statuses -/

/-- The store with other statuses of its accounts. -/
def Store.withStatuses (s : Store) (statusOf : AcmeAccount → String) : Store :=
  { s with accounts := s.accounts.map fun a => { a with status := statusOf a } }

theorem exec_consumeNonce_withStatuses (nonce : String) (s : Store)
    (statusOf : AcmeAccount → String) :
    exec (.db (.consumeNonce nonce)) c (s.withStatuses statusOf)
      = ((exec (.db (.consumeNonce nonce)) c s).1,
        (exec (.db (.consumeNonce nonce)) c s).2.withStatuses statusOf) := by
  obtain ⟨fault, _, _, _, _⟩ := c
  cases fault <;> rfl

/-- An account is found under the same names, with its other status. -/
theorem exec_findAccountById_withStatuses (accountId : String) (s : Store)
    (statusOf : AcmeAccount → String) :
    (exec (.db (.findAccountById accountId)) c (s.withStatuses statusOf)).1
      = (exec (.db (.findAccountById accountId)) c s).1.map
          (Option.map fun a => { a with status := statusOf a }) := by
  have hfind : (s.withStatuses statusOf).accounts.find? (fun a => a.accountId = accountId)
      = (s.accounts.find? fun a => a.accountId = accountId).map
          fun a => { a with status := statusOf a } := List.find?_map ..
  obtain ⟨fault, drawn, _, _, _⟩ := c
  dsimp only [exec]
  unfold Query.exec
  simp only [Query.run, hfind]
  cases fault <;> rfl

/-- A lookup whose continuation makes no calls and does not use the status. -/
theorem alone_findAccountById {β : Type} {rest : Option AcmeAccount → Handler β}
    (hcalls : ∀ a, (rest a).Within fun _ => False)
    (hrest : ∀ a status, rest (some { a with status }) = rest (some a)) (accountId : String)
    (cs : List Choice) (s : Store) (statusOf : AcmeAccount → String) :
    (query (.findAccountById accountId) >>= rest).alone exec cs (s.withStatuses statusOf)
      = (query (.findAccountById accountId) >>= rest).alone exec cs s := by
  have hreply (a : Option AcmeAccount) :
      rest (a.map fun a => { a with status := statusOf a }) = rest a := by
    cases a with
    | none => rfl
    | some a => exact hrest a (statusOf a)
  have hstore {p : Handler β} (hp : p.Within fun _ => False) (cs : List Choice) (s s' : Store) :
      p.alone exec cs s = p.alone exec cs s' := by
    cases p with
    | ret a => rfl
    | fail e => rfl
    | call e k => exact hp.1.elim
  cases cs with
  | nil => rfl
  | cons c cs =>
    unfold query await
    dsimp only [bind, Prog.bind, Prog.perform, Prog.alone]
    rw [exec_findAccountById_withStatuses]
    match (exec (.db (.findAccountById accountId)) c s).1 with
    | .error _ => rfl
    | .ok a =>
      show (rest (a.map fun a => { a with status := statusOf a })).alone exec cs _
        = (rest a).alone exec cs _
      rw [hreply]
      exact hstore (hcalls a) cs _ _

/-- **Blind to the status**: a request is verified as if the accounts had other statuses. -/
theorem verifyJwsAccount_withStatuses (body : List UInt8) (url : String) (cs : List Choice)
    (s : Store) (statusOf : AcmeAccount → String) :
    (verifyJwsAccount env body url).alone exec cs (s.withStatuses statusOf)
      = (verifyJwsAccount env body url).alone exec cs s := by
  unfold verifyJwsAccount
  cases openJws env body url with
  | error e => rfl
  | ok opened =>
    obtain ⟨envelope, header⟩ := opened
    cases cs with
    | nil => rfl
    | cons c cs =>
      unfold consumeNonce tryQuery await
      dsimp only [liftResult, bind, Prog.bind, Prog.perform, Prog.alone]
      rw [exec_consumeNonce_withStatuses]
      generalize (exec (.db (.consumeNonce header.nonce)) c s).2 = s'
      match (exec (.db (.consumeNonce header.nonce)) c s).1 with
      | .error _ => rfl
      | .ok false => rfl
      | .ok true =>
        cases header.kid with
        | none => rfl
        | some kid =>
          dsimp only [pure, Prog.bind]
          cases accountIdOfKid kid with
          | error e => rfl
          | ok accountId =>
            refine alone_findAccountById (fun a => ?_)
              (fun a status => rfl) accountId cs s' statusOf
            cases a with
            | none => exact trivial
            | some account =>
              dsimp only
              cases checkSignature env envelope header account.publicKeyJwk with
              | error e => exact trivial
              | ok _ => cases computeJwkThumbprint env.crypto account.publicKeyJwk <;> exact trivial

/-! ### Runs -/

theorem accountInv_initial : AccountInv (⟨{}, []⟩ : AcmeWorld) :=
  ⟨by simp, by simp, by simp⟩

theorem accounts_kept_preserves (env : Env) (s : Store) :
    (acme env).Preserves (acmeSpec env) OnlyRequests (fun w => True ∧ AccountInv w)
      (fun w => ∀ a ∈ s.accounts, a ∈ w.store.accounts) where
  start _ _ h _ _ := h
  call _ hI h _ _ hcalls _ := fun a ha => hI.2.accounts_kept hcalls a (h a ha)
  finish _ _ h _ _ _ := h
  abort _ _ h _ _ := h

/-- **Accounts are never updated**: every request to update an account is refused, whoever sends
it to whatever URL; an account stays in every run as it was created; and if its status were
another one, requests with its key would be verified all the same. -/
theorem accounts_never_updated (env : Env) {mid cfg : AcmeConfig}
    (hmid : (acme env).Reach OnlyRequests (System.initial {}) mid)
    (hcfg : (acme env).Reach OnlyRequests mid cfg) :
    (∀ i id body r, cfg.world.Started i (.updateAccount id body) →
      .finish i r ∈ cfg.world.log → ∃ e, r = .error e) ∧
    (∀ a ∈ mid.world.store.accounts, a ∈ cfg.world.store.accounts) ∧
    ∀ body url cs (s : Store) statusOf,
      (verifyJwsAccount env body url).alone exec cs (s.withStatuses statusOf)
        = (verifyJwsAccount env body url).alone exec cs s := by
  have hpreserves := accountInv_preserves env OnlyRequests
  obtain ⟨hgood, hinv⟩ := hpreserves.reach (acme_meets env) accountInv_initial hmid
  obtain ⟨-, hinv', hkept⟩ :=
    (hpreserves.and (accounts_kept_preserves env mid.world.store)).reach_from
    (acme_meets env) hgood ⟨hinv, fun a ha => ha⟩ hcfg
  exact ⟨hinv'.refused, hkept, verifyJwsAccount_withStatuses⟩

open Instance

/-- An account, and a request to its URL for another contact. -/
def accountMessages : List Message :=
  [{ url := "new-account", nonce := 1, jwk,
     newAccount := some { termsOfServiceAgreed := true } },
   { url := "account/acct-" ++ uuid 10, nonce := 2, kid := some ("acct-" ++ uuid 10),
     updateAccount := some { contact := some ["mailto:a@a.b"] } }]

/-- Tasks 0 and 1 make nonces, task 2 the account. -/
def toAccount : List (Action Task Choice) :=
  .arrive (.getNewNonce false) :: steps 0 1 3 ++ .arrive (.getNewNonce false) :: steps 1 2 3
    ++ .arrive (.newAccount [0]) :: steps 2 8 8

/-- Task 3 asks for the update. -/
def updateContact : List (Action Task Choice) :=
  .arrive (.updateAccount ("acct-" ++ uuid 10) [1]) :: steps 3 20 3

/-- Task 2 has replied with the URL of the account. -/
def repliesWithLocation : AcmeEvent → Bool
  | .finish 2 (.ok (some response)) =>
    response.location = some (accountUrl (wire accountMessages) ("acct-" ++ uuid 10))
  | _ => false

def startsUpdate : AcmeEvent → Bool
  | .start 3 t _ => t = .updateAccount ("acct-" ++ uuid 10) [1]
  | _ => false

/-- Task 3 is refused although its signature was verified. -/
def refusesUpdate : AcmeEvent → Bool
  | .finish 3 (.error (.error (.Unauthorized text))) => text = "Cannot update another account"
  | _ => false

/-- A run in which the owner's request to the URL that `new_account` returned is refused. -/
theorem exists_refused : ∃ mid cfg : AcmeConfig,
    (acme (wire accountMessages)).Reach OnlyRequests (System.initial {}) mid ∧
    (acme (wire accountMessages)).Reach OnlyRequests mid cfg ∧
    (∃ response, .finish 2 (.ok (some response)) ∈ cfg.world.log ∧
      response.location = some (accountUrl (wire accountMessages) ("acct-" ++ uuid 10))) ∧
    cfg.world.Started 3 (.updateAccount ("acct-" ++ uuid 10) [1]) ∧
    .finish 3 (.error (.error (.Unauthorized "Cannot update another account")))
      ∈ cfg.world.log := by
  have hrun : ((acme (wire accountMessages)).run onlyRequests toAccount (System.initial {})).bind
      (fun mid => ((acme (wire accountMessages)).run onlyRequests updateContact mid).map fun cfg =>
        cfg.world.log.any repliesWithLocation && (cfg.world.log.any startsUpdate &&
          cfg.world.log.any refusesUpdate)) = some true := by
    decide +kernel
  obtain ⟨mid, hmid, hrun⟩ := Option.bind_eq_some_iff.mp hrun
  obtain ⟨cfg, hcfg, hchecks⟩ := Option.map_eq_some_iff.mp hrun
  obtain ⟨hreply, hchecks⟩ := Bool.and_eq_true_iff.mp hchecks
  obtain ⟨hstart, hrefuse⟩ := Bool.and_eq_true_iff.mp hchecks
  refine ⟨mid, cfg, System.reach_of_run onlyRequests_sound _ hmid,
    System.reach_of_run onlyRequests_sound _ hcfg, ?_, ?_, ?_⟩
  · obtain ⟨ev, hev, h⟩ := List.any_eq_true.mp hreply
    unfold repliesWithLocation at h
    split at h
    · exact ⟨_, hev, of_decide_eq_true h⟩
    · cases h
  · obtain ⟨ev, hev, h⟩ := List.any_eq_true.mp hstart
    unfold startsUpdate at h
    split at h
    · rw [of_decide_eq_true h] at hev
      exact ⟨_, hev⟩
    · cases h
  · obtain ⟨ev, hev, h⟩ := List.any_eq_true.mp hrefuse
    unfold refusesUpdate at h
    split at h
    · rw [of_decide_eq_true h] at hev
      exact hev
    · cases h

/-- The request of task 3 is signed with the account's key. -/
theorem updateContact_signed : ∃ envelope header,
    openJws (wire accountMessages) [1] (accountUrl (wire accountMessages) ("acct-" ++ uuid 10))
      = .ok (envelope, header) ∧ header.kid = some ("acct-" ++ uuid 10) ∧
    checkSignature (wire accountMessages) envelope header jwk = .ok () := by
  have hopen : (openJws (wire accountMessages) [1]
      (accountUrl (wire accountMessages) ("acct-" ++ uuid 10))).toOption.any (fun opened =>
        opened.2.kid = some ("acct-" ++ uuid 10) &&
          decide (checkSignature (wire accountMessages) opened.1 opened.2 jwk = .ok ()))
            = true := by
    decide +kernel
  cases hresult : openJws (wire accountMessages) [1]
      (accountUrl (wire accountMessages) ("acct-" ++ uuid 10)) with
  | error e =>
    rw [hresult] at hopen
    cases hopen
  | ok opened =>
    rw [hresult] at hopen
    obtain ⟨hkid, hsigned⟩ := Bool.and_eq_true_iff.mp hopen
    exact ⟨opened.1, opened.2, rfl, of_decide_eq_true hkid, of_decide_eq_true hsigned⟩

/-- The owner's signed request to the URL that `new_account` returned is refused. -/
theorem owner_refused :
    (∃ envelope header, openJws (wire accountMessages) [1]
        (accountUrl (wire accountMessages) ("acct-" ++ uuid 10)) = .ok (envelope, header) ∧
      header.kid = some ("acct-" ++ uuid 10) ∧
      checkSignature (wire accountMessages) envelope header jwk = .ok ()) ∧
    ∃ cfg : AcmeConfig, (acme (wire accountMessages)).Reach OnlyRequests (System.initial {}) cfg ∧
      (∃ response, .finish 2 (.ok (some response)) ∈ cfg.world.log ∧
        response.location = some (accountUrl (wire accountMessages) ("acct-" ++ uuid 10))) ∧
      cfg.world.Started 3 (.updateAccount ("acct-" ++ uuid 10) [1]) ∧
      .finish 3 (.error (.error (.Unauthorized "Cannot update another account")))
        ∈ cfg.world.log := by
  obtain ⟨mid, cfg, hmid, hcfg, hreply, hstart, hrefused⟩ := exists_refused
  exact ⟨updateContact_signed, cfg, hmid.trans hcfg, hreply, hstart, hrefused⟩

/-- The run of the refused update. -/
theorem accounts_never_updated_one_account : ∃ mid cfg : AcmeConfig,
    cfg.world.Started 3 (.updateAccount ("acct-" ++ uuid 10) [1]) ∧
    (∀ i id body r, cfg.world.Started i (.updateAccount id body) →
      .finish i r ∈ cfg.world.log → ∃ e, r = .error e) ∧
    ∀ a ∈ mid.world.store.accounts, a ∈ cfg.world.store.accounts := by
  obtain ⟨mid, cfg, hmid, hcfg, -, hstart, -⟩ := exists_refused
  obtain ⟨hrefused, hkept, -⟩ := accounts_never_updated (wire accountMessages) hmid hcfg
  exact ⟨mid, cfg, hstart, hrefused, hkept⟩

end Ostrich.Acme
