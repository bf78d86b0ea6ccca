import Ostrich.Scms.Rest

/-!
# What the token handlers read and write

`callSpec`: a request reads its token first, and writes it at most once, with an update that its
action makes from the row that it read (`Writes`).  `scms_meets` proves this of every handler.
`get_exec` says what a call does to the status and the PIN counter of a token.
-/

namespace Ostrich.Scms

open Interleave Table Prog

/-- The update that an action makes after it has read this token. -/
def Writes (token : Token) (update : TokenUpdate) : Action → Prop
  | .revokeToken => update.status = some "revoked" ∧ update.pinAttempts = none
  | .initializeToken => update.status = some "initialized" ∧ update.pinAttempts = none ∧
      token.status = "uninitialized"
  | .personalizeToken _ => update.status = some "active" ∧ update.pinAttempts = none ∧
      token.status = "initialized"
  | .suspendToken => update.status = some "suspended" ∧ update.pinAttempts = none ∧
      token.status = "active"
  | .resumeToken => update.status = some "active" ∧ update.pinAttempts = none ∧
      token.status = "suspended"
  | .unblockToken => update.status = some "active" ∧ update.pinAttempts = some 3 ∧
      token.pinAttemptsRemaining ≤ 0
  | .verifyPin _ => 0 < token.pinAttemptsRemaining ∧ token.status ≠ "blocked" ∧
      update.pinAttempts = some (token.pinAttemptsRemaining - 1) ∧
      update.status = if token.pinAttemptsRemaining - 1 ≤ 0 then some "blocked" else none
  | .changePin _ _ => update.status = none ∧ update.pinAttempts = some 3 ∧
      0 < token.pinAttemptsRemaining

/-- The history of a request that has read its token and made no other call. -/
def readOnly (id : Uuid) (token : Token) : History Call Reply :=
  [⟨.findToken id, .ok (some token)⟩]

/-! ### What a call does to a token -/

/-- The status and the PIN counter are the same. -/
def SameState (token token' : Token) : Prop :=
  token'.status = token.status ∧ token'.pinAttemptsRemaining = token.pinAttemptsRemaining

theorem SameState.refl (token : Token) : SameState token token := ⟨rfl, rfl⟩

/-- The statement reports whether it changed the row. -/
theorem get_updateRow {id id' : Uuid} {f : Token → Token} {hf : ∀ token, (f token).id = token.id}
    {c : Choice} {s : Tokens} {token : Token} (h : s.get id' = some token) :
    (updateRow id f hf c s).2.get id' =
      some (if id' = id ∧ (updateRow id f hf c s).1.applied = true then f token else token) := by
  have hid : token.id = id' := (Keyed.mem_of_get h).2
  have hmodify : (s.modify (·.id = id) f hf).get id'
    = some (if id' = id then f token else token) := by
    rw [Keyed.get_modify, h, Option.map_some, hid]
    simp only [decide_eq_true_eq]
  unfold updateRow
  cases hrow : s.get id with
  | none =>
    have hne : id' ≠ id := by
      rintro rfl
      rw [h] at hrow
      cases hrow
    rw [if_neg fun hboth => hne hboth.1]
    exact h
  | some row =>
    cases c.fault with
    | before => simpa [UpdateReply.applied] using h
    | after => simpa [UpdateReply.applied] using hmodify
    | none => simpa [UpdateReply.applied] using hmodify

theorem exec_findToken_store (id : Uuid) (c : Choice) (s : Tokens) :
    (exec (.findToken id) c s).2 = s := by
  simp only [exec]
  split <;> rfl

theorem get_updateRow_none {id id' : Uuid} {f : Token → Token}
    {hf : ∀ token, (f token).id = token.id} {c : Choice} {s : Tokens} (h : s.get id' = none) :
    (updateRow id f hf c s).2.get id' = none := by
  have hmodify : (s.modify (·.id = id) f hf).get id' = none := by
    rw [Keyed.get_modify, h]
    rfl
  unfold updateRow
  split
  · exact h
  · split
    · exact h
    · exact hmodify
    · exact hmodify

/-- A call makes no token. -/
theorem get_exec_none {e : Call} {c : Choice} {s : Tokens} {id : Uuid} (h : s.get id = none) :
    (exec e c s).2.get id = none := by
  cases e with
  | now => exact h
  | audit actor target action outcome => exact h
  | findToken id' =>
    rw [exec_findToken_store]
    exact h
  | updateToken id' update => exact get_updateRow_none h
  | updateTokenLifecycle id' initializedAt expiresAt => exact get_updateRow_none h
  | updateTokenSoPinAttempts id' soPinAttempts => exact get_updateRow_none h

/-- **What a call does to a token**: only an `updateToken` of it that reaches the database changes
its status or its PIN counter. -/
theorem get_exec {e : Call} {c : Choice} {s : Tokens} {id : Uuid} {token : Token}
    (h : s.get id = some token) :
    ∃ token', (exec e c s).2.get id = some token' ∧ (SameState token token' ∨
      ∃ update, e = .updateToken id update ∧ token' = update.apply c.now token) := by
  cases e with
  | now => exact ⟨token, h, .inl (.refl token)⟩
  | audit actor target action outcome => exact ⟨token, h, .inl (.refl token)⟩
  | findToken id' =>
    rw [exec_findToken_store]
    exact ⟨token, h, .inl (.refl token)⟩
  | updateToken id' update =>
    refine ⟨_, get_updateRow h, ?_⟩
    split_ifs with hid
    · exact .inr ⟨update, by rw [hid.1], rfl⟩
    · exact .inl (.refl token)
  | updateTokenLifecycle id' initializedAt expiresAt =>
    refine ⟨_, get_updateRow h, .inl ?_⟩
    split_ifs
    · exact ⟨rfl, rfl⟩
    · exact .refl token
  | updateTokenSoPinAttempts id' soPinAttempts =>
    refine ⟨_, get_updateRow h, .inl ?_⟩
    split_ifs
    · exact ⟨rfl, rfl⟩
    · exact .refl token

/-! ### What a request does -/

section

variable (env : Env)

/-- The calls of a request. -/
def callSpec (t : Task env) (h : History Call Reply) : Call → Prop
  | .findToken id => id = t.id ∧ h = []
  | .updateToken id update => id = t.id ∧ ∃ token, h = readOnly t.id token ∧
      Writes token update t.action
  | _ => True

def scmsSpec : Spec Call Reply Error Response (Task env) where
  calls := callSpec env
  result _ _ _ := True

/-- Calls that the specification leaves free. -/
def Quiet : Call → Prop
  | .findToken _ | .updateToken .. => False
  | _ => True

variable {env} {t : Task env} {h : History Call Reply} {α : Type}

theorem wp_quiet {p : ScmsM α} (hp : p.Within Quiet) :
    p.Wp (callSpec env t) (fun _ _ => True) h := by
  refine hp.wp (fun h e he => ?_) fun _ _ _ => trivial
  cases e with
  | findToken id => exact he.elim
  | updateToken id update => exact he.elim
  | _ => trivial

theorem quiet_updated (what : String) (reply : UpdateReply) :
    (updated what reply).Within Quiet := by
  cases reply <;> exact trivial

theorem quiet_audit (user : env.User) (id : Uuid) (action : String) (outcome : EventOutcome) :
    (auditTokenEvent env user id action outcome).Within Quiet := ⟨trivial, fun _ => trivial⟩

/-- The permission is checked before any call. -/
theorem wp_checkPermission {user : env.User} {permission : Permission} {f : Unit → ScmsM α}
    (hf : (f ()).Wp (callSpec env t) (fun _ _ => True) h) :
    (checkPermission env user permission >>= f).Wp (callSpec env t) (fun _ _ => True) h := by
  unfold checkPermission
  split
  · exact hf
  · exact trivial

/-- The token is read first. -/
theorem wp_findToken {f : Token → ScmsM α}
    (hf : ∀ token, (f token).Wp (callSpec env t) (fun _ _ => True) (readOnly t.id token)) :
    (findToken t.id >>= f).Wp (callSpec env t) (fun _ _ => True) [] := by
  refine ⟨⟨rfl, rfl⟩, fun reply => ?_⟩
  cases reply with
  | error e => exact trivial
  | ok found =>
    cases found with
    | none => exact trivial
    | some token => exact hf token

/-- Then it is written, and what follows is free. -/
theorem wp_updateToken {what : String} {update : TokenUpdate} {token : Token} {f : Token → ScmsM α}
    (hwrites : Writes token update t.action) (hf : ∀ row, (f row).Within Quiet) :
    (updateToken what t.id update >>= f).Wp (callSpec env t) (fun _ _ => True)
      (readOnly t.id token) := by
  refine ⟨⟨rfl, token, rfl, hwrites⟩, fun reply => ?_⟩
  exact wp_quiet ((quiet_updated what reply).bind hf)

theorem wp_requireStatus {token : Token} {status what : String} {f : Unit → ScmsM α}
    (hf : token.status = status → (f ()).Wp (callSpec env t) (fun _ _ => True) h) :
    (requireStatus token status what >>= f).Wp (callSpec env t) (fun _ _ => True) h := by
  unfold requireStatus
  by_cases hstatus : token.status = status
  · rw [if_neg (not_not.mpr hstatus)]
    exact hf hstatus
  · rw [if_pos hstatus]
    exact trivial

/-- **Every handler keeps to the specification.** -/
theorem scms_meets (env : Env) : (scms env).Meets (scmsSpec env) := by
  rintro ⟨user, id, action⟩
  show (Task.body env ⟨user, id, action⟩).Wp (callSpec env _) (fun _ _ => True) []
  have hdone {response : Response} (name : String) (outcome : EventOutcome) :
      (auditTokenEvent env user id name outcome >>= fun _ =>
        (pure response : ScmsM Response)).Within
        Quiet := (quiet_audit user id name outcome).bind fun _ => trivial
  cases action with
  | revokeToken =>
    refine wp_checkPermission (wp_findToken fun token => ?_)
    exact wp_updateToken ⟨rfl, rfl⟩ fun _ => hdone ..
  | initializeToken =>
    refine wp_checkPermission (wp_findToken fun token => wp_requireStatus fun hstatus => ?_)
    refine wp_updateToken ⟨rfl, rfl, hstatus⟩ fun _ => ?_
    refine ⟨trivial, fun now => ⟨trivial, fun reply => ?_⟩⟩
    exact (quiet_updated _ reply).bind fun _ => hdone ..
  | personalizeToken assignedTo =>
    refine wp_checkPermission (wp_findToken fun token => wp_requireStatus fun hstatus => ?_)
    exact wp_updateToken ⟨rfl, rfl, hstatus⟩ fun _ => hdone ..
  | suspendToken =>
    refine wp_checkPermission (wp_findToken fun token => wp_requireStatus fun hstatus => ?_)
    exact wp_updateToken ⟨rfl, rfl, hstatus⟩ fun _ => hdone ..
  | resumeToken =>
    refine wp_checkPermission (wp_findToken fun token => wp_requireStatus fun hstatus => ?_)
    exact wp_updateToken ⟨rfl, rfl, hstatus⟩ fun _ => hdone ..
  | unblockToken =>
    refine wp_checkPermission (wp_findToken fun token => ?_)
    split_ifs with hlocked
    · exact trivial
    · refine wp_updateToken ⟨rfl, rfl, not_lt.mp hlocked⟩ fun _ => ?_
      refine ⟨trivial, fun reply => ?_⟩
      exact (quiet_updated _ reply).bind fun _ => hdone ..
  | verifyPin pin =>
    refine wp_checkPermission ?_
    by_cases hempty : pin = ""
    · rw [if_pos hempty]
      exact trivial
    · rw [if_neg hempty]
      refine wp_findToken fun token => ?_
      by_cases hblocked : token.pinAttemptsRemaining ≤ 0 ∨ token.status = "blocked"
      · rw [if_pos hblocked]
        exact wp_quiet ((quiet_audit user id _ _).bind fun _ => trivial)
      · rw [if_neg hblocked, if_pos (show (!verified) = true from rfl)]
        have hpin : 0 < token.pinAttemptsRemaining := not_le.mp (hblocked ∘ .inl)
        have hstatus : token.status ≠ "blocked" := hblocked ∘ .inr
        refine wp_updateToken ⟨hpin, hstatus, rfl, rfl⟩ fun _ => ?_
        refine (quiet_audit user id _ _).bind fun _ => ?_
        split_ifs <;> exact trivial
  | changePin currentPin newPin =>
    refine wp_checkPermission ?_
    split_ifs with hempty
    · exact trivial
    · refine wp_findToken fun token => ?_
      split_ifs with hblocked
      · exact trivial
      · exact wp_updateToken ⟨rfl, rfl, not_le.mp hblocked⟩ fun _ => hdone ..

end

end Ostrich.Scms
