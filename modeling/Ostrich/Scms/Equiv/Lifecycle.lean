import Ostrich.Scms.Equiv.Rest
import Ostrich.Scms.Instance

/-!
# The life cycle of a token

`Transition` is the life cycle.  The handlers check the status of the row that they read, and two of
them, `verifyPin` and `unblockToken`, check the PIN counter only; the write is unconditional.

Main results:
* `lifeCycle_of_current`: along every run whose writes are `Current` (the status is still the one
  that the handler checked, and a token that is blocked or unblocked has a status for it) every step
  follows the life cycle, and a token that is revoked stays revoked;
* `revoked_token_active`: three wrong PINs and an unblock make a revoked token active again.
-/

namespace Ostrich.Scms

open Interleave Table System

/-! ### The property -/

/-- The moves of the life cycle, except to `revoked`. -/
def moves : List (String × String) :=
  [("uninitialized", "initialized"), ("initialized", "active"), ("active", "suspended"),
    ("suspended", "active"), ("active", "blocked"), ("blocked", "active")]

/-- The status stays, is revoked, or makes a move of the life cycle. -/
def Transition (status status' : String) : Prop :=
  status' = status ∨ status' = "revoked" ∨ (status, status') ∈ moves

/-- Every token is still there, with a status that follows the life cycle. -/
def LifeCycle (s s' : Tokens) : Prop :=
  ∀ id token, s.get id = some token →
    ∃ token', s'.get id = some token' ∧ Transition token.status token'.status

/-- Every token that is revoked is still revoked. -/
def StaysRevoked (s s' : Tokens) : Prop :=
  ∀ id token, s.get id = some token → token.status = "revoked" →
    ∃ token', s'.get id = some token' ∧ token'.status = "revoked"

/-- An action that read `token` finds a status that it may change when it writes: an action that
checks the status finds the status that it checked; one that takes the last attempt finds an active
(or blocked) token; one that unblocks finds a token that may become active. -/
def MayWrite (token stored : Token) : Action → Prop
  | .revokeToken | .changePin .. => True
  | .verifyPin _ => token.pinAttemptsRemaining ≤ 1 →
      stored.status = "active" ∨ stored.status = "blocked"
  | .unblockToken => stored.status ∈ ["blocked", "active", "suspended", "initialized"]
  | _ => stored.status = token.status

/-- A request that writes a token may write the row that is there. -/
def Current (env : Env) (w : ScmsWorld env) : ScmsEvent env → Prop
  | .call i (.updateToken id _) _ =>
    ∀ t token stored, w.Started i t → w.history i = readOnly id token →
      w.store.get id = some stored → MayWrite token stored t.action
  | _ => True

/-! ### One write -/

theorem transition_revoked {status : String} (h : Transition "revoked" status) :
    status = "revoked" := by
  rcases h with h | h | h
  · exact h
  · exact h
  · simp [moves] at h

theorem LifeCycle.staysRevoked {s s' : Tokens} (h : LifeCycle s s') : StaysRevoked s s' := by
  intro id token hget hstatus
  obtain ⟨token', hget', htransition⟩ := h id token hget
  rw [hstatus] at htransition
  exact ⟨token', hget', transition_revoked htransition⟩

theorem StaysRevoked.refl (s : Tokens) : StaysRevoked s s :=
  fun _ token hget hstatus => ⟨token, hget, hstatus⟩

theorem StaysRevoked.trans {s s' s'' : Tokens} (h : StaysRevoked s s') (h' : StaysRevoked s' s'') :
    StaysRevoked s s'' := by
  intro id token hget hstatus
  obtain ⟨token', hget', hstatus'⟩ := h id token hget hstatus
  exact h' id token' hget' hstatus'

theorem LifeCycle.refl (s : Tokens) : LifeCycle s s := fun _ token hget => ⟨token, hget, .inl rfl⟩

variable {env : Env}

/-- A current write follows the life cycle. -/
theorem transition_of_writes {t : Task env} {token stored : Token} {update : TokenUpdate}
    {now : DateTime} (hwrites : Writes token update t.action)
    (hcurrent : MayWrite token stored t.action) :
    Transition stored.status (update.apply now stored).status := by
  show Transition stored.status (update.status.getD stored.status)
  revert hwrites hcurrent
  cases t.action with
  | revokeToken =>
    rintro ⟨hstatus, -⟩ -
    rw [hstatus]
    exact .inr (.inl rfl)
  | initializeToken =>
    rintro ⟨hstatus, -, hread⟩ hcurrent
    rw [hstatus, show stored.status = "uninitialized" from hcurrent.trans hread]
    exact .inr (.inr (by decide))
  | personalizeToken assignedTo =>
    rintro ⟨hstatus, -, hread⟩ hcurrent
    rw [hstatus, show stored.status = "initialized" from hcurrent.trans hread]
    exact .inr (.inr (by decide))
  | suspendToken =>
    rintro ⟨hstatus, -, hread⟩ hcurrent
    rw [hstatus, show stored.status = "active" from hcurrent.trans hread]
    exact .inr (.inr (by decide))
  | resumeToken =>
    rintro ⟨hstatus, -, hread⟩ hcurrent
    rw [hstatus, show stored.status = "suspended" from hcurrent.trans hread]
    exact .inr (.inr (by decide))
  | unblockToken =>
    rintro ⟨hstatus, -, -⟩ hcurrent
    rw [hstatus]
    simp only [MayWrite, List.mem_cons, List.not_mem_nil, or_false] at hcurrent
    rcases hcurrent with h | h | h | h
    · rw [h]
      exact .inr (.inr (by decide))
    · exact .inl h.symm
    · rw [h]
      exact .inr (.inr (by decide))
    · rw [h]
      exact .inr (.inr (by decide))
  | verifyPin pin =>
    rintro ⟨-, -, -, hstatus⟩ hcurrent
    rw [hstatus]
    split_ifs with hlast
    · rcases hcurrent (by omega) with h | h
      · rw [h]
        exact .inr (.inr (by decide))
      · exact .inl h.symm
    · exact .inl rfl
  | changePin currentPin newPin =>
    rintro ⟨hstatus, -, -⟩ -
    rw [hstatus]
    exact .inl rfl

/-! ### Runs -/

/-- **One step follows the life cycle.** -/
theorem lifeCycle_step {cfg next : ScmsConfig env} {a : Interleave.Action (Task env) Choice}
    {ev : ScmsEvent env} (hgood : (scmsSpec env).Good cfg)
    (hstep : (scms env).step cfg a = some (ev, next)) (hcurrent : Current env cfg.world ev) :
    LifeCycle cfg.world.store next.world.store := by
  rcases step_store hstep with hsame | ⟨i, e, c, k, hp, rfl, hstore⟩
  · rw [hsame]
    exact .refl _
  · obtain ⟨t, hrun, hcalls, -⟩ := hgood.running i _ hp
    intro id stored hget
    obtain ⟨token', hget', hsame | ⟨update, rfl, rfl⟩⟩ := get_exec (e := e) (c := c) hget
    · exact ⟨token', hstore ▸ hget', .inl hsame.1⟩
    · obtain ⟨rfl, token, hread, hwrites⟩ := hcalls
      refine ⟨_, hstore ▸ hget', transition_of_writes hwrites ?_⟩
      exact hcurrent t token stored hrun.started hread hget

/-- **Current writes follow the life cycle.**  From every table, along every run whose writes are
current, each step follows the life cycle, and what is revoked stays revoked. -/
theorem lifeCycle_of_current (env : Env) (store : Tokens) {mid cfg : ScmsConfig env}
    (hmid : (scms env).Reach (Current env) (initial store) mid)
    (hreach : (scms env).Reach (Current env) mid cfg) :
    StaysRevoked mid.world.store cfg.world.store ∧
      ∀ a ev next, (scms env).step cfg a = some (ev, next) → Current env cfg.world ev →
        LifeCycle cfg.world.store next.world.store := by
  have hgood {cfg : ScmsConfig env} (hreach : (scms env).Reach (Current env) mid cfg) :
      (scmsSpec env).Good cfg := (hmid.trans hreach).good (scms_meets env)
  refine ⟨?_, fun a ev next hstep hcurrent => lifeCycle_step (hgood hreach) hstep hcurrent⟩
  induction hreach with
  | refl => exact .refl _
  | step hbefore hstep hcurrent ih =>
    exact ih.trans (lifeCycle_step (hgood hbefore) hstep hcurrent).staysRevoked

/-! ### A revoked token -/

/-- The status of the token of `oneToken`. -/
def statusOf (cfg : ScmsConfig openEnv) : Option String :=
  (cfg.world.store.get .nil).map Token.status

/-- The token is revoked, guessed at three times and unblocked. -/
theorem revoked_token_active : ∃ store mid cfg,
    (scms openEnv).Reach (fun _ _ => True) (initial store) mid ∧
    (scms openEnv).Reach (fun _ _ => True) mid cfg ∧
    ¬StaysRevoked mid.world.store cfg.world.store := by
  let revoke := whole 0 3 .revokeToken
  let guess (i : ℕ) := whole i 3 (.verifyPin "0000")
  have hmid : ((scms openEnv).run (fun _ _ => true) revoke
      (initial (oneToken "active" 3))).map statusOf = some (some "revoked") := by decide +kernel
  have hcfg : ((scms openEnv).run (fun _ _ => true) revoke (initial (oneToken "active" 3))).bind
      (fun mid => ((scms openEnv).run (fun _ _ => true)
        (guess 1 ++ guess 2 ++ guess 3 ++ whole 4 4 .unblockToken) mid).map statusOf) =
      some (some "active") := by decide +kernel
  obtain ⟨mid, hrun, hrevoked⟩ := Option.map_eq_some_iff.mp hmid
  rw [hrun] at hcfg
  obtain ⟨cfg, hrun', hactive⟩ := Option.map_eq_some_iff.mp hcfg
  refine ⟨_, mid, cfg, reach_of_run (fun _ _ _ => trivial) _ hrun,
    reach_of_run (fun _ _ _ => trivial) _ hrun', fun hstays => ?_⟩
  obtain ⟨token, hget, hstatus⟩ := Option.map_eq_some_iff.mp hrevoked
  obtain ⟨token', hget', hstatus'⟩ := hstays _ token hget hstatus
  rw [statusOf, hget', Option.map_some, hstatus'] at hactive
  exact absurd (Option.some.inj hactive) (by decide)

/-- Every request of the log revokes. -/
def allRevoke (w : ScmsWorld openEnv) : Bool :=
  w.log.all fun
    | .start _ t _ => t.action = .revokeToken
    | _ => true

theorem current_of_allRevoke {w : ScmsWorld openEnv} (h : allRevoke w = true)
    (ev : ScmsEvent openEnv) : Current openEnv w ev := by
  unfold Current
  split
  · rintro t token stored ⟨parent, hstart⟩ - -
    have haction := List.all_eq_true.mp h _ hstart
    rw [show t.action = .revokeToken by simpa using haction]
    trivial
  · trivial

/-- Two requests that revoke one token. -/
theorem lifeCycle_of_current_two_revokes : ∃ store mid cfg,
    (scms openEnv).Reach (Current openEnv) (initial store) mid ∧
    (scms openEnv).Reach (Current openEnv) mid cfg ∧ statusOf mid = some "revoked" ∧
    StaysRevoked mid.world.store cfg.world.store := by
  let actions : List (Interleave.Action (Task openEnv) Choice) :=
    [.arrive ⟨(), .nil, .revokeToken⟩, .arrive ⟨(), .nil, .revokeToken⟩, .run 0 {}, .run 1 {},
      .run 0 {}]
  have hmid : ((scms openEnv).run (fun w _ => allRevoke w) actions
      (initial (oneToken "active" 3))).map statusOf = some (some "revoked") := by decide +kernel
  have hcfg : (((scms openEnv).run (fun w _ => allRevoke w) actions
      (initial (oneToken "active" 3))).bind fun mid =>
        (scms openEnv).run (fun w _ => allRevoke w) [.run 1 {}] mid).isSome = true := by
    decide +kernel
  obtain ⟨mid, hrun, hrevoked⟩ := Option.map_eq_some_iff.mp hmid
  rw [hrun] at hcfg
  obtain ⟨cfg, hrun'⟩ := Option.isSome_iff_exists.mp hcfg
  have hreach := reach_of_run (fun _ ev h => current_of_allRevoke h ev) _ hrun
  have hreach' := reach_of_run (fun _ ev h => current_of_allRevoke h ev) _ hrun'
  exact ⟨_, mid, cfg, hreach, hreach', hrevoked,
    (lifeCycle_of_current openEnv _ hreach hreach').1⟩

end Ostrich.Scms
