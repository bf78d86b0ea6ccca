import Ostrich.Scms.Equiv.Rest
import Ostrich.Scms.Instance

/-!
# PIN attempts

`verifyPin` reads the counter, and writes the decremented value back.  A verification that passed
the check and whose write is not in the table is not counted; if another one reads in between, one
of the two decrements is lost.

Main results:
* `pin_attempts_counted`: the counter is between 0 and 3, and a token whose counter is 0 is blocked
  or revoked; if every verification reads only when those before it are `Settled`, at most three
  pass between two resets;
* `pin_attempts_lost`: two verifications at a time, and four pass.
-/

namespace Ostrich.Scms

open Interleave Table System

/-! ### The property -/

/-- The actions on the PIN, and the revocation. -/
def Action.onPin : Action → Bool
  | .verifyPin _ | .changePin .. | .unblockToken | .revokeToken => true
  | _ => false

def Action.verifies : Action → Bool
  | .verifyPin _ => true
  | _ => false

/-- The check of `verifyPin` passes. -/
def Token.passes (token : Token) : Bool :=
  0 < token.pinAttemptsRemaining && token.status ≠ "blocked"

/-- The counter is in its range, and it is 0 only if the token is blocked or revoked. -/
def Token.InRange (token : Token) : Prop :=
  0 ≤ token.pinAttemptsRemaining ∧ token.pinAttemptsRemaining ≤ 3 ∧
    (token.pinAttemptsRemaining = 0 → token.status = "blocked" ∨ token.status = "revoked")

section

variable {env : Env}

/-- Request `i` of the log verifies a PIN. -/
def verifies (log : List (ScmsEvent env)) (i : ℕ) : Bool :=
  log.any fun
    | .start j t _ => j = i && t.action.verifies
    | _ => false

/-- A verification reads the token and passes the check. -/
def isGuess (log : List (ScmsEvent env)) (id : Uuid) : ScmsEvent env → Bool
  | .call i (.findToken id') (.ok (some token)) => id' = id && token.passes && verifies log i
  | _ => false

/-- The counter of the token is set to 3. -/
def isReset (id : Uuid) : ScmsEvent env → Bool
  | .call _ (.updateToken id' update) r => id' = id && update.pinAttempts = some 3 && r.applied
  | _ => false

/-- What happened since the last reset, the last event first. -/
def sinceReset (id : Uuid) (log : List (ScmsEvent env)) : List (ScmsEvent env) :=
  log.reverse.takeWhile (!isReset id ·)

/-- The verifications that passed since the last reset. -/
def guesses (id : Uuid) (log : List (ScmsEvent env)) : ℕ :=
  (sinceReset id log).countP (isGuess log id)

/-- Request `j` read the token, verifies and passed. -/
def Passed (w : ScmsWorld env) (id : Uuid) (j : ℕ) (token : Token) : Prop :=
  .call j (.findToken id) (.ok (some token)) ∈ w.log ∧ token.passes = true ∧
    verifies w.log j = true

/-- Request `j` passed since the last reset. -/
def Recent (w : ScmsWorld env) (id : Uuid) (j : ℕ) : Prop :=
  ∃ token, .call j (.findToken id) (.ok (some token)) ∈ sinceReset id w.log

/-- Request `j` has made its write, or has ended. -/
def Done (w : ScmsWorld env) (id : Uuid) (j : ℕ) : Prop :=
  w.Ended j ∨ ∃ update r, .call j (.updateToken id update) r ∈ w.log

/-- The write of request `j` is in the table. -/
def Written (w : ScmsWorld env) (id : Uuid) (j : ℕ) : Prop :=
  ∃ update r, .call j (.updateToken id update) r ∈ w.log ∧ r.applied = true

/-- The write of request `j` is in the table, or the counter was reset since and it will not write
any more. -/
def Settled (w : ScmsWorld env) (id : Uuid) (j : ℕ) : Prop :=
  Written w id j ∨ Done w id j ∧ ¬Recent w id j

/-- The requests are about the PIN. -/
def PinRequests (_ : ScmsWorld env) : ScmsEvent env → Prop
  | .start _ t _ => t.action.onPin = true
  | _ => True

/-- The requests are about the PIN, and a verification passes only when those before it are
settled. -/
def OneAtATime (w : ScmsWorld env) (ev : ScmsEvent env) : Prop :=
  PinRequests w ev ∧ ∀ id, isGuess w.log id ev = true → ∀ j token, Passed w id j token →
    Settled w id j

end

/-! ### The range of the counter -/

section

variable {env : Env}

/-- Every request is about the PIN, and every token, stored or read, is in range. -/
structure Ranged (w : ScmsWorld env) : Prop where
  onPin : ∀ i t, w.Started i t → t.action.onPin = true
  rows : ∀ id token, w.store.get id = some token → token.InRange
  reads : ∀ i id token, .call i (.findToken id) (.ok (some token)) ∈ w.log → token.InRange

/-- The reply of a read is the stored row. -/
theorem get_of_reply {id : Uuid} {c : Choice} {s : Tokens} {token : Token}
    (h : (exec (.findToken id) c s).1 = .ok (some token)) : s.get id = some token := by
  simp only [exec] at h
  split at h
  · exact Except.ok.inj h
  · cases h

theorem SameState.inRange {token token' : Token} (h : SameState token token')
    (hrange : token.InRange) : token'.InRange := by
  unfold Token.InRange
  rw [h.1, h.2]
  exact hrange

/-- A write keeps a token in range. -/
theorem inRange_of_writes {action : Action} {token stored : Token} {update : TokenUpdate}
    {now : DateTime} (hpin : action.onPin = true) (hwrites : Writes token update action)
    (htoken : token.InRange) (hstored : stored.InRange) : (update.apply now stored).InRange := by
  obtain ⟨hlow, hhigh, hzero⟩ := hstored
  show 0 ≤ update.pinAttempts.getD stored.pinAttemptsRemaining ∧
    update.pinAttempts.getD stored.pinAttemptsRemaining ≤ 3 ∧
    (update.pinAttempts.getD stored.pinAttemptsRemaining = 0 →
      update.status.getD stored.status = "blocked" ∨ update.status.getD stored.status = "revoked")
  cases action with
  | revokeToken =>
    obtain ⟨hstatus, hnone⟩ := hwrites
    rw [hstatus, hnone]
    exact ⟨hlow, hhigh, fun _ => .inr rfl⟩
  | unblockToken =>
    obtain ⟨-, hpin, -⟩ := hwrites
    rw [hpin, Option.getD_some]
    exact ⟨by decide, le_rfl, fun h => absurd h (by decide)⟩
  | changePin currentPin newPin =>
    obtain ⟨-, hpin, -⟩ := hwrites
    rw [hpin, Option.getD_some]
    exact ⟨by decide, le_rfl, fun h => absurd h (by decide)⟩
  | verifyPin pin =>
    obtain ⟨hpos, -, hpin, hstatus⟩ := hwrites
    have hle := htoken.2.1
    rw [hpin, hstatus, Option.getD_some]
    refine ⟨by omega, by omega, fun h => ?_⟩
    rw [if_pos h.le]
    exact .inl rfl
  | _ => cases hpin

/-- The range is kept by every call. -/
theorem ranged_after {w : ScmsWorld env} {i n : ℕ} {t : Task env} {e : Call} {c : Choice}
    (h : Ranged w) (hrun : w.Running i t) (hcalls : callSpec env t (w.history i) e) :
    Ranged ((scms env).after i n e c w) where
  onPin j t' hstart := by
    obtain ⟨parent, hstart⟩ := hstart
    rcases (start_mem_after _).mp hstart with hstart | ⟨hspawn, -, -⟩
    · exact h.onPin j t' ⟨parent, hstart⟩
    · cases hspawn
  rows id token hget := by
    cases hbefore : w.store.get id with
    | none =>
      have hnone := get_exec_none (e := e) (c := c) hbefore
      exact absurd (hnone.symm.trans hget) (by simp)
    | some stored =>
      obtain ⟨token', hget', hsame | ⟨update, rfl, rfl⟩⟩ := get_exec (e := e) (c := c) hbefore
      · obtain rfl := Option.some.inj (hget'.symm.trans hget)
        exact hsame.inRange (h.rows id stored hbefore)
      · obtain rfl := Option.some.inj (hget'.symm.trans hget)
        obtain ⟨rfl, read, hread, hwrites⟩ := hcalls
        refine inRange_of_writes (h.onPin i t hrun.started) hwrites ?_ (h.rows _ stored hbefore)
        refine h.reads i t.id read (World.mem_history.mp ?_)
        rw [hread]
        exact List.mem_singleton_self _
  reads j id token hread := by
    rcases (call_mem_after _).mp hread with hread | hread
    · exact h.reads j id token hread
    · obtain ⟨-, rfl, hreply⟩ := Event.call.inj hread
      exact h.rows id token (get_of_reply (eq_of_heq hreply).symm)

theorem Ranged.add {w : ScmsWorld env} {ev : ScmsEvent env} (h : Ranged w)
    (hcall : ∀ i e r, ev ≠ .call i e r) (hpin : PinRequests w ev) : Ranged (w.add [ev]) where
  onPin j t := by
    rintro ⟨parent, hstart⟩
    rcases List.mem_append.mp hstart with hstart | hstart
    · exact h.onPin j t ⟨parent, hstart⟩
    · rw [← List.mem_singleton.mp hstart] at hpin
      exact hpin
  rows := h.rows
  reads j id token hread := by
    rcases List.mem_append.mp hread with hread | hread
    · exact h.reads j id token hread
    · exact absurd (List.mem_singleton.mp hread).symm (hcall _ _ _)

theorem ranged_preserved {allowed : ScmsWorld env → ScmsEvent env → Prop}
    (hallowed : ∀ w ev, allowed w ev → PinRequests w ev) :
    (scms env).Preserves (scmsSpec env) allowed (fun _ => True) Ranged where
  start _ _ h _ ha := h.add (by simp) (hallowed _ _ ha)
  call _ _ h hrun _ hcalls _ := ranged_after h hrun hcalls
  finish _ _ h _ _ ha := h.add (by simp) (hallowed _ _ ha)
  abort _ _ h _ ha := h.add (by simp) (hallowed _ _ ha)

end

/-! ### The log of a token -/

section

variable {env : Env} {log : List (ScmsEvent env)} {ev : ScmsEvent env} {id : Uuid}

theorem verifies_append {j : ℕ} (hev : ∀ t parent, ev ≠ .start j t parent) :
    verifies (log ++ [ev]) j = verifies log j := by
  unfold verifies
  rw [List.any_append, List.any_cons, List.any_nil, Bool.or_false]
  cases ev with
  | start i t parent =>
    have hne : i ≠ j := by
      rintro rfl
      exact hev t parent rfl
    simp [hne]
  | _ => simp

theorem sinceReset_append :
    sinceReset id (log ++ [ev]) = if isReset id ev then [] else ev :: sinceReset id log := by
  unfold sinceReset
  rw [List.reverse_append, List.reverse_singleton, List.singleton_append, List.takeWhile_cons]
  cases isReset id ev <;> rfl

theorem mem_of_mem_sinceReset (h : ev ∈ sinceReset id log) : ev ∈ log :=
  List.mem_reverse.mp ((List.takeWhile_prefix _).subset h)

theorem isGuess_append {ev' : ScmsEvent env}
    (hev : ∀ i e r, ev' = .call i e r → ∀ t parent, ev ≠ .start i t parent) :
    isGuess (log ++ [ev]) id ev' = isGuess log id ev' := by
  unfold isGuess
  split
  · rename_i i id' token
    rw [verifies_append (hev i _ _ rfl)]
  · rfl

/-- An event that starts no task of the log adds one verification, or none. -/
theorem guesses_append (hev : ∀ ev' ∈ log, ∀ t parent, ev ≠ .start ev'.task t parent) :
    guesses id (log ++ [ev]) = if isReset id ev then 0 else
      guesses id log + if isGuess log id ev then 1 else 0 := by
  have hold : (sinceReset id log).countP (isGuess (log ++ [ev]) id) = guesses id log := by
    refine List.countP_congr fun ev' hmem => ?_
    rw [isGuess_append]
    rintro i e r rfl
    exact hev _ (mem_of_mem_sinceReset hmem)
  have hnew : isGuess (log ++ [ev]) id ev = isGuess log id ev := by
    refine isGuess_append ?_
    rintro i e r rfl t parent
    simp
  rw [guesses, sinceReset_append]
  split_ifs with hreset hguess
  · rfl
  · rw [List.countP_cons, hold, hnew, if_pos hguess]
  · rw [List.countP_cons, hold, hnew, if_neg hguess]

end

/-! ### The balance of a token -/

section

variable {env : Env} {w : ScmsWorld env} {s : Tokens} {ev : ScmsEvent env} {id : Uuid}
variable {row row' : Token} {i j : ℕ} {token : Token}

/-- Request `j` passed and is not settled. -/
def Open (w : ScmsWorld env) (id : Uuid) (j : ℕ) (token : Token) : Prop :=
  Passed w id j token ∧ ¬Settled w id j

/-- The verifications since the last reset and the attempts that the counter leaves, or that it will
leave when the open verification has written, are not more than three. -/
structure Balance (w : ScmsWorld env) (id : Uuid) (row : Token) : Prop where
  unique : ∀ j j' token token', Open w id j token → Open w id j' token' → j = j'
  settled : (∀ j token, ¬Open w id j token) → guesses id w.log + row.pinAttemptsRemaining ≤ 3
  recent : ∀ j token, Open w id j token → Recent w id j →
    guesses id w.log + (token.pinAttemptsRemaining - 1) ≤ 3
  old : ∀ j token, Open w id j token → ¬Recent w id j → guesses id w.log = 0

theorem not_mem_of_history {e : Call} {r : Reply e} (h : w.history i = []) :
    .call i e r ∉ w.log := by
  rw [← World.mem_history, h]
  exact List.not_mem_nil

theorem Written.add (h : Written w id j) : Written ⟨s, w.log ++ [ev]⟩ id j := by
  obtain ⟨update, r, hmem, happlied⟩ := h
  exact ⟨update, r, List.mem_append_left _ hmem, happlied⟩

theorem Done.add (h : Done w id j) : Done ⟨s, w.log ++ [ev]⟩ id j := by
  rcases h with (⟨r, hr⟩ | habort) | ⟨update, r, hmem⟩
  · exact .inl (.inl ⟨r, List.mem_append_left _ hr⟩)
  · exact .inl (.inr (List.mem_append_left _ habort))
  · exact .inr ⟨update, r, List.mem_append_left _ hmem⟩

/-- An event that is no verification leaves those that passed. -/
theorem passed_append (hstart : ∀ ev' ∈ w.log, ∀ t parent, ev ≠ .start ev'.task t parent)
    (hguess : isGuess w.log id ev = false) :
    Passed ⟨s, w.log ++ [ev]⟩ id j token ↔ Passed w id j token := by
  constructor
  · rintro ⟨hread, hpasses, hverifies⟩
    have hmem : .call j (.findToken id) (.ok (some token)) ∈ w.log := by
      rcases List.mem_append.mp hread with hmem | hmem
      · exact hmem
      · obtain rfl := List.mem_singleton.mp hmem
        rw [verifies_append (by simp)] at hverifies
        simp [isGuess, hpasses, hverifies] at hguess
    have hsame : verifies (w.log ++ [ev]) j = verifies w.log j := verifies_append (hstart _ hmem)
    exact ⟨hmem, hpasses, hsame ▸ hverifies⟩
  · rintro ⟨hmem, hpasses, hverifies⟩
    have hsame : verifies (w.log ++ [ev]) j = verifies w.log j := verifies_append (hstart _ hmem)
    exact ⟨List.mem_append_left _ hmem, hpasses, hsame.trans hverifies⟩

/-- A request that has read the token reads it no more. -/
theorem recent_append (hreset : isReset id ev = false)
    (hread : ∀ j r, ev = .call j (.findToken id) r → w.history j = [])
    (hpassed : Passed w id j token) :
    Recent ⟨s, w.log ++ [ev]⟩ id j ↔ Recent w id j := by
  unfold Recent
  dsimp only
  rw [sinceReset_append, hreset, if_neg Bool.false_ne_true]
  refine exists_congr fun token' => ?_
  rw [List.mem_cons]
  refine or_iff_right fun hev => ?_
  exact not_mem_of_history (hread j _ hev.symm) hpassed.1

/-- Other events keep the balance. -/
theorem Balance.append (h : Balance w id row) (hle : row.pinAttemptsRemaining ≤ 3)
    (hpin : row'.pinAttemptsRemaining = row.pinAttemptsRemaining)
    (hstart : ∀ ev' ∈ w.log, ∀ t parent, ev ≠ .start ev'.task t parent)
    (hguess : isGuess w.log id ev = false) (hreset : isReset id ev = false)
    (hread : ∀ j r, ev = .call j (.findToken id) r → w.history j = [])
    (hwrite : ∀ j update r, ev = .call j (.updateToken id update) r → r.applied = true →
      ∀ token, ¬Passed w id j token) : Balance ⟨s, w.log ++ [ev]⟩ id row' := by
  have hpassed {j : ℕ} {token : Token} :
      Passed ⟨s, w.log ++ [ev]⟩ id j token ↔ Passed w id j token := passed_append hstart hguess
  have hrecent {j : ℕ} {token : Token} (hp : Passed w id j token) :
      Recent ⟨s, w.log ++ [ev]⟩ id j ↔ Recent w id j := recent_append hreset hread hp
  have hguesses : guesses id (w.log ++ [ev]) = guesses id w.log := by
    rw [guesses_append hstart, hreset, hguess]
    simp
  have hopen {j : ℕ} {token : Token} (ho : Open ⟨s, w.log ++ [ev]⟩ id j token) :
      Open w id j token := by
    have hp := hpassed.mp ho.1
    refine ⟨hp, fun hsettled => ho.2 ?_⟩
    rcases hsettled with hw | ⟨hd, hr⟩
    · exact .inl hw.add
    · exact .inr ⟨hd.add, hr ∘ (hrecent hp).mp⟩
  -- a request that is not open any more passed before the last reset
  have hclosed {j : ℕ} {token : Token} (ho : Open w id j token) :
      Open ⟨s, w.log ++ [ev]⟩ id j token ∨ ¬Recent w id j := by
    by_cases hr : Recent w id j
    · refine .inl ⟨hpassed.mpr ho.1, fun hsettled => ?_⟩
      rcases hsettled with ⟨update, r, hmem, happlied⟩ | ⟨-, hr'⟩
      · rcases List.mem_append.mp hmem with hmem | hmem
        · exact ho.2 (.inl ⟨update, r, hmem, happlied⟩)
        · exact hwrite j update r (List.mem_singleton.mp hmem).symm happlied token ho.1
      · exact hr' ((hrecent ho.1).mpr hr)
    · exact .inr hr
  constructor
  · intro j j' token token' ho ho'
    exact h.unique j j' token token' (hopen ho) (hopen ho')
  · intro hnone
    show (guesses id (w.log ++ [ev]) : ℤ) + row'.pinAttemptsRemaining ≤ 3
    rw [hguesses, hpin]
    by_cases hbefore : ∀ j token, ¬Open w id j token
    · exact h.settled hbefore
    · push Not at hbefore
      obtain ⟨j, token, ho⟩ := hbefore
      rcases hclosed ho with ho' | hr
      · exact absurd ho' (hnone j token)
      · rw [h.old j token ho hr]
        simpa using hle
  · intro j token ho hr
    show (guesses id (w.log ++ [ev]) : ℤ) + _ ≤ 3
    rw [hguesses]
    exact h.recent j token (hopen ho) ((hrecent (hopen ho).1).mp hr)
  · intro j token ho hr
    show guesses id (w.log ++ [ev]) = 0
    rw [hguesses]
    exact h.old j token (hopen ho) (hr ∘ (hrecent (hopen ho).1).mpr)

/-- A verification reads the token and passes when all before it are settled. -/
theorem Balance.guess (h : Balance w id row) (hpasses : row.passes = true)
    (hverifies : verifies w.log i = true) (hfirst : w.history i = [])
    (hsettled : ∀ j token, Passed w id j token → Settled w id j) :
    Balance ⟨s, w.log ++ [.call i (.findToken id) (.ok (some row))]⟩ id row := by
  have hnone : ∀ j token, ¬Open w id j token := fun j token ho => ho.2 (hsettled j token ho.1)
  have hbudget := h.settled hnone
  have hrecent : Recent ⟨s, w.log ++ [.call i (.findToken id) (.ok (some row))]⟩ id i := by
    refine ⟨row, ?_⟩
    dsimp only
    rw [sinceReset_append]
    exact List.mem_cons_self ..
  have hguesses : guesses id (w.log ++ [.call i (.findToken id) (.ok (some row))]) =
      guesses id w.log + 1 := by
    rw [guesses_append (by simp)]
    simp [isReset, isGuess, hpasses, hverifies]
  -- the only open verification is the new one
  have hopen {j : ℕ} {token : Token}
      (ho : Open ⟨s, w.log ++ [.call i (.findToken id) (.ok (some row))]⟩ id j token) :
      j = i ∧ token = row := by
    obtain ⟨⟨hmem, hp, hv⟩, hns⟩ := ho
    rcases List.mem_append.mp hmem with hold | hmem
    · rw [verifies_append (by simp)] at hv
      have hne : j ≠ i := fun heq => not_mem_of_history hfirst (heq ▸ hold)
      refine absurd ?_ hns
      rcases hsettled j token ⟨hold, hp, hv⟩ with hw | ⟨hd, hr⟩
      · exact .inl hw.add
      · refine .inr ⟨hd.add, fun hr' => hr ?_⟩
        obtain ⟨token', hr'⟩ := hr'
        dsimp only at hr'
        rw [sinceReset_append] at hr'
        rcases List.mem_cons.mp hr' with hev | hr'
        · exact absurd (Event.call.inj hev).1 hne
        · exact ⟨token', hr'⟩
    · obtain ⟨hj, -, hreply⟩ := Event.call.inj (List.mem_singleton.mp hmem)
      exact ⟨hj, Option.some.inj (Except.ok.inj (eq_of_heq hreply))⟩
  constructor
  · intro j j' token token' ho ho'
    rw [(hopen ho).1, (hopen ho').1]
  · intro hno
    refine absurd ?_ (hno i row)
    refine ⟨⟨List.mem_append_right _ (List.mem_singleton_self _), hpasses, ?_⟩, ?_⟩
    · rw [verifies_append (by simp)]
      exact hverifies
    · rintro (⟨update, r, hmem, -⟩ | ⟨-, hr⟩)
      · rcases List.mem_append.mp hmem with hmem | hmem
        · exact not_mem_of_history hfirst hmem
        · cases List.mem_singleton.mp hmem
      · exact hr hrecent
  · intro j token ho _
    obtain ⟨rfl, rfl⟩ := hopen ho
    show (guesses id (w.log ++ _) : ℤ) + _ ≤ 3
    rw [hguesses]
    push_cast
    omega
  · intro j token ho hr
    obtain ⟨rfl, rfl⟩ := hopen ho
    exact absurd hrecent hr

/-- The open verification writes. -/
theorem Balance.write (h : Balance w id row) {update : TokenUpdate} {r : UpdateReply}
    (happlied : r.applied = true) (hpassed : Passed w id i token) (hopen : ¬Settled w id i)
    (hle : token.pinAttemptsRemaining ≤ 3)
    (hpin : row'.pinAttemptsRemaining = token.pinAttemptsRemaining - 1)
    (hreset : isReset id (.call i (.updateToken id update) r : ScmsEvent env) = false) :
    Balance ⟨s, w.log ++ [.call i (.updateToken id update) r]⟩ id row' := by
  have hguesses : guesses id (w.log ++ [.call i (.updateToken id update) r]) =
      guesses id w.log := by
    rw [guesses_append (by simp), hreset]
    simp [isGuess]
  -- no verification is open any more
  have hnone {j : ℕ} {token' : Token} :
      ¬Open ⟨s, w.log ++ [.call i (.updateToken id update) r]⟩ id j token' := by
    rintro ⟨hp, hns⟩
    have hp : Passed w id j token' := (passed_append (by simp) rfl).mp hp
    by_cases hsettled : Settled w id j
    · refine hns ?_
      rcases hsettled with hw | ⟨hd, hr⟩
      · exact .inl hw.add
      · exact .inr ⟨hd.add, hr ∘ (recent_append hreset (by simp) hp).mp⟩
    · have hj : j = i := h.unique j i token' token ⟨hp, hsettled⟩ ⟨hpassed, hopen⟩
      refine hns (.inl ⟨update, r, ?_, happlied⟩)
      rw [hj]
      exact List.mem_append_right _ (List.mem_singleton_self _)
  constructor
  · exact fun _ _ _ _ ho => absurd ho hnone
  · intro _
    show (guesses id (w.log ++ _) : ℤ) + row'.pinAttemptsRemaining ≤ 3
    rw [hguesses, hpin]
    by_cases hr : Recent w id i
    · exact h.recent i token ⟨hpassed, hopen⟩ hr
    · rw [h.old i token ⟨hpassed, hopen⟩ hr]
      push_cast
      omega
  · exact fun _ _ ho => absurd ho hnone
  · exact fun _ _ ho => absurd ho hnone

/-- The counter is reset. -/
theorem Balance.reset (h : Balance w id row)
    (hstart : ∀ ev' ∈ w.log, ∀ t parent, ev ≠ .start ev'.task t parent)
    (hguess : isGuess w.log id ev = false) (hreset : isReset id ev = true)
    (hpin : row'.pinAttemptsRemaining = 3) : Balance ⟨s, w.log ++ [ev]⟩ id row' := by
  have hguesses : guesses id (w.log ++ [ev]) = 0 := by
    rw [guesses_append hstart, if_pos hreset]
  have hold {j : ℕ} : ¬Recent ⟨s, w.log ++ [ev]⟩ id j := by
    rintro ⟨token, hmem⟩
    dsimp only at hmem
    rw [sinceReset_append, if_pos hreset] at hmem
    cases hmem
  have hopen {j : ℕ} {token : Token} (ho : Open ⟨s, w.log ++ [ev]⟩ id j token) :
      Open w id j token := by
    refine ⟨(passed_append hstart hguess).mp ho.1, fun hsettled => ho.2 ?_⟩
    rcases hsettled with hw | ⟨hd, -⟩
    · exact .inl hw.add
    · exact .inr ⟨hd.add, hold⟩
  constructor
  · exact fun j j' token token' ho ho' => h.unique j j' token token' (hopen ho) (hopen ho')
  · intro _
    show (guesses id (w.log ++ [ev]) : ℤ) + row'.pinAttemptsRemaining ≤ 3
    rw [hguesses, hpin]
    decide
  · exact fun _ _ _ hr => absurd hr hold
  · exact fun _ _ _ _ => hguesses

end

/-! ### Runs -/

section

variable {env : Env}

/-- Every token is balanced. -/
def Balanced (w : ScmsWorld env) : Prop :=
  ∀ id row, w.store.get id = some row → Balance w id row

theorem after_eq (w : ScmsWorld env) (i n : ℕ) (e : Call) (c : Choice) :
    (scms env).after i n e c w =
      ⟨(exec e c w.store).2, w.log ++ [.call i e (exec e c w.store).1]⟩ := rfl

/-- A request that has only read the token and verifies has passed, and is open. -/
theorem open_of_readOnly {w : ScmsWorld env} {i : ℕ} {t : Task env} {token : Token}
    (hrun : w.Running i t) (hread : w.history i = readOnly t.id token)
    (hverifies : t.action.verifies = true) (hpasses : token.passes = true) :
    Passed w t.id i token ∧ ¬Settled w t.id i := by
  have hno {update : TokenUpdate} {r : UpdateReply} :
      .call i (.updateToken t.id update) r ∉ w.log := by
    rw [← World.mem_history, hread, readOnly, List.mem_singleton]
    simp
  refine ⟨⟨?_, hpasses, ?_⟩, ?_⟩
  · rw [← World.mem_history, hread]
    exact List.mem_singleton_self _
  · obtain ⟨parent, hstart⟩ := hrun.started
    refine List.any_eq_true.mpr ⟨_, hstart, ?_⟩
    simpa using hverifies
  · rintro (⟨update, r, hmem, -⟩ | ⟨hended | ⟨update, r, hmem⟩, -⟩)
    · exact hno hmem
    · exact hrun.not_ended hended
    · exact hno hmem

/-- A request that does not verify has not passed. -/
theorem not_passed {w : ScmsWorld env} (hwf : w.Wf) {i : ℕ} {t : Task env}
    (hrun : w.Running i t) (hverifies : t.action.verifies = false) (id : Uuid) (token : Token) :
    ¬Passed w id i token := by
  rintro ⟨-, -, hv⟩
  obtain ⟨ev, hmem, hev⟩ := List.any_eq_true.mp hv
  split at hev
  · rename_i j t' parent
    obtain ⟨rfl, hv'⟩ : j = i ∧ t'.action.verifies = true := by simpa using hev
    have heq : t' = t := hwf.started_unique ⟨parent, hmem⟩ hrun.started
    rw [heq, hverifies] at hv'
    cases hv'
  · cases hev

/-- Calls that do not concern the counter. -/
theorem balance_after_quiet {w : ScmsWorld env} {i : ℕ} {e : Call} {c : Choice} {id : Uuid}
    {row row' : Token} (h : Balance w id row) (hle : row.pinAttemptsRemaining ≤ 3)
    (hget : w.store.get id = some row) (hget' : (exec e c w.store).2.get id = some row')
    (hfind : ∀ id', e ≠ .findToken id') (hupdate : ∀ update, e ≠ .updateToken id update) :
    Balance ⟨(exec e c w.store).2, w.log ++ [.call i e (exec e c w.store).1]⟩ id row' := by
  have hpin : row'.pinAttemptsRemaining = row.pinAttemptsRemaining := by
    obtain ⟨token, hget'', hsame | ⟨update, he, -⟩⟩ := get_exec (e := e) (c := c) hget
    · obtain rfl := Option.some.inj (hget''.symm.trans hget')
      exact hsame.2
    · exact absurd he (hupdate update)
  have hguess (r : Reply e) : isGuess w.log id (.call i e r) = false := by
    cases e with
    | findToken id' => exact absurd rfl (hfind id')
    | _ => rfl
  have hreset (r : Reply e) : isReset id (.call i e r : ScmsEvent env) = false := by
    cases e with
    | updateToken id' update =>
      have hne : id' ≠ id := by
        rintro rfl
        exact hupdate update rfl
      simp [isReset, hne]
    | _ => rfl
  refine h.append hle hpin (by simp) (hguess _) (hreset _) ?_ ?_
  · intro j r hev
    exact absurd (Event.call.inj hev).2.1 (hfind id)
  · intro j update r hev
    exact absurd (Event.call.inj hev).2.1 (hupdate update)

/-- A read. -/
theorem balance_after_find {w : ScmsWorld env} {i : ℕ} {c : Choice} {id id' : Uuid} {row : Token}
    (h : Balance w id row) (hle : row.pinAttemptsRemaining ≤ 3) (hget : w.store.get id = some row)
    (hfirst : w.history i = [])
    (hone : OneAtATime w (.call i (.findToken id') (exec (.findToken id') c w.store).1)) :
    Balance ⟨w.store, w.log ++ [.call i (.findToken id') (exec (.findToken id') c w.store).1]⟩ id
      row := by
  by_cases hguess : isGuess w.log id
      (.call i (.findToken id') (exec (.findToken id') c w.store).1) = true
  · have hsettled := hone.2 id hguess
    have hreply (token : Token) (hr : (exec (.findToken id') c w.store).1 = .ok (some token)) :
        w.store.get id' = some token := get_of_reply hr
    generalize (exec (.findToken id') c w.store).1 = reply at hguess hreply ⊢
    unfold isGuess at hguess
    split at hguess
    · rename_i j id'' token hev
      obtain ⟨rfl, hcall, hr⟩ := Event.call.inj hev
      obtain rfl := Call.findToken.inj hcall
      obtain rfl := eq_of_heq hr
      simp only [Bool.and_eq_true, decide_eq_true_eq] at hguess
      obtain ⟨⟨rfl, hpasses⟩, hverifies⟩ := hguess
      obtain rfl := Option.some.inj ((hreply token rfl).symm.trans hget)
      exact h.guess hpasses hverifies hfirst hsettled
    · cases hguess
  · refine h.append hle rfl (by simp) (by simpa using hguess) rfl ?_ ?_
    · intro j r hev
      rw [← (Event.call.inj hev).1]
      exact hfirst
    · intro j update r hev
      cases (Event.call.inj hev).2.1

/-- A write. -/
theorem balance_after_update {w : ScmsWorld env} {i : ℕ} {t : Task env} {c : Choice}
    {row row' token : Token} {update : TokenUpdate} (hwf : w.Wf) (hranged : Ranged w)
    (h : Balance w t.id row) (hrun : w.Running i t) (hread : w.history i = readOnly t.id token)
    (hwrites : Writes token update t.action) (hget : w.store.get t.id = some row)
    (hget' : (exec (.updateToken t.id update) c w.store).2.get t.id = some row') :
    Balance ⟨(exec (.updateToken t.id update) c w.store).2, w.log ++
      [.call i (.updateToken t.id update) (exec (.updateToken t.id update) c w.store).1]⟩ t.id
      row' := by
  have hle : row.pinAttemptsRemaining ≤ 3 := (hranged.rows _ row hget).2.1
  have htoken : token.pinAttemptsRemaining ≤ 3 := by
    refine (hranged.reads i t.id token (World.mem_history.mp ?_)).2.1
    rw [hread]
    exact List.mem_singleton_self _
  have hrow : some (if t.id = t.id ∧ (exec (.updateToken t.id update) c w.store).1.applied = true
      then update.apply c.now row else row) = some row' := (get_updateRow hget).symm.trans hget'
  generalize (exec (.updateToken t.id update) c w.store).1 = reply at hrow ⊢
  -- a write of a request that has not passed, or that does not reach the database
  have hother (hpin : row'.pinAttemptsRemaining = row.pinAttemptsRemaining)
      (hreset : isReset t.id (.call i (.updateToken t.id update) reply : ScmsEvent env) = false)
      (hpassed : reply.applied = true → ∀ token, ¬Passed w t.id i token) :
      Balance ⟨(exec (.updateToken t.id update) c w.store).2, w.log ++
        [.call i (.updateToken t.id update) reply]⟩ t.id row' := by
    refine h.append hle hpin (by simp) rfl hreset ?_ ?_
    · intro j r hev
      cases (Event.call.inj hev).2.1
    · intro j update' r hev happlied
      obtain ⟨rfl, hcall, hr⟩ := Event.call.inj hev
      obtain ⟨-, rfl⟩ := Call.updateToken.inj hcall
      obtain rfl := eq_of_heq hr
      exact hpassed happlied
  by_cases happlied : reply.applied = true
  · obtain rfl : update.apply c.now row = row' := by simpa [happlied] using hrow
    have hpin : (update.apply c.now row).pinAttemptsRemaining =
      update.pinAttempts.getD row.pinAttemptsRemaining := rfl
    have honPin := hranged.onPin i t hrun.started
    have hpassed := open_of_readOnly hrun hread
    have hnot := not_passed hwf hrun
    revert hwrites honPin hpassed hnot
    cases t.action with
    | revokeToken =>
      rintro ⟨-, hnone⟩ - - hnot
      rw [hnone] at hpin
      exact hother hpin (by simp [isReset, hnone]) fun _ => hnot rfl t.id
    | unblockToken =>
      rintro ⟨-, hthree, -⟩ - - -
      rw [hthree] at hpin
      exact h.reset (by simp) rfl (by simp [isReset, hthree, happlied]) hpin
    | changePin currentPin newPin =>
      rintro ⟨-, hthree, -⟩ - - -
      rw [hthree] at hpin
      exact h.reset (by simp) rfl (by simp [isReset, hthree, happlied]) hpin
    | verifyPin pin =>
      rintro ⟨hpos, hstatus, hminus, -⟩ - hpassed -
      rw [hminus] at hpin
      obtain ⟨hp, hopen⟩ := hpassed rfl (by simp [Token.passes, hpos, hstatus])
      refine h.write happlied hp hopen htoken hpin ?_
      have hne : token.pinAttemptsRemaining - 1 ≠ 3 := by omega
      simp [isReset, hminus, hne]
    | _ =>
      intro _ honPin
      cases honPin
  · obtain rfl : row = row' := by simpa [happlied] using hrow
    exact hother rfl (by simp [isReset, happlied]) fun h => absurd h happlied

/-- Every call keeps the balance. -/
theorem balanced_after {w : ScmsWorld env} {i n : ℕ} {t : Task env} {e : Call} {c : Choice}
    (hwf : w.Wf) (hranged : Ranged w) (h : Balanced w) (hrun : w.Running i t)
    (hcalls : callSpec env t (w.history i) e)
    (hone : OneAtATime w (.call i e (exec e c w.store).1)) :
    Balanced ((scms env).after i n e c w) := by
  intro id row' hget'
  rw [after_eq] at hget' ⊢
  cases hget : w.store.get id with
  | none =>
    have hnone := get_exec_none (e := e) (c := c) hget
    exact absurd (hnone.symm.trans hget') (by simp)
  | some row =>
    have hle : row.pinAttemptsRemaining ≤ 3 := (hranged.rows id row hget).2.1
    cases e with
    | findToken id' =>
      have hstore := exec_findToken_store id' c w.store
      rw [hstore] at hget' ⊢
      obtain rfl := Option.some.inj (hget.symm.trans hget')
      exact balance_after_find (h id row hget) hle hget hcalls.2 hone
    | updateToken id' update =>
      by_cases hid : id' = id
      · obtain ⟨rfl, token, hread, hwrites⟩ := hcalls
        subst hid
        exact balance_after_update hwf hranged (h _ row hget) hrun hread hwrites hget hget'
      · refine balance_after_quiet (h id row hget) hle hget hget' (by simp) fun update' heq => ?_
        exact hid (Call.updateToken.inj heq).1
    | _ => exact balance_after_quiet (h id row hget) hle hget hget' (by simp) (by simp)

theorem Balanced.add {w : ScmsWorld env} {ev : ScmsEvent env} (hranged : Ranged w)
    (h : Balanced w) (hcall : ∀ i e r, ev ≠ .call i e r)
    (hstart : ∀ ev' ∈ w.log, ∀ t parent, ev ≠ .start ev'.task t parent) :
    Balanced (w.add [ev]) := by
  intro id row hget
  have hle : row.pinAttemptsRemaining ≤ 3 := (hranged.rows id row hget).2.1
  have hguess : isGuess w.log id ev = false := by
    cases ev with
    | call i e r => exact absurd rfl (hcall i e r)
    | _ => rfl
  have hreset : isReset id ev = false := by
    cases ev with
    | call i e r => exact absurd rfl (hcall i e r)
    | _ => rfl
  exact (h id row hget).append hle rfl hstart hguess hreset
    (fun _ _ hev => absurd hev (hcall _ _ _)) fun _ _ _ hev => absurd hev (hcall _ _ _)

theorem balanced_preserved :
    (scms env).Preserves (scmsSpec env) OneAtATime (fun w => True ∧ Ranged w) Balanced where
  start _ hI h hfresh _ := h.add hI.2 (by simp) fun ev' hmem t parent heq =>
    hfresh ev' hmem (Event.start.inj heq).1.symm
  call hwf hI h hrun _ hcalls ha := balanced_after hwf hI.2 h hrun hcalls ha
  finish _ hI h _ _ _ := h.add hI.2 (by simp) (by simp)
  abort _ hI h _ _ := h.add hI.2 (by simp) (by simp)

theorem balance_initial {store : Tokens} {id : Uuid} {row : Token} (h : row.InRange) :
    Balance (⟨store, []⟩ : ScmsWorld env) id row := by
  have hnone {j : ℕ} {token : Token} : ¬Open (⟨store, []⟩ : ScmsWorld env) id j token :=
    fun ho => absurd ho.1.1 List.not_mem_nil
  constructor
  · exact fun _ _ _ _ ho => absurd ho hnone
  · intro _
    have hle := h.2.1
    show ((0 : ℕ) : ℤ) + row.pinAttemptsRemaining ≤ 3
    push_cast
    omega
  · exact fun _ _ ho => absurd ho hnone
  · exact fun _ _ ho => absurd ho hnone

/-- Not more than three verifications passed since the last reset. -/
theorem Balance.guesses_le {w : ScmsWorld env} {id : Uuid} {row : Token} (h : Balance w id row)
    (hrow : row.InRange) : guesses id w.log ≤ 3 := by
  by_cases hnone : ∀ j token, ¬Open w id j token
  · have hbudget := h.settled hnone
    have hlow := hrow.1
    omega
  · push Not at hnone
    obtain ⟨j, token, ho⟩ := hnone
    by_cases hr : Recent w id j
    · have hbudget := h.recent j token ho hr
      have hpos : 0 < token.pinAttemptsRemaining := by
        have hpasses := ho.1.2.1
        simp only [Token.passes, Bool.and_eq_true, decide_eq_true_eq] at hpasses
        exact hpasses.1
      omega
    · rw [h.old j token ho hr]
      decide

end

/-- **PIN attempts are counted if they come one at a time.**  The counter of every token stays
between 0 and 3, and is 0 only if the token is blocked or revoked; along runs in which a
verification passes only when those before it are settled, at most three pass between two resets. -/
theorem pin_attempts_counted (env : Env) (store : Tokens)
    (hstore : ∀ id token, store.get id = some token → token.InRange) (cfg : ScmsConfig env) :
    ((scms env).Reach PinRequests (initial store) cfg →
      ∀ id token, cfg.world.store.get id = some token → token.InRange) ∧
    ((scms env).Reach OneAtATime (initial store) cfg →
      ∀ id token, cfg.world.store.get id = some token → guesses id cfg.world.log ≤ 3) := by
  have hinit : Ranged (⟨store, []⟩ : ScmsWorld env) := by
    refine ⟨?_, hstore, fun _ _ _ hmem => absurd hmem List.not_mem_nil⟩
    rintro i t ⟨parent, hmem⟩
    exact absurd hmem List.not_mem_nil
  constructor
  · intro hreach
    exact ((ranged_preserved fun _ _ h => h).reach (scms_meets env) hinit hreach).2.rows
  · intro hreach id token hget
    have hpreserved : (scms env).Preserves (scmsSpec env) OneAtATime (fun _ => True) Ranged :=
      ranged_preserved fun _ _ h => h.1
    obtain ⟨-, hranged, hbalanced⟩ := (hpreserved.and balanced_preserved).reach (scms_meets env)
      ⟨hinit, fun id token hget => balance_initial (hstore id token hget)⟩ hreach
    exact (hbalanced id token hget).guesses_le (hranged.rows id token hget)

/-- The requests are about the PIN, and no token is read twice. -/
def oneRead (w : ScmsWorld openEnv) : ScmsEvent openEnv → Bool
  | .start _ t _ => t.action.onPin
  | .call _ (.findToken _) _ => w.log.all fun
    | .call _ (.findToken _) _ => false
    | _ => true
  | _ => true

theorem oneAtATime_of_oneRead {w : ScmsWorld openEnv} {ev : ScmsEvent openEnv}
    (h : oneRead w ev = true) : OneAtATime w ev := by
  unfold oneRead at h
  split at h
  · exact ⟨h, fun _ hguess => absurd hguess (by simp [isGuess])⟩
  · refine ⟨trivial, fun id _ j token hpassed => ?_⟩
    cases List.all_eq_true.mp h _ hpassed.1
  · rename_i hnotStart hnotFind
    constructor
    · unfold PinRequests
      split
      · exact absurd rfl (hnotStart _ _ _)
      · trivial
    · intro id hguess
      unfold isGuess at hguess
      split at hguess
      · exact (hnotFind _ _ _ rfl).elim
      · cases hguess

theorem inRange_oneToken : ∀ id token, (oneToken "active" 3).get id = some token →
    token.InRange := by
  intro id token hget
  obtain ⟨hmem, -⟩ := Keyed.mem_of_get hget
  rw [List.mem_singleton.mp hmem]
  exact ⟨by decide, le_rfl, fun h => absurd h (by decide)⟩

/-- One verification. -/
theorem pin_attempts_counted_one : ∃ cfg : ScmsConfig openEnv,
    (scms openEnv).Reach OneAtATime (initial (oneToken "active" 3)) cfg ∧
    guesses .nil cfg.world.log = 1 ∧ cfg.world.store.get .nil ≠ none ∧
    ∀ id token, cfg.world.store.get id = some token → guesses id cfg.world.log ≤ 3 := by
  have hrun : ((scms openEnv).run oneRead (whole 0 3 (.verifyPin "0000"))
      (initial (oneToken "active" 3))).map (fun cfg =>
        (guesses .nil cfg.world.log, (cfg.world.store.get .nil).isSome)) = some (1, true) := by
    decide +kernel
  obtain ⟨cfg, hcfg, hvalue⟩ := Option.map_eq_some_iff.mp hrun
  obtain ⟨hguesses, hsome⟩ := Prod.mk.inj hvalue
  have hreach := reach_of_run (fun _ _ h => oneAtATime_of_oneRead h) _ hcfg
  exact ⟨cfg, hreach, hguesses, Option.isSome_iff_ne_none.mp hsome,
    (pin_attempts_counted openEnv _ inRange_oneToken cfg).2 hreach⟩

/-- The requests that start are verifications of the PIN. -/
def onPin (_ : ScmsWorld openEnv) : ScmsEvent openEnv → Bool
  | .start _ t _ => t.action.onPin
  | _ => true

theorem pinRequests_of_onPin {w : ScmsWorld openEnv} {ev : ScmsEvent openEnv}
    (h : onPin w ev = true) : PinRequests w ev := by
  cases ev with
  | start i t parent => exact h
  | _ => trivial

/-- Two verifications at a time read the same counter, and four pass. -/
theorem pin_attempts_lost : ∃ cfg : ScmsConfig openEnv,
    (scms openEnv).Reach PinRequests (initial (oneToken "active" 3)) cfg ∧
    guesses .nil cfg.world.log = 4 := by
  let pair (i : ℕ) : List (Interleave.Action (Task openEnv) Choice) :=
    [.arrive ⟨(), .nil, .verifyPin "0000"⟩, .arrive ⟨(), .nil, .verifyPin "1111"⟩,
      .run i {}, .run (i + 1) {}, .run i {}, .run (i + 1) {}]
  have hrun : ((scms openEnv).run onPin (pair 0 ++ pair 2) (initial (oneToken "active" 3))).map
      (fun cfg => guesses .nil cfg.world.log) = some 4 := by decide +kernel
  obtain ⟨cfg, hcfg, hvalue⟩ := Option.map_eq_some_iff.mp hrun
  exact ⟨cfg, reach_of_run (fun _ _ h => pinRequests_of_onPin h) _ hcfg, hvalue⟩

end Ostrich.Scms
