import Ostrich.Audit.Equiv.Sink
import Mathlib.Data.List.Pairwise

/-!
# The audit chain over all runs

`chain_verifies`: in every state of every schedule of `record` calls whose events the columns of the
table keep (`KeptOnly`), the rows in the order of their timestamps are one chain: their timestamps
increase, each row links to the one before it, and `verify_chain` accepts them; a call that fails
otherwise than by a timeout of its commit has inserted nothing.

The invariant is `ChainInv`: the table itself is in order, and the session that holds the lock has
read its last row.

`leap_second_breaks_chain` is a run with an event at a leap second, after which `verify_chain`
refuses the table that the sink wrote.
-/

namespace Ostrich.Audit

open Interleave

/-! ### Tables in order -/

/-- The timestamps increase. -/
def Increasing (rows : List Row) : Prop := rows.Pairwise fun a b => a.timestamp < b.timestamp

/-- Each row links to the one before it, and the first to none. -/
structure Linked (rows : List Row) : Prop where
  first : ∀ row, rows.head? = some row → row.previousHash = none
  next : rows.IsChain fun a b => b.previousHash = some a.eventHash

/-- The table has one order. -/
theorem Increasing.eq_of_ordered {table rows : List Row} (h : Increasing table)
    (hordered : Ordered table rows) : rows = table := by
  have hweak : table.Pairwise fun a b => a.timestamp ≤ b.timestamp :=
    h.imp fun hab => by
      by_contra hba
      exact DateTime.lt_irrefl _ (DateTime.lt_trans hab (DateTime.not_le.mp hba))
  have hdistinct : ∀ a ∈ table, ∀ b ∈ table, a.timestamp ≤ b.timestamp →
      b.timestamp ≤ a.timestamp → a = b := by
    intro a ha b hb hab hba
    by_contra hne
    have hapart : table.Pairwise fun x y => x.timestamp < y.timestamp ∨ y.timestamp < x.timestamp :=
      h.imp Or.inl
    have : Std.Symm fun x y : Row => x.timestamp < y.timestamp ∨ y.timestamp < x.timestamp :=
      ⟨fun _ _ => Or.symm⟩
    rcases hapart.forall ha hb hne with hlt | hlt
    · exact DateTime.lt_irrefl _ (DateTime.lt_of_le_of_lt hba hlt)
    · exact DateTime.lt_irrefl _ (DateTime.lt_of_le_of_lt hab hlt)
  refine hordered.perm.eq_of_pairwise (fun a b ha hb hab hba => ?_) hordered.sorted hweak
  exact hdistinct a (hordered.perm.mem_iff.mp ha) b hb hab hba

theorem Increasing.append {table : List Row} {row : Row} (h : Increasing table)
    (hlast : ∀ last, table.getLast? = some last → last.timestamp < row.timestamp) :
    Increasing (table ++ [row]) := by
  refine List.pairwise_append.mpr ⟨h, List.pairwise_singleton _ _, fun a ha b hb => ?_⟩
  rw [List.mem_singleton.mp hb]
  rcases List.eq_nil_or_concat' table with rfl | ⟨init, last, rfl⟩
  · cases ha
  · have hend := hlast last (by simp)
    rcases List.mem_append.mp ha with ha | ha
    · have hbefore := (List.pairwise_append.mp h).2.2 a ha last (List.mem_singleton_self _)
      exact DateTime.lt_trans hbefore hend
    · rw [List.mem_singleton.mp ha]
      exact hend

/-- The last row that a query gives is the last of the table. -/
theorem Increasing.lastRows_eq {table : List Row} (h : Increasing table) :
    lastRows table = table.getLast?.toList := by
  rcases List.eq_nil_or_concat' table with rfl | ⟨init, last, rfl⟩
  · rfl
  · have hbefore : ∀ a ∈ init, a.timestamp < last.timestamp :=
      fun a ha => (List.pairwise_append.mp h).2.2 a ha last (List.mem_singleton_self _)
    unfold lastRows
    rw [List.filter_append, List.getLast?_concat, Option.toList_some]
    have hinit : init.filter (fun row => (init ++ [last]).all fun other =>
        other.timestamp ≤ row.timestamp) = [] := by
      refine List.filter_eq_nil_iff.mpr fun a ha hall => ?_
      have hle := List.all_eq_true.mp hall last
        (List.mem_append_right _ (List.mem_singleton_self _))
      exact DateTime.lt_irrefl _
        (DateTime.lt_of_le_of_lt (of_decide_eq_true hle) (hbefore a ha))
    have hlast : [last].filter (fun row => (init ++ [last]).all fun other =>
        other.timestamp ≤ row.timestamp) = [last] := by
      refine List.filter_eq_self.mpr fun a ha => ?_
      rw [List.mem_singleton.mp ha]
      refine List.all_eq_true.mpr fun other hother => decide_eq_true ?_
      by_contra hnot
      have hlt := DateTime.not_le.mp hnot
      rcases List.mem_append.mp hother with hother | hother
      · exact DateTime.lt_irrefl _ (DateTime.lt_trans hlt (hbefore other hother))
      · rw [List.mem_singleton.mp hother] at hlt
        exact DateTime.lt_irrefl _ hlt
    rw [hinit, hlast, List.nil_append]

/-! ### Chains -/

/-- The loop of the verifier over a table and one more row. -/
theorem loop_append {env : Hashing} {rows : List Row} {row : Row} {prevHash : Option (List UInt8)}
    (h : Hashing.verifyChain.loop env rows prevHash = true)
    (hlink : row.previousHash = (rows.getLast?.map (·.eventHash)).or prevHash)
    (hhash : env.computeEventHash row = row.eventHash) :
    Hashing.verifyChain.loop env (rows ++ [row]) prevHash = true := by
  induction rows generalizing prevHash with
  | nil => exact Hashing.loop_cons_eq_true.mpr ⟨hlink, hhash, rfl⟩
  | cons first rows ih =>
    obtain ⟨hprev, hfirst, hrest⟩ := Hashing.loop_cons_eq_true.mp h
    refine Hashing.loop_cons_eq_true.mpr ⟨hprev, hfirst, ih hrest ?_⟩
    rw [hlink]
    cases rows with
    | nil => rfl
    | cons second rows =>
      rw [List.getLast?_cons_cons, List.getLast?_cons]
      rfl

/-- What the verifier accepts is linked. -/
theorem linked_of_loop {env : Hashing} : ∀ {rows : List Row},
    Hashing.verifyChain.loop env rows none = true → Linked rows := by
  have hchain : ∀ (rows : List Row) (prevHash : Option (List UInt8)),
      Hashing.verifyChain.loop env rows prevHash = true →
      rows.IsChain fun a b => b.previousHash = some a.eventHash := by
    intro rows
    induction rows with
    | nil => exact fun _ _ => .nil
    | cons first rows ih =>
      intro prevHash h
      obtain ⟨-, -, hrest⟩ := Hashing.loop_cons_eq_true.mp h
      cases rows with
      | nil => exact .singleton _
      | cons second rows =>
        exact .cons_cons (Hashing.loop_cons_eq_true.mp hrest).1 (ih _ hrest)
  intro rows h
  refine ⟨fun row hrow => ?_, hchain rows none h⟩
  cases rows with
  | nil => cases hrow
  | cons first rows =>
    obtain rfl := Option.some.inj hrow
    exact (Hashing.loop_cons_eq_true.mp h).1

/-! ### Steps -/

/-- The row that an event of the log put into the table. -/
def insertedRow (env : Hashing) : AuditLogEvent → Option Row
  | .call _ (.commit _ row) reply => if reply.applied then env.stored row else none
  | _ => none

/-- What `begin_append` does: nothing, or it starts a session that has the lock and has read a last
row of the table. -/
theorem exec_beginAppend (env : Hashing) (c : Choice) (s : Store) :
    (exec env .beginAppend c s).2 = s ∧ (∀ tx, (exec env .beginAppend c s).1 ≠ some (.ok tx)) ∨
    ∃ head, head = (lastRows s.table)[c.pick % (lastRows s.table).length]? ∧
      exec env .beginAppend c s
        = (some (.ok ⟨s.sessions, head.map (·.eventHash), head.map (·.timestamp)⟩),
            { s with lock := some s.sessions, sessions := s.sessions + 1 }) := by
  rw [exec]
  split_ifs with htimeout
  · exact .inl ⟨rfl, nofun⟩
  · split
    · exact .inl ⟨rfl, nofun⟩
    · dsimp only
      unfold Store.beginAppend
      split_ifs with hlock
      · exact .inl ⟨rfl, nofun⟩
      · exact .inr ⟨_, rfl, rfl⟩

/-- What a commit does: nothing, or the session with the lock inserts its row. -/
theorem exec_commit (env : Hashing) (tx : AuditAppendTx) (row : Row) (c : Choice) (s : Store) :
    (exec env (.commit tx row) c s).2 = s ∧ (exec env (.commit tx row) c s).1.applied = false ∨
    ∃ kept, s.lock = some tx.session ∧ env.stored row = some kept ∧
      (exec env (.commit tx row) c s).1.applied = true ∧
      (exec env (.commit tx row) c s).2
        = { s with table := s.table ++ [kept], lock := none } := by
  rw [exec]
  split
  · exact .inl ⟨rfl, rfl⟩
  · split
    · exact .inl ⟨rfl, rfl⟩
    · split
      · split_ifs <;> exact .inl ⟨rfl, rfl⟩
      · rename_i s' hinsert
        have hinserted : ∃ kept, s.lock = some tx.session ∧ env.stored row = some kept ∧
            s' = { s with table := s.table ++ [kept], lock := none } := by
          unfold Store.insert at hinsert
          split_ifs at hinsert with hlock hid
          obtain ⟨kept, hkept, hs⟩ := Option.map_eq_some_iff.mp hinsert
          exact ⟨kept, not_not.mp hlock, hkept, hs.symm⟩
        obtain ⟨kept, hlock, hkept, hs⟩ := hinserted
        split_ifs
        · exact .inr ⟨kept, hlock, hkept, rfl, hs⟩
        · exact .inl ⟨rfl, rfl⟩
        · exact .inr ⟨kept, hlock, hkept, rfl, hs⟩

/-! ### The invariant -/

/-- Every event that is recorded is one that the columns of the table keep, and none is appended at
a leap second. -/
def KeptOnly (env : Hashing) (w : AuditWorld) : AuditLogEvent → Prop
  | .start _ event _ => Kept env.jsonbNumber event
  | .call i .beginAppend (some (.ok tx)) => ∀ event, w.Started i event → Placed event tx
  | _ => True

/-- The table is in order, and the session that holds the lock has read its last row. -/
structure ChainInv (env : Hashing) (w : AuditWorld) : Prop where
  increasing : Increasing w.store.table
  storable : ∀ row ∈ w.store.table, row.timestamp.Storable
  chain : Hashing.verifyChain.loop env w.store.table none = true
  table_eq : w.store.table = w.log.filterMap (insertedRow env)
  kept : ∀ i event, w.Started i event → Kept env.jsonbNumber event
  placed : ∀ i tx, .call i .beginAppend (some (.ok tx)) ∈ w.log →
    ∃ event, w.Started i event ∧ Placed event tx
  session_lt : ∀ i tx, .call i .beginAppend (some (.ok tx)) ∈ w.log →
    tx.session < w.store.sessions
  head : ∀ i tx, .call i .beginAppend (some (.ok tx)) ∈ w.log →
    w.store.lock = some tx.session →
    tx.previousHash = w.store.table.getLast?.map (·.eventHash) ∧
      tx.previousTimestamp = w.store.table.getLast?.map (·.timestamp)

section

variable {env : Hashing} {signer : Option String} {w : AuditWorld}

/-- An event that is no call and starts no event that is not kept. -/
theorem ChainInv.add (h : ChainInv env w) {ev : AuditLogEvent}
    (hcall : ∀ i e r, ev ≠ .call i e r)
    (hstart : ∀ i event parent, ev = .start i event parent → Kept env.jsonbNumber event) :
    ChainInv env (w.add [ev]) := by
  have hold : ∀ {i tx}, .call i .beginAppend (some (.ok tx)) ∈ (w.add [ev]).log →
      .call i .beginAppend (some (.ok tx)) ∈ w.log := by
    intro i tx hmem
    rcases List.mem_append.mp hmem with hmem | hmem
    · exact hmem
    · exact absurd (List.mem_singleton.mp hmem).symm (hcall _ _ _)
  have hnone : insertedRow env ev = none := by
    cases ev with
    | call i e r => exact absurd rfl (hcall i e r)
    | start i event parent => rfl
    | finish i r => rfl
    | abort i => rfl
  refine ⟨h.increasing, h.storable, h.chain, ?_, ?_, ?_, ?_, ?_⟩
  · rw [World.add_log, List.filterMap_append, List.filterMap_cons_none hnone, List.filterMap_nil,
      List.append_nil]
    exact h.table_eq
  · rintro i event ⟨parent, hmem⟩
    rcases List.mem_append.mp hmem with hmem | hmem
    · exact h.kept i event ⟨parent, hmem⟩
    · exact hstart i event parent (List.mem_singleton.mp hmem).symm
  · intro i tx hmem
    obtain ⟨event, hstarted, hplaced⟩ := h.placed i tx (hold hmem)
    exact ⟨event, hstarted.add, hplaced⟩
  · exact fun i tx hmem => h.session_lt i tx (hold hmem)
  · exact fun i tx hmem => h.head i tx (hold hmem)

theorem log_after {i n : ℕ} {e : Call} {c : Choice} : ((sink env signer).after i n e c w).log
    = w.log ++ [.call i e (exec env e c w.store).1] := rfl

theorem started_after {i j n : ℕ} {e : Call} {c : Choice} {event : AuditEvent} :
    ((sink env signer).after i n e c w).Started j event ↔ w.Started j event := by
  refine exists_congr fun parent => (System.start_mem_after _).trans (or_iff_left ?_)
  rintro ⟨hspawned, -⟩
  cases hspawned

/-- A call that changes nothing and starts no session. -/
theorem ChainInv.idle (h : ChainInv env w) {i n : ℕ} {e : Call} {c : Choice}
    (hstore : (exec env e c w.store).2 = w.store)
    (hbegin : ∀ j tx, (.call j .beginAppend (some (.ok tx)) : AuditLogEvent)
      ≠ .call i e (exec env e c w.store).1)
    (hnone : insertedRow env (.call i e (exec env e c w.store).1) = none) :
    ChainInv env ((sink env signer).after i n e c w) := by
  have hold : ∀ {j tx},
    .call j .beginAppend (some (.ok tx)) ∈ ((sink env signer).after i n e c w).log
      → .call j .beginAppend (some (.ok tx)) ∈ w.log := by
    intro j tx hmem
    exact ((System.call_mem_after _).mp hmem).resolve_right (hbegin j tx)
  have hsame : ((sink env signer).after i n e c w).store = w.store := hstore
  refine ⟨?_, ?_, ?_, ?_, ?_, ?_, ?_, ?_⟩
  · rw [hsame]
    exact h.increasing
  · rw [hsame]
    exact h.storable
  · rw [hsame]
    exact h.chain
  · rw [hsame, h.table_eq, log_after, List.filterMap_append, List.filterMap_cons_none hnone,
      List.filterMap_nil, List.append_nil]
  · exact fun j event hstarted => h.kept j event (started_after.mp hstarted)
  · intro j tx hmem
    obtain ⟨event, hstarted, hplaced⟩ := h.placed j tx (hold hmem)
    exact ⟨event, started_after.mpr hstarted, hplaced⟩
  · rw [hsame]
    exact fun j tx hmem => h.session_lt j tx (hold hmem)
  · rw [hsame]
    exact fun j tx hmem => h.head j tx (hold hmem)

/-- The new session has read the last row. -/
theorem ChainInv.beginAppend (h : ChainInv env w) {i n : ℕ} {event : AuditEvent} {c : Choice}
    (hstarted : w.Started i event) {head : Option Row}
    (hhead : head = (lastRows w.store.table)[c.pick % (lastRows w.store.table).length]?)
    (hexec : exec env .beginAppend c w.store
      = (some (.ok ⟨w.store.sessions, head.map (·.eventHash), head.map (·.timestamp)⟩),
          { w.store with lock := some w.store.sessions, sessions := w.store.sessions + 1 }))
    (hplaced : Placed event ⟨w.store.sessions, head.map (·.eventHash), head.map (·.timestamp)⟩) :
    ChainInv env ((sink env signer).after i n .beginAppend c w) := by
  have hlast : head = w.store.table.getLast? := by
    rw [hhead, h.increasing.lastRows_eq]
    cases w.store.table.getLast? with
    | none => rfl
    | some last =>
      rw [Option.toList_some, List.length_singleton, Nat.mod_one]
      rfl
  have hlog : ((sink env signer).after i n .beginAppend c w).log = w.log ++ [.call i .beginAppend
      (some (.ok ⟨w.store.sessions, head.map (·.eventHash), head.map (·.timestamp)⟩))] := by
    rw [log_after, hexec]
  have hstore : ((sink env signer).after i n .beginAppend c w).store
      = { w.store with lock := some w.store.sessions, sessions := w.store.sessions + 1 } :=
    congrArg Prod.snd hexec
  -- a session that is in the log is an earlier one or the new one
  have hcases : ∀ {j tx}, .call j .beginAppend (some (.ok tx))
        ∈ ((sink env signer).after i n .beginAppend c w).log →
      .call j .beginAppend (some (.ok tx)) ∈ w.log ∨ j = i ∧
        tx = ⟨w.store.sessions, head.map (·.eventHash), head.map (·.timestamp)⟩ := by
    intro j tx hmem
    rw [hlog] at hmem
    rcases List.mem_append.mp hmem with hmem | hmem
    · exact .inl hmem
    · obtain ⟨hj, -, hreply⟩ := Event.call.inj (List.mem_singleton.mp hmem)
      exact .inr ⟨hj, Except.ok.inj (Option.some.inj (eq_of_heq hreply))⟩
  refine ⟨?_, ?_, ?_, ?_, ?_, ?_, ?_, ?_⟩
  · rw [hstore]
    exact h.increasing
  · rw [hstore]
    exact h.storable
  · rw [hstore]
    exact h.chain
  · rw [hstore, hlog, List.filterMap_append]
    exact h.table_eq.trans (List.append_nil _).symm
  · exact fun j event hstarted => h.kept j event (started_after.mp hstarted)
  · intro j tx hmem
    rcases hcases hmem with hmem | ⟨rfl, rfl⟩
    · obtain ⟨event, hstarted, hplaced⟩ := h.placed j tx hmem
      exact ⟨event, started_after.mpr hstarted, hplaced⟩
    · exact ⟨event, started_after.mpr hstarted, hplaced⟩
  · rw [hstore]
    intro j tx hmem
    rcases hcases hmem with hmem | ⟨rfl, rfl⟩
    · exact Nat.lt_succ_of_lt (h.session_lt j tx hmem)
    · exact Nat.lt_succ_self _
  · rw [hstore]
    intro j tx hmem hlock
    rcases hcases hmem with hmem | ⟨rfl, rfl⟩
    · -- an earlier session has another number
      have hlt := h.session_lt j tx hmem
      have heq : w.store.sessions = tx.session := Option.some.inj hlock
      omega
    · rw [hlast]
      exact ⟨rfl, rfl⟩

/-- The session with the lock adds a row to the end of the chain. -/
theorem ChainInv.commit (hwf : w.Wf) (h : ChainInv env w) {i n : ℕ} {event : AuditEvent}
    {tx : AuditAppendTx} {row kept : Row} {c : Choice} (hstarted : w.Started i event)
    (hbegin : ⟨.beginAppend, some (.ok tx)⟩ ∈ w.history i)
    (hprepared : Prepared env signer event tx (w.history i) row)
    (hlock : w.store.lock = some tx.session) (hstored : env.stored row = some kept)
    (happlied : (exec env (.commit tx row) c w.store).1.applied = true)
    (hexec : (exec env (.commit tx row) c w.store).2
      = { w.store with table := w.store.table ++ [kept], lock := none }) :
    ChainInv env ((sink env signer).after i n (.commit tx row) c w) := by
  have hmem := World.mem_history.mp hbegin
  obtain ⟨hhash, htime⟩ := h.head i tx hmem hlock
  have hplaced : Placed event tx := by
    obtain ⟨event', hstarted', hplaced⟩ := h.placed i tx hmem
    rwa [hwf.started_unique hstarted hstarted']
  have hheadStorable : ∀ last, tx.previousTimestamp = some last → last.Storable := by
    intro last hlast
    rw [htime] at hlast
    obtain ⟨lastRow, hlastRow, rfl⟩ := Option.map_eq_some_iff.mp hlast
    exact h.storable lastRow (List.mem_of_getLast? hlastRow)
  have happended := hprepared.appended (h.kept i event hstarted) hplaced hheadStorable hstored
  have hstore : ((sink env signer).after i n (.commit tx row) c w).store
      = { w.store with table := w.store.table ++ [kept], lock := none } := hexec
  have hold : ∀ {j tx'}, .call j .beginAppend (some (.ok tx'))
        ∈ ((sink env signer).after i n (.commit tx row) c w).log →
      .call j .beginAppend (some (.ok tx')) ∈ w.log := by
    intro j tx' hmem'
    refine ((System.call_mem_after _).mp hmem').resolve_right fun heq => ?_
    exact Call.noConfusion (Event.call.inj heq).2.1
  refine ⟨?_, ?_, ?_, ?_, ?_, ?_, ?_, ?_⟩
  · rw [hstore]
    refine h.increasing.append fun last hlast => happended.later last.timestamp ?_
    rw [htime, hlast]
    rfl
  · rw [hstore]
    intro other hother
    rcases List.mem_append.mp hother with hother | hother
    · exact h.storable other hother
    · rw [List.mem_singleton.mp hother]
      exact happended.storable
  · rw [hstore]
    refine loop_append h.chain ?_ happended.eventHash
    rw [happended.previousHash, hhash, Option.or_none]
  · have hrow : insertedRow env (.call i (.commit tx row) (exec env (.commit tx row) c w.store).1)
        = some kept := by
      rw [insertedRow, if_pos happlied, hstored]
    rw [hstore, log_after, List.filterMap_append, List.filterMap_cons_some hrow, List.filterMap_nil,
      h.table_eq]
  · exact fun j event hstarted => h.kept j event (started_after.mp hstarted)
  · intro j tx' hmem'
    obtain ⟨event, hstarted, hplaced⟩ := h.placed j tx' (hold hmem')
    exact ⟨event, started_after.mpr hstarted, hplaced⟩
  · rw [hstore]
    exact fun j tx' hmem' => h.session_lt j tx' (hold hmem')
  · rw [hstore]
    exact fun j tx' hmem' hlock' => absurd hlock' nofun

theorem chainInv_preserves (env : Hashing) (signer : Option String) :
    (sink env signer).Preserves (sinkSpec env signer) (KeptOnly env) (fun _ => True)
      (ChainInv env) where
  start := by
    intro w i event _ _ h _ hallowed
    refine h.add (by simp) fun j event' parent heq => ?_
    obtain ⟨-, rfl, -⟩ := Event.start.inj heq
    exact hallowed
  finish _ _ h _ _ _ := h.add (by simp) (by simp)
  abort _ _ h _ _ := h.add (by simp) (by simp)
  call := by
    intro w i n event e c hwf _ h hrun _ hcalls hallowed
    cases e with
    | beginAppend =>
      rcases exec_beginAppend env c w.store with ⟨hstore, hreply⟩ | ⟨head, hhead, hexec⟩
      · refine h.idle hstore (fun j tx heq => hreply tx ?_) rfl
        exact (eq_of_heq (Event.call.inj heq).2.2).symm
      · have hplaced : KeptOnly env w (.call i .beginAppend (exec env .beginAppend c w.store).1) :=
          hallowed
        rw [hexec] at hplaced
        exact h.beginAppend hrun.started hhead hexec (hplaced event hrun.started)
    | sign hash =>
      have hstore : (exec env (.sign hash) c w.store).2 = w.store := by
        rw [exec]
        split_ifs <;> rfl
      exact h.idle hstore (fun j tx heq => Call.noConfusion (Event.call.inj heq).2.1) rfl
    | commit tx row =>
      obtain ⟨hbegin, hprepared⟩ := hcalls
      rcases exec_commit env tx row c w.store with ⟨hstore, hreply⟩ | ⟨kept, hlock, hstored, hr, hs⟩
      · refine h.idle hstore (fun j tx heq => Call.noConfusion (Event.call.inj heq).2.1) ?_
        rw [insertedRow, hreply]
        rfl
      · exact h.commit hwf hrun.started hbegin hprepared hlock hstored hr hs

/-- A call that failed otherwise than by a timeout of its commit inserted no row. -/
def FailedInsertsNothing (env : Hashing) (w : AuditWorld) : Prop :=
  ∀ i e, .finish i (.error e) ∈ w.log → e ≠ commitTimeout →
    ∀ ev ∈ w.log, ev.task = i → insertedRow env ev = none

theorem insertedRow_eq_none {i : ℕ} (h : NothingInserted (w.history i)) {ev : AuditLogEvent}
    (hev : ev ∈ w.log) (htask : ev.task = i) : insertedRow env ev = none := by
  cases ev with
  | start j event parent => rfl
  | finish j r => rfl
  | abort j => rfl
  | call j e r =>
    obtain rfl : j = i := htask
    cases e with
    | beginAppend => rfl
    | sign hash => rfl
    | commit tx row =>
      rw [insertedRow, h tx row r (World.mem_history.mpr hev)]
      rfl

/-- An event of a task that has not failed. -/
theorem FailedInsertsNothing.add (h : FailedInsertsNothing env w) {ev : AuditLogEvent} {s : Store}
    (hnew : ∀ e, .finish ev.task (.error e) ∉ w.log)
    (hfinish : ∀ i e, ev = .finish i (.error e) → e ≠ commitTimeout →
      NothingInserted (w.history i)) :
    FailedInsertsNothing env ⟨s, w.log ++ [ev]⟩ := by
  intro i e hmem hne ev' hev' htask
  rcases List.mem_append.mp hmem with hmem | hmem
  · rcases List.mem_append.mp hev' with hev' | hev'
    · exact h i e hmem hne ev' hev' htask
    · rw [List.mem_singleton.mp hev'] at htask
      rw [← htask] at hmem
      exact absurd hmem (hnew e)
  · have heq := List.mem_singleton.mp hmem
    rcases List.mem_append.mp hev' with hev' | hev'
    · exact insertedRow_eq_none (hfinish i e heq.symm hne) hev' htask
    · rw [List.mem_singleton.mp hev', ← heq]
      rfl

theorem failedInsertsNothing_preserves (env : Hashing) (signer : Option String)
    (allowed : AuditWorld → AuditLogEvent → Prop) (I : AuditWorld → Prop) :
    (sink env signer).Preserves (sinkSpec env signer) allowed I (FailedInsertsNothing env) where
  start _ _ h hfresh _ := h.add (fun e hmem => hfresh _ hmem rfl) (by simp)
  abort _ _ h hrun _ := h.add (fun e hmem => hrun.not_ended (.inl ⟨_, hmem⟩)) (by simp)
  call _ _ h hrun _ _ _ := h.add (fun e hmem => hrun.not_ended (.inl ⟨_, hmem⟩)) (by simp)
  finish := by
    intro w i event r _ _ h hrun hresult _
    refine h.add (fun e hmem => hrun.not_ended (.inl ⟨_, hmem⟩)) fun j e heq hne => ?_
    obtain ⟨rfl, rfl⟩ := Event.finish.inj heq
    exact hresult e rfl hne

end

/-! ### All runs -/

/-- What `verify_chain` and its readers rely on, for the rows in the order of their timestamps. -/
structure Chained (env : Hashing) (rows : List Row) : Prop where
  increasing : Increasing rows
  linked : Linked rows
  verifies : env.verifyChain rows = true

theorem ChainInv.chained {env : Hashing} {w : AuditWorld} (h : ChainInv env w) {rows : List Row}
    (hordered : Ordered w.store.table rows) : Chained env rows := by
  obtain rfl := h.increasing.eq_of_ordered hordered
  refine ⟨h.increasing, linked_of_loop h.chain, ?_⟩
  rw [Hashing.verifyChain_eq_loop]
  exact h.chain

theorem chainInv_initial (env : Hashing) : ChainInv env ⟨{}, []⟩ where
  increasing := .nil
  storable := fun _ h => absurd h List.not_mem_nil
  chain := rfl
  table_eq := rfl
  kept := fun _ _ h => absurd h.choose_spec List.not_mem_nil
  placed := fun _ _ h => absurd h List.not_mem_nil
  session_lt := fun _ _ h => absurd h List.not_mem_nil
  head := fun _ _ h => absurd h List.not_mem_nil

theorem chainInv_reach {env : Hashing} {signer : Option String} {cfg : AuditConfig}
    (hreach : (sink env signer).Reach (KeptOnly env) (System.initial {}) cfg) :
    ChainInv env cfg.world ∧ FailedInsertsNothing env cfg.world :=
  (((chainInv_preserves env signer).and (failedInsertsNothing_preserves env signer _ _)).reach
    (record_meets env signer) ⟨chainInv_initial env, fun _ _ h => absurd h List.not_mem_nil⟩
    hreach).2

/-- **The audit chain verifies in every state of every run** of `record` calls whose events the
table keeps: in the order of the timestamps the rows are one chain, and a call that failed before
its commit has added none of them. -/
theorem chain_verifies {env : Hashing} {signer : Option String} {cfg : AuditConfig}
    (hreach : (sink env signer).Reach (KeptOnly env) (System.initial {}) cfg) :
    (∀ rows, Ordered cfg.world.store.table rows → Chained env rows) ∧
    cfg.world.store.table = cfg.world.log.filterMap (insertedRow env) ∧
    FailedInsertsNothing env cfg.world := by
  obtain ⟨hchain, hfailed⟩ := chainInv_reach hreach
  exact ⟨fun rows hordered => hchain.chained hordered, hchain.table_eq, hfailed⟩

/-! ### Runs -/

open Instance

/-- Half a second into the leap second of the year 2016. -/
def leapSecond : DateTime where
  secs := 1483228799
  nanos := 1500000000
  nanos_lt := by decide
  leap := fun _ => by decide

/-- The number that is written `1e16`. -/
def tenTo16 : FiniteF64 := ⟨0x4341C37937E08000, by decide⟩

/-- The JSONB column gives back the integer for `1e16`. -/
def numeric : Hashing :=
  { plain with jsonbNumber := fun n => if n = .float tenTo16 then .posInt 10000000000000000 else n }

/-- One call that runs through. -/
def recordOne (event : AuditEvent) : List (Action AuditEvent Choice) :=
  [.arrive event, .run 0 {}, .run 0 {}, .run 0 {}]

/-- The verifier's answers on the table after a schedule, which has one order at most. -/
def verifierAnswer (env : Hashing) (schedule : List (Action AuditEvent Choice)) :
    Option (Bool × ℕ) :=
  ((sink env none).run (fun _ _ => true) schedule (System.initial {})).map fun cfg =>
    (env.verifyChain cfg.world.store.table, cfg.world.store.table.length)

/-- A table of one row has one order. -/
theorem ordered_of_length {table : List Row} (h : table.length = 1) : Ordered table table := by
  obtain ⟨row, rfl⟩ := List.length_eq_one_iff.mp h
  exact ⟨.refl _, List.pairwise_singleton _ _⟩

theorem exists_refused {env : Hashing} {event : AuditEvent}
    (h : verifierAnswer env (recordOne event) = some (false, 1)) :
    ∃ cfg, (sink env none).Reach (fun _ _ => True) (System.initial {}) cfg ∧
      ∃ rows, Ordered cfg.world.store.table rows ∧ env.verifyChain rows = false := by
  obtain ⟨cfg, hrun, hpair⟩ := Option.map_eq_some_iff.mp h
  obtain ⟨hanswer, hlength⟩ := Prod.mk.inj hpair
  exact ⟨cfg, System.reach_of_run (fun _ _ _ => trivial) _ hrun, _, ordered_of_length hlength,
    hanswer⟩

/-- The verifier refuses the table after one call for an event at a leap second, and after one call
for an event with the number `1e16` in its details. -/
theorem leap_second_breaks_chain :
    (∃ cfg, (sink plain none).Reach (fun _ _ => True) (System.initial {}) cfg ∧
      ∃ rows, Ordered cfg.world.store.table rows ∧ plain.verifyChain rows = false) ∧
    ∃ cfg, (sink numeric none).Reach (fun _ _ => True) (System.initial {}) cfg ∧
      ∃ rows, Ordered cfg.world.store.table rows ∧ numeric.verifyChain rows = false := by
  constructor
  · apply @exists_refused _ { event "ca" "rootcert" with timestamp := leapSecond }
    decide +kernel
  · apply @exists_refused _
      { event "ca" "rootcert" with details := some (.number (.float tenTo16)) }
    decide +kernel

/-- The check of a schedule whose events have short texts, no details, and no leap second. -/
def keptOnly (w : AuditWorld) : AuditLogEvent → Bool
  | .start _ event _ =>
    event.actor.toList.length ≤ 255 && event.target.toList.length ≤ 255
      && event.action.toList.length ≤ 100 && event.details.isNone && event.ipAddress.isNone
      && event.sessionId.isNone
  | .call _ .beginAppend (some (.ok _)) => w.log.all fun
    | .start _ event _ => event.timestamp.nanos < 1000000000
    | _ => true
  | _ => true

theorem keptOnly_sound (env : Hashing) (w : AuditWorld) (ev : AuditLogEvent)
    (h : keptOnly w ev = true) : KeptOnly env w ev := by
  unfold KeptOnly
  split
  · rename_i event parent
    simp only [keptOnly, Bool.and_eq_true, decide_eq_true_eq, Option.isNone_iff_eq_none] at h
    obtain ⟨⟨⟨⟨⟨hactor, htarget⟩, haction⟩, hdetails⟩, hip⟩, hsession⟩ := h
    refine ⟨keepsText_iff.mpr (.inl hactor), keepsText_iff.mpr (.inl htarget),
      keepsText_iff.mpr (.inl haction), ?_, ?_, ?_⟩
    · intro json hjson
      rw [hdetails] at hjson
      cases hjson
    · intro text htext
      rw [hip] at htext
      cases htext
    · intro text htext
      rw [hsession] at htext
      cases htext
  · rintro event ⟨parent, hstart⟩
    exact .inl (of_decide_eq_true (List.all_eq_true.mp h _ hstart))
  · exact trivial

/-- Two calls, of which the second one's clock is behind. -/
def recordTwo : List (Action AuditEvent Choice) :=
  [.arrive { event "ca" "rootcert" with ipAddress := none },
    .arrive { event "ra" "cert" with id := ⟨2⟩, ipAddress := none,
                                     timestamp := DateTime.ofMicros 1600000000000000 },
    .run 0 {}, .run 0 {}, .run 1 {}, .run 1 {}, .run 0 {}, .run 1 {}]

/-- After two calls the table has two rows and the verifier accepts them. -/
theorem chain_verifies_two_records : ∃ cfg : AuditConfig,
    cfg.world.store.table.length = 2 ∧
    ∀ rows, Ordered cfg.world.store.table rows → Chained plain rows := by
  have hrun : ((sink plain none).run keptOnly recordTwo (System.initial {})).map
      (fun cfg => cfg.world.store.table.length) = some 2 := by
    decide +kernel
  obtain ⟨cfg, hcfg, hlength⟩ := Option.map_eq_some_iff.mp hrun
  exact ⟨cfg, hlength, (chain_verifies (System.reach_of_run (keptOnly_sound plain) _ hcfg)).1⟩

end Ostrich.Audit
