import Mathlib.Data.List.Dedup
import Ostrich.Common.AuditRateLimiter
import Ostrich.Lib.FixedWindow

/-!
# What the audit rate limiter reports

`Tally` sorts the events of a run by what became of them: recorded, counted by one of the summaries
(each with the sources of the events since the one before), or still pending.  `Reflects` ties the
fields of the limiter to the pending events; it holds after every call, whichever of the three it
is, since each of them empties the count and both fields of the sources together
(`reflects_step`).

The rate bound is that of `FixedWindow`: the shutdown does not touch the window.

`auditRateLimiter_spec`: conservation, the rate bound and the sources.  The count of a summary stops
at `2 ^ 64 - 1`, as `saturating_add` does; `conservation_fails_when_saturated` is a run where it
matters.
-/

namespace Ostrich.Common.AuditRateLimiter

open Net FixedWindow

/-! ### The events of a run -/

def Call.isEvent : Call → Bool
  | .onEvent _ _ => true
  | _ => false

/-- The instant of a call, if it has one. -/
def Call.instant : Call → Option ℕ
  | .onEvent now _ => some now
  | .roll now => some now
  | .takeSuppressed => none

/-- What became of the events: the number recorded, the events that each summary counts (their
sources, in order), and the ones that none has counted. -/
structure Tally where
  recorded : ℕ
  batches : List (SuppressedSummary × List (Option IpAddr))
  pending : List (Option IpAddr)

/-- A summary counts the events that were suppressed since the one before. -/
def Tally.flush (t : Tally) : Option SuppressedSummary → Tally
  | some summary => ⟨t.recorded, t.batches ++ [(summary, t.pending)], []⟩
  | none => t

def Tally.add (t : Tally) (o : Outcome) : Tally :=
  let t := t.flush o.flushed
  match o.call with
  | .onEvent _ source =>
    if o.record then ⟨t.recorded + 1, t.batches, t.pending⟩
    else ⟨t.recorded, t.batches, t.pending ++ [source]⟩
  | _ => t

def tally (outcomes : List Outcome) : Tally := outcomes.foldl Tally.add ⟨0, [], []⟩

/-- The number of events of a tally. -/
def Tally.total (t : Tally) : ℕ :=
  t.recorded + (t.batches.map fun b => b.2.length).sum + t.pending.length

/-- The source keys of the events that have one. -/
def keys (sources : List (Option IpAddr)) : List IpAddr := sources.filterMap (·.map sourceKey)

/-- The count of a summary, and its number of sources. -/
structure Explains (summary : SuppressedSummary) (sources : List (Option IpAddr)) : Prop where
  count : summary.count = min sources.length u64Max
  exact : summary.distinctSourcesCapped = false →
    summary.distinctSources = (keys sources).dedup.length
  le : summary.distinctSources ≤ (keys sources).dedup.length

/-- The limiter holds the events that no summary has counted. -/
structure Reflects (l : AuditRateLimiter) (pending : List (Option IpAddr)) : Prop where
  count : l.suppressed = min pending.length u64Max
  nodup : l.suppressedSources.Nodup
  subset : ∀ key ∈ l.suppressedSources, key ∈ keys pending
  complete : l.sourcesCapped = false → ∀ key ∈ keys pending, key ∈ l.suppressedSources

theorem u64Max_pos : 0 < u64Max := by decide

/-! ### One call -/

theorem Reflects.eq_nil {l : AuditRateLimiter} {pending : List (Option IpAddr)}
    (h : Reflects l pending) (hzero : l.suppressed = 0) : pending = [] := by
  have hcount := h.count
  have hpos := u64Max_pos
  apply List.length_eq_zero_iff.1
  omega

/-- What is taken is what was pending. -/
theorem reflects_takeSuppressed {l : AuditRateLimiter} (wall : WallClock) {t : Tally}
    (h : Reflects l t.pending) (hall : ∀ b ∈ t.batches, Explains b.1 b.2) :
    Reflects (takeSuppressed l wall).1 (t.flush (takeSuppressed l wall).2).pending ∧
      (∀ b ∈ (t.flush (takeSuppressed l wall).2).batches, Explains b.1 b.2) ∧
      (t.flush (takeSuppressed l wall).2).total = t.total := by
  have hempty : ∀ wallStart, Reflects ⟨l.max, l.window, l.windowStart, wallStart, l.recorded, 0,
      [], false⟩ [] := fun wallStart =>
    ⟨by simp, List.nodup_nil, by simp, fun _ => by simp [keys]⟩
  unfold takeSuppressed
  by_cases hzero : l.suppressed = 0
  · rw [if_pos hzero]
    refine ⟨?_, hall, rfl⟩
    show Reflects _ t.pending
    rw [h.eq_nil hzero]
    exact hempty _
  · rw [if_neg hzero]
    refine ⟨hempty _, ?_, ?_⟩
    · intro b hb
      rcases List.mem_append.1 hb with hb | hb
      · exact hall b hb
      · rw [List.mem_singleton.1 hb]
        have hsub : l.suppressedSources ⊆ (keys t.pending).dedup := fun key hkey =>
          List.mem_dedup.2 (h.subset key hkey)
        have hle := (List.subperm_of_subset h.nodup hsub).length_le
        refine ⟨h.count, fun hcapped => ?_, hle⟩
        have hsup : (keys t.pending).dedup ⊆ l.suppressedSources := fun key hkey =>
          h.complete hcapped key (List.mem_dedup.1 hkey)
        have hge := (List.subperm_of_subset (List.nodup_dedup _) hsup).length_le
        exact Nat.le_antisymm hle hge
    · unfold Tally.total Tally.flush
      simp only [List.map_append, List.map_cons, List.map_nil, List.sum_append, List.sum_cons,
        List.sum_nil, List.length_nil]
      omega

theorem reflects_roll {l : AuditRateLimiter} (now : ℕ) (wall : WallClock) {t : Tally}
    (h : Reflects l t.pending) (hall : ∀ b ∈ t.batches, Explains b.1 b.2) :
    Reflects (roll l now wall).1 (t.flush (roll l now wall).2).pending ∧
      (∀ b ∈ (t.flush (roll l now wall).2).batches, Explains b.1 b.2) ∧
      (t.flush (roll l now wall).2).total = t.total := by
  unfold roll
  split_ifs with hinside
  · exact ⟨h, hall, rfl⟩
  · obtain ⟨hreflects, hbatches, htotal⟩ := reflects_takeSuppressed wall h hall
    exact ⟨⟨hreflects.count, hreflects.nodup, hreflects.subset, hreflects.complete⟩, hbatches,
      htotal⟩

/-- An event that is suppressed is pending from then on. -/
theorem reflects_suppress {l : AuditRateLimiter} {pending : List (Option IpAddr)}
    (h : Reflects l pending) (source : Option IpAddr) :
    Reflects (match source with
      | some ip => noteSource { l with suppressed := min (l.suppressed + 1) u64Max } ip
      | none => { l with suppressed := min (l.suppressed + 1) u64Max }) (pending ++ [source]) := by
  have hcount : min (l.suppressed + 1) u64Max = min (pending ++ [source]).length u64Max := by
    have hold := h.count
    rw [List.length_append, List.length_singleton]
    omega
  cases source with
  | none =>
    have hkeys : keys (pending ++ [none]) = keys pending := by simp [keys]
    refine ⟨hcount, h.nodup, ?_, ?_⟩
    · rw [hkeys]
      exact h.subset
    · rw [hkeys]
      exact h.complete
  | some ip =>
    have hkeys : keys (pending ++ [some ip]) = keys pending ++ [sourceKey ip] := by simp [keys]
    dsimp only
    unfold noteSource
    dsimp only
    by_cases hroom : l.suppressedSources.length < summaryMaxTrackedSources
    · rw [if_pos hroom]
      refine ⟨hcount, h.nodup.insert, fun key hkey => ?_, fun hcapped key hkey => ?_⟩
      · rw [hkeys]
        rcases List.mem_insert_iff.1 hkey with rfl | hkey
        · simp
        · exact List.mem_append_left _ (h.subset key hkey)
      · rw [hkeys] at hkey
        rcases List.mem_append.1 hkey with hkey | hkey
        · exact List.mem_insert_iff.2 (Or.inr (h.complete hcapped key hkey))
        · exact List.mem_insert_iff.2 (Or.inl (List.mem_singleton.1 hkey))
    · rw [if_neg hroom]
      have hsubset : ∀ key ∈ l.suppressedSources, key ∈ keys (pending ++ [some ip]) := by
        intro key hkey
        rw [hkeys]
        exact List.mem_append_left _ (h.subset key hkey)
      by_cases hnew : sourceKey ip ∉ l.suppressedSources
      · rw [if_pos hnew]
        exact ⟨hcount, h.nodup, hsubset, fun hcapped => by cases hcapped⟩
      · rw [if_neg hnew]
        refine ⟨hcount, h.nodup, hsubset, fun hcapped key hkey => ?_⟩
        rw [hkeys] at hkey
        rcases List.mem_append.1 hkey with hkey | hkey
        · exact h.complete hcapped key hkey
        · rw [List.mem_singleton.1 hkey]
          exact not_not.1 hnew

/-- **Whatever is called, the limiter holds the events that no summary has counted.** -/
theorem reflects_step {l : AuditRateLimiter} (call : Call) (wall : WallClock) {t : Tally}
    (h : Reflects l t.pending) (hall : ∀ b ∈ t.batches, Explains b.1 b.2) :
    Reflects (step l call wall).1 (t.add (step l call wall).2).pending ∧
      (∀ b ∈ (t.add (step l call wall).2).batches, Explains b.1 b.2) ∧
      (t.add (step l call wall).2).total = t.total + if call.isEvent then 1 else 0 := by
  cases call with
  | roll now => exact reflects_roll now wall h hall
  | takeSuppressed => exact reflects_takeSuppressed wall h hall
  | onEvent now source =>
    obtain ⟨hreflects, hbatches, htotal⟩ := reflects_roll now wall h hall
    have hstep : step l (.onEvent now source) wall =
        ((onEvent l now source wall).1, ⟨.onEvent now source, (onEvent l now source wall).2.record,
          (onEvent l now source wall).2.flushedSuppressed⟩) := rfl
    rw [hstep]
    unfold onEvent
    generalize roll l now wall = rolled at hreflects hbatches htotal ⊢
    obtain ⟨l', flushed⟩ := rolled
    dsimp only at hreflects hbatches htotal ⊢
    by_cases hroom : l'.recorded < l'.max
    · rw [if_pos hroom]
      refine ⟨⟨hreflects.count, hreflects.nodup, hreflects.subset, hreflects.complete⟩, hbatches,
        ?_⟩
      unfold Tally.total at htotal ⊢
      simp only [Tally.add, Call.isEvent, if_true]
      omega
    · rw [if_neg hroom]
      refine ⟨reflects_suppress hreflects source, hbatches, ?_⟩
      unfold Tally.total at htotal ⊢
      simp only [Tally.add, Call.isEvent, if_true, Bool.false_eq_true, if_false,
        List.length_append, List.length_singleton]
      omega

/-! ### Whole runs -/

/-- The number of events among the calls. -/
def events (calls : List (Call × WallClock)) : ℕ := (calls.filter (·.1.isEvent)).length

/-- The instants of the recorded events. -/
def recordedAt (outcomes : List Outcome) : List ℕ :=
  outcomes.filterMap fun o =>
    match o.call with
    | .onEvent now _ => if o.record then some now else none
    | _ => none

/-- The summaries that were emitted. -/
def summaries (outcomes : List Outcome) : List SuppressedSummary := outcomes.filterMap (·.flushed)

theorem reflects_run : ∀ (calls : List (Call × WallClock)) (l : AuditRateLimiter) (t : Tally),
    Reflects l t.pending → (∀ b ∈ t.batches, Explains b.1 b.2) →
      Reflects (run l calls).1 ((run l calls).2.foldl Tally.add t).pending ∧
        (∀ b ∈ ((run l calls).2.foldl Tally.add t).batches, Explains b.1 b.2) ∧
        ((run l calls).2.foldl Tally.add t).total = t.total + events calls := by
  intro calls
  induction calls with
  | nil => exact fun l t h hall => ⟨h, hall, rfl⟩
  | cons call calls ih =>
    intro l t h hall
    obtain ⟨call, wall⟩ := call
    obtain ⟨hreflects, hbatches, htotal⟩ := reflects_step call wall h hall
    obtain ⟨hreflects', hbatches', htotal'⟩ := ih _ _ hreflects hbatches
    have hevents : events ((call, wall) :: calls)
        = events calls + if call.isEvent then 1 else 0 := by
      unfold events
      rw [List.filter_cons]
      split_ifs <;> simp
    refine ⟨hreflects', hbatches', ?_⟩
    show ((run (step l call wall).1 calls).2.foldl Tally.add (t.add (step l call wall).2)).total = _
    rw [htotal', htotal, hevents]
    omega

/-- The batches of a tally belong to the summaries, in order. -/
theorem batches_foldl : ∀ (outcomes : List Outcome) (t : Tally),
    (outcomes.foldl Tally.add t).batches.map Prod.fst
      = t.batches.map Prod.fst ++ summaries outcomes := by
  intro outcomes
  induction outcomes with
  | nil => exact fun t => (List.append_nil _).symm
  | cons o outcomes ih =>
    intro t
    have hadd : (t.add o).batches = (t.flush o.flushed).batches := by
      unfold Tally.add
      dsimp only
      split
      · split_ifs <;> rfl
      · rfl
    rw [List.foldl_cons, ih, hadd]
    unfold summaries
    cases hflushed : o.flushed with
    | none => rw [List.filterMap_cons_none hflushed, Tally.flush]
    | some summary => simp [List.filterMap_cons_some hflushed, Tally.flush]

theorem recorded_foldl : ∀ (outcomes : List Outcome) (t : Tally),
    (outcomes.foldl Tally.add t).recorded = t.recorded + (recordedAt outcomes).length := by
  intro outcomes
  induction outcomes with
  | nil => exact fun t => rfl
  | cons o outcomes ih =>
    intro t
    have hflush : (t.flush o.flushed).recorded = t.recorded := by
      unfold Tally.flush
      split <;> rfl
    obtain ⟨call, record, flushed⟩ := o
    rw [List.foldl_cons, ih]
    unfold recordedAt Tally.add
    cases call with
    | roll now => simp [hflush]
    | takeSuppressed => simp [hflush]
    | onEvent now source =>
      cases record with
      | true =>
        simp [hflush]
        omega
      | false => simp [hflush]

/-- The instants of the calls, with whether an event comes with them; the shutdown has none. -/
def ticks (calls : List (Call × WallClock)) : List (ℕ × Bool) :=
  calls.filterMap fun c => c.1.instant.map fun now => (now, c.1.isEvent)

theorem windowOf_takeSuppressed (l : AuditRateLimiter) (wall : WallClock) :
    (takeSuppressed l wall).1.max = l.max ∧ (takeSuppressed l wall).1.window = l.window ∧
      (takeSuppressed l wall).1.windowStart = l.windowStart ∧
      (takeSuppressed l wall).1.recorded = l.recorded := by
  unfold takeSuppressed
  split_ifs <;> exact ⟨rfl, rfl, rfl, rfl⟩

theorem windowOf_noteSource (l : AuditRateLimiter) (ip : IpAddr) :
    (noteSource l ip).max = l.max ∧ (noteSource l ip).window = l.window ∧
      (noteSource l ip).windowStart = l.windowStart ∧
      (noteSource l ip).recorded = l.recorded := by
  unfold noteSource
  dsimp only
  split_ifs <;> exact ⟨rfl, rfl, rfl, rfl⟩

theorem onEvent_of_room {l l' : AuditRateLimiter} {now : ℕ} {wall : WallClock}
    {flushed : Option SuppressedSummary} {source : Option IpAddr}
    (hroll : roll l now wall = (l', flushed)) (hroom : l'.recorded < l'.max) :
    onEvent l now source wall = ({ l' with recorded := l'.recorded + 1 }, ⟨true, flushed⟩) := by
  unfold onEvent
  rw [hroll]
  exact if_pos hroom

theorem onEvent_of_not_room {l l' : AuditRateLimiter} {now : ℕ} {wall : WallClock}
    {flushed : Option SuppressedSummary} {source : Option IpAddr}
    (hroll : roll l now wall = (l', flushed)) (hroom : ¬ l'.recorded < l'.max) :
    onEvent l now source wall = (match source with
      | some ip => noteSource { l' with suppressed := min (l'.suppressed + 1) u64Max } ip
      | none => { l' with suppressed := min (l'.suppressed + 1) u64Max }, ⟨false, flushed⟩) := by
  unfold onEvent
  rw [hroll]
  exact if_neg hroom

/-- What an event adds to the recorded ones, once the window is rolled. -/
theorem recordedAt_onEvent {l l' : AuditRateLimiter} {now : ℕ} {wall : WallClock}
    {flushed : Option SuppressedSummary} {source : Option IpAddr} {later : List (ℕ × Bool)}
    (hroll : roll l now wall = (l', flushed)) (hmax : l'.max = l.max)
    (hwindow : l'.window = l.window) :
    recordedAt [(step l (.onEvent now source) wall).2]
      ++ admitted (onEvent l now source wall).1.max (onEvent l now source wall).1.window
        (onEvent l now source wall).1.windowStart (onEvent l now source wall).1.recorded later
    = if l'.recorded < l.max then
        now :: admitted l.max l.window l'.windowStart (l'.recorded + 1) later
      else admitted l.max l.window l'.windowStart l'.recorded later := by
  have hstep : (step l (.onEvent now source) wall).2 = ⟨.onEvent now source,
      (onEvent l now source wall).2.record, (onEvent l now source wall).2.flushedSuppressed⟩ := rfl
  rw [hstep, ← hmax, ← hwindow]
  by_cases hroom : l'.recorded < l'.max
  · rw [onEvent_of_room hroll hroom, if_pos hroom]
    rfl
  · rw [onEvent_of_not_room hroll hroom, if_neg hroom]
    cases source with
    | none => rfl
    | some ip =>
      have hnote := windowOf_noteSource { l' with suppressed := min (l'.suppressed + 1) u64Max } ip
      dsimp only at hnote ⊢
      rw [hnote.1, hnote.2.1, hnote.2.2.1, hnote.2.2.2]
      rfl

/-- **The limiter records the events that a fixed window admits.** -/
theorem recordedAt_run : ∀ (calls : List (Call × WallClock)) (l : AuditRateLimiter),
    recordedAt (run l calls).2 = admitted l.max l.window l.windowStart l.recorded
      (ticks calls) := by
  intro calls
  induction calls with
  | nil => exact fun l => rfl
  | cons call calls ih =>
    intro l
    obtain ⟨call, wall⟩ := call
    have hrun : recordedAt (run l ((call, wall) :: calls)).2
        = recordedAt [(step l call wall).2] ++ recordedAt (run (step l call wall).1 calls).2 :=
      List.filterMap_append (l := [(step l call wall).2])
    have htake := windowOf_takeSuppressed l wall
    rw [hrun, ih]
    cases call with
    | takeSuppressed =>
      show [] ++ admitted (takeSuppressed l wall).1.max (takeSuppressed l wall).1.window
        (takeSuppressed l wall).1.windowStart (takeSuppressed l wall).1.recorded (ticks calls) = _
      rw [htake.1, htake.2.1, htake.2.2.1, htake.2.2.2]
      rfl
    | roll now =>
      show [] ++ admitted (roll l now wall).1.max (roll l now wall).1.window
        (roll l now wall).1.windowStart (roll l now wall).1.recorded (ticks calls)
          = admitted l.max l.window l.windowStart l.recorded ((now, false) :: ticks calls)
      rw [admitted, List.nil_append]
      unfold roll
      by_cases hinside : now - l.windowStart < l.window
      · rw [if_pos hinside, if_neg (by omega : ¬ l.window ≤ now - l.windowStart), if_neg (by simp)]
      · rw [if_neg hinside, if_pos (by omega : l.window ≤ now - l.windowStart), if_neg (by simp)]
        dsimp only
        rw [htake.1, htake.2.1]
    | onEvent now source =>
      show recordedAt [(step l (.onEvent now source) wall).2]
        ++ admitted (onEvent l now source wall).1.max (onEvent l now source wall).1.window
          (onEvent l now source wall).1.windowStart (onEvent l now source wall).1.recorded
            (ticks calls)
          = admitted l.max l.window l.windowStart l.recorded ((now, true) :: ticks calls)
      rw [admitted]
      by_cases hinside : now - l.windowStart < l.window
      · have hroll : roll l now wall = (l, none) := by
          unfold roll
          rw [if_pos hinside]
        rw [recordedAt_onEvent hroll rfl rfl, if_neg (by omega : ¬ l.window ≤ now - l.windowStart)]
        simp
      · have hroll : (roll l now wall).1.max = l.max ∧ (roll l now wall).1.window = l.window ∧
            (roll l now wall).1.windowStart = now ∧ (roll l now wall).1.recorded = 0 := by
          unfold roll
          rw [if_neg hinside]
          exact ⟨htake.1, htake.2.1, rfl, rfl⟩
        rw [recordedAt_onEvent (Prod.mk.eta (p := roll l now wall)).symm hroll.1 hroll.2.1,
          hroll.2.2.1, hroll.2.2.2, if_pos (by omega : l.window ≤ now - l.windowStart)]
        simp

theorem ticks_map_fst (calls : List (Call × WallClock)) :
    (ticks calls).map Prod.fst = calls.filterMap (·.1.instant) := by
  unfold ticks
  rw [List.map_filterMap]
  congr 1
  funext c
  cases c.1.instant <;> rfl

/-- **No event is lost or reported twice, as long as a count does not stop at `2 ^ 64 - 1`; an
interval of length `window` has at most `2 * max` recorded events; and a summary has the number of
the sources it counts.** -/
theorem auditRateLimiter_spec (now : ℕ) (wall : ℤ) (max window : ℕ)
    (calls : List (Call × WallClock)) (hwindow : 0 < window)
    (hordered : (calls.filterMap (·.1.instant)).Pairwise (· ≤ ·)) :
    let r := run (AuditRateLimiter.new now wall max window) calls
    ((∀ b ∈ (tally r.2).batches, b.2.length ≤ u64Max) → (tally r.2).pending.length ≤ u64Max →
      events calls = (recordedAt r.2).length + ((summaries r.2).map (·.count)).sum
        + r.1.suppressed) ∧
      (∀ low high, high ≤ low + window → inside low high (recordedAt r.2) ≤ 2 * max) ∧
      (tally r.2).batches.map Prod.fst = summaries r.2 ∧
      (∀ b ∈ (tally r.2).batches, Explains b.1 b.2) ∧
      r.1.suppressed = min (tally r.2).pending.length u64Max ∧
      (tally r.2).total = events calls := by
  intro r
  have hstart : Reflects (AuditRateLimiter.new now wall max window) [] :=
    ⟨by simp [AuditRateLimiter.new], List.nodup_nil, by simp [AuditRateLimiter.new],
      fun _ => by simp [keys]⟩
  obtain ⟨hreflects, hbatches, htotal⟩ :=
    reflects_run calls (AuditRateLimiter.new now wall max window) ⟨0, [], []⟩ hstart (by simp)
  have hsummaries : (tally r.2).batches.map Prod.fst = summaries r.2 := batches_foldl r.2 _
  have hrecorded : (tally r.2).recorded = (recordedAt r.2).length := by
    have h := recorded_foldl r.2 ⟨0, [], []⟩
    rwa [Nat.zero_add] at h
  have htotal' : (tally r.2).total = events calls := by
    have h : (tally r.2).total = (Tally.mk 0 [] []).total + events calls := htotal
    rwa [show (Tally.mk 0 [] []).total = 0 from rfl, Nat.zero_add] at h
  refine ⟨fun hcounts hpending => ?_, fun low high hhigh => ?_, hsummaries, hbatches,
    hreflects.count, htotal'⟩
  · have hsum : ((summaries r.2).map (·.count)).sum
        = ((tally r.2).batches.map fun b => b.2.length).sum := by
      rw [← hsummaries, List.map_map]
      congr 1
      apply List.map_congr_left
      intro b hb
      have hcount := (hbatches b hb).count
      have hle := hcounts b hb
      show b.1.count = b.2.length
      omega
    have hcount : r.1.suppressed = (tally r.2).pending.length := by
      have h : r.1.suppressed = min (tally r.2).pending.length u64Max := hreflects.count
      omega
    rw [← htotal', Tally.total, hrecorded, hsum, hcount]
  · have hticks : Ordered (ticks calls) := by
      have h := hordered
      rw [← ticks_map_fst, List.pairwise_map] at h
      exact h
    have hadmitted : recordedAt r.2 = admitted max window now 0 (ticks calls) :=
      recordedAt_run calls (AuditRateLimiter.new now wall max window)
    rw [hadmitted]
    have hmono : inside low high (admitted max window now 0 (ticks calls))
        ≤ inside low (low + window) (admitted max window now 0 (ticks calls)) := by
      apply List.countP_mono_left
      intro a _ ha
      simp only [decide_eq_true_eq] at ha ⊢
      omega
    exact hmono.trans (inside_admitted_le hticks hwindow)

/-- An event, the timer twice, and the shutdown. -/
theorem auditRateLimiter_spec_short :
    let wall : WallClock := ⟨0, 0⟩
    let calls : List (Call × WallClock) := [(.onEvent 3 none, wall), (.onEvent 3 none, wall),
      (.roll 4, wall), (.roll 9, wall), (.onEvent 9 none, wall), (.takeSuppressed, wall)]
    events calls = 3 ∧ ((run (AuditRateLimiter.new 0 0 1 5) calls).2.length = 6 ∧
      (tally (run (AuditRateLimiter.new 0 0 1 5) calls).2).total = events calls) :=
  ⟨by decide, by decide, (auditRateLimiter_spec 0 0 1 5 _ (by decide) (by decide)).2.2.2.2.2⟩

/-! ### A count that stops -/

/-- As long as the window lasts, events without a source are recorded or counted, and no summary is
emitted. -/
theorem run_flood (now : ℕ) (wall : WallClock) : ∀ (n : ℕ) (l : AuditRateLimiter),
    now - l.windowStart < l.window → l.suppressed ≤ u64Max →
      (recordedAt (run l (List.replicate n (.onEvent now none, wall))).2).length
          ≤ l.max - l.recorded ∧
        summaries (run l (List.replicate n (.onEvent now none, wall))).2 = [] ∧
        (run l (List.replicate n (.onEvent now none, wall))).1.suppressed ≤ u64Max := by
  intro n
  induction n with
  | zero => exact fun l _ hsuppressed => ⟨Nat.zero_le _, rfl, hsuppressed⟩
  | succ n ih =>
    intro l hinside hsuppressed
    have hroll : roll l now wall = (l, none) := by
      unfold roll
      rw [if_pos hinside]
    have hrun : run l (List.replicate (n + 1) (.onEvent now none, wall))
        = ((run (onEvent l now none wall).1 (List.replicate n (.onEvent now none, wall))).1,
          ⟨.onEvent now none, (onEvent l now none wall).2.record,
            (onEvent l now none wall).2.flushedSuppressed⟩
            :: (run (onEvent l now none wall).1 (List.replicate n (.onEvent now none, wall))).2) :=
      rfl
    rw [hrun]
    by_cases hroom : l.recorded < l.max
    · rw [onEvent_of_room hroll hroom]
      obtain ⟨hrecorded, hsummaries, hsuppressed'⟩ :=
        ih { l with recorded := l.recorded + 1 } hinside hsuppressed
      refine ⟨?_, hsummaries, hsuppressed'⟩
      have hlater : (recordedAt (run { l with recorded := l.recorded + 1 }
          (List.replicate n (.onEvent now none, wall))).2).length ≤ l.max - (l.recorded + 1) :=
        hrecorded
      show (recordedAt (run { l with recorded := l.recorded + 1 }
        (List.replicate n (.onEvent now none, wall))).2).length + 1 ≤ l.max - l.recorded
      omega
    · rw [onEvent_of_not_room hroll hroom]
      exact ih { l with suppressed := min (l.suppressed + 1) u64Max } hinside (Nat.min_le_right _ _)

/-- `n` events at one instant, of a limiter that records one. -/
theorem le_of_flood (n : ℕ) :
    let calls : List (Call × WallClock) := List.replicate n (.onEvent 0 none, ⟨0, 0⟩)
    let r := run (AuditRateLimiter.new 0 0 1 1) calls
    (calls.filterMap (·.1.instant)).Pairwise (· ≤ ·) ∧ events calls = n ∧
      (recordedAt r.2).length + ((summaries r.2).map (·.count)).sum + r.1.suppressed
        ≤ 1 + u64Max := by
  intro calls r
  obtain ⟨hrecorded, hsummaries, hsuppressed⟩ :
      (recordedAt r.2).length ≤ 1 ∧ summaries r.2 = [] ∧ r.1.suppressed ≤ u64Max :=
    run_flood 0 ⟨0, 0⟩ n (AuditRateLimiter.new 0 0 1 1) (by decide) (by decide)
  have hevents : events calls = n := by
    show ((List.replicate n _).filter _).length = n
    rw [List.filter_replicate]
    exact List.length_replicate
  have hordered : (calls.filterMap (·.1.instant)).Pairwise (· ≤ ·) := by
    have hinstants : calls.filterMap (·.1.instant) = List.replicate n 0 :=
      List.filterMap_replicate_of_some rfl
    rw [hinstants]
    exact List.pairwise_replicate.2 (Or.inr (Nat.le_refl 0))
  refine ⟨hordered, hevents, ?_⟩
  rw [hsummaries, List.map_nil, List.sum_nil]
  omega

/-- **`2 ^ 64 + 1` events in one window of a limiter that records one: the count stops one short of
the suppressed events.** -/
theorem conservation_fails_when_saturated :
    let calls : List (Call × WallClock) := List.replicate (2 ^ 64 + 1) (.onEvent 0 none, ⟨0, 0⟩)
    let r := run (AuditRateLimiter.new 0 0 1 1) calls
    (calls.filterMap (·.1.instant)).Pairwise (· ≤ ·) ∧
      events calls ≠ (recordedAt r.2).length + ((summaries r.2).map (·.count)).sum
        + r.1.suppressed := by
  have hmax : 1 + u64Max < 2 ^ 64 + 1 := by decide
  generalize 2 ^ 64 + 1 = n at hmax ⊢
  obtain ⟨hordered, hevents, hle⟩ := le_of_flood n
  exact ⟨hordered, by omega⟩

end Ostrich.Common.AuditRateLimiter
