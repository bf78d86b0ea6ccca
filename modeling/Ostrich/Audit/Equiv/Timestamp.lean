import Ostrich.Audit.Sink

/-!
# What `applyChainTimestamp` keeps of an event

A record whose timestamp is moved behind the head of the chain keeps its original time in
`details.occurred_at`, and an `occurred_at` of the caller goes to `details.caller_occurred_at`.

Main results:
* `keepsEvent_iff`: nothing of the event is lost, exactly if it is `Keepable`: the original time has
  no part below a microsecond, or stays the timestamp, and the caller does not set both keys to
  different values;
* `caller_detail_lost`: an event whose caller sets both keys loses one of the values.
-/

namespace Ostrich.Audit

/-- The value of a key of the details. -/
def detailOf (details : Option Json) (key : String) : Option Json := details.bind (Json.get? key)

/-- The text writes this time down, without rounding. -/
def Writes (text : String) (t : DateTime) : Prop :=
  text = t.toRfc3339Micros ∧ t.truncMicros = t

theorem Writes.unique {text : String} {t t' : DateTime} (h : Writes text t) (h' : Writes text t') :
    t = t' := by
  rw [← h.2, ← h'.2]
  exact DateTime.truncMicros_eq_of_toRfc3339Micros (h.1.symm.trans h'.1)

/-- The event time that a record tells: the time in `occurred_at`, or its timestamp if there is no
such key. -/
def Tells (record : AuditEvent) (t : DateTime) : Prop :=
  match detailOf record.details occurredAtDetail with
  | some (.string text) => Writes text t
  | some _ => False
  | none => t = record.timestamp

theorem Tells.unique {record : AuditEvent} {t t' : DateTime} (h : Tells record t)
    (h' : Tells record t') : t = t' := by
  unfold Tells at h h'
  generalize detailOf record.details occurredAtDetail = value at h h'
  match value, h, h' with
  | some (.string _), h, h' => exact h.unique h'
  | none, h, h' => exact h.trans h'.symm

/-- Nothing of `event` is lost in `linked`, the event at its place in the chain. -/
structure KeepsEvent (event linked : AuditEvent) : Prop where
  /-- The original time can be told. -/
  time : Tells linked event.timestamp
  /-- There is an `occurred_at` exactly if the timestamp was moved … -/
  moved : (detailOf linked.details occurredAtDetail).isSome ↔ linked.timestamp ≠ event.timestamp
  /-- … and it is the original time. -/
  occurredAt : ∀ value, detailOf linked.details occurredAtDetail = some value →
    ∃ text, value = .string text ∧ Writes text event.timestamp
  details : ∀ key value, key ≠ occurredAtDetail → detailOf event.details key = some value →
    detailOf linked.details key = some value
  /-- An `occurred_at` of the caller other than the one of the sink is under its own key. -/
  caller : ∀ value, detailOf event.details occurredAtDetail = some value →
    detailOf linked.details occurredAtDetail ≠ some value →
    detailOf linked.details callerOccurredAtDetail = some value

/-! ### The timestamp -/

/-- The event is not later than the head, so its timestamp is moved. -/
def Behind (event : AuditEvent) (head : Option DateTime) : Prop :=
  ∃ last, head = some last ∧ event.timestamp ≤ last

theorem behind_iff {event : AuditEvent} {head : Option DateTime} {next : DateTime}
    (h : chainTimestamp event.timestamp head = some next) :
    next ≠ event.timestamp ↔ Behind event head := by
  unfold chainTimestamp at h
  cases head with
  | none =>
    obtain rfl := Option.some.inj h
    constructor
    · intro hne
      exact absurd rfl hne
    · rintro ⟨last, hlast, -⟩
      cases hlast
  | some last =>
    dsimp only at h
    by_cases hle : event.timestamp ≤ last
    · rw [if_pos hle] at h
      have hlt := DateTime.lt_of_le_of_lt hle (DateTime.lt_of_addMicro h)
      refine iff_of_true ?_ ⟨last, rfl, hle⟩
      rintro rfl
      exact DateTime.lt_irrefl _ hlt
    · rw [if_neg hle] at h
      refine iff_of_false (fun hne => hne (Option.some.inj h).symm) ?_
      rintro ⟨last', hlast, hle'⟩
      obtain rfl := Option.some.inj hlast
      exact hle hle'

/-! ### The details -/

/-- Details as `serde_json` makes them: the keys of an object are distinct. -/
def WellFormed (details : Option Json) : Prop :=
  ∀ members, details = some (.object members) → Members.Distinct members

/-- The value of the sink for `occurred_at`. -/
def sinkValue (occurredAt : Option String) : Option Json := occurredAt.map .string

theorem detailOf_of_not_object {details : Option Json}
    (h : ∀ members, details ≠ some (.object members)) (key : String) :
    detailOf details key = none := by
  cases details with
  | none => rfl
  | some json =>
    cases json with
    | object members => exact absurd rfl (h members)
    | _ => rfl

theorem detailOf_moveCallerDetail_occurredAt {details : Option Json} (hwf : WellFormed details)
    (occurredAt : Option String) :
    detailOf (moveCallerDetail details occurredAt) occurredAtDetail = none := by
  unfold moveCallerDetail
  split
  · rename_i members
    split
    · rename_i hremove
      exact Members.remove_eq_none hremove
    · rename_i caller rest hremove
      have hrest := (Members.remove_eq_some hremove (hwf _ rfl)).2 occurredAtDetail
      rw [if_pos rfl] at hrest
      dsimp only
      split_ifs
      · exact hrest
      · refine (Members.get?_insert ..).trans ?_
        rw [if_neg (by decide)]
        exact hrest
  · rename_i h
    exact detailOf_of_not_object (fun members hmembers => h members hmembers) _

theorem detailOf_moveCallerDetail {details : Option Json} (hwf : WellFormed details)
    (occurredAt : Option String) {key : String} (hkey : key ≠ occurredAtDetail)
    (hcaller : key ≠ callerOccurredAtDetail) :
    detailOf (moveCallerDetail details occurredAt) key = detailOf details key := by
  unfold moveCallerDetail
  split
  · rename_i members
    split
    · rfl
    · rename_i caller rest hremove
      have hrest := (Members.remove_eq_some hremove (hwf _ rfl)).2 key
      rw [if_neg hkey.symm] at hrest
      dsimp only
      split_ifs
      · exact hrest
      · refine (Members.get?_insert ..).trans ?_
        rw [if_neg hcaller.symm]
        exact hrest
  · rfl

/-- The key for the caller's value: that value if it is not the one of the sink. -/
theorem detailOf_moveCallerDetail_caller {details : Option Json} (hwf : WellFormed details)
    (occurredAt : Option String) :
    (∀ value, detailOf details occurredAtDetail = some value → sinkValue occurredAt ≠ some value →
      detailOf (moveCallerDetail details occurredAt) callerOccurredAtDetail = some value) ∧
    ((∀ value, detailOf details occurredAtDetail = some value →
        sinkValue occurredAt = some value) →
      detailOf (moveCallerDetail details occurredAt) callerOccurredAtDetail =
        detailOf details callerOccurredAtDetail) := by
  unfold moveCallerDetail
  split
  · rename_i members
    split
    · rename_i hremove
      have habsent : detailOf (some (.object members)) occurredAtDetail = none :=
        Members.remove_eq_none hremove
      refine ⟨fun value hvalue => ?_, fun _ => rfl⟩
      rw [habsent] at hvalue
      cases hvalue
    · rename_i caller rest hremove
      obtain ⟨hcaller, hrest⟩ := Members.remove_eq_some hremove (hwf _ rfl)
      have hcaller' : detailOf (some (.object members)) occurredAtDetail = some caller := hcaller
      have hkept := hrest callerOccurredAtDetail
      rw [if_neg (by decide)] at hkept
      dsimp only
      split_ifs with hsame
      · have hsink : sinkValue occurredAt = some caller := by
          cases caller <;> simp_all [sinkValue]
        refine ⟨fun value hvalue hne => ?_, fun _ => hkept⟩
        rw [hcaller'] at hvalue
        exact absurd (hsink.trans hvalue) hne
      · have hsink : sinkValue occurredAt ≠ some caller := by
          cases caller <;> simp_all [sinkValue]
        refine ⟨fun value hvalue _ => ?_, fun hall => absurd (hall _ hcaller') hsink⟩
        rw [hcaller'] at hvalue
        refine (Members.get?_insert ..).trans ?_
        rw [if_pos rfl]
        exact hvalue
  · rename_i h
    have hnone := detailOf_of_not_object fun members hmembers => h members hmembers
    refine ⟨fun value hvalue => ?_, fun _ => rfl⟩
    rw [hnone] at hvalue
    cases hvalue

theorem detailOf_addOccurredAt_occurredAt (details : Option Json) (text : String) :
    detailOf (some (addOccurredAt details text)) occurredAtDetail = some (.string text) := by
  unfold addOccurredAt
  split
  · exact (Members.get?_insert ..).trans (if_pos rfl)
  · rfl
  · rename_i other _
    show Members.get? occurredAtDetail
      (Members.insert occurredAtDetail (.string text) [("details", other)]) = _
    rw [Members.get?_insert, if_pos rfl]

theorem detailOf_addOccurredAt {details : Option Json} {text key : String} {value : Json}
    (hkey : key ≠ occurredAtDetail) (h : detailOf details key = some value) :
    detailOf (some (addOccurredAt details text)) key = some value := by
  unfold addOccurredAt
  split
  · refine (Members.get?_insert ..).trans ?_
    rw [if_neg hkey.symm]
    exact h
  · cases h
  · rename_i other hother
    have hnone : detailOf (some other) key = none :=
      detailOf_of_not_object (fun members h => hother members (Option.some.inj h)) key
    rw [hnone] at h
    cases h

/-! ### What is kept -/

/-- The value that the sink has for `occurred_at`. -/
def sinkOccurredAt (event : AuditEvent) (head : Option DateTime) (value : Json) : Prop :=
  Behind event head ∧ value = .string event.timestamp.toRfc3339Micros

/-- The original time has no part below a microsecond or is not moved, and the caller does not set
`occurred_at` and `caller_occurred_at` to different values, unless the first is that of the sink. -/
def Keepable (event : AuditEvent) (head : Option DateTime) : Prop :=
  (Behind event head → event.timestamp.truncMicros = event.timestamp) ∧
  ∀ value value', detailOf event.details occurredAtDetail = some value →
    detailOf event.details callerOccurredAtDetail = some value' →
    value = value' ∨ sinkOccurredAt event head value

/-- The details of a record that is not moved, and of one that is. -/
theorem applyChainTimestamp_cases {event linked : AuditEvent} {head : Option DateTime}
    (h : applyChainTimestamp event head = some linked) :
    (¬Behind event head ∧ linked.timestamp = event.timestamp ∧
      linked.details = moveCallerDetail event.details none) ∨
    (Behind event head ∧ linked.timestamp ≠ event.timestamp ∧
      linked.details = some (addOccurredAt
        (moveCallerDetail event.details (some event.timestamp.toRfc3339Micros))
        event.timestamp.toRfc3339Micros)) := by
  obtain ⟨next, hnext, h⟩ := Option.map_eq_some_iff.mp h
  have hbehind := behind_iff hnext
  by_cases hmoved : next ≠ event.timestamp
  · simp only [if_pos hmoved] at h
    obtain rfl := h
    exact .inr ⟨hbehind.mp hmoved, hmoved, rfl⟩
  · simp only [if_neg hmoved] at h
    obtain rfl := h
    exact .inl ⟨mt hbehind.mpr hmoved, not_ne_iff.mp hmoved, rfl⟩

section

variable {event linked : AuditEvent} {head : Option DateTime}

theorem keepsEvent_of_not_behind (hwf : WellFormed event.details) (hnot : ¬Behind event head)
    (htime : linked.timestamp = event.timestamp)
    (hdetails : linked.details = moveCallerDetail event.details none) :
    KeepsEvent event linked ↔ Keepable event head := by
  have habsent : detailOf linked.details occurredAtDetail = none := by
    rw [hdetails, detailOf_moveCallerDetail_occurredAt hwf]
  obtain ⟨hcaller, hkept⟩ := detailOf_moveCallerDetail_caller hwf none
  rw [← hdetails] at hcaller hkept
  constructor
  · intro hkeeps
    refine ⟨fun hbehind => absurd hbehind hnot, fun value value' hvalue hvalue' => .inl ?_⟩
    have hmoved := hcaller value hvalue nofun
    rw [hkeeps.details _ _ (by decide) hvalue'] at hmoved
    exact (Option.some.inj hmoved).symm
  · rintro ⟨-, hsame⟩
    refine ⟨?_, ?_, ?_, ?_, fun value hvalue _ => hcaller value hvalue nofun⟩
    · unfold Tells
      rw [habsent]
      exact htime.symm
    · rw [habsent, htime]
      simp
    · intro value hvalue
      rw [habsent] at hvalue
      cases hvalue
    · intro key value hkey hvalue
      by_cases hcallerKey : key = callerOccurredAtDetail
      · subst hcallerKey
        cases hoccurred : detailOf event.details occurredAtDetail with
        | none =>
          rw [hkept (fun v hv => by rw [hoccurred] at hv; cases hv)]
          exact hvalue
        | some caller =>
          rw [hcaller caller hoccurred nofun]
          rcases hsame caller value hoccurred hvalue with rfl | hsink
          · rfl
          · exact absurd hsink.1 hnot
      · rw [hdetails, detailOf_moveCallerDetail hwf none hkey hcallerKey]
        exact hvalue

theorem keepsEvent_of_behind (hwf : WellFormed event.details) (hbehind : Behind event head)
    (htime : linked.timestamp ≠ event.timestamp)
    (hdetails : linked.details = some (addOccurredAt
      (moveCallerDetail event.details (some event.timestamp.toRfc3339Micros))
      event.timestamp.toRfc3339Micros)) :
    KeepsEvent event linked ↔ Keepable event head := by
  have hoccurred : detailOf linked.details occurredAtDetail =
      some (.string event.timestamp.toRfc3339Micros) := by
    rw [hdetails, detailOf_addOccurredAt_occurredAt]
  obtain ⟨hcaller, hkept⟩ :=
    detailOf_moveCallerDetail_caller hwf (some event.timestamp.toRfc3339Micros)
  have hcaller' (value : Json) (hvalue : detailOf event.details occurredAtDetail = some value)
      (hne : value ≠ .string event.timestamp.toRfc3339Micros) :
      detailOf linked.details callerOccurredAtDetail = some value := by
    rw [hdetails]
    refine detailOf_addOccurredAt (by decide) (hcaller value hvalue fun hsink => hne ?_)
    exact (Option.some.inj hsink).symm
  constructor
  · intro hkeeps
    constructor
    · intro _
      obtain ⟨text, htext, hwrites⟩ := hkeeps.occurredAt _ hoccurred
      exact hwrites.2
    · intro value value' hvalue hvalue'
      by_cases hsink : value = .string event.timestamp.toRfc3339Micros
      · exact .inr ⟨hbehind, hsink⟩
      · left
        have hmoved := hcaller' value hvalue hsink
        rw [hkeeps.details _ _ (by decide) hvalue'] at hmoved
        exact (Option.some.inj hmoved).symm
  · rintro ⟨htrunc, hsame⟩
    have hwrites : Writes event.timestamp.toRfc3339Micros event.timestamp :=
      ⟨rfl, htrunc hbehind⟩
    refine ⟨?_, ?_, ?_, ?_, ?_⟩
    · unfold Tells
      rw [hoccurred]
      exact hwrites
    · rw [hoccurred]
      exact iff_of_true rfl htime
    · intro value hvalue
      rw [hoccurred] at hvalue
      exact ⟨_, (Option.some.inj hvalue).symm, hwrites⟩
    · intro key value hkey hvalue
      by_cases hcallerKey : key = callerOccurredAtDetail
      · subst hcallerKey
        by_cases hnew : ∃ caller, detailOf event.details occurredAtDetail = some caller ∧
            caller ≠ .string event.timestamp.toRfc3339Micros
        · obtain ⟨caller, hset, hne⟩ := hnew
          rw [hcaller' caller hset hne]
          rcases hsame caller value hset hvalue with rfl | hsink
          · rfl
          · exact absurd hsink.2 hne
        · rw [hdetails]
          refine detailOf_addOccurredAt hkey ?_
          rw [hkept fun v hv => ?_]
          · exact hvalue
          · by_contra hne
            refine hnew ⟨v, hv, fun heq => hne ?_⟩
            rw [heq]
            rfl
      · rw [hdetails]
        refine detailOf_addOccurredAt hkey ?_
        rw [detailOf_moveCallerDetail hwf _ hkey hcallerKey]
        exact hvalue
    · intro value hvalue hne
      refine hcaller' value hvalue fun heq => hne ?_
      rw [hoccurred, heq]

end

/-- **Nothing of an event is lost** on its way into the chain, exactly if it is keepable. -/
theorem keepsEvent_iff (event linked : AuditEvent) (head : Option DateTime)
    (hwf : WellFormed event.details) (h : applyChainTimestamp event head = some linked) :
    KeepsEvent event linked ↔ Keepable event head := by
  rcases applyChainTimestamp_cases h with ⟨hnot, htime, hdetails⟩ | ⟨hbehind, htime, hdetails⟩
  · exact keepsEvent_of_not_behind hwf hnot htime hdetails
  · exact keepsEvent_of_behind hwf hbehind htime hdetails

/-- An event with these details, one second after 1970. -/
def eventWith (members : Members) : AuditEvent where
  id := ⟨1⟩
  eventType := .CertificateIssuance
  actor := "ca"
  target := "leaf"
  action := "issue"
  outcome := .Success
  details := some (.object members)
  ipAddress := none
  userAgent := none
  sessionId := none
  previousHash := none
  eventHash := []
  timestamp := .ofMicros 1000000
  signature := none
  signingKeyId := none

/-- An event that is moved behind the head, with an `occurred_at` of its caller. -/
theorem keepsEvent_iff_moved :
    let event := eventWith [("occurred_at", .string "noon"), ("serial", .string "7")]
    ∃ linked, applyChainTimestamp event (some (.ofMicros 2000000)) = some linked ∧
      linked.timestamp = .ofMicros 2000001 ∧ KeepsEvent event linked := by
  intro event
  have hwf : WellFormed event.details := by
    intro members hmembers
    obtain rfl := Json.object.inj (Option.some.inj hmembers)
    decide
  refine ⟨_, rfl, by decide, (keepsEvent_iff event _ (some (.ofMicros 2000000)) hwf rfl).mpr ?_⟩
  refine ⟨fun _ => by decide, fun value value' _ hvalue' => ?_⟩
  cases hvalue'

/-- A caller that sets both keys loses its `caller_occurred_at`. -/
theorem caller_detail_lost :
    let event := eventWith [("caller_occurred_at", .string "dawn"), ("occurred_at", .string "noon")]
    ∃ linked, WellFormed event.details ∧ applyChainTimestamp event none = some linked ∧
      detailOf event.details callerOccurredAtDetail = some (.string "dawn") ∧
      detailOf linked.details callerOccurredAtDetail = some (.string "noon") ∧
      ¬KeepsEvent event linked := by
  intro event
  refine ⟨_, ?_, rfl, rfl, rfl, fun hkeeps => ?_⟩
  · intro members hmembers
    obtain rfl := Json.object.inj (Option.some.inj hmembers)
    decide
  · have hkept := hkeeps.details callerOccurredAtDetail (.string "dawn") (by decide) rfl
    have hmoved : some (Json.string "noon") = some (.string "dawn") := hkept
    simp at hmoved

end Ostrich.Audit
