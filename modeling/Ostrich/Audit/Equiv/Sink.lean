import Ostrich.Audit.Equiv.Hash
import Ostrich.Audit.Sink

/-!
# What one `record` call does

`Kept` says of an event that the columns of the table keep it: no text is too long by blanks only,
and the JSONB column gives back the numbers of its details.  The row of such an event is refused or
stored as it is (`stored_eq`).  `Placed` says that its timestamp is no leap second, or is moved
behind the head of the chain.

`sinkSpec` is the specification of a `record` call: the row that it commits is `Prepared` for the
head of the chain that it read, and a call that fails before its commit inserted nothing
(`record_meets`).
-/

namespace Ostrich.Audit

open Interleave

/-! ### Columns -/

/-- The column keeps the text as it is, unless it refuses it. -/
def KeepsText (n : ℕ) (text : String) : Prop := ∀ kept, varchar n text = some kept → kept = text

theorem keepsText_iff {n : ℕ} {text : String} : KeepsText n text ↔
    text.toList.length ≤ n ∨ '\x00' ∈ text.toList ∨
      (text.toList.drop n).all (· = ' ') = false := by
  unfold KeepsText varchar
  dsimp only
  constructor
  · intro h
    by_cases hzero : '\x00' ∈ text.toList
    · exact .inr (.inl hzero)
    by_cases hlen : text.toList.length ≤ n
    · exact .inl hlen
    refine .inr (.inr (Bool.eq_false_iff.mpr fun hblanks => hlen ?_))
    rw [if_neg hzero, if_neg hlen, if_pos hblanks] at h
    have htake := congrArg String.toList (h _ rfl)
    rw [String.toList_ofList] at htake
    have := congrArg List.length htake
    rw [List.length_take] at this
    omega
  · rintro h kept hkept
    split_ifs at hkept with hzero hlen hblanks
    · exact (Option.some.inj hkept).symm
    · rcases h with h | h | h
      · exact absurd h hlen
      · exact absurd h hzero
      · rw [hblanks] at h
        cases h

mutual

/-- Every number in the value is one that a JSONB column gives back. -/
def KeepsNumbers (number : Number → Number) : Json → Prop
  | .null => True
  | .bool _ => True
  | .number n => number n = n
  | .string _ => True
  | .array items => KeepsItems number items
  | .object members => KeepsMembers number members

def KeepsItems (number : Number → Number) : List Json → Prop
  | [] => True
  | item :: items => KeepsNumbers number item ∧ KeepsItems number items

def KeepsMembers (number : Number → Number) : List (String × Json) → Prop
  | [] => True
  | (_, value) :: members => KeepsNumbers number value ∧ KeepsMembers number members

end

theorem textColumn_eq_some {text kept : String} (h : textColumn text = some kept) :
    kept = text := by
  unfold textColumn at h
  split_ifs at h
  exact (Option.some.inj h).symm

section

variable {number : Number → Number}

mutual

theorem jsonb_eq_some : ∀ (json : Json) {kept : Json}, KeepsNumbers number json →
    jsonb number json = some kept → kept = json
  | .null, kept, _, h => (Option.some.inj h).symm
  | .bool b, kept, _, h => (Option.some.inj h).symm
  | .number n, kept, hkeeps, h => by
    rw [← Option.some.inj h, show number n = n from hkeeps]
  | .string s, kept, _, h => by
    obtain ⟨text, htext, rfl⟩ := Option.map_eq_some_iff.mp h
    rw [textColumn_eq_some htext]
  | .array items, kept, hkeeps, h => by
    obtain ⟨items', hitems, rfl⟩ := Option.map_eq_some_iff.mp h
    rw [jsonbItems_eq_some items hkeeps hitems]
  | .object members, kept, hkeeps, h => by
    obtain ⟨members', hmembers, rfl⟩ := Option.map_eq_some_iff.mp h
    rw [jsonbMembers_eq_some members hkeeps hmembers]

theorem jsonbItems_eq_some : ∀ (items : List Json) {kept : List Json}, KeepsItems number items →
    jsonbItems number items = some kept → kept = items
  | [], kept, _, h => (Option.some.inj h).symm
  | item :: items, kept, hkeeps, h => by
    obtain ⟨item', hitem, h⟩ := Option.bind_eq_some_iff.mp h
    obtain ⟨items', hitems, h⟩ := Option.bind_eq_some_iff.mp h
    rw [← Option.some.inj h, jsonb_eq_some item hkeeps.1 hitem,
      jsonbItems_eq_some items hkeeps.2 hitems]

theorem jsonbMembers_eq_some : ∀ (members : List (String × Json)) {kept : List (String × Json)},
    KeepsMembers number members → jsonbMembers number members = some kept → kept = members
  | [], kept, _, h => (Option.some.inj h).symm
  | (key, value) :: members, kept, hkeeps, h => by
    obtain ⟨key', hkey, h⟩ := Option.bind_eq_some_iff.mp h
    obtain ⟨value', hvalue, h⟩ := Option.bind_eq_some_iff.mp h
    obtain ⟨members', hmembers, h⟩ := Option.bind_eq_some_iff.mp h
    rw [← Option.some.inj h, textColumn_eq_some hkey, jsonb_eq_some value hkeeps.1 hvalue,
      jsonbMembers_eq_some members hkeeps.2 hmembers]

end

theorem KeepsMembers.insert (key : String) {value : Json} (hvalue : KeepsNumbers number value) :
    ∀ {members : Members}, KeepsMembers number members →
      KeepsMembers number (Members.insert key value members)
  | [], _ => ⟨hvalue, trivial⟩
  | (k, v) :: members, h => by
    rw [Members.insert]
    split_ifs
    · exact ⟨hvalue, h.2⟩
    · exact ⟨hvalue, h⟩
    · exact ⟨h.1, KeepsMembers.insert key hvalue h.2⟩

theorem KeepsMembers.remove {key : String} : ∀ {members rest : Members} {value : Json},
    KeepsMembers number members → Members.remove key members = some (value, rest) →
      KeepsNumbers number value ∧ KeepsMembers number rest
  | [], _, _, _, h => by cases h
  | (k, v) :: members, rest, value, hkeeps, h => by
    rw [Members.remove] at h
    split_ifs at h with hk
    · obtain ⟨rfl, rfl⟩ := Prod.mk.inj (Option.some.inj h)
      exact hkeeps
    · obtain ⟨⟨found, rest'⟩, hfound, hpair⟩ := Option.map_eq_some_iff.mp h
      obtain ⟨rfl, rfl⟩ := Prod.mk.inj hpair
      obtain ⟨hvalue, hrest⟩ := KeepsMembers.remove hkeeps.2 hfound
      exact ⟨hvalue, hkeeps.1, hrest⟩

/-- What holds of optional details. -/
def KeepsDetails (number : Number → Number) (details : Option Json) : Prop :=
  ∀ json, details = some json → KeepsNumbers number json

theorem KeepsDetails.moveCallerDetail {details : Option Json} {occurredAt : Option String}
    (h : KeepsDetails number details) :
    KeepsDetails number (moveCallerDetail details occurredAt) := by
  unfold Audit.moveCallerDetail
  split
  · rename_i members
    split
    · exact h
    · rename_i caller rest hremove
      obtain ⟨hcaller, hrest⟩ := KeepsMembers.remove (h _ rfl) hremove
      dsimp only
      intro json hjson
      split_ifs at hjson
      · obtain rfl := Option.some.inj hjson
        exact hrest
      · obtain rfl := Option.some.inj hjson
        exact KeepsMembers.insert _ hcaller hrest
  · exact h

theorem keepsNumbers_addOccurredAt {details : Option Json} {occurredAt : String}
    (h : KeepsDetails number details) : KeepsNumbers number (addOccurredAt details occurredAt) := by
  unfold addOccurredAt
  split
  · exact KeepsMembers.insert _ (by trivial) (h _ rfl)
  · exact ⟨trivial, trivial⟩
  · exact KeepsMembers.insert _ (by trivial) ⟨h _ rfl, trivial⟩

end

/-! ### The row of an event -/

/-- The columns of the table keep the texts and the details of the event as they are. -/
structure Kept (number : Number → Number) (event : AuditEvent) : Prop where
  actor : KeepsText 255 event.actor
  target : KeepsText 255 event.target
  action : KeepsText 100 event.action
  details : KeepsDetails number event.details
  ipAddress : ∀ text, event.ipAddress = some text → KeepsText 45 text
  sessionId : ∀ text, event.sessionId = some text → KeepsText 255 text

theorem nullable_eq_some {α : Type} {column : α → Option α} {value kept : Option α}
    (hcolumn : ∀ a, value = some a → ∀ k, column a = some k → k = a)
    (h : nullable column value = some kept) : kept = value := by
  cases value with
  | none => exact (Option.some.inj h).symm
  | some a =>
    obtain ⟨k, hk, rfl⟩ := Option.map_eq_some_iff.mp h
    rw [hcolumn a rfl k hk]

theorem keepsText_eventType (t : EventType) : KeepsText 100 t.asStr := by
  rw [keepsText_iff]
  cases t <;> exact .inl (by decide)

theorem keepsText_outcome (o : EventOutcome) : KeepsText 50 o.asStr := by
  rw [keepsText_iff]
  cases o <;> exact .inl (by decide)

/-- The table keeps the hashed fields, the hash and the signature of a kept event. -/
structure SameRow (kept row : Row) : Prop where
  content : kept.content = row.content
  eventHash : kept.eventHash = row.eventHash
  signature : kept.signature = row.signature

theorem timestamptz_eq_some {t kept : DateTime} (ht : t.Storable) (h : t.timestamptz = some kept) :
    kept = t := by
  unfold DateTime.timestamptz at h
  split_ifs at h
  rw [← Option.some.inj h, DateTime.ofMicros_toMicros ht]

/-- **The row of a kept event** is stored as it is, if it is not refused. -/
theorem stored_eq {env : Hashing} {event : AuditEvent} (h : Kept env.jsonbNumber event)
    (htime : event.timestamp.Storable) {kept : Row}
    (hstored : env.stored event.toDbModel = some kept) :
    SameRow kept event.toDbModel := by
  unfold Hashing.stored at hstored
  obtain ⟨eventType, h₁, hstored⟩ := Option.bind_eq_some_iff.mp hstored
  obtain ⟨actor, h₂, hstored⟩ := Option.bind_eq_some_iff.mp hstored
  obtain ⟨target, h₃, hstored⟩ := Option.bind_eq_some_iff.mp hstored
  obtain ⟨action, h₄, hstored⟩ := Option.bind_eq_some_iff.mp hstored
  obtain ⟨outcome, h₅, hstored⟩ := Option.bind_eq_some_iff.mp hstored
  obtain ⟨details, h₆, hstored⟩ := Option.bind_eq_some_iff.mp hstored
  obtain ⟨ipAddress, h₇, hstored⟩ := Option.bind_eq_some_iff.mp hstored
  obtain ⟨userAgent, h₈, hstored⟩ := Option.bind_eq_some_iff.mp hstored
  obtain ⟨sessionId, h₉, hstored⟩ := Option.bind_eq_some_iff.mp hstored
  obtain ⟨timestamp, h₁₀, hstored⟩ := Option.bind_eq_some_iff.mp hstored
  obtain ⟨signingKeyId, h₁₁, hstored⟩ := Option.bind_eq_some_iff.mp hstored
  obtain rfl := Option.some.inj hstored
  obtain rfl := keepsText_eventType event.eventType _ h₁
  obtain rfl := h.actor _ h₂
  obtain rfl := h.target _ h₃
  obtain rfl := h.action _ h₄
  obtain rfl := keepsText_outcome event.outcome _ h₅
  obtain rfl := nullable_eq_some
    (fun json hjson _ hk => jsonb_eq_some json (h.details json hjson) hk)
    h₆
  obtain rfl := nullable_eq_some (fun text htext _ hk => h.ipAddress text htext _ hk) h₇
  obtain rfl := nullable_eq_some (fun _ _ _ hk => textColumn_eq_some hk) h₈
  obtain rfl := nullable_eq_some (fun text htext _ hk => h.sessionId text htext _ hk) h₉
  obtain rfl := timestamptz_eq_some htime h₁₀
  exact ⟨rfl, rfl, rfl⟩

/-! ### Linking to the head -/

/-- The timestamp `t` is one that the table keeps, or is not later than the head. -/
def KeepsTime (t : DateTime) (head : Option DateTime) : Prop :=
  t.Storable ∨ ∃ last, head = some last ∧ t ≤ last

/-- `timestamp` comes after the head, and a database can keep it. -/
theorem chainTimestamp_eq_some {t next : DateTime} {head : Option DateTime} (ht : KeepsTime t head)
    (hhead : ∀ h, head = some h → h.Storable) (h : chainTimestamp t head = some next) :
    next.Storable ∧ ∀ h, head = some h → h < next := by
  unfold chainTimestamp at h
  split at h
  · rename_i last
    split_ifs at h with hle
    · refine ⟨DateTime.storable_of_addMicro h, fun h' hh' => ?_⟩
      obtain rfl := Option.some.inj hh'
      exact DateTime.lt_of_addMicro h
    · obtain rfl := Option.some.inj h
      have hstorable : t.Storable := by
        refine ht.resolve_right ?_
        rintro ⟨last', hlast', hle'⟩
        obtain rfl := Option.some.inj hlast'
        exact hle hle'
      refine ⟨hstorable, fun h' hh' => ?_⟩
      obtain rfl := Option.some.inj hh'
      exact DateTime.not_le.mp hle
  · obtain rfl := Option.some.inj h
    exact ⟨ht.resolve_right nofun, nofun⟩

/-- Linking an event to the head changes its timestamp and its details only. -/
theorem applyChainTimestamp_eq_some {number : Number → Number} {event linked : AuditEvent}
    {head : Option DateTime} (h : applyChainTimestamp event head = some linked) :
    chainTimestamp event.timestamp head = some linked.timestamp ∧
    (KeepsDetails number event.details → KeepsDetails number linked.details) ∧
    linked = { event with timestamp := linked.timestamp, details := linked.details } := by
  obtain ⟨timestamp, htimestamp, h⟩ := Option.map_eq_some_iff.mp h
  rw [htimestamp]
  dsimp only at h
  split at h
  · obtain rfl := h
    exact ⟨rfl, fun hkeeps => hkeeps.moveCallerDetail, rfl⟩
  · obtain rfl := h
    refine ⟨rfl, fun hkeeps json hjson => ?_, rfl⟩
    obtain rfl := Option.some.inj hjson
    exact keepsNumbers_addOccurredAt hkeeps.moveCallerDetail

/-- The event as it is linked to the head that `tx` read. -/
def startOf (event : AuditEvent) (tx : AuditAppendTx) : AuditEvent :=
  { event with timestamp := event.timestamp.truncMicros, previousHash := tx.previousHash }

/-- The event is not at a leap second, or comes no later than the head and is moved behind it. -/
def Placed (event : AuditEvent) (tx : AuditAppendTx) : Prop :=
  event.timestamp.nanos < 1000000000 ∨
    ∃ last, tx.previousTimestamp = some last ∧ event.timestamp.truncMicros ≤ last

/-- `row` is the row of `event`, linked to the head that `tx` read, hashed, and signed by the call
in `h` if there is a signer. -/
structure Prepared (env : Hashing) (signer : Option String) (event : AuditEvent)
    (tx : AuditAppendTx) (h : History Call Reply) (row : Row) : Prop where
  exists_signed : ∃ linked signed : AuditEvent,
    applyChainTimestamp (startOf event tx) tx.previousTimestamp = some linked ∧
    signed = { linked with eventHash := env.computeHash linked, signature := signed.signature,
                           signingKeyId := signed.signingKeyId } ∧
    row = signed.toDbModel
  signature : ∀ keyLabel, signer = some keyLabel → ∃ signature, row.signature = some signature ∧
    ⟨.sign row.eventHash, some (.ok signature)⟩ ∈ h

section

variable {env : Hashing} {signer : Option String} {event : AuditEvent} {tx : AuditAppendTx}
  {h : History Call Reply} {row : Row}

theorem computeEventHash_congr {a b : Row} (hcontent : a.content = b.content) :
    env.computeEventHash a = env.computeEventHash b := by
  obtain ⟨h₁, h₂, h₃, h₄, h₅, h₆, h₇, h₈, h₉, h₁₀, h₁₁, h₁₂⟩ := Content.mk.inj hcontent
  unfold Hashing.computeEventHash Hashing.hashParts
  rw [h₁, h₂, h₃, h₄, h₅, h₆, h₇, h₈, h₉, h₁₀, h₁₁, h₁₂]

/-- What the table keeps of a prepared row: it links to the head, is later, and has the hash of its
content. -/
structure Appended (env : Hashing) (tx : AuditAppendTx) (row kept : Row) : Prop where
  previousHash : kept.previousHash = tx.previousHash
  storable : kept.timestamp.Storable
  later : ∀ last, tx.previousTimestamp = some last → last < kept.timestamp
  eventHash : env.computeEventHash kept = kept.eventHash
  same : SameRow kept row

/-- **A kept event is appended to the chain**, whatever the head was. -/
theorem Prepared.appended (hprepared : Prepared env signer event tx h row)
    (hkept : Kept env.jsonbNumber event) (hplaced : Placed event tx)
    (hhead : ∀ last, tx.previousTimestamp = some last → last.Storable) {kept : Row}
    (hstored : env.stored row = some kept) : Appended env tx row kept := by
  obtain ⟨linked, signed, happly, hsigned, rfl⟩ := hprepared.exists_signed
  obtain ⟨htimestamp, hdetails, hlinked⟩ :=
    @applyChainTimestamp_eq_some env.jsonbNumber _ _ _ happly
  have htrunc : KeepsTime (startOf event tx).timestamp tx.previousTimestamp :=
    hplaced.imp_left DateTime.storable_truncMicros
  obtain ⟨hstorable, hlater⟩ := chainTimestamp_eq_some htrunc hhead htimestamp
  have hsignedKept : Kept env.jsonbNumber signed := by
    rw [hsigned, hlinked]
    exact ⟨hkept.actor, hkept.target, hkept.action, hdetails hkept.details,
      hkept.ipAddress, hkept.sessionId⟩
  have htime : signed.timestamp = linked.timestamp := by rw [hsigned]
  have hsame := stored_eq hsignedKept (htime ▸ hstorable) hstored
  have hkeptTime : kept.timestamp = linked.timestamp :=
    (congrArg Content.timestamp hsame.content).trans htime
  refine ⟨?_, ?_, ?_, ?_, hsame⟩
  · have hprevious : kept.previousHash = signed.previousHash :=
      congrArg Content.previousHash hsame.content
    rw [hprevious, hsigned, hlinked]
    rfl
  · rw [hkeptTime]
    exact hstorable
  · rw [hkeptTime]
    exact hlater
  · -- the hash does not read what was added after it
    have hhash : env.computeEventHash signed.toDbModel = signed.eventHash := by
      rw [hsigned]
      rfl
    rw [computeEventHash_congr hsame.content, hhash, hsame.eventHash]
    rfl

end

/-! ### The specification of a call -/

/-- No commit in the history put a row into the table. -/
def NothingInserted (h : History Call Reply) : Prop :=
  ∀ tx row r, ⟨.commit tx row, r⟩ ∈ h → CommitReply.applied r = false

/-- What a `record` call of `event` does: it commits a row that is prepared for the head it read,
and if it fails otherwise than by a timeout of the commit, it inserted nothing. -/
def sinkSpec (env : Hashing) (signer : Option String) :
    Spec Call Reply Error Unit AuditEvent where
  calls event h
    | .commit tx row => ⟨.beginAppend, some (.ok tx)⟩ ∈ h ∧ Prepared env signer event tx h row
    | _ => True
  result _ r h := ∀ e, r = .error e → e ≠ commitTimeout → NothingInserted h

/-- The event with its hash. -/
def withHash (env : Hashing) (linked : AuditEvent) : AuditEvent :=
  { linked with eventHash := env.computeHash linked }

theorem prepared_unsigned {env : Hashing} {event linked : AuditEvent} {tx : AuditAppendTx}
    (h : History Call Reply)
    (happly : applyChainTimestamp (startOf event tx) tx.previousTimestamp = some linked) :
    Prepared env none event tx h (withHash env linked).toDbModel :=
  ⟨⟨linked, withHash env linked, happly, rfl, rfl⟩, nofun⟩

theorem prepared_signed {env : Hashing} {keyLabel : String} {event linked : AuditEvent}
    {tx : AuditAppendTx} {h : History Call Reply} {signature : List UInt8}
    (happly : applyChainTimestamp (startOf event tx) tx.previousTimestamp = some linked)
    (hsign : ⟨.sign (withHash env linked).eventHash, some (.ok signature)⟩ ∈ h) :
    Prepared env (some keyLabel) event tx h
      (AuditEvent.toDbModel { withHash env linked with signature := some signature,
                                                       signingKeyId := some keyLabel }) :=
  ⟨⟨linked, _, happly, rfl, rfl⟩, fun _ _ => ⟨signature, rfl, hsign⟩⟩

theorem wp_commitEvent {env : Hashing} {signer : Option String} {event signed : AuditEvent}
    {tx : AuditAppendTx} {h : History Call Reply}
    (hbegin : ⟨.beginAppend, some (.ok tx)⟩ ∈ h) (hnothing : NothingInserted h)
    (hprepared : Prepared env signer event tx h signed.toDbModel) :
    (commitEvent tx signed).Wp ((sinkSpec env signer).calls event)
      ((sinkSpec env signer).result event) h := by
  refine ⟨⟨hbegin, hprepared⟩, fun reply => ?_⟩
  cases reply with
  | ok => exact nofun
  | error e =>
    intro _ _ _ tx' row' r hr
    rcases List.mem_append.mp hr with hr | hr
    · exact hnothing _ _ _ hr
    · have heq := List.mem_singleton.mp hr
      obtain ⟨hcall, hreply⟩ := Sigma.mk.inj heq
      obtain ⟨rfl, rfl⟩ := Call.commit.inj hcall
      rw [eq_of_heq hreply]
      rfl
  | timeout applied =>
    intro e he hne
    exact absurd (Except.error.inj he).symm hne

theorem nothingInserted_append {h : History Call Reply} (hnothing : NothingInserted h) {e : Call}
    {r : Reply e} (he : ∀ tx row, e ≠ .commit tx row) : NothingInserted (h ++ [⟨e, r⟩]) := by
  intro tx row r' hr
  rcases List.mem_append.mp hr with hr | hr
  · exact hnothing _ _ _ hr
  · exact absurd (Sigma.mk.inj (List.mem_singleton.mp hr)).1.symm (he tx row)

/-- Signing prepares the row, or fails with nothing inserted. -/
theorem wp_signEvent {env : Hashing} {event linked : AuditEvent} {tx : AuditAppendTx}
    {h : History Call Reply} (signer : Option String) (hnothing : NothingInserted h)
    (happly : applyChainTimestamp (startOf event tx) tx.previousTimestamp = some linked) :
    (signEvent signer (withHash env linked)).Wp ((sinkSpec env signer).calls event)
      (fun r h' => h ⊆ h' ∧ NothingInserted h' ∧
        ∀ signed, r = .ok signed → Prepared env signer event tx h' signed.toDbModel) h := by
  cases signer with
  | none =>
    refine ⟨List.Subset.refl _, hnothing, fun signed hsigned => ?_⟩
    rw [← Except.ok.inj hsigned]
    exact prepared_unsigned _ happly
  | some keyLabel =>
    refine ⟨trivial, fun reply => ?_⟩
    have hsub : h ⊆ h ++ [⟨.sign (withHash env linked).eventHash, reply⟩] :=
      List.subset_append_left _ _
    have hsigned : NothingInserted (h ++ [⟨.sign (withHash env linked).eventHash, reply⟩]) :=
      @nothingInserted_append _ hnothing (.sign (withHash env linked).eventHash) reply
        fun _ _ => Call.noConfusion
    match reply with
    | none => exact ⟨hsub, hsigned, fun _ heq => absurd heq nofun⟩
    | some (.error message) => exact ⟨hsub, hsigned, fun _ heq => absurd heq nofun⟩
    | some (.ok signature) =>
      refine ⟨hsub, hsigned, fun signed heq => ?_⟩
      rw [← Except.ok.inj heq]
      exact prepared_signed happly (List.mem_append_right _ (List.mem_singleton_self _))

/-- What is done with the event that was linked to the chain. -/
def appendLinked (env : Hashing) (signer : Option String) (tx : AuditAppendTx) :
    Option AuditEvent → AuditM Unit
  | none => .fail .Panic
  | some event => signEvent signer (withHash env event) >>= commitEvent tx

/-- **A `record` call keeps to its specification.** -/
theorem record_meets (env : Hashing) (signer : Option String) :
    (sink env signer).Meets (sinkSpec env signer) := by
  intro event
  show (record env signer event).Wp _ _ []
  have hnothing : NothingInserted [] := fun _ _ _ hr => absurd hr List.not_mem_nil
  refine ⟨trivial, fun reply => ?_⟩
  have hbegun : NothingInserted [⟨.beginAppend, reply⟩] :=
    nothingInserted_append hnothing fun _ _ => Call.noConfusion
  rcases reply with - | e | tx
  · exact fun _ _ _ => hbegun
  · exact fun _ _ _ => hbegun
  · show Prog.Wp _ _ (appendLinked env signer tx
      (applyChainTimestamp (startOf event tx) tx.previousTimestamp)) _
    cases happly : applyChainTimestamp (startOf event tx) tx.previousTimestamp with
    | none => exact fun _ _ _ => hbegun
    | some linked =>
      show Prog.Wp _ _ (signEvent signer (withHash env linked) >>= commitEvent tx) _
      rw [Prog.wp_bind]
      refine (wp_signEvent signer hbegun happly).mono fun r h' hr => ?_
      obtain ⟨hsub, hnothing', hprepared⟩ := hr
      cases r with
      | error e => exact fun _ _ _ => hnothing'
      | ok signed =>
        exact wp_commitEvent (hsub (List.mem_singleton_self _)) hnothing' (hprepared signed rfl)

end Ostrich.Audit
