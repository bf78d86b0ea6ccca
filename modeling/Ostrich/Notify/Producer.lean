import Ostrich.Lib.Json
import Ostrich.Lib.Uuid
import Ostrich.Notify.Scheduler

/-!
# The producer of expiry notices (`ca-server/src/expiry_producer.rs`)

A scan reads the unrevoked certificates that expire soon, joined with their approval requests, and
publishes a schedule for each row that has recipients; then it publishes a tombstone for each
revoked certificate that expires soon.  The scheduler (`notify-server/src/{scheduler,db}.rs`)
consumes the messages one after the other and keeps one schedule for each subject.  A query without
an order gives its rows in any order.
-/

namespace Ostrich.Notify

open Text DateTime

/-! ### The tables of the certificate authority -/

/-- A row of `certificates`; a `TIMESTAMPTZ` is microseconds since 1970. -/
structure CertificateRow where
  id : Uuid
  subjectDn : String
  notBefore : ℤ
  notAfter : ℤ
  revoked : Bool

/-- A row of `approval_requests`. -/
structure ApprovalRequestRow where
  certificateId : Option Uuid
  requestDetails : Json

structure Tables where
  certificates : List CertificateRow
  approvalRequests : List ApprovalRequestRow

structure ProducerConfig where
  daysBefore : ℤ
  defaultFrequency : String
  defaultTime : String
  defaultDays : List String

/-! ### The scan -/

/-- The end of a `TIMESTAMPTZ`: the beginning of the year 294277. -/
def endTimestamp : ℤ := 9224318016000000000

/-- `as i32`. -/
def asI32 (n : ℤ) : ℤ := n.bmod 4294967296

/-- `now() + make_interval(days => …)` in UTC; `none` where the query fails. -/
def windowEnd (daysBefore now : ℤ) : Option ℤ :=
  let t := now + asI32 daysBefore * 86400000000
  if minTimestamp ≤ t ∧ t < endTimestamp then some t else none

/-- The details of the requests of a certificate; without a request, a `NULL`. -/
def detailsOf (approvalRequests : List ApprovalRequestRow) (c : CertificateRow) :
    List (Option Json) :=
  match approvalRequests.filter (·.certificateId = some c.id) with
  | [] => [none]
  | requests => requests.map fun request => some request.requestDetails

/-- A row of the first query. -/
structure ExpiringRow where
  certificate : CertificateRow
  requestDetails : Option Json

/-- Active certs entering the notify window, with their request's details. -/
def expiring (cfg : ProducerConfig) (now : ℤ) (tables : Tables) : Option (List ExpiringRow) :=
  (windowEnd cfg.daysBefore now).map fun limit =>
    (tables.certificates.filter fun c =>
      !c.revoked && c.notBefore ≤ now && now ≤ c.notAfter && c.notAfter < limit).flatMap fun c =>
        (detailsOf tables.approvalRequests c).map (⟨c, ·⟩)

/-- Revoked certs still inside the window. -/
def revokedExpiring (cfg : ProducerConfig) (now : ℤ) (tables : Tables) :
    Option (List CertificateRow) :=
  (windowEnd cfg.daysBefore now).map fun limit =>
    tables.certificates.filter fun c => c.revoked && now ≤ c.notAfter && c.notAfter < limit

/-- Add an address, if there is one that was not there. -/
def addEmail (emails : List String) (s : String) : List String :=
  if !s.isEmpty && !emails.contains s then emails ++ [s] else emails

/-- Collect the distinct, non-empty notification recipients. -/
def extractEmails : Option Json → List String
  | none => []
  | some d => ["notification_email", "issm_email", "pm_email"].foldl (fun emails key =>
      match d.get? key with
      | some (.string s) => addEmail emails (trim s)
      | _ => emails) []

structure NotifyMessage where
  certificate : String
  validFrom : DateTime
  validTo : DateTime
  notificationEmails : List String
  notificationFrequency : String
  notificationTime : String
  notificationDays : List String
  notificationSubject : String
  notificationBody : String
  notifyDaysBeforeExpiration : ℤ
  tombstone : Bool

/-- The message about a certificate. -/
def notifyMessage (cfg : ProducerConfig) (c : CertificateRow) (emails : List String) (body : String)
    (tombstone : Bool) : NotifyMessage where
  certificate := c.subjectDn
  validFrom := .ofMicros c.notBefore
  validTo := .ofMicros c.notAfter
  notificationEmails := emails
  notificationFrequency := cfg.defaultFrequency
  notificationTime := cfg.defaultTime
  notificationDays := cfg.defaultDays
  notificationSubject := "Certificate Expiration Notification"
  notificationBody := body
  notifyDaysBeforeExpiration := cfg.daysBefore
  tombstone := tombstone

/-- The text of a notice. -/
def noticeBody (c : CertificateRow) : String :=
  "The certificate '" ++ c.subjectDn ++ "' expires on " ++
    String.ofList (dateText (dateNaive (.ofMicros c.notAfter))) ++ ". Please renew it before then."

/-- The schedule of a row; no resolvable recipient — skip. -/
def schedule? (cfg : ProducerConfig) (row : ExpiringRow) : Option NotifyMessage :=
  let emails := extractEmails row.requestDetails
  if emails.isEmpty then none
  else some (notifyMessage cfg row.certificate emails (noticeBody row.certificate) false)

/-- Tombstone a revoked cert so its schedule stops. -/
def tombstone (cfg : ProducerConfig) (c : CertificateRow) : NotifyMessage :=
  notifyMessage cfg c [] "" true

/-- The tombstones of what the second query answers. -/
def tombstones (cfg : ProducerConfig) : Option (List CertificateRow) → List NotifyMessage
  | none => []
  | some revoked => revoked.map (tombstone cfg)

/-- The messages that a scan publishes, for what its two queries answer. -/
def scanAndPublish (cfg : ProducerConfig) (rows : Option (List ExpiringRow))
    (revoked : Option (List CertificateRow)) : List NotifyMessage :=
  match rows with
  | none => []
  | some rows => rows.filterMap (schedule? cfg) ++ tombstones cfg revoked

/-! ### The schedules of the notify service -/

/-- A row of `schedules`. -/
structure ScheduleRow where
  validFrom : ℤ
  validTo : ℤ
  notificationEmails : List String
  frequency : String
  notificationTime : NaiveTime
  notificationDays : List String
  subject : String
  body : String
  notifyDaysBefore : ℤ
  active : Bool

/-- The schedules by their primary key, the certificate. -/
abbrev Schedules := String → Option ScheduleRow

section

/- The parser of a time of day is that of the time library. -/
variable (parseTime : String → NaiveTime)

/-- The row that a message asks for. -/
def storedSchedule (msg : NotifyMessage) : ScheduleRow where
  validFrom := msg.validFrom.toMicros
  validTo := msg.validTo.toMicros
  notificationEmails := msg.notificationEmails
  frequency := msg.notificationFrequency
  notificationTime := parseTime msg.notificationTime
  notificationDays := msg.notificationDays
  subject := msg.notificationSubject
  body := msg.notificationBody
  notifyDaysBefore := asI32 msg.notifyDaysBeforeExpiration
  active := true

/-- Upsert a schedule from a producer message (keyed by certificate). -/
def upsert (msg : NotifyMessage) (s : Schedules) : Schedules := fun certificate =>
  if certificate = msg.certificate then some (storedSchedule parseTime msg) else s certificate

/-- Mark a certificate's schedule inactive (renewed/revoked tombstone). -/
def deactivate (certificate : String) (s : Schedules) : Schedules := fun certificate' =>
  if certificate' = certificate then (s certificate').map fun row => { row with active := false }
  else s certificate'

/-- Consume one message. -/
def consume (s : Schedules) (msg : NotifyMessage) : Schedules :=
  if msg.tombstone then deactivate msg.certificate s else upsert parseTime msg s

/-- Consume the messages in their order. -/
def consumeLoop (msgs : List NotifyMessage) (s : Schedules) : Schedules :=
  msgs.foldl (consume parseTime) s

end

end Ostrich.Notify
