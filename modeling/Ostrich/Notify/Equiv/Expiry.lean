import Ostrich.Notify.Producer

/-!
# The schedules of expiring certificates

A schedule belongs to a subject, and the last message about a subject decides on it.

* `schedules_kept_iff`: after a scan every certificate that expires soon has its schedule, whatever
  the order of the rows and the schedules before, exactly when the scan finds it, no certificate of
  its subject was revoked, and all those that are found agree with it;
* `reissued_without_schedule`: a certificate that replaces a revoked one has no schedule.
-/

namespace Ostrich.Notify

open DateTime

/-! ### The property -/

/-- The recipients of a certificate: a list for each of its requests that names any. -/
def recipients (tables : Tables) (c : CertificateRow) : List (List String) :=
  ((detailsOf tables.approvalRequests c).map extractEmails).filter (!·.isEmpty)

/-- The certificate is unrevoked and valid, expires within the days, and has a recipient. -/
structure Expires (cfg : ProducerConfig) (tables : Tables) (now : ℤ) (c : CertificateRow) :
    Prop where
  mem : c ∈ tables.certificates
  unrevoked : c.revoked = false
  valid : c.notBefore ≤ now ∧ now ≤ c.notAfter
  soon : c.notAfter < now + cfg.daysBefore * 86400000000
  recipients : recipients tables c ≠ []

/-- There is an active schedule with the end and the recipients of the certificate. -/
def Scheduled (tables : Tables) (c : CertificateRow) (s : Schedules) : Prop :=
  ∃ row, s c.subjectDn = some row ∧ row.active = true ∧ row.validTo = c.notAfter ∧
    row.notificationEmails ∈ recipients tables c

/-- After a scan, whatever the order of the rows and the schedules before, every certificate that
expires has its schedule; `now` and `later` are the times of the two queries. -/
def SchedulesKept (parseTime : String → NaiveTime) (cfg : ProducerConfig) (tables : Tables)
    (now later : ℤ) : Prop :=
  ∀ rows revoked schedules, Option.Rel List.Perm rows (expiring cfg now tables) →
    Option.Rel List.Perm revoked (revokedExpiring cfg later tables) →
    ∀ c, Expires cfg tables now c →
      Scheduled tables c (consumeLoop parseTime (scanAndPublish cfg rows revoked) schedules)

/-! ### The condition -/

/-- The scan publishes a schedule for the row. -/
def Published (cfg : ProducerConfig) (tables : Tables) (now : ℤ) (row : ExpiringRow) : Prop :=
  (∃ rows, expiring cfg now tables = some rows ∧ row ∈ rows) ∧
    extractEmails row.requestDetails ≠ []

/-- The scan publishes a tombstone for the certificate. -/
def Tombstoned (cfg : ProducerConfig) (tables : Tables) (later : ℤ) (c : CertificateRow) : Prop :=
  ∃ revoked, revokedExpiring cfg later tables = some revoked ∧ c ∈ revoked

/-- The scan finds the certificate, and nothing else that it publishes about the subject differs. -/
structure Undisturbed (cfg : ProducerConfig) (tables : Tables) (now later : ℤ)
    (c : CertificateRow) : Prop where
  found : ∃ limit, windowEnd cfg.daysBefore now = some limit ∧ c.notAfter < limit
  agrees : ∀ row, Published cfg tables now row → row.certificate.subjectDn = c.subjectDn →
    row.certificate.notAfter = c.notAfter ∧
      extractEmails row.requestDetails ∈ recipients tables c
  untombstoned : ∀ other, Tombstoned cfg tables later other → other.subjectDn ≠ c.subjectDn

/-! ### The last message -/

section

variable {parseTime : String → NaiveTime}

theorem consume_of_ne {msg : NotifyMessage} {s : Schedules} {k : String}
    (h : msg.certificate ≠ k) : consume parseTime s msg k = s k := by
  unfold consume
  split_ifs
  · exact if_neg (Ne.symm h)
  · exact if_neg (Ne.symm h)

/-- Messages about other subjects leave a schedule. -/
theorem consumeLoop_of_ne {msgs : List NotifyMessage} {k : String}
    (h : ∀ msg ∈ msgs, msg.certificate ≠ k) (s : Schedules) :
    consumeLoop parseTime msgs s k = s k := by
  induction msgs generalizing s with
  | nil => rfl
  | cons msg msgs ih =>
    show consumeLoop parseTime msgs (consume parseTime s msg) k = s k
    rw [ih (fun msg' hmsg' => h msg' (List.mem_cons_of_mem _ hmsg')),
      consume_of_ne (h msg List.mem_cons_self)]

theorem consumeLoop_append (msgs msgs' : List NotifyMessage) (s : Schedules) :
    consumeLoop parseTime (msgs ++ msgs') s =
      consumeLoop parseTime msgs' (consumeLoop parseTime msgs s) :=
  List.foldl_append

/-- The last message about a subject decides on its schedule. -/
theorem consumeLoop_last {before after : List NotifyMessage} {msg : NotifyMessage}
    (h : ∀ msg' ∈ after, msg'.certificate ≠ msg.certificate) (s : Schedules) :
    consumeLoop parseTime (before ++ msg :: after) s msg.certificate =
      consume parseTime (consumeLoop parseTime before s) msg msg.certificate := by
  rw [consumeLoop_append]
  exact consumeLoop_of_ne h _

theorem consume_schedule {msg : NotifyMessage} (h : msg.tombstone = false) (s : Schedules) :
    consume parseTime s msg msg.certificate = some (storedSchedule parseTime msg) := by
  unfold consume
  rw [if_neg (by rw [h]; decide)]
  exact if_pos rfl

theorem consume_tombstone {msg : NotifyMessage} (h : msg.tombstone = true) (s : Schedules)
    {row : ScheduleRow} (hrow : consume parseTime s msg msg.certificate = some row) :
    row.active = false := by
  have hmap : (s msg.certificate).map (fun row => { row with active := false }) = some row := by
    unfold consume at hrow
    rw [if_pos h] at hrow
    rw [← hrow]
    exact (if_pos rfl).symm
  obtain ⟨old, -, rfl⟩ := Option.map_eq_some_iff.mp hmap
  rfl

/-- The last of the messages about a subject. -/
theorem exists_last {msgs : List NotifyMessage} {k : String}
    (h : ∃ msg ∈ msgs, msg.certificate = k) :
    ∃ before msg after, msgs = before ++ msg :: after ∧ msg.certificate = k ∧
      ∀ msg' ∈ after, msg'.certificate ≠ k := by
  induction msgs with
  | nil => simp at h
  | cons first msgs ih =>
    by_cases hlater : ∃ msg ∈ msgs, msg.certificate = k
    · obtain ⟨before, msg, after, rfl, hmsg, hafter⟩ := ih hlater
      exact ⟨first :: before, msg, after, rfl, hmsg, hafter⟩
    · obtain ⟨msg, hmem, hmsg⟩ := h
      refine ⟨[], first, msgs, rfl, ?_, fun msg' hmsg' heq => hlater ⟨msg', hmsg', heq⟩⟩
      rcases List.mem_cons.mp hmem with rfl | hmem
      · exact hmsg
      · exact absurd ⟨msg, hmem, hmsg⟩ hlater

end

/-! ### The messages of a scan -/

section

variable {cfg : ProducerConfig} {tables : Tables} {now later : ℤ} {c : CertificateRow}
  {parseTime : String → NaiveTime}

theorem toMicros_ofMicros (micros : ℤ) : (ofMicros micros).toMicros = micros := by
  have hlt := Int.emod_lt_of_pos micros (show (0 : ℤ) < 1000000 by decide)
  have hnonneg := Int.emod_nonneg micros (show (1000000 : ℤ) ≠ 0 by decide)
  show micros / 1000000 * 1000000 + (((micros % 1000000).toNat * 1000 / 1000 : ℕ) : ℤ) = micros
  omega

theorem mem_expiring {rows : List ExpiringRow} (h : expiring cfg now tables = some rows)
    (row : ExpiringRow) :
    row ∈ rows ↔ row.certificate ∈ tables.certificates ∧ row.certificate.revoked = false ∧
      (row.certificate.notBefore ≤ now ∧ now ≤ row.certificate.notAfter) ∧
      (∃ limit, windowEnd cfg.daysBefore now = some limit ∧ row.certificate.notAfter < limit) ∧
      row.requestDetails ∈ detailsOf tables.approvalRequests row.certificate := by
  obtain ⟨limit, hlimit, rfl⟩ := Option.map_eq_some_iff.mp h
  obtain ⟨certificate, requestDetails⟩ := row
  simp only [List.mem_flatMap, List.mem_filter, List.mem_map, ExpiringRow.mk.injEq,
    Bool.and_eq_true, Bool.not_eq_true', decide_eq_true_eq, hlimit, Option.some.injEq,
    exists_eq_left']
  constructor
  · rintro ⟨c, ⟨hmem, ⟨⟨hunrevoked, hbefore⟩, hafter⟩, hlt⟩, d, hd, rfl, rfl⟩
    exact ⟨hmem, hunrevoked, ⟨hbefore, hafter⟩, hlt, hd⟩
  · rintro ⟨hmem, hunrevoked, ⟨hbefore, hafter⟩, hlt, hd⟩
    exact ⟨certificate, ⟨hmem, ⟨⟨hunrevoked, hbefore⟩, hafter⟩, hlt⟩, requestDetails, hd, rfl, rfl⟩

/-- What the message of a row stores. -/
theorem schedule?_eq_some {row : ExpiringRow} {msg : NotifyMessage}
    (h : schedule? cfg row = some msg) :
    extractEmails row.requestDetails ≠ [] ∧ msg.tombstone = false ∧
      msg.certificate = row.certificate.subjectDn ∧
      (storedSchedule parseTime msg).validTo = row.certificate.notAfter ∧
      (storedSchedule parseTime msg).notificationEmails = extractEmails row.requestDetails := by
  unfold schedule? at h
  dsimp only at h
  split_ifs at h with hempty
  obtain rfl := Option.some.inj h
  refine ⟨fun hnil => hempty (by rw [hnil]; rfl), rfl, rfl, toMicros_ofMicros _, rfl⟩

theorem exists_schedule? {row : ExpiringRow} (h : extractEmails row.requestDetails ≠ []) :
    ∃ msg, schedule? cfg row = some msg := by
  unfold schedule?
  exact ⟨_, if_neg (by rw [List.isEmpty_iff]; exact h)⟩

/-- A certificate that expires and is found has a row that is published. -/
theorem Expires.published (h : Expires cfg tables now c)
    (hfound : ∃ limit, windowEnd cfg.daysBefore now = some limit ∧ c.notAfter < limit) :
    ∃ row, Published cfg tables now row ∧ row.certificate = c := by
  obtain ⟨emails, hemails⟩ := List.exists_mem_of_ne_nil _ h.recipients
  obtain ⟨hmem, hne⟩ := List.mem_filter.mp hemails
  obtain ⟨details, hdetails, rfl⟩ := List.mem_map.mp hmem
  obtain ⟨limit, hlimit, hlt⟩ := hfound
  obtain ⟨rows, hrows⟩ : ∃ rows, expiring cfg now tables = some rows := by
    unfold expiring
    rw [hlimit]
    exact ⟨_, rfl⟩
  refine ⟨⟨c, details⟩, ⟨⟨rows, hrows, ?_⟩, fun hnil => ?_⟩, rfl⟩
  · exact (mem_expiring hrows _).mpr ⟨h.mem, h.unrevoked, h.valid, ⟨limit, hlimit, hlt⟩, hdetails⟩
  · rw [hnil] at hne
    cases hne

/-- The tombstones of a scan are about the certificates that were revoked. -/
theorem mem_tombstones {revoked : Option (List CertificateRow)}
    (hrevoked : Option.Rel List.Perm revoked (revokedExpiring cfg later tables))
    {msg : NotifyMessage} :
    msg ∈ tombstones cfg revoked ↔
      ∃ other, Tombstoned cfg tables later other ∧ msg = tombstone cfg other := by
  unfold Tombstoned
  generalize revokedExpiring cfg later tables = answer at hrevoked ⊢
  cases hrevoked with
  | none => simp [tombstones]
  | some hperm =>
    rename_i revoked stored
    simp only [tombstones, List.mem_map, Option.some.injEq, exists_eq_left']
    constructor
    · rintro ⟨other, hother, rfl⟩
      exact ⟨other, hperm.subset hother, rfl⟩
    · rintro ⟨other, hother, rfl⟩
      exact ⟨other, hperm.symm.subset hother, rfl⟩

/-- A message of the scan about a subject that is not tombstoned comes from a published row. -/
theorem published_of_mem {rows : List ExpiringRow}
    (hrows : Option.Rel List.Perm (some rows) (expiring cfg now tables)) {msg : NotifyMessage}
    (h : msg ∈ rows.filterMap (schedule? cfg)) :
    ∃ row, Published cfg tables now row ∧ schedule? cfg row = some msg := by
  obtain ⟨row, hrow, hmsg⟩ := List.mem_filterMap.mp h
  generalize hstored : expiring cfg now tables = answer at hrows
  cases hrows with
  | some hperm =>
    obtain ⟨hne, -⟩ := @schedule?_eq_some cfg (fun _ => timeOfDay (ofMicros 0)) _ _ hmsg
    exact ⟨row, ⟨⟨_, hstored, hperm.subset hrow⟩, hne⟩, hmsg⟩

/-- The scan publishes nothing about the subject but what agrees with the certificate. -/
theorem Undisturbed.scheduled (hexpires : Expires cfg tables now c)
    (h : Undisturbed cfg tables now later c) {rows : Option (List ExpiringRow)}
    {revoked : Option (List CertificateRow)}
    (hrows : Option.Rel List.Perm rows (expiring cfg now tables))
    (hrevoked : Option.Rel List.Perm revoked (revokedExpiring cfg later tables))
    (schedules : Schedules) :
    Scheduled tables c (consumeLoop parseTime (scanAndPublish cfg rows revoked) schedules) := by
  obtain ⟨row, ⟨⟨stored, hstored, hrow⟩, hne⟩, rfl⟩ := hexpires.published h.found
  cases rows with
  | none =>
    rw [hstored] at hrows
    cases hrows
  | some rows =>
    have hperm : rows.Perm stored := by
      rw [hstored] at hrows
      cases hrows with
      | some hperm => exact hperm
    obtain ⟨msg, hmsg⟩ := @exists_schedule? cfg _ hne
    have hmem : msg ∈ rows.filterMap (schedule? cfg) :=
      List.mem_filterMap.mpr ⟨row, hperm.symm.subset hrow, hmsg⟩
    have hcert := (@schedule?_eq_some cfg parseTime _ _ hmsg).2.2.1
    obtain ⟨before, last, after, hsplit, hlast, hafter⟩ := exists_last ⟨msg, hmem, hcert⟩
    have hlastMem : last ∈ rows.filterMap (schedule? cfg) := by
      rw [hsplit]
      exact List.mem_append_right _ List.mem_cons_self
    obtain ⟨row', hrow', hmsg'⟩ := published_of_mem hrows hlastMem
    obtain ⟨-, hnot, hcert', hvalidTo, hemails⟩ := @schedule?_eq_some cfg parseTime _ _ hmsg'
    obtain ⟨hafterEq, hrecipients⟩ := h.agrees row' hrow' (hcert'.symm.trans hlast)
    -- no tombstone comes after it
    have hkept : consumeLoop parseTime (scanAndPublish cfg (some rows) revoked) schedules
        row.certificate.subjectDn = some (storedSchedule parseTime last) := by
      show consumeLoop parseTime (rows.filterMap (schedule? cfg) ++ tombstones cfg revoked) _ _ = _
      rw [hsplit, List.append_assoc, List.cons_append, ← hlast, consumeLoop_last,
        consume_schedule hnot]
      intro msg' hmsg'
      rcases List.mem_append.mp hmsg' with hmsg' | hmsg'
      · rw [hlast]
        exact hafter msg' hmsg'
      · obtain ⟨other, hother, rfl⟩ := (mem_tombstones hrevoked).mp hmsg'
        rw [hlast]
        exact h.untombstoned other hother
    refine ⟨_, hkept, rfl, hvalidTo.trans hafterEq, ?_⟩
    rw [hemails]
    exact hrecipients

/-- A tombstone about the subject is the last message about it. -/
theorem not_scheduled_of_tombstoned {other : CertificateRow}
    (hother : Tombstoned cfg tables later other) (hsubject : other.subjectDn = c.subjectDn)
    {rows : List ExpiringRow} {revoked : Option (List CertificateRow)}
    (hrevoked : Option.Rel List.Perm revoked (revokedExpiring cfg later tables))
    (schedules : Schedules) :
    ¬Scheduled tables c
      (consumeLoop parseTime (scanAndPublish cfg (some rows) revoked) schedules) := by
  rintro ⟨row, hrow, hactive, -⟩
  have hmem := (@mem_tombstones cfg _ _ _ hrevoked (tombstone cfg other)).mpr ⟨other, hother, rfl⟩
  obtain ⟨before, last, after, hsplit, hlast, hafter⟩ := exists_last ⟨_, hmem, hsubject⟩
  have hlastMem : last ∈ tombstones cfg revoked := by
    rw [hsplit]
    exact List.mem_append_right _ List.mem_cons_self
  obtain ⟨other', -, rfl⟩ := (mem_tombstones hrevoked).mp hlastMem
  replace hrow : consumeLoop parseTime (rows.filterMap (schedule? cfg) ++ tombstones cfg revoked)
    schedules c.subjectDn = some row := hrow
  rw [hsplit, ← List.append_assoc, ← hlast, consumeLoop_last] at hrow
  · rw [consume_tombstone rfl _ hrow] at hactive
    cases hactive
  · rw [hlast]
    exact hafter

end

/-! ### The result -/

/-- An answer of a query is one of its own orders. -/
theorem perm_self {α : Type} (answer : Option (List α)) : Option.Rel List.Perm answer answer := by
  cases answer with
  | none => exact .none
  | some l => exact .some (.refl l)

section

variable {cfg : ProducerConfig} {tables : Tables} {now later : ℤ} {c : CertificateRow}
  {parseTime : String → NaiveTime}

/-- Where all schedules are kept, so are they from an empty table. -/
theorem SchedulesKept.scheduled (h : SchedulesKept parseTime cfg tables now later)
    (hexpires : Expires cfg tables now c) {rows : Option (List ExpiringRow)}
    (hrows : Option.Rel List.Perm rows (expiring cfg now tables)) :
    Scheduled tables c (consumeLoop parseTime
      (scanAndPublish cfg rows (revokedExpiring cfg later tables)) fun _ => none) :=
  h rows _ (fun _ => none) hrows (perm_self _) c hexpires

/-- The first query answers. -/
theorem SchedulesKept.exists_rows (h : SchedulesKept parseTime cfg tables now later)
    (hexpires : Expires cfg tables now c) : ∃ rows, expiring cfg now tables = some rows := by
  by_contra hnone
  rw [← Option.ne_none_iff_exists', not_not] at hnone
  obtain ⟨row, hrow, -⟩ := h.scheduled hexpires (show Option.Rel List.Perm none _ by
    rw [hnone]
    exact .none)
  cases hrow

theorem SchedulesKept.untombstoned (h : SchedulesKept parseTime cfg tables now later)
    (hexpires : Expires cfg tables now c) (other : CertificateRow)
    (hother : Tombstoned cfg tables later other) : other.subjectDn ≠ c.subjectDn := by
  obtain ⟨rows, hrows⟩ := h.exists_rows hexpires
  intro hsubject
  refine not_scheduled_of_tombstoned hother hsubject (perm_self _) _
    (h.scheduled hexpires (show Option.Rel List.Perm (some rows) _ by
      rw [hrows]
      exact perm_self _))

/-- A row of the subject agrees with the certificate: it could be published last. -/
theorem SchedulesKept.agrees (h : SchedulesKept parseTime cfg tables now later)
    (hexpires : Expires cfg tables now c) (row : ExpiringRow) (hrow : Published cfg tables now row)
    (hsubject : row.certificate.subjectDn = c.subjectDn) :
    row.certificate.notAfter = c.notAfter ∧
      extractEmails row.requestDetails ∈ recipients tables c := by
  obtain ⟨⟨rows, hrows, hmem⟩, hne⟩ := hrow
  obtain ⟨before, after, rfl⟩ := List.append_of_mem hmem
  have hperm : ((before ++ after) ++ [row]).Perm (before ++ row :: after) := by
    rw [List.append_assoc]
    exact (List.perm_append_comm).append_left before
  have hscheduled := h.scheduled hexpires (show Option.Rel List.Perm (some _) _ by
    rw [hrows]
    exact .some hperm)
  obtain ⟨stored, hstored, -, hvalidTo, hemails⟩ := hscheduled
  obtain ⟨msg, hmsg⟩ := @exists_schedule? cfg _ hne
  obtain ⟨-, hnot, hcert, hmsgTo, hmsgEmails⟩ := @schedule?_eq_some cfg parseTime _ _ hmsg
  have hfilter : [row].filterMap (schedule? cfg) = [msg] := by
    rw [List.filterMap_cons, hmsg]
    rfl
  replace hstored : consumeLoop parseTime (((before ++ after) ++ [row]).filterMap
    (schedule? cfg) ++ tombstones cfg (revokedExpiring cfg later tables)) (fun _ => none)
      c.subjectDn = some stored := hstored
  rw [List.filterMap_append, hfilter, List.append_assoc, List.singleton_append, ← hsubject,
    ← hcert, consumeLoop_last, consume_schedule hnot] at hstored
  · obtain rfl := Option.some.inj hstored
    exact ⟨hmsgTo.symm.trans hvalidTo, by rw [← hmsgEmails]; exact hemails⟩
  · intro msg' hmsg'
    obtain ⟨other, hother, rfl⟩ := (mem_tombstones (perm_self _)).mp hmsg'
    rw [hcert, hsubject]
    exact h.untombstoned hexpires other hother

/-- Some row of the subject is published. -/
theorem SchedulesKept.exists_published (h : SchedulesKept parseTime cfg tables now later)
    (hexpires : Expires cfg tables now c) :
    ∃ row, Published cfg tables now row ∧ row.certificate.subjectDn = c.subjectDn := by
  obtain ⟨rows, hrows⟩ := h.exists_rows hexpires
  have hanswer : Option.Rel List.Perm (some rows) (expiring cfg now tables) := by
    rw [hrows]
    exact perm_self _
  obtain ⟨stored, hstored, -⟩ := h.scheduled hexpires hanswer
  by_contra hnone
  replace hstored : consumeLoop parseTime (rows.filterMap (schedule? cfg) ++
    tombstones cfg (revokedExpiring cfg later tables)) (fun _ => none) c.subjectDn
      = some stored := hstored
  rw [consumeLoop_of_ne] at hstored
  · cases hstored
  · intro msg hmsg heq
    rcases List.mem_append.mp hmsg with hmsg | hmsg
    · obtain ⟨row, hrow, hschedule⟩ := published_of_mem hanswer hmsg
      obtain ⟨-, -, hcert, -⟩ := @schedule?_eq_some cfg parseTime _ _ hschedule
      exact hnone ⟨row, hrow, hcert.symm.trans heq⟩
    · obtain ⟨other, hother, rfl⟩ := (mem_tombstones (perm_self _)).mp hmsg
      exact h.untombstoned hexpires other hother heq

/-- A published row that ends with the certificate was found, so the certificate is. -/
theorem SchedulesKept.found (h : SchedulesKept parseTime cfg tables now later)
    (hexpires : Expires cfg tables now c) :
    ∃ limit, windowEnd cfg.daysBefore now = some limit ∧ c.notAfter < limit := by
  obtain ⟨row, hpublished, hsubject⟩ := h.exists_published hexpires
  obtain ⟨hnotAfter, -⟩ := h.agrees hexpires row hpublished hsubject
  obtain ⟨⟨rows, hrows, hmem⟩, -⟩ := hpublished
  obtain ⟨-, -, -, hfound, -⟩ := (mem_expiring hrows row).mp hmem
  rwa [hnotAfter] at hfound

end

/-- **Every certificate that expires has its schedule exactly when** the scan finds it, none of its
subject was revoked, and those of its subject agree with it. -/
theorem schedules_kept_iff (parseTime : String → NaiveTime) (cfg : ProducerConfig)
    (tables : Tables) (now later : ℤ) :
    SchedulesKept parseTime cfg tables now later ↔
      ∀ c, Expires cfg tables now c → Undisturbed cfg tables now later c := by
  constructor
  · intro h c hexpires
    exact ⟨h.found hexpires, h.agrees hexpires, h.untombstoned hexpires⟩
  · intro h rows revoked schedules hrows hrevoked c hexpires
    exact (h c hexpires).scheduled hexpires hrows hrevoked schedules

/-- A day in microseconds. -/
def day : ℤ := 86400000000

/-- Ninety days, and the other defaults. -/
def ninetyDays : ProducerConfig := ⟨90, "weekly", "09:00:00Z", []⟩

/-- The certificate that was issued again. -/
def reissued : CertificateRow := ⟨⟨2⟩, "CN=a", -day, 20 * day, false⟩

/-- A certificate was revoked ten days before its end, and issued again. -/
def reissuedTables : Tables where
  certificates := [⟨⟨1⟩, "CN=a", -day, 10 * day, true⟩, reissued]
  approvalRequests := [⟨some ⟨2⟩, .object [("notification_email", .string "a@x.mil")]⟩]

/-- The time of day of the default. -/
def nine : NaiveTime := timeOfDay (ofMicros 32400000000)

/-- The tombstone of the revoked certificate ends the schedule of the one that replaced it. -/
theorem reissued_without_schedule :
    ¬SchedulesKept (fun _ => nine) ninetyDays reissuedTables 0 0 := by
  intro h
  have hexpires : Expires ninetyDays reissuedTables 0 reissued := by
    refine ⟨?_, rfl, by decide, by decide, by decide +kernel⟩
    exact List.mem_cons_of_mem _ (List.mem_singleton_self _)
  refine h.untombstoned hexpires ⟨⟨1⟩, "CN=a", -day, 10 * day, true⟩ ?_ rfl
  exact ⟨[⟨⟨1⟩, "CN=a", -day, 10 * day, true⟩], rfl, List.mem_singleton_self _⟩

end Ostrich.Notify
