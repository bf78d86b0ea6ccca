import Ostrich.Audit.Repository
import Mathlib.Data.List.Flatten
import Mathlib.Data.List.Forall2
import Mathlib.Logic.Function.Basic

/-!
# What the hash of an audit record commits to

The parts of a record go into the hash one after the other, without separators or lengths.  So the
hash commits to the record among the records of the same layout (`SameLayout`: the same optional
fields are there and each part has the same number of bytes), and to no record among all records:
`shiftIp` moves text between two optional fields and keeps the hash of every record.

`commits_iff_sameLayout` says both, for two records and for whole tables.
-/

namespace Ostrich.Audit

open Text

/-- The fields of a record that go into the hash. -/
structure Content (Ty Out : Type) where
  id : Uuid
  eventType : Ty
  actor : String
  target : String
  action : String
  outcome : Out
  details : Option Json
  ipAddress : Option String
  userAgent : Option String
  sessionId : Option String
  previousHash : Option (List UInt8)
  timestamp : DateTime

variable {Ty Out : Type}

def Record.content (e : Record Ty Out) : Content Ty Out where
  id := e.id
  eventType := e.eventType
  actor := e.actor
  target := e.target
  action := e.action
  outcome := e.outcome
  details := e.details
  ipAddress := e.ipAddress
  userAgent := e.userAgent
  sessionId := e.sessionId
  previousHash := e.previousHash
  timestamp := e.timestamp

/-- Which of the optional fields are there. -/
def Record.present (e : Record Ty Out) : List Bool :=
  [e.details.isSome, e.ipAddress.isSome, e.userAgent.isSome, e.sessionId.isSome,
    e.previousHash.isSome]

/-- Every JSON value has a text, which determines it. -/
structure JsonText (env : Hashing) : Prop where
  total : ∀ json, ∃ text, env.jsonToString json = some text
  injective : ∀ {a b text}, env.jsonToString a = some text → env.jsonToString b = some text → a = b

/-! ### Parts -/

namespace Hashing

variable {env : Hashing} {typeStr : Ty → String} {outcomeStr : Out → String}
  {e e' : Record Ty Out}

variable (env) in
/-- The same optional fields are there, and each part has the same number of bytes. -/
def SameLayout (typeStr : Ty → String) (outcomeStr : Out → String) (e e' : Record Ty Out) : Prop :=
  e.present = e'.present ∧ (env.hashParts typeStr outcomeStr e).map List.length
    = (env.hashParts typeStr outcomeStr e').map List.length

/-- An optional field is determined by what it adds to the hash and by whether it is there. -/
theorem eq_of_isSome_eq {α : Type} {bytes : Option α → List UInt8}
    (hinj : ∀ a b, bytes (some a) = bytes (some b) → a = b) {a b : Option α}
    (hpresent : a.isSome = b.isSome) (h : bytes a = bytes b) : a = b := by
  cases a with
  | none =>
    cases b with
    | none => rfl
    | some b => cases hpresent
  | some a =>
    cases b with
    | none => cases hpresent
    | some b => rw [hinj a b h]

theorem textBytes_injective {a b : Option String} (hpresent : a.isSome = b.isSome)
    (h : textBytes a = textBytes b) : a = b :=
  eq_of_isSome_eq (fun _ _ hab => utf8_injective hab) hpresent h

theorem detailsBytes_injective (hjson : JsonText env) {a b : Option Json}
    (hpresent : a.isSome = b.isSome) (h : env.detailsBytes a = env.detailsBytes b) : a = b := by
  refine eq_of_isSome_eq (fun a b hab => ?_) hpresent h
  obtain ⟨text, ha⟩ := hjson.total a
  obtain ⟨text', hb⟩ := hjson.total b
  unfold detailsBytes at hab
  rw [Option.bind_some, Option.bind_some, ha, hb] at hab
  obtain rfl := utf8_injective hab
  exact hjson.injective ha hb

/-- The parts and which of them are there determine the content. -/
theorem content_of_hashParts (hjson : JsonText env) (htype : Function.Injective typeStr)
    (houtcome : Function.Injective outcomeStr) (hpresent : e.present = e'.present)
    (h : env.hashParts typeStr outcomeStr e = env.hashParts typeStr outcomeStr e') :
    e.content = e'.content := by
  simp only [Record.present, List.cons.injEq, and_true] at hpresent
  obtain ⟨hdetails, hip, hagent, hsession, hprevious⟩ := hpresent
  simp only [hashParts, List.cons.injEq, and_true] at h
  obtain ⟨h₁, h₂, h₃, h₄, h₅, h₆, h₇, h₈, h₉, h₁₀, h₁₁, h₁₂⟩ := h
  have hprev : e.previousHash = e'.previousHash :=
    @eq_of_isSome_eq _ (fun o => o.getD []) (fun _ _ hab => hab) _ _ hprevious h₁₁
  unfold Record.content
  rw [Uuid.asBytes_injective h₁, htype (utf8_injective h₂), utf8_injective h₃, utf8_injective h₄,
    utf8_injective h₅, houtcome (utf8_injective h₆), detailsBytes_injective hjson hdetails h₇,
    textBytes_injective hip h₈, textBytes_injective hagent h₉, textBytes_injective hsession h₁₀,
    hprev, DateTime.toRfc3339_injective (utf8_injective h₁₂)]

theorem sameLayout_of_content (h : e.content = e'.content) :
    env.SameLayout typeStr outcomeStr e e' := by
  obtain ⟨h₁, h₂, h₃, h₄, h₅, h₆, h₇, h₈, h₉, h₁₀, h₁₁, h₁₂⟩ := Content.mk.inj h
  unfold SameLayout Record.present hashParts
  rw [h₁, h₂, h₃, h₄, h₅, h₆, h₇, h₈, h₉, h₁₀, h₁₁, h₁₂]
  exact ⟨rfl, rfl⟩

/-- **Two records with the same concatenation of parts** have the same content exactly if they have
the same layout. -/
theorem content_eq_iff_sameLayout (hjson : JsonText env) (htype : Function.Injective typeStr)
    (houtcome : Function.Injective outcomeStr)
    (h : (env.hashParts typeStr outcomeStr e).flatten
      = (env.hashParts typeStr outcomeStr e').flatten) :
    e.content = e'.content ↔ env.SameLayout typeStr outcomeStr e e' := by
  constructor
  · exact sameLayout_of_content
  · intro hlayout
    have hparts : env.hashParts typeStr outcomeStr e = env.hashParts typeStr outcomeStr e' :=
      List.eq_iff_flatten_eq.mpr ⟨h, hlayout.2⟩
    exact content_of_hashParts hjson htype houtcome hlayout.1 hparts

end Hashing

/-! ### Moving text between fields -/

/-- Give an absent address as an empty one, or move the address to the front of the user agent. -/
def Record.shiftIp (e : Record Ty Out) : Record Ty Out :=
  match e.ipAddress with
  | none => { e with ipAddress := some "" }
  | some ip => { e with ipAddress := none, userAgent := some (ip ++ e.userAgent.getD "") }

theorem ipAddress_shiftIp (e : Record Ty Out) : e.shiftIp.ipAddress ≠ e.ipAddress := by
  unfold Record.shiftIp
  split
  · rename_i hip
    rw [hip]
    exact nofun
  · rename_i ip hip
    rw [hip]
    exact nofun

@[simp] theorem eventHash_shiftIp (e : Record Ty Out) : e.shiftIp.eventHash = e.eventHash := by
  unfold Record.shiftIp
  split <;> rfl

@[simp] theorem previousHash_shiftIp (e : Record Ty Out) :
    e.shiftIp.previousHash = e.previousHash := by
  unfold Record.shiftIp
  split <;> rfl

theorem content_shiftIp (e : Record Ty Out) : e.shiftIp.content ≠ e.content := by
  intro h
  exact ipAddress_shiftIp e (congrArg Content.ipAddress h)

/-- The concatenation of the parts stays as it is. -/
theorem flatten_shiftIp (env : Hashing) (typeStr : Ty → String) (outcomeStr : Out → String)
    (e : Record Ty Out) : (env.hashParts typeStr outcomeStr e.shiftIp).flatten
      = (env.hashParts typeStr outcomeStr e).flatten := by
  unfold Record.shiftIp
  cases hip : e.ipAddress with
  | none =>
    simp only [Hashing.hashParts, hip, Hashing.textBytes]
    rfl
  | some ip =>
    have hagent : utf8 (ip ++ e.userAgent.getD "") = utf8 ip ++ Hashing.textBytes e.userAgent := by
      rw [utf8_append]
      cases e.userAgent with
      | none => rfl
      | some agent => rfl
    simp only [Hashing.hashParts, hip, Hashing.textBytes, hagent, List.flatten_cons,
      List.nil_append, List.append_assoc]

/-! ### Tables -/

namespace Hashing

variable {env : Hashing}

theorem computeHash_shiftIp (e : AuditEvent) : env.computeHash e.shiftIp = env.computeHash e := by
  rw [computeHash, flatten_shiftIp, ← computeHash]

theorem computeEventHash_shiftIp (row : Row) :
    env.computeEventHash row.shiftIp = env.computeEventHash row := by
  rw [computeEventHash, flatten_shiftIp, ← computeEventHash]

theorem verifyChain_eq_loop (rows : List Row) :
    env.verifyChain rows = verifyChain.loop env rows none := by
  unfold verifyChain
  split_ifs with h
  · rw [h]
    rfl
  · rfl

theorem loop_cons_eq_true {row : Row} {rows : List Row} {prevHash : Option (List UInt8)} :
    verifyChain.loop env (row :: rows) prevHash = true ↔ row.previousHash = prevHash ∧
      env.computeEventHash row = row.eventHash ∧
      verifyChain.loop env rows (some row.eventHash) = true := by
  rw [verifyChain.loop]
  split_ifs with h₁ h₂
  · exact ⟨nofun, fun h => absurd h.1 h₁⟩
  · exact ⟨nofun, fun h => absurd h.2.1 h₂⟩
  · exact ⟨fun h => ⟨not_not.mp h₁, not_not.mp h₂, h⟩, fun h => h.2.2⟩

/-- In a chain that verifies, every row has the hash of its content. -/
theorem eventHash_of_loop {rows : List Row} : ∀ {prevHash : Option (List UInt8)},
    verifyChain.loop env rows prevHash = true →
      ∀ row ∈ rows, env.computeEventHash row = row.eventHash := by
  induction rows with
  | nil => exact fun _ row hrow => absurd hrow List.not_mem_nil
  | cons first rows ih =>
    intro prevHash h row hrow
    obtain ⟨-, hhash, hrest⟩ := loop_cons_eq_true.mp h
    rcases List.mem_cons.mp hrow with rfl | hrow
    · exact hhash
    · exact ih hrest row hrow

theorem eventHash_of_verifyChain {rows : List Row} (h : env.verifyChain rows = true) :
    ∀ row ∈ rows, env.computeEventHash row = row.eventHash := by
  rw [verifyChain_eq_loop] at h
  exact eventHash_of_loop h

/-- The verifier does not see that the address of a row was moved. -/
theorem loop_shiftIp (before after : List Row) (row : Row) : ∀ prevHash,
    verifyChain.loop env (before ++ row.shiftIp :: after) prevHash
      = verifyChain.loop env (before ++ row :: after) prevHash := by
  induction before with
  | nil =>
    intro prevHash
    rw [List.nil_append, List.nil_append, verifyChain.loop, verifyChain.loop,
      computeEventHash_shiftIp, eventHash_shiftIp, previousHash_shiftIp]
  | cons first before ih =>
    intro prevHash
    rw [List.cons_append, List.cons_append, verifyChain.loop, verifyChain.loop, ih]

variable (env) in
/-- The rows of two tables have the same layouts. -/
abbrev SameLayouts : List Row → List Row → Prop := List.Forall₂ (env.SameLayout id id)

/-- Two tables with the same column of hashes, both of which fit their contents, have the same
contents exactly if their rows have the same layouts. -/
theorem contents_eq_iff_sameLayouts (hsha : Function.Injective env.sha256) (hjson : JsonText env) :
    ∀ {rows rows' : List Row}, (∀ row ∈ rows, env.computeEventHash row = row.eventHash) →
      (∀ row ∈ rows', env.computeEventHash row = row.eventHash) →
      rows.map Record.eventHash = rows'.map Record.eventHash →
      (rows.map Record.content = rows'.map Record.content ↔ env.SameLayouts rows rows')
  | [], [], _, _, _ => by simp
  | [], _ :: _, _, _, hhash => by cases hhash
  | _ :: _, [], _, _, hhash => by cases hhash
  | row :: rows, row' :: rows', h, h', hhash => by
    obtain ⟨hrow, hrest⟩ := List.cons.inj hhash
    have hflatten : (env.hashParts id id row).flatten = (env.hashParts id id row').flatten := by
      apply hsha
      show env.computeEventHash row = env.computeEventHash row'
      rw [h row (List.mem_cons_self ..), h' row' (List.mem_cons_self ..), hrow]
    have htail := contents_eq_iff_sameLayouts hsha hjson
      (fun r hr => h r (List.mem_cons_of_mem _ hr)) (fun r hr => h' r (List.mem_cons_of_mem _ hr))
      hrest
    rw [List.map_cons, List.map_cons, List.cons.injEq, SameLayouts, List.forall₂_cons, htail,
      content_eq_iff_sameLayout hjson Function.injective_id Function.injective_id hflatten]

end Hashing

/-! ### The commitment -/

theorem asStr_eventType_injective : Function.Injective EventType.asStr := by
  intro a b h
  cases a <;> cases b <;> first | rfl | exact absurd h (by decide)

theorem asStr_eventOutcome_injective : Function.Injective EventOutcome.asStr := by
  intro a b h
  cases a <;> cases b <;> first | rfl | exact absurd h (by decide)

/-- **What the hash commits to.**  Equal hashes give equal contents exactly if the two records have
the same layout or the concatenations of their parts differ, and every record has another one with
its hash.  A table that verifies has the contents of another one with the same hashes exactly if
their rows have the same layouts, and every non-empty one verifies with other contents too. -/
theorem commits_iff_sameLayout (env : Hashing) (hsha : Function.Injective env.sha256)
    (hjson : JsonText env) :
    (∀ e e' : AuditEvent, (env.computeHash e = env.computeHash e' → e.content = e'.content) ↔
      env.SameLayout EventType.asStr EventOutcome.asStr e e' ∨
      (env.hashParts EventType.asStr EventOutcome.asStr e).flatten
        ≠ (env.hashParts EventType.asStr EventOutcome.asStr e').flatten) ∧
    (∀ e : AuditEvent, ∃ e', e'.content ≠ e.content ∧ env.computeHash e' = env.computeHash e) ∧
    (∀ rows rows' : List Row, env.verifyChain rows = true → env.verifyChain rows' = true →
      rows.map Record.eventHash = rows'.map Record.eventHash →
      (rows.map Record.content = rows'.map Record.content ↔ env.SameLayouts rows rows')) ∧
    ∀ rows : List Row, rows ≠ [] → env.verifyChain rows = true → ∃ rows',
      rows'.map Record.content ≠ rows.map Record.content ∧
      rows'.map Record.eventHash = rows.map Record.eventHash ∧ env.verifyChain rows' = true := by
  refine ⟨fun e e' => ?_, fun e => ?_, fun rows rows' h h' hhash => ?_, fun rows hne h => ?_⟩
  · constructor
    · intro hcommits
      by_cases hflatten : (env.hashParts EventType.asStr EventOutcome.asStr e).flatten
          = (env.hashParts EventType.asStr EventOutcome.asStr e').flatten
      · have hhash : env.computeHash e = env.computeHash e' := congrArg env.sha256 hflatten
        exact .inl (Hashing.sameLayout_of_content (hcommits hhash))
      · exact .inr hflatten
    · rintro hcases hhash
      have hflatten := hsha hhash
      rcases hcases with hlayout | hne
      · exact (Hashing.content_eq_iff_sameLayout hjson asStr_eventType_injective
          asStr_eventOutcome_injective hflatten).mpr hlayout
      · exact absurd hflatten hne
  · exact ⟨e.shiftIp, content_shiftIp e, Hashing.computeHash_shiftIp e⟩
  · exact Hashing.contents_eq_iff_sameLayouts hsha hjson (Hashing.eventHash_of_verifyChain h)
      (Hashing.eventHash_of_verifyChain h') hhash
  · obtain ⟨row, rows, rfl⟩ := List.exists_cons_of_ne_nil hne
    refine ⟨row.shiftIp :: rows, fun hcontents => ?_, ?_, ?_⟩
    · exact content_shiftIp row (List.cons.inj hcontents).1
    · rw [List.map_cons, List.map_cons, eventHash_shiftIp]
    · rw [Hashing.verifyChain_eq_loop] at h ⊢
      have hsame : Hashing.verifyChain.loop env (row.shiftIp :: rows) none
          = Hashing.verifyChain.loop env (row :: rows) none := Hashing.loop_shiftIp [] rows row none
      rw [hsame]
      exact h

/-! ### An instance -/

namespace Instance

/-- A text that ends itself: a `c` before each character and an `e` at the end. -/
def stringCode : List Char → List Char
  | [] => ['e']
  | c :: cs => 'c' :: c :: stringCode cs

def numberCode : Number → List Char
  | .posInt n => 'p' :: decFixed 20 n.toNat
  | .negInt n => 'm' :: decFixed 20 n
  | .float f => 'x' :: decFixed 20 f.1.toNat

mutual

/-- A text of a JSON value that ends itself. -/
def jsonCode : Json → List Char
  | .null => ['n']
  | .bool b => ['b', if b then 't' else 'f']
  | .number n => 'd' :: numberCode n
  | .string s => 's' :: stringCode s.toList
  | .array items => 'a' :: itemsCode items
  | .object members => 'o' :: membersCode members

def itemsCode : List Json → List Char
  | [] => ['e']
  | item :: items => ',' :: (jsonCode item ++ itemsCode items)

def membersCode : List (String × Json) → List Char
  | [] => ['e']
  | (key, value) :: members => ',' :: (stringCode key.toList ++ (jsonCode value
    ++ membersCode members))

end

theorem stringCode_inj : ∀ {a b r s : List Char}, stringCode a ++ r = stringCode b ++ s →
    a = b ∧ r = s
  | [], [], _, _, h => ⟨rfl, (List.cons.inj h).2⟩
  | [], _ :: _, _, _, h => absurd (List.cons.inj h).1 (by decide)
  | _ :: _, [], _, _, h => absurd (List.cons.inj h).1 (by decide)
  | x :: a, y :: b, _, _, h => by
    obtain ⟨hxy, htail⟩ := List.cons.inj (List.cons.inj h).2
    obtain ⟨hab, hrs⟩ := stringCode_inj htail
    exact ⟨by rw [hxy, hab], hrs⟩

theorem length_numberCode (n : Number) : (numberCode n).length = 21 := by
  cases n <;> simp [numberCode]

theorem numberCode_injective {a b : Number} (h : numberCode a = numberCode b) : a = b := by
  have hword (n : UInt64) : n.toNat < 10 ^ 20 := n.toNat_lt.trans (by decide)
  cases a with
  | posInt n =>
    cases b with
    | posInt m =>
      have := decFixed_injective 20 (hword n) (hword m) (List.cons.inj h).2
      rw [UInt64.toNat_inj.mp this]
    | negInt m => exact absurd (List.cons.inj h).1 (by decide)
    | float g => exact absurd (List.cons.inj h).1 (by decide)
  | negInt n =>
    cases b with
    | posInt m => exact absurd (List.cons.inj h).1 (by decide)
    | negInt m =>
      have := decFixed_injective 20 (n.isLt.trans (by decide)) (m.isLt.trans (by decide))
        (List.cons.inj h).2
      rw [Fin.ext this]
    | float g => exact absurd (List.cons.inj h).1 (by decide)
  | float f =>
    cases b with
    | posInt m => exact absurd (List.cons.inj h).1 (by decide)
    | negInt m => exact absurd (List.cons.inj h).1 (by decide)
    | float g =>
      have := decFixed_injective 20 (hword f.1) (hword g.1) (List.cons.inj h).2
      rw [Subtype.ext (UInt64.toNat_inj.mp this)]

mutual

theorem jsonCode_inj : ∀ (a b : Json) {r s : List Char}, jsonCode a ++ r = jsonCode b ++ s →
    a = b ∧ r = s
  | .null, b, r, s, h => by
    cases b <;> first | exact absurd (List.cons.inj h).1 (by decide) | skip
    exact ⟨rfl, (List.cons.inj h).2⟩
  | .bool x, b, r, s, h => by
    cases b <;> first | exact absurd (List.cons.inj h).1 (by decide) | skip
    rename_i y
    obtain ⟨hxy, hrs⟩ := List.cons.inj (List.cons.inj h).2
    refine ⟨?_, hrs⟩
    cases x <;> cases y <;> first | rfl | exact absurd hxy (by decide)
  | .number n, b, r, s, h => by
    cases b <;> first | exact absurd (List.cons.inj h).1 (by decide) | skip
    obtain ⟨hcode, hrs⟩ := List.append_inj (List.cons.inj h).2
      (by rw [length_numberCode, length_numberCode])
    exact ⟨by rw [numberCode_injective hcode], hrs⟩
  | .string x, b, r, s, h => by
    cases b <;> first | exact absurd (List.cons.inj h).1 (by decide) | skip
    obtain ⟨hxy, hrs⟩ := stringCode_inj (List.cons.inj h).2
    exact ⟨by rw [String.toList_inj.mp hxy], hrs⟩
  | .array xs, b, r, s, h => by
    cases b <;> first | exact absurd (List.cons.inj h).1 (by decide) | skip
    obtain ⟨hxy, hrs⟩ := itemsCode_inj xs _ (List.cons.inj h).2
    exact ⟨by rw [hxy], hrs⟩
  | .object xs, b, r, s, h => by
    cases b <;> first | exact absurd (List.cons.inj h).1 (by decide) | skip
    obtain ⟨hxy, hrs⟩ := membersCode_inj xs _ (List.cons.inj h).2
    exact ⟨by rw [hxy], hrs⟩

theorem itemsCode_inj : ∀ (a b : List Json) {r s : List Char}, itemsCode a ++ r = itemsCode b ++ s →
    a = b ∧ r = s
  | [], [], _, _, h => ⟨rfl, (List.cons.inj h).2⟩
  | [], _ :: _, _, _, h => absurd (List.cons.inj h).1 (by decide)
  | _ :: _, [], _, _, h => absurd (List.cons.inj h).1 (by decide)
  | x :: a, y :: b, r, s, h => by
    have htail : jsonCode x ++ itemsCode a ++ r = jsonCode y ++ itemsCode b ++ s :=
      (List.cons.inj h).2
    rw [List.append_assoc, List.append_assoc] at htail
    obtain ⟨hxy, htail⟩ := jsonCode_inj x y htail
    obtain ⟨hab, hrs⟩ := itemsCode_inj a b htail
    exact ⟨by rw [hxy, hab], hrs⟩

theorem membersCode_inj : ∀ (a b : List (String × Json)) {r s : List Char},
    membersCode a ++ r = membersCode b ++ s → a = b ∧ r = s
  | [], [], _, _, h => ⟨rfl, (List.cons.inj h).2⟩
  | [], _ :: _, _, _, h => absurd (List.cons.inj h).1 (by decide)
  | _ :: _, [], _, _, h => absurd (List.cons.inj h).1 (by decide)
  | (k, x) :: a, (l, y) :: b, r, s, h => by
    have htail : stringCode k.toList ++ (jsonCode x ++ membersCode a) ++ r
        = stringCode l.toList ++ (jsonCode y ++ membersCode b) ++ s := (List.cons.inj h).2
    simp only [List.append_assoc] at htail
    obtain ⟨hkl, htail⟩ := stringCode_inj htail
    obtain ⟨hxy, htail⟩ := jsonCode_inj x y htail
    obtain ⟨hab, hrs⟩ := membersCode_inj a b htail
    exact ⟨by rw [String.toList_inj.mp hkl, hxy, hab], hrs⟩

end

/-- A hash that is its input, with `jsonCode` as the text of a JSON value. -/
def plain : Hashing where
  sha256 bytes := bytes
  jsonToString json := some (String.ofList (jsonCode json))
  jsonbNumber n := n

theorem jsonText_plain : JsonText plain where
  total json := ⟨_, rfl⟩
  injective {a b text} ha hb := by
    have hcode := String.ofList_injective (Option.some.inj (ha.trans hb.symm))
    have happend : jsonCode a ++ [] = jsonCode b ++ [] := by rw [hcode]
    exact (jsonCode_inj a b happend).1

/-- A record with this actor and target. -/
def event (actor target : String) : AuditEvent where
  id := ⟨1⟩
  eventType := .CertificateIssuance
  actor := actor
  target := target
  action := "issue"
  outcome := .Success
  details := none
  ipAddress := some "192.0.2.1"
  userAgent := none
  sessionId := none
  previousHash := none
  eventHash := []
  timestamp := DateTime.ofMicros 1700000000000000
  signature := none
  signingKeyId := none

end Instance

open Instance

/-- The record of `ca` on `rootcert` has the hash of the record of `caroot` on `cert`. -/
theorem moved_text_same_hash :
    plain.computeHash (event "ca" "rootcert") = plain.computeHash (event "caroot" "cert") ∧
    (event "ca" "rootcert").content ≠ (event "caroot" "cert").content := by
  refine ⟨by decide +kernel, fun h => ?_⟩
  exact absurd (congrArg Content.actor h) (by decide)

/-- Two records of the same layout, with other actors, have different hashes. -/
theorem commits_iff_sameLayout_two_events :
    plain.computeHash (event "ca" "rootcert") ≠ plain.computeHash (event "ra" "rootcert") := by
  intro h
  have hlayout : plain.SameLayout EventType.asStr EventOutcome.asStr (event "ca" "rootcert")
      (event "ra" "rootcert") := by
    unfold Hashing.SameLayout
    decide +kernel
  have hcontent := ((commits_iff_sameLayout plain Function.injective_id jsonText_plain).1 _ _).mpr
    (.inl hlayout) h
  exact absurd (congrArg Content.actor hcontent) (by decide)

end Ostrich.Audit
