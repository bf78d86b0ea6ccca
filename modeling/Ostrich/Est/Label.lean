import Ostrich.Est.Rest
import Ostrich.Lib.Text

/-!
# EST profile labels (`ostrich-est/src/label.rs`)

A label is `PT<ptval>[-AK<akval>][-VP<vpval>][-CC<ccval>]`, the fields after the profile type in any
order.  `resolve` is what the service makes of a label before it selects a CA backend.
-/

namespace Ostrich.Est.Label

open Text

/-- Maximum accepted requested validity in days. -/
def MAX_VALIDITY_DAYS : ℕ := 1185

/-- Maximum accepted CC/S/A code length. -/
def MAX_CCSA_LEN : ℕ := 16

inductive LabelError where
  | Empty
  | MissingProfileType
  | UnknownProfileType (ptval : String)
  | UnsupportedProfileType (ptval : String)
  | UnknownKeyAlgorithm (v : String)
  | InvalidValidity (v : String) (max : ℕ)
  | InvalidCcsa (v : String)
  | BadSegment (seg : String)
  deriving DecidableEq, Repr

def LabelError.display : LabelError → String
  | .Empty => "empty label"
  | .MissingProfileType => "label must begin with a PT<profile-type> segment"
  | .UnknownProfileType ptval => "unknown profile type '" ++ ptval ++ "'"
  | .UnsupportedProfileType ptval =>
    "profile type '" ++ ptval ++ "' is recognized but not yet supported for issuance"
  | .UnknownKeyAlgorithm v => "unknown key algorithm '" ++ v ++ "' (expected 2048 or P384)"
  | .InvalidValidity v max =>
    "invalid validity '" ++ v ++ "' (expected 1..=" ++ toString max ++ " days)"
  | .InvalidCcsa v => "invalid CC/S/A code '" ++ v ++ "'"
  | .BadSegment seg => "unknown or duplicate label segment '" ++ seg ++ "'"

/-- The key algorithm a label requests. -/
inductive KeyAlgo where
  | Rsa2048
  | EcP384
  deriving DecidableEq, Repr

/-- The canonical token as it appears in the label. -/
def KeyAlgo.token : KeyAlgo → String
  | .Rsa2048 => "2048"
  | .EcP384 => "P384"

def KeyAlgo.fromToken (token : String) : Option KeyAlgo :=
  if token = "2048" then some .Rsa2048
  else if token = "P384" then some .EcP384
  else none

/-- A parsed, validated EST profile label. -/
structure ParsedLabel where
  profileType : String
  keyAlgo : Option KeyAlgo := none
  validityDays : Option ℕ := none
  ccsa : Option String := none
  deriving DecidableEq, Repr

/-- Recognized profile-type tokens. -/
def knownProfileTypes : List String :=
  ["DEV", "TLS", "DC", "EMAIL", "IPSEC", "MCAUTH", "MCKEY", "KERB", "EFS"]

/-- Map the profile type to a certificate profile name. -/
def ParsedLabel.profileName (label : ParsedLabel) : Except LabelError String :=
  if label.profileType = "DEV" then .ok "tls_client"
  else if label.profileType = "TLS" then .ok "tls_server"
  else if label.profileType = "DC" then .ok "tls_server_client"
  else if label.profileType = "EFS" then .ok "efs"
  else .error (.UnsupportedProfileType label.profileType)

/-! ### Parsing -/

/-- One round of the loop over the segments after the first. -/
def addSegment (label : ParsedLabel) (seg : String) : Except LabelError ParsedLabel :=
  match stripPrefix seg "AK" with
  | some v =>
    if label.keyAlgo.isSome then .error (.BadSegment seg)
    else match KeyAlgo.fromToken v with
      | some algo => .ok { label with keyAlgo := some algo }
      | none => .error (.UnknownKeyAlgorithm v)
  | none =>
    match stripPrefix seg "VP" with
    | some v =>
      if label.validityDays.isSome then .error (.BadSegment seg)
      else match parseU32 v with
        | none => .error (.InvalidValidity v MAX_VALIDITY_DAYS)
        | some days =>
          if days = 0 ∨ MAX_VALIDITY_DAYS < days then .error (.InvalidValidity v MAX_VALIDITY_DAYS)
          else .ok { label with validityDays := some days }
    | none =>
      match stripPrefix seg "CC" with
      | some v =>
        if label.ccsa.isSome then .error (.BadSegment seg)
        else if v.isEmpty ∨ MAX_CCSA_LEN < v.utf8ByteSize ∨ ¬ v.toList.all Char.isAlphanum then
          .error (.InvalidCcsa v)
        else .ok { label with ccsa := some v }
      | none => .error (.BadSegment seg)

/-- Parse a label string. -/
def parseLabel (raw : String) : Except LabelError ParsedLabel :=
  let raw := trim raw
  if raw.isEmpty then .error .Empty
  else match splitChar '-' raw with
    | [] => .error .MissingProfileType
    | first :: segments =>
      match stripPrefix first "PT" with
      | none => .error .MissingProfileType
      | some ptval =>
        if ¬ knownProfileTypes.contains ptval then .error (.UnknownProfileType ptval)
        else segments.foldlM addSegment { profileType := ptval }

/-! ### Resolving -/

/-- Label-derived issuance metadata. -/
def ParsedLabel.labelMetadata (label : ParsedLabel) : List (String × String) :=
  (label.ccsa.map fun cc => ("ccsa", cc)).toList ++
    (label.validityDays.map fun v => ("requested_validity_days", toString v)).toList

/-- The profile, key algorithm and metadata that a label asks for. -/
def resolve (raw : String) : Est.Result Est.ParsedLabel :=
  match parseLabel raw with
  | .error e => .error (.BadRequest ("invalid EST label: " ++ e.display))
  | .ok parsed =>
    match parsed.profileName with
    | .error e => .error (.BadRequest e.display)
    | .ok profile =>
      .ok { profile, keyAlgo := parsed.keyAlgo.map KeyAlgo.token, metadata := parsed.labelMetadata }

end Ostrich.Est.Label
