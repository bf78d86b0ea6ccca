import Ostrich.Lib.Der
import Ostrich.Lib.Time

/-!
# DER of the OCSP responder (`ostrich-ocsp/src/der_util.rs`)

The encoders of the elements of a response, and the reader of the elements of a request.  A length
has as many octets as it needs when it is written; when it is read, at most four.
-/

namespace Ostrich.Ocsp.DerUtil

open Text

/-! ### Encoding -/

/-- Encode a DER definite length. -/
def derLength (len : ℕ) : List UInt8 :=
  if len < 0x80 then [UInt8.ofNat len]
  else
    let bytes := Der.minBytes len
    (0x80 ||| UInt8.ofNat bytes.length) :: bytes

/-- Encode a complete TLV: tag, DER length, content. -/
def tlv (tag : UInt8) (content : List UInt8) : List UInt8 :=
  tag :: (derLength content.length ++ content)

/-- SEQUENCE wrapper. -/
def seq (content : List UInt8) : List UInt8 := tlv 0x30 content

/-- OCTET STRING. -/
def octetString (bytes : List UInt8) : List UInt8 := tlv 0x04 bytes

/-- NULL. -/
def null : List UInt8 := [0x05, 0x00]

/-- ENUMERATED with a single-octet value. -/
def enumerated (value : UInt8) : List UInt8 := tlv 0x0A [value]

/-- The content octets of the positive INTEGER with this magnitude: minimal length, a leading zero
only when the high bit of the magnitude is set. -/
def unsignedContent (magnitude : List UInt8) : List UInt8 :=
  match magnitude.dropWhile (· = 0) with
  | [] => [0x00]
  | b :: bytes => if b &&& 0x80 ≠ 0 then 0x00 :: b :: bytes else b :: bytes

/-- Positive INTEGER from unsigned magnitude bytes. -/
def unsignedInteger (magnitude : List UInt8) : List UInt8 := tlv 0x02 (unsignedContent magnitude)

/-- `{:04}` of a year: the sign counts as one of the four characters. -/
def paddedYear (year : ℤ) : List Char :=
  let digits := Nat.log 10 year.natAbs + 1
  if year < 0 then '-' :: decFixed (max 3 digits) year.natAbs
  else decFixed (max 4 digits) year.natAbs

/-- GeneralizedTime in DER form: `YYYYMMDDHHMMSSZ`. -/
def generalizedTime (t : DateTime) : List UInt8 :=
  let (year, month, day) := DateTime.civil (t.secs / 86400)
  let second := (t.secs % 86400).toNat
  tlv 0x18 (utf8 (String.ofList (paddedYear year ++ decFixed 2 month.toNat ++ decFixed 2 day.toNat
    ++ decFixed 2 (second / 3600) ++ decFixed 2 (second / 60 % 60) ++ decFixed 2 (second % 60)
    ++ ['Z'])))

/-! ### Object identifiers -/

/-- The octets of an arc: seven bits each, with a mark on all but the last. -/
def arcBytes (arc : ℕ) : List UInt8 :=
  match Nat.digits 128 arc with
  | [] => [0]
  | last :: rest => (rest.reverse.map fun d => UInt8.ofNat (128 + d)) ++ [UInt8.ofNat last]

/-- A decimal number. -/
def parseArc (text : String) : Option ℕ :=
  match text.toList with
  | [] => none
  | digits => digits.foldlM (fun n c =>
      if '0' ≤ c ∧ c ≤ '9' then some (10 * n + (c.toNat - 48)) else none) 0

/-- The content octets of an OBJECT IDENTIFIER in dotted form (`ObjectIdentifier::new`). -/
def objectIdentifier (dotted : String) : Option (List UInt8) := do
  match ← (splitChar '.' dotted).mapM parseArc with
  | first :: second :: third :: arcs =>
    if first ≤ 2 ∧ second < 40 then
      some (arcBytes (40 * first + second) ++ (third :: arcs).flatMap arcBytes)
    else none
  | _ => none

/-! ### Reading -/

/-- Read one TLV: tag, content, and what follows.  Nothing on truncated or non-DER input. -/
def readTlv (input : List UInt8) : Option (UInt8 × List UInt8 × List UInt8) :=
  match input with
  | tag :: firstLen :: rest =>
    if firstLen < 0x80 then value tag firstLen.toNat rest
    else
      let numOctets := (firstLen &&& 0x7F).toNat
      -- indefinite and unreasonable lengths
      if numOctets = 0 ∨ numOctets > 4 ∨ rest.length < numOctets then none
      else value tag (Der.ofBytes (rest.take numOctets)) (rest.drop numOctets)
  | _ => none
where
  value (tag : UInt8) (len : ℕ) (rest : List UInt8) : Option (UInt8 × List UInt8 × List UInt8) :=
    if rest.length < len then none else some (tag, rest.take len, rest.drop len)

end Ostrich.Ocsp.DerUtil
