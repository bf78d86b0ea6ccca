import Ostrich.Lib.UriPath

/-!
# Paths of the reverse proxies (`ostrich-common/src/util/proxy_path.rs`)

A string is given by its octets: all that is looked for is ASCII.
-/

namespace Ostrich.Common.ProxyPath

open UriPath

/-- Why a proxied request path was refused. -/
inductive PathRejection where
  | MissingServicePrefix
  | EmptySegment
  | DotSegment
  | MalformedPercentEncoding
  | EncodedDelimiter
  | ControlCharacter
  deriving DecidableEq, Repr

def PathRejection.reason : PathRejection → String
  | .MissingServicePrefix => "missing_service_prefix"
  | .EmptySegment => "empty_segment"
  | .DotSegment => "dot_segment"
  | .MalformedPercentEncoding => "malformed_percent_encoding"
  | .EncodedDelimiter => "encoded_delimiter"
  | .ControlCharacter => "control_character"

/-- The loop of `percent_decode_segment`, with the octets it has put out. -/
def decodeLoop (out : List UInt8) : List UInt8 → Except PathRejection (List UInt8)
  | [] => .ok out
  | b :: bytes =>
    if b = percent then
      match bytes with
      | hi :: lo :: rest =>
        match hex hi, hex lo with
        | some hi, some lo => decodeLoop (out ++ [(hi <<< 4) ||| lo]) rest
        | _, _ => .error .MalformedPercentEncoding
      | _ => .error .MalformedPercentEncoding
    else decodeLoop (out ++ [b]) bytes

/-- Strictly percent-decode one path segment. -/
def percentDecodeSegment (segment : List UInt8) : Except PathRejection (List UInt8) :=
  decodeLoop [] segment

/-- What is wrong with an octet of a decoded segment. -/
def octetRejection (b : UInt8) : Option PathRejection :=
  if b = slash ∨ b = question ∨ b = hash ∨ b = backslash then some .EncodedDelimiter
  else if b ≤ 0x1F ∨ b = 0x7F then some .ControlCharacter
  else none

/-- The checks of one segment. -/
def checkSegment (segment : List UInt8) : Except PathRejection Unit := do
  if segment.isEmpty then .error .EmptySegment
  else
    let decoded ← percentDecodeSegment segment
    if decoded = [dot] ∨ decoded = [dot, dot] then .error .DotSegment
    else
      match decoded.findSome? octetRejection with
      | some e => .error e
      | none => .ok ()

/-- `s.strip_prefix(p)`. -/
def stripPrefix (p s : List UInt8) : Option (List UInt8) :=
  if p <+: s then some (s.drop p.length) else none

/-- The octets of `/api`. -/
def apiPrefix : List UInt8 := [slash, 0x61, 0x70, 0x69]

/-- Derive the backend path from the raw request path and validate it. -/
def validateBackendPath (rawPath svc : List UInt8) : Except PathRejection (List UInt8) :=
  let rest := ((stripPrefix apiPrefix rawPath).filter fun r => [slash] <+: r).getD rawPath
  match (stripPrefix [slash] rest).bind fun r => (stripPrefix svc r).bind (stripPrefix [slash]) with
  | none => .error .MissingServicePrefix
  | some rest => do
    (rest.splitOn slash).forM checkSegment
    .ok rest

end Ostrich.Common.ProxyPath
