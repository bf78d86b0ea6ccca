import Ostrich.Lib.FindList
import Ostrich.Lib.Base64
import Ostrich.Lib.Outcome

/-!
# PEM (`ostrich-common/src/util/encoding.rs`)

`derToPem` writes bytes as a PEM block, and `pemToDer` reads the first block of a text: it looks for
the first BEGIN marker and for the first END marker, each from the start of the text, and decodes
what lies between them.

The positions in a text are counted in characters.  The slice between the markers panics where it
would end before it starts.
-/

namespace Ostrich.Common.Encoding

open Base64 FindList Text

/-- The errors of the crate that these functions return. -/
inductive Error where
  | InvalidPem (msg : String)
  | Decoding
  deriving DecidableEq, Repr

/-- Encode bytes to base64. -/
def encodeBase64 (data : List UInt8) : List Char := encodeStandard data

/-- Decode base64 to bytes. -/
def decodeBase64 (data : List Char) : Except Error (List UInt8) :=
  match decodeStandard data with
  | some bytes => .ok bytes
  | none => .error .Decoding

/-- The slices of `chunkSize` characters, the last one shorter. -/
def chunks (chunkSize : ℕ) (s : List Char) : List (List Char) :=
  if _h : s = [] ∨ chunkSize = 0 then []
  else s.take chunkSize :: chunks chunkSize (s.drop chunkSize)
termination_by s.length
decreasing_by
  rw [not_or] at _h
  have hpos := List.length_pos_of_ne_nil _h.1
  rw [List.length_drop]
  omega

/-- Split a string into chunks of a given size with newlines. -/
def chunkString (s : List Char) (chunkSize : ℕ) : List Char :=
  ['\n'].intercalate (chunks chunkSize s)

/-- The five dashes that end a marker. -/
def dashes : List Char := ['-', '-', '-', '-', '-']

/-- `-----BEGIN `. -/
def beginMarker : List Char := dashes ++ ['B', 'E', 'G', 'I', 'N', ' ']

/-- `-----END `. -/
def endMarker : List Char := dashes ++ ['E', 'N', 'D', ' ']

/-- Encode DER data to PEM format. -/
def derToPem (der : List UInt8) (label : List Char) : List Char :=
  beginMarker ++ label ++ dashes ++ ['\n'] ++ chunkString (encodeBase64 der) 64 ++ ['\n']
    ++ endMarker ++ label ++ dashes ++ ['\n']

/-- A step that returns an error. -/
def orErr {α : Type} (msg : String) : Option α → Outcome Error α
  | some a => .ok a
  | none => .err (.InvalidPem msg)

/-- `&s[start..stop]`. -/
def slice (s : List Char) (start stop : ℕ) : Outcome Error (List Char) :=
  if start ≤ stop then .ok ((s.drop start).take (stop - start)) else .panic

/-- Decode PEM data to DER format. -/
def pemToDer (pem : List Char) (expectedLabel : Option (List Char)) :
    Outcome Error (List UInt8) := do
  let pem := trimList pem
  let beginIdx ← orErr "Missing BEGIN marker" (find beginMarker pem)
  let endIdx ← orErr "Missing END marker" (find endMarker pem)
  let labelStart := beginIdx + beginMarker.length
  let labelLen ← orErr "Malformed BEGIN marker" (find dashes (pem.drop labelStart))
  let labelEnd := labelLen + labelStart
  let label ← slice pem labelStart labelEnd
  match expectedLabel with
  | some expected =>
    if label ≠ expected then
      .err (.InvalidPem ("Expected label '" ++ String.ofList expected ++ "', got '"
        ++ String.ofList label ++ "'"))
    else content pem labelEnd endIdx
  | none => content pem labelEnd endIdx
where
  /-- Decode the base64 content between the markers. -/
  content (pem : List Char) (labelEnd endIdx : ℕ) : Outcome Error (List UInt8) := do
    let content ← slice pem (labelEnd + 5) endIdx
    match decodeBase64 (content.filter fun c => !isWhitespace c) with
    | .ok der => return der
    | .error e => .err e

end Ostrich.Common.Encoding
