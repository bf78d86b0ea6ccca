import Ostrich.Lib.Escaped
import Ostrich.Lib.Utf8

/-!
# Distinguished names of the client lists (`ostrich-common/src/grpc_tls.rs`)

The spacing and the escapes of a configured subject, before it is given to the DN parser.  A text
is its UTF-8 octets; every character the code looks for is ASCII.
-/

namespace Ostrich.Common.GrpcDn

open Escaped

/-- RFC 4514 §2.4 characters that may follow a backslash, besides two hex digits. -/
def dnEscapable : List UInt8 := [0x20, 0x5c, 0x22, 0x23, 0x3d, 0x2b, 0x2c, 0x3b, 0x3c, 0x3e]

/-- Insignificant padding: ASCII space, tab, CR and LF only. -/
def isDnPadding (b : UInt8) : Bool := b = 0x20 || b = 0x09 || b = 0x0d || b = 0x0a

/-! ### Escapes -/

/-- `dn` with every RFC 4514 escape decoded to its byte. -/
def unescapeDnBytes : List UInt8 → List UInt8
  | [] => []
  | b :: rest =>
    if b ≠ backslash then b :: unescapeDnBytes rest
    else match rest with
      | [] => []
      | [c] => [c]
      | h :: l :: rest =>
        if isHexDigit h && isHexDigit l then
          (hexValue h <<< 4 ||| hexValue l) :: unescapeDnBytes rest
        else h :: unescapeDnBytes (l :: rest)

/-- The loop of `validateDnEscapes`; `prev` is the byte before the ones that are left. -/
def validateDnEscapes.loop : (prev : Option UInt8) → List UInt8 → Except String Unit
  | _, [] => .ok ()
  | prev, b :: rest =>
    if b ≠ backslash then loop (some b) rest
    else match rest with
      | [] => .error "dangling escape: the subject ends with a backslash"
      | next :: rest =>
        if next = 0x2c ∨ next = 0x2b then
          if prev = some backslash then
            .error ("a value with a backslash directly followed by ',' or '+' is not supported in "
              ++ "allowlist entries (ambiguous to the DN parser, also when hex-escaped)")
          else loop (some next) rest
        else if next ∈ dnEscapable then loop (some next) rest
        else if isHexDigit next then
          match rest with
          | [] => .error "incomplete hex escape (\\ must be followed by two hex digits)"
          | low :: rest =>
            if isHexDigit low then loop (some low) rest
            else .error "incomplete hex escape (\\ must be followed by two hex digits)"
        else .error "invalid escape sequence"

/-- Strict RFC 4514 §2.4 escape check. -/
def validateDnEscapes (dn : List UInt8) : Except String Unit :=
  match validateDnEscapes.loop none dn with
  | .error e => .error e
  | .ok () =>
    if validateUtf8 (unescapeDnBytes dn) then .ok ()
    else .error "hex escapes do not decode to valid UTF-8"

/-! ### Spacing -/

/-- The loop of `trimUnescapedTrailingWhitespace`, over the text from its end on. -/
def trimUnescapedTrailingWhitespace.loop : List UInt8 → List UInt8
  | [] => []
  | last :: stripped =>
    if isDnPadding last then
      if (stripped.takeWhile (· = backslash)).length % 2 = 1 then last :: stripped
      else loop stripped
    else last :: stripped

/-- Strip trailing ASCII padding that is not escaped. -/
def trimUnescapedTrailingWhitespace (value : List UInt8) : List UInt8 :=
  (trimUnescapedTrailingWhitespace.loop value.reverse).reverse

/-- `trim_matches(is_dn_padding)`. -/
def trimMatches (s : List UInt8) : List UInt8 := (s.dropWhile isDnPadding).rdropWhile isDnPadding

def pushDnComponent (out component : List UInt8) : List UInt8 :=
  match component.span (· ≠ 0x3d) with
  | (key, _ :: value) =>
    out ++ trimMatches key ++ 0x3d ::
      trimUnescapedTrailingWhitespace (value.dropWhile isDnPadding)
  | (_, []) => out ++ trimMatches component

/-- The loop of `normalizeDnSpacing`. -/
def normalizeDnSpacing.loop (out component : List UInt8) (escaped : Bool) :
    List UInt8 → List UInt8
  | [] => pushDnComponent out component
  | c :: rest =>
    if escaped then loop out (component ++ [c]) false rest
    else if c = backslash then loop out (component ++ [c]) true rest
    else if c = 0x2c ∨ c = 0x2b then loop (pushDnComponent out component ++ [c]) [] false rest
    else loop out (component ++ [c]) false rest

/-- Remove insignificant spaces around unescaped `,` / `+` separators and around the `=` of each
attribute. -/
def normalizeDnSpacing (dn : List UInt8) : List UInt8 := normalizeDnSpacing.loop [] [] false dn

end Ostrich.Common.GrpcDn
