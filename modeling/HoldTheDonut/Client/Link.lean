import HoldTheDonut.Core.IpLiteral
import HoldTheDonut.Core.Lossy
import HoldTheDonut.Routing.Config
import HoldTheDonut.Text.Percent
import HoldTheDonut.Text.Search

/-!
# Share links

`donut-client/src/link.rs` reads a share link

    vless://UUID@host:port?key=value&key=value#label

and `imports.rs` makes the outbound of a client configuration from it.  The text is cut at
its separators first, and only the label and the values of the query are percent-decoded
afterwards.

`pct_decode` looks at the bytes of its text but takes the two digits behind a percent sign
as a slice of the text, `&s[i + 1..i + 3]`, and such a slice must not begin or end inside a
character.  Where it does the program panics; a panic is `none` in this module, around the
`Except` of the function itself.  The digits are read by `u8::from_str_radix`, which takes a
sign as well.
-/

namespace HoldTheDonut
namespace Client
namespace Link

open Text (splitOnce rsplitOnce cut dropStart bytes)

/-! ## Percent-decoding -/

/-- `str::is_char_boundary`, given the bytes from the index on. -/
def isCharBoundary : List UInt8 → Bool
  | [] => true
  | b :: _ => decide (b.toNat < 0x80 ∨ 0xC0 ≤ b.toNat)

/-- The digits of `from_str_radix`, with the number read so far. -/
def readRadix (radix : ℕ) : ℕ → List UInt8 → Option UInt8
  | n, [] => some (UInt8.ofNat n)
  | n, b :: digits =>
    match IpLiteral.toDigit radix b with
    | none => none
    | some d => if n * radix + d < 256 then readRadix radix (n * radix + d) digits else none

/-- `u8::from_str_radix`.  A plus is a sign, and a minus is one that an unsigned number does
not have. -/
def fromStrRadix (radix : ℕ) : List UInt8 → Option UInt8
  | [] => none
  | b :: digits =>
    if (b = 43 ∨ b = 45) ∧ digits = [] then none
    else if b = 43 then readRadix radix 0 digits
    else readRadix radix 0 (b :: digits)

/-- The loop of `pct_decode`, from an index on. -/
def pctDecodeLoop : List UInt8 → Option (List UInt8)
  | [] => some []
  | [b] => some [b]
  | [b, x] => some [b, x]
  | b :: x :: y :: rest =>
    if b = Text.Percent.sign then
      -- the slice `&s[i + 1..i + 3]`
      if isCharBoundary (x :: y :: rest) = true ∧ isCharBoundary rest = true then
        match fromStrRadix 16 [x, y] with
        | some v => (pctDecodeLoop rest).map (v :: ·)
        | none => (pctDecodeLoop (x :: y :: rest)).map (b :: ·)
      else none
    else (pctDecodeLoop (x :: y :: rest)).map (b :: ·)

/-- `pct_decode`. -/
def pctDecode (s : Text) : Option Text := (pctDecodeLoop (bytes s)).map lossyText

/-! ## The parser -/

structure VlessLink where
  uuid : Text
  host : Text
  port : UInt16
  security : Text
  sni : Text
  fp : Text
  flow : Text
  network : Text
  label : Text
  deriving DecidableEq

/-- `VlessLink::server_name`. -/
def VlessLink.serverName (l : VlessLink) : Text := if l.sni = [] then l.host else l.sni

/-- The errors, with the text they quote. -/
inductive LinkError where
  | notVless
  | missingUuidAtHost
  | emptyUuid
  | malformedIpv6HostPort (s : Text)
  | badPort (s : Text)
  | missingPort (s : Text)
  deriving DecidableEq

/-- `str::parse::<u16>`, with the context the caller adds to its error. -/
def parsePort (s p : Text) : Except LinkError UInt16 :=
  match Text.parseUnsigned 65536 p with
  | none => .error (.badPort s)
  | some n => .ok (UInt16.ofNat n)

/-- `split_host_port`. -/
def splitHostPort (s : Text) : Except LinkError (Text × UInt16) :=
  match dropStart ['['] s with
  | some rest =>
    match cut [']', ':'] rest with
    | none => .error (.malformedIpv6HostPort s)
    | some (h, p) => (parsePort s p).map fun port => (h, port)
  | none =>
    match rsplitOnce ':' s with
    | none => .error (.missingPort s)
    | some (h, p) => (parsePort s p).map fun port => (h, port)

/-- A link behind its scheme, cut at `#` and `?`. -/
structure Parts where
  authority : Text
  query : Text
  fragment : Text

def scheme : Text := "vless://".toList

/-- The two cuts of `parse`. -/
def cutParts (rest : Text) : Parts :=
  let (rest, fragment) := (splitOnce '#' rest).getD (rest, [])
  let (authority, query) := (splitOnce '?' rest).getD (rest, [])
  ⟨authority, query, fragment⟩

/-- The assignments of the loop over the query; other keys are skipped. -/
def VlessLink.set (link : VlessLink) (k v : Text) : VlessLink :=
  if k = "security".toList then { link with security := v }
  else if k = "sni".toList then { link with sni := v }
  else if k = "fp".toList then { link with fp := v }
  else if k = "flow".toList then { link with flow := v }
  else if k = "type".toList then { link with network := v }
  else link

/-- A pair of the query at its first `=`. -/
def keyValue (pair : Text) : Text × Text := (splitOnce '=' pair).getD (pair, [])

/-- The pairs of a query. -/
def pairs (query : Text) : List (Text × Text) :=
  ((query.splitOn '&').filter fun pair => !pair.isEmpty).map keyValue

/-- The loop over the query. -/
def applyQuery : List (Text × Text) → VlessLink → Option VlessLink
  | [], link => some link
  | (k, v) :: kvs, link =>
    match pctDecode v with
    | none => none
    | some v => applyQuery kvs (link.set k v)

/-- What `parse` does behind the label. -/
def parseParts (parts : Parts) (label : Text) : Option (Except LinkError VlessLink) :=
  match splitOnce '@' parts.authority with
  | none => some (.error .missingUuidAtHost)
  | some (uuid, hostport) =>
    if uuid = [] then some (.error .emptyUuid)
    else
      match splitHostPort hostport with
      | .error e => some (.error e)
      | .ok (host, port) =>
        (applyQuery (pairs parts.query)
          { uuid, host, port, security := [], sni := [], fp := [], flow := [],
            network := "tcp".toList, label }).map .ok

/-- `parse`.  A link without a fragment has the empty label, which decodes to itself. -/
def parse (s : Text) : Option (Except LinkError VlessLink) :=
  match dropStart scheme (Routing.trim s) with
  | none => some (.error .notVless)
  | some rest =>
    match pctDecode (cutParts rest).fragment with
    | none => none
    | some label => parseParts (cutParts rest) label

end Link
end Client
end HoldTheDonut
