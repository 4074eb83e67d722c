import HoldTheDonut.Core.Lossy
import HoldTheDonut.Routing.Config
import HoldTheDonut.Server.Users
import HoldTheDonut.Text.Search

/-!
# `donut-server/src/metrics.rs`: the admin endpoint

One request is served on a connection: its bytes are read, turned into text, and the text is
looked at again by everything that wants something of it, for the credentials, the method, the
path and the body.  `POST /admin/users` adds a user and `DELETE /admin/users/<id>` removes one.

How much is read is decided while reading.  `read_request` asks `request_total_len` before each
read: as long as the blank line behind the header is not there, the length is not known; once it
is, it is that of the header and the `Content-Length` in it.  Reading stops at 16 KiB, at the end
of the stream and at an error as well, and then "whatever was read" is served.

The password hash, the JSON parser and the parser for user ids are parameters.
-/

namespace HoldTheDonut
namespace Server

open Text (cut lines words dropStart trimStartMatches trimEndMatches eqIgnoreAsciiCase splitOnce)
open Routing (isWhitespace trim)

/-! ## The parts of a request -/

/-- The value of the first line of this name, `name: value`. -/
def headerValue (name : String) (headers : List Text) : Option Text :=
  headers.findSome? fun line =>
    match splitOnce ':' line with
    | none => none
    | some (key, value) => if eqIgnoreAsciiCase (trim key) name.toList then some value else none

def basicCredentials (req : Text) : Option Text :=
  (headerValue "authorization" ((lines req).takeWhile fun line => !line.isEmpty)).bind
    fun value => dropStart "Basic ".toList (trim value)

/-- The words of the request line. -/
def requestWords (req : Text) : List Text :=
  match lines req with
  | [] => []
  | line :: _ => words isWhitespace line

def requestPath (req : Text) : Text := ((requestWords req)[1]?).getD "/".toList

def requestMethod (req : Text) : Text := ((requestWords req)[0]?).getD "GET".toList

/-- Everything behind the blank line. -/
def requestBody (req : Text) : Text :=
  match cut "\r\n\r\n".toList req with
  | some (_, body) => body
  | none =>
    match cut "\n\n".toList req with
    | some (_, body) => body
    | none => []

/-! ## Reading -/

/-- The blank line, with the end of the line before it. -/
def separator : List UInt8 := [13, 10, 13, 10]

/-- The number behind `Content-Length`. -/
def contentLength (head : Text) : Option ℕ :=
  (headerValue "content-length" (lines head)).bind fun value =>
    Text.parseUnsigned (2 ^ 64) (trim value)

/-- What `request_total_len` comes to; a sum that is no `usize` overflows. -/
inductive TotalLen where
  | unknown
  | known (n : ℕ)
  | overflow
  deriving DecidableEq

def requestTotalLen (data : List UInt8) : TotalLen :=
  match cut separator data with
  | none => .unknown
  | some (before, _) =>
    let headerEnd := before.length + separator.length
    let length := ((fromUtf8 (data.take headerEnd)).bind fun head =>
      contentLength head.toList).getD 0
    if 2 ^ 64 ≤ headerEnd + length then .overflow else .known (headerEnd + length)

/-- How a stream goes on behind the bytes that were sent. -/
inductive StreamEnd where
  | eof
  | failed
  /-- Nothing more comes, and no end either. -/
  | stalls
  deriving DecidableEq

inductive Reading where
  | returned (raw : List UInt8)
  | waits
  | overflowed
  deriving DecidableEq

/-- Does the loop of `read_request` stop before its next read?  `none` is the overflow. -/
def enough (cap : ℕ) (data : List UInt8) : Option Bool :=
  match requestTotalLen data with
  | .overflow => none
  | .unknown => some (decide (cap ≤ data.length))
  | .known total => some (decide (total ≤ data.length ∨ cap ≤ data.length))

/-- `read_request`, with what the reads still to come return, none of them nothing, and what has
been read so far. -/
def readRequest (cap : ℕ) (ending : StreamEnd) : List (List UInt8) → List UInt8 → Reading
  | [], data =>
    match enough cap data with
    | none => .overflowed
    | some true => .returned data
    | some false => if ending = .stalls then .waits else .returned data
  | chunk :: reads, data =>
    match enough cap data with
    | none => .overflowed
    | some true => .returned data
    | some false => readRequest cap ending reads (data ++ chunk)

/-- The limit `serve` gives. -/
def requestCap : ℕ := 16 * 1024

/-! ## Serving -/

/-- Body of `POST /admin/users`. -/
structure AddUserReq where
  name : String := ""
  uuid : Option Text := none

/-- What the endpoint is configured with, and the parsers of other crates. -/
structure AdminEnv where
  /-- `AdminAuth::verify` of the guard, if there is one. -/
  auth : Option (Text → Bool)
  fromJson : Text → Option AddUserReq
  parseUserId : Text → Option UserId

/-- Where a request is sent. -/
inductive Route where
  | unauthorized
  | health
  | forbidden
  | listUsers
  | addUser (body : Text)
  | removeUser (rawId : Text)
  | render
  | notFound
  deriving DecidableEq

def authed (env : AdminEnv) (req : Text) : Bool :=
  match env.auth with
  | some verify => (basicCredentials req).any verify
  | none => true

/-- The `match` of `serve` on method and path, behind the check of the credentials. -/
def route (env : AdminEnv) (req : Text) : Route :=
  let method := requestMethod req
  let path := requestPath req
  if authed env req = false then .unauthorized
  else if method = "GET".toList ∧ (path = "/healthz".toList ∨ path = "/health".toList) then .health
  else if "/admin/users".toList <+: path ∧ env.auth.isNone then .forbidden
  else if method = "GET".toList ∧ path = "/admin/users".toList then .listUsers
  else if method = "POST".toList ∧ path = "/admin/users".toList then .addUser (requestBody req)
  else if method = "DELETE".toList ∧ "/admin/users/".toList <+: path then
    .removeUser (trimEndMatches '/' (trimStartMatches "/admin/users/".toList path))
  else if method = "GET".toList then .render
  else .notFound

/-- Status and content type of a response. -/
structure AdminResponse where
  status : String
  contentType : String
  deriving DecidableEq

def plainText : String := "text/plain; charset=utf-8"
def applicationJson : String := "application/json; charset=utf-8"

/-- What serving a request comes to: a response at once, or a call of the store first. -/
inductive AdminStep where
  | respond (response : AdminResponse)
  | store (call : StoreCall)
  deriving DecidableEq

/-- `add_user` up to `store.add`. -/
def addUser (env : AdminEnv) (body : Text) : AdminStep :=
  match if trim body = [] then some {} else env.fromJson body with
  | none => .respond ⟨"400 Bad Request", plainText⟩
  | some req =>
    match req.uuid with
    | none => .store (.add req.name none)
    | some s =>
      match env.parseUserId s with
      | none => .respond ⟨"400 Bad Request", plainText⟩
      | some uuid => .store (.add req.name (some uuid))

/-- `remove_user` up to `store.remove`. -/
def removeUser (env : AdminEnv) (rawId : Text) : AdminStep :=
  match env.parseUserId rawId with
  | none => .respond ⟨"400 Bad Request", plainText⟩
  | some uuid => .store (.remove uuid)

def Route.serve (env : AdminEnv) : Route → AdminStep
  | .unauthorized => .respond ⟨"401 Unauthorized", plainText⟩
  | .health => .respond ⟨"200 OK", applicationJson⟩
  | .forbidden => .respond ⟨"403 Forbidden", plainText⟩
  | .listUsers => .respond ⟨"200 OK", applicationJson⟩
  | .addUser body => Server.addUser env body
  | .removeUser rawId => Server.removeUser env rawId
  | .render => .respond ⟨"200 OK", "text/plain; version=0.0.4; charset=utf-8"⟩
  | .notFound => .respond ⟨"404 Not Found", plainText⟩

/-- The text of a request: `String::from_utf8_lossy` of what was read. -/
def requestText (raw : List UInt8) : Text := (fromUtf8Lossy raw).toList

/-- The handler of one connection, behind the reading. -/
def serveRequest (env : AdminEnv) (raw : List UInt8) : AdminStep :=
  (route env (requestText raw)).serve env

end Server
end HoldTheDonut
