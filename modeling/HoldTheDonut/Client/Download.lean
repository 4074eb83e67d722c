import HoldTheDonut.Core.Lossy
import HoldTheDonut.Routing.Config
import HoldTheDonut.Text.Percent
import HoldTheDonut.Text.Search

/-!
# Downloading the geo databases

`https_get_to_file` of `donut-client/src/download.rs` sends a GET with `Connection: close`, reads
to the end of the stream, and writes what is behind the first blank line to the file.  Redirects
are followed, six attempts in all.

Reading to the end spares it the framing of the body, as the head of the file says, for one of
the three framings a server may choose.  A chunked body is stored with its sizes and line ends, a
body with a declared length is stored as far as it came, and an empty body is an error.  The
fields of the response are read for a redirect only.

A `Message` is a response with status 200: a status line, any fields, and a body in one of the
framings, every chunked body being one of these.  What arrives is the whole of it, or a part, and
the stream ends well or breaks; rustls reports a stream that ends without `close_notify` as an
error, and `read_to_end` with it.
-/

namespace HoldTheDonut
namespace Client
namespace Download

open Text (cut lines words dropStart rsplitOnce splitOnce eqIgnoreAsciiCase)
open Routing (isWhitespace trim)

/-! ## The program -/

structure Url where
  host : Text
  port : UInt16
  path : Text
  deriving DecidableEq

/-- Where an attempt can fail before there is a response. -/
inductive Stage where
  | connect
  | serverName
  | handshake
  | write
  | read
  deriving DecidableEq

inductive DownloadError where
  | notHttps (url : Text)
  | badPort
  | connect (host : Text) (port : UInt16)
  | invalidHost (host : Text)
  | handshake (host : Text)
  | io
  | malformed (host : Text)
  | noStatusLine (host : Text)
  | emptyBody (host : Text)
  | writing
  | noLocation (status : ℕ)
  | http (status : ℕ) (host path : Text)
  | tooManyRedirects (url : Text)
  deriving DecidableEq

/-- The error of an attempt that fails there. -/
def Stage.error (u : Url) : Stage → DownloadError
  | .connect => .connect u.host u.port
  | .serverName => .invalidHost u.host
  | .handshake => .handshake u.host
  | .write | .read => .io

def httpsScheme : Text := "https://".toList

/-- `parse_https`. -/
def parseHttps (url : Text) : Except DownloadError Url :=
  match dropStart httpsScheme url with
  | none => .error (.notHttps url)
  | some rest =>
    let authority := rest.takeWhile (· ≠ '/')
    let path := rest.dropWhile (· ≠ '/')
    let path := if path = [] then ['/'] else path
    match rsplitOnce ':' authority with
    | none => .ok ⟨authority, 443, path⟩
    | some (h, p) =>
      match Text.parseUnsigned 65536 p with
      | none => .error .badPort
      | some port => .ok ⟨h, UInt16.ofNat port, path⟩

/-- The blank line, with the end of the line before it. -/
def blankLine : List UInt8 := [13, 10, 13, 10]

/-- `find_header_end`. -/
def findHeaderEnd (buf : List UInt8) : Option ℕ :=
  (cut blankLine buf).map fun p => p.1.length + blankLine.length

/-- `parse_status`. -/
def parseStatus (head : Text) : Option ℕ :=
  ((lines head).head?.bind fun line => (words isWhitespace line)[1]?).bind
    (Text.parseUnsigned 65536)

/-- `header_value`. -/
def headerValue (head name : Text) : Option Text :=
  (((lines head).filterMap (splitOnce ':')).find? fun kv =>
    eqIgnoreAsciiCase (trim kv.1) name).map fun kv => trim kv.2

/-- `resolve_redirect`. -/
def resolveRedirect (cur : Url) (loc : Text) : Text :=
  let here := httpsScheme ++ cur.host ++ ':' :: Nat.toDigits 10 cur.port.toNat
  if httpsScheme <+: loc then loc
  else
    match dropStart "http://".toList loc with
    | some rest => httpsScheme ++ rest
    | none => if loc.head? = some '/' then here ++ loc else here ++ '/' :: loc

/-- The request. -/
def getRequest (u : Url) : Text :=
  "GET ".toList ++ u.path ++ " HTTP/1.1\r\nHost: ".toList ++ u.host ++
    "\r\nUser-Agent: donut-client\r\nAccept: */*\r\nConnection: close\r\n\r\n".toList

/-- What comes of an attempt: an error, or everything up to the end of the stream. -/
inductive Exchange where
  | failed (s : Stage)
  | received (buf : List UInt8)

/-- How `std::fs::write` goes.  Where it fails it leaves something or other. -/
inductive DiskWrite where
  | written
  | failed (left : Option (List UInt8))

/-- The contents of the file, if there is one. -/
abbrev File : Type := Option (List UInt8)

/-- What an attempt leads to: an end, or another address. -/
inductive Step where
  | done (result : Except DownloadError ℕ) (dest : File)
  | redirect (next : Text)

/-- The arm of status 200. -/
def store (disk : DiskWrite) (u : Url) (body : List UInt8) (dest : File) : Step :=
  if body = [] then .done (.error (.emptyBody u.host)) dest
  else
    match disk with
    | .written => .done (.ok body.length) (some body)
    | .failed left => .done (.error .writing) left

/-- What is made of a response. -/
def respond (disk : DiskWrite) (u : Url) (dest : File) (buf : List UInt8) : Step :=
  match findHeaderEnd buf with
  | none => .done (.error (.malformed u.host)) dest
  | some split =>
    let head := lossyText (buf.take split)
    match parseStatus head with
    | none => .done (.error (.noStatusLine u.host)) dest
    | some status =>
      if status = 200 then store disk u (buf.drop split) dest
      else if status ∈ [301, 302, 303, 307, 308] then
        match headerValue head "location".toList with
        | none => .done (.error (.noLocation status)) dest
        | some loc => .redirect (resolveRedirect u loc)
      else .done (.error (.http status u.host u.path)) dest

/-- One attempt. -/
def attempt (disk : DiskWrite) (u : Url) (dest : File) : Exchange → Step
  | .failed s => .done (.error (s.error u)) dest
  | .received buf => respond disk u dest buf

/-- The loop, with the attempts that are left.  The last error names the first address. -/
def getLoop (net : ℕ → Url → Text → Exchange) (disk : DiskWrite) (url : Text) :
    ℕ → Text → File → Except DownloadError ℕ × File
  | 0, _, dest => (.error (.tooManyRedirects url), dest)
  | left + 1, current, dest =>
    match parseHttps current with
    | .error e => (.error e, dest)
    | .ok u =>
      match attempt disk u dest (net left u (getRequest u)) with
      | .done result dest => (result, dest)
      | .redirect next => getLoop net disk url left next dest

def maxRedirects : ℕ := 6

/-- `https_get_to_file`: the number of bytes written, and what is in the file afterwards.  The
network answers each attempt as it likes. -/
def httpsGetToFile (net : ℕ → Url → Text → Exchange) (disk : DiskWrite) (url : Text)
    (dest : File) : Except DownloadError ℕ × File :=
  getLoop net disk url maxRedirects url dest

/-! ## What the loop does -/

section Run

variable {net : ℕ → Url → Text → Exchange} {disk : DiskWrite} {url : Text} {dest : File}

/-- The download comes to an attempt at `u`, with so many left behind it. -/
inductive Reaches (net : ℕ → Url → Text → Exchange) (disk : DiskWrite) (url : Text)
    (dest : File) : ℕ → Url → Prop where
  | first {u : Url} : parseHttps url = .ok u → Reaches net disk url dest (maxRedirects - 1) u
  | next {left : ℕ} {u v : Url} {loc : Text} : Reaches net disk url dest (left + 1) u →
      attempt disk u dest (net (left + 1) u (getRequest u)) = .redirect loc →
      parseHttps loc = .ok v → Reaches net disk url dest left v

variable {left : ℕ} {u : Url}

theorem getLoop_of_done {current : Text} {result : Except DownloadError ℕ} {after : File}
    (hu : parseHttps current = .ok u)
    (h : attempt disk u dest (net left u (getRequest u)) = .done result after) :
    getLoop net disk url (left + 1) current dest = (result, after) := by
  rw [getLoop, hu]
  simp only [h]

theorem getLoop_of_redirect {current next : Text} (hu : parseHttps current = .ok u)
    (h : attempt disk u dest (net left u (getRequest u)) = .redirect next) :
    getLoop net disk url (left + 1) current dest = getLoop net disk url left next dest := by
  rw [getLoop, hu]
  simp only [h]

/-- An attempt that is reached is where the loop stands, with the file as it was. -/
theorem Reaches.loop (h : Reaches net disk url dest left u) :
    ∃ current, parseHttps current = .ok u ∧
      httpsGetToFile net disk url dest = getLoop net disk url (left + 1) current dest := by
  induction h with
  | first hu => exact ⟨url, hu, rfl⟩
  | next _ hredirect hv ih =>
    obtain ⟨current, hu, hloop⟩ := ih
    exact ⟨_, hv, hloop.trans (getLoop_of_redirect hu hredirect)⟩

/-- **An attempt that ends is the end of the download.** -/
theorem Reaches.result {result : Except DownloadError ℕ} {after : File}
    (h : Reaches net disk url dest left u)
    (hdone : attempt disk u dest (net left u (getRequest u)) = .done result after) :
    httpsGetToFile net disk url dest = (result, after) := by
  obtain ⟨current, hu, hloop⟩ := h.loop
  exact hloop.trans (getLoop_of_done hu hdone)

end Run

/-! ## Responses -/

def crlf : List UInt8 := [13, 10]

/-- A line of a head or a trailer. -/
def IsLine (l : List UInt8) : Prop := l ≠ [] ∧ 13 ∉ l

/-- What may follow the size of a chunk. -/
def IsExtension (ext : List UInt8) : Prop :=
  13 ∉ ext ∧ ∀ b ∈ ext.head?, Text.Percent.digit b = none

/-- The number written in hexadecimal digits. -/
def hexNumber (digits : List UInt8) : Option ℕ :=
  digits.foldlM (fun n b => (Text.Percent.digit b).map fun d => 16 * n + d) 0

structure Chunk where
  size : List UInt8
  ext : List UInt8
  data : List UInt8
  size_ne_nil : size ≠ []
  hexNumber_size : hexNumber size = some data.length
  isExtension : IsExtension ext
  data_ne_nil : data ≠ []

def Chunk.wire (c : Chunk) : List UInt8 := c.size ++ c.ext ++ crlf ++ c.data ++ crlf

/-- The end of a chunked body: a size of zeros, and fields if there are any. -/
structure LastChunk where
  zeros : ℕ
  ext : List UInt8
  trailer : List (List UInt8)
  isExtension : IsExtension ext
  isLine : ∀ l ∈ trailer, IsLine l

def LastChunk.wire (c : LastChunk) : List UInt8 :=
  List.replicate (c.zeros + 1) 48 ++ c.ext ++ crlf ++ c.trailer.flatMap (· ++ crlf) ++ crlf

/-- A body, and how its end is told. -/
inductive Framing where
  | contentLength (body : List UInt8)
  | chunked (chunks : List Chunk) (last : LastChunk)
  | close (body : List UInt8)

namespace Framing

/-- The message body. -/
def body : Framing → List UInt8
  | .contentLength body => body
  | .chunked chunks _ => chunks.flatMap Chunk.data
  | .close body => body

/-- What is sent for it. -/
def wire : Framing → List UInt8
  | .contentLength body => body
  | .chunked chunks last => chunks.flatMap Chunk.wire ++ last.wire
  | .close body => body

def isChunked : Framing → Bool
  | .chunked _ _ => true
  | _ => false

/-- Whether the end of the body is told before the end of the stream. -/
def isDeclared : Framing → Bool
  | .close _ => false
  | _ => true

theorem length_body_lt_wire (chunks : List Chunk) (last : LastChunk) :
    (body (.chunked chunks last)).length < (wire (.chunked chunks last)).length := by
  have hlast : 0 < last.wire.length := by
    simp only [LastChunk.wire, List.length_append, List.length_replicate]
    omega
  have hchunks : (chunks.flatMap Chunk.data).length ≤ (chunks.flatMap Chunk.wire).length := by
    induction chunks with
    | nil => exact le_refl _
    | cons c chunks ih =>
      simp only [List.flatMap_cons, List.length_append, Chunk.wire] at ih ⊢
      omega
  simp only [body, wire, List.length_append]
  omega

/-- What is sent is the body unless it is chunked. -/
theorem wire_eq_body_iff (f : Framing) : f.wire = f.body ↔ f.isChunked = false := by
  cases f with
  | contentLength body => exact iff_of_true rfl rfl
  | chunked chunks last =>
    refine iff_of_false (fun h => ?_) (fun h => by cases h)
    exact (length_body_lt_wire chunks last).ne' (congrArg List.length h)
  | close body => exact iff_of_true rfl rfl

end Framing

/-- A response with status 200.  Nothing is asked of the fields beyond their being lines: the
program does not read those that announce the framing. -/
structure Message where
  reason : List UInt8
  fields : List (List UInt8)
  framing : Framing
  reason_isLine : 13 ∉ reason
  isLine : ∀ l ∈ fields, IsLine l

namespace Message

def statusStart : String := "HTTP/1.1 200 "

def statusLine (m : Message) : List UInt8 := utf8 statusStart ++ m.reason

/-- Everything up to the blank line, and with it. -/
def head (m : Message) : List UInt8 :=
  (m.statusLine :: m.fields).flatMap (· ++ crlf) ++ crlf

def bytes (m : Message) : List UInt8 := m.head ++ m.framing.wire

end Message

/-! ## Where the head ends -/

/-- The end of a line is not a blank line as long as another line follows. -/
theorem cut_blankLine_crlf {c : UInt8} (hc : c ≠ 13) (t : List UInt8) :
    cut blankLine (crlf ++ c :: t) =
      (cut blankLine (c :: t)).map fun p => (crlf ++ p.1, p.2) := by
  have hfirst : ¬ blankLine <+: 13 :: 10 :: c :: t := by
    simpa [blankLine, List.cons_prefix_cons] using fun h => absurd h.symm hc
  have hsecond : ¬ blankLine <+: 10 :: c :: t := by simp [blankLine, List.cons_prefix_cons]
  rw [crlf, List.cons_append, List.cons_append, List.nil_append,
    Text.cut_cons_of_not_isPrefix hfirst, Text.cut_cons_of_not_isPrefix hsecond, Option.map_map]
  rfl

/-- **Behind lines, the first blank line is the one that ends them.** -/
theorem exists_cut_lines {l : List UInt8} {ls : List (List UInt8)}
    (h : ∀ x ∈ l :: ls, IsLine x) (rest : List UInt8) :
    ∃ before, cut blankLine ((l :: ls).flatMap (· ++ crlf) ++ (crlf ++ rest)) =
      some (before, rest) := by
  obtain ⟨hl, hls⟩ := List.forall_mem_cons.mp h
  induction ls generalizing l with
  | nil =>
    refine ⟨l, ?_⟩
    have hcut : cut blankLine (l ++ blankLine ++ rest) = some (l, rest) :=
      Text.cut_of_not_mem hl.2 rest
    simpa [blankLine, crlf] using hcut
  | cons l' ls ih =>
    obtain ⟨hl', hls'⟩ := List.forall_mem_cons.mp hls
    obtain ⟨before, hbefore⟩ := ih hls hl' hls'
    obtain ⟨c, l'', rfl⟩ := List.exists_cons_of_ne_nil hl'.1
    have hc : c ≠ 13 := fun heq => hl'.2 (heq ▸ List.mem_cons_self)
    have hnext : cut blankLine (crlf ++
        (((c :: l'') :: ls).flatMap (· ++ crlf) ++ (crlf ++ rest))) =
        some (crlf ++ before, rest) := by
      refine (cut_blankLine_crlf hc _).trans ?_
      exact congrArg (Option.map fun p => (crlf ++ p.1, p.2)) hbefore
    refine ⟨l ++ (crlf ++ before), ?_⟩
    rw [List.flatMap_cons, List.append_assoc, List.append_assoc]
    exact (Text.cut_skip hl.2 _).trans (congrArg (Option.map fun p => (l ++ p.1, p.2)) hnext)

namespace Message

theorem isLine_statusLine (m : Message) : IsLine m.statusLine := by
  have hstart : (13 : UInt8) ∉ utf8 statusStart := by decide +kernel
  have hne : utf8 statusStart ≠ [] := by decide +kernel
  exact ⟨fun h => hne (List.append_eq_nil_iff.mp h).1,
    fun h => (List.mem_append.mp h).elim hstart m.reason_isLine⟩

theorem exists_cut_bytes (m : Message) :
    ∃ before, cut blankLine m.bytes = some (before, m.framing.wire) ∧
      before.length + blankLine.length = m.head.length := by
  obtain ⟨before, hcut⟩ := exists_cut_lines
    (List.forall_mem_cons.mpr ⟨m.isLine_statusLine, m.isLine⟩) m.framing.wire
  rw [← List.append_assoc] at hcut
  have hhead : m.head = before ++ blankLine := List.append_cancel_right (Text.eq_of_cut hcut)
  exact ⟨before, hcut, by rw [hhead, List.length_append]⟩

variable {data : List UInt8}

/-- **The head is found once it is there**, and what is behind it is all the rest. -/
theorem findHeaderEnd_of_prefix (m : Message) (h : data <+: m.bytes) :
    findHeaderEnd data = if m.head.length ≤ data.length then some m.head.length else none := by
  obtain ⟨before, hcut, hlength⟩ := m.exists_cut_bytes
  obtain ⟨hfound, hmissed⟩ := Text.cut_of_prefix hcut h
  rw [hlength] at hfound hmissed
  unfold findHeaderEnd
  split
  · next hle => rw [hfound hle, Option.map_some, hlength]
  · next hlt => rw [hmissed (not_le.mp hlt), Option.map_none]

/-- The status line says 200, whatever bytes follow it. -/
theorem parseStatus_head (m : Message) : parseStatus (lossyText m.head) = some 200 := by
  have hhead : lossyText m.head = statusStart.toList ++ lossyText
      (m.reason ++ crlf ++ m.fields.flatMap (· ++ crlf) ++ crlf) := by
    rw [← lossyText_utf8_append]
    simp only [head, statusLine, List.flatMap_cons, List.append_assoc]
  obtain ⟨y, hy⟩ := Text.exists_head_lines (a := statusStart.toList) (by decide) (by decide)
    (by decide) (lossyText (m.reason ++ crlf ++ m.fields.flatMap (· ++ crlf) ++ crlf))
  have hwords : words isWhitespace (statusStart.toList ++ y) =
      "HTTP/1.1".toList :: "200".toList :: words isWhitespace y := by
    have hversion : ∀ c ∈ "HTTP/1.1".toList, isWhitespace c = false := by simp [isWhitespace]
    have hcode : ∀ c ∈ "200".toList, isWhitespace c = false := by simp [isWhitespace]
    have hsecond : words isWhitespace ("200".toList ++ ' ' :: y) =
        "200".toList :: words isWhitespace y :=
      Text.words_append_cons hcode (by decide) (by decide) y
    rw [← hsecond]
    exact Text.words_append_cons hversion (by decide) (by decide) ("200".toList ++ ' ' :: y)
  rw [hhead, parseStatus, hy, Option.bind_some, hwords]
  rfl

end Message

/-! ## What is stored -/

/-- How a stream ends, as `read_to_end` sees it. -/
inductive Ending where
  | clean
  | broken
  deriving DecidableEq

/-- An attempt that is answered, as far as the answer came. -/
def arrive (data : List UInt8) : Ending → Exchange
  | .clean => .received data
  | .broken => .failed .read

variable {data : List UInt8}

/-- **Of a response that ends well, what is behind the head is stored as it stands.** -/
theorem attempt_arrive_clean (disk : DiskWrite) (u : Url) (dest : File) (m : Message)
    (h : data <+: m.bytes) :
    attempt disk u dest (arrive data .clean) =
      if m.head.length ≤ data.length then store disk u (data.drop m.head.length) dest
      else .done (.error (.malformed u.host)) dest := by
  rw [arrive, attempt, respond, m.findHeaderEnd_of_prefix h]
  by_cases hle : m.head.length ≤ data.length
  · have htake : data.take m.head.length = m.head :=
      (List.prefix_iff_eq_take.mp
        (List.prefix_of_prefix_length_le (List.prefix_append _ _) h hle)).symm
    simp only [if_pos hle, htake, m.parseStatus_head, if_true]
  · simp only [if_neg hle]

theorem attempt_whole (disk : DiskWrite) (u : Url) (dest : File) (m : Message) :
    attempt disk u dest (arrive m.bytes .clean) = store disk u m.framing.wire dest := by
  have hle : m.head.length ≤ m.bytes.length := (List.prefix_append _ _).length_le
  rw [attempt_arrive_clean disk u dest m (List.prefix_refl _), if_pos hle, Message.bytes,
    List.drop_left]

theorem store_nil (disk : DiskWrite) (u : Url) (dest : File) :
    store disk u [] dest = .done (.error (.emptyBody u.host)) dest := rfl

theorem store_written {body : List UInt8} (h : body ≠ []) (u : Url) (dest : File) :
    store .written u body dest = .done (.ok body.length) (some body) := by
  rw [store, if_neg h]

theorem store_failed {body : List UInt8} (h : body ≠ []) (left : File) (u : Url) (dest : File) :
    store (.failed left) u body dest = .done (.error .writing) left := by
  rw [store, if_neg h]

section Stored

variable {net : ℕ → Url → Text → Exchange} {disk : DiskWrite} {url : Text} {before : File}
  {left : ℕ} {u : Url}

section Reaches

variable (h : Reaches net disk url before left u)

include h

theorem result_broken (hnet : net left u (getRequest u) = arrive data .broken) :
    httpsGetToFile net disk url before = (.error .io, before) := by
  refine h.result ?_
  rw [hnet]
  rfl

/-- The whole response, with the stream ended well. -/
theorem result_whole_iff (m : Message) (hnet : net left u (getRequest u) = arrive m.bytes .clean) :
    httpsGetToFile net disk url before =
        (.ok m.framing.body.length, some m.framing.body) ↔
      m.framing.isChunked = false ∧ m.framing.body ≠ [] ∧ disk = .written := by
  have hattempt := attempt_whole disk u before m
  rw [← hnet] at hattempt
  rw [← Framing.wire_eq_body_iff]
  rcases eq_or_ne m.framing.wire [] with hnil | hne
  · rw [hnil, store_nil] at hattempt
    rw [h.result hattempt, hnil]
    exact iff_of_false (fun heq => by cases heq) (fun hall => hall.2.1 hall.1.symm)
  · cases disk with
    | written =>
      rw [store_written hne] at hattempt
      rw [h.result hattempt]
      constructor
      · intro heq
        have hbody : m.framing.wire = m.framing.body := Option.some.inj (congrArg Prod.snd heq)
        exact ⟨hbody, hbody ▸ hne, rfl⟩
      · rintro ⟨hbody, -, -⟩
        rw [hbody]
    | failed kept =>
      rw [store_failed hne] at hattempt
      rw [h.result hattempt]
      exact iff_of_false (fun heq => by cases heq) (fun hall => by cases hall.2.2)

/-- A part of the response, with the stream ended well: it is missed only if nothing is there
behind the head. -/
theorem result_part_iff (m : Message) (hdata : data <+: m.bytes)
    (hnet : net left u (getRequest u) = arrive data .clean) :
    (∃ e, httpsGetToFile net disk url before = (.error e, before)) ↔
      data.length ≤ m.head.length ∨ disk = .failed before := by
  have hattempt := attempt_arrive_clean disk u before m hdata
  rw [← hnet] at hattempt
  rcases lt_trichotomy data.length m.head.length with hlt | heq | hgt
  · rw [if_neg (not_le.mpr hlt)] at hattempt
    exact iff_of_true ⟨_, h.result hattempt⟩ (Or.inl hlt.le)
  · rw [if_pos heq.ge, List.drop_eq_nil_of_le heq.le, store_nil] at hattempt
    exact iff_of_true ⟨_, h.result hattempt⟩ (Or.inl heq.le)
  · have hne : data.drop m.head.length ≠ [] := fun hnil =>
      absurd (List.drop_eq_nil_iff.mp hnil) (not_le.mpr hgt)
    rw [if_pos hgt.le] at hattempt
    rw [or_iff_right (not_le.mpr hgt)]
    cases disk with
    | written =>
      rw [store_written hne] at hattempt
      rw [h.result hattempt]
      exact iff_of_false (by rintro ⟨e, he⟩; cases he) (fun hd => by cases hd)
    | failed kept =>
      rw [store_failed hne] at hattempt
      rw [h.result hattempt]
      constructor
      · rintro ⟨e, he⟩
        cases he
        rfl
      · intro hd
        cases hd
        exact ⟨_, rfl⟩

end Reaches

/-- **When a download stores the body, and when it notices that a part is missing.**  A response
that came whole is stored as its body if the stream ended well, the body is not chunked and not
empty, and the file can be written.  One whose end was told and did not come is an error that
leaves the file alone if the stream broke, if nothing of the body came, or if the file could not
be touched. -/
theorem download_stores_iff (h : Reaches net disk url before left u) (m : Message)
    (ending : Ending) :
    (net left u (getRequest u) = arrive m.bytes ending →
      (httpsGetToFile net disk url before =
          (.ok m.framing.body.length, some m.framing.body) ↔
        ending = .clean ∧ m.framing.isChunked = false ∧ m.framing.body ≠ [] ∧
          disk = .written)) ∧
    (m.framing.isDeclared = true → ∀ data, data <+: m.bytes → data ≠ m.bytes →
      net left u (getRequest u) = arrive data ending →
      ((∃ e, httpsGetToFile net disk url before = (.error e, before)) ↔
        ending = .broken ∨ data.length ≤ m.head.length ∨ disk = .failed before)) := by
  cases ending with
  | clean =>
    refine ⟨fun hnet => ?_, fun _ data hdata _ hnet => ?_⟩
    · rw [result_whole_iff h m hnet, eq_self, true_and]
    · rw [result_part_iff h m hdata hnet]
      exact (or_iff_right (fun hending => by cases hending)).symm
  | broken =>
    refine ⟨fun hnet => ?_, fun _ data _ _ hnet => ?_⟩
    · rw [result_broken h hnet]
      exact iff_of_false (fun heq => by cases heq) (fun hall => by cases hall.1)
    · exact iff_of_true ⟨_, result_broken h hnet⟩ (Or.inl rfl)

end Stored

/-- Every attempt is answered with this, and the stream ends well. -/
def answering (data : List UInt8) : ℕ → Url → Text → Exchange := fun _ _ _ => arrive data .clean

theorem parseHttps_geo : parseHttps "https://h/geo".toList = .ok ⟨['h'], 443, "/geo".toList⟩ := rfl

theorem isExtension_nil : IsExtension [] := ⟨List.not_mem_nil, fun _ h => by cases h⟩

/-- One chunk with one byte. -/
def oneChunk : Message where
  reason := utf8 "OK"
  fields := [utf8 "Transfer-Encoding: chunked"]
  framing := .chunked [⟨[49], [], [97], by decide, by decide, isExtension_nil, by decide⟩]
    ⟨0, [], [], isExtension_nil, fun _ h => absurd h List.not_mem_nil⟩
  reason_isLine := by decide +kernel
  isLine := List.forall_mem_singleton.mpr ⟨by decide +kernel, by decide +kernel⟩

/-- Two bytes, announced as such. -/
def twoBytes : Message where
  reason := utf8 "OK"
  fields := [utf8 "Content-Length: 2"]
  framing := .contentLength [65, 66]
  reason_isLine := by decide +kernel
  isLine := List.forall_mem_singleton.mpr ⟨by decide +kernel, by decide +kernel⟩

/-- Two announced bytes that come are stored. -/
theorem download_stores_iff_two :
    httpsGetToFile (answering twoBytes.bytes) .written "https://h/geo".toList none =
      (.ok 2, some [65, 66]) :=
  ((download_stores_iff (.first parseHttps_geo) twoBytes .clean).1 rfl).mpr
    ⟨rfl, rfl, by decide, rfl⟩

/-- The chunk is stored with its size and its line ends, and one byte of two announced ones is
stored for both. -/
theorem download_stores_otherwise :
    (oneChunk.framing.body = [97] ∧
      httpsGetToFile (answering oneChunk.bytes) .written "https://h/geo".toList none =
        (.ok 11, some [49, 13, 10, 97, 13, 10, 48, 13, 10, 13, 10])) ∧
    (twoBytes.framing.isDeclared = true ∧ twoBytes.bytes = twoBytes.head ++ [65, 66] ∧
      httpsGetToFile (answering (twoBytes.head ++ [65])) .written "https://h/geo".toList none =
        (.ok 1, some [65])) := by
  have hpart : twoBytes.head ++ [65] <+: twoBytes.bytes :=
    ⟨[66], List.append_assoc twoBytes.head [65] [66]⟩
  have hchunk := attempt_whole .written ⟨['h'], 443, "/geo".toList⟩ none oneChunk
  have htwo := attempt_arrive_clean .written ⟨['h'], 443, "/geo".toList⟩ none twoBytes hpart
  rw [if_pos (List.prefix_append _ _).length_le, List.drop_left,
    store_written (List.cons_ne_nil 65 [])] at htwo
  exact ⟨⟨rfl, (Reaches.first parseHttps_geo).result hchunk⟩,
    rfl, rfl, (Reaches.first parseHttps_geo).result htwo⟩

end Download
end Client
end HoldTheDonut
