import HoldTheDonut.Vision.RoundTrip

/-!
# The downlink of a Vision session

What `donut-server/src/vision_xray_splice.rs` does with a chunk from the target on
its way to the client.  A shared `FilterState` watches both directions for a TLS
handshake; while the downlink is padding, each chunk becomes one padded block, and
the first chunk that is a run of complete application-data records ends the
padding: with `Direct` when the inner connection was seen to be TLS 1.3, after
which chunks go out raw on the socket, and with `End` otherwise, after which they
go out unpadded inside the outer TLS.

The uplink filters into the same state between any two downlink chunks, so nothing
is assumed of the state a chunk meets: it is part of the read (`DownlinkRead`).
The result is what the client makes of it.  Pushing the plaintext through its own
unpadder and appending the raw bytes gives back exactly what the target sent.
-/

namespace HoldTheDonut
namespace Vision

open Streaming

/-! ## Looking for TLS -/

def tlsServerHsStart : List UInt8 := [0x16, 0x03, 0x03]
def tlsClientHsStart : List UInt8 := [0x16, 0x03]
def tlsHsTypeServerHello : UInt8 := 0x02
def tlsHsTypeClientHello : UInt8 := 0x01
def tls13SupportedVersions : List UInt8 := [0x00, 0x2b, 0x00, 0x02, 0x03, 0x04]
def tlsAes128Ccm8Sha256 : ℕ := 0x1305
def tlsAppDataStart : List UInt8 := [0x17, 0x03, 0x03]

/-- The TLS-detection state both directions share. -/
structure FilterState where
  numberToFilter : ℤ
  enableXtls : Bool
  isTls12OrAbove : Bool
  isTls : Bool
  cipher : ℕ
  remainingServerHello : ℤ
  deriving DecidableEq

/-- `contains`: does some window of `haystack` equal `needle`? -/
def contains (haystack needle : List UInt8) : Bool :=
  if needle = [] ∨ haystack.length < needle.length then false
  else haystack.tails.any fun w => needle.isPrefixOf w

namespace FilterState

/-- `FilterState::default()`. -/
def initial : FilterState where
  numberToFilter := 8
  enableXtls := false
  isTls12OrAbove := false
  isTls := false
  cipher := 0
  remainingServerHello := 0

/-- The cipher suite of a ServerHello, behind its session id. -/
def readCipher (f : FilterState) (b : List UInt8) : FilterState :=
  if 79 ≤ b.length ∧ 79 ≤ f.remainingServerHello then
    let sessionIdLen := (b.getD 43 0).toNat
    if 43 + sessionIdLen + 3 ≤ b.length then
      { f with
        cipher := be16 (b.getD (43 + sessionIdLen + 1) 0) (b.getD (43 + sessionIdLen + 2) 0) }
    else f
  else f

/-- The first half of `filter`: does the buffer open a handshake? -/
def readHello (f : FilterState) (b : List UInt8) : FilterState :=
  if 6 ≤ b.length then
    if b.take 3 = tlsServerHsStart ∧ b.getD 5 0 = tlsHsTypeServerHello then
      readCipher
        { f with
          remainingServerHello := be16 (b.getD 3 0) (b.getD 4 0) + 5
          isTls12OrAbove := true
          isTls := true } b
    else if b.take 2 = tlsClientHsStart ∧ b.getD 5 0 = tlsHsTypeClientHello then
      { f with isTls := true }
    else f
  else f

/-- The second half of `filter`: look for TLS 1.3 in what is left of the ServerHello. -/
def readVersions (f : FilterState) (b : List UInt8) : FilterState :=
  if 0 < f.remainingServerHello then
    let window := b.take (min f.remainingServerHello.toNat b.length)
    let f := { f with remainingServerHello := f.remainingServerHello - b.length }
    if contains window tls13SupportedVersions then
      { f with
        enableXtls := f.enableXtls || decide (f.cipher ≠ tlsAes128Ccm8Sha256)
        numberToFilter := 0 }
    else if f.remainingServerHello ≤ 0 then { f with numberToFilter := 0 }
    else f
  else f

/-- `XtlsFilterTls`: inspect one buffer. -/
def filter (f : FilterState) (b : List UInt8) : FilterState :=
  (readHello { f with numberToFilter := f.numberToFilter - 1 } b).readVersions b

/-- The guarded call both directions make. -/
def observe (f : FilterState) (b : List UInt8) : FilterState :=
  if 0 < f.numberToFilter then f.filter b else f

end FilterState

/-- The loop of `is_complete_record`; the length of the buffer is fuel enough. -/
def isCompleteRecordLoop : ℕ → List UInt8 → Bool
  | 0, b => b.isEmpty
  | fuel + 1, b =>
    if b = [] then true
    else if b.length < 5 then false
    else if b.take 3 ≠ tlsAppDataStart then false
    else if b.length < 5 + be16 (b.getD 3 0) (b.getD 4 0) then false
    else isCompleteRecordLoop fuel (b.drop (5 + be16 (b.getD 3 0) (b.getD 4 0)))

/-- Is the buffer a sequence of complete application-data records? -/
def isCompleteRecord (b : List UInt8) : Bool := isCompleteRecordLoop b.length b

/-! ## One chunk -/

/-- What goes to the client: a padded block or unpadded bytes through
`write_plaintext`, or bytes past the outer TLS through `write_raw`.  A block keeps
the UUID it was opened with and its command next to its bytes. -/
inductive Sent where
  | block (uuid : Option Uuid) (command : UInt8) (bytes : List UInt8)
  | plain (bytes : List UInt8)
  | raw (bytes : List UInt8)
  deriving DecidableEq

/-- The local state of the downlink. -/
structure Downlink where
  uuidOnce : Option Uuid
  isPadding : Bool
  spliced : Bool
  deriving DecidableEq

namespace Downlink

def new (uuid : Uuid) : Downlink := ⟨some uuid, true, false⟩

/-- The test that ends the padding. -/
def appData (f : FilterState) (chunk : List UInt8) : Bool :=
  f.isTls && decide (6 ≤ chunk.length) && tlsAppDataStart.isPrefixOf chunk &&
    isCompleteRecord chunk

/-- The command of the block a chunk is sent in. -/
def command (f : FilterState) (chunk : List UInt8) : UInt8 :=
  if appData f chunk then
    if f.enableXtls then commandPaddingDirect else commandPaddingEnd
  else commandPaddingContinue

/-- The filter state a chunk is judged by.  A spliced downlink no longer filters. -/
def observed (d : Downlink) (f : FilterState) (chunk : List UInt8) : FilterState :=
  if d.spliced then f else f.observe chunk

/-- One chunk from the target, once it has been filtered. -/
def send (d : Downlink) (f : FilterState) (chunk : List UInt8) (draw : ℕ) : Downlink × Sent :=
  if d.spliced then (d, .raw chunk)
  else if d.isPadding then
    let command := command f chunk
    let r := xtlsPadding chunk command d.uuidOnce f.isTls defaultSeed draw
    ({ uuidOnce := r.2
       isPadding := !appData f chunk
       spliced := decide (command = commandPaddingDirect) },
      .block d.uuidOnce command r.1)
  else (d, .plain chunk)

end Downlink

/-! ## A run of chunks -/

/-- A successful read from the target: a chunk of at most `READ_CHUNK` bytes, the
filter state it meets and what the generator returns for its padding. -/
structure DownlinkRead where
  chunk : List UInt8
  chunk_ne : chunk ≠ []
  chunk_le : chunk.length ≤ 16384
  filter : FilterState
  draw : ℕ
  draw_lt : draw < drawBound chunk.length (filter.observe chunk).isTls defaultSeed

namespace Downlink

/-- The downlink over a list of reads, with what it sends. -/
def run : Downlink → List DownlinkRead → Downlink × List Sent
  | d, [] => (d, [])
  | d, r :: rs =>
    let s := d.send (d.observed r.filter r.chunk) r.chunk r.draw
    andThen (s.1, [s.2]) fun d => run d rs

/-- What a session sends to the client for a list of reads. -/
def sent (uuid : Uuid) (reads : List DownlinkRead) : List Sent := ((new uuid).run reads).2

end Downlink

namespace Sent

/-- The bytes a client finds inside the outer TLS. -/
def plaintext : Sent → List UInt8
  | .block _ _ bytes => bytes
  | .plain bytes => bytes
  | .raw _ => []

/-- The bytes a client finds outside it. -/
def rawBytes : Sent → List UInt8
  | .raw bytes => bytes
  | _ => []

/-- The UUID an item was opened with. -/
def uuid : Sent → Option Uuid
  | .block uuid _ _ => uuid
  | _ => none

def isRaw : Sent → Bool
  | .raw _ => true
  | _ => false

/-- A block that ends the padding. -/
def isLast : Sent → Bool
  | .block _ command _ => command ≠ commandPaddingContinue
  | _ => false

def isDirect : Sent → Bool
  | .block _ command _ => command = commandPaddingDirect
  | _ => false

end Sent

/-! ## The shape of what is sent -/

/-- A block for a chunk, as it stands on the wire. -/
def wireBlock (uuidOnce : Option Uuid) (chunk : List UInt8) (command : UInt8) (padLen : ℕ) :
    List UInt8 :=
  (uuidOnce.map List.Vector.toList).getD [] ++ blockBytes chunk command padLen

/-- **The three shapes of a downlink**, for the chunks it carries: Continue blocks
for ever, or Continue blocks, one End block and plain chunks, or Continue blocks, one
Direct block and raw chunks.  The first block, and no other, takes `uuidOnce`. -/
inductive DownlinkStream : Option Uuid → List (List UInt8) → List Sent → Prop
  | nil (o : Option Uuid) : DownlinkStream o [] []
  | more (o : Option Uuid) {chunk : List UInt8} {p : ℕ} {chunks : List (List UInt8)}
      {sent : List Sent} (hn : chunk.length < 65536) (hp : p < 65536)
      (rest : DownlinkStream none chunks sent) :
      DownlinkStream o (chunk :: chunks)
        (.block o commandPaddingContinue (wireBlock o chunk commandPaddingContinue p) :: sent)
  | ended (o : Option Uuid) {chunk : List UInt8} {p : ℕ} (chunks : List (List UInt8))
      (hn : chunk.length < 65536) (hp : p < 65536) :
      DownlinkStream o (chunk :: chunks)
        (.block o commandPaddingEnd (wireBlock o chunk commandPaddingEnd p) ::
          chunks.map .plain)
  | direct (o : Option Uuid) {chunk : List UInt8} {p : ℕ} (chunks : List (List UInt8))
      (hn : chunk.length < 65536) (hp : p < 65536) :
      DownlinkStream o (chunk :: chunks)
        (.block o commandPaddingDirect (wireBlock o chunk commandPaddingDirect p) ::
          chunks.map .raw)

namespace Downlink

theorem run_cons (d : Downlink) (r : DownlinkRead) (rs : List DownlinkRead) :
    (d.run (r :: rs)).2 =
      (d.send (d.observed r.filter r.chunk) r.chunk r.draw).2 ::
        ((d.send (d.observed r.filter r.chunk) r.chunk r.draw).1.run rs).2 := rfl

variable {d : Downlink}

theorem send_spliced (h : d.spliced = true) (f : FilterState) (chunk : List UInt8) (draw : ℕ) :
    d.send f chunk draw = (d, .raw chunk) := by
  unfold send
  rw [if_pos h]

theorem send_plain (hs : d.spliced = false) (hp : d.isPadding = false) (f : FilterState)
    (chunk : List UInt8) (draw : ℕ) :
    d.send f chunk draw = (d, .plain chunk) := by
  unfold send
  rw [if_neg (by simp [hs]), if_neg (by simp [hp])]

/-- Once spliced, everything is raw. -/
theorem run_spliced (h : d.spliced = true) (rs : List DownlinkRead) :
    (d.run rs).2 = (rs.map DownlinkRead.chunk).map .raw := by
  induction rs with
  | nil => rfl
  | cons r rs ih =>
    rw [run_cons, send_spliced h, ih]
    rfl

/-- Past an End block, everything is plain. -/
theorem run_plain (hs : d.spliced = false) (hp : d.isPadding = false) (rs : List DownlinkRead) :
    (d.run rs).2 = (rs.map DownlinkRead.chunk).map .plain := by
  induction rs with
  | nil => rfl
  | cons r rs ih =>
    rw [run_cons, send_plain hs hp, ih]
    rfl

/-- The three commands, with what they say about the chunk. -/
theorem command_cases (f : FilterState) (chunk : List UInt8) :
    (command f chunk = commandPaddingContinue ∧ appData f chunk = false) ∨
    (command f chunk = commandPaddingEnd ∧ appData f chunk = true) ∨
    (command f chunk = commandPaddingDirect ∧ appData f chunk = true) := by
  unfold command
  cases appData f chunk with
  | false => exact Or.inl ⟨rfl, rfl⟩
  | true =>
    cases f.enableXtls with
    | false => exact Or.inr (Or.inl ⟨rfl, rfl⟩)
    | true => exact Or.inr (Or.inr ⟨rfl, rfl⟩)

/-- While padding, a chunk goes out as one block. -/
theorem send_padding (hs : d.spliced = false) (hp : d.isPadding = true) (f : FilterState)
    (chunk : List UInt8) (draw : ℕ) :
    ∃ p < 65536, d.send f chunk draw =
      (⟨none, !appData f chunk, decide (command f chunk = commandPaddingDirect)⟩,
        .block d.uuidOnce (command f chunk)
          (wireBlock d.uuidOnce chunk (command f chunk) p)) := by
  refine ⟨(paddingLen chunk.length f.isTls defaultSeed draw).toNat, ?_, ?_⟩
  · have h := paddingLen_lt chunk.length f.isTls defaultSeed draw
    omega
  · unfold send wireBlock
    rw [if_neg (by simp [hs]), if_pos hp]
    simp only [xtlsPadding_eq]

/-- **Every run of the downlink has one of the three shapes.** -/
theorem run_stream : ∀ {d : Downlink} (rs : List DownlinkRead), d.spliced = false →
    d.isPadding = true → DownlinkStream d.uuidOnce (rs.map DownlinkRead.chunk) (d.run rs).2
  | d, [], _, _ => DownlinkStream.nil d.uuidOnce
  | d, r :: rs, hs, hp => by
    have hn : r.chunk.length < 65536 := by
      have := r.chunk_le
      omega
    obtain ⟨p, hpad, hsend⟩ :=
      send_padding hs hp (d.observed r.filter r.chunk) r.chunk r.draw
    rw [run_cons, hsend, List.map_cons]
    rcases command_cases (d.observed r.filter r.chunk) r.chunk with
      ⟨hc, ha⟩ | ⟨hc, ha⟩ | ⟨hc, ha⟩
    · rw [hc, ha]
      exact DownlinkStream.more d.uuidOnce hn hpad
        (run_stream (d := ⟨none, true, false⟩) rs rfl rfl)
    · rw [hc, ha, run_plain rfl rfl]
      exact DownlinkStream.ended d.uuidOnce _ hn hpad
    · rw [hc, ha, run_spliced rfl]
      exact DownlinkStream.direct d.uuidOnce _ hn hpad

end Downlink

/-! ## What the client recovers -/

/-- The plaintext of a list of items. -/
def plaintextOf (sent : List Sent) : List UInt8 := (sent.map Sent.plaintext).flatten

/-- The raw bytes of a list of items. -/
def rawOf (sent : List Sent) : List UInt8 := (sent.map Sent.rawBytes).flatten

@[simp] theorem plaintextOf_nil : plaintextOf [] = [] := rfl

@[simp] theorem plaintextOf_cons (s : Sent) (sent : List Sent) :
    plaintextOf (s :: sent) = s.plaintext ++ plaintextOf sent := rfl

@[simp] theorem rawOf_cons (s : Sent) (sent : List Sent) :
    rawOf (s :: sent) = s.rawBytes ++ rawOf sent := rfl

theorem plaintextOf_plain (chunks : List (List UInt8)) :
    plaintextOf (chunks.map .plain) = chunks.flatten ∧ rawOf (chunks.map .plain) = [] := by
  induction chunks with
  | nil => exact ⟨rfl, rfl⟩
  | cons c cs ih =>
    rw [List.map_cons, plaintextOf_cons, rawOf_cons, ih.1, ih.2]
    exact ⟨rfl, rfl⟩

theorem plaintextOf_raw (chunks : List (List UInt8)) :
    plaintextOf (chunks.map .raw) = [] ∧ rawOf (chunks.map .raw) = chunks.flatten := by
  induction chunks with
  | nil => exact ⟨rfl, rfl⟩
  | cons c cs ih =>
    rw [List.map_cons, plaintextOf_cons, rawOf_cons, ih.1, ih.2]
    exact ⟨rfl, rfl⟩

/-- The UUIDs of `n` items of which only the first is opened with one. -/
def openings (o : Option Uuid) : ℕ → List (Option Uuid)
  | 0 => []
  | n + 1 => o :: List.replicate n none

theorem openings_none (n : ℕ) : openings none n = List.replicate n none := by
  cases n <;> rfl

namespace DownlinkStream

variable {chunks : List (List UInt8)} {sent : List Sent}

/-- The client's unpadder at a block boundary recovers the chunks.  The induction
follows the shape of the stream; the unpadder is at a boundary before each block. -/
theorem recover (h : DownlinkStream none chunks sent) {u : Unpadder} (hu : u.AtBlock) :
    (u.push (plaintextOf sent)).2 ++ rawOf sent = chunks.flatten := by
  generalize ho : (none : Option Uuid) = o at h
  induction h generalizing u with
  | nil o =>
    rw [plaintextOf_nil, Unpadder.chunkFree_push.nil u (Or.inr (Or.inr (Or.inr hu.toRunning)))]
    rfl
  | @more o chunk p chunks sent hn hp rest ih =>
    subst ho
    obtain ⟨v, hv, hvb⟩ := hu.push_continue chunk hn hp
    rw [plaintextOf_cons, rawOf_cons,
      Unpadder.chunkFree_push.append u _ _ (Or.inr (Or.inr (Or.inr hu.toRunning)))]
    change (andThen (u.push (blockBytes chunk commandPaddingContinue p)) _).2 ++ _ = _
    rw [hv, andThen_snd, List.append_assoc, List.flatten_cons]
    exact congrArg (chunk ++ ·) (ih hvb rfl)
  | @ended o chunk p chunks hn hp =>
    subst ho
    obtain ⟨v, hv, hfin, -⟩ := hu.push_last chunk (Or.inl rfl) hn hp
    rw [plaintextOf_cons, rawOf_cons, (plaintextOf_plain chunks).1, (plaintextOf_plain chunks).2,
      Unpadder.chunkFree_push.append u _ _ (Or.inr (Or.inr (Or.inr hu.toRunning)))]
    change (andThen (u.push (blockBytes chunk commandPaddingEnd p)) _).2 ++ _ = _
    rw [hv, andThen_snd, Unpadder.push_finished hfin, List.flatten_cons]
    exact List.append_nil _
  | @direct o chunk p chunks hn hp =>
    subst ho
    obtain ⟨v, hv, -, -⟩ := hu.push_last chunk (Or.inr rfl) hn hp
    rw [plaintextOf_cons, rawOf_cons, (plaintextOf_raw chunks).1, (plaintextOf_raw chunks).2,
      List.append_nil]
    change (u.push (blockBytes chunk commandPaddingDirect p)).2 ++ _ = _
    rw [hv]
    rfl

/-- The first block apart from its UUID. -/
theorem strip_uuid {uuid : Uuid} (h : DownlinkStream (some uuid) chunks sent) (hne : chunks ≠ []) :
    ∃ sent', DownlinkStream none chunks sent' ∧
      plaintextOf sent = uuid.toList ++ plaintextOf sent' ∧ rawOf sent = rawOf sent' ∧
      5 ≤ (plaintextOf sent').length := by
  cases h with
  | nil => exact absurd rfl hne
  | more _ hn hp rest => exact ⟨_, more none hn hp rest, by simp [Sent.plaintext, wireBlock],
      rfl, by simp [Sent.plaintext, wireBlock, blockBytes]⟩
  | ended _ chunks hn hp => exact ⟨_, ended none chunks hn hp,
      by simp [Sent.plaintext, wireBlock], rfl,
      by simp [Sent.plaintext, wireBlock, blockBytes]⟩
  | direct _ chunks hn hp => exact ⟨_, direct none chunks hn hp,
      by simp [Sent.plaintext, wireBlock], rfl,
      by simp [Sent.plaintext, wireBlock, blockBytes]⟩

/-- A fresh client recovers the chunks. -/
theorem recover_new {uuid : Uuid} (h : DownlinkStream (some uuid) chunks sent) :
    ((Unpadder.new uuid).push (plaintextOf sent)).2 ++ rawOf sent = chunks.flatten := by
  by_cases hne : chunks = []
  · subst hne
    cases h
    rw [plaintextOf_nil, Unpadder.chunkFree_push.nil _ (Unpadder.valid_new uuid)]
    rfl
  · obtain ⟨sent', h', hplain, hraw, hlen⟩ := h.strip_uuid hne
    rw [hplain, hraw, Unpadder.push_uuid uuid hlen]
    exact h'.recover (Unpadder.start_new_atBlock uuid)

/-! ## Order and number of the blocks -/

variable {o : Option Uuid} (h : DownlinkStream o chunks sent)

include h

theorem uuid_eq : sent.map Sent.uuid = openings o chunks.length := by
  induction h with
  | nil => rfl
  | @more o chunk p chunks sent hn hp rest ih =>
    rw [List.map_cons, ih, openings_none]
    rfl
  | ended o chunks hn hp =>
    rw [List.map_cons, List.map_map]
    exact congrArg (o :: ·) List.map_const'
  | direct o chunks hn hp =>
    rw [List.map_cons, List.map_map]
    exact congrArg (o :: ·) List.map_const'

theorem bytes_eq :
    ∀ o' command bytes, Sent.block o' command bytes ∈ sent →
      ∃ chunk p, bytes = wireBlock o' chunk command p := by
  -- a block in front; whatever follows has been looked at already
  have hcons : ∀ {o : Option Uuid} {chunk : List UInt8} {c : UInt8} {p : ℕ} {sent : List Sent},
      (∀ o' command bytes, Sent.block o' command bytes ∈ sent →
        ∃ chunk p, bytes = wireBlock o' chunk command p) →
      ∀ o' command bytes,
        Sent.block o' command bytes ∈ Sent.block o c (wireBlock o chunk c p) :: sent →
        ∃ chunk p, bytes = wireBlock o' chunk command p := by
    intro o chunk c p sent hsent o' command bytes hmem
    rcases List.mem_cons.mp hmem with heq | hmem
    · cases heq
      exact ⟨chunk, p, rfl⟩
    · exact hsent o' command bytes hmem
  induction h with
  | nil => simp
  | @more o chunk p chunks sent hn hp rest ih => exact hcons ih
  | ended => exact hcons (by simp)
  | direct => exact hcons (by simp)

theorem countP_isLast_le : sent.countP Sent.isLast ≤ 1 := by
  have htail : ∀ (cs : List (List UInt8)) (f : List UInt8 → Sent),
      (∀ c, (f c).isLast = false) → (cs.map f).countP Sent.isLast = 0 := by
    intro cs f hf
    rw [List.countP_eq_zero]
    intro s hs
    obtain ⟨c, -, rfl⟩ := List.mem_map.mp hs
    simp [hf c]
  induction h with
  | nil => exact Nat.zero_le 1
  | more o hn hp rest ih =>
    rw [List.countP_cons_of_neg (by simp [Sent.isLast])]
    exact ih
  | ended o chunks hn hp =>
    rw [List.countP_cons, htail chunks .plain fun _ => rfl]
    split <;> omega
  | direct o chunks hn hp =>
    rw [List.countP_cons, htail chunks .raw fun _ => rfl]
    split <;> omega

/-- Behind a Direct block there are raw bytes only, and raw bytes stand behind a
Direct block only. -/
theorem direct_before_raw {before after : List Sent} {s : Sent}
    (hsent : sent = before ++ s :: after) :
    (s.isDirect = true → ∀ t ∈ after, t.isRaw = true) ∧
      (s.isRaw = true → ∃ t ∈ before, t.isDirect = true) := by
  induction h generalizing before with
  | nil =>
    cases before <;> cases hsent
  | @more o chunk p chunks sent hn hp rest ih =>
    cases before with
    | nil =>
      cases hsent
      exact ⟨fun hd => absurd hd (by simp [Sent.isDirect, commandPaddingContinue,
        commandPaddingDirect]), fun hr => absurd hr (by simp [Sent.isRaw])⟩
    | cons b before =>
      cases hsent
      obtain ⟨hdirect, hraw⟩ := ih rfl
      refine ⟨hdirect, fun hr => ?_⟩
      obtain ⟨t, ht, htd⟩ := hraw hr
      exact ⟨t, List.mem_cons_of_mem _ ht, htd⟩
  | @ended o chunk p chunks hn hp =>
    -- neither a Direct block nor a raw chunk is anywhere in this shape
    have hmem : ∀ t ∈ Sent.block o commandPaddingEnd (wireBlock o chunk commandPaddingEnd p) ::
        chunks.map .plain, t.isDirect = false ∧ t.isRaw = false := by
      intro t ht
      rcases List.mem_cons.mp ht with rfl | ht
      · exact ⟨rfl, rfl⟩
      · obtain ⟨c, -, rfl⟩ := List.mem_map.mp ht
        exact ⟨rfl, rfl⟩
    have hs := hmem s (hsent ▸ List.mem_append_right before List.mem_cons_self)
    exact ⟨fun hd => absurd hd (by simp [hs.1]), fun hr => absurd hr (by simp [hs.2])⟩
  | @direct o chunk p chunks hn hp =>
    cases before with
    | nil =>
      cases hsent
      refine ⟨fun _ t ht => ?_, fun hr => absurd hr (by simp [Sent.isRaw])⟩
      obtain ⟨c, -, rfl⟩ := List.mem_map.mp ht
      rfl
    | cons b before =>
      rw [List.cons_append, List.cons.injEq] at hsent
      obtain ⟨rfl, hrest⟩ := hsent
      refine ⟨fun hd => ?_, fun _ => ⟨_, List.mem_cons_self, rfl⟩⟩
      have hmem : s ∈ chunks.map Sent.raw := hrest ▸ List.mem_append_right before List.mem_cons_self
      obtain ⟨c, -, rfl⟩ := List.mem_map.mp hmem
      exact absurd hd (by simp [Sent.isDirect])

end DownlinkStream

/-- **The downlink is lossless**: however the client cuts the plaintext, its
unpadder and the raw bytes give back the chunks; the UUID opens the first block and no
other; at most one block ends the padding; and Direct divides plaintext from raw. -/
theorem downlink_lossless (uuid : Uuid) (reads : List DownlinkRead) :
    (∀ chunks : List (List UInt8), chunks.flatten = plaintextOf (Downlink.sent uuid reads) →
      (pushAll Unpadder.push (Unpadder.new uuid) chunks).2 ++ rawOf (Downlink.sent uuid reads) =
        (reads.map DownlinkRead.chunk).flatten) ∧
    (Downlink.sent uuid reads).map Sent.uuid = openings (some uuid) reads.length ∧
    (∀ o command bytes, Sent.block o command bytes ∈ Downlink.sent uuid reads →
      ∃ chunk p, bytes = wireBlock o chunk command p) ∧
    (Downlink.sent uuid reads).countP Sent.isLast ≤ 1 ∧
    (∀ before s after, Downlink.sent uuid reads = before ++ s :: after →
      (s.isDirect = true → ∀ t ∈ after, t.isRaw = true) ∧
      (s.isRaw = true → ∃ t ∈ before, t.isDirect = true)) := by
  have hstream : DownlinkStream (some uuid) (reads.map DownlinkRead.chunk)
      (Downlink.sent uuid reads) :=
    Downlink.run_stream (d := Downlink.new uuid) reads rfl rfl
  refine ⟨?_, ?_, hstream.bytes_eq, hstream.countP_isLast_le, ?_⟩
  · intro chunks hchunks
    rw [Unpadder.chunkFree_push.pushAll_eq (Unpadder.valid_new uuid), hchunks]
    exact hstream.recover_new
  · rw [hstream.uuid_eq, List.length_map]
  · intro before s after hsplit
    exact hstream.direct_before_raw hsplit

/-- Three reads that go through all of it: a Continue block, the record that ends the
padding with Direct, and a raw chunk. -/
def directReads : List DownlinkRead :=
  [⟨[65], by decide, by decide, .initial, 1, by decide⟩,
    ⟨[23, 3, 3, 0, 1, 9], by decide, by decide, ⟨0, true, true, true, 0, 0⟩, 0, by decide⟩,
    ⟨[8], by decide, by decide, .initial, 0, by decide⟩]

theorem downlink_lossless_direct :
    (pushAll Unpadder.push (Unpadder.new ⟨List.replicate 16 7, rfl⟩)
        [plaintextOf (Downlink.sent ⟨List.replicate 16 7, rfl⟩ directReads)]).2 ++
      rawOf (Downlink.sent ⟨List.replicate 16 7, rfl⟩ directReads) =
        [65, 23, 3, 3, 0, 1, 9, 8] :=
  (downlink_lossless ⟨List.replicate 16 7, rfl⟩ directReads).1 _ (List.append_nil _)

end Vision
end HoldTheDonut
