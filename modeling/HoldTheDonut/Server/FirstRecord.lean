import HoldTheDonut.Interaction.Exec
import HoldTheDonut.Server.Proxy

/-!
# A plain flow and its first record

With fragmentation configured, the plain flow of `handle_session` reads the first TLS
record of the client before it does anything else: `read_first_record` takes five bytes for
a record header, whatever the first of them says, and waits for as many bytes as the fourth
and fifth announce.  Nothing is written to the target and nothing is relayed from it until
then.  A client that speaks first and not TLS, or a target that speaks first, is waited on;
the `FragmentWriter` of the other handler passes everything on that does not start with the
handshake byte.

The handler is run in a world (`exec`) where the client has sent certain bytes and its
connection is still open, so that the read after the last of them waits.  The copy that
follows the first record is full duplex: once the handler is in it, what the client has sent
is handed over and what the target sends is relayed.  The handler gets there exactly when
the client's bytes hold a whole record by that reckoning and the picks return with which it
cuts a ClientHello (`plainFlow_unwithheld_iff`); a pick from the range of every `u32` panics.
-/

namespace HoldTheDonut
namespace Server

open Interaction Streaming Routing
open Wire (Request WireError)

/-! ## The world -/

/-- A client that has sent some bytes and keeps its connection open. -/
structure Sender where
  /-- What it has sent and is not yet read, read by read. -/
  chunks : List (List UInt8)
  /-- What `rand` will return; zero when that is used up. -/
  randoms : List UInt32
  /-- What the target has been handed. -/
  handed : List UInt8

namespace Sender

/-- The answers: the target can be reached and takes what it is written, the snapshot of the
users and the answers of the name server are given.  A read waits when all has been read, and
a copy both ways does not end, since neither side closes. -/
def answer (users : UserAuth) (addrs : String → Option (List IpAddr)) :
    (op : Op) → Sender → Option (Ans op × Sender)
  | .readClient, w =>
    match w.chunks with
    | [] => none
    | c :: cs => some ((some c : Option (List UInt8)), { w with chunks := cs })
  | .loadUsers, w => some (users, w)
  | .respond _, w => some (true, w)
  | .lookup host, w => some (addrs host, w)
  | .connect _, w => some (true, w)
  | .writeUp _ bytes, w => some (true, { w with handed := w.handed ++ bytes })
  | .random, w => some (w.randoms.headD 0, { w with randoms := w.randoms.tail })
  | .sleep _, w => some ((), w)
  | _, _ => none

end Sender

/-- What the first-record path asks of a world: a read gives what is there to read, the target
takes what it is written, and the random numbers are those of the list. -/
structure Serves (env : (op : Op) → Sender → Option (Ans op × Sender)) : Prop where
  readClient : ∀ {w : Sender} {c : List UInt8} {cs : List (List UInt8)}, w.chunks = c :: cs →
    env .readClient w = some ((some c : Option (List UInt8)), { w with chunks := cs })
  writeUp : ∀ (w : Sender) (u : Upstream) (bytes : List UInt8),
    env (.writeUp u bytes) w = some ((true : Bool), { w with handed := w.handed ++ bytes })
  random : ∀ w : Sender,
    env .random w = some ((w.randoms.headD 0 : UInt32), { w with randoms := w.randoms.tail })
  sleep : ∀ (w : Sender) (ms : ℕ), env (.sleep ms) w = some ((() : Unit), w)

/-- What the target has been handed when the handler has come to a rest.  A copy both ways
has passed on what was read early and everything that was there to read. -/
def handedOver : Stop Op ProxyError Unit × Sender → List UInt8
  | (.waits (.copyBidirectional _ early), w) => w.handed ++ early ++ w.chunks.flatten
  | (_, w) => w.handed

/-- The handler relays what the target sends: it is in a copy both ways. -/
def RelaysDown : Stop Op ProxyError Unit → Prop
  | .waits (.copyBidirectional _ _) => True
  | _ => False

/-- The first five bytes announce a record that is there as a whole. -/
def RecordComplete (p : List UInt8) : Prop :=
  5 ≤ p.length ∧ 5 + be16 (p.getD 3 0) (p.getD 4 0) ≤ p.length

instance : DecidablePred RecordComplete := fun p =>
  inferInstanceAs (Decidable (5 ≤ p.length ∧ 5 + be16 (p.getD 3 0) (p.getD 4 0) ≤ p.length))

/-- The length the first five bytes give the first record, themselves included. -/
def recordTotal (s : List UInt8) : ℕ := 5 + be16 (s.getD 3 0) (s.getD 4 0)

/-- A range that is not the one of every `u32`. -/
def RangeFits (range : UInt32 × UInt32) : Prop := range.2.toNat - range.1.toNat < 2 ^ 32 - 1

instance : DecidablePred RangeFits := fun _ => inferInstanceAs (Decidable (_ < _))

/-- The picks return with which a payload is written in pieces: that of the first size, and
that of a delay unless the first piece is all there is.  `r` is the first random number. -/
def PicksReturn (p : FragmentParams) (r : UInt32) (payload : List UInt8) : Prop :=
  RangeFits p.len ∧ (RangeFits p.intervalMs ∨
    ∃ size, pick p.len r = some size ∧ payload.length ≤ max size.toNat 1)

/-- What the first-record path gets through: a whole record, of which a ClientHello can be
cut. -/
structure FirstRecordPasses (frag : FragmentParams) (r : UInt32) (p : List UInt8) : Prop where
  complete : RecordComplete p
  picks : IsClientHello (p.take (recordTotal p)) →
    PicksReturn frag r ((p.take (recordTotal p)).drop 5)

/-- What `resolve` makes of an endpoint. -/
def resolved (addrs : String → Option (List IpAddr)) (ep : Endpoint) : Option SocketAddr :=
  match ep.address with
  | .ip ip => some ⟨ip, ep.port⟩
  | .domain d =>
    match parseIpAddr d with
    | some ip => some ⟨ip, ep.port⟩
    | none => (Option.bind (addrs d) List.head?).map fun ip => ⟨ip, ep.port⟩

/-- A known user asks for a TCP target without a flow; the target is reached directly, and
the direct egress fragments. -/
structure PlainDirect (users : UserAuth) (addrs : String → Option (List IpAddr))
    (router : Router) (outbounds : Outbounds) (frag : FragmentParams) (request : Request) :
    Prop where
  command : request.command = .tcp
  flow : request.flow = .none
  known : users.isAuthorized request.user = true
  target : ∃ ep addr, request.target = some ep ∧ isBlocked (router.route ep) = false ∧
    outbounds.get (router.route ep) = none ∧ resolved addrs ep = some addr
  fragment : outbounds.fragment = some frag

/-! ## Reading -/

section Reading

variable (users : UserAuth) (addrs : String → Option (List IpAddr)) {w : Sender}

/-- The open connection serves the path. -/
theorem Sender.serves_answer : Serves (Sender.answer users addrs) where
  readClient h := by
    rw [Sender.answer, h]
    rfl
  writeUp _ _ _ := rfl
  random _ := rfl
  sleep _ _ := rfl

variable {buf : List UInt8} {fuel : ℕ}

/-- **The header loop** returns the request, and leaves behind it what the client has sent
behind the header, part of it in the buffer. -/
theorem exec_readHeader {request : Request} {p : List UInt8} (cs : List (List UInt8))
    (hw : w.chunks = cs) (hne : ∀ c ∈ cs, c ≠ []) (hfuel : cs.length ≤ fuel)
    (hbuf : ∀ x, Request.decode buf ≠ .ok x)
    (hdecode : Request.decode (buf ++ cs.flatten) = .ok (request, p)) :
    ∃ leftover rest, exec (Sender.answer users addrs) (readHeader fuel buf) w =
        (.returned (request, leftover), { w with chunks := rest }) ∧
      leftover ++ rest.flatten = p ∧ rest <:+ cs := by
  induction cs generalizing w fuel buf with
  | nil =>
    rw [List.flatten_nil, List.append_nil] at hdecode
    exact absurd hdecode (hbuf _)
  | cons c cs ih =>
    obtain ⟨fuel, rfl⟩ : ∃ k, fuel = k + 1 := ⟨fuel - 1, by rw [List.length_cons] at hfuel; omega⟩
    obtain ⟨b, bytes, rfl⟩ := List.exists_cons_of_ne_nil (hne c List.mem_cons_self)
    rw [List.flatten_cons, ← List.append_assoc] at hdecode
    have hrun : exec (Sender.answer users addrs) (readHeader (fuel + 1) buf) w =
        exec (Sender.answer users addrs) (decodeHeader (buf ++ b :: bytes) id
          (readHeader fuel (buf ++ b :: bytes))) { w with chunks := cs } :=
      exec_ask_of_some ((Sender.serves_answer users addrs).readClient hw)
    rw [hrun, decodeHeader]
    cases hbytes : Request.decode (buf ++ b :: bytes) with
    | ok x =>
      rw [Wire.incremental_decode.ok_append hbytes] at hdecode
      obtain ⟨hreq, hp⟩ := Prod.mk.inj (Except.ok.inj hdecode)
      refine ⟨x.2, cs, ?_, hp, List.suffix_cons _ _⟩
      rw [← hreq]
      rfl
    | error e =>
      by_cases htrunc : e.Truncated
      · have hundecided : ∀ x, Request.decode (buf ++ b :: bytes) ≠ .ok x := by
          intro x hx
          rw [hbytes] at hx
          cases hx
        obtain ⟨leftover, rest, hrest, hp, hsuffix⟩ := ih (w := { w with chunks := cs }) rfl
          (fun d hd => hne d (List.mem_cons_of_mem _ hd)) (Nat.le_of_succ_le_succ hfuel)
          hundecided hdecode
        refine ⟨leftover, rest, ?_, hp, hsuffix.trans (List.suffix_cons _ _)⟩
        show exec _ (if e.Truncated then _ else _) _ = _
        rw [if_pos htrunc]
        exact hrest
      · rw [Wire.incremental_decode.error_append hbytes htrunc] at hdecode
        cases hdecode

variable {env : (op : Op) → Sender → Option (Ans op × Sender)} {early p : List UInt8}

/-- **What is still to be read** of the bytes `p` when `early` has been read: the chunks that are
left.  None of them is empty, and the fuel is enough for all of them. -/
structure Outstanding (w : Sender) (fuel : ℕ) (early p : List UInt8) : Prop where
  nonempty : ∀ c ∈ w.chunks, c ≠ []
  enough : w.chunks.length < fuel
  bytes : early ++ w.chunks.flatten = p

namespace Outstanding

/-- After some reads. -/
theorem after (h : Outstanding w fuel early p) {read rest : List (List UInt8)}
    (hchunks : w.chunks = read ++ rest) :
    Outstanding { w with chunks := rest } fuel (early ++ read.flatten) p := by
  have hrest : rest <:+ w.chunks := hchunks ▸ List.suffix_append read rest
  refine ⟨fun c hc => h.nonempty c (hrest.subset hc), hrest.length_le.trans_lt h.enough, ?_⟩
  rw [← h.bytes, hchunks, List.flatten_append, List.append_assoc]

/-- After one read, which takes one turn. -/
theorem tail (h : Outstanding w (fuel + 1) early p) {c : List UInt8} {cs : List (List UInt8)}
    (hchunks : w.chunks = c :: cs) :
    ∃ b bytes, c = b :: bytes ∧ Outstanding { w with chunks := cs } fuel (early ++ c) p := by
  obtain ⟨b, bytes, rfl⟩ :=
    List.exists_cons_of_ne_nil (h.nonempty c (hchunks ▸ List.mem_cons_self))
  have hlen := h.enough
  have hrest := h.after (show w.chunks = [b :: bytes] ++ cs from hchunks)
  rw [hchunks] at hlen
  rw [List.flatten_singleton] at hrest
  exact ⟨b, bytes, rfl, hrest.nonempty, Nat.lt_of_succ_lt_succ hlen, hrest.bytes⟩

theorem eq_of_nil (h : Outstanding w fuel early p) (hchunks : w.chunks = []) : early = p := by
  rw [← h.bytes, hchunks, List.flatten_nil, List.append_nil]

end Outstanding

/-- Enough bytes have been sent: the read loop returns with at least as many. -/
theorem exec_readAtLeast (henv : Serves env) {n : ℕ} (h : Outstanding w fuel buf p)
    (hn : n ≤ p.length) :
    ∃ read rest, w.chunks = read ++ rest ∧ n ≤ (buf ++ read.flatten).length ∧
      exec env (readAtLeast n fuel buf) w =
        (.returned (buf ++ read.flatten), { w with chunks := rest }) := by
  induction fuel generalizing w buf with
  | zero => exact absurd h.enough (Nat.not_lt_zero _)
  | succ fuel ih =>
    rw [readAtLeast]
    split
    · next henough =>
      refine ⟨[], w.chunks, rfl, ?_, ?_⟩
      · rwa [List.flatten_nil, List.append_nil]
      · rw [List.flatten_nil, List.append_nil]
        rfl
    · next hmore =>
      cases hchunks : w.chunks with
      | nil =>
        rw [← h.eq_of_nil hchunks] at hn
        exact absurd hn hmore
      | cons c cs =>
        obtain ⟨b, bytes, rfl, hrest⟩ := h.tail hchunks
        obtain ⟨read, rest, hcs, hlen, hrun⟩ := ih hrest
        obtain rfl : cs = read ++ rest := hcs
        refine ⟨(b :: bytes) :: read, rest, rfl, ?_, ?_⟩
        · rwa [List.flatten_cons, ← List.append_assoc]
        · rw [List.flatten_cons, ← List.append_assoc]
          exact (exec_ask_of_some (henv.readClient hchunks)).trans hrun

/-- Not enough bytes have been sent: the read loop gets to a read past the last of them. -/
theorem exec_readAtLeast_short (henv : Serves env) {n : ℕ} (h : Outstanding w fuel buf p)
    (hn : p.length < n) :
    ∃ k, exec env (readAtLeast n fuel buf) w =
      exec env (readAtLeast n (k + 1) p) { w with chunks := [] } := by
  induction fuel generalizing w buf with
  | zero => exact absurd h.enough (Nat.not_lt_zero _)
  | succ fuel ih =>
    cases hchunks : w.chunks with
    | nil => exact ⟨fuel, by rw [h.eq_of_nil hchunks, ← hchunks]⟩
    | cons c cs =>
      have hshort : ¬ n ≤ buf.length := by
        rw [← h.bytes, List.length_append] at hn
        omega
      obtain ⟨b, bytes, rfl, hrest⟩ := h.tail hchunks
      obtain ⟨k, hrun⟩ := ih hrest
      refine ⟨k, ?_⟩
      rw [readAtLeast, if_neg hshort]
      exact (exec_ask_of_some (henv.readClient hchunks)).trans hrun

/-- The length of a record does not change when more follows. -/
theorem recordTotal_append {s x : List UInt8} (h : 5 ≤ s.length) :
    recordTotal (s ++ x) = recordTotal s := by
  unfold recordTotal
  rw [List.getD_append _ _ _ _ (by omega), List.getD_append _ _ _ _ (by omega)]

/-- Once the header is there, the rest of the record is read. -/
theorem exec_readFirstRecord_eq (henv : Serves env) (h : Outstanding w fuel early p)
    (hfive : 5 ≤ p.length) :
    ∃ read mid, w.chunks = read ++ mid ∧
      Outstanding { w with chunks := mid } fuel (early ++ read.flatten) p ∧
      exec env (readFirstRecord fuel early) w = exec env (do
        let buf ← readAtLeast (recordTotal p) fuel (early ++ read.flatten)
        pure (buf.take (recordTotal p), buf.drop (recordTotal p))) { w with chunks := mid } := by
  obtain ⟨read, mid, hchunks, hlen, hrun⟩ := exec_readAtLeast henv h hfive
  have hmid := h.after hchunks
  refine ⟨read, mid, hchunks, hmid, ?_⟩
  rw [readFirstRecord, exec_bind_of_returned _ hrun, if_neg (Nat.not_lt.mpr hlen), ← hmid.bytes,
    recordTotal_append hlen]
  rfl

/-- **A whole first record** is returned with what was read past it. -/
theorem exec_readFirstRecord (henv : Serves env) (h : Outstanding w fuel early p)
    (hcomplete : RecordComplete p) :
    ∃ record extra read rest, w.chunks = read ++ rest ∧
      exec env (readFirstRecord fuel early) w =
        (.returned (record, extra), { w with chunks := rest }) ∧
      record ++ extra = early ++ read.flatten ∧ record.length = recordTotal p := by
  obtain ⟨hfive, htotal⟩ := hcomplete
  obtain ⟨read, mid, hchunks, hmid, hrun⟩ := exec_readFirstRecord_eq henv h hfive
  obtain ⟨read', rest, hrest, hlen, hrun'⟩ := exec_readAtLeast henv hmid htotal
  obtain rfl : mid = read' ++ rest := hrest
  refine ⟨_, (early ++ read.flatten ++ read'.flatten).drop (recordTotal p), read ++ read', rest, ?_,
    hrun.trans (exec_bind_of_returned _ hrun'), ?_, List.length_take_of_le hlen⟩
  · rw [hchunks, List.append_assoc]
  · rw [List.take_append_drop, List.flatten_append, List.append_assoc]

/-- No whole first record: the handler gets to a read past the last byte, with nothing written.  If
that brings nothing more, what there is is the record. -/
theorem exec_readFirstRecord_short (henv : Serves env) (h : Outstanding w fuel early p)
    (hincomplete : ¬ RecordComplete p) :
    ∃ n k next, p.length < n ∧ next p = pure (p, []) ∧
      exec env (readFirstRecord fuel early) w =
        exec env (readAtLeast n (k + 1) p >>= next) { w with chunks := [] } := by
  by_cases hfive : 5 ≤ p.length
  · have htotal : p.length < recordTotal p :=
      Nat.not_le.mp fun htotal => hincomplete ⟨hfive, htotal⟩
    obtain ⟨read, mid, -, hmid, hrun⟩ := exec_readFirstRecord_eq henv h hfive
    obtain ⟨k, hrest⟩ := exec_readAtLeast_short henv hmid htotal
    refine ⟨recordTotal p, k, _, htotal, ?_, hrun.trans (by rw [exec_bind, hrest, ← exec_bind])⟩
    rw [List.take_of_length_le htotal.le, List.drop_of_length_le htotal.le]
  · have hshort : p.length < 5 := Nat.not_le.mp hfive
    obtain ⟨k, hrest⟩ := exec_readAtLeast_short henv h hshort
    exact ⟨5, k, _, hshort, if_pos hshort,
      by rw [readFirstRecord, exec_bind, hrest, ← exec_bind]⟩

/-- On an open connection it waits there. -/
theorem exec_readFirstRecord_waits (h : Outstanding w fuel early p)
    (hincomplete : ¬ RecordComplete p) :
    exec (Sender.answer users addrs) (readFirstRecord fuel early) w =
      (.waits .readClient, { w with chunks := [] }) := by
  obtain ⟨n, k, next, hn, -, hrun⟩ :=
    exec_readFirstRecord_short (Sender.serves_answer users addrs) h hincomplete
  rw [hrun, readAtLeast, if_neg (Nat.not_le.mpr hn)]
  exact exec_bind_of_waits _ (exec_ask_of_none rfl)

end Reading

/-! ## Writing -/

/-- The size of a span, as far as thirty-two bits can say. -/
theorem toNat_span {lo hi : UInt32} (h : lo < hi) :
    (hi - lo + 1).toNat = (hi.toNat - lo.toNat + 1) % 2 ^ 32 := by
  rw [UInt32.toNat_add, UInt32.toNat_sub_of_le hi lo (UInt32.le_of_lt h)]
  rfl

variable {range : UInt32 × UInt32}

/-- **A pick panics exactly for the range of every `u32`.** -/
theorem pick_eq_none_iff {r : UInt32} :
    pick range r = none ↔ ¬ RangeFits range := by
  have hhi := range.2.toNat_lt
  unfold pick RangeFits
  split
  · next hle =>
    have hle' : range.2.toNat ≤ range.1.toNat := hle
    refine iff_of_false (Option.some_ne_none _) (not_not.mpr ?_)
    omega
  · next hlt =>
    have hspan := toNat_span (UInt32.not_le.mp hlt)
    have hzero : range.2 - range.1 + 1 = 0 ↔ (range.2 - range.1 + 1).toNat = 0 :=
      UInt32.toNat_inj.symm
    split
    · next hnone =>
      refine iff_of_true rfl fun hfits => ?_
      rw [hzero.mp hnone] at hspan
      omega
    · next hsome =>
      refine iff_of_false (Option.some_ne_none _) (not_not.mpr ?_)
      by_contra hfull
      exact hsome (hzero.mpr (hspan.trans (by omega)))

theorem RangeFits.exists_pick (h : RangeFits range) (r : UInt32) :
    ∃ v, pick range r = some v :=
  Option.ne_none_iff_exists'.mp fun hnone => pick_eq_none_iff.mp hnone h

/-- The random numbers behind a pick.  A range of one number takes none. -/
def afterPick (range : UInt32 × UInt32) (randoms : List UInt32) : List UInt32 :=
  if range.2 ≤ range.1 then randoms else randoms.tail

/-- Of the random numbers of `write_fragmented`, those behind its length picks.  Between two
of them there is a pick of the delay. -/
def lengthRandoms (p : FragmentParams) : ℕ → List UInt32 → List UInt32
  | 0, _ => []
  | n + 1, randoms =>
    randoms.headD 0 :: lengthRandoms p n (afterPick p.intervalMs (afterPick p.len randoms))

theorem pieceLoop_nil (len : UInt32 × UInt32) (v0 v1 : UInt8) (fuel : ℕ) (picks : List UInt32) :
    pieceLoop len v0 v1 fuel picks [] = some [] := by
  cases fuel <;> rfl

section Writing

variable {env : (op : Op) → Sender → Option (Ans op × Sender)} (henv : Serves env) {w : Sender}

include henv

theorem exec_writeUp (u : Upstream) (bytes : List UInt8) :
    exec env (writeUp u bytes) w = (.returned (), { w with handed := w.handed ++ bytes }) :=
  exec_ask_of_some (henv.writeUp w u bytes)

theorem exec_writeUpNonempty (u : Upstream) (bytes : List UInt8) :
    exec env (writeUpNonempty u bytes) w =
      (.returned (), { w with handed := w.handed ++ bytes }) := by
  unfold writeUpNonempty
  split
  · next hnil =>
    rw [hnil, List.append_nil]
    rfl
  · exact exec_writeUp henv u bytes

/-- A draw takes the next random number, if its range has more than one. -/
theorem exec_draw (range : UInt32 × UInt32) :
    exec env (draw range) w = exec env (Prog.orFail .overflow (pick range (w.randoms.headD 0)))
      { w with randoms := afterPick range w.randoms } := by
  unfold draw afterPick
  split
  · next hle =>
    have hpick : ∀ r, pick range r = some range.1 := fun _ => if_pos hle
    rw [hpick, hpick]
  · exact exec_ask_of_some (henv.random w)

theorem exec_draw_of_pick {v : UInt32} (h : pick range (w.randoms.headD 0) = some v) :
    exec env (draw range) w = (.returned v, { w with randoms := afterPick range w.randoms }) := by
  rw [exec_draw henv, h]
  rfl

/-- A draw from the range of every `u32` panics. -/
theorem exec_draw_overflow (h : ¬ RangeFits range) :
    exec env (draw range) w =
      (.failed .overflow, { w with randoms := afterPick range w.randoms }) := by
  rw [exec_draw henv, pick_eq_none_iff.mpr h]
  rfl

/-- A header and its piece are a record. -/
theorem exec_writePiece (u : Upstream) (v0 v1 : UInt8) {chunk : ℕ} {piece : List UInt8}
    (h : piece.length = chunk) (next : Handler Unit) :
    exec env (do
        writeUp u [0x16, v0, v1, hi8 chunk, lo8 chunk]
        writeUp u piece
        next) w =
      exec env next { w with handed := w.handed ++ pieceRecord v0 v1 piece } := by
  rw [exec_bind_of_returned _ (exec_writeUp henv u _),
    exec_bind_of_returned _ (exec_writeUp henv u _), pieceRecord, h]
  simp only [List.append_assoc, List.cons_append, List.nil_append]

/-- **The loop over a ClientHello** writes the pieces the length picks cut. -/
theorem exec_fragmentLoop (u : Upstream) (p : FragmentParams) (v0 v1 : UInt8) (fuel : ℕ)
    {payload : List UInt8} (h : PicksReturn p (w.randoms.headD 0) payload) :
    ∃ randoms out, pieceLoop p.len v0 v1 fuel (lengthRandoms p fuel w.randoms) payload = some out ∧
      exec env (fragmentLoop u p v0 v1 fuel payload) w =
        (.returned (), { w with randoms := randoms, handed := w.handed ++ out }) := by
  induction fuel generalizing w payload with
  | zero => exact ⟨w.randoms, [], rfl, by rw [List.append_nil]; rfl⟩
  | succ fuel ih =>
    rw [fragmentLoop, pieceLoop, lengthRandoms]
    by_cases hnil : payload = []
    · rw [if_pos hnil, if_pos hnil]
      exact ⟨w.randoms, [], rfl, by rw [List.append_nil]; rfl⟩
    · obtain ⟨size, hsize⟩ := h.1.exists_pick (w.randoms.headD 0)
      rw [if_neg hnil, if_neg hnil, exec_bind_of_returned _ (exec_draw_of_pick henv hsize)]
      simp only [List.headD_cons, List.tail_cons, hsize, Option.bind_eq_bind, Option.bind_some]
      generalize hchunk : min (max size.toNat 1) payload.length = chunk
      rw [exec_writePiece henv u v0 v1 (List.length_take_of_le (by omega))]
      by_cases hlast : payload.drop chunk = []
      · rw [if_pos hlast, hlast, pieceLoop_nil]
        exact ⟨_, _, rfl, by rw [List.append_nil]; rfl⟩
      · -- there is more than the first piece, so the range of the delays fits
        have hinterval : RangeFits p.intervalMs := by
          refine h.2.resolve_right ?_
          rintro ⟨size', hsize', hall⟩
          obtain rfl := Option.some.inj (hsize.symm.trans hsize')
          exact hlast (List.drop_of_length_le (by omega))
        obtain ⟨d, hd⟩ := hinterval.exists_pick ((afterPick p.len w.randoms).headD 0)
        have hdelay := exec_draw_of_pick henv (w := ⟨w.chunks, afterPick p.len w.randoms,
          w.handed ++ pieceRecord v0 v1 (payload.take chunk)⟩) hd
        have hrest : PicksReturn p ((afterPick p.intervalMs (afterPick p.len w.randoms)).headD 0)
            (payload.drop chunk) := ⟨h.1, Or.inl hinterval⟩
        obtain ⟨randoms, out, hout, hrun⟩ := ih (w := ⟨w.chunks,
          afterPick p.intervalMs (afterPick p.len w.randoms),
          w.handed ++ pieceRecord v0 v1 (payload.take chunk)⟩) hrest
        refine ⟨randoms, pieceRecord v0 v1 (payload.take chunk) ++ out, ?_, ?_⟩
        · rw [hout]
          rfl
        · rw [if_neg hlast, exec_bind_of_returned _ hdelay, ← List.append_assoc]
          -- with or without a delay, what follows is the loop over the rest
          split
          · exact hrun
          · exact (exec_ask_of_some (henv.sleep _ _)).trans hrun

/-- Otherwise it panics at one of its first two picks. -/
theorem exec_fragmentLoop_overflow (u : Upstream) (p : FragmentParams) (v0 v1 : UInt8) (fuel : ℕ)
    {payload : List UInt8} (hne : payload ≠ []) (h : ¬ PicksReturn p (w.randoms.headD 0) payload) :
    ∃ w', exec env (fragmentLoop u p v0 v1 (fuel + 1) payload) w = (.failed .overflow, w') := by
  rw [fragmentLoop, if_neg hne]
  by_cases hlen : RangeFits p.len
  · obtain ⟨size, hsize⟩ := hlen.exists_pick (w.randoms.headD 0)
    have hinterval : ¬ RangeFits p.intervalMs := fun hinterval => h ⟨hlen, Or.inl hinterval⟩
    have hmore : ¬ payload.length ≤ max size.toNat 1 :=
      fun hall => h ⟨hlen, Or.inr ⟨size, hsize, hall⟩⟩
    have hdrop : payload.drop (min (max size.toNat 1) payload.length) ≠ [] := by
      rw [Ne, List.drop_eq_nil_iff]
      omega
    rw [exec_bind_of_returned _ (exec_draw_of_pick henv hsize)]
    simp only
    rw [exec_writePiece henv u v0 v1 (List.length_take_of_le (by omega)), if_neg hdrop]
    exact ⟨_, exec_bind_of_failed _ (exec_draw_overflow henv hinterval)⟩
  · exact ⟨_, exec_bind_of_failed _ (exec_draw_overflow henv hlen)⟩

variable {record : List UInt8}

/-- **`write_fragmented` writes what `fragment_clienthello_to_vec` returns** for the same
length picks. -/
theorem exec_writeFragmented (u : Upstream) {p : FragmentParams}
    (h : IsClientHello record → PicksReturn p (w.randoms.headD 0) (record.drop 5)) :
    ∃ randoms out,
      fragmentClienthelloToVec record p (lengthRandoms p (record.drop 5).length w.randoms) =
        some out ∧
      exec env (writeFragmented u record p) w =
        (.returned (), { w with randoms := randoms, handed := w.handed ++ out }) := by
  unfold writeFragmented fragmentClienthelloToVec
  by_cases hhello : IsClientHello record
  · rw [if_pos hhello, if_pos (show _ ∧ _ ∧ _ from hhello)]
    exact exec_fragmentLoop henv u p _ _ _ (h hhello)
  · rw [if_neg hhello, if_neg (show ¬ (_ ∧ _ ∧ _) from hhello)]
    exact ⟨w.randoms, record, rfl, exec_writeUp henv u record⟩

/-- It panics where one of the picks does that it needs. -/
theorem exec_writeFragmented_overflow (u : Upstream) {p : FragmentParams}
    (hhello : IsClientHello record) (h : ¬ PicksReturn p (w.randoms.headD 0) (record.drop 5)) :
    ∃ w', exec env (writeFragmented u record p) w = (.failed .overflow, w') := by
  have hsix : 6 ≤ record.length := hhello.1
  obtain ⟨n, hn⟩ : ∃ n, (record.drop 5).length = n + 1 :=
    ⟨record.length - 6, by rw [List.length_drop]; omega⟩
  rw [writeFragmented, if_pos (show _ ∧ _ ∧ _ from hhello), hn]
  exact exec_fragmentLoop_overflow henv u p _ _ n (List.ne_nil_of_length_eq_add_one hn) h

omit henv in
/-- The first record starts with the first byte. -/
theorem getD_take_recordTotal (p : List UInt8) :
    (p.take (recordTotal p)).getD 0 0 = p.headD 0 := by
  cases p with
  | nil => rw [List.take_nil]; rfl
  | cons b p =>
    obtain ⟨n, hn⟩ : ∃ n, recordTotal (b :: p) = n + 1 :=
      ⟨4 + be16 ((b :: p).getD 3 0) ((b :: p).getD 4 0), by unfold recordTotal; omega⟩
    rw [hn]
    rfl

omit henv in
/-- What does not start with the handshake byte is not touched. -/
theorem fragmentClienthelloToVec_of_head (h : record.getD 0 0 ≠ 0x16) (p : FragmentParams)
    (picks : List UInt32) : fragmentClienthelloToVec record p picks = some record :=
  if_neg fun hhello => h hhello.2.1

end Writing

/-! ## The plain flow -/

section PlainFlow

variable (users : UserAuth) (addrs : String → Option (List IpAddr)) {w : Sender}
  {outbounds : Outbounds} {frag : FragmentParams} {early p : List UInt8} {fuel : ℕ}

/-- A whole first record is read, and what was read past it. -/
theorem exec_readFirstRecord_take (h : Outstanding w fuel early p)
    (hcomplete : RecordComplete p) :
    ∃ extra rest, exec (Sender.answer users addrs) (readFirstRecord fuel early) w =
        (.returned (p.take (recordTotal p), extra), { w with chunks := rest }) ∧
      p.take (recordTotal p) ++ extra ++ rest.flatten = p := by
  obtain ⟨record, extra, read, rest, hchunks, hread, happ, hlen⟩ :=
    exec_readFirstRecord (Sender.serves_answer users addrs) h hcomplete
  have hall : record ++ extra ++ rest.flatten = p := by
    rw [happ]
    exact (h.after hchunks).bytes
  have hrecord : p.take (recordTotal p) = record := by
    have happ' := hall
    rw [List.append_assoc] at happ'
    rw [← happ', List.take_left' (happ' ▸ hlen)]
  exact ⟨extra, rest, hrecord ▸ hread, hrecord ▸ hall⟩

section Relay

variable (u : Upstream) (hfrag : outbounds.fragment = some frag) (h : Outstanding w fuel early p)

include hfrag

/-- The early bytes of a direct flow go through the first-record path. -/
theorem writeEarly_direct :
    writeEarly fuel outbounds true u early = (do
      let r ← readFirstRecord fuel early
      writeFragmented u r.1 frag
      writeUpNonempty u r.2) := by
  unfold writeEarly
  rw [hfrag]

include h

/-- With a whole first record that can be written the relay gets to its copy. -/
theorem exec_relayPlain (hpasses : FirstRecordPasses frag (w.randoms.headD 0) p) :
    ∃ w', exec (Sender.answer users addrs) (relayPlain fuel outbounds true u early) w =
        (.waits (.copyBidirectional u []), w') ∧
      (p.headD 0 ≠ 0x16 → w'.handed ++ w'.chunks.flatten = w.handed ++ p) := by
  have henv := Sender.serves_answer users addrs
  obtain ⟨extra, rest, hread, hall⟩ := exec_readFirstRecord_take users addrs h hpasses.complete
  obtain ⟨randoms, out, hout, hwrite⟩ :=
    exec_writeFragmented henv (w := { w with chunks := rest }) u hpasses.picks
  have hearly : exec (Sender.answer users addrs) (writeEarly fuel outbounds true u early) w =
      (.returned (), ⟨rest, randoms, w.handed ++ out ++ extra⟩) := by
    rw [writeEarly_direct u hfrag, exec_bind_of_returned _ hread, exec_bind_of_returned _ hwrite]
    exact exec_writeUpNonempty henv u extra
  refine ⟨_, (exec_bind_of_returned _ hearly).trans rfl, fun hhead => ?_⟩
  rw [← getD_take_recordTotal] at hhead
  rw [fragmentClienthelloToVec_of_head hhead] at hout
  show w.handed ++ out ++ extra ++ rest.flatten = w.handed ++ p
  rw [← Option.some.inj hout, List.append_assoc, List.append_assoc, ← List.append_assoc _ extra,
    hall]

/-- With one that cannot it panics. -/
theorem exec_relayPlain_overflow (hcomplete : RecordComplete p)
    (hpasses : ¬ FirstRecordPasses frag (w.randoms.headD 0) p) :
    ∃ w', exec (Sender.answer users addrs) (relayPlain fuel outbounds true u early) w =
      (.failed .overflow, w') := by
  obtain ⟨extra, rest, hread, -⟩ := exec_readFirstRecord_take users addrs h hcomplete
  obtain ⟨hhello, hpicks⟩ := Classical.not_imp.mp fun hpicks => hpasses ⟨hcomplete, hpicks⟩
  obtain ⟨w', hwrite⟩ := exec_writeFragmented_overflow (Sender.serves_answer users addrs)
    (w := { w with chunks := rest }) u hhello hpicks
  refine ⟨w', exec_bind_of_failed _ ?_⟩
  rw [writeEarly_direct u hfrag, exec_bind_of_returned _ hread]
  exact exec_bind_of_failed _ hwrite

/-- Without one it waits for the client, and the target has been handed nothing. -/
theorem exec_relayPlain_waits (hincomplete : ¬ RecordComplete p) :
    exec (Sender.answer users addrs) (relayPlain fuel outbounds true u early) w =
      (.waits .readClient, { w with chunks := [] }) := by
  refine exec_bind_of_waits _ ?_
  rw [writeEarly_direct u hfrag]
  exact exec_bind_of_waits _ (exec_readFirstRecord_waits users addrs h hincomplete)

end Relay

theorem exec_resolve {ep : Endpoint} {addr : SocketAddr} (h : resolved addrs ep = some addr) :
    exec (Sender.answer users addrs) (resolve ep) w = (.returned addr, w) := by
  obtain ⟨address, port⟩ := ep
  cases address with
  | ip ip =>
    cases h
    rfl
  | domain d =>
    unfold resolved at h
    unfold resolve
    cases hparse : parseIpAddr d with
    | some ip =>
      simp only [hparse] at h ⊢
      cases h
      rfl
    | none =>
      simp only [hparse] at h ⊢
      show exec _ (Prog.orFail _ ((Option.bind (addrs d) List.head?).map _)) w = _
      rw [h]
      rfl

variable {users addrs} {router : Router} {request : Request} (dialect : VisionDialect)

/-- A known user's request for a direct target comes down to the plain relay. -/
theorem exec_serve (h : PlainDirect users addrs router outbounds frag request)
    (leftover : List UInt8) :
    ∃ u, exec (Sender.answer users addrs) (ifAuthorized request
          (serveSession fuel dialect router outbounds request leftover)) w =
        exec (Sender.answer users addrs) (relayPlain fuel outbounds true u leftover) w := by
  obtain ⟨ep, addr, htarget, hblocked, hdirect, haddr⟩ := h.target
  refine ⟨.target addr none, ?_⟩
  have hdial : exec (Sender.answer users addrs)
      (dialTcp outbounds (router.route ep) ep none) w = (.returned (.target addr none), w) := by
    unfold dialTcp
    rw [hdirect]
    exact (exec_bind_of_returned _ (exec_resolve users addrs haddr)).trans rfl
  have hserve : serveSession fuel dialect router outbounds request leftover =
      serveTcp fuel dialect router outbounds .none ep leftover := by
    unfold serveSession
    rw [h.command, h.flow, htarget]
    rfl
  show exec _ (if users.isAuthorized request.user then _ else _) w = _
  rw [if_pos h.known, hserve]
  unfold serveTcp
  simp only [hblocked, Bool.false_eq_true, if_false]
  rw [exec_bind_of_returned _ hdial, exec_bind_of_returned _ rfl, hdirect]
  rfl

/-- The session of such a client, down to the plain relay. -/
theorem exec_handleSession {chunks : List (List UInt8)} {header : List UInt8}
    (randoms : List UInt32) (h : PlainDirect users addrs router outbounds frag request)
    (hheader : Request.decode header = .ok (request, [])) (hne : ∀ c ∈ chunks, c ≠ [])
    (hflat : chunks.flatten = header ++ p) (hfuel : chunks.length < fuel) :
    ∃ u leftover rest,
      exec (Sender.answer users addrs) (handleSession fuel dialect router outbounds)
          ⟨chunks, randoms, []⟩ =
        exec (Sender.answer users addrs) (relayPlain fuel outbounds true u leftover)
          ⟨rest, randoms, []⟩ ∧
      Outstanding ⟨rest, randoms, []⟩ fuel leftover p := by
  have hdecode : Request.decode ([] ++ chunks.flatten) = .ok (request, p) := by
    rw [List.nil_append, hflat]
    exact Wire.incremental_decode.ok_append hheader p
  have hnil : ∀ x, Request.decode [] ≠ .ok x := by
    intro x hx
    cases hx
  obtain ⟨leftover, rest, hread, hp, hsuffix⟩ :=
    exec_readHeader users addrs (w := ⟨chunks, randoms, []⟩) chunks rfl hne hfuel.le hnil hdecode
  obtain ⟨u, hserve⟩ := exec_serve (w := ⟨rest, randoms, []⟩) dialect h leftover
  exact ⟨u, leftover, rest, (exec_bind_of_returned _ hread).trans hserve,
    fun c hc => hne c (hsuffix.subset hc), hsuffix.length_le.trans_lt hfuel, hp⟩

/-- **What the plain flow withholds.**  A client with a known user asks for a direct target,
has sent `p` behind its header, and keeps the connection open.  All of `p` has been handed to
the target if it does not start with the handshake byte, and the target's bytes are relayed,
exactly if `p` holds the whole record its first five bytes announce, and no pick panics with
which that is cut if it is a ClientHello. -/
theorem plainFlow_unwithheld_iff {chunks : List (List UInt8)} {header : List UInt8}
    (randoms : List UInt32) (h : PlainDirect users addrs router outbounds frag request)
    (hheader : Request.decode header = .ok (request, [])) (hne : ∀ c ∈ chunks, c ≠ [])
    (hflat : chunks.flatten = header ++ p) (hfuel : chunks.length < fuel) :
    ((p ≠ [] → p.headD 0 ≠ 0x16 →
        handedOver (exec (Sender.answer users addrs)
          (handleSession fuel dialect router outbounds) ⟨chunks, randoms, []⟩) = p) ∧
      RelaysDown (exec (Sender.answer users addrs)
        (handleSession fuel dialect router outbounds) ⟨chunks, randoms, []⟩).1) ↔
    FirstRecordPasses frag (randoms.headD 0) p := by
  obtain ⟨u, leftover, rest, hrun, hleft⟩ :=
    exec_handleSession dialect randoms h hheader hne hflat hfuel
  rw [hrun]
  by_cases hcomplete : RecordComplete p
  · by_cases hpasses : FirstRecordPasses frag (randoms.headD 0) p
    · obtain ⟨w', hcopy, hhanded⟩ := exec_relayPlain users addrs u h.fragment hleft hpasses
      rw [hcopy]
      refine iff_of_true ⟨fun _ hhead => ?_, trivial⟩ hpasses
      show w'.handed ++ [] ++ w'.chunks.flatten = p
      rw [List.append_nil]
      exact hhanded hhead
    · obtain ⟨w', hfailed⟩ :=
        exec_relayPlain_overflow users addrs u h.fragment hleft hcomplete hpasses
      rw [hfailed]
      exact iff_of_false (fun hboth => hboth.2) hpasses
  · rw [exec_relayPlain_waits users addrs u h.fragment hleft hcomplete]
    exact iff_of_false (fun hboth => hboth.2) fun hpasses => hcomplete hpasses.complete

end PlainFlow

/-! ## A client that does not speak TLS -/

/-- A request for TCP to 127.0.0.1:25, and its header. -/
def mailRequest : Request :=
  ⟨List.Vector.replicate 16 7, .none, .tcp,
    some ⟨.ip (.v4 (Octets.fromSlice 4 [127, 0, 0, 1])), 25⟩, []⟩

def mailHeader : List UInt8 := 0 :: List.replicate 16 7 ++ [0, 1, 0, 25, 1, 127, 0, 0, 1]

theorem decode_mailHeader : Request.decode mailHeader = .ok (mailRequest, []) := rfl

/-- Everything is reached directly, and fragmented. -/
def fragmenting : Outbounds := ⟨∅, some ⟨(50, 100), (0, 0)⟩⟩

theorem plainDirect_mail : PlainDirect ⟨[List.Vector.replicate 16 7]⟩ (fun _ => none)
    ⟨[], "freedom"⟩ fragmenting ⟨(50, 100), (0, 0)⟩ mailRequest where
  command := rfl
  flow := rfl
  known := by decide
  target := ⟨_, _, rfl, by decide, rfl, rfl⟩
  fragment := rfl

/-- A record that is whole is handed over. -/
theorem plainFlow_unwithheld_record :
    handedOver (exec (Sender.answer ⟨[List.Vector.replicate 16 7]⟩ fun _ => none)
      (handleSession 3 .donut ⟨[], "freedom"⟩ fragmenting)
        ⟨[mailHeader, [0x17, 3, 3, 0, 1, 42]], [], []⟩) = [0x17, 3, 3, 0, 1, 42] :=
  ((plainFlow_unwithheld_iff .donut [] plainDirect_mail decode_mailHeader (by decide)
    (by decide) (by decide)).mpr ⟨by decide, fun h => absurd h (by decide)⟩).1 (by decide)
    (by decide)

/-- **A client that says something else than TLS is withheld**, and so is a target that
speaks first: after the line `QUIT` nothing has been handed to the target and nothing it
sends is relayed, and the same is true of a client that has sent nothing at all. -/
theorem plainFlow_withholds_quit :
    handedOver (exec (Sender.answer ⟨[List.Vector.replicate 16 7]⟩ fun _ => none)
        (handleSession 3 .donut ⟨[], "freedom"⟩ fragmenting)
          ⟨[mailHeader, [81, 85, 73, 84, 13, 10]], [], []⟩) = [] ∧
      ¬ RelaysDown (exec (Sender.answer ⟨[List.Vector.replicate 16 7]⟩ fun _ => none)
        (handleSession 3 .donut ⟨[], "freedom"⟩ fragmenting)
          ⟨[mailHeader, [81, 85, 73, 84, 13, 10]], [], []⟩).1 ∧
      ¬ RelaysDown (exec (Sender.answer ⟨[List.Vector.replicate 16 7]⟩ fun _ => none)
        (handleSession 3 .donut ⟨[], "freedom"⟩ fragmenting) ⟨[mailHeader], [], []⟩).1 :=
  ⟨rfl, id, id⟩

end Server
end HoldTheDonut
