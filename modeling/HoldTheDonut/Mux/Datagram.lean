import HoldTheDonut.Interaction.Exec
import HoldTheDonut.Server.Session
import HoldTheDonut.Streaming.Deframe

/-!
# Datagrams on a stream

VLESS-UDP carries datagrams on a stream, each behind its length in two bytes.  Two functions put
such frames together, `write_datagram` on the way into a cascade and `vision_udp_relay` on the way
back to a client, and one takes them apart, `take_datagram`, which is run in a loop by
`vision_udp_relay` and by the task that `dial_chain` spawns.

The loop is a deframer (`datagramParse_stable`), so how the stream was cut does not show
(`pushAll_datagramFrame`).  For `vision_udp_relay` there is a loop around the loop: it starts with
the bytes that were read behind the request, and between two reads of the tunnel it may receive
from its socket any number of times.  `exec_udpRelayLoop` follows it through any list of events:
what it sends are the datagrams of the bytes it has read, and what it writes are the frames of the
datagrams it has received.
-/

namespace HoldTheDonut
namespace Mux

open Interaction Server Streaming

/-! ## Datagrams on a stream -/

/-- `[len][payload]`, as `write_datagram` and the exit put it together. -/
def datagramFrame (data : List UInt8) : List UInt8 :=
  hi8 data.length :: lo8 data.length :: data

/-- `take_datagram` in a loop: it takes or waits and never fails. -/
def datagramParse : Deframer UInt8 Empty (List UInt8) := fun buf => .ok (takeDatagram buf)

theorem takeDatagram_cons (hi lo : UInt8) (body : List UInt8) :
    takeDatagram (hi :: lo :: body) =
      if body.length < be16 hi lo then none
      else some (body.take (be16 hi lo), body.drop (be16 hi lo)) := by
  have hshort : ¬(hi :: lo :: body).length < 2 := by simp
  have hlong : (hi :: lo :: body).length < be16 hi lo + 2 ↔ body.length < be16 hi lo := by
    simp only [List.length_cons]
    omega
  unfold takeDatagram
  simp only [if_neg hshort, List.getD_cons_zero, List.getD_cons_succ, Nat.add_comm 2, hlong,
    List.drop_succ_cons, List.drop_zero]

/-- A datagram is taken exactly where one is complete. -/
theorem takeDatagram_eq_some_iff {buf dg rest : List UInt8} :
    takeDatagram buf = some (dg, rest) ↔
      ∃ hi lo, buf = hi :: lo :: (dg ++ rest) ∧ be16 hi lo = dg.length := by
  constructor
  · intro h
    match buf with
    | [] => cases h
    | [_] => cases h
    | hi :: lo :: body =>
      rw [takeDatagram_cons] at h
      split at h
      · cases h
      · next hlen =>
        cases h
        refine ⟨hi, lo, ?_, ?_⟩
        · rw [List.take_append_drop]
        · rw [List.length_take]
          omega
  · rintro ⟨hi, lo, rfl, hlen⟩
    rw [takeDatagram_cons, hlen, if_neg, List.take_left, List.drop_left]
    rw [List.length_append]
    omega

/-- The loop around `take_datagram` can be rerun on a longer buffer. -/
theorem datagramParse_stable : Deframe.Stable datagramParse where
  nil := rfl
  shrinks := by
    intro s b rest h
    obtain ⟨hi, lo, rfl, -⟩ := takeDatagram_eq_some_iff.mp (Except.ok.inj h)
    simp only [List.length_cons, List.length_append]
    omega
  item_append := by
    intro s b rest h x
    obtain ⟨hi, lo, rfl, hlen⟩ := takeDatagram_eq_some_iff.mp (Except.ok.inj h)
    refine congrArg Except.ok (takeDatagram_eq_some_iff.mpr ⟨hi, lo, ?_, hlen⟩)
    rw [List.cons_append, List.cons_append, List.append_assoc]
  error_append := by
    intro s e
    exact e.elim

/-- What was framed is taken off again. -/
theorem takeDatagram_datagramFrame {data : List UInt8} (h : data.length < 65536)
    (x : List UInt8) : takeDatagram (datagramFrame data ++ x) = some (data, x) :=
  takeDatagram_eq_some_iff.mpr ⟨_, _, rfl, be16_hi8_lo8 h⟩

/-- **Any cut of framed datagrams is taken apart into the datagrams**, with nothing left over. -/
theorem pushAll_datagramFrame {ds : List (List UInt8)} (hds : ∀ d ∈ ds, d.length ≤ 65535)
    {chunks : List (List UInt8)} (hchunks : chunks.flatten = (ds.map datagramFrame).flatten) :
    pushAll (Deframe.push datagramParse) (.ok []) chunks = (.ok [], ds) := by
  have hparse : ∀ d ∈ ds, ∀ x, datagramParse (datagramFrame d ++ x) = .ok (some (id d, x)) := by
    intro d hd x
    exact congrArg Except.ok (takeDatagram_datagramFrame (Nat.lt_succ_of_le (hds d hd)) x)
  have hframes := datagramParse_stable.deframe_flatten datagramFrame id ds hparse
  rw [datagramParse_stable.chunkFree.pushAll_eq datagramParse_stable.waiting_nil, hchunks]
  show Deframe.deframe datagramParse ([] ++ (ds.map datagramFrame).flatten) = _
  rw [List.nil_append, hframes, List.map_id]

/-! ## The relay -/

/-- The socket, the tunnel and the target of a relay: what will happen, and what was sent to the
target and written to the tunnel. -/
structure UdpWorld where
  events : List UdpEvent
  sent : List (List UInt8)
  written : List (List UInt8)

/-- Sends and writes succeed, and the events come one after the other; when they have come, the
relay waits. -/
def UdpWorld.answer : (op : Op) → UdpWorld → Option (Ans op × UdpWorld)
  | .bindUdp _, w => some (true, w)
  | .connectUdp _, w => some (true, w)
  | .sendUdp _ dg, w => some (true, { w with sent := w.sent ++ [dg] })
  | .writeDatagram _ frame, w => some (true, { w with written := w.written ++ [frame] })
  | .shutdownClient, w => some ((), w)
  | .selectUdp _, w =>
    match w.events with
    | [] => none
    | e :: es => some (e, { w with events := es })
  | _, _ => none

/-- The bytes that are read from the tunnel, up to its end, an error or the idle timeout. -/
def tunnelBytes : List UdpEvent → List UInt8
  | .tunnel (some (some pt)) :: es => pt ++ tunnelBytes es
  | .sock (some _) :: es => tunnelBytes es
  | _ => []

/-- The datagrams that are received until then. -/
def received : List UdpEvent → List (List UInt8)
  | .tunnel (some (some _)) :: es => received es
  | .sock (some data) :: es => data :: received es
  | _ => []

/-- The datagrams that are there to send: empty ones are dropped. -/
def nonempty (ds : List (List UInt8)) : List (List UInt8) := ds.filter fun d => !d.isEmpty

/-- The complete datagrams of a buffer. -/
def datagrams (buf : List UInt8) : List (List UInt8) := (Deframe.deframe datagramParse buf).2

/-- The inner loop sends what the deframer finds and keeps what it keeps. -/
theorem exec_flushLoop (target : SocketAddr) (fuel : ℕ) (buf : List UInt8) (w : UdpWorld) :
    ∃ rest, (Deframe.deframeLoop datagramParse fuel buf).1 = .ok rest ∧
      exec UdpWorld.answer (flushDatagrams target fuel buf) w =
        (.returned rest, { w with
          sent := w.sent ++ nonempty (Deframe.deframeLoop datagramParse fuel buf).2 }) := by
  induction fuel generalizing buf w with
  | zero =>
      refine ⟨buf, rfl, ?_⟩
      show (Stop.returned buf, w) = (Stop.returned buf, { w with sent := w.sent ++ [] })
      rw [List.append_nil]
  | succ fuel ih =>
      rw [flushDatagrams, Deframe.deframeLoop, datagramParse]
      rcases htake : takeDatagram buf with _ | ⟨dg, rest⟩
      · refine ⟨buf, rfl, ?_⟩
        show (Stop.returned buf, w) = (Stop.returned buf, { w with sent := w.sent ++ [] })
        rw [List.append_nil]
      · dsimp only
        by_cases hempty : dg = []
        · obtain ⟨left, hleft, hrun⟩ := ih rest w
          refine ⟨left, hleft, ?_⟩
          rw [if_pos hempty, hrun, hempty]
          rfl
        · obtain ⟨left, hleft, hrun⟩ := ih rest { w with sent := w.sent ++ [dg] }
          refine ⟨left, hleft, ?_⟩
          rw [if_neg hempty]
          show exec UdpWorld.answer (flushDatagrams target fuel rest)
            { w with sent := w.sent ++ [dg] } = _
          rw [hrun, nonempty, nonempty, List.filter_cons_of_pos (by simpa using hempty),
            List.append_assoc]
          rfl

theorem exec_flushDatagrams (target : SocketAddr) (buf : List UInt8) (w : UdpWorld) :
    ∃ rest, (Deframe.deframe datagramParse buf).1 = .ok rest ∧
      exec UdpWorld.answer (flushDatagrams target buf.length buf) w =
        (.returned rest, { w with sent := w.sent ++ nonempty (datagrams buf) }) :=
  exec_flushLoop target buf.length buf w

/-- What has been sent is not sent again: more bytes only add the datagrams they complete. -/
theorem datagrams_append {buf rest : List UInt8}
    (h : (Deframe.deframe datagramParse buf).1 = .ok rest) (x : List UInt8) :
    datagrams (buf ++ x) = datagrams buf ++ datagrams (rest ++ x) := by
  unfold datagrams
  rw [datagramParse_stable.deframe_append, andThen_snd, h]
  rfl

/-- The relay has come to a rest and has sent `ds` and written `frames` on the way. -/
structure Rests (w : UdpWorld) (ds frames : List (List UInt8))
    (r : Stop Op ProxyError Unit × UdpWorld) : Prop where
  not_halted : r.1 ≠ .halted
  sent : r.2.sent = w.sent ++ ds
  written : r.2.written = w.written ++ frames

/-- A last turn, when the tunnel has ended. -/
theorem exec_udpRelayLoop_done (target : SocketAddr) (fuel : ℕ) (inbuf : List UInt8)
    (w : UdpWorld) :
    Rests w (nonempty (datagrams inbuf)) []
      (exec UdpWorld.answer (udpRelayLoop target (fuel + 1) inbuf true) w) := by
  obtain ⟨rest, -, hflush⟩ := exec_flushDatagrams target inbuf w
  rw [udpRelayLoop, exec_bind_of_returned _ hflush]
  have hne : (Stop.returned () : Stop Op ProxyError Unit) ≠ .halted := by simp
  exact ⟨hne, rfl, (List.append_nil _).symm⟩

/-- **The relay, through any list of events.**  The induction is on the fuel, of which every event
takes one; each case is one thing the relay can wake up for. -/
theorem exec_udpRelayLoop (target : SocketAddr) (fuel : ℕ) (inbuf : List UInt8) (w : UdpWorld)
    (hlt : w.events.length < fuel) :
    Rests w (nonempty (datagrams (inbuf ++ tunnelBytes w.events)))
      ((received w.events).map datagramFrame)
      (exec UdpWorld.answer (udpRelayLoop target fuel inbuf false) w) := by
  induction fuel generalizing inbuf w with
  | zero => exact absurd hlt (Nat.not_lt_zero _)
  | succ fuel ih =>
    obtain ⟨rest, hrest, hflush⟩ := exec_flushDatagrams target inbuf w
    have hsplit : ∀ x, nonempty (datagrams (inbuf ++ x)) =
        nonempty (datagrams inbuf) ++ nonempty (datagrams (rest ++ x)) := by
      intro x
      rw [datagrams_append hrest]
      exact List.filter_append _ _
    have hstop : ∀ (stop : Stop Op ProxyError Unit) (es : List UdpEvent), stop ≠ .halted →
        Rests w (nonempty (datagrams (inbuf ++ []))) []
          (stop, { w with events := es, sent := w.sent ++ nonempty (datagrams inbuf) }) := by
      intro stop es hne
      rw [List.append_nil]
      exact ⟨hne, rfl, (List.append_nil _).symm⟩
    rw [udpRelayLoop, exec_bind_of_returned _ hflush]
    obtain ⟨events, sent, written⟩ := w
    cases events with
    | nil => exact hstop (.waits (.selectUdp target)) [] (by simp)
    | cons event es =>
      have hlen : es.length < fuel := by simpa using hlt
      cases event with
      | idle => exact hstop (.returned ()) es (by simp)
      | tunnel chunk =>
        cases chunk with
        | none => exact hstop (.failed .io) es (by simp)
        | some chunk =>
          cases chunk with
          | none =>
            obtain ⟨fuel, rfl⟩ : ∃ n, fuel = n + 1 := ⟨fuel - 1, by omega⟩
            have hlast := exec_udpRelayLoop_done target fuel rest
              ⟨es, sent ++ nonempty (datagrams inbuf), written⟩
            refine ⟨hlast.not_halted, ?_, hlast.written⟩
            show _ = sent ++ nonempty (datagrams (inbuf ++ []))
            rw [hsplit, List.append_nil, ← List.append_assoc]
            exact hlast.sent
          | some pt =>
            have hnext := ih (rest ++ pt) ⟨es, sent ++ nonempty (datagrams inbuf), written⟩ hlen
            refine ⟨hnext.not_halted, ?_, hnext.written⟩
            show _ = sent ++ nonempty (datagrams (inbuf ++ (pt ++ tunnelBytes es)))
            rw [hsplit, ← List.append_assoc, ← List.append_assoc rest]
            exact hnext.sent
      | sock datagram =>
        cases datagram with
        | none => exact hstop (.failed .io) es (by simp)
        | some data =>
          have hnext := ih rest
            ⟨es, sent ++ nonempty (datagrams inbuf), written ++ [datagramFrame data]⟩ hlen
          refine ⟨hnext.not_halted, ?_, ?_⟩
          · show _ = sent ++ nonempty (datagrams (inbuf ++ tunnelBytes es))
            rw [hsplit, ← List.append_assoc]
            exact hnext.sent
          · show _ = written ++ datagramFrame data :: (received es).map datagramFrame
            rw [List.append_cons]
            exact hnext.written

/-- The datagrams of a framed stream. -/
theorem datagrams_flatten {ds : List (List UInt8)} (hds : ∀ d ∈ ds, d.length ≤ 65535) :
    datagrams (ds.map datagramFrame).flatten = ds := by
  have hone : [(ds.map datagramFrame).flatten].flatten = (ds.map datagramFrame).flatten := by simp
  have h := pushAll_datagramFrame hds hone
  have hsnd := congrArg Prod.snd h
  simpa [pushAll, andThen, Deframe.push, datagrams] using hsnd

/-- The relay from its start: bind and connect come first. -/
theorem exec_visionUdpRelay (target : SocketAddr) (leftover : List UInt8) (events : List UdpEvent)
    {fuel : ℕ} (hfuel : events.length < fuel) :
    Rests ⟨events, [], []⟩ (nonempty (datagrams (leftover ++ tunnelBytes events)))
      ((received events).map datagramFrame)
      (exec UdpWorld.answer (visionUdpRelay fuel target leftover) ⟨events, [], []⟩) :=
  exec_udpRelayLoop target fuel leftover ⟨events, [], []⟩ hfuel

/-- **VLESS-UDP framing is exact in both directions.**  Whatever `vision_udp_relay` wakes up for:
if the bytes left over from the request and those it reads are the frames of `ds`, it sends the
non-empty ones of `ds` in their order; and however the bytes it writes are cut, `take_datagram`
finds in them what was received, with nothing left over.  The same holds of what `write_datagram`
writes. -/
theorem udp_framing_exact :
    (∀ (target : SocketAddr) (ds : List (List UInt8)) (leftover : List UInt8)
      (events : List UdpEvent) (fuel : ℕ), events.length < fuel → (∀ d ∈ ds, d.length ≤ 65535) →
      leftover ++ tunnelBytes events = (ds.map datagramFrame).flatten →
      let r := exec UdpWorld.answer (visionUdpRelay fuel target leftover) ⟨events, [], []⟩
      r.1 ≠ .halted ∧ r.2.sent = ds.filter fun d => !d.isEmpty) ∧
    (∀ (target : SocketAddr) (leftover : List UInt8) (events : List UdpEvent) (fuel : ℕ),
      events.length < fuel → (∀ d ∈ received events, d.length ≤ 65535) →
      let r := exec UdpWorld.answer (visionUdpRelay fuel target leftover) ⟨events, [], []⟩
      ∀ chunks : List (List UInt8), chunks.flatten = r.2.written.flatten →
        pushAll (Deframe.push datagramParse) (.ok []) chunks = (.ok [], received events)) ∧
    ∀ (ds chunks : List (List UInt8)), (∀ d ∈ ds, d.length ≤ 65535) →
      chunks.flatten = (ds.map datagramFrame).flatten →
      pushAll (Deframe.push datagramParse) (.ok []) chunks = (.ok [], ds) := by
  refine ⟨?_, ?_, fun ds chunks hds hchunks => pushAll_datagramFrame hds hchunks⟩
  · intro target ds leftover events fuel hfuel hds hbytes
    have hrun := exec_visionUdpRelay target leftover events hfuel
    rw [hbytes, datagrams_flatten hds] at hrun
    exact ⟨hrun.not_halted, hrun.sent⟩
  · intro target leftover events fuel hfuel hds
    have hrun := exec_visionUdpRelay target leftover events hfuel
    intro r chunks hchunks
    refine pushAll_datagramFrame hds ?_
    rw [hchunks, hrun.written]
    rfl

/-- Two datagrams and an empty one, cut inside a length and inside a payload, with a datagram
received in between. -/
theorem udp_framing_exact_cut :
    (exec UdpWorld.answer (visionUdpRelay 5 ⟨.v4 (Octets.fromSlice 4 [10, 0, 0, 1]), 53⟩ [0])
      ⟨[.tunnel (some (some [2, 7])), .sock (some [5]), .tunnel (some (some [8, 0, 0, 0, 1, 9])),
        .tunnel (some none)], [], []⟩).2.sent = [[7, 8], [9]] :=
  (udp_framing_exact.1 _ [[7, 8], [], [9]] [0] _ 5 (by decide) (by decide) rfl).2

end Mux
end HoldTheDonut
