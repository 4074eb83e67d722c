import HoldTheDonut.Machine.Channel
import HoldTheDonut.Mux.Cascade
import HoldTheDonut.Mux.Datagram

/-!
# The flow of a cascade session

A chained target of a sub-session has a stream of its own to the exit.  Three tasks serve it.
The loop of `mux_relay` on the entry takes the client's frames, writes their datagrams to the
stream, and between two frames takes responses off a channel of 512 places.  The task that
`dial_chain` has spawned reads the stream, takes datagrams off what it has read and puts them
into the channel.  On the exit `vision_udp_relay` reads the stream and sends to the target, or
receives from the target and writes to the stream.

Each of the three waits while it writes, and then it does not read.  The loop waits for room in
the uplink, which the exit makes; the exit waits for room in the downlink, which the task makes;
the task waits for a place in the channel, which the loop makes.  So the three can wait for each
other, and nothing ends it: the timeouts of both relays are around their reads.

How much that takes can be said exactly (`cascade_live_iff`).  Between the exit's write and the
loop the bytes are conserved: what the task holds, what is in the downlink and what the exit has
in hand is a stretch of the framed datagrams, and everything before it has been taken or was
lost with a session that ended.  With 512 datagrams in the channel and one in the task's hand,
the stretch begins behind the first 513 at the earliest; and to get the exit to wait it has to be
longer than the downlink.  The uplink has to be given more than it holds within one session,
since an `End` frame closes the stream and the next datagram dials a new one.  Whenever there is
that much, the schedule that lets the loop run into the full uplink first, and then only the exit
and the task, ends with all three waiting.
-/

namespace HoldTheDonut
namespace Mux

open Machine Routing Server Streaming

/-! ## What a frame does to the session -/

/-- A frame of a sub-session with one target: its status, whether it states the target, and its
payload. -/
structure SubFrame where
  status : UInt8
  stated : Bool
  data : Option (List UInt8)
  deriving DecidableEq

/-- The frame as the relay parses it. -/
def SubFrame.frame (sid : UInt16) (t : Addr) (f : SubFrame) : Frame :=
  ⟨sid, f.status, if f.stated then some t else none, f.data⟩

/-- What a frame does to the cascade session. -/
inductive Effect where
  /-- A datagram is written, to a session dialled for it if there is none. -/
  | write (data : List UInt8)
  /-- The session is dropped. -/
  | close
  /-- The relay is left, and the session dropped. -/
  | leave
  | skip
  deriving DecidableEq

/-- One turn of the drain loop, seen from the only cascade session there may be.  Before it has
been dialled a payload without a target has nowhere to go. -/
def SubFrame.effect (opened : Bool) (f : SubFrame) : Effect :=
  if f.status = statusNew ∨ f.status = statusKeep then
    match f.data with
    | some data => if f.stated = true ∨ opened = true then .write data else .skip
    | none => .skip
  else if f.status = statusEnd then .close
  else if f.status = statusKeepalive then .skip
  else .leave

/-- The datagrams a list of frames has written to cascade sessions, in order. -/
def written : Bool → List SubFrame → List (List UInt8)
  | _, [] => []
  | opened, f :: fs =>
    match f.effect opened with
    | .write data => data :: written true fs
    | .close => written false fs
    | .leave => []
    | .skip => written opened fs

section Relay

variable {env : MuxEnv} {router : Router} {outbounds : Outbounds} {sid : UInt16} {t : Addr}
  {chain : ChainOutbound} {addr : SocketAddr}

/-- The target is chained and has a label, it can be dialled, and the session takes what is
written. -/
structure OneChain (env : MuxEnv) (router : Router) (outbounds : Outbounds) (t : Addr)
    (chain : ChainOutbound) (addr : SocketAddr) : Prop where
  chained : outbounds.get (router.route (endpointOf t)) = some chain
  label : ∀ n, (resolve env n t).1 = some addr
  dials : ∀ n, env.dialUdp n chain (endpointOf t) = true
  delivers : ∀ n, env.delivers n (.cascade (endpointOf t)) = true

/-- The sub-session with its cascade session, or without. -/
def subSession (t : Addr) (chain : ChainOutbound) (addr : SocketAddr) : Bool → UdpSession
  | true => ⟨none, AList.singleton addr ⟨chain, endpointOf t⟩⟩
  | false => .default

@[simp] theorem lookup_subSession (opened : Bool) :
    (subSession t chain addr opened).chain.lookup addr =
      if opened then some ⟨chain, endpointOf t⟩ else none := by
  cases opened with
  | true =>
    exact AList.lookup_insert (∅ : AList fun _ : SocketAddr => ChainLink)
  | false => rfl

section OneChain

variable (h : OneChain env router outbounds t chain addr)

include h

/-- A datagram that states the target is written to its session, dialled or not. -/
theorem sendChained_subSession (n : ℕ) (opened : Bool) (data : List UInt8) :
    let r := sendChained env n (subSession t chain addr opened) chain t data
    r.1 = subSession t chain addr true ∧
      r.2.filterMap Action.datagram = [(.cascade (endpointOf t), data)] := by
  have hlabel := h.label n
  have hsent : (hand env n (.cascade (endpointOf t)) data).filterMap Action.datagram =
      [(.cascade (endpointOf t), data)] := by
    rw [hand_datagrams, if_pos (h.delivers n)]
  rcases sendChained_cases env n (subSession t chain addr opened) chain t data with
    ⟨hnone, -⟩ | ⟨a, link, ha, hlink, heq⟩ | ⟨a, ha, hnone, -, heq⟩ | ⟨a, -, -, hdial, -⟩
  · rw [hlabel] at hnone
    cases hnone
  · obtain rfl : addr = a := Option.some.inj (hlabel.symm.trans ha)
    rw [heq]
    dsimp only
    rw [List.filterMap_append, resolve_datagrams]
    rw [lookup_subSession] at hlink
    cases opened with
    | true =>
      cases hlink
      exact ⟨rfl, hsent⟩
    | false => cases hlink
  · obtain rfl : addr = a := Option.some.inj (hlabel.symm.trans ha)
    rw [heq]
    dsimp only
    rw [List.filterMap_append, List.filterMap_append, resolve_datagrams]
    rw [lookup_subSession] at hnone
    cases opened with
    | true => cases hnone
    | false => exact ⟨rfl, hsent⟩
  · rw [h.dials n] at hdial
    cases hdial

/-- A datagram that states no target is written to the session if there is one, and is dropped
otherwise. -/
theorem sendUntargeted_subSession (n : ℕ) (opened : Bool) (data : List UInt8) :
    (sendUntargeted env n (subSession t chain addr opened) data).filterMap Action.datagram =
      if opened then [(.cascade (endpointOf t), data)] else [] := by
  cases opened with
  | true =>
    show (hand env n (.cascade (endpointOf t)) data).filterMap Action.datagram = _
    rw [hand_datagrams, if_pos (h.delivers n)]
    rfl
  | false => rfl

/-- What `effect` says of a frame the relay does: it hands a datagram over just when the effect
is a write, and has the session from then on. -/
theorem serve_effect (n : ℕ) (opened : Bool) {f : SubFrame} (hserved : (f.frame sid t).Served) :
    let r := serve env router outbounds n (subSession t chain addr opened) (f.frame sid t)
    (∃ data, f.effect opened = .write data ∧ r.1 = subSession t chain addr true ∧
      r.2.filterMap Action.datagram = [(.cascade (endpointOf t), data)]) ∨
    (f.effect opened = .skip ∧ r.1 = subSession t chain addr opened ∧
      r.2.filterMap Action.datagram = []) := by
  obtain ⟨status, stated, data⟩ := f
  have hstatus : status = statusNew ∨ status = statusKeep := hserved
  unfold SubFrame.effect
  rw [if_pos hstatus]
  cases data with
  | none => exact Or.inr ⟨rfl, rfl, rfl⟩
  | some data =>
    cases stated with
    | true =>
      refine Or.inl ⟨data, if_pos (Or.inl rfl), ?_⟩
      have hserve := serve_of_chained env n (subSession t chain addr opened)
        (f := SubFrame.frame sid t ⟨status, true, some data⟩) rfl rfl h.chained
      rw [hserve]
      exact sendChained_subSession h n opened data
    | false =>
      have hsent := sendUntargeted_subSession h n opened data
      cases opened with
      | true => exact Or.inl ⟨data, rfl, rfl, hsent⟩
      | false => exact Or.inr ⟨rfl, rfl, hsent⟩

/-- **One turn of the drain loop**: the session after it and the datagrams of its entry in the
log are what `effect` says. -/
theorem dispatch_effect {s : Relay} {opened : Bool}
    (hs : s.session sid = subSession t chain addr opened) (f : SubFrame) :
    let u := dispatch env router outbounds s (f.frame sid t)
    let entry := entryOf env router outbounds s (f.frame sid t)
    match f.effect opened with
    | .write data => (f.frame sid t).Known ∧ u.session sid = subSession t chain addr true ∧
        entry.datagrams = [(.cascade (endpointOf t), data)]
    | .close => (f.frame sid t).Known ∧ u.session sid = subSession t chain addr false ∧
        entry.datagrams = []
    | .skip => (f.frame sid t).Known ∧ u.session sid = subSession t chain addr opened ∧
        entry.datagrams = []
    | .leave => ¬(f.frame sid t).Known := by
  dsimp only
  by_cases hserved : (f.frame sid t).Served
  · have hsession := session_dispatch_of_served env router outbounds s (f.frame sid t) hserved
    have hentry : (entryOf env router outbounds s (f.frame sid t)).actions =
        (serve env router outbounds s.log.length (s.session sid) (f.frame sid t)).2 :=
      if_pos hserved
    change (dispatch env router outbounds s (f.frame sid t)).session sid =
      (serve env router outbounds s.log.length (s.session sid) (f.frame sid t)).1 at hsession
    rw [hs] at hsession hentry
    rw [hsession, Handled.datagrams, hentry]
    rcases serve_effect h s.log.length opened hserved with ⟨data, heff, hr⟩ | ⟨heff, hr⟩
    · rw [heff]
      exact ⟨hserved.known, hr⟩
    · rw [heff]
      exact ⟨hserved.known, hr⟩
  · have hentry : (entryOf env router outbounds s (f.frame sid t)).datagrams = [] := by
      rw [Handled.datagrams, entryOf, if_neg hserved]
      rfl
    have hstatus : ¬(f.status = statusNew ∨ f.status = statusKeep) := hserved
    unfold SubFrame.effect
    rw [if_neg hstatus, hentry]
    by_cases hend : f.status = statusEnd
    · rw [if_pos hend]
      have hsession := session_dispatch_of_end env router outbounds s (f.frame sid t) hend
      exact ⟨Or.inr (Or.inl hend), hsession, rfl⟩
    · rw [if_neg hend]
      by_cases hkeep : f.status = statusKeepalive
      · rw [if_pos hkeep]
        refine ⟨Or.inr (Or.inr hkeep), ?_, rfl⟩
        rcases session_dispatch_cases env router outbounds s (f.frame sid t) sid with
          ⟨-, hsession⟩ | ⟨-, h', -⟩ | ⟨-, h', -⟩
        · rw [hsession, hs]
        · exact absurd h' hend
        · exact absurd h' hserved
      · rw [if_neg hkeep]
        rintro (h' | h' | h')
        · exact hserved h'
        · exact hend h'
        · exact hkeep h'

end OneChain

/-- Handling a known frame appends what its entry has written. -/
theorem writtenTo_dispatch (ep : Endpoint) (s : Relay) {f : Frame} (hknown : f.Known) :
    writtenTo ep (dispatch env router outbounds s f).log =
      writtenTo ep s.log ++ ((entryOf env router outbounds s f).datagrams.filter
        fun d => d.1 = .cascade ep).map Prod.snd := by
  rw [dispatch_log_of_known env router outbounds s f hknown, writtenTo, List.flatMap_append,
    List.flatMap_singleton]
  rfl

/-- The induction is on the frames; the relay's sub-session follows `effect`. -/
theorem writtenTo_foldl (h : OneChain env router outbounds t chain addr) :
    ∀ (frames : List SubFrame) (s : Relay) (opened : Bool),
      s.session sid = subSession t chain addr opened →
        writtenTo (endpointOf t) (((frames.map (SubFrame.frame sid t)).takeWhile
          fun f => f.Known).foldl (dispatch env router outbounds) s).log =
        writtenTo (endpointOf t) s.log ++ written opened frames
  | [], s, opened, _ => by
    rw [written, List.append_nil]
    rfl
  | f :: fs, s, opened, hs => by
    have hturn := dispatch_effect h hs f
    -- a known frame is handled, and the others from there
    have hgo : ∀ (opened' : Bool) (datas : List (List UInt8)), (f.frame sid t).Known →
        (dispatch env router outbounds s (f.frame sid t)).session sid =
          subSession t chain addr opened' →
        ((entryOf env router outbounds s (f.frame sid t)).datagrams.filter
          fun d => d.1 = .cascade (endpointOf t)).map Prod.snd = datas →
        writtenTo (endpointOf t) (((f :: fs).map (SubFrame.frame sid t)).takeWhile
          (fun f => f.Known) |>.foldl (dispatch env router outbounds) s).log =
        writtenTo (endpointOf t) s.log ++ (datas ++ written opened' fs) := by
      intro opened' datas hknown hsession hdatas
      have htake : ((f :: fs).map (SubFrame.frame sid t)).takeWhile (fun f => f.Known) =
          f.frame sid t :: (fs.map (SubFrame.frame sid t)).takeWhile fun f => f.Known :=
        List.takeWhile_cons_of_pos (by exact decide_eq_true hknown)
      rw [htake, List.foldl_cons, writtenTo_foldl h fs _ _ hsession,
        writtenTo_dispatch _ s hknown, hdatas, List.append_assoc]
    rw [written]
    cases heff : f.effect opened with
    | write data =>
      rw [heff] at hturn
      exact hgo true [data] hturn.1 hturn.2.1 (by rw [hturn.2.2]; simp)
    | close =>
      rw [heff] at hturn
      exact hgo false [] hturn.1 hturn.2.1 (by rw [hturn.2.2]; rfl)
    | skip =>
      rw [heff] at hturn
      exact hgo opened [] hturn.1 hturn.2.1 (by rw [hturn.2.2]; rfl)
    | leave =>
      rw [heff] at hturn
      have htake : ((f :: fs).map (SubFrame.frame sid t)).takeWhile (fun f => f.Known) = [] :=
        List.takeWhile_cons_of_neg (by exact fun hknown => hturn (of_decide_eq_true hknown))
      rw [htake, List.append_nil]
      rfl

/-- **The relay writes to the cascade what the effects of its frames say**, in that order. -/
theorem writtenTo_handled (h : OneChain env router outbounds t chain addr)
    (frames : List SubFrame) :
    writtenTo (endpointOf t) (handled env router outbounds (frames.map (SubFrame.frame sid t))) =
      written false frames :=
  writtenTo_foldl h frames idleRelay false rfl

end Relay

/-- The session is dropped and dialled again; the payload in between is not written. -/
theorem writtenTo_handled_again :
    writtenTo (endpointOf sampleTarget) (handled silentNet chainAll exitOnly
      ([⟨statusNew, true, some [1]⟩, ⟨statusEnd, false, none⟩, ⟨statusKeep, false, some [2]⟩,
        ⟨statusKeep, true, some [3]⟩].map (SubFrame.frame 7 sampleTarget))) = [[1], [3]] := by
  have h : OneChain silentNet chainAll exitOnly sampleTarget exitChain sampleHost :=
    ⟨rfl, fun _ => rfl, fun _ => rfl, fun _ => rfl⟩
  exact (writtenTo_handled h _).trans (by decide)

/-! ## The three tasks -/

/-- `mpsc::channel(512)`. -/
def responseSlots : ℕ := 512

/-- The largest read of the exit's socket, and of the receive task. -/
def readSize : ℕ := 65535

/-- The stream of a sub-session's only target with the tasks at its ends. -/
structure Flow where
  /-- The client's frames that the loop has not taken yet. -/
  frames : List SubFrame
  /-- The stream has been dialled. -/
  opened : Bool
  /-- What the loop has still to write of a datagram. -/
  writing : List UInt8
  uplink : List UInt8
  /-- What the exit has read of an incomplete datagram, and the datagrams it has sent. -/
  inbuf : Except Empty (List UInt8)
  delivered : List (List UInt8)
  /-- The target's datagrams that no exit has received yet. -/
  arriving : List (List UInt8)
  /-- What the exit has still to write of a datagram. -/
  chunk : List UInt8
  downlink : List UInt8
  /-- What the receive task has read, and the datagram it has taken off it. -/
  acc : List UInt8
  held : Option (List UInt8)
  channel : Channel (List UInt8) responseSlots
  /-- What the client has been sent. -/
  received : List (List UInt8)

inductive FlowEvent where
  /-- The loop takes a frame, writes to the stream, or takes a response for the client. -/
  | frame
  | write (n : ℕ)
  | respond
  /-- The exit reads from the stream, receives from the target, or writes to the stream. -/
  | exitRead (n : ℕ)
  | exitRecv
  | exitWrite (n : ℕ)
  /-- The receive task reads, takes a datagram off what it has read, or sends it on. -/
  | taskRead (n : ℕ)
  | taskTake
  | taskSend

namespace Flow

/-- Before the first frame. -/
def start (frames : List SubFrame) (arriving : List (List UInt8)) : Flow :=
  ⟨frames, false, [], [], .ok [], [], arriving, [], [], [], none, .empty, []⟩

/-- The stream is dropped: the receive task is aborted, and the exit's relay ends with it.
What is in the channel stays there. -/
def dropped (s : Flow) : Flow :=
  { s with
    opened := false, uplink := [], inbuf := .ok [], chunk := [], downlink := [], acc := []
    held := none }

/-- The loop acts on a frame; the others are left. -/
def handle (s : Flow) (rest : List SubFrame) : Effect → Flow
  | .write data => { s with frames := rest, opened := true, writing := datagramFrame data }
  | .close => { s.dropped with frames := rest }
  | .leave => { s.dropped with frames := [], channel := .empty }
  | .skip => { s with frames := rest }

/-- One event, with room for `up` bytes in the uplink and for `down` in the downlink. -/
def step (up down : ℕ) (s : Flow) : FlowEvent → Option Flow
  | .frame =>
    match s.writing, s.frames with
    | [], f :: rest => some (s.handle rest (f.effect s.opened))
    | _, _ => none
  | .write n =>
    if 0 < n ∧ n ≤ s.writing.length ∧ s.uplink.length + n ≤ up then
      some { s with writing := s.writing.drop n, uplink := s.uplink ++ s.writing.take n }
    else none
  | .respond =>
    if s.writing = [] then
      s.channel.recv.map fun p => { s with channel := p.2, received := s.received ++ [p.1] }
    else none
  | .exitRead n =>
    if s.chunk = [] ∧ 0 < n ∧ n ≤ s.uplink.length then
      let r := Deframe.push datagramParse s.inbuf (s.uplink.take n)
      -- empty datagrams are not passed on
      some { s with
        uplink := s.uplink.drop n, inbuf := r.1
        delivered := s.delivered ++ r.2.filter fun dg => dg ≠ [] }
    else none
  | .exitRecv =>
    match s.arriving with
    | d :: ds =>
      if s.opened = true ∧ s.chunk = [] then
        some { s with arriving := ds, chunk := datagramFrame (d.take readSize) }
      else none
    | [] => none
  | .exitWrite n =>
    if 0 < n ∧ n ≤ s.chunk.length ∧ s.downlink.length + n ≤ down then
      some { s with chunk := s.chunk.drop n, downlink := s.downlink ++ s.chunk.take n }
    else none
  | .taskRead n =>
    if s.held = none ∧ takeDatagram s.acc = none ∧ 0 < n ∧ n ≤ s.downlink.length ∧
        n ≤ readSize then
      some { s with downlink := s.downlink.drop n, acc := s.acc ++ s.downlink.take n }
    else none
  | .taskTake =>
    match s.held, takeDatagram s.acc with
    | none, some (dg, rest) => some { s with acc := rest, held := some dg }
    | _, _ => none
  | .taskSend =>
    match s.held with
    | some dg => (s.channel.trySend dg).map fun c => { s with channel := c, held := none }
    | none => none

/-- **All three wait**: the loop in `write_datagram`, the receive task for a place in the
channel, the exit in `write_chunk`. -/
structure Blocked (up down : ℕ) (s : Flow) : Prop where
  loop : s.writing ≠ [] ∧ up ≤ s.uplink.length
  task : s.held ≠ none ∧ responseSlots ≤ s.channel.queue.length
  exit : s.chunk ≠ [] ∧ down ≤ s.downlink.length

/-- Then nothing happens any more. -/
theorem Blocked.final {up down : ℕ} {s : Flow} (h : s.Blocked up down) (e : FlowEvent) :
    s.step up down e = none := by
  obtain ⟨⟨hwriting, hup⟩, ⟨hheld, hslots⟩, hchunk, hdown⟩ := h
  cases e with
  | frame =>
    rw [step]
    split
    · next hnil _ => exact absurd hnil hwriting
    · rfl
  | write n => exact if_neg (by omega)
  | respond => exact if_neg hwriting
  | exitRead n => exact if_neg fun h => hchunk h.1
  | exitRecv =>
    rw [step]
    split
    · exact if_neg fun h => hchunk h.2
    · rfl
  | exitWrite n => exact if_neg (by omega)
  | taskRead n => exact if_neg fun h => hheld h.1
  | taskTake =>
    rw [step]
    split
    · next hnone _ => exact absurd hnone hheld
    · rfl
  | taskSend =>
    rw [step]
    split
    · next dg hdg =>
      rcases s.channel.trySend_cases dg with ⟨hroom, -⟩ | ⟨-, hfull⟩
      · omega
      · rw [hfull]
        rfl
    · rfl

end Flow

/-- The most bytes that one session is given, if the one there is now has been given `n`. -/
def uplinkPeak : ℕ → Bool → List SubFrame → ℕ
  | n, _, [] => n
  | n, opened, f :: fs =>
    match f.effect opened with
    | .write data => uplinkPeak (n + (datagramFrame data).length) true fs
    | .close => max n (uplinkPeak 0 false fs)
    | .leave => n
    | .skip => uplinkPeak n opened fs

/-- The bytes of the target's datagrams on the downlink. -/
def wire (arriving : List (List UInt8)) : List UInt8 :=
  arriving.flatMap fun d => datagramFrame (d.take readSize)

/-! ## What it takes to block them -/

theorem le_uplinkPeak : ∀ (n : ℕ) (opened : Bool) (frames : List SubFrame),
    n ≤ uplinkPeak n opened frames
  | _, _, [] => le_rfl
  | n, opened, f :: fs => by
    rw [uplinkPeak]
    split
    · exact (Nat.le_add_right n _).trans (le_uplinkPeak _ true fs)
    · exact le_max_left _ _
    · exact le_rfl
    · exact le_uplinkPeak n opened fs

@[simp] theorem wire_nil : wire [] = [] := rfl

@[simp] theorem wire_append (ds es : List (List UInt8)) : wire (ds ++ es) = wire ds ++ wire es :=
  List.flatMap_append

@[simp] theorem wire_cons (d : List UInt8) (ds : List (List UInt8)) :
    wire (d :: ds) = datagramFrame (d.take readSize) ++ wire ds :=
  List.flatMap_cons

/-- What the exit has received fits its length field. -/
theorem takeDatagram_wire (d x : List UInt8) :
    takeDatagram (datagramFrame (d.take readSize) ++ x) = some (d.take readSize, x) := by
  refine takeDatagram_datagramFrame ?_ x
  rw [List.length_take]
  exact (min_le_left _ _).trans_lt (by decide)

/-- What is taken off the front of a stretch of the downlink is its first datagram. -/
theorem wire_of_takeDatagram {acc rest dg x : List UInt8} {flying : List (List UInt8)}
    (htake : takeDatagram acc = some (dg, rest)) (hwire : acc ++ x = wire flying) :
    ∃ d ds, flying = d :: ds ∧ rest ++ x = wire ds := by
  have hlong : takeDatagram (acc ++ x) = some (dg, rest ++ x) :=
    Except.ok.inj (datagramParse_stable.item_append (congrArg Except.ok htake) x)
  cases flying with
  | nil =>
    rw [hwire] at hlong
    cases hlong
  | cons d ds =>
    rw [hwire, wire_cons, takeDatagram_wire] at hlong
    exact ⟨d, ds, rfl, (congrArg Prod.snd (Option.some.inj hlong)).symm⟩

namespace Flow

variable {up down : ℕ}

/-- **What the tasks have between them.**  The session that is open has been given what the
uplink holds at least.  The target's datagrams come in three parts: those that no task has any
more a part of, whose number bounds what waits for the client; those on the downlink, in the
hands at its two ends included; and those still to come.  Through a downlink without room comes
nothing. -/
structure Sound (down most : ℕ) (all : List (List UInt8)) (s : Flow) : Prop where
  uplink : ∃ n, s.uplink.length + s.writing.length ≤ n ∧ uplinkPeak n s.opened s.frames ≤ most
  downlink : ∃ past flying, all = past ++ (flying ++ s.arriving) ∧
    s.acc ++ (s.downlink ++ s.chunk) = wire flying ∧
    s.channel.queue.length + s.held.toList.length ≤ past.length
  silent : down = 0 → s.acc = [] ∧ s.downlink = [] ∧ s.held = none ∧ s.channel.queue = []

theorem sound_start (frames : List SubFrame) (arriving : List (List UInt8)) :
    (start frames arriving).Sound down (uplinkPeak 0 false frames) arriving :=
  ⟨⟨0, le_rfl, le_rfl⟩, ⟨[], [], rfl, rfl, le_rfl⟩, fun _ => ⟨rfl, rfl, rfl, rfl⟩⟩

variable {most : ℕ} {all : List (List UInt8)} {s : Flow}

section Sound

variable (h : s.Sound down most all)

include h

/-- With the stream goes what was on it. -/
theorem Sound.dropped_downlink :
    ∃ past flying, all = past ++ (flying ++ s.arriving) ∧ [] = wire flying ∧
      s.channel.queue.length ≤ past.length := by
  obtain ⟨past, flying, hall, -, hcount⟩ := h.downlink
  refine ⟨past ++ flying, [], ?_, rfl, ?_⟩
  · rw [hall, List.append_assoc, List.nil_append]
  · rw [List.length_append]
    omega

/-- The loop takes a frame. -/
theorem Sound.handle (hidle : s.writing = []) {f : SubFrame} {rest : List SubFrame}
    (hframes : s.frames = f :: rest) : (s.handle rest (f.effect s.opened)).Sound down most all := by
  obtain ⟨n, hn, hpeak⟩ := h.uplink
  rw [hframes, uplinkPeak] at hpeak
  rw [hidle, List.length_nil, Nat.add_zero] at hn
  cases heff : f.effect s.opened with
  | write data =>
    rw [heff] at hpeak
    exact ⟨⟨_, Nat.add_le_add_right hn _, hpeak⟩, h.downlink, h.silent⟩
  | close =>
    rw [heff] at hpeak
    obtain ⟨past, flying, hall, hwire, hcount⟩ := h.dropped_downlink
    refine ⟨⟨0, ?_, (le_max_right _ _).trans hpeak⟩, ⟨past, flying, hall, hwire, hcount⟩, ?_⟩
    · show ([] : List UInt8).length + s.writing.length ≤ 0
      rw [hidle]
      exact le_rfl
    · exact fun hzero => ⟨rfl, rfl, rfl, (h.silent hzero).2.2.2⟩
  | leave =>
    rw [heff] at hpeak
    obtain ⟨past, flying, hall, hwire, hcount⟩ := h.dropped_downlink
    refine ⟨⟨n, ?_, hpeak⟩, ⟨past, flying, hall, hwire, Nat.zero_le _⟩, ?_⟩
    · show ([] : List UInt8).length + s.writing.length ≤ n
      rw [hidle]
      exact Nat.zero_le n
    · exact fun _ => ⟨rfl, rfl, rfl, rfl⟩
  | skip =>
    rw [heff] at hpeak
    refine ⟨⟨n, ?_, hpeak⟩, h.downlink, h.silent⟩
    show s.uplink.length + s.writing.length ≤ n
    rw [hidle]
    exact hn

/-- The receive task takes a datagram off what it has read: the first one on the downlink. -/
theorem Sound.take (hheld : s.held = none) {dg rest : List UInt8}
    (htake : takeDatagram s.acc = some (dg, rest)) :
    Sound down most all { s with acc := rest, held := some dg } := by
  obtain ⟨past, flying, hall, hwire, hcount⟩ := h.downlink
  obtain ⟨d, ds, rfl, hrest⟩ := wire_of_takeDatagram htake hwire
  refine ⟨h.uplink, ⟨past ++ [d], ds, ?_, hrest, ?_⟩, fun hzero => ?_⟩
  · rw [hall, List.append_assoc]
    rfl
  · rw [hheld] at hcount
    simp only [Option.toList_some, Option.toList_none, List.length_append, List.length_cons,
      List.length_nil] at hcount ⊢
    omega
  · rw [(h.silent hzero).1] at htake
    cases htake

/-- The exit receives a datagram, and has its frame in hand. -/
theorem Sound.recv (hidle : s.chunk = []) {d : List UInt8} {ds : List (List UInt8)}
    (harriving : s.arriving = d :: ds) :
    Sound down most all { s with arriving := ds, chunk := datagramFrame (d.take readSize) } := by
  obtain ⟨past, flying, hall, hwire, hcount⟩ := h.downlink
  refine ⟨h.uplink, ⟨past, flying ++ [d], ?_, ?_, hcount⟩, h.silent⟩
  · rw [hall, harriving, List.append_assoc flying]
    rfl
  · rw [hidle, List.append_nil] at hwire
    rw [← List.append_assoc, hwire, wire_append, wire_cons, wire_nil, List.append_nil]

/-- The receive task puts the datagram it has taken into the channel. -/
theorem Sound.send {dg : List UInt8} (hheld : s.held = some dg)
    {c : Channel (List UInt8) responseSlots} (hsend : s.channel.trySend dg = some c) :
    Sound down most all { s with channel := c, held := none } := by
  obtain ⟨past, flying, hall, hwire, hcount⟩ := h.downlink
  rcases s.channel.trySend_cases dg with ⟨-, c', hc', hqueue⟩ | ⟨-, hfull⟩
  · obtain rfl : c' = c := Option.some.inj (hc'.symm.trans hsend)
    refine ⟨h.uplink, ⟨past, flying, hall, hwire, ?_⟩, fun hzero => ?_⟩
    · rw [hheld] at hcount
      show c'.queue.length + ([] : List (List UInt8)).length ≤ past.length
      rw [hqueue, List.length_append]
      exact hcount
    · rw [(h.silent hzero).2.2.1] at hheld
      cases hheld
  · rw [hfull] at hsend
    cases hsend

/-- The loop takes a response off the channel. -/
theorem Sound.respond {dg : List UInt8} {c : Channel (List UInt8) responseSlots}
    (hrecv : s.channel.recv = some (dg, c)) :
    Sound down most all { s with channel := c, received := s.received ++ [dg] } := by
  obtain ⟨past, flying, hall, hwire, hcount⟩ := h.downlink
  have hqueue := Channel.queue_of_recv hrecv
  refine ⟨h.uplink, ⟨past, flying, hall, hwire, ?_⟩, fun hzero => ?_⟩
  · rw [hqueue, List.length_cons] at hcount
    show c.queue.length + s.held.toList.length ≤ past.length
    omega
  · rw [(h.silent hzero).2.2.2] at hqueue
    cases hqueue

/-- **Every event keeps it.** -/
theorem sound_step {t : Flow} {e : FlowEvent} (hstep : s.step up down e = some t) :
    t.Sound down most all := by
  obtain ⟨past, flying, hall, hwire, hcount⟩ := h.downlink
  cases e with
  | frame =>
    rw [step] at hstep
    split at hstep
    · next f rest hidle hframes =>
      cases hstep
      exact h.handle hidle hframes
    · cases hstep
  | write n =>
    rw [step] at hstep
    split at hstep
    · next hn =>
      cases hstep
      obtain ⟨m, hm, hpeak⟩ := h.uplink
      refine ⟨⟨m, ?_, hpeak⟩, h.downlink, h.silent⟩
      simp only [List.length_append, List.length_take, List.length_drop]
      omega
    · cases hstep
  | respond =>
    rw [step] at hstep
    split at hstep
    · obtain ⟨p, hp, rfl⟩ := Option.map_eq_some_iff.mp hstep
      exact h.respond hp
    · cases hstep
  | exitRead n =>
    rw [step] at hstep
    split at hstep
    · cases hstep
      obtain ⟨m, hm, hpeak⟩ := h.uplink
      refine ⟨⟨m, ?_, hpeak⟩, h.downlink, h.silent⟩
      simp only [List.length_drop]
      omega
    · cases hstep
  | exitRecv =>
    rw [step] at hstep
    split at hstep
    · next d ds harriving =>
      split at hstep
      · next hidle =>
        cases hstep
        exact h.recv hidle.2 harriving
      · cases hstep
    · cases hstep
  | exitWrite n =>
    rw [step] at hstep
    split at hstep
    · next hn =>
      cases hstep
      refine ⟨h.uplink, ⟨past, flying, hall, ?_, hcount⟩, fun hzero => ?_⟩
      · rw [List.append_assoc s.downlink, List.take_append_drop]
        exact hwire
      · omega
    · cases hstep
  | taskRead n =>
    rw [step] at hstep
    split at hstep
    · next hn =>
      cases hstep
      refine ⟨h.uplink, ⟨past, flying, hall, ?_, hcount⟩, fun hzero => ?_⟩
      · rw [List.append_assoc s.acc, ← List.append_assoc (s.downlink.take n),
          List.take_append_drop]
        exact hwire
      · rw [(h.silent hzero).2.1, List.length_nil] at hn
        omega
    · cases hstep
  | taskTake =>
    rw [step] at hstep
    split at hstep
    · next dg rest hheld htake =>
      cases hstep
      exact h.take hheld htake
    · cases hstep
  | taskSend =>
    rw [step] at hstep
    split at hstep
    · next dg hheld =>
      obtain ⟨c, hc, rfl⟩ := Option.map_eq_some_iff.mp hstep
      exact h.send hheld hc
    · cases hstep

theorem sound_of_reaches {t : Flow} (hreach : Reaches (step up down) s t) :
    t.Sound down most all := by
  obtain ⟨es, hes⟩ := hreach
  exact run_inv (fun _ _ _ hu hstep => sound_step hu hstep) es h hes

/-- **What the three have when they wait for each other**: more than the uplink holds was given
to one session, and more than the downlink holds came behind the first 513 datagrams. -/
theorem Sound.of_blocked (hblocked : s.Blocked up down) :
    0 < down ∧ up < most ∧
      (wire (all.take (responseSlots + 1))).length + down < (wire all).length := by
  obtain ⟨⟨hwriting, hup⟩, ⟨hheld, hslots⟩, hchunk, hdown⟩ := hblocked
  have hwritingPos := List.length_pos_iff.mpr hwriting
  have hchunkPos := List.length_pos_iff.mpr hchunk
  refine ⟨?_, ?_, ?_⟩
  · refine Nat.pos_of_ne_zero fun hzero => ?_
    exact hheld (h.silent hzero).2.2.1
  · obtain ⟨n, hn, hpeak⟩ := h.uplink
    have hle := le_uplinkPeak n s.opened s.frames
    omega
  · obtain ⟨past, flying, hall, hwire, hcount⟩ := h.downlink
    obtain ⟨dg, hdg⟩ := Option.ne_none_iff_exists'.mp hheld
    rw [hdg, Option.toList_some, List.length_singleton] at hcount
    -- the first 513 are among those that have been taken
    have htake : all.take (responseSlots + 1) = past.take (responseSlots + 1) := by
      rw [hall, List.take_append_of_le_length (by omega)]
    have hpast : (wire (past.take (responseSlots + 1))).length ≤ (wire past).length := by
      conv_rhs => rw [← List.take_append_drop (responseSlots + 1) past, wire_append,
        List.length_append]
      exact Nat.le_add_right _ _
    have hflying := congrArg List.length hwire
    rw [htake, hall, wire_append, wire_append]
    simp only [List.length_append] at hflying ⊢
    omega

end Sound

/-! ## Enough blocks them

The schedule: the loop takes frames until it waits for the uplink; then 512 datagrams go into the
channel, one more into the task's hand, and the rest fills the downlink. -/

/-- The loop writes into the uplink. -/
theorem loop_writes (up down : ℕ) (s : Flow) :
    Writes (step up down) up fun w u => { s with writing := w, uplink := u } :=
  fun _ _ n hpos hle hroom => ⟨.write n, if_pos ⟨hpos, hle, hroom⟩⟩

/-- The exit writes into the downlink. -/
theorem exit_writes (up down : ℕ) (s : Flow) :
    Writes (step up down) down fun w u => { s with chunk := w, downlink := u } :=
  fun _ _ n hpos hle hroom => ⟨.exitWrite n, if_pos ⟨hpos, hle, hroom⟩⟩

/-- Nothing is on the downlink. -/
structure Quiet (s : Flow) : Prop where
  chunk : s.chunk = []
  downlink : s.downlink = []
  acc : s.acc = []
  held : s.held = none

/-- **The loop runs into the full uplink**, if one session is given more than it holds.  The
induction is on the frames: those of the sessions before it are written without waiting. -/
theorem reaches_full_uplink (frames : List SubFrame) : ∀ {s : Flow}, s.frames = frames →
    s.Quiet → s.uplink.length ≤ up → (s.writing ≠ [] → s.opened = true) →
    up < uplinkPeak (s.uplink.length + s.writing.length) s.opened frames →
    ∃ t, Reaches (step up down) s t ∧ t.Quiet ∧ t.opened = true ∧
      (t.writing ≠ [] ∧ up ≤ t.uplink.length) ∧ t.arriving = s.arriving ∧
      t.channel = s.channel := by
  -- where the frame in hand is too long there is nothing left to do
  have hfull : ∀ {s : Flow}, s.Quiet → s.uplink.length ≤ up →
      (s.writing ≠ [] → s.opened = true) → up < s.uplink.length + s.writing.length →
      ∃ t, Reaches (step up down) s t ∧ t.Quiet ∧ t.opened = true ∧
        (t.writing ≠ [] ∧ up ≤ t.uplink.length) ∧ t.arriving = s.arriving ∧
        t.channel = s.channel := by
    intro s hquiet huplink hopened hlong
    obtain ⟨w, u, hreach, hw, hu⟩ := (loop_writes up down s).reaches_full huplink hlong
    have hwriting : s.writing ≠ [] := List.length_pos_iff.mp (by omega)
    exact ⟨_, hreach, ⟨hquiet.chunk, hquiet.downlink, hquiet.acc, hquiet.held⟩, hopened hwriting,
      ⟨hw, hu⟩, rfl, rfl⟩
  induction frames with
  | nil =>
    intro s _ hquiet huplink hopened hpeak
    exact hfull hquiet huplink hopened hpeak
  | cons f rest ih =>
    intro s hframes hquiet huplink hopened hpeak
    by_cases hlong : up < s.uplink.length + s.writing.length
    · exact hfull hquiet huplink hopened hlong
    · have hwrite : Reaches (step up down) s
          { s with writing := [], uplink := s.uplink ++ s.writing } :=
        (loop_writes up down s).reaches_all (Nat.le_of_not_lt hlong)
      have hframe : step up down { s with writing := [], uplink := s.uplink ++ s.writing } .frame =
          some (handle { s with writing := [], uplink := s.uplink ++ s.writing } rest
            (f.effect s.opened)) := by
        simp only [step, hframes]
      have hlength : (s.uplink ++ s.writing).length ≤ up := by
        rw [List.length_append]
        exact Nat.le_of_not_lt hlong
      have hturn := hwrite.trans (Reaches.head hframe (Reaches.refl _))
      rw [uplinkPeak] at hpeak
      cases heff : f.effect s.opened with
      | write data =>
        rw [heff] at hpeak hturn
        obtain ⟨t, hreach, ht⟩ := ih (s := { s with
          frames := rest, opened := true, writing := datagramFrame data
          uplink := s.uplink ++ s.writing }) rfl
          ⟨hquiet.chunk, hquiet.downlink, hquiet.acc, hquiet.held⟩ hlength (fun _ => rfl)
          (by rwa [List.length_append])
        exact ⟨t, hturn.trans hreach, ht⟩
      | close =>
        rw [heff] at hpeak hturn
        obtain ⟨t, hreach, ht⟩ := ih (s := handle { s with
          writing := [], uplink := s.uplink ++ s.writing } rest .close) rfl
          ⟨rfl, rfl, rfl, rfl⟩ (Nat.zero_le up) (fun hne => absurd rfl hne)
          ((lt_max_iff.mp hpeak).resolve_left hlong)
        exact ⟨t, hturn.trans hreach, ht⟩
      | leave =>
        rw [heff] at hpeak
        exact absurd hpeak hlong
      | skip =>
        rw [heff] at hpeak hturn
        obtain ⟨t, hreach, ht⟩ := ih (s := { s with
          frames := rest, writing := [], uplink := s.uplink ++ s.writing }) rfl
          ⟨hquiet.chunk, hquiet.downlink, hquiet.acc, hquiet.held⟩ hlength
          (fun hne => absurd rfl hne) (by rwa [List.length_append])
        exact ⟨t, hturn.trans hreach, ht⟩

/-- Byte by byte, what the exit has in hand comes into the hand of the receive task, if that has
to wait for all of it. -/
theorem reaches_carry (hdown : 0 < down) (w : List UInt8) : ∀ {s : Flow}, s.chunk = w →
    s.downlink = [] → s.held = none →
    (∀ p, p <+: s.acc ++ w → p ≠ s.acc ++ w → takeDatagram p = none) →
    Reaches (step up down) s { s with chunk := [], downlink := [], acc := s.acc ++ w } := by
  induction w with
  | nil =>
    intro s hchunk hdownlink _ _
    have hsame : { s with chunk := [], downlink := [], acc := s.acc ++ [] } = s := by
      obtain ⟨⟩ := s
      cases hchunk
      cases hdownlink
      rw [List.append_nil]
    rw [hsame]
    exact Reaches.refl s
  | cons b w ih =>
    intro s hchunk hdownlink hheld hwait
    have hwrite : Reaches (step up down) s
        { s with chunk := w, downlink := s.downlink ++ [b] } := by
      have hroom : s.downlink.length + [b].length ≤ down := by
        rw [hdownlink]
        exact hdown
      have h := (exit_writes up down s).reaches [b] w hroom
      rw [List.singleton_append, ← hchunk] at h
      exact h
    rw [hdownlink] at hwrite
    have hread : step up down { s with chunk := w, downlink := [b] } (.taskRead 1) =
        some { s with chunk := w, downlink := [], acc := s.acc ++ [b] } := by
      refine if_pos ⟨hheld, hwait s.acc (List.prefix_append _ _) ?_, Nat.one_pos, le_rfl,
        by decide⟩
      intro heq
      exact List.cons_ne_nil b w (List.self_eq_append_right.mp heq)
    have hrest : Reaches (step up down) { s with chunk := w, downlink := [], acc := s.acc ++ [b] }
        { s with chunk := [], downlink := [], acc := s.acc ++ [b] ++ w } := by
      refine ih rfl rfl hheld ?_
      rw [List.append_assoc]
      exact hwait
    rw [List.append_assoc] at hrest
    exact hwrite.trans (Reaches.head hread hrest)

/-- The target's next datagram comes into the hand of the receive task. -/
theorem reaches_held (hdown : 0 < down) (hopened : s.opened = true) (hquiet : s.Quiet)
    {d : List UInt8} {ds : List (List UInt8)} (harriving : s.arriving = d :: ds) :
    Reaches (step up down) s { s with arriving := ds, held := some (d.take readSize) } := by
  obtain ⟨hchunk, hdownlink, hacc, hheld⟩ := hquiet
  have htake : takeDatagram (datagramFrame (d.take readSize)) = some (d.take readSize, []) := by
    have h := takeDatagram_wire d []
    rwa [List.append_nil] at h
  have hrecv : step up down s .exitRecv =
      some { s with arriving := ds, chunk := datagramFrame (d.take readSize) } := by
    simp only [step, harriving, hopened, hchunk, and_self, if_true]
  have hcarry : Reaches (step up down)
      { s with arriving := ds, chunk := datagramFrame (d.take readSize) }
      { s with
        arriving := ds, chunk := [], downlink := []
        acc := s.acc ++ datagramFrame (d.take readSize) } := by
    refine reaches_carry hdown _ rfl hdownlink hheld ?_
    intro p hp hne
    rw [hacc, List.nil_append] at hp hne
    have hitem : datagramParse (datagramFrame (d.take readSize)) = .ok (some _) :=
      congrArg Except.ok htake
    exact Except.ok.inj (datagramParse_stable.wait_of_properPrefix hitem hp hne)
  have hdone : step up down { s with
      arriving := ds, chunk := [], downlink := []
      acc := s.acc ++ datagramFrame (d.take readSize) } .taskTake =
      some { s with arriving := ds, held := some (d.take readSize) } := by
    obtain ⟨⟩ := s
    cases hchunk
    cases hdownlink
    cases hacc
    cases hheld
    simp only [step, List.nil_append, htake]
  exact Reaches.head hrecv (hcarry.trans (Reaches.head hdone (Reaches.refl _)))

/-- As many datagrams as there are places go into the channel. -/
theorem reaches_channel (hdown : 0 < down) (ds : List (List UInt8)) : ∀ {s : Flow},
    s.opened = true → s.Quiet → ∀ {rest : List (List UInt8)}, s.arriving = ds ++ rest →
    s.channel.queue.length + ds.length ≤ responseSlots →
    ∃ c : Channel (List UInt8) responseSlots,
      c.queue.length = s.channel.queue.length + ds.length ∧
      Reaches (step up down) s { s with arriving := rest, channel := c } := by
  induction ds with
  | nil =>
    intro s _ _ rest harriving _
    rw [List.nil_append] at harriving
    refine ⟨s.channel, rfl, ?_⟩
    rw [← harriving]
    exact Reaches.refl s
  | cons d ds ih =>
    intro s hopened hquiet rest harriving hroom
    rw [List.length_cons] at hroom
    have hheld : Reaches (step up down) s _ := reaches_held hdown hopened hquiet harriving
    rcases s.channel.trySend_cases (d.take readSize) with ⟨-, c, hc, hqueue⟩ | ⟨hfull, -⟩
    · have hsend : step up down { s with
          arriving := ds ++ rest, held := some (d.take readSize) } .taskSend =
          some { s with arriving := ds ++ rest, channel := c } := by
        simp only [step, hc, Option.map_some, ← hquiet.held]
      have hlength : c.queue.length = s.channel.queue.length + 1 := by
        rw [hqueue, List.length_append, List.length_singleton]
      obtain ⟨c', hc', hreach⟩ := ih (s := { s with arriving := ds ++ rest, channel := c }) hopened
        ⟨hquiet.chunk, hquiet.downlink, hquiet.acc, hquiet.held⟩ rfl (by
          show c.queue.length + ds.length ≤ responseSlots
          omega)
      refine ⟨c', ?_, hheld.trans (Reaches.head hsend hreach)⟩
      rw [hc', List.length_cons]
      show c.queue.length + ds.length = _
      omega
    · omega

/-- The exit fills the downlink and waits, if there is more than it holds. -/
theorem reaches_full_downlink (arriving : List (List UInt8)) : ∀ {s : Flow},
    s.arriving = arriving → s.opened = true → s.downlink.length ≤ down →
    down < s.downlink.length + s.chunk.length + (wire arriving).length →
    ∃ w u ds, Reaches (step up down) s { s with arriving := ds, chunk := w, downlink := u } ∧
      w ≠ [] ∧ down ≤ u.length := by
  induction arriving with
  | nil =>
    intro s harriving _ hdownlink hlong
    obtain ⟨w, u, hreach, hw, hu⟩ := (exit_writes up down s).reaches_full hdownlink hlong
    exact ⟨w, u, s.arriving, hreach, hw, hu⟩
  | cons d ds ih =>
    intro s harriving hopened hdownlink hlong
    by_cases hfull : down < s.downlink.length + s.chunk.length
    · obtain ⟨w, u, hreach, hw, hu⟩ := (exit_writes up down s).reaches_full hdownlink hfull
      exact ⟨w, u, s.arriving, hreach, hw, hu⟩
    · have hwrite : Reaches (step up down) s
          { s with chunk := [], downlink := s.downlink ++ s.chunk } :=
        (exit_writes up down s).reaches_all (Nat.le_of_not_lt hfull)
      have hrecv : step up down { s with chunk := [], downlink := s.downlink ++ s.chunk }
          .exitRecv = some { s with
            arriving := ds, chunk := datagramFrame (d.take readSize)
            downlink := s.downlink ++ s.chunk } := by
        simp only [step, harriving, hopened, and_self, if_true]
      obtain ⟨w, u, ds', hreach, hwu⟩ := ih (s := { s with
        arriving := ds, chunk := datagramFrame (d.take readSize)
        downlink := s.downlink ++ s.chunk }) rfl hopened
        (by rw [List.length_append]; exact Nat.le_of_not_lt hfull) (by
          rw [wire_cons, List.length_append] at hlong
          show down < (s.downlink ++ s.chunk).length + (datagramFrame _).length + _
          rw [List.length_append]
          omega)
      exact ⟨w, u, ds', hwrite.trans (Reaches.head hrecv hreach), hwu⟩

/-- **That much does block them.** -/
theorem reaches_blocked (hdown : 0 < down) {frames : List SubFrame}
    {arriving : List (List UInt8)} (hup : up < uplinkPeak 0 false frames)
    (hlong : (wire (arriving.take (responseSlots + 1))).length + down < (wire arriving).length) :
    ∃ t, Reaches (step up down) (start frames arriving) t ∧ t.Blocked up down := by
  obtain ⟨s, hs, hquiet, hopened, hloop, harriving, hchannel⟩ :
      ∃ t, Reaches (step up down) (start frames arriving) t ∧ t.Quiet ∧ t.opened = true ∧
        (t.writing ≠ [] ∧ up ≤ t.uplink.length) ∧ t.arriving = arriving ∧
        t.channel = (start frames arriving).channel :=
    reaches_full_uplink frames rfl ⟨rfl, rfl, rfl, rfl⟩ (Nat.zero_le up)
      (fun hne => absurd rfl hne) hup
  have hempty : s.channel.queue.length = 0 := by
    rw [hchannel]
    rfl
  -- there are 513, and more behind them
  have hmany : responseSlots + 1 ≤ arriving.length := by
    by_contra hfew
    rw [List.take_of_length_le (by omega)] at hlong
    omega
  obtain ⟨d, ds, hrest⟩ : ∃ d ds, arriving.drop responseSlots = d :: ds := by
    refine List.exists_cons_of_ne_nil fun hnil => ?_
    have h := congrArg List.length hnil
    rw [List.length_drop, List.length_nil] at h
    omega
  have hsplit : s.arriving = arriving.take responseSlots ++ d :: ds := by
    rw [harriving, ← hrest, List.take_append_drop]
  obtain ⟨c, hc, hfilled⟩ : ∃ c : Channel (List UInt8) responseSlots,
      c.queue.length = s.channel.queue.length + (arriving.take responseSlots).length ∧
      Reaches (step up down) s { s with arriving := d :: ds, channel := c } :=
    reaches_channel hdown _ hopened hquiet hsplit (by
      rw [hempty, List.length_take]
      omega)
  have hheld : Reaches (step up down) { s with arriving := d :: ds, channel := c }
      { s with arriving := ds, channel := c, held := some (d.take readSize) } :=
    reaches_held (s := { s with arriving := d :: ds, channel := c }) hdown hopened
      ⟨hquiet.chunk, hquiet.downlink, hquiet.acc, hquiet.held⟩ rfl
  have hbehind : (wire arriving).length =
      (wire (arriving.take (responseSlots + 1))).length + (wire ds).length := by
    have hdrop : arriving.drop (responseSlots + 1) = ds := by
      rw [← List.drop_drop, hrest]
      rfl
    rw [← List.length_append, ← wire_append, ← hdrop, List.take_append_drop]
  have hroom : s.downlink.length ≤ down := by
    rw [hquiet.downlink]
    exact Nat.zero_le down
  have hmore : down < s.downlink.length + s.chunk.length + (wire ds).length := by omega
  obtain ⟨w, u, ds', hdownlink, hw, hu⟩ : ∃ w u ds', Reaches (step up down)
      { s with arriving := ds, channel := c, held := some (d.take readSize) }
      { s with
        arriving := ds', chunk := w, downlink := u, channel := c
        held := some (d.take readSize) } ∧ w ≠ [] ∧ down ≤ u.length :=
    reaches_full_downlink ds (s := { s with
      arriving := ds, channel := c, held := some (d.take readSize) }) rfl hopened hroom hmore
  refine ⟨_, hs.trans (hfilled.trans (hheld.trans hdownlink)), hloop, ⟨?_, ?_⟩, hw, hu⟩
  · exact Option.some_ne_none _
  · show responseSlots ≤ c.queue.length
    rw [hc, List.length_take]
    omega

end Flow

/-- **When the cascade does not deadlock.**  For every client, every target and every capacity
of the stream, no schedule has all three waiting exactly if nothing comes down the stream at
all, or no session of the sub-session is given more than the uplink holds, or the downlink
holds all that comes behind the first 513 datagrams. -/
theorem cascade_live_iff (up down : ℕ) (frames : List SubFrame)
    (arriving : List (List UInt8)) :
    (∀ s, Reaches (Flow.step up down) (Flow.start frames arriving) s → ¬s.Blocked up down) ↔
      down = 0 ∨ uplinkPeak 0 false frames ≤ up ∨
        (wire arriving).length ≤ (wire (arriving.take (responseSlots + 1))).length + down := by
  constructor
  · intro hlive
    by_contra hcond
    rw [not_or, not_or] at hcond
    obtain ⟨hdown, hup, hlong⟩ := hcond
    obtain ⟨t, hreach, hblocked⟩ := Flow.reaches_blocked (Nat.pos_of_ne_zero hdown)
      (Nat.lt_of_not_le hup) (Nat.lt_of_not_le hlong)
    exact hlive t hreach hblocked
  · intro hcond s hreach hblocked
    have hsound := Flow.sound_of_reaches (Flow.sound_start frames arriving) hreach
    obtain ⟨hdown, hup, hlong⟩ := hsound.of_blocked hblocked
    omega

/-- A client that sends `n` datagrams of a size, the first with their target. -/
def burst (n size : ℕ) : List SubFrame :=
  ⟨statusNew, true, some (List.replicate size 0)⟩ ::
    List.replicate n ⟨statusKeep, false, some (List.replicate size 0)⟩

theorem uplinkPeak_burst (n size : ℕ) :
    uplinkPeak 0 false (burst n size) = (n + 1) * (size + 2) := by
  have hrest : ∀ n given, uplinkPeak given true
      (List.replicate n ⟨statusKeep, false, some (List.replicate size 0)⟩) =
        given + n * (size + 2) := by
    intro n
    induction n with
    | zero =>
      intro given
      rw [List.replicate_zero, uplinkPeak, Nat.zero_mul, Nat.add_zero]
    | succ n ih =>
      intro given
      rw [List.replicate_succ, uplinkPeak]
      show uplinkPeak (given + (datagramFrame (List.replicate size 0)).length) true _ = _
      rw [ih, datagramFrame, List.length_cons, List.length_cons, List.length_replicate,
        Nat.succ_mul]
      omega
  rw [burst, uplinkPeak]
  show uplinkPeak (0 + (datagramFrame (List.replicate size 0)).length) true _ = _
  rw [hrest, datagramFrame, List.length_cons, List.length_cons, List.length_replicate,
    Nat.succ_mul]
  omega

theorem length_wire_replicate (n : ℕ) {size : ℕ} (h : size ≤ readSize) :
    (wire (List.replicate n (List.replicate size 0))).length = n * (size + 2) := by
  induction n with
  | zero =>
    rw [Nat.zero_mul]
    rfl
  | succ n ih =>
    rw [List.replicate_succ, wire_cons, List.length_append, ih, datagramFrame, List.length_cons,
      List.length_cons, List.length_take, List.length_replicate, min_eq_right h, Nat.succ_mul]
    omega

/-- Buffers of 64 KiB, two uplink datagrams of 40000 bytes and 600 downlink datagrams of 1200
bytes leave all three waiting. -/
theorem cascade_blocks_burst :
    ∃ s, Reaches (Flow.step 65536 65536)
      (Flow.start (burst 1 40000) (List.replicate 600 (List.replicate 1200 0))) s ∧
        s.Blocked 65536 65536 := by
  refine Flow.reaches_blocked (by decide) ?_ ?_
  · rw [uplinkPeak_burst]
    decide
  · rw [List.take_replicate, length_wire_replicate _ (by decide),
      length_wire_replicate _ (by decide)]
    decide

end Mux
end HoldTheDonut
