import HoldTheDonut.Mux.Cascade
import HoldTheDonut.Mux.Segmentation
import Mathlib.Data.List.TakeWhile

/-!
# The network byte of a Mux frame

A `New` frame declares the network of its sub-session, TCP or UDP.  `parse_frame` skips the byte:
the frame it returns does not have it, so the relay cannot tell the two apart and treats every
sub-session as UDP.  What the client meant for a TCP stream leaves as datagrams.

To say so, the byte has to be seen.  A `WireFrame` is a frame with its text, and a relay that has
read the texts of some frames has acted on those frames (`log_of_reads`), so a statement about the
entries of its log can speak of the bytes they came from.

Not all data of such a sub-session is sent.  A datagram that states no target is lost unless there
is exactly one cascade session, and there can be one only if an earlier frame has stated a chained
target.  Whatever states a target is sent whenever the network lets it (`udp_only_iff`).
-/

namespace HoldTheDonut
namespace Mux

open Machine Routing Server Streaming
open Vision (Unpadder Uuid)

def netTcp : UInt8 := 0x01

/-- A frame with its text. -/
structure WireFrame where
  text : List UInt8
  frame : Frame
  parses : parseFrame text = .ok (some (frame, []))

/-- The byte behind session, status and option, which `parse_frame` skips. -/
def WireFrame.network (w : WireFrame) : UInt8 := w.text.getD 6 0

/-- The network the most recent `New` frame of a sub-session declares. -/
def declared (ws : List WireFrame) (sid : UInt16) : Option UInt8 :=
  ((ws.filter fun w => w.frame.sid = sid ∧ w.frame.status = statusNew).getLast?).map
    WireFrame.network

/-- The frames a relay acts on. -/
def knownFrames (ws : List WireFrame) : List WireFrame := ws.takeWhile fun w => w.frame.Known

/-! ## What a relay that has read the texts has done -/

theorem checkStatus_eq_none_iff (f : Frame) : checkStatus f = none ↔ f.Known := by
  unfold checkStatus Frame.Known Frame.Served
  rw [or_assoc]
  split
  · next h => exact iff_of_true rfl h
  · next h => exact iff_of_false (by simp) h

theorem uplinkFrame_of_known {w : WireFrame} (h : w.frame.Known) (x : List UInt8) :
    uplinkFrame (w.text ++ x) = .ok (some (w.frame, x)) := by
  have hparse := frameOrKind_eq_ok.mpr (parseFrame_item_append w.parses x)
  unfold uplinkFrame Deframe.checked
  rw [hparse]
  simp only [(checkStatus_eq_none_iff w.frame).mpr h, List.nil_append]

theorem uplinkFrame_of_not_known {w : WireFrame} (h : ¬w.frame.Known) (x : List UInt8) :
    ∃ k, uplinkFrame (w.text ++ x) = .error k := by
  have hparse := frameOrKind_eq_ok.mpr (parseFrame_item_append w.parses x)
  obtain ⟨k, hk⟩ := Option.ne_none_iff_exists'.mp (mt (checkStatus_eq_none_iff w.frame).mp h)
  refine ⟨k, ?_⟩
  unfold uplinkFrame Deframe.checked
  rw [hparse]
  simp only [hk]

/-- The frames taken off the texts are those up to the first of an unknown kind. -/
theorem deframe_texts (ws : List WireFrame) :
    (Deframe.deframe uplinkFrame (ws.map WireFrame.text).flatten).2 =
      (knownFrames ws).map WireFrame.frame := by
  induction ws with
  | nil => rfl
  | cons w ws ih =>
    rw [List.map_cons, List.flatten_cons, knownFrames]
    by_cases h : w.frame.Known
    · rw [stable_uplinkFrame.deframe_of_item (uplinkFrame_of_known h _),
        List.takeWhile_cons_of_pos (by simpa using h), List.map_cons, ih]
      rfl
    · obtain ⟨k, hk⟩ := uplinkFrame_of_not_known h (ws.map WireFrame.text).flatten
      rw [stable_uplinkFrame.deframe_of_error hk, List.takeWhile_cons_of_neg (by simpa using h)]
      rfl

/-- The run has read the texts of the frames, inside Vision or not. -/
def Reads (visionUuid : Option Uuid) (leftover : List UInt8) (events : List Event) (s : Relay)
    (ws : List WireFrame) : Prop :=
  ∃ stream, Covers leftover events s stream ∧
    (devision (visionUuid.map Unpadder.new) stream).2 = (ws.map WireFrame.text).flatten

section Runs

variable {env : MuxEnv} {router : Router} {outbounds : Outbounds}

/-- **The log of a relay that has read the texts is that of their frames.** -/
theorem log_of_reads {visionUuid : Option Uuid} {leftover : List UInt8} {events : List Event}
    {s : Relay} {ws : List WireFrame}
    (hrun : run (step env router outbounds)
      (start env router outbounds visionUuid leftover) events = some s)
    (hreads : Reads visionUuid leftover events s ws) :
    s.log = (replay env router outbounds ((knownFrames ws).map WireFrame.frame)).log := by
  obtain ⟨stream, hcovers, htexts⟩ := hreads
  have hframes : s.log.map Handled.frame = (knownFrames ws).map WireFrame.frame := by
    rw [← deframe_texts, ← htexts]
    exact frames_of_covers hrun hcovers
  rw [(run_eq_replay env router outbounds hrun).2, hframes]

/-- There is such a run: the texts are left over from the request. -/
theorem reads_start (ws : List WireFrame) :
    Reads none (ws.map WireFrame.text).flatten [] (start env router outbounds none
      (ws.map WireFrame.text).flatten) ws := by
  refine ⟨_, Or.inl ?_, rfl⟩
  rw [bytesRead, List.map_nil, List.flatten_nil, List.append_nil]

end Runs

/-! ## Data of a TCP sub-session -/

/-- What holds of every network: an address in text form is its own answer, and a socket that was
never connected has no peer to send to. -/
structure MuxEnv.Usual (env : MuxEnv) : Prop where
  std : env.Std
  unconnected : ∀ n, env.delivers n (.socket none) = false

/-- **Mux carries only UDP as UDP**: in every run that has read the frames, nothing is sent for a
frame of a sub-session that was last declared TCP. -/
def UdpOnly (router : Router) (outbounds : Outbounds) (ws : List WireFrame) : Prop :=
  ∀ env : MuxEnv, env.Usual → ∀ visionUuid leftover events s,
    run (step env router outbounds) (start env router outbounds visionUuid leftover) events =
      some s → Reads visionUuid leftover events s ws →
    ∀ pre w post, knownFrames ws = pre ++ w :: post →
      declared (pre ++ [w]) w.frame.sid = some netTcp →
      ∀ h, s.log[pre.length]? = some h → h.datagrams = []

/-- An earlier frame of the sub-session's life has stated a chained target for its data. -/
def Opened (router : Router) (outbounds : Outbounds) (pre : List Frame) (sid : UInt16) : Prop :=
  ∃ a x b t, pre = a ++ x :: b ∧ x.sid = sid ∧ (∀ y ∈ b, y.status = statusEnd → y.sid ≠ sid) ∧
    x.Sends t ∧ (outbounds.get (router.route (endpointOf t))).isSome = true

/-- A frame brings data for a sub-session last declared TCP, and states a target or finds a cascade
session that may have been opened. -/
def CarriesTcp (router : Router) (outbounds : Outbounds) (ws : List WireFrame) : Prop :=
  ∃ pre w post, knownFrames ws = pre ++ w :: post ∧
    declared (pre ++ [w]) w.frame.sid = some netTcp ∧ w.frame.Served ∧ w.frame.data ≠ none ∧
    (w.frame.target ≠ none ∨ Opened router outbounds (pre.map WireFrame.frame) w.frame.sid)

section Silent

variable {env : MuxEnv} {router : Router} {outbounds : Outbounds}

theorem knownFrames_known (ws : List WireFrame) :
    ∀ f ∈ (knownFrames ws).map WireFrame.frame, f.Known := by
  intro f hf
  obtain ⟨w, hw, rfl⟩ := List.mem_map.mp hf
  simpa using List.mem_takeWhile_imp hw

/-- A datagram without a target is lost where no chained target has been stated. -/
theorem sendUntargeted_of_not_opened (husual : env.Usual) (n : ℕ) {pre : List Frame} {sid : UInt16}
    (h : ¬Opened router outbounds pre sid) (data : List UInt8) :
    sendUntargeted env n ((replay env router outbounds pre).session sid) data = [] := by
  refine sendUntargeted_of_many env husual.unconnected n (fun hone => h ?_) data
  obtain ⟨⟨addr, link⟩, hentries⟩ := entries_of_one hone
  have hlookup : ((replay env router outbounds pre).session sid).chain.lookup addr = some link :=
    AList.mem_lookup_iff.mpr (by rw [hentries]; exact List.mem_singleton_self _)
  obtain ⟨a, x, b, t, chain, hpre, hsid, hb, hsends, hchain, -⟩ := opener_of_lookup hlookup
  exact ⟨a, x, b, t, hpre, hsid, hb, hsends, by rw [hchain]; rfl⟩

/-- **Without such a frame nothing is sent for TCP.** -/
theorem udpOnly_of_not_carriesTcp {ws : List WireFrame}
    (h : ¬CarriesTcp router outbounds ws) : UdpOnly router outbounds ws := by
  intro env husual visionUuid leftover events s hrun hreads pre w post hws htcp entry hentry
  have hknown := knownFrames_known ws
  rw [log_of_reads hrun hreads] at hentry
  rw [hws, List.map_append, List.map_cons] at hentry hknown
  have hat := getElem_log_replay env router outbounds hknown
  rw [List.length_map, hentry] at hat
  obtain rfl := Option.some.inj hat
  rw [Handled.datagrams, entryOf]
  by_cases hserved : w.frame.Served
  · simp only [if_pos hserved]
    cases hdata : w.frame.data with
    | none =>
      simp only [serve, hdata]
      rfl
    | some data =>
      have hsome : w.frame.data ≠ none := hdata ▸ Option.some_ne_none data
      have hsilent := not_or.mp fun hor => h ⟨pre, w, post, hws, htcp, hserved, hsome, hor⟩
      have htarget : w.frame.target = none := not_not.mp hsilent.1
      simp only [serve, hdata, htarget, sendDatagram]
      rw [sendUntargeted_of_not_opened husual _ hsilent.2]
      rfl
  · simp only [if_neg hserved]
    rfl

end Silent

/-! ## Networks that let it pass -/

/-- Everything works and every name has an address, but only some dials succeed. -/
def dialNet (dials : ℕ → Bool) : MuxEnv :=
  { answeringNet sampleAddr with
    dialUdp := fun n _ _ => dials n
    delivers := fun _ via => decide (via ≠ .socket none) }

/-- One dial succeeds, that of the frame at a position. -/
def oneDialNet (i : ℕ) : MuxEnv := dialNet fun n => n = i

theorem dialNet_usual (dials : ℕ → Bool) : (dialNet dials).Usual where
  std := answeringNet_std sampleAddr
  unconnected := fun _ => rfl

/-- Every target has an address. -/
theorem resolve_dialNet (dials : ℕ → Bool) (n : ℕ) (t : Addr) :
    ∃ addr, (resolve (dialNet dials) n t).1 = some addr := by
  cases t with
  | ip s => exact ⟨s, rfl⟩
  | domain host p => exact ⟨_, rfl⟩

section Sent

variable {router : Router} {outbounds : Outbounds}

/-- A datagram that states its target is sent. -/
theorem sent_of_target (s : Relay) {f : Frame} {t : Addr} (hsends : f.Sends t) :
    (entryOf (dialNet fun _ => true) router outbounds s f).datagrams ≠ [] := by
  obtain ⟨addr, hres⟩ := resolve_dialNet (fun _ => true) s.log.length t
  cases hchain : outbounds.get (router.route (endpointOf t)) with
  | some chain =>
    obtain ⟨link, -, d, hd, -⟩ := link_of_sends router outbounds (fun _ _ _ => rfl)
      (fun _ _ => rfl) s hsends (by rw [hchain]; rfl) hres
    exact List.ne_nil_of_mem hd
  | none =>
    obtain ⟨data, hdata⟩ := Option.ne_none_iff_exists'.mp hsends.2.1
    rw [Handled.datagrams, entryOf]
    simp only [if_pos hsends.1, serve, hdata, sendDatagram, hsends.2.2, hchain]
    intro hnil
    rcases (sendLocal_datagrams_eq_nil_iff _ _ _ t data).mp hnil addr hres with ⟨-, hbind⟩ | hfail
    · cases hbind
    · exact absurd hfail (by simp [dialNet])

/-- On a network with one dial, a cascade session is that of the frame which could dial. -/
theorem opener_of_one_dial {i : ℕ} {frames : List Frame} (hknown : ∀ f ∈ frames, f.Known)
    {sid : UInt16} {addr : SocketAddr} {link : ChainLink}
    (h : ((replay (oneDialNet i) router outbounds frames).session sid).chain.lookup addr =
      some link) :
    ∃ (pre : List Frame) (f : Frame) (mid : List Frame) (t : Addr),
      frames = pre ++ f :: mid ∧ pre.length = i ∧ f.Sends t ∧
      (resolve (oneDialNet i) i t).1 = some addr := by
  obtain ⟨pre, f, mid, t, chain, rfl, -, -, hsends, -, hres, hdial, -⟩ := opener_of_lookup h
  have hlen : (replay (oneDialNet i) router outbounds pre).log.length = pre.length :=
    log_length_replay fun g hg => hknown g (List.mem_append_left _ hg)
  rw [hlen] at hres hdial
  obtain rfl : pre.length = i := of_decide_eq_true hdial
  exact ⟨pre, f, mid, t, rfl, rfl, hsends, hres⟩

/-- That frame files its session. -/
theorem filed_of_one_dial {a : List Frame} {x : Frame} {t : Addr} {addr : SocketAddr}
    (hknown : ∀ f ∈ a, f.Known) (hsends : x.Sends t)
    (hchained : (outbounds.get (router.route (endpointOf t))).isSome = true)
    (hres : (resolve (oneDialNet a.length) a.length t).1 = some addr) :
    ∃ link, ((replay (oneDialNet a.length) router outbounds (a ++ [x])).session
      x.sid).chain.lookup addr = some link := by
  obtain ⟨data, hdata⟩ := Option.ne_none_iff_exists'.mp hsends.2.1
  obtain ⟨chain, hchain⟩ := Option.isSome_iff_exists.mp hchained
  have hlen : (replay (oneDialNet a.length) router outbounds a).log.length = a.length :=
    log_length_replay hknown
  rw [replay_concat, session_dispatch_of_served _ _ _ _ _ hsends.1,
    serve_of_chained _ _ _ hsends.2.2 hdata hchain, hlen]
  rcases sendChained_cases (oneDialNet a.length) a.length
      ((replay (oneDialNet a.length) router outbounds a).session x.sid) chain t data with
    ⟨hnone, -⟩ | ⟨addr', link, hres', hlink, heq⟩ | ⟨addr', hres', -, -, heq⟩ |
    ⟨addr', -, -, hfail, -⟩
  · rw [hres] at hnone
    cases hnone
  · obtain rfl : addr = addr' := Option.some.inj (hres.symm.trans hres')
    rw [heq]
    exact ⟨link, hlink⟩
  · obtain rfl : addr = addr' := Option.some.inj (hres.symm.trans hres')
    rw [heq]
    exact ⟨_, AList.lookup_insert _⟩
  · exact absurd hfail (by simp [oneDialNet, dialNet])

/-- **One dial, one cascade session.** -/
theorem one_session_of_opened {a b : List Frame} {x : Frame} {t : Addr}
    (hknown : ∀ f ∈ a ++ x :: b, f.Known) (hb : ∀ y ∈ b, y.status = statusEnd → y.sid ≠ x.sid)
    (hsends : x.Sends t) (hchained : (outbounds.get (router.route (endpointOf t))).isSome = true) :
    ((replay (oneDialNet a.length) router outbounds (a ++ x :: b)).session
      x.sid).chain.keys.length = 1 := by
  obtain ⟨addr, hres⟩ := resolve_dialNet (fun n => n = a.length) a.length t
  obtain ⟨link, hfiled⟩ := filed_of_one_dial
    (fun f hf => hknown f (List.mem_append_left _ hf)) hsends hchained hres
  have hkept := keeps_replay (oneDialNet a.length) router outbounds (a ++ [x]) b hb _ _ hfiled
  rw [List.append_assoc, List.singleton_append] at hkept
  refine keys_length_eq_one hkept fun addr' link' hlink => ?_
  -- the frame which could dial is this one, and states one target
  obtain ⟨pre, f, mid, t', hsplit, hpre, hsends', hres'⟩ := opener_of_one_dial hknown hlink
  obtain ⟨rfl, hrest⟩ := List.append_inj hsplit hpre.symm
  obtain ⟨rfl, -⟩ := List.cons.inj hrest
  obtain rfl : t = t' := Option.some.inj (hsends.2.2.symm.trans hsends'.2.2)
  exact (Option.some.inj (hres.symm.trans hres')).symm

/-- A datagram without a target is sent to the only cascade session. -/
theorem sent_of_opened {pre : List Frame} {f : Frame} (hknown : ∀ g ∈ pre, g.Known)
    (hopened : Opened router outbounds pre f.sid) (hserved : f.Served) (hdata : f.data ≠ none)
    (htarget : f.target = none) :
    ∃ i, (entryOf (oneDialNet i) router outbounds
      (replay (oneDialNet i) router outbounds pre) f).datagrams ≠ [] := by
  obtain ⟨a, x, b, t, rfl, hsid, hb, hsends, hchained⟩ := hopened
  obtain ⟨data, hdata⟩ := Option.ne_none_iff_exists'.mp hdata
  rw [← hsid] at hb
  have hone := one_session_of_opened hknown hb hsends hchained
  rw [hsid] at hone
  refine ⟨a.length, ?_⟩
  obtain ⟨ep, heq⟩ := sendUntargeted_of_one (oneDialNet a.length)
    (replay (oneDialNet a.length) router outbounds (a ++ x :: b)).log.length hone data
  rw [Handled.datagrams, entryOf]
  simp only [if_pos hserved, serve, hdata, htarget, sendDatagram, heq]
  rw [hand_datagrams, if_pos (by simp [oneDialNet, dialNet])]
  exact List.cons_ne_nil _ _

/-- **Such a frame's data is sent on some network.** -/
theorem not_udpOnly_of_carriesTcp {ws : List WireFrame} (h : CarriesTcp router outbounds ws) :
    ¬UdpOnly router outbounds ws := by
  intro hudp
  obtain ⟨pre, w, post, hws, htcp, hserved, hdata, hsent⟩ := h
  have hknown := knownFrames_known ws
  rw [hws, List.map_append, List.map_cons] at hknown
  -- the frames are read off the request's leftover, on any of the networks
  have hsilent : ∀ dials, (entryOf (dialNet dials) router outbounds
      (replay (dialNet dials) router outbounds (pre.map WireFrame.frame)) w.frame).datagrams =
        [] := by
    intro dials
    refine hudp (dialNet dials) (dialNet_usual dials) none _ [] _ rfl (reads_start ws) pre w post
      hws htcp _ ?_
    rw [log_of_reads rfl (reads_start ws), hws, List.map_append, List.map_cons]
    have hat := getElem_log_replay (dialNet dials) router outbounds hknown
    rwa [List.length_map] at hat
  cases htarget : w.frame.target with
  | some t => exact sent_of_target _ ⟨hserved, hdata, htarget⟩ (hsilent fun _ => true)
  | none =>
    have hopened := hsent.resolve_left (not_not.mpr htarget)
    obtain ⟨i, hi⟩ := sent_of_opened (fun g hg => hknown g (List.mem_append_left _ hg)) hopened
      hserved hdata htarget
    exact hi (hsilent fun n => n = i)

end Sent

/-- **What Mux carries as UDP.**  For every list of frames, routing table and outbounds: no data of
a sub-session last declared TCP is sent, in any run on any network, exactly if no such data comes
with a target or after a chained one. -/
theorem udp_only_iff (router : Router) (outbounds : Outbounds) (ws : List WireFrame) :
    UdpOnly router outbounds ws ↔ ¬CarriesTcp router outbounds ws :=
  ⟨fun h hcarries => not_udpOnly_of_carriesTcp hcarries h, udpOnly_of_not_carriesTcp⟩

/-- `New`, with data, for TCP to 10.0.0.1:53: one byte. -/
def tcpFrameBytes : List UInt8 := [0, 12, 0, 7, 1, 1, 1, 0, 53, 1, 10, 0, 0, 1, 0, 1, 42]

set_option maxRecDepth 4000 in
theorem parseFrame_tcpFrameBytes :
    parseFrame tcpFrameBytes = .ok (some (⟨7, statusNew, some sampleTarget, some [42]⟩, [])) := rfl

def tcpFrame : WireFrame := ⟨tcpFrameBytes, _, parseFrame_tcpFrameBytes⟩

set_option maxRecDepth 4000 in
/-- **A TCP sub-session is sent as UDP**: its first frame leaves from a UDP socket. -/
theorem tcp_frame_sent_as_udp :
    declared [tcpFrame] 7 = some netTcp ∧ unconnectedNet.Usual ∧
      ∃ h, (start unconnectedNet ⟨[], "freedom"⟩ .empty none tcpFrame.text).log = [h] ∧
        h.frame = tcpFrame.frame ∧ h.datagrams = [(.socket (some sampleHost), [42])] :=
  ⟨rfl, ⟨silentNet_std, fun _ => rfl⟩,
    statedEntry [.bind false, .send (.socket (some sampleHost)) [42]], rfl, rfl, rfl⟩

end Mux
end HoldTheDonut
