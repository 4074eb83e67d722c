import HoldTheDonut.Mux.Cascade
import HoldTheDonut.Mux.Segmentation

/-!
# The address family of the local socket

A sub-session is full-cone: each datagram states its target, and the local ones all leave from one
socket.  That socket is bound by the first of them, to the wildcard address of *its* family, and
nothing ever binds another.  So a sub-session whose local targets are of both families sends one of
them from a socket of the wrong family, which the operating system refuses.

Two lemmas say all there is to know about the socket.  Serving a frame leaves it alone or, if there
is none, binds one for the target of that frame (`serve_direct_cases`); whatever a sub-session has,
some frame since its last `End` has brought it (`exists_turn`).  Hence the socket has the family of
one of the targets, and it fits all of them exactly if they are of one family.
-/

namespace HoldTheDonut
namespace Mux

open Machine Routing Server
open Vision (Uuid)

section Direct

variable (env : MuxEnv) (router : Router) (outbounds : Outbounds)

/-- The frame sends a datagram to a target that is kept on this node. -/
def Frame.SendsLocal (f : Frame) (t : Addr) : Prop :=
  f.Sends t ∧ outbounds.get (router.route (endpointOf t)) = none

/-- **What a local datagram does**: its target has no address, the socket is there, or one is bound
for it, with or without success. -/
theorem sendLocal_cases (n : ℕ) (sess : UdpSession) (t : Addr) (data : List UInt8) :
    ((resolve env n t).1 = none ∧
      sendLocal env n sess t data = (sess, (resolve env n t).2)) ∨
    (∃ addr d, (resolve env n t).1 = some addr ∧ sess.direct = some d ∧
      sendLocal env n sess t data =
        (sess, (resolve env n t).2 ++ hand env n (.socket (some addr)) data)) ∨
    (∃ addr, (resolve env n t).1 = some addr ∧ sess.direct = none ∧
      env.bindUdp n addr.isIpv6 = true ∧
      sendLocal env n sess t data =
        ({ sess with direct := some ⟨addr.isIpv6⟩ },
          (resolve env n t).2 ++ [.bind addr.isIpv6] ++
            hand env n (.socket (some addr)) data)) ∨
    (∃ addr, (resolve env n t).1 = some addr ∧ sess.direct = none ∧
      env.bindUdp n addr.isIpv6 = false ∧
      sendLocal env n sess t data = (sess, (resolve env n t).2 ++ [.bind addr.isIpv6])) := by
  unfold sendLocal openDirect
  rcases resolve env n t with ⟨_ | addr, looked⟩
  · exact Or.inl ⟨rfl, rfl⟩
  · cases hdirect : sess.direct with
    | some d => exact Or.inr (Or.inl ⟨addr, d, rfl, rfl, rfl⟩)
    | none =>
      cases hbind : env.bindUdp n addr.isIpv6 with
      | true =>
        refine Or.inr (Or.inr (Or.inl ⟨addr, rfl, rfl, hbind, ?_⟩))
        simp only [hbind, if_true]
      | false =>
        refine Or.inr (Or.inr (Or.inr ⟨addr, rfl, rfl, hbind, ?_⟩))
        simp only [hbind, Bool.false_eq_true, if_false]

theorem sendChained_direct (n : ℕ) (sess : UdpSession) (chain : ChainOutbound) (t : Addr)
    (data : List UInt8) : (sendChained env n sess chain t data).1.direct = sess.direct := by
  rcases sendChained_cases env n sess chain t data with
    ⟨-, heq⟩ | ⟨addr, link, -, -, heq⟩ | ⟨addr, -, -, -, heq⟩ | ⟨addr, -, -, -, heq⟩
  · rw [heq]
  · rw [heq]
  · rw [heq]
  · rw [heq]

/-- **What serving a frame does to the local socket**: nothing, or the first one is bound, of the
family of the frame's target. -/
theorem serve_direct_cases (n : ℕ) (sess : UdpSession) (f : Frame) :
    (serve env router outbounds n sess f).1.direct = sess.direct ∨
    ∃ t addr, f.data ≠ none ∧ f.target = some t ∧
      outbounds.get (router.route (endpointOf t)) = none ∧ (resolve env n t).1 = some addr ∧
      sess.direct = none ∧
      (serve env router outbounds n sess f).1.direct = some ⟨addr.isIpv6⟩ := by
  rcases serve_cases env router outbounds n sess f with
    ⟨-, hserve⟩ | ⟨data, -, -, hserve⟩ | ⟨data, t, hdata, htarget, hlocal, hserve⟩ |
    ⟨data, t, chain, -, -, -, hserve⟩
  · exact Or.inl (by rw [hserve])
  · exact Or.inl (by rw [hserve])
  · rw [hserve]
    rcases sendLocal_cases env n sess t data with
      ⟨-, heq⟩ | ⟨addr, d, -, -, heq⟩ | ⟨addr, hres, hnone, -, heq⟩ | ⟨addr, -, -, -, heq⟩
    · exact Or.inl (by rw [heq])
    · exact Or.inl (by rw [heq])
    · have hsome : f.data ≠ none := hdata ▸ Option.some_ne_none data
      exact Or.inr ⟨t, addr, hsome, htarget, hlocal, hres, hnone, by rw [heq]⟩
    · exact Or.inl (by rw [heq])
  · rw [hserve]
    exact Or.inl (sendChained_direct env n sess chain t data)

/-- Serving a frame keeps the local socket there is. -/
theorem serve_keeps_direct {n : ℕ} {sess : UdpSession} {f : Frame} {d : DirectLink}
    (h : sess.direct = some d) : (serve env router outbounds n sess f).1.direct = some d := by
  rcases serve_direct_cases env router outbounds n sess f with heq | ⟨t, addr, -, -, -, -, hnone, -⟩
  · rw [heq, h]
  · rw [h] at hnone
    cases hnone

variable {env router outbounds} in
/-- **Where the local socket comes from**: an earlier frame of the sub-session's life, whose target
has its family. -/
theorem opener_of_direct {frames : List Frame} {sid : UInt16} {d : DirectLink}
    (h : ((replay env router outbounds frames).session sid).direct = some d) :
    ∃ (pre : List Frame) (f : Frame) (mid : List Frame) (t : Addr) (addr : SocketAddr),
      frames = pre ++ f :: mid ∧ f.sid = sid ∧
      (∀ x ∈ mid, x.status = statusEnd → x.sid ≠ sid) ∧ f.SendsLocal router outbounds t ∧
      (resolve env (replay env router outbounds pre).log.length t).1 = some addr ∧
      d.ipv6 = addr.isIpv6 := by
  obtain ⟨pre, f, mid, rfl, hsid, hserved, hmid, hbefore, hafter⟩ :=
    exists_turn (P := fun sess => sess.direct = some d) (by simp [UdpSession.default]) h
  rcases serve_direct_cases env router outbounds _ _ f with
    hsame | ⟨t, addr, hdata, htarget, hlocal, hres, -, hbound⟩
  · exact absurd (hsame ▸ hafter) hbefore
  · rw [hbound] at hafter
    cases hafter
    exact ⟨pre, f, mid, t, addr, rfl, hsid, hmid, ⟨⟨hserved, hdata, htarget⟩, hlocal⟩, hres, rfl⟩

end Direct

/-! ## One socket for all local targets -/

section Family

variable (env : MuxEnv) (router : Router) (outbounds : Outbounds)

/-- The local socket an entry's frame was served with. -/
def Handled.socket (h : Handled) : Option DirectLink :=
  (serve env router outbounds h.index h.before h.frame).1.direct

/-- **Every local datagram is sent from a socket of its target's family.** -/
def OwnFamily (log : List Handled) : Prop :=
  ∀ h ∈ log, ∀ t addr data, h.frame.SendsLocal router outbounds t → h.frame.data = some data →
    (resolve env h.index t).1 = some addr →
      (∃ d, h.socket env router outbounds = some d ∧ d.ipv6 = addr.isIpv6) ∧
        h.datagrams = [(.socket (some addr), data)]

/-- The local targets of one sub-session, not ended in between, are of one family. -/
def OneFamily (frames : List Frame) : Prop :=
  ∀ pre f mid g post t t' addr addr', frames = pre ++ f :: (mid ++ g :: post) → f.sid = g.sid →
    (∀ x ∈ mid, x.status = statusEnd → x.sid ≠ f.sid) → f.SendsLocal router outbounds t →
    g.SendsLocal router outbounds t' → (resolve env pre.length t).1 = some addr →
    (resolve env (pre ++ f :: mid).length t').1 = some addr' → addr.isIpv6 = addr'.isIpv6

/-- The network does its part: a socket can be bound, and a send succeeds from a socket of the
target's family.  Nothing is said of the others. -/
structure LocalWorks (log : List Handled) : Prop where
  binds : ∀ n ipv6, env.bindUdp n ipv6 = true
  sends : ∀ h ∈ log, ∀ d addr, h.socket env router outbounds = some d → d.ipv6 = addr.isIpv6 →
    env.delivers h.index (.socket (some addr)) = true

variable {env router outbounds}

/-- What serves a local datagram. -/
theorem serve_of_local {f : Frame} {t : Addr} {data : List UInt8}
    (h : f.SendsLocal router outbounds t) (hdata : f.data = some data) (n : ℕ)
    (sess : UdpSession) :
    serve env router outbounds n sess f = sendLocal env n sess t data := by
  unfold serve sendDatagram
  simp only [hdata, h.1.2.2, h.2]

/-- A local datagram that has an address is served with a socket, which is sent from if it
fits. -/
theorem local_entry {s : Relay} {g : Frame} {t : Addr} {addr : SocketAddr} {data : List UInt8}
    (hbinds : ∀ n ipv6, env.bindUdp n ipv6 = true) (hg : g.SendsLocal router outbounds t)
    (hdata : g.data = some data) (hres : (resolve env s.log.length t).1 = some addr) :
    ∃ d, (entryOf env router outbounds s g).socket env router outbounds = some d ∧
      ((s.session g.sid).direct = some d ∨ d.ipv6 = addr.isIpv6) ∧
      (env.delivers s.log.length (.socket (some addr)) = true →
        (entryOf env router outbounds s g).datagrams = [(.socket (some addr), data)]) := by
  have hbound : [Action.bind addr.isIpv6].filterMap Action.datagram = [] := rfl
  have hdatagrams : (entryOf env router outbounds s g).datagrams =
      (sendLocal env s.log.length (s.session g.sid) t data).2.filterMap Action.datagram := by
    rw [Handled.datagrams, entryOf]
    simp only [if_pos hg.1.1, serve_of_local hg hdata]
  have hsocket : (entryOf env router outbounds s g).socket env router outbounds =
      (sendLocal env s.log.length (s.session g.sid) t data).1.direct := by
    rw [Handled.socket, entryOf]
    simp only [serve_of_local hg hdata]
  rw [hdatagrams, hsocket]
  rcases sendLocal_cases env s.log.length (s.session g.sid) t data with
    ⟨hnone, -⟩ | ⟨a, d, ha, hd, heq⟩ | ⟨a, ha, -, -, heq⟩ | ⟨a, -, -, hfail, -⟩
  · rw [hres] at hnone
    cases hnone
  · obtain rfl : addr = a := Option.some.inj (hres.symm.trans ha)
    rw [heq]
    refine ⟨d, hd, Or.inl hd, fun hdelivers => ?_⟩
    rw [List.filterMap_append, resolve_datagrams, hand_datagrams, if_pos hdelivers]
    rfl
  · obtain rfl : addr = a := Option.some.inj (hres.symm.trans ha)
    rw [heq]
    refine ⟨⟨addr.isIpv6⟩, rfl, Or.inr rfl, fun hdelivers => ?_⟩
    rw [List.filterMap_append, List.filterMap_append, resolve_datagrams, hbound, hand_datagrams,
      if_pos hdelivers]
    rfl
  · rw [hbinds] at hfail
    cases hfail

/-- **One family suffices**: the socket was bound for a target of it. -/
theorem ownFamily_of_oneFamily {frames : List Frame} (hknown : ∀ f ∈ frames, f.Known)
    (hworks : LocalWorks env router outbounds (replay env router outbounds frames).log)
    (h : OneFamily env router outbounds frames) :
    OwnFamily env router outbounds (replay env router outbounds frames).log := by
  intro e he t addr data hlocal hdata hres
  obtain ⟨pre, g, post, rfl, -, rfl⟩ := exists_of_mem_log env router outbounds he
  obtain ⟨d, hsocket, hfrom, hsent⟩ := local_entry hworks.binds hlocal hdata hres
  have hfamily : d.ipv6 = addr.isIpv6 := by
    rcases hfrom with hdirect | hfamily
    · obtain ⟨a, f, mid, t', addr', rfl, hsid, hmid, hlocal', hres', hfamily⟩ :=
        opener_of_direct hdirect
      have hbefore : ∀ x ∈ a ++ f :: mid, x.Known :=
        fun x hx => hknown x (List.mem_append_left _ hx)
      have hearlier : ∀ x ∈ a, x.Known := fun x hx => hbefore x (List.mem_append_left _ hx)
      rw [log_length_replay hearlier] at hres'
      rw [hfamily]
      refine h a f mid g post t' t addr' addr (by simp) hsid (hsid ▸ hmid) hlocal' hlocal hres' ?_
      rw [← log_length_replay hbefore]
      exact hres
    · exact hfamily
  exact ⟨⟨d, hsocket, hfamily⟩, hsent (hworks.sends _ he d addr hsocket hfamily)⟩

/-- **One family is needed**: the socket of the first target is that of the second. -/
theorem oneFamily_of_ownFamily {frames : List Frame} (hknown : ∀ f ∈ frames, f.Known)
    (h : OwnFamily env router outbounds (replay env router outbounds frames).log) :
    OneFamily env router outbounds frames := by
  rintro pre f mid g post t t' addr addr' rfl hsid hmid hf hg hres hres'
  have hpre : ∀ x ∈ pre, x.Known := fun x hx => hknown x (List.mem_append_left _ hx)
  have hmids : ∀ x ∈ pre ++ f :: mid, x.Known := by
    intro x hx
    refine hknown x ?_
    rw [← List.cons_append, ← List.append_assoc]
    exact List.mem_append_left _ hx
  obtain ⟨data, hdata⟩ := Option.ne_none_iff_exists'.mp hf.1.2.1
  obtain ⟨data', hdata'⟩ := Option.ne_none_iff_exists'.mp hg.1.2.1
  have hlen : (replay env router outbounds pre).log.length = pre.length := log_length_replay hpre
  have hlen' : (replay env router outbounds (pre ++ f :: mid)).log.length =
      (pre ++ f :: mid).length := log_length_replay hmids
  rw [← hlen] at hres
  rw [← hlen'] at hres'
  have hentry := entryOf_mem_log env router outbounds pre (mid ++ g :: post) hf.1.1.known
  have hentry' := entryOf_mem_log env router outbounds (pre ++ f :: mid) post hg.1.1.known
  rw [List.append_assoc, List.cons_append] at hentry'
  obtain ⟨⟨d, hsocket, hfamily⟩, -⟩ := h _ hentry t addr data hf hdata hres
  obtain ⟨⟨d', hsocket', hfamily'⟩, -⟩ := h _ hentry' t' addr' data' hg hdata' hres'
  -- the socket stays until the second datagram, and serves it too
  have hstays : ((replay env router outbounds (pre ++ f :: mid)).session g.sid).direct =
      some d := by
    have hbound : ((replay env router outbounds (pre ++ [f])).session f.sid).direct = some d := by
      rw [replay_concat, session_dispatch_of_served _ _ _ _ _ hf.1.1]
      exact hsocket
    have hkept := persists_replay env router outbounds (P := fun sess => sess.direct = some d)
      (fun n sess x => serve_keeps_direct env router outbounds) (pre ++ [f]) mid hmid hbound
    rwa [List.append_assoc, List.singleton_append, hsid] at hkept
  have hsame : d' = d := Option.some.inj
    (hsocket'.symm.trans (serve_keeps_direct env router outbounds hstays))
  rw [← hfamily, ← hfamily', hsame]

end Family

/-- The frames of a log are known. -/
theorem known_of_mem_frames {env : MuxEnv} {router : Router} {outbounds : Outbounds}
    {visionUuid : Option Uuid} {leftover : List UInt8} {events : List Event} {s : Relay}
    (hrun : run (step env router outbounds)
      (start env router outbounds visionUuid leftover) events = some s) :
    ∀ f ∈ s.frames, f.Known := by
  intro f hf
  obtain ⟨h, hh, rfl⟩ := List.mem_map.mp hf
  rw [(run_eq_replay env router outbounds hrun).2] at hh
  obtain ⟨pre, g, post, -, hknown, rfl⟩ := exists_of_mem_log env router outbounds hh
  exact hknown

/-- **When full-cone local egress covers the families.**  In every run, on a network that does its
part: every local datagram is sent from a socket of its target's family exactly if the local
targets of each sub-session, between its `End` frames, are of one family. -/
theorem own_family_iff (env : MuxEnv) (router : Router) (outbounds : Outbounds)
    {visionUuid : Option Uuid} {leftover : List UInt8} {events : List Event} {s : Relay}
    (hrun : run (step env router outbounds)
      (start env router outbounds visionUuid leftover) events = some s)
    (hworks : LocalWorks env router outbounds s.log) :
    OwnFamily env router outbounds s.log ↔ OneFamily env router outbounds s.frames := by
  have hknown := known_of_mem_frames hrun
  have hlog : s.log = (replay env router outbounds s.frames).log :=
    (run_eq_replay env router outbounds hrun).2
  rw [hlog] at hworks ⊢
  exact ⟨oneFamily_of_ownFamily hknown, ownFamily_of_oneFamily hknown hworks⟩

/-- Two datagrams for one address. -/
theorem own_family_one_target :
    OwnFamily unconnectedNet ⟨[], "freedom"⟩ .empty
      (start unconnectedNet ⟨[], "freedom"⟩ .empty none (blockedFrame ++ blockedFrame)).log := by
  have hrun : run (step unconnectedNet ⟨[], "freedom"⟩ .empty)
      (start unconnectedNet ⟨[], "freedom"⟩ .empty none (blockedFrame ++ blockedFrame)) [] =
        some _ := rfl
  refine (own_family_iff unconnectedNet ⟨[], "freedom"⟩ .empty hrun
    ⟨fun _ _ => rfl, fun _ _ _ _ _ _ => rfl⟩).mpr ?_
  have htargets : ∀ f ∈ (start unconnectedNet ⟨[], "freedom"⟩ .empty none
      (blockedFrame ++ blockedFrame)).frames, f.target = some sampleTarget := by
    decide
  intro pre f mid g post t t' addr addr' hframes _ _ hf hg hres hres'
  have hft := htargets f (by rw [hframes]; simp)
  have hgt := htargets g (by rw [hframes]; simp)
  obtain rfl : t = sampleTarget := Option.some.inj (hf.1.2.2.symm.trans hft)
  obtain rfl : t' = sampleTarget := Option.some.inj (hg.1.2.2.symm.trans hgt)
  rw [← Option.some.inj hres, ← Option.some.inj hres']

/-- `Keep` on sub-session 7, for UDP to `[9:…:9]:53`: one byte. -/
def v6FrameBytes : List UInt8 :=
  [0, 24, 0, 7, 2, 1, 2, 0, 53, 3] ++ List.replicate 16 9 ++ [0, 1, 43]

def v6Host : SocketAddr := ⟨.v6 (Octets.fromSlice 16 (List.replicate 16 9)), 53⟩

/-- A network on which an IPv4 socket sends to IPv4 addresses only. -/
def v4Net : MuxEnv :=
  { silentNet with
    delivers := fun _ via =>
      match via with
      | .socket (some addr) => !addr.isIpv6
      | .socket none => false
      | .cascade _ => true }

set_option maxRecDepth 8000 in
theorem start_log_v6 :
    (start v4Net ⟨[], "freedom"⟩ .empty none (blockedFrame ++ v6FrameBytes)).log =
      [statedEntry [.bind false, .send (.socket (some sampleHost)) [42]],
        ⟨1, ⟨7, statusKeep, some (.ip v6Host), some [43]⟩, ⟨some ⟨false⟩, ∅⟩, []⟩] := rfl

/-- **The second family is lost**: the datagram for an IPv6 address finds the IPv4 socket of the
first one, and is not sent. -/
theorem second_family_lost :
    ∃ e h, (start v4Net ⟨[], "freedom"⟩ .empty none (blockedFrame ++ v6FrameBytes)).log = [e, h] ∧
      LocalWorks v4Net ⟨[], "freedom"⟩ .empty [e, h] ∧ e.frame.sid = h.frame.sid ∧
      h.frame.SendsLocal ⟨[], "freedom"⟩ .empty (.ip v6Host) ∧ v6Host.isIpv6 = true ∧
      h.socket v4Net ⟨[], "freedom"⟩ .empty = some ⟨false⟩ ∧ h.datagrams = [] := by
  refine ⟨_, _, start_log_v6, ⟨fun _ _ => rfl, ?_⟩, rfl, ?_, rfl, rfl, rfl⟩
  · intro h hmem d addr hsocket hfamily
    have hv4 : h.socket v4Net ⟨[], "freedom"⟩ .empty = some ⟨false⟩ := by
      rcases List.mem_pair.mp hmem with rfl | rfl
      · rfl
      · rfl
    rw [hv4] at hsocket
    cases hsocket
    show (!addr.isIpv6) = true
    rw [← hfamily]
    rfl
  · exact ⟨⟨Or.inr rfl, Option.some_ne_none _, rfl⟩, rfl⟩

end Mux
end HoldTheDonut
