import HoldTheDonut.Machine.Keyed
import HoldTheDonut.Mux.Relay

/-!
# The relay, frame by frame

What `mux_relay` does for its sub-sessions it does one frame at a time; reads, padding and
responses only decide when the next frame is taken.  So a run is determined, as far as the
sub-sessions are concerned, by the frames it has handled: `run_eq_replay` says that log and
sub-sessions of every run are those of a `replay` of the frames in its log.

The tool for such arguments is `dispatch_cases`, which says once what a frame can do; with
`run_induct`, what every frame preserves, every run preserves.  The last section looks into a
sub-session.  Its cascade sessions are filed under an address; a frame leaves them alone, or
files one more under an address that had none (`serve_chain_cases`).  Nothing but an `End`
frame ever takes one out.
-/

namespace HoldTheDonut
namespace Mux

open Machine Routing Server

/-! ## What a frame can do -/

/-- The frames that do not end the relay. -/
def Frame.Known (f : Frame) : Prop :=
  f.Served ∨ f.status = statusEnd ∨ f.status = statusKeepalive

instance : DecidablePred Frame.Known := fun f =>
  inferInstanceAs (Decidable (f.Served ∨ f.status = statusEnd ∨ f.status = statusKeepalive))

section Dispatch

variable (env : MuxEnv) (router : Router) (outbounds : Outbounds) (s : Relay) (f : Frame)

/-- The entry of a frame in the log. -/
def entryOf : Handled :=
  ⟨s.log.length, f, s.session f.sid,
    if f.Served then (serve env router outbounds s.log.length (s.session f.sid) f).2 else []⟩

/-- **What a frame can do**: be served, end its sub-session, keep the relay alive, or end
it. -/
theorem dispatch_cases :
    (f.Served ∧ dispatch env router outbounds s f = { s with
      sessions := s.sessions.insert f.sid
        (serve env router outbounds s.log.length (s.session f.sid) f).1
      log := s.log ++ [entryOf env router outbounds s f] }) ∨
    (f.status = statusEnd ∧ dispatch env router outbounds s f = { s with
      sessions := s.sessions.erase f.sid
      log := s.log ++ [entryOf env router outbounds s f] }) ∨
    (f.status = statusKeepalive ∧ dispatch env router outbounds s f = { s with
      log := s.log ++ [entryOf env router outbounds s f] }) ∨
    (¬ f.Known ∧ dispatch env router outbounds s f = { s with
      ended := some (.error (.frame .unknownStatus)) }) := by
  unfold dispatch entryOf
  by_cases hserved : f.Served
  · refine Or.inl ⟨hserved, ?_⟩
    rw [if_pos hserved]
    exact if_pos hserved
  · have hserved' : ¬ (f.status = statusNew ∨ f.status = statusKeep) := hserved
    rw [if_neg hserved', if_neg hserved]
    by_cases hend : f.status = statusEnd
    · exact Or.inr (Or.inl ⟨hend, if_pos hend⟩)
    · rw [if_neg hend]
      by_cases hkeep : f.status = statusKeepalive
      · exact Or.inr (Or.inr (Or.inl ⟨hkeep, if_pos hkeep⟩))
      · refine Or.inr (Or.inr (Or.inr ⟨?_, if_neg hkeep⟩))
        rintro (h | h | h)
        · exact hserved h
        · exact hend h
        · exact hkeep h

theorem Frame.Served.known {f : Frame} (h : f.Served) : f.Known := Or.inl h

/-- A frame that is known is logged. -/
theorem dispatch_log_of_known (h : f.Known) :
    (dispatch env router outbounds s f).log = s.log ++ [entryOf env router outbounds s f] := by
  rcases dispatch_cases env router outbounds s f with ⟨-, heq⟩ | ⟨-, heq⟩ | ⟨-, heq⟩ | ⟨hn, -⟩
  · rw [heq]
  · rw [heq]
  · rw [heq]
  · exact absurd h hn

theorem dispatch_log_of_not_known (h : ¬ f.Known) :
    (dispatch env router outbounds s f).log = s.log := by
  rcases dispatch_cases env router outbounds s f with ⟨hs, -⟩ | ⟨hs, -⟩ | ⟨hs, -⟩ | ⟨-, heq⟩
  · exact absurd (Or.inl hs) h
  · exact absurd (Or.inr (Or.inl hs)) h
  · exact absurd (Or.inr (Or.inr hs)) h
  · rw [heq]

/-- The log only grows. -/
theorem log_prefix_dispatch : s.log <+: (dispatch env router outbounds s f).log := by
  by_cases h : f.Known
  · rw [dispatch_log_of_known env router outbounds s f h]
    exact List.prefix_append _ _
  · refine ⟨[], ?_⟩
    rw [List.append_nil, dispatch_log_of_not_known env router outbounds s f h]

/-- Only the sub-sessions and the log matter, and only they change. -/
theorem dispatch_congr {s t : Relay} (hsessions : s.sessions = t.sessions) (hlog : s.log = t.log) :
    (dispatch env router outbounds s f).sessions = (dispatch env router outbounds t f).sessions ∧
      (dispatch env router outbounds s f).log = (dispatch env router outbounds t f).log := by
  have hsession : s.session f.sid = t.session f.sid := by
    rw [Relay.session, Relay.session, hsessions]
  unfold dispatch
  rw [hsession, hlog, hsessions]
  split_ifs <;> exact ⟨rfl, rfl⟩

end Dispatch

/-! ## Replaying frames -/

/-- The relay before its first frame. -/
def idleRelay : Relay := ⟨none, none, [], ∅, [], [], none⟩

section Replay

variable (env : MuxEnv) (router : Router) (outbounds : Outbounds)

/-- Handle a list of frames, one after the other. -/
def replay (frames : List Frame) : Relay := frames.foldl (dispatch env router outbounds) idleRelay

@[simp] theorem replay_concat (frames : List Frame) (f : Frame) :
    replay env router outbounds (frames ++ [f]) =
      dispatch env router outbounds (replay env router outbounds frames) f := by
  rw [replay, List.foldl_append]
  rfl

theorem log_prefix_replay (frames more : List Frame) :
    (replay env router outbounds frames).log <+:
      (replay env router outbounds (frames ++ more)).log := by
  induction more using List.reverseRecOn with
  | nil =>
    refine ⟨[], ?_⟩
    rw [List.append_nil, List.append_nil]
  | append_singleton more f ih =>
    rw [← List.append_assoc, replay_concat]
    exact ih.trans (log_prefix_dispatch _ _ _ _ _)

variable {frames : List Frame}

/-- **Every entry of the log is that of a frame**, as the frames before it left the relay. -/
theorem exists_of_mem_log {h : Handled} (hmem : h ∈ (replay env router outbounds frames).log) :
    ∃ (pre : List Frame) (g : Frame) (post : List Frame),
      frames = pre ++ g :: post ∧ g.Known ∧
      h = entryOf env router outbounds (replay env router outbounds pre) g := by
  induction frames using List.reverseRecOn with
  | nil => cases hmem
  | append_singleton frames g ih =>
    have hold : h ∈ (replay env router outbounds frames).log →
        ∃ (pre : List Frame) (x : Frame) (post : List Frame),
          frames ++ [g] = pre ++ x :: post ∧ x.Known ∧
          h = entryOf env router outbounds (replay env router outbounds pre) x := by
      intro hmem
      obtain ⟨pre, x, post, rfl, hknown, heq⟩ := ih hmem
      exact ⟨pre, x, post ++ [g], by simp, hknown, heq⟩
    rw [replay_concat] at hmem
    by_cases hknown : g.Known
    · rw [dispatch_log_of_known _ _ _ _ _ hknown] at hmem
      rcases List.mem_append.mp hmem with hmem | hnew
      · exact hold hmem
      · exact ⟨frames, g, [], rfl, hknown, List.mem_singleton.mp hnew⟩
    · rw [dispatch_log_of_not_known _ _ _ _ _ hknown] at hmem
      exact hold hmem

/-- The entry of a frame is in the log. -/
theorem entryOf_mem_log (pre : List Frame) {g : Frame} (post : List Frame) (hknown : g.Known) :
    entryOf env router outbounds (replay env router outbounds pre) g ∈
      (replay env router outbounds (pre ++ g :: post)).log := by
  have hprefix := log_prefix_replay env router outbounds (pre ++ [g]) post
  rw [List.append_assoc] at hprefix
  refine hprefix.subset ?_
  rw [replay_concat, dispatch_log_of_known _ _ _ _ _ hknown]
  exact List.mem_append_right _ (List.mem_singleton_self _)

variable {env router outbounds} in
/-- The entry of a frame stands where the frame does. -/
theorem log_length_replay (h : ∀ f ∈ frames, f.Known) :
    (replay env router outbounds frames).log.length = frames.length := by
  induction frames using List.reverseRecOn with
  | nil => rfl
  | append_singleton frames f ih =>
    rw [replay_concat, dispatch_log_of_known _ _ _ _ _ (h f (by simp)), List.length_append,
      List.length_append, ih fun g hg => h g (List.mem_append_left _ hg)]
    rfl

theorem getElem_log_replay {pre post : List Frame} {f : Frame}
    (h : ∀ g ∈ pre ++ f :: post, g.Known) :
    (replay env router outbounds (pre ++ f :: post)).log[pre.length]? =
      some (entryOf env router outbounds (replay env router outbounds pre) f) := by
  obtain ⟨more, hmore⟩ := log_prefix_replay env router outbounds (pre ++ [f]) post
  have hlen : (replay env router outbounds pre).log.length = pre.length :=
    log_length_replay fun g hg => h g (List.mem_append_left _ hg)
  rw [List.append_assoc, List.singleton_append, replay_concat,
    dispatch_log_of_known _ _ _ _ _ (h f (by simp)), List.append_assoc] at hmore
  rw [← hmore, ← hlen, List.getElem?_append_right (Nat.le_refl _), Nat.sub_self]
  rfl

/-- **A run is a replay of the frames it has handled.** -/
theorem run_eq_replay {visionUuid : Option Vision.Uuid} {leftover : List UInt8}
    {events : List Event} {s : Relay}
    (hrun : run (step env router outbounds)
      (start env router outbounds visionUuid leftover) events = some s) :
    s.sessions = (replay env router outbounds (s.log.map Handled.frame)).sessions ∧
      s.log = (replay env router outbounds (s.log.map Handled.frame)).log := by
  refine run_induct (fun sessions log =>
    sessions = (replay env router outbounds (log.map Handled.frame)).sessions ∧
      log = (replay env router outbounds (log.map Handled.frame)).log) ⟨rfl, rfl⟩ ?_ hrun
  rintro s f - ⟨hsessions, hlog⟩
  by_cases hknown : f.Known
  · have hframes : (dispatch env router outbounds s f).log.map Handled.frame =
        s.log.map Handled.frame ++ [f] := by
      rw [dispatch_log_of_known env router outbounds s f hknown, List.map_append]
      rfl
    rw [hframes, replay_concat]
    exact dispatch_congr env router outbounds f hsessions hlog
  · rcases dispatch_cases env router outbounds s f with ⟨h, -⟩ | ⟨h, -⟩ | ⟨h, -⟩ | ⟨-, heq⟩
    · exact absurd (Or.inl h) hknown
    · exact absurd (Or.inr (Or.inl h)) hknown
    · exact absurd (Or.inr (Or.inr h)) hknown
    · rw [heq]
      exact ⟨hsessions, hlog⟩

end Replay

/-! ## Cascade sessions -/

/-- The frame sends a datagram to a target it states. -/
def Frame.Sends (f : Frame) (t : Addr) : Prop := f.Served ∧ f.data ≠ none ∧ f.target = some t

/-- Every cascade session of `sess` is one of `sess'`. -/
def UdpSession.Keeps (sess sess' : UdpSession) : Prop :=
  ∀ addr link, sess.chain.lookup addr = some link → sess'.chain.lookup addr = some link

section Links

variable (env : MuxEnv) (router : Router) (outbounds : Outbounds) (n : ℕ) (sess : UdpSession)

/-- **What a datagram for a chained target does**: its target has no label, its label has a
session, or one is dialled for it, with or without success. -/
theorem sendChained_cases (chain : ChainOutbound) (t : Addr) (data : List UInt8) :
    ((resolve env n t).1 = none ∧
      sendChained env n sess chain t data = (sess, (resolve env n t).2)) ∨
    (∃ addr link, (resolve env n t).1 = some addr ∧ sess.chain.lookup addr = some link ∧
      sendChained env n sess chain t data =
        (sess, (resolve env n t).2 ++ hand env n (.cascade link.endpoint) data)) ∨
    (∃ addr, (resolve env n t).1 = some addr ∧ sess.chain.lookup addr = none ∧
      env.dialUdp n chain (endpointOf t) = true ∧
      sendChained env n sess chain t data =
        ({ sess with chain := sess.chain.insert addr ⟨chain, endpointOf t⟩ },
          (resolve env n t).2 ++ [.dial chain (endpointOf t)] ++
            hand env n (.cascade (endpointOf t)) data)) ∨
    (∃ addr, (resolve env n t).1 = some addr ∧ sess.chain.lookup addr = none ∧
      env.dialUdp n chain (endpointOf t) = false ∧
      sendChained env n sess chain t data =
        (sess, (resolve env n t).2 ++ [.dial chain (endpointOf t)])) := by
  unfold sendChained
  rcases resolve env n t with ⟨_ | addr, looked⟩
  · exact Or.inl ⟨rfl, rfl⟩
  · cases hlink : sess.chain.lookup addr with
    | some link => exact Or.inr (Or.inl ⟨addr, link, rfl, hlink, by simp only [hlink]⟩)
    | none =>
      cases hdial : env.dialUdp n chain (endpointOf t) with
      | true =>
        refine Or.inr (Or.inr (Or.inl ⟨addr, rfl, hlink, rfl, ?_⟩))
        simp only [hlink, if_true]
      | false =>
        refine Or.inr (Or.inr (Or.inr ⟨addr, rfl, hlink, rfl, ?_⟩))
        simp only [hlink, Bool.false_eq_true, if_false]

theorem sendLocal_chain (t : Addr) (data : List UInt8) :
    (sendLocal env n sess t data).1.chain = sess.chain := by
  unfold sendLocal
  rcases resolve env n t with ⟨_ | addr, looked⟩
  · rfl
  · cases sess.direct with
    | some d => rfl
    | none =>
      simp only
      split <;> rfl

variable {router outbounds} in
/-- A served frame for a chained target. -/
theorem serve_of_chained {f : Frame} {t : Addr} {data : List UInt8} {chain : ChainOutbound}
    (htarget : f.target = some t) (hdata : f.data = some data)
    (hchain : outbounds.get (router.route (endpointOf t)) = some chain) :
    serve env router outbounds n sess f = sendChained env n sess chain t data := by
  unfold serve sendDatagram
  rw [hdata]
  simp only [htarget, hchain]

/-- **What serving a frame is**: nothing without data, else one of the three ways of a
datagram. -/
theorem serve_cases (f : Frame) :
    (f.data = none ∧ serve env router outbounds n sess f = (sess, [])) ∨
    (∃ data, f.data = some data ∧ f.target = none ∧
      serve env router outbounds n sess f = (sess, sendUntargeted env n sess data)) ∨
    (∃ data t, f.data = some data ∧ f.target = some t ∧
      outbounds.get (router.route (endpointOf t)) = none ∧
      serve env router outbounds n sess f = sendLocal env n sess t data) ∨
    (∃ data t chain, f.data = some data ∧ f.target = some t ∧
      outbounds.get (router.route (endpointOf t)) = some chain ∧
      serve env router outbounds n sess f = sendChained env n sess chain t data) := by
  cases hdata : f.data with
  | none =>
    refine Or.inl ⟨rfl, ?_⟩
    rw [serve, hdata]
  | some data =>
    cases htarget : f.target with
    | none =>
      refine Or.inr (Or.inl ⟨data, rfl, rfl, ?_⟩)
      rw [serve, hdata, htarget]
      rfl
    | some t =>
      cases hchain : outbounds.get (router.route (endpointOf t)) with
      | none =>
        refine Or.inr (Or.inr (Or.inl ⟨data, t, rfl, rfl, hchain, ?_⟩))
        unfold serve sendDatagram
        simp only [hdata, htarget, hchain]
      | some chain =>
        exact Or.inr (Or.inr (Or.inr ⟨data, t, chain, rfl, rfl, hchain,
          serve_of_chained env n sess htarget hdata hchain⟩))

/-- **What serving a frame does to the cascade sessions**: nothing, or one is filed under an
address that had none, dialled for the endpoint the frame states. -/
theorem serve_chain_cases (f : Frame) :
    (serve env router outbounds n sess f).1.chain = sess.chain ∨
    ∃ t addr chain, f.target = some t ∧ f.data ≠ none ∧
      outbounds.get (router.route (endpointOf t)) = some chain ∧
      (resolve env n t).1 = some addr ∧ sess.chain.lookup addr = none ∧
      env.dialUdp n chain (endpointOf t) = true ∧
      Action.dial chain (endpointOf t) ∈ (serve env router outbounds n sess f).2 ∧
      (serve env router outbounds n sess f).1.chain =
        sess.chain.insert addr ⟨chain, endpointOf t⟩ := by
  rcases serve_cases env router outbounds n sess f with
    ⟨-, hserve⟩ | ⟨data, -, -, hserve⟩ | ⟨data, t, -, -, -, hserve⟩ |
    ⟨data, t, chain, hdata, htarget, hchain, hserve⟩
  · exact Or.inl (by rw [hserve])
  · exact Or.inl (by rw [hserve])
  · rw [hserve]
    exact Or.inl (sendLocal_chain env n sess t data)
  · rw [hserve]
    rcases sendChained_cases env n sess chain t data with
      ⟨-, heq⟩ | ⟨addr, link, -, -, heq⟩ | ⟨addr, haddr, hnone, hdial, heq⟩ | ⟨addr, -, -, -, heq⟩
    · exact Or.inl (by rw [heq])
    · exact Or.inl (by rw [heq])
    · have hsome : f.data ≠ none := by
        rw [hdata]
        exact Option.some_ne_none data
      refine Or.inr ⟨t, addr, chain, htarget, hsome, hchain, haddr, hnone, hdial, ?_, ?_⟩
      · rw [heq]
        simp
      · rw [heq]
    · exact Or.inl (by rw [heq])

/-- Serving a frame keeps the cascade sessions there are. -/
theorem serve_keeps (f : Frame) : sess.Keeps (serve env router outbounds n sess f).1 := by
  intro addr link hlink
  rcases serve_chain_cases env router outbounds n sess f with
    heq | ⟨t, a, chain, -, -, -, -, hnone, -, -, heq⟩
  · rwa [heq]
  · have hne : addr ≠ a := by
      rintro rfl
      rw [hlink] at hnone
      cases hnone
    rwa [heq, AList.lookup_insert_ne hne]

end Links

section Sessions

variable (env : MuxEnv) (router : Router) (outbounds : Outbounds) (s : Relay) (f : Frame)

/-- The sub-session of a served frame. -/
theorem session_dispatch_of_served (h : f.Served) :
    (dispatch env router outbounds s f).session f.sid =
      (serve env router outbounds s.log.length (s.session f.sid) f).1 := by
  rcases dispatch_cases env router outbounds s f with ⟨-, heq⟩ | ⟨hend, -⟩ | ⟨hkeep, -⟩ | ⟨hn, -⟩
  · rw [heq, Relay.session, AList.lookup_insert, Option.getD_some]
  · rcases h with h | h <;> rw [h] at hend <;> exact absurd hend (by decide)
  · rcases h with h | h <;> rw [h] at hkeep <;> exact absurd hkeep (by decide)
  · exact absurd (Or.inl h) hn

variable {sid : UInt16}

/-- Another sub-session does not see the frame. -/
theorem session_dispatch_of_ne (h : sid ≠ f.sid) :
    (dispatch env router outbounds s f).session sid = s.session sid := by
  rcases dispatch_cases env router outbounds s f with ⟨-, heq⟩ | ⟨-, heq⟩ | ⟨-, heq⟩ | ⟨-, heq⟩
  · rw [heq, Relay.session, AList.lookup_insert_ne h]
    rfl
  · rw [heq, Relay.session, AList.lookup_erase_ne h]
    rfl
  · rw [heq]
    rfl
  · rw [heq]
    rfl

/-- After an `End` frame its sub-session has nothing. -/
theorem session_dispatch_of_end (h : f.status = statusEnd) :
    (dispatch env router outbounds s f).session f.sid = .default := by
  rcases dispatch_cases env router outbounds s f with ⟨hs, -⟩ | ⟨-, heq⟩ | ⟨hkeep, -⟩ | ⟨hn, -⟩
  · rcases hs with hs | hs <;> rw [hs] at h <;> exact absurd h (by decide)
  · rw [heq, Relay.session, AList.lookup_erase, Option.getD_none]
  · rw [hkeep] at h
    exact absurd h (by decide)
  · exact absurd (Or.inr (Or.inl h)) hn

/-- **What is found in a sub-session after a frame**: it is as before, it was ended, or it
has served the frame. -/
theorem session_dispatch_cases (sid : UInt16) :
    ((f.status = statusEnd → f.sid ≠ sid) ∧
      (dispatch env router outbounds s f).session sid = s.session sid) ∨
    (f.sid = sid ∧ f.status = statusEnd ∧
      (dispatch env router outbounds s f).session sid = .default) ∨
    (f.sid = sid ∧ f.Served ∧ (dispatch env router outbounds s f).session sid =
      (serve env router outbounds s.log.length (s.session sid) f).1) := by
  by_cases hsid : sid = f.sid
  · subst hsid
    by_cases hserved : f.Served
    · have hsession := session_dispatch_of_served env router outbounds s f hserved
      exact Or.inr (Or.inr ⟨rfl, hserved, hsession⟩)
    · by_cases hend : f.status = statusEnd
      · exact Or.inr (Or.inl ⟨rfl, hend, session_dispatch_of_end env router outbounds s f hend⟩)
      · refine Or.inl ⟨fun h => absurd h hend, ?_⟩
        rcases dispatch_cases env router outbounds s f with
          ⟨h, -⟩ | ⟨h, -⟩ | ⟨-, heq⟩ | ⟨-, heq⟩
        · exact absurd h hserved
        · exact absurd h hend
        · rw [heq]
          rfl
        · rw [heq]
          rfl
  · exact Or.inl ⟨fun _ => Ne.symm hsid, session_dispatch_of_ne env router outbounds s f hsid⟩

variable {P : UdpSession → Prop}

section Persists

variable (hserve : ∀ n sess f, P sess → P (serve env router outbounds n sess f).1)

include hserve

/-- What every served frame leaves a sub-session, only an `End` frame takes from it. -/
theorem persists_dispatch (h : f.status = statusEnd → f.sid ≠ sid) (hP : P (s.session sid)) :
    P ((dispatch env router outbounds s f).session sid) := by
  rcases session_dispatch_cases env router outbounds s f sid with
    ⟨-, heq⟩ | ⟨hsid, hend, -⟩ | ⟨-, -, heq⟩
  · rwa [heq]
  · exact absurd hsid (h hend)
  · rw [heq]
    exact hserve _ _ f hP

theorem persists_replay (frames more : List Frame)
    (h : ∀ f ∈ more, f.status = statusEnd → f.sid ≠ sid)
    (hP : P ((replay env router outbounds frames).session sid)) :
    P ((replay env router outbounds (frames ++ more)).session sid) := by
  induction more using List.reverseRecOn with
  | nil => rwa [List.append_nil]
  | append_singleton more f ih =>
    rw [← List.append_assoc, replay_concat]
    refine persists_dispatch env router outbounds _ f hserve (h f (by simp)) ?_
    exact ih fun g hg => h g (List.mem_append_left _ hg)

end Persists

/-- **A cascade session stays filed** until its sub-session is ended. -/
theorem keeps_dispatch (h : f.status = statusEnd → f.sid ≠ sid) :
    (s.session sid).Keeps ((dispatch env router outbounds s f).session sid) :=
  fun addr link hlink => persists_dispatch env router outbounds s f
    (P := fun sess => sess.chain.lookup addr = some link)
    (fun n sess g => serve_keeps env router outbounds n sess g addr link) h hlink

theorem keeps_replay (frames more : List Frame)
    (h : ∀ f ∈ more, f.status = statusEnd → f.sid ≠ sid) :
    ((replay env router outbounds frames).session sid).Keeps
      ((replay env router outbounds (frames ++ more)).session sid) :=
  fun addr link hlink => persists_replay env router outbounds
    (P := fun sess => sess.chain.lookup addr = some link)
    (fun n sess g => serve_keeps env router outbounds n sess g addr link) frames more h hlink

variable {frames : List Frame}

variable {env router outbounds} in
/-- **Whatever a sub-session has, some frame of its life has brought.** -/
theorem exists_turn (hdefault : ¬P .default)
    (h : P ((replay env router outbounds frames).session sid)) :
    ∃ (pre : List Frame) (f : Frame) (mid : List Frame),
      frames = pre ++ f :: mid ∧ f.sid = sid ∧ f.Served ∧
      (∀ x ∈ mid, x.status = statusEnd → x.sid ≠ sid) ∧
      ¬P ((replay env router outbounds pre).session sid) ∧
      P (serve env router outbounds (replay env router outbounds pre).log.length
        ((replay env router outbounds pre).session sid) f).1 := by
  induction frames using List.reverseRecOn with
  | nil => exact absurd h hdefault
  | append_singleton frames g ih =>
    -- had it before: the frame that brought it is one more away from the end
    have hold : (g.status = statusEnd → g.sid ≠ sid) →
        P ((replay env router outbounds frames).session sid) →
        ∃ (pre : List Frame) (f : Frame) (mid : List Frame),
          frames ++ [g] = pre ++ f :: mid ∧ f.sid = sid ∧ f.Served ∧
          (∀ x ∈ mid, x.status = statusEnd → x.sid ≠ sid) ∧
          ¬P ((replay env router outbounds pre).session sid) ∧
          P (serve env router outbounds (replay env router outbounds pre).log.length
            ((replay env router outbounds pre).session sid) f).1 := by
      intro hg hP
      obtain ⟨pre, f, mid, rfl, hsid, hserved, hmid, hrest⟩ := ih hP
      refine ⟨pre, f, mid ++ [g], by simp, hsid, hserved, ?_, hrest⟩
      intro x hx
      rcases List.mem_append.mp hx with hx | hx
      · exact hmid x hx
      · rw [List.mem_singleton.mp hx]
        exact hg
    rw [replay_concat] at h
    rcases session_dispatch_cases env router outbounds _ g sid with
      ⟨hg, heq⟩ | ⟨-, -, heq⟩ | ⟨hsid, hserved, heq⟩
    · rw [heq] at h
      exact hold hg h
    · rw [heq] at h
      exact absurd h hdefault
    · by_cases hbefore : P ((replay env router outbounds frames).session sid)
      · refine hold (fun hend => ?_) hbefore
        rcases hserved with hs | hs <;> rw [hs] at hend <;> exact absurd hend (by decide)
      · rw [heq] at h
        exact ⟨frames, g, [], rfl, hsid, hserved, by simp, hbefore, h⟩

variable {env router outbounds} in
/-- **Where a cascade session comes from**: an earlier frame of its sub-session's life. -/
theorem opener_of_lookup {addr : SocketAddr} {link : ChainLink}
    (h : ((replay env router outbounds frames).session sid).chain.lookup addr = some link) :
    ∃ (pre : List Frame) (f : Frame) (mid : List Frame) (t : Addr) (chain : ChainOutbound),
      frames = pre ++ f :: mid ∧ f.sid = sid ∧
      (∀ x ∈ mid, x.status = statusEnd → x.sid ≠ sid) ∧ f.Sends t ∧
      outbounds.get (router.route (endpointOf t)) = some chain ∧
      (resolve env (replay env router outbounds pre).log.length t).1 = some addr ∧
      env.dialUdp (replay env router outbounds pre).log.length chain (endpointOf t) = true ∧
      link = ⟨chain, endpointOf t⟩ := by
  obtain ⟨pre, f, mid, rfl, hsid, hserved, hmid, hbefore, hafter⟩ :=
    exists_turn (P := fun sess => sess.chain.lookup addr = some link) (by simp [UdpSession.default])
      h
  rcases serve_chain_cases env router outbounds _ _ f with
    hsame | ⟨t, a, chain, htarget, hdata, hchain, hres, -, hdial, -, hins⟩
  · exact absurd (hsame ▸ hafter) hbefore
  · rw [hins] at hafter
    rcases lookup_insert_cases hafter with ⟨rfl, rfl⟩ | ⟨-, hother⟩
    · exact ⟨pre, f, mid, t, chain, rfl, hsid, hmid, ⟨hserved, hdata, htarget⟩, hchain, hres,
        hdial, rfl⟩
    · exact absurd hother hbefore

end Sessions

end Mux
end HoldTheDonut
