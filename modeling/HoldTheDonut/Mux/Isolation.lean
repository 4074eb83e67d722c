import HoldTheDonut.Machine.Channel
import HoldTheDonut.Mux.Family
import HoldTheDonut.Mux.Network

/-!
# Responses and the sub-sessions they belong to

Every egress of a sub-session has a task that receives from it.  The tasks of all sub-sessions put
what they receive into one channel, tagged with the sid, and the loop takes it out and writes a
`Keep` frame for that sid.  An `End` frame drops the sub-session, which aborts its tasks.  It does
not touch the channel: what they have put there is delivered under the sid afterwards, to whoever
uses it by then.

The machine below has the loop, the tasks and the channel.  The frames are given and the scheduler
decides when the next one is handled; since frames may be cut into reads in any way, every
interleaving with responses is possible.  An abort takes effect when the runtime gets to it, so a
task may go on for a while: `stop` is an event of its own.

What is not in the code is the position of the frame that opened an egress, which task, response
and delivery carry along.  With it a stale delivery can be told: there is an `End` frame of the sid
behind that position.  For some schedule this happens as soon as the frames end a sub-session that
has stated a target for its data, and otherwise never (`isolated_iff`).
-/

namespace HoldTheDonut
namespace Mux

open Machine Routing Server
open Vision (Uuid)

/-! ## The loop, the tasks and the channel -/

/-- The egress a sub-session has got: its local socket, or a cascade session under a label. -/
inductive Egress where
  | direct
  | chain (label : SocketAddr)
  deriving DecidableEq

/-- What is new in a sub-session. -/
def opened (before after : UdpSession) : Option Egress :=
  if before.direct.isNone ∧ after.direct.isSome then some .direct
  else (after.chain.keys.find? fun addr => (before.chain.lookup addr).isNone).map .chain

/-- A receive task.  `origin` is the position of the frame that opened its egress. -/
structure RecvTask where
  sid : UInt16
  origin : ℕ
  egress : Egress
  /-- What was received and is still to be put into the channel. -/
  hand : List (SocketAddr × List UInt8)

/-- What one receive can bring: a datagram from anywhere, or any number of them from a cascade
session, under its label. -/
def Egress.Brings : Egress → List (SocketAddr × List UInt8) → Prop
  | .direct, items => items.length = 1
  | .chain label, items => ∀ x ∈ items, x.1 = label

instance : (e : Egress) → (items : List (SocketAddr × List UInt8)) → Decidable (e.Brings items)
  | .direct, items => inferInstanceAs (Decidable (items.length = 1))
  | .chain label, items => inferInstanceAs (Decidable (∀ x ∈ items, x.1 = label))

/-- A response as it waits in the channel. -/
structure Queued where
  sid : UInt16
  src : SocketAddr
  data : List UInt8
  origin : ℕ
  deriving DecidableEq

/-- A response that was written to the client, and how many frames had been handled by then. -/
structure Delivery where
  response : Queued
  handled : ℕ
  deriving DecidableEq

/-- The places of the response channel. -/
def respCapacity : ℕ := 512

structure Muxer where
  relay : Relay
  todo : List Frame
  tasks : List RecvTask
  chan : Channel Queued respCapacity
  delivered : List Delivery

inductive MuxEvent where
  /-- The loop handles the next frame. -/
  | frame
  | receive (task : ℕ) (items : List (SocketAddr × List UInt8))
  /-- A task puts the next of what it has received into the channel. -/
  | send (task : ℕ)
  /-- A task ends: an abort has taken effect, or its egress has failed. -/
  | stop (task : ℕ)
  /-- The loop takes a response and writes it. -/
  | respond (draw : ℕ → ℕ) (ok : Bool)
  /-- The loop is left: the end of the tunnel, the timeout or an error of a read. -/
  | leave (result : Except RelayError Unit)

section Machine

variable (env : MuxEnv) (router : Router) (outbounds : Outbounds)

/-- The task spawned for a frame, if its egress is new. -/
def spawned (s : Relay) (f : Frame) : List RecvTask :=
  if f.Served then
    match opened (s.session f.sid) (serve env router outbounds s.log.length (s.session f.sid) f).1
      with
    | some e => [⟨f.sid, s.log.length, e, []⟩]
    | none => []
  else []

/-- A task puts the first of its datagrams into the channel, if there is a place. -/
def RecvTask.put (task : RecvTask) (c : Channel Queued respCapacity) :
    Option (RecvTask × Channel Queued respCapacity) :=
  match task.hand with
  | [] => none
  | x :: rest =>
    (c.trySend ⟨task.sid, x.1, x.2, task.origin⟩).map fun d => ({ task with hand := rest }, d)

/-- The loop takes a response; the first one is padded. -/
def Muxer.deliver (s : Muxer) (r : Queued) (c : Channel Queued respCapacity) (draw : ℕ → ℕ)
    (ok : Bool) : Muxer :=
  if ok then
    { s with
      relay := s.relay.respond (keepFrame r.sid r.src r.data) draw
      chan := c
      delivered := s.delivered ++ [⟨r, s.relay.log.length⟩] }
  else
    { s with
      relay := { s.relay with downlinkPad := none, ended := some (.error .io) }
      chan := c }

/-- One event. -/
def muxStep (s : Muxer) : MuxEvent → Option Muxer
  | .frame =>
    match s.todo with
    | [] => none
    | f :: todo =>
      if s.relay.ended.isSome then none
      else some { s with
        relay := dispatch env router outbounds s.relay f
        todo := todo
        tasks := s.tasks ++ spawned env router outbounds s.relay f }
  | .receive i items =>
    match s.tasks[i]? with
    | none => none
    | some task =>
      if task.hand = [] ∧ task.egress.Brings items then
        some { s with tasks := s.tasks.set i { task with hand := items } }
      else none
  | .send i =>
    match s.tasks[i]? with
    | none => none
    | some task =>
      match task.put s.chan with
      | none => none
      | some (task', c) => some { s with tasks := s.tasks.set i task', chan := c }
  | .stop i => if i < s.tasks.length then some { s with tasks := s.tasks.eraseIdx i } else none
  | .respond draw ok =>
    if s.relay.ended.isSome then none
    else
      match s.chan.recv with
      | none => none
      | some (r, c) => some (s.deliver r c draw ok)
  | .leave result =>
    if s.relay.ended.isSome then none
    else some { s with relay := { s.relay with ended := some result } }

end Machine

/-- Before the first frame. -/
def Muxer.init (visionUuid : Option Uuid) (frames : List Frame) : Muxer :=
  ⟨{ idleRelay with downlinkPad := visionUuid }, frames, [], Channel.empty, []⟩

/-- **Sub-session isolation**: what was written for a sid came from an egress that was opened behind
the last `End` frame of the sid. -/
def Muxer.Isolated (s : Muxer) : Prop :=
  ∀ d ∈ s.delivered, ∀ k h, d.response.origin < k → k < d.handled → s.relay.log[k]? = some h →
    h.frame.status = statusEnd → h.frame.sid ≠ d.response.sid

/-- Isolation on every schedule and every network. -/
def AlwaysIsolated (router : Router) (outbounds : Outbounds) (frames : List Frame) : Prop :=
  ∀ env : MuxEnv, env.Usual → ∀ visionUuid events s,
    run (muxStep env router outbounds) (Muxer.init visionUuid frames) events = some s → s.Isolated

/-- Some sub-session is ended after it has stated a target for its data. -/
def EndsAfterData (frames : List Frame) : Prop :=
  ∃ (i j : ℕ) (f e : Frame) (t : Addr), i < j ∧ frames[i]? = some f ∧ frames[j]? = some e ∧
    f.Sends t ∧ e.status = statusEnd ∧ e.sid = f.sid

/-! ## What an event does -/

section Steps

variable {env : MuxEnv} {router : Router} {outbounds : Outbounds} {s s' : Muxer}
  {c : Channel Queued respCapacity}

/-- A task puts the first of what it has received into the channel. -/
theorem RecvTask.of_put {task task' : RecvTask} {c' : Channel Queued respCapacity}
    (h : task.put c = some (task', c')) :
    task'.sid = task.sid ∧ task'.origin = task.origin ∧
      ∃ src data, c'.queue = c.queue ++ [⟨task.sid, src, data, task.origin⟩] := by
  unfold RecvTask.put at h
  split at h
  · cases h
  · next x rest hhand =>
    obtain ⟨d, hd, heq⟩ := Option.map_eq_some_iff.mp h
    cases heq
    rcases c.trySend_cases ⟨task.sid, x.1, x.2, task.origin⟩ with ⟨-, d', hd', hqueue⟩ | ⟨-, hnone⟩
    · obtain rfl : c' = d' := Option.some.inj (hd.symm.trans hd')
      exact ⟨rfl, rfl, x.1, x.2, hqueue⟩
    · rw [hnone] at hd
      cases hd

/-- **What an event does**: a frame is handled, the tasks and the channel change among themselves,
a response is taken, or the loop is left. -/
theorem muxStep_cases {ev : MuxEvent} (h : muxStep env router outbounds s ev = some s') :
    (∃ f todo, s.todo = f :: todo ∧ s.relay.ended = none ∧ s' = { s with
      relay := dispatch env router outbounds s.relay f
      todo := todo
      tasks := s.tasks ++ spawned env router outbounds s.relay f }) ∨
    (∃ tasks, (∀ task ∈ tasks, ∃ old ∈ s.tasks, task.sid = old.sid ∧ task.origin = old.origin) ∧
      s' = { s with tasks := tasks }) ∨
    (∃ task ∈ s.tasks, ∃ task' src data c i, task'.sid = task.sid ∧ task'.origin = task.origin ∧
      c.queue = s.chan.queue ++ [⟨task.sid, src, data, task.origin⟩] ∧
      s' = { s with tasks := s.tasks.set i task', chan := c }) ∨
    (∃ r c draw ok, s.relay.ended = none ∧ s.chan.queue = r :: c.queue ∧
      s' = s.deliver r c draw ok) ∨
    (∃ result, s' = { s with relay := { s.relay with ended := some result } }) := by
  cases ev with
  | frame =>
    rw [muxStep] at h
    split at h
    · cases h
    · next f todo htodo =>
      split at h
      · cases h
      · next hended =>
        cases h
        exact Or.inl ⟨f, todo, htodo, by simpa using hended, rfl⟩
  | receive i items =>
    rw [muxStep] at h
    split at h
    · cases h
    · next task htask =>
      split at h
      · cases h
        refine Or.inr (Or.inl ⟨_, fun t ht => ?_, rfl⟩)
        rcases List.mem_or_eq_of_mem_set ht with hold | rfl
        · exact ⟨t, hold, rfl, rfl⟩
        · exact ⟨task, List.mem_of_getElem? htask, rfl, rfl⟩
      · cases h
  | send i =>
    rw [muxStep] at h
    split at h
    · cases h
    · next task htask =>
      split at h
      · cases h
      · next task' c hput =>
        cases h
        obtain ⟨hsid, horigin, src, data, hqueue⟩ := RecvTask.of_put hput
        exact Or.inr (Or.inr (Or.inl ⟨task, List.mem_of_getElem? htask, task', src, data, c, i,
          hsid, horigin, hqueue, rfl⟩))
  | stop i =>
    rw [muxStep] at h
    split at h
    · cases h
      exact Or.inr (Or.inl ⟨_, fun t ht => ⟨t, List.mem_of_mem_eraseIdx ht, rfl, rfl⟩, rfl⟩)
    · cases h
  | respond draw ok =>
    rw [muxStep] at h
    split at h
    · cases h
    · next hended =>
      split at h
      · cases h
      · next r c hrecv =>
        cases h
        exact Or.inr (Or.inr (Or.inr (Or.inl ⟨r, c, draw, ok, by simpa using hended,
          Channel.queue_of_recv hrecv, rfl⟩)))
  | leave result =>
    rw [muxStep] at h
    split at h
    · cases h
    · cases h
      exact Or.inr (Or.inr (Or.inr (Or.inr ⟨result, rfl⟩)))

/-! ## Where responses come from -/

theorem opened_self (sess : UdpSession) : opened sess sess = none := by
  unfold opened
  rw [if_neg (by cases sess.direct <;> simp), Option.map_eq_none_iff, List.find?_eq_none]
  intro addr haddr
  have hsome := AList.lookup_isSome.mpr (AList.mem_keys.mpr haddr)
  rw [Option.isNone_iff_eq_none]
  exact Option.isSome_iff_ne_none.mp hsome

variable {sess : UdpSession} {f : Frame}

/-- Only a frame that states a target for its data opens an egress. -/
theorem sends_of_opened {n : ℕ} (hserved : f.Served)
    (h : opened sess (serve env router outbounds n sess f).1 ≠ none) : ∃ t, f.Sends t := by
  rcases serve_cases env router outbounds n sess f with
    ⟨-, hserve⟩ | ⟨data, -, -, hserve⟩ | ⟨data, t, hdata, htarget, -⟩ |
    ⟨data, t, chain, hdata, htarget, -⟩
  · rw [hserve] at h
    exact absurd (opened_self sess) h
  · rw [hserve] at h
    exact absurd (opened_self sess) h
  · exact ⟨t, hserved, hdata ▸ Option.some_ne_none data, htarget⟩
  · exact ⟨t, hserved, hdata ▸ Option.some_ne_none data, htarget⟩

/-- The frame at a position of the log states a target for its data, under this sid. -/
def Origin (log : List Handled) (sid : UInt16) (n : ℕ) : Prop :=
  ∃ h t, log[n]? = some h ∧ h.frame.sid = sid ∧ h.frame.Sends t

theorem Origin.mono {log log' : List Handled} {sid : UInt16} {n : ℕ} (h : Origin log sid n)
    (hlog : log <+: log') : Origin log' sid n := by
  obtain ⟨e, t, he, hrest⟩ := h
  obtain ⟨more, rfl⟩ := hlog
  have hlt : n < log.length := (List.getElem?_eq_some_iff.mp he).1
  exact ⟨e, t, (List.getElem?_append_left hlt).trans he, hrest⟩

theorem origin_of_spawned {r : Relay} {task : RecvTask}
    (h : task ∈ spawned env router outbounds r f) :
    Origin (dispatch env router outbounds r f).log task.sid task.origin := by
  unfold spawned at h
  split at h
  · next hserved =>
    split at h
    · next e hopened =>
      obtain rfl := List.mem_singleton.mp h
      obtain ⟨t, hsends⟩ := sends_of_opened (f := f) hserved (by rw [hopened]; simp)
      refine ⟨entryOf env router outbounds r f, t, ?_, rfl, hsends⟩
      rw [dispatch_log_of_known _ _ _ _ _ hserved.known,
        List.getElem?_append_right (Nat.le_refl _), Nat.sub_self]
      rfl
    · cases h
  · cases h

/-- What holds in every state: the frames handled are the first of those given, and everything
received comes from an egress that a frame of its sid has opened. -/
structure Muxer.Inv (frames : List Frame) (s : Muxer) : Prop where
  known : ∀ h ∈ s.relay.log, h.frame.Known
  handled : s.relay.log.map Handled.frame <+: frames
  rest : s.relay.ended = none → frames = s.relay.log.map Handled.frame ++ s.todo
  tasks : ∀ task ∈ s.tasks, Origin s.relay.log task.sid task.origin
  queue : ∀ r ∈ s.chan.queue, Origin s.relay.log r.sid r.origin
  delivered : ∀ d ∈ s.delivered, Origin s.relay.log d.response.sid d.response.origin

variable {frames : List Frame}

theorem Muxer.Inv.frame (hs : s.Inv frames) {todo : List Frame} (htodo : s.todo = f :: todo)
    (hended : s.relay.ended = none) :
    Muxer.Inv frames { s with
      relay := dispatch env router outbounds s.relay f
      todo := todo
      tasks := s.tasks ++ spawned env router outbounds s.relay f } := by
  have hgrows := log_prefix_dispatch env router outbounds s.relay f
  have htasks : ∀ task ∈ s.tasks ++ spawned env router outbounds s.relay f,
      Origin (dispatch env router outbounds s.relay f).log task.sid task.origin := by
    intro task hmem
    rcases List.mem_append.mp hmem with hold | hnew
    · exact (hs.tasks task hold).mono hgrows
    · exact origin_of_spawned hnew
  have hframes := hs.rest hended
  rw [htodo] at hframes
  by_cases hknown : f.Known
  · have hlog := dispatch_log_of_known env router outbounds s.relay f hknown
    have hdone : frames = (dispatch env router outbounds s.relay f).log.map Handled.frame ++
        todo := by
      rw [hframes, hlog, List.map_append, List.append_assoc]
      rfl
    refine ⟨?_, ⟨todo, hdone.symm⟩, fun _ => hdone, htasks,
      fun r hr => (hs.queue r hr).mono hgrows, fun d hd => (hs.delivered d hd).mono hgrows⟩
    intro h hmem
    change h ∈ (dispatch env router outbounds s.relay f).log at hmem
    rw [hlog] at hmem
    rcases List.mem_append.mp hmem with hold | hnew
    · exact hs.known h hold
    · rw [List.mem_singleton.mp hnew]
      exact hknown
  · have hlog := dispatch_log_of_not_known env router outbounds s.relay f hknown
    refine ⟨?_, ?_, fun hrunning => ?_, htasks, fun r hr => (hs.queue r hr).mono hgrows,
      fun d hd => (hs.delivered d hd).mono hgrows⟩
    · intro h hmem
      change h ∈ (dispatch env router outbounds s.relay f).log at hmem
      rw [hlog] at hmem
      exact hs.known h hmem
    · show (dispatch env router outbounds s.relay f).log.map Handled.frame <+: frames
      rw [hlog]
      exact hs.handled
    · rcases dispatch_cases env router outbounds s.relay f with ⟨h, -⟩ | ⟨h, -⟩ | ⟨h, -⟩ | ⟨-, heq⟩
      · exact absurd (Or.inl h) hknown
      · exact absurd (Or.inr (Or.inl h)) hknown
      · exact absurd (Or.inr (Or.inr h)) hknown
      · rw [heq] at hrunning
        cases hrunning

theorem Muxer.Inv.deliver (hs : s.Inv frames) {r : Queued} (hqueue : s.chan.queue = r :: c.queue)
    (draw : ℕ → ℕ) (ok : Bool) : (s.deliver r c draw ok).Inv frames := by
  have hrest : ∀ x ∈ c.queue, Origin s.relay.log x.sid x.origin :=
    fun x hx => hs.queue x (by rw [hqueue]; exact List.mem_cons_of_mem _ hx)
  unfold Muxer.deliver
  split
  · have hlog := respond_log s.relay (keepFrame r.sid r.src r.data) draw
    have hended := (respond_frame s.relay (keepFrame r.sid r.src r.data) draw).2.2
    refine ⟨?_, ?_, ?_, ?_, ?_, ?_⟩
    · rw [hlog]
      exact hs.known
    · rw [hlog]
      exact hs.handled
    · rw [hlog, hended]
      exact hs.rest
    · rw [hlog]
      exact hs.tasks
    · rw [hlog]
      exact hrest
    · rw [hlog]
      intro d hd
      rcases List.mem_append.mp hd with hold | hnew
      · exact hs.delivered d hold
      · rw [List.mem_singleton.mp hnew]
        exact hs.queue r (by rw [hqueue]; exact List.mem_cons_self)
  · exact ⟨hs.known, hs.handled, (fun h => by cases h), hs.tasks, hrest, hs.delivered⟩

/-- **Every event preserves it.** -/
theorem Muxer.Inv.step (hs : s.Inv frames) {ev : MuxEvent}
    (h : muxStep env router outbounds s ev = some s') : s'.Inv frames := by
  rcases muxStep_cases h with ⟨f, todo, htodo, hended, rfl⟩ | ⟨tasks, htasks, rfl⟩ |
    ⟨task, hmem, task', src, data, c, i, hsid, horigin, hqueue, rfl⟩ |
    ⟨r, c, draw, ok, -, hqueue, rfl⟩ | ⟨result, rfl⟩
  · exact hs.frame htodo hended
  · refine ⟨hs.known, hs.handled, hs.rest, fun task hmem => ?_, hs.queue, hs.delivered⟩
    obtain ⟨old, hold, hsid, horigin⟩ := htasks task hmem
    rw [hsid, horigin]
    exact hs.tasks old hold
  · have horig := hs.tasks task hmem
    refine ⟨hs.known, hs.handled, hs.rest, fun x hx => ?_, fun x hx => ?_, hs.delivered⟩
    · rcases List.mem_or_eq_of_mem_set hx with hold | rfl
      · exact hs.tasks x hold
      · rw [hsid, horigin]
        exact horig
    · change x ∈ c.queue at hx
      rw [hqueue] at hx
      rcases List.mem_append.mp hx with hold | hnew
      · exact hs.queue x hold
      · rw [List.mem_singleton.mp hnew]
        exact horig
  · exact hs.deliver hqueue draw ok
  · exact ⟨hs.known, hs.handled, (fun h => by cases h), hs.tasks, hs.queue, hs.delivered⟩

theorem Muxer.inv_init (visionUuid : Option Uuid) (frames : List Frame) :
    (Muxer.init visionUuid frames).Inv frames where
  known := fun _ h => absurd h List.not_mem_nil
  handled := List.nil_prefix
  rest := fun _ => rfl
  tasks := fun _ h => absurd h List.not_mem_nil
  queue := fun _ h => absurd h List.not_mem_nil
  delivered := fun _ h => absurd h List.not_mem_nil

/-- The frames handled are among those before the first of an unknown kind. -/
theorem Muxer.Inv.getElem_known (hs : s.Inv frames) {k : ℕ} {h : Handled}
    (hk : s.relay.log[k]? = some h) : (frames.takeWhile fun f => f.Known)[k]? = some h.frame := by
  have hknown : ∀ f ∈ s.relay.log.map Handled.frame, decide f.Known = true := by
    intro f hf
    obtain ⟨e, he, rfl⟩ := List.mem_map.mp hf
    exact decide_eq_true (hs.known e he)
  obtain ⟨more, hmore⟩ := hs.handled
  have hlt : k < s.relay.log.length := (List.getElem?_eq_some_iff.mp hk).1
  rw [← hmore, List.takeWhile_append_of_pos hknown,
    List.getElem?_append_left (by rwa [List.length_map]), List.getElem?_map, hk]
  rfl

/-- **Isolation where no sub-session is ended after its data**: an `End` frame behind the origin of
a response would end one. -/
theorem Muxer.Inv.isolated (hs : s.Inv frames)
    (h : ¬EndsAfterData (frames.takeWhile fun f => f.Known)) : s.Isolated := by
  intro d hd k e horigin _ he hend hsid
  obtain ⟨o, t, ho, hosid, hsends⟩ := hs.delivered d hd
  exact h ⟨d.response.origin, k, o.frame, e.frame, t, horigin, hs.getElem_known ho,
    hs.getElem_known he, hsends, hend, hsid.trans hosid.symm⟩

/-! ## A schedule that delivers a stale response -/

/-- Known frames do not end the relay. -/
theorem ended_dispatch_of_known (r : Relay) (h : f.Known) :
    (dispatch env router outbounds r f).ended = r.ended := by
  rcases dispatch_cases env router outbounds r f with ⟨-, heq⟩ | ⟨-, heq⟩ | ⟨-, heq⟩ | ⟨hn, -⟩
  · rw [heq]
  · rw [heq]
  · rw [heq]
  · exact absurd h hn

theorem ended_replay_of_known (h : ∀ f ∈ frames, f.Known) :
    (replay env router outbounds frames).ended = none := by
  induction frames using List.reverseRecOn with
  | nil => rfl
  | append_singleton frames f ih =>
    rw [replay_concat, ended_dispatch_of_known _ (h f (by simp))]
    exact ih fun g hg => h g (List.mem_append_left _ hg)

variable (env router outbounds) in
/-- Some frames have been handled and nothing was delivered yet. -/
def staged (done todo : List Frame) (tasks : List RecvTask)
    (chan : Channel Queued respCapacity) : Muxer :=
  ⟨replay env router outbounds done, todo, tasks, chan, []⟩

variable (env router outbounds) in
theorem muxStep_frame {done : List Frame} (f : Frame) (todo : List Frame)
    (hknown : ∀ g ∈ done, g.Known) (tasks : List RecvTask)
    (chan : Channel Queued respCapacity) :
    muxStep env router outbounds (staged env router outbounds done (f :: todo) tasks chan) .frame =
      some (staged env router outbounds (done ++ [f]) todo
        (tasks ++ spawned env router outbounds (replay env router outbounds done) f) chan) := by
  have hrunning : (replay env router outbounds done).ended = none := ended_replay_of_known hknown
  simp [muxStep, staged, hrunning]

variable (env router outbounds) in
/-- The loop handles frames while nothing else happens. -/
theorem reaches_frames (done more rest : List Frame)
    (hknown : ∀ f ∈ done ++ more, f.Known) (tasks : List RecvTask)
    (chan : Channel Queued respCapacity) :
    ∃ new, Reaches (muxStep env router outbounds)
      (staged env router outbounds done (more ++ rest) tasks chan)
      (staged env router outbounds (done ++ more) rest (tasks ++ new) chan) := by
  induction more generalizing done tasks with
  | nil =>
    refine ⟨[], ?_⟩
    rw [List.append_nil, List.append_nil]
    exact Reaches.refl _
  | cons f more ih =>
    rw [List.append_cons] at hknown ⊢
    have hdone : ∀ g ∈ done, g.Known := fun g hg => hknown g (by simp [hg])
    obtain ⟨new, hreach⟩ := ih (done ++ [f]) hknown
      (tasks ++ spawned env router outbounds (replay env router outbounds done) f)
    refine ⟨spawned env router outbounds (replay env router outbounds done) f ++ new,
      Reaches.head (muxStep_frame env router outbounds f (more ++ rest) hdone tasks chan) ?_⟩
    rw [← List.append_assoc]
    exact hreach

variable (env router outbounds) in
/-- The newest task receives a datagram and puts it into the channel. -/
theorem reaches_queued (done todo : List Frame) (tasks : List RecvTask) (task : RecvTask)
    (hhand : task.hand = []) :
    ∃ src data c, c.queue = [⟨task.sid, src, data, task.origin⟩] ∧
      Reaches (muxStep env router outbounds)
        (staged env router outbounds done todo (tasks ++ [task]) Channel.empty)
        (staged env router outbounds done todo (tasks ++ [task]) c) := by
  obtain ⟨x, hx⟩ : ∃ x, task.egress.Brings [x] := by
    cases task.egress with
    | direct => exact ⟨(sampleAddr, []), rfl⟩
    | chain label => exact ⟨(label, []), by simp [Egress.Brings]⟩
  have hreceive : muxStep env router outbounds
      (staged env router outbounds done todo (tasks ++ [task]) Channel.empty)
      (.receive tasks.length [x]) =
        some (staged env router outbounds done todo (tasks ++ [{ task with hand := [x] }])
          Channel.empty) := by
    simp [muxStep, staged, hhand, hx]
  rcases (Channel.empty : Channel Queued respCapacity).trySend_cases
      ⟨task.sid, x.1, x.2, task.origin⟩ with ⟨-, c, hsent, hqueue⟩ | ⟨hfull, -⟩
  · have hput : RecvTask.put { task with hand := [x] } Channel.empty = some (task, c) := by
      rw [RecvTask.put]
      simp only [hsent, Option.map_some, ← hhand]
    have hsend : muxStep env router outbounds
        (staged env router outbounds done todo (tasks ++ [{ task with hand := [x] }])
          Channel.empty) (.send tasks.length) =
          some (staged env router outbounds done todo (tasks ++ [task]) c) := by
      simp [muxStep, staged, hput]
    exact ⟨x.1, x.2, c, hqueue, Reaches.head hreceive (Reaches.head hsend (Reaches.refl _))⟩
  · exact absurd (by decide) hfull

variable (env router outbounds) in
/-- The loop takes the response in the channel. -/
theorem muxStep_respond {done : List Frame} (todo : List Frame) (tasks : List RecvTask) {r : Queued}
    (hknown : ∀ f ∈ done, f.Known) (hqueue : c.queue = [r]) :
    ∃ s, muxStep env router outbounds (staged env router outbounds done todo tasks c)
        (.respond (fun _ => 0) true) = some s ∧
      s.relay.log = (replay env router outbounds done).log ∧ s.delivered = [⟨r, done.length⟩] := by
  have hrunning : (replay env router outbounds done).ended = none := ended_replay_of_known hknown
  obtain ⟨queue, room⟩ := c
  obtain rfl : queue = [r] := hqueue
  refine ⟨(staged env router outbounds done todo tasks ⟨[r], room⟩).deliver r
    ⟨[], Channel.room_tail room⟩ (fun _ => 0) true, ?_, ?_, ?_⟩
  · simp [muxStep, staged, hrunning, Channel.recv]
  · exact respond_log _ _ _
  · simp [Muxer.deliver, staged, log_length_replay hknown]

/-- A sub-session that has not stated a target has no egress. -/
theorem no_egress_of_first {a : List Frame} {sid : UInt16}
    (hfirst : ∀ f ∈ a, f.sid = sid → ∀ t, ¬f.Sends t) :
    ((replay env router outbounds a).session sid).direct = none ∧
      ∀ addr, ((replay env router outbounds a).session sid).chain.lookup addr = none := by
  constructor
  · by_contra hne
    obtain ⟨d, hd⟩ := Option.ne_none_iff_exists'.mp hne
    obtain ⟨pre, f, mid, t, addr, ha, hsid, -, hlocal, -⟩ := opener_of_direct hd
    exact hfirst f (by rw [ha]; simp) hsid t hlocal.1
  · intro addr
    by_contra hne
    obtain ⟨link, hlink⟩ := Option.ne_none_iff_exists'.mp hne
    obtain ⟨pre, f, mid, t, chain, ha, hsid, -, hsends, -⟩ := opener_of_lookup hlink
    exact hfirst f (by rw [ha]; simp) hsid t hsends

/-- A cascade session under a label that had none is new. -/
theorem opened_insert (hdirect : sess.direct = none) {addr : SocketAddr}
    (hnone : sess.chain.lookup addr = none) (link : ChainLink) :
    ∃ e, opened sess { sess with chain := sess.chain.insert addr link } = some e := by
  have hfound : ((sess.chain.insert addr link).keys.find? fun a =>
      (sess.chain.lookup a).isNone).isSome = true := by
    rw [List.find?_isSome]
    exact ⟨addr, AList.mem_keys.mp ((AList.mem_insert _).mpr (Or.inl rfl)), by rw [hnone]; rfl⟩
  obtain ⟨label, hlabel⟩ := Option.isSome_iff_exists.mp hfound
  refine ⟨.chain label, ?_⟩
  rw [opened, if_neg (by simp [hdirect]), hlabel]
  rfl

/-- Everything works. -/
def workingNet : MuxEnv := dialNet fun _ => true

variable (router outbounds) in
/-- Where the network lets it, a target stated for data opens the first egress of a
sub-session. -/
theorem opened_of_sends (n : ℕ) {x : Frame} {t : Addr} (hsends : x.Sends t)
    (hdirect : sess.direct = none) (hchain : ∀ addr, sess.chain.lookup addr = none) :
    ∃ e, opened sess (serve workingNet router outbounds n sess x).1 = some e := by
  obtain ⟨data, hdata⟩ := Option.ne_none_iff_exists'.mp hsends.2.1
  obtain ⟨addr, hres⟩ : ∃ addr, (resolve workingNet n t).1 = some addr := resolve_dialNet _ n t
  cases hroute : outbounds.get (router.route (endpointOf t)) with
  | none =>
    rw [serve_of_local ⟨hsends, hroute⟩ hdata]
    rcases sendLocal_cases workingNet n sess t data with
      ⟨hnone, -⟩ | ⟨-, d, -, hd, -⟩ | ⟨a, -, -, -, heq⟩ | ⟨a, -, -, hfail, -⟩
    · rw [hres] at hnone
      cases hnone
    · rw [hdirect] at hd
      cases hd
    · refine ⟨.direct, ?_⟩
      rw [heq, opened, if_pos ⟨by rw [hdirect]; rfl, rfl⟩]
    · cases hfail
  | some chain =>
    rw [serve_of_chained _ _ _ hsends.2.2 hdata hroute]
    rcases sendChained_cases workingNet n sess chain t data with
      ⟨hnone, -⟩ | ⟨a, link, -, hlink, -⟩ | ⟨a, -, hfree, -, heq⟩ | ⟨a, -, -, hfail, -⟩
    · rw [hres] at hnone
      cases hnone
    · rw [hchain] at hlink
      cases hlink
    · rw [heq]
      exact opened_insert hdirect hfree _
    · cases hfail

end Steps

/-- The task of the first target a sub-session states. -/
theorem spawned_of_first (router : Router) (outbounds : Outbounds) {a : List Frame} {x : Frame}
    {t : Addr} (hknown : ∀ f ∈ a, f.Known) (hsends : x.Sends t)
    (hfirst : ∀ f ∈ a, f.sid = x.sid → ∀ t, ¬f.Sends t) :
    ∃ e, spawned workingNet router outbounds (replay workingNet router outbounds a) x =
      [⟨x.sid, a.length, e, []⟩] := by
  obtain ⟨hdirect, hchain⟩ := no_egress_of_first hfirst
  have hlen : (replay workingNet router outbounds a).log.length = a.length :=
    log_length_replay hknown
  obtain ⟨e, he⟩ := opened_of_sends router outbounds
    (replay workingNet router outbounds a).log.length hsends hdirect hchain
  refine ⟨e, ?_⟩
  rw [spawned, if_pos hsends.1, he, hlen]

section Stale

variable (router : Router) (outbounds : Outbounds) {a m : List Frame} {x e : Frame} {t : Addr}

/-- **A response outlives its sub-session.**  The first frame that states a target for its data
opens an egress; what its task puts into the channel is delivered after the frames that follow. -/
theorem reaches_stale (m rest : List Frame) (hknown : ∀ f ∈ (a ++ [x]) ++ m, f.Known)
    (hsends : x.Sends t) (hfirst : ∀ f ∈ a, f.sid = x.sid → ∀ t, ¬f.Sends t) :
    ∃ s src data, Reaches (muxStep workingNet router outbounds)
        (Muxer.init none (a ++ x :: (m ++ rest))) s ∧
      s.relay.log = (replay workingNet router outbounds ((a ++ [x]) ++ m)).log ∧
      s.delivered = [⟨⟨x.sid, src, data, a.length⟩, ((a ++ [x]) ++ m).length⟩] := by
  have hbefore : ∀ f ∈ a, f.Known := fun f hf => hknown f (by simp [hf])
  obtain ⟨egress, hspawned⟩ := spawned_of_first router outbounds hbefore hsends hfirst
  obtain ⟨old, hstart⟩ := reaches_frames workingNet router outbounds [] a (x :: (m ++ rest))
    hbefore [] Channel.empty
  have hopen := muxStep_frame workingNet router outbounds x (m ++ rest) hbefore ([] ++ old)
    Channel.empty
  rw [hspawned] at hopen
  obtain ⟨src, data, c, hqueue, hqueued⟩ := reaches_queued workingNet router outbounds (a ++ [x])
    (m ++ rest) ([] ++ old) ⟨x.sid, a.length, egress, []⟩ rfl
  obtain ⟨new, hended⟩ := reaches_frames workingNet router outbounds (a ++ [x]) m rest hknown
    ([] ++ old ++ [⟨x.sid, a.length, egress, []⟩]) c
  obtain ⟨s, hrespond, hlog, hdelivered⟩ := muxStep_respond workingNet router outbounds rest
    ([] ++ old ++ [⟨x.sid, a.length, egress, []⟩] ++ new) hknown hqueue
  refine ⟨s, src, data, ?_, hlog, hdelivered⟩
  have hqueued' := hstart.trans (Reaches.head hopen hqueued)
  exact (hqueued'.trans hended).trans (Reaches.head hrespond (Reaches.refl s))

/-- **A stale response**, where the frames that follow end with `End`. -/
theorem exists_stale (rest : List Frame) (hknown : ∀ f ∈ (a ++ [x]) ++ (m ++ [e]), f.Known)
    (hsends : x.Sends t) (hfirst : ∀ f ∈ a, f.sid = x.sid → ∀ t, ¬f.Sends t)
    (hend : e.status = statusEnd) (hsid : e.sid = x.sid) :
    ∃ events s, run (muxStep workingNet router outbounds)
      (Muxer.init none (a ++ x :: (m ++ [e] ++ rest))) events = some s ∧ ¬s.Isolated := by
  obtain ⟨s, src, data, ⟨events, hrun⟩, hlog, hdelivered⟩ :=
    reaches_stale router outbounds (m ++ [e]) rest hknown hsends hfirst
  refine ⟨events, s, hrun, fun hisolated => ?_⟩
  have hsplit : (a ++ [x]) ++ (m ++ [e]) = (a ++ x :: m) ++ e :: [] := by simp
  have hat : s.relay.log[(a ++ x :: m).length]? =
      some (entryOf workingNet router outbounds
        (replay workingNet router outbounds (a ++ x :: m)) e) := by
    rw [hlog, hsplit]
    exact getElem_log_replay workingNet router outbounds (hsplit ▸ hknown)
  refine hisolated ⟨⟨x.sid, src, data, a.length⟩, ((a ++ [x]) ++ (m ++ [e])).length⟩ ?_ _ _ ?_ ?_
    hat hend hsid
  · rw [hdelivered]
    exact List.mem_singleton_self _
  · simp
  · simp

end Stale

theorem split_of_getElem {α : Type*} {l : List α} {i : ℕ} {x : α} (h : l[i]? = some x) :
    ∃ a b : List α, l = a ++ x :: b ∧ a.length = i := by
  obtain ⟨hlt, hx⟩ := List.getElem?_eq_some_iff.mp h
  refine ⟨l.take i, l.drop (i + 1), ?_, List.length_take_of_le (Nat.le_of_lt hlt)⟩
  rw [← hx, ← List.drop_eq_getElem_cons hlt, List.take_append_drop]

/-- Frames that end a sub-session after its data, cut at its first data and at the `End` frame. -/
theorem EndsAfterData.cut {ks : List Frame} (h : EndsAfterData ks) :
    ∃ (a : List Frame) (x : Frame) (m : List Frame) (e : Frame) (post : List Frame) (t : Addr),
      ks = a ++ x :: (m ++ e :: post) ∧ x.Sends t ∧
      (∀ f ∈ a, f.sid = x.sid → ∀ t, ¬f.Sends t) ∧ e.status = statusEnd ∧ e.sid = x.sid := by
  classical
  obtain ⟨i, j, f, e, t, hij, hf, he, hsends, hend, hsid⟩ := h
  -- the first frame of the sub-session that states a target for its data
  have hex : ∃ (n : ℕ) (g : Frame) (u : Addr), ks[n]? = some g ∧ g.sid = f.sid ∧ g.Sends u :=
    ⟨i, f, t, hf, rfl, hsends⟩
  obtain ⟨x, u, hx, hxsid, hxsends⟩ := Nat.find_spec hex
  have hle : Nat.find hex ≤ i := Nat.find_min' hex ⟨f, t, hf, rfl, hsends⟩
  obtain ⟨a, b, rfl, hlen⟩ := split_of_getElem hx
  have hlater : b[j - (a.length + 1)]? = some e := by
    rw [List.getElem?_append_right (by omega),
      show j - a.length = (j - (a.length + 1)) + 1 by omega, List.getElem?_cons_succ] at he
    exact he
  obtain ⟨m, post, rfl, -⟩ := split_of_getElem hlater
  refine ⟨a, x, m, e, post, u, rfl, hxsends, fun g hg hgsid v hv => ?_, hend,
    hsid.trans hxsid.symm⟩
  obtain ⟨n, hn, hgn⟩ := List.getElem_of_mem hg
  refine Nat.find_min hex (m := n) (by omega) ⟨g, v, ?_, hgsid.trans hxsid, hv⟩
  rw [List.getElem?_append_left hn, List.getElem?_eq_getElem hn, hgn]

/-- **When sub-sessions are isolated.**  For every list of frames, routing table and outbounds: on
every schedule and every network, each response is delivered to the sub-session it was received
for, exactly if no sub-session is ended after it has stated a target for its data. -/
theorem isolated_iff (router : Router) (outbounds : Outbounds) (frames : List Frame) :
    AlwaysIsolated router outbounds frames ↔
      ¬EndsAfterData (frames.takeWhile fun f => f.Known) := by
  constructor
  · intro h hends
    obtain ⟨a, x, m, e, post, t, hks, hsends, hfirst, hend, hsid⟩ := hends.cut
    have hall : ∀ f ∈ frames.takeWhile fun f => f.Known, f.Known := by
      intro f hf
      simpa using List.mem_takeWhile_imp hf
    rw [hks] at hall
    have hknown : ∀ f ∈ (a ++ [x]) ++ (m ++ [e]), f.Known := by
      intro f hf
      refine hall f ?_
      simp only [List.mem_append, List.mem_cons, List.not_mem_nil, or_false] at hf ⊢
      tauto
    obtain ⟨events, s, hrun, hstale⟩ := exists_stale router outbounds
      (post ++ frames.dropWhile fun f => f.Known) hknown hsends hfirst hend hsid
    have hframes :
        a ++ x :: (m ++ [e] ++ (post ++ frames.dropWhile fun f => f.Known)) = frames := by
      have hsplit : (frames.takeWhile fun f => f.Known) ++ frames.dropWhile (fun f => f.Known) =
          frames := List.takeWhile_append_dropWhile
      rw [hks] at hsplit
      conv_rhs => rw [← hsplit]
      simp
    rw [hframes] at hrun
    exact hstale (h workingNet (dialNet_usual _) none events s hrun)
  · intro h env _ visionUuid events s hrun
    have hinv := run_inv (fun s ev s' (hs : s.Inv frames) hstep => hs.step hstep) events
      (Muxer.inv_init visionUuid frames) hrun
    exact hinv.isolated h

/-- A second target. -/
def otherAddr : SocketAddr := ⟨.v4 (List.Vector.replicate 4 8), 53⟩

/-- **A reused sid gets the responses of the sub-session before.**  A datagram is received for the
first one and queued, the sid is ended and used again for another target, and the datagram is
delivered under it. -/
theorem stale_response_delivered :
    ∃ s, run (muxStep unconnectedNet chainAll exitOnly)
        (Muxer.init none [addressFrame sampleAddr 1, endFrame, addressFrame otherAddr 2])
        [.frame, .receive 0 [(sampleAddr, [9])], .send 0, .frame, .frame,
          .respond (fun _ => 0) true] = some s ∧
      s.delivered = [⟨⟨7, sampleAddr, [9], 0⟩, 3⟩] ∧
      s.relay.written = [keepFrame 7 sampleAddr [9]] ∧
      (s.relay.log.map fun h => (h.frame.sid, h.frame.status)) =
        [(7, statusNew), (7, statusEnd), (7, statusNew)] ∧ ¬s.Isolated := by
  refine ⟨_, rfl, rfl, rfl, rfl, fun h => ?_⟩
  exact h ⟨⟨7, sampleAddr, [9], 0⟩, 3⟩ (List.mem_singleton_self _) 1 _ (by decide) (by decide) rfl
    rfl rfl

end Mux
end HoldTheDonut
