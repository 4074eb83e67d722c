import HoldTheDonut.Core.Address
import HoldTheDonut.Machine.Handoff
import HoldTheDonut.Machine.Keyed
import HoldTheDonut.Machine.Run
import Mathlib.Data.List.AList

/-!
# `donut-carrier/src/server/packet_up.rs`: sequenced uploads

The uplink of a session arrives as many short POSTs, each with a sequence number.  The
dispatcher keeps the bodies that are early and releases those whose turn has come to the
session's stream, in order.  One long GET is the downlink.

A handler for a POST takes the lock, stores its body, collects what can be released and
takes the session's writer out of the table, leaving one end of a closed pipe in its
place.  It then writes with the lock released, takes the lock again and puts the writer
back.  Requests are handled concurrently: a run of the machine below is an interleaving
of the steps of the handlers of `reqs`, and of each handler's writes one chunk at a
time.  The user side of every session is alive throughout, so that a write to the
session's own pipe succeeds; a write to the closed pipe fails, unless there is nothing
to write.

Every session is an instance of `Machine.Handoff`: `view` is the session seen as a slot
with workers, and every step of the dispatcher is a step of that machine, or none at all
(`view_step`).  The bodies are released in sequence whatever happens to the writer
(`InSequence`).  What arrives at the user side is therefore decided by the takings alone.
-/

namespace HoldTheDonut
namespace Carrier

open Machine

/-- A session id: sixteen bytes. -/
abbrev SessionId : Type := Octets 16

/-- The two limits of the server's configuration that the uplink reads. -/
structure ServerConfig where
  maxPostBytes : ℕ
  maxBufferedPosts : ℕ

inductive CarrierError where
  /-- Reading the body failed. -/
  | body
  | uploadChunkTooLarge
  deriving DecidableEq

inductive Status where
  | ok
  | tooManyRequests
  | conflict
  deriving DecidableEq

/-- What is announced on the accept channel. -/
structure Session where
  sessionId : SessionId
  remote : SocketAddr
  deriving DecidableEq

/-- Writers: the write half of the session's own pipe, or of a pipe nobody reads. -/
inductive Writer where
  | bridge
  | placeholder
  deriving DecidableEq

structure SessionState where
  buffered : AList fun _ : ℕ => List UInt8
  nextSeq : ℕ
  uploadWr : Writer
  /-- Is the read half still here, for a GET to take? -/
  downlinkRd : Bool
  acceptPending : Option Session
  accepted : Bool

def freshState (sid : SessionId) (remote : SocketAddr) : SessionState where
  buffered := ∅
  nextSeq := 0
  uploadWr := .bridge
  downlinkRd := true
  acceptPending := some ⟨sid, remote⟩
  accepted := false

/-! ## The body of a POST -/

/-- A frame of a request body: data, trailers, or a failed read. -/
inductive BodyFrame where
  | data (bytes : List UInt8)
  | trailers
  | failed

/-- `collect_body`, with what has been collected so far. -/
def collectBody (max : ℕ) : List UInt8 → List BodyFrame → Except CarrierError (List UInt8)
  | out, [] => .ok out
  | _, .failed :: _ => .error .body
  | out, .trailers :: frames => collectBody max out frames
  | out, .data d :: frames =>
    if max < out.length + d.length then .error .uploadChunkTooLarge
    else collectBody max (out ++ d) frames

/-- The bytes of a body. -/
def bodyBytes : List BodyFrame → List UInt8
  | [] => []
  | .data d :: frames => d ++ bodyBytes frames
  | _ :: frames => bodyBytes frames

variable {frames : List BodyFrame}

theorem collectBody_eq_ok {max : ℕ} {out body : List UInt8}
    (h : collectBody max out frames = .ok body) : body = out ++ bodyBytes frames := by
  induction frames generalizing out with
  | nil =>
    cases h
    exact (List.append_nil _).symm
  | cons frame frames ih =>
    cases frame with
    | failed => cases h
    | trailers => exact ih h
    | data d =>
      rw [collectBody] at h
      split at h
      · cases h
      · rw [ih h, bodyBytes, List.append_assoc]

/-! ## The sections under the lock -/

/-- The loop that collects the bodies whose turn has come: what is released, what stays
and the next sequence number.  Every turn removes a body, so the number of bodies is
enough fuel. -/
def releaseLoop : ℕ → (AList fun _ : ℕ => List UInt8) → ℕ →
    List (List UInt8) × (AList fun _ : ℕ => List UInt8) × ℕ
  | 0, buffered, next => ([], buffered, next)
  | fuel + 1, buffered, next =>
    match buffered.lookup next with
    | none => ([], buffered, next)
    | some bytes =>
      let r := releaseLoop fuel (buffered.erase next) (next + 1)
      (bytes :: r.1, r.2)

def release (buffered : AList fun _ : ℕ => List UInt8) (next : ℕ) :
    List (List UInt8) × (AList fun _ : ℕ => List UInt8) × ℕ :=
  releaseLoop buffered.keys.length buffered next

/-- Take the pending announcement, as a POST does. -/
def SessionState.takeAccept (e : SessionState) : SessionState × Option Session :=
  if e.accepted = false ∧ e.downlinkRd = false then (e, none)
  else if e.accepted = false then
    ({ e with accepted := true, acceptPending := none }, e.acceptPending)
  else (e, none)

/-- What a POST leaves the lock with. -/
inductive Admission where
  /-- An answer straight away. -/
  | answer (status : Status)
  /-- The new entry, and writes to drive. -/
  | drive (entry : SessionState) (writer : Writer) (chunks : List (List UInt8))
      (accept : Option Session)

/-- The locked section of `handle_uplink`. -/
def SessionState.admit (cfg : ServerConfig) (e : SessionState) (seq : ℕ) (chunk : List UInt8) :
    Admission :=
  if seq < e.nextSeq then .answer .ok
  else if e.nextSeq < seq ∧ cfg.maxBufferedPosts ≤ e.buffered.keys.length then
    .answer .tooManyRequests
  else
    let r := release (e.buffered.insert seq chunk) e.nextSeq
    let a := e.takeAccept
    .drive { a.1 with buffered := r.2.1, nextSeq := r.2.2, uploadWr := .placeholder }
      e.uploadWr r.1 a.2

/-- The locked section of `handle_downlink`: the new entry, whether the read half was
there, and the announcement to send. -/
def SessionState.attachDownlink (e : SessionState) : SessionState × Bool × Option Session :=
  if e.accepted = false then
    ({ e with downlinkRd := false, accepted := true, acceptPending := none },
      e.downlinkRd, e.acceptPending)
  else ({ e with downlinkRd := false }, e.downlinkRd, none)

/-! ## The dispatcher -/

inductive Request where
  | post (sid : SessionId) (seq : ℕ) (frames : List BodyFrame) (remote : SocketAddr)
  | get (sid : SessionId) (remote : SocketAddr)

def Request.sid : Request → SessionId
  | .post sid _ _ _ => sid
  | .get sid _ => sid

/-- Where the handler of a request is. -/
inductive Stage where
  /-- The request is there, the lock has not been taken. -/
  | arrived
  /-- The lock is released and chunks are being written. -/
  | writing (writer : Writer) (chunks : List (List UInt8)) (accept : Option Session)
  /-- The writer has been put back, the announcement is still to be made. -/
  | announcing (accept : Option Session)
  | answered (answer : Except CarrierError Status)

/-- The state of the dispatcher and of its handlers.  `userSide` is everything readable at
the user side of a session so far; `releases` has an entry for each time a handler took a
session's writer: was it the bridge, and the bytes it was taken for. -/
structure State where
  sessions : AList fun _ : SessionId => SessionState
  stage : ℕ → Stage
  userSide : SessionId → List UInt8
  releases : SessionId → List (Bool × List UInt8)
  announced : List Session

def State.start : State := ⟨∅, fun _ => .arrived, fun _ => [], fun _ => [], []⟩

/-- The entry of a session, created by whichever request comes first. -/
def State.entry (s : State) (sid : SessionId) (remote : SocketAddr) : SessionState :=
  (s.sessions.lookup sid).getD (freshState sid remote)

/-- A handler goes on. -/
def State.setStage (s : State) (i : ℕ) (x : Stage) : State :=
  { s with stage := Function.update s.stage i x }

/-- `handle_uplink` up to the release of the lock. -/
def lockPost (cfg : ServerConfig) (s : State) (i : ℕ) (sid : SessionId) (seq : ℕ)
    (frames : List BodyFrame) (remote : SocketAddr) : State :=
  match collectBody cfg.maxPostBytes [] frames with
  | .error e => s.setStage i (.answered (.error e))
  | .ok chunk =>
    let entry := s.entry sid remote
    match entry.admit cfg seq chunk with
    | .answer status =>
      { s with
        sessions := s.sessions.insert sid entry
        stage := Function.update s.stage i (.answered (.ok status)) }
    | .drive entry' writer chunks accept =>
      { s with
        sessions := s.sessions.insert sid entry'
        stage := Function.update s.stage i (.writing writer chunks accept)
        releases := Function.update s.releases sid
          (s.releases sid ++ [(decide (writer = .bridge), chunks.flatten)]) }

/-- `handle_downlink` up to the announcement. -/
def lockGet (s : State) (i : ℕ) (sid : SessionId) (remote : SocketAddr) : State :=
  let r := (s.entry sid remote).attachDownlink
  { s with
    sessions := s.sessions.insert sid r.1
    stage := Function.update s.stage i
      (if r.2.1 then .announcing r.2.2 else .answered (.ok .conflict)) }

/-- One `write_all`; an error ends the loop over the chunks. -/
def writeChunk (s : State) (i : ℕ) (sid : SessionId) (writer : Writer) (chunk : List UInt8)
    (chunks : List (List UInt8)) (accept : Option Session) : State :=
  match writer with
  | .bridge =>
    { s with
      userSide := Function.update s.userSide sid (s.userSide sid ++ chunk)
      stage := Function.update s.stage i (.writing .bridge chunks accept) }
  | .placeholder =>
    s.setStage i (.writing .placeholder (if chunk = [] then chunks else []) accept)

/-- Put the writer back, over what is there. -/
def reattach (s : State) (i : ℕ) (sid : SessionId) (writer : Writer) (accept : Option Session) :
    State :=
  { s with
    sessions :=
      match s.sessions.lookup sid with
      | some entry => s.sessions.insert sid { entry with uploadWr := writer }
      | none => s.sessions
    stage := Function.update s.stage i (.announcing accept) }

/-- The announcement, if the handler has one, and the answer. -/
def announce (s : State) (i : ℕ) (accept : Option Session) : State :=
  { s with
    announced := s.announced ++ accept.toList
    stage := Function.update s.stage i (.answered (.ok .ok)) }

/-- The steps of the handlers. -/
inductive Event where
  | lock (i : ℕ)
  | write (i : ℕ)
  | reattach (i : ℕ)
  | announce (i : ℕ)

/-- Whose step it is. -/
def Event.handler : Event → ℕ
  | .lock i => i
  | .write i => i
  | .reattach i => i
  | .announce i => i

/-- A step of a handler, if it is where that step is next. -/
def step (cfg : ServerConfig) (reqs : List Request) (s : State) : Event → Option State
  | .lock i =>
    match reqs[i]?, s.stage i with
    | some (.post sid seq frames remote), .arrived => some (lockPost cfg s i sid seq frames remote)
    | some (.get sid remote), .arrived => some (lockGet s i sid remote)
    | _, _ => none
  | .write i =>
    match reqs[i]?, s.stage i with
    | some r, .writing writer (chunk :: chunks) accept =>
      some (writeChunk s i r.sid writer chunk chunks accept)
    | _, _ => none
  | .reattach i =>
    match reqs[i]?, s.stage i with
    | some r, .writing writer [] accept => some (reattach s i r.sid writer accept)
    | _, _ => none
  | .announce i =>
    match reqs[i]?, s.stage i with
    | some _, .announcing accept => some (announce s i accept)
    | _, _ => none

variable {reqs : List Request} {cfg : ServerConfig} {s t : State} {e : Event}

/-- What a step can do, one case for each piece of a handler. -/
theorem step_cases (h : step cfg reqs s e = some t) :
    (∃ i sid seq frames remote, e = .lock i ∧ reqs[i]? = some (.post sid seq frames remote) ∧
      s.stage i = .arrived ∧ t = lockPost cfg s i sid seq frames remote) ∨
    (∃ i sid remote, e = .lock i ∧ reqs[i]? = some (.get sid remote) ∧
      s.stage i = .arrived ∧ t = lockGet s i sid remote) ∨
    (∃ i r writer chunk chunks accept, e = .write i ∧ reqs[i]? = some r ∧
      s.stage i = .writing writer (chunk :: chunks) accept ∧
      t = writeChunk s i r.sid writer chunk chunks accept) ∨
    (∃ i r writer accept, e = .reattach i ∧ reqs[i]? = some r ∧
      s.stage i = .writing writer [] accept ∧ t = reattach s i r.sid writer accept) ∨
    (∃ i r accept, e = .announce i ∧ reqs[i]? = some r ∧ s.stage i = .announcing accept ∧
      t = announce s i accept) := by
  cases e with
  | lock i =>
    simp only [step] at h
    split at h
    · next sid seq frames remote hr hst =>
      exact Or.inl ⟨i, sid, seq, frames, remote, rfl, hr, hst, (Option.some.inj h).symm⟩
    · next sid remote hr hst =>
      exact Or.inr (Or.inl ⟨i, sid, remote, rfl, hr, hst, (Option.some.inj h).symm⟩)
    · cases h
  | write i =>
    simp only [step] at h
    split at h
    · next r writer chunk chunks accept hr hst =>
      exact Or.inr (Or.inr (Or.inl
        ⟨i, r, writer, chunk, chunks, accept, rfl, hr, hst, (Option.some.inj h).symm⟩))
    · cases h
  | reattach i =>
    simp only [step] at h
    split at h
    · next r writer accept hr hst =>
      exact Or.inr (Or.inr (Or.inr (Or.inl
        ⟨i, r, writer, accept, rfl, hr, hst, (Option.some.inj h).symm⟩)))
    · cases h
  | announce i =>
    simp only [step] at h
    split at h
    · next r accept hr hst =>
      exact Or.inr (Or.inr (Or.inr (Or.inr
        ⟨i, r, accept, rfl, hr, hst, (Option.some.inj h).symm⟩)))
    · cases h

variable {accept : Option Session} {chunks : List (List UInt8)} {chunk : List UInt8}
  {writer : Writer} {seq : ℕ}

theorem admit_eq_drive {e e' : SessionState}
    (h : e.admit cfg seq chunk = .drive e' writer chunks accept) :
    writer = e.uploadWr ∧ e'.uploadWr = .placeholder ∧
      (chunks, e'.buffered, e'.nextSeq) = release (e.buffered.insert seq chunk) e.nextSeq := by
  unfold SessionState.admit at h
  split at h
  · cases h
  · split at h
    · cases h
    · cases h
      exact ⟨rfl, rfl, rfl⟩

/-! ## A session as a hand-off -/

/-- The bytes a handler is writing, and whether it has the session's own writer. -/
def Stage.held : Stage → Option (Bool × List UInt8)
  | .writing writer chunks _ => some (decide (writer = .bridge), chunks.flatten)
  | _ => none

/-- The handlers of one session. -/
def heldBy (reqs : List Request) (sid : SessionId) (stage : ℕ → Stage) :
    ℕ → Option (Bool × List UInt8) :=
  fun i => if (reqs[i]?).map Request.sid = some sid then (stage i).held else none

/-- The writer in the table.  A session that is not there will start with its own. -/
def State.writerOf (s : State) (sid : SessionId) : Writer :=
  ((s.sessions.lookup sid).map SessionState.uploadWr).getD .bridge

/-- A session, as a slot and its workers. -/
def State.view (reqs : List Request) (s : State) (sid : SessionId) : Handoff ℕ UInt8 where
  slot := decide (s.writerOf sid = .bridge)
  held := heldBy reqs sid s.stage
  out := s.userSide sid
  log := s.releases sid

theorem entry_uploadWr (s : State) (sid : SessionId) (remote : SocketAddr) :
    (s.entry sid remote).uploadWr = s.writerOf sid := by
  unfold State.entry State.writerOf
  cases s.sessions.lookup sid <;> rfl

section View

variable {sid : SessionId} {stage : ℕ → Stage} {i : ℕ} {r : Request}

theorem heldBy_of_sid (hr : reqs[i]? = some r) (hsid : r.sid = sid) :
    heldBy reqs sid stage i = (stage i).held := by
  rw [heldBy, hr, Option.map_some, hsid, if_pos rfl]

theorem heldBy_update_self (hr : reqs[i]? = some r) (hsid : r.sid = sid) (x : Stage) :
    heldBy reqs sid (Function.update stage i x) =
      Function.update (heldBy reqs sid stage) i x.held := by
  funext j
  by_cases hj : j = i
  · subst hj
    rw [heldBy_of_sid hr hsid, Function.update_self, Function.update_self]
  · rw [Function.update_of_ne hj]
    simp only [heldBy, Function.update_of_ne hj]

theorem heldBy_update_other (hr : reqs[i]? = some r) (hsid : r.sid ≠ sid) (x : Stage) :
    heldBy reqs sid (Function.update stage i x) = heldBy reqs sid stage := by
  funext j
  by_cases hj : j = i
  · subst hj
    have hne : ¬(reqs[j]?).map Request.sid = some sid := by
      rw [hr, Option.map_some]
      exact fun h => hsid (Option.some.inj h)
    rw [heldBy, heldBy, if_neg hne, if_neg hne]
  · simp only [heldBy, Function.update_of_ne hj]

/-- A handler that holds the same before and after is not seen. -/
theorem heldBy_update_idle (reqs : List Request) (sid : SessionId) {x : Stage}
    (hx : x.held = (stage i).held) :
    heldBy reqs sid (Function.update stage i x) = heldBy reqs sid stage := by
  funext j
  by_cases hj : j = i
  · subst hj
    simp only [heldBy, Function.update_self, hx]
  · simp only [heldBy, Function.update_of_ne hj]

end View

/-! ## Steps leave other sessions alone -/

/-- A step of handler `i`, whose request is for session `own`: what it leaves alone. -/
structure Touches (s t : State) (i : ℕ) (own : SessionId) : Prop where
  lookup_eq : ∀ sid, sid ≠ own → t.sessions.lookup sid = s.sessions.lookup sid
  userSide_eq : ∀ sid, sid ≠ own → t.userSide sid = s.userSide sid
  releases_eq : ∀ sid, sid ≠ own → t.releases sid = s.releases sid
  /-- No entry ever leaves the table. -/
  present : ∀ sid, (s.sessions.lookup sid).isSome → (t.sessions.lookup sid).isSome
  /-- Only its own handler goes on, and it holds a writer only of a session in the table. -/
  stage_eq : ∃ x, t.stage = Function.update s.stage i x ∧
    (x.held ≠ none → (s.stage i).held ≠ none ∨ (t.sessions.lookup own).isSome)

theorem isSome_lookup_insert {sessions : AList fun _ : SessionId => SessionState}
    {sid own : SessionId} (e : SessionState) (h : (sessions.lookup sid).isSome) :
    ((sessions.insert own e).lookup sid).isSome := by
  by_cases hsid : sid = own
  · subst hsid
    rw [AList.lookup_insert]
    rfl
  · rw [AList.lookup_insert_ne hsid]
    exact h

theorem touches_lockPost (cfg : ServerConfig) (s : State) (i : ℕ) (sid : SessionId) (seq : ℕ)
    (frames : List BodyFrame) (remote : SocketAddr) :
    Touches s (lockPost cfg s i sid seq frames remote) i sid := by
  unfold lockPost
  split
  · exact ⟨fun _ _ => rfl, fun _ _ => rfl, fun _ _ => rfl, fun _ h => h,
      _, rfl, fun h => absurd rfl h⟩
  · simp only
    split
    · exact ⟨fun _ h => AList.lookup_insert_ne h, fun _ _ => rfl, fun _ _ => rfl,
        fun _ h => isSome_lookup_insert _ h, _, rfl, fun h => absurd rfl h⟩
    · refine ⟨fun _ h => AList.lookup_insert_ne h, fun _ _ => rfl,
        fun _ h => Function.update_of_ne h _ _, fun _ h => isSome_lookup_insert _ h,
        _, rfl, fun _ => Or.inr ?_⟩
      rw [AList.lookup_insert]
      rfl

theorem touches_lockGet (s : State) (i : ℕ) (sid : SessionId) (remote : SocketAddr) :
    Touches s (lockGet s i sid remote) i sid := by
  refine ⟨fun _ h => AList.lookup_insert_ne h, fun _ _ => rfl, fun _ _ => rfl,
    fun _ h => isSome_lookup_insert _ h, _, rfl, fun h => absurd ?_ h⟩
  split <;> rfl

theorem touches_writeChunk (s : State) (i : ℕ) (sid : SessionId)
    (hst : s.stage i = .writing writer (chunk :: chunks) accept) :
    Touches s (writeChunk s i sid writer chunk chunks accept) i sid := by
  have hheld : (s.stage i).held ≠ none := by
    rw [hst]
    exact Option.some_ne_none _
  cases writer with
  | bridge =>
    exact ⟨fun _ _ => rfl, fun _ h => Function.update_of_ne h _ _, fun _ _ => rfl,
      fun _ h => h, _, rfl, fun _ => Or.inl hheld⟩
  | placeholder =>
    exact ⟨fun _ _ => rfl, fun _ _ => rfl, fun _ _ => rfl, fun _ h => h, _, rfl,
      fun _ => Or.inl hheld⟩

theorem touches_reattach (s : State) (i : ℕ) (sid : SessionId) (writer : Writer)
    (accept : Option Session) : Touches s (reattach s i sid writer accept) i sid := by
  unfold reattach
  cases hlookup : s.sessions.lookup sid with
  | none =>
    exact ⟨fun _ _ => rfl, fun _ _ => rfl, fun _ _ => rfl, fun _ h => h, _, rfl,
      fun h => absurd rfl h⟩
  | some e =>
    exact ⟨fun _ h => AList.lookup_insert_ne h, fun _ _ => rfl, fun _ _ => rfl,
      fun _ h => isSome_lookup_insert _ h, _, rfl, fun h => absurd rfl h⟩

theorem touches_announce (s : State) (i : ℕ) (sid : SessionId) (accept : Option Session) :
    Touches s (announce s i accept) i sid :=
  ⟨fun _ _ => rfl, fun _ _ => rfl, fun _ _ => rfl, fun _ h => h, _, rfl, fun h => absurd rfl h⟩

/-- **Every step belongs to one handler and touches its session only.** -/
theorem step_touches (h : step cfg reqs s e = some t) :
    ∃ r, reqs[e.handler]? = some r ∧ Touches s t e.handler r.sid := by
  obtain ⟨i, sid, seq, frames, remote, rfl, hr, -, rfl⟩ | ⟨i, sid, remote, rfl, hr, -, rfl⟩ |
    ⟨i, r, writer, chunk, chunks, accept, rfl, hr, hst, rfl⟩ |
    ⟨i, r, writer, accept, rfl, hr, -, rfl⟩ | ⟨i, r, accept, rfl, hr, -, rfl⟩ := step_cases h
  · exact ⟨_, hr, touches_lockPost cfg s i sid seq frames remote⟩
  · exact ⟨_, hr, touches_lockGet s i sid remote⟩
  · exact ⟨r, hr, touches_writeChunk s i r.sid hst⟩
  · exact ⟨r, hr, touches_reattach s i r.sid writer accept⟩
  · exact ⟨r, hr, touches_announce s i r.sid accept⟩

/-- Whoever writes, writes for a session in the table. -/
def State.Present (reqs : List Request) (s : State) : Prop :=
  ∀ i r, reqs[i]? = some r → (s.stage i).held ≠ none → (s.sessions.lookup r.sid).isSome

theorem present_start (reqs : List Request) : State.start.Present reqs :=
  fun _ _ _ h => absurd rfl h

theorem State.Present.step (hs : s.Present reqs) (h : step cfg reqs s e = some t) :
    t.Present reqs := by
  obtain ⟨r, hr, htouch⟩ := step_touches h
  obtain ⟨x, hstage, hx⟩ := htouch.stage_eq
  intro j r' hr' hheld
  rw [hstage] at hheld
  by_cases hj : j = e.handler
  · subst hj
    rw [Function.update_self] at hheld
    have hrr : r' = r := Option.some.inj (hr'.symm.trans hr)
    rw [hrr]
    rcases hx hheld with hbefore | hthere
    · exact htouch.present _ (hs _ r hr hbefore)
    · exact hthere
  · rw [Function.update_of_ne hj] at hheld
    exact htouch.present _ (hs j r' hr' hheld)

/-! ## Every step is a step of the hand-off -/

variable {sid : SessionId}

theorem view_congr (hwriter : t.writerOf sid = s.writerOf sid)
    (hheld : heldBy reqs sid t.stage = heldBy reqs sid s.stage)
    (hout : t.userSide sid = s.userSide sid) (hlog : t.releases sid = s.releases sid) :
    t.view reqs sid = s.view reqs sid := by
  simp only [State.view, hwriter, hheld, hout, hlog]

variable {i : ℕ}

theorem view_other {r : Request} (hr : reqs[i]? = some r) (htouch : Touches s t i r.sid)
    (hsid : sid ≠ r.sid) : t.view reqs sid = s.view reqs sid := by
  obtain ⟨x, hstage, -⟩ := htouch.stage_eq
  refine view_congr ?_ ?_ (htouch.userSide_eq sid hsid) (htouch.releases_eq sid hsid)
  · rw [State.writerOf, State.writerOf, htouch.lookup_eq sid hsid]
  · rw [hstage, heldBy_update_other hr hsid.symm]

section Own

theorem writerOf_of_lookup {e : SessionState} (h : s.sessions.lookup sid = some e) :
    s.writerOf sid = e.uploadWr := by
  rw [State.writerOf, h]
  rfl

variable {remote : SocketAddr}

theorem view_lockPost (cfg : ServerConfig) (hr : reqs[i]? = some (.post sid seq frames remote))
    (hst : s.stage i = .arrived) :
    Relation.ReflGen Handoff.Step (s.view reqs sid)
      ((lockPost cfg s i sid seq frames remote).view reqs sid) := by
  have hsid : (Request.post sid seq frames remote).sid = sid := rfl
  have hfree : (s.stage i).held = none := by
    rw [hst]
    rfl
  unfold lockPost
  split
  · next e hbody =>
    have hview : (s.setStage i (.answered (.error e))).view reqs sid = s.view reqs sid :=
      view_congr rfl (heldBy_update_idle reqs sid hfree.symm) rfl rfl
    rw [hview]
  · next chunk hbody =>
    simp only
    split
    · -- answered straight away: the entry is the one that was there
      next status hadmit =>
      have hview : State.view reqs
          { s with
            sessions := s.sessions.insert sid (s.entry sid remote)
            stage := Function.update s.stage i (.answered (.ok status)) } sid =
          s.view reqs sid := by
        refine view_congr ?_ (heldBy_update_idle reqs sid hfree.symm) rfl rfl
        rw [writerOf_of_lookup (AList.lookup_insert _), entry_uploadWr]
      rw [hview]
    · next e' writer chunks accept hadmit =>
      obtain ⟨rfl, hplaceholder, -⟩ := admit_eq_drive hadmit
      have hheld : (s.view reqs sid).held i = none := by
        change heldBy reqs sid s.stage i = none
        rw [heldBy_of_sid hr hsid, hfree]
      refine Relation.ReflGen.single ?_
      convert Handoff.Step.take hheld chunks.flatten using 1
      simp only [State.view, Function.update_self, heldBy_update_self hr hsid, entry_uploadWr,
        Stage.held]
      rw [writerOf_of_lookup (AList.lookup_insert _), hplaceholder]
      rfl

theorem view_lockGet (hst : s.stage i = .arrived) :
    (lockGet s i sid remote).view reqs sid = s.view reqs sid := by
  refine view_congr ?_ (heldBy_update_idle reqs sid ?_) rfl rfl
  · rw [writerOf_of_lookup (AList.lookup_insert _), ← entry_uploadWr s sid remote]
    unfold SessionState.attachDownlink
    split <;> rfl
  · rw [hst]
    split <;> rfl

theorem view_writeChunk {r : Request} (hr : reqs[i]? = some r)
    (hst : s.stage i = .writing writer (chunk :: chunks) accept) :
    Handoff.Step (s.view reqs r.sid)
      ((writeChunk s i r.sid writer chunk chunks accept).view reqs r.sid) := by
  have hheld : (s.view reqs r.sid).held i =
      some (decide (writer = .bridge), chunk ++ chunks.flatten) := by
    change heldBy reqs r.sid s.stage i = _
    rw [heldBy_of_sid hr rfl, hst]
    rfl
  cases writer with
  | bridge =>
    convert Handoff.Step.emit hheld using 1
    simp only [State.view, writeChunk, Function.update_self, heldBy_update_self hr rfl]
    rfl
  | placeholder =>
    convert Handoff.Step.discard hheld (if chunk = [] then chunks else []).flatten using 1
    simp only [State.view, writeChunk, State.setStage, heldBy_update_self hr rfl]
    rfl

theorem view_reattach {r : Request} (hs : s.Present reqs) (hr : reqs[i]? = some r)
    (hst : s.stage i = .writing writer [] accept) :
    Handoff.Step (s.view reqs r.sid)
      ((reattach s i r.sid writer accept).view reqs r.sid) := by
  have hheld : (s.view reqs r.sid).held i = some (decide (writer = .bridge), []) := by
    change heldBy reqs r.sid s.stage i = _
    rw [heldBy_of_sid hr rfl, hst]
    rfl
  have hthere : (s.sessions.lookup r.sid).isSome := by
    refine hs i r hr ?_
    rw [hst]
    exact Option.some_ne_none _
  obtain ⟨e, he⟩ := Option.isSome_iff_exists.mp hthere
  convert Handoff.Step.put hheld using 1
  simp only [State.view, reattach, he, heldBy_update_self hr rfl]
  rw [writerOf_of_lookup (AList.lookup_insert _)]
  rfl

end Own

/-- **A step of the dispatcher is a step of each session's hand-off, or none.** -/
theorem view_step (hs : s.Present reqs) (h : step cfg reqs s e = some t) (sid : SessionId) :
    Relation.ReflGen Handoff.Step (s.view reqs sid) (t.view reqs sid) := by
  obtain ⟨i, r, hr, htouch, hown⟩ : ∃ i r, reqs[i]? = some r ∧ Touches s t i r.sid ∧
      Relation.ReflGen Handoff.Step (s.view reqs r.sid) (t.view reqs r.sid) := by
    obtain ⟨i, sid, seq, frames, remote, -, hr, hst, rfl⟩ | ⟨i, sid, remote, -, hr, hst, rfl⟩ |
      ⟨i, r, writer, chunk, chunks, accept, -, hr, hst, rfl⟩ |
      ⟨i, r, writer, accept, -, hr, hst, rfl⟩ | ⟨i, r, accept, -, hr, hst, rfl⟩ := step_cases h
    · exact ⟨i, _, hr, touches_lockPost cfg s i sid seq frames remote, view_lockPost cfg hr hst⟩
    · refine ⟨i, _, hr, touches_lockGet s i sid remote, ?_⟩
      rw [Request.sid, view_lockGet hst]
    · exact ⟨i, r, hr, touches_writeChunk s i r.sid hst, .single (view_writeChunk hr hst)⟩
    · exact ⟨i, r, hr, touches_reattach s i r.sid writer accept,
        .single (view_reattach hs hr hst)⟩
    · refine ⟨i, r, hr, touches_announce s i r.sid accept, ?_⟩
      have hview : (announce s i accept).view reqs r.sid = s.view reqs r.sid :=
        view_congr rfl (heldBy_update_idle reqs r.sid (by rw [hst]; rfl)) rfl rfl
      rw [hview]
  by_cases hsid : sid = r.sid
  · rw [hsid]
    exact hown
  · rw [view_other hr htouch hsid]

variable {events : List Event}

/-- The hand-off of a session after a run. -/
theorem view_run (hrun : run (step cfg reqs) .start events = some s) (sid : SessionId) :
    Relation.ReflTransGen Handoff.Step Handoff.start (s.view reqs sid) := by
  have hstart : State.start.view reqs sid = Handoff.start := by
    have hheld : heldBy reqs sid State.start.stage = fun _ => none := by
      funext i
      rw [heldBy]
      split <;> rfl
    simp only [State.view, hheld]
    rfl
  have hinv := run_inv (fun s e t (hs : s.Present reqs ∧
      Relation.ReflTransGen Handoff.Step Handoff.start (s.view reqs sid)) h =>
    ⟨hs.1.step h, hs.2.trans (view_step hs.1 h sid).to_reflTransGen⟩) events
    ⟨present_start reqs, by rw [hstart]⟩ hrun
  exact hinv.2

/-! ## The bodies are released in sequence -/

/-- The sequence number of a POST of a session. -/
def Request.seqOf (sid : SessionId) : Request → Option ℕ
  | .post sid' seq _ _ => if sid' = sid then some seq else none
  | .get _ _ => none

/-- The body of the POST of a session with a given sequence number. -/
def bodyOf (sid : SessionId) (k : ℕ) : List Request → List UInt8
  | [] => []
  | .post sid' seq frames _ :: reqs =>
    if sid' = sid ∧ seq = k then bodyBytes frames else bodyOf sid k reqs
  | .get _ _ :: reqs => bodyOf sid k reqs

/-- The bodies of the first `n` POSTs of a session, in the order of their numbers. -/
def bodiesUpTo (reqs : List Request) (sid : SessionId) (n : ℕ) : List UInt8 :=
  (List.range n).flatMap fun k => bodyOf sid k reqs

theorem bodiesUpTo_succ (reqs : List Request) (sid : SessionId) (n : ℕ) :
    bodiesUpTo reqs sid (n + 1) = bodiesUpTo reqs sid n ++ bodyOf sid n reqs := by
  simp [bodiesUpTo, List.range_succ]

variable {remote : SocketAddr}

theorem mem_filterMap_seqOf (hr : reqs[i]? = some (.post sid seq frames remote)) :
    seq ∈ reqs.filterMap (Request.seqOf sid) :=
  List.mem_filterMap.mpr ⟨_, List.mem_of_getElem? hr, if_pos rfl⟩

/-- With distinct sequence numbers, a POST's body is the body of its number. -/
theorem bodyOf_eq (hnodup : (reqs.filterMap (Request.seqOf sid)).Nodup)
    (hr : reqs[i]? = some (.post sid seq frames remote)) :
    bodyOf sid seq reqs = bodyBytes frames := by
  induction reqs generalizing i with
  | nil => cases hr
  | cons r reqs ih =>
    cases i with
    | zero =>
      cases hr
      rw [bodyOf, if_pos ⟨rfl, rfl⟩]
    | succ i =>
      have hr' : reqs[i]? = some (.post sid seq frames remote) := hr
      cases r with
      | get sid' remote' => exact ih hnodup hr'
      | post sid' seq' frames' remote' =>
        rw [bodyOf]
        by_cases hsid : sid' = sid
        · subst hsid
          have hseq : Request.seqOf sid' (.post sid' seq' frames' remote') = some seq' :=
            if_pos rfl
          rw [List.filterMap_cons_some hseq] at hnodup
          have hne : seq' ≠ seq := by
            rintro rfl
            exact (List.nodup_cons.mp hnodup).1 (mem_filterMap_seqOf hr')
          rw [if_neg fun h => hne h.2]
          exact ih (List.nodup_cons.mp hnodup).2 hr'
        · have hseq : Request.seqOf sid (.post sid' seq' frames' remote') = none := if_neg hsid
          rw [List.filterMap_cons_none hseq] at hnodup
          rw [if_neg fun h => hsid h.1]
          exact ih hnodup hr'

/-- Every stored body is the body of its number. -/
def Stored (reqs : List Request) (sid : SessionId) (buffered : AList fun _ : ℕ => List UInt8) :
    Prop :=
  ∀ k bytes, buffered.lookup k = some bytes → bodyOf sid k reqs = bytes

variable {buffered : AList fun _ : ℕ => List UInt8}

theorem Stored.insert (h : Stored reqs sid buffered) (hchunk : bodyOf sid seq reqs = chunk) :
    Stored reqs sid (buffered.insert seq chunk) := by
  intro k bytes hk
  rcases lookup_insert_cases hk with ⟨rfl, rfl⟩ | ⟨-, hold⟩
  · exact hchunk
  · exact h k bytes hold

theorem Stored.erase (h : Stored reqs sid buffered) (seq : ℕ) :
    Stored reqs sid (buffered.erase seq) :=
  fun k bytes hk => h k bytes (lookup_of_erase hk).2

/-- What the loop releases are the bodies of the numbers it goes through. -/
theorem releaseLoop_bodies :
    ∀ (fuel : ℕ) (buffered : AList fun _ : ℕ => List UInt8) (next : ℕ),
      Stored reqs sid buffered →
        bodiesUpTo reqs sid (releaseLoop fuel buffered next).2.2 =
            bodiesUpTo reqs sid next ++ (releaseLoop fuel buffered next).1.flatten ∧
          Stored reqs sid (releaseLoop fuel buffered next).2.1
  | 0, _, _, h => ⟨(List.append_nil _).symm, h⟩
  | fuel + 1, buffered, next, h => by
    rw [releaseLoop]
    cases hlookup : buffered.lookup next with
    | none => exact ⟨(List.append_nil _).symm, h⟩
    | some bytes =>
      obtain ⟨hbodies, hstored⟩ :=
        releaseLoop_bodies fuel (buffered.erase next) (next + 1) (h.erase next)
      refine ⟨?_, hstored⟩
      rw [bodiesUpTo_succ, h next bytes hlookup, List.append_assoc] at hbodies
      exact hbodies

theorem release_bodies (next : ℕ) (h : Stored reqs sid buffered) :
    bodiesUpTo reqs sid (release buffered next).2.2 =
        bodiesUpTo reqs sid next ++ (release buffered next).1.flatten ∧
      Stored reqs sid (release buffered next).2.1 :=
  releaseLoop_bodies _ buffered next h

/-- The loop stops only when the next body is missing. -/
theorem releaseLoop_stops :
    ∀ (fuel : ℕ) (buffered : AList fun _ : ℕ => List UInt8) (next : ℕ),
      buffered.keys.length ≤ fuel →
        (releaseLoop fuel buffered next).2.1.lookup (releaseLoop fuel buffered next).2.2 = none
  | 0, buffered, next, h => by
    have hkeys : buffered.keys = [] := List.eq_nil_of_length_eq_zero (Nat.le_zero.mp h)
    change buffered.lookup next = none
    refine AList.lookup_eq_none.mpr fun hmem => ?_
    rw [AList.mem_keys, hkeys] at hmem
    cases hmem
  | fuel + 1, buffered, next, h => by
    rw [releaseLoop]
    cases hlookup : buffered.lookup next with
    | none => exact hlookup
    | some bytes =>
      refine releaseLoop_stops fuel _ _ ?_
      have hmem : next ∈ buffered.keys :=
        AList.mem_keys.mp (AList.lookup_isSome.mp (by rw [hlookup]; rfl))
      rw [AList.keys_erase, List.length_erase_of_mem hmem]
      omega

/-- The stored bodies of a session and its next sequence number. -/
def State.queue (s : State) (sid : SessionId) : (AList fun _ : ℕ => List UInt8) × ℕ :=
  match s.sessions.lookup sid with
  | some e => (e.buffered, e.nextSeq)
  | none => (∅, 0)

/-- The next sequence number of a session. -/
def State.nextSeq (s : State) (sid : SessionId) : ℕ := (s.queue sid).2

/-- What has been released are the bodies of the numbers before the next one. -/
structure InSequence (reqs : List Request) (sid : SessionId) (s : State) : Prop where
  released : Handoff.total (s.releases sid) = bodiesUpTo reqs sid (s.nextSeq sid)
  stored : Stored reqs sid (s.queue sid).1

theorem entry_queue (s : State) (sid : SessionId) (remote : SocketAddr) :
    ((s.entry sid remote).buffered, (s.entry sid remote).nextSeq) = s.queue sid := by
  unfold State.entry State.queue
  cases s.sessions.lookup sid <;> rfl

theorem entry_buffered (s : State) (sid : SessionId) (remote : SocketAddr) :
    (s.entry sid remote).buffered = (s.queue sid).1 :=
  congrArg Prod.fst (entry_queue s sid remote)

theorem entry_nextSeq (s : State) (sid : SessionId) (remote : SocketAddr) :
    (s.entry sid remote).nextSeq = s.nextSeq sid :=
  congrArg Prod.snd (entry_queue s sid remote)

theorem queue_of_lookup {e : SessionState} (h : s.sessions.lookup sid = some e) :
    s.queue sid = (e.buffered, e.nextSeq) := by
  rw [State.queue, h]

theorem InSequence.congr (h : InSequence reqs sid s) (hqueue : t.queue sid = s.queue sid)
    (hlog : t.releases sid = s.releases sid) : InSequence reqs sid t := by
  refine ⟨?_, ?_⟩
  · rw [hlog, State.nextSeq, hqueue]
    exact h.released
  · rw [hqueue]
    exact h.stored

theorem InSequence.lockPost (h : InSequence reqs sid s)
    (hnodup : (reqs.filterMap (Request.seqOf sid)).Nodup)
    (hr : reqs[i]? = some (.post sid seq frames remote)) :
    InSequence reqs sid (lockPost cfg s i sid seq frames remote) := by
  unfold Carrier.lockPost
  split
  · exact h.congr rfl rfl
  · next chunk hbody =>
    have hchunk : bodyOf sid seq reqs = chunk := by
      rw [bodyOf_eq hnodup hr, collectBody_eq_ok hbody, List.nil_append]
    simp only
    split
    · refine h.congr ?_ rfl
      rw [queue_of_lookup (AList.lookup_insert _), entry_queue]
    · next e' writer chunks accept hadmit =>
      obtain ⟨-, -, hrelease⟩ := admit_eq_drive hadmit
      rw [entry_buffered, entry_nextSeq] at hrelease
      obtain ⟨hbodies, hstored⟩ := release_bodies (s.nextSeq sid) (h.stored.insert hchunk)
      rw [← hrelease] at hbodies hstored
      refine ⟨?_, ?_⟩
      · rw [State.nextSeq, queue_of_lookup (AList.lookup_insert _)]
        simp only [Function.update_self, Handoff.total_append_singleton, h.released]
        exact hbodies.symm
      · rw [queue_of_lookup (AList.lookup_insert _)]
        exact hstored

theorem queue_lockGet (s : State) (i : ℕ) (sid : SessionId) (remote : SocketAddr) :
    (lockGet s i sid remote).queue sid = s.queue sid := by
  rw [queue_of_lookup (AList.lookup_insert _), ← entry_queue s sid remote]
  unfold SessionState.attachDownlink
  split <;> rfl

theorem queue_reattach (s : State) (i : ℕ) (sid : SessionId) (writer : Writer)
    (accept : Option Session) : (reattach s i sid writer accept).queue sid = s.queue sid := by
  cases hlookup : s.sessions.lookup sid with
  | none => simp only [State.queue, reattach, hlookup]
  | some e => simp only [State.queue, reattach, hlookup, AList.lookup_insert]

theorem InSequence.step (hs : InSequence reqs sid s)
    (hnodup : (reqs.filterMap (Request.seqOf sid)).Nodup) (h : step cfg reqs s e = some t) :
    InSequence reqs sid t := by
  obtain ⟨i, r, hr, htouch, hown⟩ : ∃ i r, reqs[i]? = some r ∧ Touches s t i r.sid ∧
      (sid = r.sid → InSequence reqs sid t) := by
    obtain ⟨i, sid', seq, frames, remote, -, hr, -, rfl⟩ | ⟨i, sid', remote, -, hr, -, rfl⟩ |
      ⟨i, r, writer, chunk, chunks, accept, -, hr, hst, rfl⟩ |
      ⟨i, r, writer, accept, -, hr, -, rfl⟩ | ⟨i, r, accept, -, hr, -, rfl⟩ := step_cases h
    · refine ⟨i, _, hr, touches_lockPost cfg s i sid' seq frames remote, fun hsid => ?_⟩
      obtain rfl : sid = sid' := hsid
      exact hs.lockPost hnodup hr
    · refine ⟨i, _, hr, touches_lockGet s i sid' remote, fun hsid => ?_⟩
      obtain rfl : sid = sid' := hsid
      exact hs.congr (queue_lockGet s i sid remote) rfl
    · refine ⟨i, r, hr, touches_writeChunk s i r.sid hst, fun _ => ?_⟩
      cases writer <;> exact hs.congr rfl rfl
    · refine ⟨i, r, hr, touches_reattach s i r.sid writer accept, fun hsid => ?_⟩
      rw [hsid] at hs ⊢
      exact hs.congr (queue_reattach s i r.sid writer accept) rfl
    · exact ⟨i, r, hr, touches_announce s i r.sid accept, fun _ => hs.congr rfl rfl⟩
  by_cases hsid : sid = r.sid
  · exact hown hsid
  · refine hs.congr ?_ (htouch.releases_eq sid hsid)
    rw [State.queue, State.queue, htouch.lookup_eq sid hsid]

theorem inSequence_run (hnodup : (reqs.filterMap (Request.seqOf sid)).Nodup)
    (hrun : run (step cfg reqs) .start events = some s) : InSequence reqs sid s := by
  refine run_inv (fun s e t hs h => InSequence.step hs hnodup h) events ⟨rfl, ?_⟩ hrun
  intro k bytes hk
  cases hk

/-! ## What arrives at the user side -/

/-- The handlers of a session have all answered. -/
def State.Finished (reqs : List Request) (s : State) (sid : SessionId) : Prop :=
  ∀ i r, reqs[i]? = some r → r.sid = sid → ∃ answer, s.stage i = .answered answer

/-- Once no handler holds the writer of a session, its user side has what was released under
the session's own writer. -/
theorem userSide_eq_iff_of_idle (hdistinct : (reqs.filterMap (Request.seqOf sid)).Nodup)
    (hrun : run (step cfg reqs) .start events = some s)
    (hidle : ∀ i r, reqs[i]? = some r → r.sid = sid → (s.stage i).held = none) :
    s.userSide sid = bodiesUpTo reqs sid (s.nextSeq sid) ↔
      ∀ taking ∈ s.releases sid, taking.1 = true ∨ taking.2 = [] := by
  have hheld : ∀ i, (s.view reqs sid).held i = none := by
    intro i
    show heldBy reqs sid s.stage i = none
    rw [heldBy]
    split
    · next hsid =>
      obtain ⟨r, hr, hrsid⟩ := Option.map_eq_some_iff.mp hsid
      exact hidle i r hr hrsid
    · rfl
  rw [← (inSequence_run hdistinct hrun).released]
  exact Handoff.out_eq_total_iff (view_run hrun sid) hheld

/-- **What the POSTs of a session deliver.**  In every interleaving of the handlers, once
those of the session have answered, the user side has the bodies of all numbers below the
next one, in order and once each, if and only if no handler took bytes to write when the
session's writer was out. -/
theorem userSide_eq_bodiesUpTo_iff (cfg : ServerConfig) (reqs : List Request) (sid : SessionId)
    (hdistinct : (reqs.filterMap (Request.seqOf sid)).Nodup) (events : List Event) (s : State)
    (hrun : run (step cfg reqs) .start events = some s) (hdone : s.Finished reqs sid) :
    s.userSide sid = bodiesUpTo reqs sid (s.nextSeq sid) ↔
      ∀ taking ∈ s.releases sid, taking.1 = true ∨ taking.2 = [] := by
  refine userSide_eq_iff_of_idle hdistinct hrun fun i r hr hsid => ?_
  obtain ⟨answer, hanswer⟩ := hdone i r hr hsid
  rw [hanswer]
  rfl

/-! ## Two POSTs -/

section TwoPosts

/-- Any session, any peer, two POSTs with one byte each. -/
def someSession : SessionId := ⟨List.replicate 16 7, rfl⟩

def somePeer : SocketAddr := ⟨.v4 ⟨[10, 0, 0, 1], rfl⟩, 443⟩

def twoPosts : List Request :=
  [.post someSession 0 [.data [1]] somePeer, .post someSession 1 [.data [2]] somePeer]

/-- The default limits. -/
def someConfig : ServerConfig := ⟨1000000, 30⟩

/-- One handler after the other. -/
def oneByOne : List Event :=
  [.lock 0, .write 0, .reattach 0, .announce 0, .lock 1, .write 1, .reattach 1, .announce 1]

/-- The second handler takes the lock while the first one writes. -/
def overlapping : List Event :=
  [.lock 0, .lock 1, .write 0, .write 1, .reattach 0, .reattach 1, .announce 0, .announce 1]

end TwoPosts

theorem userSide_eq_bodiesUpTo_iff_oneByOne :
    ∃ s, run (step someConfig twoPosts) .start oneByOne = some s ∧
      (s.userSide someSession = bodiesUpTo twoPosts someSession (s.nextSeq someSession) ↔
        ∀ taking ∈ s.releases someSession, taking.1 = true ∨ taking.2 = []) := by
  refine ⟨_, rfl, userSide_eq_bodiesUpTo_iff someConfig twoPosts someSession (by decide) oneByOne _
    rfl ?_⟩
  intro i r hr _
  match i, hr with
  | 0, _ => exact ⟨_, rfl⟩
  | 1, _ => exact ⟨_, rfl⟩

/-- Both POSTs are answered 200 and both bodies count as released, but the second one has
been written to the placeholder. -/
theorem userSide_overlapping :
    ∃ s, run (step someConfig twoPosts) .start overlapping = some s ∧
      s.Finished twoPosts someSession ∧ s.stage 1 = .answered (.ok .ok) ∧
      s.nextSeq someSession = 2 ∧ bodiesUpTo twoPosts someSession 2 = [1, 2] ∧
      s.userSide someSession = [1] := by
  refine ⟨_, rfl, ?_, rfl, rfl, rfl, rfl⟩
  intro i r hr _
  match i, hr with
  | 0, _ => exact ⟨_, rfl⟩
  | 1, _ => exact ⟨_, rfl⟩

end Carrier
end HoldTheDonut
