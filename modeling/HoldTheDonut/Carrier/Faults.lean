import HoldTheDonut.Carrier.PacketUp

/-!
# `donut-carrier/src/server/packet_up.rs`: POSTs that fail

A handler leaves its lock section with the session's writer and with the bodies it has
released; `next_seq` has moved past them.  After that it can fail at two kinds of places.
In the loop, `write_all` can return an error, or the whole handler can be dropped while it
waits there, because its client has gone away.  Behind the loop, it can be dropped while it
waits to announce the session.

`FaultState` puts these failures on top of the dispatcher of `Carrier.PacketUp`, which is
left as it is: a handler that is dropped never moves again.  A write to the session's own
pipe fails once the user side has been closed, and the user side is closed by its owner or
with an announcement that is dropped.  For each handler a `Track` is kept: the entry it
found, the bytes it released and those it has written, and how it failed.

Nothing restores the entry, so a failure is survived if and only if it comes behind the
loop (`uplink_survives_iff`).  What is cut short in the loop is lost for good, and a handler
dropped there takes the writer with it: the entry keeps the placeholder, and later POSTs
are answered 200 for bodies that go nowhere.
-/

namespace HoldTheDonut
namespace Carrier

open Machine

/-! ## Handlers that fail -/

/-- How a handler failed first. -/
inductive Fate where
  /-- `write_all` returned an error. -/
  | brokenWrite
  /-- Dropped while waiting in `write_all`. -/
  | droppedWriting
  /-- Dropped while waiting in `accept.send`. -/
  | droppedAnnouncing
  deriving DecidableEq

/-- The record of a handler. -/
structure Track where
  /-- The entry it found when it took the lock. -/
  found : Option SessionState
  released : List UInt8
  /-- What it has put into the session's own pipe. -/
  written : List UInt8
  fate : Option Fate
  /-- It has been dropped. -/
  gone : Bool

def Track.new : Track := ⟨none, [], [], none, false⟩

/-- The handler fails; the first failure is the one that counts. -/
def Track.fails (k : Track) (fate : Fate) : Track :=
  { k with fate := some (k.fate.getD fate) }

/-- The first failure counts. -/
theorem Track.fate_fails_of_none {k : Track} (fate : Fate) (h : k.fate = none) :
    (k.fails fate).fate = some fate := by
  rw [Track.fails, h]
  rfl

theorem Track.fate_fails_of_some {k : Track} {first : Fate} (fate : Fate)
    (h : k.fate = some first) : (k.fails fate).fate = some first := by
  rw [Track.fails, h]
  rfl

structure FaultState where
  base : State
  /-- Is the user side of the session closed? -/
  closed : SessionId → Bool
  track : ℕ → Track

def FaultState.start : FaultState := ⟨.start, fun _ => false, fun _ => .new⟩

inductive FaultEvent where
  /-- A step of a handler as before. -/
  | step (e : Event)
  /-- The user side of a session is closed. -/
  | hangUp (sid : SessionId)
  /-- `write_all` fails after some bytes of the chunk. -/
  | fail (i n : ℕ)
  /-- The handler is dropped after some bytes of the chunk. -/
  | dropWriting (i n : ℕ)
  | dropAnnouncing (i : ℕ)

/-- The bytes a handler has to write. -/
def Stage.load : Stage → List UInt8
  | .writing _ chunks _ => chunks.flatten
  | _ => []

/-- A write to a closed user side does not succeed, unless there is nothing to write. -/
def FaultState.stuck (f : FaultState) (r : Request) : Event → Bool
  | .write i =>
    match f.base.stage i with
    | .writing .bridge (chunk :: _) _ => f.closed r.sid && !chunk.isEmpty
    | _ => false
  | _ => false

/-- The record of a handler after a step of it that led to `t`. -/
def FaultState.note (f : FaultState) (r : Request) (t : State) (e : Event) : Track :=
  let k := f.track e.handler
  match e with
  | .lock i =>
    { k with found := f.base.sessions.lookup r.sid, released := (t.stage i).load }
  | .write i =>
    match f.base.stage i with
    | .writing .bridge (chunk :: _) _ => { k with written := k.written ++ chunk }
    | .writing .placeholder (chunk :: _) _ =>
      if chunk = [] then k else k.fails .brokenWrite
    | _ => k
  | _ => k

/-- The current chunk is cut short: `part` of it has been written. -/
def FaultState.cutShort (f : FaultState) (i : ℕ) (sid : SessionId) (part : List UInt8)
    (x : Stage) (fate : Fate) (gone : Bool) : FaultState :=
  { f with
    base :=
      { f.base with
        userSide := Function.update f.base.userSide sid (f.base.userSide sid ++ part)
        stage := Function.update f.base.stage i x }
    track := Function.update f.track i
      { (f.track i).fails fate with written := (f.track i).written ++ part, gone := gone } }

def faultStep (cfg : ServerConfig) (reqs : List Request) (f : FaultState) :
    FaultEvent → Option FaultState
  | .step e =>
    match reqs[e.handler]? with
    | none => none
    | some r =>
      if (f.track e.handler).gone = true ∨ f.stuck r e = true then none
      else (step cfg reqs f.base e).map fun t =>
        { f with base := t, track := Function.update f.track e.handler (f.note r t e) }
  | .hangUp sid => some { f with closed := Function.update f.closed sid true }
  | .fail i n =>
    match reqs[i]?, f.base.stage i with
    | some r, .writing .bridge (chunk :: _) accept =>
      -- the error ends the loop, and the handler goes on behind it
      if (f.track i).gone = false ∧ f.closed r.sid = true ∧ n < chunk.length then
        some (f.cutShort i r.sid (chunk.take n) (.writing .bridge [] accept) .brokenWrite false)
      else none
    | _, _ => none
  | .dropWriting i n =>
    match reqs[i]?, f.base.stage i with
    | some r, .writing writer (chunk :: _) _ =>
      -- the closed pipe takes nothing
      if (f.track i).gone = false ∧ n < chunk.length then
        some (f.cutShort i r.sid (if writer = .bridge then chunk.take n else [])
          (f.base.stage i) .droppedWriting true)
      else none
    | _, _ => none
  | .dropAnnouncing i =>
    match reqs[i]?, f.base.stage i with
    | some r, .announcing (some _) =>
      -- the announcement holds the user side
      if (f.track i).gone = false then
        some { f with
          closed := Function.update f.closed r.sid true
          track := Function.update f.track i
            { (f.track i).fails .droppedAnnouncing with gone := true } }
      else none
    | _, _ => none

/-- The session is as the handler found it, or all the handler released has been written. -/
def FaultState.Survived (f : FaultState) (i : ℕ) (sid : SessionId) : Prop :=
  f.base.sessions.lookup sid = (f.track i).found ∨ (f.track i).written = (f.track i).released

variable {e : FaultEvent}

/-- What a step can do. -/
theorem faultStep_cases {cfg : ServerConfig} {reqs : List Request} {f g : FaultState}
    (h : faultStep cfg reqs f e = some g) :
    (∃ e' r t, reqs[e'.handler]? = some r ∧ (f.track e'.handler).gone = false ∧
      step cfg reqs f.base e' = some t ∧
      g = { f with base := t, track := Function.update f.track e'.handler (f.note r t e') }) ∨
    (g.base = f.base ∧ g.track = f.track) ∨
    (∃ i r writer chunk chunks accept part x fate gone, reqs[i]? = some r ∧
      (f.track i).gone = false ∧ f.base.stage i = .writing writer (chunk :: chunks) accept ∧
      part.length < chunk.length ∧
      ((x = .writing writer [] accept ∧ fate = .brokenWrite) ∨
        (x = f.base.stage i ∧ fate = .droppedWriting ∧ gone = true)) ∧
      g = f.cutShort i r.sid part x fate gone) ∨
    (∃ i a, f.base.stage i = .announcing (some a) ∧ (f.track i).gone = false ∧
      g.base = f.base ∧ g.track = Function.update f.track i
        { (f.track i).fails .droppedAnnouncing with gone := true }) := by
  cases e with
  | step e =>
    rw [faultStep] at h
    split at h
    · cases h
    · next r hr =>
      split at h
      · cases h
      · next hfree =>
        rw [not_or] at hfree
        obtain ⟨t, ht, rfl⟩ := Option.map_eq_some_iff.mp h
        exact Or.inl ⟨e, r, t, hr, Bool.eq_false_iff.mpr hfree.1, ht, rfl⟩
  | hangUp sid =>
    cases h
    exact Or.inr (Or.inl ⟨rfl, rfl⟩)
  | fail i n =>
    rw [faultStep] at h
    split at h
    · next r chunk chunks accept hr hst =>
      split at h
      · next hcond =>
        cases h
        have hpart : (chunk.take n).length < chunk.length := by
          rw [List.length_take]
          omega
        exact Or.inr (Or.inr (Or.inl ⟨i, r, _, chunk, chunks, accept, _, _, _, _, hr, hcond.1,
          hst, hpart, Or.inl ⟨rfl, rfl⟩, rfl⟩))
      · cases h
    · cases h
  | dropWriting i n =>
    rw [faultStep] at h
    split at h
    · next r writer chunk chunks accept hr hst =>
      split at h
      · next hcond =>
        cases h
        have hpart : (if writer = .bridge then chunk.take n else []).length < chunk.length := by
          split
          · rw [List.length_take]
            omega
          · exact Nat.zero_lt_of_lt hcond.2
        exact Or.inr (Or.inr (Or.inl ⟨i, r, writer, chunk, chunks, accept, _, _, _, _, hr, hcond.1,
          hst, hpart, Or.inr ⟨rfl, rfl, rfl⟩, rfl⟩))
      · cases h
    · cases h
  | dropAnnouncing i =>
    rw [faultStep] at h
    split at h
    · next r a hr hst =>
      split at h
      · next hcond =>
        cases h
        exact Or.inr (Or.inr (Or.inr ⟨i, a, hst, hcond, rfl, rfl⟩))
      · cases h
    · cases h

/-! ## The next number only grows -/

theorem releaseLoop_next (fuel : ℕ) (buffered : AList fun _ : ℕ => List UInt8) (next : ℕ) :
    (releaseLoop fuel buffered next).2.2 = next + (releaseLoop fuel buffered next).1.length := by
  induction fuel generalizing buffered next with
  | zero => rfl
  | succ fuel ih =>
    rw [releaseLoop]
    cases buffered.lookup next with
    | none => rfl
    | some bytes =>
      show (releaseLoop fuel (buffered.erase next) (next + 1)).2.2 = _
      rw [ih, List.length_cons]
      omega

theorem nextSeq_of_lookup {s : State} {sid : SessionId} {e : SessionState}
    (h : s.sessions.lookup sid = some e) : s.nextSeq sid = e.nextSeq := by
  rw [State.nextSeq, queue_of_lookup h]

/-- A POST that releases bytes moves the next number on. -/
theorem nextSeq_lockPost (cfg : ServerConfig) (s : State) (i : ℕ) (sid : SessionId) (seq : ℕ)
    (frames : List BodyFrame) (remote : SocketAddr) :
    s.nextSeq sid ≤ (lockPost cfg s i sid seq frames remote).nextSeq sid ∧
      (((lockPost cfg s i sid seq frames remote).stage i).load ≠ [] →
        s.nextSeq sid < (lockPost cfg s i sid seq frames remote).nextSeq sid) := by
  unfold lockPost
  split
  · refine ⟨le_rfl, fun hload => absurd ?_ hload⟩
    simp only [State.setStage, Function.update_self, Stage.load]
  · next chunk hbody =>
    dsimp only
    split
    · refine ⟨?_, fun hload => absurd ?_ hload⟩
      · rw [← entry_nextSeq s sid remote]
        exact le_of_eq (nextSeq_of_lookup (AList.lookup_insert _)).symm
      · simp only [Function.update_self, Stage.load]
    · next e' writer chunks accept hgate =>
      obtain ⟨-, -, hrelease⟩ := admit_eq_drive hgate
      rw [entry_buffered, entry_nextSeq] at hrelease
      have hnext : e'.nextSeq = s.nextSeq sid + chunks.length := by
        have := releaseLoop_next ((s.queue sid).1.insert seq chunk).keys.length
          ((s.queue sid).1.insert seq chunk) (s.nextSeq sid)
        rw [← release, ← hrelease] at this
        exact this
      have hafter : ∀ {t : State}, t.sessions.lookup sid = some e' →
          s.nextSeq sid + chunks.length = t.nextSeq sid :=
        fun ht => hnext.symm.trans (nextSeq_of_lookup ht).symm
      refine ⟨(Nat.le_add_right _ _).trans_eq (hafter (AList.lookup_insert _)), fun hload => ?_⟩
      have hchunks : chunks ≠ [] := by
        rintro rfl
        exact hload (by simp only [Function.update_self, Stage.load, List.flatten_nil])
      exact (Nat.lt_add_of_pos_right (List.length_pos_iff.mpr hchunks)).trans_eq
        (hafter (AList.lookup_insert _))

theorem nextSeq_le_step {cfg : ServerConfig} {reqs : List Request} {s t : State} {e : Event}
    (h : step cfg reqs s e = some t) (sid : SessionId) : s.nextSeq sid ≤ t.nextSeq sid := by
  obtain ⟨r, hr, htouch⟩ := step_touches h
  by_cases hsid : sid = r.sid
  · subst hsid
    obtain ⟨i, sid, seq, frames, remote, rfl, hr', -, rfl⟩ | ⟨i, sid, remote, rfl, hr', -, rfl⟩ |
      ⟨i, r', writer, chunk, chunks, accept, rfl, hr', -, rfl⟩ |
      ⟨i, r', writer, accept, rfl, hr', -, rfl⟩ | ⟨i, r', accept, rfl, -, -, rfl⟩ := step_cases h
    · obtain rfl := Option.some.inj (hr.symm.trans hr')
      exact (nextSeq_lockPost cfg s i sid seq frames remote).1
    · obtain rfl := Option.some.inj (hr.symm.trans hr')
      exact le_of_eq (congrArg Prod.snd (queue_lockGet s i sid remote)).symm
    · cases writer <;> exact le_rfl
    · obtain rfl := Option.some.inj (hr.symm.trans hr')
      exact le_of_eq (congrArg Prod.snd (queue_reattach s i r.sid writer accept)).symm
    · exact le_rfl
  · rw [State.nextSeq, State.nextSeq, State.queue, State.queue, htouch.lookup_eq sid hsid]

/-! ## What the record of a handler says -/

/-- The next number of the session as the handler found it. -/
def Track.foundSeq (k : Track) : ℕ := (k.found.map SessionState.nextSeq).getD 0

/-- The record of a handler and where the handler is. -/
structure Sound (reqs : List Request) (f : FaultState) (i : ℕ) : Prop where
  fresh : f.base.stage i = .arrived → f.track i = .new
  /-- Without a failure, what is released is written or still to be written. -/
  whole : (f.track i).fate = none →
    (f.track i).written ++ (f.base.stage i).load = (f.track i).released
  late : (f.track i).fate = some .droppedAnnouncing → (f.track i).written = (f.track i).released
  /-- A failure in the loop leaves something unwritten for good. -/
  short : ∀ fate, (f.track i).fate = some fate → fate ≠ .droppedAnnouncing →
    (f.track i).written.length < (f.track i).released.length
  /-- An error ends the loop. -/
  stopped : (f.track i).fate = some .brokenWrite →
    ∀ writer chunk chunks accept, f.base.stage i ≠ .writing writer (chunk :: chunks) accept
  dropped : ∀ fate, (f.track i).fate = some fate → fate ≠ .brokenWrite → (f.track i).gone = true
  /-- The numbers of what has been released are behind the session. -/
  advanced : ∀ r, reqs[i]? = some r → (f.track i).released ≠ [] →
    (f.track i).foundSeq < f.base.nextSeq r.sid

namespace Sound

variable {cfg : ServerConfig} {reqs : List Request} {f g : FaultState} {i : ℕ}

/-- A handler that does not move, while others do. -/
theorem congr (h : Sound reqs f i) (hstage : g.base.stage i = f.base.stage i)
    (htrack : g.track i = f.track i) (hnext : ∀ sid, f.base.nextSeq sid ≤ g.base.nextSeq sid) :
    Sound reqs g i := by
  refine ⟨?_, ?_, ?_, ?_, ?_, ?_, ?_⟩
  all_goals rw [htrack]
  · rw [hstage]
    exact h.fresh
  · rw [hstage]
    exact h.whole
  · exact h.late
  · exact h.short
  · rw [hstage]
    exact h.stopped
  · exact h.dropped
  · exact fun r hr hne => (h.advanced r hr hne).trans_le (hnext r.sid)

/-- A handler that is still there has not failed, or its write has. -/
theorem fate_of_here (h : Sound reqs f i) (hhere : (f.track i).gone = false) :
    (f.track i).fate = none ∨ (f.track i).fate = some .brokenWrite := by
  cases hfate : (f.track i).fate with
  | none => exact Or.inl rfl
  | some fate =>
    by_cases hbroken : fate = .brokenWrite
    · exact Or.inr (congrArg some hbroken)
    · rw [h.dropped fate hfate hbroken] at hhere
      cases hhere

variable {chunks : List (List UInt8)} {accept : Option Session} {writer : Writer}
  (h : Sound reqs f i)

include h

variable {chunk : List UInt8}

/-- In the loop, a handler that is still there has not failed. -/
theorem fate_eq_none (hhere : (f.track i).gone = false)
    (hst : f.base.stage i = .writing writer (chunk :: chunks) accept) : (f.track i).fate = none :=
  (h.fate_of_here hhere).resolve_right fun hbroken => h.stopped hbroken _ _ _ _ hst

/-- What is released, seen from inside the loop. -/
theorem released_eq (hhere : (f.track i).gone = false)
    (hst : f.base.stage i = .writing writer (chunk :: chunks) accept) :
    (f.track i).written ++ (chunk ++ chunks.flatten) = (f.track i).released := by
  have hwhole := h.whole (h.fate_eq_none hhere hst)
  rw [hst] at hwhole
  exact hwhole

/-- A handler goes on, with nothing written. -/
theorem goesOn {x : Stage} (hstage : g.base.stage i = x) (hload : x.load = (f.base.stage i).load)
    (harrived : x ≠ .arrived)
    (hloop : ∀ writer chunk chunks accept, x ≠ .writing writer (chunk :: chunks) accept)
    (htrack : g.track i = f.track i) (hnext : ∀ sid, f.base.nextSeq sid ≤ g.base.nextSeq sid) :
    Sound reqs g i := by
  refine ⟨?_, ?_, ?_, ?_, ?_, ?_, ?_⟩
  · exact fun harr => absurd (hstage.symm.trans harr) harrived
  all_goals rw [htrack]
  · rw [hstage, hload]
    exact h.whole
  · exact h.late
  · exact h.short
  · rw [hstage]
    exact fun _ => hloop
  · exact h.dropped
  · exact fun r hr hne => (h.advanced r hr hne).trans_le (hnext r.sid)

/-- A handler fails in the loop. -/
theorem breaks (hhere : (f.track i).gone = false) {chunk part : List UInt8}
    (hst : f.base.stage i = .writing writer (chunk :: chunks) accept)
    (hpart : part.length < chunk.length) {fate : Fate} {gone : Bool}
    (hfate : fate = .brokenWrite ∧ g.base.stage i = .writing writer [] accept ∨
      fate = .droppedWriting ∧ gone = true ∧ g.base.stage i = f.base.stage i)
    (htrack : g.track i =
      { (f.track i).fails fate with written := (f.track i).written ++ part, gone := gone })
    (hnext : ∀ sid, f.base.nextSeq sid ≤ g.base.nextSeq sid) : Sound reqs g i := by
  have hreleased := h.released_eq hhere hst
  have hnew : (g.track i).fate = some fate := by
    rw [htrack]
    exact Track.fate_fails_of_none fate (h.fate_eq_none hhere hst)
  refine ⟨?_, ?_, ?_, ?_, ?_, ?_, ?_⟩
  · intro harr
    rcases hfate with ⟨-, hx⟩ | ⟨-, -, hx⟩
    · cases hx.symm.trans harr
    · cases hst.symm.trans (hx.symm.trans harr)
  · exact fun hn => nomatch hnew.symm.trans hn
  · intro hlate
    rcases hfate with ⟨rfl, -⟩ | ⟨rfl, -, -⟩ <;> cases hnew.symm.trans hlate
  · intro _ _ _
    rw [htrack]
    show ((f.track i).written ++ part).length < (f.track i).released.length
    rw [← hreleased]
    simp only [List.length_append]
    omega
  · intro hbroken writer' chunk' chunks' accept' hx'
    rcases hfate with ⟨-, hx⟩ | ⟨rfl, -, -⟩
    · cases hx.symm.trans hx'
    · cases hnew.symm.trans hbroken
  · intro fate' hfate' hne
    obtain rfl : fate = fate' := Option.some.inj (hnew.symm.trans hfate')
    rcases hfate with ⟨rfl, -⟩ | ⟨-, hgone, -⟩
    · exact absurd rfl hne
    · rw [htrack]
      exact hgone
  · intro r hr hne
    rw [htrack] at hne ⊢
    exact (h.advanced r hr hne).trans_le (hnext r.sid)

/-- A handler takes the lock. -/
theorem locks {r : Request} {t : State} (hr : reqs[i]? = some r) (hst : f.base.stage i = .arrived)
    (hbase : g.base = t) (harrived : t.stage i ≠ .arrived)
    (htrack : g.track i = f.note r t (.lock i))
    (hnext : (t.stage i).load ≠ [] → f.base.nextSeq r.sid < t.nextSeq r.sid) : Sound reqs g i := by
  subst hbase
  have hnew : g.track i =
      ⟨f.base.sessions.lookup r.sid, (g.base.stage i).load, [], none, false⟩ := by
    rw [htrack]
    show { f.track i with
      found := f.base.sessions.lookup r.sid, released := (g.base.stage i).load } = _
    rw [h.fresh hst]
    rfl
  refine ⟨fun harr => absurd harr harrived, ?_, ?_, ?_, ?_, ?_, ?_⟩
  all_goals rw [hnew]
  · exact fun _ => List.nil_append _
  · exact nofun
  · exact nofun
  · exact nofun
  · exact nofun
  · intro r' hr' hne
    obtain rfl : r = r' := Option.some.inj (hr.symm.trans hr')
    have hfound : Track.foundSeq
        ⟨f.base.sessions.lookup r.sid, (g.base.stage i).load, [], none, false⟩ =
          f.base.nextSeq r.sid := by
      rw [Track.foundSeq, State.nextSeq, State.queue]
      cases f.base.sessions.lookup r.sid <;> rfl
    rw [hfound]
    exact hnext hne

/-- A write that succeeds: the chunk goes from what is to be written to what is written. -/
theorem writes (hhere : (f.track i).gone = false) {part : List UInt8}
    (hst : f.base.stage i = .writing writer (chunk :: chunks) accept) (hpart : part = chunk)
    (hstage : g.base.stage i = .writing writer chunks accept)
    (htrack : g.track i = { f.track i with written := (f.track i).written ++ part })
    (hnext : ∀ sid, f.base.nextSeq sid ≤ g.base.nextSeq sid) : Sound reqs g i := by
  subst hpart
  have hnone : (g.track i).fate = none := by
    rw [htrack]
    exact h.fate_eq_none hhere hst
  refine ⟨?_, ?_, ?_, ?_, ?_, ?_, ?_⟩
  · exact fun harr => nomatch hstage.symm.trans harr
  · intro _
    rw [htrack, hstage]
    show ((f.track i).written ++ part) ++ chunks.flatten = (f.track i).released
    rw [List.append_assoc]
    exact h.released_eq hhere hst
  · exact fun hsome => nomatch hnone.symm.trans hsome
  · exact fun _ hsome => nomatch hnone.symm.trans hsome
  · exact fun hsome => nomatch hnone.symm.trans hsome
  · exact fun _ hsome => nomatch hnone.symm.trans hsome
  · intro r hr hne
    rw [htrack] at hne ⊢
    exact (h.advanced r hr hne).trans_le (hnext r.sid)

/-- A handler is dropped behind the loop. -/
theorem dropsLate (hhere : (f.track i).gone = false) {a : Session}
    (hst : f.base.stage i = .announcing (some a)) (hbase : g.base = f.base)
    (htrack : g.track i = { (f.track i).fails .droppedAnnouncing with gone := true }) :
    Sound reqs g i := by
  have hload : (f.base.stage i).load = [] := by
    rw [hst]
    rfl
  rcases h.fate_of_here hhere with hnone | hbroken
  · have hnew : (g.track i).fate = some .droppedAnnouncing := by
      rw [htrack]
      exact Track.fate_fails_of_none _ hnone
    refine ⟨?_, ?_, ?_, ?_, ?_, ?_, ?_⟩
    · rw [hbase]
      exact fun harr => nomatch hst.symm.trans harr
    · exact fun hn => nomatch hnew.symm.trans hn
    · intro _
      rw [htrack]
      show (f.track i).written = (f.track i).released
      have hwhole := h.whole hnone
      rw [hload, List.append_nil] at hwhole
      exact hwhole
    · exact fun fate hfate hne => absurd (Option.some.inj (hnew.symm.trans hfate)).symm hne
    · exact fun hb => nomatch hnew.symm.trans hb
    · intro _ _ _
      rw [htrack]
    · rw [htrack, hbase]
      exact h.advanced
  · have hnew : (g.track i).fate = some .brokenWrite := by
      rw [htrack]
      exact Track.fate_fails_of_some _ hbroken
    refine ⟨?_, ?_, ?_, ?_, ?_, ?_, ?_⟩
    · rw [hbase]
      exact fun harr => nomatch hst.symm.trans harr
    · exact fun hn => nomatch hnew.symm.trans hn
    · exact fun hlate => nomatch hnew.symm.trans hlate
    · intro _ _ _
      rw [htrack]
      exact h.short _ hbroken nofun
    · intro _ _ _ _ _ hx
      rw [hbase, hst] at hx
      cases hx
    · intro _ _ _
      rw [htrack]
    · rw [htrack, hbase]
      exact h.advanced

end Sound

theorem lockPost_stage_ne_arrived (cfg : ServerConfig) (s : State) (i : ℕ) (sid : SessionId)
    (seq : ℕ) (frames : List BodyFrame) (remote : SocketAddr) :
    (lockPost cfg s i sid seq frames remote).stage i ≠ .arrived := by
  unfold lockPost
  split
  · simp only [State.setStage, Function.update_self]
    exact Stage.noConfusion
  · dsimp only
    split
    · simp only [Function.update_self]
      exact Stage.noConfusion
    · simp only [Function.update_self]
      exact Stage.noConfusion

/-- A GET has nothing to write. -/
theorem lockGet_stage (s : State) (i : ℕ) (sid : SessionId) (remote : SocketAddr) :
    (lockGet s i sid remote).stage i ≠ .arrived ∧
      ((lockGet s i sid remote).stage i).load = [] := by
  simp only [lockGet, Function.update_self]
  split
  · exact ⟨Stage.noConfusion, rfl⟩
  · exact ⟨Stage.noConfusion, rfl⟩

section Runs

variable {cfg : ServerConfig} {reqs : List Request} {f g : FaultState}

/-- The handler whose step it is. -/
theorem sound_handler {e : Event} {r : Request} {t : State} (hs : Sound reqs f e.handler)
    (hr : reqs[e.handler]? = some r) (hhere : (f.track e.handler).gone = false)
    (h : step cfg reqs f.base e = some t) (hbase : g.base = t)
    (htrack : g.track e.handler = f.note r t e) : Sound reqs g e.handler := by
  have hnext : ∀ sid, f.base.nextSeq sid ≤ g.base.nextSeq sid := by
    rw [hbase]
    exact nextSeq_le_step h
  obtain ⟨i, sid, seq, frames, remote, rfl, hr', hst, rfl⟩ | ⟨i, sid, remote, rfl, hr', hst, rfl⟩ |
    ⟨i, r', writer, chunk, chunks, accept, rfl, hr', hst, rfl⟩ |
    ⟨i, r', writer, accept, rfl, hr', hst, rfl⟩ | ⟨i, r', accept, rfl, hr', hst, rfl⟩ :=
      step_cases h
  · obtain rfl := Option.some.inj (hr.symm.trans hr')
    exact hs.locks hr hst hbase (lockPost_stage_ne_arrived cfg f.base i sid seq frames remote)
      htrack (nextSeq_lockPost cfg f.base i sid seq frames remote).2
  · obtain ⟨harrived, hload⟩ := lockGet_stage f.base i sid remote
    exact hs.locks hr hst hbase harrived htrack fun hne => absurd hload hne
  · rw [FaultState.note] at htrack
    simp only [Event.handler, hst] at htrack hhere hs ⊢
    cases writer with
    | bridge =>
      refine hs.writes hhere hst rfl ?_ htrack hnext
      rw [hbase]
      exact Function.update_self _ _ _
    | placeholder =>
      have hstage : g.base.stage i =
          .writing .placeholder (if chunk = [] then chunks else []) accept := by
        rw [hbase]
        exact Function.update_self _ _ _
      by_cases hchunk : chunk = []
      · -- there was nothing to write
        simp only [if_pos hchunk] at htrack hstage
        refine hs.writes hhere hst hchunk.symm hstage ?_ hnext
        rw [htrack, List.append_nil]
      · simp only [if_neg hchunk] at htrack hstage
        have hbreaks : g.track i =
            { (f.track i).fails .brokenWrite with
              written := (f.track i).written ++ [], gone := (f.track i).gone } := by
          rw [htrack, List.append_nil]
          rfl
        have hpart : ([] : List UInt8).length < chunk.length := List.length_pos_iff.mpr hchunk
        exact hs.breaks hhere hst hpart (Or.inl ⟨rfl, hstage⟩) hbreaks hnext
  · have hstage : g.base.stage i = .announcing accept := by
      rw [hbase]
      exact Function.update_self _ _ _
    -- neither stage has anything to write
    have hload := (congrArg Stage.load hst).symm
    exact hs.goesOn hstage hload Stage.noConfusion (fun _ _ _ _ => Stage.noConfusion) htrack hnext
  · have hstage : g.base.stage i = .answered (.ok .ok) := by
      rw [hbase]
      exact Function.update_self _ _ _
    -- neither stage has anything to write
    have hload := (congrArg Stage.load hst).symm
    exact hs.goesOn hstage hload Stage.noConfusion (fun _ _ _ _ => Stage.noConfusion) htrack hnext

/-- **Every step keeps every handler's record sound.** -/
theorem sound_step (hs : ∀ i, Sound reqs f i) (h : faultStep cfg reqs f e = some g) :
    ∀ i, Sound reqs g i := by
  intro j
  obtain ⟨e', r, t, hr, hhere, hstep, rfl⟩ | ⟨hbase, htrack⟩ |
    ⟨i, r, writer, chunk, chunks, accept, part, x, fate, gone, hr, hhere, hst, hpart, hx, rfl⟩ |
    ⟨i, a, hst, hhere, hbase, htrack⟩ := faultStep_cases h
  · by_cases hj : j = e'.handler
    · subst hj
      exact sound_handler (hs _) hr hhere hstep rfl (Function.update_self _ _ _)
    · obtain ⟨r', -, htouch⟩ := step_touches hstep
      obtain ⟨x, hstage, -⟩ := htouch.stage_eq
      refine (hs j).congr ?_ (Function.update_of_ne hj _ _) (nextSeq_le_step hstep)
      show t.stage j = f.base.stage j
      rw [hstage, Function.update_of_ne hj]
  · refine (hs j).congr ?_ ?_ ?_
    · rw [hbase]
    · rw [htrack]
    · exact fun sid => le_of_eq (by rw [hbase])
  · by_cases hj : j = i
    · subst hj
      have hstage : (f.cutShort j r.sid part x fate gone).base.stage j = x :=
        Function.update_self _ _ _
      refine (hs j).breaks hhere hst hpart ?_ (Function.update_self _ _ _) fun _ => le_rfl
      rcases hx with ⟨rfl, rfl⟩ | ⟨rfl, rfl, rfl⟩
      · exact Or.inl ⟨rfl, hstage⟩
      · exact Or.inr ⟨rfl, rfl, hstage⟩
    · exact (hs j).congr (Function.update_of_ne hj _ _) (Function.update_of_ne hj _ _)
        fun _ => le_rfl
  · by_cases hj : j = i
    · subst hj
      refine (hs j).dropsLate hhere hst hbase ?_
      rw [htrack, Function.update_self]
    · refine (hs j).congr ?_ ?_ ?_
      · rw [hbase]
      · rw [htrack, Function.update_of_ne hj]
      · exact fun sid => le_of_eq (by rw [hbase])

theorem sound_start (reqs : List Request) (i : ℕ) : Sound reqs .start i :=
  ⟨fun _ => rfl, fun _ => rfl, nofun, nofun, nofun, nofun, fun _ _ hne => absurd rfl hne⟩

variable {events : List FaultEvent}

theorem sound_run (hrun : run (faultStep cfg reqs) .start events = some f) (i : ℕ) :
    Sound reqs f i :=
  run_inv (fun _ _ _ hs h => sound_step hs h) events (sound_start reqs) hrun i

/-! ## Without a failure in the loop -/

/-- No handler has failed in its loop. -/
def FaultState.Unbroken (f : FaultState) : Prop :=
  ∀ i fate, (f.track i).fate = some fate → fate = .droppedAnnouncing

variable {i : ℕ}

/-- A failure stays on record. -/
theorem fate_faultStep (h : faultStep cfg reqs f e = some g) {fate : Fate}
    (hfate : (f.track i).fate = some fate) : (g.track i).fate = some fate := by
  have hfails : ∀ other, ((f.track i).fails other).fate = some fate :=
    fun other => Track.fate_fails_of_some other hfate
  obtain ⟨e', r, t, -, -, -, rfl⟩ | ⟨-, htrack⟩ |
    ⟨j, r, writer, chunk, chunks, accept, part, x, other, gone, -, -, -, -, -, rfl⟩ |
    ⟨j, a, -, -, -, htrack⟩ := faultStep_cases h
  · show (Function.update f.track e'.handler (f.note r t e') i).fate = some fate
    by_cases hi : i = e'.handler
    · subst hi
      rw [Function.update_self]
      cases e' with
      | lock j => exact hfate
      | reattach j => exact hfate
      | announce j => exact hfate
      | write j =>
        simp only [FaultState.note]
        split
        · exact hfate
        · split
          · exact hfate
          · exact hfails _
        · exact hfate
    · rw [Function.update_of_ne hi]
      exact hfate
  · rw [htrack]
    exact hfate
  · show (Function.update f.track j _ i).fate = some fate
    by_cases hi : i = j
    · subst hi
      rw [Function.update_self]
      exact hfails _
    · rw [Function.update_of_ne hi]
      exact hfate
  · rw [htrack]
    by_cases hi : i = j
    · subst hi
      rw [Function.update_self]
      exact hfails _
    · rw [Function.update_of_ne hi]
      exact hfate

/-- A first failure in the loop is on record. -/
theorem fate_cutShort {sid : SessionId} {part : List UInt8} {x : Stage} {fate : Fate} {gone : Bool}
    (hnone : (f.track i).fate = none) :
    ((f.cutShort i sid part x fate gone).track i).fate = some fate := by
  show (Function.update f.track i _ i).fate = some fate
  rw [Function.update_self]
  exact Track.fate_fails_of_none fate hnone

theorem unbroken_before (h : faultStep cfg reqs f e = some g) (hg : g.Unbroken) : f.Unbroken :=
  fun i fate hfate => hg i fate (fate_faultStep h hfate)

/-- Without a failure in the loop the dispatcher does what it does without failures. -/
theorem base_run (hrun : run (faultStep cfg reqs) .start events = some f) (hf : f.Unbroken) :
    ∃ es, run (step cfg reqs) .start es = some f.base := by
  refine (run_inv (fun f e g (hs : (∀ i, Sound reqs f i) ∧
      (f.Unbroken → ∃ es, run (step cfg reqs) .start es = some f.base)) h =>
    ⟨sound_step hs.1 h, fun hg => ?_⟩) events ⟨sound_start reqs, fun _ => ⟨[], rfl⟩⟩ hrun).2 hf
  obtain ⟨es, hes⟩ := hs.2 (unbroken_before h hg)
  obtain ⟨e', r, t, -, -, hstep, rfl⟩ | ⟨hbase, -⟩ |
    ⟨i, r, writer, chunk, chunks, accept, part, x, fate, gone, -, hhere, hst, -, hx, rfl⟩ |
    ⟨i, a, -, -, hbase, -⟩ := faultStep_cases h
  · exact ⟨es ++ [e'], run_concat_eq_some.mpr ⟨f.base, hes, hstep⟩⟩
  · exact ⟨es, hbase ▸ hes⟩
  · -- the failure would be on record
    exfalso
    have hlate := hg i fate (fate_cutShort ((hs.1 i).fate_eq_none hhere hst))
    rcases hx with ⟨-, rfl⟩ | ⟨-, rfl, -⟩ <;> cases hlate
  · exact ⟨es, hbase ▸ hes⟩

/-- A step takes the writer of a session for a handler that then writes, or nobody's. -/
theorem releases_step {s t : State} {e : Event} (h : step cfg reqs s e = some t)
    (sid : SessionId) :
    t.releases sid = s.releases sid ∨
      ∃ i r writer chunks accept, reqs[i]? = some r ∧ r.sid = sid ∧
        t.stage i = .writing writer chunks accept ∧
        t.releases sid = s.releases sid ++ [(decide (writer = .bridge), chunks.flatten)] := by
  obtain ⟨i, own, seq, frames, remote, -, hr, -, rfl⟩ | ⟨i, own, remote, -, -, -, rfl⟩ |
    ⟨i, r, writer, chunk, chunks, accept, -, -, -, rfl⟩ | ⟨i, r, writer, accept, -, -, -, rfl⟩ |
    ⟨i, r, accept, -, -, -, rfl⟩ := step_cases h
  · by_cases hsid : sid = own
    · subst hsid
      unfold lockPost
      split
      · exact Or.inl rfl
      · dsimp only
        split
        · exact Or.inl rfl
        · next e' writer chunks accept hgate =>
          exact Or.inr ⟨i, _, writer, chunks, accept, hr, rfl, Function.update_self _ _ _,
            Function.update_self _ _ _⟩
    · exact Or.inl ((touches_lockPost cfg s i own seq frames remote).releases_eq sid hsid)
  · exact Or.inl rfl
  · cases writer <;> exact Or.inl rfl
  · exact Or.inl rfl
  · exact Or.inl rfl

/-- A handler that has bytes for the closed pipe, or that has failed in its loop. -/
def FaultState.Loses (f : FaultState) (i : ℕ) : Prop :=
  (∃ chunks accept, f.base.stage i = .writing .placeholder chunks accept ∧
    chunks.flatten ≠ []) ∨
  ∃ fate, (f.track i).fate = some fate ∧ fate ≠ .droppedAnnouncing

/-- A handler that loses bytes does not recover. -/
theorem loses_faultStep (hs : ∀ i, Sound reqs f i) (h : faultStep cfg reqs f e = some g)
    (hi : f.Loses i) : g.Loses i := by
  rcases hi with ⟨chunks, accept, hst, hne⟩ | ⟨fate, hfate, hlost⟩
  swap
  · exact Or.inr ⟨fate, fate_faultStep h hfate, hlost⟩
  -- with something to write, there is a chunk to write next
  obtain ⟨chunk, rest, rfl⟩ : ∃ chunk rest, chunks = chunk :: rest := by
    cases chunks with
    | nil => exact absurd rfl hne
    | cons chunk rest => exact ⟨chunk, rest, rfl⟩
  obtain ⟨e', r, t, hr, hhere, hstep, rfl⟩ | ⟨hbase, -⟩ |
    ⟨j, r, writer, chunk', chunks', accept', part, x, fate, gone, -, hhere, hst', -, hx, rfl⟩ |
    ⟨j, a, -, -, hbase, -⟩ := faultStep_cases h
  · by_cases hj : i = e'.handler
    · obtain ⟨j, sid, seq, frames, remote, rfl, -, hst', -⟩ | ⟨j, sid, remote, rfl, -, hst', -⟩ |
        ⟨j, r', writer, chunk', chunks', accept', rfl, -, hst', rfl⟩ |
        ⟨j, r', writer, accept', rfl, -, hst', -⟩ | ⟨j, r', accept', rfl, -, hst', -⟩ :=
          step_cases hstep
      all_goals obtain rfl : i = j := hj
      all_goals rw [hst] at hst'
      · cases hst'
      · cases hst'
      · cases hst'
        by_cases hchunk : chunk = []
        · refine Or.inl ⟨rest, accept, ?_, ?_⟩
          · show Function.update f.base.stage i
              (.writing .placeholder (if chunk = [] then rest else []) accept) i = _
            rw [Function.update_self, if_pos hchunk]
          · rw [List.flatten_cons, hchunk, List.nil_append] at hne
            exact hne
        · refine Or.inr ⟨.brokenWrite, ?_, nofun⟩
          show (Function.update f.track i (f.note r _ (.write i)) i).fate = some .brokenWrite
          rw [Function.update_self]
          simp only [FaultState.note, hst, if_neg hchunk]
          exact Track.fate_fails_of_none _ ((hs i).fate_eq_none hhere hst)
      · cases hst'
      · cases hst'
    · obtain ⟨r', -, htouch⟩ := step_touches hstep
      obtain ⟨x, hstage, -⟩ := htouch.stage_eq
      refine Or.inl ⟨chunk :: rest, accept, ?_, hne⟩
      show t.stage i = _
      rw [hstage, Function.update_of_ne hj, hst]
  · exact Or.inl ⟨chunk :: rest, accept, by rw [hbase, hst], hne⟩
  · by_cases hj : i = j
    · subst hj
      refine Or.inr ⟨fate, fate_cutShort ((hs i).fate_eq_none hhere hst), ?_⟩
      rcases hx with ⟨-, rfl⟩ | ⟨-, rfl, -⟩ <;> exact nofun
    · refine Or.inl ⟨chunk :: rest, accept, ?_, hne⟩
      show Function.update f.base.stage j x i = _
      rw [Function.update_of_ne hj, hst]
  · exact Or.inl ⟨chunk :: rest, accept, by rw [hbase, hst], hne⟩

/-- Whenever bytes were taken for the closed pipe, a handler of the session loses them. -/
def FaultState.Accounted (reqs : List Request) (sid : SessionId) (f : FaultState) : Prop :=
  ∀ taking ∈ f.base.releases sid, taking.1 = true ∨ taking.2 = [] ∨
    ∃ i r, reqs[i]? = some r ∧ r.sid = sid ∧ f.Loses i

theorem accounted_step {sid : SessionId} (hs : ∀ i, Sound reqs f i) (hf : f.Accounted reqs sid)
    (h : faultStep cfg reqs f e = some g) :
    g.Accounted reqs sid := by
  have hkeep : ∀ taking ∈ f.base.releases sid, taking.1 = true ∨ taking.2 = [] ∨
      ∃ i r, reqs[i]? = some r ∧ r.sid = sid ∧ g.Loses i := by
    intro taking htaking
    obtain hown | hnil | ⟨i, r, hr, hsid, hi⟩ := hf taking htaking
    · exact Or.inl hown
    · exact Or.inr (Or.inl hnil)
    · exact Or.inr (Or.inr ⟨i, r, hr, hsid, loses_faultStep hs h hi⟩)
  obtain ⟨e', r, t, -, -, hstep, rfl⟩ | ⟨hbase, -⟩ |
    ⟨i, r, writer, chunk, chunks, accept, part, x, fate, gone, -, -, -, -, -, rfl⟩ |
    ⟨i, a, -, -, hbase, -⟩ := faultStep_cases h
  · rcases releases_step hstep sid with
      hsame | ⟨i, r', writer, chunks, accept, hr', hsid, hstage, hnew⟩
    · intro taking htaking
      exact hkeep taking (hsame ▸ htaking)
    · intro taking htaking
      have hmem : taking ∈ f.base.releases sid ++ [(decide (writer = .bridge), chunks.flatten)] :=
        hnew ▸ htaking
      rcases List.mem_append.mp hmem with hold | hlast
      · exact hkeep taking hold
      · obtain rfl := List.mem_singleton.mp hlast
        cases writer with
        | bridge => exact Or.inl rfl
        | placeholder =>
          by_cases hflat : chunks.flatten = []
          · exact Or.inr (Or.inl hflat)
          · exact Or.inr (Or.inr ⟨i, r', hr', hsid, Or.inl ⟨chunks, accept, hstage, hflat⟩⟩)
  · intro taking htaking
    rw [hbase] at htaking
    exact hkeep taking htaking
  · exact hkeep
  · intro taking htaking
    rw [hbase] at htaking
    exact hkeep taking htaking

theorem accounted_run (hrun : run (faultStep cfg reqs) .start events = some f) (sid : SessionId) :
    f.Accounted reqs sid := by
  have hstart : FaultState.start.Accounted reqs sid := fun _ htaking => nomatch htaking
  exact (run_inv (fun f _ _ (hs : (∀ i, Sound reqs f i) ∧ f.Accounted reqs sid) h =>
    ⟨sound_step hs.1 h, accounted_step hs.1 hs.2 h⟩) events
    ⟨sound_start reqs, hstart⟩ hrun).2

/-- The session is not as the handler found it once something has been released. -/
theorem Sound.lookup_ne {r : Request} (h : Sound reqs f i) (hr : reqs[i]? = some r)
    (hne : (f.track i).released ≠ []) : f.base.sessions.lookup r.sid ≠ (f.track i).found := by
  intro hsame
  have hlt := h.advanced r hr hne
  rw [Track.foundSeq, ← hsame, State.nextSeq, State.queue] at hlt
  cases hlookup : f.base.sessions.lookup r.sid with
  | none =>
    rw [hlookup] at hlt
    exact Nat.lt_irrefl _ hlt
  | some e =>
    rw [hlookup] at hlt
    exact Nat.lt_irrefl _ hlt

end Runs

/-! ## Which failures are survived -/

/-- **A failure is survived if and only if it comes behind the loop.**  In every run, and
for every handler that has failed, the session is as the handler found it or all it released
has been written, exactly when the handler was dropped while it waited to announce the
session and had not failed before.  And when all failures are of that kind, no bytes of a
session were taken for the closed pipe, and the user side has the bodies of all numbers
below the next one, as soon as no handler of the session is writing. -/
theorem uplink_survives_iff (cfg : ServerConfig) (reqs : List Request)
    (events : List FaultEvent) (f : FaultState)
    (hrun : run (faultStep cfg reqs) .start events = some f) :
    (∀ i r fate, reqs[i]? = some r → (f.track i).fate = some fate →
      (f.Survived i r.sid ↔ fate = .droppedAnnouncing)) ∧
    (f.Unbroken → ∀ sid, (reqs.filterMap (Request.seqOf sid)).Nodup →
      (∀ i r, reqs[i]? = some r → r.sid = sid → (f.base.stage i).held = none) →
        (∀ taking ∈ f.base.releases sid, taking.1 = true ∨ taking.2 = []) ∧
          f.base.userSide sid = bodiesUpTo reqs sid (f.base.nextSeq sid)) := by
  refine ⟨?_, ?_⟩
  · intro i r fate hr hfate
    have hsound := sound_run hrun i
    constructor
    · intro hsurvived
      by_contra hloop
      have hshort := hsound.short fate hfate hloop
      have hne : (f.track i).released ≠ [] := by
        intro hnil
        rw [hnil] at hshort
        exact Nat.not_lt_zero _ hshort
      rcases hsurvived with hsame | hwritten
      · exact hsound.lookup_ne hr hne hsame
      · rw [hwritten] at hshort
        exact Nat.lt_irrefl _ hshort
    · rintro rfl
      exact Or.inr (hsound.late hfate)
  · intro hunbroken sid hdistinct hidle
    have htakings : ∀ taking ∈ f.base.releases sid, taking.1 = true ∨ taking.2 = [] := by
      intro taking htaking
      obtain hown | hnil | ⟨i, r, hr, hsid, hloses⟩ := accounted_run hrun sid taking htaking
      · exact Or.inl hown
      · exact Or.inr hnil
      · exfalso
        rcases hloses with ⟨chunks, accept, hst, -⟩ | ⟨fate, hfate, hlost⟩
        · have hheld := hidle i r hr hsid
          rw [hst] at hheld
          cases hheld
        · exact hlost (hunbroken i fate hfate)
    refine ⟨htakings, ?_⟩
    obtain ⟨es, hes⟩ := base_run hrun hunbroken
    exact (userSide_eq_iff_of_idle hdistinct hes hidle).mpr htakings

/-- The first POST has written its body and is dropped while it waits to announce. -/
def droppedBehind : List FaultEvent :=
  [.step (.lock 0), .step (.write 0), .step (.reattach 0), .dropAnnouncing 0]

theorem uplink_survives_iff_droppedBehind :
    ∃ f, run (faultStep someConfig twoPosts) .start droppedBehind = some f ∧
      (f.Survived 0 someSession ↔ Fate.droppedAnnouncing = .droppedAnnouncing) ∧
      f.base.userSide someSession =
        bodiesUpTo twoPosts someSession (f.base.nextSeq someSession) := by
  have hmain := uplink_survives_iff someConfig twoPosts droppedBehind _ rfl
  refine ⟨_, rfl, hmain.1 0 _ _ rfl rfl, (hmain.2 ?_ someSession (by decide) ?_).2⟩
  · intro i fate hfate
    match i, hfate with
    | 0, hfate => exact (Option.some.inj hfate).symm
  · intro i r hr _
    match i, hr with
    | 0, _ => rfl
    | 1, _ => rfl

/-- The first POST is dropped before a byte of its body is written.  The second one is then
answered 200 for a body that goes to the closed pipe; both numbers count as released, and
nothing has been or will be written. -/
theorem uplink_lost_droppedWriting :
    ∃ f, run (faultStep someConfig twoPosts) .start
        [.step (.lock 0), .dropWriting 0 0, .step (.lock 1), .step (.write 1),
          .step (.reattach 1), .step (.announce 1)] = some f ∧
      (f.track 0).fate = some .droppedWriting ∧ ¬f.Survived 0 someSession ∧
      f.base.stage 1 = .answered (.ok .ok) ∧
      f.base.releases someSession = [(true, [1]), (false, [2])] ∧
      f.base.nextSeq someSession = 2 ∧ bodiesUpTo twoPosts someSession 2 = [1, 2] ∧
      f.base.userSide someSession = [] := by
  refine ⟨_, rfl, rfl, ?_, rfl, rfl, rfl, rfl, rfl⟩
  rintro (hsame | hwritten)
  · cases hsame
  · cases hwritten

end Carrier
end HoldTheDonut
