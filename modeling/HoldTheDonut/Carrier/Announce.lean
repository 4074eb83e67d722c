import HoldTheDonut.Carrier.PacketUp

/-!
# `donut-carrier/src/server/packet_up.rs`: when a session is announced

A session has two halves, the POSTs and the GET, and the comments of `SessionState` say
that it is announced on the accept channel once both have come.  The decision is made in
the two lock sections, from the flag `accepted` and from whether the read half is still in
the entry.

Whichever request gets past the lock of an untouched entry first --- the *opener* --- takes
the announcement with it: a GET takes it without asking for a POST, and a POST takes it
exactly when the read half is still there, which is when no GET has come.  It makes the
announcement at the end of its handler.  `Heralded` follows the announcement from the
entry through the opener to the channel, and with it both parts of the question are
settled for every interleaving: there is one announcement at most, and both halves have
come before it precisely when a request of the other kind takes the lock while the opener
is still on its way.
-/

namespace HoldTheDonut
namespace Carrier

open Machine

/-! ## Openers -/

def Request.isGet : Request → Bool
  | .get _ _ => true
  | .post _ _ _ _ => false

/-- A request of the session, of the given kind, has taken the lock. -/
def Came (reqs : List Request) (sid : SessionId) (get : Bool) (events : List Event) : Prop :=
  ∃ i r, Event.lock i ∈ events ∧ reqs[i]? = some r ∧ r.sid = sid ∧ r.isGet = get

/-- Does the request get past the lock of a session nobody has touched?  A GET does, and a
POST whose body can be read and that is not turned away for want of buffers. -/
def Request.opens (cfg : ServerConfig) (sid : SessionId) : Request → Bool
  | .get sid' _ => decide (sid' = sid)
  | .post sid' seq frames _ =>
    decide (sid' = sid) && (collectBody cfg.maxPostBytes [] frames).isOk &&
      decide (seq = 0 ∨ 0 < cfg.maxBufferedPosts)

/-- The handler that an event gets past the lock. -/
def openedBy (cfg : ServerConfig) (reqs : List Request) (sid : SessionId) : Event → Option ℕ
  | .lock i => if (reqs[i]?).any (Request.opens cfg sid) then some i else none
  | _ => none

/-- The first handler past the lock of a session. -/
def opener (cfg : ServerConfig) (reqs : List Request) (sid : SessionId) (events : List Event) :
    Option ℕ :=
  events.findSome? (openedBy cfg reqs sid)

section Opener

variable {cfg : ServerConfig} {reqs : List Request} {sid : SessionId} {r : Request}

theorem Request.sid_of_opens (h : r.opens cfg sid = true) : r.sid = sid := by
  cases r with
  | get sid' remote => exact of_decide_eq_true h
  | post sid' seq frames remote =>
    rw [Request.opens, Bool.and_eq_true, Bool.and_eq_true] at h
    exact of_decide_eq_true h.1.1

theorem openedBy_lock {i : ℕ} (hr : reqs[i]? = some r) :
    openedBy cfg reqs sid (.lock i) = if r.opens cfg sid then some i else none := by
  rw [openedBy, hr, Option.any_some]

theorem openedBy_of_ne {e : Event} {i : ℕ} (he : e = .lock i) (hr : reqs[i]? = some r)
    (hsid : r.sid ≠ sid) : openedBy cfg reqs sid e = none := by
  rw [he, openedBy_lock hr, if_neg fun h => hsid (Request.sid_of_opens h)]

variable {events : List Event}

/-- The opener has taken the lock, and its request is one of the session. -/
theorem lock_of_opener {i : ℕ} (h : opener cfg reqs sid events = some i) :
    ∃ r, Event.lock i ∈ events ∧ reqs[i]? = some r ∧ r.sid = sid := by
  obtain ⟨e, hmem, he⟩ := List.exists_of_findSome?_eq_some h
  cases e with
  | lock j =>
    rw [openedBy] at he
    split at he
    · next hopens =>
      cases he
      cases hr : reqs[i]? with
      | none =>
        rw [hr] at hopens
        cases hopens
      | some r =>
        rw [hr, Option.any_some] at hopens
        exact ⟨r, hmem, rfl, Request.sid_of_opens hopens⟩
    · cases he
  | write j => cases he
  | reattach j => cases he
  | announce j => cases he

theorem opener_concat (events : List Event) (e : Event) :
    opener cfg reqs sid (events ++ [e]) =
      (opener cfg reqs sid events).or (openedBy cfg reqs sid e) := by
  unfold opener
  rw [List.findSome?_append, List.findSome?_singleton]

/-- An opener stays the opener. -/
theorem opener_concat_of_some {i : ℕ} (h : opener cfg reqs sid events = some i) (e : Event) :
    opener cfg reqs sid (events ++ [e]) = some i := by
  rw [opener_concat, h, Option.some_or]

theorem opener_concat_of_none (h : opener cfg reqs sid events = none) (e : Event) :
    opener cfg reqs sid (events ++ [e]) = openedBy cfg reqs sid e := by
  rw [opener_concat, h, Option.none_or]

end Opener

/-! ## The announcement on its way -/

/-- The announcement a handler has taken and not made yet. -/
def Stage.pending : Stage → Option Session
  | .writing _ _ accept => accept
  | .announcing accept => accept
  | _ => none

/-- The announcements of a session. -/
def State.announcedFor (s : State) (sid : SessionId) : List Session :=
  s.announced.filter fun a => decide (a.sessionId = sid)

/-- Announcements bear the name of their session, wherever they are. -/
structure Named (reqs : List Request) (s : State) : Prop where
  entry : ∀ sid e a, s.sessions.lookup sid = some e → e.acceptPending = some a →
    a.sessionId = sid
  handler : ∀ i r a, reqs[i]? = some r → (s.stage i).pending = some a → a.sessionId = r.sid

theorem named_start (reqs : List Request) : Named reqs .start where
  entry := by
    intro sid e a h
    cases h
  handler := by
    intro i r a _ h
    cases h

variable {sid : SessionId} {a : Session} {s : State}

/-- The entry a request finds, there or fresh, has an announcement of its session. -/
theorem Named.entry_pending {reqs : List Request} (hs : Named reqs s) {remote : SocketAddr}
    (h : (s.entry sid remote).acceptPending = some a) : a.sessionId = sid := by
  unfold State.entry at h
  cases hlookup : s.sessions.lookup sid with
  | some e =>
    rw [hlookup] at h
    exact hs.entry sid e a hlookup h
  | none =>
    rw [hlookup] at h
    cases h
    rfl

theorem takeAccept_cases (e : SessionState) :
    (e.takeAccept = (e, none) ∧ (e.accepted = true ∨ e.downlinkRd = false)) ∨
    (e.accepted = false ∧
      e.takeAccept = ({ e with accepted := true, acceptPending := none }, e.acceptPending)) := by
  unfold SessionState.takeAccept
  split
  · next h => exact Or.inl ⟨rfl, Or.inr h.2⟩
  · split
    · next h => exact Or.inr ⟨h, rfl⟩
    · next h => exact Or.inl ⟨rfl, Or.inl (by simpa using h)⟩

variable {accept : Option Session} {chunks : List (List UInt8)} {cfg : ServerConfig}
  {chunk : List UInt8} {writer : Writer} {e e' : SessionState} {seq : ℕ}

/-- What a POST does with the flags of the entry, and what it leaves the lock with. -/
theorem admit_accept (h : e.admit cfg seq chunk = .drive e' writer chunks accept) :
    (e'.accepted, e'.acceptPending, accept) =
      (e.takeAccept.1.accepted, e.takeAccept.1.acceptPending, e.takeAccept.2) := by
  unfold SessionState.admit at h
  split at h
  · cases h
  · split at h
    · cases h
    · cases h
      rfl

theorem attachDownlink_pending
    (h : e.attachDownlink.1.acceptPending = some a ∨ e.attachDownlink.2.2 = some a) :
    e.acceptPending = some a := by
  unfold SessionState.attachDownlink at h
  split at h
  · rcases h with h | h
    · cases h
    · exact h
  · rcases h with h | h
    · exact h
    · cases h

theorem admit_pending (h : e.admit cfg seq chunk = .drive e' writer chunks accept)
    (ha : e'.acceptPending = some a ∨ accept = some a) : e.acceptPending = some a := by
  have haccept := admit_accept h
  simp only [Prod.mk.injEq] at haccept
  obtain ⟨-, hpending, hgiven⟩ := haccept
  rw [hpending, hgiven] at ha
  rcases takeAccept_cases e with ⟨htake, -⟩ | ⟨-, htake⟩ <;> rw [htake] at ha
  · rcases ha with ha | ha
    · exact ha
    · cases ha
  · rcases ha with ha | ha
    · cases ha
    · exact ha

section Steps

variable {reqs : List Request} {t : State} {i : ℕ} {r : Request} {x : Stage} (hs : Named reqs s)

include hs

/-- One handler goes on. -/
theorem Named.handler_update (hstage : t.stage = Function.update s.stage i x)
    (hx : ∀ r a, reqs[i]? = some r → x.pending = some a → a.sessionId = r.sid) :
    ∀ j r a, reqs[j]? = some r → (t.stage j).pending = some a → a.sessionId = r.sid := by
  intro j r a hr ha
  rw [hstage] at ha
  by_cases hj : j = i
  · subst hj
    rw [Function.update_self] at ha
    exact hx r a hr ha
  · rw [Function.update_of_ne hj] at ha
    exact hs.handler j r a hr ha

/-- One more entry in the table and one more handler on its way: both named. -/
theorem Named.insert (hr : reqs[i]? = some r) (hsessions : t.sessions = s.sessions.insert r.sid e)
    (hstage : t.stage = Function.update s.stage i x)
    (he : ∀ a, e.acceptPending = some a → a.sessionId = r.sid)
    (hx : ∀ a, x.pending = some a → a.sessionId = r.sid) : Named reqs t where
  entry := by
    intro sid e' a he' ha
    rw [hsessions] at he'
    rcases lookup_insert_cases he' with ⟨rfl, rfl⟩ | ⟨-, hold⟩
    · exact he a ha
    · exact hs.entry sid e' a hold ha
  handler := hs.handler_update hstage fun r' a hr' ha => by
    rw [Option.some.inj (hr'.symm.trans hr)]
    exact hx a ha

/-- A handler goes on with no announcement it did not have. -/
theorem Named.update (hsessions : t.sessions = s.sessions)
    (hstage : t.stage = Function.update s.stage i x)
    (hx : ∀ a, x.pending = some a → (s.stage i).pending = some a) : Named reqs t where
  entry := by
    intro sid e a he ha
    rw [hsessions] at he
    exact hs.entry sid e a he ha
  handler := hs.handler_update hstage fun r' a hr' ha => hs.handler i r' a hr' (hx a ha)

theorem Named.lockPost {frames : List BodyFrame} {remote : SocketAddr}
    (hr : reqs[i]? = some (.post sid seq frames remote)) :
    Named reqs (lockPost cfg s i sid seq frames remote) := by
  unfold Carrier.lockPost
  split
  · exact hs.update rfl rfl fun a ha => by cases ha
  · dsimp only
    split
    · exact hs.insert hr rfl rfl (fun a ha => hs.entry_pending ha) fun a ha => by cases ha
    · next hgate =>
      exact hs.insert hr rfl rfl
        (fun a ha => hs.entry_pending (admit_pending hgate (Or.inl ha)))
        fun a ha => hs.entry_pending (admit_pending hgate (Or.inr ha))

theorem Named.lockGet {remote : SocketAddr} (hr : reqs[i]? = some (.get sid remote)) :
    Named reqs (lockGet s i sid remote) := by
  refine hs.insert hr rfl rfl
    (fun a ha => hs.entry_pending (attachDownlink_pending (Or.inl ha))) fun a ha => ?_
  split at ha
  · exact hs.entry_pending (attachDownlink_pending (Or.inr ha))
  · cases ha

theorem Named.reattach (hr : reqs[i]? = some r) (hst : s.stage i = .writing writer [] accept) :
    Named reqs (reattach s i r.sid writer accept) := by
  have hpending : ∀ a, (Stage.announcing accept).pending = some a →
      (s.stage i).pending = some a := by
    intro a ha
    rw [hst]
    exact ha
  unfold Carrier.reattach
  cases hlookup : s.sessions.lookup r.sid with
  | none => exact hs.update rfl rfl hpending
  | some e =>
    exact hs.insert hr rfl rfl (fun a ha => hs.entry _ e a hlookup ha)
      fun a ha => hs.handler i r a hr (hpending a ha)

theorem Named.step {e : Event} (h : step cfg reqs s e = some t) : Named reqs t := by
  obtain ⟨i, sid, seq, frames, remote, -, hr, -, rfl⟩ | ⟨i, sid, remote, -, hr, -, rfl⟩ |
    ⟨i, r, writer, chunk, chunks, accept, -, hr, hst, rfl⟩ |
    ⟨i, r, writer, accept, -, hr, hst, rfl⟩ | ⟨i, r, accept, -, hr, hst, rfl⟩ := step_cases h
  · exact hs.lockPost hr
  · exact hs.lockGet hr
  · cases writer <;>
      exact hs.update rfl rfl fun a ha => by rw [hst]; exact ha
  · exact hs.reattach hr hst
  · exact hs.update rfl rfl fun a ha => by cases ha

end Steps

/-! ## One announcement, by the opener -/

/-- Nobody has got past the lock of the entry. -/
structure Untouched (e : SessionState) : Prop where
  nextSeq_eq : e.nextSeq = 0
  buffered_eq : e.buffered = ∅
  downlinkRd_eq : e.downlinkRd = true
  accepted_eq : e.accepted = false
  pending : ∃ a, e.acceptPending = some a

theorem untouched_freshState (sid : SessionId) (remote : SocketAddr) :
    Untouched (freshState sid remote) :=
  ⟨rfl, rfl, rfl, rfl, _, rfl⟩

/-- The announcement of a session after a history: in the entry, which is untouched, or
with the opener, or made by it. -/
structure Heralded (cfg : ServerConfig) (reqs : List Request) (sid : SessionId)
    (events : List Event) (s : State) : Prop where
  unopened : opener cfg reqs sid events = none →
    (∀ e, s.sessions.lookup sid = some e → Untouched e) ∧ s.announcedFor sid = []
  opened : ∀ i, opener cfg reqs sid events = some i →
    (∃ e, s.sessions.lookup sid = some e ∧ e.accepted = true) ∧
      ((∃ a, (s.stage i).pending = some a ∧ a.sessionId = sid ∧ s.announcedFor sid = []) ∨
        ((∃ answer, s.stage i = .answered answer) ∧ (s.announcedFor sid).length = 1 ∧
          ∃ pre, pre ++ [Event.announce i] <+: events ∧ opener cfg reqs sid pre = some i))
  /-- Nobody else has it. -/
  only : ∀ j a, (s.stage j).pending = some a → a.sessionId = sid →
    opener cfg reqs sid events = some j

theorem heralded_start (cfg : ServerConfig) (reqs : List Request) (sid : SessionId) :
    Heralded cfg reqs sid [] .start where
  unopened := by
    intro _
    refine ⟨?_, rfl⟩
    intro e he
    cases he
  opened := by
    intro i hi
    cases hi
  only := by
    intro j a ha
    cases ha

namespace Heralded

variable {cfg : ServerConfig} {reqs : List Request} {sid : SessionId} {events : List Event}
  {s t : State} {j : ℕ} {x : Stage} {e : Event}

/-- A step that neither opens the session nor announces it. -/
theorem quiet (hs : Heralded cfg reqs sid events s)
    (hopens : opener cfg reqs sid events = none → openedBy cfg reqs sid e = none)
    (huntouched : (∀ e, s.sessions.lookup sid = some e → Untouched e) →
      ∀ e, t.sessions.lookup sid = some e → Untouched e)
    (haccepted : ∀ e, s.sessions.lookup sid = some e → e.accepted = true →
      ∃ e', t.sessions.lookup sid = some e' ∧ e'.accepted = true)
    (hstage : t.stage = Function.update s.stage j x)
    (hpending : ∀ a, a.sessionId = sid → (x.pending = some a ↔ (s.stage j).pending = some a))
    (hbusy : ∀ answer, s.stage j ≠ .answered answer)
    (hann : t.announcedFor sid = s.announcedFor sid) :
    Heralded cfg reqs sid (events ++ [e]) t where
  unopened := by
    intro hnone
    cases hopener : opener cfg reqs sid events with
    | some i =>
      rw [opener_concat_of_some hopener] at hnone
      cases hnone
    | none =>
      obtain ⟨hentries, hnil⟩ := hs.unopened hopener
      exact ⟨huntouched hentries, hann.trans hnil⟩
  opened := by
    intro i hi
    cases hopener : opener cfg reqs sid events with
    | none =>
      rw [opener_concat_of_none hopener, hopens hopener] at hi
      cases hi
    | some i' =>
      rw [opener_concat_of_some hopener] at hi
      cases hi
      obtain ⟨⟨e', he', hacc⟩, hwhere⟩ := hs.opened i hopener
      refine ⟨haccepted e' he' hacc, ?_⟩
      rw [hann, hstage]
      rcases hwhere with ⟨a, ha, hasid, hnil⟩ | ⟨⟨answer, hanswer⟩, hone, pre, hpre, hpreo⟩
      · refine Or.inl ⟨a, ?_, hasid, hnil⟩
        by_cases hij : i = j
        · subst hij
          rw [Function.update_self]
          exact (hpending a hasid).mpr ha
        · rw [Function.update_of_ne hij]
          exact ha
      · have hij : i ≠ j := by
          rintro rfl
          exact hbusy answer hanswer
        refine Or.inr ⟨⟨answer, ?_⟩, hone, pre, hpre.trans (List.prefix_append _ _), hpreo⟩
        rw [Function.update_of_ne hij]
        exact hanswer
  only := by
    intro k a ha hasid
    have hbefore : (s.stage k).pending = some a := by
      rw [hstage] at ha
      by_cases hkj : k = j
      · subst hkj
        rw [Function.update_self] at ha
        exact (hpending a hasid).mp ha
      · rw [Function.update_of_ne hkj] at ha
        exact ha
    exact opener_concat_of_some (hs.only k a hbefore hasid) e

/-- The first request past the lock takes the announcement. -/
theorem opening (hs : Heralded cfg reqs sid events s)
    (hnone : opener cfg reqs sid events = none) (hopens : openedBy cfg reqs sid e = some j)
    (haccepted : ∃ e', t.sessions.lookup sid = some e' ∧ e'.accepted = true)
    (hstage : t.stage = Function.update s.stage j x)
    (hpending : ∃ a, x.pending = some a ∧ a.sessionId = sid)
    (hann : t.announced = s.announced) : Heralded cfg reqs sid (events ++ [e]) t where
  unopened := by
    intro h
    rw [opener_concat_of_none hnone, hopens] at h
    cases h
  opened := by
    intro i hi
    rw [opener_concat_of_none hnone, hopens] at hi
    cases hi
    obtain ⟨a, ha, hasid⟩ := hpending
    refine ⟨haccepted, Or.inl ⟨a, ?_, hasid, ?_⟩⟩
    · rw [hstage, Function.update_self]
      exact ha
    · rw [State.announcedFor, hann]
      exact (hs.unopened hnone).2
  only := by
    intro k a ha hasid
    rw [opener_concat_of_none hnone, hopens]
    by_cases hkj : k = j
    · rw [hkj]
    · rw [hstage, Function.update_of_ne hkj] at ha
      have hk := hs.only k a ha hasid
      rw [hnone] at hk
      cases hk

variable {r : Request}

/-- A step for another session. -/
theorem other (hs : Heralded cfg reqs sid events s) (hr : reqs[j]? = some r) (hsid : r.sid ≠ sid)
    (htouch : Touches s t j r.sid) (hs' : Named reqs s) (ht' : Named reqs t)
    (hopens : openedBy cfg reqs sid e = none) (hbusy : ∀ answer, s.stage j ≠ .answered answer)
    (hann : t.announcedFor sid = s.announcedFor sid) :
    Heralded cfg reqs sid (events ++ [e]) t := by
  obtain ⟨x, hstage, -⟩ := htouch.stage_eq
  have hlookup := htouch.lookup_eq sid hsid.symm
  refine hs.quiet (fun _ => hopens) ?_ ?_ hstage ?_ hbusy hann
  · rw [hlookup]
    exact id
  · intro e' he' hacc
    exact ⟨e', hlookup.trans he', hacc⟩
  · -- neither before nor after does the handler have an announcement of this session
    intro a hasid
    constructor
    · intro ha
      have hname := ht'.handler j r a hr (by rw [hstage, Function.update_self]; exact ha)
      exact absurd (hname.symm.trans hasid) hsid
    · intro ha
      exact absurd ((hs'.handler j r a hr ha).symm.trans hasid) hsid

end Heralded

/-! ## The steps of the session's own handlers -/

/-- A POST is turned away from an untouched entry for want of buffers only. -/
theorem admit_untouched_answer (he : Untouched e) {status : Status}
    (h : e.admit cfg seq chunk = .answer status) : ¬ (seq = 0 ∨ 0 < cfg.maxBufferedPosts) := by
  unfold SessionState.admit at h
  rw [he.nextSeq_eq] at h
  split at h
  · omega
  · split at h
    · next hfull =>
      rw [he.buffered_eq] at hfull
      obtain ⟨hpos, hle⟩ := hfull
      have hzero : cfg.maxBufferedPosts ≤ 0 := hle
      omega
    · cases h

theorem admit_untouched_drive (he : Untouched e)
    (h : e.admit cfg seq chunk = .drive e' writer chunks accept) :
    (seq = 0 ∨ 0 < cfg.maxBufferedPosts) ∧ accept = e.acceptPending ∧ e'.accepted = true := by
  have haccept := admit_accept h
  have htake : e.takeAccept = ({ e with accepted := true, acceptPending := none },
      e.acceptPending) := by
    unfold SessionState.takeAccept
    rw [if_neg (by rw [he.downlinkRd_eq]; simp), if_pos he.accepted_eq]
  rw [htake] at haccept
  simp only [Prod.mk.injEq] at haccept
  refine ⟨?_, haccept.2.2, haccept.1⟩
  unfold SessionState.admit at h
  rw [he.nextSeq_eq, he.buffered_eq] at h
  split at h
  · cases h
  · split at h
    · cases h
    · next hroom =>
      have hroom' : ¬ (0 < seq ∧ cfg.maxBufferedPosts ≤ 0) := hroom
      omega

theorem admit_accepted_drive (he : e.accepted = true)
    (h : e.admit cfg seq chunk = .drive e' writer chunks accept) :
    accept = none ∧ e'.accepted = true := by
  have haccept := admit_accept h
  rcases takeAccept_cases e with ⟨htake, -⟩ | ⟨hfalse, -⟩
  · rw [htake] at haccept
    simp only [Prod.mk.injEq] at haccept
    exact ⟨haccept.2.2, haccept.1.trans he⟩
  · rw [he] at hfalse
    cases hfalse

theorem entry_of_lookup (h : s.sessions.lookup sid = some e) (remote : SocketAddr) :
    s.entry sid remote = e := by
  unfold State.entry
  rw [h, Option.getD_some]

/-- An entry that is not there yet is untouched. -/
theorem untouched_entry (h : ∀ e, s.sessions.lookup sid = some e → Untouched e)
    (remote : SocketAddr) : Untouched (s.entry sid remote) := by
  cases hlookup : s.sessions.lookup sid with
  | some e =>
    rw [entry_of_lookup hlookup]
    exact h e hlookup
  | none =>
    unfold State.entry
    rw [hlookup]
    exact untouched_freshState sid remote

namespace Heralded

variable {reqs : List Request} {events : List Event} {j : ℕ} (hs : Heralded cfg reqs sid events s)

include hs

/-- An entry is not both untouched and accepted. -/
theorem not_untouched {i : ℕ} (hi : opener cfg reqs sid events = some i)
    (h : ∀ e, s.sessions.lookup sid = some e → Untouched e) : False := by
  obtain ⟨⟨e, he, hacc⟩, -⟩ := hs.opened i hi
  rw [(h e he).accepted_eq] at hacc
  cases hacc

theorem lockPost (hn : Named reqs s) {frames : List BodyFrame} {remote : SocketAddr}
    (hr : reqs[j]? = some (.post sid seq frames remote)) (hst : s.stage j = .arrived) :
    Heralded cfg reqs sid (events ++ [.lock j]) (lockPost cfg s j sid seq frames remote) := by
  have hbusy : ∀ answer, s.stage j ≠ .answered answer := by
    intro answer h
    rw [hst] at h
    cases h
  -- a stage without announcement is as good as the one before the lock
  have hidle : ∀ x : Stage, x.pending = none → ∀ a : Session, a.sessionId = sid →
      (x.pending = some a ↔ (s.stage j).pending = some a) := by
    intro x hx a _
    rw [hx, hst]
    exact Iff.rfl
  unfold Carrier.lockPost
  split
  · next err hbody =>
    refine hs.quiet (fun _ => ?_) id (fun e he hacc => ⟨e, he, hacc⟩) rfl (hidle _ rfl) hbusy rfl
    rw [openedBy_lock hr, Request.opens, hbody]
    simp [Except.isOk, Except.toBool]
  · next chunk hbody =>
    have hopens : openedBy cfg reqs sid (.lock j) =
        if seq = 0 ∨ 0 < cfg.maxBufferedPosts then some j else none := by
      rw [openedBy_lock hr, Request.opens, hbody]
      simp [Except.isOk, Except.toBool]
    dsimp only
    split
    · next status hgate =>
      refine hs.quiet ?_ ?_ ?_ rfl (hidle _ rfl) hbusy rfl
      · intro hnone
        rw [hopens, if_neg (admit_untouched_answer
          (untouched_entry (hs.unopened hnone).1 remote) hgate)]
      · intro hentries e he
        rw [AList.lookup_insert] at he
        cases he
        exact untouched_entry hentries remote
      · intro e he hacc
        refine ⟨_, AList.lookup_insert _, ?_⟩
        rw [entry_of_lookup he]
        exact hacc
    · next e' writer chunks accept hgate =>
      cases hopener : opener cfg reqs sid events with
      | none =>
        have hentry := untouched_entry (hs.unopened hopener).1 remote
        obtain ⟨hroom, haccept, hacc⟩ := admit_untouched_drive hentry hgate
        obtain ⟨a, ha⟩ := hentry.pending
        refine hs.opening hopener (j := j) ?_ ⟨_, AList.lookup_insert _, hacc⟩ rfl
          ⟨a, haccept.trans ha, hn.entry_pending ha⟩ rfl
        rw [hopens, if_pos hroom]
      | some i =>
        obtain ⟨⟨e, he, hacc⟩, -⟩ := hs.opened i hopener
        rw [entry_of_lookup he] at hgate
        obtain ⟨haccept, hacc'⟩ := admit_accepted_drive hacc hgate
        refine hs.quiet (fun hnone => ?_) (fun h => (hs.not_untouched hopener h).elim)
          (fun _ _ _ => ⟨_, AList.lookup_insert _, hacc'⟩) rfl (hidle _ haccept) hbusy rfl
        rw [hopener] at hnone
        cases hnone

theorem lockGet (hn : Named reqs s) {remote : SocketAddr} (hr : reqs[j]? = some (.get sid remote))
    (hst : s.stage j = .arrived) :
    Heralded cfg reqs sid (events ++ [.lock j]) (lockGet s j sid remote) := by
  have hopens : openedBy cfg reqs sid (.lock j) = some j := by
    rw [openedBy_lock hr, Request.opens, decide_eq_true rfl, if_pos rfl]
  cases hopener : opener cfg reqs sid events with
  | none =>
    have hentry := untouched_entry (hs.unopened hopener).1 remote
    have hattach : (s.entry sid remote).attachDownlink =
        ({ s.entry sid remote with downlinkRd := false, accepted := true, acceptPending := none },
          true, (s.entry sid remote).acceptPending) := by
      unfold SessionState.attachDownlink
      rw [if_pos hentry.accepted_eq, hentry.downlinkRd_eq]
    obtain ⟨a, ha⟩ := hentry.pending
    refine hs.opening hopener hopens ⟨_, AList.lookup_insert _, ?_⟩ rfl ⟨a, ?_, hn.entry_pending ha⟩
      rfl
    · rw [hattach]
    · rw [hattach, if_pos rfl]
      exact ha
  | some i =>
    obtain ⟨⟨e, he, hacc⟩, -⟩ := hs.opened i hopener
    have hattach : (s.entry sid remote).attachDownlink =
        ({ e with downlinkRd := false }, e.downlinkRd, none) := by
      rw [entry_of_lookup he]
      unfold SessionState.attachDownlink
      rw [if_neg (by rw [hacc]; decide)]
    refine hs.quiet (fun hnone => ?_) (fun h => (hs.not_untouched hopener h).elim)
      (fun _ _ _ => ⟨_, AList.lookup_insert _, ?_⟩) rfl ?_ ?_ rfl
    · rw [hopener] at hnone
      cases hnone
    · rw [hattach]
      exact hacc
    · intro a _
      rw [hst, hattach]
      cases e.downlinkRd <;> exact Iff.rfl
    · intro answer h
      rw [hst] at h
      cases h

/-- Writing and putting the writer back: the announcement stays with the handler. -/
theorem goesOn {t : State} {x : Stage} {e : Event} (he : ∀ i, e ≠ .lock i)
    (hentry : ∀ e', s.sessions.lookup sid = some e' → ∃ w,
      t.sessions.lookup sid = some { e' with uploadWr := w })
    (hnone : s.sessions.lookup sid = none → t.sessions.lookup sid = none)
    (hstage : t.stage = Function.update s.stage j x) (hpending : x.pending = (s.stage j).pending)
    (hbusy : ∀ answer, s.stage j ≠ .answered answer) (hann : t.announced = s.announced) :
    Heralded cfg reqs sid (events ++ [e]) t := by
  refine hs.quiet (fun _ => ?_) ?_ ?_ hstage (fun a _ => by rw [hpending]) hbusy
    (by rw [State.announcedFor, State.announcedFor, hann])
  · cases e with
    | lock i => exact absurd rfl (he i)
    | write i => rfl
    | reattach i => rfl
    | announce i => rfl
  · intro huntouched e' he'
    cases hlookup : s.sessions.lookup sid with
    | none =>
      rw [hnone hlookup] at he'
      cases he'
    | some e'' =>
      obtain ⟨w, hw⟩ := hentry e'' hlookup
      rw [hw] at he'
      cases he'
      have hun := huntouched e'' hlookup
      exact ⟨hun.nextSeq_eq, hun.buffered_eq, hun.downlinkRd_eq, hun.accepted_eq, hun.pending⟩
  · intro e' he' hacc
    obtain ⟨w, hw⟩ := hentry e' he'
    exact ⟨_, hw, hacc⟩

theorem announce (hst : s.stage j = .announcing accept)
    (hname : ∀ a, accept = some a → a.sessionId = sid) :
    Heralded cfg reqs sid (events ++ [.announce j]) (announce s j accept) := by
  have hbusy : ∀ answer, s.stage j ≠ .answered answer := by
    intro answer h
    rw [hst] at h
    cases h
  cases haccept : accept with
  | none =>
    refine hs.goesOn (fun i h => by cases h) (fun e' he' => ⟨e'.uploadWr, he'⟩) id rfl ?_ hbusy
      (List.append_nil _)
    rw [hst, haccept]
    rfl
  | some a =>
    have hasid := hname a haccept
    have hpending : (s.stage j).pending = some a := by
      rw [hst, haccept]
      rfl
    have hopener := hs.only j a hpending hasid
    obtain ⟨hentry, hwhere⟩ := hs.opened j hopener
    have hnil : s.announcedFor sid = [] := by
      rcases hwhere with ⟨-, -, -, hnil⟩ | ⟨⟨answer, hanswer⟩, -⟩
      · exact hnil
      · exact absurd hanswer (hbusy answer)
    refine ⟨fun hnone => ?_, fun i hi => ⟨?_, Or.inr ⟨?_, ?_, events, ?_, ?_⟩⟩,
      fun k b hb hbsid => ?_⟩
    · rw [opener_concat_of_some hopener] at hnone
      cases hnone
    · exact hentry
    · rw [opener_concat_of_some hopener] at hi
      cases hi
      exact ⟨_, Function.update_self _ _ _⟩
    · change ((s.announced ++ [a]).filter fun b => decide (b.sessionId = sid)).length = 1
      rw [List.filter_append]
      change (s.announcedFor sid ++ _).length = 1
      rw [hnil, List.filter_cons_of_pos (by rw [hasid]; exact decide_eq_true rfl)]
      rfl
    · rw [opener_concat_of_some hopener] at hi
      cases hi
      exact List.prefix_rfl
    · rw [opener_concat_of_some hopener] at hi
      exact hopener.trans hi
    · by_cases hkj : k = j
      · subst hkj
        change (Function.update s.stage k _ k).pending = some b at hb
        rw [Function.update_self] at hb
        cases hb
      · change (Function.update s.stage j _ k).pending = some b at hb
        rw [Function.update_of_ne hkj] at hb
        exact opener_concat_of_some (hs.only k b hb hbsid) _

end Heralded

/-! ## Every run -/

section Run

variable {reqs : List Request}

/-- What a step announces bears the name of its handler's session. -/
theorem announcedFor_announce_of_ne {i : ℕ} (h : ∀ a, accept = some a → a.sessionId ≠ sid) :
    (announce s i accept).announcedFor sid = s.announcedFor sid := by
  change (s.announced ++ accept.toList).filter (fun a => decide (a.sessionId = sid)) = _
  rw [List.filter_append]
  have hnil : accept.toList.filter (fun a => decide (a.sessionId = sid)) = [] := by
    rw [List.filter_eq_nil_iff]
    intro a ha
    have hne := h a (Option.mem_toList.mp ha)
    simpa using hne
  rw [hnil, List.append_nil]
  rfl

variable {events : List Event}

theorem Heralded.step {t : State} {e : Event} (hs : Heralded cfg reqs sid events s)
    (hn : Named reqs s) (h : step cfg reqs s e = some t) :
    Heralded cfg reqs sid (events ++ [e]) t := by
  have hn' := hn.step h
  -- whoever takes a step has not answered
  have hbusy : ∀ {i : ℕ} {x : Stage}, s.stage i = x → (∀ answer, x ≠ .answered answer) →
      ∀ answer, s.stage i ≠ .answered answer := by
    intro i x hst hx answer ha
    exact hx answer (hst.symm.trans ha)
  obtain ⟨i, sid', seq, frames, remote, rfl, hr, hst, rfl⟩ | ⟨i, sid', remote, rfl, hr, hst, rfl⟩ |
    ⟨i, r, writer, chunk, chunks, accept, rfl, hr, hst, rfl⟩ |
    ⟨i, r, writer, accept, rfl, hr, hst, rfl⟩ | ⟨i, r, accept, rfl, hr, hst, rfl⟩ := step_cases h
  · by_cases hsid : sid' = sid
    · subst hsid
      exact hs.lockPost hn hr hst
    · refine hs.other hr hsid (touches_lockPost cfg s i sid' seq frames remote) hn hn'
        (openedBy_of_ne rfl hr hsid) (hbusy hst fun _ => Stage.noConfusion) ?_
      unfold Carrier.lockPost
      split
      · rfl
      · dsimp only
        split <;> rfl
  · by_cases hsid : sid' = sid
    · subst hsid
      exact hs.lockGet hn hr hst
    · exact hs.other hr hsid (touches_lockGet s i sid' remote) hn hn'
        (openedBy_of_ne rfl hr hsid) (hbusy hst fun _ => Stage.noConfusion) rfl
  · cases writer <;>
      exact hs.goesOn (fun _ => Event.noConfusion) (fun e' he' => ⟨e'.uploadWr, he'⟩) id rfl
        (by rw [hst]; rfl) (hbusy hst fun _ => Stage.noConfusion) rfl
  · refine hs.goesOn (fun _ => Event.noConfusion) ?_ ?_ rfl (by rw [hst]; rfl)
      (hbusy hst fun _ => Stage.noConfusion) rfl
    · intro e' he'
      by_cases hsid : sid = r.sid
      · subst hsid
        refine ⟨writer, ?_⟩
        simp only [Carrier.reattach, he', AList.lookup_insert]
      · exact ⟨e'.uploadWr,
          ((touches_reattach s i r.sid writer accept).lookup_eq sid hsid).trans he'⟩
    · intro hnone
      by_cases hsid : sid = r.sid
      · subst hsid
        simp only [Carrier.reattach, hnone]
      · exact ((touches_reattach s i r.sid writer accept).lookup_eq sid hsid).trans hnone
  · have hname : ∀ a, accept = some a → a.sessionId = r.sid := by
      intro a ha
      refine hn.handler i r a hr ?_
      rw [hst, ha]
      rfl
    by_cases hsid : r.sid = sid
    · exact hs.announce hst fun a ha => (hname a ha).trans hsid
    · refine hs.other hr hsid (touches_announce s i r.sid accept) hn hn' rfl
        (hbusy hst fun _ => Stage.noConfusion) ?_
      exact announcedFor_announce_of_ne fun a ha => by rw [hname a ha]; exact hsid

theorem heralded_run (sid : SessionId) (hrun : run (step cfg reqs) .start events = some s) :
    Heralded cfg reqs sid events s := by
  have hinv := run_history (fun es s => Named reqs s ∧ Heralded cfg reqs sid es s)
    ⟨named_start reqs, heralded_start cfg reqs sid⟩
    (fun _ _ _ _ hs h => ⟨hs.1.step h, hs.2.step hs.1 h⟩) events hrun
  exact hinv.2

/-- At every point of the run: if the session has been announced by then, a POST and a GET
of it have come. -/
def AnnouncedComplete (cfg : ServerConfig) (reqs : List Request) (sid : SessionId)
    (events : List Event) : Prop :=
  ∀ pre, pre <+: events → ∀ s, run (step cfg reqs) .start pre = some s →
    (∃ a ∈ s.announced, a.sessionId = sid) → Came reqs sid false pre ∧ Came reqs sid true pre

/-- Before the opener of the session gets to announce, a request of the other kind takes the
lock. -/
def JoinedOnTheWay (cfg : ServerConfig) (reqs : List Request) (sid : SessionId)
    (events : List Event) : Prop :=
  ∀ pre i r, pre ++ [Event.announce i] <+: events → opener cfg reqs sid pre = some i →
    reqs[i]? = some r → Came reqs sid (!r.isGet) pre

theorem came_of_concat_announce {pre : List Event} {i : ℕ} {get : Bool}
    (h : Came reqs sid get (pre ++ [.announce i])) : Came reqs sid get pre := by
  obtain ⟨k, r, hmem, hr⟩ := h
  rcases List.mem_append.mp hmem with hpre | hlast
  · exact ⟨k, r, hpre, hr⟩
  · cases List.mem_singleton.mp hlast

/-- The opener's announcement announces its session. -/
theorem announced_of_opener {pre : List Event} {i : ℕ} {t : State}
    (hopener : opener cfg reqs sid pre = some i)
    (hrun : run (step cfg reqs) .start (pre ++ [.announce i]) = some t) :
    ∃ a ∈ t.announced, a.sessionId = sid := by
  obtain ⟨s, hs, hstep⟩ := run_concat_eq_some.mp hrun
  simp only [step] at hstep
  split at hstep
  · next r accept hr hst =>
    cases hstep
    rcases ((heralded_run sid hs).opened i hopener).2 with
      ⟨a, ha, hasid, -⟩ | ⟨⟨answer, hanswer⟩, -⟩
    · rw [hst] at ha
      have haccept : accept = some a := ha
      refine ⟨a, ?_, hasid⟩
      rw [announce, haccept]
      exact List.mem_append_right _ (List.mem_singleton_self a)
    · rw [hst] at hanswer
      cases hanswer
  · cases hstep

/-- **When a session is announced.**  In every interleaving a session is announced at most
once; and it is announced only after both a POST and a GET have come if and only if, before
its opener gets to announce it, a request of the other kind takes the lock. -/
theorem announced_complete_iff (cfg : ServerConfig) (reqs : List Request) (sid : SessionId)
    (events : List Event) (s : State) (hrun : run (step cfg reqs) .start events = some s) :
    (s.announcedFor sid).length ≤ 1 ∧
      (AnnouncedComplete cfg reqs sid events ↔ JoinedOnTheWay cfg reqs sid events) := by
  refine ⟨?_, ?_, ?_⟩
  · have hs := heralded_run sid hrun
    cases hopener : opener cfg reqs sid events with
    | none =>
      rw [(hs.unopened hopener).2]
      exact Nat.zero_le 1
    | some i =>
      rcases (hs.opened i hopener).2 with ⟨-, -, -, hnil⟩ | ⟨-, hone, -⟩
      · rw [hnil]
        exact Nat.zero_le 1
      · exact Nat.le_of_eq hone
  · intro hcomplete pre i r hpre hopener hr
    obtain ⟨t, ht⟩ := run_of_prefix hrun hpre
    obtain ⟨hpost, hget⟩ := hcomplete _ hpre t ht (announced_of_opener hopener ht)
    cases r with
    | get sid' remote => exact came_of_concat_announce hpost
    | post sid' seq frames remote => exact came_of_concat_announce hget
  · intro hjoined pre hpre t ht ⟨a, hmem, hasid⟩
    have hs := heralded_run sid ht
    have hne : t.announcedFor sid ≠ [] := by
      refine List.ne_nil_of_mem (a := a) (List.mem_filter.mpr ⟨hmem, ?_⟩)
      exact decide_eq_true hasid
    cases hopener : opener cfg reqs sid pre with
    | none => exact absurd (hs.unopened hopener).2 hne
    | some i =>
      rcases (hs.opened i hopener).2 with ⟨-, -, -, hnil⟩ | ⟨-, -, pre', hpre', hopener'⟩
      · exact absurd hnil hne
      · -- the opener has come, and it has been joined before it announced
        obtain ⟨r, hlock, hr, hrsid⟩ := lock_of_opener hopener
        have hpre'' : pre' <+: pre := (List.prefix_append pre' [Event.announce i]).trans hpre'
        obtain ⟨k, r', hk, hr', hsid', hkind⟩ :=
          hjoined pre' i r (hpre'.trans hpre) hopener' hr
        have hother : Came reqs sid (!r.isGet) pre := ⟨k, r', hpre''.subset hk, hr', hsid', hkind⟩
        have hown : Came reqs sid r.isGet pre := ⟨i, r, hlock, hr, hrsid, rfl⟩
        cases r with
        | get sid' remote => exact ⟨hother, hown⟩
        | post sid' seq frames remote => exact ⟨hown, hother⟩

end Run

/-! ### A POST and a GET -/

def postAndGet : List Request :=
  [.post someSession 0 [.data [1]] somePeer, .get someSession somePeer]

/-- The GET takes the lock while the POST writes. -/
def joinedWrite : List Event :=
  [.lock 0, .lock 1, .write 0, .reattach 0, .announce 0, .announce 1]

theorem announced_complete_iff_joinedWrite :
    ∃ s, run (step someConfig postAndGet) .start joinedWrite = some s ∧
      s.announced = [⟨someSession, somePeer⟩] ∧ (s.announcedFor someSession).length ≤ 1 ∧
      (AnnouncedComplete someConfig postAndGet someSession joinedWrite ↔
        JoinedOnTheWay someConfig postAndGet someSession joinedWrite) := by
  refine ⟨_, rfl, rfl, ?_⟩
  exact announced_complete_iff someConfig postAndGet someSession joinedWrite _ rfl

/-- A POST on its own is announced, and no GET ever comes. -/
theorem announced_without_get :
    ∃ s, run (step someConfig [.post someSession 0 [.data [1]] somePeer]) .start
        [.lock 0, .write 0, .reattach 0, .announce 0] = some s ∧
      s.announced = [⟨someSession, somePeer⟩] ∧
      ¬ Came [.post someSession 0 [.data [1]] somePeer] someSession true
        [.lock 0, .write 0, .reattach 0, .announce 0] := by
  refine ⟨_, rfl, rfl, ?_⟩
  rintro ⟨i, r, -, hr, -, hget⟩
  obtain rfl := List.mem_singleton.mp (List.mem_of_getElem? hr)
  cases hget

end Carrier
end HoldTheDonut
