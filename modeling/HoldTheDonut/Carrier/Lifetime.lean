import HoldTheDonut.Carrier.Announce
import HoldTheDonut.Carrier.Faults
import Mathlib.Data.Set.Card

/-!
# `donut-carrier/src/server/packet_up.rs`: sessions that are over

A session is over when it has been announced, its user side has been dropped and no handler is
on its way with anything of it.  Nothing can be read from it or written to it any more.

The dispatcher adds entries to its table and replaces them; there is no third kind of access
(`Moves`).  So an entry of an announced session stays, with its flag `accepted` set, and that
decides what becomes of the id.  A POST stores its body in the dead entry.  A GET finds the read
half taken and is answered 409, or takes the read half of the dead pipe; it never has a session
to announce (`get_after_over`).

A session lives as long as its user side does, and that is made with the entry.  It can be gone
before it was announced: a handler that is dropped takes along what it has to announce.  The table
has an entry for each id that was ever seen, so it is no larger than the number of sessions that
live exactly as long as no user side is gone (`released_iff`).
-/

namespace HoldTheDonut
namespace Carrier

open Machine

/-! ## What a step does to the table -/

/-- The handler has been at the table. -/
def Stage.Entered : Stage → Prop
  | .arrived => False
  | .answered (.error _) => False
  | _ => True

/-- The session has been taken for announcing. -/
def State.Accepted (s : State) (sid : SessionId) : Prop :=
  ∃ e, s.sessions.lookup sid = some e ∧ e.accepted = true

/-- **A step of handler `i`, seen from the table.**  The table stays as it is, or one entry is
put into it; an announcement comes out of an entry that is accepted from then on. -/
structure Moves (s t : State) (i : ℕ) (own : SessionId) (x : Stage) : Prop where
  stage_eq : t.stage = Function.update s.stage i x
  entered : (s.stage i).Entered → x.Entered
  there : x.Entered → (s.stage i).Entered ∨ (t.sessions.lookup own).isSome
  table : (t.sessions = s.sessions ∧ ∀ a, x.pending = some a → (s.stage i).pending = some a) ∨
    ∃ entry, t.sessions = s.sessions.insert own entry ∧ x.Entered ∧
      (s.Accepted own → entry.accepted = true) ∧
      ∀ a, x.pending = some a → (s.stage i).pending = some a ∨ entry.accepted = true
  announced : ∀ a ∈ t.announced, a ∈ s.announced ∨ (s.stage i).pending = some a

theorem lookup_isSome_insert {α β : Type} [DecidableEq α] {a : α} {b : β}
    {l : AList fun _ : α => β} : ((l.insert a b).lookup a).isSome := by
  rw [AList.lookup_insert]
  rfl

theorem entry_accepted {s : State} {sid : SessionId} (h : s.Accepted sid) (remote : SocketAddr) :
    (s.entry sid remote).accepted = true := by
  obtain ⟨e, he, hacc⟩ := h
  rw [entry_of_lookup he]
  exact hacc

variable {accept : Option Session}

/-- Whoever takes an announcement marks the entry. -/
theorem accepted_of_drive {cfg : ServerConfig} {e e' : SessionState} {seq : ℕ} {chunk : List UInt8}
    {writer : Writer} {chunks : List (List UInt8)}
    (h : e.admit cfg seq chunk = .drive e' writer chunks accept) {a : Session}
    (ha : accept = some a) : e'.accepted = true := by
  have haccept := admit_accept h
  simp only [Prod.mk.injEq] at haccept
  obtain ⟨hflag, -, hgiven⟩ := haccept
  rcases takeAccept_cases e with ⟨htake, -⟩ | ⟨-, htake⟩
  · rw [hgiven, htake] at ha
    cases ha
  · rw [hflag, htake]

theorem accepted_attachDownlink (e : SessionState) : e.attachDownlink.1.accepted = true := by
  unfold SessionState.attachDownlink
  split
  · rfl
  · next h => simpa using h

section Steps

variable {cfg : ServerConfig} {reqs : List Request} {s t : State} {i : ℕ}

/-- A handler that has been at the table goes on, and the table stays as it is. -/
theorem moves_untouched {own : SessionId} {x : Stage}
    (hstage : t.stage = Function.update s.stage i x) (htable : t.sessions = s.sessions)
    (hannounced : t.announced = s.announced) (hbefore : (s.stage i).Entered) (hx : x.Entered)
    (hpending : x.pending = (s.stage i).pending) : Moves s t i own x :=
  ⟨hstage, fun _ => hx, fun _ => Or.inl hbefore, Or.inl ⟨htable, fun _ ha => hpending ▸ ha⟩,
    fun _ ha => Or.inl (hannounced ▸ ha)⟩

theorem moves_lockPost (cfg : ServerConfig) (hst : s.stage i = .arrived) (sid : SessionId)
    (seq : ℕ) (frames : List BodyFrame) (remote : SocketAddr) :
    ∃ x, Moves s (lockPost cfg s i sid seq frames remote) i sid x := by
  have hnot : ¬ (s.stage i).Entered := by
    rw [hst]
    exact id
  unfold lockPost
  split
  · exact ⟨_, rfl, fun h => absurd h hnot, fun h => h.elim,
      Or.inl ⟨rfl, fun a ha => by cases ha⟩, fun a ha => Or.inl ha⟩
  · dsimp only
    split
    · exact ⟨_, rfl, fun h => absurd h hnot, fun _ => Or.inr lookup_isSome_insert,
        Or.inr ⟨_, rfl, trivial, fun h => entry_accepted h remote, fun a ha => by cases ha⟩,
        fun a ha => Or.inl ha⟩
    · next hgate =>
      exact ⟨_, rfl, fun h => absurd h hnot, fun _ => Or.inr lookup_isSome_insert,
        Or.inr ⟨_, rfl, trivial,
          fun h => (admit_accepted_drive (entry_accepted h remote) hgate).2,
          fun a ha => Or.inr (accepted_of_drive hgate ha)⟩,
        fun a ha => Or.inl ha⟩

theorem moves_lockGet (hst : s.stage i = .arrived) (sid : SessionId) (remote : SocketAddr) :
    ∃ x, Moves s (lockGet s i sid remote) i sid x := by
  refine ⟨_, rfl, fun h => ?_, fun _ => Or.inr lookup_isSome_insert, Or.inr ⟨_, rfl, ?_,
    fun _ => accepted_attachDownlink _, fun a _ => Or.inr (accepted_attachDownlink _)⟩,
    fun a ha => Or.inl ha⟩
  · rw [hst] at h
    exact h.elim
  · split <;> trivial

theorem moves_writeChunk {writer : Writer} {chunk : List UInt8} {chunks : List (List UInt8)}
    (hst : s.stage i = .writing writer (chunk :: chunks) accept) (sid : SessionId) :
    ∃ x, Moves s (writeChunk s i sid writer chunk chunks accept) i sid x := by
  have hpending : (s.stage i).pending = accept := by rw [hst]; rfl
  have hentered : (s.stage i).Entered := by rw [hst]; trivial
  cases writer <;> exact ⟨_, moves_untouched rfl rfl rfl hentered trivial hpending.symm⟩

theorem moves_reattach {writer : Writer} (hst : s.stage i = .writing writer [] accept)
    (sid : SessionId) :
    ∃ x, Moves s (reattach s i sid writer accept) i sid x := by
  have hpending : (s.stage i).pending = accept := by rw [hst]; rfl
  have hentered : (s.stage i).Entered := by rw [hst]; trivial
  unfold reattach
  cases hlookup : s.sessions.lookup sid with
  | none => exact ⟨_, moves_untouched rfl rfl rfl hentered trivial hpending.symm⟩
  | some e =>
    refine ⟨_, rfl, fun _ => trivial, fun _ => Or.inl hentered,
      Or.inr ⟨_, rfl, trivial, fun h => ?_, fun a ha => Or.inl (hpending.trans ha)⟩,
      fun a ha => Or.inl ha⟩
    obtain ⟨e', he', hacc⟩ := h
    rw [hlookup] at he'
    cases he'
    exact hacc

theorem moves_announce (hst : s.stage i = .announcing accept) (sid : SessionId) :
    ∃ x, Moves s (announce s i accept) i sid x := by
  have hpending : (s.stage i).pending = accept := by rw [hst]; rfl
  have hentered : (s.stage i).Entered := by rw [hst]; trivial
  refine ⟨_, rfl, fun _ => trivial, fun _ => Or.inl hentered,
    Or.inl ⟨rfl, fun a ha => by cases ha⟩, fun a ha => ?_⟩
  rcases List.mem_append.mp ha with hold | hnew
  · exact Or.inl hold
  · exact Or.inr (hpending.trans (Option.mem_toList.mp hnew))

theorem step_moves {e : Event} (h : step cfg reqs s e = some t) :
    ∃ r x, reqs[e.handler]? = some r ∧ Moves s t e.handler r.sid x := by
  obtain ⟨i, sid, seq, frames, remote, rfl, hr, hst, rfl⟩ | ⟨i, sid, remote, rfl, hr, hst, rfl⟩ |
    ⟨i, r, writer, chunk, chunks, accept, rfl, hr, hst, rfl⟩ |
    ⟨i, r, writer, accept, rfl, hr, hst, rfl⟩ | ⟨i, r, accept, rfl, hr, hst, rfl⟩ := step_cases h
  · obtain ⟨x, hx⟩ := moves_lockPost cfg hst sid seq frames remote
    exact ⟨_, x, hr, hx⟩
  · obtain ⟨x, hx⟩ := moves_lockGet hst sid remote
    exact ⟨_, x, hr, hx⟩
  · obtain ⟨x, hx⟩ := moves_writeChunk hst r.sid
    exact ⟨r, x, hr, hx⟩
  · obtain ⟨x, hx⟩ := moves_reattach hst r.sid
    exact ⟨r, x, hr, hx⟩
  · obtain ⟨x, hx⟩ := moves_announce hst r.sid
    exact ⟨r, x, hr, hx⟩

end Steps

/-! ## What every run keeps -/

/-- The table has entries of the sessions that a handler has been at the table for, and whatever has
been announced, or is about to be, is accepted there. -/
structure Kept (reqs : List Request) (s : State) : Prop where
  named : Named reqs s
  entered : ∀ sid, (s.sessions.lookup sid).isSome →
    ∃ i r, reqs[i]? = some r ∧ r.sid = sid ∧ (s.stage i).Entered
  there : ∀ i r, reqs[i]? = some r → (s.stage i).Entered → (s.sessions.lookup r.sid).isSome
  pending : ∀ i r a, reqs[i]? = some r → (s.stage i).pending = some a → s.Accepted r.sid
  announced : ∀ a ∈ s.announced, s.Accepted a.sessionId

theorem kept_start (reqs : List Request) : Kept reqs .start where
  named := named_start reqs
  entered := by
    intro sid h
    cases h
  there := fun _ _ _ h => h.elim
  pending := by
    intro i r a _ h
    cases h
  announced := by
    intro a h
    cases h

section Invariant

variable {reqs : List Request} {s t : State} {i : ℕ} {r : Request} {x : Stage}

/-- An accepted session stays accepted. -/
theorem Moves.accepted (h : Moves s t i r.sid x) {sid : SessionId} (hs : s.Accepted sid) :
    t.Accepted sid := by
  rcases h.table with ⟨hsame, -⟩ | ⟨entry, hinsert, -, hkeeps, -⟩
  · unfold State.Accepted
    rw [hsame]
    exact hs
  · by_cases hsid : sid = r.sid
    · subst hsid
      refine ⟨entry, ?_, hkeeps hs⟩
      rw [hinsert, AList.lookup_insert]
    · obtain ⟨e, he, hacc⟩ := hs
      refine ⟨e, ?_, hacc⟩
      rw [hinsert, AList.lookup_insert_ne hsid]
      exact he

/-- There is no removal. -/
theorem Moves.isSome (h : Moves s t i r.sid x) {sid : SessionId}
    (hs : (s.sessions.lookup sid).isSome) : (t.sessions.lookup sid).isSome := by
  rcases h.table with ⟨hsame, -⟩ | ⟨entry, hinsert, -, -, -⟩
  · rwa [hsame]
  · rw [hinsert]
    by_cases hsid : sid = r.sid
    · subst hsid
      exact lookup_isSome_insert
    · rwa [AList.lookup_insert_ne hsid]

theorem Moves.entered_of (h : Moves s t i r.sid x) {j : ℕ} (hj : (s.stage j).Entered) :
    (t.stage j).Entered := by
  rw [h.stage_eq]
  by_cases hij : j = i
  · subst hij
    rw [Function.update_self]
    exact h.entered hj
  · rwa [Function.update_of_ne hij]

/-- **Steps keep it.** -/
theorem Kept.moves (hs : Kept reqs s) (hr : reqs[i]? = some r) (h : Moves s t i r.sid x)
    (hnamed : Named reqs t) : Kept reqs t where
  named := hnamed
  entered := by
    intro sid hsid
    have hold : (s.sessions.lookup sid).isSome →
        ∃ i r, reqs[i]? = some r ∧ r.sid = sid ∧ (t.stage i).Entered := by
      intro hthere
      obtain ⟨j, r', hr', hsid', hj⟩ := hs.entered sid hthere
      exact ⟨j, r', hr', hsid', h.entered_of hj⟩
    rcases h.table with ⟨hsame, -⟩ | ⟨entry, hinsert, hx, -, -⟩
    · rw [hsame] at hsid
      exact hold hsid
    · by_cases hown : sid = r.sid
      · refine ⟨i, r, hr, hown.symm, ?_⟩
        rw [h.stage_eq, Function.update_self]
        exact hx
      · rw [hinsert, AList.lookup_insert_ne hown] at hsid
        exact hold hsid
  there := by
    intro j r' hr' hj
    rw [h.stage_eq] at hj
    by_cases hij : j = i
    · subst hij
      rw [Function.update_self] at hj
      rw [Option.some.inj (hr'.symm.trans hr)]
      rcases h.there hj with hold | hnew
      · exact h.isSome (hs.there j r hr hold)
      · exact hnew
    · rw [Function.update_of_ne hij] at hj
      exact h.isSome (hs.there j r' hr' hj)
  pending := by
    intro j r' a hr' ha
    rw [h.stage_eq] at ha
    by_cases hij : j = i
    · subst hij
      rw [Function.update_self] at ha
      rw [Option.some.inj (hr'.symm.trans hr)]
      have hold : (s.stage j).pending = some a → t.Accepted r.sid :=
        fun hp => h.accepted (hs.pending j r a hr hp)
      rcases h.table with ⟨-, hx⟩ | ⟨entry, hinsert, -, -, hx⟩
      · exact hold (hx a ha)
      · rcases hx a ha with hp | hacc
        · exact hold hp
        · refine ⟨entry, ?_, hacc⟩
          rw [hinsert, AList.lookup_insert]
    · rw [Function.update_of_ne hij] at ha
      exact h.accepted (hs.pending j r' a hr' ha)
  announced := by
    intro a ha
    rcases h.announced a ha with hold | hnew
    · exact h.accepted (hs.announced a hold)
    · rw [hs.named.handler i r a hr hnew]
      exact h.accepted (hs.pending i r a hr hnew)

end Invariant

section Runs

variable {cfg : ServerConfig} {reqs : List Request} {f g : FaultState}

theorem kept_faultStep {e : FaultEvent} (hf : Kept reqs f.base)
    (h : faultStep cfg reqs f e = some g) : Kept reqs g.base := by
  rcases faultStep_cases h with ⟨e', r, t, -, -, hstep, rfl⟩ | ⟨hbase, -⟩ |
    ⟨i, r, writer, chunk, chunks, accept, part, x, fate, gone, hr, -, hst, -, hx, rfl⟩ |
    ⟨i, a, -, -, hbase, -⟩
  · obtain ⟨r', x, hr', hmoves⟩ := step_moves hstep
    exact hf.moves hr' hmoves (hf.named.step hstep)
  · rw [hbase]
    exact hf
  · -- a chunk that is cut short: the table is not touched, the announcement stays where it was
    have hpending : x.pending = (f.base.stage i).pending := by
      rcases hx with ⟨rfl, -⟩ | ⟨rfl, -⟩
      · rw [hst]
        rfl
      · rfl
    have hentered : x.Entered := by
      rcases hx with ⟨rfl, -⟩ | ⟨rfl, -⟩
      · trivial
      · rw [hst]
        trivial
    have hbefore : (f.base.stage i).Entered := by
      rw [hst]
      trivial
    refine hf.moves hr (moves_untouched rfl rfl rfl hbefore hentered hpending)
      (hf.named.update rfl rfl fun a ha => ?_)
    rw [← hpending]
    exact ha
  · rw [hbase]
    exact hf

theorem kept_run {events : List FaultEvent}
    (h : run (faultStep cfg reqs) .start events = some f) : Kept reqs f.base := by
  have hstep : ∀ f e g, Kept reqs f.base → faultStep cfg reqs f e = some g → Kept reqs g.base :=
    fun _ _ _ hf hg => kept_faultStep hf hg
  exact run_inv hstep events (kept_start reqs) h

end Runs

/-! ## Sessions that are over -/

/-- **The session is over**: it has been announced, its user side has been dropped, and every
handler that was at the table for it has answered or has been dropped. -/
structure FaultState.Over (reqs : List Request) (f : FaultState) (sid : SessionId) : Prop where
  announced : f.base.announcedFor sid ≠ []
  dropped : f.closed sid = true
  handled : ∀ i r, reqs[i]? = some r → r.sid = sid → (f.base.stage i).Entered →
    (∃ answer, f.base.stage i = .answered answer) ∨ (f.track i).gone = true

/-- **The user side of the session is gone**: it was announced and has been dropped, or a handler
was dropped that had it to announce. -/
def FaultState.UserGone (reqs : List Request) (f : FaultState) (sid : SessionId) : Prop :=
  (f.base.announcedFor sid ≠ [] ∧ f.closed sid = true) ∨
    ∃ i r a, reqs[i]? = some r ∧ r.sid = sid ∧ (f.base.stage i).pending = some a ∧
      (f.track i).gone = true

/-- The sessions that live: a handler has been at the table for them, which makes the user side,
and it is not gone. -/
def FaultState.living (reqs : List Request) (f : FaultState) : Set SessionId :=
  {sid | (∃ i r, reqs[i]? = some r ∧ r.sid = sid ∧ (f.base.stage i).Entered) ∧
    ¬ f.UserGone reqs sid}

/-- **Sessions that are over have been released.** -/
structure FaultState.Released (cfg : ServerConfig) (reqs : List Request) (f : FaultState) :
    Prop where
  removed : ∀ sid, f.Over reqs sid → f.base.sessions.lookup sid = none
  /-- A GET for the id starts a session of its own. -/
  fresh : ∀ sid i remote g, f.Over reqs sid → reqs[i]? = some (.get sid remote) →
    faultStep cfg reqs f (.step (.lock i)) = some g →
    g.base.stage i = .announcing (some ⟨sid, remote⟩)
  bounded : f.base.sessions.keys.length ≤ (f.living reqs).ncard

section Over

variable {cfg : ServerConfig} {reqs : List Request} {f g : FaultState} {sid : SessionId}

theorem Kept.accepted_of_announced (hf : Kept reqs f.base) (h : f.base.announcedFor sid ≠ []) :
    f.base.Accepted sid := by
  obtain ⟨a, ha⟩ := List.exists_mem_of_ne_nil _ h
  obtain ⟨hmem, hsid⟩ := List.mem_filter.mp ha
  rw [← of_decide_eq_true hsid]
  exact hf.announced a hmem

/-- A GET that takes the lock. -/
theorem base_of_lock_get {i : ℕ} {remote : SocketAddr} (hr : reqs[i]? = some (.get sid remote))
    (h : faultStep cfg reqs f (.step (.lock i)) = some g) :
    g.base = lockGet f.base i sid remote := by
  have hhandler : (Event.lock i).handler = i := rfl
  rw [faultStep, hhandler, hr] at h
  simp only at h
  split at h
  · cases h
  · obtain ⟨t, ht, rfl⟩ := Option.map_eq_some_iff.mp h
    rw [step, hr] at ht
    cases hst : f.base.stage i with
    | arrived =>
      rw [hst] at ht
      exact (Option.some.inj ht).symm
    | writing writer chunks accept => rw [hst] at ht; cases ht
    | announcing accept => rw [hst] at ht; cases ht
    | answered answer => rw [hst] at ht; cases ht

/-- **An id whose session is over starts no other.**  A GET for it is answered 409, or has
nothing to announce. -/
theorem get_after_over {events : List FaultEvent} {i : ℕ} {remote : SocketAddr}
    (hrun : run (faultStep cfg reqs) .start events = some f) (hover : f.Over reqs sid)
    (hr : reqs[i]? = some (.get sid remote))
    (h : faultStep cfg reqs f (.step (.lock i)) = some g) :
    g.base.stage i = .answered (.ok .conflict) ∨ g.base.stage i = .announcing none := by
  have hacc := entry_accepted ((kept_run hrun).accepted_of_announced hover.announced) remote
  rw [base_of_lock_get hr h, lockGet]
  simp only [Function.update_self, SessionState.attachDownlink, hacc, Bool.true_eq_false, if_false]
  split
  · exact Or.inr rfl
  · exact Or.inl rfl

theorem entered_of_pending {x : Stage} {a : Session} (h : x.pending = some a) : x.Entered := by
  cases x with
  | arrived => cases h
  | writing writer chunks accept => trivial
  | announcing accept => trivial
  | answered answer => cases h

variable (hf : Kept reqs f.base)

include hf

/-- A session whose user side is gone has an entry. -/
theorem Kept.isSome_of_userGone (h : f.UserGone reqs sid) :
    (f.base.sessions.lookup sid).isSome := by
  rcases h with ⟨hannounced, -⟩ | ⟨i, r, a, hr, rfl, ha, -⟩
  · obtain ⟨e, he, -⟩ := hf.accepted_of_announced hannounced
    rw [he]
    rfl
  · exact hf.there i r hr (entered_of_pending ha)

/-- **The sessions that live are those with an entry whose user side is not gone.** -/
theorem Kept.living_eq :
    f.living reqs = {sid ∈ (f.base.sessions.keys.toFinset : Set SessionId) |
      ¬ f.UserGone reqs sid} := by
  ext sid
  refine and_congr_left fun _ => ?_
  rw [Finset.mem_coe, List.mem_toFinset]
  constructor
  · rintro ⟨i, r, hr, rfl, hentered⟩
    exact AList.lookup_isSome.mp (hf.there i r hr hentered)
  · exact fun hkey => hf.entered sid (AList.lookup_isSome.mpr hkey)

/-- The table is no larger than the number of sessions that live exactly if all of them do. -/
theorem Kept.bounded_iff :
    f.base.sessions.keys.length ≤ (f.living reqs).ncard ↔ ∀ sid, ¬ f.UserGone reqs sid := by
  have hcard : f.base.sessions.keys.length =
      (f.base.sessions.keys.toFinset : Set SessionId).ncard := by
    rw [Set.ncard_coe_finset, List.toFinset_card_of_nodup f.base.sessions.keys_nodup]
  have hfinite : (f.base.sessions.keys.toFinset : Set SessionId).Finite :=
    Finset.finite_toSet _
  rw [hcard, hf.living_eq]
  constructor
  · intro hle sid hgone
    have hkey : sid ∈ (f.base.sessions.keys.toFinset : Set SessionId) :=
      List.mem_toFinset.mpr (AList.lookup_isSome.mp (hf.isSome_of_userGone hgone))
    have hall := Set.eq_of_subset_of_ncard_le (Set.sep_subset _ _) hle hfinite
    rw [← hall] at hkey
    exact hkey.2 hgone
  · intro hnone
    refine Set.ncard_le_ncard (fun sid hsid => ⟨hsid, hnone sid⟩) (hfinite.subset ?_)
    exact Set.sep_subset _ _

end Over

/-- **Sessions are released exactly as long as there are none to release.**  After any history
of requests, of handlers that go on, fail or are dropped, and of user sides that are dropped:
the table keeps the entry of a session whose user side is gone, for good. -/
theorem released_iff (cfg : ServerConfig) (reqs : List Request) (events : List FaultEvent)
    (f : FaultState) (hrun : run (faultStep cfg reqs) .start events = some f) :
    f.Released cfg reqs ↔ ∀ sid, ¬ f.UserGone reqs sid := by
  have hf := kept_run hrun
  refine ⟨fun hreleased => hf.bounded_iff.mp hreleased.bounded, fun hnone => ?_⟩
  have hover : ∀ sid, ¬ f.Over reqs sid := fun sid h =>
    hnone sid (Or.inl ⟨h.announced, h.dropped⟩)
  exact ⟨fun sid h => absurd h (hover sid), fun sid _ _ _ h => absurd h (hover sid),
    hf.bounded_iff.mpr hnone⟩

/-- Two GETs for one session. -/
def twoGets : List Request := [.get someSession somePeer, .get someSession somePeer]

/-- The first one is answered, with the announcement made. -/
def oneAnswered : List FaultEvent := [.step (.lock 0), .step (.announce 0)]

theorem released_iff_oneAnswered :
    ∃ f, run (faultStep someConfig twoGets) .start oneAnswered = some f ∧
      f.Released someConfig twoGets := by
  refine ⟨_, rfl, (released_iff someConfig twoGets oneAnswered _ rfl).mpr ?_⟩
  rintro sid (⟨-, hclosed⟩ | ⟨i, r, a, hr, -, ha, -⟩)
  · cases hclosed
  · match i, hr with
    | 0, _ => cases ha
    | 1, _ => cases ha

/-- It was announced, and its user side has been dropped. -/
theorem over_hungUp :
    ∃ f, run (faultStep someConfig twoGets) .start (oneAnswered ++ [.hangUp someSession]) = some f ∧
      f.Over twoGets someSession := by
  refine ⟨_, rfl, List.cons_ne_nil _ _, rfl, fun i r hr _ hentered => ?_⟩
  match i, hr with
  | 0, _ => exact Or.inl ⟨_, rfl⟩
  | 1, _ => exact hentered.elim

/-- **Two histories behind which no session lives.**  After one GET, the session was announced and
its user side has been dropped, so that it is over; or the GET was dropped before it could announce
it.  The entry is still there, and the other GET for the id is answered 409. -/
theorem entry_outlives_session :
    (∃ f, run (faultStep someConfig twoGets) .start (oneAnswered ++ [.hangUp someSession]) =
        some f ∧ f.Over twoGets someSession) ∧
    ∀ events ∈ [oneAnswered ++ [.hangUp someSession], [.step (.lock 0), .dropAnnouncing 0]],
      ∃ f g, run (faultStep someConfig twoGets) .start events = some f ∧
        f.living twoGets = ∅ ∧ f.base.sessions.keys.length = 1 ∧
        (f.base.sessions.lookup someSession).isSome ∧
        faultStep someConfig twoGets f (.step (.lock 1)) = some g ∧
        g.base.stage 1 = .answered (.ok .conflict) := by
  have hnone : ∀ {f : FaultState}, f.UserGone twoGets someSession → f.living twoGets = ∅ := by
    intro f hgone
    refine Set.eq_empty_iff_forall_notMem.mpr ?_
    rintro sid ⟨⟨i, r, hr, rfl, -⟩, hliving⟩
    match i, hr with
    | 0, hr => cases hr; exact hliving hgone
    | 1, hr => cases hr; exact hliving hgone
  refine ⟨over_hungUp, fun events h => ?_⟩
  rcases List.mem_pair.mp h with rfl | rfl
  · exact ⟨_, _, rfl, hnone (Or.inl ⟨List.cons_ne_nil _ _, rfl⟩), rfl, rfl, rfl, rfl⟩
  · exact ⟨_, _, rfl, hnone (Or.inr ⟨0, _, _, rfl, rfl, rfl, rfl⟩), rfl, rfl, rfl, rfl⟩

theorem get_after_over_hungUp :
    ∃ f g, run (faultStep someConfig twoGets) .start (oneAnswered ++ [.hangUp someSession]) =
        some f ∧
      faultStep someConfig twoGets f (.step (.lock 1)) = some g ∧
      (g.base.stage 1 = .answered (.ok .conflict) ∨ g.base.stage 1 = .announcing none) := by
  have hsecond : twoGets[1]? = some (.get someSession somePeer) := rfl
  obtain ⟨f, hrun, hover⟩ := over_hungUp
  obtain rfl := Option.some.inj hrun
  exact ⟨_, _, rfl, rfl, get_after_over hrun hover hsecond rfl⟩

end Carrier
end HoldTheDonut
