import HoldTheDonut.Carrier.PacketUp

/-!
# `donut-carrier/src/server/packet_up.rs`: the reorder buffer, one POST at a time

When the handlers of a session run one after the other the writer is always in its place,
and what is left is the reorder buffer: bodies that are early wait, a late one is dropped,
one too many is refused, and a body whose turn has come takes with it all that waited for
it.  Sequence numbers come in any order, with gaps and duplicates.

A handler that runs alone has one way to go (`next`), so its whole run is computed:
`Handles` relates the states before and after, and `handles_post` says what one POST does
to the session.  `Served` is a sequence of POSTs handled like that, together with the
bodies received: those of the POSTs that were neither late nor refused.  `Reordered` is
what every POST preserves.  The buffer has, for each number still to come, the last body
received for it, and the user side has the last body received for each number before.
-/

namespace HoldTheDonut
namespace Carrier

open Machine

/-! ## A handler alone -/

/-- The one step a handler can take. -/
def next (cfg : ServerConfig) (s : State) (i : ℕ) (r : Request) : Option State :=
  match s.stage i with
  | .arrived =>
    match r with
    | .post sid seq frames remote => some (lockPost cfg s i sid seq frames remote)
    | .get sid remote => some (lockGet s i sid remote)
  | .writing writer (chunk :: chunks) accept =>
    some (writeChunk s i r.sid writer chunk chunks accept)
  | .writing writer [] accept => some (reattach s i r.sid writer accept)
  | .announcing accept => some (announce s i accept)
  | .answered _ => none

/-- The handler of a request goes from arrival to answer, and nobody else moves. -/
def Handles (cfg : ServerConfig) (reqs : List Request) (s : State) (i : ℕ) (t : State) : Prop :=
  s.stage i = .arrived ∧ (∃ answer, t.stage i = .answered answer) ∧
    ∃ events, (∀ e ∈ events, e.handler = i) ∧ run (step cfg reqs) s events = some t

section Alone

variable {cfg : ServerConfig} {reqs : List Request} {s t : State} {i : ℕ} {r : Request}
  (hr : reqs[i]? = some r)

include hr

theorem next_of_step {e : Event} (he : e.handler = i) (h : step cfg reqs s e = some t) :
    next cfg s i r = some t := by
  subst he
  unfold next
  cases e with
  | lock i =>
    simp only [Event.handler, step] at hr h ⊢
    rw [hr] at h
    split at h
    · next hr' hst => cases hr'; rw [hst]; exact h
    · next hr' hst => cases hr'; rw [hst]; exact h
    · cases h
  | write i =>
    simp only [Event.handler, step] at hr h ⊢
    rw [hr] at h
    split at h
    · next hr' hst => cases hr'; rw [hst]; exact h
    · cases h
  | reattach i =>
    simp only [Event.handler, step] at hr h ⊢
    rw [hr] at h
    split at h
    · next hr' hst => cases hr'; rw [hst]; exact h
    · cases h
  | announce i =>
    simp only [Event.handler, step] at hr h ⊢
    rw [hr] at h
    split at h
    · next hr' hst => cases hr'; rw [hst]; exact h
    · cases h

theorem exists_step_of_next (h : next cfg s i r = some t) :
    ∃ e, e.handler = i ∧ step cfg reqs s e = some t := by
  unfold next at h
  split at h
  · next hst =>
    cases r with
    | post sid seq frames remote => exact ⟨.lock i, rfl, by simp only [step, hr, hst]; exact h⟩
    | get sid remote => exact ⟨.lock i, rfl, by simp only [step, hr, hst]; exact h⟩
  · next hst => exact ⟨.write i, rfl, by simp only [step, hr, hst]; exact h⟩
  · next hst => exact ⟨.reattach i, rfl, by simp only [step, hr, hst]; exact h⟩
  · next hst => exact ⟨.announce i, rfl, by simp only [step, hr, hst]; exact h⟩
  · cases h

/-- A handler on its way alone to its answer, taken apart at its first step. -/
theorem alone_cons {events : List Event} (hevents : ∀ e ∈ events, e.handler = i)
    (hrun : run (step cfg reqs) s events = some t) (hst : ∀ answer, s.stage i ≠ .answered answer)
    (ht : ∃ answer, t.stage i = .answered answer) :
    ∃ u events', next cfg s i r = some u ∧ (∀ e ∈ events', e.handler = i) ∧
      run (step cfg reqs) u events' = some t := by
  cases events with
  | nil =>
    cases hrun
    obtain ⟨answer, hanswer⟩ := ht
    exact absurd hanswer (hst answer)
  | cons e events =>
    obtain ⟨u, hstep, hrest⟩ := run_cons_eq_some.mp hrun
    exact ⟨u, events, next_of_step hr (hevents e List.mem_cons_self) hstep,
      fun e' he' => hevents e' (List.mem_cons_of_mem e he'), hrest⟩

/-- After its answer a handler does nothing. -/
theorem alone_answered {events : List Event} (hevents : ∀ e ∈ events, e.handler = i)
    (hrun : run (step cfg reqs) s events = some t) {answer : Except CarrierError Status}
    (hst : s.stage i = .answered answer) : t = s := by
  cases events with
  | nil => exact (Option.some.inj hrun).symm
  | cons e events =>
    obtain ⟨u, hstep, -⟩ := run_cons_eq_some.mp hrun
    have hnext := next_of_step hr (hevents e List.mem_cons_self) hstep
    unfold next at hnext
    rw [hst] at hnext
    cases hnext

end Alone

/-! ## What is released -/

/-- What the release loop does, from the buffer and the next number. -/
structure Released (buffered : AList fun _ : ℕ => List UInt8) (next : ℕ)
    (out : List (List UInt8)) (rest : AList fun _ : ℕ => List UInt8) (next' : ℕ) : Prop where
  le : next ≤ next'
  /-- The bodies of the numbers it goes through, in order. -/
  out_eq : ∀ f : ℕ → List UInt8, (∀ k bytes, buffered.lookup k = some bytes → f k = bytes) →
    (List.range next').flatMap f = (List.range next).flatMap f ++ out.flatten
  present : ∀ k, next ≤ k → k < next' → (buffered.lookup k).isSome
  rest_eq : ∀ k, next' ≤ k → rest.lookup k = buffered.lookup k
  /-- What it has gone through has left the buffer. -/
  gone : ∀ k, next ≤ k → k < next' → k ∉ rest
  /-- The loop stops only when the next body is missing. -/
  stopped : rest.lookup next' = none
  mem_of_mem : ∀ k, k ∈ rest → k ∈ buffered
  length_eq : rest.keys.length + (next' - next) = buffered.keys.length

/-- The next body is missing: nothing happens. -/
theorem Released.stay {buffered : AList fun _ : ℕ => List UInt8} {next : ℕ}
    (h : buffered.lookup next = none) : Released buffered next [] buffered next where
  le := le_rfl
  out_eq := fun _ _ => (List.append_nil _).symm
  present := fun _ hle hlt => absurd hlt (Nat.not_lt.mpr hle)
  rest_eq := fun _ _ => rfl
  gone := fun _ hle hlt => absurd hlt (Nat.not_lt.mpr hle)
  stopped := h
  mem_of_mem := fun _ hk => hk
  length_eq := by rw [Nat.sub_self, Nat.add_zero]

/-- The next body is there: it goes out, and then what follows it. -/
theorem Released.cons {buffered rest : AList fun _ : ℕ => List UInt8} {next next' : ℕ}
    {bytes : List UInt8} {out : List (List UInt8)} (hlookup : buffered.lookup next = some bytes)
    (hr : Released (buffered.erase next) (next + 1) out rest next') :
    Released buffered next (bytes :: out) rest next' where
  le := Nat.le_of_succ_le hr.le
  out_eq := by
    intro f hf
    have hout := hr.out_eq f fun k b hk => hf k b (lookup_of_erase hk).2
    have hlast : (List.range (next + 1)).flatMap f = (List.range next).flatMap f ++ bytes := by
      rw [List.range_succ, List.flatMap_append, List.flatMap_singleton, hf next bytes hlookup]
    rw [hout, hlast, List.append_assoc, List.flatten_cons]
  present := by
    intro k hk hk'
    by_cases hkn : k = next
    · rw [hkn, hlookup]
      rfl
    · rw [← AList.lookup_erase_ne hkn]
      exact hr.present k (by omega) hk'
  rest_eq := by
    intro k hk
    have hle := hr.le
    rw [hr.rest_eq k hk, AList.lookup_erase_ne (by omega)]
  gone := by
    intro k hk hk' hmem
    by_cases hkn : k = next
    · exact (AList.mem_erase.mp (hr.mem_of_mem k hmem)).1 hkn
    · exact hr.gone k (by omega) hk' hmem
  stopped := hr.stopped
  mem_of_mem := fun k hk => (AList.mem_erase.mp (hr.mem_of_mem k hk)).2
  length_eq := by
    have hmem : next ∈ buffered.keys :=
      AList.mem_keys.mp (AList.lookup_isSome.mp (by rw [hlookup]; rfl))
    have hpos : 0 < buffered.keys.length := List.length_pos_of_mem hmem
    have hlen := hr.length_eq
    have hle := hr.le
    rw [AList.keys_erase, List.length_erase_of_mem hmem] at hlen
    omega

theorem released_releaseLoop (fuel : ℕ) (buffered : AList fun _ : ℕ => List UInt8) (next : ℕ)
    (hfuel : buffered.keys.length ≤ fuel) :
    Released buffered next (releaseLoop fuel buffered next).1
      (releaseLoop fuel buffered next).2.1 (releaseLoop fuel buffered next).2.2 := by
  induction fuel generalizing buffered next with
  | zero => exact Released.stay (releaseLoop_stops 0 buffered next hfuel)
  | succ fuel ih =>
    rw [releaseLoop]
    cases hlookup : buffered.lookup next with
    | none => exact Released.stay hlookup
    | some bytes =>
      have hmem : next ∈ buffered.keys :=
        AList.mem_keys.mp (AList.lookup_isSome.mp (by rw [hlookup]; rfl))
      refine Released.cons hlookup (ih (buffered.erase next) (next + 1) ?_)
      rw [AList.keys_erase, List.length_erase_of_mem hmem]
      omega

theorem released_release (buffered : AList fun _ : ℕ => List UInt8) (next : ℕ) :
    Released buffered next (release buffered next).1 (release buffered next).2.1
      (release buffered next).2.2 :=
  released_releaseLoop _ buffered next le_rfl

/-! ## One POST -/

/-- A step left the session as it was. -/
structure Same (s t : State) (sid : SessionId) : Prop where
  queue_eq : t.queue sid = s.queue sid
  userSide_eq : t.userSide sid = s.userSide sid
  writerOf_eq : t.writerOf sid = s.writerOf sid

section Post

variable {cfg : ServerConfig} {reqs : List Request} {s t : State} {i : ℕ} {r : Request}
  {accept : Option Session} {sid : SessionId}

/-- Putting the writer back and answering. -/
theorem alone_reattach {events : List Event} (hr : reqs[i]? = some r) (hsid : r.sid = sid)
    (hst : s.stage i = .writing .bridge [] accept) (hthere : (s.sessions.lookup sid).isSome)
    (hevents : ∀ e ∈ events, e.handler = i) (hrun : run (step cfg reqs) s events = some t)
    (ht : ∃ answer, t.stage i = .answered answer) :
    t.queue sid = s.queue sid ∧ t.userSide sid = s.userSide sid ∧ t.writerOf sid = .bridge ∧
      t.stage i = .answered (.ok .ok) := by
  obtain ⟨u, events', hnext, hevents', hrest⟩ := alone_cons hr hevents hrun
    (fun answer h => by rw [hst] at h; cases h) ht
  unfold next at hnext
  rw [hst] at hnext
  cases hnext
  have hstage : (reattach s i r.sid .bridge accept).stage i = .announcing accept :=
    Function.update_self _ _ _
  obtain ⟨v, events'', hnext, hevents'', hlast⟩ := alone_cons hr hevents' hrest
    (fun answer h => by rw [hstage] at h; cases h) ht
  unfold next at hnext
  rw [hstage] at hnext
  cases hnext
  have hdone := alone_answered hr hevents'' hlast (Function.update_self _ _ _)
  subst hdone hsid
  obtain ⟨e, he⟩ := Option.isSome_iff_exists.mp hthere
  refine ⟨queue_reattach s i r.sid .bridge accept, rfl, ?_, Function.update_self _ _ _⟩
  change (reattach s i r.sid .bridge accept).writerOf r.sid = .bridge
  simp only [State.writerOf, reattach, he, AList.lookup_insert, Option.map_some, Option.getD_some]

/-- Writing with the session's own writer: all of it arrives. -/
theorem alone_writing (hr : reqs[i]? = some r) (hsid : r.sid = sid)
    (ht : ∃ answer, t.stage i = .answered answer) :
    ∀ (chunks : List (List UInt8)) {s : State} {events : List Event},
      s.stage i = .writing .bridge chunks accept → (s.sessions.lookup sid).isSome →
        (∀ e ∈ events, e.handler = i) → run (step cfg reqs) s events = some t →
          t.queue sid = s.queue sid ∧ t.userSide sid = s.userSide sid ++ chunks.flatten ∧
            t.writerOf sid = .bridge ∧ t.stage i = .answered (.ok .ok)
  | [], s, events, hst, hthere, hevents, hrun => by
    rw [List.flatten_nil, List.append_nil]
    exact alone_reattach hr hsid hst hthere hevents hrun ht
  | chunk :: chunks, s, events, hst, hthere, hevents, hrun => by
    obtain ⟨u, events', hnext, hevents', hrest⟩ := alone_cons hr hevents hrun
      (fun answer h => by rw [hst] at h; cases h) ht
    unfold next at hnext
    rw [hst] at hnext
    cases hnext
    obtain ⟨hqueue, huser, hwriter, hstage⟩ := alone_writing hr hsid ht chunks
      (s := writeChunk s i r.sid .bridge chunk chunks accept) (Function.update_self _ _ _) hthere
      hevents' hrest
    refine ⟨hqueue, ?_, hwriter, hstage⟩
    subst hsid
    rw [huser, List.flatten_cons, ← List.append_assoc]
    exact congrArg (· ++ chunks.flatten) (Function.update_self _ _ _)

/-- The three ways out of the lock. -/
theorem admit_cases (cfg : ServerConfig) (e : SessionState) (seq : ℕ) (body : List UInt8) :
    (seq < e.nextSeq ∧ e.admit cfg seq body = .answer .ok) ∨
    (e.nextSeq < seq ∧ cfg.maxBufferedPosts ≤ e.buffered.keys.length ∧
      e.admit cfg seq body = .answer .tooManyRequests) ∨
    (e.nextSeq ≤ seq ∧ (e.nextSeq < seq → e.buffered.keys.length < cfg.maxBufferedPosts) ∧
      ∃ e' accept, e.admit cfg seq body =
          .drive e' e.uploadWr (release (e.buffered.insert seq body) e.nextSeq).1 accept ∧
        (e'.buffered, e'.nextSeq) = (release (e.buffered.insert seq body) e.nextSeq).2) := by
  unfold SessionState.admit
  split
  · next hlate => exact Or.inl ⟨hlate, rfl⟩
  · next hlate =>
    split
    · next hfull => exact Or.inr (Or.inl ⟨hfull.1, hfull.2, rfl⟩)
    · next hroom =>
      refine Or.inr (Or.inr ⟨Nat.not_lt.mp hlate, fun hlt => ?_, _, _, rfl, rfl⟩)
      exact Nat.lt_of_not_le fun hle => hroom ⟨hlt, hle⟩

/-- **What one POST does when nobody else is at work.**  Its body cannot be read, or it is
late, or it is refused, and the session stays as it is; or it goes into the buffer, and
what has its turn is delivered. -/
theorem handles_post {seq : ℕ} {frames : List BodyFrame} {remote : SocketAddr}
    (hr : reqs[i]? = some (.post sid seq frames remote)) (hwriter : s.writerOf sid = .bridge)
    (h : Handles cfg reqs s i t) :
    (∃ err, collectBody cfg.maxPostBytes [] frames = .error err ∧ Same s t sid ∧
      t.stage i = .answered (.error err)) ∨
    ∃ body, collectBody cfg.maxPostBytes [] frames = .ok body ∧
      ((seq < s.nextSeq sid ∧ Same s t sid ∧ t.stage i = .answered (.ok .ok)) ∨
      (s.nextSeq sid < seq ∧ cfg.maxBufferedPosts ≤ (s.queue sid).1.keys.length ∧ Same s t sid ∧
        t.stage i = .answered (.ok .tooManyRequests)) ∨
      (s.nextSeq sid ≤ seq ∧
        (s.nextSeq sid < seq → (s.queue sid).1.keys.length < cfg.maxBufferedPosts) ∧
        t.queue sid = (release ((s.queue sid).1.insert seq body) (s.nextSeq sid)).2 ∧
        t.userSide sid = s.userSide sid ++
          (release ((s.queue sid).1.insert seq body) (s.nextSeq sid)).1.flatten ∧
        t.writerOf sid = .bridge ∧ t.stage i = .answered (.ok .ok))) := by
  obtain ⟨hst, ht, events, hevents, hrun⟩ := h
  obtain ⟨u, events', hnext, hevents', hrest⟩ := alone_cons hr hevents hrun
    (fun answer h => by rw [hst] at h; cases h) ht
  unfold next at hnext
  rw [hst] at hnext
  obtain rfl : lockPost cfg s i sid seq frames remote = u := Option.some.inj hnext
  cases hbody : collectBody cfg.maxPostBytes [] frames with
  | error err =>
    have hlock : lockPost cfg s i sid seq frames remote =
        s.setStage i (.answered (.error err)) := by
      unfold lockPost
      rw [hbody]
    rw [hlock] at hrest
    obtain rfl := alone_answered hr hevents' hrest (Function.update_self _ _ _)
    exact Or.inl ⟨err, rfl, ⟨rfl, rfl, rfl⟩, Function.update_self _ _ _⟩
  | ok body =>
    refine Or.inr ⟨body, rfl, ?_⟩
    -- an answer straight away leaves the entry that was there, or a fresh one
    have hanswer : ∀ status, SessionState.admit cfg (s.entry sid remote) seq body = .answer status →
        Same s t sid ∧ t.stage i = .answered (.ok status) := by
      intro status hgate
      have hlock : lockPost cfg s i sid seq frames remote =
          { s with
            sessions := s.sessions.insert sid (s.entry sid remote)
            stage := Function.update s.stage i (.answered (.ok status)) } := by
        unfold lockPost
        rw [hbody]
        simp only [hgate]
      rw [hlock] at hrest
      obtain rfl := alone_answered hr hevents' hrest (Function.update_self _ _ _)
      refine ⟨⟨?_, rfl, ?_⟩, Function.update_self _ _ _⟩
      · rw [queue_of_lookup (AList.lookup_insert _), entry_queue]
      · rw [writerOf_of_lookup (AList.lookup_insert _), entry_uploadWr]
    have hcases := admit_cases cfg (s.entry sid remote) seq body
    rw [entry_buffered, entry_nextSeq, entry_uploadWr, hwriter] at hcases
    rcases hcases with ⟨hlate, hgate⟩ | ⟨hlt, hfull, hgate⟩ |
      ⟨hle, hroom, e', accept, hgate, hentry⟩
    · exact Or.inl ⟨hlate, hanswer .ok hgate⟩
    · exact Or.inr (Or.inl ⟨hlt, hfull, hanswer .tooManyRequests hgate⟩)
    · refine Or.inr (Or.inr ⟨hle, hroom, ?_⟩)
      have hlock : (lockPost cfg s i sid seq frames remote).sessions = s.sessions.insert sid e' ∧
          (lockPost cfg s i sid seq frames remote).stage = Function.update s.stage i
            (.writing .bridge (release ((s.queue sid).1.insert seq body) (s.nextSeq sid)).1
              accept) ∧
          (lockPost cfg s i sid seq frames remote).userSide = s.userSide := by
        unfold lockPost
        rw [hbody]
        simp only [hgate, and_self]
      obtain ⟨hsessions, hstage, huser⟩ := hlock
      have hlookup : (lockPost cfg s i sid seq frames remote).sessions.lookup sid = some e' := by
        rw [hsessions, AList.lookup_insert]
      have hthere : ((lockPost cfg s i sid seq frames remote).sessions.lookup sid).isSome := by
        rw [hlookup]
        rfl
      obtain ⟨htqueue, htuser, htwriter, htstage⟩ := alone_writing hr rfl ht _
        (by rw [hstage, Function.update_self]) hthere hevents' hrest
      rw [huser] at htuser
      exact ⟨htqueue.trans ((queue_of_lookup hlookup).trans hentry), htuser, htwriter, htstage⟩

end Post

/-! ## Every handler finishes -/

section Finish

variable {cfg : ServerConfig} {reqs : List Request} {s t : State} {i : ℕ} {r : Request}

/-- Alone, the handler gets to its answer. -/
def Finishes (cfg : ServerConfig) (reqs : List Request) (s : State) (i : ℕ) : Prop :=
  ∃ events t, (∀ e ∈ events, e.handler = i) ∧ run (step cfg reqs) s events = some t ∧
    ∃ answer, t.stage i = .answered answer

theorem Finishes.of_answered {answer : Except CarrierError Status}
    (h : s.stage i = .answered answer) : Finishes cfg reqs s i :=
  ⟨[], s, fun _ he => absurd he List.not_mem_nil, rfl, answer, h⟩

theorem Finishes.of_next (hr : reqs[i]? = some r) (h : next cfg s i r = some t)
    (ht : Finishes cfg reqs t i) : Finishes cfg reqs s i := by
  obtain ⟨e, he, hstep⟩ := exists_step_of_next hr h
  obtain ⟨events, u, hevents, hrun, hanswer⟩ := ht
  refine ⟨e :: events, u, ?_, run_cons_eq_some.mpr ⟨t, hstep, hrun⟩, hanswer⟩
  intro e' he'
  rcases List.mem_cons.mp he' with rfl | he'
  · exact he
  · exact hevents e' he'

variable {accept : Option Session}

theorem finishes_announcing (hr : reqs[i]? = some r) (hst : s.stage i = .announcing accept) :
    Finishes cfg reqs s i := by
  refine Finishes.of_next hr (t := announce s i accept) ?_
    (Finishes.of_answered (Function.update_self _ _ _))
  unfold next
  rw [hst]

theorem finishes_writing (hr : reqs[i]? = some r) {writer : Writer} :
    ∀ (chunks : List (List UInt8)) {s : State}, s.stage i = .writing writer chunks accept →
      Finishes cfg reqs s i
  | [], s, hst => by
    refine Finishes.of_next hr (t := reattach s i r.sid writer accept) ?_
      (finishes_announcing hr (Function.update_self _ _ _))
    unfold next
    rw [hst]
  | chunk :: chunks, s, hst => by
    refine Finishes.of_next hr (t := writeChunk s i r.sid writer chunk chunks accept) ?_ ?_
    · unfold next
      rw [hst]
    · cases writer with
      | bridge => exact finishes_writing hr chunks (Function.update_self _ _ _)
      | placeholder =>
        by_cases hchunk : chunk = []
        · have hgoesOn : (writeChunk s i r.sid .placeholder chunk chunks accept).stage i =
              .writing .placeholder chunks accept :=
            (Function.update_self _ _ _).trans (by rw [if_pos hchunk])
          exact finishes_writing hr chunks hgoesOn
        · -- a failed write ends the loop
          have hbreaks : (writeChunk s i r.sid .placeholder chunk chunks accept).stage i =
              .writing .placeholder [] accept :=
            (Function.update_self _ _ _).trans (by rw [if_neg hchunk])
          exact finishes_writing hr [] hbreaks
termination_by chunks => chunks.length

theorem finishes_of_stage (hr : reqs[i]? = some r) (hst : s.stage i ≠ .arrived) :
    Finishes cfg reqs s i := by
  cases h : s.stage i with
  | arrived => exact absurd h hst
  | writing writer chunks accept => exact finishes_writing hr chunks h
  | announcing accept => exact finishes_announcing hr h
  | answered answer => exact Finishes.of_answered h

/-- **A handler that runs alone finishes.** -/
theorem exists_handles (hr : reqs[i]? = some r) (hst : s.stage i = .arrived) :
    ∃ t, Handles cfg reqs s i t := by
  obtain ⟨u, hnext, hu⟩ : ∃ u, next cfg s i r = some u ∧ u.stage i ≠ .arrived := by
    unfold next
    rw [hst]
    cases r with
    | post sid seq frames remote =>
      refine ⟨_, rfl, ?_⟩
      unfold lockPost
      split
      · exact fun h => by cases (Function.update_self _ _ _).symm.trans h
      · dsimp only
        split <;> exact fun h => by cases (Function.update_self _ _ _).symm.trans h
    | get sid remote =>
      refine ⟨_, rfl, fun h => ?_⟩
      have hstage := (Function.update_self _ _ _).symm.trans h
      split at hstage <;> cases hstage
  obtain ⟨events, t, hevents, hrun, hanswer⟩ :=
    Finishes.of_next hr hnext (finishes_of_stage hr hu)
  exact ⟨t, hst, hanswer, events, hevents, hrun⟩

theorem next_stage_other (h : next cfg s i r = some t) {j : ℕ} (hj : j ≠ i) :
    t.stage j = s.stage j := by
  have hupdate : ∀ {u : State} {own : SessionId}, Touches s u i own → u.stage j = s.stage j := by
    intro u own htouch
    obtain ⟨x, hx, -⟩ := htouch.stage_eq
    rw [hx, Function.update_of_ne hj]
  unfold next at h
  split at h
  · cases r with
    | post sid seq frames remote =>
      cases h
      exact hupdate (touches_lockPost cfg s i sid seq frames remote)
    | get sid remote =>
      cases h
      exact hupdate (touches_lockGet s i sid remote)
  · next hst =>
    cases h
    exact hupdate (touches_writeChunk s i r.sid hst)
  · cases h
    exact hupdate (touches_reattach s i r.sid _ _)
  · cases h
    exact hupdate (touches_announce s i r.sid _)
  · cases h

/-- Nobody else has moved. -/
theorem Handles.stage_other (hr : reqs[i]? = some r) (h : Handles cfg reqs s i t) {j : ℕ}
    (hj : j ≠ i) : t.stage j = s.stage j := by
  obtain ⟨-, -, events, hevents, hrun⟩ := h
  induction events generalizing s with
  | nil =>
    cases hrun
    rfl
  | cons e events ih =>
    obtain ⟨u, hstep, hrest⟩ := run_cons_eq_some.mp hrun
    have hnext := next_of_step hr (hevents e List.mem_cons_self) hstep
    rw [ih (fun e' he' => hevents e' (List.mem_cons_of_mem e he')) hrest,
      next_stage_other hnext hj]

end Finish

/-! ## A sequence of POSTs -/

/-- Was the request answered 429? -/
def Stage.refused : Stage → Bool
  | .answered (.ok .tooManyRequests) => true
  | _ => false

/-- The body of a POST that was read and was neither late nor refused. -/
def received (cfg : ServerConfig) (s t : State) (i : ℕ) (sid : SessionId) (seq : ℕ)
    (frames : List BodyFrame) : List (ℕ × List UInt8) :=
  match collectBody cfg.maxPostBytes [] frames with
  | .error _ => []
  | .ok body => if seq < s.nextSeq sid ∨ (t.stage i).refused = true then [] else [(seq, body)]

/-- The first `n` requests, all of them POSTs of the session, have been handled one after
the other; the list has the bodies received. -/
inductive Served (cfg : ServerConfig) (reqs : List Request) (sid : SessionId) :
    ℕ → State → List (ℕ × List UInt8) → Prop
  | start : Served cfg reqs sid 0 .start []
  | post {n : ℕ} {s t : State} {bodies : List (ℕ × List UInt8)} {seq : ℕ}
      {frames : List BodyFrame} {remote : SocketAddr} (hs : Served cfg reqs sid n s bodies)
      (hr : reqs[n]? = some (.post sid seq frames remote)) (h : Handles cfg reqs s n t) :
      Served cfg reqs sid (n + 1) t (bodies ++ received cfg s t n sid seq frames)

/-- The last body received for a number. -/
def lastBody (bodies : List (ℕ × List UInt8)) (k : ℕ) : Option (List UInt8) :=
  bodies.reverse.lookup k

theorem lastBody_concat (bodies : List (ℕ × List UInt8)) (seq : ℕ) (body : List UInt8) (k : ℕ) :
    lastBody (bodies ++ [(seq, body)]) k = if k = seq then some body else lastBody bodies k := by
  unfold lastBody
  rw [List.reverse_append, List.reverse_singleton, List.singleton_append, List.lookup_cons]
  by_cases h : k = seq
  · rw [if_pos h, beq_iff_eq.mpr h]
  · rw [if_neg h, beq_eq_false_iff_ne.mpr h]

/-- What every POST preserves. -/
structure Reordered (cfg : ServerConfig) (sid : SessionId) (n : ℕ) (s : State)
    (bodies : List (ℕ × List UInt8)) : Prop where
  fresh : ∀ j, n ≤ j → s.stage j = .arrived
  writer : s.writerOf sid = .bridge
  delivered : s.userSide sid =
    (List.range (s.nextSeq sid)).flatMap fun k => (lastBody bodies k).getD []
  complete : ∀ k, k < s.nextSeq sid → (lastBody bodies k).isSome
  /-- The buffer has the last body received for each number still to come. -/
  stored : ∀ k, s.nextSeq sid ≤ k → (s.queue sid).1.lookup k = lastBody bodies k
  early : ∀ k ∈ (s.queue sid).1, s.nextSeq sid < k
  bounded : (s.queue sid).1.keys.length ≤ cfg.maxBufferedPosts

theorem reordered_start (cfg : ServerConfig) (sid : SessionId) :
    Reordered cfg sid 0 .start [] where
  fresh := fun _ _ => rfl
  writer := rfl
  delivered := rfl
  complete := fun k hk => absurd hk (Nat.not_lt_zero k)
  stored := fun _ _ => rfl
  early := fun k hk => absurd hk (AList.notMem_empty k)
  bounded := Nat.zero_le _

namespace Reordered

variable {cfg : ServerConfig} {sid : SessionId} {n : ℕ} {s t : State}
  {bodies : List (ℕ × List UInt8)}

/-- A POST that leaves the session alone. -/
theorem same (h : Reordered cfg sid n s bodies) (hfresh : ∀ j, n + 1 ≤ j → t.stage j = .arrived)
    (hsame : Same s t sid) : Reordered cfg sid (n + 1) t bodies := by
  have hnext : t.nextSeq sid = s.nextSeq sid := congrArg Prod.snd hsame.queue_eq
  refine ⟨hfresh, hsame.writerOf_eq.trans h.writer, ?_, ?_, ?_, ?_, ?_⟩
  · rw [hsame.userSide_eq, hnext]
    exact h.delivered
  · rw [hnext]
    exact h.complete
  · rw [hnext, hsame.queue_eq]
    exact h.stored
  · rw [hnext, hsame.queue_eq]
    exact h.early
  · rw [hsame.queue_eq]
    exact h.bounded

/-- A POST that goes into the buffer, and what is released because of it. -/
theorem admitted (h : Reordered cfg sid n s bodies)
    (hfresh : ∀ j, n + 1 ≤ j → t.stage j = .arrived) {seq : ℕ} {body : List UInt8}
    {out : List (List UInt8)} (hle : s.nextSeq sid ≤ seq)
    (hroom : s.nextSeq sid < seq → (s.queue sid).1.keys.length < cfg.maxBufferedPosts)
    (hr : Released ((s.queue sid).1.insert seq body) (s.nextSeq sid) out (t.queue sid).1
      (t.nextSeq sid))
    (huser : t.userSide sid = s.userSide sid ++ out.flatten) (hwriter : t.writerOf sid = .bridge) :
    Reordered cfg sid (n + 1) t (bodies ++ [(seq, body)]) := by
  -- the buffer with the new body has the last body received for each number to come
  have hstored : ∀ k, s.nextSeq sid ≤ k → ((s.queue sid).1.insert seq body).lookup k =
      lastBody (bodies ++ [(seq, body)]) k := by
    intro k hk
    rw [lastBody_concat]
    by_cases hkseq : k = seq
    · rw [if_pos hkseq, hkseq, AList.lookup_insert]
    · rw [if_neg hkseq, AList.lookup_insert_ne hkseq, h.stored k hk]
  have hpast : ∀ k, k < s.nextSeq sid →
      lastBody (bodies ++ [(seq, body)]) k = lastBody bodies k := by
    intro k hk
    rw [lastBody_concat, if_neg (by omega)]
  have hkeys : ∀ k ∈ (s.queue sid).1.insert seq body, s.nextSeq sid ≤ k := by
    intro k hk
    rcases (AList.mem_insert _).mp hk with rfl | hk
    · exact hle
    · exact Nat.le_of_lt (h.early k hk)
  refine ⟨hfresh, hwriter, ?_, ?_, ?_, ?_, ?_⟩
  · have hout := hr.out_eq (fun k => (lastBody (bodies ++ [(seq, body)]) k).getD []) (by
      intro k bytes hk
      have hmem : k ∈ (s.queue sid).1.insert seq body := AList.lookup_isSome.mp (by rw [hk]; rfl)
      rw [← hstored k (hkeys k hmem), hk]
      rfl)
    have hsame : (List.range (s.nextSeq sid)).flatMap
        (fun k => (lastBody (bodies ++ [(seq, body)]) k).getD []) =
          (List.range (s.nextSeq sid)).flatMap fun k => (lastBody bodies k).getD [] := by
      refine List.flatMap_congr fun k hk => ?_
      rw [hpast k (List.mem_range.mp hk)]
    rw [huser, h.delivered, hout, hsame]
  · intro k hk
    by_cases hold : k < s.nextSeq sid
    · rw [hpast k hold]
      exact h.complete k hold
    · rw [← hstored k (Nat.not_lt.mp hold)]
      exact hr.present k (Nat.not_lt.mp hold) hk
  · intro k hk
    rw [hr.rest_eq k hk, hstored k (hr.le.trans hk)]
  · intro k hk
    -- what is left is not behind, and the loop has not left the next one
    have hge : t.nextSeq sid ≤ k := by
      by_contra hlt
      have hmem := hr.mem_of_mem k hk
      have hgone := hr.gone k (hkeys k hmem) (Nat.not_le.mp hlt)
      exact hgone hk
    have hne : k ≠ t.nextSeq sid := by
      rintro rfl
      exact AList.lookup_eq_none.mp hr.stopped hk
    omega
  · have hlen := hr.length_eq
    have hinsert : ((s.queue sid).1.insert seq body).keys.length ≤
        (s.queue sid).1.keys.length + 1 := by
      rw [AList.keys_insert, List.length_cons]
      exact Nat.succ_le_succ (List.length_erase_le ..)
    have hbounded := h.bounded
    by_cases hlt : s.nextSeq sid < seq
    · have := hroom hlt
      omega
    · -- the body is the next one, so it has left the buffer
      have heq : seq = s.nextSeq sid := by omega
      have hadvance : s.nextSeq sid < t.nextSeq sid := by
        by_contra hstuck
        have hsame : t.nextSeq sid = s.nextSeq sid := Nat.le_antisymm (Nat.not_lt.mp hstuck) hr.le
        have hstop := hr.stopped
        rw [hr.rest_eq _ le_rfl, hsame, ← heq, AList.lookup_insert] at hstop
        cases hstop
      omega

end Reordered

variable {sid : SessionId}

/-- **Every sequence of POSTs keeps the buffer in order.** -/
theorem reordered_of_served {cfg : ServerConfig} {reqs : List Request} {n : ℕ} {s : State}
    {bodies : List (ℕ × List UInt8)} (h : Served cfg reqs sid n s bodies) :
    Reordered cfg sid n s bodies := by
  induction h with
  | start => exact reordered_start cfg sid
  | @post n s t bodies seq frames remote _ hr hhandles ih =>
    have hfresh : ∀ j, n + 1 ≤ j → t.stage j = .arrived := by
      intro j hj
      rw [hhandles.stage_other hr (by omega)]
      exact ih.fresh j (by omega)
    rcases handles_post hr ih.writer hhandles with ⟨err, hbody, hsame, -⟩ | ⟨body, hbody, hcases⟩
    · have hnone : received cfg s t n sid seq frames = [] := by
        unfold received
        rw [hbody]
      rw [hnone, List.append_nil]
      exact ih.same hfresh hsame
    · rcases hcases with ⟨hlate, hsame, -⟩ | ⟨-, -, hsame, hanswer⟩ |
        ⟨hle, hroom, hqueue, huser, hwriter, hanswer⟩
      · have hnone : received cfg s t n sid seq frames = [] := by
          unfold received
          rw [hbody]
          exact if_pos (Or.inl hlate)
        rw [hnone, List.append_nil]
        exact ih.same hfresh hsame
      · have hnone : received cfg s t n sid seq frames = [] := by
          unfold received
          rw [hbody]
          refine if_pos (Or.inr ?_)
          rw [hanswer]
          rfl
        rw [hnone, List.append_nil]
        exact ih.same hfresh hsame
      · have hone : received cfg s t n sid seq frames = [(seq, body)] := by
          unfold received
          rw [hbody]
          refine if_neg ?_
          rw [hanswer]
          rintro (hlate | hrefused)
          · omega
          · cases hrefused
        have hr' := released_release ((s.queue sid).1.insert seq body) (s.nextSeq sid)
        rw [← hqueue] at hr'
        rw [hone]
        exact ih.admitted hfresh hle hroom hr' huser hwriter

/-- **The reorder buffer.**  Whatever POSTs of a session have been handled one after the
other, the user side has the last body received for each number before the next one, in
order; the buffer has numbers beyond the next one only, and no more of them than allowed;
and whatever POST comes next is handled, leaving buffer, number and delivered bytes alone if
it is late or refused. -/
theorem reorder_buffer (cfg : ServerConfig) (reqs : List Request) (sid : SessionId) (n : ℕ)
    (s : State) (bodies : List (ℕ × List UInt8)) (hserved : Served cfg reqs sid n s bodies) :
    (s.userSide sid = (List.range (s.nextSeq sid)).flatMap fun k => (lastBody bodies k).getD []) ∧
    (∀ k, k < s.nextSeq sid → (lastBody bodies k).isSome) ∧
    (∀ k ∈ (s.queue sid).1, s.nextSeq sid < k) ∧
    (s.queue sid).1.keys.length ≤ cfg.maxBufferedPosts ∧
    ∀ seq frames remote, reqs[n]? = some (.post sid seq frames remote) →
      (∃ t, Handles cfg reqs s n t) ∧
      ∀ t, Handles cfg reqs s n t →
        (seq < s.nextSeq sid ∨ t.stage n = .answered (.ok .tooManyRequests)) →
          t.queue sid = s.queue sid ∧ t.userSide sid = s.userSide sid := by
  have hs := reordered_of_served hserved
  refine ⟨hs.delivered, hs.complete, hs.early, hs.bounded, ?_⟩
  intro seq frames remote hr
  refine ⟨exists_handles hr (hs.fresh n le_rfl), ?_⟩
  intro t ht hout
  rcases handles_post hr hs.writer ht with ⟨err, -, hsame, -⟩ | ⟨body, -, hcases⟩
  · exact ⟨hsame.queue_eq, hsame.userSide_eq⟩
  · rcases hcases with ⟨-, hsame, -⟩ | ⟨-, -, hsame, -⟩ | ⟨hle, -, -, -, -, hanswer⟩
    · exact ⟨hsame.queue_eq, hsame.userSide_eq⟩
    · exact ⟨hsame.queue_eq, hsame.userSide_eq⟩
    · rcases hout with hlate | hrefused
      · omega
      · rw [hanswer] at hrefused
        cases hrefused

/-! ### Out of order, twice -/

/-- Number one comes twice before number zero. -/
def outOfOrder : List Request :=
  [.post someSession 1 [.data [2]] somePeer, .post someSession 1 [.data [3]] somePeer,
    .post someSession 0 [.data [1]] somePeer]

/-- Where they are after some steps. -/
def outOfOrderAfter (events : List Event) : State :=
  (run (step someConfig outOfOrder) .start events).getD .start

theorem reorder_buffer_outOfOrder :
    ∃ s, Served someConfig outOfOrder someSession 3 s [(1, [2]), (1, [3]), (0, [1])] ∧
      s.userSide someSession = [1, 3] ∧ s.nextSeq someSession = 2 := by
  have h₁ : Handles someConfig outOfOrder .start 0
      (outOfOrderAfter [.lock 0, .reattach 0, .announce 0]) :=
    ⟨rfl, ⟨_, rfl⟩, [.lock 0, .reattach 0, .announce 0], by decide, rfl⟩
  have h₂ : Handles someConfig outOfOrder (outOfOrderAfter [.lock 0, .reattach 0, .announce 0]) 1
      (outOfOrderAfter [.lock 0, .reattach 0, .announce 0, .lock 1, .reattach 1, .announce 1]) :=
    ⟨rfl, ⟨_, rfl⟩, [.lock 1, .reattach 1, .announce 1], by decide, rfl⟩
  have h₃ : Handles someConfig outOfOrder
      (outOfOrderAfter [.lock 0, .reattach 0, .announce 0, .lock 1, .reattach 1, .announce 1]) 2
      (outOfOrderAfter [.lock 0, .reattach 0, .announce 0, .lock 1, .reattach 1, .announce 1,
        .lock 2, .write 2, .write 2, .reattach 2, .announce 2]) :=
    ⟨rfl, ⟨_, rfl⟩, [.lock 2, .write 2, .write 2, .reattach 2, .announce 2], by decide, rfl⟩
  have hserved : Served someConfig outOfOrder someSession 3 _ _ :=
    ((Served.start.post rfl h₁).post rfl h₂).post rfl h₃
  exact ⟨_, hserved, (reorder_buffer _ _ _ _ _ _ hserved).1, rfl⟩

end Carrier
end HoldTheDonut
