import HoldTheDonut.Carrier.Placement
import HoldTheDonut.Machine.Run

/-!
# `donut-carrier/src/client/packet_up.rs`: the uplink task

The packet-up client reads what its user writes, packs each read into a POST with the next
sequence number, waits for the answer and reads on.  The server releases the bodies in the
order of their numbers, so a POST it refuses leaves a hole that no later POST can fill.

`post_chunk` fails when the request cannot be built or sent, and the task ends.  But it does
not look at the status of an answer: a refusal counts as success, and the task goes on to the
next number.  The client's GET, in the same file, does check its status.  So nothing is
skipped if and only if every answer that comes has a success status
(`uplink_never_skips_iff`).
-/

namespace HoldTheDonut
namespace Carrier
namespace Client

open Machine

/-- What the uplink task depends on. -/
structure UplinkConfig extends ClientConfig where
  maxPostBytes : ℕ

/-- The capacity of the pipe to the user. -/
def pipeCapacity : ℕ := 64 * 1024

/-- The size of the read buffer: the configured maximum, within bounds. -/
def maxChunk (cfg : UplinkConfig) : ℕ := max 4096 (min cfg.maxPostBytes (max pipeCapacity 4096))

/-- What comes back for a POST. -/
inductive Answer where
  | status (code : ℕ)
  /-- Building the request, connecting, the handshake or sending fails. -/
  | transportError
  deriving DecidableEq

/-- `StatusCode::is_success`. -/
def isSuccess (code : ℕ) : Bool := decide (200 ≤ code ∧ code < 300)

def Answer.success : Answer → Bool
  | .status code => isSuccess code
  | .transportError => false

/-- `post_chunk`, once the answer is there: the response is dropped unread. -/
def postChunk : Answer → Except Unit Unit
  | .status _ => .ok ()
  | .transportError => .error ()

/-- A POST and its answer. -/
structure Exchange where
  seq : ℕ
  body : List UInt8
  answer : Answer

inductive Task where
  | reading
  /-- Waiting for the answer to the POST with this body. -/
  | posting (chunk : List UInt8)
  | ended
  deriving DecidableEq

structure State where
  task : Task
  seq : ℕ
  /-- All that has been read from the user. -/
  consumed : List UInt8
  log : List Exchange

def State.start : State := ⟨.reading, 0, [], []⟩

inductive Event where
  /-- A read returns; nothing means the end. -/
  | read (bytes : List UInt8)
  | readFailed
  | answer (a : Answer)

/-- The loop of the uplink task. -/
def step (cfg : UplinkConfig) (s : State) : Event → Option State
  | .read bytes =>
    match s.task with
    | .reading =>
      if bytes = [] then some { s with task := .ended }
      else if bytes.length ≤ maxChunk cfg then
        some { s with task := .posting bytes, consumed := s.consumed ++ bytes }
      else none
    | _ => none
  | .readFailed =>
    match s.task with
    | .reading => some { s with task := .ended }
    | _ => none
  | .answer a =>
    match s.task with
    | .posting chunk =>
      let log := s.log ++ [⟨s.seq, chunk, a⟩]
      match postChunk a with
      | .ok _ => some { s with task := .reading, seq := s.seq + 1, log := log }
      | .error _ => some { s with task := .ended, log := log }
    | _ => none

/-- The POST on its way. -/
def State.inFlight (s : State) : List (ℕ × List UInt8) :=
  match s.task with
  | .posting chunk => [(s.seq, chunk)]
  | _ => []

/-- All POSTs sent so far. -/
def State.posts (s : State) : List (ℕ × List UInt8) :=
  s.log.map (fun x => (x.seq, x.body)) ++ s.inFlight

/-- A POST is sent only after success for the one before. -/
def State.NeverSkips (s : State) : Prop :=
  ∀ k body, (k + 1, body) ∈ s.posts → ∃ x ∈ s.log, x.seq = k ∧ x.answer.success = true

/-- What has been read is what was answered with success, and the POST on its way. -/
def State.Accounted (s : State) : Prop :=
  s.task ≠ .ended →
    s.consumed = (s.log.filter fun x => x.answer.success).flatMap Exchange.body ++
      s.inFlight.flatMap Prod.snd

variable {s : State}

/-- What a step can do. -/
theorem step_cases {cfg : UplinkConfig} {t : State} {e : Event} (h : step cfg s e = some t) :
    (s.task = .reading ∧ (∀ a, e ≠ .answer a) ∧ t = { s with task := .ended }) ∨
    (∃ bytes, e = .read bytes ∧ s.task = .reading ∧ bytes ≠ [] ∧
      t = { s with task := .posting bytes, consumed := s.consumed ++ bytes }) ∨
    (∃ chunk code, e = .answer (.status code) ∧ s.task = .posting chunk ∧
      t = { s with
        task := .reading, seq := s.seq + 1, log := s.log ++ [⟨s.seq, chunk, .status code⟩] }) ∨
    (∃ chunk, e = .answer .transportError ∧ s.task = .posting chunk ∧
      t = { s with task := .ended, log := s.log ++ [⟨s.seq, chunk, .transportError⟩] }) := by
  cases e with
  | read bytes =>
    rw [step] at h
    split at h
    · next htask =>
      split at h
      · cases h
        exact Or.inl ⟨htask, nofun, rfl⟩
      · next hne =>
        split at h
        · cases h
          exact Or.inr (Or.inl ⟨bytes, rfl, htask, hne, rfl⟩)
        · cases h
    · cases h
  | readFailed =>
    rw [step] at h
    split at h
    · next htask =>
      cases h
      exact Or.inl ⟨htask, nofun, rfl⟩
    · cases h
  | answer a =>
    rw [step] at h
    split at h
    · next chunk htask =>
      cases a with
      | status code =>
        cases h
        exact Or.inr (Or.inr (Or.inl ⟨chunk, code, rfl, htask, rfl⟩))
      | transportError =>
        cases h
        exact Or.inr (Or.inr (Or.inr ⟨chunk, rfl, htask, rfl⟩))
    · cases h

/-! ## The books of the task -/

/-- What holds of the log whatever the server answers. -/
structure Books (es : List Event) (s : State) : Prop where
  consumed_eq : s.consumed = s.log.flatMap Exchange.body ++ s.inFlight.flatMap Prod.snd
  body_ne : ∀ x ∈ s.log, x.body ≠ []
  posting_ne : s.task ≠ .posting []
  numbered : s.log.map Exchange.seq = List.range s.log.length
  seq_eq : s.task ≠ .ended → s.seq = s.log.length
  logged : ∀ a, .answer a ∈ es ↔ ∃ x ∈ s.log, x.answer = a
  /-- The task has gone on after an exchange only if there was a status. -/
  going : ∀ x ∈ s.log, s.task = .ended ∧ x.seq + 1 = s.log.length ∨ x.answer ≠ .transportError

theorem books_start : Books [] .start where
  consumed_eq := rfl
  body_ne := fun _ h => nomatch h
  posting_ne := nofun
  numbered := rfl
  seq_eq := fun _ => rfl
  logged := fun _ => ⟨nofun, nofun⟩
  going := fun _ h => nomatch h

namespace Books

variable {cfg : UplinkConfig} {es : List Event} {t : State} {e : Event}

theorem mem_concat_of_ne (he : ∀ a, e ≠ .answer a) (a : Answer) :
    .answer a ∈ es ++ [e] ↔ .answer a ∈ es := by
  rw [List.mem_append, List.mem_singleton]
  exact ⟨fun h => h.resolve_right fun heq => he a heq.symm, Or.inl⟩

theorem inFlight_of_task (h : ∀ chunk, s.task ≠ .posting chunk) : s.inFlight = [] := by
  rw [State.inFlight]
  split
  · next chunk htask => exact absurd htask (h chunk)
  · rfl

variable (h : Books es s)

include h

/-- While the task goes on, no exchange so far was a transport error. -/
theorem answered (htask : s.task ≠ .ended) : ∀ x ∈ s.log, x.answer ≠ .transportError :=
  fun x hx => (h.going x hx).resolve_left fun hended => htask hended.1

/-- The user has nothing more to send. -/
theorem ends (htask : s.task = .reading) (he : ∀ a, e ≠ .answer a) :
    Books (es ++ [e]) { s with task := .ended } where
  consumed_eq := by
    have hnone : s.inFlight = [] := inFlight_of_task fun chunk hp => nomatch htask.symm.trans hp
    have heq := h.consumed_eq
    rw [hnone] at heq
    exact heq
  body_ne := h.body_ne
  posting_ne := nofun
  numbered := h.numbered
  seq_eq := fun hne => absurd rfl hne
  logged := fun a => (mem_concat_of_ne he a).trans (h.logged a)
  going := fun x hx => Or.inr (h.answered (fun hended => nomatch htask.symm.trans hended) x hx)

/-- The next POST goes out. -/
theorem reads {bytes : List UInt8} (htask : s.task = .reading) (hne : bytes ≠ []) :
    Books (es ++ [.read bytes])
      { s with task := .posting bytes, consumed := s.consumed ++ bytes } where
  consumed_eq := by
    have hnone : s.inFlight = [] := inFlight_of_task fun chunk hp => nomatch htask.symm.trans hp
    have heq := h.consumed_eq
    rw [hnone, List.flatMap_nil, List.append_nil] at heq
    show s.consumed ++ bytes = s.log.flatMap Exchange.body ++ [(s.seq, bytes)].flatMap Prod.snd
    rw [heq, List.flatMap_singleton]
  body_ne := h.body_ne
  posting_ne := fun hp => hne (Task.posting.inj hp)
  numbered := h.numbered
  seq_eq := fun _ => h.seq_eq fun hended => nomatch htask.symm.trans hended
  logged := fun a =>
    have hread : ∀ a, Event.read bytes ≠ .answer a := nofun
    (mem_concat_of_ne hread a).trans (h.logged a)
  going := fun x hx => Or.inr (h.answered (fun hended => nomatch htask.symm.trans hended) x hx)

/-- An answer comes, and the task reads on or ends. -/
theorem answers {chunk : List UInt8} {a : Answer} {task : Task} {seq : ℕ}
    (htask : s.task = .posting chunk)
    (hnext : (task = .reading ∧ seq = s.seq + 1 ∧ a ≠ .transportError) ∨ task = .ended) :
    Books (es ++ [.answer a])
      { s with task := task, seq := seq, log := s.log ++ [Exchange.mk s.seq chunk a] } := by
  have hrunning : s.task ≠ .ended := fun hended => nomatch htask.symm.trans hended
  have hseq := h.seq_eq hrunning
  have hidle : ∀ c, task ≠ .posting c := by
    rcases hnext with ⟨rfl, -, -⟩ | rfl <;> exact nofun
  have hlen : (s.log ++ [Exchange.mk s.seq chunk a]).length = s.log.length + 1 := by
    rw [List.length_append, List.length_singleton]
  refine ⟨?_, ?_, hidle [], ?_, ?_, ?_, ?_⟩
  · have hflight : s.inFlight = [(s.seq, chunk)] := by
      rw [State.inFlight, htask]
    have hnone : State.inFlight
        { s with task := task, seq := seq, log := s.log ++ [Exchange.mk s.seq chunk a] } = [] :=
      inFlight_of_task hidle
    rw [hnone, List.flatMap_nil, List.append_nil]
    show s.consumed = (s.log ++ [Exchange.mk s.seq chunk a]).flatMap Exchange.body
    rw [h.consumed_eq, hflight, List.flatMap_append, List.flatMap_singleton,
      List.flatMap_singleton]
  · intro x hx
    rcases List.mem_append.mp hx with hold | hlast
    · exact h.body_ne x hold
    · obtain rfl := List.mem_singleton.mp hlast
      exact fun hnil => h.posting_ne (htask.trans (congrArg Task.posting hnil))
  · show (s.log ++ [Exchange.mk s.seq chunk a]).map Exchange.seq = _
    rw [hlen, List.map_append, h.numbered, List.range_succ, List.map_singleton, hseq]
  · intro hne
    rcases hnext with ⟨-, hnew, -⟩ | hended
    · show seq = (s.log ++ [Exchange.mk s.seq chunk a]).length
      rw [hlen, hnew, hseq]
    · exact absurd hended hne
  · intro b
    rw [List.mem_append, List.mem_singleton, h.logged b, Event.answer.injEq]
    constructor
    · rintro (⟨x, hx, rfl⟩ | rfl)
      · exact ⟨x, List.mem_append_left _ hx, rfl⟩
      · exact ⟨_, List.mem_append_right _ (List.mem_singleton_self _), rfl⟩
    · rintro ⟨x, hx, rfl⟩
      rcases List.mem_append.mp hx with hold | hlast
      · exact Or.inl ⟨x, hold, rfl⟩
      · obtain rfl := List.mem_singleton.mp hlast
        exact Or.inr rfl
  · intro x hx
    rcases List.mem_append.mp hx with hold | hlast
    · exact Or.inr (h.answered hrunning x hold)
    · obtain rfl := List.mem_singleton.mp hlast
      rcases hnext with ⟨-, -, hstatus⟩ | hended
      · exact Or.inr hstatus
      · refine Or.inl ⟨hended, ?_⟩
        show s.seq + 1 = (s.log ++ [Exchange.mk s.seq chunk a]).length
        rw [hlen, hseq]

theorem step (hstep : Client.step cfg s e = some t) : Books (es ++ [e]) t := by
  obtain ⟨htask, he, rfl⟩ | ⟨bytes, rfl, htask, hne, rfl⟩ | ⟨chunk, code, rfl, htask, rfl⟩ |
    ⟨chunk, rfl, htask, rfl⟩ := step_cases hstep
  · exact h.ends htask he
  · exact h.reads htask hne
  · exact h.answers htask (Or.inl ⟨rfl, rfl, nofun⟩)
  · exact h.answers htask (Or.inr rfl)

end Books

theorem books_run {cfg : UplinkConfig} {events : List Event}
    (hrun : run (step cfg) .start events = some s) : Books events s :=
  run_history Books books_start (fun _ _ _ _ h hstep => h.step hstep) events hrun

/-! ## Nothing is skipped -/

variable {es : List Event}

/-- The POST with the number before got an answer, whatever it was. -/
theorem Books.exists_before (h : Books es s) {k : ℕ} {body : List UInt8}
    (hpost : (k + 1, body) ∈ s.posts) : ∃ x ∈ s.log, x.seq = k ∧ x.answer ≠ .transportError := by
  have hexists : k < s.log.length → ∃ x ∈ s.log, x.seq = k := by
    intro hk
    have hmem : k ∈ s.log.map Exchange.seq := by
      rw [h.numbered]
      exact List.mem_range.mpr hk
    obtain ⟨x, hx, hxk⟩ := List.mem_map.mp hmem
    exact ⟨x, hx, hxk⟩
  rcases List.mem_append.mp hpost with hlogged | hflight
  · obtain ⟨y, hy, hyk⟩ := List.mem_map.mp hlogged
    have hyseq : y.seq = k + 1 := congrArg Prod.fst hyk
    have hlt : k + 1 < s.log.length := by
      have hmem : y.seq ∈ s.log.map Exchange.seq := List.mem_map.mpr ⟨y, hy, rfl⟩
      rw [h.numbered, hyseq] at hmem
      exact List.mem_range.mp hmem
    obtain ⟨x, hx, hxk⟩ := hexists (Nat.lt_of_succ_lt hlt)
    refine ⟨x, hx, hxk, (h.going x hx).resolve_left fun hlast => ?_⟩
    have := hlast.2
    omega
  · rw [State.inFlight] at hflight
    split at hflight
    · next chunk htask =>
      have hrunning : s.task ≠ .ended := fun hended => nomatch htask.symm.trans hended
      have hseq : k + 1 = s.log.length := by
        rw [← h.seq_eq hrunning]
        exact congrArg Prod.fst (List.mem_singleton.mp hflight)
      obtain ⟨x, hx, hxk⟩ := hexists (by omega)
      exact ⟨x, hx, hxk, h.answered hrunning x hx⟩
    · cases hflight

/-- With a success status for every answer, both parts hold. -/
theorem Books.sound (h : Books es s)
    (hall : ∀ code, .answer (.status code) ∈ es → isSuccess code = true) :
    s.NeverSkips ∧ s.Accounted := by
  have hsuccess : ∀ x ∈ s.log, x.answer ≠ .transportError → x.answer.success = true := by
    intro x hx hstatus
    cases hx' : x.answer with
    | status code => exact hall code ((h.logged _).mpr ⟨x, hx, hx'⟩)
    | transportError => exact absurd hx' hstatus
  refine ⟨?_, ?_⟩
  · intro k body hpost
    obtain ⟨x, hx, hxk, hstatus⟩ := h.exists_before hpost
    exact ⟨x, hx, hxk, hsuccess x hx hstatus⟩
  · intro hrunning
    have hfilter : s.log.filter (fun x => x.answer.success) = s.log :=
      List.filter_eq_self.mpr fun x hx => hsuccess x hx (h.answered hrunning x hx)
    rw [hfilter]
    exact h.consumed_eq

/-- A refused POST is missing from what was answered with success. -/
theorem not_accounted_of_refused {chunk : List UInt8} {code : ℕ} (h : Books es s)
    (htask : s.task = .posting chunk) (hrefused : isSuccess code = false) :
    ¬State.Accounted { s with
      task := .reading, seq := s.seq + 1,
      log := s.log ++ [Exchange.mk s.seq chunk (.status code)] } := by
  intro haccounted
  have hflight : s.inFlight = [(s.seq, chunk)] := by
    rw [State.inFlight, htask]
  have hdropped : (s.log ++ [Exchange.mk s.seq chunk (.status code)]).filter
      (fun x => x.answer.success) = s.log.filter (fun x => x.answer.success) := by
    have hlast : [Exchange.mk s.seq chunk (.status code)].filter
        (fun x => x.answer.success) = [] := by
      rw [List.filter_singleton]
      show (bif isSuccess code then _ else _) = _
      rw [hrefused]
      rfl
    rw [List.filter_append, hlast, List.append_nil]
  have hbytes : s.consumed = (s.log.filter fun x => x.answer.success).flatMap Exchange.body := by
    have heq := haccounted nofun
    rw [hdropped] at heq
    exact heq.trans (List.append_nil _)
  have hle : ((s.log.filter fun x => x.answer.success).flatMap Exchange.body).length ≤
      (s.log.flatMap Exchange.body).length := by
    rw [List.flatMap_def, List.flatMap_def]
    exact (List.filter_sublist.map Exchange.body).flatten.length_le
  have hconsumed : s.consumed.length =
      (s.log.flatMap Exchange.body).length + chunk.length := by
    rw [h.consumed_eq, hflight, List.flatMap_singleton, List.length_append]
  rw [hbytes] at hconsumed
  have hpos : 0 < chunk.length :=
    List.length_pos_iff.mpr fun hnil =>
      h.posting_ne (htask.trans (congrArg Task.posting hnil))
  omega

/-- **The client skips nothing if and only if no POST is refused.**  Over any reads and any
answers: at every point of the run, a POST has been sent only after a success status for the
one before, and a running task has read exactly what was answered with success and the one
POST on its way; this holds if and only if every status the server answers with is a success
status.  A transport error ends the task and does no harm. -/
theorem uplink_never_skips_iff (cfg : UplinkConfig) (events : List Event) (s : State)
    (hrun : run (step cfg) .start events = some s) :
    (∀ before t, before <+: events → run (step cfg) .start before = some t →
      t.NeverSkips ∧ t.Accounted) ↔
      ∀ code, .answer (.status code) ∈ events → isSuccess code = true := by
  constructor
  · intro hall code hcode
    obtain ⟨before, after, rfl⟩ := List.append_of_mem hcode
    have hpre : before ++ [.answer (.status code)] <+:
        before ++ .answer (.status code) :: after :=
      ⟨after, by rw [List.append_assoc, List.singleton_append]⟩
    obtain ⟨t, ht⟩ := run_of_prefix hrun hpre
    obtain ⟨u, hu, hstep⟩ := run_concat_eq_some.mp ht
    obtain ⟨-, he, -⟩ | ⟨bytes, he, -⟩ | ⟨chunk, code', he, htask, rfl⟩ | ⟨chunk, he, -⟩ :=
      step_cases hstep
    · exact absurd rfl (he _)
    · cases he
    · cases he
      by_contra hrefused
      exact not_accounted_of_refused (books_run hu) htask (Bool.eq_false_iff.mpr hrefused)
        (hall _ _ hpre ht).2
    · cases he
  · intro hall before t hpre ht
    exact (books_run ht).sound fun code hcode => hall code (hpre.subset hcode)

/-- The default client. -/
def someClient : UplinkConfig := ⟨clientWith .header, 1000000⟩

theorem uplink_never_skips_iff_two :
    (∀ before t, before <+: [Event.read [1], .answer (.status 200), .read [2]] →
      run (step someClient) .start before = some t → t.NeverSkips ∧ t.Accounted) ↔
      ∀ code, .answer (.status code) ∈ [Event.read [1], .answer (.status 200), .read [2]] →
        isSuccess code = true :=
  uplink_never_skips_iff someClient [.read [1], .answer (.status 200), .read [2]] _ rfl

/-- The first POST is refused with 429.  The task goes on, the POST with number 1 is on its
way, and the byte of the refused one is gone. -/
theorem uplink_skips_refused :
    ∃ s, run (step someClient) .start [.read [1], .answer (.status 429), .read [2]] = some s ∧
      s.task ≠ .ended ∧ (1, [2]) ∈ s.posts ∧ ¬s.NeverSkips ∧ ¬s.Accounted := by
  refine ⟨_, rfl, nofun, List.mem_cons_of_mem _ List.mem_cons_self, ?_, ?_⟩
  · intro hnever
    obtain ⟨x, hx, -, hsuccess⟩ := hnever 0 [2] (List.mem_cons_of_mem _ List.mem_cons_self)
    obtain rfl := List.mem_singleton.mp hx
    cases hsuccess
  · intro haccounted
    cases haccounted nofun

end Client
end Carrier
end HoldTheDonut
