import HoldTheDonut.Interaction.Exec
import HoldTheDonut.Server.Proxy

/-!
# The header loop of `handle_xray_vision_session`, record by record

The handler decrypts one outer-TLS record after the other and appends its plaintext until
the request header decodes.  A record need not carry application bytes: a KeyUpdate has
none.  `read_record_opt` keeps such a record apart from the end of the stream, and its
documentation asks every loop over the tunnel to do the same; `tls_plain_relay` and the
Vision loops do.  The header loop reads with `read_record`, which answers both with an empty
vector, and takes it for the end.

The loop is run here in a world (`exec`) that holds the records the client has sent, after
which its stream ends, and a decoy that sends what it likes when it likes.  The outcome is
read off that run: the decoded request with everything behind the header, a decode error,
a relay to the decoy with all the bytes it was forwarded, or the end.  `plaintextOutcome`
is what the plaintext alone says it should be.  The two agree on every splitting without
empty records (`headerOutcome_of_emptyLate`); in general they agree exactly if no record is
empty before the decoder has its answer (`headerOutcome_eq_plaintextOutcome_iff`).
-/

namespace HoldTheDonut
namespace Server

open Interaction Streaming
open Wire (Request WireError)

/-! ## The world -/

/-- A caller that sends its records and closes, and a decoy. -/
structure Caller where
  /-- The plaintexts of the records still to be read. -/
  records : List (List UInt8)
  /-- What the decoy will send, read by read.  A read of no bytes is its end; a decoy whose
  list is used up stays silent. -/
  sends : List (List UInt8)
  /-- Whether the decoy comes first the next time both ends have something. -/
  turns : List Bool
  /-- The decoy, once it has been reached. -/
  relay : Option SocketAddr
  /-- What the decoy has been forwarded. -/
  forwarded : List UInt8

namespace Caller

/-- The next record, or the end of the stream. -/
def nextRecord (w : Caller) : Option (List UInt8) × Caller :=
  match w.records with
  | [] => (none, w)
  | r :: rs => (some r, { w with records := rs })

/-- The tunnel's branch of a `select!`: it always has something, if only its end. -/
def fromTunnel (w : Caller) (tunnelDone : Bool) : Option (RelayEvent × Caller) :=
  if tunnelDone then none else some (.tunnel (some w.nextRecord.1), w.nextRecord.2)

/-- The decoy's branch. -/
def fromDecoy (w : Caller) (targetDone : Bool) : Option (RelayEvent × Caller) :=
  match targetDone, w.sends with
  | false, c :: cs => some (.target (some c), { w with sends := cs })
  | _, _ => none

/-- The `select!` of a relay: a branch that is switched on and has something. -/
def select (w : Caller) (tunnelDone targetDone : Bool) : Option (RelayEvent × Caller) :=
  let next := { w with turns := w.turns.tail }
  if w.turns.headD false then (next.fromDecoy targetDone).or (next.fromTunnel tunnelDone)
  else (next.fromTunnel tunnelDone).or (next.fromDecoy targetDone)

/-- The answers.  `accepts` says whether the decoy can be reached; nothing else fails. -/
def answer (accepts : Bool) : (op : Op) → Caller → Option (Ans op × Caller)
  | .readRecord, w => some ((some w.nextRecord.1 : ReadResult), w.nextRecord.2)
  | .connect (.decoy d), w => some (accepts, if accepts then { w with relay := some d } else w)
  | .writeUp _ bytes, w => some (true, { w with forwarded := w.forwarded ++ bytes })
  | .relayDown _ _, w => some (true, w)
  | .shutdownUp _, w => some ((), w)
  | .shutdownClient, w => some ((), w)
  | .select _ tunnelDone targetDone, w => w.select tunnelDone targetDone
  | _, _ => none

end Caller

/-! ## Outcomes -/

/-- How the header loop can end. -/
inductive HeaderOutcome where
  /-- A request, and everything the client sends behind its header. -/
  | request (req : Request) (rest : List UInt8)
  | failed (e : WireError)
  /-- A relay to the decoy, and everything it was forwarded. -/
  | relayed (decoy : SocketAddr) (bytes : List UInt8)
  /-- The session is over. -/
  | ended
  deriving DecidableEq

/-- The outcome of a run.  A relay that waits has been forwarded all there is.  `none` is a
run that ended for want of fuel, or with an error of the network. -/
def outcomeOf :
    Stop Op ProxyError (Option (Request × List UInt8)) × Caller → Option HeaderOutcome
  | (.returned (some (req, leftover)), w) => some (.request req (leftover ++ w.records.flatten))
  | (.returned none, w) =>
    some (match w.relay with
      | some d => .relayed d w.forwarded
      | none => .ended)
  | (.waits _, w) => w.relay.map fun d => .relayed d w.forwarded
  | (.failed (.wire e), _) => some (.failed e)
  | (.failed _, _) => none
  | (.halted, _) => none

/-- The header loop on a list of records, with a decoy that behaves as told. -/
def headerOutcome (accepts : Bool) (decoy : Option SocketAddr) (sends : List (List UInt8))
    (turns : List Bool) (fuel : ℕ) (records : List (List UInt8)) : Option HeaderOutcome :=
  outcomeOf (exec (Caller.answer accepts) (readRecordHeader decoy fuel [])
    ⟨records, sends, turns, none, []⟩)

/-- What a caller of foreign bytes gets. -/
def foreignOutcome (accepts : Bool) (decoy : Option SocketAddr) (s : List UInt8) :
    HeaderOutcome :=
  match decoy with
  | some d => if accepts then .relayed d s else .ended
  | none => .ended

/-- What the plaintext says the outcome should be: the whole stream, decoded once. -/
def plaintextOutcome (accepts : Bool) (decoy : Option SocketAddr) (s : List UInt8) :
    HeaderOutcome :=
  if s = [] then .ended
  else if s.headD 0 ≠ Wire.version then foreignOutcome accepts decoy s
  else
    match verdict WireError.Truncated Request.decode s with
    | none => .ended
    | some (.ok (req, rest)) => .request req rest
    | some (.error e) => .failed e

/-- The decoder asks for more. -/
def Undecided (s : List UInt8) : Prop := verdict WireError.Truncated Request.decode s = none

/-- No record is empty before the decoder has its answer. -/
def EmptyLate (records : List (List UInt8)) : Prop :=
  ∀ before after, records = before ++ [] :: after → ¬ Undecided before.flatten

/-! ## The relay to the decoy

Everything the tunnel still carries is forwarded, whatever the decoy sends meanwhile. -/

section Relay

variable {accepts : Bool}

/-- The program comes to a rest, and has forwarded `bytes` by then. -/
def Forwards (accepts : Bool) (p : Handler Unit) (w : Caller) (bytes : List UInt8) : Prop :=
  ∃ w', (exec (Caller.answer accepts) p w = (.returned (), w') ∨
      ∃ op, exec (Caller.answer accepts) p w = (.waits op, w')) ∧
    w'.relay = w.relay ∧ w'.forwarded = w.forwarded ++ bytes

/-- An answered operation that forwards nothing, in front of a program. -/
theorem Forwards.ask {op : Op} {next : Ans op → Handler Unit} {w v : Caller} {x : Ans op}
    {bytes : List UInt8} (hop : Caller.answer accepts op w = some (x, v))
    (hrelay : v.relay = w.relay) (hsame : v.forwarded = w.forwarded)
    (h : Forwards accepts (next x) v bytes) : Forwards accepts (.ask op next) w bytes := by
  obtain ⟨w', hrun, hr, hf⟩ := h
  refine ⟨w', ?_, hr.trans hrelay, by rw [hf, hsame]⟩
  rw [exec_ask_of_some hop]
  exact hrun

theorem Forwards.ignoring {p : Handler Unit} {w : Caller} {bytes : List UInt8}
    (h : Forwards accepts p w bytes) : Forwards accepts p.ignoring w bytes := by
  obtain ⟨w', hrun, hrest⟩ := h
  refine ⟨w', ?_, hrest⟩
  rcases hrun with hret | ⟨op, hwait⟩
  · exact Or.inl (exec_ignoring_of_returned hret)
  · exact Or.inr ⟨op, exec_ignoring_of_waits hwait⟩

/-- What `write_all` forwards, unless there is nothing to write. -/
theorem Forwards.writeUpNonempty {u : Upstream} {pt : List UInt8} {next : Handler Unit}
    {w : Caller} {rest : List UInt8}
    (h : Forwards accepts next { w with forwarded := w.forwarded ++ pt } rest) :
    Forwards accepts (do Server.writeUpNonempty u pt; next) w (pt ++ rest) := by
  unfold Server.writeUpNonempty
  split
  · next hnil =>
    subst hnil
    rw [List.append_nil] at h
    exact h
  · obtain ⟨w', hrun, hr, hf⟩ := h
    exact ⟨w', hrun, hr, by rw [hf, List.append_assoc]⟩

/-- What is left to happen before a relay comes to a rest. -/
def Caller.pending (w : Caller) (tunnelDone targetDone : Bool) : ℕ :=
  (if tunnelDone then 0 else w.records.length + 1) + if targetDone then 0 else w.sends.length + 1

/-- What the tunnel still carries, if it is read at all. -/
def Caller.unread (w : Caller) (tunnelDone : Bool) : List UInt8 :=
  if tunnelDone then [] else w.records.flatten

/-- **What a `select!` can answer**: the decoy's next read, the end of the tunnel, its next
record, or nothing. -/
theorem Caller.select_cases (w : Caller) (tunnelDone targetDone : Bool) :
    (∃ c cs, targetDone = false ∧ w.sends = c :: cs ∧ w.select tunnelDone targetDone =
      some (.target (some c), { w with turns := w.turns.tail, sends := cs })) ∨
    (tunnelDone = false ∧ w.records = [] ∧ w.select tunnelDone targetDone =
      some (.tunnel (some none), { w with turns := w.turns.tail })) ∨
    (∃ r rs, tunnelDone = false ∧ w.records = r :: rs ∧ w.select tunnelDone targetDone =
      some (.tunnel (some (some r)), { w with turns := w.turns.tail, records := rs })) ∨
    (tunnelDone = true ∧ w.select tunnelDone targetDone = none) := by
  obtain ⟨records, sends, turns, relay, forwarded⟩ := w
  unfold Caller.select
  generalize turns.headD false = turn
  cases tunnelDone <;> cases targetDone <;> cases turn <;> cases sends <;> cases records <;>
    simp [Caller.fromDecoy, Caller.fromTunnel, Caller.nextRecord]

/-- **The relay forwards all of the tunnel.**  The induction is on the fuel, of which there
is more than there is left to happen. -/
theorem forwards_plainRelayLoop (u : Upstream) (fuel : ℕ) (w : Caller)
    (tunnelDone targetDone : Bool) (hfuel : w.pending tunnelDone targetDone < fuel) :
    Forwards accepts (plainRelayLoop u fuel tunnelDone targetDone) w (w.unread tunnelDone) := by
  induction fuel generalizing w tunnelDone targetDone with
  | zero => exact absurd hfuel (Nat.not_lt_zero _)
  | succ fuel ih =>
    rw [plainRelayLoop]
    split
    · next hdone =>
      have htunnel : tunnelDone = true := (Bool.and_eq_true_iff.mp hdone).1
      subst htunnel
      exact ⟨w, Or.inl rfl, rfl, (List.append_nil _).symm⟩
    · rcases w.select_cases tunnelDone targetDone with
        ⟨c, cs, rfl, hsends, hsel⟩ | ⟨rfl, hrecords, hsel⟩ | ⟨r, rs, rfl, hrecords, hsel⟩ |
          ⟨rfl, hsel⟩
      · -- the decoy's read: its end closes the client's stream, bytes are passed on to it
        have hop : Caller.answer accepts (.select u tunnelDone false) w = some (_, _) := hsel
        refine Forwards.ask hop rfl rfl ?_
        have hless : ∀ done, Caller.pending { w with turns := w.turns.tail, sends := cs }
            tunnelDone done < fuel := by
          intro done
          rw [Caller.pending, hsends] at hfuel
          rw [Caller.pending]
          cases done <;> simp at hfuel ⊢ <;> omega
        cases c with
        | nil => exact ih _ _ _ (hless true)
        | cons b bytes => exact ih _ _ _ (hless false)
      · have hop : Caller.answer accepts (.select u false targetDone) w = some (_, _) := hsel
        refine Forwards.ask hop rfl rfl ?_
        have hless : Caller.pending { w with turns := w.turns.tail } true targetDone < fuel := by
          rw [Caller.pending, hrecords] at hfuel
          rw [Caller.pending]
          simp at hfuel ⊢
          omega
        have hunread : w.unread false = [] := by
          rw [Caller.unread, hrecords]
          rfl
        rw [hunread]
        exact ih _ _ _ hless
      · have hop : Caller.answer accepts (.select u false targetDone) w = some (_, _) := hsel
        refine Forwards.ask hop rfl rfl ?_
        have hunread : w.unread false = r ++ rs.flatten := by
          rw [Caller.unread, hrecords]
          rfl
        rw [hunread]
        refine Forwards.writeUpNonempty (ih _ false targetDone ?_)
        rw [Caller.pending, hrecords] at hfuel
        rw [Caller.pending]
        simp at hfuel ⊢
        omega
      · exact ⟨w, Or.inr ⟨_, exec_ask_of_none hsel⟩, rfl, (List.append_nil _).symm⟩

theorem forwards_tlsPlainRelay (u : Upstream) (initial : List UInt8) {fuel : ℕ} (w : Caller)
    (hfuel : w.records.length + w.sends.length + 2 < fuel) :
    Forwards accepts (tlsPlainRelay fuel u initial) w (initial ++ w.records.flatten) := by
  refine Forwards.writeUpNonempty (forwards_plainRelayLoop u fuel _ false false ?_)
  rw [Caller.pending]
  simp
  omega

end Relay

/-! ## The loop -/

section Loop

variable {accepts : Bool} {decoy : Option SocketAddr}

/-- A world that has not yet met the decoy. -/
def Caller.Fresh (w : Caller) : Prop := w.relay = none ∧ w.forwarded = []

theorem outcomeOf_ended {w : Caller} (hw : w.Fresh) :
    outcomeOf (.returned none, w) = some .ended := by
  rw [outcomeOf, hw.1]

/-- A foreign caller is relayed whole. -/
theorem outcomeOf_selfSteal {fuel : ℕ} {w : Caller} (hw : w.Fresh)
    (hfuel : w.records.length + w.sends.length + 2 < fuel) (probe : List UInt8) :
    outcomeOf (exec (Caller.answer accepts) (do selfSteal fuel decoy probe; pure none) w) =
      some (foreignOutcome accepts decoy (probe ++ w.records.flatten)) := by
  cases decoy with
  | none => exact outcomeOf_ended hw
  | some d =>
    cases accepts with
    | false => exact outcomeOf_ended hw
    | true =>
      have hrelay : Forwards true (tlsPlainRelay fuel (.decoy d) probe).ignoring
          { w with relay := some d } (probe ++ w.records.flatten) :=
        (forwards_tlsPlainRelay (.decoy d) probe { w with relay := some d } hfuel).ignoring
      obtain ⟨w', hrun, hr, hf⟩ := hrelay
      have hforwarded : w'.forwarded = probe ++ w.records.flatten := by
        rw [hf]
        exact congrArg (· ++ _) hw.2
      -- the dial is answered, what follows is the relay
      show outcomeOf (exec _ (do (tlsPlainRelay fuel (.decoy d) probe).ignoring; pure none)
        { w with relay := some d }) = some (.relayed d _)
      rw [← hforwarded]
      rcases hrun with hret | ⟨op, hwait⟩
      · rw [exec_bind_of_returned _ hret]
        show some (match w'.relay with | some d => _ | none => _) = _
        rw [hr]
      · rw [exec_bind_of_waits _ hwait]
        show w'.relay.map _ = _
        rw [hr]
        rfl

variable {s : List UInt8}

/-- The decoder's answer to a stream that does not start with the version is final. -/
theorem decode_of_ne_version (hne : s ≠ []) (hs : s.headD 0 ≠ Wire.version) :
    Request.decode s = .error (.badVersion (s.headD 0)) := by
  cases s with
  | nil => exact absurd rfl hne
  | cons b rest =>
    have hb : b ≠ Wire.version := hs
    have hversion : Wire.readVersion (b :: rest) = .error (.badVersion b) := by
      rw [Wire.readVersion, Parser.bind_of_ok _ (Wire.readU8_cons b rest), if_pos hb]
      rfl
    exact Parser.bind_of_error _ hversion

theorem undecided_iff {buf : List UInt8} :
    Undecided buf ↔ ∃ e, Request.decode buf = .error e ∧ e.Truncated := by
  unfold Undecided verdict
  cases hdecode : Request.decode buf with
  | ok x => simp
  | error e => simp

theorem undecided_nil : Undecided [] := rfl

/-- An answer stays when more is read. -/
theorem Undecided.of_append {x : List UInt8} (h : Undecided (s ++ x)) : Undecided s := by
  obtain ⟨e, he, htrunc⟩ := undecided_iff.mp h
  cases hdecode : Request.decode s with
  | ok y =>
    rw [Wire.incremental_decode.ok_append hdecode x] at he
    cases he
  | error e' =>
    refine undecided_iff.mpr ⟨e', hdecode, ?_⟩
    by_contra hfinal
    rw [Wire.incremental_decode.error_append hdecode hfinal x] at he
    cases he
    exact hfinal htrunc

theorem Undecided.version (h : Undecided s) (hne : s ≠ []) :
    s.headD 0 = Wire.version := by
  by_contra hforeign
  obtain ⟨e, he, htrunc⟩ := undecided_iff.mp h
  rw [decode_of_ne_version hne hforeign] at he
  cases he
  exact htrunc

theorem plaintextOutcome_of_undecided (h : Undecided s) :
    plaintextOutcome accepts decoy s = .ended := by
  unfold plaintextOutcome
  split
  · rfl
  · next hne =>
    rw [if_neg (not_not.mpr (h.version hne)),
      show verdict WireError.Truncated Request.decode s = none from h]

/-- The first byte of what has been read is the first byte of the stream. -/
theorem headD_append (hne : s ≠ []) (x : List UInt8) :
    (s ++ x).headD 0 = s.headD 0 := by
  cases s with
  | nil => exact absurd rfl hne
  | cons b rest => rfl

theorem plaintextOutcome_of_foreign (hne : s ≠ []) (hs : s.headD 0 ≠ Wire.version)
    (x : List UInt8) :
    plaintextOutcome accepts decoy (s ++ x) = foreignOutcome accepts decoy (s ++ x) := by
  unfold plaintextOutcome
  rw [if_neg (List.append_ne_nil_of_left_ne_nil hne x), headD_append hne, if_pos hs]

/-- Behind the triage the outcome is the decoder's. -/
theorem plaintextOutcome_of_version (hne : s ≠ []) (hs : s.headD 0 = Wire.version)
    (x : List UInt8) :
    plaintextOutcome accepts decoy (s ++ x) =
      match verdict WireError.Truncated Request.decode (s ++ x) with
      | none => .ended
      | some (.ok (req, rest)) => .request req rest
      | some (.error e) => .failed e := by
  unfold plaintextOutcome
  rw [if_neg (List.append_ne_nil_of_left_ne_nil hne x), headD_append hne,
    if_neg (not_not.mpr hs)]

variable {sends : List (List UInt8)} {turns : List Bool} {fuel : ℕ} {buf : List UInt8}

/-- A record that leaves the decoder undecided is appended, and the loop goes on. -/
theorem exec_readRecordHeader_undecided {r : List UInt8} {rs : List (List UInt8)} (hne : r ≠ [])
    (h : Undecided (buf ++ r)) :
    exec (Caller.answer accepts) (readRecordHeader decoy (fuel + 1) buf)
        ⟨r :: rs, sends, turns, none, []⟩ =
      exec (Caller.answer accepts) (readRecordHeader decoy fuel (buf ++ r))
        ⟨rs, sends, turns, none, []⟩ := by
  obtain ⟨b, bytes, rfl⟩ := List.exists_cons_of_ne_nil hne
  obtain ⟨e, he, htrunc⟩ := undecided_iff.mp h
  have hversion := h.version (List.append_ne_nil_of_right_ne_nil buf hne)
  show exec _ (if (buf ++ b :: bytes).headD 0 ≠ Wire.version then _ else decodeHeader _ _ _) _ = _
  rw [if_neg (not_not.mpr hversion), decodeHeader, he]
  show exec _ (if e.Truncated then _ else _) _ = _
  rw [if_pos htrunc]
  rfl

/-- **An empty record ends the loop** if the decoder has no answer by then. -/
theorem headerLoop_of_early_empty (before after : List (List UInt8)) (hfuel : before.length < fuel)
    (h : Undecided (buf ++ before.flatten)) :
    outcomeOf (exec (Caller.answer accepts) (readRecordHeader decoy fuel buf)
      ⟨before ++ [] :: after, sends, turns, none, []⟩) = some .ended := by
  induction before generalizing fuel buf with
  | nil =>
    cases fuel with
    | zero => exact absurd hfuel (Nat.not_lt_zero _)
    | succ fuel => rfl
  | cons r before ih =>
    cases fuel with
    | zero => exact absurd hfuel (Nat.not_lt_zero _)
    | succ fuel =>
      rw [List.flatten_cons, ← List.append_assoc] at h
      cases r with
      | nil => rfl
      | cons b bytes =>
        rw [List.cons_append, exec_readRecordHeader_undecided (List.cons_ne_nil b bytes)
          h.of_append]
        exact ih (Nat.lt_of_succ_lt_succ hfuel) h

/-- **Without early empty records the loop sees the plaintext only.**  The induction is on
the records still to come; what it carries is that the buffer does not decide. -/
theorem headerLoop_of_emptyLate (records : List (List UInt8))
    (hfuel : records.length + sends.length + 2 < fuel) (hbuf : Undecided buf)
    (hlate : ∀ before after, records = before ++ [] :: after →
      ¬ Undecided (buf ++ before.flatten)) :
    outcomeOf (exec (Caller.answer accepts) (readRecordHeader decoy fuel buf)
      ⟨records, sends, turns, none, []⟩) =
        some (plaintextOutcome accepts decoy (buf ++ records.flatten)) := by
  induction records generalizing fuel buf with
  | nil =>
    cases fuel with
    | zero => exact absurd hfuel (Nat.not_lt_zero _)
    | succ fuel =>
      rw [List.flatten_nil, List.append_nil, plaintextOutcome_of_undecided hbuf]
      rfl
  | cons r rs ih =>
    cases fuel with
    | zero => exact absurd hfuel (Nat.not_lt_zero _)
    | succ fuel =>
      have hne : r ≠ [] := by
        rintro rfl
        exact hlate [] rs rfl (by rwa [List.flatten_nil, List.append_nil])
      have hne' : buf ++ r ≠ [] := List.append_ne_nil_of_right_ne_nil buf hne
      have hfuel' : rs.length + sends.length + 2 < fuel := by
        rw [List.length_cons] at hfuel
        omega
      rw [List.flatten_cons, ← List.append_assoc]
      by_cases hundecided : Undecided (buf ++ r)
      · rw [exec_readRecordHeader_undecided hne hundecided]
        refine ih hfuel' hundecided fun before after heq hu => ?_
        refine hlate (r :: before) after (by rw [heq, List.cons_append]) ?_
        rwa [List.flatten_cons, ← List.append_assoc]
      · obtain ⟨b, bytes, rfl⟩ := List.exists_cons_of_ne_nil hne
        show outcomeOf (exec _ (if (buf ++ b :: bytes).headD 0 ≠ Wire.version then _
          else decodeHeader _ _ _) _) = _
        by_cases hforeign : (buf ++ b :: bytes).headD 0 ≠ Wire.version
        · rw [if_pos hforeign, plaintextOutcome_of_foreign hne' hforeign]
          exact outcomeOf_selfSteal ⟨rfl, rfl⟩ hfuel' _
        · rw [if_neg hforeign, decodeHeader]
          have hversion := not_not.mp hforeign
          cases hdecode : Request.decode (buf ++ b :: bytes) with
          | ok x =>
            rw [plaintextOutcome_of_version hne' hversion,
              Wire.incremental_decode.verdict_append_of_ok hdecode]
            rfl
          | error e =>
            have hfinal : ¬ e.Truncated := fun htrunc =>
              hundecided (undecided_iff.mpr ⟨e, hdecode, htrunc⟩)
            rw [plaintextOutcome_of_version hne' hversion,
              Wire.incremental_decode.verdict_append_of_error hdecode hfinal]
            show outcomeOf (exec _ (if e.Truncated then _ else _) _) = _
            rw [if_neg hfinal]
            rfl

end Loop

/-! ## What the splitting changes -/

section Splitting

variable (accepts : Bool) (decoy : Option SocketAddr) (sends : List (List UInt8))
  (turns : List Bool) {fuel : ℕ} {records : List (List UInt8)}

theorem headerOutcome_of_emptyLate (hfuel : records.length + sends.length + 2 < fuel)
    (h : EmptyLate records) :
    headerOutcome accepts decoy sends turns fuel records =
      some (plaintextOutcome accepts decoy records.flatten) :=
  headerLoop_of_emptyLate records hfuel undecided_nil h

theorem headerOutcome_of_not_emptyLate (hfuel : records.length + sends.length + 2 < fuel)
    (h : ¬ EmptyLate records) :
    headerOutcome accepts decoy sends turns fuel records = some .ended := by
  unfold EmptyLate at h
  push Not at h
  obtain ⟨before, after, rfl, hundecided⟩ := h
  refine headerLoop_of_early_empty before after ?_ hundecided
  rw [List.length_append, List.length_cons] at hfuel
  omega

theorem emptyLate_of_forall_ne_nil (h : ∀ r ∈ records, r ≠ []) : EmptyLate records := by
  rintro before after rfl
  exact absurd rfl (h [] (List.mem_append_right _ List.mem_cons_self))

/-- **The header loop sees the plaintext only if its empty records come late.**  On a list
of records the handler reaches the outcome of their plaintext exactly if no record is empty
before the decoder has its answer, or the outcome is that the session ends anyway. -/
theorem headerOutcome_eq_plaintextOutcome_iff
    (hfuel : records.length + sends.length + 2 < fuel) :
    headerOutcome accepts decoy sends turns fuel records =
        some (plaintextOutcome accepts decoy records.flatten) ↔
      EmptyLate records ∨ plaintextOutcome accepts decoy records.flatten = .ended := by
  constructor
  · intro heq
    by_cases hlate : EmptyLate records
    · exact Or.inl hlate
    · rw [headerOutcome_of_not_emptyLate accepts decoy sends turns hfuel hlate] at heq
      exact Or.inr (Option.some.inj heq).symm
  · rintro (hlate | hended)
    · exact headerOutcome_of_emptyLate accepts decoy sends turns hfuel hlate
    · by_cases hlate : EmptyLate records
      · exact headerOutcome_of_emptyLate accepts decoy sends turns hfuel hlate
      · rw [headerOutcome_of_not_emptyLate accepts decoy sends turns hfuel hlate, hended]

end Splitting

/-- The header of a `Mux` request, cut inside its UUID. -/
def cutMuxHeader : List (List UInt8) := [[0, 7, 7], List.replicate 14 7 ++ [0, 3, 99]]

/-- Cut into two records without an empty one between them, it is one request. -/
theorem headerOutcome_cutMuxHeader :
    cutMuxHeader.length + 2 < 5 ∧ headerOutcome true none [] [] 5 cutMuxHeader =
      some (plaintextOutcome true none cutMuxHeader.flatten) :=
  ⟨by decide, (headerOutcome_eq_plaintextOutcome_iff true none [] [] (by decide)).mpr
    (Or.inl (emptyLate_of_forall_ne_nil (by decide)))⟩

/-- **A KeyUpdate inside the header ends the session.**  The same plaintext, with and
without a record that carries nothing: without it the request is decoded, with it the
handler takes the stream for ended. -/
theorem headerOutcome_keyUpdate :
    headerOutcome true none [] [] 6 [[0, 7, 7], [], List.replicate 14 7 ++ [0, 3, 99]] =
        some .ended ∧
      ∃ req, headerOutcome true none [] [] 6 [[0, 7, 7], List.replicate 14 7 ++ [0, 3, 99]] =
        some (.request req [99]) :=
  ⟨rfl, _, rfl⟩

end Server
end HoldTheDonut
