import Mathlib.Data.List.GetD
import HoldTheDonut.Machine.Run
import HoldTheDonut.Vision.Downlink

/-!
# `vision_server_splice`: the uplink across the splice

The server drives the outer TLS by hand, one record at a time, because the client
stops using it in the middle of the stream: behind the record that completes a
`Direct` block the socket carries raw bytes.  Client bytes can be in four places ---
still in the socket, in `inbuf`, inside rustls, or already upstream --- and they
change over from "record" to "raw" while some of them have been read ahead.

`Splice` is the state of one session with both directions in it.  Its events are
the completions the `select!` loop can see, plus `fill`, a socket read that leaves
the record incomplete and is therefore invisible to the loop.  A branch of the loop
that is dropped half-way loses nothing, so its only trace is the fills it made.
Reaching the top of the loop with both directions spliced hands the socket to a
plain copy; that happens at once (`settle`), with the read-ahead bytes sent first.

rustls is a function `feed` on the receiving half of the connection: one record in,
its plaintext out, or an error.  Socket errors are not modelled; they end the session.

The main result says that for *every* run the uplink is exactly the unpadded
plaintext followed by the raw bytes, that rustls sees records and nothing else, and
that a run does reach the end of the client's stream: some uplink event is always
possible, and there are only so many of them.
-/

namespace HoldTheDonut
namespace Vision

open Streaming Machine

/-- `READ_CHUNK`. -/
def readChunk : ℕ := 16 * 1024

/-- The length of the complete record `inbuf` starts with, if it does. -/
def recordLen (inbuf : List UInt8) : Option ℕ :=
  if 5 ≤ inbuf.length then
    let total := 5 + be16 (inbuf.getD 3 0) (inbuf.getD 4 0)
    if total ≤ inbuf.length then some total else none
  else none

/-- One session, with the logs the result is about: `upstream` is what was written to
the target, `fed` the byte strings handed to rustls, `forwarded` the part of `upstream`
that bypassed it, `sent` what went to the client. -/
structure Splice (τ : Type) where
  tls : τ
  inbuf : List UInt8
  /-- What the client has sent, or will send, and the socket has not delivered. -/
  unread : List UInt8
  unp : Unpadder
  filter : FilterState
  uplinkSpliced : Bool
  uplinkDone : Bool
  downlink : Downlink
  downlinkDone : Bool
  copying : Bool
  failed : Bool
  upstream : List UInt8
  fed : List (List UInt8)
  forwarded : List UInt8
  sent : List Sent

inductive SpliceEvent where
  /-- The record reader got `n` more bytes. -/
  | fill (n : ℕ)
  /-- `read_record_opt` came back with a record. -/
  | record
  /-- `read_raw`, or the copy, came back with bytes; `n` of them if off the socket. -/
  | raw (n : ℕ)
  | clientEof
  | chunk (bytes : List UInt8) (draw : ℕ)
  | targetEof

/-- Does the event read from the client? -/
def SpliceEvent.isUplink : SpliceEvent → Bool
  | fill _ | record | raw _ | clientEof => true
  | chunk _ _ | targetEof => false

namespace Splice

variable {τ : Type}

/-- Unpad some plaintext and pass its content on. -/
def takePlaintext (s : Splice τ) (pt : List UInt8) : Splice τ :=
  if pt = [] then s
  else
    let r := s.unp.push pt
    { s with
      unp := r.1
      filter := if r.2 = [] then s.filter else s.filter.observe r.2
      upstream := s.upstream ++ r.2
      uplinkSpliced := s.uplinkSpliced || r.1.direct }

/-- Pass bytes on that never belonged to the outer TLS. -/
def forward (s : Splice τ) (bytes : List UInt8) : Splice τ :=
  { s with upstream := s.upstream ++ bytes, forwarded := s.forwarded ++ bytes }

/-- The top of the loop: with both directions spliced the raw socket is handed to a
full-duplex copy, what was read ahead going first. -/
def settle (s : Splice τ) : Splice τ :=
  if s.uplinkSpliced ∧ s.downlink.spliced ∧ ¬ s.copying ∧ ¬ (s.uplinkDone ∧ s.downlinkDone) then
    { s.forward s.inbuf with inbuf := [], copying := true }
  else s

/-- A session at the entry of `vision_server_splice`: `leftover` is plaintext already
decrypted, `inbuf` ciphertext already read. -/
def start (tls : τ) (uuid : Uuid) (leftover inbuf unread : List UInt8) : Splice τ :=
  takePlaintext
    { tls := tls
      inbuf := inbuf
      unread := unread
      unp := Unpadder.new uuid
      filter := .initial
      uplinkSpliced := false
      uplinkDone := false
      downlink := Downlink.new uuid
      downlinkDone := false
      copying := false
      failed := false
      upstream := []
      fed := []
      forwarded := []
      sent := [] } leftover

/-- The uplink branch is enabled. -/
def Reading (s : Splice τ) : Prop := s.failed = false ∧ s.uplinkDone = false

instance (s : Splice τ) : Decidable s.Reading := inferInstanceAs (Decidable (_ ∧ _))

/-- One record out of `inbuf`, through rustls and the unpadder. -/
def takeRecord (feed : τ → List UInt8 → Option (τ × List UInt8)) (s : Splice τ) (total : ℕ) :
    Splice τ :=
  match feed s.tls (s.inbuf.take total) with
  | none => { s with failed := true }
  | some (tls, pt) =>
    (takePlaintext
      { s with
        tls := tls
        inbuf := s.inbuf.drop total
        fed := s.fed ++ [s.inbuf.take total] } pt).settle

def step (feed : τ → List UInt8 → Option (τ × List UInt8)) (s : Splice τ) :
    SpliceEvent → Option (Splice τ)
  | .fill n =>
    if s.Reading ∧ s.uplinkSpliced = false ∧ recordLen s.inbuf = none ∧
        0 < n ∧ n ≤ readChunk ∧ n ≤ s.unread.length then
      some { s with inbuf := s.inbuf ++ s.unread.take n, unread := s.unread.drop n }
    else none
  | .record =>
    if s.Reading ∧ s.uplinkSpliced = false then
      (recordLen s.inbuf).map fun total => s.takeRecord feed total
    else none
  | .raw n =>
    if s.Reading ∧ s.uplinkSpliced = true then
      if s.inbuf ≠ [] then
        some { s.forward (s.inbuf.take readChunk) with inbuf := s.inbuf.drop readChunk }
      else if 0 < n ∧ n ≤ readChunk ∧ n ≤ s.unread.length then
        some { s.forward (s.unread.take n) with unread := s.unread.drop n }
      else none
    else none
  | .clientEof =>
    if s.Reading ∧ s.unread = [] then
      if s.uplinkSpliced = true then
        if s.inbuf = [] then some { s with uplinkDone := true } else none
      else if (recordLen s.inbuf).isSome then none
      else if s.inbuf = [] then some { s with uplinkDone := true }
      else some { s with failed := true }
    else none
  | .chunk bytes draw =>
    if s.failed = false ∧ s.downlinkDone = false ∧ bytes ≠ [] ∧ bytes.length ≤ readChunk ∧
        draw < drawBound bytes.length (s.filter.observe bytes).isTls defaultSeed then
      let f := s.downlink.observed s.filter bytes
      let r := s.downlink.send f bytes draw
      some ({ s with filter := f, downlink := r.1, sent := s.sent ++ [r.2] } : Splice τ).settle
    else none
  | .targetEof =>
    if s.failed = false ∧ s.downlinkDone = false then some { s with downlinkDone := true }
    else none

/-- **What an event can do**, with what it needs. -/
inductive Moved (feed : τ → List UInt8 → Option (τ × List UInt8)) (s : Splice τ) :
    SpliceEvent → Splice τ → Prop
  | fill {n : ℕ} (reading : s.Reading) (hn : 0 < n ∧ n ≤ readChunk ∧ n ≤ s.unread.length) :
    Moved feed s (.fill n)
      { s with inbuf := s.inbuf ++ s.unread.take n, unread := s.unread.drop n }
  | record {total : ℕ} (reading : s.Reading) (hs : s.uplinkSpliced = false)
      (htotal : recordLen s.inbuf = some total) :
    Moved feed s .record (s.takeRecord feed total)
  /-- What was read ahead goes first. -/
  | buffered {n : ℕ} (reading : s.Reading) (hs : s.uplinkSpliced = true) (hin : s.inbuf ≠ []) :
    Moved feed s (.raw n)
      { s.forward (s.inbuf.take readChunk) with inbuf := s.inbuf.drop readChunk }
  | socket {n : ℕ} (reading : s.Reading) (hs : s.uplinkSpliced = true) (hin : s.inbuf = [])
      (hn : 0 < n ∧ n ≤ readChunk ∧ n ≤ s.unread.length) :
    Moved feed s (.raw n) { s.forward (s.unread.take n) with unread := s.unread.drop n }
  | ended (reading : s.Reading) (hunread : s.unread = []) (hin : s.inbuf = []) :
    Moved feed s .clientEof { s with uplinkDone := true }
  /-- The stream ends inside a record. -/
  | torn (reading : s.Reading) (hunread : s.unread = []) (hs : s.uplinkSpliced = false)
      (hrec : ¬ (recordLen s.inbuf).isSome = true) (hin : s.inbuf ≠ []) :
    Moved feed s .clientEof { s with failed := true }
  | chunk {bytes : List UInt8} {draw : ℕ} (hne : bytes ≠ []) (hle : bytes.length ≤ readChunk)
      (hdraw : draw < drawBound bytes.length (s.filter.observe bytes).isTls defaultSeed) :
    Moved feed s (.chunk bytes draw)
      ({ s with
        filter := s.downlink.observed s.filter bytes
        downlink := (s.downlink.send (s.downlink.observed s.filter bytes) bytes draw).1
        sent := s.sent ++
          [(s.downlink.send (s.downlink.observed s.filter bytes) bytes draw).2] } :
        Splice τ).settle
  | targetEof : Moved feed s .targetEof { s with downlinkDone := true }

/-- Every step is one of these. -/
theorem moved_of_step {feed : τ → List UInt8 → Option (τ × List UInt8)} {s t : Splice τ}
    {e : SpliceEvent} (hstep : s.step feed e = some t) : Moved feed s e t := by
  cases e with
  | fill n =>
    simp only [step] at hstep
    split at hstep
    · next hcond =>
      cases hstep
      exact .fill hcond.1 hcond.2.2.2
    · cases hstep
  | record =>
    simp only [step] at hstep
    split at hstep
    · next hcond =>
      obtain ⟨total, htotal, rfl⟩ := Option.map_eq_some_iff.mp hstep
      exact .record hcond.1 hcond.2 htotal
    · cases hstep
  | raw n =>
    simp only [step] at hstep
    split at hstep
    · next hcond =>
      split at hstep
      · next hin =>
        cases hstep
        exact .buffered hcond.1 hcond.2 hin
      · next hin =>
        split at hstep
        · next hn =>
          cases hstep
          exact .socket hcond.1 hcond.2 (not_not.mp hin) hn
        · cases hstep
    · cases hstep
  | clientEof =>
    simp only [step] at hstep
    split at hstep
    · next hcond =>
      split at hstep
      · split at hstep
        · next hin =>
          cases hstep
          exact .ended hcond.1 hcond.2 hin
        · cases hstep
      · next hs =>
        split at hstep
        · cases hstep
        · next hrec =>
          split at hstep
          · next hin =>
            cases hstep
            exact .ended hcond.1 hcond.2 hin
          · next hin =>
            cases hstep
            exact .torn hcond.1 hcond.2 (Bool.not_eq_true _ ▸ hs) hrec hin
    · cases hstep
  | chunk bytes draw =>
    simp only [step] at hstep
    split at hstep
    · next hcond =>
      obtain ⟨-, -, hne, hle, hdraw⟩ := hcond
      cases hstep
      exact .chunk hne hle hdraw
    · cases hstep
  | targetEof =>
    simp only [step] at hstep
    split at hstep
    · cases hstep
      exact .targetEof
    · cases hstep

end Splice

/-! ## The client's stream -/

/-- A complete outer-TLS record: its header states its length. -/
def IsRecord (r : List UInt8) : Prop :=
  5 ≤ r.length ∧ r.length = 5 + be16 (r.getD 3 0) (r.getD 4 0)

instance (r : List UInt8) : Decidable (IsRecord r) := inferInstanceAs (Decidable (_ ∧ _))

/-- Fed one record after the other, rustls yields these plaintexts. -/
def Decrypts {τ : Type} (feed : τ → List UInt8 → Option (τ × List UInt8)) :
    τ → List (List UInt8) → List (List UInt8) → Prop
  | _, [], [] => True
  | t, r :: rs, p :: ps => ∃ t', feed t r = some (t', p) ∧ Decrypts feed t' rs ps
  | _, _, _ => False

/-- The client's unpadder input so far, pushed at once. -/
def unpadded (uuid : Uuid) (plaintext : List UInt8) : Unpadder × List UInt8 :=
  (Unpadder.new uuid).push plaintext

/-- **The stream of a Vision client**: complete records, then raw bytes, and no record
behind the one that completes a Direct block.  The plaintext starts with `leftover`. -/
structure ClientStream {τ : Type} (feed : τ → List UInt8 → Option (τ × List UInt8)) (tls : τ)
    (uuid : Uuid) (leftover : List UInt8) (records plaintexts : List (List UInt8))
    (raw : List UInt8) : Prop where
  isRecord : ∀ r ∈ records, IsRecord r
  decrypts : Decrypts feed tls records plaintexts
  direct_last : ∀ k < plaintexts.length,
    (unpadded uuid (leftover ++ (plaintexts.take k).flatten)).1.direct = false
  raw_direct : raw ≠ [] → (unpadded uuid (leftover ++ plaintexts.flatten)).1.direct = true

/-- The record reader cuts at the end of the first record, however much is buffered
behind it. -/
theorem recordLen_eq_some {r inbuf unread rest : List UInt8} (hr : IsRecord r) {total : ℕ}
    (h : recordLen inbuf = some total) (heq : inbuf ++ unread = r ++ rest) :
    inbuf.take total = r ∧ inbuf.drop total ++ unread = rest := by
  unfold recordLen at h
  split at h
  · next hlen =>
    have h3 : inbuf.getD 3 0 = r.getD 3 0 := by
      rw [← List.getD_append _ unread _ _ (by omega), heq,
        List.getD_append _ _ _ _ (by have := hr.1; omega)]
    have h4 : inbuf.getD 4 0 = r.getD 4 0 := by
      rw [← List.getD_append _ unread _ _ (by omega), heq,
        List.getD_append _ _ _ _ (by have := hr.1; omega)]
    rw [h3, h4, ← hr.2] at h
    simp only at h
    split at h
    · next hle =>
      cases h
      have htake : (inbuf ++ unread).take r.length = inbuf.take r.length :=
        List.take_append_of_le_length hle
      have hdrop : (inbuf ++ unread).drop r.length = inbuf.drop r.length ++ unread :=
        List.drop_append_of_le_length hle
      rw [← htake, ← hdrop, heq]
      exact ⟨List.take_left, List.drop_left⟩
    · cases h
  · cases h

/-- With a whole record buffered the record reader does not wait. -/
theorem recordLen_isSome {r inbuf rest : List UInt8} (hr : IsRecord r)
    (h : inbuf = r ++ rest) : (recordLen inbuf).isSome = true := by
  have hlen := hr.1
  unfold recordLen
  rw [h, if_pos (by rw [List.length_append]; omega), List.getD_append _ _ _ _ (by omega),
    List.getD_append _ _ _ _ (by omega), ← hr.2, if_pos (by rw [List.length_append]; omega)]
  rfl

namespace Splice

section Uplink

variable {τ : Type} {feed : τ → List UInt8 → Option (τ × List UInt8)} {tls : τ} {uuid : Uuid}
  {leftover : List UInt8} {records plaintexts : List (List UInt8)} {raw : List UInt8}

/-- **Where the client's bytes are.**  `recDone` went through rustls and gave `ptDone`;
`recTodo` and `rawTodo` are what `inbuf` and the socket still hold, in this order. -/
structure Uplink (feed : τ → List UInt8 → Option (τ × List UInt8)) (uuid : Uuid)
    (leftover : List UInt8) (records plaintexts : List (List UInt8)) (raw : List UInt8)
    (s : Splice τ) (recDone recTodo ptDone ptTodo : List (List UInt8)) (rawTodo : List UInt8) :
    Prop where
  records_eq : records = recDone ++ recTodo
  plaintexts_eq : plaintexts = ptDone ++ ptTodo
  raw_eq : raw = s.forwarded ++ rawTodo
  fed_eq : s.fed = recDone
  decrypts : Decrypts feed s.tls recTodo ptTodo
  pending : s.inbuf ++ s.unread = recTodo.flatten ++ rawTodo
  unp_eq : s.unp = (unpadded uuid (leftover ++ ptDone.flatten)).1
  upstream_eq : s.upstream = (unpadded uuid (leftover ++ ptDone.flatten)).2 ++ s.forwarded
  spliced_eq : s.uplinkSpliced = s.unp.direct
  forwarded_eq : s.uplinkSpliced = false → s.forwarded = []
  not_failed : s.failed = false
  done_empty : s.uplinkDone = true → s.inbuf = [] ∧ s.unread = []

variable {s : Splice τ} {recDone recTodo ptDone ptTodo : List (List UInt8)}
  {rawTodo : List UInt8}

theorem decrypts_nil_iff {t : τ} {rs ps : List (List UInt8)} (h : Decrypts feed t rs ps) :
    rs = [] ↔ ps = [] := by
  cases rs <;> cases ps <;> simp_all [Decrypts]

/-- Once spliced, no record is left. -/
theorem Uplink.recTodo_eq_nil (hc : ClientStream feed tls uuid leftover records plaintexts raw)
    (h : Uplink feed uuid leftover records plaintexts raw s recDone recTodo ptDone ptTodo rawTodo)
    (hs : s.uplinkSpliced = true) : recTodo = [] := by
  rw [decrypts_nil_iff h.decrypts]
  by_contra hne
  have hlt : ptDone.length < plaintexts.length := by
    rw [h.plaintexts_eq, List.length_append]
    have := List.length_pos_of_ne_nil hne
    omega
  have hdirect := hc.direct_last ptDone.length hlt
  rw [h.plaintexts_eq, List.take_left, ← h.unp_eq, ← h.spliced_eq, hs] at hdirect
  cases hdirect

/-- Without a splice there are no raw bytes: not before the last record, and not after
it either. -/
theorem Uplink.rawTodo_eq_nil (hc : ClientStream feed tls uuid leftover records plaintexts raw)
    (h : Uplink feed uuid leftover records plaintexts raw s recDone recTodo ptDone ptTodo rawTodo)
    (hs : s.uplinkSpliced = false) (hrec : recTodo = []) : rawTodo = [] := by
  have hpt : ptTodo = [] := (decrypts_nil_iff h.decrypts).mp hrec
  by_contra hne
  have hraw : raw ≠ [] := by
    rw [h.raw_eq, h.forwarded_eq hs, List.nil_append]
    exact hne
  have hdirect := hc.raw_direct hraw
  rw [h.plaintexts_eq, hpt, List.append_nil, ← h.unp_eq, ← h.spliced_eq, hs] at hdirect
  cases hdirect

/-! ## What each action does to them -/

theorem unpadded_append (a b : List UInt8) :
    unpadded uuid (a ++ b) = andThen (unpadded uuid a) fun u => u.push b :=
  Unpadder.chunkFree_push.append _ a b (Unpadder.valid_new uuid)

theorem unpadded_valid (a : List UInt8) : (unpadded uuid a).1.Valid :=
  Unpadder.chunkFree_push.inv _ a (Unpadder.valid_new uuid)

/-- An empty plaintext is no exception: the unpadder does nothing with it. -/
theorem takePlaintext_eq (hv : s.unp.Valid) (hs : s.uplinkSpliced = s.unp.direct)
    (pt : List UInt8) :
    ∃ f, s.takePlaintext pt =
      { s with
        unp := (s.unp.push pt).1
        filter := f
        upstream := s.upstream ++ (s.unp.push pt).2
        uplinkSpliced := s.uplinkSpliced || (s.unp.push pt).1.direct } := by
  unfold takePlaintext
  by_cases hpt : pt = []
  · refine ⟨s.filter, ?_⟩
    rw [if_pos hpt, hpt, Unpadder.chunkFree_push.nil _ hv]
    simp only [List.append_nil, ← hs, Bool.or_self]
  · rw [if_neg hpt]
    exact ⟨_, rfl⟩

section ClientStream

variable (hc : ClientStream feed tls uuid leftover records plaintexts raw)

include hc

/-- Raw bytes move upstream in order. -/
theorem Uplink.forward
    (h : Uplink feed uuid leftover records plaintexts raw s recDone recTodo ptDone ptTodo rawTodo)
    (hs : s.uplinkSpliced = true) (bytes inbuf unread : List UInt8)
    (hsplit : s.inbuf ++ s.unread = bytes ++ (inbuf ++ unread))
    (hdone : s.uplinkDone = true → inbuf = [] ∧ unread = []) (c : Bool) :
    Uplink feed uuid leftover records plaintexts raw
      { s.forward bytes with inbuf := inbuf, unread := unread, copying := c }
      recDone recTodo ptDone ptTodo (inbuf ++ unread) := by
  have hnil := h.recTodo_eq_nil hc hs
  have hraw : rawTodo = bytes ++ (inbuf ++ unread) := by
    rw [← hsplit, h.pending, hnil]
    rfl
  refine ⟨h.records_eq, h.plaintexts_eq, ?_, h.fed_eq, h.decrypts, ?_, h.unp_eq, ?_,
    h.spliced_eq, ?_, h.not_failed, hdone⟩
  · rw [h.raw_eq, hraw, ← List.append_assoc]
    rfl
  · rw [hnil]
    rfl
  · change s.upstream ++ bytes = _ ++ (s.forwarded ++ bytes)
    rw [h.upstream_eq, List.append_assoc]
  · intro hfalse
    exact absurd (hs.symm.trans hfalse) (by decide)

/-- The hand-off moves the read-ahead bytes, and those are raw. -/
theorem Uplink.settle
    (h : Uplink feed uuid leftover records plaintexts raw s recDone recTodo ptDone ptTodo rawTodo) :
    ∃ rawTodo', Uplink feed uuid leftover records plaintexts raw s.settle
      recDone recTodo ptDone ptTodo rawTodo' := by
  unfold Splice.settle
  split
  · next hcond =>
    exact ⟨_, h.forward hc hcond.1 s.inbuf [] s.unread rfl
      (fun hd => ⟨rfl, (h.done_empty hd).2⟩) true⟩
  · exact ⟨rawTodo, h⟩

theorem Uplink.isRecord_head {r : List UInt8}
    (h : Uplink feed uuid leftover records plaintexts raw s recDone (r :: recTodo) ptDone ptTodo
      rawTodo) : IsRecord r := by
  refine hc.isRecord r ?_
  rw [h.records_eq]
  exact List.mem_append_right _ List.mem_cons_self

end ClientStream

/-- The plaintext of the next record is unpadded. -/
theorem Uplink.takePlaintext {r p : List UInt8}
    (h : Uplink feed uuid leftover records plaintexts raw s recDone (r :: recTodo) ptDone
      (p :: ptTodo) rawTodo)
    (hdone : s.uplinkDone = false) (hs : s.uplinkSpliced = false) {t : τ} {inbuf : List UInt8}
    (hdec : Decrypts feed t recTodo ptTodo)
    (hpending : inbuf ++ s.unread = recTodo.flatten ++ rawTodo) :
    Uplink feed uuid leftover records plaintexts raw
      (Splice.takePlaintext { s with tls := t, inbuf := inbuf, fed := s.fed ++ [r] } p)
      (recDone ++ [r]) recTodo (ptDone ++ [p]) ptTodo rawTodo := by
  have hvalid : s.unp.Valid := by
    rw [h.unp_eq]
    exact unpadded_valid _
  obtain ⟨f, hf⟩ := takePlaintext_eq
    (s := { s with tls := t, inbuf := inbuf, fed := s.fed ++ [r] }) hvalid h.spliced_eq p
  rw [hf]
  -- what the unpadder has seen grows by this plaintext
  have hpush : unpadded uuid (leftover ++ (ptDone ++ [p]).flatten) =
      ((s.unp.push p).1,
        (unpadded uuid (leftover ++ ptDone.flatten)).2 ++ (s.unp.push p).2) := by
    rw [List.flatten_append, List.flatten_singleton, ← List.append_assoc, unpadded_append,
      h.unp_eq]
    rfl
  refine ⟨?_, ?_, h.raw_eq, congrArg (· ++ [r]) h.fed_eq, hdec, hpending, ?_, ?_, ?_,
    fun _ => h.forwarded_eq hs, h.not_failed, ?_⟩
  · rw [h.records_eq, List.append_assoc]
    rfl
  · rw [h.plaintexts_eq, List.append_assoc]
    rfl
  · rw [hpush]
  · rw [hpush, h.upstream_eq, h.forwarded_eq hs, List.append_nil, List.append_nil]
  · rw [hs, Bool.false_or]
  · intro hd
    exact absurd (hdone.symm.trans hd) (by decide)

/-- One record goes through rustls and the unpadder. -/
theorem Uplink.takeRecord (hc : ClientStream feed tls uuid leftover records plaintexts raw)
    (h : Uplink feed uuid leftover records plaintexts raw s recDone recTodo ptDone ptTodo rawTodo)
    (hdone : s.uplinkDone = false) (hs : s.uplinkSpliced = false) {total : ℕ}
    (htotal : recordLen s.inbuf = some total) :
    ∃ recDone' recTodo' ptDone' ptTodo' rawTodo',
      Uplink feed uuid leftover records plaintexts raw (s.takeRecord feed total)
        recDone' recTodo' ptDone' ptTodo' rawTodo' := by
  have hpending := h.pending
  -- a buffered record is the next record: without one left, nothing is left
  cases recTodo with
  | nil =>
    rw [h.rawTodo_eq_nil hc hs rfl] at hpending
    rw [(List.append_eq_nil_iff.mp hpending).1] at htotal
    cases htotal
  | cons r recTodo =>
    cases ptTodo with
    | nil => exact h.decrypts.elim
    | cons p ptTodo =>
      obtain ⟨t, hfeed, hdec⟩ := h.decrypts
      rw [List.flatten_cons, List.append_assoc] at hpending
      obtain ⟨htake, hdrop⟩ := recordLen_eq_some (h.isRecord_head hc) htotal hpending
      unfold Splice.takeRecord
      rw [htake, hfeed]
      obtain ⟨rawTodo', h'⟩ := (h.takePlaintext hdone hs hdec hdrop).settle hc
      exact ⟨_, _, _, _, rawTodo', h'⟩

/-! ## Every run -/

/-- The invariant of a session. -/
def UplinkInv (feed : τ → List UInt8 → Option (τ × List UInt8)) (uuid : Uuid)
    (leftover : List UInt8) (records plaintexts : List (List UInt8)) (raw : List UInt8)
    (s : Splice τ) : Prop :=
  ∃ recDone recTodo ptDone ptTodo rawTodo,
    Uplink feed uuid leftover records plaintexts raw s recDone recTodo ptDone ptTodo rawTodo

variable (hc : ClientStream feed tls uuid leftover records plaintexts raw)

include hc

theorem uplinkInv_start {inbuf unread : List UInt8}
    (hstream : inbuf ++ unread = records.flatten ++ raw) :
    UplinkInv feed uuid leftover records plaintexts raw
      (start tls uuid leftover inbuf unread) := by
  refine ⟨[], records, [], plaintexts, raw, ?_⟩
  obtain ⟨f, hf⟩ := takePlaintext_eq (Unpadder.valid_new uuid)
    (s := { tls := tls, inbuf := inbuf, unread := unread, unp := Unpadder.new uuid,
            filter := .initial, uplinkSpliced := false, uplinkDone := false,
            downlink := Downlink.new uuid, downlinkDone := false, copying := false,
            failed := false, upstream := [], fed := [], forwarded := [], sent := [] }) rfl leftover
  unfold start
  rw [hf]
  have hleft : leftover ++ ([] : List (List UInt8)).flatten = leftover := List.append_nil _
  refine ⟨rfl, rfl, rfl, rfl, hc.decrypts, hstream, ?_, ?_, rfl, fun _ => rfl, rfl, ?_⟩
  · rw [hleft]
    rfl
  · rw [hleft]
    exact (List.append_nil _).symm
  · intro h
    cases h

/-- The end of the stream is a record boundary: a record left over would be complete. -/
theorem Uplink.inbuf_eq_nil
    (h : Uplink feed uuid leftover records plaintexts raw s recDone recTodo ptDone ptTodo rawTodo)
    (hs : s.uplinkSpliced = false) (hunread : s.unread = [])
    (hshort : ¬ (recordLen s.inbuf).isSome = true) : s.inbuf = [] := by
  have hpending := h.pending
  rw [hunread, List.append_nil] at hpending
  cases recTodo with
  | nil =>
    rw [hpending, h.rawTodo_eq_nil hc hs rfl]
    rfl
  | cons r rs =>
    rw [List.flatten_cons, List.append_assoc] at hpending
    exact absurd (recordLen_isSome (h.isRecord_head hc) hpending) hshort

/-- **Every event keeps track of every byte.** -/
theorem uplinkInv_step (s : Splice τ) (e : SpliceEvent) (t : Splice τ)
    (hinv : UplinkInv feed uuid leftover records plaintexts raw s)
    (hstep : s.step feed e = some t) :
    UplinkInv feed uuid leftover records plaintexts raw t := by
  obtain ⟨recDone, recTodo, ptDone, ptTodo, rawTodo, h⟩ := hinv
  have hopen : ∀ {P : Prop}, s.Reading → s.uplinkDone = true → P := fun hr hd =>
    absurd (hr.2.symm.trans hd) (by decide)
  cases moved_of_step hstep with
  | @fill n reading _ =>
    refine ⟨recDone, recTodo, ptDone, ptTodo, rawTodo, h.records_eq, h.plaintexts_eq, h.raw_eq,
      h.fed_eq, h.decrypts, ?_, h.unp_eq, h.upstream_eq, h.spliced_eq, h.forwarded_eq,
      h.not_failed, fun hd => hopen reading hd⟩
    rw [List.append_assoc, List.take_append_drop, h.pending]
  | record reading hs htotal => exact h.takeRecord hc reading.2 hs htotal
  | buffered reading hs =>
    exact ⟨_, _, _, _, _, h.forward hc hs (s.inbuf.take readChunk) (s.inbuf.drop readChunk)
      s.unread (by rw [← List.append_assoc, List.take_append_drop])
      (fun hd => hopen reading hd) s.copying⟩
  | @socket n reading hs hin _ =>
    exact ⟨_, _, _, _, _, h.forward hc hs (s.unread.take n) s.inbuf (s.unread.drop n)
      (by rw [hin, List.nil_append, List.nil_append, List.take_append_drop])
      (fun hd => hopen reading hd) s.copying⟩
  | ended _ hunread hin =>
    exact ⟨recDone, recTodo, ptDone, ptTodo, rawTodo, h.records_eq, h.plaintexts_eq, h.raw_eq,
      h.fed_eq, h.decrypts, h.pending, h.unp_eq, h.upstream_eq, h.spliced_eq, h.forwarded_eq,
      h.not_failed, fun _ => ⟨hin, hunread⟩⟩
  | torn _ hunread hs hrec hin => exact absurd (h.inbuf_eq_nil hc hs hunread hrec) hin
  | @chunk bytes draw _ _ _ =>
    have h' : Uplink feed uuid leftover records plaintexts raw
        { s with
          filter := s.downlink.observed s.filter bytes
          downlink := (s.downlink.send (s.downlink.observed s.filter bytes) bytes draw).1
          sent := s.sent ++
            [(s.downlink.send (s.downlink.observed s.filter bytes) bytes draw).2] }
        recDone recTodo ptDone ptTodo rawTodo :=
      ⟨h.records_eq, h.plaintexts_eq, h.raw_eq, h.fed_eq, h.decrypts, h.pending, h.unp_eq,
        h.upstream_eq, h.spliced_eq, h.forwarded_eq, h.not_failed, h.done_empty⟩
    obtain ⟨rawTodo', h''⟩ := h'.settle hc
    exact ⟨_, _, _, _, rawTodo', h''⟩
  | targetEof =>
    exact ⟨recDone, recTodo, ptDone, ptTodo, rawTodo, h.records_eq, h.plaintexts_eq, h.raw_eq,
      h.fed_eq, h.decrypts, h.pending, h.unp_eq, h.upstream_eq, h.spliced_eq, h.forwarded_eq,
      h.not_failed, h.done_empty⟩

end Uplink

/-! ## The end is reached -/

section Progress

variable {τ : Type} {feed : τ → List UInt8 → Option (τ × List UInt8)}

/-- What the uplink still has to do: a byte in the socket has to be read and passed on, a
byte in `inbuf` to be passed on, and the end of the stream to be seen. -/
def remaining (s : Splice τ) : ℕ :=
  2 * s.unread.length + s.inbuf.length + if s.Reading then 1 else 0

theorem remaining_takePlaintext (s : Splice τ) (pt : List UInt8) :
    (s.takePlaintext pt).remaining = s.remaining := by
  unfold takePlaintext
  split <;> rfl

theorem remaining_settle_le (s : Splice τ) : s.settle.remaining ≤ s.remaining := by
  unfold settle
  split
  · change 2 * s.unread.length + 0 + (if s.Reading then 1 else 0) ≤ s.remaining
    unfold remaining
    omega
  · exact le_rfl

/-- Seeing the end of the stream, as an end or as an error, is the last thing to do. -/
theorem remaining_lt_of_not_reading {s t : Splice τ} (hs : s.Reading) (ht : ¬ t.Reading)
    (hunread : t.unread = s.unread) (hinbuf : t.inbuf = s.inbuf) : t.remaining < s.remaining := by
  unfold remaining
  rw [if_pos hs, if_neg ht, hunread, hinbuf]
  omega

theorem recordLen_pos_le {inbuf : List UInt8} {total : ℕ} (h : recordLen inbuf = some total) :
    0 < total ∧ total ≤ inbuf.length := by
  unfold recordLen at h
  split at h
  · simp only at h
    split at h
    · next hle =>
      cases h
      exact ⟨by omega, hle⟩
    · cases h
  · cases h

variable {s : Splice τ}

theorem remaining_takeRecord_lt (hreading : s.Reading) {total : ℕ}
    (h : recordLen s.inbuf = some total) : (s.takeRecord feed total).remaining < s.remaining := by
  obtain ⟨hpos, hle⟩ := recordLen_pos_le h
  unfold takeRecord
  split
  · exact remaining_lt_of_not_reading hreading (fun hr => by cases hr.1) rfl rfl
  · refine lt_of_le_of_lt (remaining_settle_le _) ?_
    rw [remaining_takePlaintext]
    change 2 * s.unread.length + (s.inbuf.drop total).length + (if s.Reading then 1 else 0) < _
    unfold remaining
    rw [List.length_drop]
    omega

/-- An uplink event leaves less to do, a downlink event no more. -/
theorem remaining_step {t : Splice τ} {e : SpliceEvent} (hstep : s.step feed e = some t) :
    t.remaining ≤ s.remaining ∧ (e.isUplink = true → t.remaining < s.remaining) := by
  suffices h : if e.isUplink then t.remaining < s.remaining else t.remaining ≤ s.remaining by
    split at h
    · exact ⟨h.le, fun _ => h⟩
    · next hne => exact ⟨h, fun he => absurd he hne⟩
  cases moved_of_step hstep with
  | @fill n _ hn =>
    change 2 * (s.unread.drop n).length + (s.inbuf ++ s.unread.take n).length +
      (if s.Reading then 1 else 0) < s.remaining
    unfold remaining
    rw [List.length_drop, List.length_append, List.length_take]
    omega
  | record reading _ htotal => exact remaining_takeRecord_lt reading htotal
  | buffered _ _ hin =>
    have hpos := List.length_pos_of_ne_nil hin
    change 2 * s.unread.length + (s.inbuf.drop readChunk).length +
      (if s.Reading then 1 else 0) < s.remaining
    unfold remaining readChunk
    rw [List.length_drop]
    omega
  | @socket n _ _ _ hn =>
    change 2 * (s.unread.drop n).length + s.inbuf.length +
      (if s.Reading then 1 else 0) < s.remaining
    unfold remaining
    rw [List.length_drop]
    omega
  | ended reading =>
    exact remaining_lt_of_not_reading reading (fun hr => by cases hr.2) rfl rfl
  | torn reading =>
    exact remaining_lt_of_not_reading reading (fun hr => by cases hr.1) rfl rfl
  | chunk => exact remaining_settle_le _
  | targetEof => exact le_rfl

/-- Whatever the state, an open uplink can go on. -/
theorem exists_uplink_event (h : s.Reading) :
    ∃ e : SpliceEvent, e.isUplink = true ∧ (s.step feed e).isSome = true := by
  have hone : s.unread ≠ [] → 0 < 1 ∧ 1 ≤ readChunk ∧ 1 ≤ s.unread.length := fun hne =>
    ⟨Nat.one_pos, by decide, List.length_pos_of_ne_nil hne⟩
  by_cases hs : s.uplinkSpliced = true
  · by_cases hin : s.inbuf = []
    · by_cases hun : s.unread = []
      · exact ⟨.clientEof, rfl, by simp [step, h, hs, hin, hun]⟩
      · exact ⟨.raw 1, rfl, by simp [step, h, hs, hin, hone hun]⟩
    · exact ⟨.raw 1, rfl, by simp [step, h, hs, hin]⟩
  · have hs' := Bool.not_eq_true _ ▸ hs
    cases hrec : recordLen s.inbuf with
    | some total => exact ⟨.record, rfl, by simp [step, h, hs', hrec]⟩
    | none =>
      by_cases hun : s.unread = []
      · refine ⟨.clientEof, rfl, ?_⟩
        simp only [step]
        rw [if_pos ⟨h, hun⟩, if_neg hs, hrec, if_neg (by simp)]
        split <;> rfl
      · exact ⟨.fill 1, rfl, by simp [step, h, hs', hrec, hone hun]⟩

end Progress

/-! ## The results -/

section Results

variable {τ : Type} {feed : τ → List UInt8 → Option (τ × List UInt8)} {tls : τ} {uuid : Uuid}
  {leftover : List UInt8} {records plaintexts : List (List UInt8)} {raw : List UInt8} {s : Splice τ}
  (hc : ClientStream feed tls uuid leftover records plaintexts raw)
  (hinv : UplinkInv feed uuid leftover records plaintexts raw s)

include hc hinv

/-- Up to any moment, what is upstream is an initial part of what has to get there. -/
theorem UplinkInv.prefixes :
    s.fed <+: records ∧ s.forwarded <+: raw ∧
      s.upstream <+: (unpadded uuid (leftover ++ plaintexts.flatten)).2 ++ raw := by
  obtain ⟨recDone, recTodo, ptDone, ptTodo, rawTodo, h⟩ := hinv
  refine ⟨⟨recTodo, ?_⟩, ⟨rawTodo, h.raw_eq.symm⟩, ?_⟩
  · rw [h.fed_eq, h.records_eq]
  · cases hs : s.uplinkSpliced with
    | false =>
      refine List.IsPrefix.trans ?_ (List.prefix_append _ raw)
      rw [h.upstream_eq, h.forwarded_eq hs, List.append_nil, h.plaintexts_eq, List.flatten_append,
        ← List.append_assoc, unpadded_append (leftover ++ ptDone.flatten)]
      exact List.prefix_append _ _
    | true =>
      have hpt : ptTodo = [] := (decrypts_nil_iff h.decrypts).mp (h.recTodo_eq_nil hc hs)
      refine ⟨rawTodo, ?_⟩
      rw [h.upstream_eq, h.plaintexts_eq, hpt, List.append_nil, List.append_assoc, ← h.raw_eq]

/-- At the end of the client's stream everything is upstream. -/
theorem UplinkInv.complete (hdone : s.uplinkDone = true) :
    s.fed = records ∧ s.forwarded = raw ∧
      s.upstream = (unpadded uuid (leftover ++ plaintexts.flatten)).2 ++ raw := by
  obtain ⟨recDone, recTodo, ptDone, ptTodo, rawTodo, h⟩ := hinv
  have hpending := h.pending
  rw [(h.done_empty hdone).1, (h.done_empty hdone).2, List.append_nil, eq_comm,
    List.append_eq_nil_iff] at hpending
  have hrec : recTodo = [] := by
    cases recTodo with
    | nil => rfl
    | cons r rs =>
      have hrecord := h.isRecord_head hc
      rw [List.flatten_eq_nil_iff.mp hpending.1 r List.mem_cons_self] at hrecord
      exact absurd hrecord.1 (by decide)
  have hpt : ptTodo = [] := (decrypts_nil_iff h.decrypts).mp hrec
  have hraw : s.forwarded = raw := by rw [h.raw_eq, hpending.2, List.append_nil]
  refine ⟨?_, hraw, ?_⟩
  · rw [h.fed_eq, h.records_eq, hrec, List.append_nil]
  · rw [h.upstream_eq, hraw, h.plaintexts_eq, hpt, List.append_nil]

end Results

end Splice

/-- **The uplink loses, duplicates and double-decrypts nothing**, in every run: the reads
of the socket, the downlink and the moment of its splice are the run's own choice. -/
theorem uplink_lossless {τ : Type} (feed : τ → List UInt8 → Option (τ × List UInt8)) (tls : τ)
    (uuid : Uuid) (leftover : List UInt8) (records plaintexts : List (List UInt8))
    (raw : List UInt8) (hc : ClientStream feed tls uuid leftover records plaintexts raw)
    (inbuf unread : List UInt8) (hstream : inbuf ++ unread = records.flatten ++ raw)
    (events : List SpliceEvent) (s : Splice τ)
    (hrun : run (Splice.step feed) (Splice.start tls uuid leftover inbuf unread) events = some s) :
    (s.fed <+: records ∧ s.forwarded <+: raw ∧
      s.upstream <+: (unpadded uuid (leftover ++ plaintexts.flatten)).2 ++ raw) ∧
    (s.uplinkDone = true → s.fed = records ∧ s.forwarded = raw ∧
      s.upstream = (unpadded uuid (leftover ++ plaintexts.flatten)).2 ++ raw) ∧
    (s.uplinkDone = false →
      ∃ e : SpliceEvent, e.isUplink = true ∧ (s.step feed e).isSome = true) ∧
    events.countP SpliceEvent.isUplink ≤ 2 * (records.flatten ++ raw).length + 1 := by
  have hinv := run_inv (Splice.uplinkInv_step hc) events (Splice.uplinkInv_start hc hstream) hrun
  refine ⟨hinv.prefixes hc, hinv.complete hc, ?_, ?_⟩
  · intro hdone
    obtain ⟨_, _, _, _, _, h⟩ := hinv
    exact Splice.exists_uplink_event ⟨h.not_failed, hdone⟩
  · have hspend : ∀ s e t, Splice.step feed s e = some t → e.isUplink = true →
        t.remaining < s.remaining := fun s e t h => (Splice.remaining_step h).2
    have hkeep : ∀ s e t, Splice.step feed s e = some t → t.remaining ≤ s.remaining :=
      fun s e t h => (Splice.remaining_step h).1
    have hcount := run_countP_le hspend hkeep events hrun
    have hstart : (Splice.start tls uuid leftover inbuf unread).remaining ≤
        2 * (records.flatten ++ raw).length + 1 := by
      unfold Splice.start
      rw [Splice.remaining_takePlaintext, ← hstream, List.length_append]
      unfold Splice.remaining
      split <;> simp only <;> omega
    omega

/-- A Direct block that begins in the leftover and ends in one record, with a raw byte read
ahead in the same socket read.  The records here are in the clear. -/
theorem uplink_lossless_direct :
    ∃ s, run (Splice.step fun (_ : Unit) r => some ((), r.drop 5))
        (Splice.start () ⟨List.replicate 16 7, rfl⟩ (List.replicate 16 7 ++ [2]) [23, 3]
          [3, 0, 5, 0, 1, 0, 0, 65, 8]) [.fill 9, .record, .raw 1, .clientEof] = some s ∧
      s.uplinkDone = true ∧ s.upstream = [65, 8] := by
  refine ⟨_, rfl, rfl, ?_⟩
  refine ((uplink_lossless (fun (_ : Unit) r => some ((), r.drop 5)) ()
    ⟨List.replicate 16 7, rfl⟩ (List.replicate 16 7 ++ [2]) [[23, 3, 3, 0, 5, 0, 1, 0, 0, 65]]
    [[0, 1, 0, 0, 65]] [8] ⟨by decide, ⟨(), rfl, trivial⟩, ?_, by decide⟩ [23, 3]
    [3, 0, 5, 0, 1, 0, 0, 65, 8] (by decide) [.fill 9, .record, .raw 1, .clientEof] _ rfl).2.1
    rfl).2.2
  intro k hk
  rw [Nat.lt_one_iff.mp hk]
  decide

end Vision
end HoldTheDonut
