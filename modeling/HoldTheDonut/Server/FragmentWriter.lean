import HoldTheDonut.Machine.Run
import HoldTheDonut.Server.FirstRecord

/-!
# `FragmentWriter`: bytes in, bytes out

The adapter in front of a fragmented target collects the first record it is written, writes
a ClientHello out again as several records, and is a plain pipe afterwards.  Each of its
three calls may be stopped by the inner writer at any byte and is then made again.

What a writer has passed on and what it holds in `out` together are what it *owes*
(`owed`).  Draining moves the border between the two and changes nothing else, so every call
is described by what it appends to `owed`: bytes that were accepted, or the first record in
its new form.

The exception is the collecting phase, in which accepted bytes are in `acc` and not owed at
all.  A flush makes them owed: "an incomplete first record must not be held back on flush".
`poll_shutdown` has no such line.  It drains `out` and shuts the inner writer down over
whatever is in `acc`, and the relays that drive the adapter write and shut down without a
flush in between.  So the bytes accepted are the bytes received, up to the new form of the
first record, exactly if they do not end inside a first handshake record that no flush has
met (`fragmentWriter_conserves_iff`).

A write that cuts a ClientHello panics if its sizes are to be picked from the range of every
`u32`.  It is then no call that returns, and no further call is made.
-/

namespace HoldTheDonut
namespace Server

open Machine

/-! ## The writer -/

/-- An answer of the inner writer to a `poll_write` with something to write: `none` is
`Pending`; otherwise it takes the number of bytes, but at least one and at most all. -/
abbrev InnerAnswer : Type := Option ℕ

/-- How many bytes the inner writer takes. -/
def taken (k : ℕ) (buf : List UInt8) : ℕ := min (max k 1) buf.length

structure FragmentWriter where
  /-- What the inner writer has received. -/
  inner : List UInt8
  params : FragmentParams
  /-- The first record, until it is complete or classified. -/
  acc : List UInt8
  /-- Bytes still to be drained, from `outPos` on. -/
  out : List UInt8
  outPos : ℕ
  /-- The first record has been handled. -/
  done : Bool

namespace FragmentWriter

def new (params : FragmentParams) : FragmentWriter := ⟨[], params, [], [], 0, false⟩

/-- Drain `out`.  `none` is `Pending`; otherwise the answers that were not needed. -/
def drain : List InnerAnswer → FragmentWriter → FragmentWriter × Option (List InnerAnswer)
  | [], w =>
    if w.outPos < w.out.length then (w, none)
    else ({ w with out := [], outPos := 0 }, some [])
  | a :: answers, w =>
    if w.outPos < w.out.length then
      match a with
      | none => (w, none)
      | some k =>
        let n := taken k (w.out.drop w.outPos)
        drain answers { w with
          inner := w.inner ++ (w.out.drop w.outPos).take n
          outPos := w.outPos + n }
    else ({ w with out := [], outPos := 0 }, some (a :: answers))

/-- Drain unless there is nothing to drain. -/
def drainPending (answers : List InnerAnswer) (w : FragmentWriter) :
    FragmentWriter × Option (List InnerAnswer) :=
  if w.out = [] then (w, some answers) else w.drain answers

end FragmentWriter

/-- What `poll_write` makes of the collected bytes: nothing while the record is incomplete.
The outer `none` is a panic. -/
def finalize (p : FragmentParams) (picks : List UInt32) (acc : List UInt8) :
    Option (Option (List UInt8)) :=
  if acc.head? ≠ some 0x16 then some (some acc)
  else if 5 ≤ acc.length then
    if recordTotal acc ≤ acc.length then do
      let hello ← fragmentClienthelloToVec (acc.take (recordTotal acc)) p picks
      pure (some (hello ++ acc.drop (recordTotal acc)))
    else some none
  else some none

namespace FragmentWriter

/-- What becomes of a writer that has accepted `buf`, once its collected bytes are classified.
The outcome of the drain behind a finished first record does not matter, since nothing fails. -/
def settle (buf : List UInt8) (answers : List InnerAnswer) (w : FragmentWriter) :
    Option (List UInt8) → FragmentWriter
  | some out =>
    (({ w with acc := [], out := out, outPos := 0, done := true } : FragmentWriter).drain answers).1
  | none => { w with acc := w.acc ++ buf }

/-- `poll_write`: `none` is `Pending`, otherwise the number of bytes accepted; the outer `none`
is a panic. -/
def pollWrite (buf : List UInt8) (answers : List InnerAnswer) (picks : List UInt32)
    (w : FragmentWriter) : Option (FragmentWriter × Option ℕ) :=
  match w.drainPending answers with
  | (w, none) => some (w, none)
  | (w, some answers) =>
    if w.done then
      match answers.head? with
      | some (some k) =>
        some ({ w with inner := w.inner ++ buf.take (taken k buf) }, some (taken k buf))
      | _ => some (w, none)
    else
      (finalize w.params picks (w.acc ++ buf)).map fun out =>
        (w.settle buf answers out, some buf.length)

/-- `poll_flush`; the Boolean says whether it is ready, `innerReady` whether the inner one
would be. -/
def pollFlush (answers : List InnerAnswer) (innerReady : Bool) (w : FragmentWriter) :
    FragmentWriter × Bool :=
  let w' : FragmentWriter :=
    if w.done = false ∧ w.acc ≠ [] then
      { w with acc := [], out := w.acc, outPos := 0, done := true }
    else w
  match w'.drainPending answers with
  | (w, none) => (w, false)
  | (w, some _) => (w, innerReady)

def pollShutdown (answers : List InnerAnswer) (innerReady : Bool) (w : FragmentWriter) :
    FragmentWriter × Bool :=
  match w.drainPending answers with
  | (w, none) => (w, false)
  | (w, some _) => (w, innerReady)

end FragmentWriter

/-! ## Its callers -/

/-- A call, with the answers of the inner writer and the random numbers it will use. -/
inductive WriterCall where
  | write (buf : List UInt8) (answers : List InnerAnswer) (picks : List UInt32)
  | flush (answers : List InnerAnswer) (innerReady : Bool)
  | shutdown (answers : List InnerAnswer) (innerReady : Bool)

/-- A writer, with what was asked of it. -/
structure Driven where
  writer : FragmentWriter
  /-- The bytes accepted so far. -/
  accepted : List UInt8
  /-- The bytes that had been accepted when the first flush came that found any. -/
  atFlush : Option (List UInt8)

namespace Driven

def start (params : FragmentParams) : Driven := ⟨.new params, [], none⟩

/-- One call that returns.  Writes are of something. -/
def step (d : Driven) : WriterCall → Option Driven
  | .write buf answers picks =>
    if buf = [] then none
    else
      (d.writer.pollWrite buf answers picks).map fun r =>
        { d with writer := r.1, accepted := d.accepted ++ buf.take (r.2.getD 0) }
  | .flush answers innerReady =>
    some { d with
      writer := (d.writer.pollFlush answers innerReady).1
      atFlush := if d.accepted = [] then d.atFlush else d.atFlush.or (some d.accepted) }
  | .shutdown answers innerReady =>
    some { d with writer := (d.writer.pollShutdown answers innerReady).1 }

end Driven

/-! ## What is asked of it -/

/-- A ClientHello written out again: its payload in pieces, each of them in a record. -/
def Rerecorded (record out : List UInt8) : Prop :=
  ∃ pieces : List (List UInt8), (∀ c ∈ pieces, c ≠ [] ∧ c.length < 65536) ∧
    pieces.flatten = record.drop 5 ∧
      out = pieces.flatMap (pieceRecord (record.getD 1 0) (record.getD 2 0))

/-- The stream starts with a complete ClientHello. -/
def StartsWithHello (s : List UInt8) : Prop :=
  RecordComplete s ∧ IsClientHello (s.take (recordTotal s))

/-- The bytes accepted are the bytes received; only a ClientHello that was complete before a
flush came is in its new form. -/
def Conserved (received accepted : List UInt8) (atFlush : Option (List UInt8)) : Prop :=
  (StartsWithHello (atFlush.getD accepted) → ∃ out,
    Rerecorded (accepted.take (recordTotal accepted)) out ∧
      received = out ++ accepted.drop (recordTotal accepted)) ∧
  (¬ StartsWithHello (atFlush.getD accepted) → received = accepted)

/-- The bytes accepted end inside a first handshake record, and no flush has come since the
first of them. -/
def Withheld (accepted : List UInt8) (atFlush : Option (List UInt8)) : Prop :=
  accepted.head? = some 0x16 ∧ ¬ RecordComplete accepted ∧ atFlush = none

/-! ## Draining -/

namespace FragmentWriter

/-- What has been passed on and what is still to be drained. -/
def owed (w : FragmentWriter) : List UInt8 := w.inner ++ w.out.drop w.outPos

/-- `v` is `w` further drained. -/
structure DrainsTo (w v : FragmentWriter) : Prop where
  owed : v.owed = w.owed
  acc : v.acc = w.acc
  done : v.done = w.done

theorem DrainsTo.refl (w : FragmentWriter) : DrainsTo w w := ⟨rfl, rfl, rfl⟩

/-- With nothing left to drain, `out` is cleared. -/
theorem drainsTo_clear {w : FragmentWriter} (h : ¬ w.outPos < w.out.length) :
    DrainsTo w { w with out := [], outPos := 0 } := by
  refine ⟨?_, rfl, rfl⟩
  show w.inner ++ [] = w.inner ++ w.out.drop w.outPos
  rw [List.drop_of_length_le (Nat.not_lt.mp h)]

/-- The inner writer takes some of it. -/
theorem drainsTo_take (w : FragmentWriter) (n : ℕ) :
    DrainsTo w { w with
      inner := w.inner ++ (w.out.drop w.outPos).take n
      outPos := w.outPos + n } := by
  refine ⟨?_, rfl, rfl⟩
  show w.inner ++ (w.out.drop w.outPos).take n ++ w.out.drop (w.outPos + n) = _
  rw [← List.drop_drop, List.append_assoc, List.take_append_drop]
  rfl

/-- **Draining changes nothing but how far it has come**; when it is done, nothing is left. -/
theorem drain_spec (answers : List InnerAnswer) (w : FragmentWriter) :
    DrainsTo w (w.drain answers).1 ∧
      ((w.drain answers).2 ≠ none → (w.drain answers).1.out = []) := by
  induction answers generalizing w with
  | nil =>
    rw [drain]
    split
    · exact ⟨.refl w, fun h => absurd rfl h⟩
    · next hlen => exact ⟨drainsTo_clear hlen, fun _ => rfl⟩
  | cons a answers ih =>
    unfold drain
    split
    · cases a with
      | none => exact ⟨.refl w, fun h => absurd rfl h⟩
      | some k =>
        obtain ⟨hto, hclear⟩ := ih { w with
          inner := w.inner ++ (w.out.drop w.outPos).take (taken k (w.out.drop w.outPos))
          outPos := w.outPos + taken k (w.out.drop w.outPos) }
        have htake := drainsTo_take w (taken k (w.out.drop w.outPos))
        exact ⟨⟨hto.owed.trans htake.owed, hto.acc, hto.done⟩, hclear⟩
    · next hlen => exact ⟨drainsTo_clear hlen, fun _ => rfl⟩

theorem drainPending_spec (answers : List InnerAnswer) (w : FragmentWriter) :
    DrainsTo w (w.drainPending answers).1 ∧
      ((w.drainPending answers).2 ≠ none → (w.drainPending answers).1.out = []) := by
  unfold drainPending
  split
  · next hnil => exact ⟨.refl w, fun _ => hnil⟩
  · exact drain_spec answers w

/-- A shutdown only drains. -/
theorem drainsTo_pollShutdown (answers : List InnerAnswer) (innerReady : Bool)
    (w : FragmentWriter) : DrainsTo w (w.pollShutdown answers innerReady).1 := by
  have hspec := (drainPending_spec answers w).1
  unfold pollShutdown
  split <;> next hr => rwa [hr] at hspec

variable {answers : List InnerAnswer}

/-- A shutdown that is ready has drained everything. -/
theorem pollShutdown_out {innerReady : Bool} {w : FragmentWriter}
    (h : (w.pollShutdown answers innerReady).2 = true) :
    (w.pollShutdown answers innerReady).1.inner = w.owed := by
  obtain ⟨hto, hclear⟩ := drainPending_spec answers w
  unfold pollShutdown at h ⊢
  split at h
  · cases h
  · next v rest hr =>
    simp only [hr] at hto hclear ⊢
    have hout : v.out = [] := hclear (Option.some_ne_none _)
    rw [← hto.owed, owed, hout, List.drop_nil, List.append_nil]

end FragmentWriter

/-! ## The first record -/

section FirstRecord

variable {s x : List UInt8}

theorem recordTotal_le (h : RecordComplete s) : recordTotal s ≤ s.length := h.2

theorem RecordComplete.append (h : RecordComplete s) : RecordComplete (s ++ x) := by
  have htotal := recordTotal_append (x := x) h.1
  refine ⟨?_, ?_⟩
  · rw [List.length_append]
    exact h.1.trans (Nat.le_add_right _ _)
  · show recordTotal (s ++ x) ≤ _
    rw [htotal, List.length_append]
    exact (recordTotal_le h).trans (Nat.le_add_right _ _)

/-- A complete first record stays what it is. -/
theorem take_recordTotal_append (h : RecordComplete s) :
    (s ++ x).take (recordTotal (s ++ x)) = s.take (recordTotal s) := by
  rw [recordTotal_append h.1, List.take_append_of_le_length (recordTotal_le h)]

theorem startsWithHello_append (h : RecordComplete s) :
    StartsWithHello (s ++ x) ↔ StartsWithHello s := by
  unfold StartsWithHello
  rw [take_recordTotal_append h]
  exact and_congr_left fun _ => iff_of_true h.append h

/-- A stream that starts with another byte does not start with a ClientHello. -/
theorem not_startsWithHello_of_head {b : UInt8} (hb : b ≠ 0x16) :
    ¬ StartsWithHello (b :: s) := by
  rintro ⟨-, -, hhead, -⟩
  rw [getD_take_recordTotal] at hhead
  exact hb hhead

end FirstRecord

/-! ## The new form of a ClientHello -/

/-- The payload in pieces, as the random numbers cut it; `none` is a panic. -/
def pieces (len : UInt32 × UInt32) : ℕ → List UInt32 → List UInt8 → Option (List (List UInt8))
  | 0, _, _ => some []
  | fuel + 1, picks, payload =>
    if payload = [] then some []
    else do
      let size ← pick len (picks.headD 0)
      let chunk := min (max size.toNat 1) payload.length
      let rest ← pieces len fuel picks.tail (payload.drop chunk)
      pure (payload.take chunk :: rest)

section Pieces

variable {len : UInt32 × UInt32} {fuel : ℕ} {picks : List UInt32} {payload : List UInt8}
  {ps : List (List UInt8)}

theorem pieces_nil : pieces len fuel picks [] = some [] := by
  cases fuel <;> rfl

/-- The first piece, and the pieces of the rest. -/
theorem pieces_eq_some (hne : payload ≠ []) (h : pieces len (fuel + 1) picks payload = some ps) :
    ∃ size rest, pick len (picks.headD 0) = some size ∧
      pieces len fuel picks.tail (payload.drop (min (max size.toNat 1) payload.length)) =
        some rest ∧
      ps = payload.take (min (max size.toNat 1) payload.length) :: rest := by
  rw [pieces, if_neg hne] at h
  obtain ⟨size, hsize, h⟩ := Option.bind_eq_some_iff.mp h
  obtain ⟨rest, hrest, h⟩ := Option.bind_eq_some_iff.mp h
  exact ⟨size, rest, hsize, hrest, (Option.some.inj h).symm⟩

/-- The loop writes its pieces, each as a record. -/
theorem pieceLoop_eq (len : UInt32 × UInt32) (v0 v1 : UInt8) (fuel : ℕ) (picks : List UInt32)
    (payload : List UInt8) : pieceLoop len v0 v1 fuel picks payload =
      (pieces len fuel picks payload).map (List.flatMap (pieceRecord v0 v1)) := by
  induction fuel generalizing picks payload with
  | zero => rfl
  | succ fuel ih =>
    rw [pieceLoop, pieces]
    split
    · rfl
    · cases hsize : pick len (picks.headD 0) with
      | none => rfl
      | some size =>
        simp only [Option.bind_eq_bind, Option.bind_some, ih]
        cases pieces len fuel picks.tail _ <;> rfl

/-- No byte is lost. -/
theorem flatten_pieces (h : pieces len fuel picks payload = some ps)
    (hfuel : payload.length ≤ fuel) : ps.flatten = payload := by
  induction fuel generalizing picks payload ps with
  | zero =>
    rw [← Option.some.inj h]
    exact (List.length_eq_zero_iff.mp (Nat.le_zero.mp hfuel)).symm
  | succ fuel ih =>
    by_cases hne : payload = []
    · rw [hne, pieces_nil] at h
      rw [← Option.some.inj h, hne]
      rfl
    · obtain ⟨size, rest, -, hrest, rfl⟩ := pieces_eq_some hne h
      have hpos : 0 < payload.length := List.length_pos_iff.mpr hne
      rw [List.flatten_cons, ih hrest (by rw [List.length_drop]; omega), List.take_append_drop]

/-- No piece is empty. -/
theorem ne_nil_of_mem_pieces (h : pieces len fuel picks payload = some ps) :
    ∀ c ∈ ps, c ≠ [] := by
  induction fuel generalizing picks payload ps with
  | zero =>
    rw [← Option.some.inj h]
    exact fun c hc => absurd hc List.not_mem_nil
  | succ fuel ih =>
    by_cases hne : payload = []
    · rw [hne, pieces_nil] at h
      rw [← Option.some.inj h]
      exact fun c hc => absurd hc List.not_mem_nil
    · obtain ⟨size, rest, -, hrest, rfl⟩ := pieces_eq_some hne h
      intro c hc
      rcases List.mem_cons.mp hc with rfl | hc
      · have hpos : 0 < payload.length := List.length_pos_iff.mpr hne
        rw [← List.length_pos_iff, List.length_take]
        omega
      · exact ih hrest c hc

variable {p : FragmentParams}

/-- A ClientHello that is written out again is cut into pieces. -/
theorem pieces_of_fragmentClienthelloToVec {record out : List UInt8} (hhello : IsClientHello record)
    (h : fragmentClienthelloToVec record p picks = some out) :
    ∃ ps, pieces p.len (record.drop 5).length picks (record.drop 5) = some ps ∧
      out = ps.flatMap (pieceRecord (record.getD 1 0) (record.getD 2 0)) := by
  rw [fragmentClienthelloToVec, if_pos hhello, pieceLoop_eq] at h
  obtain ⟨ps, hps, hout⟩ := Option.map_eq_some_iff.mp h
  exact ⟨ps, hps, hout.symm⟩

end Pieces

variable {picks : List UInt32} {p : FragmentParams}

theorem rerecorded_fragmentClienthelloToVec {record out : List UInt8}
    (hhello : IsClientHello record) (hlen : (record.drop 5).length < 65536)
    (h : fragmentClienthelloToVec record p picks = some out) : Rerecorded record out := by
  obtain ⟨ps, hps, rfl⟩ := pieces_of_fragmentClienthelloToVec hhello h
  have hflat := flatten_pieces hps le_rfl
  refine ⟨ps, fun c hc => ⟨ne_nil_of_mem_pieces hps c hc, ?_⟩, hflat, rfl⟩
  have hle : c.length ≤ ps.flatten.length := (List.sublist_flatten_of_mem hc).length_le
  rw [hflat] at hle
  exact hle.trans_lt hlen

/-- What `poll_write` waits for. -/
theorem finalize_eq_none {acc : List UInt8} (h : finalize p picks acc = some none) :
    acc.head? = some 0x16 ∧ ¬ RecordComplete acc := by
  unfold finalize at h
  split at h
  · cases h
  · next hhead =>
    refine ⟨not_not.mp hhead, fun hcomplete => ?_⟩
    rw [if_pos hcomplete.1, if_pos (recordTotal_le hcomplete)] at h
    obtain ⟨hello, -, h⟩ := Option.bind_eq_some_iff.mp h
    cases h

/-- The first byte or the first record has decided what becomes of the collected bytes. -/
def Classified (s : List UInt8) : Prop :=
  (∃ b rest, s = b :: rest ∧ b ≠ 0x16) ∨ RecordComplete s

/-- **What becomes of the collected bytes**: a ClientHello in its new form, anything else as
it is. -/
theorem finalize_eq_some {acc out : List UInt8} (hne : acc ≠ [])
    (h : finalize p picks acc = some (some out)) :
    Classified acc ∧ Conserved out acc none := by
  unfold finalize at h
  split at h
  · next hhead =>
    obtain rfl := Option.some.inj (Option.some.inj h)
    obtain ⟨b, rest, rfl⟩ := List.exists_cons_of_ne_nil hne
    have hb : b ≠ 0x16 := fun hb => hhead (by rw [hb]; rfl)
    exact ⟨Or.inl ⟨b, rest, rfl, hb⟩, fun hhello => absurd hhello (not_startsWithHello_of_head hb),
      fun _ => rfl⟩
  · split at h
    · next hfive =>
      split at h
      · next htotal =>
        obtain ⟨hello, hvec, h⟩ := Option.bind_eq_some_iff.mp h
        obtain rfl := Option.some.inj (Option.some.inj h)
        have hcomplete : RecordComplete acc := ⟨hfive, htotal⟩
        have hpayload : ((acc.take (recordTotal acc)).drop 5).length < 65536 := by
          have hbe := be16_lt (acc.getD 3 0) (acc.getD 4 0)
          rw [List.length_drop, List.length_take_of_le htotal, recordTotal]
          omega
        refine ⟨Or.inr hcomplete, fun hhello => ⟨_, ?_, rfl⟩, fun hother => ?_⟩
        · exact rerecorded_fragmentClienthelloToVec hhello.2 hpayload hvec
        · have hnot : ¬ IsClientHello (acc.take (recordTotal acc)) :=
            fun hhello => hother ⟨hcomplete, hhello⟩
          rw [fragmentClienthelloToVec, if_neg hnot] at hvec
          rw [← Option.some.inj hvec, List.take_append_drop]
      · cases h
    · cases h

/-! ## Every call keeps the account -/

/-- The first record is being collected: nothing is owed, and what was accepted is held. -/
structure Collecting (d : Driven) : Prop where
  done : d.writer.done = false
  out : d.writer.out = []
  inner : d.writer.inner = []
  acc : d.writer.acc = d.accepted
  atFlush : d.atFlush = none
  held : d.accepted = [] ∨ d.accepted.head? = some 0x16 ∧ ¬ RecordComplete d.accepted

/-- The first record has been handled: what was accepted is owed, up to its new form. -/
structure Passing (d : Driven) : Prop where
  done : d.writer.done = true
  flushed : ∀ a, d.atFlush = some a → a <+: d.accepted
  classified : d.atFlush = none → Classified d.accepted
  conserved : Conserved d.writer.owed d.accepted d.atFlush

variable {atFlush : Option (List UInt8)} {accepted : List UInt8}

/-- What a flush has met, or the first record, does not change when more is accepted. -/
theorem startsWithHello_getD_append (hclassified : atFlush = none → Classified accepted)
    (x : List UInt8) :
    StartsWithHello (atFlush.getD (accepted ++ x)) ↔ StartsWithHello (atFlush.getD accepted) := by
  cases atFlush with
  | some a => exact Iff.rfl
  | none =>
    show StartsWithHello (accepted ++ x) ↔ StartsWithHello accepted
    rcases hclassified rfl with ⟨b, rest, rfl, hb⟩ | hcomplete
    · exact iff_of_false (not_startsWithHello_of_head hb) (not_startsWithHello_of_head hb)
    · exact startsWithHello_append hcomplete

/-- A first record that was complete once is complete. -/
theorem recordComplete_of_getD (hflushed : ∀ a, atFlush = some a → a <+: accepted)
    (h : StartsWithHello (atFlush.getD accepted)) : RecordComplete accepted := by
  cases atFlush with
  | some a =>
    obtain ⟨rest, rfl⟩ := hflushed a rfl
    exact h.1.append
  | none => exact h.1

/-- **What is accepted behind the first record is owed as it is.** -/
theorem Conserved.append {received : List UInt8} (h : Conserved received accepted atFlush)
    (hflushed : ∀ a, atFlush = some a → a <+: accepted)
    (hclassified : atFlush = none → Classified accepted) (x : List UInt8) :
    Conserved (received ++ x) (accepted ++ x) atFlush := by
  have hiff := startsWithHello_getD_append hclassified x
  constructor
  · intro hhello
    obtain ⟨out, hout, hreceived⟩ := h.1 (hiff.mp hhello)
    have hcomplete := recordComplete_of_getD hflushed (hiff.mp hhello)
    refine ⟨out, ?_, ?_⟩
    · rwa [take_recordTotal_append hcomplete]
    · rw [recordTotal_append hcomplete.1, List.drop_append_of_le_length (recordTotal_le hcomplete),
        hreceived, List.append_assoc]
  · intro hother
    rw [h.2 fun hhello => hother (hiff.mpr hhello)]

namespace FragmentWriter

/-- A write behind the first record: what is accepted is owed. -/
theorem pollWrite_of_done {w : FragmentWriter} (hdone : w.done = true) (buf : List UInt8)
    (answers : List InnerAnswer) (picks : List UInt32) :
    ∃ r, w.pollWrite buf answers picks = some r ∧ r.1.done = true ∧
      r.1.owed = w.owed ++ buf.take (r.2.getD 0) := by
  obtain ⟨hto, hclear⟩ := drainPending_spec answers w
  unfold pollWrite
  cases hr : w.drainPending answers with
  | mk v rest =>
    rw [hr] at hto hclear
    have hv : v.done = true := hto.done.trans hdone
    have howed : v.owed = w.owed ++ buf.take 0 := by
      rw [List.take_zero, List.append_nil]
      exact hto.owed
    cases rest with
    | none => exact ⟨_, rfl, hv, howed⟩
    | some answers' =>
      have hout : v.out = [] := hclear (Option.some_ne_none _)
      simp only [hv, if_true]
      split
      · next k hk =>
        refine ⟨_, rfl, rfl, ?_⟩
        show v.inner ++ buf.take _ ++ v.out.drop v.outPos = _
        rw [← hto.owed, owed, hout, List.drop_nil, List.append_nil, List.append_nil]
        rfl
      · exact ⟨_, rfl, hv, howed⟩

variable {w : FragmentWriter} {buf : List UInt8}

/-- A write to a writer that is collecting classifies what is collected then. -/
theorem pollWrite_of_collecting (hdone : w.done = false) (hout : w.out = [])
    (answers : List InnerAnswer) :
    w.pollWrite buf answers picks = (finalize w.params picks (w.acc ++ buf)).map fun out =>
      (w.settle buf answers out, some buf.length) := by
  unfold pollWrite drainPending
  simp only [hout, if_true, hdone, Bool.false_eq_true, if_false]

/-- What is classified is owed. -/
theorem settle_some (buf : List UInt8) (answers : List InnerAnswer) (w : FragmentWriter)
    (out : List UInt8) :
    (w.settle buf answers (some out)).done = true ∧
      (w.settle buf answers (some out)).owed = w.inner ++ out := by
  have hspec := (drain_spec answers
    { w with acc := [], out := out, outPos := 0, done := true }).1
  exact ⟨hspec.done, hspec.owed⟩

/-- A flush of a writer that is not collecting only drains. -/
theorem drainsTo_pollFlush (h : ¬ (w.done = false ∧ w.acc ≠ [])) (answers : List InnerAnswer)
    (innerReady : Bool) : DrainsTo w (w.pollFlush answers innerReady).1 := by
  have hspec := (drainPending_spec answers w).1
  unfold pollFlush
  simp only [h, if_false]
  split <;> next hr => rwa [hr] at hspec

variable {answers : List InnerAnswer}

theorem pollFlush_of_out_nil (h : ¬ (w.done = false ∧ w.acc ≠ [])) (hout : w.out = [])
    {innerReady : Bool} :
    (w.pollFlush answers innerReady).1 = w := by
  unfold pollFlush drainPending
  simp only [h, if_false, hout, if_true]

theorem pollShutdown_of_out_nil (hout : w.out = []) {innerReady : Bool} :
    (w.pollShutdown answers innerReady).1 = w := by
  unfold pollShutdown drainPending
  simp only [hout, if_true]

/-- A flush of a writer that is collecting makes what it holds owed. -/
theorem pollFlush_of_collecting (h : w.done = false ∧ w.acc ≠ []) (answers : List InnerAnswer)
    (innerReady : Bool) :
    (w.pollFlush answers innerReady).1.done = true ∧
      (w.pollFlush answers innerReady).1.owed = w.inner ++ w.acc := by
  have hspec := (drainPending_spec answers
    { w with acc := [], out := w.acc, outPos := 0, done := true }).1
  unfold pollFlush
  simp only [h, ne_eq, not_false_eq_true, and_self, if_true]
  split <;> next hr =>
    rw [hr] at hspec
    exact ⟨hspec.done, hspec.owed⟩

end FragmentWriter

/-- The account: collecting, or passing on. -/
def Sound (d : Driven) : Prop := Collecting d ∨ Passing d

theorem sound_start (params : FragmentParams) : Sound (Driven.start params) :=
  Or.inl ⟨rfl, rfl, rfl, rfl, rfl, Or.inl rfl⟩

section Steps

variable {d : Driven} {answers : List InnerAnswer} {innerReady : Bool}

/-- A drain keeps the account. -/
theorem Sound.of_drainsTo {v : FragmentWriter} (h : Sound d) (hto : d.writer.DrainsTo v)
    (hsame : d.writer.out = [] → v = d.writer) : Sound { d with writer := v } := by
  rcases h with hcol | hpass
  · rw [hsame hcol.out]
    exact Or.inl hcol
  · refine Or.inr ⟨hto.done.trans hpass.done, hpass.flushed, hpass.classified, ?_⟩
    show Conserved v.owed _ _
    rw [hto.owed]
    exact hpass.conserved

/-- A write to a collecting writer: the bytes are held, or the first record is handled. -/
theorem Collecting.write (h : Collecting d) {buf : List UInt8} (hne : buf ≠ [])
    {r : FragmentWriter × Option ℕ} (hr : d.writer.pollWrite buf answers picks = some r) :
    Sound { d with writer := r.1, accepted := d.accepted ++ buf.take (r.2.getD 0) } := by
  have hacc : d.writer.acc ++ buf ≠ [] := List.append_ne_nil_of_right_ne_nil _ hne
  rw [FragmentWriter.pollWrite_of_collecting h.done h.out] at hr
  obtain ⟨out, hfin, rfl⟩ := Option.map_eq_some_iff.mp hr
  rw [Option.getD_some, List.take_length]
  cases out with
  | none =>
    have hheld := finalize_eq_none hfin
    rw [h.acc] at hheld
    exact Or.inl ⟨h.done, h.out, h.inner, congrArg (· ++ buf) h.acc, h.atFlush, Or.inr hheld⟩
  | some out =>
    obtain ⟨hdone, howed⟩ := FragmentWriter.settle_some buf answers d.writer out
    obtain ⟨hclassified, hconserved⟩ := finalize_eq_some hacc hfin
    rw [h.inner, List.nil_append] at howed
    rw [h.acc] at hclassified hconserved
    refine Or.inr ⟨hdone, fun a ha => ?_, fun _ => hclassified, ?_⟩
    · rw [h.atFlush] at ha
      cases ha
    · show Conserved (d.writer.settle buf answers (some out)).owed _ _
      rw [howed, h.atFlush]
      exact hconserved

/-- A write to a passing writer. -/
theorem Passing.write (h : Passing d) {buf : List UInt8} {r : FragmentWriter × Option ℕ}
    (hr : d.writer.pollWrite buf answers picks = some r) :
    Sound { d with writer := r.1, accepted := d.accepted ++ buf.take (r.2.getD 0) } := by
  obtain ⟨r', hr', hdone, howed⟩ := FragmentWriter.pollWrite_of_done h.done buf answers picks
  obtain rfl := Option.some.inj (hr'.symm.trans hr)
  refine Or.inr ⟨hdone, fun a ha => (h.flushed a ha).trans (List.prefix_append _ _),
    fun hnone => ?_, ?_⟩
  · rcases h.classified hnone with ⟨b, rest, heq, hb⟩ | hcomplete
    · exact Or.inl ⟨b, rest ++ _, congrArg (· ++ _) heq, hb⟩
    · exact Or.inr hcomplete.append
  · show Conserved r'.1.owed _ _
    rw [howed]
    exact h.conserved.append h.flushed h.classified _

/-- A flush of a collecting writer. -/
theorem Collecting.flush (h : Collecting d) :
    Sound { d with
      writer := (d.writer.pollFlush answers innerReady).1
      atFlush := if d.accepted = [] then d.atFlush else d.atFlush.or (some d.accepted) } := by
  by_cases hnil : d.accepted = []
  · have hidle : ¬ (d.writer.done = false ∧ d.writer.acc ≠ []) :=
      fun hcol => hcol.2 (h.acc.trans hnil)
    rw [if_pos hnil, FragmentWriter.pollFlush_of_out_nil hidle h.out]
    exact Or.inl h
  · have hcol : d.writer.done = false ∧ d.writer.acc ≠ [] := ⟨h.done, by rwa [h.acc]⟩
    obtain ⟨hdone, howed⟩ := FragmentWriter.pollFlush_of_collecting hcol answers innerReady
    rw [h.inner, List.nil_append, h.acc] at howed
    rw [if_neg hnil, h.atFlush, Option.none_or]
    have hincomplete : ¬ RecordComplete d.accepted := (h.held.resolve_left hnil).2
    refine Or.inr ⟨hdone, ?_, fun hnone => absurd hnone (Option.some_ne_none _), ?_⟩
    · rintro a ⟨rfl⟩
      exact List.prefix_refl _
    · show Conserved (d.writer.pollFlush answers innerReady).1.owed _ _
      rw [howed]
      exact ⟨fun hhello => absurd hhello.1 hincomplete, fun _ => rfl⟩

/-- A flush of a passing writer. -/
theorem Passing.flush (h : Passing d) :
    Sound { d with
      writer := (d.writer.pollFlush answers innerReady).1
      atFlush := if d.accepted = [] then d.atFlush else d.atFlush.or (some d.accepted) } := by
  have hidle : ¬ (d.writer.done = false ∧ d.writer.acc ≠ []) := by
    rw [h.done]
    exact fun hcol => Bool.noConfusion hcol.1
  have hto := FragmentWriter.drainsTo_pollFlush hidle answers innerReady
  have hdrained := Sound.of_drainsTo (Or.inr h) hto
    fun hout => FragmentWriter.pollFlush_of_out_nil hidle hout
  split
  · exact hdrained
  · cases hflush : d.atFlush with
    | some a =>
      rw [Option.some_or, ← hflush]
      exact hdrained
    | none =>
      -- the first flush that meets something meets all that was accepted
      refine Or.inr ⟨hto.done.trans h.done, ?_, fun hnone => absurd hnone (by simp), ?_⟩
      · rintro a ⟨rfl⟩
        exact List.prefix_refl _
      · have hconserved := h.conserved
        rw [← hto.owed, hflush] at hconserved
        exact hconserved

/-- **Every call keeps the account.** -/
theorem sound_step {call : WriterCall} {d' : Driven} (h : Sound d)
    (hstep : d.step call = some d') : Sound d' := by
  cases call with
  | write buf answers picks =>
    rw [Driven.step] at hstep
    split at hstep
    · cases hstep
    · next hne =>
      obtain ⟨r, hr, rfl⟩ := Option.map_eq_some_iff.mp hstep
      rcases h with hcol | hpass
      · exact hcol.write hne hr
      · exact hpass.write hr
  | flush answers innerReady =>
    obtain rfl := Option.some.inj hstep
    rcases h with hcol | hpass
    · exact hcol.flush
    · exact hpass.flush
  | shutdown answers innerReady =>
    obtain rfl := Option.some.inj hstep
    exact h.of_drainsTo (d.writer.drainsTo_pollShutdown answers innerReady)
      fun hout => FragmentWriter.pollShutdown_of_out_nil hout

end Steps

/-- **What a `FragmentWriter` conserves.**  After any calls, when `poll_shutdown` returns, the
bytes the inner writer has received are the bytes accepted, up to the new form of a
ClientHello that was complete before a flush came, exactly if the bytes accepted do not end
inside a first handshake record that no flush has met. -/
theorem fragmentWriter_conserves_iff (params : FragmentParams) (calls : List WriterCall)
    (d : Driven) (hrun : run Driven.step (Driven.start params) calls = some d)
    (answers : List InnerAnswer) (hready : (d.writer.pollShutdown answers true).2 = true) :
    Conserved (d.writer.pollShutdown answers true).1.inner d.accepted d.atFlush ↔
      ¬ Withheld d.accepted d.atFlush := by
  have hsound : Sound d :=
    run_inv (fun _ _ _ hs h => sound_step hs h) calls (sound_start params) hrun
  rw [FragmentWriter.pollShutdown_out hready]
  rcases hsound with hcol | hpass
  · have howed : d.writer.owed = [] := by
      rw [FragmentWriter.owed, hcol.inner, hcol.out, List.drop_nil, List.append_nil]
    rw [howed, hcol.atFlush]
    rcases hcol.held with hnil | ⟨hhead, hincomplete⟩
    · rw [hnil]
      refine iff_of_true ⟨fun hhello => absurd hhello.1 (by decide), fun _ => rfl⟩ ?_
      rintro ⟨hhead, -⟩
      cases hhead
    · refine iff_of_false (fun hconserved => ?_) fun h => h ⟨hhead, hincomplete, rfl⟩
      have hnil : [] = d.accepted := hconserved.2 fun hhello => hincomplete hhello.1
      rw [← hnil] at hhead
      cases hhead
  · refine iff_of_true hpass.conserved ?_
    rintro ⟨hhead, hincomplete, hnone⟩
    rcases hpass.classified hnone with ⟨b, rest, heq, hb⟩ | hcomplete
    · rw [heq] at hhead
      exact hb (Option.some.inj hhead)
    · exact hincomplete hcomplete

/-- A ClientHello of two bytes in two writes, to a writer that takes a byte at a time. -/
def helloCalls : List WriterCall :=
  [.write [0x16, 3, 1, 0, 2, 1] [] [], .write [7] [some 1, none] []]

theorem fragmentWriter_conserves_hello :
    ∃ d, run Driven.step (Driven.start ⟨(1, 1), (0, 0)⟩) helloCalls = some d ∧
      d.accepted = [0x16, 3, 1, 0, 2, 1, 7] ∧
        Conserved (d.writer.pollShutdown [some 20] true).1.inner d.accepted d.atFlush := by
  refine ⟨_, rfl, rfl, ?_⟩
  refine (fragmentWriter_conserves_iff ⟨(1, 1), (0, 0)⟩ helloCalls _ rfl [some 20] rfl).mpr ?_
  exact fun h => h.2.1 (by decide)

/-- **A shutdown loses what is collected.**  Three bytes that could begin a TLS record are
accepted, and the writer is shut down as the relays do it, without a flush: the inner writer
has received nothing. -/
theorem fragmentWriter_loses_on_shutdown :
    ∃ d, run Driven.step (Driven.start ⟨(50, 100), (0, 0)⟩) [.write [0x16, 3, 1] [] []] = some d ∧
      d.accepted = [0x16, 3, 1] ∧ (d.writer.pollShutdown [some 20] true).2 = true ∧
        (d.writer.pollShutdown [some 20] true).1.inner = [] ∧
          ¬ Conserved (d.writer.pollShutdown [some 20] true).1.inner d.accepted d.atFlush := by
  refine ⟨_, rfl, rfl, rfl, rfl, fun hconserved => ?_⟩
  have hshort : ¬ StartsWithHello [0x16, 3, 1] := fun hhello => absurd hhello.1 (by decide)
  exact absurd (hconserved.2 hshort) (List.cons_ne_nil _ _).symm

end Server
end HoldTheDonut
