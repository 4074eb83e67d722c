import HoldTheDonut.Machine.HalfDuplex
import HoldTheDonut.Vision.Splice

/-!
# `vision_xray_splice.rs`: two directions in one task

`tls_plain_relay` and the framed loop of `vision_server_splice` wait in one `select!` for a
record of the client and for bytes of the target, and write what they have got before they
wait again.  While they write to a target that has stopped reading, nobody reads what the
target has to say.  The copy that follows the loop, and the one of `handle_session`, do the two
directions side by side.

Both loops are one definition here, `Framed`, with a `Codec` for what they differ in: the
plain relay passes plaintext as it is, the Vision loop unpads it, stops decrypting behind a
`Direct` block, shows what it has seen to the filter, and is left when both directions are
spliced.  What such a loop passes up is `contentOf` the client's bytes, so it is a relay in the
sense of `Machine.HalfDuplex` and blocks a target that echoes exactly if there is enough of it
(`relays_live_iff`).

`Splice` already is a model of the Vision loop, with writes that never wait.  The framed loop
here is that machine with the writes taken apart (`up_simulates`, `down_simulates`).
-/

namespace HoldTheDonut
namespace Server

open Machine
open Vision (Unpadder Uuid FilterState Downlink Sent Splice SpliceEvent recordLen readChunk)

/-- What a loop does with the plaintext of the client and with the bytes of the target.  `υ` is
the state of the uplink, `δ` that of the downlink. -/
structure Codec (υ δ : Type) where
  push : υ → List UInt8 → υ × List UInt8
  /-- The uplink is spliced: the client's bytes are no longer records. -/
  direct : υ → Bool
  /-- The downlink is shown what goes up. -/
  note : δ → List UInt8 → δ
  spliced : δ → Bool
  send : δ → ℕ → List UInt8 → δ × Sent
  note_spliced : ∀ d c, spliced (note d c) = spliced d
  send_spliced : ∀ d draw c, spliced d = true → spliced (send d draw c).1 = true

/-- The state of a loop. -/
structure Framed (τ υ δ : Type) where
  tls : τ
  inbuf : List UInt8
  unp : υ
  side : δ
  uplinkDone : Bool
  failed : Bool

/-- The relay of plaintext: nothing is unpadded and nothing is spliced. -/
def plainCodec : Codec Unit Unit where
  push u pt := (u, pt)
  direct _ := false
  note d _ := d
  spliced _ := false
  send d _ chunk := (d, .plain chunk)
  note_spliced _ _ := rfl
  send_spliced _ _ _ h := h

/-- A spliced downlink stays so. -/
theorem send_spliced_of_spliced (d : FilterState × Downlink) (draw : ℕ) (chunk : List UInt8)
    (h : d.2.spliced = true) :
    (d.2.send (d.2.observed d.1 chunk) chunk draw).1.spliced = true := by
  rw [Downlink.send, if_pos h]
  exact h

/-- The Vision loop. -/
def visionCodec : Codec Unpadder (FilterState × Downlink) where
  push := Unpadder.push
  direct u := u.direct
  note d content := (d.1.observe content, d.2)
  spliced d := d.2.spliced
  send d draw chunk :=
    let f := d.2.observed d.1 chunk
    let r := d.2.send f chunk draw
    ((f, r.1), r.2)
  note_spliced _ _ := rfl
  send_spliced := send_spliced_of_spliced

namespace Framed

variable {τ υ δ : Type}

section Loop

variable (feed : τ → List UInt8 → Option (τ × List UInt8)) (codec : Codec υ δ)
  (wrap : Sent → List UInt8)

/-- The loop has not been left. -/
def Looping (s : Framed τ υ δ) : Prop :=
  s.failed = false ∧ ¬ (codec.direct s.unp = true ∧ codec.spliced s.side = true)

instance (s : Framed τ υ δ) : Decidable (s.Looping codec) := inferInstanceAs (Decidable (_ ∧ _))

/-- Plaintext is pushed through the codec, unless there is none. -/
def takePlaintext (s : Framed τ υ δ) (pt : List UInt8) : Framed τ υ δ × List UInt8 :=
  if pt = [] then (s, [])
  else
    let r := codec.push s.unp pt
    ({ s with unp := r.1, side := if r.2 = [] then s.side else codec.note s.side r.2 }, r.2)

/-- One record out of `inbuf`. -/
def takeRecord (s : Framed τ υ δ) (total : ℕ) : Framed τ υ δ × List UInt8 :=
  match feed s.tls (s.inbuf.take total) with
  | none => ({ s with failed := true }, [])
  | some (tls, pt) => takePlaintext codec { s with tls := tls, inbuf := s.inbuf.drop total } pt

/-- One completion of `read_uplink`, or one socket read that leaves the record incomplete: `k`
are the bytes taken off the socket. -/
def up (s : Framed τ υ δ) (k : List UInt8) : Option (Framed τ υ δ × List UInt8) :=
  if s.Looping codec ∧ s.uplinkDone = false then
    if codec.direct s.unp = true then
      -- what was read ahead goes first
      if s.inbuf ≠ [] then
        if k = [] then
          some ({ s with inbuf := s.inbuf.drop readChunk }, s.inbuf.take readChunk)
        else none
      else if k ≠ [] ∧ k.length ≤ readChunk then some (s, k)
      else none
    else
      match recordLen s.inbuf with
      | some total => if k = [] then some (s.takeRecord feed codec total) else none
      | none =>
        if k ≠ [] ∧ k.length ≤ readChunk then some ({ s with inbuf := s.inbuf ++ k }, [])
        else none
  else none

/-- One chunk of the target.  `wrap` is the outer TLS, for what is not raw. -/
def down (s : Framed τ υ δ) (draw : ℕ) (chunk : List UInt8) :
    Option (Framed τ υ δ × List UInt8) :=
  if s.Looping codec ∧ chunk ≠ [] ∧ chunk.length ≤ readChunk then
    let r := codec.send s.side draw chunk
    some ({ s with side := r.1 }, wrap r.2)
  else none

/-- The client's stream ends: cleanly, or inside a record. -/
def close (s : Framed τ υ δ) : Option (Framed τ υ δ) :=
  if s.Looping codec ∧ s.uplinkDone = false then
    if codec.direct s.unp = true then
      if s.inbuf = [] then some { s with uplinkDone := true } else none
    else if (recordLen s.inbuf).isSome then none
    else if s.inbuf = [] then some { s with uplinkDone := true }
    else some { s with failed := true }
  else none

/-- The loop as a relay. -/
def relay : HalfDuplex UInt8 (Framed τ υ δ) ℕ where
  up := up feed codec
  down := down codec wrap
  close := close codec

/-! ## What a loop passes up -/

/-- **What the client's bytes come to**: the contents of the records up to the first that does
not decrypt, and the bytes behind a `Direct` block as they are, unless the loop ends there.
Every record takes bytes, so one more than there are is fuel enough. -/
def contentOf (spliced : Bool) : ℕ → τ → υ → List UInt8 → List UInt8
  | 0, _, _, _ => []
  | fuel + 1, tls, unp, bytes =>
    if codec.direct unp = true then if spliced then [] else bytes
    else
      match recordLen bytes with
      | none => []
      | some total =>
        match feed tls (bytes.take total) with
        | none => []
        | some (tls, pt) =>
          if pt = [] then contentOf spliced fuel tls unp (bytes.drop total)
          else
            (codec.push unp pt).2 ++
              contentOf spliced fuel tls (codec.push unp pt).1 (bytes.drop total)

/-- What is still to be passed up. -/
def remaining (s : Framed τ υ δ) (w : List UInt8) : List UInt8 :=
  if s.failed = true ∨ s.uplinkDone = true then []
  else contentOf feed codec (codec.spliced s.side) ((s.inbuf ++ w).length + 1) s.tls s.unp
    (s.inbuf ++ w)

end Loop

section Content

variable {feed : τ → List UInt8 → Option (τ × List UInt8)} {codec : Codec υ δ}
  {wrap : Sent → List UInt8} {total : ℕ}

/-- A complete record stays the first one, whatever comes behind it. -/
theorem recordLen_append {inbuf : List UInt8} (h : recordLen inbuf = some total) (w : List UInt8) :
    recordLen (inbuf ++ w) = some total := by
  unfold recordLen at h ⊢
  split at h
  · next hlen =>
    rw [if_pos (by rw [List.length_append]; omega), List.getD_append _ _ _ _ (by omega),
      List.getD_append _ _ _ _ (by omega)]
    dsimp only at h ⊢
    split at h
    · rw [if_pos (by rw [List.length_append]; omega)]
      exact h
    · cases h
  · cases h

/-- More fuel than bytes makes no difference. -/
theorem contentOf_fuel (spliced : Bool) (m : ℕ) :
    ∀ (n : ℕ) (tls : τ) (unp : υ) (bytes : List UInt8), bytes.length < m → bytes.length < n →
      contentOf feed codec spliced m tls unp bytes =
        contentOf feed codec spliced n tls unp bytes := by
  induction m with
  | zero => exact fun n tls unp bytes hm => absurd hm (Nat.not_lt_zero _)
  | succ m ih =>
    intro n tls unp bytes hm hn
    obtain ⟨n, rfl⟩ : ∃ k, n = k + 1 := ⟨n - 1, by omega⟩
    rw [contentOf, contentOf]
    split
    · rfl
    · cases hrec : recordLen bytes with
      | none => rfl
      | some total =>
        obtain ⟨hpos, hle⟩ := Splice.recordLen_pos_le hrec
        dsimp only
        cases feed tls (bytes.take total) with
        | none => rfl
        | some p =>
          have hlt : (bytes.drop total).length < m ∧ (bytes.drop total).length < n := by
            rw [List.length_drop]
            omega
          dsimp only
          split
          · exact ih n _ _ _ hlt.1 hlt.2
          · rw [ih n _ _ _ hlt.1 hlt.2]

/-- A spliced downlink leaves less to pass up. -/
theorem contentOf_spliced_le (fuel : ℕ) :
    ∀ (tls : τ) (unp : υ) (bytes : List UInt8),
      (contentOf feed codec true fuel tls unp bytes).length ≤
        (contentOf feed codec false fuel tls unp bytes).length := by
  induction fuel with
  | zero => exact fun _ _ _ => le_rfl
  | succ fuel ih =>
    intro tls unp bytes
    rw [contentOf, contentOf]
    split
    · exact Nat.zero_le _
    · cases recordLen bytes with
      | none => exact le_rfl
      | some total =>
        dsimp only
        cases feed tls (bytes.take total) with
        | none => exact le_rfl
        | some p =>
          dsimp only
          split
          · exact ih _ _ _
          · rw [List.length_append, List.length_append]
            exact Nat.add_le_add_left (ih _ _ _) _

/-- The uplink is open. -/
def Open (s : Framed τ υ δ) : Prop := ¬ (s.failed = true ∨ s.uplinkDone = true)

variable {s : Framed τ υ δ}

theorem open_of_reading (h : s.Looping codec ∧ s.uplinkDone = false) :
    s.Open := by
  rw [Open, h.1.1, h.2]
  simp

/-- Plaintext is content, and the rest is what it was. -/
theorem remaining_takePlaintext (hopen : s.Open) (pt w : List UInt8) :
    (s.takePlaintext codec pt).2 ++ (s.takePlaintext codec pt).1.remaining feed codec w =
      if pt = [] then s.remaining feed codec w
      else (codec.push s.unp pt).2 ++ contentOf feed codec (codec.spliced s.side)
        ((s.inbuf ++ w).length + 1) s.tls (codec.push s.unp pt).1 (s.inbuf ++ w) := by
  rw [takePlaintext]
  split
  · rw [List.nil_append]
  · dsimp only
    rw [remaining, if_neg hopen]
    dsimp only
    split
    · rfl
    · rw [codec.note_spliced]

/-- **A record is content.** -/
theorem remaining_takeRecord (hopen : s.Open) (hdirect : codec.direct s.unp ≠ true)
    (hrec : recordLen s.inbuf = some total) (w : List UInt8) :
    s.remaining feed codec w =
      (s.takeRecord feed codec total).2 ++
        (s.takeRecord feed codec total).1.remaining feed codec w := by
  obtain ⟨hpos, hle⟩ := Splice.recordLen_pos_le hrec
  have htake : (s.inbuf ++ w).take total = s.inbuf.take total := List.take_append_of_le_length hle
  have hdrop : (s.inbuf ++ w).drop total = s.inbuf.drop total ++ w :=
    List.drop_append_of_le_length hle
  rw [remaining, if_neg hopen, contentOf, if_neg hdirect, recordLen_append hrec w, takeRecord]
  dsimp only
  rw [htake, hdrop]
  cases hfeed : feed s.tls (s.inbuf.take total) with
  | none =>
    dsimp only
    rw [remaining, if_pos (Or.inl rfl)]
    rfl
  | some p =>
    dsimp only
    have hfuel : ∀ unp, contentOf feed codec (codec.spliced s.side) (s.inbuf ++ w).length p.1 unp
        (s.inbuf.drop total ++ w) = contentOf feed codec (codec.spliced s.side)
          ((s.inbuf.drop total ++ w).length + 1) p.1 unp (s.inbuf.drop total ++ w) := by
      intro unp
      refine contentOf_fuel _ _ _ _ _ _ ?_ (Nat.lt_succ_self _)
      rw [List.length_append, List.length_append, List.length_drop]
      omega
    rw [remaining_takePlaintext (s := { s with tls := p.1, inbuf := s.inbuf.drop total }) hopen]
    split
    · rw [remaining, if_neg hopen, hfuel]
    · rw [hfuel]

/-- **What the uplink can do**: pass on what was read ahead, pass on raw bytes, take a record,
or wait for the rest of one. -/
theorem up_cases {s' : Framed τ υ δ} {k c : List UInt8} (h : s.up feed codec k = some (s', c)) :
    (s.Looping codec ∧ s.uplinkDone = false) ∧
    ((codec.direct s.unp = true ∧ s.inbuf ≠ [] ∧ k = [] ∧
        s' = { s with inbuf := s.inbuf.drop readChunk } ∧ c = s.inbuf.take readChunk) ∨
      (codec.direct s.unp = true ∧ s.inbuf = [] ∧ (k ≠ [] ∧ k.length ≤ readChunk) ∧
        s' = s ∧ c = k) ∨
      (codec.direct s.unp ≠ true ∧ k = [] ∧ ∃ total, recordLen s.inbuf = some total ∧
        s.takeRecord feed codec total = (s', c)) ∨
      (codec.direct s.unp ≠ true ∧ recordLen s.inbuf = none ∧ (k ≠ [] ∧ k.length ≤ readChunk) ∧
        s' = { s with inbuf := s.inbuf ++ k } ∧ c = [])) := by
  rw [up] at h
  split at h
  · next hreading =>
    refine ⟨hreading, ?_⟩
    split at h
    · next hdirect =>
      split at h
      · next hin =>
        split at h
        · next hk =>
          cases h
          exact Or.inl ⟨hdirect, hin, hk, rfl, rfl⟩
        · cases h
      · next hin =>
        split at h
        · next hk =>
          cases h
          exact Or.inr (Or.inl ⟨hdirect, not_not.mp hin, hk, rfl, rfl⟩)
        · cases h
    · next hdirect =>
      split at h
      · next total hrec =>
        split at h
        · next hk => exact Or.inr (Or.inr (Or.inl ⟨hdirect, hk, total, hrec, Option.some.inj h⟩))
        · cases h
      · next hrec =>
        split at h
        · next hk =>
          cases h
          exact Or.inr (Or.inr (Or.inr ⟨hdirect, hrec, hk, rfl, rfl⟩))
        · cases h
  · cases h

/-- An open uplink in raw mode has all of its bytes to pass up. -/
theorem remaining_of_direct (hopen : s.Open) (hdirect : codec.direct s.unp = true)
    (hspliced : codec.spliced s.side ≠ true) (w : List UInt8) :
    s.remaining feed codec w = s.inbuf ++ w := by
  rw [remaining, if_neg hopen, contentOf, if_pos hdirect, if_neg hspliced]

/-- **What is taken up is what there was to take.** -/
theorem remaining_up {s' : Framed τ υ δ} {k c : List UInt8} (h : s.up feed codec k = some (s', c))
    (w : List UInt8) : s.remaining feed codec (k ++ w) = c ++ s'.remaining feed codec w := by
  obtain ⟨hreading, hcases⟩ := up_cases h
  have hopen := open_of_reading hreading
  have hspliced : codec.direct s.unp = true → codec.spliced s.side ≠ true :=
    fun hdirect hspliced => hreading.1.2 ⟨hdirect, hspliced⟩
  rcases hcases with ⟨hdirect, -, rfl, rfl, rfl⟩ | ⟨hdirect, hin, -, rfl, rfl⟩ |
    ⟨hdirect, rfl, total, hrec, htake⟩ | ⟨-, -, -, rfl, rfl⟩
  · rw [remaining_of_direct hopen hdirect (hspliced hdirect), List.nil_append,
      remaining_of_direct (s := { s with inbuf := s.inbuf.drop readChunk }) hopen hdirect
        (hspliced hdirect), ← List.append_assoc, List.take_append_drop]
  · rw [remaining_of_direct hopen hdirect (hspliced hdirect),
      remaining_of_direct hopen hdirect (hspliced hdirect), hin]
    rfl
  · rw [List.nil_append, remaining_takeRecord hopen hdirect hrec, htake]
  · rw [remaining, remaining, if_neg hopen, if_neg hopen, List.nil_append, List.append_assoc]

theorem remaining_down {s' : Framed τ υ δ} {draw : ℕ} {chunk out : List UInt8}
    (h : s.down codec wrap draw chunk = some (s', out)) (w : List UInt8) :
    (s'.remaining feed codec w).length ≤ (s.remaining feed codec w).length := by
  rw [down] at h
  split at h
  · cases h
    rw [remaining, remaining]
    dsimp only
    split
    · exact le_rfl
    · cases hspliced : codec.spliced s.side with
      | true =>
        rw [codec.send_spliced _ _ _ hspliced]
      | false =>
        cases codec.spliced (codec.send s.side draw chunk).1 with
        | true => exact contentOf_spliced_le _ _ _ _
        | false => exact le_rfl
  · cases h

theorem remaining_close {s' : Framed τ υ δ} (h : s.close codec = some s') (w : List UInt8) :
    s'.remaining feed codec w = [] := by
  have hclosed : s'.failed = true ∨ s'.uplinkDone = true := by
    rw [close] at h
    split at h
    · split at h
      · split at h
        · cases h
          exact Or.inr rfl
        · cases h
      · split at h
        · cases h
        · split at h
          · cases h
            exact Or.inr rfl
          · cases h
            exact Or.inl rfl
    · cases h
  rw [remaining, if_pos hclosed]

/-- What the uplink still has to handle: a byte off the socket is handled twice. -/
def cost (s : Framed τ υ δ) (w : List UInt8) : ℕ := 2 * w.length + s.inbuf.length

theorem takePlaintext_inbuf (s : Framed τ υ δ) (pt : List UInt8) :
    (s.takePlaintext codec pt).1.inbuf = s.inbuf := by
  rw [takePlaintext]
  split <;> rfl

/-- A record that decrypts is taken out of `inbuf`. -/
theorem takeRecord_inbuf {p : τ × List UInt8} (hfeed : feed s.tls (s.inbuf.take total) = some p) :
    (s.takeRecord feed codec total).1.inbuf = s.inbuf.drop total := by
  rw [takeRecord, hfeed]
  exact takePlaintext_inbuf _ _

/-- **While there is something to pass up, the uplink gets on.** -/
theorem up_progress {w : List UInt8} (h : s.remaining feed codec w ≠ []) :
    ∃ k w' s' c, w = k ++ w' ∧ k.length ≤ 1 ∧ s.up feed codec k = some (s', c) ∧
      s'.cost w' < s.cost w := by
  have hopen : s.Open := by
    intro hclosed
    rw [remaining, if_pos hclosed] at h
    exact h rfl
  have hdone : s.uplinkDone = false := Bool.eq_false_of_not_eq_true fun hd => hopen (Or.inr hd)
  rw [remaining, if_neg hopen, contentOf] at h
  have hloop : s.Looping codec := by
    refine ⟨Bool.eq_false_of_not_eq_true fun hf => hopen (Or.inl hf), fun hboth => ?_⟩
    rw [if_pos hboth.1, if_pos hboth.2] at h
    exact h rfl
  have hshort : ∀ b : UInt8, [b] ≠ [] ∧ [b].length ≤ readChunk :=
    fun b => ⟨List.cons_ne_nil _ _, show 1 ≤ readChunk by decide⟩
  by_cases hdirect : codec.direct s.unp = true
  · by_cases hin : s.inbuf = []
    · rw [if_pos hdirect, hin, List.nil_append] at h
      obtain ⟨b, w', rfl⟩ : ∃ b w', w = b :: w' := by
        refine List.exists_cons_of_ne_nil fun hnil => h ?_
        rw [hnil]
        split <;> rfl
      refine ⟨[b], w', s, [b], rfl, le_rfl, ?_, ?_⟩
      · rw [up, if_pos ⟨hloop, hdone⟩, if_pos hdirect, if_neg (not_not.mpr hin),
          if_pos (hshort b)]
      · rw [cost, cost, List.length_cons]
        omega
    · refine ⟨[], w, { s with inbuf := s.inbuf.drop readChunk }, s.inbuf.take readChunk, rfl,
        Nat.zero_le _, ?_, ?_⟩
      · rw [up, if_pos ⟨hloop, hdone⟩, if_pos hdirect, if_pos hin, if_pos rfl]
      · have hpos := List.length_pos_iff.mpr hin
        rw [cost, cost, List.length_drop]
        unfold readChunk
        omega
  · rw [if_neg hdirect] at h
    cases hrec : recordLen s.inbuf with
    | some total =>
      obtain ⟨hpos, hle⟩ := Splice.recordLen_pos_le hrec
      refine ⟨[], w, (s.takeRecord feed codec total).1, (s.takeRecord feed codec total).2, rfl,
        Nat.zero_le _, ?_, ?_⟩
      · rw [up, if_pos ⟨hloop, hdone⟩, if_neg hdirect, hrec]
        rfl
      · -- it decrypts, or there would be nothing to pass up
        cases hfeed : feed s.tls (s.inbuf.take total) with
        | none =>
          rw [recordLen_append hrec w] at h
          dsimp only at h
          rw [List.take_append_of_le_length hle, hfeed] at h
          exact absurd rfl h
        | some p =>
          rw [cost, cost, takeRecord_inbuf hfeed, List.length_drop]
          omega
    | none =>
      obtain ⟨b, w', rfl⟩ : ∃ b w', w = b :: w' := by
        refine List.exists_cons_of_ne_nil fun hnil => h ?_
        rw [hnil, List.append_nil, hrec]
      refine ⟨[b], w', { s with inbuf := s.inbuf ++ [b] }, [], rfl, le_rfl, ?_, ?_⟩
      · rw [up, if_pos ⟨hloop, hdone⟩, if_neg hdirect, hrec]
        exact if_pos (hshort b)
      · simp only [cost, List.length_append, List.length_cons, List.length_nil]
        omega

/-- **The content of a loop.** -/
def content (feed : τ → List UInt8 → Option (τ × List UInt8)) (codec : Codec υ δ)
    (wrap : Sent → List UInt8) : Content (relay feed codec wrap) where
  remaining := remaining feed codec
  up_eq h w := remaining_up h w
  down_le h w := remaining_down h w
  close_le h := by
    rw [remaining_close h]
    exact Nat.zero_le _
  cost := cost
  progress _ _ h := up_progress h

end Content

end Framed

/-! ## The Vision loop is the one of `Splice` -/

section Simulation

variable {τ : Type} {feed : τ → List UInt8 → Option (τ × List UInt8)}

/-- What a session of `Splice` records beside the state of the loop. -/
structure SessionLog where
  unread : List UInt8
  downlinkDone : Bool
  upstream : List UInt8
  fed : List (List UInt8)
  forwarded : List UInt8
  sent : List Sent

/-- The session in a state of the loop. -/
def Framed.session (s : Framed τ Unpadder (FilterState × Downlink)) (l : SessionLog) :
    Splice τ where
  tls := s.tls
  inbuf := s.inbuf
  unread := l.unread
  unp := s.unp
  filter := s.side.1
  uplinkSpliced := s.unp.direct
  uplinkDone := s.uplinkDone
  downlink := s.side.2
  downlinkDone := l.downlinkDone
  copying := false
  failed := s.failed
  upstream := l.upstream
  fed := l.fed
  forwarded := l.forwarded
  sent := l.sent

variable {s s' : Framed τ Unpadder (FilterState × Downlink)} (l : SessionLog)

/-- The loop goes on while one direction is not spliced. -/
theorem settle_session (h : ¬ (s.unp.direct = true ∧ s.side.2.spliced = true)) :
    (s.session l).settle = s.session l := by
  rw [Splice.settle, if_neg fun hcond => h ⟨hcond.1, hcond.2.1⟩]

/-- Plaintext goes the same way in both. -/
theorem takePlaintext_session (hdirect : s.unp.direct = false) (pt : List UInt8) :
    (s.session l).takePlaintext pt = (s.takePlaintext visionCodec pt).1.session
      { l with upstream := l.upstream ++ (s.takePlaintext visionCodec pt).2 } := by
  rw [Framed.takePlaintext, Splice.takePlaintext]
  split
  · dsimp only
    rw [List.append_nil]
  · dsimp only [visionCodec, Framed.session]
    rw [hdirect, Bool.false_or]
    split <;> rfl

/-- **A step of the uplink is a step of the session**, whose write comes at once. -/
theorem up_simulates {k c rest : List UInt8} (hunread : l.unread = k ++ rest)
    (hup : s.up feed visionCodec k = some (s', c)) :
    ∃ e l', (s.session l).step feed e = some (s'.session l').settle ∧
      l'.upstream = l.upstream ++ c ∧ l'.unread = rest := by
  obtain ⟨hreading, hcases⟩ := Framed.up_cases hup
  have hread : (s.session l).Reading := ⟨hreading.1.1, hreading.2⟩
  have hloop : ¬ (s.unp.direct = true ∧ s.side.2.spliced = true) := hreading.1.2
  have htake : l.unread.take k.length = k := by rw [hunread, List.take_left]
  have hdrop : l.unread.drop k.length = rest := by rw [hunread, List.drop_left]
  have hlen : k.length ≤ l.unread.length := by
    rw [hunread, List.length_append]
    exact Nat.le_add_right _ _
  rcases hcases with ⟨hdirect, hin, rfl, rfl, rfl⟩ | ⟨hdirect, hin, hk, hs, rfl⟩ |
    ⟨hdirect, rfl, total, hrec, hrecord⟩ | ⟨hdirect, hrec, hk, rfl, rfl⟩
  · refine ⟨.raw 0, { l with
      upstream := l.upstream ++ s.inbuf.take readChunk
      forwarded := l.forwarded ++ s.inbuf.take readChunk }, ?_, rfl, hunread⟩
    have hahead : (s.session l).inbuf ≠ [] := hin
    rw [settle_session (s := { s with inbuf := s.inbuf.drop readChunk }) _ hloop, Splice.step,
      if_pos ⟨hread, hdirect⟩, if_pos hahead]
    rfl
  · subst hs
    refine ⟨.raw c.length, { l with
      unread := rest
      upstream := l.upstream ++ c
      forwarded := l.forwarded ++ c }, ?_, rfl, rfl⟩
    rw [settle_session _ hloop, Splice.step, if_pos ⟨hread, hdirect⟩, if_neg fun hne => hne hin,
      if_pos ⟨List.length_pos_iff.mpr hk.1, hk.2, hlen⟩]
    dsimp only [Framed.session]
    rw [htake, hdrop]
    rfl
  · have hframed : s.unp.direct = false := Bool.eq_false_of_not_eq_true hdirect
    have hstep : (s.session l).step feed .record = some ((s.session l).takeRecord feed total) := by
      rw [Splice.step, if_pos ⟨hread, hframed⟩]
      exact congrArg (Option.map _) hrec
    rw [Splice.takeRecord] at hstep
    rw [Framed.takeRecord] at hrecord
    dsimp only [Framed.session] at hstep
    cases hfeed : feed s.tls (s.inbuf.take total) with
    | none =>
      rw [hfeed] at hrecord hstep
      cases hrecord
      refine ⟨.record, l, ?_, (List.append_nil _).symm, hunread⟩
      rw [settle_session (s := { s with failed := true }) _ hloop]
      exact hstep
    | some p =>
      rw [hfeed] at hrecord hstep
      have hplain := takePlaintext_session (s := { s with tls := p.1, inbuf := s.inbuf.drop total })
        { l with fed := l.fed ++ [s.inbuf.take total] } hframed p.2
      dsimp only at hrecord
      rw [hrecord] at hplain
      refine ⟨.record, { l with
        fed := l.fed ++ [s.inbuf.take total]
        upstream := l.upstream ++ c }, ?_, rfl, hunread⟩
      exact hstep.trans (congrArg (fun z => some (Splice.settle z)) hplain)
  · have hframed : s.unp.direct = false := Bool.eq_false_of_not_eq_true hdirect
    refine ⟨.fill k.length, { l with unread := rest }, ?_, (List.append_nil _).symm, rfl⟩
    rw [settle_session (s := { s with inbuf := s.inbuf ++ k }) _ hloop, Splice.step,
      if_pos ⟨hread, hframed, hrec, List.length_pos_iff.mpr hk.1, hk.2, hlen⟩]
    dsimp only [Framed.session]
    rw [htake, hdrop]

/-- **A step of the downlink is a step of the session.** -/
theorem down_simulates (hdone : l.downlinkDone = false) {wrap : Sent → List UInt8} {draw : ℕ}
    {chunk out : List UInt8}
    (hdraw : draw < Vision.drawBound chunk.length (s.side.1.observe chunk).isTls
      Vision.defaultSeed)
    (hdown : s.down visionCodec wrap draw chunk = some (s', out)) :
    ∃ x, (s.session l).step feed (.chunk chunk draw) =
        some (s'.session { l with sent := l.sent ++ [x] }).settle ∧ out = wrap x := by
  rw [Framed.down] at hdown
  split at hdown
  · next hcond =>
    cases hdown
    refine ⟨_, ?_, rfl⟩
    rw [Splice.step, if_pos ⟨hcond.1.1, hdone, hcond.2.1, hcond.2.2, hdraw⟩]
    rfl
  · cases hdown

end Simulation

/-! ## The two relays -/

section Relays

variable {τ : Type} (feed : τ → List UInt8 → Option (τ × List UInt8)) (wrap : Sent → List UInt8)
  (caps : Capacities)

/-- `tls_plain_relay` at the top of its loop, with the ciphertext read so far. -/
def plainStart (tls : τ) (inbuf : List UInt8) : Framed τ Unit Unit :=
  ⟨tls, inbuf, (), (), false, false⟩

/-- `vision_server_splice` before it replays the leftover plaintext. -/
def visionStart (tls : τ) (uuid : Uuid) (inbuf : List UInt8) :
    Framed τ Unpadder (FilterState × Downlink) :=
  ⟨tls, inbuf, Unpadder.new uuid, (.initial, Downlink.new uuid), false, false⟩

/-- `vision_server_splice` at the top of its loop, and what the leftover came to. -/
def visionReplayed (tls : τ) (uuid : Uuid) (leftover inbuf : List UInt8) :
    Framed τ Unpadder (FilterState × Downlink) × List UInt8 :=
  (visionStart tls uuid inbuf).takePlaintext visionCodec leftover

/-- `tls_plain_relay` between its client and its target; `initialToTarget` is written first. -/
def PlainDeadlocks (tls : τ) (initialToTarget inbuf unsent : List UInt8) : Prop :=
  ∃ t, Reaches (Circuit.step (Framed.relay feed plainCodec wrap) caps)
    (Circuit.start (plainStart tls inbuf) initialToTarget unsent) t ∧ t.Deadlocked caps

/-- `vision_server_splice` up to the end of its framed loop. -/
def VisionDeadlocks (tls : τ) (uuid : Uuid) (leftover inbuf unsent : List UInt8) : Prop :=
  ∃ t, Reaches (Circuit.step (Framed.relay feed visionCodec wrap) caps)
    (Circuit.start (visionReplayed tls uuid leftover inbuf).1
      (visionReplayed tls uuid leftover inbuf).2 unsent) t ∧ t.Deadlocked caps

/-- The bytes for the target of `tls_plain_relay`. -/
def plainContent (tls : τ) (initialToTarget inbuf unsent : List UInt8) : List UInt8 :=
  initialToTarget ++ (plainStart tls inbuf).remaining feed plainCodec unsent

/-- The bytes for the target of `vision_server_splice`, if its downlink is never spliced. -/
def visionContent (tls : τ) (uuid : Uuid) (leftover inbuf unsent : List UInt8) : List UInt8 :=
  (visionReplayed tls uuid leftover inbuf).2 ++
    (visionReplayed tls uuid leftover inbuf).1.remaining feed visionCodec unsent

/-- **When the relays live.**  For all links of at least one byte and everything the client
sends: neither relay can be blocked by its own target, by any schedule, exactly if the bytes
for the target fit into the two links between them and the target's hand. -/
theorem relays_live_iff (htoRelay : 0 < caps.toRelay) (htoTarget : 0 < caps.toTarget) :
    (∀ tls initialToTarget inbuf unsent,
      ¬ PlainDeadlocks feed wrap caps tls initialToTarget inbuf unsent ↔
        (plainContent feed tls initialToTarget inbuf unsent).length ≤
          caps.toTarget + caps.fromTarget + 1) ∧
    ∀ tls uuid leftover inbuf unsent,
      ¬ VisionDeadlocks feed wrap caps tls uuid leftover inbuf unsent ↔
        (visionContent feed tls uuid leftover inbuf unsent).length ≤
          caps.toTarget + caps.fromTarget + 1 := by
  constructor
  · intro tls initialToTarget inbuf unsent
    have h := Circuit.deadlock_iff (Framed.content feed plainCodec wrap) htoRelay htoTarget
      (plainStart tls inbuf) initialToTarget unsent
    exact (not_congr h).trans (not_le.trans Nat.lt_succ_iff)
  · intro tls uuid leftover inbuf unsent
    have h := Circuit.deadlock_iff (Framed.content feed visionCodec wrap) htoRelay htoTarget
      (visionReplayed tls uuid leftover inbuf).1 (visionReplayed tls uuid leftover inbuf).2 unsent
    exact (not_congr h).trans (not_le.trans Nat.lt_succ_iff)

end Relays

/-- A TLS that encrypts nothing: the plaintext of a record is what is behind its header. -/
def nullFeed (_ : Unit) (record : List UInt8) : Option (Unit × List UInt8) :=
  some ((), record.drop 5)

/-- Everything goes to the client as it is. -/
def nullWrap (x : Sent) : List UInt8 := x.plaintext ++ x.rawBytes

/-- Links of one byte. -/
def byteLinks : Capacities := ⟨1, 1, 1, 1⟩

/-- Three bytes fit. -/
theorem relays_live_three :
    (plainContent nullFeed () [] [] [23, 3, 3, 0, 3, 1, 2, 3]).length = 3 ∧
      ¬ PlainDeadlocks nullFeed nullWrap byteLinks () [] [] [23, 3, 3, 0, 3, 1, 2, 3] := by
  have h := relays_live_iff nullFeed nullWrap byteLinks Nat.one_pos Nat.one_pos
  exact ⟨rfl, (h.1 () [] [] [23, 3, 3, 0, 3, 1, 2, 3]).mpr le_rfl⟩

/-- Three bytes are pushed towards a target whose answers nobody reads. -/
def pushThree : List (CircuitEvent ℕ) :=
  [.upload 1, .targetRead, .targetWrite, .upload 1, .targetRead, .upload 1]

/-- **Four bytes block both relays**: one record of the client for the plain relay, and
leftover plaintext that is not padded for the Vision loop. -/
theorem relays_block_four :
    PlainDeadlocks nullFeed nullWrap byteLinks () [] [] [23, 3, 3, 0, 4, 1, 2, 3, 4] ∧
      VisionDeadlocks nullFeed nullWrap byteLinks () (List.Vector.replicate 16 1)
        (List.replicate 21 0) [] [] := by
  constructor
  · refine (Circuit.deadlock_iff (Framed.content nullFeed plainCodec nullWrap) Nat.one_pos
      Nat.one_pos (plainStart () []) [] [23, 3, 3, 0, 4, 1, 2, 3, 4]).mpr ?_
    exact le_of_eq (by decide)
  · refine ⟨_, ⟨pushThree, rfl⟩, ?_⟩
    exact ⟨List.cons_ne_nil _ _, le_rfl, Option.some_ne_none _, le_rfl⟩

end Server
end HoldTheDonut
