import HoldTheDonut.Interaction.Stream
import HoldTheDonut.Veil.Handshake

/-!
# `donut-server/src/selfsteal.rs`: triage

A connection to the public port is looked at before anything is answered.  `read_client_hello`
reads until the first TLS record is complete and returns its payload, `server_verdict` decides, and
a caller who is no client is relayed to a decoy, beginning with the bytes that were read.

Nothing that was read is lost on the way (`exec_helloLoop`), and that holds of every stream.  The
payload is another matter.  The loop checks what it has twice:

* before a read: is this a handshake record of an acceptable length, and is it complete?
* behind a read: is there more than `MAX_CLIENT_HELLO` and a header?

A record that passes the first check fits into the limit of the second, so what exceeds the limit
is always a complete record *and something behind it*.  The check therefore never stops an
oversized record; what it stops is a record of nearly full size whose last read has brought along
bytes of the next one.  With reads of 2048 bytes that takes a record of at least 14338 bytes and a
stream of at least 16390, and whether it happens is up to the pieces in which the stream arrives
(`triage_iff`).
-/

namespace HoldTheDonut
namespace Server

open Interaction Interaction.Stream
open Veil (Verdict)

/-- TLS handshake content type. -/
def tlsHandshake : UInt8 := 0x16

def maxClientHello : ℕ := 16 * 1024

/-- The buffer of a read. -/
def helloReadSize : ℕ := 2048

inductive TriageError where
  | io

/-- What has become of a connection.  `replay` is what was read of a peer's stream. -/
inductive Triage where
  | tunnel (replay : List UInt8) (authKey : Octets 32)
  | forwarded

/-- The length field of a record header. -/
def helloLen (p : List UInt8) : ℕ := be16 (p.getD 3 0) (p.getD 4 0)

/-- The checks before a read: the payload to return, if they settle it. -/
def settled (p : List UInt8) : Option (List UInt8) :=
  if p ≠ [] ∧ p.getD 0 0 ≠ tlsHandshake then some []
  else if 5 ≤ p.length then
    if helloLen p = 0 ∨ maxClientHello < helloLen p then some []
    else if 5 + helloLen p ≤ p.length then some ((p.drop 5).take (helloLen p))
    else none
  else none

/-- The loop of `read_client_hello`: the payload, and everything that was read. -/
def helloLoop : ℕ → List UInt8 → Prog Op Ans TriageError (List UInt8 × List UInt8)
  | 0, _ => .halt
  | fuel + 1, p =>
    match settled p with
    | some payload => pure (payload, p)
    | none => do
      let bytes ← read .io helloReadSize
      if bytes = [] then pure (p.drop 5, p)
      else if maxClientHello + 5 < (p ++ bytes).length then pure ([], p ++ bytes)
      else helloLoop fuel (p ++ bytes)

def readClientHello (fuel : ℕ) : Prog Op Ans TriageError (List UInt8 × List UInt8) :=
  helloLoop fuel []

/-- `relay_to_dest`, in the direction of the destination.  `connects` says whether there is a
connection to it, and `fuel` how long the two sockets have been spliced. -/
def relayToDest (connects : Bool) (fuel : ℕ) (replay : List UInt8) :
    Prog Op Ans TriageError Unit := do
  orFail .io connects
  writeBytes .io replay
  flush .io
  (copy TriageError.io fuel).ignoring
  shutdown

/-- The end of `triage`, on what `read_client_hello` has returned. -/
def conclude (connects : Bool) (fuel : ℕ) (replay : List UInt8) :
    Verdict → Prog Op Ans TriageError Triage
  | .tunnel authKey => pure (.tunnel replay authKey)
  | .forward => do
    relayToDest connects fuel replay
    pure .forwarded

/-- `triage`, with `server_verdict` of some configuration at some time. -/
def triage (fuel relayFuel : ℕ) (connects : Bool) (verdict : List UInt8 → Verdict) :
    Prog Op Ans TriageError Triage := do
  let r ← readClientHello fuel
  conclude connects relayFuel r.2 (verdict r.1)

/-! ## What was settled stays settled -/

variable {p : List UInt8}

/-- The header is the same with more behind it. -/
theorem helloLen_append (h : 5 ≤ p.length) (x : List UInt8) : helloLen (p ++ x) = helloLen p := by
  unfold helloLen
  rw [List.getD_append _ _ _ _ (by omega), List.getD_append _ _ _ _ (by omega)]

/-- More input does not change what was settled. -/
theorem settled_append {payload : List UInt8} (h : settled p = some payload) (x : List UInt8) :
    settled (p ++ x) = some payload := by
  unfold settled at h ⊢
  have hne : ∀ {q : List UInt8}, q ≠ [] → q ++ x ≠ [] := fun hq => by simp [hq]
  split at h
  · next hother =>
    have hpos : 0 < p.length := List.length_pos_of_ne_nil hother.1
    rw [if_pos ⟨hne hother.1, by rw [List.getD_append _ _ _ _ hpos]; exact hother.2⟩]
    exact h
  · next hsame =>
    split at h
    · next hlen =>
      have hpos : p ≠ [] := List.ne_nil_of_length_pos (by omega)
      have hfirst : (p ++ x).getD 0 0 = p.getD 0 0 := List.getD_append _ _ _ _ (by omega)
      have hlong : 5 ≤ (p ++ x).length := by
        rw [List.length_append]
        omega
      have hkind : ¬(p ++ x ≠ [] ∧ (p ++ x).getD 0 0 ≠ tlsHandshake) := by
        rw [hfirst]
        exact fun hcon => hsame ⟨hpos, hcon.2⟩
      rw [if_neg hkind, if_pos hlong, helloLen_append hlen]
      split at h
      · next hbad =>
        rw [if_pos hbad]
        exact h
      · next hgood =>
        rw [if_neg hgood]
        split at h
        · next hfull =>
          rw [if_pos (by rw [List.length_append]; omega), List.drop_append_of_le_length hlen,
            List.take_append_of_le_length (by rw [List.length_drop]; omega)]
          exact h
        · cases h
    · cases h

theorem settled_none_of_append {x : List UInt8} (h : settled (p ++ x) = none) :
    settled p = none := by
  cases hp : settled p with
  | none => rfl
  | some payload =>
      rw [settled_append hp x] at h
      cases h

/-- What is not settled is a beginning of a handshake record of acceptable length. -/
theorem settled_eq_none (h : settled p = none) :
    p.length < 5 ∨
      (5 ≤ p.length ∧ p.getD 0 0 = tlsHandshake ∧ helloLen p ≤ maxClientHello ∧
        p.length < 5 + helloLen p) := by
  unfold settled at h
  split at h
  · cases h
  · next hsame =>
    split at h
    · next hlen =>
      have hpos : p ≠ [] := List.ne_nil_of_length_pos (by omega)
      have hkind : p.getD 0 0 = tlsHandshake := not_not.mp fun hcon => hsame ⟨hpos, hcon⟩
      split at h
      · cases h
      · next hgood =>
        split at h
        · cases h
        · next hfull => exact Or.inr ⟨hlen, hkind, by omega, by omega⟩
    · next hlen => exact Or.inl (by omega)

/-! ## What the loop returns -/

/-- What the stream holds for `read_client_hello`, without the limit behind the read. -/
def helloPayload (s : List UInt8) : List UInt8 := (settled s).getD (s.drop 5)

/-- The stream begins with a complete handshake record of 1 to 16384 bytes. -/
def StartsWithRecord (s : List UInt8) : Prop :=
  s.getD 0 0 = tlsHandshake ∧ 1 ≤ helloLen s ∧ helloLen s ≤ maxClientHello ∧
    5 + helloLen s ≤ s.length

/-- One read can bring the record's last byte and so much behind it that the limit is exceeded. -/
def Overshoots (s : List UInt8) : Prop :=
  s.getD 0 0 = tlsHandshake ∧ 14338 ≤ helloLen s ∧ helloLen s ≤ maxClientHello ∧
    maxClientHello + 5 < s.length

variable {s : List UInt8}

theorem settled_of_startsWithRecord (h : StartsWithRecord s) :
    settled s = some ((s.drop 5).take (helloLen s)) := by
  obtain ⟨hkind, hpos, hmax, hfull⟩ := h
  unfold settled
  rw [if_neg fun hcon => hcon.2 hkind, if_pos (by omega), if_neg (by omega), if_pos hfull]

theorem Overshoots.startsWithRecord (h : Overshoots s) : StartsWithRecord s := by
  obtain ⟨hkind, hlow, hmax, hlen⟩ := h
  exact ⟨hkind, by omega, hmax, by omega⟩

/-- A read that exceeds the limit has found a large record not yet complete. -/
theorem overshoots_of_exceeds {front rest : List UInt8} (hp : settled p = none)
    (hfront : front.length ≤ helloReadSize) (hover : maxClientHello + 5 < (p ++ front).length) :
    Overshoots (p ++ (front ++ rest)) := by
  have hmax : maxClientHello = 16384 := rfl
  have hsize : helloReadSize = 2048 := rfl
  rw [List.length_append] at hover
  rcases settled_eq_none hp with hshort | ⟨hlen, hkind, hle, hopen⟩
  · omega
  · refine ⟨?_, ?_, ?_, ?_⟩
    · rw [List.getD_append _ _ _ _ (by omega)]
      exact hkind
    · rw [helloLen_append hlen]
      omega
    · rw [helloLen_append hlen]
      exact hle
    · rw [List.length_append, List.length_append]
      omega

/-- **Whatever the loop returns, what it has read and what it has left are the stream.**  The
payload is the stream's, unless the limit can be exceeded. -/
theorem exec_helloLoop (fuel : ℕ) (p : List UInt8) {rest : List UInt8}
    (hfuel : rest.length < fuel) {w : World} (h : w.Holds rest) :
    ∃ payload bytes left cs, rest = bytes ++ left ∧ (w.withChunks cs).Holds left ∧
      exec World.answer (helloLoop fuel p) w =
        (.returned (payload, p ++ bytes), w.withChunks cs) ∧
      (payload = helloPayload (p ++ rest) ∨ Overshoots (p ++ rest)) := by
  induction fuel generalizing p rest w with
  | zero => exact absurd hfuel (Nat.not_lt_zero _)
  | succ fuel ih =>
      rw [helloLoop]
      cases hp : settled p with
      | some payload =>
          refine ⟨payload, [], rest, w.chunks, rfl, h, ?_, Or.inl ?_⟩
          · rw [List.append_nil]
            rfl
          · rw [helloPayload, settled_append hp rest]
            rfl
      | none =>
          by_cases hrest : rest = []
          · subst hrest
            refine ⟨p.drop 5, [], [], w.chunks, rfl, h, ?_, Or.inl ?_⟩
            · dsimp only
              rw [exec_bind_of_returned _ (exec_read_nil _ h helloReadSize), if_pos rfl,
                List.append_nil]
              rfl
            · rw [List.append_nil, helloPayload, hp]
              rfl
          · obtain ⟨front, tail, cs, rfl, hfront, hlen, hholds, hread⟩ :=
              exec_read TriageError.io h hrest (show 0 < helloReadSize by decide)
            dsimp only
            rw [exec_bind_of_returned _ hread, if_neg hfront]
            split
            · next hover =>
              exact ⟨[], front, tail, cs, rfl, hholds, rfl,
                Or.inr (overshoots_of_exceeds hp hlen hover)⟩
            · have hfpos : 0 < front.length := List.length_pos_of_ne_nil hfront
              rw [List.length_append] at hfuel
              obtain ⟨payload, bytes, left, cs', rfl, hholds', hrun, hpayload⟩ :=
                ih (p ++ front) (by omega) hholds
              refine ⟨payload, front ++ bytes, left, cs', (List.append_assoc _ _ _).symm, hholds',
                ?_, ?_⟩
              · rw [hrun, List.append_assoc]
                rfl
              · rwa [List.append_assoc] at hpayload

/-! ## Exceeding the limit -/

/-- A header of an acceptable length settles nothing before the record is complete. -/
theorem settled_of_open {p : List UInt8} (hlen : 5 ≤ p.length)
    (hkind : p.getD 0 0 = tlsHandshake) (hpos : 1 ≤ helloLen p)
    (hmax : helloLen p ≤ maxClientHello) (hopen : p.length < 5 + helloLen p) :
    settled p = none := by
  unfold settled
  rw [if_neg fun hcon => hcon.2 hkind, if_pos hlen, if_neg (by omega), if_neg (by omega)]

theorem exec_helloLoop_read {fuel : ℕ} {c : List UInt8} {cs : List (List UInt8)} (w : World)
    (hp : settled p = none) (hc : c ≠ []) :
    exec World.answer (helloLoop (fuel + 1) p) (w.withChunks (c :: cs)) =
      exec World.answer
        (if maxClientHello + 5 < (p ++ c.take helloReadSize).length then
          pure ([], p ++ c.take helloReadSize)
        else helloLoop fuel (p ++ c.take helloReadSize))
        (w.withChunks (takeChunk helloReadSize (c :: cs)).2) := by
  have hfront : (takeChunk helloReadSize (c :: cs)).1 = c.take helloReadSize := by
    rw [takeChunk]
    split
    · next hfits => exact (List.take_of_length_le hfits).symm
    · rfl
  have hread : exec World.answer (read TriageError.io helloReadSize) (w.withChunks (c :: cs)) =
      (.returned (c.take helloReadSize),
        w.withChunks (takeChunk helloReadSize (c :: cs)).2) := by
    rw [← hfront]
    rfl
  have hne : c.take helloReadSize ≠ [] := by
    simp [hc, helloReadSize]
  rw [helloLoop, hp]
  dsimp only
  rw [exec_bind_of_returned _ hread, if_neg hne]

/-- A piece that settles nothing and keeps to the limit is read to its end. -/
theorem exec_helloLoop_piece (fuel : ℕ) (p c : List UInt8) (cs : List (List UInt8)) (w : World)
    (hc : c ≠ []) (hopen : settled (p ++ c) = none)
    (hlimit : (p ++ c).length ≤ maxClientHello + 5) (hfuel : c.length ≤ fuel) :
    ∃ fuel', fuel ≤ fuel' + c.length ∧
      exec World.answer (helloLoop fuel p) (w.withChunks (c :: cs)) =
        exec World.answer (helloLoop fuel' (p ++ c)) (w.withChunks cs) := by
  induction fuel generalizing p c with
  | zero =>
      exact absurd (List.eq_nil_of_length_eq_zero (Nat.le_zero.mp hfuel)) hc
  | succ fuel ih =>
      have hpos : 0 < c.length := List.length_pos_of_ne_nil hc
      have hsize : helloReadSize = 2048 := rfl
      have htake : (p ++ c.take helloReadSize).length ≤ maxClientHello + 5 := by
        rw [List.length_append] at hlimit ⊢
        have := List.length_take_le' helloReadSize c
        omega
      rw [exec_helloLoop_read w (settled_none_of_append hopen) hc, if_neg (by omega)]
      by_cases hfits : c.length ≤ helloReadSize
      · refine ⟨fuel, by omega, ?_⟩
        rw [List.take_of_length_le hfits, takeChunk, if_pos hfits]
      · have hsplit : (p ++ c.take helloReadSize) ++ c.drop helloReadSize = p ++ c := by
          rw [List.append_assoc, List.take_append_drop]
        have hdrop : (c.drop helloReadSize).length = c.length - helloReadSize :=
          List.length_drop
        obtain ⟨fuel', hle, hrun⟩ := ih (p ++ c.take helloReadSize) (c.drop helloReadSize)
          (List.ne_nil_of_length_pos (by omega)) (by rwa [hsplit]) (by rwa [hsplit]) (by omega)
        refine ⟨fuel', by omega, ?_⟩
        rw [takeChunk, if_neg hfits]
        dsimp only
        rw [hrun, hsplit]

/-- Two pieces: the first settles nothing, and the read behind it exceeds the limit. -/
theorem exec_readClientHello_exceeds (fuel : ℕ) {d : List UInt8} (w : World) (hp : p ≠ [])
    (hd : d ≠ []) (hopen : settled p = none) (hlimit : p.length ≤ maxClientHello + 5)
    (hover : maxClientHello + 5 < (p ++ d.take helloReadSize).length) (hfuel : p.length < fuel) :
    ∃ w', exec World.answer (readClientHello fuel) (w.withChunks [p, d]) =
      (.returned ([], p ++ d.take helloReadSize), w') := by
  obtain ⟨fuel', hle, hrun⟩ := exec_helloLoop_piece fuel [] p [d] w hp hopen hlimit (by omega)
  obtain ⟨n, rfl⟩ : ∃ n, fuel' = n + 1 := ⟨fuel' - 1, by omega⟩
  refine ⟨w.withChunks (takeChunk helloReadSize [d]).2, ?_⟩
  rw [readClientHello, hrun, List.nil_append, exec_helloLoop_read w hopen hd, if_pos hover]
  rfl

/-- **All of a large record but its last byte, and then the rest**: the limit is exceeded and the
payload is empty. -/
theorem exec_readClientHello_overshoot (h : Overshoots s) (w : World) {fuel : ℕ}
    (hfuel : s.length < fuel) :
    ∃ cs replay w', (w.withChunks cs).Holds s ∧
      exec World.answer (readClientHello fuel) (w.withChunks cs) =
        (.returned ([], replay), w') := by
  obtain ⟨hkind, hlow, hmax, hlen⟩ := h
  have hlimit : maxClientHello = 16384 := rfl
  have hsize : helloReadSize = 2048 := rfl
  obtain ⟨p, d, rfl, hplen⟩ : ∃ p d, s = p ++ d ∧ p.length = 4 + helloLen s :=
    ⟨s.take (4 + helloLen s), s.drop (4 + helloLen s), (List.take_append_drop _ _).symm,
      List.length_take_of_le (by omega)⟩
  -- the header is in the first piece
  have hheader : 5 ≤ p.length := by omega
  rw [helloLen_append hheader] at hlow hmax hplen
  rw [List.getD_append _ _ _ _ (by omega)] at hkind
  rw [List.length_append] at hlen hfuel
  have hp : p ≠ [] := List.ne_nil_of_length_pos (by omega)
  have hd : d ≠ [] := List.ne_nil_of_length_pos (by omega)
  have hopen : settled p = none :=
    settled_of_open (by omega) hkind (by omega) hmax (by omega)
  have hover : maxClientHello + 5 < (p ++ d.take helloReadSize).length := by
    rw [List.length_append, List.length_take]
    omega
  obtain ⟨w', hrun⟩ :=
    exec_readClientHello_exceeds fuel w hp hd hopen (by omega) hover (by omega)
  refine ⟨[p, d], p ++ d.take helloReadSize, w', ⟨?_, ?_⟩, hrun⟩
  · simp [World.withChunks]
  · simp [World.withChunks, hp, hd]

/-! ## Triage -/

/-- Whatever pieces the stream arrives in, the payload is the same, and that of the record if there
is a complete one. -/
def SegmentationFree (s : List UInt8) : Prop :=
  ∃ payload, (StartsWithRecord s → payload = (s.drop 5).take (helloLen s)) ∧
    ∀ (w : World) (fuel : ℕ), w.Holds s → s.length < fuel →
      ∃ replay w', exec World.answer (readClientHello fuel) w = (.returned (payload, replay), w')

/-- What was read and what is left are the stream, when a peer's connection is handed over and at
every moment of a relay to the destination. -/
def Transparent (s : List UInt8) : Prop :=
  ∀ (verdict : List UInt8 → Verdict) (w : World) (fuel : ℕ), w.Holds s → w.out = [] →
    s.length < fuel →
    ∃ payload replay left v,
      exec World.answer (readClientHello fuel) w = (.returned (payload, replay), v) ∧
      replay ++ left = s ∧ v.Holds left ∧
      match verdict payload with
      | .tunnel authKey => ∀ relayFuel connects,
          exec World.answer (triage fuel relayFuel connects verdict) w =
            (.returned (.tunnel replay authKey), v)
      | .forward => ∀ relayFuel, ∃ stop w' unrelayed,
          exec World.answer (triage fuel relayFuel true verdict) w = (stop, w') ∧
          w'.out ++ unrelayed = s ∧ w'.Holds unrelayed ∧
          (s.length < relayFuel → stop = .returned .forwarded ∧ unrelayed = [])

/-- The relay writes what was read and goes on with what is left. -/
theorem exec_relayToDest {w : World} {left : List UInt8} (replay : List UInt8) (fuel : ℕ)
    (h : w.Holds left) (hout : w.out = []) :
    ∃ stop w' unrelayed,
      exec World.answer (conclude true fuel replay .forward) w = (stop, w') ∧
      w'.out ++ unrelayed = replay ++ left ∧ w'.Holds unrelayed ∧
      (left.length < fuel → stop = .returned .forwarded ∧ unrelayed = []) := by
  obtain ⟨stop, written, rest, cs, rfl, hholds, hcopy, hstop, hend⟩ :=
    exec_copy_part TriageError.io fuel (h.wrote replay)
  have hsum : (((w.wrote replay).withChunks cs).wrote written).out ++ rest =
      replay ++ (written ++ rest) := by
    simp [World.wrote, World.withChunks, hout]
  have hrelay : exec World.answer (relayToDest true fuel replay) w =
      exec World.answer ((copy TriageError.io fuel).ignoring >>= fun _ => shutdown)
        (w.wrote replay) := rfl
  rcases hstop with rfl | rfl
  · rw [exec_bind_of_halted _ (exec_ignoring_of_halted hcopy)] at hrelay
    refine ⟨.halted, _, rest, exec_bind_of_halted _ hrelay, hsum, hholds.wrote written,
      fun hlong => ?_⟩
    exact absurd rfl (hend hlong).1
  · rw [exec_bind_of_returned _ (exec_ignoring_of_returned hcopy)] at hrelay
    refine ⟨.returned .forwarded,
      { ((w.wrote replay).withChunks cs).wrote written with shut := true }, rest, ?_, hsum,
      ⟨hholds.flatten_eq, hholds.nonempty⟩, fun hlong => ⟨rfl, (hend hlong).2⟩⟩
    exact exec_bind_of_returned _ hrelay

/-- **Triage keeps every byte, of every stream.** -/
theorem transparent (s : List UInt8) : Transparent s := by
  intro verdict w fuel h hout hfuel
  obtain ⟨payload, replay, left, cs, rfl, hholds, hrun, -⟩ := exec_helloLoop fuel [] hfuel h
  rw [List.nil_append] at hrun
  refine ⟨payload, replay, left, w.withChunks cs, hrun, rfl, hholds, ?_⟩
  have htriage : ∀ relayFuel connects,
      exec World.answer (triage fuel relayFuel connects verdict) w =
        exec World.answer (conclude connects relayFuel replay (verdict payload))
          (w.withChunks cs) :=
    fun relayFuel connects => exec_bind_of_returned _ hrun
  cases hverdict : verdict payload with
  | tunnel authKey =>
      intro relayFuel connects
      rw [htriage, hverdict]
      rfl
  | forward =>
      intro relayFuel
      obtain ⟨stop, w', unrelayed, hrelay, hsum, hleft, hend⟩ :=
        exec_relayToDest replay relayFuel hholds hout
      refine ⟨stop, w', unrelayed, ?_, hsum, hleft, fun hlong => hend ?_⟩
      · rw [htriage, hverdict, hrelay]
      · rw [List.length_append] at hlong
        omega

theorem segmentationFree_of_not_overshoots (h : ¬Overshoots s) :
    SegmentationFree s := by
  refine ⟨helloPayload s, fun hrecord => ?_, fun w fuel hw hfuel => ?_⟩
  · rw [helloPayload, settled_of_startsWithRecord hrecord]
    rfl
  · obtain ⟨payload, bytes, left, cs, -, -, hrun, hpayload⟩ := exec_helloLoop fuel [] hfuel hw
    obtain rfl : payload = helloPayload s := hpayload.resolve_right h
    exact ⟨_, _, hrun⟩

theorem not_segmentationFree_of_overshoots (h : Overshoots s) :
    ¬SegmentationFree s := by
  rintro ⟨payload, hrecord, hall⟩
  obtain ⟨cs, replay, w', hholds, hrun⟩ :=
    exec_readClientHello_overshoot h ⟨[], [], [], false⟩ (Nat.lt_succ_self s.length)
  obtain ⟨replay', v, hrun'⟩ := hall _ _ hholds (Nat.lt_succ_self s.length)
  rw [hrun] at hrun'
  -- the payload returned is empty, and the record's is not
  obtain rfl : [] = payload := by
    injection hrun' with hstop
    injection hstop with hpair
    exact congrArg Prod.fst hpair
  have hlen := congrArg List.length (hrecord h.startsWithRecord)
  obtain ⟨-, hpos, -, hfull⟩ := h.startsWithRecord
  rw [List.length_nil, List.length_take, List.length_drop] at hlen
  omega

/-- **Triage is transparent on every stream, and independent of how the stream is cut on those
which cannot exceed the limit.** -/
theorem triage_iff (s : List UInt8) : SegmentationFree s ∧ Transparent s ↔ ¬Overshoots s :=
  ⟨fun h hover => not_segmentationFree_of_overshoots hover h.1,
    fun h => ⟨segmentationFree_of_not_overshoots h, transparent s⟩⟩

/-- A handshake record of full size, and one byte of the next. -/
def fullRecord : List UInt8 := [0x16, 0x03, 0x01, 0x40, 0x00] ++ List.replicate 16385 0x01

theorem length_fullRecord : fullRecord.length = 16390 := by
  rw [fullRecord, List.length_append, List.length_replicate, List.length_cons, List.length_cons,
    List.length_cons, List.length_cons, List.length_singleton]

theorem fullRecord_overshoots : Overshoots fullRecord := by
  have hhead : helloLen fullRecord = 16384 :=
    (helloLen_append (by decide) _).trans (by decide)
  refine ⟨?_, ?_, ?_, ?_⟩
  · rfl
  · omega
  · exact le_of_eq hhead
  · rw [length_fullRecord]
    decide

/-- The record is complete, and yet there are pieces in which it is taken for none. -/
theorem triage_loses_full_record :
    StartsWithRecord fullRecord ∧
      ∃ w replay w', World.Holds w fullRecord ∧
        exec World.answer (readClientHello 20000) w = (.returned ([], replay), w') := by
  refine ⟨fullRecord_overshoots.startsWithRecord, ?_⟩
  have hlen : fullRecord.length < 20000 := by
    rw [length_fullRecord]
    decide
  obtain ⟨cs, replay, w', hholds, hrun⟩ :=
    exec_readClientHello_overshoot fullRecord_overshoots ⟨[], [], [], false⟩ hlen
  exact ⟨_, replay, w', hholds, hrun⟩

end Server
end HoldTheDonut
