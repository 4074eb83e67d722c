import HoldTheDonut.Server.FragmentWriter

/-!
# A ClientHello in pieces, and a first record that never ends

`fragment_clienthello_to_vec` and `write_fragmented` cut the payload of a ClientHello into
pieces of picked sizes and write each as a record of its own.  The pieces, the records and the
sizes are compared here for every sequence of picks (`fragmentClienthello_exact`).  The
arithmetic of a pick is that of `u32` and panics for one range only, the one that holds
every `u32`.  Neither function looks at the length its input announces, so an input that is too
long for a record is cut as well; the length field of a piece is then its length modulo `2 ^ 16`.

The same holds for an input that is too short.  If the client's stream ends inside its first
record, `read_first_record` returns "whatever was read as `record` with empty `extra` (the
caller writes it through unfragmented)".  The caller writes it with `write_fragmented`, which
takes what starts like a ClientHello for one: the announced length is replaced by the lengths
of the pieces.  So the bytes received are the bytes written exactly if they do not start like
a ClientHello (`truncated_untouched_iff`).
-/

namespace HoldTheDonut
namespace Server

open Interaction Streaming

/-! ## The new form of a ClientHello -/

/-- A handshake record with this version and payload.  Its length field has sixteen bits. -/
def HandshakeRecord (v0 v1 : UInt8) (payload record : List UInt8) : Prop :=
  ∃ hi lo, record = 0x16 :: v0 :: v1 :: hi :: lo :: payload ∧
    be16 hi lo = payload.length % 65536

/-- The payload of `record` is cut into payloads and `out` holds one record for each.  The
sizes are those picked; no size is zero. -/
structure Fragmented (record out : List UInt8) (len : UInt32 × UInt32) (picks : List UInt32)
    (payloads records : List (List UInt8)) : Prop where
  out_eq : out = records.flatten
  each : List.Forall₂ (HandshakeRecord (record.getD 1 0) (record.getD 2 0)) payloads records
  kept : payloads.flatten = record.drop 5
  nonempty : ∀ c ∈ payloads, c ≠ []
  size : ∀ i, ∃ size, pick len (picks.getD i 0) = some size ∧
    (payloads.getD i []).length ≤ max 1 size.toNat

theorem be16_hi8_lo8_mod (n : ℕ) : be16 (hi8 n) (lo8 n) = n % 65536 := by
  unfold be16 hi8 lo8
  rw [UInt8.toNat_ofNat', UInt8.toNat_ofNat']
  omega

theorem handshakeRecord_pieceRecord (v0 v1 : UInt8) (piece : List UInt8) :
    HandshakeRecord v0 v1 piece (pieceRecord v0 v1 piece) :=
  ⟨_, _, rfl, be16_hi8_lo8_mod piece.length⟩

/-- The size of each piece is bounded by its pick. -/
theorem length_getD_pieces {len : UInt32 × UInt32} {fuel : ℕ} {picks : List UInt32}
    {payload : List UInt8} {ps : List (List UInt8)} (h : pieces len fuel picks payload = some ps)
    {i : ℕ} {size : UInt32} (hsize : pick len (picks.getD i 0) = some size) :
    (ps.getD i []).length ≤ max 1 size.toNat := by
  induction fuel generalizing picks payload ps i with
  | zero =>
    rw [← Option.some.inj h]
    exact Nat.zero_le _
  | succ fuel ih =>
    by_cases hne : payload = []
    · rw [hne, pieces_nil] at h
      rw [← Option.some.inj h]
      exact Nat.zero_le _
    · obtain ⟨size', rest, hsize', hrest, rfl⟩ := pieces_eq_some hne h
      cases i with
      | zero =>
        have hsame : size = size' := by
          cases picks <;> exact Option.some.inj (hsize.symm.trans hsize')
        rw [List.getD_cons_zero, List.length_take, hsame]
        omega
      | succ i =>
        rw [List.getD_cons_succ]
        cases picks <;> exact ih hrest hsize

/-- Where no pick panics, there are pieces. -/
theorem RangeFits.exists_pieces {len : UInt32 × UInt32} (h : RangeFits len) (fuel : ℕ)
    (picks : List UInt32) (payload : List UInt8) :
    ∃ ps, pieces len fuel picks payload = some ps := by
  induction fuel generalizing picks payload with
  | zero => exact ⟨[], rfl⟩
  | succ fuel ih =>
    rw [pieces]
    split
    · exact ⟨[], rfl⟩
    · obtain ⟨size, hsize⟩ := h.exists_pick (picks.headD 0)
      obtain ⟨rest, hrest⟩ :=
        ih picks.tail (payload.drop (min (max size.toNat 1) payload.length))
      refine ⟨payload.take (min (max size.toNat 1) payload.length) :: rest, ?_⟩
      simp only [Option.bind_eq_bind, hsize, Option.bind_some, hrest, Option.pure_def]

/-- **A ClientHello is cut into records**, whatever its length. -/
theorem fragmented_fragmentClienthelloToVec {record : List UInt8} (h : IsClientHello record)
    {p : FragmentParams} (hlen : RangeFits p.len) (picks : List UInt32) :
    ∃ out payloads records, fragmentClienthelloToVec record p picks = some out ∧
      Fragmented record out p.len picks payloads records := by
  obtain ⟨ps, hps⟩ := hlen.exists_pieces (record.drop 5).length picks (record.drop 5)
  refine ⟨_, ps, ps.map (pieceRecord (record.getD 1 0) (record.getD 2 0)), ?_, rfl, ?_,
    flatten_pieces hps le_rfl, ne_nil_of_mem_pieces hps, fun i => ?_⟩
  · rw [fragmentClienthelloToVec, if_pos h, pieceLoop_eq, hps]
    rfl
  · rw [List.forall₂_map_right_iff, List.forall₂_same]
    exact fun c _ => handshakeRecord_pieceRecord _ _ c
  · obtain ⟨size, hsize⟩ := hlen.exists_pick (picks.getD i 0)
    exact ⟨size, hsize, length_getD_pieces hps hsize⟩

/-- **Fragmenting keeps a ClientHello.**  No pick panics.  A ClientHello of any length comes
out as records with its version whose payloads, none of them empty or longer than the pick
allows, are its payload; if it fits a record, the length fields are the lengths.  Anything else
is returned as it is, and `write_fragmented` writes the same bytes for the same length picks. -/
theorem fragmentClienthello_exact (record : List UInt8) (p : FragmentParams)
    (picks : List UInt32) (hlen : RangeFits p.len) (hinterval : RangeFits p.intervalMs) :
    (∀ r, pick p.len r ≠ none ∧ pick p.intervalMs r ≠ none) ∧
    (IsClientHello record → ∃ out payloads records,
      fragmentClienthelloToVec record p picks = some out ∧
        Fragmented record out p.len picks payloads records ∧
        (record.length ≤ 65540 → ∀ c ∈ payloads, c.length % 65536 = c.length)) ∧
    (¬ IsClientHello record → fragmentClienthelloToVec record p picks = some record) ∧
    ∀ env, Serves env → ∀ (u : Upstream) (w : Sender), ∃ randoms out,
      fragmentClienthelloToVec record p (lengthRandoms p (record.drop 5).length w.randoms) =
        some out ∧
      exec env (writeFragmented u record p) w =
        (.returned (), { w with randoms := randoms, handed := w.handed ++ out }) := by
  refine ⟨fun r => ⟨fun hnone => pick_eq_none_iff.mp hnone hlen,
    fun hnone => pick_eq_none_iff.mp hnone hinterval⟩, fun hhello => ?_,
    fun hother => if_neg hother,
    fun env henv u w => exec_writeFragmented henv u fun _ => ⟨hlen, Or.inl hinterval⟩⟩
  obtain ⟨out, payloads, records, hout, hcut⟩ :=
    fragmented_fragmentClienthelloToVec hhello hlen picks
  refine ⟨out, payloads, records, hout, hcut, fun hshort c hc => Nat.mod_eq_of_lt ?_⟩
  have hle : c.length ≤ (record.drop 5).length :=
    hcut.kept ▸ (List.sublist_flatten_of_mem hc).length_le
  rw [List.length_drop] at hle
  omega

theorem fragmentClienthello_exact_small :
    RangeFits (1, 2) ∧ RangeFits (0, 0) ∧ ∃ out payloads records,
      fragmentClienthelloToVec [0x16, 3, 1, 0, 3, 1, 2, 3] ⟨(1, 2), (0, 0)⟩ [1, 0] = some out ∧
        Fragmented [0x16, 3, 1, 0, 3, 1, 2, 3] out (1, 2) [1, 0] payloads records := by
  have hlen : RangeFits (1, 2) := by decide
  have hinterval : RangeFits (0, 0) := by decide
  obtain ⟨out, payloads, records, hout, hcut, -⟩ := (fragmentClienthello_exact
    [0x16, 3, 1, 0, 3, 1, 2, 3] ⟨(1, 2), (0, 0)⟩ [1, 0] hlen hinterval).2.1 (by decide)
  exact ⟨hlen, hinterval, out, payloads, records, hout, hcut⟩

/-- An input that announces no payload and has one is cut nevertheless. -/
theorem fragmentClienthelloToVec_ne (n : ℕ) :
    fragmentClienthelloToVec (0x16 :: 3 :: 3 :: 0 :: 0 :: List.replicate (n + 1) 1)
      ⟨(1, 1), (0, 0)⟩ [] ≠ some (0x16 :: 3 :: 3 :: 0 :: 0 :: List.replicate (n + 1) 1) := by
  have hhello : IsClientHello (0x16 :: 3 :: 3 :: 0 :: 0 :: List.replicate (n + 1) 1) :=
    ⟨by simp, rfl, rfl⟩
  intro heq
  obtain ⟨ps, hps, hout⟩ := pieces_of_fragmentClienthelloToVec hhello heq
  simp only [List.drop_succ_cons, List.drop_zero, List.length_replicate] at hps
  obtain ⟨size, rest, hsize, -, rfl⟩ := pieces_eq_some (by simp) hps
  obtain rfl : 1 = size := Option.some.inj hsize
  have hone : min (max (1 : UInt32).toNat 1) (List.replicate (n + 1) (1 : UInt8)).length = 1 := by
    rw [List.length_replicate]
    show min (max 1 1) (n + 1) = 1
    omega
  rw [hone] at hout
  have hfour := congrArg (List.getD · 4 0) hout
  exact absurd hfour (by simp [pieceRecord, lo8])

/-- What is too long for a record and starts like a ClientHello does not stay as it is. -/
theorem fragmentClienthello_oversize :
    ∃ (record : List UInt8) (p : FragmentParams) (picks : List UInt32),
      RangeFits p.len ∧ RangeFits p.intervalMs ∧
      ¬ (6 ≤ record.length ∧ record.length ≤ 65540 ∧ record.getD 0 0 = 0x16 ∧
        record.getD 5 0 = 0x01) ∧
      fragmentClienthelloToVec record p picks ≠ some record := by
  -- the number stays a variable, so that nothing unfolds a list of that length
  obtain ⟨n, hn⟩ : ∃ n, n = 65535 := ⟨_, rfl⟩
  refine ⟨_, ⟨(1, 1), (0, 0)⟩, [], by decide, by decide, fun h => ?_,
    fragmentClienthelloToVec_ne n⟩
  have hlong := h.2.1
  simp only [List.length_cons, List.length_replicate] at hlong
  omega

/-! ## A stream that ends -/

namespace Sender

/-- The answers when the client has closed its side: a read past its last bytes returns no
bytes. -/
def answerClosed (users : UserAuth) (addrs : String → Option (List IpAddr)) :
    (op : Op) → Sender → Option (Ans op × Sender)
  | .readClient, w =>
    match w.chunks with
    | [] => some ((some [] : Option (List UInt8)), w)
    | c :: cs => some ((some c : Option (List UInt8)), { w with chunks := cs })
  | op, w => answer users addrs op w

theorem serves_answerClosed (users : UserAuth) (addrs : String → Option (List IpAddr)) :
    Serves (answerClosed users addrs) where
  readClient h := by
    rw [answerClosed, h]
    rfl
  writeUp _ _ _ := rfl
  random _ := rfl
  sleep _ _ := rfl

end Sender

section Closed

variable (users : UserAuth) (addrs : String → Option (List IpAddr)) {w : Sender}
  {early p : List UInt8} {fuel : ℕ}

/-- A first record cut short is returned as far as it goes, with nothing past it. -/
theorem exec_readFirstRecord_closed (h : Outstanding w fuel early p)
    (hincomplete : ¬ RecordComplete p) :
    exec (Sender.answerClosed users addrs) (readFirstRecord fuel early) w =
      (.returned (p, []), { w with chunks := [] }) := by
  obtain ⟨n, k, next, hn, hnext, hrun⟩ :=
    exec_readFirstRecord_short (Sender.serves_answerClosed users addrs) h hincomplete
  have hread : exec (Sender.answerClosed users addrs) (readAtLeast n (k + 1) p)
      { w with chunks := [] } = (.returned p, { w with chunks := [] }) := by
    rw [readAtLeast, if_neg (Nat.not_le.mpr hn)]
    rfl
  rw [hrun, exec_bind_of_returned _ hread, hnext]
  rfl

/-- It is then written like any first record, unless a pick panics. -/
theorem exec_writeEarly_closed {outbounds : Outbounds} {frag : FragmentParams} (u : Upstream)
    (hfrag : outbounds.fragment = some frag) (h : Outstanding w fuel early p)
    (hincomplete : ¬ RecordComplete p) :
    (∃ randoms picks out, fragmentClienthelloToVec p frag picks = some out ∧
      exec (Sender.answerClosed users addrs) (writeEarly fuel outbounds true u early) w =
        (.returned (), ⟨[], randoms, w.handed ++ out⟩)) ∨
    IsClientHello p ∧ ∃ w',
      exec (Sender.answerClosed users addrs) (writeEarly fuel outbounds true u early) w =
        (.failed .overflow, w') := by
  have henv := Sender.serves_answerClosed users addrs
  have hread := exec_readFirstRecord_closed users addrs h hincomplete
  rw [writeEarly_direct u hfrag, exec_bind_of_returned _ hread]
  by_cases hpicks : IsClientHello p → PicksReturn frag (w.randoms.headD 0) (p.drop 5)
  · obtain ⟨randoms, out, hout, hwrite⟩ :=
      exec_writeFragmented henv (w := { w with chunks := [] }) u hpicks
    refine Or.inl ⟨randoms, _, out, hout, ?_⟩
    rw [exec_bind_of_returned _ hwrite]
    rfl
  · obtain ⟨hhello, hpanics⟩ := Classical.not_imp.mp hpicks
    obtain ⟨w', hwrite⟩ :=
      exec_writeFragmented_overflow henv (w := { w with chunks := [] }) u hhello hpanics
    exact Or.inr ⟨hhello, w', exec_bind_of_failed _ hwrite⟩

end Closed

/-! ## The contract of `read_first_record` -/

/-- Every record adds its header. -/
theorem length_flatMap_pieceRecord (v0 v1 : UInt8) (ps : List (List UInt8)) :
    (ps.flatMap (pieceRecord v0 v1)).length = 5 * ps.length + ps.flatten.length := by
  induction ps with
  | nil => rfl
  | cons c ps ih =>
    rw [List.flatMap_cons, List.length_append, ih, List.flatten_cons, List.length_append,
      List.length_cons]
    show (c.length + 5) + _ = _
    omega

/-- **The new form of a record cut short is another**, unless it is not taken for a ClientHello.
More than one piece has more than one header, and the header of a single piece announces what
is there. -/
theorem fragmentClienthelloToVec_eq_iff {p : List UInt8} (hincomplete : ¬ RecordComplete p)
    (frag : FragmentParams) (picks : List UInt32) :
    fragmentClienthelloToVec p frag picks = some p ↔ ¬ IsClientHello p := by
  refine ⟨fun heq hhello => ?_, fun hother => if_neg hother⟩
  have hsix : 6 ≤ p.length := hhello.1
  have htotal : p.length < 5 + be16 (p.getD 3 0) (p.getD 4 0) :=
    Nat.not_le.mp fun htotal => hincomplete ⟨by omega, htotal⟩
  obtain ⟨ps, hps, hout⟩ := pieces_of_fragmentClienthelloToVec hhello heq
  have hflat := flatten_pieces hps le_rfl
  have hlength := congrArg List.length hout
  rw [length_flatMap_pieceRecord, hflat, List.length_drop] at hlength
  obtain ⟨c, rfl⟩ : ∃ c, ps = [c] := List.length_eq_one_iff.mp (by omega)
  obtain rfl : c = p.drop 5 := by
    rw [← hflat, List.flatten_cons, List.flatten_nil, List.append_nil]
  have hhi : p.getD 3 0 = hi8 (p.drop 5).length := congrArg (List.getD · 3 0) hout
  have hlo : p.getD 4 0 = lo8 (p.drop 5).length := congrArg (List.getD · 4 0) hout
  have hbe : be16 (p.getD 3 0) (p.getD 4 0) = (p.drop 5).length % 65536 := by
    rw [hhi, hlo, be16_hi8_lo8_mod]
  rw [List.length_drop] at hbe
  have hmod := Nat.mod_le (p.length - 5) 65536
  omega

/-- What is asked of the first-record path of a plain flow when the client closes its side
behind its last bytes.  `p` is all the client has sent. -/
structure FirstRecordContract (users : UserAuth) (addrs : String → Option (List IpAddr))
    (fuel : ℕ) (outbounds : Outbounds) (u : Upstream) (leftover : List UInt8) (w : Sender)
    (p : List UInt8) : Prop where
  /-- A record cut short is written through as it is. -/
  truncated : ¬ RecordComplete p → ∃ randoms,
    exec (Sender.answerClosed users addrs) (writeEarly fuel outbounds true u leftover) w =
      (.returned (), ⟨[], randoms, w.handed ++ p⟩)
  /-- Of a whole record nothing that was read is lost. -/
  complete : RecordComplete p → ∃ record extra read rest, w.chunks = read ++ rest ∧
    exec (Sender.answerClosed users addrs) (readFirstRecord fuel leftover) w =
      (.returned (record, extra), { w with chunks := rest }) ∧
    record ++ extra = leftover ++ read.flatten ∧ record.length = recordTotal p

/-- **The contract holds exactly if a record cut short does not start like a ClientHello.** -/
theorem truncated_untouched_iff (users : UserAuth) (addrs : String → Option (List IpAddr))
    {fuel : ℕ} {outbounds : Outbounds} {frag : FragmentParams} (u : Upstream)
    (leftover : List UInt8) {w : Sender} (hfrag : outbounds.fragment = some frag)
    (hne : ∀ c ∈ w.chunks, c ≠ []) (hfuel : w.chunks.length < fuel) :
    FirstRecordContract users addrs fuel outbounds u leftover w (leftover ++ w.chunks.flatten) ↔
      (IsClientHello (leftover ++ w.chunks.flatten) →
        RecordComplete (leftover ++ w.chunks.flatten)) := by
  generalize hp : leftover ++ w.chunks.flatten = p
  have hsent : Outstanding w fuel leftover p := ⟨hne, hfuel, hp⟩
  constructor
  · intro h hhello
    by_contra hincomplete
    obtain ⟨randoms, hrun⟩ := h.truncated hincomplete
    rcases exec_writeEarly_closed users addrs u hfrag hsent hincomplete with
      ⟨randoms', picks, out, hout, hrun'⟩ | ⟨-, w', hrun'⟩
    · have hworld := congrArg (fun r => r.2.handed) (hrun'.symm.trans hrun)
      rw [List.append_cancel_left hworld] at hout
      exact (fragmentClienthelloToVec_eq_iff hincomplete frag picks).mp hout hhello
    · cases hrun'.symm.trans hrun
  · intro h
    refine ⟨fun hincomplete => ?_, fun hcomplete => ?_⟩
    · have hother : ¬ IsClientHello p := fun hhello => hincomplete (h hhello)
      rcases exec_writeEarly_closed users addrs u hfrag hsent hincomplete with
        ⟨randoms, picks, out, hout, hrun⟩ | ⟨hhello, -⟩
      · rw [(fragmentClienthelloToVec_eq_iff hincomplete frag picks).mpr hother] at hout
        rw [← Option.some.inj hout] at hrun
        exact ⟨randoms, hrun⟩
      · exact absurd hhello hother
    · exact exec_readFirstRecord (Sender.serves_answerClosed users addrs) hsent hcomplete

theorem truncated_untouched_iff_short : ∃ (users : UserAuth) (outbounds : Outbounds)
    (u : Upstream), outbounds.fragment = some ⟨(1, 1), (0, 0)⟩ ∧
      (FirstRecordContract users (fun _ => none) 2 outbounds u [0x47] ⟨[[0x45]], [], []⟩
        [0x47, 0x45] ↔ (IsClientHello [0x47, 0x45] → RecordComplete [0x47, 0x45])) :=
  ⟨⟨[]⟩, ⟨∅, some ⟨(1, 1), (0, 0)⟩⟩, .target ⟨.v4 (List.Vector.replicate 4 0), 443⟩ none, rfl,
    truncated_untouched_iff _ _ _ [0x47] rfl (by decide) (by decide)⟩

/-- Seven bytes of a ClientHello of a hundred, and the stream ends: the target is handed two
records of one byte each. -/
theorem truncated_hello_rewritten : ∃ (users : UserAuth) (outbounds : Outbounds) (u : Upstream),
    outbounds.fragment = some ⟨(1, 1), (0, 0)⟩ ∧
    ¬ RecordComplete [0x16, 3, 1, 0, 100, 1, 0] ∧
    (exec (Sender.answerClosed users fun _ => none)
        (writeEarly 1 outbounds true u [0x16, 3, 1, 0, 100, 1, 0]) ⟨[], [], []⟩).2.handed =
      [0x16, 3, 1, 0, 1, 1, 0x16, 3, 1, 0, 1, 0] :=
  ⟨⟨[]⟩, ⟨∅, some ⟨(1, 1), (0, 0)⟩⟩, .target ⟨.v4 (List.Vector.replicate 4 0), 443⟩ none, rfl,
    by decide, by decide⟩

end Server
end HoldTheDonut
