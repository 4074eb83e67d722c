import HoldTheDonut.Mux.Segmentation
import HoldTheDonut.Vision.RoundTrip

/-!
# `donut-server/src/mux.rs`: the downlink loses nothing

A datagram from the network becomes a Keep frame with its source in it.  Under Vision the
first frame is cut into blocks and padded, the last block says that the padding is over,
and everything after that goes out as it is.

The client undoes the three layers in turn.  `parseFrame_keepFrame` reads a Keep frame
back whatever follows it; `push_revision` takes the padding of the first frame off and
leaves the unpadder passing the rest through; `written_run` says what a relay has written
after any run.  Together they give the responses back, and since the client's pipe does
not see chunks, under any way of cutting what was written.
-/

namespace HoldTheDonut
namespace Mux

open Machine Routing Server Streaming
open Vision (Unpadder Uuid xtlsPadding commandPaddingContinue commandPaddingEnd defaultSeed bufSize
  paddingLen blockBytes)

/-! ## Reading a Keep frame back -/

/-- The address of a response, behind the network byte. -/
theorem readAddr_writeAddr (src : SocketAddr) :
    ∃ used, readAddr ((writeAddr src).drop 1) = some (.ip src, used) := by
  obtain ⟨ip, port⟩ := src
  have hport : UInt16.ofNat (be16 (hi8 port.toNat) (lo8 port.toNat)) = port := by
    rw [be16_hi8_lo8 port.toNat_lt, UInt16.ofNat_toNat]
  cases ip with
  | v4 a =>
    have hlen : (hi8 port.toNat :: lo8 port.toNat :: 0x01 :: a.toList).length = 7 := by simp
    have htake : a.toList.take 4 = a.toList := List.take_of_length_le (by simp)
    refine ⟨7, ?_⟩
    change readAddr (hi8 port.toNat :: lo8 port.toNat :: 0x01 :: a.toList) = _
    unfold readAddr
    rw [if_neg (by omega)]
    simp only [List.getD_cons_zero, List.getD_cons_succ, if_true, List.drop_succ_cons,
      List.drop_zero, htake, Octets.fromSlice_toList, hport]
    rw [if_neg (by omega)]
  | v6 a =>
    have hlen : (hi8 port.toNat :: lo8 port.toNat :: 0x03 :: a.toList).length = 19 := by simp
    have htake : a.toList.take 16 = a.toList := List.take_of_length_le (by simp)
    refine ⟨19, ?_⟩
    change readAddr (hi8 port.toNat :: lo8 port.toNat :: 0x03 :: a.toList) = _
    unfold readAddr
    rw [if_neg (by omega)]
    simp only [List.getD_cons_zero, List.getD_cons_succ, if_true, List.drop_succ_cons,
      List.drop_zero, htake, Octets.fromSlice_toList, hport]
    rw [if_neg (by decide), if_neg (by omega)]

theorem length_writeAddr (src : SocketAddr) :
    (writeAddr src).length = 8 ∨ (writeAddr src).length = 20 := by
  unfold writeAddr
  cases src.ip with
  | v4 a => left; simp
  | v6 a => right; simp

/-- The metadata of a response. -/
def keepMeta (sid : UInt16) (src : SocketAddr) : List UInt8 :=
  [hi8 sid.toNat, lo8 sid.toNat, statusKeep, optionData] ++ writeAddr src

theorem metaTarget_keepMeta (sid : UInt16) (src : SocketAddr) :
    metaTarget (keepMeta sid src) = .ok (some (.ip src)) := by
  have hlen := length_writeAddr src
  obtain ⟨used, hread⟩ := readAddr_writeAddr src
  have hlong : 12 ≤ (keepMeta sid src).length := by
    unfold keepMeta
    rw [List.length_append]
    simp only [List.length_cons, List.length_nil]
    omega
  have hnet : (keepMeta sid src).getD 4 0 = netUdp := rfl
  have hdrop : (keepMeta sid src).drop 5 = (writeAddr src).drop 1 := rfl
  unfold metaTarget
  dsimp only
  rw [if_pos (Or.inr ⟨rfl, by omega, hnet⟩), if_neg (by omega), hdrop, hread]

/-- The payload part of a response. -/
theorem takeData_payload {data : List UInt8} (h : data.length ≤ 65535) (x : List UInt8) :
    takeData optionData ([hi8 data.length, lo8 data.length] ++ data ++ x) =
      some (some data, x) := by
  have hlen : be16 (hi8 data.length) (lo8 data.length) = data.length := be16_hi8_lo8 (by omega)
  unfold takeData
  rw [if_pos (by decide), if_neg (by simp)]
  simp only [List.cons_append, List.nil_append, List.getD_cons_zero, List.getD_cons_succ, hlen,
    List.drop_succ_cons, List.drop_zero]
  rw [if_neg (by simp only [List.length_cons, List.length_append]; omega),
    List.take_left' rfl, Nat.add_comm 2, List.drop_succ_cons, List.drop_succ_cons,
    List.drop_left' rfl]

/-- **A response is read back**, and what follows it is left. -/
theorem parseFrame_keepFrame (sid : UInt16) (src : SocketAddr) {data : List UInt8}
    (h : data.length ≤ 65535) (x : List UInt8) :
    parseFrame (keepFrame sid src data ++ x) =
      .ok (some (⟨sid, statusKeep, some (.ip src), some data⟩, x)) := by
  set n := (keepMeta sid src).length with hn
  have hrange : 4 ≤ n ∧ n ≤ 512 := by
    have hlen := length_writeAddr src
    rw [hn, keepMeta, List.length_append]
    simp only [List.length_cons, List.length_nil]
    omega
  have hhead : be16 (hi8 n) (lo8 n) = n := be16_hi8_lo8 (by omega)
  have hm : MetaBlock ([hi8 n, lo8 n] ++ keepMeta sid src) :=
    ⟨by rw [← hhead] at hrange; exact hrange.1, by rw [← hhead] at hrange; exact hrange.2, by
      change _ = 2 + be16 (hi8 n) (lo8 n)
      rw [List.length_append, hhead, hn]
      rfl⟩
  have hsid : UInt16.ofNat (be16 (hi8 sid.toNat) (lo8 sid.toNat)) = sid := by
    rw [be16_hi8_lo8 sid.toNat_lt, UInt16.ofNat_toNat]
  have hsplit : keepFrame sid src data ++ x = [hi8 n, lo8 n] ++ keepMeta sid src ++
      ([hi8 data.length, lo8 data.length] ++ data ++ x) := by
    change [hi8 n, lo8 n] ++ keepMeta sid src ++ _ ++ _ ++ _ = _
    simp only [List.append_assoc]
  rw [hsplit, parseFrame_append_meta hm, frameOf_eq_ok]
  exact ⟨metaTarget_keepMeta sid src, takeData_payload h x, hsid.symm, rfl⟩

/-! ## Taking the padding off the first frame -/

/-- `chunks` cuts a list into pieces of the size asked for at most. -/
theorem chunksOf_spec (max : ℕ) (hmax : 0 < max) : ∀ (fuel : ℕ) (l : List UInt8),
    l.length ≤ fuel →
      (chunksOf max fuel l).flatten = l ∧ ∀ c ∈ chunksOf max fuel l, c.length ≤ max
  | 0, l, hlen => by
    have hnil : l = [] := List.eq_nil_of_length_eq_zero (Nat.le_zero.mp hlen)
    subst hnil
    exact ⟨rfl, fun c hc => absurd hc List.not_mem_nil⟩
  | fuel + 1, l, hlen => by
    rw [chunksOf]
    split
    · next hnil =>
      subst hnil
      exact ⟨rfl, fun c hc => absurd hc List.not_mem_nil⟩
    · next hne =>
      have hpos : 0 < l.length := List.length_pos_of_ne_nil hne
      obtain ⟨hflat, hsize⟩ := chunksOf_spec max hmax fuel (l.drop max)
        (by rw [List.length_drop]; omega)
      constructor
      · rw [List.flatten_cons, hflat, List.take_append_drop]
      · intro c hc
        rcases List.mem_cons.mp hc with rfl | hc
        · exact List.length_take_le max l
        · exact hsize c hc

/-- What `revision` hands to its loop. -/
theorem revision_eq_loop (uuid : Uuid) (frame : List UInt8) (draw : ℕ → ℕ) :
    ∃ chunks, chunks ≠ [] ∧ chunks.flatten = frame ∧ (∀ c ∈ chunks, c.length < 65536) ∧
      revision uuid frame draw = revisionLoop draw 0 (some uuid) chunks := by
  unfold revision
  split
  · next hnil =>
    subst hnil
    refine ⟨[[]], List.cons_ne_nil _ _, rfl, ?_, ?_⟩
    · intro c hc
      rw [List.mem_singleton.mp hc]
      decide
    · simp only [revisionLoop, if_true, List.append_nil]
  · next hne =>
    obtain ⟨hflat, hsize⟩ := chunksOf_spec (bufSize - 21) (by decide) frame.length frame
      le_rfl
    refine ⟨_, ?_, hflat, ?_, rfl⟩
    · intro hnil
      rw [hnil] at hflat
      exact hne hflat.symm
    · intro c hc
      have hc' : c.length ≤ 8171 := hsize c hc
      omega

theorem paddingLen_toNat_lt (n draw : ℕ) :
    (paddingLen n false defaultSeed draw).toNat < 65536 := by
  have h := Vision.paddingLen_lt n false defaultSeed draw
  omega

/-- **The blocks of a frame, with the UUID already behind.**  The induction is on the
chunks: all but the last lead to another block boundary, the last ends the padding. -/
theorem push_revisionLoop (draw : ℕ → ℕ) (tail : List UInt8) :
    ∀ (chunks : List (List UInt8)), chunks ≠ [] → (∀ c ∈ chunks, c.length < 65536) →
      ∀ (i : ℕ) {u : Unpadder}, u.AtBlock →
        ∃ v : Unpadder, u.push (revisionLoop draw i none chunks ++ tail) =
          (v, chunks.flatten ++ tail)
  | [], hne, _, _, _, _ => absurd rfl hne
  | [c], _, hlen, i, u, hu => by
    have hc := hlen c List.mem_cons_self
    obtain ⟨v, hv, hfin, -⟩ :=
      hu.push_last c (Or.inl rfl) hc (paddingLen_toNat_lt c.length (draw i))
    refine ⟨v, ?_⟩
    have hlast : revisionLoop draw i none [c] =
        blockBytes c commandPaddingEnd (paddingLen c.length false defaultSeed (draw i)).toNat := by
      simp only [revisionLoop, if_true, Vision.xtlsPadding_eq, Option.map_none, Option.getD_none,
        List.nil_append, List.append_nil]
    have hpass : v.push tail = (v, tail) := by
      unfold Unpadder.push
      rw [if_pos hfin]
    rw [hlast, Unpadder.chunkFree_push.append _ _ _ (Or.inr (Or.inr (Or.inr hu.toRunning))), hv,
      andThen, hpass, List.flatten_singleton]
  | c :: d :: chunks, _, hlen, i, u, hu => by
    have hc := hlen c List.mem_cons_self
    obtain ⟨v, hv, hblock⟩ := hu.push_continue c hc (paddingLen_toNat_lt c.length (draw i))
    obtain ⟨w, hw⟩ := push_revisionLoop draw tail (d :: chunks) (List.cons_ne_nil _ _)
      (fun c' hc' => hlen c' (List.mem_cons_of_mem c hc')) (i + 1) hblock
    refine ⟨w, ?_⟩
    have hfirst : revisionLoop draw i none (c :: d :: chunks) =
        blockBytes c commandPaddingContinue
          (paddingLen c.length false defaultSeed (draw i)).toNat ++
          revisionLoop draw (i + 1) none (d :: chunks) := by
      rw [revisionLoop]
      simp only [reduceCtorEq, if_false, Vision.xtlsPadding_eq, Option.map_none, Option.getD_none,
        List.nil_append]
    rw [hfirst, List.append_assoc,
      Unpadder.chunkFree_push.append _ _ _ (Or.inr (Or.inr (Or.inr hu.toRunning))), hv, andThen, hw]
    simp only [List.flatten_cons, List.append_assoc]

/-- **The client's unpadder gives the first frame back and passes the rest through.** -/
theorem push_revision (uuid : Uuid) (frame tail : List UInt8) (draw : ℕ → ℕ) :
    ∃ v : Unpadder, (Unpadder.new uuid).push (revision uuid frame draw ++ tail) =
      (v, frame ++ tail) := by
  obtain ⟨chunks, hne, hflat, hlen, hloop⟩ := revision_eq_loop uuid frame draw
  have huuid : revisionLoop draw 0 (some uuid) chunks =
      uuid.toList ++ revisionLoop draw 0 none chunks := by
    obtain ⟨c, cs, rfl⟩ := List.exists_cons_of_ne_nil hne
    simp only [revisionLoop, Vision.xtlsPadding_eq, Option.map_some, Option.getD_some,
      Option.map_none, Option.getD_none, List.nil_append, List.append_assoc]
  have hfive : 5 ≤ (revisionLoop draw 0 none chunks ++ tail).length := by
    obtain ⟨c, cs, rfl⟩ := List.exists_cons_of_ne_nil hne
    simp only [revisionLoop, Vision.xtlsPadding_eq, blockBytes, List.length_append,
      List.length_cons]
    omega
  obtain ⟨v, hv⟩ := push_revisionLoop draw tail chunks hne hlen 0
    (Unpadder.start_new_atBlock uuid)
  refine ⟨v, ?_⟩
  rw [hloop, huuid, List.append_assoc, Unpadder.push_uuid uuid hfive, hv, hflat]

/-! ## What a run has written -/

/-- A datagram on its way to the client. -/
structure Response where
  sid : UInt16
  src : SocketAddr
  data : List UInt8
  deriving DecidableEq

namespace Response

def bytes (r : Response) : List UInt8 := keepFrame r.sid r.src r.data

/-- The frame the client sees. -/
def frame (r : Response) : Frame := ⟨r.sid, statusKeep, some (.ip r.src), some r.data⟩

end Response

/-- A response that could be written, with the draws for its padding.  The one whose write
fails ends the relay, and the client never gets it. -/
def Event.sent : Event → Option (Response × (ℕ → ℕ))
  | .response sid src data draw ok => if ok then some (⟨sid, src, data⟩, draw) else none
  | _ => none

/-- The writes for a sequence of responses. -/
def downlinkWrites : Option Uuid → List (Response × (ℕ → ℕ)) → List (List UInt8)
  | _, [] => []
  | none, r :: rs => r.1.bytes :: downlinkWrites none rs
  | some uuid, r :: rs => revision uuid r.1.bytes r.2 :: downlinkWrites none rs

section Drain

variable (env : MuxEnv) (router : Router) (outbounds : Outbounds)

/-- Acting on frames writes nothing. -/
theorem dispatch_written (s : Relay) (f : Frame) :
    (dispatch env router outbounds s f).written = s.written ∧
      (dispatch env router outbounds s f).downlinkPad = s.downlinkPad := by
  unfold dispatch
  split_ifs <;> exact ⟨rfl, rfl⟩

theorem drainLoop_written : ∀ (fuel : ℕ) (s : Relay),
    (drainLoop env router outbounds fuel s).written = s.written ∧
      (drainLoop env router outbounds fuel s).downlinkPad = s.downlinkPad
  | 0, _ => ⟨rfl, rfl⟩
  | fuel + 1, s => by
    rw [drainLoop]
    split
    · exact ⟨rfl, rfl⟩
    · exact ⟨rfl, rfl⟩
    · next f rest _ =>
      have hdispatch := dispatch_written env router outbounds { s with inbuf := rest } f
      dsimp only
      split
      · exact hdispatch
      · obtain ⟨hwritten, hpad⟩ := drainLoop_written fuel
          (dispatch env router outbounds { s with inbuf := rest } f)
        exact ⟨hwritten.trans hdispatch.1, hpad.trans hdispatch.2⟩

end Drain

section Relay

variable {env : MuxEnv} {router : Router} {outbounds : Outbounds}

/-- What one event writes: nothing, or the next response, after which nothing is padded. -/
theorem step_written {s t : Relay} {e : Event} (h : step env router outbounds s e = some t) :
    (e.sent = none ∧ t.written = s.written ∧
      (t.downlinkPad = s.downlinkPad ∨ t.ended.isSome = true)) ∨
    ∃ r, e.sent = some r ∧ t.downlinkPad = none ∧
      t.written = s.written ++ downlinkWrites s.downlinkPad [r] := by
  unfold step at h
  split at h
  · cases h
  · cases e with
    | chunk pt =>
      cases h
      obtain ⟨hwritten, hpad⟩ :=
        drainLoop_written env router outbounds (s.feed pt).inbuf.length (s.feed pt)
      exact Or.inl ⟨rfl, hwritten, Or.inl hpad⟩
    | eof =>
      cases h
      exact Or.inl ⟨rfl, rfl, Or.inl rfl⟩
    | readFailed =>
      cases h
      exact Or.inl ⟨rfl, rfl, Or.inl rfl⟩
    | idle =>
      cases h
      exact Or.inl ⟨rfl, rfl, Or.inl rfl⟩
    | response sid src data draw ok =>
      cases ok with
      | false =>
        cases h
        exact Or.inl ⟨rfl, rfl, Or.inr rfl⟩
      | true =>
        cases h
        have hdrain := drainLoop_written env router outbounds
          (s.respond (keepFrame sid src data) draw).inbuf.length
          (s.respond (keepFrame sid src data) draw)
        refine Or.inr ⟨(⟨sid, src, data⟩, draw), rfl, hdrain.2.trans ?_, hdrain.1.trans ?_⟩
        · unfold Relay.respond
          split
          · rfl
          · next hnone => exact hnone
        · unfold Relay.respond
          split
          · next uuid huuid => rw [huuid]; rfl
          · next hnone => rw [hnone]; rfl

/-- After its end a relay takes no event. -/
theorem run_of_ended {s t : Relay} (hs : s.ended.isSome = true) {events : List Event}
    (h : run (step env router outbounds) s events = some t) : events = [] ∧ t = s := by
  cases events with
  | nil => exact ⟨rfl, (Option.some.inj h).symm⟩
  | cons e events =>
    obtain ⟨u, hstep, -⟩ := run_cons_eq_some.mp h
    unfold step at hstep
    rw [if_pos hs] at hstep
    cases hstep

/-- **What a run has written.** -/
theorem written_run : ∀ (events : List Event) {s t : Relay},
    run (step env router outbounds) s events = some t →
      t.written = s.written ++ downlinkWrites s.downlinkPad (events.filterMap Event.sent)
  | [], s, t, h => by
    cases h
    exact (List.append_nil _).symm
  | e :: events, s, t, h => by
    obtain ⟨u, hstep, hrest⟩ := run_cons_eq_some.mp h
    rcases step_written hstep with ⟨hsent, hwritten, hpad | hended⟩ | ⟨r, hsent, hpad, hwritten⟩
    · rw [List.filterMap_cons_none hsent, written_run events hrest, hwritten, hpad]
    · obtain ⟨rfl, rfl⟩ := run_of_ended hended hrest
      rw [List.filterMap_cons_none hsent, hwritten]
      exact (List.append_nil _).symm
    · rw [List.filterMap_cons_some hsent, written_run events hrest, hwritten, hpad,
        List.append_assoc]
      cases s.downlinkPad <;> rfl

end Relay

/-! ## The client -/

/-- The client's side: the unpadder if there is one, then `parse_frame` as often as it
gives a frame. -/
def downlinkPush : Option Unpadder × Except ErrorKind (List UInt8) → List UInt8 →
    (Option Unpadder × Except ErrorKind (List UInt8)) × List Frame :=
  piped devision (Deframe.push frameOrKind)

theorem chunkFree_downlinkPush :
    ChunkFree downlinkPush fun s => (∀ u ∈ s.1, u.Valid) ∧ Deframe.Waiting frameOrKind s.2 :=
  chunkFree_devision.piped stable_frameOrKind.chunkFree

/-- Unpadded, the writes are the frames one after the other. -/
theorem devision_downlinkWrites (visionUuid : Option Uuid) (rs : List (Response × (ℕ → ℕ))) :
    (devision (visionUuid.map Unpadder.new) (downlinkWrites visionUuid rs).flatten).2 =
      ((rs.map Prod.fst).map Response.bytes).flatten := by
  have hraw : ∀ rs : List (Response × (ℕ → ℕ)),
      downlinkWrites none rs = (rs.map Prod.fst).map Response.bytes := by
    intro rs
    induction rs with
    | nil => rfl
    | cons r rs ih => rw [downlinkWrites, ih, List.map_cons, List.map_cons]
  cases visionUuid with
  | none =>
    change (downlinkWrites none rs).flatten = _
    rw [hraw]
  | some uuid =>
    cases rs with
    | nil =>
      change ((Unpadder.new uuid).push []).2 = []
      rw [Unpadder.chunkFree_push.nil _ (Unpadder.valid_new uuid)]
    | cons r rs =>
      obtain ⟨v, hv⟩ := push_revision uuid r.1.bytes ((rs.map Prod.fst).map Response.bytes).flatten
        r.2
      change ((Unpadder.new uuid).push
        (revision uuid r.1.bytes r.2 :: downlinkWrites none rs).flatten).2 = _
      rw [List.flatten_cons, hraw, hv]
      rfl

/-- **The downlink is lossless.**  Whatever else a run does, and whatever was drawn for the
padding, a client that reads what was written, cut in any way, recovers the responses in
order, each with its session, source and data, and has nothing left over. -/
theorem mux_downlink_lossless (env : MuxEnv) (router : Router) (outbounds : Outbounds)
    (visionUuid : Option Uuid) (leftover : List UInt8) (events : List Event) (s : Relay)
    (hrun : run (step env router outbounds)
      (start env router outbounds visionUuid leftover) events = some s)
    (hdata : ∀ r ∈ events.filterMap Event.sent, r.1.data.length ≤ 65535)
    (chunks : List (List UInt8)) (hchunks : chunks.flatten = s.written.flatten) :
    ∃ unp, pushAll downlinkPush (visionUuid.map Unpadder.new, .ok []) chunks =
      ((unp, .ok []), (events.filterMap Event.sent).map fun r => r.1.frame) := by
  have hvalid : ∀ u ∈ visionUuid.map Unpadder.new, u.Valid := (uplinkInv_fresh visionUuid).1
  have hstart : (start env router outbounds visionUuid leftover).written = [] ∧
      (start env router outbounds visionUuid leftover).downlinkPad = visionUuid :=
    drainLoop_written env router outbounds _ _
  have hwritten := written_run events hrun
  rw [hstart.1, hstart.2, List.nil_append] at hwritten
  have hframes := stable_frameOrKind.deframe_flatten Response.bytes Response.frame
    ((events.filterMap Event.sent).map Prod.fst) (by
      intro r hr x
      obtain ⟨r', hr', rfl⟩ := List.mem_map.mp hr
      exact frameOrKind_eq_ok.mpr (parseFrame_keepFrame _ _ (hdata r' hr') x))
  rw [chunkFree_downlinkPush.pushAll_eq ⟨hvalid, stable_frameOrKind.waiting_nil⟩, hchunks, hwritten]
  set writes := (downlinkWrites visionUuid (events.filterMap Event.sent)).flatten
  have hunpadded : (devision (visionUuid.map Unpadder.new) writes).2 = _ :=
    devision_downlinkWrites visionUuid (events.filterMap Event.sent)
  refine ⟨(devision (visionUuid.map Unpadder.new) writes).1, ?_⟩
  unfold downlinkPush piped
  simp only [hunpadded, Deframe.push, List.nil_append, hframes]
  rw [List.map_map]
  rfl

/-- Two responses under Vision, the first padded, what was written cut after seven bytes. -/
def twoResponses : List Event :=
  [.response 7 ⟨.v4 (List.Vector.replicate 4 10), 53⟩ [1, 2, 3] (fun _ => 5) true,
    .chunk [0, 4, 0, 7, 3, 0],
    .response 9 ⟨.v6 (List.Vector.replicate 16 0), 443⟩ [4] (fun _ => 0) true]

theorem mux_downlink_lossless_two :
    ∃ s, run (step openNet blockAll .empty)
        (start openNet blockAll .empty (some (List.Vector.replicate 16 6)) []) twoResponses =
          some s ∧
      ∃ unp, pushAll downlinkPush (some (Unpadder.new (List.Vector.replicate 16 6)), .ok [])
          [s.written.flatten.take 7, s.written.flatten.drop 7] =
        ((unp, .ok []),
          [⟨7, statusKeep, some (.ip ⟨.v4 (List.Vector.replicate 4 10), 53⟩), some [1, 2, 3]⟩,
            ⟨9, statusKeep, some (.ip ⟨.v6 (List.Vector.replicate 16 0), 443⟩), some [4]⟩]) := by
  refine ⟨_, rfl, ?_⟩
  refine mux_downlink_lossless openNet blockAll .empty (some (List.Vector.replicate 16 6)) []
    twoResponses _ rfl ?_ _ ?_
  · intro r hr
    rcases List.mem_cons.mp hr with rfl | hr
    · decide
    · rw [List.mem_singleton.mp hr]
      decide
  · rw [List.flatten_cons, List.flatten_singleton, List.take_append_drop]

end Mux
end HoldTheDonut
