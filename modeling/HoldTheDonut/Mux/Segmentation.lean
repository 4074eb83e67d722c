import HoldTheDonut.Mux.Relay
import HoldTheDonut.Streaming.Deframe
import HoldTheDonut.Vision.Chunking

/-!
# `donut-server/src/mux.rs`: the uplink does not see its chunks

A frame has a metadata block of a stated length, an address inside it and a payload behind
it, and any of the three may straddle two reads.  `parseFrame` is called again from the
start on the longer buffer, so what matters is that an answer other than "wait" is final.

A buffer begins with a complete metadata block or it does not (`parseFrame_cases`), and
behind a complete block only `takeData` looks at what follows (`parseFrame_append_meta`).
Everything about longer and shorter buffers comes from these two.  One thing does change
with the buffer: the error for a bad metadata length quotes the first sixteen bytes of it.
`MuxError.kind` is the error without that quotation.

The relay is then a pipe of two transducers, the unpadder and the loop around
`uplinkFrame`, and `uplink_run` says so for every run: whatever else happens in between,
the frames it has acted on are what the pipe emits for the bytes it has read.
-/

namespace HoldTheDonut
namespace Mux

open Machine Routing Server Streaming
open Vision (Unpadder Uuid)

/-! ## Errors, without what they quote -/

/-- What went wrong. -/
inductive ErrorKind where
  | badMetaLength (metaLen : ℕ)
  | metaTruncated
  | addrParse
  | unknownStatus
  deriving DecidableEq

def MuxError.kind : MuxError → ErrorKind
  | .badMetaLength metaLen _ => .badMetaLength metaLen
  | .metaTruncated => .metaTruncated
  | .addrParse => .addrParse
  | .unknownStatus => .unknownStatus

/-- `parse_frame`, its error without the quotation. -/
def frameOrKind : Deframer UInt8 ErrorKind Frame :=
  fun buf => (parseFrame buf).mapError MuxError.kind

/-- The relay acts on four kinds of frames only. -/
def checkStatus (f : Frame) : Option ErrorKind :=
  if f.status = statusNew ∨ f.status = statusKeep ∨ f.status = statusEnd ∨
      f.status = statusKeepalive then none
  else some .unknownStatus

/-- A frame the relay acts on. -/
def uplinkFrame : Deframer UInt8 ErrorKind Frame := Deframe.checked frameOrKind checkStatus

/-! ## Behind the metadata -/

/-- What `parseFrame` makes of complete metadata and what follows it. -/
def frameOf (frameMeta tail : List UInt8) : Except MuxError (Option (Frame × List UInt8)) :=
  match metaTarget frameMeta with
  | .error e => .error e
  | .ok target =>
    match takeData (frameMeta.getD 3 0) tail with
    | none => .ok none
    | some (data, rest) =>
      .ok (some (⟨UInt16.ofNat (be16 (frameMeta.getD 0 0) (frameMeta.getD 1 0)),
        frameMeta.getD 2 0, target, data⟩, rest))

/-- A metadata block with its length in front. -/
structure MetaBlock (m : List UInt8) : Prop where
  four_le : 4 ≤ be16 (m.getD 0 0) (m.getD 1 0)
  le_max : be16 (m.getD 0 0) (m.getD 1 0) ≤ 512
  length_eq : m.length = 2 + be16 (m.getD 0 0) (m.getD 1 0)

/-- The length field of a buffer that has one. -/
theorem metaLen_append (buf : List UInt8) (h : 2 ≤ buf.length) (x : List UInt8) :
    be16 ((buf ++ x).getD 0 0) ((buf ++ x).getD 1 0) = be16 (buf.getD 0 0) (buf.getD 1 0) := by
  rw [List.getD_append _ _ _ _ (by omega), List.getD_append _ _ _ _ (by omega)]

theorem metaLen_take (buf : List UInt8) {n : ℕ} (h : 2 ≤ n) (hn : n ≤ buf.length) :
    be16 ((buf.take n).getD 0 0) ((buf.take n).getD 1 0) = be16 (buf.getD 0 0) (buf.getD 1 0) := by
  have hcut : (buf.take n).length = n := List.length_take_of_le hn
  have hhead := metaLen_append (buf.take n) (by omega) (buf.drop n)
  rw [List.take_append_drop] at hhead
  exact hhead.symm

/-- **Behind a complete metadata block only the payload is looked at.** -/
theorem parseFrame_append_meta {m : List UInt8} (hm : MetaBlock m) (tail : List UInt8) :
    parseFrame (m ++ tail) = frameOf (m.drop 2) tail := by
  have h4 := hm.four_le
  have hmax := hm.le_max
  have hlen := hm.length_eq
  have hhead := metaLen_append m (by omega) tail
  have hmeta : ((m ++ tail).drop 2).take (be16 (m.getD 0 0) (m.getD 1 0)) = m.drop 2 := by
    rw [List.drop_append_of_le_length (by omega)]
    refine List.take_left' ?_
    rw [List.length_drop]
    omega
  have htail : (m ++ tail).drop (2 + be16 (m.getD 0 0) (m.getD 1 0)) = tail :=
    List.drop_left' hlen
  unfold parseFrame
  rw [if_neg (by rw [List.length_append]; omega)]
  simp only [hhead, hmeta, htail]
  rw [if_neg (by omega), if_neg (by rw [List.length_append]; omega)]
  rfl

/-- A buffer is too short, or states an impossible length, or begins with complete
metadata. -/
theorem parseFrame_cases (buf : List UInt8) :
    parseFrame buf = .ok none ∨
    (2 ≤ buf.length ∧ (be16 (buf.getD 0 0) (buf.getD 1 0) < 4 ∨
        512 < be16 (buf.getD 0 0) (buf.getD 1 0))) ∨
    ∃ m tail, MetaBlock m ∧ buf = m ++ tail := by
  by_cases h2 : buf.length < 2
  · left
    unfold parseFrame
    rw [if_pos h2]
  by_cases hbad : be16 (buf.getD 0 0) (buf.getD 1 0) < 4 ∨ 512 < be16 (buf.getD 0 0) (buf.getD 1 0)
  · exact Or.inr (Or.inl ⟨by omega, hbad⟩)
  by_cases hlen : buf.length < 2 + be16 (buf.getD 0 0) (buf.getD 1 0)
  · left
    unfold parseFrame
    simp only [if_neg h2, if_neg hbad, if_pos hlen]
  · set n := be16 (buf.getD 0 0) (buf.getD 1 0) with hn
    have hcut : (buf.take (2 + n)).length = 2 + n := List.length_take_of_le (by omega)
    have hhead := metaLen_take buf (n := 2 + n) (by omega) (by omega)
    rw [← hn] at hhead
    have hm : MetaBlock (buf.take (2 + n)) :=
      ⟨by rw [hhead]; omega, by rw [hhead]; omega, by rw [hhead, hcut]⟩
    exact Or.inr (Or.inr ⟨_, _, hm, (List.take_append_drop (2 + n) buf).symm⟩)

variable {buf : List UInt8}

/-- An impossible length is reported with what the buffer begins with. -/
theorem parseFrame_of_bad (h2 : 2 ≤ buf.length)
    (hbad : be16 (buf.getD 0 0) (buf.getD 1 0) < 4 ∨ 512 < be16 (buf.getD 0 0) (buf.getD 1 0)) :
    parseFrame buf =
      .error (.badMetaLength (be16 (buf.getD 0 0) (buf.getD 1 0)) (buf.take 16)) := by
  unfold parseFrame
  rw [if_neg (by omega)]
  simp only [if_pos hbad]

/-! ## Longer buffers -/

theorem takeData_append {option : UInt8} {tail rest : List UInt8} {data : Option (List UInt8)}
    (h : takeData option tail = some (data, rest)) (x : List UInt8) :
    takeData option (tail ++ x) = some (data, rest ++ x) := by
  unfold takeData at h ⊢
  split at h
  · next hopt =>
    rw [if_pos hopt]
    split at h
    · cases h
    · next h2 =>
      simp only at h
      split at h
      · cases h
      · next hlen =>
        cases h
        rw [if_neg (by rw [List.length_append]; omega)]
        simp only [metaLen_append tail (by omega) x]
        rw [if_neg (by rw [List.length_append]; omega), List.drop_append_of_le_length (by omega),
          List.take_append_of_le_length (by rw [List.length_drop]; omega),
          List.drop_append_of_le_length (by omega)]
  · next hopt =>
    rw [if_neg hopt]
    cases h
    rfl

/-- The bytes a payload takes are a payload of their own. -/
theorem takeData_consumed {option : UInt8} {tail rest : List UInt8} {data : Option (List UInt8)}
    (h : takeData option tail = some (data, rest)) :
    ∃ c, tail = c ++ rest ∧ takeData option c = some (data, []) := by
  unfold takeData at h
  split at h
  · next hopt =>
    split at h
    · cases h
    · next h2 =>
      simp only at h
      split at h
      · cases h
      · next hlen =>
        cases h
        set n := be16 (tail.getD 0 0) (tail.getD 1 0) with hn
        have hcut : (tail.take (2 + n)).length = 2 + n := List.length_take_of_le (by omega)
        have hhead := metaLen_take tail (n := 2 + n) (by omega) (by omega)
        rw [← hn] at hhead
        refine ⟨tail.take (2 + n), (List.take_append_drop _ tail).symm, ?_⟩
        unfold takeData
        rw [if_pos hopt, if_neg (by omega)]
        dsimp only
        have hdone : (tail.take (2 + n)).drop (2 + n) = [] :=
          List.drop_of_length_le (Nat.le_of_eq hcut)
        rw [hhead, if_neg (by omega), hdone, List.drop_take, List.take_take,
          Nat.add_sub_cancel_left, Nat.min_self]
  · next hopt =>
    cases h
    refine ⟨[], rfl, ?_⟩
    unfold takeData
    rw [if_neg hopt]

variable {f : Frame}

theorem frameOf_eq_ok {frameMeta tail rest : List UInt8} :
    frameOf frameMeta tail = .ok (some (f, rest)) ↔
      metaTarget frameMeta = .ok f.target ∧
        takeData (frameMeta.getD 3 0) tail = some (f.data, rest) ∧
        f.sid = UInt16.ofNat (be16 (frameMeta.getD 0 0) (frameMeta.getD 1 0)) ∧
        f.status = frameMeta.getD 2 0 := by
  unfold frameOf
  constructor
  · intro h
    split at h
    · cases h
    · next target htarget =>
      split at h
      · cases h
      · next data rest' hdata =>
        cases h
        exact ⟨htarget, hdata, rfl, rfl⟩
  · rintro ⟨htarget, hdata, hsid, hstatus⟩
    rw [htarget, hdata, ← hsid, ← hstatus]

theorem frameOf_eq_error {frameMeta tail : List UInt8} {e : MuxError} :
    frameOf frameMeta tail = .error e ↔ metaTarget frameMeta = .error e := by
  unfold frameOf
  constructor
  · intro h
    split at h
    · next htarget =>
      cases h
      exact htarget
    · split at h <;> cases h
  · intro h
    rw [h]

variable {rest : List UInt8}

/-- A frame that is parsed has complete metadata in front. -/
theorem parseFrame_eq_item (h : parseFrame buf = .ok (some (f, rest))) :
    ∃ m tail, MetaBlock m ∧ buf = m ++ tail ∧ frameOf (m.drop 2) tail = .ok (some (f, rest)) := by
  rcases parseFrame_cases buf with hwait | ⟨h2, hbad⟩ | ⟨m, tail, hm, rfl⟩
  · rw [hwait] at h
    cases h
  · rw [parseFrame_of_bad h2 hbad] at h
    cases h
  · rw [parseFrame_append_meta hm] at h
    exact ⟨m, tail, hm, rfl, h⟩

/-- **A frame stays the frame it is when more follows.** -/
theorem parseFrame_item_append (h : parseFrame buf = .ok (some (f, rest))) (x : List UInt8) :
    parseFrame (buf ++ x) = .ok (some (f, rest ++ x)) := by
  obtain ⟨m, tail, hm, rfl, hframe⟩ := parseFrame_eq_item h
  obtain ⟨htarget, hdata, hhead⟩ := frameOf_eq_ok.mp hframe
  rw [List.append_assoc, parseFrame_append_meta hm, frameOf_eq_ok]
  exact ⟨htarget, takeData_append hdata x, hhead⟩

/-- **An error stays of its kind when more follows.** -/
theorem parseFrame_error_append {e : MuxError} (h : parseFrame buf = .error e) (x : List UInt8) :
    ∃ e', parseFrame (buf ++ x) = .error e' ∧ e'.kind = e.kind := by
  rcases parseFrame_cases buf with hwait | ⟨h2, hbad⟩ | ⟨m, tail, hm, rfl⟩
  · rw [hwait] at h
    cases h
  · rw [parseFrame_of_bad h2 hbad] at h
    cases h
    have hhead := metaLen_append buf h2 x
    refine ⟨_, parseFrame_of_bad (by rw [List.length_append]; omega)
      (by rw [hhead]; exact hbad), ?_⟩
    rw [hhead]
    rfl
  · rw [parseFrame_append_meta hm, frameOf_eq_error] at h
    refine ⟨e, ?_, rfl⟩
    rw [List.append_assoc, parseFrame_append_meta hm, frameOf_eq_error]
    exact h

/-- What a frame takes off the buffer is that frame and nothing else. -/
theorem parseFrame_consumed (h : parseFrame buf = .ok (some (f, rest))) :
    ∃ c, buf = c ++ rest ∧ parseFrame c = .ok (some (f, [])) := by
  obtain ⟨m, tail, hm, rfl, hframe⟩ := parseFrame_eq_item h
  obtain ⟨htarget, hdata, hhead⟩ := frameOf_eq_ok.mp hframe
  obtain ⟨c, rfl, hc⟩ := takeData_consumed hdata
  refine ⟨m ++ c, (List.append_assoc m c rest).symm, ?_⟩
  rw [parseFrame_append_meta hm, frameOf_eq_ok]
  exact ⟨htarget, hc, hhead⟩

/-! ## The two deframers -/

theorem frameOrKind_eq_ok {r : Option (Frame × List UInt8)} :
    frameOrKind buf = .ok r ↔ parseFrame buf = .ok r := by
  unfold frameOrKind
  cases parseFrame buf with
  | error e =>
    constructor
    · intro h
      cases h
    · intro h
      cases h
  | ok r' => exact ⟨fun h => by cases h; rfl, fun h => by cases h; rfl⟩

theorem frameOrKind_eq_error {k : ErrorKind} :
    frameOrKind buf = .error k ↔ ∃ e, parseFrame buf = .error e ∧ e.kind = k := by
  unfold frameOrKind
  cases parseFrame buf with
  | error e =>
    constructor
    · intro h
      exact ⟨e, rfl, Except.error.inj h⟩
    · rintro ⟨e', he, rfl⟩
      cases he
      rfl
  | ok r =>
    constructor
    · intro h
      cases h
    · rintro ⟨e, he, -⟩
      cases he

theorem stable_frameOrKind : Deframe.Stable frameOrKind where
  nil := rfl
  shrinks := fun h => parseFrame_length (frameOrKind_eq_ok.mp h)
  item_append := fun h x =>
    frameOrKind_eq_ok.mpr (parseFrame_item_append (frameOrKind_eq_ok.mp h) x)
  error_append := by
    intro buf k h x
    obtain ⟨e, he, rfl⟩ := frameOrKind_eq_error.mp h
    exact frameOrKind_eq_error.mpr (parseFrame_error_append he x)

theorem stable_uplinkFrame : Deframe.Stable uplinkFrame :=
  stable_frameOrKind.checked checkStatus

/-- `c` is the text of one frame: nothing is left over, and nothing less is a frame. -/
def FrameText (c : List UInt8) (f : Frame) : Prop :=
  parseFrame c = .ok (some (f, [])) ∧ ∀ p, p <+: c → p ≠ c → parseFrame p = .ok none

/-- A frame is taken off the buffer with its text. -/
theorem exists_frameText (h : parseFrame buf = .ok (some (f, rest))) :
    ∃ c, buf = c ++ rest ∧ FrameText c f := by
  obtain ⟨c, hbuf, hc⟩ := parseFrame_consumed h
  refine ⟨c, hbuf, hc, fun p hp hne => frameOrKind_eq_ok.mp ?_⟩
  exact stable_frameOrKind.wait_of_properPrefix (frameOrKind_eq_ok.mpr hc) hp hne

/-- The unpadder in front of the relay, if there is one. -/
theorem chunkFree_devision :
    ChunkFree devision fun unp : Option Unpadder => ∀ u ∈ unp, u.Valid where
  inv := by
    rintro (_ | u) c h
    · exact h
    · rintro v ⟨⟩
      exact Unpadder.chunkFree_push.inv u c (h u rfl)
  nil := by
    rintro (_ | u) h
    · rfl
    · change (some (u.push []).1, (u.push []).2) = _
      rw [Unpadder.chunkFree_push.nil u (h u rfl)]
  append := by
    rintro (_ | u) a b h
    · rfl
    · change (some (u.push (a ++ b)).1, (u.push (a ++ b)).2) = _
      rw [Unpadder.chunkFree_push.append u a b (h u rfl)]
      rfl

/-- The uplink as a pipe: the unpadder, then the frames. -/
def uplinkPush : Option Unpadder × Except ErrorKind (List UInt8) → List UInt8 →
    (Option Unpadder × Except ErrorKind (List UInt8)) × List Frame :=
  piped devision (Deframe.push uplinkFrame)

/-- The states the pipe gets into. -/
def UplinkInv (s : Option Unpadder × Except ErrorKind (List UInt8)) : Prop :=
  (∀ u ∈ s.1, u.Valid) ∧ Deframe.Waiting uplinkFrame s.2

theorem chunkFree_uplinkPush : ChunkFree uplinkPush UplinkInv :=
  chunkFree_devision.piped stable_uplinkFrame.chunkFree

/-! ## The relay is that pipe -/

/-- The frames the relay has acted on. -/
def Relay.frames (s : Relay) : List Frame := s.log.map Handled.frame

/-- The uplink of a relay: what it waits with, or the kind of frame error that ended it. -/
def Relay.uplink (s : Relay) : Option Unpadder × Except ErrorKind (List UInt8) :=
  (s.unp, match s.ended with
    | some (.error (.frame e)) => .error e.kind
    | _ => .ok s.inbuf)

/-- The bytes an event brings. -/
def Event.bytes : Event → List UInt8
  | .chunk pt => pt
  | _ => []

section Drain

variable (env : MuxEnv) (router : Router) (outbounds : Outbounds) {s : Relay}

theorem uplink_of_running (h : s.ended = none) : s.uplink = (s.unp, .ok s.inbuf) := by
  unfold Relay.uplink
  rw [h]

/-- A frame the relay knows is logged, and the relay goes on. -/
theorem dispatch_of_known (h : checkStatus f = none) :
    (dispatch env router outbounds s f).frames = s.frames ++ [f] ∧
      (dispatch env router outbounds s f).ended = s.ended ∧
      (dispatch env router outbounds s f).unp = s.unp := by
  unfold checkStatus at h
  split at h
  · next hknown =>
    unfold dispatch
    split_ifs with hserve hend halive
    · exact ⟨List.map_append, rfl, rfl⟩
    · exact ⟨List.map_append, rfl, rfl⟩
    · exact ⟨List.map_append, rfl, rfl⟩
    · tauto
  · cases h

/-- Any other frame ends it. -/
theorem dispatch_of_unknown {k : ErrorKind} (h : checkStatus f = some k) :
    k = .unknownStatus ∧ dispatch env router outbounds s f =
      { s with ended := some (.error (.frame .unknownStatus)) } := by
  unfold checkStatus at h
  split at h
  · cases h
  · next hknown =>
    push Not at hknown
    obtain ⟨hnew, hkeep, hend, halive⟩ := hknown
    refine ⟨(Option.some.inj h).symm, ?_⟩
    unfold dispatch
    rw [if_neg (by tauto), if_neg hend, if_neg halive]

/-- **The drain loop is the loop around `uplinkFrame`.**  The induction is on the fuel the
two share. -/
theorem drainLoop_uplink : ∀ (fuel : ℕ) (s : Relay), s.ended = none →
    (drainLoop env router outbounds fuel s).uplink =
        (s.unp, (Deframe.deframeLoop uplinkFrame fuel s.inbuf).1) ∧
      (drainLoop env router outbounds fuel s).frames =
        s.frames ++ (Deframe.deframeLoop uplinkFrame fuel s.inbuf).2
  | 0, s, hs => ⟨uplink_of_running hs, (List.append_nil _).symm⟩
  | fuel + 1, s, hs => by
    rw [drainLoop, Deframe.deframeLoop, uplinkFrame, Deframe.checked, frameOrKind]
    rcases hparse : parseFrame s.inbuf with e | (_ | ⟨f, rest⟩)
    · exact ⟨rfl, (List.append_nil _).symm⟩
    · exact ⟨uplink_of_running hs, (List.append_nil _).symm⟩
    · cases hcheck : checkStatus f with
      | some k =>
        obtain ⟨rfl, hdispatch⟩ := dispatch_of_unknown env router outbounds
          (s := { s with inbuf := rest }) hcheck
        simp only [hdispatch, Except.mapError, hcheck, Option.isSome_some, if_true]
        exact ⟨rfl, (List.append_nil _).symm⟩
      | none =>
        obtain ⟨hframes, hended, hunp⟩ := dispatch_of_known env router outbounds
          (s := { s with inbuf := rest }) hcheck
        have hrun : (dispatch env router outbounds { s with inbuf := rest } f).ended = none :=
          hended.trans hs
        obtain ⟨huplink, hlog⟩ := drainLoop_uplink fuel _ hrun
        simp only [Except.mapError, hcheck, hrun, Option.isSome_none, Bool.false_eq_true, if_false]
        rw [huplink, hlog, dispatch_inbuf, hframes, hunp, List.append_assoc]
        exact ⟨rfl, rfl⟩

theorem drain_uplink (hs : s.ended = none) :
    (drain env router outbounds s).uplink =
        (s.unp, (Deframe.deframe uplinkFrame s.inbuf).1) ∧
      (drain env router outbounds s).frames =
        s.frames ++ (Deframe.deframe uplinkFrame s.inbuf).2 :=
  drainLoop_uplink env router outbounds _ s hs

/-- Bytes that arrive go through the pipe. -/
theorem drain_feed (hs : s.ended = none) (pt : List UInt8) :
    (drain env router outbounds (s.feed pt)).uplink = (uplinkPush s.uplink pt).1 ∧
      (drain env router outbounds (s.feed pt)).frames =
        s.frames ++ (uplinkPush s.uplink pt).2 := by
  obtain ⟨huplink, hframes⟩ := drain_uplink env router outbounds (s := s.feed pt) hs
  rw [uplink_of_running hs, huplink, hframes]
  exact ⟨rfl, rfl⟩

end Drain

section Relay

variable {env : MuxEnv} {router : Router} {outbounds : Outbounds}

theorem respond_frame (s : Relay) (frame : List UInt8) (draw : ℕ → ℕ) :
    (s.respond frame draw).unp = s.unp ∧ (s.respond frame draw).inbuf = s.inbuf ∧
      (s.respond frame draw).ended = s.ended := by
  unfold Relay.respond
  split <;> exact ⟨rfl, rfl, rfl⟩

/-- **One event pushes its bytes through the pipe**, which for most of them is nothing. -/
theorem uplink_step {s t : Relay} {e : Event} (hinv : UplinkInv s.uplink)
    (h : step env router outbounds s e = some t) :
    t.uplink = (uplinkPush s.uplink e.bytes).1 ∧
      t.frames = s.frames ++ (uplinkPush s.uplink e.bytes).2 := by
  have hnil := chunkFree_uplinkPush.nil s.uplink hinv
  unfold step at h
  split at h
  · cases h
  · next hended =>
    have hs : s.ended = none := Option.not_isSome_iff_eq_none.mp hended
    -- an event that leaves the uplink alone
    have hidle : ∀ u : Relay, u.uplink = s.uplink → u.frames = s.frames →
        u.uplink = (uplinkPush s.uplink []).1 ∧
          u.frames = s.frames ++ (uplinkPush s.uplink []).2 := by
      intro u hu hf
      rw [hnil]
      exact ⟨hu, by rw [hf, List.append_nil]⟩
    have hstill := uplink_of_running hs
    cases e with
    | chunk pt =>
      cases h
      exact drain_feed env router outbounds hs pt
    | eof =>
      cases h
      exact hidle _ hstill.symm rfl
    | readFailed =>
      cases h
      exact hidle _ hstill.symm rfl
    | idle =>
      cases h
      exact hidle _ hstill.symm rfl
    | response sid src data draw ok =>
      simp only at h
      split at h
      · cases h
        obtain ⟨hunp, hinbuf, hend⟩ := respond_frame s (keepFrame sid src data) draw
        obtain ⟨huplink, hframes⟩ := drain_uplink env router outbounds
          (s := s.respond (keepFrame sid src data) draw) (hend.trans hs)
        -- nothing has arrived, so the buffer still waits
        have hwait : uplinkFrame s.inbuf = .ok none := by
          refine hinv.2 s.inbuf ?_
          rw [hstill]
        rw [hinbuf, stable_uplinkFrame.deframe_of_wait hwait] at huplink hframes
        refine hidle _ ?_ ?_
        · rw [huplink, hunp, hstill]
        · rw [hframes, List.append_nil, Relay.frames, respond_log, Relay.frames]
      · cases h
        exact hidle _ hstill.symm rfl

/-- The bytes a run has read. -/
def bytesRead (leftover : List UInt8) (events : List Event) : List UInt8 :=
  leftover ++ (events.map Event.bytes).flatten

/-- **A whole run pushes what it has read through the pipe.** -/
theorem uplink_run : ∀ (events : List Event) {s t : Relay}, UplinkInv s.uplink →
    run (step env router outbounds) s events = some t →
      t.uplink = (uplinkPush s.uplink (events.map Event.bytes).flatten).1 ∧
        t.frames = s.frames ++ (uplinkPush s.uplink (events.map Event.bytes).flatten).2
  | [], s, t, hinv, h => by
    cases h
    rw [List.map_nil, List.flatten_nil, chunkFree_uplinkPush.nil _ hinv]
    exact ⟨rfl, (List.append_nil _).symm⟩
  | e :: events, s, t, hinv, h => by
    obtain ⟨u, hstep, hrest⟩ := run_cons_eq_some.mp h
    obtain ⟨huplink, hframes⟩ := uplink_step hinv hstep
    have hinv' : UplinkInv u.uplink := huplink ▸ chunkFree_uplinkPush.inv _ _ hinv
    obtain ⟨htlink, htframes⟩ := uplink_run events hinv' hrest
    rw [List.map_cons, List.flatten_cons, chunkFree_uplinkPush.append _ _ _ hinv, htlink, htframes,
      huplink, hframes, List.append_assoc]
    exact ⟨rfl, rfl⟩

/-- The pipe before anything has arrived. -/
def freshUplink (visionUuid : Option Uuid) : Option Unpadder × Except ErrorKind (List UInt8) :=
  (visionUuid.map Unpadder.new, .ok [])

theorem uplinkInv_fresh (visionUuid : Option Uuid) : UplinkInv (freshUplink visionUuid) := by
  refine ⟨?_, stable_uplinkFrame.waiting_nil⟩
  intro u hu
  obtain ⟨uuid, -, rfl⟩ := Option.map_eq_some_iff.mp hu
  exact Unpadder.valid_new uuid

variable {s : Relay}

/-- The uplink and the frames of a relay are those of the bytes it has read. -/
theorem uplink_run_start {visionUuid : Option Uuid} {leftover : List UInt8} {events : List Event}
    (h : run (step env router outbounds) (start env router outbounds visionUuid leftover) events =
      some s) :
    uplinkPush (freshUplink visionUuid) (bytesRead leftover events) = (s.uplink, s.frames) := by
  have hfresh := uplinkInv_fresh visionUuid
  obtain ⟨hlink, hframes⟩ := drain_feed env router outbounds
    (s := ⟨visionUuid.map Unpadder.new, visionUuid, [], ∅, [], [], none⟩) rfl leftover
  have hinv : UplinkInv (start env router outbounds visionUuid leftover).uplink := by
    rw [start, hlink]
    exact chunkFree_uplinkPush.inv _ _ hfresh
  obtain ⟨hslink, hsframes⟩ := uplink_run events hinv h
  rw [bytesRead, chunkFree_uplinkPush.append _ _ _ hfresh, hslink, hsframes, start, hlink, hframes]
  rfl

/-- The run has read all of the stream, or a frame error has ended it before. -/
def Covers (leftover : List UInt8) (events : List Event) (s : Relay) (stream : List UInt8) :
    Prop :=
  bytesRead leftover events = stream ∨
    (bytesRead leftover events <+: stream ∧ ∃ e, s.ended = some (.error (.frame e)))

/-- A relay that covers a stream has acted on the frames of that stream: once it has
failed, nothing more would come out of the pipe. -/
theorem frames_of_covers {visionUuid : Option Uuid} {leftover stream : List UInt8}
    {events : List Event}
    (h : run (step env router outbounds) (start env router outbounds visionUuid leftover) events =
      some s)
    (hcovers : Covers leftover events s stream) :
    s.frames = (uplinkPush (freshUplink visionUuid) stream).2 := by
  have hread := uplink_run_start h
  rcases hcovers with rfl | ⟨⟨rest, rfl⟩, e, he⟩
  · rw [hread]
  · have hfailed : s.uplink = (s.unp, .error e.kind) := by
      unfold Relay.uplink
      rw [he]
    rw [chunkFree_uplinkPush.append _ _ _ (uplinkInv_fresh visionUuid), hread, andThen_snd, hfailed]
    exact (List.append_nil _).symm

end Relay

/-! ## Segmentation -/

/-- **The uplink is independent of its segmentation.**  Every answer of `parse_frame` is
to wait, an error, or one frame taken off with its text; a frame stays the same and an
error of its kind when more follows; and the frames a relay acts on are a function of the
stream it covers --- whatever the split into leftover and chunks, the network, the routing
table and the events in between. -/
theorem mux_uplink_segmentation :
    (∀ buf, parseFrame buf = .ok none ∨ (∃ e, parseFrame buf = .error e) ∨
      ∃ f text rest, parseFrame buf = .ok (some (f, rest)) ∧ buf = text ++ rest ∧
        FrameText text f) ∧
    (∀ buf f rest more, parseFrame buf = .ok (some (f, rest)) →
      parseFrame (buf ++ more) = .ok (some (f, rest ++ more))) ∧
    (∀ buf e more, parseFrame buf = .error e →
      ∃ e', parseFrame (buf ++ more) = .error e' ∧ e'.kind = e.kind) ∧
    ∀ visionUuid : Option Uuid, ∃ dispatched : List UInt8 → List Frame,
      ∀ env router outbounds leftover events s stream,
        run (step env router outbounds) (start env router outbounds visionUuid leftover) events =
          some s → Covers leftover events s stream → s.frames = dispatched stream := by
  refine ⟨?_, fun _ _ _ more h => parseFrame_item_append h more,
    fun _ _ more h => parseFrame_error_append h more, ?_⟩
  · intro buf
    rcases h : parseFrame buf with e | (_ | ⟨f, rest⟩)
    · exact Or.inr (Or.inl ⟨e, rfl⟩)
    · exact Or.inl rfl
    · obtain ⟨text, hbuf, htext⟩ := exists_frameText h
      exact Or.inr (Or.inr ⟨f, text, rest, rfl, hbuf, htext⟩)
  · intro visionUuid
    exact ⟨fun stream => (uplinkPush (freshUplink visionUuid) stream).2,
      fun _ _ _ _ _ _ _ hrun hcovers => frames_of_covers hrun hcovers⟩

/-- One frame, in one piece and cut inside its metadata. -/
theorem mux_uplink_segmentation_cut :
    ∃ s t, run (step openNet blockAll .empty)
        (start openNet blockAll .empty none (blockedFrame.take 5))
        [.chunk (blockedFrame.drop 5), .eof] = some s ∧
      run (step openNet blockAll .empty) (start openNet blockAll .empty none blockedFrame) [] =
        some t ∧
      s.frames = t.frames ∧ t.frames.length = 1 := by
  obtain ⟨dispatched, hdispatched⟩ := mux_uplink_segmentation.2.2.2 none
  refine ⟨_, _, rfl, rfl, ?_, rfl⟩
  rw [hdispatched openNet blockAll .empty (blockedFrame.take 5)
      [.chunk (blockedFrame.drop 5), .eof] _ blockedFrame rfl (Or.inl rfl),
    hdispatched openNet blockAll .empty blockedFrame [] _ blockedFrame rfl (Or.inl rfl)]

end Mux
end HoldTheDonut
