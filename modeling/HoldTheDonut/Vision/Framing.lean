import HoldTheDonut.Core.Bytes
import HoldTheDonut.Interaction.Stream

/-!
# `donut-io/src/vision.rs`: donut's own padding

Between two donut ends a direction of a connection starts framed and goes on raw.  A frame is

    [kind 1][data length 2][pad length 2][data][pad]

and the frame of kind `END` is the last.  `encode_copy` makes one frame of every read until it has
made `pad_frames` of them, or until its source ends; `decode_copy` takes frames apart until the
one that says `END`.

How many frames there are, where they end and how they are padded is up to the configuration, the
source and the random numbers.  All of that is in the relation `Framed s out`: `out` is one of the
ways to write `s`.  What the encoder writes is `Framed` (`exec_encodeLoop`), and what is `Framed`
is decoded, however it is cut on the way (`exec_decodeLoop`).
-/

namespace HoldTheDonut
namespace Vision
namespace Framing

open Interaction Interaction.Stream

inductive CopyError where
  | io
  | unexpectedEof
  deriving DecidableEq

def kindMore : UInt8 := 0
def kindEnd : UInt8 := 1
def maxData : ℕ := 16 * 1024

/-- Vision padding parameters. -/
structure VisionConfig where
  /-- Number of leading frames to pad before switching to raw copy. -/
  padFrames : ℕ
  /-- Maximum random padding length per frame. -/
  maxPad : ℕ

/-- `cfg.pad_frames.max(1)`. -/
def VisionConfig.frames (cfg : VisionConfig) : ℕ := max cfg.padFrames 1

abbrev Copy : Type → Type := Prog Op Ans CopyError

/-! ## The encoder -/

def padLen (cfg : VisionConfig) : Copy ℕ :=
  if cfg.maxPad = 0 then pure 0 else draw cfg.maxPad

def writeFrame (kind : UInt8) (data : List UInt8) (pad : ℕ) : Copy Unit := do
  writeBytes .io [kind, hi8 data.length, lo8 data.length, hi8 pad, lo8 pad]
  writeNonempty .io data
  writeNonempty .io (List.replicate pad 0)

/-- The source ended before the last frame: one with nothing in it. -/
def writeLast (cfg : VisionConfig) (frames : ℕ) : Copy Unit :=
  if frames < cfg.frames then do
    let pad ← padLen cfg
    writeFrame kindEnd [] pad
  else pure ()

/-- `frames` have been written. -/
def encodeLoop (cfg : VisionConfig) : ℕ → ℕ → Copy Unit
  | 0, _ => .halt
  | fuel + 1, frames => do
    let data ← read .io maxData
    if data = [] then do
      writeLast cfg frames
      flush .io
      shutdown
    else do
      let last := decide (cfg.frames ≤ frames + 1)
      let pad ← padLen cfg
      writeFrame (if last then kindEnd else kindMore) data pad
      flush .io
      if last then do
        copy .io fuel
        flush .io
        shutdown
      else encodeLoop cfg fuel (frames + 1)

/-- Copy raw to tunnel, the first chunks in padded frames. -/
def encodeCopy (fuel : ℕ) (cfg : VisionConfig) : Copy Unit := encodeLoop cfg fuel 0

/-! ## The decoder -/

/-- The data of a frame goes out. -/
def passData (dataLen : ℕ) : Copy Unit :=
  if 0 < dataLen then do
    let data ← readExactOrFail .io .unexpectedEof dataLen
    writeBytes .io data
    flush .io
  else pure ()

/-- The padding of a frame is read and dropped. -/
def skipPad (padLen : ℕ) : Copy Unit :=
  if 0 < padLen then do
    let _ ← readExactOrFail .io .unexpectedEof padLen
    pure ()
  else pure ()

def decodeLoop : ℕ → Copy Unit
  | 0 => .halt
  | fuel + 1 => do
    match ← readExact .io 5 with
    | none => shutdown
    | some hdr => do
      passData (be16 (hdr.getD 1 0) (hdr.getD 2 0))
      skipPad (be16 (hdr.getD 3 0) (hdr.getD 4 0))
      if hdr.getD 0 0 = kindEnd then do
        copy .io fuel
        flush .io
        shutdown
      else decodeLoop fuel

/-- Copy tunnel to raw, unwrapping frames until the last one. -/
def decodeCopy (fuel : ℕ) : Copy Unit := decodeLoop fuel

/-! ## Framed streams -/

def header (kind : UInt8) (data : List UInt8) (pad : ℕ) : List UInt8 :=
  [kind, hi8 data.length, lo8 data.length, hi8 pad, lo8 pad]

def frame (kind : UInt8) (data : List UInt8) (pad : ℕ) : List UInt8 :=
  header kind data pad ++ (data ++ List.replicate pad 0)

/-- `out` is one of the ways to write the stream `s`: some frames, the last of kind `END`, and the
rest as it is. -/
inductive Framed : List UInt8 → List UInt8 → Prop
  | last (data raw : List UInt8) (pad : ℕ) (hdata : data.length < 65536) (hpad : pad < 65536) :
      Framed (data ++ raw) (frame kindEnd data pad ++ raw)
  | more (data : List UInt8) (pad : ℕ) (hdata : data.length < 65536) (hpad : pad < 65536)
      {s out : List UInt8} (h : Framed s out) :
      Framed (data ++ s) (frame kindMore data pad ++ out)

section Encoder

variable {w : World}

/-- Whatever is drawn is within the bound. -/
theorem exec_padLen (cfg : VisionConfig) (w : World) :
    ∃ pad draws, pad ≤ cfg.maxPad ∧
      exec World.answer (padLen cfg) w = (.returned pad, { w with draws := draws }) := by
  unfold padLen
  split
  · exact ⟨0, w.draws, Nat.zero_le _, rfl⟩
  · exact exec_draw cfg.maxPad

theorem exec_writeFrame (kind : UInt8) (data : List UInt8) (pad : ℕ) :
    exec World.answer (writeFrame kind data pad) w =
      (.returned (), w.wrote (frame kind data pad)) := by
  unfold writeFrame
  rw [exec_bind_of_returned _ (exec_writeBytes _ _),
    exec_bind_of_returned _ (exec_writeNonempty _ data), exec_writeNonempty]
  simp only [World.wrote, frame, header, List.append_assoc]

/-- **What the encoder writes is framed.**  The induction is on the fuel; a turn either writes the
last frame or takes some bytes off the source. -/
theorem exec_encodeLoop {cfg : VisionConfig} (hmax : cfg.maxPad ≤ 65535) (fuel : ℕ) {frames : ℕ}
    (hframes : frames < cfg.frames) {s : List UInt8} (hfuel : s.length < fuel) (h : w.Holds s) :
    ∃ out w', exec World.answer (encodeLoop cfg fuel frames) w = (.returned (), w') ∧
      w'.out = w.out ++ out ∧ w'.shut = true ∧ Framed s out := by
  induction fuel generalizing frames s w with
  | zero => exact absurd hfuel (Nat.not_lt_zero _)
  | succ fuel ih =>
      rw [encodeLoop]
      by_cases hs : s = []
      · subst hs
        obtain ⟨pad, draws, hpad, hdraw⟩ := exec_padLen cfg w
        have hlast := Framed.last [] [] pad (by decide) (by omega)
        have hwrite : exec World.answer (writeLast cfg frames) w =
            (.returned (), World.wrote { w with draws := draws } (frame kindEnd [] pad)) := by
          rw [writeLast, if_pos hframes, exec_bind_of_returned _ hdraw, exec_writeFrame]
        rw [exec_bind_of_returned _ (exec_read_nil _ h maxData), if_pos rfl,
          exec_bind_of_returned _ hwrite]
        refine ⟨_, _, rfl, ?_, rfl, hlast⟩
        rw [List.append_nil]
        rfl
      · obtain ⟨data, rest, cs, rfl, hne, hlen, hholds, hread⟩ :=
          exec_read CopyError.io h hs (show 0 < maxData by decide)
        obtain ⟨pad, draws, hpad, hdraw⟩ := exec_padLen cfg (w.withChunks cs)
        have hdata : data.length < 65536 := Nat.lt_of_le_of_lt hlen (by decide)
        have hpos : 0 < data.length := List.length_pos_of_ne_nil hne
        rw [List.length_append] at hfuel
        rw [exec_bind_of_returned _ hread, if_neg hne]
        dsimp only
        rw [exec_bind_of_returned _ hdraw, exec_bind_of_returned _ (exec_writeFrame _ data pad),
          exec_bind_of_returned _ (exec_flush _)]
        by_cases hlast : cfg.frames ≤ frames + 1
        · have hraw := Framed.last data rest pad hdata (by omega)
          obtain ⟨cs', hcopy⟩ := exec_copy CopyError.io fuel (by omega)
            (w := World.wrote { w.withChunks cs with draws := draws } (frame kindEnd data pad))
            ⟨hholds.flatten_eq, hholds.nonempty⟩
          simp only [hlast, decide_true, if_true]
          rw [exec_bind_of_returned _ hcopy]
          refine ⟨_, _, rfl, ?_, rfl, hraw⟩
          rw [← List.append_assoc]
          rfl
        · obtain ⟨out, w', hrun, hout, hshut, hframed⟩ := ih (show frames + 1 < cfg.frames by omega)
            (s := rest) (by omega)
            (w := World.wrote { w.withChunks cs with draws := draws } (frame kindMore data pad))
            ⟨hholds.flatten_eq, hholds.nonempty⟩
          simp only [hlast, decide_false, Bool.false_eq_true, if_false]
          refine ⟨_, w', hrun, ?_, hshut, Framed.more data pad hdata (by omega) hframed⟩
          rw [hout, ← List.append_assoc]
          rfl

end Encoder

section Decoder

variable {w : World}

theorem exec_passData {data rest : List UInt8} (h : w.Holds (data ++ rest)) :
    ∃ cs, (w.withChunks cs).Holds rest ∧
      exec World.answer (passData data.length) w =
        (.returned (), (w.withChunks cs).wrote data) := by
  unfold passData
  by_cases hpos : 0 < data.length
  · obtain ⟨cs, hholds, hread⟩ := exec_readExactOrFail CopyError.io .unexpectedEof h
    refine ⟨cs, hholds, ?_⟩
    rw [if_pos hpos, exec_bind_of_returned _ hread]
    rfl
  · obtain rfl : data = [] := List.eq_nil_of_length_eq_zero (by omega)
    refine ⟨w.chunks, h, ?_⟩
    rw [if_neg hpos, World.wrote, World.withChunks, List.append_nil]
    rfl

theorem exec_skipPad {pad rest : List UInt8} (h : w.Holds (pad ++ rest)) :
    ∃ cs, (w.withChunks cs).Holds rest ∧
      exec World.answer (skipPad pad.length) w = (.returned (), w.withChunks cs) := by
  unfold skipPad
  by_cases hpos : 0 < pad.length
  · obtain ⟨cs, hholds, hread⟩ := exec_readExactOrFail CopyError.io .unexpectedEof h
    refine ⟨cs, hholds, ?_⟩
    rw [if_pos hpos, exec_bind_of_returned _ hread]
    rfl
  · obtain rfl : pad = [] := List.eq_nil_of_length_eq_zero (by omega)
    refine ⟨w.chunks, h, ?_⟩
    rw [if_neg hpos]
    rfl

/-- A turn of the decoder on a whole frame: its data goes out, and its kind decides. -/
theorem exec_decodeLoop_frame (fuel : ℕ) (kind : UInt8) {data : List UInt8} {pad : ℕ}
    (hdata : data.length < 65536) (hpad : pad < 65536) {rest : List UInt8}
    (h : w.Holds (frame kind data pad ++ rest)) :
    ∃ cs, (w.withChunks cs).Holds rest ∧
      exec World.answer (decodeLoop (fuel + 1)) w =
        exec World.answer
          (if kind = kindEnd then do
            copy CopyError.io fuel
            flush CopyError.io
            shutdown
          else decodeLoop fuel)
          ((w.withChunks cs).wrote data) := by
  have hheader : w.Holds (header kind data pad ++ (data ++ (List.replicate pad 0 ++ rest))) := by
    rw [frame, List.append_assoc, List.append_assoc] at h
    exact h
  obtain ⟨cs₁, hholds₁, hread⟩ := exec_readExact CopyError.io hheader
  obtain ⟨cs₂, hholds₂, hpass⟩ := exec_passData hholds₁
  obtain ⟨cs₃, hholds₃, hskip⟩ := exec_skipPad (hholds₂.wrote data)
  rw [List.length_replicate] at hskip
  refine ⟨cs₃, ⟨hholds₃.flatten_eq, hholds₃.nonempty⟩, ?_⟩
  have hlen : (header kind data pad).length = 5 := rfl
  have hdataLen : be16 ((header kind data pad).getD 1 0) ((header kind data pad).getD 2 0) =
      data.length := be16_hi8_lo8 hdata
  have hpadLen : be16 ((header kind data pad).getD 3 0) ((header kind data pad).getD 4 0) = pad :=
    be16_hi8_lo8 hpad
  rw [hlen] at hread
  rw [decodeLoop, exec_bind_of_returned _ hread]
  dsimp only
  rw [hdataLen, hpadLen, exec_bind_of_returned _ hpass, exec_bind_of_returned _ hskip]
  rfl

theorem five_le_length_frame (kind : UInt8) (data : List UInt8) (pad : ℕ) :
    5 ≤ (frame kind data pad).length := by
  rw [frame, List.length_append]
  exact Nat.le_add_right 5 _

/-- **What is framed is decoded.**  The induction is on the frames. -/
theorem exec_decodeLoop {s out : List UInt8} (hframed : Framed s out) {fuel : ℕ}
    (hfuel : out.length < fuel) (h : w.Holds out) :
    ∃ w', exec World.answer (decodeLoop fuel) w = (.returned (), w') ∧
      w'.out = w.out ++ s ∧ w'.shut = true := by
  induction hframed generalizing fuel w with
  | last data raw pad hdata hpad =>
      obtain ⟨fuel, rfl⟩ : ∃ n, fuel = n + 1 := ⟨fuel - 1, by omega⟩
      obtain ⟨cs, hholds, hturn⟩ := exec_decodeLoop_frame fuel kindEnd hdata hpad h
      have hlen := five_le_length_frame kindEnd data pad
      rw [List.length_append] at hfuel
      obtain ⟨cs', hcopy⟩ := exec_copy CopyError.io fuel (by omega) (hholds.wrote data)
      rw [hturn, if_pos rfl, exec_bind_of_returned _ hcopy]
      refine ⟨_, rfl, ?_, rfl⟩
      rw [← List.append_assoc]
      rfl
  | more data pad hdata hpad hrest ih =>
      obtain ⟨fuel, rfl⟩ : ∃ n, fuel = n + 1 := ⟨fuel - 1, by omega⟩
      obtain ⟨cs, hholds, hturn⟩ := exec_decodeLoop_frame fuel kindMore hdata hpad h
      have hlen := five_le_length_frame kindMore data pad
      rw [List.length_append] at hfuel
      obtain ⟨w', hrun, hout, hshut⟩ := ih (show _ < fuel by omega) (hholds.wrote data)
      rw [hturn, if_neg (by decide)]
      refine ⟨w', hrun, ?_, hshut⟩
      rw [hout, ← List.append_assoc]
      rfl

end Decoder

/-- **donut's own framing round-trips.**  Whatever the configuration (with paddings that fit their
length field), the reads, the random numbers and the pieces in which the tunnel delivers what was
written: the encoder returns, and the decoder returns, has written the stream the encoder read, and
has shut its output down. -/
theorem decodeCopy_encodeCopy (cfg : VisionConfig) (hmax : cfg.maxPad ≤ 65535)
    (reads : List (List UInt8)) (hreads : ∀ c ∈ reads, c ≠ []) (draws : List ℕ) (fuel : ℕ)
    (hfuel : reads.flatten.length < fuel) :
    ∃ w, exec World.answer (encodeCopy fuel cfg) ⟨reads, draws, [], false⟩ = (.returned (), w) ∧
      w.shut = true ∧
      ∀ (chunks : List (List UInt8)) (fuel' : ℕ), chunks.flatten = w.out → (∀ c ∈ chunks, c ≠ []) →
        w.out.length < fuel' →
        ∃ w', exec World.answer (decodeCopy fuel') ⟨chunks, [], [], false⟩ = (.returned (), w') ∧
          w'.out = reads.flatten ∧ w'.shut = true := by
  have hpos : 0 < cfg.frames := Nat.lt_of_lt_of_le Nat.zero_lt_one (le_max_right _ _)
  obtain ⟨out, w, hrun, hout, hshut, hframed⟩ := exec_encodeLoop hmax fuel hpos hfuel
    (w := ⟨reads, draws, [], false⟩) ⟨rfl, hreads⟩
  rw [List.nil_append] at hout
  refine ⟨w, hrun, hshut, fun chunks fuel' hchunks hne hfuel' => ?_⟩
  rw [hout] at hchunks hfuel'
  exact exec_decodeLoop hframed hfuel' (w := ⟨chunks, [], [], false⟩) ⟨hchunks, hne⟩

/-- Two reads and one frame to pad; the tunnel delivers every byte on its own. -/
theorem decodeCopy_encodeCopy_two :
    ∃ w, exec World.answer (encodeCopy 4 ⟨1, 900⟩) ⟨[[1, 2], [3]], [2], [], false⟩ =
        (.returned (), w) ∧ w.shut = true ∧
      ∃ w', exec World.answer (decodeCopy (w.out.length + 1))
          ⟨w.out.map fun b => [b], [], [], false⟩ = (.returned (), w') ∧
        w'.out = [1, 2, 3] ∧ w'.shut = true := by
  obtain ⟨w, hrun, hshut, hdecode⟩ := decodeCopy_encodeCopy ⟨1, 900⟩ (by decide) [[1, 2], [3]]
    (by decide) [2] 4 (by decide)
  have hbytes : (w.out.map fun b => [b]).flatten = w.out := by
    rw [← List.flatMap_def, List.flatMap_singleton']
  exact ⟨w, hrun, hshut, hdecode _ _ hbytes (by simp) (Nat.lt_succ_self _)⟩

end Framing
end Vision
end HoldTheDonut
