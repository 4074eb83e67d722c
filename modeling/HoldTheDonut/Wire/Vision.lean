import HoldTheDonut.Vision.RoundTrip

/-!
# The two Vision decoders

`donut_wire` and `donut_io` each have an unpadder for the same wire format, and they were written
differently.  The one of `donut_io`, `Vision.Unpadder`, takes a block header byte by byte and
keeps signed counters.  The one of `donut_wire`, `VisionUnpadder` here, keeps what it cannot use
yet in `pending` and reads a header only when all five bytes of it are there.

They agree after every chunk (`visionUnpadder_agrees`).  The relation between their states is
`Agrees`, and three of its four cases are what one would write down.  The fourth is a header of
which some bytes have come: one decoder has them in `pending`, the other has already counted them
off.  There the second state is described as the first block boundary *with those bytes pushed
into it*, and since `Unpadder.push` does not see chunk boundaries, whatever comes next is pushed
behind them.
-/

namespace HoldTheDonut
namespace Wire

open Streaming Vision

/-! ## The decoder -/

/-- Reader side: strips Vision padding, recovering the original content. -/
structure VisionUnpadder where
  uuid : Uuid
  started : Bool
  direct : Bool
  readingHeader : Bool
  remainingContent : ℕ
  remainingPadding : ℕ
  currentCommand : UInt8
  pending : List UInt8

namespace VisionUnpadder

def new (uuid : Uuid) : VisionUnpadder where
  uuid := uuid
  started := false
  direct := false
  readingHeader := false
  remainingContent := 0
  remainingPadding := 0
  currentCommand := commandPaddingContinue
  pending := []

/-- The stream has switched to verbatim passthrough. -/
def isDirect (v : VisionUnpadder) : Bool := v.direct

/-- A block header, if one is due.  There is no value while fewer than five bytes of it are
there.  Here and below `b` is `pending[i..]`. -/
def header (v : VisionUnpadder) (b : List UInt8) : Option (VisionUnpadder × List UInt8) :=
  if v.readingHeader = true then
    match b with
    | command :: c₁ :: c₀ :: p₁ :: p₀ :: rest =>
      some ({ v with
          currentCommand := command
          remainingContent := be16 c₁ c₀
          remainingPadding := be16 p₁ p₀
          readingHeader := false }, rest)
    | _ => none
  else some (v, b)

/-- As much content as there is: the state, what is emitted and what is left. -/
def content (v : VisionUnpadder) (b : List UInt8) :
    VisionUnpadder × List UInt8 × List UInt8 :=
  if 0 < v.remainingContent then
    let n := min v.remainingContent b.length
    ({ v with remainingContent := v.remainingContent - n }, b.take n, b.drop n)
  else (v, [], b)

/-- As much padding as there is. -/
def padding (v : VisionUnpadder) (b : List UInt8) : VisionUnpadder × List UInt8 :=
  if 0 < v.remainingPadding then
    let n := min v.remainingPadding b.length
    ({ v with remainingPadding := v.remainingPadding - n }, b.drop n)
  else (v, b)

/-- A turn of the loop behind the header.  It breaks off where input is missing and at the last
block, and otherwise goes on with `again`. -/
def block (again : VisionUnpadder → List UInt8 → VisionUnpadder × List UInt8)
    (v : VisionUnpadder) (b : List UInt8) : VisionUnpadder × List UInt8 :=
  let c := v.content b
  if 0 < c.1.remainingContent then ({ c.1 with pending := c.2.2 }, c.2.1)
  else
    let p := c.1.padding c.2.2
    if 0 < p.1.remainingPadding then ({ p.1 with pending := p.2 }, c.2.1)
    else if p.1.currentCommand = commandPaddingContinue then
      andThen ({ p.1 with readingHeader := true }, c.2.1) fun w => again w p.2
    else ({ p.1 with direct := true, pending := [] }, c.2.1 ++ p.2)

/-- The loop, with what it leaves of `b` as the new `pending`. -/
def loop : ℕ → VisionUnpadder → List UInt8 → VisionUnpadder × List UInt8
  | 0, v, b => ({ v with pending := b }, [])
  | fuel + 1, v, b =>
    match v.header b with
    | none => ({ v with pending := b }, [])
    | some (w, rest) => block (loop fuel) w rest

/-- Process `input`, returning the recovered content.  A turn that goes on has taken at least one
byte, so the fuel never runs out. -/
def push (v : VisionUnpadder) (input : List UInt8) : VisionUnpadder × List UInt8 :=
  if v.direct = true then (v, input)
  else
    let pending := v.pending ++ input
    if v.started = false then
      if pending.length < 21 then ({ v with pending := pending }, [])
      else if pending.take 16 = v.uuid.toList then
        let rest := pending.drop 16
        loop (rest.length + 1) { v with started := true, readingHeader := true } rest
      else ({ v with direct := true, pending := [] }, pending)
    else loop (pending.length + 1) v pending

/-! ## One turn -/

theorem content_eq (v : VisionUnpadder) (b : List UInt8) :
    v.content b =
      ({ v with remainingContent := v.remainingContent - b.length },
        b.take v.remainingContent, b.drop v.remainingContent) := by
  unfold content
  split
  · dsimp only
    rw [← List.take_eq_take_min, ← List.drop_eq_drop_min, ← Nat.sub_eq_sub_min]
  · next h =>
    have h₀ : v.remainingContent = 0 := by omega
    simp only [h₀, Nat.zero_sub, List.take_zero, List.drop_zero]
    rw [← h₀]

theorem padding_eq (v : VisionUnpadder) (b : List UInt8) :
    v.padding b =
      ({ v with remainingPadding := v.remainingPadding - b.length },
        b.drop v.remainingPadding) := by
  unfold padding
  split
  · dsimp only
    rw [← List.drop_eq_drop_min, ← Nat.sub_eq_sub_min]
  · next h =>
    have h₀ : v.remainingPadding = 0 := by omega
    simp only [h₀, Nat.zero_sub, List.drop_zero]
    rw [← h₀]

/-- The padded part of the stream is being read. -/
structure Reading (v : VisionUnpadder) : Prop where
  not_direct : v.direct = false
  is_started : v.started = true

variable {v : VisionUnpadder}

theorem header_short (hr : v.readingHeader = true) {b : List UInt8} (hb : b.length < 5) :
    v.header b = none := by
  unfold header
  rw [if_pos hr]
  split
  · simp only [List.length_cons] at hb
    omega
  · rfl

theorem header_of_not_reading (hr : v.readingHeader = false) (b : List UInt8) :
    v.header b = some (v, b) := by
  unfold header
  rw [if_neg (by simp [hr])]

/-! ## The relation -/

/-- The states of the two decoders that belong together. -/
inductive Agrees (v : VisionUnpadder) (u : Unpadder) : Prop
  /-- The padding is over, or there never was any. -/
  | direct (hv : v.direct = true) (hu : u.finished = true ∨ u.passthrough = true)
  /-- Both wait for the opening 21 bytes. -/
  | collecting (hv : v.direct = false) (hs : v.started = false) (hu : u.Collecting)
      (hdirect : u.direct = false) (hpending : v.pending = u.pending)
      (huuid : v.uuid = u.userUuid)
  /-- Fewer than five bytes of a header have come: one decoder keeps them, the other has been at
  the block boundary `u₀` and has had them pushed. -/
  | header (hv : v.Reading) (hr : v.readingHeader = true) (hshort : v.pending.length < 5)
      (u₀ : Unpadder) (hu₀ : u₀.AtBlock) (hpush : u₀.push v.pending = (u, []))
  /-- Some of the content or padding of a block is outstanding. -/
  | body (hv : v.Reading) (hr : v.readingHeader = false) (hpending : v.pending = [])
      (u₀ : Unpadder) (hu₀ : u₀.AtBlock) (hsome : 0 < v.remainingContent ∨ 0 < v.remainingPadding)
      (hcontent : v.remainingContent < 65536) (hpadding : v.remainingPadding < 65536)
      (hu : u = u₀.inBlock v.currentCommand v.remainingContent v.remainingPadding)

/-- The two decoders emitted the same and are in states that belong together. -/
def Matches (r : VisionUnpadder × List UInt8) (r' : Unpadder × List UInt8) : Prop :=
  Agrees r.1 r'.1 ∧ r.2 = r'.2

/-- What both have already emitted does not matter to what comes second. -/
theorem Matches.after {u : Unpadder} {out : List UInt8}
    {f : VisionUnpadder → VisionUnpadder × List UInt8} {g : Unpadder → Unpadder × List UInt8}
    (h : Matches (f v) (g u)) : Matches (andThen (v, out) f) (andThen (u, out) g) := by
  refine ⟨h.1, ?_⟩
  rw [andThen_snd, andThen_snd, h.2]

/-! ## The simulation -/

/-- The loop breaks off inside a block: the input is used up, and both decoders have the same
content and padding outstanding. -/
theorem matches_break (hv : v.Reading) (hr : v.readingHeader = false) (hpending : v.pending = [])
    (hsome : 0 < v.remainingContent ∨ 0 < v.remainingPadding)
    (hcontent : v.remainingContent < 65536) (hpadding : v.remainingPadding < 65536) {u₀ : Unpadder}
    (hu₀ : u₀.AtBlock) (out : List UInt8) :
    Matches (v, out)
      (andThen ((u₀.inBlock v.currentCommand v.remainingContent v.remainingPadding).settle, out)
        fun u => u.push []) := by
  have hrun := hu₀.inBlock_running v.currentCommand hsome hcontent hpadding
  have hnil := Unpadder.chunkFree_push.nil _ (Or.inr (Or.inr (Or.inr hrun)))
  rw [Unpadder.inBlock_settle_of_pos u₀ _ hsome]
  refine ⟨?_, ?_⟩
  · rw [andThen_fst, hnil]
    exact .body hv hr hpending u₀ hu₀ hsome hcontent hpadding rfl
  · rw [andThen_snd, hnil, List.append_nil]

/-- The loop is done with a block: behind a Continue block it goes on at the next boundary, and
behind any other the rest goes out verbatim. -/
theorem matches_blockEnd {again : VisionUnpadder → List UInt8 → VisionUnpadder × List UInt8}
    (hv : v.Reading) {u₀ : Unpadder} (hu₀ : u₀.AtBlock) (rest out : List UInt8)
    (hagain : ∀ (w : VisionUnpadder) (u₁ : Unpadder), w.Reading → w.readingHeader = true →
      u₁.AtBlock → Matches (again w rest) (u₁.push rest)) :
    Matches
      (if v.currentCommand = commandPaddingContinue then
        andThen ({ v with readingHeader := true }, out) fun w => again w rest
      else ({ v with direct := true, pending := [] }, out ++ rest))
      (andThen ((u₀.inBlock v.currentCommand 0 0).settle, out) fun u => u.push rest) := by
  by_cases hcmd : v.currentCommand = commandPaddingContinue
  · have hnext := hu₀.settle_continue
    rw [← hcmd] at hnext
    rw [if_pos hcmd]
    have hrest := hagain { v with readingHeader := true } _ ⟨hv.not_direct, hv.is_started⟩ rfl hnext
    exact hrest.after
  · have hfin := u₀.settle_finished hcmd
    rw [if_neg hcmd]
    refine ⟨?_, ?_⟩
    · rw [andThen_fst, Unpadder.push_finished hfin]
      exact .direct rfl (Or.inl hfin)
    · rw [andThen_snd, Unpadder.push_finished hfin]

/-- The rest of a block, from the state in which its header has been read.  The three exits of
`block` are told apart by what of the block has come; `again` is met at the next boundary, with
the block taken off the input. -/
theorem block_matches {again : VisionUnpadder → List UInt8 → VisionUnpadder × List UInt8}
    (hv : v.Reading) (hr : v.readingHeader = false) (hcontent : v.remainingContent < 65536)
    (hpadding : v.remainingPadding < 65536) {u₀ : Unpadder} (hu₀ : u₀.AtBlock) (b : List UInt8)
    (hagain : ∀ (w : VisionUnpadder) (u₁ : Unpadder) (rest : List UInt8), w.Reading →
      w.readingHeader = true → u₁.AtBlock →
      rest.length + v.remainingContent + v.remainingPadding = b.length →
      Matches (again w rest) (u₁.push rest)) :
    Matches (block again v b)
      ((u₀.inBlock v.currentCommand v.remainingContent v.remainingPadding).settle.push b) := by
  have hdrop : (b.drop v.remainingContent).length = b.length - v.remainingContent :=
    List.length_drop
  rw [hu₀.push_content_cut v.currentCommand hcontent hpadding]
  unfold block
  simp only [content_eq, padding_eq]
  by_cases hc : 0 < v.remainingContent - b.length
  · have hrest : b.drop v.remainingContent = [] := List.drop_of_length_le (by omega)
    rw [if_pos hc, hrest]
    exact matches_break
      (v := { v with remainingContent := v.remainingContent - b.length, pending := [] })
      ⟨hv.not_direct, hv.is_started⟩ hr rfl (Or.inl hc)
      (Nat.lt_of_le_of_lt (Nat.sub_le _ _) hcontent) hpadding hu₀ _
  have hc₀ : v.remainingContent - b.length = 0 := by omega
  rw [if_neg hc, hc₀]
  have hcut : ∀ out : List UInt8,
      andThen ((u₀.inBlock v.currentCommand 0 v.remainingPadding).settle, out)
          (fun u => u.push (b.drop v.remainingContent)) =
        andThen ((u₀.inBlock v.currentCommand 0
            (v.remainingPadding - (b.drop v.remainingContent).length)).settle, out)
          (fun u => u.push ((b.drop v.remainingContent).drop v.remainingPadding)) := by
    intro out
    unfold andThen
    dsimp only
    rw [hu₀.push_padding_cut v.currentCommand hpadding]
  rw [hcut]
  by_cases hp : 0 < v.remainingPadding - (b.drop v.remainingContent).length
  · have hrest : (b.drop v.remainingContent).drop v.remainingPadding = [] :=
      List.drop_of_length_le (by omega)
    rw [if_pos hp, hrest]
    exact matches_break
      (v := { v with
        remainingContent := 0
        remainingPadding := v.remainingPadding - (b.drop v.remainingContent).length
        pending := [] })
      ⟨hv.not_direct, hv.is_started⟩ hr rfl (Or.inr hp) (Nat.zero_lt_succ _)
      (Nat.lt_of_le_of_lt (Nat.sub_le _ _) hpadding) hu₀ _
  have hp₀ : v.remainingPadding - (b.drop v.remainingContent).length = 0 := by omega
  rw [if_neg hp, hp₀]
  refine matches_blockEnd (v := { v with remainingContent := 0, remainingPadding := 0 })
    ⟨hv.not_direct, hv.is_started⟩ hu₀ _ _ fun w u₁ hw hread hu₁ => hagain w u₁ _ hw hread hu₁ ?_
  rw [List.length_drop, hdrop]
  omega

/-- **The loop, from a block boundary.**  The induction is on the fuel; a turn takes at least the
five bytes of a header. -/
theorem loop_matches : ∀ (fuel : ℕ) {v : VisionUnpadder} {u₀ : Unpadder} (b : List UInt8),
    v.Reading → v.readingHeader = true → u₀.AtBlock → b.length < fuel →
    Matches (loop fuel v b) (u₀.push b)
  | 0, _, _, _, _, _, _, hlt => absurd hlt (Nat.not_lt_zero _)
  | fuel + 1, v, u₀, b, hv, hr, hu₀, hlt => by
    by_cases hshort : b.length < 5
    · have hnone := (hu₀.push_short hshort).2
      rw [loop, header_short hr hshort]
      exact ⟨.header ⟨hv.not_direct, hv.is_started⟩ hr hshort u₀ hu₀ (Prod.ext rfl hnone),
        hnone.symm⟩
    · match b, hlt, hshort with
      | command :: c₁ :: c₀ :: p₁ :: p₀ :: rest, hlt, _ =>
        have hvalid : u₀.Valid := Or.inr (Or.inr (Or.inr hu₀.toRunning))
        have hpush : u₀.push (command :: c₁ :: c₀ :: p₁ :: p₀ :: rest) =
            (u₀.inBlock command (be16 c₁ c₀) (be16 p₁ p₀)).settle.push rest := by
          have happend := Unpadder.chunkFree_push.append u₀ [command, c₁, c₀, p₁, p₀] rest hvalid
          rw [hu₀.push_header_bytes, andThen_nil] at happend
          exact happend
        rw [loop, header, if_pos hr, hpush]
        refine block_matches (v := { v with
            currentCommand := command, remainingContent := be16 c₁ c₀,
            remainingPadding := be16 p₁ p₀, readingHeader := false })
          ⟨hv.not_direct, hv.is_started⟩ rfl (be16_lt _ _) (be16_lt _ _) hu₀ rest ?_
        intro w u₁ tail hw hread hu₁ hlen
        simp only [List.length_cons] at hlt
        exact loop_matches fuel tail hw hread hu₁ (by omega)
      | [], _, h => exact absurd (Nat.zero_lt_succ _) h
      | [_], _, h => exact absurd (by decide : 1 < 5) h
      | [_, _], _, h => exact absurd (by decide : 2 < 5) h
      | [_, _, _], _, h => exact absurd (by decide : 3 < 5) h
      | [_, _, _, _], _, h => exact absurd (by decide : 4 < 5) h

/-- **One push.**  One case for each way the two states can belong together. -/
theorem push_matches (v : VisionUnpadder) (u : Unpadder) (c : List UInt8) (h : Agrees v u) :
    Matches (v.push c) (u.push c) := by
  cases h with
  | direct hv hu =>
    have hpush : u.push c = (u, c) :=
      hu.elim (fun hf => Unpadder.push_finished hf c) fun hp => Unpadder.push_passthrough hp c
    rw [push, if_pos hv, hpush]
    exact ⟨.direct hv hu, rfl⟩
  | collecting hv hs hu hdirect hpending huuid =>
    rw [push, if_neg (by simp [hv]), if_pos hs, hu.push_eq, hpending, huuid]
    dsimp only
    by_cases hshort : (u.pending ++ c).length < 21
    · rw [if_pos hshort, if_pos hshort]
      exact ⟨.collecting hv hs ⟨hu.not_finished, hu.not_passthrough, hu.not_started, hshort⟩
        hdirect rfl rfl, rfl⟩
    rw [if_neg hshort, if_neg hshort]
    by_cases hmatch : (u.pending ++ c).take 16 = u.userUuid.toList
    · rw [if_pos hmatch, if_neg (not_not.mpr hmatch), ← hu.start_running.push_eq]
      exact loop_matches _ _ ⟨hv, rfl⟩ rfl ⟨hu.start_running, rfl, hdirect⟩ (Nat.lt_succ_self _)
    · rw [if_neg hmatch, if_pos hmatch]
      exact ⟨.direct rfl (Or.inr rfl), rfl⟩
  | header hv hr hshort u₀ hu₀ hpush =>
    have hvalid : u₀.Valid := Or.inr (Or.inr (Or.inr hu₀.toRunning))
    have happend := Unpadder.chunkFree_push.append u₀ v.pending c hvalid
    rw [hpush, andThen_nil] at happend
    rw [push, if_neg (by simp [hv.not_direct]), if_neg (by simp [hv.is_started]), ← happend]
    exact loop_matches _ _ hv hr hu₀ (Nat.lt_succ_self _)
  | body hv hr hpending u₀ hu₀ hsome hcontent hpadding hu =>
    rw [push, if_neg (by simp [hv.not_direct]), if_neg (by simp [hv.is_started]), hpending,
      List.nil_append, loop, header_of_not_reading hr, hu,
      ← Unpadder.inBlock_settle_of_pos u₀ _ hsome]
    refine block_matches hv hr hcontent hpadding hu₀ c fun w u₁ rest hw hread hu₁ hlen => ?_
    exact loop_matches _ _ hw hread hu₁ (by omega)

theorem agrees_new (uuid : Uuid) : Agrees (new uuid) (Unpadder.new uuid) :=
  .collecting rfl rfl ⟨rfl, rfl, rfl, by simp [Unpadder.new]⟩ rfl rfl rfl

/-- The flags of two states that belong together. -/
theorem Agrees.isDirect_iff {u : Unpadder} (h : Agrees v u) :
    v.isDirect = true ↔ u.finished = true ∨ u.passthrough = true := by
  unfold isDirect
  cases h with
  | direct hv hu => simp [hv, hu]
  | collecting hv hs hu => simp [hv, hu.not_finished, hu.not_passthrough]
  | header hv hr hshort u₀ hu₀ hpush =>
    have hrun : (u₀.push v.pending).1.Running := (hu₀.push_short hshort).1
    rw [hpush] at hrun
    dsimp only at hrun
    simp [hv.not_direct, hrun.not_finished, hrun.not_passthrough]
  | body hv hr hpending u₀ hu₀ hsome hcontent hpadding hu =>
    have hrun := hu₀.inBlock_running v.currentCommand hsome hcontent hpadding
    rw [← hu] at hrun
    simp [hv.not_direct, hrun.not_finished, hrun.not_passthrough]

end VisionUnpadder

/-- **The two Vision decoders are equivalent.**  For every UUID and after every sequence of chunks
they have emitted the same bytes, and the one of `donut_wire` is direct exactly when the one of
`donut_io` is done with the padding or has found none. -/
theorem visionUnpadder_agrees (uuid : Uuid) (chunks : List (List UInt8)) :
    let v := pushAll VisionUnpadder.push (VisionUnpadder.new uuid) chunks
    let u := pushAll Unpadder.push (Unpadder.new uuid) chunks
    v.2 = u.2 ∧ (v.1.isDirect = true ↔ u.1.finished = true ∨ u.1.passthrough = true) := by
  have h := pushAll_simulation VisionUnpadder.Agrees VisionUnpadder.push_matches chunks
    (VisionUnpadder.agrees_new uuid)
  exact ⟨h.2, h.1.isDirect_iff⟩

end Wire
end HoldTheDonut
