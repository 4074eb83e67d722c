import HoldTheDonut.Vision.Padding
import Mathlib.Tactic.Linarith

/-!
# The unpadder does not see chunk boundaries

`Unpadder.push` is fed one outer-TLS record at a time, and a record boundary may
fall anywhere: inside the UUID, inside a block header, between content and
padding.  This file proves that none of that is visible: on the states `push` can
reach, it is a `ChunkFree` transducer.

The argument peels off one byte at a time (`ChunkFree.of_cons`), and its only
difficulty is that the loop of `process` does *not*: a turn of the loop takes as
many content or padding bytes as are there.  `processLoop_take_content` and
`processLoop_take_padding` cut such a turn after its first byte.  What makes the
loop progress at all is the invariant `Live`: while a block is running, either
header bytes are outstanding, or content, or padding.  Without it the padding
branch could take zero bytes for ever.
-/

namespace HoldTheDonut
namespace Vision
namespace Unpadder

open Streaming

/-! ## The counters of a running block -/

/-- What the counters satisfy from the first header byte to the last padding
byte.  The half-read lengths are multiples of `256`, which is what makes the `|=`
of the next byte an addition. -/
structure Counted (u : Unpadder) : Prop where
  command_nonneg : 0 ≤ u.remainingCommand
  command_le : u.remainingCommand ≤ 5
  content_high : u.remainingCommand = 3 → ∃ hi : UInt8, u.remainingContent = hi.toNat * 256
  content_range : u.remainingCommand ≤ 2 → 0 ≤ u.remainingContent ∧ u.remainingContent < 2 ^ 16
  padding_high : u.remainingCommand = 1 → ∃ hi : UInt8, u.remainingPadding = hi.toNat * 256
  padding_range : u.remainingCommand ≤ 0 → 0 ≤ u.remainingPadding ∧ u.remainingPadding < 2 ^ 16

/-- A block is running: the counters are in order and something is outstanding. -/
structure Live (u : Unpadder) : Prop extends Counted u where
  not_done : ¬ u.BlockDone

variable {u : Unpadder}

/-- Behind the header only the two lengths are left to be in order. -/
theorem counted_of_header_read (h₀ : u.remainingCommand = 0)
    (hcontent : 0 ≤ u.remainingContent ∧ u.remainingContent < 2 ^ 16)
    (hpadding : 0 ≤ u.remainingPadding ∧ u.remainingPadding < 2 ^ 16) : u.Counted where
  command_nonneg := h₀.ge
  command_le := by omega
  content_high h := absurd h (by omega)
  content_range _ := hcontent
  padding_high h := absurd h (by omega)
  padding_range _ := hpadding

theorem asUsize_of_nonneg {i : ℤ} (h₀ : 0 ≤ i) (h₁ : i < 2 ^ 16) : asUsize i = i.toNat := by
  unfold asUsize
  rw [Int.emod_eq_of_lt h₀ (by omega)]

/-- A high byte and a low byte do not overlap, so `|=` is addition. -/
theorem lor_high_low (hi lo : UInt8) :
    Int.lor (hi.toNat * 256 : ℤ) (lo.toNat : ℤ) = be16 hi lo := by
  have hlo : lo.toNat < 2 ^ 8 := lo.toNat_lt
  have h := Nat.two_pow_add_eq_or_of_lt hlo hi.toNat
  have hcast : (hi.toNat * 256 : ℤ) = ((2 ^ 8 * hi.toNat : ℕ) : ℤ) := by
    push_cast
    ring
  rw [hcast]
  change ((2 ^ 8 * hi.toNat ||| lo.toNat : ℕ) : ℤ) = _
  rw [← h]
  unfold be16
  push_cast
  ring

theorem Counted.readHeader (h : u.Counted) (hc : 0 < u.remainingCommand) (data : UInt8) :
    (u.readHeader data).Counted := by
  have hdata := data.toNat_lt
  have hle := h.command_le
  -- the five header positions, the most significant first
  obtain h5 | h4 | h3 | h2 | h1 : u.remainingCommand = 5 ∨ u.remainingCommand = 4 ∨
      u.remainingCommand = 3 ∨ u.remainingCommand = 2 ∨ u.remainingCommand = 1 := by omega
  · constructor <;> simp [Unpadder.readHeader, h5]
  · constructor <;> simp [Unpadder.readHeader, h4]
  · obtain ⟨hi, hhi⟩ := h.content_high h3
    have hlt := be16_lt hi data
    constructor <;> simp [Unpadder.readHeader, h3, hhi, lor_high_low]
    omega
  · have hr := h.content_range (by omega)
    constructor <;> simp [Unpadder.readHeader, h2]
    omega
  · obtain ⟨hi, hhi⟩ := h.padding_high h1
    have hlt := be16_lt hi data
    have hr := h.content_range (by omega)
    constructor <;> simp [Unpadder.readHeader, h1, hhi, lor_high_low]
    · omega
    · omega

/-! ## One turn of the loop -/

theorem consume_command (h : 0 < u.remainingCommand) (x : UInt8) (c : List UInt8) :
    u.consume (x :: c) = (u.readHeader x, [], c) := by
  simp only [consume, if_pos h]

/-- A turn that takes content takes all there is of it. -/
theorem consume_content (h₀ : u.remainingCommand = 0) (h : 0 < u.remainingContent)
    (hlt : u.remainingContent < 2 ^ 16) (b : List UInt8) :
    u.consume b =
      ({ u with
          remainingContent := u.remainingContent - (min u.remainingContent.toNat b.length : ℕ) },
        b.take u.remainingContent.toNat, b.drop u.remainingContent.toNat) := by
  have hu : asUsize u.remainingContent = u.remainingContent.toNat :=
    asUsize_of_nonneg (by omega) hlt
  simp only [consume, h₀, lt_irrefl, if_false, if_pos h, hu]
  rw [← List.take_eq_take_min, ← List.drop_eq_drop_min]

/-- A turn that takes padding takes all there is of it, and emits nothing. -/
theorem consume_padding (h₀ : u.remainingCommand = 0) (h : u.remainingContent = 0)
    (hp : 0 ≤ u.remainingPadding) (hlt : u.remainingPadding < 2 ^ 16) (b : List UInt8) :
    u.consume b =
      ({ u with
          remainingPadding := u.remainingPadding - (min u.remainingPadding.toNat b.length : ℕ) },
        [], b.drop u.remainingPadding.toNat) := by
  have hu : asUsize u.remainingPadding = u.remainingPadding.toNat := asUsize_of_nonneg hp hlt
  simp only [consume, h₀, h, lt_irrefl, if_false, hu]
  rw [← List.drop_eq_drop_min]

/-- The three situations of a running block. -/
theorem Live.cases (h : u.Live) :
    0 < u.remainingCommand ∨
    (u.remainingCommand = 0 ∧ 0 < u.remainingContent ∧ u.remainingContent < 2 ^ 16 ∧
      0 ≤ u.remainingPadding ∧ u.remainingPadding < 2 ^ 16) ∨
    (u.remainingCommand = 0 ∧ u.remainingContent = 0 ∧ 0 < u.remainingPadding ∧
      u.remainingPadding < 2 ^ 16) := by
  have hd := h.not_done
  have hc := h.command_nonneg
  by_cases h0 : 0 < u.remainingCommand
  · exact Or.inl h0
  · have hz : u.remainingCommand = 0 := by omega
    have hr := h.content_range (by omega)
    have hp := h.padding_range (by omega)
    unfold BlockDone at hd
    omega

variable {b : List UInt8}

theorem Live.consume_counted (h : u.Live) (hb : b ≠ []) : (u.consume b).1.Counted := by
  obtain ⟨x, c, rfl⟩ := List.exists_cons_of_ne_nil hb
  rcases h.cases with hc | ⟨h0, hr, hlt, hp, hplt⟩ | ⟨h0, hr, hp, hlt⟩
  · rw [consume_command hc]
    exact h.toCounted.readHeader hc x
  · rw [consume_content h0 hr hlt]
    refine counted_of_header_read h0 ?_ ⟨hp, hplt⟩
    dsimp only
    omega
  · rw [consume_padding h0 hr hp.le hlt]
    refine counted_of_header_read h0 ⟨hr.ge, by dsimp only; omega⟩ ?_
    dsimp only
    omega

/-- Every turn of the loop makes progress. -/
theorem Live.consume_length_lt (h : u.Live) (hb : b ≠ []) :
    (u.consume b).2.2.length < b.length := by
  obtain ⟨x, c, rfl⟩ := List.exists_cons_of_ne_nil hb
  rcases h.cases with hc | ⟨h0, hr, hlt, -, -⟩ | ⟨h0, hr, hp, hlt⟩
  · rw [consume_command hc]
    simp
  · rw [consume_content h0 hr hlt]
    simp only [List.length_drop, List.length_cons]
    omega
  · rw [consume_padding h0 hr hp.le hlt]
    simp only [List.length_drop, List.length_cons]
    omega

theorem nextBlock_live (u : Unpadder) : u.nextBlock.Live := by
  refine ⟨?_, ?_⟩
  · constructor <;> simp [nextBlock]
  · simp [BlockDone, nextBlock]

/-! ## The loop, without its fuel -/

/-- What the second half of a turn does with the first half: end the block, end
the padding, or go on. -/
def settle (u : Unpadder) : Unpadder :=
  if u.BlockDone then if u.currentCommand = 0 then u.nextBlock else u.finish else u

theorem finished_finish (u : Unpadder) : u.finish.finished = true := rfl

theorem Counted.settle_live (h : u.Counted) (hf : u.settle.finished = false) :
    u.settle.Live := by
  unfold settle at hf ⊢
  by_cases hd : u.BlockDone
  · rw [if_pos hd] at hf ⊢
    by_cases hc : u.currentCommand = 0
    · rw [if_pos hc]
      exact u.nextBlock_live
    · rw [if_neg hc] at hf
      exact absurd hf (by simp [finished_finish])
  · rw [if_neg hd]
    exact ⟨h, hd⟩

/-- The rest of the input after a turn: verbatim once the padding is over. -/
def resume (fuel : ℕ) (u : Unpadder) (rest : List UInt8) : Unpadder × List UInt8 :=
  if u.finished = true then (u, rest) else processLoop fuel u rest

@[simp] theorem processLoop_nil (fuel : ℕ) (u : Unpadder) : processLoop fuel u [] = (u, []) := by
  cases fuel with
  | zero => rfl
  | succ fuel => simp only [processLoop, if_true]

/-- The counters are all that the first half of a turn touches. -/
theorem consume_frame (u : Unpadder) (b : List UInt8) :
    (u.consume b).1.finished = u.finished ∧ (u.consume b).1.passthrough = u.passthrough ∧
      (u.consume b).1.started = u.started := by
  unfold consume
  split
  · cases b with
    | nil => exact ⟨rfl, rfl, rfl⟩
    | cons x c =>
      simp only [readHeader]
      split <;> exact ⟨rfl, rfl, rfl⟩
  · split <;> exact ⟨rfl, rfl, rfl⟩

theorem settle_frame (u : Unpadder) :
    u.settle.passthrough = u.passthrough ∧ u.settle.started = u.started := by
  unfold settle
  split
  · split <;> exact ⟨rfl, rfl⟩
  · exact ⟨rfl, rfl⟩

/-- A turn of the loop is `consume`, then `settle`, then the rest. -/
theorem processLoop_succ (fuel : ℕ) (hf : u.finished = false) (hb : b ≠ []) :
    processLoop (fuel + 1) u b =
      andThen ((u.consume b).1.settle, (u.consume b).2.1)
        fun v => resume fuel v (u.consume b).2.2 := by
  have hfin : (u.consume b).1.finished = false := by rw [(consume_frame u b).1, hf]
  simp only [processLoop, if_neg hb, settle, resume]
  by_cases hd : (u.consume b).1.BlockDone
  · by_cases hc : (u.consume b).1.currentCommand = 0
    · rw [if_pos hd, if_pos hc, if_pos hd, if_pos hc]
      exact andThen_congr (by rw [if_neg (by simp [nextBlock, hfin])])
    · rw [if_pos hd, if_neg hc, if_pos hd, if_neg hc]
      rfl
  · rw [if_neg hd, if_neg hd]
    exact andThen_congr (by rw [if_neg (by simp [hfin])])

/-- Fuel beyond the length of the input changes nothing. -/
theorem processLoop_fuel : ∀ (fuel : ℕ) (u : Unpadder) (b : List UInt8), u.Live →
    u.finished = false → b.length ≤ fuel → processLoop (fuel + 1) u b = processLoop fuel u b
  | 0, u, b, _, _, hlen => by
    have hb : b = [] := List.eq_nil_of_length_eq_zero (by omega)
    rw [hb, processLoop_nil, processLoop_nil]
  | fuel + 1, u, b, hu, hf, hlen => by
    by_cases hb : b = []
    · rw [hb, processLoop_nil, processLoop_nil]
    · rw [processLoop_succ _ hf hb, processLoop_succ _ hf hb]
      apply andThen_congr
      unfold resume
      by_cases hfin : (u.consume b).1.settle.finished = true
      · rw [if_pos hfin, if_pos hfin]
      · rw [if_neg hfin, if_neg hfin]
        have hfin' := Bool.not_eq_true _ ▸ hfin
        have hlt := hu.consume_length_lt hb
        exact processLoop_fuel fuel _ _ ((hu.consume_counted hb).settle_live hfin') hfin' (by omega)

theorem resume_nil (fuel : ℕ) (u : Unpadder) : resume fuel u [] = (u, []) := by
  unfold resume
  rw [processLoop_nil, ite_self]

/-! ## Cutting a turn after its first byte -/

/-- A turn that takes content, cut after its first byte. -/
theorem processLoop_take_content (fuel : ℕ) (hf : u.finished = false) (h₀ : u.remainingCommand = 0)
    (h : 1 < u.remainingContent) (hlt : u.remainingContent < 2 ^ 16) (x : UInt8) {c : List UInt8}
    (hc : c ≠ []) :
    processLoop (fuel + 1) u (x :: c) =
      andThen ({ u with remainingContent := u.remainingContent - 1 }, [x])
        fun v => processLoop (fuel + 1) v c := by
  obtain ⟨n, hn⟩ : ∃ n : ℕ, u.remainingContent = (n + 1 : ℕ) :=
    ⟨u.remainingContent.toNat - 1, by omega⟩
  have hsub : u.remainingContent - 1 = n := by omega
  have hstate : u.remainingContent - (min (n + 1) (x :: c).length : ℕ) =
      (n : ℤ) - (min n c.length : ℕ) := by
    rw [hn, List.length_cons]
    omega
  have htoNat : u.remainingContent.toNat = n + 1 := by omega
  rw [processLoop_succ _ hf (List.cons_ne_nil x c), consume_content h₀ (by omega) hlt]
  unfold andThen
  simp only
  rw [processLoop_succ _ (by exact hf) hc,
    consume_content (by exact h₀) (by simp only; omega) (by simp only; omega)]
  simp only [hsub, hstate, htoNat, Int.toNat_natCast, List.take_succ_cons, List.drop_succ_cons,
    andThen, List.cons_append, List.nil_append]

/-- A turn that takes padding, cut after its first byte. -/
theorem processLoop_take_padding (fuel : ℕ) (hf : u.finished = false) (h₀ : u.remainingCommand = 0)
    (hr : u.remainingContent = 0) (h : 1 < u.remainingPadding) (hlt : u.remainingPadding < 2 ^ 16)
    (x : UInt8) {c : List UInt8} (hc : c ≠ []) :
    processLoop (fuel + 1) u (x :: c) =
      processLoop (fuel + 1) { u with remainingPadding := u.remainingPadding - 1 } c := by
  obtain ⟨n, hn⟩ : ∃ n : ℕ, u.remainingPadding = (n + 1 : ℕ) :=
    ⟨u.remainingPadding.toNat - 1, by omega⟩
  have hsub : u.remainingPadding - 1 = n := by omega
  have hstate : u.remainingPadding - (min (n + 1) (x :: c).length : ℕ) =
      (n : ℤ) - (min n c.length : ℕ) := by
    rw [hn, List.length_cons]
    omega
  have htoNat : u.remainingPadding.toNat = n + 1 := by omega
  rw [processLoop_succ _ hf (List.cons_ne_nil x c), consume_padding h₀ hr (by omega) hlt]
  rw [processLoop_succ _ (by exact hf) hc,
    consume_padding (by exact h₀) (by exact hr) (by simp only; omega) (by simp only; omega)]
  simp only [hsub, hstate, htoNat, Int.toNat_natCast, List.drop_succ_cons]

/-- What a turn on a single byte does, when it is a whole turn of its own. -/
theorem process_singleton (hf : u.finished = false) (x : UInt8) (hrest : (u.consume [x]).2.2 = []) :
    u.process [x] = ((u.consume [x]).1.settle, (u.consume [x]).2.1) := by
  unfold process
  rw [List.length_singleton, processLoop_succ _ hf (List.cons_ne_nil x []), hrest]
  simp only [andThen, resume_nil, List.append_nil]

/-- A turn that would take exactly one byte however much input there is. -/
theorem process_cons_of_consume (hf : u.finished = false) (x : UInt8) (c : List UInt8)
    (h : u.consume (x :: c) = ((u.consume [x]).1, (u.consume [x]).2.1, c))
    (hrest : (u.consume [x]).2.2 = []) :
    u.process (x :: c) = andThen (u.process [x]) fun v => resume c.length v c := by
  rw [process_singleton hf x hrest]
  unfold process
  rw [List.length_cons, processLoop_succ _ hf (List.cons_ne_nil x c), h]

/-- A turn that goes on behind its first byte, `v` being the state there. -/
theorem process_cons_of_cut {u v : Unpadder} {out : List UInt8} (hv : v.Live)
    (hf : v.finished = false) {x : UInt8} {c : List UInt8} (hsingle : u.process [x] = (v, out))
    (hcut : c ≠ [] → ∀ fuel, processLoop (fuel + 1) u (x :: c) =
      andThen (v, out) fun w => processLoop (fuel + 1) w c) :
    u.process (x :: c) = andThen (u.process [x]) fun w => resume c.length w c := by
  by_cases hc : c = []
  · rw [hc]
    simp [andThen, resume_nil]
  · rw [hsingle]
    unfold process
    rw [List.length_cons, hcut hc]
    apply andThen_congr
    unfold resume
    rw [if_neg (by simp [hf])]
    exact processLoop_fuel _ _ _ hv hf le_rfl

/-- **One byte at a time.**  The three cases are the three branches of the loop;
content and padding turns of more than one byte are cut by the lemmas above. -/
theorem Live.process_cons (hu : u.Live) (hf : u.finished = false) (x : UInt8) (c : List UInt8) :
    u.process (x :: c) = andThen (u.process [x]) fun v => resume c.length v c := by
  rcases hu.cases with hc | ⟨h0, hr, hlt, hp, hplt⟩ | ⟨h0, hr, hp, hlt⟩
  · apply process_cons_of_consume hf <;> simp [consume_command hc]
  · by_cases hone : u.remainingContent = 1
    · apply process_cons_of_consume hf <;> simp [consume_content h0 hr hlt, hone]
    · have hdone : ¬ BlockDone { u with remainingContent := u.remainingContent - 1 } := by
        simp only [BlockDone]
        omega
      have hlive : Live { u with remainingContent := u.remainingContent - 1 } := by
        refine ⟨counted_of_header_read h0 ?_ ⟨hp, hplt⟩, hdone⟩
        dsimp only
        omega
      have hsingle : u.process [x] =
          ({ u with remainingContent := u.remainingContent - 1 }, [x]) := by
        rw [process_singleton hf x (by simp [consume_content h0 hr hlt]; omega),
          consume_content h0 hr hlt]
        have hmin : (min u.remainingContent.toNat [x].length : ℕ) = 1 := by
          rw [List.length_singleton]
          omega
        rw [hmin, List.take_of_length_le (by rw [List.length_singleton]; omega)]
        simp only [settle, Nat.cast_one, if_neg hdone]
      exact process_cons_of_cut hlive hf hsingle fun hc fuel =>
        processLoop_take_content fuel hf h0 (by omega) hlt x hc
  · by_cases hone : u.remainingPadding = 1
    · apply process_cons_of_consume hf <;> simp [consume_padding h0 hr hp.le hlt, hone]
    · have hdone : ¬ BlockDone { u with remainingPadding := u.remainingPadding - 1 } := by
        simp only [BlockDone]
        omega
      have hlive : Live { u with remainingPadding := u.remainingPadding - 1 } := by
        refine ⟨counted_of_header_read h0 ⟨hr.ge, by dsimp only; omega⟩ ?_, hdone⟩
        dsimp only
        omega
      have hsingle : u.process [x] =
          ({ u with remainingPadding := u.remainingPadding - 1 }, []) := by
        rw [process_singleton hf x (by simp [consume_padding h0 hr hp.le hlt]; omega),
          consume_padding h0 hr hp.le hlt]
        have hmin : (min u.remainingPadding.toNat [x].length : ℕ) = 1 := by
          rw [List.length_singleton]
          omega
        rw [hmin]
        simp only [settle, Nat.cast_one, if_neg hdone]
      exact process_cons_of_cut hlive hf hsingle fun hc fuel =>
        processLoop_take_padding fuel hf h0 hr (by omega) hlt x hc

/-! ## A running block keeps running -/

/-- The unpadder is past its UUID and inside a block. -/
structure Running (u : Unpadder) : Prop extends Live u where
  not_finished : u.finished = false
  not_passthrough : u.passthrough = false
  is_started : u.started = true

/-- A running unpadder keeps running until the last block is over. -/
theorem Running.processLoop : ∀ (fuel : ℕ) {u : Unpadder} (b : List UInt8), u.Running →
    (processLoop fuel u b).1.finished = true ∨ (processLoop fuel u b).1.Running
  | 0, _, _, hu => Or.inr hu
  | fuel + 1, u, b, hu => by
    by_cases hb : b = []
    · rw [hb, processLoop_nil]
      exact Or.inr hu
    · rw [processLoop_succ fuel hu.not_finished hb, andThen_fst]
      unfold resume
      by_cases hfin : (u.consume b).1.settle.finished = true
      · rw [if_pos hfin]
        exact Or.inl hfin
      · rw [if_neg hfin]
        have hfin' := Bool.not_eq_true _ ▸ hfin
        refine Running.processLoop fuel _ ⟨?_, hfin', ?_, ?_⟩
        · exact (hu.toLive.consume_counted hb).settle_live hfin'
        · rw [(settle_frame _).1, (consume_frame u b).2.1, hu.not_passthrough]
        · rw [(settle_frame _).2, (consume_frame u b).2.2, hu.is_started]

/-! ## `push` -/

/-- The opening 21 bytes are still being collected. -/
structure Collecting (u : Unpadder) : Prop where
  not_finished : u.finished = false
  not_passthrough : u.passthrough = false
  not_started : u.started = false
  short : u.pending.length < 21

/-- The states `push` moves among: the padding is over, the stream turned out not
to be padded, the opening bytes are being collected, or a block runs. -/
def Valid (u : Unpadder) : Prop :=
  u.finished = true ∨ u.passthrough = true ∨ u.Collecting ∨ u.Running

theorem valid_new (uuid : Uuid) : (new uuid).Valid :=
  Or.inr (Or.inr (Or.inl ⟨rfl, rfl, rfl, by simp [new]⟩))

theorem push_finished (h : u.finished = true) (input : List UInt8) :
    u.push input = (u, input) := by
  unfold push
  rw [if_pos h]

theorem push_passthrough (h : u.passthrough = true) (input : List UInt8) :
    u.push input = (u, input) := by
  unfold push
  rw [if_pos h, ite_self]

theorem Running.push_eq (h : u.Running) (input : List UInt8) :
    u.push input = u.process input := by
  unfold push
  rw [if_neg (by simp [h.not_finished]), if_neg (by simp [h.not_passthrough]),
    if_neg (by simp [h.is_started])]

/-- `push` before the UUID has been seen. -/
theorem Collecting.push_eq (h : u.Collecting) (input : List UInt8) :
    u.push input =
      if (u.pending ++ input).length < 21 then ({ u with pending := u.pending ++ input }, [])
      else if (u.pending ++ input).take 16 ≠ u.userUuid.toList then
        ({ u with passthrough := true, pending := [] }, u.pending ++ input)
      else u.start.process ((u.pending ++ input).drop 16) := by
  unfold push
  rw [if_neg (by simp [h.not_finished]), if_neg (by simp [h.not_passthrough]),
    if_pos h.not_started]

theorem Collecting.start_running (h : u.Collecting) : u.start.Running := by
  refine ⟨⟨?_, ?_⟩, h.not_finished, h.not_passthrough, rfl⟩
  · constructor <;> simp [start]
  · simp [BlockDone, start]

theorem Running.valid_process (h : u.Running) (input : List UInt8) :
    (u.process input).1.Valid := by
  rcases Running.processLoop input.length input h with hf | hr
  · exact Or.inl hf
  · exact Or.inr (Or.inr (Or.inr hr))

/-- Reading on from what a running block became is one more `push`. -/
theorem resume_eq_push {v : Unpadder} (h : v.finished = true ∨ v.Running) (c : List UInt8) :
    resume c.length v c = v.push c := by
  unfold resume
  rcases h with hf | hr
  · rw [if_pos hf, push_finished hf]
  · rw [if_neg (by simp [hr.not_finished]), hr.push_eq]
    rfl

theorem Running.push_cons (h : u.Running) (x : UInt8) (c : List UInt8) :
    u.push (x :: c) = andThen (u.push [x]) fun v => v.push c := by
  rw [h.push_eq, h.push_eq, h.toLive.process_cons h.not_finished]
  exact andThen_congr (resume_eq_push (Running.processLoop _ [x] h) c)

/-- A running block is chunk-free; what `start` hands to `process` needs this for
more than one byte. -/
theorem chunkFree_running :
    ChunkFree push (fun u : Unpadder => u.finished = true ∨ u.Running) := by
  refine ChunkFree.of_cons ?_ ?_ ?_
  · rintro u c (hf | hr)
    · rw [push_finished hf]
      exact Or.inl hf
    · rw [hr.push_eq]
      exact Running.processLoop _ c hr
  · rintro u (hf | hr)
    · rw [push_finished hf]
    · rw [hr.push_eq]
      exact processLoop_nil _ u
  · rintro u x c (hf | hr)
    · rw [push_finished hf, push_finished hf, andThen, push_finished hf]
      rfl
    · exact hr.push_cons x c

theorem valid_push (u : Unpadder) (c : List UInt8) (h : u.Valid) : (u.push c).1.Valid := by
  rcases h with hf | hp | hc | hr
  · rw [push_finished hf]
    exact Or.inl hf
  · rw [push_passthrough hp]
    exact Or.inr (Or.inl hp)
  · rw [hc.push_eq]
    split
    · next hlt =>
      exact Or.inr (Or.inr (Or.inl ⟨hc.not_finished, hc.not_passthrough, hc.not_started, hlt⟩))
    · split
      · exact Or.inr (Or.inl rfl)
      · exact hc.start_running.valid_process _
  · rw [hr.push_eq]
    exact hr.valid_process c

/-- The opening 21 bytes, one byte at a time.  The byte that completes them decides
the stream; everything before it only lengthens the buffer. -/
theorem Collecting.push_cons (h : u.Collecting) (x : UInt8) (c : List UInt8) :
    u.push (x :: c) = andThen (u.push [x]) fun v => v.push c := by
  have hassoc : u.pending ++ x :: c = u.pending ++ [x] ++ c := by simp
  rw [h.push_eq (x :: c), h.push_eq [x], hassoc]
  by_cases hshort : (u.pending ++ [x]).length < 21
  · have hc : Collecting { u with pending := u.pending ++ [x] } :=
      ⟨h.not_finished, h.not_passthrough, h.not_started, hshort⟩
    rw [if_pos hshort, andThen_nil, hc.push_eq]
    rfl
  · have hfull : (u.pending ++ [x]).length = 21 := by
      have := h.short
      rw [List.length_append, List.length_singleton] at hshort ⊢
      omega
    have htake : (u.pending ++ [x] ++ c).take 16 = (u.pending ++ [x]).take 16 :=
      List.take_append_of_le_length (by omega)
    have hlong : ¬ (u.pending ++ [x] ++ c).length < 21 := by
      rw [List.length_append]
      omega
    rw [if_neg hshort, if_neg hlong, htake]
    by_cases hne : (u.pending ++ [x]).take 16 ≠ u.userUuid.toList
    · rw [if_pos hne, if_pos hne, andThen, push_passthrough rfl]
    · have hrun := h.start_running
      rw [if_neg hne, if_neg hne, List.drop_append_of_le_length (by omega), ← hrun.push_eq,
        ← hrun.push_eq, chunkFree_running.append _ _ _ (Or.inr hrun)]

/-- **The unpadder does not see chunk boundaries.** -/
theorem chunkFree_push : ChunkFree push Valid := by
  refine ChunkFree.of_cons valid_push ?_ ?_
  · rintro u (hf | hp | hc | hr)
    · rw [push_finished hf]
    · rw [push_passthrough hp]
    · rw [hc.push_eq, List.append_nil, if_pos hc.short]
    · rw [hr.push_eq]
      exact processLoop_nil _ u
  · rintro u x c (hf | hp | hc | hr)
    · rw [push_finished hf, push_finished hf, andThen, push_finished hf]
      rfl
    · rw [push_passthrough hp, push_passthrough hp, andThen, push_passthrough hp]
      rfl
    · exact hc.push_cons x c
    · exact hr.push_cons x c

end Unpadder
end Vision
end HoldTheDonut
