import HoldTheDonut.Vision.RoundTrip

/-!
# The unpadder on arbitrary input

What reaches `Unpadder` need not come from `xtls_padding`: the lengths in a block header are
whatever the peer wrote there, the UUID may be missing, and the stream may end anywhere.  Three
things hold all the same, and no assumption about the stream is made for any of them.

*The pieces do not show.*  This is `chunkFree_push`.

*Nothing is made up.*  A turn of the loop hands out bytes of its input or drops them, so what
comes out is the input with bytes left out (`sublist_push_new`).

*No slice goes out of range.*  The counters are `i32`, with `-1` for "not running", and they are
cast to `usize` where the code slices.  `push?` is `push` with every index expression checked, and
with every counter checked that is cast: it has no value where one of them fails or where the loop
would not end.  On the states that can be reached it always has one (`push?_eq`).
-/

namespace HoldTheDonut
namespace Vision
namespace Unpadder

open Streaming

/-! ## Every index checked -/

/-- `n = (counter as usize).min(b.len())` with the slices `b[..n]` and `b[n..]`: there are none if
the counter is negative or an end is out of range. -/
def slice? (counter : ℤ) (b : List UInt8) : Option (List UInt8 × List UInt8) :=
  let n := min (asUsize counter) b.length
  if 0 ≤ counter ∧ n ≤ b.length then some (b.take n, b.drop n) else none

/-- `consume` with its indices checked. -/
def consume? (u : Unpadder) (b : List UInt8) : Option (Unpadder × List UInt8 × List UInt8) :=
  if 0 < u.remainingCommand then
    match b with
    | [] => none
    | data :: rest => some (u.readHeader data, [], rest)
  else if 0 < u.remainingContent then
    (slice? u.remainingContent b).map fun p =>
      ({ u with remainingContent := u.remainingContent - p.1.length }, p.1, p.2)
  else
    (slice? u.remainingPadding b).map fun p =>
      ({ u with remainingPadding := u.remainingPadding - p.1.length }, [], p.2)

/-- The loop of `process` with its indices checked.  It has no value if it does not end. -/
def processLoop? : ℕ → Unpadder → List UInt8 → Option (Unpadder × List UInt8)
  | 0, u, b => if b = [] then some (u, []) else none
  | fuel + 1, u, b =>
    if b = [] then some (u, [])
    else
      (u.consume? b).bind fun r =>
        if r.1.BlockDone then
          if r.1.currentCommand = 0 then
            (processLoop? fuel r.1.nextBlock r.2.2).map fun t => (t.1, r.2.1 ++ t.2)
          else some (r.1.finish, r.2.1 ++ r.2.2)
        else (processLoop? fuel r.1 r.2.2).map fun t => (t.1, r.2.1 ++ t.2)

/-- `push` with its indices checked, those of the opening bytes included. -/
def push? (u : Unpadder) (input : List UInt8) : Option (Unpadder × List UInt8) :=
  if u.finished = true then some (u, input)
  else if u.passthrough = true then some (u, input)
  else if u.started = false then
    let pending := u.pending ++ input
    if pending.length < 21 then some ({ u with pending := pending }, [])
    else if pending.length < 16 then none
    else if pending.take 16 ≠ u.userUuid.toList then
      some ({ u with passthrough := true, pending := [] }, pending)
    else processLoop? (pending.drop 16).length u.start (pending.drop 16)
  else processLoop? input.length u input

/-- Chunk after chunk, as long as no index fails. -/
def pushAll? : Unpadder → List (List UInt8) → Option (Unpadder × List UInt8)
  | u, [] => some (u, [])
  | u, c :: cs =>
    (u.push? c).bind fun r => (pushAll? r.1 cs).map fun t => (t.1, r.2 ++ t.2)

theorem slice?_of_range {i : ℤ} (h₀ : 0 ≤ i) (b : List UInt8) :
    slice? i b =
      some (b.take (min (asUsize i) b.length), b.drop (min (asUsize i) b.length)) :=
  if_pos ⟨h₀, min_le_right _ _⟩

/-- While a block runs, no index of a turn fails. -/
theorem Live.consume?_eq {u : Unpadder} (h : u.Live) {b : List UInt8} (hb : b ≠ []) :
    u.consume? b = some (u.consume b) := by
  obtain ⟨x, c, rfl⟩ := List.exists_cons_of_ne_nil hb
  have hlength : ∀ i : ℤ, ((x :: c).take (min (asUsize i) (x :: c).length)).length =
      min (asUsize i) (x :: c).length := fun i => List.length_take_of_le (min_le_right _ _)
  unfold consume? consume
  rcases h.cases with hc | ⟨h0, hr, -, -, -⟩ | ⟨h0, hr, hp, -⟩
  · rw [if_pos hc, if_pos hc]
  · have hc : ¬0 < u.remainingCommand := by omega
    rw [if_neg hc, if_neg hc, if_pos hr, if_pos hr, slice?_of_range hr.le, Option.map_some]
    simp only [hlength]
  · have hc : ¬0 < u.remainingCommand := by omega
    have hr' : ¬0 < u.remainingContent := by omega
    rw [if_neg hc, if_neg hc, if_neg hr', if_neg hr', slice?_of_range hp.le, Option.map_some]
    simp only [hlength]

/-- A running block is read without a failing index, and its loop ends.  The induction is on the
fuel; every turn takes a byte. -/
theorem Live.processLoop?_eq : ∀ (fuel : ℕ) {u : Unpadder} (b : List UInt8), u.Live →
    u.finished = false → b.length ≤ fuel → processLoop? fuel u b = some (processLoop fuel u b)
  | 0, u, b, _, _, hlen => by
    have hb : b = [] := List.eq_nil_of_length_eq_zero (by omega)
    rw [hb]
    rfl
  | fuel + 1, u, b, hu, hf, hlen => by
    by_cases hb : b = []
    · rw [hb, processLoop_nil]
      rfl
    · have hcounted := hu.consume_counted hb
      have hlt := hu.consume_length_lt hb
      have hfin : (u.consume b).1.finished = false := by rw [(consume_frame u b).1, hf]
      rw [processLoop?, processLoop, if_neg hb, if_neg hb, hu.consume?_eq hb, Option.bind_some]
      dsimp only
      by_cases hd : (u.consume b).1.BlockDone
      · rw [if_pos hd, if_pos hd]
        by_cases hcmd : (u.consume b).1.currentCommand = 0
        · rw [if_pos hcmd, if_pos hcmd,
            Live.processLoop?_eq fuel _ (nextBlock_live _) hfin (by omega)]
          rfl
        · rw [if_neg hcmd, if_neg hcmd]
      · rw [if_neg hd, if_neg hd, Live.processLoop?_eq fuel _ ⟨hcounted, hd⟩ hfin (by omega)]
        rfl

/-- **On a state that can be reached no index of `push` fails.** -/
theorem push?_eq {u : Unpadder} (h : u.Valid) (c : List UInt8) : u.push? c = some (u.push c) := by
  rcases h with hf | hp | hc | hr
  · rw [push?, if_pos hf, push_finished hf]
  · rw [push?, if_pos hp, ite_self, push_passthrough hp]
  · have hrun := hc.start_running
    rw [push?, if_neg (by simp [hc.not_finished]), if_neg (by simp [hc.not_passthrough]),
      if_pos hc.not_started, hc.push_eq]
    dsimp only
    split
    · rfl
    · rw [if_neg (by omega)]
      split
      · rfl
      · exact Live.processLoop?_eq _ _ hrun.toLive hrun.not_finished le_rfl
  · rw [push?, if_neg (by simp [hr.not_finished]), if_neg (by simp [hr.not_passthrough]),
      if_neg (by simp [hr.is_started]), hr.push_eq]
    exact Live.processLoop?_eq _ _ hr.toLive hr.not_finished le_rfl

theorem pushAll?_eq : ∀ (cs : List (List UInt8)) {u : Unpadder}, u.Valid →
    u.pushAll? cs = some (pushAll push u cs)
  | [], _, _ => rfl
  | c :: cs, u, h => by
    rw [pushAll?, push?_eq h, Option.bind_some, pushAll?_eq cs (valid_push u c h)]
    rfl

/-! ## Nothing is made up -/

theorem sublist_consume (u : Unpadder) (b : List UInt8) :
    ((u.consume b).2.1 ++ (u.consume b).2.2).Sublist b := by
  unfold consume
  split
  · cases b with
    | nil => exact List.Sublist.refl _
    | cons x c => exact List.sublist_cons_self x c
  · split
    · rw [List.take_append_drop]
    · exact List.drop_sublist _ _

/-- What the loop hands out are bytes of its input, in their order. -/
theorem sublist_processLoop : ∀ (fuel : ℕ) (u : Unpadder) (b : List UInt8),
    (processLoop fuel u b).2.Sublist b
  | 0, _, b => List.nil_sublist b
  | fuel + 1, u, b => by
    have hturn := sublist_consume u b
    have hrest : ∀ v, ((u.consume b).2.1 ++ (processLoop fuel v (u.consume b).2.2).2).Sublist b :=
      fun v => ((sublist_processLoop fuel v _).append_left _).trans hturn
    rw [processLoop]
    split
    · exact List.nil_sublist b
    · dsimp only
      split
      · split
        · exact hrest _
        · exact hturn
      · exact hrest _

theorem sublist_push_new (uuid : Uuid) (s : List UInt8) : ((new uuid).push s).2.Sublist s := by
  have hc : (new uuid).Collecting := ⟨rfl, rfl, rfl, by simp [new]⟩
  rw [hc.push_eq]
  split
  · exact List.nil_sublist s
  · split
    · exact List.Sublist.refl s
    · exact (sublist_processLoop _ _ _).trans (List.drop_sublist _ _)

end Unpadder

open Streaming

/-- **The unpadder is a function of the stream.**  For every UUID and every stream, however it is
cut into chunks: the same bytes come out and the same flags are set at the end, the bytes are bytes
of the stream in their order, and no index of any `push` on the way is out of range. -/
theorem unpadder_of_stream (uuid : Uuid) (s : List UInt8) (chunks chunks' : List (List UInt8))
    (hchunks : chunks.flatten = s) (hchunks' : chunks'.flatten = s) :
    let r := pushAll Unpadder.push (Unpadder.new uuid) chunks
    let r' := pushAll Unpadder.push (Unpadder.new uuid) chunks'
    (r.2 = r'.2 ∧ r.1.finished = r'.1.finished ∧ r.1.direct = r'.1.direct) ∧ r.2.Sublist s ∧
      Unpadder.pushAll? (Unpadder.new uuid) chunks = some r := by
  have hone : pushAll Unpadder.push (Unpadder.new uuid) chunks = (Unpadder.new uuid).push s := by
    rw [Unpadder.chunkFree_push.pushAll_eq (Unpadder.valid_new uuid), hchunks]
  have hone' : pushAll Unpadder.push (Unpadder.new uuid) chunks' = (Unpadder.new uuid).push s := by
    rw [Unpadder.chunkFree_push.pushAll_eq (Unpadder.valid_new uuid), hchunks']
  have hchecked := Unpadder.pushAll?_eq chunks (Unpadder.valid_new uuid)
  dsimp only
  rw [hchecked, hone, hone']
  exact ⟨⟨rfl, rfl, rfl⟩, Unpadder.sublist_push_new uuid s, rfl⟩

/-- A block that announces more than ever comes, in one piece and in three. -/
theorem unpadder_of_stream_lying :
    let uuid : Uuid := List.Vector.replicate 16 7
    let r := pushAll Unpadder.push (Unpadder.new uuid)
      [List.replicate 16 7 ++ [0, 255, 255, 0, 0, 1, 2]]
    let r' := pushAll Unpadder.push (Unpadder.new uuid)
      [List.replicate 16 7, [0, 255, 255, 0], [0, 1, 2]]
    r.2 = r'.2 ∧ r.1.finished = r'.1.finished :=
  have h := unpadder_of_stream (List.Vector.replicate 16 7)
    (List.replicate 16 7 ++ [0, 255, 255, 0, 0, 1, 2])
    [List.replicate 16 7 ++ [0, 255, 255, 0, 0, 1, 2]]
    [List.replicate 16 7, [0, 255, 255, 0], [0, 1, 2]] rfl rfl
  ⟨h.1.1, h.1.2.1⟩

end Vision
end HoldTheDonut
