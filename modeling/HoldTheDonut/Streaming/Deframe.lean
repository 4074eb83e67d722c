import HoldTheDonut.Streaming.Transducer
import Mathlib.Data.Nat.Init

/-!
# Taking a stream of items apart

A receiver keeps a buffer.  Whenever something arrives it takes items off the front for
as long as there are complete ones, keeps the incomplete rest, and gives up at the first
thing that is not an item.  The function it calls has three answers --- an item and what is
behind it, "wait for more", or an error --- and `deframe` is the loop around it.

`Stable` is what makes the loop indifferent to how the stream arrives: an item or an error
stays what it was when more follows.  Under it the loop is a transducer
(`Deframe.push`) whose state is the buffer, or the error that ended it, and
`Stable.chunkFree` puts the whole of `Streaming.Transducer` at its disposal.

The loop is a recursion on fuel.  An item takes at least one symbol, so the length of the
buffer is enough; the three lemmas that say how `deframe` starts are free of fuel, and
nothing behind them mentions it.
-/

namespace HoldTheDonut
namespace Streaming

variable {α β ε γ : Type*}

/-- One item off the front of a buffer with what is left, `none` for "wait", or an error. -/
abbrev Deframer (α ε β : Type*) : Type _ := List α → Except ε (Option (β × List α))

namespace Deframe

/-- Take items off until there is none.  The buffer that is left, or the error. -/
def deframeLoop (parse : Deframer α ε β) : ℕ → List α → Except ε (List α) × List β
  | 0, s => (.ok s, [])
  | fuel + 1, s =>
    match parse s with
    | .error e => (.error e, [])
    | .ok none => (.ok s, [])
    | .ok (some (b, rest)) =>
      ((deframeLoop parse fuel rest).1, b :: (deframeLoop parse fuel rest).2)

def deframe (parse : Deframer α ε β) (s : List α) : Except ε (List α) × List β :=
  deframeLoop parse s.length s

/-- A chunk arrives.  After an error nothing is read any more. -/
def push (parse : Deframer α ε β) : Except ε (List α) → List α → Except ε (List α) × List β
  | .error e, _ => (.error e, [])
  | .ok buf, c => deframe parse (buf ++ c)

/-- **A deframer that can be rerun on a longer buffer.** -/
structure Stable (parse : Deframer α ε β) : Prop where
  nil : parse [] = .ok none
  shrinks : ∀ {s : List α} {b : β} {rest : List α},
    parse s = .ok (some (b, rest)) → rest.length < s.length
  item_append : ∀ {s : List α} {b : β} {rest : List α},
    parse s = .ok (some (b, rest)) → ∀ x, parse (s ++ x) = .ok (some (b, rest ++ x))
  error_append : ∀ {s : List α} {e : ε}, parse s = .error e → ∀ x, parse (s ++ x) = .error e

/-- Items that a further check turns away become errors. -/
def checked (parse : Deframer α ε β) (check : β → Option ε) : Deframer α ε β := fun s =>
  match parse s with
  | .error e => .error e
  | .ok none => .ok none
  | .ok (some (b, rest)) =>
    match check b with
    | some e => .error e
    | none => .ok (some (b, rest))

/-- The buffer, if there is one, waits for more. -/
def Waiting (parse : Deframer α ε β) (st : Except ε (List α)) : Prop :=
  ∀ buf, st = .ok buf → parse buf = .ok none

namespace Stable

variable {parse : Deframer α ε β} (h : Stable parse)

include h

/-! ## The loop, without its fuel -/

theorem deframeLoop_eq : ∀ (fuel : ℕ) (s : List α), s.length ≤ fuel →
    deframeLoop parse (fuel + 1) s = deframeLoop parse fuel s
  | 0, s, hlen => by
    have hnil : s = [] := List.eq_nil_of_length_eq_zero (Nat.le_zero.mp hlen)
    subst hnil
    simp only [deframeLoop, h.nil]
  | fuel + 1, s, hlen => by
    rw [deframeLoop]
    conv_rhs => rw [deframeLoop]
    split
    · rfl
    · rfl
    · next b rest hitem =>
      have hlt := h.shrinks hitem
      rw [deframeLoop_eq fuel rest (by omega)]

variable {s : List α}

/-- More fuel than symbols changes nothing. -/
theorem deframeLoop_eq_deframe {fuel : ℕ} (hlen : s.length ≤ fuel) :
    deframeLoop parse fuel s = deframe parse s := by
  induction fuel, hlen using Nat.le_induction with
  | base => rfl
  | succ fuel hle ih => rw [h.deframeLoop_eq fuel s hle, ih]

theorem deframe_of_wait (hs : parse s = .ok none) : deframe parse s = (.ok s, []) := by
  rw [← h.deframeLoop_eq_deframe (Nat.le_succ s.length), deframeLoop, hs]

theorem deframe_of_error {e : ε} (hs : parse s = .error e) : deframe parse s = (.error e, []) := by
  rw [← h.deframeLoop_eq_deframe (Nat.le_succ s.length), deframeLoop, hs]

theorem deframe_of_item {b : β} {rest : List α} (hs : parse s = .ok (some (b, rest))) :
    deframe parse s = ((deframe parse rest).1, b :: (deframe parse rest).2) := by
  have hlt := h.shrinks hs
  rw [← h.deframeLoop_eq_deframe (Nat.le_succ s.length), deframeLoop, hs]
  simp only
  rw [h.deframeLoop_eq_deframe (by omega)]

/-! ## Chunks -/

/-- What the loop leaves waits for more. -/
theorem waiting_deframe (s : List α) : Waiting parse (deframe parse s).1 := by
  induction hn : s.length using Nat.strongRecOn generalizing s with
  | _ n ih =>
    intro buf hbuf
    rcases hs : parse s with e | (_ | ⟨b, rest⟩)
    · rw [h.deframe_of_error hs] at hbuf
      cases hbuf
    · rw [h.deframe_of_wait hs] at hbuf
      cases hbuf
      exact hs
    · rw [h.deframe_of_item hs] at hbuf
      have hlt := h.shrinks hs
      exact ih rest.length (by omega) rest rfl buf hbuf

/-- **A longer buffer is taken apart like its front, and then from there.**  The induction
is on the length of the front; an item is the same with or without the rest behind it. -/
theorem deframe_append (s x : List α) :
    deframe parse (s ++ x) = andThen (deframe parse s) fun st => push parse st x := by
  induction hn : s.length using Nat.strongRecOn generalizing s with
  | _ n ih =>
    rcases hs : parse s with e | (_ | ⟨b, rest⟩)
    · rw [h.deframe_of_error (h.error_append hs x), h.deframe_of_error hs]
      rfl
    · rw [h.deframe_of_wait hs]
      rfl
    · have hlt := h.shrinks hs
      rw [h.deframe_of_item (h.item_append hs x), h.deframe_of_item hs,
        ih rest.length (by omega) rest rfl]
      rfl

/-- **The loop does not see how its stream was cut.** -/
theorem chunkFree : ChunkFree (push parse) (Waiting parse) where
  inv := by
    rintro (e | buf) c hst
    · exact hst
    · exact h.waiting_deframe (buf ++ c)
  nil := by
    rintro (e | buf) hst
    · rfl
    · change deframe parse (buf ++ []) = _
      rw [List.append_nil, h.deframe_of_wait (hst buf rfl)]
  append := by
    rintro (e | buf) a b hst
    · rfl
    · change deframe parse (buf ++ (a ++ b)) = _
      rw [← List.append_assoc, h.deframe_append]
      rfl

/-- Before anything has arrived. -/
theorem waiting_nil : Waiting parse (.ok []) := by
  intro buf hbuf
  cases hbuf
  exact h.nil

/-- On a proper initial part of an item the deframer waits: an item or an error there
would have stayed. -/
theorem wait_of_properPrefix {c : List α} {b : β} (hc : parse c = .ok (some (b, [])))
    {p : List α} (hp : p <+: c) (hne : p ≠ c) : parse p = .ok none := by
  obtain ⟨t, rfl⟩ := hp
  rcases hparse : parse p with e | (_ | ⟨b', rest⟩)
  · rw [h.error_append hparse t] at hc
    cases hc
  · rfl
  · rw [h.item_append hparse t] at hc
    have hnil : rest ++ t = [] := congrArg Prod.snd (Option.some.inj (Except.ok.inj hc))
    rw [(List.append_eq_nil_iff.mp hnil).2, List.append_nil] at hne
    exact absurd rfl hne

/-- A check of the items leaves a deframer stable. -/
theorem checked (check : β → Option ε) : Stable (Deframe.checked parse check) where
  nil := by
    unfold Deframe.checked
    rw [h.nil]
  shrinks := by
    intro s b rest hs
    unfold Deframe.checked at hs
    rcases hparse : parse s with e | (_ | ⟨b', rest'⟩) <;> simp only [hparse] at hs
    · cases hs
    · cases hs
    · split at hs
      · cases hs
      · cases hs
        exact h.shrinks hparse
  item_append := by
    intro s b rest hs x
    unfold Deframe.checked at hs ⊢
    rcases hparse : parse s with e | (_ | ⟨b', rest'⟩) <;> simp only [hparse] at hs
    · cases hs
    · cases hs
    · rw [h.item_append hparse x]
      simp only
      split at hs
      · cases hs
      · cases hs
        rfl
  error_append := by
    intro s e hs x
    unfold Deframe.checked at hs ⊢
    rcases hparse : parse s with e' | (_ | ⟨b', rest'⟩) <;> simp only [hparse] at hs
    · rw [h.error_append hparse x]
      exact hs
    · cases hs
    · rw [h.item_append hparse x]
      simp only
      split at hs
      · exact hs
      · cases hs

/-- A stream of encoded items is taken apart into the items, with nothing left. -/
theorem deframe_flatten (encode : γ → List α) (item : γ → β) :
    ∀ gs : List γ, (∀ g ∈ gs, ∀ x, parse (encode g ++ x) = .ok (some (item g, x))) →
      deframe parse (gs.map encode).flatten = (.ok [], gs.map item)
  | [], _ => h.deframe_of_wait h.nil
  | g :: gs, hgs => by
    have hg := hgs g List.mem_cons_self (gs.map encode).flatten
    rw [List.map_cons, List.flatten_cons, h.deframe_of_item hg,
      deframe_flatten encode item gs fun g' hg' => hgs g' (List.mem_cons_of_mem g hg')]
    rfl

/-- What was taken off, written out again, and what is left are the stream. -/
theorem flatten_append_of_deframe {encode : β → List α}
    (hencode : ∀ {s : List α} {b : β} {rest : List α},
      parse s = .ok (some (b, rest)) → s = encode b ++ rest)
    {s buf : List α} (hs : (deframe parse s).1 = .ok buf) :
    s = ((deframe parse s).2.map encode).flatten ++ buf := by
  induction hn : s.length using Nat.strongRecOn generalizing s with
  | _ n ih =>
    rcases hparse : parse s with e | (_ | ⟨b, rest⟩)
    · rw [h.deframe_of_error hparse] at hs
      cases hs
    · rw [h.deframe_of_wait hparse] at hs ⊢
      cases hs
      rfl
    · rw [h.deframe_of_item hparse] at hs ⊢
      have hlt := h.shrinks hparse
      have hrest := ih rest.length (by omega) hs rfl
      rw [List.map_cons, List.flatten_cons, List.append_assoc, ← hrest]
      exact hencode hparse

end Stable

end Deframe

end Streaming
end HoldTheDonut
