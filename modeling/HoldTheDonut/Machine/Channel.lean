import HoldTheDonut.Machine.Run
import Mathlib.Data.List.Basic

/-!
# Bounded channels and buffers

A queue with room for a fixed number of values.  A sender that does not want to wait is
turned away when the queue is full (`trySend`); a receiver takes the oldest value.  The bound
is part of the type, and a queue that exceeds it cannot be built.

A buffer of bytes is written piece by piece: a writer has something in hand and moves as much
of it as fits.  `Writes` says of a machine that some writer of it does so; then it can get rid
of all it has, or get to where it waits with something in hand before a full buffer.
-/

namespace HoldTheDonut
namespace Machine

variable {α : Type*} {capacity : ℕ}

/-- The values on their way, the oldest one first. -/
structure Channel (α : Type*) (capacity : ℕ) where
  queue : List α
  room : queue.length ≤ capacity

namespace Channel

theorem room_concat {q : List α} (a : α) (h : q.length < capacity) :
    (q ++ [a]).length ≤ capacity := by
  rw [List.length_append, List.length_singleton]
  exact h

theorem room_tail {q : List α} {a : α} (h : (a :: q).length ≤ capacity) : q.length ≤ capacity :=
  Nat.le_of_succ_le h

def empty : Channel α capacity := ⟨[], Nat.zero_le _⟩

/-- Send without waiting. -/
def trySend (c : Channel α capacity) (a : α) : Option (Channel α capacity) :=
  if h : c.queue.length < capacity then some ⟨c.queue ++ [a], room_concat a h⟩ else none

def recv : Channel α capacity → Option (α × Channel α capacity)
  | ⟨[], _⟩ => none
  | ⟨a :: q, h⟩ => some (a, ⟨q, room_tail h⟩)

/-- Sending appends, where there is room. -/
theorem trySend_cases (c : Channel α capacity) (a : α) :
    (c.queue.length < capacity ∧ ∃ d, c.trySend a = some d ∧ d.queue = c.queue ++ [a]) ∨
      (¬c.queue.length < capacity ∧ c.trySend a = none) := by
  by_cases h : c.queue.length < capacity
  · exact Or.inl ⟨h, _, dif_pos h, rfl⟩
  · exact Or.inr ⟨h, dif_neg h⟩

/-- What is received was the oldest value. -/
theorem queue_of_recv {c d : Channel α capacity} {a : α} (h : c.recv = some (a, d)) :
    c.queue = a :: d.queue := by
  match c, h with
  | ⟨b :: q, _⟩, h =>
    cases h
    rfl

end Channel

/-! ## Writing into a bounded buffer -/

section Writer

variable {σ ε β : Type*} {step : σ → ε → Option σ} {put : List β → List β → σ}

/-- **A writer in front of a bounded buffer.**  In `put hand buf` it has `hand` still to write
and the buffer holds `buf`; any front of the hand that fits can be moved. -/
def Writes (step : σ → ε → Option σ) (capacity : ℕ) (put : List β → List β → σ) : Prop :=
  ∀ ⦃hand buf : List β⦄ ⦃n : ℕ⦄, 0 < n → n ≤ hand.length → buf.length + n ≤ capacity →
    ∃ e, step (put hand buf) e = some (put (hand.drop n) (buf ++ hand.take n))

variable (h : Writes step capacity put)

include h

theorem Writes.reaches (a b : List β) {buf : List β} (hroom : buf.length + a.length ≤ capacity) :
    Reaches step (put (a ++ b) buf) (put b (buf ++ a)) := by
  by_cases hnil : a = []
  · rw [hnil, List.nil_append, List.append_nil]
    exact Reaches.refl _
  · have hle : a.length ≤ (a ++ b).length := by
      rw [List.length_append]
      exact Nat.le_add_right _ _
    obtain ⟨e, he⟩ := h (List.length_pos_iff.mpr hnil) hle hroom
    rw [List.drop_left, List.take_left] at he
    exact Reaches.head he (Reaches.refl _)

/-- What fits is written. -/
theorem Writes.reaches_all {hand buf : List β} (hroom : buf.length + hand.length ≤ capacity) :
    Reaches step (put hand buf) (put [] (buf ++ hand)) := by
  have hall := h.reaches hand [] hroom
  rwa [List.append_nil] at hall

/-- Of what does not fit a part is written, and the writer waits with the rest. -/
theorem Writes.reaches_full {hand buf : List β} (hbuf : buf.length ≤ capacity)
    (hlong : capacity < buf.length + hand.length) :
    ∃ w u, Reaches step (put hand buf) (put w u) ∧ w ≠ [] ∧ capacity ≤ u.length := by
  refine ⟨hand.drop (capacity - buf.length), buf ++ hand.take (capacity - buf.length), ?_, ?_, ?_⟩
  · have hroom : buf.length + (hand.take (capacity - buf.length)).length ≤ capacity := by
      rw [List.length_take]
      omega
    have hpart := h.reaches _ (hand.drop (capacity - buf.length)) hroom
    rwa [List.take_append_drop] at hpart
  · refine List.length_pos_iff.mp ?_
    rw [List.length_drop]
    omega
  · rw [List.length_append, List.length_take]
    omega

end Writer

end Machine
end HoldTheDonut
