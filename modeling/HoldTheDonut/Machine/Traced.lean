import Mathlib.Data.List.Basic

/-!
# Computations that record what they do

A `Traced` computation has a value and the list of the steps it took, and sequencing appends the
lists.  What a step is says the model: for a statement about running time it is the kind of an
operation and the places it reads, and not the values it works on.

The two rules for loops are all that is needed to compare a recorded program with the plain one and
to see what its steps depend on.  If the body of a loop computes `f`, the loop is a fold
(`value_loop`); and if the steps of the body depend on the number of the turn alone, those of the
loop depend on the number of turns alone (`steps_loop`).
-/

namespace HoldTheDonut
namespace Machine

/-- A value, and the steps that led to it. -/
structure Traced (σ α : Type) where
  value : α
  steps : List σ

namespace Traced

variable {σ α β γ : Type}

protected def pure (a : α) : Traced σ α := ⟨a, []⟩

protected def bind (x : Traced σ α) (f : α → Traced σ β) : Traced σ β :=
  ⟨(f x.value).value, x.steps ++ (f x.value).steps⟩

instance : Monad (Traced σ) where
  pure := Traced.pure
  bind := Traced.bind

/-- One step. -/
def step (s : σ) (a : α) : Traced σ α := ⟨a, [s]⟩

@[simp] theorem value_bind (x : Traced σ α) (f : α → Traced σ β) :
    (x >>= f).value = (f x.value).value := rfl

@[simp] theorem steps_bind (x : Traced σ α) (f : α → Traced σ β) :
    (x >>= f).steps = x.steps ++ (f x.value).steps := rfl

/-- A loop over a list.  The body is told the number of its turn. -/
def loop (body : ℕ → β → α → Traced σ β) : ℕ → β → List α → Traced σ β
  | _, acc, [] => pure acc
  | i, acc, x :: xs => do
    let acc ← body i acc x
    loop body (i + 1) acc xs

/-- **A loop computes the fold of what its body computes.** -/
theorem value_loop {body : ℕ → β → α → Traced σ β} {f : β → α → β}
    (h : ∀ i acc x, (body i acc x).value = f acc x) (i : ℕ) (acc : β) (xs : List α) :
    (loop body i acc xs).value = xs.foldl f acc := by
  induction xs generalizing i acc with
  | nil => rfl
  | cons x xs ih => rw [loop, value_bind, ih, h, List.foldl_cons]

/-- **A loop takes the steps of its turns**, if these depend on nothing but the turn. -/
theorem steps_loop {body : ℕ → β → α → Traced σ β} {s : ℕ → List σ}
    (h : ∀ i acc x, (body i acc x).steps = s i) (i : ℕ) (acc : β) (xs : List α) :
    (loop body i acc xs).steps = (List.range' i xs.length).flatMap s := by
  induction xs generalizing i acc with
  | nil => rfl
  | cons x xs ih =>
    rw [loop, steps_bind, ih, h, List.length_cons, List.range'_succ, List.flatMap_cons]

end Traced

end Machine
end HoldTheDonut
