import HoldTheDonut.Interaction.Program

/-!
# Running a program against a world

`Performs` speaks of every environment at once.  Here the environment is one: a world `σ`
that answers an operation and moves on, or does not answer it, now or ever.  `exec` runs a
program in a world until it returns, fails, uses up its fuel or asks for something the world
does not answer; in the last case it *waits*, and the operation it waits for says what it is
blocked on.

A world without an answer is what makes statements about blocking possible: "once the
program waits for more input, it has passed on all it was given" is a statement about the
`Stop` of a run and the world it leaves behind.
-/

namespace HoldTheDonut
namespace Interaction

/-- How a program stands when it goes no further. -/
inductive Stop (Op ε α : Type) where
  | returned (a : α)
  | failed (e : ε)
  /-- It has asked, and there is no answer. -/
  | waits (op : Op)
  /-- The fuel is used up. -/
  | halted
  deriving DecidableEq

variable {Op : Type} {Ans : Op → Type} {ε α β σ : Type}

/-- Run a program in a world. -/
def exec (env : (op : Op) → σ → Option (Ans op × σ)) : Prog Op Ans ε α → σ → Stop Op ε α × σ
  | .pure a, w => (.returned a, w)
  | .fail e, w => (.failed e, w)
  | .ask op next, w =>
    match env op w with
    | none => (.waits op, w)
    | some (x, w') => exec env (next x) w'
  | .halt, w => (.halted, w)

section Exec

variable {env : (op : Op) → σ → Option (Ans op × σ)} {w w' : σ}

@[simp] theorem exec_pure (a : α) :
    exec env (pure a : Prog Op Ans ε α) w = (.returned a, w) := rfl

theorem exec_ask_of_some {op : Op} {next : Ans op → Prog Op Ans ε α} {x : Ans op}
    (h : env op w = some (x, w')) : exec env (.ask op next) w = exec env (next x) w' := by
  rw [exec, h]

theorem exec_ask_of_none {op : Op} {next : Ans op → Prog Op Ans ε α} (h : env op w = none) :
    exec env (.ask op next) w = (.waits op, w) := by
  rw [exec, h]

/-- **A sequence goes on where its first part has returned**, and stops with it otherwise. -/
theorem exec_bind (p : Prog Op Ans ε α) (f : α → Prog Op Ans ε β) (w : σ) :
    exec env (p >>= f) w =
      match exec env p w with
      | (.returned a, w') => exec env (f a) w'
      | (.failed e, w') => (.failed e, w')
      | (.waits op, w') => (.waits op, w')
      | (.halted, w') => (.halted, w') := by
  induction p generalizing w with
  | pure a => rfl
  | fail e => rfl
  | ask op next ih =>
    show exec env (.ask op fun x => next x >>= f) w = _
    rw [exec, exec]
    cases env op w with
    | none => rfl
    | some answer => exact ih answer.1 answer.2
  | halt => rfl

section Bind

variable {p : Prog Op Ans ε α} (f : α → Prog Op Ans ε β)

/-- What is returned is passed on. -/
theorem exec_bind_of_returned {a : α} (h : exec env p w = (.returned a, w')) :
    exec env (p >>= f) w = exec env (f a) w' := by
  rw [exec_bind, h]

/-- What waits keeps the rest of the program waiting. -/
theorem exec_bind_of_waits {op : Op} (h : exec env p w = (.waits op, w')) :
    exec env (p >>= f) w = (.waits op, w') := by
  rw [exec_bind, h]

/-- What fails ends the sequence. -/
theorem exec_bind_of_failed {e : ε} (h : exec env p w = (.failed e, w')) :
    exec env (p >>= f) w = (.failed e, w') := by
  rw [exec_bind, h]

/-- Without fuel for its first part a sequence does not go on. -/
theorem exec_bind_of_halted (h : exec env p w = (.halted, w')) :
    exec env (p >>= f) w = (.halted, w') := by
  rw [exec_bind, h]

variable {f} in
/-- A sequence that returns has a first part that returns. -/
theorem of_exec_bind {b : β} (h : exec env (p >>= f) w = (.returned b, w')) :
    ∃ a v, exec env p w = (.returned a, v) ∧ exec env (f a) v = (.returned b, w') := by
  rw [exec_bind] at h
  cases hp : exec env p w with
  | mk stop v =>
    rw [hp] at h
    cases stop with
    | returned a => exact ⟨a, v, rfl, h⟩
    | failed e => cases h
    | waits op => cases h
    | halted => cases h

end Bind

/-- **A preorder that every answer respects, every run respects.** -/
theorem exec_related {R : σ → σ → Prop} (hrefl : ∀ w, R w w)
    (htrans : ∀ w v u, R w v → R v u → R w u)
    (hans : ∀ op w x w', env op w = some (x, w') → R w w') (p : Prog Op Ans ε α) (w : σ) :
    R w (exec env p w).2 := by
  induction p generalizing w with
  | pure a => exact hrefl w
  | fail e => exact hrefl w
  | halt => exact hrefl w
  | ask op next ih =>
    cases h : env op w with
    | none =>
      rw [exec_ask_of_none h]
      exact hrefl w
    | some answer =>
      rw [exec_ask_of_some h]
      exact htrans w answer.2 _ (hans op w answer.1 answer.2 h) (ih answer.1 answer.2)

/-- **Ignoring how a program ends changes neither the world it leaves nor whether it ends.** -/
theorem exec_ignoring (p : Prog Op Ans ε α) (w : σ) :
    exec env p.ignoring w =
      match exec env p w with
      | (.returned _, w') => (.returned (), w')
      | (.failed _, w') => (.returned (), w')
      | (.waits op, w') => (.waits op, w')
      | (.halted, w') => (.halted, w') := by
  induction p generalizing w with
  | pure a => rfl
  | fail e => rfl
  | ask op next ih =>
    rw [Prog.ignoring, exec, exec]
    cases env op w with
    | none => rfl
    | some answer => exact ih answer.1 answer.2
  | halt => rfl

variable {p : Prog Op Ans ε α}

theorem exec_ignoring_of_returned {a : α} (h : exec env p w = (.returned a, w')) :
    exec env p.ignoring w = (.returned (), w') := by
  rw [exec_ignoring, h]

theorem exec_ignoring_of_waits {op : Op} (h : exec env p w = (.waits op, w')) :
    exec env p.ignoring w = (.waits op, w') := by
  rw [exec_ignoring, h]

theorem exec_ignoring_of_halted (h : exec env p w = (.halted, w')) :
    exec env p.ignoring w = (.halted, w') := by
  rw [exec_ignoring, h]

end Exec

end Interaction
end HoldTheDonut
