import Mathlib.Algebra.Order.Group.Nat
import Mathlib.Data.List.Basic
import Mathlib.Data.List.Induction

/-!
# Runs of event-driven systems

A system is a partial step function: `step s e` is the state after event `e`, or
`none` when `e` cannot happen in `s`.  A run is a list of events, each of which
could happen when its turn came.  The order of the events is the scheduler's
choice, so a statement about every run is a statement about every interleaving.

Three rules carry the developments built on this.  `run_inv`: what every step
preserves, every run preserves.  `run_history`: the same for a relation between the
state and the events so far.  `run_countP_le`: events that use up a budget no
other event refills can only happen that often, which is how a run is shown not to
go on for ever.
-/

namespace HoldTheDonut
namespace Machine

variable {σ ε : Type*} {step : σ → ε → Option σ}

/-- The state after a list of events, if each of them could happen in its turn. -/
def run (step : σ → ε → Option σ) : σ → List ε → Option σ
  | s, [] => some s
  | s, e :: es => (step s e).bind fun t => run step t es

@[simp] theorem run_nil (s : σ) : run step s [] = some s := rfl

theorem run_cons_eq_some {s u : σ} {e : ε} {es : List ε} :
    run step s (e :: es) = some u ↔ ∃ t, step s e = some t ∧ run step t es = some u :=
  Option.bind_eq_some_iff

/-- **What every step preserves, every run preserves.** -/
theorem run_inv {Inv : σ → Prop} (hstep : ∀ s e t, Inv s → step s e = some t → Inv t) :
    ∀ (es : List ε) {s u : σ}, Inv s → run step s es = some u → Inv u
  | [], s, u, hs, h => by
    rw [run_nil] at h
    exact Option.some.inj h ▸ hs
  | e :: es, s, u, hs, h => by
    obtain ⟨t, ht, hrest⟩ := run_cons_eq_some.mp h
    exact run_inv hstep es (hstep s e t hs ht) hrest

theorem run_append (s : σ) (es fs : List ε) :
    run step s (es ++ fs) = (run step s es).bind fun t => run step t fs := by
  induction es generalizing s with
  | nil => rfl
  | cons e es ih =>
    rw [List.cons_append, run, run]
    cases step s e with
    | none => rfl
    | some t => exact ih t

theorem run_concat_eq_some {s u : σ} {es : List ε} {e : ε} :
    run step s (es ++ [e]) = some u ↔ ∃ t, run step s es = some t ∧ step t e = some u := by
  rw [run_append, Option.bind_eq_some_iff]
  simp only [run_cons_eq_some, run_nil, Option.some.injEq, exists_eq_right]

/-- What happened up to some point of a run. -/
theorem run_of_prefix {s u : σ} {es pre : List ε} (h : run step s es = some u)
    (hpre : pre <+: es) : ∃ t, run step s pre = some t := by
  obtain ⟨rest, rfl⟩ := hpre
  rw [run_append, Option.bind_eq_some_iff] at h
  obtain ⟨t, ht, -⟩ := h
  exact ⟨t, ht⟩

/-- An event of a history is its last one, or one of those before. -/
theorem concat_eq_split {es before after : List ε} {e a : ε}
    (h : es ++ [e] = before ++ a :: after) :
    (es = before ∧ e = a) ∨ ∃ after', after = after' ++ [e] ∧ es = before ++ a :: after' := by
  cases after using List.reverseRecOn with
  | nil =>
    obtain ⟨hes, he⟩ := List.append_inj' h rfl
    exact Or.inl ⟨hes, List.singleton_inj.mp he⟩
  | append_singleton after' b =>
    rw [← List.cons_append, ← List.append_assoc] at h
    obtain ⟨hes, he⟩ := List.append_inj' h rfl
    obtain rfl := List.singleton_inj.mp he
    exact Or.inr ⟨after', rfl, hes⟩

/-- **What every step preserves of state and history, every run preserves.**  The
induction takes the last event off. -/
theorem run_history (Inv : List ε → σ → Prop) {s : σ} (hstart : Inv [] s)
    (hstep : ∀ es t e u, Inv es t → step t e = some u → Inv (es ++ [e]) u) (es : List ε) {u : σ}
    (h : run step s es = some u) : Inv es u := by
  induction es using List.reverseRecOn generalizing u with
  | nil => exact Option.some.inj h ▸ hstart
  | append_singleton es e ih =>
    obtain ⟨t, ht, hlast⟩ := run_concat_eq_some.mp h
    exact hstep es t e u (ih ht) hlast

/-- **A budget bounds the number of events that use it.** -/
theorem run_countP_le {p : ε → Bool} {μ : σ → ℕ}
    (hspend : ∀ s e t, step s e = some t → p e = true → μ t < μ s)
    (hkeep : ∀ s e t, step s e = some t → μ t ≤ μ s) :
    ∀ (es : List ε) {s u : σ}, run step s es = some u → es.countP p + μ u ≤ μ s
  | [], s, u, h => by
    rw [run_nil] at h
    rw [Option.some.inj h, List.countP_nil, Nat.zero_add]
  | e :: es, s, u, h => by
    obtain ⟨t, ht, hrest⟩ := run_cons_eq_some.mp h
    have ih := run_countP_le hspend hkeep es hrest
    by_cases hp : p e = true
    · have hlt := hspend s e t ht hp
      rw [List.countP_cons_of_pos hp]
      omega
    · have hle := hkeep s e t ht
      rw [List.countP_cons_of_neg hp]
      omega

/-! ## Reachability -/

variable (step) in
/-- Some run leads from one state to the other. -/
def Reaches (s t : σ) : Prop := ∃ es, run step s es = some t

theorem Reaches.refl (s : σ) : Reaches step s s := ⟨[], rfl⟩

theorem Reaches.trans {s t u : σ} (h : Reaches step s t) (h' : Reaches step t u) :
    Reaches step s u := by
  obtain ⟨es, hes⟩ := h
  obtain ⟨fs, hfs⟩ := h'
  refine ⟨es ++ fs, ?_⟩
  rw [run_append, hes]
  exact hfs

theorem Reaches.head {s t u : σ} {e : ε} (h : step s e = some t) (h' : Reaches step t u) :
    Reaches step s u :=
  Reaches.trans ⟨[e], run_cons_eq_some.mpr ⟨t, h, rfl⟩⟩ h'

end Machine
end HoldTheDonut
