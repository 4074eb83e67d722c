import Mathlib.Algebra.Order.Group.Nat
import Mathlib.Data.List.Flatten
import Mathlib.Logic.Function.Basic
import Mathlib.Logic.Relation

/-!
# Handing a writer to workers and taking it back

A writer lives in a slot.  A worker with something to write takes whatever is in the
slot and leaves a placeholder there, writes while nobody else waits for it, and then
puts back what it took.  Nothing stops a second worker from coming in between: it finds
the placeholder, and what it writes there is gone.

`Handoff` is this pattern over arbitrary workers and items.  Its steps say which worker
does what; the log has one entry for each taking, with the segment the worker came with
and whether the slot had the writer in it.  The invariant is a single equation: what has
been written, followed by what the present owner of the writer still has to write, is
what was logged with the writer in the slot.  Hence, once every worker is done, the
output is everything that was brought if and only if nobody brought anything to a
placeholder (`out_eq_total_iff`).
-/

namespace HoldTheDonut
namespace Machine

/-- A slot, the workers, the output and the log of takings.  The Boolean of the slot and
of each worker says whether the writer is there or only a placeholder. -/
structure Handoff (ι α : Type*) where
  slot : Bool
  held : ι → Option (Bool × List α)
  out : List α
  log : List (Bool × List α)

namespace Handoff

variable {ι α : Type*}

/-- The writer in its slot, nobody at work. -/
def start : Handoff ι α := ⟨true, fun _ => none, [], []⟩

variable [DecidableEq ι]

/-- What workers can do. -/
inductive Step : Handoff ι α → Handoff ι α → Prop
  /-- Come with a segment and take what is in the slot. -/
  | take {h : Handoff ι α} {i : ι} (hi : h.held i = none) (seg : List α) :
      Step h ⟨false, Function.update h.held i (some (h.slot, seg)), h.out,
        h.log ++ [(h.slot, seg)]⟩
  /-- Write some of it to the writer. -/
  | emit {h : Handoff ι α} {i : ι} {front rest : List α}
      (hi : h.held i = some (true, front ++ rest)) :
      Step h ⟨h.slot, Function.update h.held i (some (true, rest)), h.out ++ front, h.log⟩
  /-- Write to the placeholder, or give up on it. -/
  | discard {h : Handoff ι α} {i : ι} {seg : List α} (hi : h.held i = some (false, seg))
      (rest : List α) :
      Step h ⟨h.slot, Function.update h.held i (some (false, rest)), h.out, h.log⟩
  /-- Put back what was taken, over whatever is in the slot. -/
  | put {h : Handoff ι α} {i : ι} {w : Bool} (hi : h.held i = some (w, [])) :
      Step h ⟨w, Function.update h.held i none, h.out, h.log⟩

/-! ## The log -/

/-- The segments that were brought to the writer. -/
def kept (log : List (Bool × List α)) : List α := ((log.filter Prod.fst).map Prod.snd).flatten

/-- All segments. -/
def total (log : List (Bool × List α)) : List α := (log.map Prod.snd).flatten

section Log

variable (log : List (Bool × List α))

@[simp] theorem kept_append_singleton (w : Bool) (seg : List α) :
    kept (log ++ [(w, seg)]) = kept log ++ if w then seg else [] := by
  cases w <;> simp [kept]

@[simp] theorem total_append_singleton (w : Bool) (seg : List α) :
    total (log ++ [(w, seg)]) = total log ++ seg := by
  simp [total]

theorem length_kept_le : (kept log).length ≤ (total log).length := by
  induction log with
  | nil => exact le_rfl
  | cons e log ih =>
    obtain ⟨w, seg⟩ := e
    cases w <;> simp only [kept, total] at ih ⊢ <;> simp at ih ⊢ <;> omega

/-- Nothing is missing from the kept segments exactly when the others are empty. -/
theorem kept_eq_total_iff : kept log = total log ↔ ∀ e ∈ log, e.1 = true ∨ e.2 = [] := by
  induction log with
  | nil => simp [kept, total]
  | cons e log ih =>
    obtain ⟨w, seg⟩ := e
    rw [List.forall_mem_cons, ← ih]
    have htotal : total ((w, seg) :: log) = seg ++ total log := rfl
    cases w with
    | true =>
      have hkept : kept ((true, seg) :: log) = seg ++ kept log := rfl
      rw [hkept, htotal, List.append_cancel_left_eq]
      simp
    | false =>
      have hkept : kept ((false, seg) :: log) = kept log := rfl
      rw [hkept, htotal]
      constructor
      · intro h
        -- the kept bytes are too few for a segment in front of the total
        have hle := length_kept_le log
        have hlen := congrArg List.length h
        rw [List.length_append] at hlen
        have hnil : seg = [] := List.eq_nil_of_length_eq_zero (by omega)
        subst hnil
        exact ⟨Or.inr rfl, h⟩
      · rintro ⟨hseg, h⟩
        rcases hseg with hfalse | hnil
        · exact absurd hfalse Bool.false_ne_true
        · have hnil' : seg = [] := hnil
          rw [hnil', List.nil_append, h]

end Log

/-! ## The invariant -/

/-- What a worker still has to write to the writer. -/
def pending : Option (Bool × List α) → List α
  | some (true, seg) => seg
  | _ => []

/-- The writer has at most one owner, and what it has written, followed by what its owner
still has to write, is what has been brought to it. -/
structure Owned (h : Handoff ι α) (owner : Option ι) : Prop where
  eq_owner : ∀ i seg, h.held i = some (true, seg) → owner = some i
  slot_free : h.slot = true → owner = none
  written : h.out ++ (owner.elim [] fun i => pending (h.held i)) = kept h.log

omit [DecidableEq ι] in
theorem owned_start : Owned (start : Handoff ι α) none where
  eq_owner := by
    intro i seg h
    cases h
  slot_free := fun _ => rfl
  written := rfl

/-- A worker that does not have the writer may change without changing what is pending. -/
theorem pending_update (held : ι → Option (Bool × List α)) {i : ι}
    (x : Option (Bool × List α)) (hi : pending (held i) = []) (hx : pending x = [])
    (owner : Option ι) :
    (owner.elim [] fun j => pending (Function.update held i x j)) =
      owner.elim [] fun j => pending (held j) := by
  cases owner with
  | none => rfl
  | some j =>
    change pending (Function.update held i x j) = pending (held j)
    by_cases hj : j = i
    · rw [hj, Function.update_self, hi, hx]
    · rw [Function.update_of_ne hj]

variable {h : Handoff ι α} {owner : Option ι}

/-- After a change of one worker, whoever has the writer is that worker or had it before. -/
theorem Owned.of_update (ho : Owned h owner) {i j : ι} {x : Option (Bool × List α)} {seg : List α}
    (hj : Function.update h.held i x j = some (true, seg)) :
    (j = i ∧ x = some (true, seg)) ∨ (j ≠ i ∧ owner = some j) := by
  by_cases hji : j = i
  · rw [hji, Function.update_self] at hj
    exact Or.inl ⟨hji, hj⟩
  · rw [Function.update_of_ne hji] at hj
    exact Or.inr ⟨hji, ho.eq_owner j seg hj⟩

/-- A worker with a placeholder may write to it, give up on it or put it away. -/
theorem Owned.without (ho : Owned h owner) {i : ι} (x : Option (Bool × List α))
    (hi : pending (h.held i) = []) (hx : ∀ seg, x ≠ some (true, seg)) (w : Bool)
    (hw : w = true → owner = none) (log : List (Bool × List α)) (hlog : kept log = kept h.log) :
    Owned ⟨w, Function.update h.held i x, h.out, log⟩ owner where
  eq_owner := by
    intro j seg hj
    rcases ho.of_update hj with ⟨-, hreal⟩ | ⟨-, howner⟩
    · exact absurd hreal (hx seg)
    · exact howner
  slot_free := hw
  written := by
    have hnil : pending x = [] := by
      rcases x with _ | ⟨_ | _, seg⟩
      · rfl
      · rfl
      · exact absurd rfl (hx seg)
    change h.out ++ (owner.elim [] fun j => pending (Function.update h.held i x j)) = kept log
    rw [pending_update h.held x hi hnil, hlog]
    exact ho.written

/-- **Every step keeps the writer owned.** -/
theorem Owned.step {h' : Handoff ι α} (ho : Owned h owner) (hstep : Step h h') :
    ∃ owner', Owned h' owner' := by
  have hwritten := ho.written
  cases hstep with
  | @take i hi seg =>
    cases hslot : h.slot with
    | true =>
      -- the worker becomes the owner
      have hnone := ho.slot_free hslot
      rw [hnone] at hwritten
      refine ⟨some i, ?_, fun hf => absurd hf Bool.false_ne_true, ?_⟩
      · intro j seg' hj
        rcases ho.of_update hj with ⟨rfl, -⟩ | ⟨-, howner⟩
        · rfl
        · rw [hnone] at howner
          cases howner
      · simpa [pending] using hwritten
    | false =>
      refine ⟨owner, ho.without _ (by rw [hi]; rfl) (by simp) false
        (fun hf => absurd hf Bool.false_ne_true) _ ?_⟩
      simp
  | @emit i front rest hi =>
    have howner := ho.eq_owner i _ hi
    rw [howner] at hwritten
    refine ⟨some i, ?_, fun hs => ?_, ?_⟩
    · intro j seg hj
      rcases ho.of_update hj with ⟨rfl, -⟩ | ⟨-, hj⟩
      · rfl
      · rw [← howner]
        exact hj
    · have hnone := ho.slot_free hs
      rw [howner] at hnone
      cases hnone
    · simpa [hi, pending] using hwritten
  | @discard i seg hi rest =>
    exact ⟨owner, ho.without _ (by rw [hi]; rfl) (by simp) h.slot ho.slot_free _ rfl⟩
  | @put i w hi =>
    cases w with
    | true =>
      -- the writer is back in its slot, and nobody else has it
      have howner := ho.eq_owner i _ hi
      rw [howner] at hwritten
      refine ⟨none, ?_, fun _ => rfl, ?_⟩
      · intro j seg hj
        rcases ho.of_update hj with ⟨-, hreal⟩ | ⟨hji, hj⟩
        · cases hreal
        · rw [howner] at hj
          exact absurd (Option.some.inj hj).symm hji
      · simpa [hi, pending] using hwritten
    | false =>
      exact ⟨owner, ho.without _ (by rw [hi]; rfl) (by simp) false
        (fun hf => absurd hf Bool.false_ne_true) _ rfl⟩

variable (hreach : Relation.ReflTransGen Step start h)

include hreach

theorem exists_owned : ∃ owner, Owned h owner := by
  induction hreach with
  | refl => exact ⟨none, owned_start⟩
  | tail _ hstep ih =>
    obtain ⟨owner, ho⟩ := ih
    exact ho.step hstep

/-- **When all work is done, the output is everything that was brought if and only if
nothing was brought to a placeholder.** -/
theorem out_eq_total_iff (hdone : ∀ i, h.held i = none) :
    h.out = total h.log ↔ ∀ e ∈ h.log, e.1 = true ∨ e.2 = [] := by
  obtain ⟨owner, ho⟩ := exists_owned hreach
  have hout : h.out = kept h.log := by
    rw [← ho.written]
    cases owner with
    | none => exact (List.append_nil _).symm
    | some i =>
      change h.out = h.out ++ pending (h.held i)
      rw [hdone i]
      exact (List.append_nil _).symm
  rw [hout]
  exact kept_eq_total_iff h.log

end Handoff

end Machine
end HoldTheDonut
