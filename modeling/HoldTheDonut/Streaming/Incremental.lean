import Mathlib.Data.List.Basic

/-!
# Incremental parsers and read loops

A header parser is run on what has arrived so far.  When it says "too short" the
caller reads more and runs it *again from the start* on the longer buffer; any
other answer is final.  That loop is only right if answers are stable: what the
parser accepted or rejected it must still accept or reject, in the same way, when
more bytes follow.

`Incremental short p` says so, `short` naming the errors that mean "read more".
It is a property of one parser, is closed under sequencing (`Incremental.bind`),
and has one primitive, taking a fixed number of symbols (`Incremental.take`), so a
whole header parser is shown incremental by walking over its text.

`readLoop` is the caller.  `Incremental.readLoop_eq` identifies its outcome with a
single run of the parser over the whole stream; that no segmentation is visible is
a corollary.  The parsers are ordinary `StateT` programs over a list of symbols of
any type.
-/

namespace HoldTheDonut
namespace Streaming

variable {α ε β γ : Type}

/-- A parser takes a value off the front of a buffer. -/
abbrev Parser (α ε β : Type) : Type := StateT (List α) (Except ε) β

namespace Parser

variable {p : Parser α ε β} {s : List α}

theorem bind_of_ok (f : β → Parser α ε γ) {b : β} {t : List α} (h : p s = .ok (b, t)) :
    (p >>= f) s = f b t := by
  change (p s >>= fun x => f x.1 x.2) = _
  rw [h]
  rfl

theorem bind_of_error (f : β → Parser α ε γ) {e : ε} (h : p s = .error e) :
    (p >>= f) s = .error e := by
  change (p s >>= fun x => f x.1 x.2) = _
  rw [h]
  rfl

variable {f : β → Parser α ε γ}

theorem bind_eq_ok {c : γ} {r : List α} :
    (p >>= f) s = .ok (c, r) ↔ ∃ b t, p s = .ok (b, t) ∧ f b t = .ok (c, r) := by
  rcases hp : p s with e | ⟨b, t⟩
  · simp [bind_of_error f hp]
  · simp [bind_of_ok f hp]

theorem bind_eq_error {e : ε} :
    (p >>= f) s = .error e ↔ p s = .error e ∨ ∃ b t, p s = .ok (b, t) ∧ f b t = .error e := by
  rcases hp : p s with e' | ⟨b, t⟩
  · simp [bind_of_error f hp]
  · simp [bind_of_ok f hp]

end Parser

/-- **An incremental parser**: its answers, `short` ones apart, do not change when
more symbols follow, and an accepted value depends on the symbols it consumed only. -/
structure Incremental (short : ε → Prop) (p : Parser α ε β) : Prop where
  ok_append : ∀ {s : List α} {b : β} {r : List α}, p s = .ok (b, r) →
    ∀ x, p (s ++ x) = .ok (b, r ++ x)
  error_append : ∀ {s : List α} {e : ε}, p s = .error e → ¬ short e →
    ∀ x, p (s ++ x) = .error e
  consumed : ∀ {s : List α} {b : β} {r : List α}, p s = .ok (b, r) →
    ∃ h, s = h ++ r ∧ p h = .ok (b, [])

namespace Incremental

variable {short : ε → Prop}

theorem pure (b : β) : Incremental short (Pure.pure b : Parser α ε β) where
  ok_append := by
    intro s b' r h x
    cases h
    rfl
  error_append := by
    intro s e h
    cases h
  consumed := by
    intro s b' r h
    cases h
    exact ⟨[], rfl, rfl⟩

theorem throw (e : ε) : Incremental short (throw e : Parser α ε β) where
  ok_append := by
    intro s b r h
    cases h
  error_append := by
    intro s e' h _ x
    cases h
    rfl
  consumed := by
    intro s b r h
    cases h

/-- A computation that does not touch the buffer. -/
theorem liftExcept (x : Except ε β) : Incremental short (liftM x : Parser α ε β) := by
  cases x with
  | error e => exact throw e
  | ok b => exact pure b

variable {p : Parser α ε β} {f : β → Parser α ε γ}

/-- Sequencing.  The second parser only ever sees what the first one left over. -/
theorem bind (hp : Incremental short p) (hf : ∀ b, Incremental short (f b)) :
    Incremental short (p >>= f) where
  ok_append := by
    intro s c r h x
    obtain ⟨b, t, hps, hfb⟩ := Parser.bind_eq_ok.mp h
    rw [Parser.bind_of_ok f (hp.ok_append hps x)]
    exact (hf b).ok_append hfb x
  error_append := by
    intro s e h hshort x
    rcases Parser.bind_eq_error.mp h with hps | ⟨b, t, hps, hfb⟩
    · exact Parser.bind_of_error f (hp.error_append hps hshort x)
    · rw [Parser.bind_of_ok f (hp.ok_append hps x)]
      exact (hf b).error_append hfb hshort x
  consumed := by
    intro s c r h
    obtain ⟨b, t, hps, hfb⟩ := Parser.bind_eq_ok.mp h
    obtain ⟨h₁, hs, hp₁⟩ := hp.consumed hps
    obtain ⟨h₂, ht, hf₂⟩ := (hf b).consumed hfb
    refine ⟨h₁ ++ h₂, by rw [hs, ht, List.append_assoc], ?_⟩
    rw [Parser.bind_of_ok f (hp.ok_append hp₁ h₂)]
    exact hf₂

/-- The primitive: take `n` symbols, or report the buffer too short. -/
theorem take (n : ℕ) (tooShort : ℕ → ε) (h : ∀ k, short (tooShort k)) :
    Incremental short (fun s : List α =>
      if s.length < n then .error (tooShort s.length) else .ok (s.take n, s.drop n)) where
  ok_append := by
    intro s b r hs x
    split at hs
    · cases hs
    · next hlen =>
      cases hs
      rw [if_neg (by rw [List.length_append]; omega), List.take_append_of_le_length (by omega),
        List.drop_append_of_le_length (by omega)]
  error_append := by
    intro s e hs hshort
    split at hs
    · cases hs
      exact absurd (h _) hshort
    · cases hs
  consumed := by
    intro s b r hs
    split at hs
    · cases hs
    · next hlen =>
      cases hs
      refine ⟨s.take n, (List.take_append_drop n s).symm, ?_⟩
      have hn : (s.take n).length = n := List.length_take_of_le (by omega)
      rw [if_neg (by omega), List.take_of_length_le (by omega), List.drop_of_length_le (by omega)]

/-- On a proper initial part of what it consumes the parser asks for more.  It
cannot accept there, having nothing to leave over later, and a final error would
have stayed. -/
theorem short_of_properPrefix (hp : Incremental short p) {c : List α} {b : β}
    (h : p c = .ok (b, [])) {q : List α} (hq : q <+: c) (hne : q ≠ c) :
    ∃ e, short e ∧ p q = .error e := by
  obtain ⟨t, rfl⟩ := hq
  have ht : t ≠ [] := by
    rintro rfl
    exact hne (List.append_nil q).symm
  cases hpq : p q with
  | ok x =>
    have happ := hp.ok_append hpq t
    rw [h] at happ
    have hnil : x.2 ++ t = [] := (congrArg Prod.snd (Except.ok.inj happ)).symm
    exact absurd (List.append_eq_nil_iff.mp hnil).2 ht
  | error e =>
    refine ⟨e, ?_, rfl⟩
    by_contra hshort
    have happ := hp.error_append hpq hshort t
    rw [h] at happ
    cases happ

end Incremental

/-! ## The read loop -/

/-- How a read loop ends: with a value, what the buffer held behind it and the
reads still to come; with a final error; or at the end of the stream. -/
inductive ReadOutcome (α ε β : Type) where
  | done (value : β) (leftover : List α) (unread : List (List α))
  | failed (error : ε)
  | eof
  deriving DecidableEq

/-- The outcome without the boundary between buffer and socket: everything behind
the value, wherever it is waiting. -/
def ReadOutcome.joined : ReadOutcome α ε β → Option (Except ε (β × List α))
  | .done value leftover unread => some (.ok (value, leftover ++ unread.flatten))
  | .failed error => some (.error error)
  | .eof => none

/-- Read, append to the buffer, parse the buffer from its start; on a short buffer
read again.  A read of no symbols is the end of the stream. -/
def readLoop [DecidableEq α] (short : ε → Prop) [DecidablePred short] (p : Parser α ε β) :
    List α → List (List α) → ReadOutcome α ε β
  | _, [] => .eof
  | buf, c :: cs =>
    if c = [] then .eof
    else
      match p (buf ++ c) with
      | .ok (value, leftover) => .done value leftover cs
      | .error e => if short e then readLoop short p (buf ++ c) cs else .failed e

/-- One run of the parser over the whole stream, "too short" being the end of it. -/
def verdict (short : ε → Prop) [DecidablePred short] (p : Parser α ε β) (s : List α) :
    Option (Except ε (β × List α)) :=
  match p s with
  | .ok x => some (.ok x)
  | .error e => if short e then none else some (.error e)

namespace Incremental

variable {short : ε → Prop} [DecidablePred short] {p : Parser α ε β} {s : List α}

theorem verdict_append_of_ok (hp : Incremental short p) {b : β} {r : List α} (h : p s = .ok (b, r))
    (x : List α) : verdict short p (s ++ x) = some (.ok (b, r ++ x)) := by
  unfold verdict
  rw [hp.ok_append h x]

theorem verdict_append_of_error (hp : Incremental short p) {e : ε} (h : p s = .error e)
    (hshort : ¬ short e) (x : List α) :
    verdict short p (s ++ x) = some (.error e) := by
  unfold verdict
  rw [hp.error_append h hshort x]
  exact if_neg hshort

/-- **The read loop is one run over the whole stream.**  The induction is on the
reads still to come; what it carries is that the buffer alone is too short. -/
theorem readLoop_eq [DecidableEq α] (hp : Incremental short p) :
    ∀ (cs : List (List α)) (buf : List α), (∀ c ∈ cs, c ≠ []) →
      verdict short p buf = none →
      (readLoop short p buf cs).joined = verdict short p (buf ++ cs.flatten)
  | [], buf, _, hbuf => by
    rw [List.flatten_nil, List.append_nil, hbuf]
    rfl
  | c :: cs, buf, hcs, _ => by
    have hc : c ≠ [] := hcs c List.mem_cons_self
    rw [List.flatten_cons, ← List.append_assoc, readLoop, if_neg hc]
    cases hpc : p (buf ++ c) with
    | ok x =>
      rw [hp.verdict_append_of_ok hpc]
      rfl
    | error e =>
      simp only
      by_cases hshort : short e
      · rw [if_pos hshort]
        refine hp.readLoop_eq cs (buf ++ c) (fun d hd => hcs d (List.mem_cons_of_mem c hd)) ?_
        unfold verdict
        rw [hpc]
        exact if_pos hshort
      · rw [if_neg hshort, hp.verdict_append_of_error hpc hshort]
        rfl

/-- **No segmentation is visible**: the same stream ends the loop the same way. -/
theorem readLoop_congr [DecidableEq α] (hp : Incremental short p) (hnil : verdict short p [] = none)
    {cs ds : List (List α)} (hcs : ∀ c ∈ cs, c ≠ []) (hds : ∀ d ∈ ds, d ≠ [])
    (h : cs.flatten = ds.flatten) :
    (readLoop short p [] cs).joined = (readLoop short p [] ds).joined := by
  rw [hp.readLoop_eq cs [] hcs hnil, hp.readLoop_eq ds [] hds hnil, h]

end Incremental

end Streaming
end HoldTheDonut
