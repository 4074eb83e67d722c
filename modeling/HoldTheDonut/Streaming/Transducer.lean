import Mathlib.Data.List.Basic

/-!
# Stream transducers and chunking

A transducer reads a byte stream in chunks: `push s c` takes the state `s` and
the next chunk `c` to the next state and to what it emits on the way.  A socket
hands the same stream over in whatever pieces it likes, so the one question worth
asking of a transducer is whether those pieces are visible in what it emits.

`ChunkFree` is the answer stated once: on the states of an invariant, pushing
`a ++ b` is pushing `a` and then `b`.  `ChunkFree.pushAll_eq` draws the
consequence that every caller wants --- a whole list of chunks is one push of
their concatenation --- and `ChunkFree.of_cons` gives the cheapest way in: it is
enough to peel off **one** symbol.  Chunk-free transducers can be put in line
(`ChunkFree.piped`), so a stack of codecs is shown chunk-free layer by layer.  Two transducers
on one stream are compared chunk by chunk (`pushAll_simulation`).

Nothing here knows what the symbols are, what the states are or what is emitted.
-/

namespace HoldTheDonut
namespace Streaming

variable {σ α β : Type*}

/-- Two emissions in sequence: the state of the second, and both outputs. -/
def andThen (r : σ × List β) (f : σ → σ × List β) : σ × List β :=
  ((f r.1).1, r.2 ++ (f r.1).2)

@[simp] theorem andThen_nil (s : σ) (f : σ → σ × List β) :
    andThen (s, []) f = f s := rfl

@[simp] theorem andThen_fst (r : σ × List β) (f : σ → σ × List β) :
    (andThen r f).1 = (f r.1).1 := rfl

@[simp] theorem andThen_snd (r : σ × List β) (f : σ → σ × List β) :
    (andThen r f).2 = r.2 ++ (f r.1).2 := rfl

/-- Only the state reached matters to what comes second. -/
theorem andThen_congr {r : σ × List β} {f g : σ → σ × List β} (h : f r.1 = g r.1) :
    andThen r f = andThen r g := by
  unfold andThen
  rw [h]

theorem andThen_assoc (r : σ × List β) (f g : σ → σ × List β) :
    andThen (andThen r f) g = andThen r fun s => andThen (f s) g := by
  unfold andThen
  rw [List.append_assoc]

/-- Push a list of chunks, one after the other, collecting what is emitted. -/
def pushAll (push : σ → List α → σ × List β) : σ → List (List α) → σ × List β
  | s, [] => (s, [])
  | s, c :: cs => andThen (push s c) fun t => pushAll push t cs

@[simp] theorem pushAll_nil (push : σ → List α → σ × List β) (s : σ) :
    pushAll push s [] = (s, []) := rfl

@[simp] theorem pushAll_cons (push : σ → List α → σ × List β) (s : σ) (c : List α)
    (cs : List (List α)) :
    pushAll push s (c :: cs) = andThen (push s c) fun t => pushAll push t cs := rfl

/-- **A transducer that does not see chunk boundaries**, on the states of `Inv`. -/
structure ChunkFree (push : σ → List α → σ × List β) (Inv : σ → Prop) : Prop where
  /-- The invariant is kept by every push. -/
  inv : ∀ s c, Inv s → Inv (push s c).1
  /-- The empty chunk is invisible. -/
  nil : ∀ s, Inv s → push s [] = (s, [])
  /-- One push of `a ++ b` is a push of `a` followed by a push of `b`. -/
  append : ∀ s a b, Inv s → push s (a ++ b) = andThen (push s a) fun t => push t b

variable {push : σ → List α → σ × List β} {Inv : σ → Prop}

/-- It is enough to peel off one symbol.  The induction is on the first of the
two chunks, and the invariant travels with it. -/
theorem ChunkFree.of_cons (inv : ∀ s c, Inv s → Inv (push s c).1)
    (nil : ∀ s, Inv s → push s [] = (s, []))
    (cons : ∀ s x c, Inv s → push s (x :: c) = andThen (push s [x]) fun t => push t c) :
    ChunkFree push Inv where
  inv := inv
  nil := nil
  append := by
    intro s a b hs
    induction a generalizing s with
    | nil => rw [List.nil_append, nil s hs, andThen_nil]
    | cons x a ih =>
        have hx : Inv (push s [x]).1 := inv s [x] hs
        rw [List.cons_append, cons s x (a ++ b) hs, cons s x a hs, andThen_assoc]
        exact andThen_congr (ih _ hx)

/-- **Every way of cutting a stream into chunks is one push of the stream.** -/
theorem ChunkFree.pushAll_eq (h : ChunkFree push Inv) {s : σ} (hs : Inv s)
    (cs : List (List α)) : pushAll push s cs = push s cs.flatten := by
  induction cs generalizing s with
  | nil => rw [pushAll_nil, List.flatten_nil, h.nil s hs]
  | cons c cs ih =>
      rw [pushAll_cons, List.flatten_cons, h.append s c cs.flatten hs]
      exact andThen_congr (ih (h.inv s c hs))

/-! ## Two transducers on one stream -/

section Simulation

variable {τ : Type*} {push' : τ → List α → τ × List β}

/-- **A simulation of one push is a simulation of a run.**  Two transducers whose states stay
related and that emit the same for every chunk have emitted the same after any number of them. -/
theorem pushAll_simulation (R : σ → τ → Prop)
    (hpush : ∀ s t c, R s t → R (push s c).1 (push' t c).1 ∧ (push s c).2 = (push' t c).2)
    (cs : List (List α)) {s : σ} {t : τ} (h : R s t) :
    R (pushAll push s cs).1 (pushAll push' t cs).1 ∧
      (pushAll push s cs).2 = (pushAll push' t cs).2 := by
  induction cs generalizing s t with
  | nil => exact ⟨h, rfl⟩
  | cons c cs ih =>
      obtain ⟨hnext, hout⟩ := hpush s t c h
      obtain ⟨hrel, houts⟩ := ih hnext
      refine ⟨hrel, ?_⟩
      rw [pushAll_cons, pushAll_cons, andThen_snd, andThen_snd, hout, houts]

end Simulation

/-! ## In line -/

section Piped

variable {τ γ : Type*} {push' : τ → List β → τ × List γ} {Inv' : τ → Prop}

/-- Two transducers in line: what the first emits for a chunk is the chunk of the second. -/
def piped (push : σ → List α → σ × List β) (push' : τ → List β → τ × List γ) (s : σ × τ)
    (c : List α) : (σ × τ) × List γ :=
  let r := push s.1 c
  let r' := push' s.2 r.2
  ((r.1, r'.1), r'.2)

/-- **Transducers in line see no more of the chunks than each of them does.** -/
theorem ChunkFree.piped (h : ChunkFree push Inv) (h' : ChunkFree push' Inv') :
    ChunkFree (Streaming.piped push push') fun s => Inv s.1 ∧ Inv' s.2 where
  inv := by
    rintro ⟨s, t⟩ c ⟨hs, ht⟩
    exact ⟨h.inv s c hs, h'.inv t _ ht⟩
  nil := by
    rintro ⟨s, t⟩ ⟨hs, ht⟩
    unfold Streaming.piped
    simp only [h.nil s hs, h'.nil t ht]
  append := by
    rintro ⟨s, t⟩ a b ⟨hs, ht⟩
    unfold Streaming.piped
    simp only [h.append s a b hs, andThen, h'.append t _ _ ht]

end Piped

end Streaming
end HoldTheDonut
