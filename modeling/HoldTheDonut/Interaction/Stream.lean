import HoldTheDonut.Interaction.Exec

/-!
# Programs on byte streams

The operations of a program that reads one stream and writes another, and the two functions that
almost every such program is made of: `readExact`, which reads until it has so many bytes, and
`copy`, which reads until the end and writes what it has read.

A read returns what happens to be there, at least one byte and at most as many as were asked for.
The stream of a `World` is therefore a list of pieces, and `World.Holds` says which bytes they
amount to.  What the lemmas below say of a program depends on those bytes alone, so that a program
made of `readExact` and `copy` does not see how its stream was cut.
-/

namespace HoldTheDonut
namespace Interaction
namespace Stream

/-- What a program on streams awaits. -/
inductive Op where
  /-- At most so many bytes of the input. -/
  | read (max : ℕ)
  | writeAll (bytes : List UInt8)
  | flush
  | shutdown
  /-- A random number up to the bound. -/
  | draw (bound : ℕ)
  deriving DecidableEq

/-- The answers.  No bytes are the end of the input and `none` is an error; a Boolean says whether
the operation succeeded. -/
def Ans : Op → Type
  | .read _ => Option (List UInt8)
  | .writeAll _ => Bool
  | .flush => Bool
  | .shutdown => Unit
  | .draw _ => ℕ

section Programs

variable {ε : Type} (io : ε)

/-- The `?` behind a fallible operation. -/
def orFail (ok : Bool) : Prog Op Ans ε Unit := Prog.check io ok

def read (max : ℕ) : Prog Op Ans ε (List UInt8) :=
  .ask (.read max) (Prog.orFail io : Option (List UInt8) → _)

def writeBytes (bytes : List UInt8) : Prog Op Ans ε Unit :=
  .ask (.writeAll bytes) (orFail io)

def flush : Prog Op Ans ε Unit := .ask .flush (orFail io)

def shutdown : Prog Op Ans ε Unit := Prog.perform Op.shutdown

def draw (bound : ℕ) : Prog Op Ans ε ℕ := .ask (.draw bound) (pure : ℕ → _)

/-- Nothing is written where there is nothing to write. -/
def writeNonempty (bytes : List UInt8) : Prog Op Ans ε Unit :=
  if bytes = [] then pure () else writeBytes io bytes

/-- The loop of `readExact`: `n` bytes are still to come.  A read returns one at least, so `n` is
enough fuel. -/
def readExactLoop : ℕ → ℕ → List UInt8 → Prog Op Ans ε (Option (List UInt8))
  | 0, _, acc => pure (some acc)
  | fuel + 1, n, acc =>
    if n = 0 then pure (some acc)
    else do
      let bytes ← read io n
      if bytes = [] then pure none
      else readExactLoop fuel (n - bytes.length) (acc ++ bytes)

/-- Read exactly so many bytes; `none` if the input ends before. -/
def readExact (n : ℕ) : Prog Op Ans ε (Option (List UInt8)) := readExactLoop io n n []

/-- `readExact`, with an error of its own for an input that ends before. -/
def readExactOrFail (eof : ε) (n : ℕ) : Prog Op Ans ε (List UInt8) := do
  match ← readExact io n with
  | some bytes => pure bytes
  | none => .fail eof

/-- The buffer of `copy`. -/
def copyBufSize : ℕ := 8192

/-- Read until the end and write what was read. -/
def copy : ℕ → Prog Op Ans ε Unit
  | 0 => .halt
  | fuel + 1 => do
    let bytes ← read io copyBufSize
    if bytes = [] then flush io
    else do
      writeBytes io bytes
      copy fuel

/-- Reading only reads. -/
theorem only_readExactLoop {P : Op → Prop} (hread : ∀ max, P (.read max)) (fuel n : ℕ)
    (acc : List UInt8) : Only P (fun _ => True) (readExactLoop io fuel n acc) := by
  induction fuel generalizing n acc with
  | zero => trivial
  | succ fuel ih =>
    rw [readExactLoop]
    split
    · trivial
    · refine Only.bind ⟨hread n, fun bytes => Only.orFail io bytes⟩ fun bytes _ => ?_
      split
      · trivial
      · exact ih _ _

theorem only_readExactOrFail {P : Op → Prop} (hread : ∀ max, P (.read max)) (eof : ε) (n : ℕ) :
    Only P (fun _ => True) (readExactOrFail io eof n) := by
  refine (only_readExactLoop io hread n n []).bind fun bytes _ => ?_
  cases bytes with
  | none => trivial
  | some bytes => trivial

end Programs

/-! ## A world -/

/-- The pieces of the input, what will be drawn, what was written, and whether the output was shut
down. -/
structure World where
  chunks : List (List UInt8)
  draws : List ℕ
  out : List UInt8
  shut : Bool
  deriving DecidableEq

/-- A read takes from the first piece. -/
def takeChunk (max : ℕ) : List (List UInt8) → List UInt8 × List (List UInt8)
  | [] => ([], [])
  | c :: cs => if c.length ≤ max then (c, cs) else (c.take max, c.drop max :: cs)

/-- A world in which nothing fails. -/
def World.answer : (op : Op) → World → Option (Ans op × World)
  | .read max, w => some (some (takeChunk max w.chunks).1,
      { w with chunks := (takeChunk max w.chunks).2 })
  | .writeAll bytes, w => some (true, { w with out := w.out ++ bytes })
  | .flush, w => some (true, w)
  | .shutdown, w => some ((), { w with shut := true })
  | .draw bound, w => some ((min (w.draws.headD 0) bound : ℕ), { w with draws := w.draws.tail })

/-- The input amounts to these bytes.  No piece is empty, since that would be the end. -/
structure World.Holds (w : World) (s : List UInt8) : Prop where
  flatten_eq : w.chunks.flatten = s
  nonempty : ∀ c ∈ w.chunks, c ≠ []

/-- The same world with other pieces to read. -/
def World.withChunks (w : World) (cs : List (List UInt8)) : World := { w with chunks := cs }

/-- The same world with more written. -/
def World.wrote (w : World) (bytes : List UInt8) : World := { w with out := w.out ++ bytes }

section Exec

variable {ε : Type} (io : ε) {w : World} {s : List UInt8}

theorem World.Holds.wrote (h : w.Holds s) (bytes : List UInt8) : (w.wrote bytes).Holds s :=
  ⟨h.flatten_eq, h.nonempty⟩

@[simp] theorem exec_writeBytes (bytes : List UInt8) :
    exec World.answer (writeBytes io bytes) w = (.returned (), w.wrote bytes) := rfl

theorem exec_writeNonempty (bytes : List UInt8) :
    exec World.answer (writeNonempty io bytes) w = (.returned (), w.wrote bytes) := by
  unfold writeNonempty
  split
  · next hnil =>
    rw [hnil, World.wrote, List.append_nil]
    rfl
  · rfl

/-- Whatever is drawn is within the bound. -/
theorem exec_draw (bound : ℕ) :
    ∃ n draws, n ≤ bound ∧
      exec World.answer (draw bound : Prog Op Ans ε ℕ) w =
        (.returned n, { w with draws := draws }) :=
  ⟨min (w.draws.headD 0) bound, w.draws.tail, Nat.min_le_right _ _, rfl⟩

@[simp] theorem exec_flush : exec World.answer (flush io) w = (.returned (), w) := rfl

/-- At the end of the input a read returns nothing. -/
theorem exec_read_nil (h : w.Holds []) (max : ℕ) :
    exec World.answer (read io max) w = (.returned [], w) := by
  have hchunks : w.chunks = [] := by
    refine List.eq_nil_iff_forall_not_mem.mpr fun c hc => h.nonempty c hc ?_
    exact List.flatten_eq_nil_iff.mp h.flatten_eq c hc
  obtain ⟨chunks, draws, out, shut⟩ := w
  subst hchunks
  rfl

/-- **Before the end a read returns some bytes off the front**, at most as many as were asked
for. -/
theorem exec_read (h : w.Holds s) (hs : s ≠ []) {max : ℕ} (hmax : 0 < max) :
    ∃ front rest cs, s = front ++ rest ∧ front ≠ [] ∧ front.length ≤ max ∧
      (w.withChunks cs).Holds rest ∧
      exec World.answer (read io max) w = (.returned front, w.withChunks cs) := by
  obtain ⟨chunks, draws, out, shut⟩ := w
  cases chunks with
  | nil => exact absurd h.flatten_eq.symm hs
  | cons c cs =>
      have hc : c ≠ [] := h.nonempty c List.mem_cons_self
      have hcs : ∀ c' ∈ cs, c' ≠ [] := fun c' hc' => h.nonempty c' (List.mem_cons_of_mem _ hc')
      have hflat : c ++ cs.flatten = s := h.flatten_eq
      by_cases hfits : c.length ≤ max
      · refine ⟨c, cs.flatten, cs, hflat.symm, hc, hfits, ⟨rfl, hcs⟩, ?_⟩
        show (Stop.returned (takeChunk max (c :: cs)).1, _) = _
        simp only [takeChunk, if_pos hfits]
        rfl
      · have hpos : 0 < c.length := List.length_pos_of_ne_nil hc
        refine ⟨c.take max, c.drop max ++ cs.flatten, c.drop max :: cs, ?_, ?_, ?_, ⟨rfl, ?_⟩, ?_⟩
        · rw [← List.append_assoc, List.take_append_drop, hflat]
        · refine List.ne_nil_of_length_pos ?_
          rw [List.length_take]
          omega
        · exact List.length_take_le _ _
        · intro c' hc'
          rcases List.mem_cons.mp hc' with rfl | hmem
          · refine List.ne_nil_of_length_pos ?_
            rw [List.length_drop]
            omega
          · exact hcs c' hmem
        · show (Stop.returned (takeChunk max (c :: cs)).1, _) = _
          simp only [takeChunk, if_neg hfits]
          rfl

theorem exec_readExactLoop (fuel : ℕ) (a rest acc : List UInt8) (hfuel : a.length ≤ fuel)
    (h : w.Holds (a ++ rest)) :
    ∃ cs, (w.withChunks cs).Holds rest ∧
      exec World.answer (readExactLoop io fuel a.length acc) w =
        (.returned (some (acc ++ a)), w.withChunks cs) := by
  induction fuel generalizing a acc w with
  | zero =>
      obtain rfl : a = [] := List.eq_nil_of_length_eq_zero (Nat.le_zero.mp hfuel)
      refine ⟨w.chunks, h, ?_⟩
      rw [List.append_nil]
      rfl
  | succ fuel ih =>
      rw [readExactLoop]
      by_cases hnil : a = []
      · subst hnil
        refine ⟨w.chunks, h, ?_⟩
        rw [List.length_nil, if_pos rfl, List.append_nil]
        rfl
      · have hpos : 0 < a.length := List.length_pos_of_ne_nil hnil
        obtain ⟨front, tail, cs, hsplit, hfront, hlen, hholds, hread⟩ :=
          exec_read io h (by simp [hnil]) hpos
        -- the bytes that were read are the beginning of the bytes that were asked for
        obtain ⟨a', rfl, rfl⟩ : ∃ a', a = front ++ a' ∧ tail = a' ++ rest := by
          refine ⟨a.drop front.length, ?_, ?_⟩
          · have htake : a.take front.length = front := by
              have := congrArg (List.take front.length) hsplit
              rwa [List.take_append_of_le_length hlen, List.take_left] at this
            conv_lhs => rw [← List.take_append_drop front.length a, htake]
          · have := congrArg (List.drop front.length) hsplit
            rwa [List.drop_append_of_le_length hlen, List.drop_left, eq_comm] at this
        have hfpos : 0 < front.length := List.length_pos_of_ne_nil hfront
        rw [List.length_append] at hfuel
        obtain ⟨cs', hholds', hrun⟩ := ih a' (acc ++ front) (by omega) hholds
        refine ⟨cs', hholds', ?_⟩
        rw [if_neg (by omega), exec_bind_of_returned _ hread, if_neg hfront, List.length_append,
          Nat.add_sub_cancel_left, hrun, List.append_assoc]
        rfl

/-- **`readExact` reads what comes first**, however it comes. -/
theorem exec_readExact {a rest : List UInt8} (h : w.Holds (a ++ rest)) :
    ∃ cs, (w.withChunks cs).Holds rest ∧
      exec World.answer (readExact io a.length) w = (.returned (some a), w.withChunks cs) :=
  exec_readExactLoop io a.length a rest [] (Nat.le_refl _) h

/-- A whole piece is read without an error. -/
theorem exec_readExactOrFail (eof : ε) {a rest : List UInt8} (h : w.Holds (a ++ rest)) :
    ∃ cs, (w.withChunks cs).Holds rest ∧
      exec World.answer (readExactOrFail io eof a.length) w = (.returned a, w.withChunks cs) := by
  obtain ⟨cs, hholds, hread⟩ := exec_readExact io h
  refine ⟨cs, hholds, ?_⟩
  rw [readExactOrFail, exec_bind_of_returned _ hread]
  rfl

/-- Too short an input is read to its end, and then there is no result. -/
theorem exec_readExactLoop_short (fuel : ℕ) {n : ℕ} (acc : List UInt8) (hfuel : n ≤ fuel)
    (hshort : s.length < n) (h : w.Holds s) :
    ∃ cs, exec World.answer (readExactLoop io fuel n acc) w =
      (.returned none, w.withChunks cs) := by
  induction fuel generalizing n s acc w with
  | zero => omega
  | succ fuel ih =>
      rw [readExactLoop, if_neg (by omega)]
      by_cases hs : s = []
      · subst hs
        refine ⟨w.chunks, ?_⟩
        rw [exec_bind_of_returned _ (exec_read_nil io h n), if_pos rfl]
        rfl
      · obtain ⟨front, rest, cs, rfl, hfront, -, hholds, hread⟩ :=
          exec_read io h hs (show 0 < n by omega)
        have hfpos : 0 < front.length := List.length_pos_of_ne_nil hfront
        rw [List.length_append] at hshort
        obtain ⟨cs', hrun⟩ := ih (n := n - front.length) (acc ++ front) (by omega) (by omega) hholds
        refine ⟨cs', ?_⟩
        rw [exec_bind_of_returned _ hread, if_neg hfront, hrun]
        rfl

/-- **A `readExact` that succeeded has taken so many bytes off the front.** -/
theorem of_exec_readExactOrFail {eof : ε} {n : ℕ} {bytes : List UInt8} {w' : World} (h : w.Holds s)
    (hrun : exec World.answer (readExactOrFail io eof n) w = (.returned bytes, w')) :
    ∃ rest, s = bytes ++ rest ∧ bytes.length = n ∧ w'.Holds rest := by
  by_cases hshort : s.length < n
  · obtain ⟨cs, hread⟩ := exec_readExactLoop_short io n [] (Nat.le_refl n) hshort h
    rw [readExactOrFail, readExact, exec_bind_of_returned _ hread] at hrun
    cases hrun
  · have hlen : (s.take n).length = n := List.length_take_of_le (by omega)
    have hsplit : w.Holds (s.take n ++ s.drop n) := by rwa [List.take_append_drop]
    obtain ⟨cs, hholds, hread⟩ := exec_readExactOrFail io eof hsplit
    rw [hlen, hrun] at hread
    cases hread
    exact ⟨s.drop n, (List.take_append_drop n s).symm, hlen, hholds⟩

/-- **At every moment of a `copy` what was written and what is left are the input.**  With enough
fuel nothing is left. -/
theorem exec_copy_part (fuel : ℕ) (h : w.Holds s) :
    ∃ stop written rest cs, s = written ++ rest ∧ (w.withChunks cs).Holds rest ∧
      exec World.answer (copy io fuel) w = (stop, (w.withChunks cs).wrote written) ∧
      (stop = .halted ∨ stop = .returned ()) ∧ (s.length < fuel → stop ≠ .halted ∧ rest = []) := by
  induction fuel generalizing s w with
  | zero =>
      refine ⟨.halted, [], s, w.chunks, rfl, h, ?_, Or.inl rfl,
        fun hfuel => absurd hfuel (Nat.not_lt_zero _)⟩
      simp [copy, exec, World.wrote, World.withChunks]
  | succ fuel ih =>
      rw [copy]
      by_cases hs : s = []
      · subst hs
        refine ⟨.returned (), [], [], w.chunks, rfl, h, ?_, Or.inr rfl,
          fun _ => ⟨by simp, rfl⟩⟩
        rw [exec_bind_of_returned _ (exec_read_nil io h copyBufSize), if_pos rfl, exec_flush,
          World.wrote, World.withChunks, List.append_nil]
      · obtain ⟨front, tail, cs, rfl, hfront, -, hholds, hread⟩ :=
          exec_read io h hs (show 0 < copyBufSize by decide)
        have hfpos : 0 < front.length := List.length_pos_of_ne_nil hfront
        obtain ⟨stop, written, rest, cs', rfl, hholds', hrun, hstop, hend⟩ :=
          ih (hholds.wrote front)
        refine ⟨stop, front ++ written, rest, cs', (List.append_assoc _ _ _).symm,
          ⟨hholds'.flatten_eq, hholds'.nonempty⟩, ?_, hstop, ?_⟩
        · rw [exec_bind_of_returned _ hread, if_neg hfront,
            exec_bind_of_returned _ (exec_writeBytes io front), hrun]
          simp only [World.wrote, World.withChunks, List.append_assoc]
        · intro hfuel
          rw [List.length_append] at hfuel
          exact hend (by omega)

/-- **`copy` copies all there is.** -/
theorem exec_copy (fuel : ℕ) (hfuel : s.length < fuel) (h : w.Holds s) :
    ∃ cs, exec World.answer (copy io fuel) w = (.returned (), (w.withChunks cs).wrote s) := by
  obtain ⟨stop, written, rest, cs, rfl, -, hrun, hstop, hend⟩ := exec_copy_part io fuel h
  obtain ⟨hfinished, rfl⟩ := hend hfuel
  obtain rfl := hstop.resolve_left hfinished
  exact ⟨cs, by rw [hrun, List.append_nil]⟩

end Exec

end Stream
end Interaction
end HoldTheDonut
