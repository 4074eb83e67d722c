import Mathlib.Data.List.Basic

/-!
# Programs that ask their environment

A program is a tree: it returns, it fails, or it performs an operation and goes on with
the answer.  The answers are not the program's to choose, so a statement about every
list of operations a program can perform (`Performs`) is a statement about every
environment.  A loop without a bound of its own is written with fuel, and stops at
`halt` when that is used up; since every beginning of a run counts as a run, statements
about all runs lose nothing by the cut.

Two rules are enough to show that no operation comes too early.  `Ensures ok Q h p` says
that `p`, begun when the operations and answers of `h` lie behind it, performs nothing
that `ok` forbids at that point, and returns only what `Q` admits.  `Only P R p` says that
all operations of `p` are in `P` and all its results in `R`, whatever happened before.
The first is what a gate needs, the second what a loop behind the gate needs.
-/

namespace HoldTheDonut
namespace Interaction

/-- Programs over operations `Op` with answers `Ans`, errors `ε` and results `α`. -/
inductive Prog (Op : Type) (Ans : Op → Type) (ε α : Type) where
  | pure (a : α)
  | fail (e : ε)
  | ask (op : Op) (next : Ans op → Prog Op Ans ε α)
  | halt

namespace Prog

variable {Op : Type} {Ans : Op → Type} {ε α β : Type}

/-- Sequencing: an error or the end of the fuel ends the whole. -/
protected def bind : Prog Op Ans ε α → (α → Prog Op Ans ε β) → Prog Op Ans ε β
  | .pure a, f => f a
  | .fail e, _ => .fail e
  | .ask op next, f => .ask op fun x => (next x).bind f
  | .halt, _ => .halt

instance : Monad (Prog Op Ans ε) where
  pure := Prog.pure
  bind := Prog.bind

/-- Perform one operation and return the answer. -/
def perform (op : Op) : Prog Op Ans ε (Ans op) := .ask op .pure

/-- Run a program for its operations and ignore how it ends. -/
def ignoring : Prog Op Ans ε α → Prog Op Ans ε Unit
  | .pure _ => .pure ()
  | .fail _ => .pure ()
  | .ask op next => .ask op fun x => (next x).ignoring
  | .halt => .halt

/-- Stop with an error unless the test succeeds. -/
def check (e : ε) (b : Bool) : Prog Op Ans ε Unit := if b then .pure () else .fail e

/-- The value, or stop with an error. -/
def orFail (e : ε) : Option α → Prog Op Ans ε α
  | some a => .pure a
  | none => .fail e

end Prog

/-- An operation that was performed, with its answer. -/
abbrev Entry (Op : Type) (Ans : Op → Type) : Type := (op : Op) × Ans op

variable {Op : Type} {Ans : Op → Type} {ε α β : Type}

/-- The lists of operations a program can have performed by some point of some run. -/
inductive Performs : Prog Op Ans ε α → List (Entry Op Ans) → Prop
  | nil (p : Prog Op Ans ε α) : Performs p []
  | ask {op : Op} {next : Ans op → Prog Op Ans ε α} (x : Ans op) {tr : List (Entry Op Ans)}
      (h : Performs (next x) tr) : Performs (.ask op next) (⟨op, x⟩ :: tr)

/-! ## Programs that keep to a set of operations -/

/-- All operations of the program are in `P` and all its results in `R`. -/
def Only (P : Op → Prop) (R : α → Prop) : Prog Op Ans ε α → Prop
  | .pure a => R a
  | .fail _ => True
  | .ask op next => P op ∧ ∀ x, Only P R (next x)
  | .halt => True

namespace Only

variable {P Q : Op → Prop} {R : α → Prop} {S : β → Prop} {p : Prog Op Ans ε α}

theorem bind {f : α → Prog Op Ans ε β} (hp : Only P R p) (hf : ∀ a, R a → Only P S (f a)) :
    Only P S (p >>= f) := by
  induction p with
  | pure a => exact hf a hp
  | fail e => trivial
  | ask op next ih => exact ⟨hp.1, fun x => ih x (hp.2 x)⟩
  | halt => trivial

theorem mono (hp : Only P R p) (hPQ : ∀ op, P op → Q op) : Only Q R p := by
  induction p with
  | pure a => exact hp
  | fail e => trivial
  | ask op next ih => exact ⟨hPQ op hp.1, fun x => ih x (hp.2 x)⟩
  | halt => trivial

theorem perform {op : Op} (h : P op) :
    Only P (fun _ => True) (Prog.perform op : Prog Op Ans ε (Ans op)) :=
  ⟨h, fun _ => trivial⟩

theorem check (e : ε) (b : Bool) :
    Only P (fun _ => True) (Prog.check e b : Prog Op Ans ε Unit) := by
  unfold Prog.check
  split <;> trivial

theorem orFail (e : ε) (o : Option α) :
    Only P (fun _ => True) (Prog.orFail e o : Prog Op Ans ε α) := by
  cases o <;> trivial

/-- A program keeps to whatever it performs. -/
theorem any (p : Prog Op Ans ε α) : Only (fun _ => True) (fun _ => True) p := by
  induction p with
  | pure a => trivial
  | fail e => trivial
  | ask op next ih => exact ⟨trivial, ih⟩
  | halt => trivial

theorem ignoring (hp : Only P R p) :
    Only P (fun _ => True) p.ignoring := by
  induction p with
  | pure a => trivial
  | fail e => trivial
  | ask op next ih => exact ⟨hp.1, fun x => ih x (hp.2 x)⟩
  | halt => trivial

end Only

/-- Everything that was performed between two histories is in `P`. -/
def Along (P : Op → Prop) (h h' : List (Entry Op Ans)) : Prop :=
  ∃ rest, h' = h ++ rest ∧ ∀ e ∈ rest, P e.1

namespace Along

variable {P : Op → Prop} {h h' : List (Entry Op Ans)}

theorem refl (P : Op → Prop) (h : List (Entry Op Ans)) : Along P h h :=
  ⟨[], (List.append_nil h).symm, fun _ he => absurd he List.not_mem_nil⟩

theorem snoc {op : Op} (hh : Along P h h') (x : Ans op) (hop : P op) :
    Along P h (h' ++ [⟨op, x⟩]) := by
  obtain ⟨rest, rfl, hrest⟩ := hh
  refine ⟨rest ++ [⟨op, x⟩], List.append_assoc _ _ _, fun e he => ?_⟩
  rcases List.mem_append.mp he with he | he
  · exact hrest e he
  · obtain rfl := List.mem_singleton.mp he
    exact hop

theorem isPrefix (hh : Along P h h') : h <+: h' := by
  obtain ⟨rest, rfl, -⟩ := hh
  exact List.prefix_append h rest

end Along

/-! ## Programs that keep to a rule -/

/-- From history `h` on, the program performs only what `ok` admits at that point, and
returns only values that `Q` admits there. -/
def Ensures (ok : List (Entry Op Ans) → Op → Prop) (Q : List (Entry Op Ans) → α → Prop) :
    List (Entry Op Ans) → Prog Op Ans ε α → Prop
  | h, .pure a => Q h a
  | _, .fail _ => True
  | h, .ask op next => ok h op ∧ ∀ x, Ensures ok Q (h ++ [⟨op, x⟩]) (next x)
  | _, .halt => True

namespace Ensures

variable {ok : List (Entry Op Ans) → Op → Prop} {h : List (Entry Op Ans)} {p : Prog Op Ans ε α}

/-- **The rule of sequencing.** -/
theorem bind {R : List (Entry Op Ans) → α → Prop} {Q : List (Entry Op Ans) → β → Prop}
    {f : α → Prog Op Ans ε β} (hp : Ensures ok R h p)
    (hf : ∀ h' a, R h' a → Ensures ok Q h' (f a)) : Ensures ok Q h (p >>= f) := by
  induction p generalizing h with
  | pure a => exact hf h a hp
  | fail e => trivial
  | ask op next ih => exact ⟨hp.1, fun x => ih x (hp.2 x)⟩
  | halt => trivial

/-- **Behind the gate.**  What keeps to `P` is admitted as soon as everything in `P` is,
now and ever after. -/
theorem of_only {P : Op → Prop} {R : α → Prop} (hp : Only P R p)
    (hok : ∀ rest op, P op → ok (h ++ rest) op) :
    Ensures ok (fun _ a => R a) h p := by
  induction p generalizing h with
  | pure a => exact hp
  | fail e => trivial
  | ask op next ih =>
    refine ⟨?_, fun x => ih x (hp.2 x) fun rest op' hop' => ?_⟩
    · have hnow := hok [] op hp.1
      rwa [List.append_nil] at hnow
    · rw [List.append_assoc]
      exact hok _ op' hop'
  | halt => trivial

/-- Two rules at once. -/
theorem and {ok' : List (Entry Op Ans) → Op → Prop} {Q Q' : List (Entry Op Ans) → α → Prop}
    (hp : Ensures ok Q h p) (hp' : Ensures ok' Q' h p) :
    Ensures (fun h op => ok h op ∧ ok' h op) (fun h a => Q h a ∧ Q' h a) h p := by
  induction p generalizing h with
  | pure a => exact ⟨hp, hp'⟩
  | fail e => trivial
  | ask op next ih => exact ⟨⟨hp.1, hp'.1⟩, fun x => ih x (hp.2 x) (hp'.2 x)⟩
  | halt => trivial

/-- What keeps to `P` has performed nothing else, at every point and at its end. -/
theorem along {P : Op → Prop} {R : α → Prop} {h' : List (Entry Op Ans)} (hp : Only P R p)
    (hh : Along P h h') :
    Ensures (fun h' _ => Along P h h') (fun h' a => R a ∧ Along P h h') h' p := by
  induction p generalizing h' with
  | pure a => exact ⟨hp, hh⟩
  | fail e => trivial
  | ask op next ih => exact ⟨hh, fun x => ih x (hp.2 x) (hh.snoc x hp.1)⟩
  | halt => trivial

/-- **What a rule says about runs**: each operation was admitted when it was performed. -/
theorem of_performs {Q : List (Entry Op Ans) → α → Prop} {tr : List (Entry Op Ans)}
    (htr : Performs p tr) :
    ∀ {h : List (Entry Op Ans)}, Ensures ok Q h p →
      ∀ {before after : List (Entry Op Ans)} {e : Entry Op Ans},
        tr = before ++ e :: after → ok (h ++ before) e.1 := by
  induction htr with
  | nil p =>
    intro h _ before after e heq
    exact absurd heq.symm (List.append_ne_nil_of_right_ne_nil _ (List.cons_ne_nil _ _))
  | @ask op next x tr _ ih =>
    intro h hp before after e heq
    cases before with
    | nil =>
      obtain ⟨rfl, -⟩ := List.cons.inj heq
      rw [List.append_nil]
      exact hp.1
    | cons b before =>
      obtain ⟨rfl, htail⟩ := List.cons.inj heq
      have hok := ih (hp.2 x) htail
      rwa [List.append_assoc] at hok

end Ensures

end Interaction
end HoldTheDonut
