import HoldTheDonut.Interaction.Program

/-!
# Complete runs, and programs inside others

`Performs` speaks about every beginning of a run, which is what a safety property needs.  What a
program must *have* done can only be asked of a run that has come to its end: `Ends p tr r` is a
run of `p` that performed `tr` and ended with `r`, a result or an error.  A program that is out of
fuel has not come to its end.

`embed` runs a program over one kind of operations inside a program over another kind, each
operation and each error under its new name.
-/

namespace HoldTheDonut
namespace Interaction

variable {Op Op' : Type} {Ans : Op → Type} {Ans' : Op' → Type} {ε ε' α β : Type}

/-- **A complete run**: what was performed, with the answers, and how it ended. -/
inductive Ends : Prog Op Ans ε α → List (Entry Op Ans) → Except ε α → Prop
  | pure (a : α) : Ends (.pure a) [] (.ok a)
  | fail (e : ε) : Ends (.fail e) [] (.error e)
  | ask {op : Op} {next : Ans op → Prog Op Ans ε α} (x : Ans op) {tr : List (Entry Op Ans)}
      {r : Except ε α} (h : Ends (next x) tr r) : Ends (.ask op next) (⟨op, x⟩ :: tr) r

namespace Ends

variable {tr tr₁ tr₂ : List (Entry Op Ans)} {r : Except ε α}

theorem of_pure {a : α} (h : Ends (.pure a : Prog Op Ans ε α) tr r) : tr = [] ∧ r = .ok a := by
  cases h
  exact ⟨rfl, rfl⟩

theorem of_fail {e : ε} (h : Ends (.fail e : Prog Op Ans ε α) tr r) :
    tr = [] ∧ r = .error e := by
  cases h
  exact ⟨rfl, rfl⟩

theorem of_ask {op : Op} {next : Ans op → Prog Op Ans ε α} (h : Ends (.ask op next) tr r) :
    ∃ x rest, tr = ⟨op, x⟩ :: rest ∧ Ends (next x) rest r := by
  cases h with
  | ask x h => exact ⟨x, _, rfl, h⟩

variable {p : Prog Op Ans ε α}

/-- **The runs of a sequence**: those of its first part that fail, and the others with a run of
what follows behind them. -/
theorem of_bind {f : α → Prog Op Ans ε β} {r : Except ε β} (h : Ends (p >>= f) tr r) :
    (∃ e, Ends p tr (.error e) ∧ r = .error e) ∨
      ∃ a tr₁ tr₂, tr = tr₁ ++ tr₂ ∧ Ends p tr₁ (.ok a) ∧ Ends (f a) tr₂ r := by
  induction p generalizing tr with
  | pure a => exact Or.inr ⟨a, [], tr, rfl, .pure a, h⟩
  | fail e =>
    obtain ⟨rfl, rfl⟩ := of_fail h
    exact Or.inl ⟨e, .fail e, rfl⟩
  | ask op next ih =>
    obtain ⟨x, rest, rfl, hrest⟩ := of_ask h
    rcases ih x hrest with ⟨e, hp, rfl⟩ | ⟨a, tr₁, tr₂, rfl, hp, hf⟩
    · exact Or.inl ⟨e, .ask x hp, rfl⟩
    · exact Or.inr ⟨a, ⟨op, x⟩ :: tr₁, tr₂, rfl, .ask x hp, hf⟩
  | halt => cases h

/-- Behind a run of its first part a sequence goes on with what follows. -/
theorem bind_append_iff {f : α → Prog Op Ans ε β} {a : α} {r : Except ε β}
    (hp : Ends p tr₁ (.ok a)) : Ends (p >>= f) (tr₁ ++ tr₂) r ↔ Ends (f a) tr₂ r := by
  generalize hr : Except.ok a = r₁ at hp
  induction hp with
  | pure b =>
    cases hr
    exact Iff.rfl
  | fail e => cases hr
  | @ask op next x tr _ _ ih =>
    refine Iff.trans ⟨fun h => ?_, fun h => ?_⟩ (ih hr)
    · cases h with
      | ask _ h => exact h
    · exact Ends.ask x h

end Ends

variable {p : Prog Op Ans ε α}

/-- Every operation of a run is one the program keeps to. -/
theorem Only.of_ends {P : Op → Prop} {R : α → Prop} (hp : Only P R p) {tr : List (Entry Op Ans)}
    {r : Except ε α} (h : Ends p tr r) : ∀ e ∈ tr, P e.1 := by
  induction h with
  | pure a => exact fun e he => absurd he List.not_mem_nil
  | fail e => exact fun e he => absurd he List.not_mem_nil
  | ask x _ ih => exact List.forall_mem_cons.mpr ⟨hp.1, ih (hp.2 x)⟩

/-! ## A program inside another -/

/-- The program with its operations and errors under other names. -/
def Prog.embed (op' : Op → Op') (ans : (o : Op) → Ans' (op' o) → Ans o) (err : ε → ε') :
    Prog Op Ans ε α → Prog Op' Ans' ε' α
  | .pure a => .pure a
  | .fail e => .fail (err e)
  | .ask o next => .ask (op' o) fun x => (next (ans o x)).embed op' ans err
  | .halt => .halt

variable {op' : Op → Op'} {ans : (o : Op) → Ans' (op' o) → Ans o} {err : ε → ε'}

/-- A run inside the other program is a run of the program. -/
theorem Ends.of_embed {tr : List (Entry Op' Ans')} {a : α}
    (h : Ends (p.embed op' ans err) tr (.ok a)) :
    ∃ tr', Ends p tr' (.ok a) ∧ tr.map (·.1) = tr'.map fun e => op' e.1 := by
  induction p generalizing tr with
  | pure b =>
    obtain ⟨rfl, hr⟩ := Ends.of_pure h
    cases hr
    exact ⟨[], .pure a, rfl⟩
  | fail e =>
    obtain ⟨-, hr⟩ := Ends.of_fail h
    cases hr
  | ask o next ih =>
    obtain ⟨x, rest, rfl, hrest⟩ := Ends.of_ask h
    obtain ⟨tr', hends, hops⟩ := ih (ans o x) hrest
    exact ⟨⟨o, ans o x⟩ :: tr', .ask (ans o x) hends, by simp only [List.map_cons, hops]⟩
  | halt => cases h

end Interaction
end HoldTheDonut
