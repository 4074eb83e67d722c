import HoldTheDonut.Interaction.Program

/-!
# Programs that hold guards

A guard is a value that does something when it is taken and something when it goes out of scope,
and it goes out of scope at every exit of the block that has it: when the block returns, when it
fails, and when the whole program is dropped in the middle.

A program over `Op` becomes one that can hold guards by `lift`, and `hold k p` is `p` with a guard
of kind `k` around it: the drop stands at every exit of `p`.  `forget` takes the guards out again,
so a program with guards can be compared with the one it was made from.  `unwind` is what is left
of a program that is dropped.

`Stacked` is the rule for them.  It follows what a program performs and the stack of guards it
holds, and says that the two fit together whenever the program waits, that it drops what it took,
in the opposite order, and what it returns.  Its parts without guards are covered by the rules of
`Interaction.Program` (`Stacked.lift`).
-/

namespace HoldTheDonut
namespace Interaction

/-- An operation, or a guard that is taken or dropped. -/
inductive GuardOp (Op K : Type) where
  | op (o : Op)
  | take (k : K)
  | drop (k : K)

/-- The answers; a guard has none. -/
def GuardAns {Op K : Type} (Ans : Op → Type) : GuardOp Op K → Type
  | .op o => Ans o
  | .take _ => Unit
  | .drop _ => Unit

variable {Op K : Type} {Ans : Op → Type} {ε α β : Type}

namespace Prog

/-- A program that holds no guard. -/
def lift : Prog Op Ans ε α → Prog (GuardOp Op K) (GuardAns Ans) ε α
  | .pure a => .pure a
  | .fail e => .fail e
  | .ask o next => .ask (.op o) fun x => (next x).lift
  | .halt => .halt

/-- The same program without its guards. -/
def forget : Prog (GuardOp Op K) (GuardAns Ans) ε α → Prog Op Ans ε α
  | .pure a => .pure a
  | .fail e => .fail e
  | .ask (.op o) next => .ask o fun x => (next x).forget
  | .ask (.take _) next => (next ()).forget
  | .ask (.drop _) next => (next ()).forget
  | .halt => .halt

/-- Drop a guard at every exit. -/
def closing (k : K) :
    Prog (GuardOp Op K) (GuardAns Ans) ε α → Prog (GuardOp Op K) (GuardAns Ans) ε α
  | .pure a => .ask (.drop k) fun _ => .pure a
  | .fail e => .ask (.drop k) fun _ => .fail e
  | .ask o next => .ask o fun x => (next x).closing k
  | .halt => .halt

/-- Hold a guard as long as the program runs. -/
def hold (k : K) (p : Prog (GuardOp Op K) (GuardAns Ans) ε α) :
    Prog (GuardOp Op K) (GuardAns Ans) ε α :=
  .ask (.take k) fun _ => p.closing k

/-- What is left of a program that is dropped: its guards, the last one first. -/
def unwind : List K → Prog (GuardOp Op K) (GuardAns Ans) ε Unit
  | [] => .pure ()
  | k :: held => .ask (.drop k) fun _ => unwind held

theorem lift_bind (p : Prog Op Ans ε α) (f : α → Prog Op Ans ε β) :
    ((p >>= f).lift : Prog (GuardOp Op K) (GuardAns Ans) ε β) = p.lift >>= fun a => (f a).lift := by
  induction p with
  | pure a => rfl
  | fail e => rfl
  | ask o next ih => exact congrArg (Prog.ask (GuardOp.op o)) (funext ih)
  | halt => rfl

/-! ## Without the guards -/

@[simp] theorem forget_lift (p : Prog Op Ans ε α) :
    (p.lift : Prog (GuardOp Op K) (GuardAns Ans) ε α).forget = p := by
  induction p with
  | pure a => rfl
  | fail e => rfl
  | ask o next ih => exact congrArg (Prog.ask o) (funext ih)
  | halt => rfl

@[simp] theorem forget_bind (p : Prog (GuardOp Op K) (GuardAns Ans) ε α)
    (f : α → Prog (GuardOp Op K) (GuardAns Ans) ε β) :
    (p >>= f).forget = p.forget >>= fun a => (f a).forget := by
  induction p with
  | pure a => rfl
  | fail e => rfl
  | ask o next ih =>
    cases o with
    | op o => exact congrArg (Prog.ask o) (funext ih)
    | take k => exact ih ()
    | drop k => exact ih ()
  | halt => rfl

theorem forget_closing (k : K) (p : Prog (GuardOp Op K) (GuardAns Ans) ε α) :
    (p.closing k).forget = p.forget := by
  induction p with
  | pure a => rfl
  | fail e => rfl
  | ask o next ih =>
    cases o with
    | op o => exact congrArg (Prog.ask o) (funext ih)
    | take k => exact ih ()
    | drop k => exact ih ()
  | halt => rfl

@[simp] theorem forget_hold (k : K) (p : Prog (GuardOp Op K) (GuardAns Ans) ε α) :
    (hold k p).forget = p.forget :=
  forget_closing k p

end Prog

/-! ## The rule -/

/-- **From the history `h` and the stack `held` on**: whenever the program waits, `Inv` holds of
what was performed and of the guards; it ends with the stack `g`, and returns what `Q` admits. -/
def Stacked (Inv : List (Entry Op Ans) → List K → Prop) (Q : List (Entry Op Ans) → α → Prop)
    (g : List K) :
    List (Entry Op Ans) → List K → Prog (GuardOp Op K) (GuardAns Ans) ε α → Prop
  | h, held, .pure a => held = g ∧ Q h a
  | _, held, .fail _ => held = g
  | h, held, .ask (.op o) next =>
    Inv h held ∧ ∀ x : Ans o, Stacked Inv Q g (h ++ [⟨o, x⟩]) held (next x)
  | h, held, .ask (.take k) next => Stacked Inv Q g h (k :: held) (next ())
  | h, held, .ask (.drop k) next => ∃ t, held = k :: t ∧ Stacked Inv Q g h t (next ())
  | _, _, .halt => True

namespace Stacked

variable {Inv : List (Entry Op Ans) → List K → Prop} {Q : List (Entry Op Ans) → α → Prop}
  {g held : List K} {h : List (Entry Op Ans)} {p : Prog (GuardOp Op K) (GuardAns Ans) ε α}

/-- **The rule of sequencing.** -/
theorem bind {f : α → Prog (GuardOp Op K) (GuardAns Ans) ε β} {R : List (Entry Op Ans) → β → Prop}
    (hp : Stacked Inv Q g h held p) (hf : ∀ h' a, Q h' a → Stacked Inv R g h' g (f a)) :
    Stacked Inv R g h held (p >>= f) := by
  induction p generalizing h held with
  | pure a =>
    obtain ⟨rfl, ha⟩ := hp
    exact hf h a ha
  | fail e => exact hp
  | halt => trivial
  | ask o next ih =>
    cases o with
    | op o => exact ⟨hp.1, fun x => ih x (hp.2 x)⟩
    | take k => exact ih () hp
    | drop k =>
      obtain ⟨t, rfl, hnext⟩ := hp
      exact ⟨t, rfl, ih () hnext⟩

/-- **A part without guards** is covered by a rule for its operations. -/
theorem lift {ok : List (Entry Op Ans) → Op → Prop} {R : List (Entry Op Ans) → α → Prop}
    {p : Prog Op Ans ε α} (hp : Ensures ok R h p) (hok : ∀ h' o, ok h' o → Inv h' g)
    (hQ : ∀ h' a, R h' a → Q h' a) :
    Stacked Inv Q g h g (p.lift : Prog (GuardOp Op K) (GuardAns Ans) ε α) := by
  induction p generalizing h with
  | pure a => exact ⟨rfl, hQ h a hp⟩
  | fail e => exact rfl
  | ask o next ih => exact ⟨hok h o hp.1, fun x => ih x (hp.2 x)⟩
  | halt => trivial

theorem ignoring (hp : Stacked Inv Q g h held p) :
    Stacked Inv (fun _ _ => True) g h held p.ignoring := by
  induction p generalizing h held with
  | pure a => exact ⟨hp.1, trivial⟩
  | fail e => exact ⟨hp, trivial⟩
  | halt => trivial
  | ask o next ih =>
    cases o with
    | op o => exact ⟨hp.1, fun x => ih x (hp.2 x)⟩
    | take k => exact ih () hp
    | drop k =>
      obtain ⟨t, rfl, hnext⟩ := hp
      exact ⟨t, rfl, ih () hnext⟩

theorem closing {k : K} (hp : Stacked Inv Q (k :: g) h held p) :
    Stacked Inv Q g h held (p.closing k) := by
  induction p generalizing h held with
  | pure a => exact ⟨g, hp.1, rfl, hp.2⟩
  | fail e => exact ⟨g, hp, rfl⟩
  | halt => trivial
  | ask o next ih =>
    cases o with
    | op o => exact ⟨hp.1, fun x => ih x (hp.2 x)⟩
    | take k => exact ih () hp
    | drop k =>
      obtain ⟨t, rfl, hnext⟩ := hp
      exact ⟨t, rfl, ih () hnext⟩

/-- **The rule of `hold`.** -/
theorem hold {k : K} (hp : Stacked Inv Q (k :: g) h (k :: g) p) :
    Stacked Inv Q g h g (Prog.hold k p) :=
  closing hp

/-- What is left of a dropped program drops the guards. -/
theorem unwind (h : List (Entry Op Ans)) (held : List K) :
    Stacked Inv (fun _ _ => True) [] h held
      (Prog.unwind held : Prog (GuardOp Op K) (GuardAns Ans) ε Unit) := by
  induction held with
  | nil => exact ⟨rfl, trivial⟩
  | cons k held ih => exact ⟨held, rfl, ih⟩

end Stacked

end Interaction
end HoldTheDonut
