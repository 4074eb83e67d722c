import HoldTheDonut.Machine.Run

/-!
# A relay that does one thing at a time

A relay between a client and a target reads from either side and passes on what it has read.
If one task does both, it does not read while it writes.  With bounded links that can be the
end: the relay waits for room towards the target, the target waits for room towards the relay,
and the only one who could make room is the relay.

`Circuit` is a relay with its four links, a client that sends a finite stream and reads
whatever comes, and a target that echoes byte by byte.  The relay itself is `HalfDuplex`: what
it passes up for the bytes it is given, and what it passes down.

How much a relay will pass up from a state, given the rest of the client's stream, is its
`Content`.  The bytes on their way up, in the target's hand and on their way back all come from
there, and nothing else does; so the relay and the target can block each other only if the
content fills both links and both hands.  That is also enough: the schedule that never reads
from the target gets there (`deadlock_iff`).
-/

namespace HoldTheDonut
namespace Machine

/-- A relay that handles one read at a time.  `χ` are the choices made while passing down. -/
structure HalfDuplex (β σ χ : Type) where
  /-- Some bytes of the client are taken, possibly none: what is passed on to the target. -/
  up : σ → List β → Option (σ × List β)
  /-- Some bytes of the target are taken: what is passed on to the client. -/
  down : σ → χ → List β → Option (σ × List β)
  /-- The client's stream has ended. -/
  close : σ → Option σ

/-- How much the links hold. -/
structure Capacities where
  toRelay : ℕ
  toTarget : ℕ
  fromTarget : ℕ
  toClient : ℕ

/-- The relay, what it has still to write in either direction, the client's stream, the links
and the target's hand. -/
structure Circuit (β σ : Type) where
  relay : σ
  upload : List β
  download : List β
  unsent : List β
  toRelay : List β
  toTarget : List β
  held : Option β
  fromTarget : List β
  toClient : List β

inductive CircuitEvent (χ : Type) where
  /-- The client sends. -/
  | send (n : ℕ)
  /-- The relay takes bytes of the client, or of the target, or sees the client's end. -/
  | up (n : ℕ)
  | down (choice : χ) (n : ℕ)
  | close
  /-- The relay writes. -/
  | upload (n : ℕ)
  | download (n : ℕ)
  | targetRead
  | targetWrite
  | clientRead (n : ℕ)

namespace Circuit

variable {β σ χ : Type}

/-- The relay has nothing left to write, so it reads. -/
def Idle (s : Circuit β σ) : Prop := s.upload = [] ∧ s.download = []

instance [DecidableEq β] (s : Circuit β σ) : Decidable s.Idle :=
  inferInstanceAs (Decidable (_ ∧ _))

/-- At the start the relay has something to write to the target, and the links are empty. -/
def start (relay : σ) (first unsent : List β) : Circuit β σ :=
  ⟨relay, first, [], unsent, [], [], none, [], []⟩

/-- One event. -/
def step [DecidableEq β] (r : HalfDuplex β σ χ) (caps : Capacities) (s : Circuit β σ) :
    CircuitEvent χ → Option (Circuit β σ)
  | .send n =>
    if 0 < n ∧ n ≤ s.unsent.length ∧ s.toRelay.length + n ≤ caps.toRelay then
      some { s with unsent := s.unsent.drop n, toRelay := s.toRelay ++ s.unsent.take n }
    else none
  | .up n =>
    if s.Idle ∧ n ≤ s.toRelay.length then
      (r.up s.relay (s.toRelay.take n)).map fun p =>
        { s with relay := p.1, upload := p.2, toRelay := s.toRelay.drop n }
    else none
  | .down choice n =>
    if s.Idle ∧ 0 < n ∧ n ≤ s.fromTarget.length then
      (r.down s.relay choice (s.fromTarget.take n)).map fun p =>
        { s with relay := p.1, download := p.2, fromTarget := s.fromTarget.drop n }
    else none
  | .close =>
    if s.Idle ∧ s.toRelay = [] ∧ s.unsent = [] then
      (r.close s.relay).map fun relay => { s with relay := relay }
    else none
  | .upload n =>
    if 0 < n ∧ n ≤ s.upload.length ∧ s.toTarget.length + n ≤ caps.toTarget then
      some { s with upload := s.upload.drop n, toTarget := s.toTarget ++ s.upload.take n }
    else none
  | .download n =>
    if 0 < n ∧ n ≤ s.download.length ∧ s.toClient.length + n ≤ caps.toClient then
      some { s with download := s.download.drop n, toClient := s.toClient ++ s.download.take n }
    else none
  | .targetRead =>
    match s.held, s.toTarget with
    | none, b :: rest => some { s with held := some b, toTarget := rest }
    | _, _ => none
  | .targetWrite =>
    match s.held with
    | some b =>
      if s.fromTarget.length < caps.fromTarget then
        some { s with held := none, fromTarget := s.fromTarget ++ [b] }
      else none
    | none => none
  | .clientRead n =>
    if 0 < n ∧ n ≤ s.toClient.length then some { s with toClient := s.toClient.drop n } else none

/-- **The relay and the target wait for each other**: the relay has bytes for the target, whose
link is full; the target has a byte for the relay, whose link is full. -/
def Deadlocked (caps : Capacities) (s : Circuit β σ) : Prop :=
  s.upload ≠ [] ∧ caps.toTarget ≤ s.toTarget.length ∧ s.held ≠ none ∧
    caps.fromTarget ≤ s.fromTarget.length

/-- The bytes between the relay's read from the client and its read from the target. -/
def inTransit (s : Circuit β σ) : ℕ :=
  s.upload.length + s.toTarget.length + s.held.toList.length + s.fromTarget.length

end Circuit

/-- **What a relay passes up.**  `remaining` is what it will pass up from a state for the rest
of the client's stream; what passes down does not add to it.  While there is something left,
the relay gets on with one byte at a time, and `cost` decreases. -/
structure Content {β σ χ : Type} (r : HalfDuplex β σ χ) where
  remaining : σ → List β → List β
  up_eq : ∀ {s k s' c}, r.up s k = some (s', c) → ∀ w, remaining s (k ++ w) = c ++ remaining s' w
  down_le : ∀ {s x d s' o}, r.down s x d = some (s', o) → ∀ w,
    (remaining s' w).length ≤ (remaining s w).length
  close_le : ∀ {s s'}, r.close s = some s' → (remaining s' []).length ≤ (remaining s []).length
  cost : σ → List β → ℕ
  progress : ∀ s w, remaining s w ≠ [] → ∃ k w' s' c, w = k ++ w' ∧ k.length ≤ 1 ∧
    r.up s k = some (s', c) ∧ cost s' w' < cost s w

namespace Circuit

variable {β σ χ : Type} [DecidableEq β] {r : HalfDuplex β σ χ} (content : Content r)
  {caps : Capacities}

/-- All the bytes there are for the target: in transit, or still to come. -/
def total (s : Circuit β σ) : ℕ :=
  s.inTransit + (content.remaining s.relay (s.toRelay ++ s.unsent)).length

/-! ## Only content fills the links -/

variable {content} {s : Circuit β σ}

/-- **No event makes bytes.** -/
theorem total_step {t : Circuit β σ} {e : CircuitEvent χ} (h : s.step r caps e = some t) :
    t.total content ≤ s.total content := by
  cases e with
  | send n =>
    rw [step] at h
    split at h
    · cases h
      show _ + _ ≤ _ + _
      rw [List.append_assoc, List.take_append_drop]
      exact le_rfl
    · cases h
  | up n =>
    rw [step] at h
    split at h
    · next hcond =>
      obtain ⟨p, hp, rfl⟩ := Option.map_eq_some_iff.mp h
      have heq := content.up_eq hp (s.toRelay.drop n ++ s.unsent)
      rw [← List.append_assoc, List.take_append_drop] at heq
      simp only [total, inTransit, heq, hcond.1.1, List.length_append, List.length_nil]
      omega
    · cases h
  | down choice n =>
    rw [step] at h
    split at h
    · obtain ⟨p, hp, rfl⟩ := Option.map_eq_some_iff.mp h
      have hle := content.down_le hp (s.toRelay ++ s.unsent)
      simp only [total, inTransit, List.length_drop]
      omega
    · cases h
  | close =>
    rw [step] at h
    split at h
    · next hcond =>
      obtain ⟨relay, hrelay, rfl⟩ := Option.map_eq_some_iff.mp h
      have hle := content.close_le hrelay
      simp only [total, inTransit, hcond.2.1, hcond.2.2, List.append_nil]
      omega
    · cases h
  | upload n =>
    rw [step] at h
    split at h
    · cases h
      simp only [total, inTransit, List.length_append, List.length_drop, List.length_take]
      omega
    · cases h
  | download n =>
    rw [step] at h
    split at h
    · cases h
      exact le_rfl
    · cases h
  | targetRead =>
    rw [step] at h
    split at h
    · next hheld hlink =>
      cases h
      simp only [total, inTransit, hheld, hlink, Option.toList_some, Option.toList_none,
        List.length_cons, List.length_nil]
      omega
    · cases h
  | targetWrite =>
    rw [step] at h
    split at h
    · next hheld =>
      split at h
      · cases h
        simp only [total, inTransit, hheld, Option.toList_some, Option.toList_none,
          List.length_append, List.length_cons, List.length_nil]
        omega
      · cases h
    · cases h
  | clientRead n =>
    rw [step] at h
    split at h
    · cases h
      exact le_rfl
    · cases h

theorem total_run {t : Circuit β σ} (events : List (CircuitEvent χ))
    (h : run (step r caps) s events = some t) : t.total content ≤ s.total content := by
  have hstep : ∀ (u : Circuit β σ) e v, u.total content ≤ s.total content →
      u.step r caps e = some v → v.total content ≤ s.total content :=
    fun _ _ _ hu hstep => (total_step hstep).trans hu
  exact run_inv hstep events le_rfl h

omit [DecidableEq β] in
/-- A deadlock takes the content of both links and both hands. -/
theorem Deadlocked.le_total (h : s.Deadlocked caps) :
    caps.toTarget + caps.fromTarget + 2 ≤ s.total content := by
  obtain ⟨hupload, hto, hheld, hback⟩ := h
  have hpos := List.length_pos_iff.mpr hupload
  obtain ⟨b, hb⟩ := Option.ne_none_iff_exists'.mp hheld
  simp only [total, inTransit, hb, Option.toList_some, List.length_cons, List.length_nil]
  omega

/-! ## Enough content fills them -/

/-- The schedule that never reads from the target: the relay sends nothing down, the client
sends byte by byte, and the links hold no more than they can. -/
structure Pushing (caps : Capacities) (s : Circuit β σ) : Prop where
  download : s.download = []
  toRelay : s.toRelay = []
  toTarget : s.toTarget.length ≤ caps.toTarget
  fromTarget : s.fromTarget.length ≤ caps.fromTarget

/-- What the moves of bytes towards the relay use up. -/
def load (s : Circuit β σ) : ℕ :=
  3 * s.upload.length + 2 * s.toTarget.length + s.held.toList.length

/-- One byte moves on, or nothing can: the relay writes, else the target reads, else it
writes. -/
theorem push_step (hcap : 0 < caps.toTarget) (hs : s.Pushing caps) (hupload : s.upload ≠ []) :
    s.Deadlocked caps ∨ ∃ (e : CircuitEvent χ) (t : Circuit β σ), s.step r caps e = some t ∧
      t.Pushing caps ∧ t.load < s.load ∧ t.relay = s.relay ∧ t.unsent = s.unsent ∧
      t.inTransit = s.inTransit := by
  have hpos := List.length_pos_iff.mpr hupload
  by_cases hroom : s.toTarget.length + 1 ≤ caps.toTarget
  · refine Or.inr ⟨.upload 1, _, if_pos ⟨Nat.one_pos, hpos, hroom⟩,
      ⟨hs.download, hs.toRelay, ?_, hs.fromTarget⟩, ?_, rfl, rfl, ?_⟩
    · show (s.toTarget ++ s.upload.take 1).length ≤ caps.toTarget
      rw [List.length_append, List.length_take]
      omega
    · simp only [load, List.length_append, List.length_drop, List.length_take]
      omega
    · simp only [inTransit, List.length_append, List.length_drop, List.length_take]
      omega
  · cases hheld : s.held with
    | none =>
      obtain ⟨b, rest, hlink⟩ : ∃ b rest, s.toTarget = b :: rest := by
        refine List.exists_cons_of_ne_nil fun hnil => hroom ?_
        rw [hnil]
        exact hcap
      have hto := hs.toTarget
      rw [hlink, List.length_cons] at hto
      refine Or.inr ⟨.targetRead, { s with held := some b, toTarget := rest }, ?_,
        ⟨hs.download, hs.toRelay, by dsimp only; omega, hs.fromTarget⟩, ?_, rfl, rfl, ?_⟩
      · simp only [step, hheld, hlink]
      · simp only [load, hheld, hlink, Option.toList_some, Option.toList_none, List.length_cons,
          List.length_nil]
        omega
      · simp only [inTransit, hheld, hlink, Option.toList_some, Option.toList_none,
          List.length_cons, List.length_nil]
        omega
    | some b =>
      by_cases hback : s.fromTarget.length < caps.fromTarget
      · refine Or.inr ⟨.targetWrite, { s with held := none, fromTarget := s.fromTarget ++ [b] },
          ?_, ⟨hs.download, hs.toRelay, hs.toTarget, ?_⟩, ?_, rfl, rfl, ?_⟩
        · simp only [step, hheld, if_pos hback]
        · show (s.fromTarget ++ [b]).length ≤ caps.fromTarget
          rw [List.length_append]
          exact hback
        · simp only [load, hheld, Option.toList_some, Option.toList_none, List.length_cons,
            List.length_nil]
          omega
        · simp only [inTransit, hheld, Option.toList_some, Option.toList_none,
            List.length_append, List.length_cons, List.length_nil]
          omega
      · refine Or.inl ⟨hupload, by omega, ?_, by omega⟩
        rw [hheld]
        exact Option.some_ne_none b

/-- The relay writes all it has, unless that ends in a deadlock. -/
theorem push_run (hcap : 0 < caps.toTarget) (n : ℕ) :
    ∀ {s : Circuit β σ}, s.load ≤ n → s.Pushing caps →
      (∃ t, Reaches (step r caps) s t ∧ t.Deadlocked caps) ∨
      ∃ t, Reaches (step r caps) s t ∧ t.Pushing caps ∧ t.upload = [] ∧ t.relay = s.relay ∧
        t.unsent = s.unsent ∧ t.inTransit = s.inTransit := by
  induction n with
  | zero =>
    intro s hload hs
    have hupload : s.upload = [] := by
      unfold load at hload
      exact List.eq_nil_of_length_eq_zero (by omega)
    exact Or.inr ⟨s, Reaches.refl s, hs, hupload, rfl, rfl, rfl⟩
  | succ n ih =>
    intro s hload hs
    by_cases hupload : s.upload = []
    · exact Or.inr ⟨s, Reaches.refl s, hs, hupload, rfl, rfl, rfl⟩
    · rcases push_step hcap hs hupload with
        hdead | ⟨e, t, hstep, ht, hlt, hrelay, hunsent, htransit⟩
      · exact Or.inl ⟨s, Reaches.refl s, hdead⟩
      · rcases ih (by omega) ht with ⟨u, hreach, hdead⟩ | ⟨u, hreach, hu, hnil, hr, hw, hi⟩
        · exact Or.inl ⟨u, Reaches.head hstep hreach, hdead⟩
        · exact Or.inr ⟨u, Reaches.head hstep hreach, hu, hnil, hr.trans hrelay,
            hw.trans hunsent, hi.trans htransit⟩

/-- An idle relay takes the client's next byte, or goes on with what it has. -/
theorem take_step (hcap : 0 < caps.toRelay) (hs : s.Pushing caps) (hupload : s.upload = [])
    {k w : List β} {relay : σ} {c : List β} (hunsent : s.unsent = k ++ w) (hk : k.length ≤ 1)
    (hup : r.up s.relay k = some (relay, c)) :
    Reaches (step r caps) s { s with relay := relay, upload := c, unsent := w } := by
  have hidle : s.Idle := ⟨hupload, hs.download⟩
  have hnone := hs.toRelay
  have htake : ∀ t : Circuit β σ, t.Idle → t.toRelay = k → t.relay = s.relay →
      t.step r caps (.up k.length) =
        some { t with relay := relay, upload := c, toRelay := [] } := by
    intro t hidle hk' hrelay
    rw [step, if_pos ⟨hidle, by rw [hk']⟩, hk', hrelay, List.take_length, hup, List.drop_length]
    rfl
  cases k with
  | nil =>
    refine Reaches.head (htake s hidle hnone rfl) ?_
    rw [← hnone, ← List.nil_append w, ← hunsent]
    exact Reaches.refl _
  | cons b k =>
    obtain rfl : k = [] := List.eq_nil_of_length_eq_zero (by rw [List.length_cons] at hk; omega)
    -- the byte goes through the client's link first
    have hsend : s.step r caps (.send 1) = some { s with unsent := w, toRelay := [b] } := by
      rw [step, if_pos]
      · rw [hunsent, hnone]
        rfl
      · rw [hunsent, hnone]
        exact ⟨Nat.one_pos, by simp, hcap⟩
    refine Reaches.head hsend (Reaches.head (htake _ hidle rfl rfl) ?_)
    rw [← hnone]
    exact Reaches.refl _

/-- **With enough content the schedule ends in a deadlock.** -/
theorem reaches_deadlocked (htoRelay : 0 < caps.toRelay) (htoTarget : 0 < caps.toTarget) (n : ℕ) :
    ∀ {s : Circuit β σ}, content.cost s.relay s.unsent ≤ n → s.Pushing caps →
      caps.toTarget + caps.fromTarget + 2 ≤
        s.inTransit + (content.remaining s.relay s.unsent).length →
      ∃ t, Reaches (step r caps) s t ∧ t.Deadlocked caps := by
  induction n using Nat.strongRecOn with
  | ind n ih =>
    intro s hcost hs henough
    rcases push_run htoTarget s.load le_rfl hs with hdead | ⟨t, hreach, ht, hnil, hr, hw, hi⟩
    · exact hdead
    · rw [← hr, ← hw] at hcost henough
      rw [← hi] at henough
      -- the links and the hand do not hold it all, so something is left
      have hleft : content.remaining t.relay t.unsent ≠ [] := by
        intro hempty
        have hto := ht.toTarget
        have hfrom := ht.fromTarget
        have hheld : t.held.toList.length ≤ 1 := by cases t.held <;> simp
        rw [hempty] at henough
        simp only [inTransit, hnil, List.length_nil] at henough
        omega
      obtain ⟨k, w, relay, c, hunsent, hk, hup, hlt⟩ := content.progress _ _ hleft
      have htake := take_step htoRelay ht hnil hunsent hk hup
      have heq := content.up_eq hup w
      rw [← hunsent] at heq
      obtain ⟨u, hreach', hdead⟩ := ih (content.cost relay w) (by omega) (s := { t with
        relay := relay, upload := c, unsent := w }) le_rfl
        ⟨ht.download, ht.toRelay, ht.toTarget, ht.fromTarget⟩ (by
          rw [heq, List.length_append] at henough
          simp only [inTransit, hnil, List.length_nil] at henough ⊢
          omega)
      exact ⟨u, hreach.trans (htake.trans hreach'), hdead⟩

/-- **When a relay that does one thing at a time can block its target**: exactly if what it
passes up fills the two links between them, the target's hand and its own. -/
theorem deadlock_iff (content : Content r) (htoRelay : 0 < caps.toRelay)
    (htoTarget : 0 < caps.toTarget) (relay : σ) (first unsent : List β) :
    (∃ t, Reaches (step r caps) (start relay first unsent) t ∧ t.Deadlocked caps) ↔
      caps.toTarget + caps.fromTarget + 2 ≤ (first ++ content.remaining relay unsent).length := by
  have hfirst : (start relay first unsent).inTransit = first.length := rfl
  constructor
  · rintro ⟨t, ⟨events, hrun⟩, hdead⟩
    have htotal : (start relay first unsent).total content =
        (first ++ content.remaining relay unsent).length := by
      rw [total, hfirst, List.length_append]
      rfl
    rw [← htotal]
    exact hdead.le_total.trans (total_run events hrun)
  · intro henough
    have hcost : content.cost (start relay first unsent).relay (start relay first unsent).unsent ≤
        content.cost relay unsent := le_rfl
    refine reaches_deadlocked htoRelay htoTarget _ hcost
      ⟨rfl, rfl, Nat.zero_le _, Nat.zero_le _⟩ ?_
    rw [hfirst, ← List.length_append]
    exact henough

end Circuit

end Machine
end HoldTheDonut
