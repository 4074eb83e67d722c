import HoldTheDonut.Wire.Request

/-!
# The request header does not see how it was read

The server reads the tunnel payload in pieces and runs `Request::decode` on all it
has after each of them, until the answer is something else than `Truncated`.  This
file shows that the pieces do not matter: the decoder is `Incremental`, field by
field, so the loop ends as one run over the whole stream would.

The nested addons parser has an end-of-input error of its own.  It never reaches
this argument, because it runs on a slice whose length is already fixed and is, from
the outside, a computation that does not touch the buffer.
-/

namespace HoldTheDonut
namespace Wire

open Streaming

/-- The error that means "read more". -/
def WireError.Truncated : WireError → Prop
  | .truncated _ _ => True
  | _ => False

instance : DecidablePred WireError.Truncated := fun e => by
  cases e <;> unfold WireError.Truncated <;> infer_instance

/-! ## The readers, one by one -/

theorem incremental_readSlice (n : ℕ) : Incremental WireError.Truncated (readSlice n) := by
  have heq : readSlice n = fun s =>
      if s.length < n then .error (.truncated n s.length) else .ok (s.take n, s.drop n) :=
    funext (readSlice_eq n)
  rw [heq]
  exact Incremental.take n (WireError.truncated n) fun _ => trivial

/-- A byte is a slice of one byte. -/
theorem readU8_eq : readU8 = (readSlice 1 >>= fun l => pure (l.headD 0)) := by
  funext s
  cases s with
  | nil => rfl
  | cons b rest =>
    have hone : readSlice 1 (b :: rest) = .ok ([b], rest) :=
      readSlice_append (l := [b]) rfl rest
    rw [readU8_cons, Parser.bind_of_ok _ hone]
    rfl

theorem incremental_readU8 : Incremental WireError.Truncated readU8 := by
  rw [readU8_eq]
  exact (incremental_readSlice 1).bind fun _ => Incremental.pure _

/-- Port and type are taken out of one slice of three bytes. -/
theorem readPortAndType_eq :
    readPortAndType = (readSlice 3 >>= fun l =>
      pure (UInt16.ofNat (be16 (l.headD 0) ((l.drop 1).headD 0)), (l.drop 2).headD 0)) := by
  funext s
  match s with
  | [] => rfl
  | [_] => rfl
  | [_, _] => rfl
  | a :: b :: c :: rest =>
    have hthree : readSlice 3 (a :: b :: c :: rest) = .ok ([a, b, c], rest) :=
      readSlice_append (l := [a, b, c]) rfl rest
    rw [readPortAndType_cons, Parser.bind_of_ok _ hthree]
    rfl

theorem incremental_readPortAndType : Incremental WireError.Truncated readPortAndType := by
  rw [readPortAndType_eq]
  exact (incremental_readSlice 3).bind fun _ => Incremental.pure _

theorem incremental_readDomain : Incremental WireError.Truncated readDomain := by
  refine incremental_readU8.bind fun dl => ?_
  split
  · exact Incremental.throw _
  · refine (incremental_readSlice _).bind fun d => ?_
    split
    · exact Incremental.throw _
    · split
      · exact Incremental.throw _
      · exact Incremental.pure _

theorem incremental_readAddress (atype : UInt8) :
    Incremental WireError.Truncated (readAddress atype) := by
  unfold readAddress
  split
  · exact (incremental_readSlice 4).bind fun _ => Incremental.pure _
  · split
    · exact (incremental_readSlice 16).bind fun _ => Incremental.pure _
    · split
      · exact incremental_readDomain
      · exact Incremental.throw _

theorem incremental_readVersion : Incremental WireError.Truncated readVersion := by
  refine incremental_readU8.bind fun v => ?_
  split
  · exact Incremental.throw _
  · exact Incremental.pure _

theorem incremental_readAddons : Incremental WireError.Truncated readAddons :=
  incremental_readU8.bind fun _ =>
    (incremental_readSlice _).bind fun _ => Incremental.liftExcept _

theorem incremental_readFlow (a : Addons) : Incremental WireError.Truncated (readFlow a) := by
  unfold readFlow
  split
  · exact Incremental.throw _
  · exact Incremental.pure _

theorem incremental_readCommand : Incremental WireError.Truncated readCommand := by
  refine incremental_readU8.bind fun c => ?_
  split
  · exact Incremental.throw _
  · exact Incremental.pure _

theorem incremental_readTarget : Incremental WireError.Truncated readTarget :=
  incremental_readPortAndType.bind fun x =>
    (incremental_readAddress x.2).bind fun _ => Incremental.pure _

theorem incremental_readTargetFor (c : Command) :
    Incremental WireError.Truncated (readTargetFor c) := by
  unfold readTargetFor
  split
  · exact Incremental.pure _
  · exact incremental_readTarget.bind fun _ => Incremental.pure _

/-- **The request decoder is incremental.** -/
theorem incremental_decode : Incremental WireError.Truncated Request.decode :=
  incremental_readVersion.bind fun _ =>
    (incremental_readSlice 16).bind fun _ =>
      incremental_readAddons.bind fun a =>
        (incremental_readFlow a).bind fun _ =>
          incremental_readCommand.bind fun c =>
            (incremental_readTargetFor c).bind fun _ => Incremental.pure _

/-! ## The decode loop of a session -/

/-- The opening loop of `handle_session`, over the reads the socket delivers. -/
def readRequest (reads : List (List UInt8)) : ReadOutcome UInt8 WireError Request :=
  readLoop WireError.Truncated Request.decode [] reads

theorem WireError.Truncated.exists {e : WireError} (h : e.Truncated) :
    ∃ want available, e = .truncated want available := by
  cases e with
  | truncated want available => exact ⟨want, available, rfl⟩
  | _ => exact absurd h id

/-- **Header parsing is segmentation independent.** -/
theorem decode_segmentation_independent :
    (∀ (s : List UInt8) (req : Request) (r : List UInt8), Request.decode s = .ok (req, r) →
      ∃ h, s = h ++ r ∧
        (∀ q, q <+: h → q ≠ h →
          ∃ want available, Request.decode q = .error (.truncated want available)) ∧
        ∀ x, Request.decode (h ++ x) = .ok (req, x)) ∧
    (∀ (s : List UInt8) (e : WireError), Request.decode s = .error e →
      (∀ want available, e ≠ .truncated want available) →
      ∀ x, Request.decode (s ++ x) = .error e) ∧
    (∀ reads reads' : List (List UInt8), (∀ c ∈ reads, c ≠ []) → (∀ c ∈ reads', c ≠ []) →
      reads.flatten = reads'.flatten →
      (readRequest reads).joined = (readRequest reads').joined) := by
  refine ⟨?_, ?_, ?_⟩
  · intro s req r hs
    obtain ⟨h, hsplit, hh⟩ := incremental_decode.consumed hs
    refine ⟨h, hsplit, ?_, fun x => incremental_decode.ok_append hh x⟩
    intro q hq hne
    obtain ⟨e, he, hdecode⟩ := incremental_decode.short_of_properPrefix hh hq hne
    obtain ⟨want, available, rfl⟩ := he.exists
    exact ⟨want, available, hdecode⟩
  · intro s e hs hne
    refine incremental_decode.error_append hs fun htrunc => ?_
    obtain ⟨want, available, he⟩ := htrunc.exists
    exact hne want available he
  · intro reads reads' hreads hreads' hflat
    exact incremental_decode.readLoop_congr rfl hreads hreads' hflat

/-- A `Mux` header cut inside its UUID, against the same header in one read. -/
theorem decode_segmentation_independent_mux :
    (readRequest [[0, 1, 2], [3, 4, 5, 6, 7, 8, 9, 10, 11, 12, 13, 14, 15, 16, 0], [3, 99]]).joined
      = (readRequest
          [[0, 1, 2, 3, 4, 5, 6, 7, 8, 9, 10, 11, 12, 13, 14, 15, 16, 0, 3, 99]]).joined :=
  decode_segmentation_independent.2.2 _ _ (by decide) (by decide) (by decide)

end Wire
end HoldTheDonut
