import HoldTheDonut.Core.Address

/-!
# `donut-core/src/id.rs`: the credential check

`UserAuth` is the list of users a server accepts.  Its membership test does not branch:
it folds the differences between the candidate and each user into a byte, turns that
byte into `0xff` or `0x00`, and folds the outcomes.  This file is the proof that the
arithmetic is membership.
-/

namespace HoldTheDonut

/-- One snapshot of the accepted users. -/
structure UserAuth where
  users : List UserId
  deriving DecidableEq

/-- The bits in which two ids differ, all bytes folded into one. -/
def idDiff (a cand : UserId) : UInt8 :=
  (a.toList.zip cand.toList).foldl (fun diff p => diff ||| (p.1 ^^^ p.2)) 0

/-- `0xff` for no difference, `0x00` for any. -/
def noDiff (diff : UInt8) : UInt8 := ((diff.toUInt16 - 1) >>> 8).toUInt8

/-- The constant-time membership test. -/
def UserAuth.isAuthorized (auth : UserAuth) (candidate : UserId) : Bool :=
  auth.users.foldl (fun found u => found ||| noDiff (idDiff u candidate)) 0 != 0

theorem noDiff_eq_zero_iff (diff : UInt8) : noDiff diff = 0 ↔ diff ≠ 0 := by
  revert diff
  exact forall_uint8 (by decide +kernel)

/-- Or-ing bytes together leaves zero exactly when all of them are. -/
theorem foldl_or_eq_zero_iff {α : Type} (f : α → UInt8) (l : List α) (init : UInt8) :
    l.foldl (fun acc x => acc ||| f x) init = 0 ↔ init = 0 ∧ ∀ x ∈ l, f x = 0 := by
  induction l generalizing init with
  | nil => simp
  | cons x l ih => rw [List.foldl_cons, ih, UInt8.or_eq_zero_iff, List.forall_mem_cons, and_assoc]

theorem forall_mem_zip_eq_iff {α : Type} {l m : List α} (h : l.length = m.length) :
    (∀ p ∈ l.zip m, p.1 = p.2) ↔ l = m := by
  induction l generalizing m with
  | nil =>
    have hm : m = [] := List.eq_nil_of_length_eq_zero h.symm
    simp [hm]
  | cons a l ih =>
    cases m with
    | nil => cases h
    | cons b m =>
      rw [List.zip_cons_cons, List.forall_mem_cons, ih (Nat.succ.inj h), List.cons.injEq]

theorem idDiff_eq_zero_iff (a cand : UserId) : idDiff a cand = 0 ↔ a = cand := by
  unfold idDiff
  rw [foldl_or_eq_zero_iff fun p : UInt8 × UInt8 => p.1 ^^^ p.2]
  simp only [true_and, UInt8.xor_eq_zero_iff]
  rw [forall_mem_zip_eq_iff (by rw [a.toList_length, cand.toList_length])]
  exact ⟨fun h => Subtype.ext h, fun h => h ▸ rfl⟩

/-- **The check is membership.** -/
theorem UserAuth.isAuthorized_iff (auth : UserAuth) (candidate : UserId) :
    auth.isAuthorized candidate = true ↔ candidate ∈ auth.users := by
  unfold UserAuth.isAuthorized
  rw [bne_iff_ne, Ne, foldl_or_eq_zero_iff fun u => noDiff (idDiff u candidate)]
  simp only [true_and, noDiff_eq_zero_iff, Ne, idDiff_eq_zero_iff, not_forall, not_not]
  constructor
  · rintro ⟨u, hu, rfl⟩
    exact hu
  · intro h
    exact ⟨candidate, h, rfl⟩

example : (UserAuth.mk [⟨List.replicate 16 1, rfl⟩, ⟨List.replicate 16 2, rfl⟩]).isAuthorized
    ⟨List.replicate 16 3, rfl⟩ = false := by decide

end HoldTheDonut
