import HoldTheDonut.Core.Auth
import HoldTheDonut.Machine.Traced

/-!
# `donut-core/src/id.rs`: the credential check, operation by operation

`is_authorized` promises that "neither the byte at which two UUIDs diverge nor which entry matched
affects the running time".  Here every operation of the two loops is a step: a load with the place
it reads, an operation on bytes with its kind.  The steps turn out to be a function of the number
of users, and the value that of `Core.Auth`.
-/

namespace HoldTheDonut

open Machine

/-- The operations of the check, without the values they work on. -/
inductive AuthStep where
  /-- `a[i]` of the user at a position of the list. -/
  | loadUser (user byte : ℕ)
  /-- `cand[i]`. -/
  | loadCandidate (byte : ℕ)
  | xor
  | orDiff
  /-- `diff as u16`. -/
  | widen
  | wrappingSub
  | shiftRight
  /-- `as u8`. -/
  | narrow
  | orFound
  /-- `found != 0`. -/
  | isNonzero
  deriving DecidableEq

/-- `diff |= a[i] ^ cand[i]`. -/
def diffByteTraced (user byte : ℕ) (diff : UInt8) (p : UInt8 × UInt8) : Traced AuthStep UInt8 := do
  let a ← Traced.step (.loadUser user byte) p.1
  let c ← Traced.step (.loadCandidate byte) p.2
  let x ← Traced.step .xor (a ^^^ c)
  Traced.step .orDiff (diff ||| x)

/-- The inner loop, over the sixteen bytes. -/
def idDiffTraced (user : ℕ) (a cand : UserId) : Traced AuthStep UInt8 :=
  Traced.loop (diffByteTraced user) 0 0 (a.toList.zip cand.toList)

/-- `((diff as u16).wrapping_sub(1) >> 8) as u8`. -/
def noDiffTraced (diff : UInt8) : Traced AuthStep UInt8 := do
  let wide ← Traced.step .widen diff.toUInt16
  let less ← Traced.step .wrappingSub (wide - 1)
  let high ← Traced.step .shiftRight (less >>> 8)
  Traced.step .narrow high.toUInt8

/-- One turn of the outer loop. -/
def foundTraced (candidate : UserId) (user : ℕ) (found : UInt8) (u : UserId) :
    Traced AuthStep UInt8 := do
  let diff ← idDiffTraced user u candidate
  let mask ← noDiffTraced diff
  Traced.step .orFound (found ||| mask)

def UserAuth.isAuthorizedTraced (auth : UserAuth) (candidate : UserId) : Traced AuthStep Bool := do
  let found ← Traced.loop (foundTraced candidate) 0 0 auth.users
  Traced.step .isNonzero (found != 0)

/-! ## The steps -/

/-- The steps for one byte of one user. -/
def byteSteps (user byte : ℕ) : List AuthStep :=
  [.loadUser user byte, .loadCandidate byte, .xor, .orDiff]

/-- The steps for one user. -/
def userSteps (user : ℕ) : List AuthStep :=
  (List.range 16).flatMap (byteSteps user) ++
    [.widen, .wrappingSub, .shiftRight, .narrow, .orFound]

/-- The steps for a list of so many users. -/
def authSteps (users : ℕ) : List AuthStep :=
  (List.range users).flatMap userSteps ++ [.isNonzero]

theorem steps_idDiffTraced (user : ℕ) (a cand : UserId) :
    (idDiffTraced user a cand).steps = (List.range 16).flatMap (byteSteps user) := by
  have hlen : (a.toList.zip cand.toList).length = 16 := by
    rw [List.length_zip, a.toList_length, cand.toList_length, Nat.min_self]
  have hbody : ∀ byte diff p, (diffByteTraced user byte diff p).steps = byteSteps user byte :=
    fun _ _ _ => rfl
  rw [idDiffTraced, Traced.steps_loop hbody, hlen, List.range_eq_range']

theorem value_idDiffTraced (user : ℕ) (a cand : UserId) :
    (idDiffTraced user a cand).value = idDiff a cand := by
  have hbody : ∀ byte diff p,
      (diffByteTraced user byte diff p).value = diff ||| (p.1 ^^^ p.2) := fun _ _ _ => rfl
  rw [idDiffTraced, Traced.value_loop hbody, idDiff]

theorem steps_foundTraced (candidate : UserId) (user : ℕ) (found : UInt8) (u : UserId) :
    (foundTraced candidate user found u).steps = userSteps user := by
  rw [foundTraced, Traced.steps_bind, steps_idDiffTraced]
  rfl

theorem value_foundTraced (candidate : UserId) (user : ℕ) (found : UInt8) (u : UserId) :
    (foundTraced candidate user found u).value = found ||| noDiff (idDiff u candidate) := by
  rw [foundTraced, Traced.value_bind, value_idDiffTraced]
  rfl

theorem UserAuth.value_isAuthorizedTraced (auth : UserAuth) (candidate : UserId) :
    (auth.isAuthorizedTraced candidate).value = auth.isAuthorized candidate := by
  rw [isAuthorizedTraced, Traced.value_bind, Traced.value_loop (value_foundTraced candidate)]
  rfl

theorem UserAuth.steps_isAuthorizedTraced (auth : UserAuth) (candidate : UserId) :
    (auth.isAuthorizedTraced candidate).steps = authSteps auth.users.length := by
  rw [isAuthorizedTraced, Traced.steps_bind, Traced.steps_loop (steps_foundTraced candidate),
    authSteps, List.range_eq_range']
  rfl

/-- **Branch-free membership is membership.**  For every list of users and every candidate the
check says whether the sixteen bytes of the candidate are those of a user of the list, and the
operations it performs, with their number, their order and the places they read, are a function of
the length of the list. -/
theorem isAuthorized_constant_time (auth : UserAuth) (candidate : UserId) :
    ((auth.isAuthorizedTraced candidate).value = true ↔
      ∃ u ∈ auth.users, u.toList = candidate.toList) ∧
    (auth.isAuthorizedTraced candidate).value = auth.isAuthorized candidate ∧
    (auth.isAuthorizedTraced candidate).steps = authSteps auth.users.length := by
  refine ⟨?_, auth.value_isAuthorizedTraced candidate, auth.steps_isAuthorizedTraced candidate⟩
  rw [auth.value_isAuthorizedTraced, auth.isAuthorized_iff]
  constructor
  · intro h
    exact ⟨candidate, h, rfl⟩
  · rintro ⟨u, hu, hbytes⟩
    rwa [← show u = candidate from Subtype.ext hbytes]

end HoldTheDonut
