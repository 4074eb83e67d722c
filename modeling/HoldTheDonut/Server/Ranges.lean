import HoldTheDonut.Routing.Config
import HoldTheDonut.Server.Fragments

/-!
# The `[fragment]` section: ranges as they are written

The sizes of the pieces of a ClientHello and the delays between them are configured as text, a
number or two with a hyphen between, "into an inclusive (min, max) range".  `parse_u32_range`
reads exactly the texts that write two numbers of thirty-two bits (`parseU32Range_eq_ok_iff`)
and compares nothing; `parse_port_spec`, which reads the same form, refuses a range that ends
before it starts.

`FragmentParams::pick` draws from the range.  A range that is written backwards is taken for its
first number.  A range that holds every `u32` has `2 ^ 32` members, which is one more than its
size can be, and the draw does not return.  All others are usable (`parsed_range_usable_iff`).
-/

namespace HoldTheDonut
namespace Server

/-! ## Reading a range -/

/-- `ConfigError::Fragment`, with the part of the text that is not a number. -/
inductive ConfigError where
  | fragment (badNumber : Text)
  deriving DecidableEq

/-- The closure `parse`.  The error shows the part as it was before it was trimmed. -/
def parseU32 (v : Text) : Except ConfigError UInt32 :=
  match Text.parseUnsigned (2 ^ 32) (Routing.trim v) with
  | some n => .ok (UInt32.ofNat n)
  | none => .error (.fragment v)

/-- `parse_u32_range`. -/
def parseU32Range (s : String) : Except ConfigError (UInt32 × UInt32) :=
  match Text.splitOnce '-' s.toList with
  | some (a, b) => do
    let lo ← parseU32 a
    let hi ← parseU32 b
    pure (lo, hi)
  | none => do
    let v ← parseU32 s.toList
    pure (v, v)

/-! ## What is read -/

/-- A number, or two with a hyphen between, with blanks around them. -/
def WritesRange (s : String) (lo hi : ℕ) : Prop :=
  (Text.Numeral (Routing.trim s.toList) lo ∧ hi = lo) ∨
    ∃ a b : Text, s.toList = a ++ '-' :: b ∧ Text.Numeral (Routing.trim a) lo ∧
      Text.Numeral (Routing.trim b) hi

theorem parseU32_eq_ok_iff {v : Text} {n : UInt32} :
    parseU32 v = .ok n ↔ Text.Numeral (Routing.trim v) n.toNat := by
  unfold parseU32
  constructor
  · intro h
    split at h
    · next m hm =>
      obtain ⟨hnum, hlt⟩ := Text.parseUnsigned_eq_some_iff.mp hm
      cases h
      rwa [UInt32.toNat_ofNat_of_lt' hlt]
    · cases h
  · intro h
    rw [Text.parseUnsigned_eq_some_iff.mpr ⟨h, n.toNat_lt⟩]
    exact congrArg Except.ok UInt32.ofNat_toNat

/-- A part that is a number has no hyphen. -/
theorem hyphen_not_mem {v : Text} {n : ℕ} (h : Text.Numeral (Routing.trim v) n) : '-' ∉ v :=
  fun hmem => Routing.Numeral.no_hyphen h (Text.mem_trim hmem Routing.isWhitespace_hyphen)

variable {lo hi : UInt32}

/-- **A range is read exactly where one is written.** -/
theorem parseU32Range_eq_ok_iff {s : String} :
    parseU32Range s = .ok (lo, hi) ↔ WritesRange s lo.toNat hi.toNat := by
  unfold parseU32Range
  constructor
  · intro h
    split at h
    · next a b hcut =>
      cases hl : parseU32 a with
      | error e => rw [hl] at h; cases h
      | ok l =>
        cases hu : parseU32 b with
        | error e => rw [hl, hu] at h; cases h
        | ok u =>
          rw [hl, hu] at h
          cases h
          exact Or.inr ⟨a, b, (Text.splitOnce_eq_some_iff.mp hcut).1, parseU32_eq_ok_iff.mp hl,
            parseU32_eq_ok_iff.mp hu⟩
    · cases hv : parseU32 s.toList with
      | error e => rw [hv] at h; cases h
      | ok v =>
        rw [hv] at h
        cases h
        exact Or.inl ⟨parseU32_eq_ok_iff.mp hv, rfl⟩
  · rintro (⟨hnum, hsame⟩ | ⟨a, b, hs, hlo, hhi⟩)
    · have hlohi : hi = lo := UInt32.toNat_inj.mp hsame
      rw [Text.splitOnce_eq_none (hyphen_not_mem hnum)]
      simp only [parseU32_eq_ok_iff.mpr hnum, hlohi]
      rfl
    · rw [hs, Text.splitOnce_append (hyphen_not_mem hlo)]
      simp only [parseU32_eq_ok_iff.mpr hlo, parseU32_eq_ok_iff.mpr hhi]
      rfl

/-! ## Drawing from it -/

/-- **A range one can draw from.**  It is not written backwards, each random number gives a
member, and each member is drawn for some random number. -/
structure Usable (lo hi : UInt32) : Prop where
  ordered : lo ≤ hi
  draws : ∀ r, ∃ v, pick (lo, hi) r = some v ∧ lo ≤ v ∧ v ≤ hi
  covers : ∀ v, lo ≤ v → v ≤ hi → ∃ r, pick (lo, hi) r = some v

theorem rangeFits_iff :
    RangeFits (lo, hi) ↔ ¬ (lo.toNat = 0 ∧ hi.toNat = 2 ^ 32 - 1) := by
  have hhi := hi.toNat_lt
  show hi.toNat - lo.toNat < 2 ^ 32 - 1 ↔ _
  omega

/-- The range of every number has no size in thirty-two bits. -/
theorem pick_full (r : UInt32) : pick (0, 4294967295) r = none :=
  pick_eq_none_iff.mpr (by decide)

/-- What is picked from a range of more than one number. -/
theorem pick_of_lt (hlt : lo < hi) (hfits : RangeFits (lo, hi)) (r : UInt32) :
    ∃ v, pick (lo, hi) r = some v ∧
      v.toNat = lo.toNat + r.toNat % (hi.toNat - lo.toNat + 1) := by
  have hlt' : lo.toNat < hi.toNat := hlt
  have hhi := hi.toNat_lt
  have hapart : hi.toNat - lo.toNat < 2 ^ 32 - 1 := hfits
  have hspan := toNat_span hlt
  rw [Nat.mod_eq_of_lt (by omega)] at hspan
  have hmod : r.toNat % (hi.toNat - lo.toNat + 1) < hi.toNat - lo.toNat + 1 :=
    Nat.mod_lt _ (Nat.succ_pos _)
  obtain ⟨v, hv⟩ := hfits.exists_pick r
  refine ⟨v, hv, ?_⟩
  rw [pick, if_neg (UInt32.not_le.mpr hlt)] at hv
  split at hv
  · cases hv
  · rw [← Option.some.inj hv]
    show (lo + r % (hi - lo + 1)).toNat = _
    rw [UInt32.toNat_add, UInt32.toNat_mod, hspan, Nat.mod_eq_of_lt (by omega)]

theorem usable_of_rangeFits (hle : lo ≤ hi) (hfits : RangeFits (lo, hi)) :
    Usable lo hi := by
  by_cases hback : hi ≤ lo
  · -- one number
    obtain rfl : lo = hi := UInt32.le_antisymm hle hback
    have hpick : ∀ r, pick (lo, lo) r = some lo := fun _ => if_pos hle
    exact ⟨hle, fun r => ⟨lo, hpick r, hle, hle⟩,
      fun v hlv hvh => ⟨0, (hpick 0).trans (congrArg some (UInt32.le_antisymm hlv hvh))⟩⟩
  · have hlt : lo < hi := UInt32.not_le.mp hback
    have hle' : lo.toNat ≤ hi.toNat := hle
    refine ⟨hle, fun r => ?_, fun v hlv hvh => ?_⟩
    · obtain ⟨v, hv, hnat⟩ := pick_of_lt hlt hfits r
      have hmod : r.toNat % (hi.toNat - lo.toNat + 1) < hi.toNat - lo.toNat + 1 :=
        Nat.mod_lt _ (Nat.succ_pos _)
      refine ⟨v, hv, ?_, ?_⟩
      · show lo.toNat ≤ v.toNat
        omega
      · show v.toNat ≤ hi.toNat
        omega
    · -- the distance from the first member is a random number that draws `v`
      have hlv' : lo.toNat ≤ v.toNat := hlv
      have hvh' : v.toNat ≤ hi.toNat := hvh
      obtain ⟨v', hv, hnat⟩ := pick_of_lt hlt hfits (v - lo)
      rw [UInt32.toNat_sub_of_le v lo hlv, Nat.mod_eq_of_lt (by omega),
        Nat.add_sub_cancel' hlv'] at hnat
      exact ⟨v - lo, hv.trans (congrArg some (UInt32.toNat_inj.mp hnat))⟩

/-- A range is usable exactly if it is not backwards and does not hold every `u32`. -/
theorem usable_iff :
    Usable lo hi ↔ lo ≤ hi ∧ ¬ (lo.toNat = 0 ∧ hi.toNat = 2 ^ 32 - 1) := by
  constructor
  · intro husable
    refine ⟨husable.ordered, ?_⟩
    rintro ⟨hzero, hmax⟩
    obtain ⟨v, hv, -⟩ := husable.draws 0
    rw [UInt32.toNat_inj.mp (show lo.toNat = (0 : UInt32).toNat from hzero),
      UInt32.toNat_inj.mp (show hi.toNat = (4294967295 : UInt32).toNat from hmax),
      pick_full] at hv
    cases hv
  · rintro ⟨hle, hfull⟩
    exact usable_of_rangeFits hle (rangeFits_iff.mpr hfull)

/-- **What is read of a text is usable exactly if the text writes its smaller number first, and
not the first and the last `u32`.** -/
theorem parsed_range_usable_iff (s : String) :
    (∀ lo hi, parseU32Range s = .ok (lo, hi) → Usable lo hi) ↔
      ∀ lo hi : UInt32, WritesRange s lo.toNat hi.toNat →
        lo ≤ hi ∧ ¬ (lo.toNat = 0 ∧ hi.toNat = 2 ^ 32 - 1) := by
  constructor
  · intro h lo hi hwrites
    exact usable_iff.mp (h lo hi (parseU32Range_eq_ok_iff.mpr hwrites))
  · intro h lo hi hread
    exact usable_iff.mpr (h lo hi (parseU32Range_eq_ok_iff.mp hread))

/-- A range is read backwards, and drawing from it gives a number above its end; another is read
and no draw from it returns. -/
theorem parsed_range_unusable :
    parseU32Range "5-3" = .ok (5, 3) ∧ ¬ (5 : UInt32) ≤ 3 ∧
    (∀ r, pick (5, 3) r = some 5) ∧
    parseU32Range "0-4294967295" = .ok (0, 4294967295) ∧
    (∀ r, pick (0, 4294967295) r = none) ∧
    ¬ Usable 5 3 ∧ ¬ Usable 0 4294967295 := by
  refine ⟨by decide +kernel, by decide, fun r => rfl, by decide +kernel, pick_full,
    fun h => ?_, fun h => ?_⟩
  · exact absurd h.ordered (by decide)
  · exact (usable_iff.mp h).2 ⟨rfl, rfl⟩

end Server
end HoldTheDonut
