import HoldTheDonut.Carrier.Placement

/-!
# `donut-carrier/src/session.rs`: the spellings of a session id

A session id is written as 32 hexadecimal digits, or as a UUID with its digits in groups of 8, 4, 4,
4 and 12.  `from_str` takes both, but what it tests of the second is the length, 36, and that 32
digits are left when the dashes are taken out.  Four dashes anywhere will do: an id has not two
spellings but as many as there are places for four dashes.  The test `rejects_bad_uuid` says that
misplaced dashes are refused and tries a text without a single digit.

`fromStr_eq_ok_iff` says what is accepted, and `sessionId_spellings_iff` for which texts that is
what the documentation says.
-/

namespace HoldTheDonut
namespace Carrier

open Text

/-- `SessionId::to_uuid`. -/
def SessionId.toUuid (sid : SessionId) : Text :=
  let h := SessionId.toHex sid
  h.take 8 ++ '-' :: ((h.drop 8).take 4 ++ '-' :: ((h.drop 12).take 4 ++
    '-' :: ((h.drop 16).take 4 ++ '-' :: (h.drop 20).take 12)))

/-- Digits in groups of 8, 4, 4, 4 and 12. -/
def DashedUuid (t : Text) : Prop :=
  ∃ a b c d e, t = a ++ '-' :: (b ++ '-' :: (c ++ '-' :: (d ++ '-' :: e))) ∧
    HexDigits 8 a ∧ HexDigits 4 b ∧ HexDigits 4 c ∧ HexDigits 4 d ∧ HexDigits 12 e

/-- Four dashes and 32 digits in some other order. -/
def MisplacedDashes (t : Text) : Prop :=
  t.count '-' = 4 ∧ HexDigits 32 (t.filter (· ≠ '-')) ∧ ¬ DashedUuid t

/-! ## What is accepted -/

variable {t : Text}

theorem decodeSessionId_iff : (∃ x, decodeSessionId t = .ok x) ↔ HexDigits 32 t := by
  rw [← decodeHex_iff 16]
  unfold decodeSessionId
  constructor
  · rintro ⟨x, h⟩
    split at h
    · next bytes hbytes =>
      split at h
      · next hlen => exact ⟨bytes, hbytes, hlen⟩
      · cases h
    · cases h
  · rintro ⟨bytes, hbytes, hlen⟩
    rw [hbytes]
    exact ⟨_, if_pos hlen⟩

theorem not_isHexDigit_dash : ¬ IsHexDigit '-' := by
  unfold IsHexDigit
  decide

/-- The dashes do not matter, as long as there are four. -/
theorem fromStr_of_count (hcount : t.count '-' = 4) (hhex : HexDigits 32 (t.filter (· ≠ '-'))) :
    SessionId.fromStr t = decodeSessionId (t.filter (· ≠ '-')) := by
  have hstripped : utf8Len (t.filter (· ≠ '-')) = 32 := hhex.utf8Len_eq
  have hlen : utf8Len t = 36 := by
    rw [utf8Len_filter_ne '-' t, hstripped, hcount]
    rfl
  unfold SessionId.fromStr
  rw [if_neg (by omega), if_pos hlen]
  exact if_neg (not_not.mpr hstripped)

/-- **What is accepted**: 32 digits, with no dash or with four of them. -/
theorem fromStr_eq_ok_iff :
    (∃ x, SessionId.fromStr t = .ok x) ↔
      HexDigits 32 t ∨ t.count '-' = 4 ∧ HexDigits 32 (t.filter (· ≠ '-')) := by
  constructor
  · rintro ⟨x, h⟩
    unfold SessionId.fromStr at h
    split at h
    · exact Or.inl (decodeSessionId_iff.mp ⟨x, h⟩)
    · split at h
      · next hlen =>
        simp only at h
        split at h
        · cases h
        · next hstripped =>
          have hdashes := utf8Len_filter_ne '-' t
          rw [hlen, not_not.mp hstripped, show '-'.utf8Size = 1 from rfl] at hdashes
          exact Or.inr ⟨by omega, decodeSessionId_iff.mp ⟨x, h⟩⟩
      · cases h
  · rintro (hhex | ⟨hcount, hhex⟩)
    · rw [SessionId.fromStr, if_pos hhex.utf8Len_eq]
      exact decodeSessionId_iff.mpr hhex
    · rw [fromStr_of_count hcount hhex]
      exact decodeSessionId_iff.mpr hhex

/-! ## The dashed form -/

/-- A group in front of a dash. -/
theorem filter_group {n : ℕ} {a : Text} (ha : HexDigits n a) (t : Text) :
    (a ++ '-' :: t).filter (· ≠ '-') = a ++ t.filter (· ≠ '-') := by
  rw [List.filter_append, ha.filter_ne not_isHexDigit_dash, List.filter_cons_of_neg (by simp)]

theorem count_group {n : ℕ} {a : Text} (ha : HexDigits n a) (t : Text) :
    (a ++ '-' :: t).count '-' = t.count '-' + 1 := by
  rw [List.count_append, List.count_eq_zero_of_not_mem (ha.not_mem not_isHexDigit_dash),
    List.count_cons_self, Nat.zero_add]

/-- The dashed form has four dashes and 32 digits. -/
theorem DashedUuid.count_filter (h : DashedUuid t) :
    t.count '-' = 4 ∧ HexDigits 32 (t.filter (· ≠ '-')) := by
  obtain ⟨a, b, c, d, e, rfl, ha, hb, hc, hd, he⟩ := h
  constructor
  · rw [count_group ha, count_group hb, count_group hc, count_group hd,
      List.count_eq_zero_of_not_mem (he.not_mem not_isHexDigit_dash)]
  · rw [filter_group ha, filter_group hb, filter_group hc, filter_group hd,
      he.filter_ne not_isHexDigit_dash]
    exact ha.append (hb.append (hc.append (hd.append he)))

/-! ## Writing and reading back -/

theorem hexDigits_toHex (sid : SessionId) : HexDigits 32 (SessionId.toHex sid) := by
  refine ⟨length_toHex sid, forall_mem_encodeHex (fun d hd => ?_) _⟩
  exact isHexDigit_iff.mpr ⟨d, hexVal_digitChar hd⟩

theorem dashedUuid_toUuid (sid : SessionId) : DashedUuid (SessionId.toUuid sid) := by
  have h := hexDigits_toHex sid
  exact ⟨_, _, _, _, _, rfl, h.slice (i := 0) (by omega), h.slice (by omega), h.slice (by omega),
    h.slice (by omega), h.slice (by omega)⟩

theorem filter_toUuid (sid : SessionId) :
    (SessionId.toUuid sid).filter (· ≠ '-') = SessionId.toHex sid := by
  have h := hexDigits_toHex sid
  have hfirst : HexDigits 8 ((SessionId.toHex sid).take 8) := h.slice (i := 0) (by omega)
  have hlast := h.slice (i := 20) (k := 12) (by omega)
  rw [SessionId.toUuid, filter_group hfirst, filter_group (h.slice (by omega)),
    filter_group (h.slice (by omega)), filter_group (h.slice (by omega)),
    hlast.filter_ne not_isHexDigit_dash]
  generalize SessionId.toHex sid = t at h
  have hend : (t.drop 20).take 12 = t.drop 20 :=
    List.take_of_length_le (by rw [List.length_drop, h.1])
  have hjoin : ∀ i k, (t.drop i).take k ++ t.drop (i + k) = t.drop i := by
    intro i k
    rw [← List.drop_drop, List.take_append_drop]
  rw [hend, hjoin 16 4, hjoin 12 4, hjoin 8 4, List.take_append_drop]

/-- **When a session id has two spellings only.**  A text is accepted exactly if it is one of the
two spellings, unless it has 32 digits and four dashes that are misplaced.  Both spellings of an id
are read back. -/
theorem sessionId_spellings_iff (t : Text) :
    (((∃ x, SessionId.fromStr t = .ok x) ↔ HexDigits 32 t ∨ DashedUuid t) ↔
      ¬ MisplacedDashes t) ∧
    ∀ x : SessionId, SessionId.fromStr (SessionId.toHex x) = .ok x ∧
      SessionId.fromStr (SessionId.toUuid x) = .ok x := by
  refine ⟨?_, fun x => ⟨fromStr_toHex x, ?_⟩⟩
  · rw [fromStr_eq_ok_iff]
    constructor
    · rintro h ⟨hcount, hhex, hnot⟩
      rcases h.mp (Or.inr ⟨hcount, hhex⟩) with hplain | hdashed
      · rw [List.count_eq_zero_of_not_mem (hplain.not_mem not_isHexDigit_dash)] at hcount
        cases hcount
      · exact hnot hdashed
    · intro h
      refine or_congr_right ⟨fun hdashes => ?_, fun hdashed => hdashed.count_filter⟩
      by_contra hnot
      exact h ⟨hdashes.1, hdashes.2, hnot⟩
  · obtain ⟨hcount, hhex⟩ := (dashedUuid_toUuid x).count_filter
    rw [fromStr_of_count hcount hhex, filter_toUuid]
    have hplain := fromStr_toHex x
    rwa [SessionId.fromStr, if_pos (hexDigits_toHex x).utf8Len_eq] at hplain

/-- Four dashes in front of 32 digits. -/
theorem sessionId_dashes_in_front :
    SessionId.fromStr (List.replicate 4 '-' ++ List.replicate 32 '0') =
      .ok (Octets.fromSlice 16 (List.replicate 16 0)) ∧
    ¬ HexDigits 32 (List.replicate 4 '-' ++ List.replicate 32 '0') ∧
    ¬ DashedUuid (List.replicate 4 '-' ++ List.replicate 32 '0') := by
  refine ⟨by decide +kernel, (fun h => by cases h.1), ?_⟩
  rintro ⟨a, b, c, d, e, ht, ha, -⟩
  -- the text starts with a dash, and the first group with a digit
  cases a with
  | nil => cases ha.1
  | cons x a =>
    have hx : '-' = x := (List.cons.inj ht).1
    exact not_isHexDigit_dash (hx ▸ ha.2 x List.mem_cons_self)

end Carrier
end HoldTheDonut
