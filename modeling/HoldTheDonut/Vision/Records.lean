import HoldTheDonut.Streaming.Deframe
import HoldTheDonut.Vision.Downlink

/-!
# Runs of application-data records

`is_complete_record` of `donut-io/src/vision_xray.rs` decides when the padding of a
downlink ends: the chunk has to be a run of complete TLS application-data records.  The
loop trusts the two length bytes of each record to find the next one.

Here the loop is the deframing loop of `Streaming.Deframe` at `takeRecord`, which takes
one record off the front.  A record says how long it is, so `takeRecord` does not change
its mind when more follows, and the three facts about the test come from the library: what
was taken off is what was there, a run of records is taken apart with nothing left, and a
longer buffer is taken apart like its front and then from there.
-/

namespace HoldTheDonut
namespace Vision

open Streaming

/-- An application-data record: two length bytes and a payload of that length. -/
structure AppData where
  hi : UInt8
  lo : UInt8
  payload : List UInt8
  length_payload : payload.length = be16 hi lo

namespace AppData

/-- The record on the wire. -/
def bytes (r : AppData) : List UInt8 := tlsAppDataStart ++ r.hi :: r.lo :: r.payload

theorem length_bytes (r : AppData) : r.bytes.length = 5 + be16 r.hi r.lo := by
  rw [bytes, List.length_append, List.length_cons, List.length_cons, r.length_payload]
  change 3 + _ = _
  omega

end AppData

/-- One record off the front of a buffer. -/
def takeRecord : List UInt8 → Option (AppData × List UInt8)
  | kind :: major :: minor :: hi :: lo :: body =>
    if h : [kind, major, minor] = tlsAppDataStart ∧ be16 hi lo ≤ body.length then
      some (⟨hi, lo, body.take (be16 hi lo), List.length_take_of_le h.2⟩, body.drop (be16 hi lo))
    else none
  | _ => none

theorem takeRecord_eq_some_iff {s rest : List UInt8} {r : AppData} :
    takeRecord s = some (r, rest) ↔ s = r.bytes ++ rest := by
  constructor
  · intro h
    unfold takeRecord at h
    split at h
    · next kind major minor hi lo body =>
      split at h
      · next hrecord =>
        cases h
        rw [AppData.bytes, ← hrecord.1]
        simp only [List.cons_append, List.nil_append, List.take_append_drop]
      · cases h
    · cases h
  · rintro rfl
    obtain ⟨hi, lo, payload, hlen⟩ := r
    have hle : be16 hi lo ≤ (payload ++ rest).length := by
      rw [List.length_append]
      omega
    change takeRecord (0x17 :: 0x03 :: 0x03 :: hi :: lo :: (payload ++ rest)) = _
    rw [takeRecord, dif_pos ⟨rfl, hle⟩]
    simp only [← hlen, List.take_left, List.drop_left]

/-- `takeRecord` as the body of the deframing loop; what is not a record is left alone. -/
def recordParse : Deframer UInt8 Empty AppData := fun s => .ok (takeRecord s)

theorem recordParse_eq_iff {s rest : List UInt8} {r : AppData} :
    recordParse s = .ok (some (r, rest)) ↔ s = r.bytes ++ rest := by
  rw [← takeRecord_eq_some_iff]
  exact ⟨fun h => Except.ok.inj h, fun h => congrArg Except.ok h⟩

theorem recordParse_stable : Deframe.Stable recordParse where
  nil := rfl
  shrinks := by
    intro s r rest h
    rw [recordParse_eq_iff.mp h, List.length_append, r.length_bytes]
    omega
  item_append := by
    intro s r rest h x
    rw [recordParse_eq_iff.mp h, List.append_assoc]
    exact recordParse_eq_iff.mpr rfl
  error_append := by
    intro s e
    exact e.elim

/-! ## The loop of the source -/

theorem isCompleteRecordLoop_cons (fuel : ℕ) (kind major minor hi lo : UInt8)
    (body : List UInt8) :
    isCompleteRecordLoop (fuel + 1) (kind :: major :: minor :: hi :: lo :: body) =
      if [kind, major, minor] = tlsAppDataStart ∧ be16 hi lo ≤ body.length then
        isCompleteRecordLoop fuel (body.drop (be16 hi lo))
      else false := by
  have hdrop : (kind :: major :: minor :: hi :: lo :: body).drop (5 + be16 hi lo) =
      body.drop (be16 hi lo) := by
    rw [← List.drop_drop]
    rfl
  rw [isCompleteRecordLoop, if_neg (List.cons_ne_nil _ _), if_neg]
  · change (if [kind, major, minor] ≠ tlsAppDataStart then false
      else if body.length + 5 < 5 + be16 hi lo then false
      else isCompleteRecordLoop fuel
        ((kind :: major :: minor :: hi :: lo :: body).drop (5 + be16 hi lo))) = _
    rw [hdrop]
    by_cases hstart : [kind, major, minor] = tlsAppDataStart
    · by_cases hlen : be16 hi lo ≤ body.length
      · rw [if_neg (not_not_intro hstart), if_neg (by omega), if_pos ⟨hstart, hlen⟩]
      · rw [if_neg (not_not_intro hstart), if_pos (by omega), if_neg fun h => hlen h.2]
    · rw [if_pos hstart, if_neg fun h => hstart h.1]
  · simp only [List.length_cons]
    omega

/-- A buffer that is not empty passes one round of the loop if a record is taken off it. -/
theorem isCompleteRecordLoop_succ (fuel : ℕ) {b : List UInt8} (hb : b ≠ []) :
    isCompleteRecordLoop (fuel + 1) b =
      (takeRecord b).elim false fun taken => isCompleteRecordLoop fuel taken.2 := by
  rcases b with _ | ⟨kind, _ | ⟨major, _ | ⟨minor, _ | ⟨hi, _ | ⟨lo, body⟩⟩⟩⟩⟩
  · exact absurd rfl hb
  · rfl
  · rfl
  · rfl
  · rfl
  · rw [isCompleteRecordLoop_cons, takeRecord]
    split
    · rfl
    · rfl

/-- The loop ends well exactly if the deframing loop leaves nothing. -/
theorem isCompleteRecordLoop_iff {fuel : ℕ} {b : List UInt8} (hb : b.length ≤ fuel) :
    isCompleteRecordLoop fuel b = true ↔ (Deframe.deframe recordParse b).1 = .ok [] := by
  induction fuel generalizing b with
  | zero =>
    have hnil : b = [] := List.eq_nil_of_length_eq_zero (Nat.le_zero.mp hb)
    subst hnil
    exact iff_of_true rfl rfl
  | succ fuel ih =>
    rcases eq_or_ne b [] with rfl | hne
    · exact iff_of_true rfl rfl
    rw [isCompleteRecordLoop_succ fuel hne]
    rcases htake : takeRecord b with _ | ⟨r, rest⟩
    · rw [recordParse_stable.deframe_of_wait (congrArg Except.ok htake)]
      exact iff_of_false (fun h => by cases h) (fun h => hne (Except.ok.inj h))
    · have hparse : recordParse b = .ok (some (r, rest)) := congrArg Except.ok htake
      have hlt := recordParse_stable.shrinks hparse
      have hle : rest.length ≤ fuel := by omega
      rw [recordParse_stable.deframe_of_item hparse]
      exact ih hle

theorem isCompleteRecord_iff (b : List UInt8) :
    isCompleteRecord b = true ↔ (Deframe.deframe recordParse b).1 = .ok [] :=
  isCompleteRecordLoop_iff le_rfl

/-! ## Runs of records -/

theorem isCompleteRecord_iff_flatten (b : List UInt8) :
    isCompleteRecord b = true ↔
      ∃ records : List AppData, b = (records.map AppData.bytes).flatten := by
  rw [isCompleteRecord_iff]
  constructor
  · intro h
    have hb := recordParse_stable.flatten_append_of_deframe recordParse_eq_iff.mp h
    rw [List.append_nil] at hb
    exact ⟨_, hb⟩
  · rintro ⟨records, rfl⟩
    rw [recordParse_stable.deframe_flatten AppData.bytes id records
      fun r _ x => recordParse_eq_iff.mpr rfl]

/-- Behind a run of records the test starts afresh. -/
theorem isCompleteRecord_append {a : List UInt8} (ha : isCompleteRecord a = true)
    (c : List UInt8) : isCompleteRecord (a ++ c) = isCompleteRecord c := by
  rw [Bool.eq_iff_iff, isCompleteRecord_iff, isCompleteRecord_iff,
    recordParse_stable.deframe_append, andThen, (isCompleteRecord_iff a).mp ha]
  exact Iff.rfl

/-- **The complete-record test is exact.**  It holds of a buffer exactly if the buffer is a
run of records, it holds of two such buffers one behind the other, and what is behind a run
of records inside a longer run is a run itself. -/
theorem complete_record_exact (a b c : List UInt8) :
    (isCompleteRecord b = true ↔
      ∃ records : List AppData, b = (records.map AppData.bytes).flatten) ∧
    (isCompleteRecord a = true → isCompleteRecord c = true →
      isCompleteRecord (a ++ c) = true) ∧
    (isCompleteRecord a = true → isCompleteRecord (a ++ c) = true →
      isCompleteRecord c = true) := by
  refine ⟨isCompleteRecord_iff_flatten b, ?_, ?_⟩
  · intro ha hc
    rw [isCompleteRecord_append ha]
    exact hc
  · intro ha hac
    rw [isCompleteRecord_append ha] at hac
    exact hac

/-- An empty record, and the same with a record of one byte behind it. -/
theorem complete_record_exact_two :
    isCompleteRecord [0x17, 3, 3, 0, 0] = true ∧
      isCompleteRecord ([0x17, 3, 3, 0, 0] ++ [0x17, 3, 3, 0, 1, 7]) = true ∧
      isCompleteRecord [0x17, 3, 3, 0, 1, 7] = true := by
  have hfirst : isCompleteRecord [0x17, 3, 3, 0, 0] = true := by decide
  have hsecond : isCompleteRecord [0x17, 3, 3, 0, 1, 7] = true := by decide
  have hboth := (complete_record_exact [0x17, 3, 3, 0, 0] [] [0x17, 3, 3, 0, 1, 7]).2.1
    hfirst hsecond
  exact ⟨hfirst, hboth, (complete_record_exact [0x17, 3, 3, 0, 0] []
    [0x17, 3, 3, 0, 1, 7]).2.2 hfirst hboth⟩

end Vision
end HoldTheDonut
