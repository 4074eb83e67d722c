import Mathlib.Data.Vector.Basic
import Mathlib.Tactic.Ring

/-!
# Byte strings

The wire formats of this development are lists of bytes.  Two things recur in all
of them and are said once here: a byte string of a fixed length (a UUID, an IPv4
address, a key) and a sixteen-bit length or port written as two bytes, high byte
first.

A third is a buffer that is written in place: `overwrite` and `writeAll` are the slice
copies of the machine, and what they do to a buffer in three parts is replace the middle
one.

The high and low byte of a number are the machine's `(n >> 8) as u8` and
`n as u8`: the cast keeps the low eight bits, so nothing is assumed of `n` until
`be16_hi8_lo8` reads the pair back.
-/

namespace HoldTheDonut

/-- A byte string of length `n`. -/
abbrev Octets (n : ℕ) : Type := List.Vector UInt8 n

/-- A property of all bytes is a finite check. -/
theorem forall_uint8 {P : UInt8 → Prop} (h : ∀ v : BitVec 8, P (UInt8.ofBitVec v)) (b : UInt8) :
    P b := h b.toBitVec

/-- The number two bytes spell, high byte first. -/
def be16 (hi lo : UInt8) : ℕ := hi.toNat * 256 + lo.toNat

/-- `(n >> 8) as u8`. -/
def hi8 (n : ℕ) : UInt8 := UInt8.ofNat (n / 256)

/-- `n as u8`. -/
def lo8 (n : ℕ) : UInt8 := UInt8.ofNat n

theorem be16_lt (hi lo : UInt8) : be16 hi lo < 65536 := by
  have h₁ := hi.toNat_lt
  have h₂ := lo.toNat_lt
  unfold be16
  omega

/-- A number that fits sixteen bits is read back from its two bytes. -/
theorem be16_hi8_lo8 {n : ℕ} (h : n < 65536) : be16 (hi8 n) (lo8 n) = n := by
  unfold be16 hi8 lo8
  rw [UInt8.toNat_ofNat', UInt8.toNat_ofNat']
  omega

/-- A zeroed buffer of `n` bytes with `l` copied over it from the front. -/
def Octets.fromSlice (n : ℕ) (l : List UInt8) : Octets n :=
  ⟨(l ++ List.replicate n 0).take n, by simp⟩

/-- A slice of the right length fills the buffer. -/
theorem Octets.toList_fromSlice {n : ℕ} {l : List UInt8} (h : l.length = n) :
    (Octets.fromSlice n l).toList = l := by
  change (l ++ List.replicate n 0).take n = l
  rw [List.take_append_of_le_length h.ge, List.take_of_length_le h.le]

@[simp] theorem Octets.fromSlice_toList {n : ℕ} (o : Octets n) :
    Octets.fromSlice n o.toList = o :=
  List.Vector.eq _ _ (Octets.toList_fromSlice o.toList_length)

/-! ## Writing into a buffer -/

section Overwrite

variable {α : Type*}

/-- `buf[off..off + src.len()].copy_from_slice(src)`. -/
def overwrite (buf : List α) (off : ℕ) (src : List α) : List α :=
  buf.take off ++ (src ++ buf.drop (off + src.length))

/-- The pieces one after another, from `off` on. -/
def writeAll : List α → ℕ → List (List α) → List α
  | buf, _, [] => buf
  | buf, off, src :: pieces => writeAll (overwrite buf off src) (off + src.length) pieces

/-- What is written takes the place of what was there. -/
theorem overwrite_append (front : List α) {old src : List α} (h : old.length = src.length)
    (back : List α) :
    overwrite (front ++ (old ++ back)) front.length src = front ++ (src ++ back) := by
  have hdrop : (front ++ (old ++ back)).drop (front.length + src.length) = back := by
    rw [← h, ← List.append_assoc, ← List.length_append, List.drop_left]
  rw [overwrite, List.take_left, hdrop]

/-- Pieces that fill a slot take its place. -/
theorem writeAll_append (front : List α) {old : List α} {pieces : List (List α)}
    (h : old.length = pieces.flatten.length) (back : List α) :
    writeAll (front ++ (old ++ back)) front.length pieces =
      front ++ (pieces.flatten ++ back) := by
  induction pieces generalizing front old with
  | nil =>
    obtain rfl : old = [] := List.eq_nil_of_length_eq_zero h
    rfl
  | cons src pieces ih =>
    rw [List.flatten_cons, List.length_append] at h
    have hfirst : (old.take src.length).length = src.length := by
      rw [List.length_take]
      omega
    have hrest : (old.drop src.length).length = pieces.flatten.length := by
      rw [List.length_drop]
      omega
    have hsplit : old ++ back = old.take src.length ++ (old.drop src.length ++ back) := by
      rw [← List.append_assoc, List.take_append_drop]
    rw [writeAll, hsplit, overwrite_append front hfirst, ← List.append_assoc,
      ← List.length_append, ih (front ++ src) hrest, List.flatten_cons]
    simp only [List.append_assoc]

end Overwrite

end HoldTheDonut
