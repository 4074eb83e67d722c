import HoldTheDonut.Text.Format

/-!
# Percent coding

A byte that must not be seen in a text is written as a percent sign and two hexadecimal
digits.  `escape` writes a byte string that way, keeping the bytes it is told to keep, and
`unescape` reads it: from left to right, a percent sign with two digits behind it is the
byte they denote and everything else is copied.

`unescape` works on bytes and `escape` makes text, so the round trip `unescape_escape` goes
through the bytes of the text.  Whatever else reads the text meets only the percent sign,
the sixteen digits and what was kept (`forall_mem_escape`).
-/

namespace HoldTheDonut
namespace Text

/-- The bytes of a text. -/
def bytes (t : Text) : List UInt8 := t.flatMap String.utf8EncodeChar

theorem bytes_append (s t : Text) : bytes (s ++ t) = bytes s ++ bytes t := List.flatMap_append

theorem bytes_cons (c : Char) (t : Text) : bytes (c :: t) = String.utf8EncodeChar c ++ bytes t :=
  List.flatMap_cons

/-- The byte of an ASCII character. -/
theorem utf8EncodeChar_ascii {c : Char} (h : c.toNat < 0x80) :
    String.utf8EncodeChar c = [UInt8.ofNat c.toNat] := by
  have hle : c.val.toNat ≤ 0x7f := Nat.le_of_lt_succ h
  unfold String.utf8EncodeChar
  simp only [if_pos hle]
  rfl

theorem toNat_byte_ascii {c : Char} (h : c.toNat < 0x80) :
    (UInt8.ofNat c.toNat).toNat = c.toNat := by
  rw [UInt8.toNat_ofNat']
  omega

theorem mem_bytes_of_mem {t : Text} {c : Char} (h : c ∈ t) (hc : c.toNat < 0x80) :
    UInt8.ofNat c.toNat ∈ bytes t := by
  refine List.mem_flatMap.mpr ⟨c, h, ?_⟩
  rw [utf8EncodeChar_ascii hc]
  exact List.mem_singleton_self _

namespace Percent

def sign : UInt8 := 37

/-- The value of a byte that is a hexadecimal digit. -/
def digit (b : UInt8) : Option ℕ := hexVal (Char.ofNat b.toNat)

/-- The byte two digits denote. -/
def pair (x y : UInt8) : Option UInt8 :=
  match digit x, digit y with
  | some h, some l => some (UInt8.ofNat (16 * h + l))
  | _, _ => none

/-- Every escape replaced by its byte, everything else copied. -/
def unescape : List UInt8 → List UInt8
  | [] => []
  | [b] => [b]
  | [b, x] => [b, x]
  | b :: x :: y :: rest =>
    match if b = sign then pair x y else none with
    | some v => v :: unescape rest
    | none => b :: unescape (x :: y :: rest)

/-- A hexadecimal digit as `%02X` writes it. -/
def upperDigit (n : ℕ) : Char := (Nat.digitChar n).toUpper

def escapeByte (keep : UInt8 → Bool) (b : UInt8) : Text :=
  if keep b then [Char.ofNat b.toNat]
  else ['%', upperDigit (b.toNat / 16), upperDigit (b.toNat % 16)]

def escape (keep : UInt8 → Bool) (bs : List UInt8) : Text := bs.flatMap (escapeByte keep)

/-! ## What is written -/

/-- What may be kept: ASCII, and not the sign itself. -/
def Keepable (keep : UInt8 → Bool) : Prop := ∀ b, keep b = true → b.toNat < 0x80 ∧ b ≠ sign

theorem upperDigit_ascii {d : ℕ} (h : d < 16) : (upperDigit d).toNat < 0x80 := by
  have hall : ∀ d ∈ List.range 16, (upperDigit d).toNat < 0x80 := by decide
  exact hall d (List.mem_range.mpr h)

theorem digit_upperDigit {d : ℕ} (h : d < 16) :
    digit (UInt8.ofNat (upperDigit d).toNat) = some d := by
  have hall : ∀ d ∈ List.range 16, digit (UInt8.ofNat (upperDigit d).toNat) = some d := by
    decide
  exact hall d (List.mem_range.mpr h)

variable {keep : UInt8 → Bool}

/-- What holds of the sign, the digits and what is kept holds of every character. -/
theorem forall_mem_escape {p : Char → Prop} (hsign : p '%')
    (hdigit : ∀ d, d < 16 → p (upperDigit d)) (hkeep : ∀ b, keep b = true → p (Char.ofNat b.toNat))
    (bs : List UInt8) :
    ∀ c ∈ escape keep bs, p c := by
  intro c hc
  obtain ⟨b, -, hcb⟩ := List.mem_flatMap.mp hc
  have hb : b.toNat < 256 := b.toNat_lt
  unfold escapeByte at hcb
  split at hcb
  · next hkept =>
    rw [List.mem_singleton.mp hcb]
    exact hkeep b hkept
  · simp only [List.mem_cons, List.not_mem_nil, or_false] at hcb
    rcases hcb with rfl | rfl | rfl
    · exact hsign
    · exact hdigit _ (by omega)
    · exact hdigit _ (by omega)

/-- A byte on the wire: itself, or the sign and two digits. -/
theorem bytes_escapeByte (hkeep : Keepable keep) (b : UInt8) :
    (bytes (escapeByte keep b) = [b] ∧ b.toNat < 0x80 ∧ b ≠ sign) ∨
      ∃ x y, bytes (escapeByte keep b) = [sign, x, y] ∧ x.toNat < 0x80 ∧ y.toNat < 0x80 ∧
        pair x y = some b := by
  unfold escapeByte
  split
  · next hkept =>
    obtain ⟨hascii, hsign⟩ := hkeep b hkept
    have hchar : (Char.ofNat b.toNat).toNat = b.toNat := by
      rw [Char.ofNat, dif_pos (Or.inl (by omega))]
      rfl
    have hone : String.utf8EncodeChar (Char.ofNat b.toNat) = [b] := by
      rw [utf8EncodeChar_ascii (by rwa [hchar]), hchar, UInt8.ofNat_toNat]
    refine Or.inl ⟨?_, hascii, hsign⟩
    rw [bytes_cons, hone]
    rfl
  · have hb : b.toNat < 256 := b.toNat_lt
    have hhigh : b.toNat / 16 < 16 := by omega
    have hlow : b.toNat % 16 < 16 := by omega
    have hsum : 16 * (b.toNat / 16) + b.toNat % 16 = b.toNat := by omega
    refine Or.inr ⟨UInt8.ofNat (upperDigit (b.toNat / 16)).toNat,
      UInt8.ofNat (upperDigit (b.toNat % 16)).toNat, ?_, ?_, ?_, ?_⟩
    · rw [bytes_cons, bytes_cons, bytes_cons, utf8EncodeChar_ascii (by decide),
        utf8EncodeChar_ascii (upperDigit_ascii hhigh), utf8EncodeChar_ascii (upperDigit_ascii hlow)]
      rfl
    · rw [toNat_byte_ascii (upperDigit_ascii hhigh)]
      exact upperDigit_ascii hhigh
    · rw [toNat_byte_ascii (upperDigit_ascii hlow)]
      exact upperDigit_ascii hlow
    · rw [pair, digit_upperDigit hhigh, digit_upperDigit hlow]
      exact congrArg some (by rw [hsum, UInt8.ofNat_toNat])

/-! ## What is read -/

theorem unescape_cons {b : UInt8} (h : b ≠ sign) (rest : List UInt8) :
    unescape (b :: rest) = b :: unescape rest := by
  rcases rest with _ | ⟨x, _ | ⟨y, rest⟩⟩
  · rfl
  · rfl
  · rw [unescape, if_neg h]

theorem unescape_pair {x y v : UInt8} (h : pair x y = some v) (rest : List UInt8) :
    unescape (sign :: x :: y :: rest) = v :: unescape rest := by
  rw [unescape, if_pos rfl, h]

theorem unescape_sign_of_none {x y : UInt8} (h : pair x y = none) (rest : List UInt8) :
    unescape (sign :: x :: y :: rest) = sign :: unescape (x :: y :: rest) := by
  rw [unescape, if_pos rfl, h]

theorem unescape_bytes_escapeByte (hkeep : Keepable keep) (b : UInt8) (rest : List UInt8) :
    unescape (bytes (escapeByte keep b) ++ rest) = b :: unescape rest := by
  rcases bytes_escapeByte hkeep b with ⟨hbytes, -, hsign⟩ | ⟨x, y, hbytes, -, -, hpair⟩
  · rw [hbytes, List.singleton_append, unescape_cons hsign]
  · rw [hbytes, List.cons_append, List.cons_append, List.singleton_append, unescape_pair hpair]

/-- **What was escaped is read back.** -/
theorem unescape_escape (hkeep : Keepable keep) (bs : List UInt8) :
    unescape (bytes (escape keep bs)) = bs := by
  induction bs with
  | nil => rfl
  | cons b bs ih =>
    have hcons : escape keep (b :: bs) = escapeByte keep b ++ escape keep bs := List.flatMap_cons
    rw [hcons, bytes_append, unescape_bytes_escapeByte hkeep, ih]

end Percent
end Text
end HoldTheDonut
