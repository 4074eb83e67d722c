import HoldTheDonut.Core.Address

/-!
# Lossy text

`String::from_utf8_lossy` keeps what is valid UTF-8 and writes U+FFFD for every
maximal part that is not: a leading byte together with as many continuation bytes
as could still have become a character.  Unlike `from_utf8` it never fails, and
unlike a length check it can make a text longer, one bad byte becoming three.

ASCII is safe from all this.  An ASCII byte becomes its character wherever it stands, and nothing
else becomes one (`lossyChar_ascii`, `lossyChar_ne_ascii`), so what an ASCII separator separates
in the bytes it separates in the text.
-/

namespace HoldTheDonut

/-- What a leading byte announces: the number of continuation bytes, the range of the
first of them, and the bits it carries itself. -/
def utf8Leading (b : ℕ) : Option (ℕ × ℕ × ℕ × ℕ) :=
  if b < 0x80 then some (0, 0, 0, b)
  else if b < 0xC2 then none
  else if b < 0xE0 then some (1, 0x80, 0xBF, b - 0xC0)
  else if b < 0xF0 then
    some (2, if b = 0xE0 then 0xA0 else 0x80, if b = 0xED then 0x9F else 0xBF, b - 0xE0)
  else if b < 0xF5 then
    some (3, if b = 0xF0 then 0x90 else 0x80, if b = 0xF4 then 0x8F else 0xBF, b - 0xF0)
  else none

/-- Read the announced continuation bytes; a byte that is none of them stays. -/
def utf8Continue : ℕ → ℕ → ℕ → ℕ → List UInt8 → Option ℕ × List UInt8
  | 0, _, _, bits, rest => (some bits, rest)
  | _ + 1, _, _, _, [] => (none, [])
  | need + 1, lo, hi, bits, b :: rest =>
    if lo ≤ b.toNat ∧ b.toNat ≤ hi then
      utf8Continue need 0x80 0xBF (bits * 64 + (b.toNat - 0x80)) rest
    else (none, b :: rest)

/-- One character, or the replacement of one invalid part. -/
def lossyChar (b : UInt8) (rest : List UInt8) : Char × List UInt8 :=
  match utf8Leading b.toNat with
  | none => ('�', rest)
  | some (need, lo, hi, bits) =>
    let r := utf8Continue need lo hi bits rest
    (r.1.elim '�' Char.ofNat, r.2)

def lossyLoop : ℕ → List UInt8 → List Char
  | 0, _ => []
  | _ + 1, [] => []
  | fuel + 1, b :: rest =>
    let r := lossyChar b rest
    r.1 :: lossyLoop fuel r.2

/-- `String::from_utf8_lossy`. -/
def fromUtf8Lossy (bytes : List UInt8) : String := String.ofList (lossyLoop bytes.length bytes)

/-! ## Valid text is kept -/

/-- A continuation byte of the encoder. -/
theorem utf8Continue_step {need lo hi bits : ℕ} {d : ℕ} (hd : d < 64) (hlo : lo ≤ d + 128)
    (hhi : d + 128 ≤ hi) (rest : List UInt8) :
    utf8Continue (need + 1) lo hi bits (UInt8.ofNat (d + 128) :: rest) =
      utf8Continue need 0x80 0xBF (bits * 64 + d) rest := by
  have hnat : (UInt8.ofNat (d + 128)).toNat = d + 128 := by
    rw [UInt8.toNat_ofNat']
    omega
  rw [utf8Continue, hnat, if_pos ⟨hlo, hhi⟩, Nat.add_sub_cancel]

theorem char_ofNat_toNat (c : Char) : Char.ofNat c.val.toNat = c := Char.ofNat_toNat c

/-- A code point is below the surrogates or above them. -/
theorem char_range (c : Char) :
    c.val.toNat < 0xD800 ∨ (0xDFFF < c.val.toNat ∧ c.val.toNat < 0x110000) := c.valid

/-- **An encoded character is read back**, whatever follows it. -/
theorem lossyChar_encode (c : Char) (rest : List UInt8) :
    ∃ b tail, String.utf8EncodeChar c ++ rest = b :: tail ∧ lossyChar b tail = (c, rest) := by
  have hrange := char_range c
  have hchar := char_ofNat_toNat c
  unfold String.utf8EncodeChar
  generalize c.val.toNat = v at hrange hchar
  simp only
  split
  · next h1 =>
    refine ⟨UInt8.ofNat v, rest, rfl, ?_⟩
    have hb : (UInt8.ofNat v).toNat = v := by
      rw [UInt8.toNat_ofNat']
      omega
    have hlead : utf8Leading v = some (0, 0, 0, v) := if_pos (by omega)
    unfold lossyChar
    rw [hb, hlead]
    simp only [utf8Continue, Option.elim_some, hchar]
  · split
    · next h1 h2 =>
      refine ⟨_, _, rfl, ?_⟩
      have hb : (UInt8.ofNat (v / 64 % 32 + 192)).toNat = v / 64 + 192 := by
        rw [UInt8.toNat_ofNat']
        omega
      have hlead : utf8Leading (v / 64 + 192) = some (1, 0x80, 0xBF, v / 64) := by
        unfold utf8Leading
        rw [if_neg (by omega), if_neg (by omega), if_pos (by omega), Nat.add_sub_cancel]
      have hvalue : v / 64 * 64 + v % 64 = v := by omega
      unfold lossyChar
      rw [hb, hlead]
      simp only [List.append_eq]
      rw [List.singleton_append, utf8Continue_step (by omega) (by omega) (by omega), hvalue]
      simp only [utf8Continue, Option.elim_some, hchar]
    · split
      · next h1 h2 h3 =>
        refine ⟨_, _, rfl, ?_⟩
        have hb : (UInt8.ofNat (v / 4096 % 16 + 224)).toNat = v / 4096 + 224 := by
          rw [UInt8.toNat_ofNat']
          omega
        have hlead : utf8Leading (v / 4096 + 224) =
            some (2, if v / 4096 + 224 = 0xE0 then 0xA0 else 0x80,
              if v / 4096 + 224 = 0xED then 0x9F else 0xBF, v / 4096) := by
          unfold utf8Leading
          rw [if_neg (by omega), if_neg (by omega), if_neg (by omega), if_pos (by omega),
            Nat.add_sub_cancel]
        have hvalue : (v / 4096 * 64 + v / 64 % 64) * 64 + v % 64 = v := by omega
        unfold lossyChar
        rw [hb, hlead]
        simp only [List.append_eq]
        rw [List.cons_append, List.singleton_append,
          utf8Continue_step (by omega) (by split <;> omega) (by split <;> omega),
          utf8Continue_step (by omega) (by omega) (by omega), hvalue]
        simp only [utf8Continue, Option.elim_some, hchar]
      · next h1 h2 h3 =>
        refine ⟨_, _, rfl, ?_⟩
        have hb : (UInt8.ofNat (v / 262144 % 8 + 240)).toNat = v / 262144 + 240 := by
          rw [UInt8.toNat_ofNat']
          omega
        have hlead : utf8Leading (v / 262144 + 240) =
            some (3, if v / 262144 + 240 = 0xF0 then 0x90 else 0x80,
              if v / 262144 + 240 = 0xF4 then 0x8F else 0xBF, v / 262144) := by
          unfold utf8Leading
          rw [if_neg (by omega), if_neg (by omega), if_neg (by omega), if_neg (by omega),
            if_pos (by omega), Nat.add_sub_cancel]
        have hvalue : ((v / 262144 * 64 + v / 4096 % 64) * 64 + v / 64 % 64) * 64 + v % 64 = v := by
          omega
        unfold lossyChar
        rw [hb, hlead]
        simp only [List.append_eq]
        rw [List.cons_append, List.cons_append, List.singleton_append,
          utf8Continue_step (by omega) (by split <;> omega) (by split <;> omega),
          utf8Continue_step (by omega) (by omega) (by omega),
          utf8Continue_step (by omega) (by omega) (by omega), hvalue]
        simp only [utf8Continue, Option.elim_some, hchar]

theorem lossyLoop_encode : ∀ (l : List Char) (fuel : ℕ),
    l.length ≤ fuel → lossyLoop fuel (l.flatMap String.utf8EncodeChar) = l
  | [], fuel, _ => by cases fuel <;> rfl
  | c :: l, 0, h => absurd h (by simp)
  | c :: l, fuel + 1, h => by
    obtain ⟨b, tail, hsplit, hchar⟩ := lossyChar_encode c (l.flatMap String.utf8EncodeChar)
    rw [List.flatMap_cons, hsplit, lossyLoop, hchar]
    simp only
    rw [lossyLoop_encode l fuel (by rw [List.length_cons] at h; omega)]

theorem utf8_eq_flatMap (s : String) : utf8 s = s.toList.flatMap String.utf8EncodeChar := by
  have h : (String.ofList s.toList).toByteArray = s.toList.utf8Encode := String.toByteArray_ofList
  rw [String.ofList_toList] at h
  unfold utf8
  rw [String.toUTF8_eq_toByteArray, h, List.utf8Encode, List.data_toByteArray]

theorem length_le_flatMap_encode (l : List Char) :
    l.length ≤ (l.flatMap String.utf8EncodeChar).length := by
  induction l with
  | nil => exact Nat.le_refl 0
  | cons c l ih =>
    obtain ⟨b, tail, hsplit, -⟩ := lossyChar_encode c []
    have hpos : 0 < (String.utf8EncodeChar c).length := by
      rw [List.append_nil] at hsplit
      rw [hsplit]
      exact Nat.succ_pos _
    rw [List.flatMap_cons, List.length_append, List.length_cons]
    omega

/-- **Valid text is kept as it is.** -/
theorem fromUtf8Lossy_utf8 (s : String) : fromUtf8Lossy (utf8 s) = s := by
  unfold fromUtf8Lossy
  rw [utf8_eq_flatMap, lossyLoop_encode _ _ (length_le_flatMap_encode _), String.ofList_toList]

/-! ## The characters of a lossy text -/

def lossyText (bytes : List UInt8) : List Char := lossyLoop bytes.length bytes

theorem toList_fromUtf8Lossy (bytes : List UInt8) :
    (fromUtf8Lossy bytes).toList = lossyText bytes :=
  String.toList_ofList

/-- **What a leading byte announces**: nothing, for ASCII, or continuation bytes that make a code
point beyond ASCII. -/
theorem utf8Leading_cases {b need lo hi bits : ℕ} (h : utf8Leading b = some (need, lo, hi, bits)) :
    (b < 0x80 ∧ need = 0 ∧ bits = b) ∨
    (0x80 ≤ b ∧ 0x80 ≤ lo ∧ ∃ k, need = k + 1 ∧ 0x80 ≤ (bits * 64 + (lo - 0x80)) * 64 ^ k) := by
  unfold utf8Leading at h
  split at h
  · next hascii =>
    cases h
    exact Or.inl ⟨hascii, rfl, rfl⟩
  · split at h
    · cases h
    · split at h
      · cases h
        exact Or.inr ⟨by omega, le_rfl, 0, rfl, by omega⟩
      · split at h
        · cases h
          refine Or.inr ⟨by omega, ?_, 1, rfl, ?_⟩ <;> split <;> omega
        · split at h
          · cases h
            refine Or.inr ⟨by omega, ?_, 2, rfl, ?_⟩ <;> split <;> omega
          · cases h

/-- Continuation bytes are read off the front, and none of them is ASCII. -/
theorem utf8Continue_skips (need lo hi bits : ℕ) (rest : List UInt8) (hlo : need = 0 ∨ 0x80 ≤ lo) :
    ∃ skipped, rest = skipped ++ (utf8Continue need lo hi bits rest).2 ∧
      ∀ x ∈ skipped, 0x80 ≤ x.toNat := by
  have hnone : ∀ x ∈ ([] : List UInt8), 0x80 ≤ x.toNat := fun x hx => absurd hx List.not_mem_nil
  induction need generalizing lo hi bits rest with
  | zero => exact ⟨[], rfl, hnone⟩
  | succ need ih =>
    cases rest with
    | nil => exact ⟨[], rfl, hnone⟩
    | cons b rest =>
      rw [utf8Continue]
      split
      · next hrange =>
        obtain ⟨skipped, hrest, hskipped⟩ :=
          ih 0x80 0xBF (bits * 64 + (b.toNat - 0x80)) rest (Or.inr le_rfl)
        refine ⟨b :: skipped, congrArg (b :: ·) hrest, fun x hx => ?_⟩
        rcases List.mem_cons.mp hx with rfl | hx
        · exact (hlo.resolve_left (Nat.succ_ne_zero need)).trans hrange.1
        · exact hskipped x hx
      · exact ⟨[], rfl, hnone⟩

/-- Every continuation byte adds six bits. -/
theorem le_utf8Continue (k : ℕ) {lo hi bits v : ℕ} {rest : List UInt8} (hlo : 0x80 ≤ lo)
    (h : (utf8Continue (k + 1) lo hi bits rest).1 = some v) :
    (bits * 64 + (lo - 0x80)) * 64 ^ k ≤ v := by
  induction k generalizing lo hi bits rest with
  | zero =>
    cases rest with
    | nil => cases h
    | cons b rest =>
      rw [utf8Continue] at h
      split at h
      · next hrange =>
        have hv : bits * 64 + (b.toNat - 0x80) = v := Option.some.inj h
        omega
      · cases h
  | succ k ih =>
    cases rest with
    | nil => cases h
    | cons b rest =>
      rw [utf8Continue] at h
      split at h
      · next hrange =>
        calc (bits * 64 + (lo - 0x80)) * 64 ^ (k + 1)
            ≤ (bits * 64 + (b.toNat - 0x80)) * 64 ^ (k + 1) :=
              Nat.mul_le_mul_right _ (by omega)
          _ = ((bits * 64 + (b.toNat - 0x80)) * 64 + (0x80 - 0x80)) * 64 ^ k := by
              rw [Nat.pow_succ, Nat.sub_self, Nat.add_zero, Nat.mul_comm (64 ^ k), Nat.mul_assoc]
          _ ≤ v := ih le_rfl h
      · cases h

theorem lossyChar_skips (b : UInt8) (rest : List UInt8) :
    ∃ skipped, rest = skipped ++ (lossyChar b rest).2 ∧ ∀ x ∈ skipped, 0x80 ≤ x.toNat := by
  unfold lossyChar
  split
  · exact ⟨[], rfl, fun x hx => absurd hx List.not_mem_nil⟩
  · next need lo hi bits hlead =>
    refine utf8Continue_skips need lo hi bits rest ?_
    rcases utf8Leading_cases hlead with ⟨-, hneed, -⟩ | ⟨-, hlo, -⟩
    · exact Or.inl hneed
    · exact Or.inr hlo

/-- ASCII is itself. -/
theorem lossyChar_ascii {b : UInt8} (h : b.toNat < 0x80) (rest : List UInt8) :
    lossyChar b rest = (Char.ofNat b.toNat, rest) := by
  have hlead : utf8Leading b.toNat = some (0, 0, 0, b.toNat) := if_pos h
  rw [lossyChar, hlead]
  rfl

theorem toNat_charOfNat {n : ℕ} (h : n.isValidChar) : (Char.ofNat n).toNat = n := by
  rw [Char.ofNat, dif_pos h]
  rfl

/-- What is no code point is the null character. -/
theorem toNat_charOfNat_or (n : ℕ) : (Char.ofNat n).toNat = n ∨ (Char.ofNat n).toNat = 0 := by
  by_cases h : n.isValidChar
  · exact Or.inl (toNat_charOfNat h)
  · rw [Char.ofNat, dif_neg h]
    exact Or.inr rfl

theorem toNat_ofNat_ascii {n : ℕ} (h : n < 0x80) : (Char.ofNat n).toNat = n :=
  toNat_charOfNat (Or.inl (by omega))

/-- **Nothing else becomes ASCII**, the null character apart. -/
theorem lossyChar_ne_ascii {b : UInt8} (h : 0x80 ≤ b.toNat) (rest : List UInt8) {n : ℕ}
    (hpos : 0 < n) (hn : n < 0x80) : (lossyChar b rest).1 ≠ Char.ofNat n := by
  have hreplaced : '�' ≠ Char.ofNat n := by
    intro heq
    have hnat := congrArg Char.toNat heq
    rw [toNat_ofNat_ascii hn] at hnat
    have hvalue : '�'.toNat = 65533 := rfl
    omega
  unfold lossyChar
  split
  · exact hreplaced
  · next need lo hi bits hlead =>
    rcases utf8Leading_cases hlead with ⟨hascii, -⟩ | ⟨-, hlo, k, rfl, hbeyond⟩
    · omega
    · cases hv : (utf8Continue (k + 1) lo hi bits rest).1 with
      | none =>
        simp only [hv]
        exact hreplaced
      | some v =>
        have hle := hbeyond.trans (le_utf8Continue k hlo hv)
        simp only [hv]
        intro heq
        have hnat : (Char.ofNat v).toNat = n :=
          (congrArg Char.toNat heq).trans (toNat_ofNat_ascii hn)
        rcases toNat_charOfNat_or v with hv | hv <;> omega

/-- More fuel than bytes changes nothing. -/
theorem lossyLoop_congr (fuel : ℕ) : ∀ (fuel' : ℕ) (bytes : List UInt8), bytes.length ≤ fuel →
    bytes.length ≤ fuel' → lossyLoop fuel bytes = lossyLoop fuel' bytes := by
  induction fuel with
  | zero =>
    intro fuel' bytes h _
    rw [List.eq_nil_of_length_eq_zero (Nat.le_zero.mp h)]
    cases fuel' <;> rfl
  | succ fuel ih =>
    intro fuel' bytes h h'
    cases bytes with
    | nil => cases fuel' <;> rfl
    | cons b rest =>
      obtain ⟨fuel', rfl⟩ := Nat.exists_eq_succ_of_ne_zero (Nat.ne_zero_of_lt h')
      obtain ⟨skipped, hrest, -⟩ := lossyChar_skips b rest
      have hshort := congrArg List.length hrest
      rw [List.length_append] at hshort
      rw [List.length_cons] at h h'
      rw [lossyLoop, lossyLoop]
      exact congrArg ((lossyChar b rest).1 :: ·) (ih fuel' _ (by omega) (by omega))

theorem lossyText_cons (b : UInt8) (rest : List UInt8) :
    lossyText (b :: rest) = (lossyChar b rest).1 :: lossyText (lossyChar b rest).2 := by
  obtain ⟨skipped, hrest, -⟩ := lossyChar_skips b rest
  have hshort := congrArg List.length hrest
  rw [List.length_append] at hshort
  show (lossyChar b rest).1 :: lossyLoop rest.length (lossyChar b rest).2 = _
  exact congrArg ((lossyChar b rest).1 :: ·) (lossyLoop_congr _ _ _ (by omega) le_rfl)

variable {a : UInt8}

/-- Behind an ASCII byte there is nothing to wait for. -/
theorem utf8Continue_append_ascii (ha : a.toNat < 0x80) (tail : List UInt8) (need lo hi bits : ℕ)
    (rest : List UInt8) (hlo : need = 0 ∨ 0x80 ≤ lo) :
    utf8Continue need lo hi bits (rest ++ a :: tail) =
      ((utf8Continue need lo hi bits rest).1,
        (utf8Continue need lo hi bits rest).2 ++ a :: tail) := by
  induction need generalizing lo hi bits rest with
  | zero => rfl
  | succ need ih =>
    have hbeyond : 0x80 ≤ lo := hlo.resolve_left (Nat.succ_ne_zero need)
    cases rest with
    | nil =>
      have hstop : ¬ (lo ≤ a.toNat ∧ a.toNat ≤ hi) := by omega
      rw [List.nil_append, utf8Continue, utf8Continue, if_neg hstop]
      rfl
    | cons b rest =>
      rw [List.cons_append, utf8Continue, utf8Continue]
      split
      · exact ih 0x80 0xBF _ rest (Or.inr le_rfl)
      · rfl

theorem lossyChar_append_ascii (ha : a.toNat < 0x80) (tail : List UInt8) (b : UInt8)
    (rest : List UInt8) :
    lossyChar b (rest ++ a :: tail) =
      ((lossyChar b rest).1, (lossyChar b rest).2 ++ a :: tail) := by
  unfold lossyChar
  rcases hlead : utf8Leading b.toNat with _ | ⟨need, lo, hi, bits⟩
  · rfl
  · have hlo : need = 0 ∨ 0x80 ≤ lo := by
      rcases utf8Leading_cases hlead with ⟨-, hneed, -⟩ | ⟨-, hlo, -⟩
      · exact Or.inl hneed
      · exact Or.inr hlo
    simp only [utf8Continue_append_ascii ha tail need lo hi bits rest hlo]

/-- **An ASCII byte separates**: what is before it is read as if nothing followed. -/
theorem lossyText_append_ascii (ha : a.toNat < 0x80) (front tail : List UInt8) :
    lossyText (front ++ a :: tail) = lossyText front ++ Char.ofNat a.toNat :: lossyText tail := by
  induction hn : front.length using Nat.strongRecOn generalizing front with
  | _ n ih =>
    cases front with
    | nil =>
      rw [List.nil_append, lossyText_cons, lossyChar_ascii ha]
      rfl
    | cons b front =>
      obtain ⟨skipped, hfront, -⟩ := lossyChar_skips b front
      have hshort := congrArg List.length hfront
      rw [List.length_append] at hshort
      rw [List.length_cons] at hn
      rw [List.cons_append, lossyText_cons, lossyChar_append_ascii ha, lossyText_cons,
        ih _ (by omega) (lossyChar b front).2 rfl, List.cons_append]

/-- **Valid text is kept as it is, whatever follows.** -/
theorem lossyText_utf8_append (s : String) (rest : List UInt8) :
    lossyText (utf8 s ++ rest) = s.toList ++ lossyText rest := by
  rw [utf8_eq_flatMap]
  induction s.toList with
  | nil => rfl
  | cons c l ih =>
    obtain ⟨b, tail, hsplit, hchar⟩ :=
      lossyChar_encode c (l.flatMap String.utf8EncodeChar ++ rest)
    rw [List.flatMap_cons, List.append_assoc, hsplit, lossyText_cons, hchar, ih]
    rfl

end HoldTheDonut
