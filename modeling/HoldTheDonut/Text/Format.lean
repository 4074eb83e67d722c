import Mathlib.Algebra.GroupWithZero.Nat
import Mathlib.Data.List.DropRight
import Mathlib.Data.Nat.Init

/-!
# Text: splitting, trimming, labels, hexadecimal and decimal

What string code of a protocol is made of: texts are cut at separators, bytes are written
in hexadecimal and numbers in decimal, and all of it is read back.  A text is a list of
characters; its length on the wire is `utf8Len`.

Reading back what was written is the point of every lemma here.  `splitOnce_append` undoes
joining a key and a value, `decodeHex_encodeHex` and `readDecimal_toDigits` undo the two
formats, and `forall_mem_encodeHex` and `forall_mem_toDigits` say which characters the
formats use, which is what a caller needs to know that no separator is among them.

A parser that takes what it did not write is described from the other side: which texts it
takes, and as what.  `splitOnce_eq_some_iff` and `splitOnce_trim` do that for cutting, the second
with blanks around the separator, `decodeHex_iff` for hexadecimal in either case, and
`parseUnsigned_eq_some_iff` for a number, whose `Numeral`s may have a plus and leading zeros.

Text that is matched rather than read back is matched by its labels: `splitOn_suffix_iff` is
what a suffix test with a separator in front says about the pieces between the separators.
-/

namespace HoldTheDonut

abbrev Text : Type := List Char

namespace Text

def utf8Len (t : Text) : ℕ := (t.map Char.utf8Size).sum

variable {t : Text}

theorem utf8Len_eq_length (h : ∀ c ∈ t, c.utf8Size = 1) : utf8Len t = t.length := by
  induction t with
  | nil => rfl
  | cons c t ih =>
    show c.utf8Size + utf8Len t = t.length + 1
    rw [h c List.mem_cons_self, ih fun d hd => h d (List.mem_cons_of_mem _ hd), Nat.add_comm]

/-! ## Cutting -/

/-- The parts before and behind the first separator. -/
def splitOnce (sep : Char) : Text → Option (Text × Text)
  | [] => none
  | c :: cs => if c = sep then some ([], cs) else (splitOnce sep cs).map fun p => (c :: p.1, p.2)

/-- The parts before and behind the last separator. -/
def rsplitOnce (sep : Char) (t : Text) : Option (Text × Text) :=
  (splitOnce sep t.reverse).map fun p => (p.2.reverse, p.1.reverse)

variable {sep : Char}

theorem splitOnce_append {k : Text} (h : sep ∉ k) (v : Text) :
    splitOnce sep (k ++ sep :: v) = some (k, v) := by
  induction k with
  | nil => exact if_pos rfl
  | cons c k ih =>
    have hc : c ≠ sep := fun hc => h (hc ▸ List.mem_cons_self)
    rw [List.cons_append, splitOnce, if_neg hc, ih fun hk => h (List.mem_cons_of_mem _ hk)]
    rfl

theorem splitOnce_eq_none (h : sep ∉ t) : splitOnce sep t = none := by
  induction t with
  | nil => rfl
  | cons c t ih =>
    have hc : c ≠ sep := fun hc => h (hc ▸ List.mem_cons_self)
    rw [splitOnce, if_neg hc, ih fun ht => h (List.mem_cons_of_mem _ ht)]
    rfl

/-- A blank at either end is cut off. -/
def trim (blank : Char → Bool) (t : Text) : Text :=
  ((t.dropWhile blank).reverse.dropWhile blank).reverse

theorem dropWhile_eq_self {blank : Char → Bool} (h : ∀ c ∈ t, blank c = false) :
    t.dropWhile blank = t := by
  cases t with
  | nil => rfl
  | cons c t => rw [List.dropWhile_cons, h c List.mem_cons_self, if_neg Bool.false_ne_true]

/-- The two parts, and that the first separator is between them. -/
theorem splitOnce_eq_some_iff {a b : Text} :
    splitOnce sep t = some (a, b) ↔ t = a ++ sep :: b ∧ sep ∉ a := by
  constructor
  · intro h
    induction t generalizing a with
    | nil => cases h
    | cons c t ih =>
      rw [splitOnce] at h
      split at h
      · next hc =>
        cases h
        exact ⟨by rw [hc, List.nil_append], List.not_mem_nil⟩
      · next hc =>
        obtain ⟨⟨x, y⟩, hsplit, hparts⟩ := Option.map_eq_some_iff.mp h
        cases hparts
        obtain ⟨rfl, hx⟩ := ih hsplit
        refine ⟨rfl, fun hmem => ?_⟩
        rcases List.mem_cons.mp hmem with hsep | hmem
        · exact hc hsep.symm
        · exact hx hmem
  · rintro ⟨rfl, h⟩
    exact splitOnce_append h b

theorem rsplitOnce_eq_some_iff {a b : Text} :
    rsplitOnce sep t = some (a, b) ↔ t = a ++ sep :: b ∧ sep ∉ b := by
  have hswap : ∀ p : Text × Text, (p.2.reverse, p.1.reverse) = (a, b) ↔
      p = (b.reverse, a.reverse) := by
    rintro ⟨x, y⟩
    simp only [Prod.mk.injEq, List.reverse_eq_iff]
    exact and_comm
  have hparts : rsplitOnce sep t = some (a, b) ↔
      splitOnce sep t.reverse = some (b.reverse, a.reverse) := by
    rw [rsplitOnce, Option.map_eq_some_iff]
    simp only [hswap, exists_eq_right]
  rw [hparts, splitOnce_eq_some_iff, List.mem_reverse, List.reverse_eq_iff]
  simp only [List.reverse_append, List.reverse_cons, List.reverse_reverse, List.append_assoc,
    List.singleton_append]

/-! ## Trimming -/

section Trimming

variable {blank : Char → Bool}

theorem trim_eq (t : Text) : trim blank t = (t.dropWhile blank).rdropWhile blank := rfl

variable {c : Char}

/-- What is in the way of the blanks stays. -/
theorem dropWhile_append_cons (hc : blank c = false) (a b : Text) :
    (a ++ c :: b).dropWhile blank = a.dropWhile blank ++ c :: b := by
  induction a with
  | nil => rw [List.nil_append, List.dropWhile_cons, hc]; rfl
  | cons x a ih =>
    rw [List.cons_append, List.dropWhile_cons, List.dropWhile_cons]
    cases blank x with
    | true => exact ih
    | false => rfl

theorem rdropWhile_append_cons (hc : blank c = false) (a b : Text) :
    (a ++ c :: b).rdropWhile blank = a ++ c :: b.rdropWhile blank := by
  have hrev : (a ++ c :: b).reverse = b.reverse ++ c :: a.reverse := by simp
  rw [List.rdropWhile, List.rdropWhile, hrev, dropWhile_append_cons hc]
  simp

/-- Something that is not a blank splits the work. -/
theorem trim_append_cons (hc : blank c = false) (a b : Text) :
    trim blank (a ++ c :: b) = a.dropWhile blank ++ c :: b.rdropWhile blank := by
  rw [trim_eq, dropWhile_append_cons hc, rdropWhile_append_cons hc]

/-- Nothing is cut off a text that begins with something and ends in something. -/
theorem trim_cons_append {d : Char} (hc : blank c = false) (hd : blank d = false) (a : Text)
    {b : Text} (hb : ∀ x ∈ b, blank x = false) :
    trim blank (c :: a ++ d :: b) = c :: a ++ d :: b := by
  have hrev : ∀ x ∈ b.reverse, blank x = false := fun x hx => hb x (List.mem_reverse.mp hx)
  have hend : b.rdropWhile blank = b := by
    rw [List.rdropWhile, dropWhile_eq_self hrev, List.reverse_reverse]
  have hstart := trim_append_cons hc [] (a ++ d :: b)
  rw [rdropWhile_append_cons hd, hend] at hstart
  exact hstart

/-- Trimming what is trimmed on one side already. -/
theorem trim_dropWhile (t : Text) : trim blank (t.dropWhile blank) = trim blank t := by
  rw [trim_eq, trim_eq, List.dropWhile_idempotent]

theorem trim_rdropWhile (t : Text) : trim blank (t.rdropWhile blank) = trim blank t := by
  by_cases hblank : ∀ c ∈ t, blank c = true
  · rw [List.rdropWhile_eq_nil_iff.mpr hblank, trim_eq t, List.dropWhile_eq_nil_iff.mpr hblank]
    rfl
  · simp only [not_forall, Bool.not_eq_true] at hblank
    obtain ⟨c, hmem, hc⟩ := hblank
    obtain ⟨a, b, rfl⟩ := List.append_of_mem hmem
    rw [rdropWhile_append_cons hc, trim_append_cons hc, trim_append_cons hc,
      List.rdropWhile_idempotent]

/-- Only blanks are lost. -/
theorem mem_trim (h : c ∈ t) (hc : blank c = false) : c ∈ trim blank t := by
  obtain ⟨a, b, rfl⟩ := List.append_of_mem h
  rw [trim_append_cons hc]
  exact List.mem_append_right _ List.mem_cons_self

/-- **Trimming first and cutting at something else, or the other way round.** -/
theorem splitOnce_trim (hsep : blank sep = false) (t : Text) :
    splitOnce sep (trim blank t) =
      (splitOnce sep t).map fun p => (p.1.dropWhile blank, p.2.rdropWhile blank) := by
  by_cases hmem : sep ∈ t
  · obtain ⟨a, b, rfl, ha⟩ := List.eq_append_cons_of_mem hmem
    have hstart : sep ∉ a.dropWhile blank := fun h => ha ((List.dropWhile_sublist blank).mem h)
    rw [trim_append_cons hsep, splitOnce_append hstart, splitOnce_append ha]
    rfl
  · have htrim : sep ∉ trim blank t := fun h => by
      have hstart := (List.rdropWhile_prefix blank _).mem h
      exact hmem ((List.dropWhile_sublist blank).mem hstart)
    rw [splitOnce_eq_none hmem, splitOnce_eq_none htrim]
    rfl

end Trimming

/-! ## Labels -/

section Labels

variable {α β : Type*}

/-- What follows a piece of a joined list is that piece joined, with a separator before it
unless it is all there is. -/
theorem intercalate_append (sep : α) (front : List (List α)) {back : List (List α)}
    (h : back ≠ []) :
    [sep].intercalate (front ++ back) = [sep].intercalate back ∨
      sep :: [sep].intercalate back <:+ [sep].intercalate (front ++ back) := by
  induction front with
  | nil => exact Or.inl rfl
  | cons x front ih =>
    refine Or.inr ?_
    rw [List.cons_append, List.intercalate_cons_of_ne_nil (by simp [h])]
    rcases ih with heq | hsuffix
    · rw [heq, List.append_assoc]
      exact List.suffix_append x _
    · exact hsuffix.trans (List.suffix_append _ _)

/-- Joining puts in separators and nothing else. -/
theorem not_mem_intercalate {sep a : α} (hsep : a ≠ sep) {ls : List (List α)}
    (h : ∀ l ∈ ls, a ∉ l) : a ∉ [sep].intercalate ls := by
  induction ls with
  | nil => exact List.not_mem_nil
  | cons l ls ih =>
    obtain ⟨hl, hls⟩ := List.forall_mem_cons.mp h
    rcases eq_or_ne ls [] with rfl | hne
    · simpa [List.intercalate] using hl
    · rw [List.intercalate_cons_of_ne_nil hne]
      simp only [List.mem_append, List.mem_singleton, not_or]
      exact ⟨⟨hl, hsep⟩, ih hls⟩

/-- **Whole labels.**  The labels of `d` are the last labels of `h` exactly when `h` is `d` or
ends in `d` behind a separator. -/
theorem splitOn_suffix_iff [BEq α] [LawfulBEq α] {sep : α} {d h : List α} :
    d.splitOn sep <:+ h.splitOn sep ↔ h = d ∨ sep :: d <:+ h := by
  constructor
  · rintro ⟨front, hfront⟩
    have hlabels : d.splitOn sep ≠ [] := List.splitOn_ne_nil sep d
    have hjoin := intercalate_append sep front hlabels
    rw [hfront, List.intercalate_splitOn, List.intercalate_splitOn] at hjoin
    exact hjoin
  · rintro (rfl | ⟨t, rfl⟩)
    · exact List.suffix_rfl
    · rw [List.splitOn_append_cons_self]
      exact List.suffix_append _ _

/-- A letter-by-letter change that keeps the separators keeps the labels. -/
theorem splitOn_map [BEq α] [LawfulBEq α] [BEq β] [LawfulBEq β] {f : β → α} {sep : α} {a : β}
    (h : ∀ x, f x = sep ↔ x = a) (l : List β) :
    (l.map f).splitOn sep = (l.splitOn a).map (List.map f) := by
  induction l with
  | nil => simp
  | cons x l ih =>
    rw [List.map_cons, List.splitOn_cons_eq_if_modifyHead, List.splitOn_cons_eq_if_modifyHead, ih]
    by_cases hx : x = a
    · rw [if_pos (beq_iff_eq.mpr ((h x).mpr hx)), if_pos (beq_iff_eq.mpr hx)]
      rfl
    · rw [if_neg (fun hb => hx ((h x).mp (beq_iff_eq.mp hb))),
        if_neg (fun hb => hx (beq_iff_eq.mp hb))]
      cases l.splitOn a <;> rfl

end Labels

/-! ## Hexadecimal -/

/-- The value of a hexadecimal digit in either case. -/
def hexVal (c : Char) : Option ℕ :=
  if '0' ≤ c ∧ c ≤ '9' then some (c.toNat - 48)
  else if 'a' ≤ c ∧ c ≤ 'f' then some (c.toNat - 87)
  else if 'A' ≤ c ∧ c ≤ 'F' then some (c.toNat - 55)
  else none

def encodeHex (bytes : List UInt8) : Text :=
  bytes.flatMap fun b => [Nat.digitChar (b.toNat / 16), Nat.digitChar (b.toNat % 16)]

def decodeHex : Text → Option (List UInt8)
  | [] => some []
  | [_] => none
  | a :: b :: rest =>
    match hexVal a, hexVal b with
    | some x, some y => (decodeHex rest).map fun bytes => UInt8.ofNat (16 * x + y) :: bytes
    | _, _ => none

theorem hexVal_digitChar {d : ℕ} (h : d < 16) : hexVal (Nat.digitChar d) = some d := by
  have hall : ∀ d ∈ List.range 16, hexVal (Nat.digitChar d) = some d := by decide
  exact hall d (List.mem_range.mpr h)

@[simp] theorem decodeHex_encodeHex (bytes : List UInt8) :
    decodeHex (encodeHex bytes) = some bytes := by
  induction bytes with
  | nil => rfl
  | cons b bytes ih =>
    have hb : b.toNat < 256 := b.toNat_lt
    have hhigh : b.toNat / 16 < 16 := by omega
    have hlow : b.toNat % 16 < 16 := by omega
    have hsum : 16 * (b.toNat / 16) + b.toNat % 16 = b.toNat := by omega
    show decodeHex (Nat.digitChar (b.toNat / 16) :: Nat.digitChar (b.toNat % 16) ::
      encodeHex bytes) = some (b :: bytes)
    rw [decodeHex, hexVal_digitChar hhigh, hexVal_digitChar hlow, ih]
    show some (UInt8.ofNat (16 * (b.toNat / 16) + b.toNat % 16) :: bytes) = some (b :: bytes)
    rw [hsum, UInt8.ofNat_toNat]

/-- What holds of the sixteen digits holds of every character. -/
theorem forall_mem_encodeHex {p : Char → Prop} (hp : ∀ d, d < 16 → p (Nat.digitChar d))
    (bytes : List UInt8) : ∀ c ∈ encodeHex bytes, p c := by
  intro c hc
  obtain ⟨b, -, hcb⟩ := List.mem_flatMap.mp hc
  have hb : b.toNat < 256 := b.toNat_lt
  rcases List.mem_cons.mp hcb with rfl | hlow
  · exact hp _ (by omega)
  · obtain rfl := List.mem_singleton.mp hlow
    exact hp _ (by omega)

theorem length_encodeHex (bytes : List UInt8) : (encodeHex bytes).length = 2 * bytes.length := by
  induction bytes with
  | nil => rfl
  | cons b bytes ih =>
    show (encodeHex bytes).length + 1 + 1 = _
    rw [ih, List.length_cons]
    omega

/-- A hexadecimal digit in either case. -/
def IsHexDigit (c : Char) : Prop :=
  ('0' ≤ c ∧ c ≤ '9') ∨ ('a' ≤ c ∧ c ≤ 'f') ∨ ('A' ≤ c ∧ c ≤ 'F')

/-- So many hexadecimal digits and nothing else. -/
def HexDigits (n : ℕ) (t : Text) : Prop := t.length = n ∧ ∀ c ∈ t, IsHexDigit c

variable {c : Char}

theorem isHexDigit_iff : IsHexDigit c ↔ ∃ x, hexVal c = some x := by
  unfold IsHexDigit hexVal
  by_cases hdigit : '0' ≤ c ∧ c ≤ '9'
  · simp [hdigit]
  · by_cases hlower : 'a' ≤ c ∧ c ≤ 'f'
    · simp [hdigit, hlower]
    · by_cases hupper : 'A' ≤ c ∧ c ≤ 'F'
      · simp [hdigit, hlower, hupper]
      · simp [hdigit, hlower, hupper]

/-- **What is read as hexadecimal**: digits, two for each byte. -/
theorem decodeHex_iff (n : ℕ) : ∀ {t : Text},
    (∃ bytes, decodeHex t = some bytes ∧ bytes.length = n) ↔ HexDigits (2 * n) t := by
  induction n with
  | zero =>
    intro t
    constructor
    · rintro ⟨bytes, hdecode, hlen⟩
      obtain rfl := List.eq_nil_of_length_eq_zero hlen
      match t with
      | [] => exact ⟨rfl, List.forall_mem_nil _⟩
      | [a] => cases hdecode
      | a :: b :: t =>
        rw [decodeHex] at hdecode
        split at hdecode
        · obtain ⟨rest, -, hcons⟩ := Option.map_eq_some_iff.mp hdecode
          cases hcons
        · cases hdecode
    · rintro ⟨hlen, -⟩
      obtain rfl := List.eq_nil_of_length_eq_zero hlen
      exact ⟨[], rfl, rfl⟩
  | succ n ih =>
    intro t
    constructor
    · rintro ⟨bytes, hdecode, hlen⟩
      match t with
      | [] =>
        cases hdecode
        cases hlen
      | [a] => cases hdecode
      | a :: b :: t =>
        rw [decodeHex] at hdecode
        split at hdecode
        · next x y hx hy =>
          obtain ⟨rest, hrest, rfl⟩ := Option.map_eq_some_iff.mp hdecode
          obtain ⟨htlen, htail⟩ := ih.mp ⟨rest, hrest, Nat.succ.inj hlen⟩
          refine ⟨by simp only [List.length_cons, htlen]; omega, ?_⟩
          exact List.forall_mem_cons.mpr ⟨isHexDigit_iff.mpr ⟨x, hx⟩,
            List.forall_mem_cons.mpr ⟨isHexDigit_iff.mpr ⟨y, hy⟩, htail⟩⟩
        · cases hdecode
    · rintro ⟨hlen, hdigits⟩
      match t with
      | [] => exact absurd hlen (by simp)
      | [a] => exact absurd hlen (by simp only [List.length_singleton]; omega)
      | a :: b :: t =>
        obtain ⟨ha, hdigits⟩ := List.forall_mem_cons.mp hdigits
        obtain ⟨hb, hdigits⟩ := List.forall_mem_cons.mp hdigits
        obtain ⟨x, hx⟩ := isHexDigit_iff.mp ha
        obtain ⟨y, hy⟩ := isHexDigit_iff.mp hb
        have htlen : t.length = 2 * n := by
          simp only [List.length_cons] at hlen
          omega
        obtain ⟨rest, hrest, hrestLen⟩ := ih.mpr ⟨htlen, hdigits⟩
        refine ⟨UInt8.ofNat (16 * x + y) :: rest, ?_, by rw [List.length_cons, hrestLen]⟩
        rw [decodeHex, hx, hy, hrest]
        rfl

theorem IsHexDigit.utf8Size_eq (h : IsHexDigit c) : c.utf8Size = 1 := by
  rw [Char.utf8Size_eq_one_iff]
  rcases h with ⟨-, h⟩ | ⟨-, h⟩ | ⟨-, h⟩
  · exact UInt32.le_trans h (by decide)
  · exact UInt32.le_trans h (by decide)
  · exact UInt32.le_trans h (by decide)

variable {n : ℕ}

theorem HexDigits.utf8Len_eq (h : HexDigits n t) : utf8Len t = n := by
  rw [utf8Len_eq_length fun c hc => (h.2 c hc).utf8Size_eq, h.1]

theorem HexDigits.append {m : ℕ} {s : Text} (hs : HexDigits m s) (ht : HexDigits n t) :
    HexDigits (m + n) (s ++ t) :=
  ⟨by rw [List.length_append, hs.1, ht.1], fun c hc =>
    (List.mem_append.mp hc).elim (hs.2 c) (ht.2 c)⟩

/-- A stretch of the digits. -/
theorem HexDigits.slice (h : HexDigits n t) {i k : ℕ} (hk : i + k ≤ n) :
    HexDigits k ((t.drop i).take k) := by
  refine ⟨?_, fun c hc => h.2 c (List.mem_of_mem_drop (List.mem_of_mem_take hc))⟩
  rw [List.length_take, List.length_drop, h.1]
  omega

theorem HexDigits.not_mem (h : HexDigits n t) (hc : ¬ IsHexDigit c) :
    c ∉ t := fun hmem => hc (h.2 c hmem)

/-- There is no separator to be taken out. -/
theorem HexDigits.filter_ne (h : HexDigits n t) (hc : ¬ IsHexDigit c) : t.filter (· ≠ c) = t := by
  refine List.filter_eq_self.mpr fun d hd => decide_eq_true fun hsep => ?_
  exact h.not_mem hc (hsep ▸ hd)

/-- Taking out every occurrence of a character takes its bytes. -/
theorem utf8Len_filter_ne (c : Char) (t : Text) :
    utf8Len t = utf8Len (t.filter (· ≠ c)) + t.count c * c.utf8Size := by
  induction t with
  | nil => simp [utf8Len]
  | cons d t ih =>
    by_cases hd : d = c
    · subst hd
      rw [List.filter_cons_of_neg (by simp), List.count_cons_self, Nat.succ_mul]
      show d.utf8Size + utf8Len t = _
      rw [ih]
      omega
    · rw [List.filter_cons_of_pos (by simpa using hd), List.count_cons_of_ne hd]
      show d.utf8Size + utf8Len t = d.utf8Size + utf8Len (t.filter (· ≠ c)) + _
      rw [ih, Nat.add_assoc]

/-! ## Decimal -/

/-- The value of a decimal digit. -/
def decimalVal (c : Char) : Option ℕ :=
  if '0' ≤ c ∧ c ≤ '9' then some (c.toNat - 48) else none

/-- The number behind the digits read so far. -/
def readDecimal : ℕ → Text → Option ℕ
  | n, [] => some n
  | n, c :: cs =>
    match decimalVal c with
    | some d => readDecimal (10 * n + d) cs
    | none => none

/-- An unsigned number below a bound.  A plus sign may stand before the digits, and a sign
alone is not a number. -/
def parseUnsigned (bound : ℕ) : Text → Option ℕ
  | [] => none
  | ['+'] => none
  | '+' :: c :: cs => (readDecimal 0 (c :: cs)).filter (· < bound)
  | c :: cs => (readDecimal 0 (c :: cs)).filter (· < bound)

theorem decimalVal_digitChar {d : ℕ} (h : d < 10) : decimalVal (Nat.digitChar d) = some d := by
  have hall : ∀ d ∈ List.range 10, decimalVal (Nat.digitChar d) = some d := by decide
  exact hall d (List.mem_range.mpr h)

theorem readDecimal_append (n : ℕ) (t u : Text) :
    readDecimal n (t ++ u) = (readDecimal n t).bind fun m => readDecimal m u := by
  induction t generalizing n with
  | nil => rfl
  | cons c t ih =>
    rw [List.cons_append, readDecimal, readDecimal]
    cases decimalVal c with
    | none => rfl
    | some d => exact ih (10 * n + d)

/-- **Decimal digits are read back.** -/
theorem readDecimal_toDigits (n : ℕ) : readDecimal 0 (Nat.toDigits 10 n) = some n := by
  induction n using Nat.strongRecOn with
  | ind n ih =>
    by_cases hn : n < 10
    · rw [Nat.toDigits_of_lt_base hn, readDecimal, decimalVal_digitChar hn]
      show some (10 * 0 + n) = some n
      rw [Nat.mul_zero, Nat.zero_add]
    · have hlast : n % 10 < 10 := Nat.mod_lt _ (by decide)
      rw [Nat.toDigits_of_base_le (by decide) (Nat.not_lt.mp hn), readDecimal_append,
        ih (n / 10) (by omega), Option.bind_some, readDecimal, decimalVal_digitChar hlast]
      show some (10 * (n / 10) + n % 10) = some n
      rw [Nat.div_add_mod]

/-- What holds of the ten digits holds of every character. -/
theorem forall_mem_toDigits {p : Char → Prop} (hp : ∀ d, d < 10 → p (Nat.digitChar d)) (n : ℕ) :
    ∀ c ∈ Nat.toDigits 10 n, p c := by
  induction n using Nat.strongRecOn with
  | ind n ih =>
    intro c hc
    by_cases hn : n < 10
    · rw [Nat.toDigits_of_lt_base hn] at hc
      exact List.mem_singleton.mp hc ▸ hp n hn
    · rw [Nat.toDigits_of_base_le (by decide) (Nat.not_lt.mp hn)] at hc
      rcases List.mem_append.mp hc with hinit | hlast
      · exact ih (n / 10) (by omega) c hinit
      · exact List.mem_singleton.mp hlast ▸ hp _ (Nat.mod_lt _ (by decide))

variable {bound : ℕ}

theorem parseUnsigned_toDigits (h : n < bound) :
    parseUnsigned bound (Nat.toDigits 10 n) = some n := by
  have hread := readDecimal_toDigits n
  have hplus : ∀ c ∈ Nat.toDigits 10 n, c ≠ '+' := by
    refine forall_mem_toDigits (fun d hd => ?_) n
    have hall : ∀ d ∈ List.range 10, Nat.digitChar d ≠ '+' := by decide
    exact hall d (List.mem_range.mpr hd)
  have hfilter : (some n).filter (· < bound) = some n :=
    Option.filter_some_pos (decide_eq_true h)
  match hdigits : Nat.toDigits 10 n with
  | [] => exact absurd hdigits Nat.toDigits_ne_nil
  | c :: cs =>
    rw [hdigits] at hread hplus
    have hc : c ≠ '+' := hplus c List.mem_cons_self
    rw [parseUnsigned, hread]
    · exact hfilter
    · exact fun hsign _ => hc hsign
    · exact fun _ _ hsign _ => hc hsign

/-! ## Numerals -/

/-- A numeral: decimal digits, at least one, and perhaps a plus sign before them. -/
def Numeral (t : Text) (n : ℕ) : Prop :=
  ∃ digits : Text, digits ≠ [] ∧ (t = digits ∨ t = '+' :: digits) ∧
    (∀ c ∈ digits, '0' ≤ c ∧ c ≤ '9') ∧
    digits.foldl (fun m c => 10 * m + (c.toNat - 48)) 0 = n

theorem readDecimal_eq_some_iff {m : ℕ} :
    readDecimal m t = some n ↔ (∀ c ∈ t, '0' ≤ c ∧ c ≤ '9') ∧
      t.foldl (fun m c => 10 * m + (c.toNat - 48)) m = n := by
  induction t generalizing m with
  | nil => simp [readDecimal]
  | cons c t ih =>
    rw [readDecimal, List.forall_mem_cons, List.foldl_cons, decimalVal]
    by_cases hc : '0' ≤ c ∧ c ≤ '9'
    · rw [if_pos hc, ih, and_iff_right hc]
    · rw [if_neg hc]
      exact ⟨(fun h => by cases h), fun h => absurd h.1.1 hc⟩

theorem filter_readDecimal_iff (ht : t ≠ []) :
    (readDecimal 0 t).filter (· < bound) = some n ↔
      (t ≠ [] ∧ (∀ c ∈ t, '0' ≤ c ∧ c ≤ '9') ∧
        t.foldl (fun m c => 10 * m + (c.toNat - 48)) 0 = n) ∧ n < bound := by
  rw [Option.filter_eq_some_iff, readDecimal_eq_some_iff, decide_eq_true_iff,
    and_iff_right ht]

/-- **The numbers that are read are the numerals below the bound.** -/
theorem parseUnsigned_eq_some_iff : parseUnsigned bound t = some n ↔ Numeral t n ∧ n < bound := by
  have hplus : ∀ {digits : Text}, (∀ c ∈ digits, '0' ≤ c ∧ c ≤ '9') → '+' ∉ digits :=
    fun hdigits hmem => absurd (hdigits _ hmem) (by decide)
  rcases t with _ | ⟨c, t⟩
  · refine ⟨(fun h => by cases h), ?_⟩
    rintro ⟨⟨digits, hne, rfl | ht, -⟩, -⟩
    · exact absurd rfl hne
    · cases ht
  · by_cases hc : c = '+'
    · subst hc
      rcases t with _ | ⟨d, t⟩
      · refine ⟨(fun h => by cases h), ?_⟩
        rintro ⟨⟨digits, hne, rfl | ht, hdigits, -⟩, -⟩
        · exact absurd List.mem_cons_self (hplus hdigits)
        · exact absurd (List.cons.inj ht).2.symm hne
      · rw [parseUnsigned, filter_readDecimal_iff (List.cons_ne_nil d t)]
        refine and_congr_left fun _ => ⟨?_, ?_⟩
        · rintro ⟨hne, hdigits, hvalue⟩
          exact ⟨d :: t, hne, Or.inr rfl, hdigits, hvalue⟩
        · rintro ⟨digits, hne, rfl | ht, hdigits, hvalue⟩
          · exact absurd List.mem_cons_self (hplus hdigits)
          · rw [(List.cons.inj ht).2]
            exact ⟨hne, hdigits, hvalue⟩
    · rw [parseUnsigned, filter_readDecimal_iff (List.cons_ne_nil c t)]
      · refine and_congr_left fun _ => ⟨?_, ?_⟩
        · rintro ⟨hne, hdigits, hvalue⟩
          exact ⟨c :: t, hne, Or.inl rfl, hdigits, hvalue⟩
        · rintro ⟨digits, hne, rfl | ht, hdigits, hvalue⟩
          · exact ⟨hne, hdigits, hvalue⟩
          · exact absurd (List.cons.inj ht).1 hc
      · exact fun hsign _ => hc hsign
      · exact fun _ _ hsign _ => hc hsign

/-- A numeral is made of digits and a plus sign. -/
theorem Numeral.not_mem (h : Numeral t n) (hsign : c ≠ '+') (hdigit : ¬ ('0' ≤ c ∧ c ≤ '9')) :
    c ∉ t := by
  obtain ⟨digits, -, rfl | rfl, hdigits, -⟩ := h
  · exact fun hmem => hdigit (hdigits c hmem)
  · intro hmem
    rcases List.mem_cons.mp hmem with hc | hmem
    · exact hsign hc
    · exact hdigit (hdigits c hmem)

end Text
end HoldTheDonut
