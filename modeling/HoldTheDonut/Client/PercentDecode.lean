import HoldTheDonut.Client.Link

/-!
# Which texts `pct_decode` reads

The specification is `Text.Percent.unescape`: a percent sign with two hexadecimal digits
behind it is a byte, everything else is copied.  `pct_decode` differs from it in two ways,
and both are visible in the bytes of the text, since a percent sign is neither a digit nor
part of another character and so every one of them is looked at.

* `Torn`: the two bytes behind a percent sign do not end with a character.  The slice panics.
* `Signed`: a plus and a digit stand behind a percent sign.  `from_str_radix` takes the plus
  for a sign, and the three bytes become one.

`pctDecode_eq_none_iff` and `pctDecode_eq_iff` say that there is nothing else.  For the second
the bytes that come out have to be told apart behind `from_utf8_lossy`, which can make the
same text of different bytes: the byte that stands for `%+5` is ASCII and not the percent
sign, and ASCII is kept wherever it stands.
-/

namespace HoldTheDonut
namespace Client
namespace Link

open Text (bytes)
open Text.Percent (sign digit pair unescape)

/-! ## Percent signs in a byte string -/

/-- Somewhere a percent sign has two bytes and a rest behind it of which `P` holds. -/
def Occurs (P : UInt8 → UInt8 → List UInt8 → Prop) (l : List UInt8) : Prop :=
  ∃ (front : List UInt8) (x y : UInt8) (rest : List UInt8),
    l = front ++ sign :: x :: y :: rest ∧ P x y rest

/-- A slice of two bytes behind a percent sign that is not made of characters. -/
def Torn : List UInt8 → Prop :=
  Occurs fun x y rest => ¬ (isCharBoundary (x :: y :: rest) = true ∧ isCharBoundary rest = true)

/-- A percent sign with a plus and a digit behind it. -/
def Signed : List UInt8 → Prop := Occurs fun x y _ => x = 43 ∧ (digit y).isSome

section Occurs

variable {P : UInt8 → UInt8 → List UInt8 → Prop} {l : List UInt8}

theorem Occurs.length (h : Occurs P l) : 3 ≤ l.length := by
  obtain ⟨front, x, y, rest, rfl, -⟩ := h
  simp only [List.length_append, List.length_cons]
  omega

theorem occurs_cons {b : UInt8} :
    Occurs P (b :: l) ↔
      (b = sign ∧ ∃ x y rest, l = x :: y :: rest ∧ P x y rest) ∨ Occurs P l := by
  constructor
  · rintro ⟨front, x, y, rest, hl, hP⟩
    cases front with
    | nil =>
      cases hl
      exact Or.inl ⟨rfl, x, y, rest, rfl, hP⟩
    | cons c front =>
      cases hl
      exact Or.inr ⟨front, x, y, rest, rfl, hP⟩
  · rintro (⟨rfl, x, y, rest, rfl, hP⟩ | ⟨front, x, y, rest, rfl, hP⟩)
    · exact ⟨[], x, y, rest, rfl, hP⟩
    · exact ⟨b :: front, x, y, rest, rfl, hP⟩

theorem occurs_cons_of_ne {b : UInt8} (h : b ≠ sign) : Occurs P (b :: l) ↔ Occurs P l := by
  rw [occurs_cons]
  exact or_iff_right fun hb => h hb.1

theorem occurs_sign {x y : UInt8} {rest : List UInt8} :
    Occurs P (sign :: x :: y :: rest) ↔ P x y rest ∨ Occurs P (x :: y :: rest) := by
  rw [occurs_cons]
  refine or_congr_left ⟨?_, ?_⟩
  · rintro ⟨-, x', y', rest', hl, hP⟩
    cases hl
    exact hP
  · exact fun hP => ⟨rfl, x, y, rest, rfl, hP⟩

end Occurs

/-! ## The digits -/

theorem toDigit_sixteen : ∀ b : UInt8, IpLiteral.toDigit 16 b = digit b :=
  forall_uint8 (by decide +kernel)

theorem digit_lt : ∀ b : UInt8, ∀ d ∈ digit b, d < 16 :=
  forall_uint8 (by decide +kernel)

/-- What two bytes are read as: a plus is skipped, and two digits are their byte. -/
theorem fromStrRadix_pair (x y : UInt8) :
    fromStrRadix 16 [x, y] = if x = 43 then (digit y).map UInt8.ofNat else pair x y := by
  have hlast : ∀ n, n < 16 → readRadix 16 n [y] =
      (digit y).map fun d => UInt8.ofNat (16 * n + d) := by
    intro n hn
    rw [readRadix, toDigit_sixteen]
    cases hy : digit y with
    | none => rfl
    | some d =>
      have hd := digit_lt y d hy
      simp only [Option.map_some]
      rw [if_pos (by omega), readRadix, Nat.mul_comm]
  rw [fromStrRadix, if_neg fun h => List.cons_ne_nil y [] h.2]
  by_cases hx : x = 43
  · rw [if_pos hx, if_pos hx, hlast 0 (by decide)]
    simp only [Nat.mul_zero, Nat.zero_add]
  · rw [if_neg hx, if_neg hx, readRadix, toDigit_sixteen, pair]
    cases hdigit : digit x with
    | none => rfl
    | some d =>
      have hd := digit_lt x d hdigit
      simp only [Nat.zero_mul, Nat.zero_add]
      rw [if_pos (by omega), hlast d hd]
      cases digit y <;> rfl

/-- The bytes of a pair are digits, so they are no signs. -/
theorem ne_of_pair {x y v : UInt8} (h : pair x y = some v) :
    x ≠ 43 ∧ x ≠ sign ∧ y ≠ sign := by
  have hplus : digit 43 = none := by decide
  have hsign : digit sign = none := by decide
  unfold pair at h
  split at h
  · next d e hx hy =>
    refine ⟨?_, ?_, ?_⟩ <;> rintro rfl
    · rw [hplus] at hx
      cases hx
    · rw [hsign] at hx
      cases hx
    · rw [hsign] at hy
      cases hy
  · cases h

/-- A plus and a digit are no signs either. -/
theorem ne_sign_of_fromStrRadix {x y v : UInt8} (h : fromStrRadix 16 [x, y] = some v) :
    x ≠ sign ∧ y ≠ sign := by
  have hsign : digit sign = none := by decide
  rw [fromStrRadix_pair] at h
  split at h
  · next hx =>
    refine ⟨hx ▸ by decide, ?_⟩
    rintro rfl
    rw [hsign] at h
    cases h
  · exact (ne_of_pair h).2

/-! ## The loop -/

theorem pctDecodeLoop_cons {b : UInt8} (h : b ≠ sign) (l : List UInt8) :
    pctDecodeLoop (b :: l) = (pctDecodeLoop l).map (b :: ·) := by
  rcases l with _ | ⟨x, _ | ⟨y, rest⟩⟩
  · rfl
  · rfl
  · rw [pctDecodeLoop, if_neg h]

section Sign

variable {x y : UInt8} {rest : List UInt8}

theorem pctDecodeLoop_sign_some
    (h : isCharBoundary (x :: y :: rest) = true ∧ isCharBoundary rest = true) {v : UInt8}
    (hv : fromStrRadix 16 [x, y] = some v) :
    pctDecodeLoop (sign :: x :: y :: rest) = (pctDecodeLoop rest).map (v :: ·) := by
  rw [pctDecodeLoop, if_pos rfl, if_pos h, hv]

theorem pctDecodeLoop_sign_none
    (h : isCharBoundary (x :: y :: rest) = true ∧ isCharBoundary rest = true)
    (hv : fromStrRadix 16 [x, y] = none) :
    pctDecodeLoop (sign :: x :: y :: rest) =
      (pctDecodeLoop (x :: y :: rest)).map (sign :: ·) := by
  rw [pctDecodeLoop, if_pos rfl, if_pos h, hv]

theorem pctDecodeLoop_torn
    (h : ¬ (isCharBoundary (x :: y :: rest) = true ∧ isCharBoundary rest = true)) :
    pctDecodeLoop (sign :: x :: y :: rest) = none := by
  rw [pctDecodeLoop, if_pos rfl, if_neg h]

end Sign

/-- The loop panics at the first torn slice, if there is one. -/
theorem pctDecodeLoop_eq_none_iff (l : List UInt8) : pctDecodeLoop l = none ↔ Torn l := by
  induction l using pctDecodeLoop.induct with
  | case1 => exact iff_of_false (fun h => by cases h) fun h => absurd h.length (by decide)
  | case2 b => exact iff_of_false (fun h => by cases h) fun h => absurd h.length (by simp)
  | case3 b x => exact iff_of_false (fun h => by cases h) fun h => absurd h.length (by simp)
  | case4 x y rest hslice v hv ih =>
    obtain ⟨hx, hy⟩ := ne_sign_of_fromStrRadix hv
    rw [pctDecodeLoop_sign_some hslice hv, Option.map_eq_none_iff, ih, Torn, occurs_sign,
      or_iff_right (not_not_intro hslice), occurs_cons_of_ne hx, occurs_cons_of_ne hy]
  | case5 x y rest hslice hv ih =>
    rw [pctDecodeLoop_sign_none hslice hv, Option.map_eq_none_iff, ih, Torn, occurs_sign,
      or_iff_right (not_not_intro hslice)]
  | case6 x y rest hslice =>
    rw [pctDecodeLoop_torn hslice]
    exact iff_of_true rfl (occurs_sign.mpr (Or.inl hslice))
  | case7 b x y rest hb ih =>
    rw [pctDecodeLoop_cons hb, Option.map_eq_none_iff, ih, Torn, occurs_cons_of_ne hb]

theorem pctDecode_eq_none_iff (s : Text) : pctDecode s = none ↔ Torn (bytes s) := by
  rw [pctDecode, Option.map_eq_none_iff, pctDecodeLoop_eq_none_iff]

/-- A pair without a plus in front is read as the specification reads it. -/
theorem fromStrRadix_of_not_signed {x y : UInt8} (h : ¬ (x = 43 ∧ (digit y).isSome)) :
    fromStrRadix 16 [x, y] = pair x y := by
  rw [fromStrRadix_pair]
  split
  · next hx =>
    have hnone : digit y = none := Option.not_isSome_iff_eq_none.mp fun hy => h ⟨hx, hy⟩
    rw [hnone, hx, pair, hnone]
    rfl
  · rfl

/-- What a plus and a digit become is ASCII, and not the percent sign. -/
theorem ascii_of_signed {y : UInt8} {d : ℕ} (h : digit y = some d) :
    (UInt8.ofNat d).toNat < 0x80 ∧ Char.ofNat (UInt8.ofNat d).toNat ≠ Char.ofNat sign.toNat := by
  have hd := digit_lt y d h
  have hall : ∀ d ∈ List.range 16, (UInt8.ofNat d).toNat < 0x80 ∧
      Char.ofNat (UInt8.ofNat d).toNat ≠ Char.ofNat sign.toNat := by decide
  exact hall d (List.mem_range.mpr hd)

/-- A signed escape is read as another text than the specification's, also behind the lossy
decoding: both have an ASCII byte there, and not the same one. -/
theorem lossyText_signed_ne {y : UInt8} {d : ℕ} (hd : digit y = some d)
    (front o rest : List UInt8) :
    lossyText (front ++ UInt8.ofNat d :: o) ≠
      lossyText (front ++ unescape (sign :: 43 :: y :: rest)) := by
  obtain ⟨hascii, hne⟩ := ascii_of_signed hd
  have hpair : pair 43 y = none := by
    rw [pair, hd]
    rfl
  rw [Text.Percent.unescape_sign_of_none hpair, lossyText_append_ascii hascii,
    lossyText_append_ascii (by decide)]
  exact fun h => hne (List.cons.inj (List.append_cancel_left h)).1

/-- **The loop and the specification make the same text exactly where there is no signed
escape**, behind any bytes that are there already.  The induction is along the loop; where
both put the same byte it joins the bytes in front, and a signed escape puts an ASCII byte
where the specification keeps the percent sign. -/
theorem lossyText_pctDecodeLoop_iff (l front out : List UInt8) (hout : pctDecodeLoop l = some out) :
    lossyText (front ++ out) = lossyText (front ++ unescape l) ↔ ¬ Signed l := by
  induction l using pctDecodeLoop.induct generalizing front out with
  | case1 =>
    cases hout
    exact iff_of_true rfl fun h => absurd h.length (by decide)
  | case2 b =>
    cases hout
    exact iff_of_true rfl fun h => absurd h.length (by simp)
  | case3 b x =>
    cases hout
    exact iff_of_true rfl fun h => absurd h.length (by simp)
  | case4 x y rest hslice v hv ih =>
    obtain ⟨hx, hy⟩ := ne_sign_of_fromStrRadix hv
    rw [pctDecodeLoop_sign_some hslice hv] at hout
    obtain ⟨o, ho, rfl⟩ := Option.map_eq_some_iff.mp hout
    by_cases hsigned : x = 43 ∧ (digit y).isSome
    · obtain ⟨rfl, hdigit⟩ := hsigned
      obtain ⟨d, hd⟩ := Option.isSome_iff_exists.mp hdigit
      rw [fromStrRadix_pair, if_pos rfl, hd, Option.map_some, Option.some_inj] at hv
      refine iff_of_false ?_ (not_not_intro (occurs_sign.mpr (Or.inl ⟨rfl, hdigit⟩)))
      rw [← hv]
      exact lossyText_signed_ne hd front o rest
    · rw [fromStrRadix_of_not_signed hsigned] at hv
      rw [Text.Percent.unescape_pair hv, List.append_cons front v o,
        List.append_cons front v (unescape _), ih (front ++ [v]) o ho, Signed, occurs_sign,
        or_iff_right hsigned, occurs_cons_of_ne hx, occurs_cons_of_ne hy]
  | case5 x y rest hslice hv ih =>
    rw [pctDecodeLoop_sign_none hslice hv] at hout
    obtain ⟨o, ho, rfl⟩ := Option.map_eq_some_iff.mp hout
    have hsigned : ¬ (x = 43 ∧ (digit y).isSome) := by
      rintro ⟨rfl, hdigit⟩
      rw [fromStrRadix_pair, if_pos rfl, Option.map_eq_none_iff] at hv
      rw [hv] at hdigit
      cases hdigit
    rw [fromStrRadix_of_not_signed hsigned] at hv
    rw [Text.Percent.unescape_sign_of_none hv, List.append_cons front sign o,
      List.append_cons front sign (unescape _), ih (front ++ [sign]) o ho, Signed, occurs_sign,
      or_iff_right hsigned]
  | case6 x y rest hslice =>
    rw [pctDecodeLoop_torn hslice] at hout
    cases hout
  | case7 b x y rest hb ih =>
    rw [pctDecodeLoop_cons hb] at hout
    obtain ⟨o, ho, rfl⟩ := Option.map_eq_some_iff.mp hout
    rw [Text.Percent.unescape_cons hb, List.append_cons front b o,
      List.append_cons front b (unescape _), ih (front ++ [b]) o ho, Signed,
      occurs_cons_of_ne hb]

theorem pctDecode_eq_iff (s : Text) :
    pctDecode s = some (lossyText (unescape (bytes s))) ↔
      ¬ Torn (bytes s) ∧ ¬ Signed (bytes s) := by
  rw [← pctDecodeLoop_eq_none_iff, pctDecode]
  cases hout : pctDecodeLoop (bytes s) with
  | none => exact iff_of_false (fun h => by cases h) fun h => h.1 rfl
  | some out =>
    have hiff := lossyText_pctDecodeLoop_iff (bytes s) [] out hout
    rw [Option.map_some, Option.some_inj, and_iff_right (fun h => by cases h)]
    exact hiff

/-! ## Pasted links -/

/-- Does `parse` get past the authority? -/
def authorityOk (authority : Text) : Bool :=
  match Text.splitOnce '@' authority with
  | none => false
  | some (uuid, hostport) => !uuid.isEmpty && (splitHostPort hostport).isOk

/-- The texts `parse` decodes, unless it panics before it gets to them: the label, and the
values of the query once the authority is read. -/
def decoded (s : Text) : List Text :=
  match Text.dropStart scheme (Routing.trim s) with
  | none => []
  | some rest =>
    (cutParts rest).fragment ::
      if authorityOk (cutParts rest).authority then (pairs (cutParts rest).query).map Prod.snd
      else []

theorem applyQuery_eq_none_iff (kvs : List (Text × Text)) (link : VlessLink) :
    applyQuery kvs link = none ↔ ∃ v ∈ kvs.map Prod.snd, pctDecode v = none := by
  induction kvs generalizing link with
  | nil =>
    refine iff_of_false (fun h => by cases h) ?_
    rintro ⟨v, hv, -⟩
    exact absurd hv List.not_mem_nil
  | cons kv kvs ih =>
    obtain ⟨k, v⟩ := kv
    rw [applyQuery, List.map_cons, List.exists_mem_cons_iff]
    cases hv : pctDecode v with
    | none => exact iff_of_true rfl (Or.inl rfl)
    | some v' => exact (ih _).trans (or_iff_right (fun h => by cases h)).symm

theorem parseParts_eq_none_iff (parts : Parts) (label : Text) :
    parseParts parts label = none ↔
      ∃ v ∈ (if authorityOk parts.authority then (pairs parts.query).map Prod.snd else []),
        pctDecode v = none := by
  have hnil : ¬ ∃ v ∈ ([] : List Text), pctDecode v = none := by
    rintro ⟨v, hv, -⟩
    exact absurd hv List.not_mem_nil
  unfold parseParts authorityOk
  rcases Text.splitOnce '@' parts.authority with _ | ⟨uuid, hostport⟩
  · exact iff_of_false (fun h => by cases h) hnil
  · rcases eq_or_ne uuid [] with rfl | huuid
    · exact iff_of_false (fun h => by cases h) hnil
    · have hempty : uuid.isEmpty = false := by
        simpa using huuid
      simp only [if_neg huuid, hempty]
      rcases splitHostPort hostport with e | ⟨host, port⟩
      · exact iff_of_false (fun h => by cases h) hnil
      · simp only [Option.map_eq_none_iff]
        exact applyQuery_eq_none_iff _ _

theorem parse_eq_none_iff (s : Text) :
    parse s = none ↔ ∃ v ∈ decoded s, Torn (bytes v) := by
  simp only [← pctDecode_eq_none_iff]
  unfold parse decoded
  rcases Text.dropStart scheme (Routing.trim s) with _ | rest
  · refine iff_of_false (fun h => by cases h) ?_
    rintro ⟨v, hv, -⟩
    exact absurd hv List.not_mem_nil
  · simp only [List.exists_mem_cons_iff]
    cases hlabel : pctDecode (cutParts rest).fragment with
    | none => exact iff_of_true rfl (Or.inl rfl)
    | some label =>
      exact (parseParts_eq_none_iff _ label).trans (or_iff_right (fun h => by cases h)).symm

/-- **Which texts are percent-decoded**, and which links make the parser panic.  A text is
decoded as specified exactly if no percent sign in it has a torn slice or a plus and a digit
behind it; a pasted link panics exactly if a text that is decoded on the way has a torn
slice. -/
theorem pct_decode_iff (s : Text) :
    (pctDecode s = some (lossyText (unescape (bytes s))) ↔
      ¬ Torn (bytes s) ∧ ¬ Signed (bytes s)) ∧
    (parse s = none ↔ ∃ v ∈ decoded s, Torn (bytes v)) :=
  ⟨pctDecode_eq_iff s, parse_eq_none_iff s⟩

/-- An accented letter one place behind a percent sign, alone and in the label of a link, and
a plus behind a percent sign. -/
theorem pct_decode_fails :
    pctDecode ['%', 'a', 'é'] = none ∧
      parse (scheme ++ ['u', '@', 'h', ':', '1', '#', '%', 'a', 'é']) = none ∧
      pctDecode ['%', '+', '5'] = some [Char.ofNat 5] ∧
      lossyText (unescape (bytes ['%', '+', '5'])) = ['%', '+', '5'] := by
  decide

end Link
end Client
end HoldTheDonut
