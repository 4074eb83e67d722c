import HoldTheDonut.Server.Admin

/-!
# `donut-server/src/metrics.rs`: where an admin request ends

A request on the admin socket declares the length of its body.  Three functions look at the raw
bytes for it, and each in its own way: `read_request` reads until there are at least as many
bytes, `request_total_len` adds the two lengths, and `request_body` takes everything behind the
blank line.

So the sum can overflow; what arrived with the last read belongs to the body, whether or not it
was declared; and a request that was cut short is served like any other, with the body that is
there.  For a `POST` without its body that means a new user with a new id, since an empty body
stands for one, and a `DELETE` does not need its body at all.  `admin_framing_iff` says for every
stream and every way it is cut into reads when none of this shows.

What is read of a request is said by the reads: the first of them that have it as a whole or
reach the limit, or all there are (`arrived`, `readRequest_eq`).

The header and the body are found in the text and in the bytes at the same place, though the text
is a lossy one: the separator is ASCII (`behind_lossyText`).
-/

namespace HoldTheDonut
namespace Server

open Text (cut)

/-! ## A separator in the bytes and in the text -/

/-- ASCII without the null character. -/
def Ascii (pat : List UInt8) : Prop := ∀ b ∈ pat, 0 < b.toNat ∧ b.toNat < 0x80

/-- The characters of ASCII bytes. -/
def asciiText (pat : List UInt8) : Text := pat.map fun b => Char.ofNat b.toNat

variable {pat : List UInt8}

theorem lossyText_ascii_append (h : Ascii pat) (rest : List UInt8) :
    lossyText (pat ++ rest) = asciiText pat ++ lossyText rest := by
  induction pat with
  | nil => rfl
  | cons b pat ih =>
    have hb := (h b List.mem_cons_self).2
    rw [List.cons_append, lossyText_cons, lossyChar_ascii hb,
      ih fun x hx => h x (List.mem_cons_of_mem _ hx)]
    rfl

theorem charOfNat_inj {a b : UInt8} (ha : a.toNat < 0x80) (hb : b.toNat < 0x80)
    (h : Char.ofNat a.toNat = Char.ofNat b.toNat) : a = b := by
  have hnat := congrArg Char.toNat h
  rw [toNat_ofNat_ascii ha, toNat_ofNat_ascii hb] at hnat
  exact UInt8.toNat_inj.mp hnat

/-- The text starts with the pattern exactly if the bytes do. -/
theorem isPrefix_lossyText_iff (h : Ascii pat) (l : List UInt8) :
    asciiText pat <+: lossyText l ↔ pat <+: l := by
  induction pat generalizing l with
  | nil => exact ⟨fun _ => List.nil_prefix, fun _ => List.nil_prefix⟩
  | cons b pat ih =>
    obtain ⟨hpos, hb⟩ := h b List.mem_cons_self
    have hpat : Ascii pat := fun x hx => h x (List.mem_cons_of_mem _ hx)
    cases l with
    | nil =>
      have hnil : lossyText [] = [] := rfl
      rw [hnil, List.prefix_nil, List.prefix_nil]
      exact ⟨(fun h => by cases h), (fun h => by cases h)⟩
    | cons x l =>
      rw [lossyText_cons, asciiText, List.map_cons, List.cons_prefix_cons, List.cons_prefix_cons]
      by_cases hx : x.toNat < 0x80
      · rw [lossyChar_ascii hx]
        constructor
        · rintro ⟨heq, hrest⟩
          exact ⟨charOfNat_inj hb hx heq, (ih hpat l).mp hrest⟩
        · rintro ⟨rfl, hrest⟩
          exact ⟨rfl, (ih hpat l).mpr hrest⟩
      · constructor
        · rintro ⟨heq, -⟩
          exact absurd heq.symm (lossyChar_ne_ascii (Nat.not_lt.mp hx) l hpos hb)
        · rintro ⟨rfl, -⟩
          exact absurd hb hx

/-- What does not start the pattern is skipped. -/
theorem behind_skip {p : UInt8} {skipped : List UInt8} (h : ∀ x ∈ skipped, x ≠ p) (l : List UInt8) :
    (cut (p :: pat) (skipped ++ l)).map Prod.snd = (cut (p :: pat) l).map Prod.snd := by
  induction skipped with
  | nil => rfl
  | cons x skipped ih =>
    have hpre : ¬ p :: pat <+: x :: (skipped ++ l) := fun hpre =>
      h x List.mem_cons_self (List.cons_prefix_cons.mp hpre).1.symm
    rw [List.cons_append, Text.cut_cons_of_not_isPrefix hpre, Option.map_map,
      ← ih fun y hy => h y (List.mem_cons_of_mem _ hy)]
    rfl

/-- **What stands behind the separator in the text is the text of what stands behind it in the
bytes.**  The induction goes from character to character; the bytes inside one are no
separators. -/
theorem behind_lossyText {p : UInt8} (h : Ascii (p :: pat)) (l : List UInt8) :
    (cut (asciiText (p :: pat)) (lossyText l)).map Prod.snd =
      (cut (p :: pat) l).map fun parts => lossyText parts.2 := by
  induction hlen : l.length using Nat.strong_induction_on generalizing l with
  | _ len ih =>
    subst hlen
    by_cases hpre : p :: pat <+: l
    · obtain ⟨rest, rfl⟩ := hpre
      have htext := lossyText_ascii_append h rest
      have hpre' : asciiText (p :: pat) <+: lossyText (p :: pat ++ rest) := by
        rw [htext]
        exact List.prefix_append _ _
      rw [Text.cut_of_isPrefix hpre', Text.cut_of_isPrefix (List.prefix_append _ rest), htext,
        Option.map_some, Option.map_some, List.drop_left, List.drop_left]
    · have hpre' : ¬ asciiText (p :: pat) <+: lossyText l :=
        fun hx => hpre ((isPrefix_lossyText_iff h l).mp hx)
      cases l with
      | nil => rfl
      | cons b l =>
        obtain ⟨skipped, hrest, hskipped⟩ := lossyChar_skips b l
        have hshort := congrArg List.length hrest
        rw [List.length_append] at hshort
        have hnot : ∀ x ∈ skipped, x ≠ p := by
          rintro x hx rfl
          have hbig := hskipped x hx
          have hsmall := (h x List.mem_cons_self).2
          omega
        have hbytes : (cut (p :: pat) (b :: l)).map Prod.snd =
            (cut (p :: pat) (lossyChar b l).2).map Prod.snd := by
          rw [Text.cut_cons_of_not_isPrefix hpre, Option.map_map]
          conv_lhs => rw [hrest]
          rw [← behind_skip hnot]
          rfl
        have htext := ih (lossyChar b l).2.length (by rw [List.length_cons]; omega)
          (lossyChar b l).2 rfl
        rw [lossyText_cons] at hpre' ⊢
        rw [Text.cut_cons_of_not_isPrefix hpre', Option.map_map]
        have hbytes' := congrArg (Option.map lossyText) hbytes
        rw [Option.map_map, Option.map_map] at hbytes'
        exact htext.trans hbytes'.symm

/-! ## What was declared and what is seen of it -/

/-- **The stream starts with a complete header that declares `n` bytes.**  A header that is no
valid text declares what its readable lines do. -/
structure Declares (stream head : List UInt8) (n : ℕ) : Prop where
  header : ∃ before rest, cut separator stream = some (before, rest) ∧
    head = before ++ separator
  length : contentLength (requestText head) = some n
  /-- It can be held in memory. -/
  held : head.length < 2 ^ 64

/-- The length `request_total_len` goes by: none, if the header is no valid text. -/
def seenLength (head : List UInt8) (n : ℕ) : ℕ := if (fromUtf8 head).isSome then n else 0

theorem seenLength_le (head : List UInt8) (n : ℕ) : seenLength head n ≤ n := by
  unfold seenLength
  split
  · exact le_rfl
  · exact Nat.zero_le n

theorem seenLength_utf8 (text : String) (n : ℕ) : seenLength (utf8 text) n = n :=
  if_pos (by rw [fromUtf8_utf8]; rfl)

/-- The total length, once the header is there. -/
theorem requestTotalLen_of_cut {data before rest : List UInt8}
    (h : cut separator data = some (before, rest)) :
    requestTotalLen data =
      if 2 ^ 64 ≤ (before ++ separator).length +
          ((fromUtf8 (data.take (before ++ separator).length)).bind fun head =>
            contentLength head.toList).getD 0
      then .overflow
      else .known ((before ++ separator).length +
        ((fromUtf8 (data.take (before ++ separator).length)).bind fun head =>
          contentLength head.toList).getD 0) := by
  rw [requestTotalLen, h, List.length_append]

namespace Declares

variable {stream head : List UInt8} {n : ℕ} (h : Declares stream head n)

include h

theorem header_isPrefix : head <+: stream := by
  obtain ⟨before, rest, hcut, rfl⟩ := h.header
  exact ⟨rest, (Text.eq_of_cut hcut).symm⟩

theorem seen_eq :
    ((fromUtf8 head).bind fun text => contentLength text.toList).getD 0 = seenLength head n := by
  unfold seenLength
  cases htext : fromUtf8 head with
  | none => rfl
  | some text =>
    have hlength := h.length
    rw [requestText, ← utf8_of_fromUtf8 htext, fromUtf8Lossy_utf8] at hlength
    rw [Option.bind_some, hlength]
    rfl

/-- **The total length, at any point of the stream.** -/
theorem requestTotalLen_eq {data : List UInt8}
    (hdata : data <+: stream) :
    requestTotalLen data =
      if data.length < head.length then .unknown
      else if 2 ^ 64 ≤ head.length + seenLength head n then .overflow
      else .known (head.length + seenLength head n) := by
  have hseen := h.seen_eq
  have hhead := h.header_isPrefix
  obtain ⟨before, rest, hcut, rfl⟩ := h.header
  obtain ⟨hfound, hmissing⟩ := Text.cut_of_prefix hcut hdata
  have hlen : (before ++ separator).length = before.length + separator.length :=
    List.length_append
  by_cases hshort : data.length < (before ++ separator).length
  · rw [if_pos hshort, requestTotalLen, hmissing (by rwa [← hlen])]
  · -- the header is the same, however much of the stream is there
    have htake : data.take (before ++ separator).length = before ++ separator := by
      have hpre := List.prefix_of_prefix_length_le hhead hdata (Nat.not_lt.mp hshort)
      exact (List.prefix_iff_eq_take.mp hpre).symm
    have hcut' := hfound (by rw [← hlen]; exact Nat.not_lt.mp hshort)
    rw [if_neg hshort, requestTotalLen_of_cut hcut', htake, hseen]

/-- The body of a request that was read past its header. -/
theorem requestBody_eq {raw : List UInt8} (hraw : raw <+: stream)
    (hlen : head.length ≤ raw.length) :
    requestBody (requestText raw) = lossyText (raw.drop head.length) := by
  obtain ⟨before, rest, hcut, rfl⟩ := h.header
  rw [List.length_append] at hlen
  have hfound := (Text.cut_of_prefix hcut hraw).1 hlen
  have hascii : Ascii separator := by simp [Ascii, separator]
  have hbehind := behind_lossyText hascii raw
  have hpattern : asciiText separator = "\r\n\r\n".toList := by decide
  change (cut (asciiText separator) (lossyText raw)).map Prod.snd =
    (cut separator raw).map _ at hbehind
  rw [hfound, hpattern, Option.map_some] at hbehind
  obtain ⟨parts, hparts, hbody⟩ := Option.map_eq_some_iff.mp hbehind
  rw [requestBody, requestText, toList_fromUtf8Lossy, hparts, List.length_append]
  exact hbody

end Declares

/-! ## Reading -/

/-- What has been read when there are `m` bytes or nothing more comes. -/
def readUntil (m : ℕ) : List (List UInt8) → List UInt8 → List UInt8
  | [], data => data
  | chunk :: reads, data => if m ≤ data.length then data else readUntil m reads (data ++ chunk)

section ReadUntil

variable {m : ℕ} {data : List UInt8}

theorem readUntil_of_le (h : m ≤ data.length) (reads : List (List UInt8)) :
    readUntil m reads data = data := by
  cases reads with
  | nil => rfl
  | cons chunk reads => exact if_pos h

theorem readUntil_cons (h : ¬ m ≤ data.length) (chunk : List UInt8) (reads : List (List UInt8)) :
    readUntil m (chunk :: reads) data = readUntil m reads (data ++ chunk) :=
  if_neg h

/-- It is what the first reads brought, and no more of them than are needed. -/
theorem readUntil_eq_take (m : ℕ) (reads : List (List UInt8)) (data : List UInt8) :
    ∃ k, readUntil m reads data = data ++ (reads.take k).flatten ∧
      ∀ j, m ≤ (data ++ (reads.take j).flatten).length → k ≤ j := by
  induction reads generalizing data with
  | nil => exact ⟨0, (List.append_nil data).symm, fun j _ => Nat.zero_le j⟩
  | cons chunk reads ih =>
    by_cases hfull : m ≤ data.length
    · exact ⟨0, (readUntil_of_le hfull _).trans (List.append_nil data).symm,
        fun j _ => Nat.zero_le j⟩
    · obtain ⟨k, hread, hfirst⟩ := ih (data ++ chunk)
      refine ⟨k + 1, ?_, fun j hj => ?_⟩
      · rw [readUntil_cons hfull, hread, List.take_succ_cons, List.flatten_cons, List.append_assoc]
      · cases j with
        | zero =>
          rw [List.take_zero, List.flatten_nil, List.append_nil] at hj
          exact absurd hj hfull
        | succ j =>
          rw [List.take_succ_cons, List.flatten_cons, ← List.append_assoc] at hj
          exact Nat.succ_le_succ (hfirst j hj)

/-- There are `m` bytes, if there are that many at all. -/
theorem le_length_readUntil (reads : List (List UInt8)) (data : List UInt8)
    (h : m ≤ (data ++ reads.flatten).length) : m ≤ (readUntil m reads data).length := by
  induction reads generalizing data with
  | nil => rwa [List.flatten_nil, List.append_nil] at h
  | cons chunk reads ih =>
    by_cases hfull : m ≤ data.length
    · rwa [readUntil_of_le hfull]
    · rw [readUntil_cons hfull]
      exact ih _ (by rwa [List.flatten_cons, ← List.append_assoc] at h)

end ReadUntil

section Reading

variable {stream head : List UInt8} {n : ℕ} {ending : StreamEnd} {cap : ℕ}

theorem enough_eq (h : Declares stream head n) {data : List UInt8} (hdata : data <+: stream) :
    enough cap data =
      if 2 ^ 64 ≤ head.length + seenLength head n ∧ head.length ≤ data.length then none
      else some (decide (min cap (head.length + seenLength head n) ≤ data.length)) := by
  unfold enough
  rw [h.requestTotalLen_eq hdata]
  by_cases hshort : data.length < head.length
  · rw [if_pos hshort, if_neg (by omega)]
    exact congrArg some (decide_eq_decide.mpr (by omega))
  · rw [if_neg hshort]
    by_cases hbig : 2 ^ 64 ≤ head.length + seenLength head n
    · rw [if_pos hbig, if_pos ⟨hbig, Nat.not_lt.mp hshort⟩]
    · rw [if_neg hbig, if_neg fun hover => hbig hover.1]
      exact congrArg some (decide_eq_decide.mpr (by omega))

/-- **What `read_request` returns.**  The sum is formed once the header is there, if that is
before the limit is reached; reading goes on until there are as many bytes, or as the limit
admits. -/
theorem readRequest_eq (h : Declares stream head n) (reads : List (List UInt8))
    (data : List UInt8) (hstream : stream = data ++ reads.flatten) :
    readRequest cap ending reads data =
      if 2 ^ 64 ≤ head.length + seenLength head n ∧
          head.length ≤ (readUntil (min cap head.length) reads data).length then .overflowed
      else if (readUntil (min cap (head.length + seenLength head n)) reads data).length <
          min cap (head.length + seenLength head n) ∧ ending = .stalls then .waits
      else .returned (readUntil (min cap (head.length + seenLength head n)) reads data) := by
  induction reads generalizing data with
  | nil =>
    rw [readRequest, enough_eq h ⟨_, hstream.symm⟩, readUntil, readUntil]
    by_cases hover : 2 ^ 64 ≤ head.length + seenLength head n ∧ head.length ≤ data.length
    · rw [if_pos hover, if_pos hover]
    · rw [if_neg hover, if_neg hover]
      by_cases hfull : min cap (head.length + seenLength head n) ≤ data.length
      · rw [decide_eq_true hfull]
        exact (if_neg fun hshort => Nat.not_lt.mpr hfull hshort.1).symm
      · rw [decide_eq_false hfull]
        by_cases hstalls : ending = .stalls
        · exact (if_pos hstalls).trans (if_pos ⟨Nat.not_le.mp hfull, hstalls⟩).symm
        · exact (if_neg hstalls).trans (if_neg fun hboth => hstalls hboth.2).symm
  | cons chunk reads ih =>
    rw [readRequest, enough_eq h ⟨_, hstream.symm⟩]
    by_cases hover : 2 ^ 64 ≤ head.length + seenLength head n ∧ head.length ≤ data.length
    · rw [if_pos hover, readUntil_of_le (m := min cap head.length) (by omega), if_pos hover]
    · rw [if_neg hover]
      by_cases hfull : min cap (head.length + seenLength head n) ≤ data.length
      · have hsame : ¬ (2 ^ 64 ≤ head.length + seenLength head n ∧
            head.length ≤ (readUntil (min cap head.length) (chunk :: reads) data).length) := by
          rintro ⟨hbig, hlong⟩
          rw [readUntil_of_le (by omega)] at hlong
          exact hover ⟨hbig, hlong⟩
        rw [decide_eq_true hfull, if_neg hsame, readUntil_of_le hfull,
          if_neg fun hshort => Nat.not_lt.mpr hfull hshort.1]
      · have hnext := ih (data ++ chunk) (by rw [hstream, List.flatten_cons, List.append_assoc])
        rw [decide_eq_false hfull, readUntil_cons hfull]
        -- a sum that overflows has not been formed so far, and the header is not there
        have hhead : 2 ^ 64 ≤ head.length + seenLength head n →
            readUntil (min cap head.length) (chunk :: reads) data =
              readUntil (min cap head.length) reads (data ++ chunk) :=
          fun hbig => readUntil_cons (by omega) chunk reads
        by_cases hbig : 2 ^ 64 ≤ head.length + seenLength head n
        · rw [hhead hbig]
          exact hnext
        · rw [if_neg fun hboth => hbig hboth.1] at hnext ⊢
          exact hnext

end Reading

/-! ## What was read of a request -/

/-- **What is read of a request**: the first reads that have it as a whole, as far as its length
is seen, or reach the limit; all of them, if they do neither. -/
def arrived (reads : List (List UInt8)) (head : List UInt8) (n : ℕ) : List UInt8 :=
  readUntil (min requestCap (head.length + seenLength head n)) reads []

/-- The first reads that have the header or reach the limit have the header. -/
def HeaderRead (reads : List (List UInt8)) (head : List UInt8) : Prop :=
  head.length ≤ (readUntil (min requestCap head.length) reads []).length

/-- The stream ended, failed or reached the limit before the whole request was read. -/
def CutShort (reads : List (List UInt8)) (ending : StreamEnd) (raw : List UInt8) (total : ℕ) :
    Prop :=
  raw.length < total ∧
    ((reads.flatten.length < total ∧ ending ≠ .stalls) ∨ requestCap ≤ raw.length)

theorem flatten_take_isPrefix (reads : List (List UInt8)) (k : ℕ) :
    (reads.take k).flatten <+: reads.flatten :=
  ⟨(reads.drop k).flatten, by rw [← List.flatten_append, List.take_append_drop]⟩

section Arrived

variable {reads : List (List UInt8)} {head raw : List UInt8} {n : ℕ} {ending : StreamEnd}

theorem arrived_eq_take (reads : List (List UInt8)) (head : List UInt8) (n : ℕ) :
    ∃ k, arrived reads head n = (reads.take k).flatten ∧
      ∀ j, min requestCap (head.length + seenLength head n) ≤ (reads.take j).flatten.length →
        k ≤ j :=
  readUntil_eq_take _ reads []

theorem arrived_isPrefix (reads : List (List UInt8)) (head : List UInt8) (n : ℕ) :
    arrived reads head n <+: reads.flatten := by
  obtain ⟨k, hk, -⟩ := arrived_eq_take reads head n
  rw [hk]
  exact flatten_take_isPrefix reads k

variable (h : Declares reads.flatten head n)

include h

/-- **The sum overflows exactly if it is formed and too large.** -/
theorem overflowed_iff :
    readRequest requestCap ending reads [] = .overflowed ↔
      HeaderRead reads head ∧ 2 ^ 64 ≤ head.length + seenLength head n := by
  rw [readRequest_eq h reads [] rfl]
  constructor
  · intro hread
    split at hread
    · next hover => exact ⟨hover.2, hover.1⟩
    · split at hread <;> cases hread
  · exact fun hover => if_pos ⟨hover.2, hover.1⟩

/-- What is returned is what was read. -/
theorem eq_arrived (hread : readRequest requestCap ending reads [] = .returned raw) :
    raw = arrived reads head n := by
  rw [readRequest_eq h reads [] rfl] at hread
  split at hread
  · cases hread
  · split at hread
    · cases hread
    · exact (Reading.returned.inj hread).symm

/-- It is returned, if it is enough or nothing more can come. -/
theorem readRequest_arrived (hno : readRequest requestCap ending reads [] ≠ .overflowed)
    (hend : min requestCap (head.length + seenLength head n) ≤ (arrived reads head n).length ∨
      ending ≠ .stalls) :
    readRequest requestCap ending reads [] = .returned (arrived reads head n) := by
  rw [readRequest_eq h reads [] rfl] at hno ⊢
  rw [if_neg fun hover => hno (if_pos hover)]
  refine if_neg fun hwaits => ?_
  rcases hend with henough | hends
  · exact Nat.not_lt.mpr henough hwaits.1
  · exact hends hwaits.2

/-- A request that was cut short is served with what was read. -/
theorem CutShort.readRequest_eq
    (hcut : CutShort reads ending (arrived reads head n) (head.length + n))
    (hno : readRequest requestCap ending reads [] ≠ .overflowed) :
    readRequest requestCap ending reads [] = .returned (arrived reads head n) := by
  refine readRequest_arrived h hno ?_
  rcases hcut.2 with ⟨-, hends⟩ | hlimit
  · exact Or.inr hends
  · exact Or.inl ((Nat.min_le_left _ _).trans hlimit)

theorem no_overflow_iff :
    readRequest requestCap ending reads [] ≠ .overflowed ↔
      (HeaderRead reads head → (fromUtf8 head).isSome → head.length + n < 2 ^ 64) := by
  have hheld := h.held
  rw [Ne, overflowed_iff h, not_and]
  refine imp_congr_right fun _ => ?_
  unfold seenLength
  split
  · next hvalid =>
    exact ⟨fun hsum _ => Nat.not_le.mp hsum, fun hsum => Nat.not_le.mpr (hsum hvalid)⟩
  · next hvalid => exact ⟨fun _ hsome => absurd hsome hvalid, fun _ => by omega⟩

omit h in
/-- A request that is there and fits is read up to its end at least. -/
theorem arrived_of_fits (hfits : head.length + n ≤ requestCap)
    (hthere : head.length + n ≤ reads.flatten.length) :
    min requestCap (head.length + seenLength head n) = head.length + seenLength head n ∧
      head.length + seenLength head n ≤ (arrived reads head n).length := by
  have hseen := seenLength_le head n
  have hmin : min requestCap (head.length + seenLength head n) =
      head.length + seenLength head n := Nat.min_eq_right (by omega)
  refine ⟨hmin, ?_⟩
  have hlong := le_length_readUntil (m := min requestCap (head.length + seenLength head n))
    reads [] (by rw [hmin, List.nil_append]; omega)
  unfold arrived
  rwa [hmin] at hlong ⊢

end Arrived

/-! ## The body -/

/-- The bytes that were declared as the body. -/
def declaredBody (stream head : List UInt8) (n : ℕ) : List UInt8 := (stream.drop head.length).take n

theorem lossyText_eq_nil {bytes : List UInt8} (h : lossyText bytes = []) : bytes = [] := by
  cases bytes with
  | nil => rfl
  | cons b rest =>
    rw [lossyText_cons] at h
    cases h

/-- **A text is as good as its bytes only if there are no more of them, and they are valid.** -/
theorem utf8_lossyText_append_iff (body extra : List UInt8) :
    utf8 (String.ofList (lossyText (body ++ extra))) = body ↔
      extra = [] ∧ (fromUtf8 body).isSome := by
  constructor
  · intro h
    obtain ⟨s, rfl⟩ : ∃ s, utf8 s = body := ⟨_, h⟩
    rw [lossyText_utf8_append, String.ofList_append, String.ofList_toList, utf8_append] at h
    have hnil := (utf8_eq_nil_iff _).mp (List.append_right_eq_self.mp h)
    have htext : lossyText extra = [] := by
      rw [← String.toList_ofList (l := lossyText extra), hnil]
      rfl
    exact ⟨lossyText_eq_nil htext, by rw [fromUtf8_utf8]; rfl⟩
  · rintro ⟨rfl, hvalid⟩
    obtain ⟨s, hs⟩ := Option.isSome_iff_exists.mp hvalid
    rw [← utf8_of_fromUtf8 hs, lossyText_utf8_append, String.ofList_append, String.ofList_toList,
      utf8_append]
    exact List.append_right_eq_self.mpr rfl

/-- **What came with the body is the body.**  A read has to end where the body does, and the
body has to be valid text.  Behind a header that is no valid text, the length is not seen, and
the body is what came with the header. -/
def Alone (reads : List (List UInt8)) (head : List UInt8) (n : ℕ) : Prop :=
  if (fromUtf8 head).isSome then
    (∃ j, (reads.take j).flatten.length = head.length + n) ∧
      (fromUtf8 (declaredBody reads.flatten head n)).isSome
  else utf8 (fromUtf8Lossy ((arrived reads head n).drop head.length)) =
    declaredBody reads.flatten head n

section Body

variable {reads : List (List UInt8)} {head : List UInt8} {n : ℕ}

/-- The body that is handed on, if the header is valid text. -/
theorem body_eq_iff (h : Declares reads.flatten head n) (hvalid : (fromUtf8 head).isSome)
    {k : ℕ} (hlong : head.length + n ≤ (reads.take k).flatten.length)
    (hfirst : ∀ j, head.length + n ≤ (reads.take j).flatten.length → k ≤ j) :
    utf8 (String.ofList (requestBody (requestText (reads.take k).flatten))) =
        declaredBody reads.flatten head n ↔ Alone reads head n := by
  have hpre := flatten_take_isPrefix reads k
  have hbody := h.requestBody_eq hpre (by omega)
  -- what was read behind the header is the declared body and what came with it
  have htake : declaredBody reads.flatten head n =
      ((reads.take k).flatten.drop head.length).take n := by
    obtain ⟨rest, hrest⟩ := hpre
    rw [declaredBody, ← hrest, List.drop_append_of_le_length (by omega),
      List.take_append_of_le_length (by rw [List.length_drop]; omega)]
  have hsplit : (reads.take k).flatten.drop head.length =
      declaredBody reads.flatten head n ++ (reads.take k).flatten.drop (head.length + n) := by
    rw [htake, ← List.drop_drop, List.take_append_drop]
  rw [hbody, hsplit, utf8_lossyText_append_iff, Alone, if_pos hvalid]
  refine and_congr_left fun _ => ⟨fun hnil => ⟨k, ?_⟩, ?_⟩
  · exact le_antisymm (List.drop_eq_nil_iff.mp hnil) hlong
  · rintro ⟨j, hj⟩
    have hkj : (reads.take k).flatten.length ≤ (reads.take j).flatten.length := by
      have hsub : reads.take k = (reads.take j).take k := by
        rw [List.take_take, Nat.min_eq_left (hfirst j hj.ge)]
      rw [hsub]
      exact (flatten_take_isPrefix _ k).length_le
    exact List.drop_eq_nil_iff.mpr (hkj.trans hj.le)

/-- **The body of a request that is there and fits.** -/
theorem body_framed_iff (h : Declares reads.flatten head n)
    (hfits : head.length + n ≤ requestCap) (hthere : head.length + n ≤ reads.flatten.length) :
    utf8 (String.ofList (requestBody (requestText (arrived reads head n)))) =
      declaredBody reads.flatten head n ↔ Alone reads head n := by
  obtain ⟨hmin, hlong⟩ := arrived_of_fits hfits hthere
  by_cases hvalid : (fromUtf8 head).isSome
  · obtain ⟨k, hk, hfirst⟩ := arrived_eq_take reads head n
    have hseen : seenLength head n = n := if_pos hvalid
    rw [hmin, hseen] at hfirst
    rw [hk, hseen] at hlong
    rw [hk]
    exact body_eq_iff h hvalid hlong hfirst
  · rw [h.requestBody_eq (arrived_isPrefix reads head n) (by omega), Alone, if_neg hvalid]
    rfl

end Body

/-! ## Requests that change the users -/

/-- The credentials are there and are those of the guard. -/
def Authorised (env : AdminEnv) (req : Text) : Prop :=
  ∃ verify credentials, env.auth = some verify ∧ basicCredentials req = some credentials ∧
    verify credentials = true

/-- An authorised `POST /admin/users`. -/
structure PostsUser (env : AdminEnv) (req : Text) : Prop where
  authorised : Authorised env req
  method : requestMethod req = "POST".toList
  path : requestPath req = "/admin/users".toList

/-- An authorised `DELETE /admin/users/<id>`. -/
structure DeletesUser (env : AdminEnv) (req : Text) : Prop where
  authorised : Authorised env req
  method : requestMethod req = "DELETE".toList
  path : "/admin/users/".toList <+: requestPath req

/-- A body that asks for a user: a blank one, or one that gives no id or a valid one. -/
def AsksForUser (env : AdminEnv) (body : Text) : Prop :=
  Routing.trim body = [] ∨
    ∃ req, env.fromJson body = some req ∧ ∀ s, req.uuid = some s → (env.parseUserId s).isSome

/-- The id in the path of a `DELETE`. -/
def pathId (req : Text) : Text :=
  Text.trimEndMatches '/' (Text.trimStartMatches "/admin/users/".toList (requestPath req))

/-- **A request that adds a user or removes one.** -/
def ChangesUsers (env : AdminEnv) (req : Text) : Prop :=
  (PostsUser env req ∧ AsksForUser env (requestBody req)) ∨
    (DeletesUser env req ∧ (env.parseUserId (pathId req)).isSome)

section Changes

variable {env : AdminEnv} {req : Text}

theorem authorised_iff : Authorised env req ↔ authed env req = true ∧ env.auth.isSome := by
  unfold Authorised authed
  cases env.auth with
  | none => simp
  | some verify => simp [Option.any_eq_true]

/-- What is routed when the credentials are those of the guard and nothing is to be shown. -/
theorem route_of_authorised (hauth : Authorised env req)
    (hget : requestMethod req ≠ "GET".toList) :
    route env req =
      if requestMethod req = "POST".toList ∧ requestPath req = "/admin/users".toList then
        .addUser (requestBody req)
      else if requestMethod req = "DELETE".toList ∧ "/admin/users/".toList <+: requestPath req then
        .removeUser (pathId req)
      else .notFound := by
  obtain ⟨hauthed, hsome⟩ := authorised_iff.mp hauth
  have hguard : env.auth.isNone = false := by rwa [← Option.not_isSome, Bool.not_eq_false']
  unfold route
  simp only
  rw [if_neg (by rw [hauthed]; exact Bool.noConfusion), if_neg fun h => hget h.1,
    if_neg fun h => Bool.noConfusion (hguard.symm.trans h.2), if_neg fun h => hget h.1,
    if_neg (c := requestMethod req = "GET".toList) hget]
  rfl

/-- Whoever gets past both guards of the admin paths is authorised. -/
theorem authorised_of_passed (hauth : ¬ authed env req = false)
    (hforbidden : ¬ ("/admin/users".toList <+: requestPath req ∧ env.auth.isNone = true))
    (hpath : "/admin/users".toList <+: requestPath req) : Authorised env req := by
  refine authorised_iff.mpr ⟨Bool.not_eq_false _ ▸ hauth, ?_⟩
  rw [← Option.not_isNone, Bool.not_eq_true']
  exact Bool.eq_false_iff.mpr fun hnone => hforbidden ⟨hpath, hnone⟩

theorem route_eq_addUser_iff {body : Text} :
    route env req = .addUser body ↔ PostsUser env req ∧ body = requestBody req := by
  constructor
  · intro h
    unfold route at h
    simp only at h
    split_ifs at h with hauth hhealth hforbidden hlist hpost
    obtain ⟨hmethod, hpath⟩ := hpost
    exact ⟨⟨authorised_of_passed hauth hforbidden (hpath ▸ List.prefix_refl _), hmethod, hpath⟩,
      (Route.addUser.inj h).symm⟩
  · rintro ⟨⟨hauth, hmethod, hpath⟩, rfl⟩
    rw [route_of_authorised hauth (by rw [hmethod]; decide), if_pos ⟨hmethod, hpath⟩]

theorem route_eq_removeUser_iff {rawId : Text} :
    route env req = .removeUser rawId ↔ DeletesUser env req ∧ rawId = pathId req := by
  constructor
  · intro h
    unfold route at h
    simp only at h
    split_ifs at h with hauth hhealth hforbidden hlist hpost hdelete
    obtain ⟨hmethod, hpath⟩ := hdelete
    have hbelow : "/admin/users".toList <+: "/admin/users/".toList := by decide
    exact ⟨⟨authorised_of_passed hauth hforbidden (hbelow.trans hpath), hmethod, hpath⟩,
      (Route.removeUser.inj h).symm⟩
  · rintro ⟨⟨hauth, hmethod, hpath⟩, rfl⟩
    have hpost : requestMethod req ≠ "POST".toList := by
      rw [hmethod]
      decide
    rw [route_of_authorised hauth (by rw [hmethod]; decide), if_neg fun h => hpost h.1,
      if_pos ⟨hmethod, hpath⟩]

theorem addUser_eq_store_iff (env : AdminEnv) (body : Text) :
    (∃ call, addUser env body = .store call) ↔ AsksForUser env body := by
  unfold addUser AsksForUser
  by_cases hblank : Routing.trim body = []
  · rw [if_pos hblank]
    exact iff_of_true ⟨_, rfl⟩ (Or.inl hblank)
  · rw [if_neg hblank]
    cases env.fromJson body with
    | none => simp [hblank]
    | some req =>
      cases huuid : req.uuid with
      | none => simp [huuid]
      | some s => cases hparse : env.parseUserId s <;> simp [hblank, huuid, hparse]

theorem removeUser_eq_store_iff (env : AdminEnv) (rawId : Text) :
    (∃ call, removeUser env rawId = .store call) ↔ (env.parseUserId rawId).isSome := by
  unfold removeUser
  cases env.parseUserId rawId <;> simp

/-- **The store is called exactly for these.** -/
theorem serveRequest_eq_store_iff (env : AdminEnv) (raw : List UInt8) :
    (∃ call, serveRequest env raw = .store call) ↔ ChangesUsers env (requestText raw) := by
  unfold serveRequest
  constructor
  · rintro ⟨call, hcall⟩
    cases hroute : route env (requestText raw) with
    | addUser body =>
      obtain ⟨hposts, rfl⟩ := route_eq_addUser_iff.mp hroute
      rw [hroute] at hcall
      exact Or.inl ⟨hposts, (addUser_eq_store_iff env _).mp ⟨call, hcall⟩⟩
    | removeUser rawId =>
      obtain ⟨hdeletes, rfl⟩ := route_eq_removeUser_iff.mp hroute
      rw [hroute] at hcall
      exact Or.inr ⟨hdeletes, (removeUser_eq_store_iff env _).mp ⟨call, hcall⟩⟩
    | unauthorized | health | forbidden | listUsers | render | notFound =>
      rw [hroute] at hcall
      cases hcall
  · rintro (⟨hposts, hasks⟩ | ⟨hdeletes, hid⟩)
    · rw [route_eq_addUser_iff.mpr ⟨hposts, rfl⟩]
      exact (addUser_eq_store_iff env _).mpr hasks
    · rw [route_eq_removeUser_iff.mpr ⟨hdeletes, rfl⟩]
      exact (removeUser_eq_store_iff env _).mpr hid

end Changes

/-- For every call there is a store that it changes. -/
theorem exists_persist (call : StoreCall) : ∃ (records : List UserRecord) (minted : UserId)
    (now : UInt64) (candidate : List UserRecord) (reply : StoreReply),
    plan records call minted now = .persist candidate reply := by
  cases call with
  | add name uuid => exact ⟨[], List.Vector.replicate 16 0, 0, _, _, rfl⟩
  | remove uuid =>
    refine ⟨[⟨uuid, "", 0⟩], uuid, 0, [], .removed true, ?_⟩
    simp [plan]

/-! ## The result -/

/-- **The request is framed by the declared length**: the sum of the two lengths exists, the body
is what was declared, and a request that was cut short changes no list of users. -/
structure FramedByLength (env : AdminEnv) (reads : List (List UInt8)) (ending : StreamEnd)
    (head : List UInt8) (n : ℕ) : Prop where
  no_overflow : readRequest requestCap ending reads [] ≠ .overflowed
  body : head.length + n ≤ requestCap → head.length + n ≤ reads.flatten.length →
    ∃ raw, readRequest requestCap ending reads [] = .returned raw ∧
      ∀ body, route env (requestText raw) = .addUser body →
        utf8 (String.ofList body) = declaredBody reads.flatten head n
  truncated : ∀ raw, readRequest requestCap ending reads [] = .returned raw →
    CutShort reads ending raw (head.length + n) →
    ∀ call, serveRequest env raw = .store call →
      ∀ records minted now candidate reply,
        plan records call minted now ≠ .persist candidate reply

/-- The sum can be held if it is formed, nothing comes with a body, and what was read of a
request that was cut short asks for no change of the users. -/
structure Orderly (env : AdminEnv) (reads : List (List UInt8)) (ending : StreamEnd)
    (head : List UInt8) (n : ℕ) : Prop where
  summable : HeaderRead reads head → (fromUtf8 head).isSome → head.length + n < 2 ^ 64
  alone : head.length + n ≤ requestCap → head.length + n ≤ reads.flatten.length →
    PostsUser env (requestText (arrived reads head n)) → Alone reads head n
  harmless : CutShort reads ending (arrived reads head n) (head.length + n) →
    ¬ ChangesUsers env (requestText (arrived reads head n))

/-- **Admin requests are framed by their declared length exactly if** the sum can be held, nothing
comes with a body, and what was read of a request that was cut short asks for no change. -/
theorem admin_framing_iff {env : AdminEnv} {reads : List (List UInt8)} {ending : StreamEnd}
    {head : List UInt8} {n : ℕ} (h : Declares reads.flatten head n) :
    FramedByLength env reads ending head n ↔ Orderly env reads ending head n := by
  constructor
  · rintro ⟨hno, hbody, htruncated⟩
    refine ⟨(no_overflow_iff h).mp hno, fun hfits hthere hposts => ?_, fun hcut hchanges => ?_⟩
    · obtain ⟨raw, hread, hframed⟩ := hbody hfits hthere
      obtain rfl := eq_arrived h hread
      exact (body_framed_iff h hfits hthere).mp
        (hframed _ (route_eq_addUser_iff.mpr ⟨hposts, rfl⟩))
    · obtain ⟨call, hcall⟩ := (serveRequest_eq_store_iff env _).mpr hchanges
      obtain ⟨records, minted, now, candidate, reply, hplan⟩ := exists_persist call
      exact htruncated _ (hcut.readRequest_eq h hno) hcut call hcall records minted now candidate
        reply hplan
  · rintro ⟨hsum, halone, hharmless⟩
    have hno : readRequest requestCap ending reads [] ≠ .overflowed := (no_overflow_iff h).mpr hsum
    refine ⟨hno, fun hfits hthere => ?_, fun raw hread hcut call hcall => ?_⟩
    · obtain ⟨hmin, hlong⟩ := arrived_of_fits hfits hthere
      refine ⟨_, readRequest_arrived h hno (Or.inl (by rwa [hmin])), fun body hroute => ?_⟩
      obtain ⟨hposts, rfl⟩ := route_eq_addUser_iff.mp hroute
      exact (body_framed_iff h hfits hthere).mpr (halone hfits hthere hposts)
    · obtain rfl := eq_arrived h hread
      exact absurd ((serveRequest_eq_store_iff env _).mp ⟨call, hcall⟩) (hharmless hcut)

/-! ## Requests that are framed, and some that are not -/

/-- A header in front of whatever follows it. -/
theorem declares_append {text : String} {before : List UInt8} {n : ℕ}
    (hcut : cut separator (utf8 text) = some (before, []))
    (hlength : contentLength text.toList = some n) (hheld : (utf8 text).length < 2 ^ 64)
    (rest : List UInt8) : Declares (utf8 text ++ rest) (utf8 text) n := by
  refine ⟨⟨before, rest, Text.cut_append hcut rest, ?_⟩, ?_, hheld⟩
  · have hsplit := Text.eq_of_cut hcut
    rwa [List.append_nil] at hsplit
  · rwa [requestText, fromUtf8Lossy_utf8]

/-- A guard that lets everyone in, and parsers that accept nothing. -/
def openEnv : AdminEnv := ⟨some fun _ => true, fun _ => none, fun _ => none⟩

/-- The header of a `POST /admin/users` with this length. -/
def postHead (length : String) : String :=
  "POST /admin/users HTTP/1.1\r\nAuthorization: Basic x\r\nContent-Length: " ++ length ++
    "\r\n\r\n"

/-- Of two bytes, and of as many as a length can have. -/
def twoHead : List UInt8 := utf8 (postHead "2")

def hugeHead : List UInt8 := utf8 (postHead "18446744073709551615")

theorem declares_twoHead (rest : List UInt8) : Declares (twoHead ++ rest) twoHead 2 := by
  have hcut : cut separator twoHead = some (twoHead.take 69, []) := by decide +kernel
  exact declares_append hcut (by decide +kernel) (by decide +kernel) rest

/-- A body of two bytes, in two reads, and nothing behind it. -/
theorem admin_framing_iff_two :
    FramedByLength openEnv [twoHead, utf8 "[]"] .stalls twoHead 2 := by
  have hlen : twoHead.length = 73 := by decide +kernel
  have hbody : (utf8 "[]").length = 2 := by decide +kernel
  have hdecl : Declares [twoHead, utf8 "[]"].flatten twoHead 2 := declares_twoHead _
  refine (admin_framing_iff hdecl).mpr ⟨fun _ _ => by omega, fun _ _ _ => ?_, fun hcut => ?_⟩
  · rw [Alone, if_pos (by rw [twoHead, fromUtf8_utf8]; rfl)]
    refine ⟨⟨2, by simp [hbody]⟩, ?_⟩
    have htake : declaredBody [twoHead, utf8 "[]"].flatten twoHead 2 = utf8 "[]" := by
      decide +kernel
    rw [htake, fromUtf8_utf8]
    rfl
  · -- neither does the stream end, nor is the limit reached
    obtain ⟨hshort, ⟨-, hstalls⟩ | hcap⟩ := hcut
    · exact absurd rfl hstalls
    · have hlimit : requestCap = 16384 := rfl
      omega

/-- What came in one read was read. -/
theorem arrived_one (chunk : List UInt8) {head : List UInt8} {n : ℕ} (hpos : 0 < head.length) :
    arrived [chunk] head n = chunk := by
  have hcap : requestCap = 16384 := rfl
  have hnot : ¬ min requestCap (head.length + seenLength head n) ≤ ([] : List UInt8).length := by
    rw [List.length_nil]
    omega
  exact readUntil_cons hnot chunk []

/-- **Three requests that are not framed by their length.**  The largest length there is
overflows.  A byte that comes with the body `[]` belongs to it.  And a `POST` that ends behind its
header adds a user. -/
theorem admin_framing_fails :
    (Declares hugeHead hugeHead 18446744073709551615 ∧
      readRequest requestCap .stalls [hugeHead] [] = .overflowed) ∧
    (Declares (twoHead ++ utf8 "[]X") twoHead 2 ∧
      readRequest requestCap .stalls [twoHead ++ utf8 "[]X"] [] =
        .returned (twoHead ++ utf8 "[]X") ∧
      route openEnv (requestText (twoHead ++ utf8 "[]X")) = .addUser "[]X".toList) ∧
    (Declares twoHead twoHead 2 ∧
      readRequest requestCap .eof [twoHead] [] = .returned twoHead ∧
      CutShort [twoHead] .eof twoHead (73 + 2) ∧
      serveRequest openEnv twoHead = .store (.add "" none) ∧
      plan [] (.add "" none) (List.Vector.replicate 16 7) 0 =
        .persist [⟨List.Vector.replicate 16 7, "", 0⟩]
          (.added ⟨List.Vector.replicate 16 7, "", 0⟩)) := by
  have hmax : cut separator hugeHead = some (hugeHead.take 88, []) := by decide +kernel
  have hdecl := declares_append hmax (n := 18446744073709551615) (by decide +kernel)
    (by decide +kernel) []
  have htwo := declares_twoHead []
  have hextra := declares_twoHead (utf8 "[]X")
  rw [List.append_nil] at hdecl htwo
  have hlen : twoHead.length = 73 := by decide +kernel
  have hlen' : (twoHead ++ utf8 "[]X").length = 76 := by decide +kernel
  have hlong : hugeHead.length = 92 := by decide +kernel
  have hseen : seenLength twoHead 2 = 2 := seenLength_utf8 _ 2
  have hcap : requestCap = 16384 := rfl
  -- a request of one read that declares two bytes is returned, once there is enough or the end
  have hone : ∀ {chunk : List UInt8} {ending : StreamEnd},
      Declares chunk twoHead 2 → 75 ≤ chunk.length ∨ ending ≠ .stalls →
      readRequest requestCap ending [chunk] [] = .returned chunk := by
    intro chunk ending hchunk hend
    have hflat : Declares [chunk].flatten twoHead 2 := by rwa [List.flatten_singleton]
    have hgot : arrived [chunk] twoHead 2 = chunk := arrived_one chunk (by omega)
    have hno : readRequest requestCap ending [chunk] [] ≠ .overflowed :=
      (no_overflow_iff hflat).mpr fun _ _ => by omega
    have hread := readRequest_arrived hflat hno
    rw [hgot] at hread
    exact hread (hend.imp_left fun henough => by omega)
  refine ⟨⟨hdecl, ?_⟩, ⟨hextra, hone hextra (Or.inl (by omega)), ?_⟩, htwo,
    hone htwo (Or.inr StreamEnd.noConfusion), ?_, ?_, rfl⟩
  · have hflat : Declares [hugeHead].flatten hugeHead 18446744073709551615 := by
      rwa [List.flatten_singleton]
    refine (overflowed_iff hflat).mpr ⟨?_, ?_⟩
    · have hnot : ¬ min requestCap hugeHead.length ≤ ([] : List UInt8).length := by
        rw [List.length_nil]
        omega
      rw [HeaderRead, readUntil_cons hnot]
      exact le_rfl
    · have hfull : seenLength hugeHead 18446744073709551615 = _ := seenLength_utf8 _ _
      omega
  · rw [requestText, twoHead, ← utf8_append, fromUtf8Lossy_utf8]
    decide +kernel
  · rw [CutShort, List.flatten_singleton, hlen]
    exact ⟨by decide, Or.inl ⟨by decide, StreamEnd.noConfusion⟩⟩
  · rw [serveRequest, requestText, twoHead, fromUtf8Lossy_utf8]
    decide +kernel

end Server
end HoldTheDonut
