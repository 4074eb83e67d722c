import Mathlib.Data.List.DropRight
import Mathlib.Data.List.Induction
import HoldTheDonut.Vision.Downlink

/-!
# The cipher that is not spliced

`FilterState::filter` looks at up to eight buffers for a ServerHello and for the bytes that
make it one of TLS 1.3, and enables the splice when it finds them, "unless cipher is
`TLS_AES_128_CCM_8_SHA256`".  The cipher is read in one place only: a buffer that starts like a
ServerHello and has at least 79 bytes.  The marker may be found in a later buffer.  So the
exception is kept for a ServerHello that arrives with its first 79 bytes in one piece, and
lost otherwise: the cipher is then still zero, which is not the one to be refused.

What the filter holds after some buffers is a function of them (`inspect_going`): the cipher is
that of the last buffer with a cipher in it (`lastCipher`), and what is left of the record is
what the last buffer that starts like a ServerHello announced, less all that came since
(`recordLeft`).  With both, `ccm8_unspliced_iff` says for every ServerHello with that cipher,
every bytes behind it and every split when the splice stays off.

The lengths are the code's `i32`s; a cast wraps, and an overflow ends the program.
-/

namespace HoldTheDonut
namespace Vision

/-! ## The filter in machine arithmetic -/

/-- `n as i32`. -/
def asI32 (n : ℕ) : ℤ := (n : ℤ).bmod (2 ^ 32)

/-- The result of an `i32` operation; `none` is an overflow. -/
def checkedI32 (z : ℤ) : Option ℤ := if -2 ^ 31 ≤ z ∧ z < 2 ^ 31 then some z else none

namespace FilterState

def readVersionsChecked (f : FilterState) (b : List UInt8) : Option FilterState :=
  if 0 < f.remainingServerHello then
    let window := b.take (min f.remainingServerHello.toNat b.length)
    (checkedI32 (f.remainingServerHello - asI32 b.length)).map fun left =>
      let f := { f with remainingServerHello := left }
      if contains window tls13SupportedVersions then
        { f with
          enableXtls := f.enableXtls || decide (f.cipher ≠ tlsAes128Ccm8Sha256)
          numberToFilter := 0 }
      else if left ≤ 0 then { f with numberToFilter := 0 }
      else f
  else some f

def filterChecked (f : FilterState) (b : List UInt8) : Option FilterState :=
  (checkedI32 (f.numberToFilter - 1)).bind fun n =>
    (readHello { f with numberToFilter := n } b).readVersionsChecked b

/-- The guarded call. -/
def observeChecked (f : FilterState) (b : List UInt8) : Option FilterState :=
  if 0 < f.numberToFilter then f.filterChecked b else some f

end FilterState

/-- One buffer after the other, from the default state. -/
def inspect (bs : List (List UInt8)) : Option FilterState :=
  bs.foldlM FilterState.observeChecked FilterState.initial

theorem asI32_of_lt {n : ℕ} (h : n < 2 ^ 31) : asI32 n = n :=
  Int.bmod_eq_of_le (by omega) (by omega)

theorem asI32_lt (n : ℕ) : asI32 n < 2 ^ 31 := by
  have h := Int.bmod_lt (x := (n : ℤ)) (m := 2 ^ 32) (by decide)
  unfold asI32
  omega

theorem checkedI32_of_range {z : ℤ} (hlo : -2 ^ 31 ≤ z) (hhi : z < 2 ^ 31) :
    checkedI32 z = some z := if_pos ⟨hlo, hhi⟩

theorem inspect_concat (p : List (List UInt8)) (b : List UInt8) :
    inspect (p ++ [b]) = (inspect p).bind (FilterState.observeChecked · b) := by
  unfold inspect
  rw [List.foldlM_append]
  cases hp : List.foldlM FilterState.observeChecked FilterState.initial p with
  | none => rfl
  | some f =>
    show List.foldlM FilterState.observeChecked f [b] = f.observeChecked b
    rw [List.foldlM_cons]
    exact bind_pure _

/-! ## What a buffer says -/

/-- The buffer starts like a ServerHello. -/
def Opens (b : List UInt8) : Prop :=
  6 ≤ b.length ∧ b.take 3 = tlsServerHsStart ∧ b.getD 5 0 = tlsHsTypeServerHello

instance : DecidablePred Opens := fun _ => inferInstanceAs (Decidable (_ ∧ _ ∧ _))

/-- The length of the record it starts, the header included. -/
def announced (b : List UInt8) : ℤ := be16 (b.getD 3 0) (b.getD 4 0) + 5

/-- The buffer starts like a ServerHello and reaches behind its cipher, as far as the code
looks for one. -/
def ShowsCipher (b : List UInt8) : Prop :=
  Opens b ∧ (79 ≤ b.length ∧ 79 ≤ announced b) ∧ 43 + (b.getD 43 0).toNat + 3 ≤ b.length

instance : DecidablePred ShowsCipher := fun _ => inferInstanceAs (Decidable (_ ∧ (_ ∧ _) ∧ _))

/-- The cipher, behind the session id. -/
def cipherOf (b : List UInt8) : ℕ :=
  be16 (b.getD (43 + (b.getD 43 0).toNat + 1) 0) (b.getD (43 + (b.getD 43 0).toNat + 2) 0)

/-- The cipher of the last buffer that shows one. -/
def lastCipher (bs : List (List UInt8)) : Option ℕ :=
  ((bs.filter ShowsCipher).getLast?).map cipherOf

/-- The last buffer that starts like a ServerHello. -/
def opener (bs : List (List UInt8)) : List UInt8 :=
  (bs.rdropWhile fun b => ¬ Opens b).getLastD []

/-- What is left of the record the last opener announced, behind all the buffers. -/
def recordLeft (bs : List (List UInt8)) : ℤ :=
  announced (opener bs) - asI32 (opener bs).length -
    ((bs.rtakeWhile fun b => ¬ Opens b).map fun b => asI32 b.length).sum

/-- The last buffer shows the marker of TLS 1.3, in what it holds of that record. -/
def ShowsMarker (bs : List (List UInt8)) : Prop :=
  contains ((bs.getLastD []).take (recordLeft bs + asI32 (bs.getLastD []).length).toNat)
    tls13SupportedVersions = true

instance : DecidablePred ShowsMarker := fun _ => inferInstanceAs (Decidable (_ = true))

/-- The record goes on behind the buffers, and the marker has not been in the last of them. -/
def Goes (bs : List (List UInt8)) : Prop :=
  ¬ ShowsMarker bs ∧ 0 < recordLeft bs ∧ recordLeft bs < 2 ^ 31

/-- The last of these buffers, one of the first eight, is the first with the marker. -/
structure FirstMarker (bs p : List (List UInt8)) : Prop where
  initial : p <+: bs
  count : p.length ≤ 8
  marker : ShowsMarker p
  range : recordLeft p < 2 ^ 31
  before : ∀ q, q <+: p → q ≠ p → q ≠ [] → Goes q

section Reading

variable (bs : List (List UInt8)) {b : List UInt8}

theorem lastCipher_concat : lastCipher (bs ++ [b]) =
    if ShowsCipher b then some (cipherOf b) else lastCipher bs := by
  unfold lastCipher
  rw [List.filter_append]
  split
  · next h => simp [h]
  · next h => simp [h]

theorem recordLeft_of_opens (h : Opens b) :
    recordLeft (bs ++ [b]) = announced b - asI32 b.length := by
  unfold recordLeft opener
  rw [List.rdropWhile_concat_neg _ _ _ (by simpa using h),
    List.rtakeWhile_concat_neg _ _ _ (by simpa using h), List.getLastD_concat, List.map_nil,
    List.sum_nil, sub_zero]

theorem recordLeft_of_not_opens (h : ¬ Opens b) :
    recordLeft (bs ++ [b]) = recordLeft bs - asI32 b.length := by
  unfold recordLeft opener
  rw [List.rdropWhile_concat_pos _ _ _ (by simpa using h),
    List.rtakeWhile_concat_pos _ _ _ (by simpa using h), List.map_append, List.sum_append,
    List.map_singleton, List.sum_singleton, sub_add_eq_sub_sub]

end Reading

theorem announced_pos (b : List UInt8) : 0 < announced b := by
  unfold announced
  omega

theorem announced_lt (b : List UInt8) : announced b < 2 ^ 31 := by
  have h := be16_lt (b.getD 3 0) (b.getD 4 0)
  unfold announced
  omega

/-! ## One call -/

namespace FilterState

variable (f : FilterState) (b : List UInt8)

theorem readCipher_eq : f.readCipher b = { f with
    cipher := if (79 ≤ b.length ∧ 79 ≤ f.remainingServerHello) ∧
      43 + (b.getD 43 0).toNat + 3 ≤ b.length then cipherOf b else f.cipher } := by
  unfold readCipher
  by_cases hlong : 79 ≤ b.length ∧ 79 ≤ f.remainingServerHello
  · rw [if_pos hlong]
    by_cases hfits : 43 + (b.getD 43 0).toNat + 3 ≤ b.length
    · have hboth := And.intro hlong hfits
      simp only [if_pos hfits, if_pos hboth, cipherOf]
    · have hneither := fun h : (79 ≤ b.length ∧ 79 ≤ f.remainingServerHello) ∧ _ => hfits h.2
      simp only [if_neg hfits, if_neg hneither]
  · have hneither := fun h : (79 ≤ b.length ∧ 79 ≤ f.remainingServerHello) ∧
      43 + (b.getD 43 0).toNat + 3 ≤ b.length => hlong h.1
    rw [if_neg hlong, if_neg hneither]

/-- What the first half of the filter does to the parts that matter for the splice. -/
theorem readHello_spec : (f.readHello b).numberToFilter = f.numberToFilter ∧
    (f.readHello b).enableXtls = f.enableXtls ∧
    (f.readHello b).cipher = (if ShowsCipher b then cipherOf b else f.cipher) ∧
    (f.readHello b).remainingServerHello =
      if Opens b then announced b else f.remainingServerHello := by
  unfold readHello
  by_cases hopens : Opens b
  · have hcipher : ((79 ≤ b.length ∧ 79 ≤ announced b) ∧
        43 + (b.getD 43 0).toNat + 3 ≤ b.length) ↔ ShowsCipher b :=
      ⟨fun h => ⟨hopens, h⟩, fun h => h.2⟩
    rw [if_pos hopens.1, if_pos hopens.2, readCipher_eq, if_pos hopens]
    refine ⟨rfl, rfl, ?_, rfl⟩
    exact if_congr hcipher rfl rfl
  · have hcipher : ¬ ShowsCipher b := fun h => hopens h.1
    rw [if_neg hopens, if_neg hcipher]
    split
    · next hlen =>
      rw [if_neg fun h => hopens ⟨hlen, h⟩]
      split <;> exact ⟨rfl, rfl, rfl, rfl⟩
    · exact ⟨rfl, rfl, rfl, rfl⟩

variable {f b} in
theorem readHello_lt (h : f.remainingServerHello < 2 ^ 31) :
    (f.readHello b).remainingServerHello < 2 ^ 31 := by
  rw [(readHello_spec f b).2.2.2]
  split
  · exact announced_lt b
  · exact h

/-- **The machine arithmetic changes nothing** for buffers below two gigabytes. -/
theorem observeChecked_eq (hb : b.length < 2 ^ 31) (hleft : f.remainingServerHello < 2 ^ 31)
    (hn : f.numberToFilter < 2 ^ 31) : f.observeChecked b = some (f.observe b) := by
  unfold observeChecked observe
  split
  · next hpos =>
    unfold filterChecked filter
    rw [checkedI32_of_range (by omega) (by omega), Option.bind_some]
    have hg : (readHello { f with numberToFilter := f.numberToFilter - 1 } b).remainingServerHello <
      2 ^ 31 := readHello_lt hleft
    generalize readHello { f with numberToFilter := f.numberToFilter - 1 } b = g at hg
    unfold readVersionsChecked readVersions
    split
    · next hlive =>
      rw [asI32_of_lt hb, checkedI32_of_range (by omega) (by omega), Option.map_some]
    · rfl
  · rfl

variable {f} in
/-- A call leaves both numbers where the next one does not overflow. -/
theorem observe_lt (hleft : f.remainingServerHello < 2 ^ 31) (hn : f.numberToFilter < 2 ^ 31) :
    (f.observe b).remainingServerHello < 2 ^ 31 ∧ (f.observe b).numberToFilter < 2 ^ 31 := by
  unfold observe
  split
  · unfold filter
    have hg : (readHello { f with numberToFilter := f.numberToFilter - 1 } b).remainingServerHello <
      2 ^ 31 := readHello_lt hleft
    have hcount := (readHello_spec { f with numberToFilter := f.numberToFilter - 1 } b).1
    generalize readHello { f with numberToFilter := f.numberToFilter - 1 } b = g at hg hcount
    have hg' : g.numberToFilter < 2 ^ 31 := by
      rw [hcount]
      exact (sub_lt_self _ one_pos).trans hn
    have hless : g.remainingServerHello - b.length < 2 ^ 31 := by omega
    have hzero : (0 : ℤ) < 2 ^ 31 := by decide
    unfold readVersions
    split
    · dsimp only
      split
      · exact ⟨hless, hzero⟩
      · split
        · exact ⟨hless, hzero⟩
        · exact ⟨hless, hg'⟩
    · exact ⟨hg, hg'⟩
  · exact ⟨hleft, hn⟩

end FilterState

/-- **The filter never overflows**: over any buffers below two gigabytes, in any order, the
machine arithmetic of every call is that of the integers. -/
theorem inspect_eq_foldl (bs : List (List UInt8)) (h : ∀ b ∈ bs, b.length < 2 ^ 31) :
    inspect bs = some (bs.foldl FilterState.observe FilterState.initial) := by
  -- from any state in range, since the first buffer leaves one
  suffices hfrom : ∀ f : FilterState, f.remainingServerHello < 2 ^ 31 →
      f.numberToFilter < 2 ^ 31 →
      bs.foldlM FilterState.observeChecked f = some (bs.foldl FilterState.observe f) from
    hfrom _ (by decide) (by decide)
  induction bs with
  | nil => exact fun _ _ _ => rfl
  | cons b bs ih =>
    intro f hleft hn
    obtain ⟨hb, hbs⟩ := List.forall_mem_cons.mp h
    obtain ⟨hleft', hn'⟩ := FilterState.observe_lt b hleft hn
    rw [List.foldlM_cons, FilterState.observeChecked_eq f b hb hleft hn]
    exact ih hbs _ hleft' hn'

theorem inspect_eq_foldl_hello :
    inspect [[22, 3, 3, 0, 80, 2], [0, 43, 0, 2, 3, 4]] =
      some ([[22, 3, 3, 0, 80, 2], [0, 43, 0, 2, 3, 4]].foldl FilterState.observe
        FilterState.initial) :=
  inspect_eq_foldl _ (by simp)

/-! ## From buffer to buffer -/

/-- The filter has seen the buffers and is still looking. -/
structure Holds (p : List (List UInt8)) (f : FilterState) : Prop where
  count : f.numberToFilter = 8 - p.length
  off : f.enableXtls = false
  cipher : f.cipher = (lastCipher p).getD 0
  left : p ≠ [] → f.remainingServerHello = recordLeft p

/-- **What a call can come to**, behind these buffers. -/
inductive Verdict (q : List (List UInt8)) : Option FilterState → Prop
  | overflow (range : 2 ^ 31 ≤ recordLeft q) : Verdict q none
  /-- The marker is there, and the cipher decides. -/
  | marker {f : FilterState} (range : recordLeft q < 2 ^ 31) (shows : ShowsMarker q)
      (count : f.numberToFilter = 0)
      (splice : f.enableXtls = decide ((lastCipher q).getD 0 ≠ tlsAes128Ccm8Sha256)) :
    Verdict q (some f)
  /-- The record is over. -/
  | passed {f : FilterState} (shows : ¬ ShowsMarker q) (left : recordLeft q ≤ 0)
      (count : f.numberToFilter = 0) (off : f.enableXtls = false) : Verdict q (some f)
  | goes {f : FilterState} (goes : Goes q) (holds : Holds q f) : Verdict q (some f)

section Step

variable {p : List (List UInt8)} {f : FilterState} {b : List UInt8}

theorem holds_initial : Holds [] FilterState.initial := ⟨rfl, rfl, rfl, fun h => absurd rfl h⟩

/-- What the call finds left of the record. -/
theorem Holds.window (hf : Holds p f) (hopen : p = [] → Opens b) :
    (if Opens b then announced b else f.remainingServerHello) =
      recordLeft (p ++ [b]) + asI32 b.length := by
  split
  · next h => rw [recordLeft_of_opens p h, Int.sub_add_cancel]
  · next h => rw [recordLeft_of_not_opens p h, Int.sub_add_cancel, hf.left fun hp => h (hopen hp)]

/-- The second half of a call. -/
theorem verdict_readVersionsChecked {q : List (List UInt8)} {g : FilterState}
    (hlast : q.getLastD [] = b) (hpos : 0 < g.remainingServerHello)
    (hleft : g.remainingServerHello = recordLeft q + asI32 b.length)
    (hcount : g.numberToFilter = 8 - q.length) (hoff : g.enableXtls = false)
    (hcipher : g.cipher = (lastCipher q).getD 0) : Verdict q (g.readVersionsChecked b) := by
  have hsub : g.remainingServerHello - asI32 b.length = recordLeft q := by omega
  have hmin : b.take (min g.remainingServerHello.toNat b.length) =
      (q.getLastD []).take (recordLeft q + asI32 (q.getLastD []).length).toNat := by
    rw [← List.take_eq_take_min, hlast, ← hleft]
  have hlo : -2 ^ 31 ≤ recordLeft q := by
    have hlt := asI32_lt b.length
    omega
  unfold FilterState.readVersionsChecked
  rw [if_pos hpos, hsub]
  simp only [hmin]
  by_cases hrange : recordLeft q < 2 ^ 31
  · rw [checkedI32_of_range hlo hrange, Option.map_some]
    by_cases hshows : ShowsMarker q
    · rw [if_pos (show contains _ _ = true from hshows)]
      refine .marker hrange hshows rfl ?_
      show (g.enableXtls || decide (g.cipher ≠ tlsAes128Ccm8Sha256)) = _
      rw [hoff, hcipher, Bool.false_or]
    · rw [if_neg (show ¬ contains _ _ = true from hshows)]
      by_cases hover : recordLeft q ≤ 0
      · rw [if_pos hover]
        exact .passed hshows hover rfl hoff
      · rw [if_neg hover]
        exact .goes ⟨hshows, Int.not_le.mp hover, hrange⟩ ⟨hcount, hoff, hcipher, fun _ => rfl⟩
  · rw [checkedI32, if_neg fun h => hrange h.2, Option.map_none]
    exact .overflow (Int.not_lt.mp hrange)

theorem Holds.verdict (hf : Holds p f) (hcount : p.length < 8) (hopen : p = [] → Opens b)
    (hgoes : p ≠ [] → Goes p) : Verdict (p ++ [b]) (f.observeChecked b) := by
  have hn := hf.count
  have hcheck : checkedI32 (f.numberToFilter - 1) = some (f.numberToFilter - 1) :=
    checkedI32_of_range (by omega) (by omega)
  obtain ⟨hnumber, hoff, hcipher, hleft⟩ :=
    FilterState.readHello_spec { f with numberToFilter := f.numberToFilter - 1 } b
  unfold FilterState.observeChecked FilterState.filterChecked
  rw [if_pos (by omega), hcheck, Option.bind_some]
  refine verdict_readVersionsChecked List.getLastD_concat ?_ ?_ ?_ ?_ ?_
  · rw [hleft]
    split
    · exact announced_pos b
    · next h =>
      have hne : p ≠ [] := fun hp => h (hopen hp)
      show 0 < f.remainingServerHello
      rw [hf.left hne]
      exact (hgoes hne).2.1
  · rw [hleft]
    exact hf.window hopen
  · rw [hnumber, List.length_append, List.length_singleton]
    show f.numberToFilter - 1 = _
    omega
  · rw [hoff]
    exact hf.off
  · rw [hcipher, lastCipher_concat]
    split
    · rfl
    · exact hf.cipher

end Step

/-! ## Whole runs -/

section Runs

variable {b₀ : List UInt8} {rest : List (List UInt8)} {p : List (List UInt8)}

/-- The first buffer read is the first buffer. -/
theorem opens_of_concat_isPrefix (hopen : Opens b₀) {b : List UInt8} (h : p ++ [b] <+: b₀ :: rest) :
    p = [] → Opens b := by
  rintro rfl
  obtain ⟨t, ht⟩ := h
  obtain ⟨rfl, -⟩ := List.cons.inj ht
  exact hopen

/-- A proper initial part of `p ++ [b]` is one of `p`. -/
theorem isPrefix_of_isPrefix_concat {q : List (List UInt8)} {b : List UInt8} (h : q <+: p ++ [b])
    (hne : q ≠ p ++ [b]) : q <+: p := by
  rcases List.prefix_concat_iff.mp h with heq | hq
  · exact absurd heq hne
  · exact hq

variable (hopen : Opens b₀)

include hopen

/-- The next call of a run that is still looking. -/
theorem Holds.verdict_inspect {f : FilterState} {b : List UInt8} (hf : Holds p f)
    (hrun : inspect p = some f) (hp : p ++ [b] <+: b₀ :: rest) (hcount : p.length < 8)
    (hgoes : ∀ q, q <+: p → q ≠ [] → Goes q) : Verdict (p ++ [b]) (inspect (p ++ [b])) := by
  rw [inspect_concat, hrun, Option.bind_some]
  exact hf.verdict hcount (opens_of_concat_isPrefix hopen hp) (hgoes p (List.prefix_refl p))

/-- **As long as the record goes on without the marker**, the filter holds what the buffers
say. -/
theorem inspect_going (hp : p <+: b₀ :: rest) (hcount : p.length ≤ 8)
    (hgoes : ∀ q, q <+: p → q ≠ [] → Goes q) : ∃ f, inspect p = some f ∧ Holds p f := by
  induction p using List.reverseRecOn with
  | nil => exact ⟨_, rfl, holds_initial⟩
  | append_singleton p b ih =>
    rw [List.length_append, List.length_singleton] at hcount
    have hpre : p <+: p ++ [b] := List.prefix_append p [b]
    have hgoes' : ∀ q, q <+: p → q ≠ [] → Goes q := fun q hq => hgoes q (hq.trans hpre)
    obtain ⟨f, hrun, hf⟩ := ih (hpre.trans hp) (by omega) hgoes'
    have hv := hf.verdict_inspect hopen hrun hp (by omega) hgoes'
    obtain ⟨hshows, hleft, hrange⟩ := hgoes _ (List.prefix_refl _) (by simp)
    generalize inspect (p ++ [b]) = r at hv
    cases hv with
    | overflow range => exact absurd hrange (Int.not_lt.mpr range)
    | marker _ shows _ _ => exact absurd shows hshows
    | passed _ left _ _ => exact absurd hleft (Int.not_lt.mpr left)
    | goes _ holds => exact ⟨_, rfl, holds⟩

/-- The cipher decides at the first marker. -/
theorem FirstMarker.inspect_eq {q : List (List UInt8)} (h : FirstMarker (b₀ :: rest) q) :
    ∃ f, inspect q = some f ∧
      f.enableXtls = decide ((lastCipher q).getD 0 ≠ tlsAes128Ccm8Sha256) := by
  obtain ⟨p, b, rfl⟩ : ∃ p b, q = p ++ [b] := by
    rcases List.eq_nil_or_concat q with rfl | ⟨p, b, rfl⟩
    · exact absurd h.marker (by decide)
    · exact ⟨p, b, List.concat_eq_append⟩
  have hpre : p <+: p ++ [b] := List.prefix_append p [b]
  have hcount := h.count
  rw [List.length_append, List.length_singleton] at hcount
  have hgoes : ∀ q, q <+: p → q ≠ [] → Goes q := by
    refine fun q hq => h.before q (hq.trans hpre) fun heq => ?_
    have hle := hq.length_le
    rw [heq, List.length_append, List.length_singleton] at hle
    omega
  obtain ⟨f, hrun, hf⟩ := inspect_going hopen (hpre.trans h.initial) (by omega) hgoes
  have hv := hf.verdict_inspect hopen hrun h.initial (by omega) hgoes
  generalize inspect (p ++ [b]) = r at hv
  cases hv with
  | overflow range => exact absurd h.range (Int.not_lt.mpr range)
  | marker _ _ _ splice => exact ⟨_, rfl, splice⟩
  | passed shows _ _ _ => exact absurd h.marker shows
  | goes hgo _ => exact absurd h.marker hgo.1

/-- One more buffer does not bring the splice, if the cipher is known at the first marker. -/
theorem inspect_stays_off
    (hcipher : ∀ p, FirstMarker (b₀ :: rest) p → (lastCipher p).getD 0 = tlsAes128Ccm8Sha256)
    {b : List UInt8} (hp : p ++ [b] <+: b₀ :: rest) (hcount : p.length < 8)
    (hgoes : ∀ q, q <+: p → q ≠ [] → Goes q) :
    inspect (p ++ [b]) = none ∨ (∀ q, q <+: p ++ [b] → q ≠ [] → Goes q) ∨
      ∃ f, inspect (p ++ [b]) = some f ∧ f.numberToFilter ≤ 0 ∧ f.enableXtls = false := by
  obtain ⟨f, hrun, hf⟩ :=
    inspect_going hopen ((List.prefix_append p [b]).trans hp) hcount.le hgoes
  have hv := hf.verdict_inspect hopen hrun hp hcount hgoes
  cases hr : inspect (p ++ [b]) with
  | none => exact .inl rfl
  | some f' =>
    rw [hr] at hv
    cases hv with
    | marker range shows count splice =>
      have hfirst : FirstMarker (b₀ :: rest) (p ++ [b]) :=
        ⟨hp, by rw [List.length_append, List.length_singleton]; omega, shows, range,
          fun q hq hne => hgoes q (isPrefix_of_isPrefix_concat hq hne)⟩
      refine .inr (.inr ⟨f', rfl, count.le, ?_⟩)
      rw [splice, hcipher _ hfirst]
      rfl
    | passed _ _ count off => exact .inr (.inr ⟨f', rfl, count.le, off⟩)
    | goes hgo _ =>
      refine .inr (.inl fun q hq hne => ?_)
      by_cases heq : q = p ++ [b]
      · exact heq ▸ hgo
      · exact hgoes q (isPrefix_of_isPrefix_concat hq heq) hne

/-- How a run stands: stopped by an overflow, still looking, or done without the splice. -/
theorem inspect_cases
    (hcipher : ∀ p, FirstMarker (b₀ :: rest) p → (lastCipher p).getD 0 = tlsAes128Ccm8Sha256)
    (hp : p <+: b₀ :: rest) :
    inspect p = none ∨ (p.length ≤ 8 ∧ ∀ q, q <+: p → q ≠ [] → Goes q) ∨
      ∃ f, inspect p = some f ∧ f.numberToFilter ≤ 0 ∧ f.enableXtls = false := by
  induction p using List.reverseRecOn with
  | nil => exact .inr (.inl ⟨Nat.zero_le _, fun q hq hne => absurd (List.prefix_nil.mp hq) hne⟩)
  | append_singleton p b ih =>
    have hpre : p <+: p ++ [b] := List.prefix_append p [b]
    -- without a packet left the filter is not called
    have hidle : ∀ {f : FilterState}, inspect p = some f → f.numberToFilter ≤ 0 →
        inspect (p ++ [b]) = some f := by
      intro f hrun hn
      rw [inspect_concat, hrun, Option.bind_some]
      exact if_neg (Int.not_lt.mpr hn)
    rcases ih (hpre.trans hp) with hnone | ⟨hcount, hgoes⟩ | ⟨f, hrun, hn, hoff⟩
    · left
      rw [inspect_concat, hnone]
      rfl
    · by_cases hfull : p.length < 8
      · refine (inspect_stays_off hopen hcipher hp hfull hgoes).imp_right (Or.imp_left ?_)
        exact fun h => ⟨by rw [List.length_append, List.length_singleton]; omega, h⟩
      · obtain ⟨f, hrun, hf⟩ := inspect_going hopen (hpre.trans hp) hcount hgoes
        have hn := hf.count
        exact .inr (.inr ⟨f, hidle hrun (by omega), by omega, hf.off⟩)
    · exact .inr (.inr ⟨f, hidle hrun hn, hn, hoff⟩)

/-- **When the splice stays off**, for buffers of which the first starts like a ServerHello. -/
theorem splice_off_iff :
    (∀ p, p <+: b₀ :: rest → ∀ f, inspect p = some f → f.enableXtls = false) ↔
      ∀ p, FirstMarker (b₀ :: rest) p → (lastCipher p).getD 0 = tlsAes128Ccm8Sha256 := by
  constructor
  · intro h q hq
    obtain ⟨f, hrun, hsplice⟩ := hq.inspect_eq hopen
    have hoff := h q hq.initial f hrun
    rw [hsplice, decide_eq_false_iff_not] at hoff
    exact not_not.mp hoff
  · intro h p hp f hrun
    rcases inspect_cases hopen h hp with hnone | ⟨hcount, hgoes⟩ | ⟨f', hrun', -, hoff⟩
    · rw [hnone] at hrun
      cases hrun
    · obtain ⟨f', hrun', hf⟩ := inspect_going hopen hp hcount hgoes
      obtain rfl := Option.some.inj (hrun.symm.trans hrun')
      exact hf.off
    · obtain rfl := Option.some.inj (hrun.symm.trans hrun')
      exact hoff

end Runs

/-! ## A ServerHello of TLS 1.3 -/

/-- An extension: its type, its length and its data. -/
def encodeExtension (e : ℕ × List UInt8) : List UInt8 :=
  hi8 e.1 :: lo8 e.1 :: hi8 e.2.length :: lo8 e.2.length :: e.2

/-- What is behind the cipher: the compression method and the extensions. -/
def helloBack (extensions : List (ℕ × List UInt8)) : List UInt8 :=
  0x00 :: hi8 (extensions.flatMap encodeExtension).length ::
    lo8 (extensions.flatMap encodeExtension).length :: extensions.flatMap encodeExtension

/-- The message behind its type and length. -/
def helloBody (random : Octets 32) (sessionId : List UInt8) (cipher : ℕ)
    (extensions : List (ℕ × List UInt8)) : List UInt8 :=
  0x03 :: 0x03 :: (random.toList ++ UInt8.ofNat sessionId.length :: (sessionId ++
    hi8 cipher :: lo8 cipher :: helloBack extensions))

/-- A well-formed ServerHello of TLS 1.3 in a record of its own, of 74 bytes at least. -/
structure ServerHello13 where
  random : Octets 32
  sessionId : List UInt8
  cipher : ℕ
  extensions : List (ℕ × List UInt8)
  sessionId_le : sessionId.length ≤ 32
  cipher_lt : cipher < 2 ^ 16
  extension_lt : ∀ e ∈ extensions, e.1 < 2 ^ 16 ∧ e.2.length < 2 ^ 16
  /-- `supported_versions` is TLS 1.3. -/
  versions : (0x2b, [0x03, 0x04]) ∈ extensions
  record_ge : 74 ≤ (helloBody random sessionId cipher extensions).length + 4
  record_lt : (helloBody random sessionId cipher extensions).length + 4 < 2 ^ 16

namespace ServerHello13

variable (h : ServerHello13)

def body : List UInt8 := helloBody h.random h.sessionId h.cipher h.extensions

/-- The record, with the header of the message in it. -/
def record : List UInt8 :=
  0x16 :: 0x03 :: 0x03 :: hi8 (h.body.length + 4) :: lo8 (h.body.length + 4) ::
    0x02 :: 0x00 :: hi8 h.body.length :: lo8 h.body.length :: h.body

theorem length_record : h.record.length = h.body.length + 9 := rfl

/-- The session id and the cipher are behind the first 43 bytes. -/
theorem record_eq : ∃ front : List UInt8, front.length = 43 ∧
    h.record = front ++ UInt8.ofNat h.sessionId.length :: (h.sessionId ++
      hi8 h.cipher :: lo8 h.cipher :: helloBack h.extensions) :=
  ⟨0x16 :: 0x03 :: 0x03 :: hi8 (h.body.length + 4) :: lo8 (h.body.length + 4) ::
    0x02 :: 0x00 :: hi8 h.body.length :: lo8 h.body.length :: 0x03 :: 0x03 :: h.random.toList,
    by simp, rfl⟩

theorem getD_sessionId : (h.record.getD 43 0).toNat = h.sessionId.length := by
  obtain ⟨front, hfront, heq⟩ := h.record_eq
  rw [heq, List.getD_append_right _ _ _ _ hfront.le, hfront, Nat.sub_self, List.getD_cons_zero,
    UInt8.toNat_ofNat']
  have hle := h.sessionId_le
  omega

theorem getD_cipher : h.record.getD (43 + h.sessionId.length + 1) 0 = hi8 h.cipher ∧
    h.record.getD (43 + h.sessionId.length + 2) 0 = lo8 h.cipher := by
  obtain ⟨front, hfront, heq⟩ := h.record_eq
  have hplace : ∀ k, h.record.getD (43 + h.sessionId.length + (k + 1)) 0 =
      (hi8 h.cipher :: lo8 h.cipher :: helloBack h.extensions).getD k 0 := by
    intro k
    rw [heq, List.getD_append_right _ _ _ _ (by omega), hfront,
      show 43 + h.sessionId.length + (k + 1) - 43 = (h.sessionId.length + k) + 1 by omega,
      List.getD_cons_succ, List.getD_append_right _ _ _ _ (by omega), Nat.add_sub_cancel_left]
  exact ⟨hplace 0, hplace 1⟩

section FirstBuffer

variable {h} {b₀ more following : List UInt8} (hflat : b₀ ++ more = h.record ++ following)
include hflat

/-- The first buffer agrees with the record as far as both go. -/
theorem getD_first {i : ℕ} (hb : i < b₀.length) (hr : i < h.record.length) :
    b₀.getD i 0 = h.record.getD i 0 := by
  rw [← List.getD_append b₀ more 0 i hb, hflat, List.getD_append _ _ _ _ hr]

theorem opens_first (hsix : 6 ≤ b₀.length) : Opens b₀ := by
  have hlen := h.length_record
  refine ⟨hsix, ?_, getD_first hflat (by omega) (by omega)⟩
  have htake := congrArg (List.take 3) hflat
  rwa [List.take_append_of_le_length (by omega)] at htake

theorem announced_first (hsix : 6 ≤ b₀.length) : announced b₀ = h.body.length + 9 := by
  have hlen := h.length_record
  have hbody : h.body.length + 4 < 65536 := h.record_lt
  have hbe : be16 (b₀.getD 3 0) (b₀.getD 4 0) = h.body.length + 4 := by
    rw [getD_first hflat (by omega) (by omega), getD_first hflat (by omega) (by omega)]
    exact be16_hi8_lo8 hbody
  rw [announced, hbe]
  omega

/-- **The cipher is seen in a first buffer of 79 bytes**, and not in a shorter one. -/
theorem showsCipher_first (hsix : 6 ≤ b₀.length) : ShowsCipher b₀ ↔ 79 ≤ b₀.length := by
  refine ⟨fun hshows => hshows.2.1.1, fun hlong => ?_⟩
  have hlen := h.length_record
  have hbody : 74 ≤ h.body.length + 4 := h.record_ge
  have hsid := h.sessionId_le
  refine ⟨opens_first hflat hsix, ⟨hlong, ?_⟩, ?_⟩
  · rw [announced_first hflat hsix]
    omega
  · rw [getD_first hflat (by omega) (by omega), getD_sessionId]
    omega

theorem cipherOf_first (hlong : 79 ≤ b₀.length) : cipherOf b₀ = h.cipher := by
  have hlen := h.length_record
  have hbody : 74 ≤ h.body.length + 4 := h.record_ge
  have hsid := h.sessionId_le
  have hplace : (b₀.getD 43 0).toNat = h.sessionId.length := by
    rw [getD_first hflat (by omega) (by omega), getD_sessionId]
  rw [cipherOf, hplace, getD_first hflat (by omega) (by omega),
    getD_first hflat (by omega) (by omega), h.getD_cipher.1, h.getD_cipher.2]
  exact be16_hi8_lo8 h.cipher_lt

end FirstBuffer

end ServerHello13

/-- The cipher of a ServerHello is known: its first buffer was long enough, and no later buffer
was taken for another ServerHello, unless for one with the same cipher. -/
def CipherSeen (b₀ : List UInt8) (rest : List (List UInt8)) : Prop :=
  (lastCipher rest).elim (79 ≤ b₀.length) (· = tlsAes128Ccm8Sha256)

/-- A later cipher replaces the first. -/
theorem lastCipher_cons (b : List UInt8) (bs : List (List UInt8)) : lastCipher (b :: bs) =
    (lastCipher bs).elim (if ShowsCipher b then some (cipherOf b) else none) some := by
  induction bs using List.reverseRecOn with
  | nil => exact lastCipher_concat []
  | append_singleton bs c ih =>
    rw [← List.cons_append, lastCipher_concat, lastCipher_concat]
    split
    · rfl
    · exact ih

theorem cipherSeen_iff {h : ServerHello13} (hcipher : h.cipher = tlsAes128Ccm8Sha256)
    {b₀ more following : List UInt8} (hflat : b₀ ++ more = h.record ++ following)
    (hsix : 6 ≤ b₀.length) (rest : List (List UInt8)) :
    (lastCipher (b₀ :: rest)).getD 0 = tlsAes128Ccm8Sha256 ↔ CipherSeen b₀ rest := by
  unfold CipherSeen
  rw [lastCipher_cons]
  cases lastCipher rest with
  | some c => rfl
  | none =>
    show (if ShowsCipher b₀ then some (cipherOf b₀) else none).getD 0 = _ ↔ 79 ≤ b₀.length
    by_cases hlong : 79 ≤ b₀.length
    · rw [if_pos ((ServerHello13.showsCipher_first hflat hsix).mpr hlong), Option.getD_some,
        ServerHello13.cipherOf_first hflat hlong, hcipher]
      exact iff_of_true rfl hlong
    · rw [if_neg fun hshows => hlong ((ServerHello13.showsCipher_first hflat hsix).mp hshows)]
      exact iff_of_false (by decide) hlong

/-- **When the refused cipher is not spliced.**  A ServerHello of TLS 1.3 with that cipher and
any bytes behind it arrive in buffers of six bytes at least.  The splice stays off exactly if,
at the first of the inspected buffers that shows the marker, the cipher has been seen. -/
theorem ccm8_unspliced_iff (h : ServerHello13) (hcipher : h.cipher = tlsAes128Ccm8Sha256)
    (following : List UInt8) (bs : List (List UInt8))
    (hflat : bs.flatten = h.record ++ following) (hsix : ∀ b ∈ bs, 6 ≤ b.length) :
    (∀ p, p <+: bs → ∀ f, inspect p = some f → f.enableXtls = false) ↔
      ∀ b₀ rest, FirstMarker bs (b₀ :: rest) → CipherSeen b₀ rest := by
  cases bs with
  | nil => cases hflat
  | cons b₀ bs =>
    rw [List.flatten_cons] at hflat
    have hfirst : 6 ≤ b₀.length := hsix b₀ List.mem_cons_self
    rw [splice_off_iff (ServerHello13.opens_first hflat hfirst)]
    constructor
    · intro hseen b₁ rest hmarker
      obtain ⟨rfl, -⟩ : b₁ = b₀ ∧ rest <+: bs := List.cons_prefix_cons.mp hmarker.initial
      exact (cipherSeen_iff hcipher hflat hfirst rest).mp (hseen _ hmarker)
    · intro hseen p hmarker
      cases p with
      | nil => exact absurd hmarker.marker (by decide)
      | cons b₁ rest =>
        obtain ⟨rfl, -⟩ : b₁ = b₀ ∧ rest <+: bs := List.cons_prefix_cons.mp hmarker.initial
        exact (cipherSeen_iff hcipher hflat hfirst rest).mpr (hseen _ _ hmarker)

/-- A ServerHello in one piece. -/
theorem ccm8_unspliced_iff_whole : ∃ h : ServerHello13, h.cipher = tlsAes128Ccm8Sha256 ∧
    ((∀ p, p <+: [h.record] → ∀ f, inspect p = some f → f.enableXtls = false) ↔
      ∀ b₀ rest, FirstMarker [h.record] (b₀ :: rest) → CipherSeen b₀ rest) := by
  refine ⟨⟨List.Vector.replicate 32 0, List.replicate 32 0, 0x1305, [(0x2b, [0x03, 0x04])],
    by decide, by decide, by decide, by decide, by decide, by decide⟩, rfl, ?_⟩
  exact ccm8_unspliced_iff _ rfl [] _ (by rw [List.flatten_singleton, List.append_nil]) (by decide)

/-- **The refused cipher is spliced** if the first buffer is short: six bytes of the
ServerHello, and then the rest of it. -/
theorem ccm8_spliced_after_short_buffer : ∃ (h : ServerHello13) (b₀ b₁ : List UInt8),
    h.cipher = tlsAes128Ccm8Sha256 ∧ b₀ ++ b₁ = h.record ∧ b₀.length = 6 ∧ 6 ≤ b₁.length ∧
      (inspect [b₀, b₁]).map FilterState.enableXtls = some true :=
  ⟨⟨List.Vector.replicate 32 0, List.replicate 32 0, 0x1305, [(0x2b, [0x03, 0x04])], by decide,
      by decide, by decide, by decide, by decide, by decide⟩, _, _, rfl,
    List.take_append_drop 6 _, by decide, by decide, by decide⟩

end Vision
end HoldTheDonut
