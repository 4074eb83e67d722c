import HoldTheDonut.Core.Address

/-!
# IP literals

`str::parse::<IpAddr>()` of the Rust standard library, which this code base leans
on in three places: an endpoint is parsed with it, the resolver short-circuits on
it, and CIDR networks are written with it.

The library's parser is a cursor over bytes whose readers leave the cursor alone
when they fail.  Here a reader is a function to `Option (value × rest)`, so that a
failed reader has nothing to undo.  IPv4 is four decimal numbers of at most three
digits without leading zeros; IPv6 is eight hexadecimal groups of at most four
digits, one run of which may be written `::` and the last two of which may be an
IPv4 address.
-/

namespace HoldTheDonut
namespace IpLiteral

/-- A reader: a value and the bytes behind it. -/
abbrev Reader (α : Type) : Type := List UInt8 → Option (α × List UInt8)

/-- `char::to_digit` on a byte. -/
def toDigit (radix : ℕ) (b : UInt8) : Option ℕ :=
  let d :=
    if 48 ≤ b ∧ b ≤ 57 then some (b.toNat - 48)
    else if 97 ≤ b ∧ b ≤ 122 then some (b.toNat - 97 + 10)
    else if 65 ≤ b ∧ b ≤ 90 then some (b.toNat - 65 + 10)
    else none
  d.filter (· < radix)

/-- The digits of a number: value, count and rest.  More than `maxDigits` of them are
a failure, not a shorter number. -/
def readDigits (radix maxDigits : ℕ) : List UInt8 → ℕ → ℕ → Option ((ℕ × ℕ) × List UInt8)
  | [], value, count => some ((value, count), [])
  | b :: bs, value, count =>
    match toDigit radix b with
    | none => some ((value, count), b :: bs)
    | some d =>
      if maxDigits < count + 1 then none
      else readDigits radix maxDigits bs (value * radix + d) (count + 1)

/-- `read_number`: a non-empty run of digits whose value fits below `bound`. -/
def readNumber (radix maxDigits bound : ℕ) (allowZeroPrefix : Bool) : Reader ℕ := fun s =>
  match readDigits radix maxDigits s 0 0 with
  | none => none
  | some ((value, count), rest) =>
    if count = 0 then none
    else if allowZeroPrefix = false ∧ s.head? = some 48 ∧ 1 < count then none
    else if value < bound then some (value, rest)
    else none

def readGivenChar (target : UInt8) : Reader Unit
  | [] => none
  | b :: bs => if b = target then some ((), bs) else none

/-- `read_separator`: every item but the first is preceded by `sep`. -/
def readSeparator {α : Type} (sep : UInt8) (index : ℕ) (inner : Reader α) : Reader α := fun s =>
  if 0 < index then (readGivenChar sep s).bind fun x => inner x.2 else inner s

def readOctet (index : ℕ) : Reader ℕ := readSeparator 46 index (readNumber 10 3 256 false)

def readIpv4Addr : Reader (Octets 4) := fun s => do
  let (a, s) ← readOctet 0 s
  let (b, s) ← readOctet 1 s
  let (c, s) ← readOctet 2 s
  let (d, s) ← readOctet 3 s
  pure (Octets.fromSlice 4 [UInt8.ofNat a, UInt8.ofNat b, UInt8.ofNat c, UInt8.ofNat d], s)

/-- The loop of `read_groups`: `left` groups may still come and `index` have been read.
Returns the groups, whether they end in an IPv4 address, and the rest. -/
def readGroups : ℕ → ℕ → List UInt8 → (List ℕ × Bool) × List UInt8
  | 0, _, s => (([], false), s)
  | left + 1, index, s =>
    -- an embedded IPv4 address needs room for two groups
    match if 0 < left then readSeparator 58 index readIpv4Addr s else none with
    | some (v4, rest) =>
      let o := v4.toList
      (([be16 (o.getD 0 0) (o.getD 1 0), be16 (o.getD 2 0) (o.getD 3 0)], true), rest)
    | none =>
      match readSeparator 58 index (readNumber 16 4 65536 true) s with
      | none => (([], false), s)
      | some (g, rest) =>
        let r := readGroups left (index + 1) rest
        ((g :: r.1.1, r.1.2), r.2)

/-- Eight groups as octets. -/
def groupOctets (groups : List ℕ) : Octets 16 :=
  Octets.fromSlice 16 (groups.flatMap fun g => [hi8 g, lo8 g])

def readIpv6Addr : Reader (Octets 16) := fun s =>
  let head := readGroups 8 0 s
  if head.1.1.length = 8 then some (groupOctets head.1.1, head.2)
  else if head.1.2 then none
  else do
    let (_, s) ← readGivenChar 58 head.2
    let (_, s) ← readGivenChar 58 s
    -- `::` stands for at least one group
    let tail := readGroups (8 - (head.1.1.length + 1)) 0 s
    let zeros := List.replicate (8 - head.1.1.length - tail.1.1.length) 0
    pure (groupOctets (head.1.1 ++ zeros ++ tail.1.1), tail.2)

def readIpAddr : Reader IpAddr := fun s =>
  match readIpv4Addr s with
  | some (a, rest) => some (.v4 a, rest)
  | none => (readIpv6Addr s).map fun x => (.v6 x.1, x.2)

end IpLiteral

/-- `s.parse::<IpAddr>()`: the whole text has to be the address. -/
def parseIpAddr (s : String) : Option IpAddr :=
  match IpLiteral.readIpAddr (utf8 s) with
  | some (a, []) => some a
  | _ => none

namespace IpLiteral

/-! ## What a literal is made of -/

/-- A byte that no IP literal has in it. -/
structure Foreign (x : UInt8) : Prop where
  decimal : toDigit 10 x = none
  hex : toDigit 16 x = none
  dot : 46 ≠ x
  colon : 58 ≠ x

/-- What a reader takes off does not have the byte in it. -/
def Avoids {α : Type} (x : UInt8) (r : Reader α) : Prop :=
  ∀ s v rest, r s = some (v, rest) → ∃ used, s = used ++ rest ∧ x ∉ used

variable {x : UInt8}

/-- Taken off in two steps. -/
theorem append_not_mem {s rest used used' mid : List UInt8} (h : s = used ++ mid)
    (hused : x ∉ used) (h' : mid = used' ++ rest) (hused' : x ∉ used') :
    ∃ front, s = front ++ rest ∧ x ∉ front := by
  refine ⟨used ++ used', by rw [h, h', List.append_assoc], fun hmem => ?_⟩
  rcases List.mem_append.mp hmem with hmem | hmem
  · exact hused hmem
  · exact hused' hmem

theorem readDigits_avoids {radix maxDigits : ℕ} (hradix : toDigit radix x = none)
    {s rest : List UInt8} {value count : ℕ} {result : ℕ × ℕ}
    (h : readDigits radix maxDigits s value count = some (result, rest)) :
    ∃ used, s = used ++ rest ∧ x ∉ used := by
  induction s generalizing value count with
  | nil =>
    cases h
    exact ⟨[], rfl, List.not_mem_nil⟩
  | cons b s ih =>
    rw [readDigits] at h
    cases hdigit : toDigit radix b with
    | none =>
      rw [hdigit] at h
      cases h
      exact ⟨[], rfl, List.not_mem_nil⟩
    | some d =>
      rw [hdigit] at h
      simp only at h
      split at h
      · cases h
      · obtain ⟨used, rfl, hused⟩ := ih h
        refine ⟨b :: used, rfl, fun hmem => ?_⟩
        rcases List.mem_cons.mp hmem with hb | hmem
        · rw [← hb, hradix] at hdigit
          cases hdigit
        · exact hused hmem

theorem readNumber_avoids {radix : ℕ} (hradix : toDigit radix x = none) (maxDigits bound : ℕ)
    (allowZero : Bool) : Avoids x (readNumber radix maxDigits bound allowZero) := by
  intro s v rest h
  unfold readNumber at h
  split at h
  · cases h
  · next value count rest' hdigits =>
    obtain ⟨used, hs, hused⟩ := readDigits_avoids hradix hdigits
    split at h
    · cases h
    · split at h
      · cases h
      · split at h
        · cases h
          exact ⟨used, hs, hused⟩
        · cases h

theorem readGivenChar_avoids {target : UInt8} (h : target ≠ x) :
    Avoids x (readGivenChar target) := by
  intro s v rest hread
  cases s with
  | nil => cases hread
  | cons b s =>
    rw [readGivenChar] at hread
    split at hread
    · next hb =>
      cases hread
      exact ⟨[b], rfl, fun hmem => h (hb ▸ (List.mem_singleton.mp hmem).symm)⟩
    · cases hread

theorem readSeparator_avoids {α : Type} {sep : UInt8} (hsep : sep ≠ x) (index : ℕ)
    {inner : Reader α} (hinner : Avoids x inner) : Avoids x (readSeparator sep index inner) := by
  intro s v rest h
  unfold readSeparator at h
  split at h
  · obtain ⟨⟨_, mid⟩, hchar, hrest⟩ := Option.bind_eq_some_iff.mp h
    obtain ⟨used, hs, hused⟩ := readGivenChar_avoids hsep _ _ _ hchar
    obtain ⟨used', hmid, hused'⟩ := hinner _ _ _ hrest
    exact append_not_mem hs hused hmid hused'
  · exact hinner _ _ _ h

variable (hx : Foreign x)

include hx

theorem readOctet_avoids (index : ℕ) : Avoids x (readOctet index) :=
  readSeparator_avoids hx.dot index (readNumber_avoids hx.decimal 3 256 false)

theorem readIpv4Addr_avoids : Avoids x readIpv4Addr := by
  intro s v rest h
  unfold readIpv4Addr at h
  simp only [bind, Option.bind_eq_some_iff, pure] at h
  obtain ⟨⟨a, s₁⟩, ha, ⟨b, s₂⟩, hb, ⟨c, s₃⟩, hc, ⟨d, s₄⟩, hd, hv⟩ := h
  cases hv
  obtain ⟨u₁, h₁, hu₁⟩ := readOctet_avoids hx 0 _ _ _ ha
  obtain ⟨u₂, h₂, hu₂⟩ := readOctet_avoids hx 1 _ _ _ hb
  obtain ⟨u₃, h₃, hu₃⟩ := readOctet_avoids hx 2 _ _ _ hc
  obtain ⟨u₄, h₄, hu₄⟩ := readOctet_avoids hx 3 _ _ _ hd
  obtain ⟨v₁, h, hv₁⟩ := append_not_mem h₁ hu₁ h₂ hu₂
  obtain ⟨v₂, h, hv₂⟩ := append_not_mem h hv₁ h₃ hu₃
  exact append_not_mem h hv₂ h₄ hu₄

theorem readGroups_avoids (left index : ℕ) (s : List UInt8) :
    ∃ used, s = used ++ (readGroups left index s).2 ∧ x ∉ used := by
  induction left generalizing index s with
  | zero => exact ⟨[], rfl, List.not_mem_nil⟩
  | succ left ih =>
    rw [readGroups]
    split
    · next v4 rest hv4 =>
      split at hv4
      · exact readSeparator_avoids hx.colon index (readIpv4Addr_avoids hx) _ _ _ hv4
      · cases hv4
    · split
      · exact ⟨[], rfl, List.not_mem_nil⟩
      · next g rest hg =>
        obtain ⟨used, hs, hused⟩ := readSeparator_avoids hx.colon index
          (readNumber_avoids hx.hex 4 65536 true) _ _ _ hg
        obtain ⟨used', hrest, hused'⟩ := ih (index + 1) rest
        exact append_not_mem hs hused hrest hused'

theorem readIpv6Addr_avoids : Avoids x readIpv6Addr := by
  intro s v rest h
  obtain ⟨used, hs, hused⟩ := readGroups_avoids hx 8 0 s
  unfold readIpv6Addr at h
  simp only at h
  split at h
  · cases h
    exact ⟨used, hs, hused⟩
  · split at h
    · cases h
    · simp only [bind, Option.bind_eq_some_iff, pure] at h
      obtain ⟨⟨_, s₁⟩, hfirst, ⟨_, s₂⟩, hsecond, hv⟩ := h
      cases hv
      obtain ⟨u₁, h₁, hu₁⟩ := readGivenChar_avoids hx.colon _ _ _ hfirst
      obtain ⟨u₂, h₂, hu₂⟩ := readGivenChar_avoids hx.colon _ _ _ hsecond
      obtain ⟨u₃, h₃, hu₃⟩ := readGroups_avoids hx
        (8 - ((readGroups 8 0 s).1.1.length + 1)) 0 s₂
      obtain ⟨v₁, h, hv₁⟩ := append_not_mem hs hused h₁ hu₁
      obtain ⟨v₂, h, hv₂⟩ := append_not_mem h hv₁ h₂ hu₂
      exact append_not_mem h hv₂ h₃ hu₃

theorem readIpAddr_avoids : Avoids x readIpAddr := by
  intro s v rest h
  unfold readIpAddr at h
  split at h
  · next a rest' hv4 =>
    cases h
    exact readIpv4Addr_avoids hx _ _ _ hv4
  · obtain ⟨⟨a, rest'⟩, hv6, hparts⟩ := Option.map_eq_some_iff.mp h
    cases hparts
    exact readIpv6Addr_avoids hx _ _ _ hv6

end IpLiteral

/-- **An IP literal is made of digits, dots and colons.** -/
theorem foreign_not_mem {x : UInt8} (hx : IpLiteral.Foreign x) {s : String} {a : IpAddr}
    (h : parseIpAddr s = some a) : x ∉ utf8 s := by
  unfold parseIpAddr at h
  split at h
  · next addr hread =>
    obtain ⟨used, hs, hused⟩ := IpLiteral.readIpAddr_avoids hx _ _ _ hread
    rw [hs, List.append_nil]
    exact hused
  · cases h

/-- There is no slash in it. -/
theorem not_mem_of_parseIpAddr {s : String} {a : IpAddr} (h : parseIpAddr s = some a) :
    47 ∉ utf8 s :=
  foreign_not_mem ⟨by decide, by decide, by decide, by decide⟩ h

example : parseIpAddr "fe80::1:255.0.0.1" =
    some (.v6 (Octets.fromSlice 16 [254, 128, 0, 0, 0, 0, 0, 0, 0, 0, 0, 1, 255, 0, 0, 1])) := by
  decide

example : parseIpAddr "1.2.3.04" = none := by decide

end HoldTheDonut
