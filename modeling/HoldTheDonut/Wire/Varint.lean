import HoldTheDonut.Wire.Addons
import Mathlib.Data.Nat.Digits.Defs

/-!
# What a varint is worth

A varint is a number in base 128, the lowest digit first, and every byte but the last has its
high bit set.  `IsVarint` and `varintValue` say so without any arithmetic of machine words, and
the reader of `addons.rs` is compared with them.

The reader takes ten bytes at most.  Nine of them are 63 bits, and of the tenth only one bit has
room: `get_varint` shifts the other six out and goes on.  What it returns is therefore the value
modulo `2 ^ 64` (`getVarint_eq_ok_iff`), and a value of `2 ^ 64` or more is read as a smaller
number.  That takes ten bytes of which the last is from `0x02` to `0x7f`
(`tenthOverflows_iff`); on every other input the reader is exact (`varint_exact_iff`).
-/

namespace HoldTheDonut
namespace Wire

open Streaming

/-! ## Varints and their values -/

/-- More follows after every byte but the last. -/
def IsVarint (v : List UInt8) : Prop :=
  ∃ init last, v = init ++ [last] ∧ (∀ b ∈ init, 128 ≤ b.toNat) ∧ last.toNat < 128

/-- The digit in base 128 that a byte carries. -/
def varintDigit (b : UInt8) : ℕ := b.toNat % 128

/-- The number that is written, of whatever size. -/
def varintValue (v : List UInt8) : ℕ := Nat.ofDigits 128 (v.map varintDigit)

theorem not_isVarint_nil : ¬ IsVarint [] := by
  rintro ⟨init, last, h, -⟩
  exact absurd h.symm (List.append_ne_nil_of_right_ne_nil _ (List.cons_ne_nil _ _))

variable {v : List UInt8} {b : UInt8}

/-- A byte without the high bit is all there is of a varint. -/
theorem isVarint_cons_of_lt (hb : b.toNat < 128) : IsVarint (b :: v) ↔ v = [] := by
  constructor
  · rintro ⟨init, last, h, hinit, -⟩
    cases init with
    | nil => exact (List.cons.inj h).2
    | cons c init =>
      have hc := hinit c List.mem_cons_self
      rw [← (List.cons.inj h).1] at hc
      omega
  · rintro rfl
    exact ⟨[], b, rfl, List.forall_mem_nil _, hb⟩

/-- Behind a byte with the high bit another varint begins. -/
theorem isVarint_cons_of_le (hb : 128 ≤ b.toNat) : IsVarint (b :: v) ↔ IsVarint v := by
  constructor
  · rintro ⟨init, last, h, hinit, hlast⟩
    cases init with
    | nil =>
      rw [(List.cons.inj h).1] at hb
      omega
    | cons c init =>
      exact ⟨init, last, (List.cons.inj h).2, fun x hx => hinit x (List.mem_cons_of_mem _ hx),
        hlast⟩
  · rintro ⟨init, last, rfl, hinit, hlast⟩
    exact ⟨b :: init, last, rfl, List.forall_mem_cons.mpr ⟨hb, hinit⟩, hlast⟩

theorem varintValue_cons (b : UInt8) (v : List UInt8) :
    varintValue (b :: v) = varintDigit b + 128 * varintValue v := Nat.ofDigits_cons

theorem varintValue_concat (init : List UInt8) (last : UInt8) :
    varintValue (init ++ [last]) =
      varintValue init + 128 ^ init.length * varintDigit last := by
  unfold varintValue
  rw [List.map_append, Nat.ofDigits_append, List.length_map, List.map_singleton,
    Nat.ofDigits_singleton]

theorem varintValue_lt (v : List UInt8) : varintValue v < 128 ^ v.length := by
  have hdigits : ∀ d ∈ v.map varintDigit, d < 128 := by
    intro d hd
    obtain ⟨b, -, rfl⟩ := List.mem_map.mp hd
    exact Nat.mod_lt _ (by decide)
  have h := Nat.ofDigits_lt_base_pow_length (by decide) hdigits
  rwa [List.length_map] at h

/-! ## The reader -/

/-- `|=` of a group above everything read so far adds what is left of the group. -/
theorem lor_shift_mod {acc d i : ℕ} (hacc : acc < 2 ^ (7 * i)) (hi : i ≤ 9) :
    acc ||| (d <<< (7 * i)) % 2 ^ 64 = acc + d * 2 ^ (7 * i) % 2 ^ 64 := by
  have hword : (2 : ℕ) ^ 64 = 2 ^ (64 - 7 * i) * 2 ^ (7 * i) := by
    rw [← pow_add]
    congr 1
    omega
  have hor := Nat.two_pow_add_eq_or_of_lt hacc (d % 2 ^ (64 - 7 * i))
  rw [Nat.shiftLeft_eq, hword, Nat.mul_mod_mul_right, Nat.or_comm, Nat.mul_comm _ (2 ^ (7 * i)),
    ← hor, Nat.add_comm]

/-- What is below a place does not interfere with what a word has no room for above it. -/
theorem add_mul_mod_mul {a place : ℕ} (ha : a < place) (m room : ℕ) :
    (a + m * place) % (room * place) = a + m * place % (room * place) := by
  have hpos : 0 < place := Nat.zero_lt_of_lt ha
  have hquot : (a + m * place) / place = m := by
    rw [Nat.add_mul_div_right _ _ hpos, Nat.div_eq_of_lt ha, Nat.zero_add]
  rw [Nat.mul_mod_mul_right, Nat.mul_comm room, Nat.mod_mul, hquot, Nat.add_mul_mod_self_right,
    Nat.mod_eq_of_lt ha, Nat.mul_comm place]

/-- The same for a group of seven bits in a word of 64. -/
theorem add_mul_mod_word {d i : ℕ} (hd : d < 128) (hi : i ≤ 8) (m : ℕ) :
    (d + 128 * m) * 2 ^ (7 * i) % 2 ^ 64 =
      d * 2 ^ (7 * i) % 2 ^ 64 + m * 2 ^ (7 * (i + 1)) % 2 ^ 64 := by
  have hnext : (2 : ℕ) ^ (7 * (i + 1)) = 128 * 2 ^ (7 * i) := by
    rw [Nat.mul_add, pow_add]
    ring
  have hword : (2 : ℕ) ^ 64 = 2 ^ (64 - 7 * (i + 1)) * 2 ^ (7 * (i + 1)) := by
    rw [← pow_add]
    congr 1
    omega
  have hlow : d * 2 ^ (7 * i) < 2 ^ (7 * (i + 1)) := by
    rw [hnext]
    exact Nat.mul_lt_mul_of_pos_right hd (Nat.two_pow_pos _)
  have hsum : (d + 128 * m) * 2 ^ (7 * i) = d * 2 ^ (7 * i) + m * 2 ^ (7 * (i + 1)) := by
    rw [hnext]
    ring
  have hsmall : d * 2 ^ (7 * i) < 2 ^ (64 - 7 * (i + 1)) * 2 ^ (7 * (i + 1)) :=
    hlow.trans_le (Nat.le_mul_of_pos_left _ (Nat.two_pow_pos _))
  rw [hsum, hword, add_mul_mod_mul hlow, Nat.mod_eq_of_lt hsmall]

/-- The high bit, as a test on bytes and on numbers. -/
theorem and_0x80_eq_zero_iff (b : UInt8) : b &&& 0x80 = 0 ↔ b.toNat < 128 := by
  revert b
  exact forall_uint8 (by decide +kernel)

/-- One more group stays below the next place. -/
theorem acc_lt_next {i acc d : ℕ} (hd : d < 128) (hacc : acc < 2 ^ (7 * i)) :
    acc + d * 2 ^ (7 * i) % 2 ^ 64 < 2 ^ (7 * (i + 1)) := by
  have hgroup : d * 2 ^ (7 * i) % 2 ^ 64 ≤ 127 * 2 ^ (7 * i) :=
    (Nat.mod_le _ _).trans (Nat.mul_le_mul_right _ (Nat.le_of_lt_succ hd))
  rw [Nat.mul_add, pow_add]
  omega

/-- The group of a byte and the value behind it make the value of both.  A varint behind this byte
needs a turn, so this is not the tenth. -/
theorem acc_cons {i turns : ℕ} (hturns : i + (turns + 1) = 10) (hv : IsVarint v)
    (hlen : v.length ≤ turns) (acc : ℕ) :
    acc + varintDigit b * 2 ^ (7 * i) % 2 ^ 64 + varintValue v * 2 ^ (7 * (i + 1)) % 2 ^ 64 =
      acc + varintValue (b :: v) * 2 ^ (7 * i) % 2 ^ 64 := by
  have hd : varintDigit b < 128 := Nat.mod_lt _ (by decide)
  have hpos : v ≠ [] := fun hnil => not_isVarint_nil (hnil ▸ hv)
  have hlen' := List.length_pos_iff.mpr hpos
  rw [varintValue_cons, add_mul_mod_word hd (by omega), Nat.add_assoc]

/-- **What the loop reads.**  `acc` holds the `i` groups already read, and `turns` bytes may
still be taken. -/
theorem getVarintLoop_eq_ok_iff (turns : ℕ) : ∀ {i acc : ℕ} {bytes : List UInt8} {n : ℕ}
    {rest : List UInt8}, i + turns = 10 → acc < 2 ^ (7 * i) →
    (getVarintLoop turns i acc bytes = .ok (n, rest) ↔
      ∃ v, bytes = v ++ rest ∧ IsVarint v ∧ v.length ≤ turns ∧
        n = acc + varintValue v * 2 ^ (7 * i) % 2 ^ 64) := by
  induction turns with
  | zero =>
    intro i acc bytes n rest _ _
    refine ⟨(fun h => by cases h), ?_⟩
    rintro ⟨v, -, hv, hlen, -⟩
    rw [List.eq_nil_of_length_eq_zero (Nat.le_zero.mp hlen)] at hv
    exact absurd hv not_isVarint_nil
  | succ turns ih =>
    intro i acc bytes n rest hturns hacc
    cases bytes with
    | nil =>
      refine ⟨(fun h => by cases h), ?_⟩
      rintro ⟨v, hv, hvarint, -⟩
      rw [(List.append_eq_nil_iff.mp hv.symm).1] at hvarint
      exact absurd hvarint not_isVarint_nil
    | cons b bytes =>
      have hdigit : (b &&& 0x7f).toNat = varintDigit b := and_0x7f_toNat b
      rw [getVarintLoop, hdigit]
      simp only [lor_shift_mod hacc (show i ≤ 9 by omega)]
      by_cases hb : b.toNat < 128
      · -- the last byte: the varint is this one alone
        rw [if_pos ((and_0x80_eq_zero_iff b).mpr hb)]
        constructor
        · intro h
          cases h
          refine ⟨[b], rfl, (isVarint_cons_of_lt hb).mpr rfl, Nat.le_add_left 1 turns, ?_⟩
          rw [varintValue, List.map_singleton, Nat.ofDigits_singleton]
        · rintro ⟨v, hv, hvarint, -, rfl⟩
          cases v with
          | nil => exact absurd hvarint not_isVarint_nil
          | cons c v =>
            obtain ⟨rfl, hrest⟩ := List.cons.inj hv
            obtain rfl := (isVarint_cons_of_lt hb).mp hvarint
            rw [hrest, varintValue, List.map_singleton, Nat.ofDigits_singleton]
            rfl
      · have hle : 128 ≤ b.toNat := Nat.not_lt.mp hb
        have hd : varintDigit b < 128 := Nat.mod_lt _ (by decide)
        rw [if_neg fun h => hb ((and_0x80_eq_zero_iff b).mp h),
          ih (by omega) (acc_lt_next hd hacc)]
        constructor
        · rintro ⟨v, rfl, hv, hlen, rfl⟩
          exact ⟨b :: v, rfl, (isVarint_cons_of_le hle).mpr hv, Nat.succ_le_succ hlen,
            acc_cons hturns hv hlen acc⟩
        · rintro ⟨v, hv, hvarint, hlen, rfl⟩
          cases v with
          | nil => exact absurd hvarint not_isVarint_nil
          | cons c v =>
            obtain ⟨rfl, hrest⟩ := List.cons.inj hv
            have hv' := (isVarint_cons_of_le hle).mp hvarint
            have hlen' := Nat.le_of_succ_le_succ hlen
            exact ⟨v, hrest, hv', hlen', (acc_cons hturns hv' hlen' acc).symm⟩

variable {bytes : List UInt8}

/-- **The reader returns the value modulo `2 ^ 64`**, and takes exactly the varint. -/
theorem getVarint_eq_ok_iff {n : ℕ} {rest : List UInt8} :
    getVarint bytes = .ok (n, rest) ↔
      ∃ v, bytes = v ++ rest ∧ IsVarint v ∧ v.length ≤ 10 ∧ n = varintValue v % 2 ^ 64 := by
  have h : getVarintLoop 10 0 0 bytes = .ok (n, rest) ↔ _ :=
    getVarintLoop_eq_ok_iff 10 rfl (by decide)
  simp only [Nat.mul_zero, pow_zero, Nat.mul_one, Nat.zero_add] at h
  exact h

/-! ## Where the reader is exact -/

/-- **The law**: what is read is a varint of ten bytes at most with its value below `2 ^ 64`, and
whatever is larger is an error. -/
structure ReadsExactly (bytes : List UInt8) : Prop where
  ok_iff : ∀ n rest, getVarint bytes = .ok (n, rest) ↔
    ∃ v, bytes = v ++ rest ∧ IsVarint v ∧ v.length ≤ 10 ∧ varintValue v = n ∧ n < 2 ^ 64
  too_large : ∀ v rest, bytes = v ++ rest → IsVarint v → 2 ^ 64 ≤ varintValue v →
    ∃ e, getVarint bytes = .error e

/-- Nine bytes that say that more follows, and a tenth that ends the varint with a digit of two or
more. -/
def TenthOverflows (bytes : List UInt8) : Prop :=
  ∃ (init : List UInt8) (last : UInt8) (rest : List UInt8), bytes = init ++ last :: rest ∧
    init.length = 9 ∧ (∀ b ∈ init, 128 ≤ b.toNat) ∧ 2 ≤ last.toNat ∧ last.toNat < 128

/-- **It takes the tenth byte to leave the word.** -/
theorem tenthOverflows_iff :
    TenthOverflows bytes ↔
      ∃ v rest, bytes = v ++ rest ∧ IsVarint v ∧ v.length ≤ 10 ∧ 2 ^ 64 ≤ varintValue v := by
  constructor
  · rintro ⟨init, last, rest, rfl, hlen, hinit, htwo, hlast⟩
    refine ⟨init ++ [last], rest, by simp, ⟨init, last, rfl, hinit, hlast⟩, by simp [hlen], ?_⟩
    rw [varintValue_concat, hlen, varintDigit, Nat.mod_eq_of_lt hlast]
    omega
  · rintro ⟨v, rest, rfl, ⟨init, last, rfl, hinit, hlast⟩, hlen, hvalue⟩
    have hlow := varintValue_lt init
    rw [List.length_append, List.length_singleton] at hlen
    rw [varintValue_concat, varintDigit, Nat.mod_eq_of_lt hlast] at hvalue
    have hnine : init.length = 9 := by
      by_contra hne
      -- fewer digits are at most 63 bits
      have hpow : 128 ^ init.length ≤ 128 ^ 8 := Nat.pow_le_pow_right (by decide) (by omega)
      have hhigh : 128 ^ init.length * last.toNat ≤ 128 ^ 8 * 127 :=
        Nat.mul_le_mul hpow (Nat.le_of_lt_succ hlast)
      omega
    rw [hnine] at hlow hvalue
    refine ⟨init, last, rest, by simp, hnine, hinit, ?_, hlast⟩
    omega

/-- A varint is not the beginning of another one. -/
theorem IsVarint.append_inj {w : List UInt8} (hv : IsVarint v) (hw : IsVarint w) {r s : List UInt8}
    (h : v ++ r = w ++ s) : v = w ∧ r = s := by
  induction v generalizing w with
  | nil => exact absurd hv not_isVarint_nil
  | cons b v ih =>
    cases w with
    | nil => exact absurd hw not_isVarint_nil
    | cons c w =>
      obtain ⟨rfl, htail⟩ := List.cons.inj h
      by_cases hb : b.toNat < 128
      · obtain rfl := (isVarint_cons_of_lt hb).mp hv
        obtain rfl := (isVarint_cons_of_lt hb).mp hw
        exact ⟨rfl, htail⟩
      · have hle := Nat.not_lt.mp hb
        obtain ⟨rfl, hrest⟩ := ih ((isVarint_cons_of_le hle).mp hv)
          ((isVarint_cons_of_le hle).mp hw) htail
        exact ⟨rfl, hrest⟩

theorem readsExactly_iff : ReadsExactly bytes ↔ ¬ TenthOverflows bytes := by
  rw [tenthOverflows_iff]
  constructor
  · rintro ⟨-, htoo⟩ ⟨v, rest, hbytes, hv, hlen, hvalue⟩
    obtain ⟨e, herror⟩ := htoo v rest hbytes hv hvalue
    rw [getVarint_eq_ok_iff.mpr ⟨v, hbytes, hv, hlen, rfl⟩] at herror
    cases herror
  · intro hsmall
    have hlt : ∀ {v rest : List UInt8}, bytes = v ++ rest → IsVarint v → v.length ≤ 10 →
        varintValue v < 2 ^ 64 := fun hbytes hv hlen =>
      Nat.lt_of_not_le fun hle => hsmall ⟨_, _, hbytes, hv, hlen, hle⟩
    constructor
    · intro n rest
      rw [getVarint_eq_ok_iff]
      constructor
      · rintro ⟨v, hbytes, hv, hlen, rfl⟩
        rw [Nat.mod_eq_of_lt (hlt hbytes hv hlen)]
        exact ⟨v, hbytes, hv, hlen, rfl, hlt hbytes hv hlen⟩
      · rintro ⟨v, hbytes, hv, hlen, rfl, hn⟩
        exact ⟨v, hbytes, hv, hlen, (Nat.mod_eq_of_lt hn).symm⟩
    · intro v rest hbytes hv hvalue
      cases hget : getVarint bytes with
      | error e => exact ⟨e, rfl⟩
      | ok r =>
        -- what was read is this varint, so it has ten bytes at most
        obtain ⟨n, rest'⟩ := r
        obtain ⟨w, hbytes', hw, hlen, -⟩ := getVarint_eq_ok_iff.mp hget
        obtain ⟨rfl, -⟩ := hv.append_inj hw (hbytes.symm.trans hbytes')
        exact absurd (hlt hbytes hv hlen) (Nat.not_lt.mpr hvalue)

/-- **When varints are decoded exactly.**  For every byte string the reader keeps to the law
unless the string starts with nine bytes that continue and a tenth from `0x02` to `0x7f`.  Every
`u64` is written in `varint_len` bytes and read back. -/
theorem varint_exact_iff (bytes : List UInt8) :
    (ReadsExactly bytes ↔ ¬ TenthOverflows bytes) ∧
    ∀ n : UInt64, (putVarint n.toNat).length = varintLen n.toNat ∧
      ∀ rest, getVarint (putVarint n.toNat ++ rest) = .ok (n.toNat, rest) :=
  ⟨readsExactly_iff, fun n => ⟨putVarint_length _, getVarint_putVarint n.toNat_lt⟩⟩

/-- Ten bytes that are worth `2 ^ 64` and are read as zero. -/
theorem varint_read_as_zero :
    varintValue (List.replicate 9 0x80 ++ [0x02]) = 2 ^ 64 ∧
    getVarint (List.replicate 9 0x80 ++ [0x02]) = .ok (0, []) ∧
    ¬ ReadsExactly (List.replicate 9 0x80 ++ [0x02]) := by
  have hread : getVarint (List.replicate 9 0x80 ++ [0x02]) = .ok (0, []) := by rfl
  refine ⟨by rfl, hread, fun h => ?_⟩
  have hcontinue : ∀ b ∈ List.replicate 9 (0x80 : UInt8), 128 ≤ b.toNat := by
    intro b hb
    rw [List.eq_of_mem_replicate hb]
    decide
  obtain ⟨e, herror⟩ := h.too_large (List.replicate 9 0x80 ++ [0x02]) [] rfl
    ⟨List.replicate 9 0x80, 0x02, rfl, hcontinue, by decide⟩ (by decide)
  rw [hread] at herror
  cases herror

end Wire
end HoldTheDonut
