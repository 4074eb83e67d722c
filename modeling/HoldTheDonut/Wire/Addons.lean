import HoldTheDonut.Core.Address
import HoldTheDonut.Streaming.Incremental

/-!
# `donut-wire/src/addons.rs`: the addons message

A hand-written codec for a two-field proto3 message

    flow : string = 1    seed : bytes = 2

in which an empty field is not written at all.  A field is a tag byte, its length
as a base-128 varint, and its bytes.

The three loops of the file are recursions on fuel here.  For `put_varint` and
`varint_len` the number itself is fuel enough, for `decode` the length of the
input; `get_varint` counts its ten turns in the source already.  A varint is a
`u64`, so what does not fit is shifted out: hence the `% 2 ^ 64`.
-/

namespace HoldTheDonut
namespace Wire

open Streaming

/-- `donut-wire/src/error.rs`. -/
inductive WireError where
  | badVersion (v : UInt8)
  | truncated (want available : ℕ)
  | unknownCommand (v : UInt8)
  | unknownAddressType (v : UInt8)
  | zeroDomain
  | invalidDomainUtf8
  | addonTooLarge (addonLen : ℕ)
  | unknownFlow
  | badAddonsProto
  | varintOverflow
  deriving DecidableEq

/-! ## Varints -/

def varintLenLoop : ℕ → ℕ → ℕ → ℕ
  | 0, _, c => c
  | fuel + 1, n, c => if 0x80 ≤ n then varintLenLoop fuel (n >>> 7) (c + 1) else c

def varintLen (n : ℕ) : ℕ := varintLenLoop n n 1

def putVarintLoop : ℕ → ℕ → List UInt8
  | 0, n => [UInt8.ofNat n]
  | fuel + 1, n =>
    if 0x80 ≤ n then ((UInt8.ofNat n &&& 0x7f) ||| 0x80) :: putVarintLoop fuel (n >>> 7)
    else [UInt8.ofNat n]

def putVarint (n : ℕ) : List UInt8 := putVarintLoop n n

/-- The loop of `get_varint`: `turns` are left, `i` are done, `n` is read so far. -/
def getVarintLoop : ℕ → ℕ → ℕ → Parser UInt8 WireError ℕ
  | 0, _, _, _ => .error .varintOverflow
  | _ + 1, _, _, [] => .error .badAddonsProto
  | turns + 1, i, n, b :: bytes =>
    let n := n ||| ((b &&& 0x7f).toNat <<< (7 * i)) % 2 ^ 64
    if b &&& 0x80 = 0 then .ok (n, bytes) else getVarintLoop turns (i + 1) n bytes

def getVarint : Parser UInt8 WireError ℕ := getVarintLoop 10 0 0

/-- A continuation byte carries its seven bits and says that more follow. -/
theorem continuation_byte (b : UInt8) :
    ((b &&& 0x7f) ||| 0x80) &&& 0x80 ≠ 0 ∧ ((b &&& 0x7f) ||| 0x80) &&& 0x7f = b &&& 0x7f := by
  revert b
  exact forall_uint8 (by decide +kernel)

theorem and_0x7f_toNat (b : UInt8) : (b &&& 0x7f).toNat = b.toNat % 128 := by
  revert b
  exact forall_uint8 (by decide +kernel)

/-- A byte below `0x80` ends a varint. -/
theorem and_0x80_eq_zero (b : UInt8) : b.toNat < 128 → b &&& 0x80 = 0 := by
  revert b
  exact forall_uint8 (by decide +kernel)

/-- `|=` of a group above everything read so far is an addition. -/
theorem lor_shift {acc d i : ℕ} (hacc : acc < 2 ^ (7 * i)) (hd : d * 2 ^ (7 * i) < 2 ^ 64) :
    acc ||| (d <<< (7 * i)) % 2 ^ 64 = acc + d * 2 ^ (7 * i) := by
  have hor := Nat.two_pow_add_eq_or_of_lt hacc d
  rw [Nat.shiftLeft_eq, Nat.mod_eq_of_lt hd, Nat.or_comm, Nat.mul_comm d, ← hor, Nat.add_comm]

/-- The varint loop undoes the writing loop: `acc` holds the groups already read,
`n` what is still to come.  The induction is on the turns left. -/
theorem getVarintLoop_putVarintLoop : ∀ (turns fuel i acc n : ℕ) (rest : List UInt8),
    0 < turns → n < 128 ^ turns → n ≤ fuel → acc < 2 ^ (7 * i) → n * 2 ^ (7 * i) < 2 ^ 64 →
    getVarintLoop turns i acc (putVarintLoop fuel n ++ rest) = .ok (acc + n * 2 ^ (7 * i), rest)
  | 0, _, _, _, _, _, h, _, _, _, _ => absurd h (lt_irrefl 0)
  | turns + 1, fuel, i, acc, n, rest, _, hn, hfuel, hacc, hfit => by
    by_cases hlast : n < 0x80
    · have hput : putVarintLoop fuel n = [UInt8.ofNat n] := by
        cases fuel with
        | zero => rfl
        | succ fuel => simp only [putVarintLoop, if_neg (not_le.mpr hlast)]
      have hnat : (UInt8.ofNat n).toNat = n := by
        rw [UInt8.toNat_ofNat']
        omega
      rw [hput, List.singleton_append, getVarintLoop,
        and_0x80_eq_zero _ (by omega), if_pos rfl, and_0x7f_toNat, hnat, Nat.mod_eq_of_lt hlast,
        lor_shift hacc hfit]
    · obtain ⟨f, rfl⟩ : ∃ f, fuel = f + 1 := ⟨fuel - 1, by omega⟩
      have hsplit : n = n % 128 + 128 * (n / 128) := (Nat.mod_add_div n 128).symm
      have hpow : (2 : ℕ) ^ (7 * (i + 1)) = 128 * 2 ^ (7 * i) := by
        rw [Nat.mul_add, pow_add]
        ring
      have hpos : 0 < 2 ^ (7 * i) := Nat.two_pow_pos _
      have hlow : n % 128 * 2 ^ (7 * i) < 2 ^ 64 :=
        lt_of_le_of_lt (Nat.mul_le_mul_right _ (Nat.mod_le n 128)) hfit
      have hmod : n % 128 < 128 := Nat.mod_lt _ (by decide)
      have hvalue : n * 2 ^ (7 * i) = n % 128 * 2 ^ (7 * i) + n / 128 * 2 ^ (7 * (i + 1)) := by
        rw [hpow]
        calc n * 2 ^ (7 * i) = (n % 128 + 128 * (n / 128)) * 2 ^ (7 * i) := by rw [← hsplit]
          _ = n % 128 * 2 ^ (7 * i) + n / 128 * (128 * 2 ^ (7 * i)) := by ring
      have hturns : 0 < turns := by
        by_contra h
        have : turns = 0 := by omega
        subst this
        omega
      have hdiv : n / 128 < 128 ^ turns := by
        rw [Nat.div_lt_iff_lt_mul (by decide), ← pow_succ]
        exact hn
      have hacc' : acc + n % 128 * 2 ^ (7 * i) < 2 ^ (7 * (i + 1)) := by
        have := Nat.mul_le_mul_right (2 ^ (7 * i)) (Nat.le_of_lt_succ hmod)
        omega
      have hnat : (UInt8.ofNat n).toNat % 128 = n % 128 := by
        rw [UInt8.toNat_ofNat']
        omega
      have hshift : n >>> 7 = n / 128 := by rw [Nat.shiftRight_eq_div_pow]
      have ih := getVarintLoop_putVarintLoop turns f (i + 1) (acc + n % 128 * 2 ^ (7 * i))
        (n / 128) rest hturns hdiv (by omega) hacc' (by omega)
      rw [putVarintLoop, if_pos (by omega), List.cons_append, getVarintLoop,
        if_neg (continuation_byte _).1, (continuation_byte _).2, and_0x7f_toNat, hnat,
        lor_shift hacc hlow, hshift, ih, hvalue, Nat.add_assoc]

/-- **Varints are read back**, for every `u64`. -/
theorem getVarint_putVarint {n : ℕ} (h : n < 2 ^ 64) (rest : List UInt8) :
    getVarint (putVarint n ++ rest) = .ok (n, rest) := by
  have hloop := getVarintLoop_putVarintLoop 10 n 0 0 n rest (by decide) (by omega) le_rfl
    (by decide) (by omega)
  rw [Nat.mul_zero, pow_zero, Nat.mul_one, Nat.zero_add] at hloop
  exact hloop

theorem putVarintLoop_length : ∀ (fuel n c : ℕ),
    (putVarintLoop fuel n).length + c = varintLenLoop fuel n (c + 1)
  | 0, n, c => by
    rw [putVarintLoop, varintLenLoop, List.length_singleton, Nat.add_comm]
  | fuel + 1, n, c => by
    rw [putVarintLoop, varintLenLoop]
    split
    · rw [List.length_cons, ← putVarintLoop_length fuel]
      omega
    · rw [List.length_singleton, Nat.add_comm]

/-- `varint_len` is the length of what `put_varint` writes. -/
theorem putVarint_length (n : ℕ) : (putVarint n).length = varintLen n :=
  putVarintLoop_length n n 0

theorem getVarintLoop_length : ∀ (turns i n : ℕ) (bytes : List UInt8) (m : ℕ)
    (rest : List UInt8), getVarintLoop turns i n bytes = .ok (m, rest) → rest.length < bytes.length
  | 0, _, _, _, _, _, h => by cases h
  | _ + 1, _, _, [], _, _, h => by cases h
  | turns + 1, i, n, b :: bytes, m, rest, h => by
    rw [getVarintLoop] at h
    split at h
    · cases h
      exact Nat.lt_succ_self _
    · exact lt_trans (getVarintLoop_length turns _ _ bytes m rest h) (Nat.lt_succ_self _)

/-! ## The message -/

/-- Field 1, length-delimited. -/
def tagFlow : UInt8 := 0x0a

/-- Field 2, length-delimited. -/
def tagSeed : UInt8 := 0x12

structure Addons where
  flow : String
  seed : List UInt8
  deriving DecidableEq

/-- What one field contributes to `encoded_len`. -/
def fieldLen (value : List UInt8) : ℕ :=
  if value = [] then 0 else 1 + varintLen value.length + value.length

/-- What one field contributes to `encode`. -/
def fieldBytes (tag : UInt8) (value : List UInt8) : List UInt8 :=
  if value = [] then [] else tag :: (putVarint value.length ++ value)

namespace Addons

/-- `Addons::default()`. -/
def empty : Addons := ⟨"", []⟩

def encodedLen (a : Addons) : ℕ := fieldLen (utf8 a.flow) + fieldLen a.seed

def encode (a : Addons) : List UInt8 :=
  fieldBytes tagFlow (utf8 a.flow) ++ fieldBytes tagSeed a.seed

/-- The loop of `decode`.  A later field of the same tag replaces an earlier one. -/
def decodeLoop : ℕ → Addons → List UInt8 → Except WireError Addons
  | 0, me, _ => .ok me
  | _ + 1, me, [] => .ok me
  | fuel + 1, me, tag :: bytes =>
    match getVarint bytes with
    | .error e => .error e
    | .ok (len, bytes) =>
      if bytes.length < len then .error .badAddonsProto
      else if tag = tagFlow then
        match fromUtf8 (bytes.take len) with
        | none => .error .badAddonsProto
        | some flow => decodeLoop fuel { me with flow := flow } (bytes.drop len)
      else if tag = tagSeed then
        decodeLoop fuel { me with seed := bytes.take len } (bytes.drop len)
      else .error .badAddonsProto

def decode (bytes : List UInt8) : Except WireError Addons :=
  decodeLoop bytes.length empty bytes

/-! ## Round trip -/

/-- Fuel beyond the length of the input changes nothing. -/
theorem decodeLoop_fuel : ∀ (fuel : ℕ) (me : Addons) (bytes : List UInt8),
    bytes.length ≤ fuel → decodeLoop (fuel + 1) me bytes = decodeLoop fuel me bytes
  | 0, me, bytes, h => by
    rw [List.eq_nil_of_length_eq_zero (Nat.le_zero.mp h)]
    rfl
  | fuel + 1, me, [], _ => rfl
  | fuel + 1, me, tag :: bytes, h => by
    rw [decodeLoop, decodeLoop]
    rw [List.length_cons] at h
    cases hget : getVarint bytes with
    | error e => rfl
    | ok r =>
      have hlt := getVarintLoop_length 10 0 0 bytes r.1 r.2 hget
      have hdrop : (r.2.drop r.1).length ≤ fuel := by
        rw [List.length_drop]
        omega
      simp only
      split
      · rfl
      · split
        · cases fromUtf8 (r.2.take r.1) with
          | none => rfl
          | some flow => exact decodeLoop_fuel fuel _ _ hdrop
        · split
          · exact decodeLoop_fuel fuel _ _ hdrop
          · rfl

theorem decodeLoop_of_length_le {fuel : ℕ} (me : Addons) {bytes : List UInt8}
    (h : bytes.length ≤ fuel) : decodeLoop fuel me bytes = decodeLoop bytes.length me bytes := by
  induction fuel, h using Nat.le_induction with
  | base => rfl
  | succ fuel hle ih => rw [decodeLoop_fuel fuel me bytes hle, ih]

theorem fieldBytes_length (tag : UInt8) (value : List UInt8) :
    (fieldBytes tag value).length = fieldLen value := by
  unfold fieldBytes fieldLen
  split
  · rfl
  · rw [List.length_cons, List.length_append, putVarint_length]
    omega

theorem length_le_fieldLen (value : List UInt8) : value.length ≤ fieldLen value := by
  unfold fieldLen
  split
  · next hnil => rw [hnil, List.length_nil]
  · omega

/-- `encode` writes exactly `encoded_len` bytes. -/
theorem encode_length (a : Addons) : a.encode.length = a.encodedLen := by
  unfold encode encodedLen
  rw [List.length_append, fieldBytes_length, fieldBytes_length]

/-- One turn of the loop over a field that was written. -/
theorem decodeLoop_field (me : Addons) {tag : UInt8} {value : List UInt8} (hne : value ≠ [])
    (hlen : value.length < 2 ^ 64) (rest : List UInt8) :
    decodeLoop (fieldBytes tag value ++ rest).length me (fieldBytes tag value ++ rest) =
      if tag = tagFlow then
        match fromUtf8 value with
        | none => .error .badAddonsProto
        | some flow => decodeLoop rest.length { me with flow := flow } rest
      else if tag = tagSeed then
        decodeLoop rest.length { me with seed := value } rest
      else .error .badAddonsProto := by
  have hfuel : ∀ me' : Addons,
      decodeLoop (putVarint value.length ++ value ++ rest).length me' rest =
        decodeLoop rest.length me' rest := fun me' =>
    decodeLoop_of_length_le me' (by rw [List.length_append]; omega)
  unfold fieldBytes
  rw [if_neg hne, List.cons_append, List.length_cons, decodeLoop, List.append_assoc,
    getVarint_putVarint hlen]
  rw [List.append_assoc] at hfuel
  simp only [List.take_left, List.drop_left, List.length_append]
  rw [if_neg (by omega)]
  simp only [List.length_append] at hfuel
  simp only [hfuel]

/-- The optional flow field of an encoded message. -/
theorem decodeLoop_flow (me : Addons) (hme : me.flow = "") (flow : String)
    (hlen : flow.utf8ByteSize < 2 ^ 64) (rest : List UInt8) :
    decodeLoop (fieldBytes tagFlow (utf8 flow) ++ rest).length me
        (fieldBytes tagFlow (utf8 flow) ++ rest) =
      decodeLoop rest.length { me with flow := flow } rest := by
  by_cases h : utf8 flow = []
  · have hflow : flow = "" := (utf8_eq_nil_iff flow).mp h
    subst hflow
    rw [fieldBytes, if_pos h, List.nil_append, ← hme]
  · rw [decodeLoop_field me h (by rw [utf8_length]; exact hlen), if_pos rfl, fromUtf8_utf8]

/-- The optional seed field of an encoded message. -/
theorem decodeLoop_seed (me : Addons) (hme : me.seed = []) (seed : List UInt8)
    (hlen : seed.length < 2 ^ 64) (rest : List UInt8) :
    decodeLoop (fieldBytes tagSeed seed ++ rest).length me (fieldBytes tagSeed seed ++ rest) =
      decodeLoop rest.length { me with seed := seed } rest := by
  by_cases h : seed = []
  · subst h
    rw [fieldBytes, if_pos rfl, List.nil_append, ← hme]
  · rw [decodeLoop_field me h hlen, if_neg (by decide), if_pos rfl]

/-- **The addons are read back** as long as their lengths are machine lengths. -/
theorem decode_encode (a : Addons) (h : a.encodedLen < 2 ^ 64) : decode a.encode = .ok a := by
  have hflow := length_le_fieldLen (utf8 a.flow)
  have hseed := length_le_fieldLen a.seed
  unfold encodedLen at h
  rw [utf8_length] at hflow
  unfold decode encode
  rw [decodeLoop_flow empty rfl a.flow (by omega)]
  have hrest := decodeLoop_seed { empty with flow := a.flow } rfl a.seed (by omega) []
  rw [List.append_nil] at hrest
  rw [hrest]
  rfl

end Addons

end Wire
end HoldTheDonut
