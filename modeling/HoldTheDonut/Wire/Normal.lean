import HoldTheDonut.Wire.Segmentation
import HoldTheDonut.Wire.Varint

/-!
# Decoding normalises

The decoder of a request takes more than the encoder writes: the fields of the addons in either
order and more than once, lengths with leading zeros, empty fields, and a flow that says `none`.
Whatever it was, the request it is decoded to can be sent (`sendable_of_decode`), and the form in
which it is sent is the shortest of all (`encodedLen_add_le_of_decode`).  The bound is one
inequality for each reader.  The addons are where it has to be earned: a length is never written
with more bytes than it was read from, and a field that is replaced has been paid for.
-/

namespace HoldTheDonut
namespace Wire

open Streaming

/-- `encode` in a build with debug assertions: `none` is an assertion that fails, or the panic. -/
def Request.encodeChecked (r : Request) : Option (List UInt8) :=
  if 255 < r.addons.encodedLen then none
  else
    match r.target with
    | some ⟨.domain d, _⟩ => if d = "" ∨ 255 < d.utf8ByteSize then none else r.encode
    | _ => r.encode

/-- What may be sent triggers no assertion. -/
theorem Request.Sendable.encodeChecked_eq {r : Request} (h : r.Sendable) :
    r.encodeChecked = r.encode := by
  unfold encodeChecked
  rw [if_neg (Nat.not_lt.mpr h.addons_le)]
  split
  · next d port htarget =>
    obtain ⟨hne, hle, -⟩ := (Address.mkDomain_eq_ok_iff d _).mp (h.domain_ok _ htarget d rfl)
    exact if_neg (not_or.mpr ⟨hne, Nat.not_lt.mpr hle⟩)
  · rfl

/-! ## Lengths -/

theorem varintLenLoop_le (fuel : ℕ) : ∀ {n c k : ℕ}, 0 < k → n < 128 ^ k →
    varintLenLoop fuel n c + 1 ≤ c + k := by
  induction fuel with
  | zero =>
    intro n c k hk _
    rw [varintLenLoop]
    omega
  | succ fuel ih =>
    intro n c k hk hn
    rw [varintLenLoop]
    split
    · next hbig =>
      obtain ⟨k, rfl⟩ : ∃ m, k = m + 1 := ⟨k - 1, by omega⟩
      have hpos : 0 < k := by
        by_contra hzero
        obtain rfl : k = 0 := by omega
        omega
      have hshift : n >>> 7 < 128 ^ k := by
        rw [Nat.shiftRight_eq_div_pow, Nat.div_lt_iff_lt_mul (by decide)]
        exact hn
      have hloop := ih (c := c + 1) hpos hshift
      omega
    · omega

/-- A number of `k` digits is written in `k` bytes at most. -/
theorem varintLen_le {n k : ℕ} (hk : 0 < k) (h : n < 128 ^ k) : varintLen n ≤ k := by
  have hloop := varintLenLoop_le n (c := 1) hk h
  unfold varintLen
  omega

/-- **A length is never written with more bytes than it was read from.** -/
theorem varintLen_add_le_of_getVarint {bytes : List UInt8} {n : ℕ} {rest : List UInt8}
    (h : getVarint bytes = .ok (n, rest)) : varintLen n + rest.length ≤ bytes.length := by
  obtain ⟨v, rfl, hv, -, rfl⟩ := getVarint_eq_ok_iff.mp h
  have hpos : v ≠ [] := fun hnil => not_isVarint_nil (hnil ▸ hv)
  have hlen := varintLen_le (List.length_pos_iff.mpr hpos)
    (lt_of_le_of_lt (Nat.mod_le _ (2 ^ 64)) (varintValue_lt v))
  rw [List.length_append]
  omega

theorem fieldLen_le (value : List UInt8) :
    fieldLen value ≤ 1 + varintLen value.length + value.length := by
  unfold fieldLen
  split
  · exact Nat.zero_le _
  · exact le_rfl

namespace Addons

/-- The loop returns no more than it was given.  A field that replaces another one has been read
with its own tag, length and bytes. -/
theorem encodedLen_le_of_decodeLoop (fuel : ℕ) : ∀ {me a : Addons} {bytes : List UInt8},
    decodeLoop fuel me bytes = .ok a → a.encodedLen ≤ me.encodedLen + bytes.length := by
  induction fuel with
  | zero =>
    intro me a bytes h
    cases h
    exact Nat.le_add_right _ _
  | succ fuel ih =>
    intro me a bytes h
    cases bytes with
    | nil =>
      cases h
      exact Nat.le_add_right _ _
    | cons tag bytes =>
      rw [decodeLoop] at h
      split at h
      · cases h
      · next len rest hget =>
        have hvarint := varintLen_add_le_of_getVarint hget
        split at h
        · cases h
        · next hfits =>
          have hlen : (rest.take len).length = len :=
            List.length_take_of_le (Nat.not_lt.mp hfits)
          have hvalue := fieldLen_le (rest.take len)
          rw [hlen] at hvalue
          have hpaid : fieldLen (rest.take len) + (rest.drop len).length ≤
              (tag :: bytes).length := by
            rw [List.length_drop, List.length_cons]
            omega
          split at h
          · split at h
            · cases h
            · next flow hflow =>
              have hrest := ih h
              simp only [encodedLen, utf8_of_fromUtf8 hflow] at hrest ⊢
              omega
          · split at h
            · have hrest := ih h
              simp only [encodedLen] at hrest ⊢
              omega
            · cases h

theorem encodedLen_le_of_decode {bytes : List UInt8} {a : Addons} (h : decode bytes = .ok a) :
    a.encodedLen ≤ bytes.length := by
  have hloop := encodedLen_le_of_decodeLoop bytes.length h
  have hempty : empty.encodedLen = 0 := rfl
  omega

end Addons

/-! ## The readers, from what they return -/

variable {bytes rest : List UInt8}

theorem of_readU8 {b : UInt8} (h : readU8 bytes = .ok (b, rest)) :
    bytes = b :: rest := by
  cases bytes with
  | nil => cases h
  | cons c bytes =>
    rw [readU8_cons] at h
    cases h
    rfl

theorem of_readVersion (h : readVersion bytes = .ok ((), rest)) :
    bytes = version :: rest := by
  obtain ⟨b, rest₁, hb, hcheck⟩ := Parser.bind_eq_ok.mp h
  obtain rfl := of_readU8 hb
  split at hcheck
  · cases hcheck
  · next hversion =>
    cases hcheck
    rw [not_not.mp hversion]

theorem of_readSlice {n : ℕ} {l : List UInt8} (h : readSlice n bytes = .ok (l, rest)) :
    bytes = l ++ rest ∧ l.length = n := by
  rw [readSlice_eq] at h
  split at h
  · cases h
  · next hlen =>
    cases h
    exact ⟨(List.take_append_drop n bytes).symm, List.length_take_of_le (Nat.not_lt.mp hlen)⟩

/-- The addons are not longer than the slice they were read from, whose length is a byte. -/
theorem of_readAddons {a : Addons} (h : readAddons bytes = .ok (a, rest)) :
    a.encodedLen ≤ 255 ∧ 1 + a.encodedLen + rest.length ≤ bytes.length := by
  obtain ⟨len, rest₁, hlen, hbehind⟩ := Parser.bind_eq_ok.mp h
  obtain ⟨slice, rest₂, hslice, hlift⟩ := Parser.bind_eq_ok.mp hbehind
  obtain rfl := of_readU8 hlen
  obtain ⟨rfl, hsize⟩ := of_readSlice hslice
  cases hdecode : Addons.decode slice with
  | error e =>
    rw [hdecode] at hlift
    cases hlift
  | ok a' =>
    rw [hdecode] at hlift
    cases hlift
    have hle := Addons.encodedLen_le_of_decode hdecode
    have hbyte := len.toNat_lt
    rw [List.length_cons, List.length_append]
    omega

/-- A flow is sent in its own spelling, which is the shortest there is. -/
theorem of_readFlow {a : Addons} {flow : FlowKind} (h : readFlow a bytes = .ok (flow, rest)) :
    rest = bytes ∧ fieldLen (utf8 flow.asStr) ≤ fieldLen (utf8 a.flow) := by
  unfold readFlow at h
  cases hwire : FlowKind.fromWire a.flow with
  | none =>
    rw [hwire] at h
    cases h
  | some flow' =>
    rw [hwire] at h
    cases h
    refine ⟨rfl, ?_⟩
    unfold FlowKind.fromWire at hwire
    split at hwire
    · cases hwire
      exact Nat.zero_le _
    · split at hwire
      · next hext =>
        cases hwire
        rw [hext, FlowKind.asStr]
      · cases hwire

theorem of_readCommand {command : Command} (h : readCommand bytes = .ok (command, rest)) :
    bytes.length = 1 + rest.length := by
  obtain ⟨b, rest₁, hb, hknown⟩ := Parser.bind_eq_ok.mp h
  obtain rfl := of_readU8 hb
  cases hcommand : Command.fromU8 b with
  | none =>
    rw [hcommand] at hknown
    cases hknown
  | some command' =>
    rw [hcommand] at hknown
    cases hknown
    rw [List.length_cons, Nat.add_comm]

theorem of_readDomain {address : Address} (h : readDomain bytes = .ok (address, rest)) :
    AddressOk address ∧ addressLen address + rest.length = bytes.length := by
  obtain ⟨len, rest₁, hlen, hbehind⟩ := Parser.bind_eq_ok.mp h
  obtain rfl := of_readU8 hlen
  split at hbehind
  · cases hbehind
  · obtain ⟨slice, rest₂, hslice, hname⟩ := Parser.bind_eq_ok.mp hbehind
    obtain ⟨rfl, -⟩ := of_readSlice hslice
    cases hutf8 : fromUtf8 slice with
    | none =>
      rw [hutf8] at hname
      cases hname
    | some d =>
      rw [hutf8] at hname
      cases hdomain : Address.mkDomain d with
      | error e =>
        simp only [hdomain] at hname
        cases hname
      | ok address' =>
        simp only [hdomain] at hname
        cases hname
        obtain ⟨-, -, rfl⟩ := (Address.mkDomain_eq_ok_iff d _).mp hdomain
        refine ⟨?_, ?_⟩
        · intro d' hd'
          cases hd'
          exact hdomain
        · rw [addressLen, ← utf8_length, utf8_of_fromUtf8 hutf8, List.length_cons,
            List.length_append]
          omega

theorem of_readAddress {atype : UInt8} {address : Address}
    (h : readAddress atype bytes = .ok (address, rest)) :
    AddressOk address ∧ addressLen address + rest.length = bytes.length := by
  have hip : ∀ ip, AddressOk (.ip ip) := by
    intro ip d hd
    cases hd
  unfold readAddress at h
  split at h
  · obtain ⟨slice, rest₁, hslice, hpure⟩ := Parser.bind_eq_ok.mp h
    obtain ⟨rfl, hsize⟩ := of_readSlice hslice
    cases hpure
    exact ⟨hip _, by rw [addressLen, List.length_append, hsize]⟩
  · split at h
    · obtain ⟨slice, rest₁, hslice, hpure⟩ := Parser.bind_eq_ok.mp h
      obtain ⟨rfl, hsize⟩ := of_readSlice hslice
      cases hpure
      exact ⟨hip _, by rw [addressLen, List.length_append, hsize]⟩
    · split at h
      · exact of_readDomain h
      · cases h

theorem of_readTarget {ep : Endpoint} (h : readTarget bytes = .ok (ep, rest)) :
    AddressOk ep.address ∧ 2 + 1 + addressLen ep.address + rest.length = bytes.length := by
  obtain ⟨portAndType, rest₁, hport, hbehind⟩ := Parser.bind_eq_ok.mp h
  obtain ⟨address, rest₂, haddress, hpure⟩ := Parser.bind_eq_ok.mp hbehind
  cases hpure
  rw [readPortAndType_eq] at hport
  obtain ⟨slice, rest₃, hslice, hpair⟩ := Parser.bind_eq_ok.mp hport
  obtain ⟨rfl, hsize⟩ := of_readSlice hslice
  cases hpair
  obtain ⟨hok, hlen⟩ := of_readAddress haddress
  refine ⟨hok, ?_⟩
  rw [List.length_append, hsize, ← hlen, Nat.add_assoc]

/-! ## The request -/

/-- **What is decoded may be sent, and in no more bytes.** -/
theorem sendable_of_decode {r : Request} (h : Request.decode bytes = .ok (r, rest)) :
    r.Sendable ∧ r.encodedLen + rest.length ≤ bytes.length := by
  obtain ⟨_, rest₁, hversion, h₁⟩ := Parser.bind_eq_ok.mp h
  obtain ⟨uuid, rest₂, huuid, h₂⟩ := Parser.bind_eq_ok.mp h₁
  obtain ⟨addons, rest₃, haddons, h₃⟩ := Parser.bind_eq_ok.mp h₂
  obtain ⟨flow, rest₄, hflow, h₄⟩ := Parser.bind_eq_ok.mp h₃
  obtain ⟨command, rest₅, hcommand, h₅⟩ := Parser.bind_eq_ok.mp h₄
  obtain ⟨target, rest₆, htarget, h₆⟩ := Parser.bind_eq_ok.mp h₅
  cases h₆
  obtain rfl := of_readVersion hversion
  obtain ⟨rfl, hsize⟩ := of_readSlice huuid
  obtain ⟨hle, haddonsLen⟩ := of_readAddons haddons
  obtain ⟨rfl, hflowLen⟩ := of_readFlow hflow
  have hcommandLen := of_readCommand hcommand
  have hshorter : Addons.encodedLen ⟨flow.asStr, addons.seed⟩ ≤ addons.encodedLen :=
    Nat.add_le_add_right hflowLen _
  unfold readTargetFor at htarget
  split at htarget
  · next hmux =>
    cases htarget
    refine ⟨⟨by simp [hmux], (fun ep hep => by cases hep), hshorter.trans hle⟩, ?_⟩
    simp only [Request.encodedLen, Request.addons, List.length_cons, List.length_append]
    omega
  · next hmux =>
    obtain ⟨ep, rest₇, hep, hpure⟩ := Parser.bind_eq_ok.mp htarget
    cases hpure
    obtain ⟨hok, htargetLen⟩ := of_readTarget hep
    refine ⟨⟨by simp [hmux], ?_, hshorter.trans hle⟩, ?_⟩
    · intro ep' hep'
      cases hep'
      exact hok
    · simp only [Request.encodedLen, Request.addons, List.length_cons, List.length_append]
      omega

/-- **Decoding normalises.**  Whatever a request was decoded from, encoding it again triggers no
assertion and writes `encoded_len` bytes, not more than were consumed and with addons that fit
their length byte; and decoding those gives the same request with nothing left over. -/
theorem decode_normalises {bytes rest : List UInt8} {r : Request}
    (h : Request.decode bytes = .ok (r, rest)) :
    ∃ used out, bytes = used ++ rest ∧ r.encodeChecked = some out ∧ r.encode = some out ∧
      out.length = r.encodedLen ∧ out.length ≤ used.length ∧ r.addons.encodedLen ≤ 255 ∧
      Request.decode out = .ok (r, []) := by
  obtain ⟨used, hsplit, hused⟩ := incremental_decode.consumed h
  obtain ⟨hsend, hlen⟩ := sendable_of_decode hused
  obtain ⟨out, hout, houtLen, hdecode⟩ := hsend.decode_encode []
  rw [List.append_nil] at hdecode
  refine ⟨used, out, hsplit, hsend.encodeChecked_eq.trans hout, hout, houtLen, ?_,
    hsend.addons_le, hdecode⟩
  rw [houtLen]
  exact hlen

/-- Two seeds, the first with a leading zero in its length, around a flow that says `none`. -/
def wordyMux : List UInt8 :=
  0 :: (List.replicate 16 5 ++
    [13, 0x12, 0x81, 0x00, 7, 0x0a, 4, 0x6e, 0x6f, 0x6e, 0x65, 0x12, 1, 9, 3, 99])

theorem decode_normalises_wordyMux :
    ∃ used out, wordyMux = used ++ [99] ∧
      Request.encodeChecked ⟨Octets.fromSlice 16 (List.replicate 16 5), .none, .mux, none, [9]⟩ =
        some out ∧
      Request.encode ⟨Octets.fromSlice 16 (List.replicate 16 5), .none, .mux, none, [9]⟩ =
        some out ∧
      out.length = 22 ∧ out.length ≤ used.length ∧ (⟨"", [9]⟩ : Addons).encodedLen ≤ 255 ∧
      Request.decode out =
        .ok (⟨Octets.fromSlice 16 (List.replicate 16 5), .none, .mux, none, [9]⟩, []) := by
  have hdecode : Request.decode wordyMux =
      .ok (⟨Octets.fromSlice 16 (List.replicate 16 5), .none, .mux, none, [9]⟩, [99]) := by
    decide +kernel
  exact decode_normalises hdecode

end Wire
end HoldTheDonut
