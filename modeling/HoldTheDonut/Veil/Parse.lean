import Mathlib.Data.List.GetD
import HoldTheDonut.Core.Bytes

/-!
# `donut-veil/src/parse.rs`: what the veil reads of a ClientHello

    [type 1][length 3][version 2][random 32][session-id length 1][session id 32]
    [suites length 2][suites] [compression length 1][compression]
    [extensions length 2] ([type 2][length 2][data])*

The server needs three fields of it: the random, the session id and the X25519 share in
the `key_share` extension.  A cursor of the source is the rest of the buffer behind it
here, and the end of the extension block is the end of a list.

`Hello` is a ClientHello taken apart, with its length fields and the proof that they are
right, so that an ill-formed one cannot be written down.  What the parser finds in
`Hello.bytes` is what it finds in the extension block alone (`Hello.extensionBlock_bytes`),
and in a block made of complete extensions it finds the first `key_share`
(`extensionLoop_blockBytes`).
-/

namespace HoldTheDonut
namespace Veil

/-- The errors of the handshake itself. -/
inductive VeilError where
  | shortClientHello
  | badSessionIdLength
  | missingKeyShare
  | noX25519Share
  | authFailed
  deriving DecidableEq

def randomOffset : ℕ := 6
def sessionIdLenOffset : ℕ := 38
def sessionIdOffset : ℕ := 39
def sessionIdBytes : ℕ := 32

def extKeyShare : ℕ := 0x0033
def namedGroupX25519 : ℕ := 0x001d

/-- The sixteen-bit number at an offset. -/
def u16At (l : List UInt8) (off : ℕ) : ℕ := be16 (l.getD off 0) (l.getD (off + 1) 0)

/-- The parts of a ClientHello the veil touches. -/
structure ClientHelloView where
  random : Octets 32
  sessionId : Octets 32
  x25519Pub : Octets 32
  deriving DecidableEq

/-- What is behind a vector with a sixteen-bit length. -/
def skipU16Prefixed (rest : List UInt8) : Except VeilError (List UInt8) :=
  if rest.length < 2 then .error .shortClientHello
  else if rest.length < 2 + u16At rest 0 then .error .shortClientHello
  else .ok (rest.drop (2 + u16At rest 0))

/-- What is behind a vector with an eight-bit length. -/
def skipU8Prefixed (rest : List UInt8) : Except VeilError (List UInt8) :=
  if rest.length < 1 then .error .shortClientHello
  else if rest.length < 1 + (rest.getD 0 0).toNat then .error .shortClientHello
  else .ok (rest.drop (1 + (rest.getD 0 0).toNat))

/-- The loop over the entries of a `key_share`.  Every turn takes four bytes at least, so
the length of the list is enough fuel. -/
def keyShareLoop : ℕ → List UInt8 → Except VeilError (Octets 32)
  | 0, _ => .error .noX25519Share
  | fuel + 1, list =>
    if list.length < 4 then .error .noX25519Share
    else if list.length < 4 + u16At list 2 then .error .shortClientHello
    else if u16At list 0 = namedGroupX25519 then
      if u16At list 2 ≠ 32 then .error .noX25519Share
      else .ok (Octets.fromSlice 32 ((list.drop 4).take 32))
    else keyShareLoop fuel (list.drop (4 + u16At list 2))

def parseX25519InKeyShare (data : List UInt8) : Except VeilError (Octets 32) :=
  if data.length < 2 then .error .shortClientHello
  else if data.length < 2 + u16At data 0 then .error .shortClientHello
  else
    let list := (data.drop 2).take (u16At data 0)
    keyShareLoop list.length list

/-- The loop over the extensions, up to the first `key_share`. -/
def extensionLoop : ℕ → List UInt8 → Except VeilError (Octets 32)
  | 0, _ => .error .missingKeyShare
  | fuel + 1, ext =>
    if ext.length < 4 then .error .missingKeyShare
    else if ext.length < 4 + u16At ext 2 then .error .shortClientHello
    else if u16At ext 0 = extKeyShare then
      parseX25519InKeyShare ((ext.drop 4).take (u16At ext 2))
    else extensionLoop fuel (ext.drop (4 + u16At ext 2))

/-- The extension block of a ClientHello with a session id of 32 bytes. -/
def extensionBlock (bytes : List UInt8) : Except VeilError (List UInt8) :=
  match skipU16Prefixed (bytes.drop (sessionIdOffset + sessionIdBytes)) with
  | .error e => .error e
  | .ok rest =>
    match skipU8Prefixed rest with
    | .error e => .error e
    | .ok rest =>
      if rest.length < 2 then .error .shortClientHello
      else if rest.length < 2 + u16At rest 0 then .error .shortClientHello
      else .ok ((rest.drop 2).take (u16At rest 0))

def findX25519Share (bytes : List UInt8) : Except VeilError (Octets 32) :=
  match extensionBlock bytes with
  | .error e => .error e
  | .ok ext => extensionLoop ext.length ext

def ClientHelloView.parse (bytes : List UInt8) : Except VeilError ClientHelloView :=
  if bytes.length < sessionIdOffset + sessionIdBytes then .error .shortClientHello
  else if (bytes.getD sessionIdLenOffset 0).toNat ≠ sessionIdBytes then
    .error .badSessionIdLength
  else
    match findX25519Share bytes with
    | .error e => .error e
    | .ok share =>
      .ok ⟨Octets.fromSlice 32 ((bytes.drop randomOffset).take 32),
        Octets.fromSlice 32 ((bytes.drop sessionIdOffset).take 32), share⟩

/-! ## Accepted bodies -/

/-- What acceptance says about a body. -/
structure Accepted (bytes : List UInt8) (view : ClientHelloView) : Prop where
  length_le : sessionIdOffset + sessionIdBytes ≤ bytes.length
  sessionIdLen_eq : (bytes.getD sessionIdLenOffset 0).toNat = sessionIdBytes
  share_eq : findX25519Share bytes = .ok view.x25519Pub
  random_eq : view.random = Octets.fromSlice 32 ((bytes.drop randomOffset).take 32)
  sessionId_eq : view.sessionId = Octets.fromSlice 32 ((bytes.drop sessionIdOffset).take 32)

theorem parse_eq_ok_iff {bytes : List UInt8} {view : ClientHelloView} :
    ClientHelloView.parse bytes = .ok view ↔ Accepted bytes view := by
  unfold ClientHelloView.parse
  constructor
  · intro h
    split at h
    · cases h
    · next hlen =>
      split at h
      · cases h
      · next hsid =>
        split at h
        · cases h
        · next share hshare =>
          cases h
          exact ⟨Nat.not_lt.mp hlen, not_not.mp hsid, hshare, rfl, rfl⟩
  · intro h
    rw [if_neg (Nat.not_lt.mpr h.length_le), if_neg (not_not.mpr h.sessionIdLen_eq), h.share_eq]
    obtain ⟨random, sessionId, share⟩ := view
    have hrandom := h.random_eq
    have hsession := h.sessionId_eq
    simp only at hrandom hsession
    rw [hrandom, hsession]

/-! ## A ClientHello in parts -/

/-- A ClientHello with its length fields right and nothing behind the extensions. -/
structure Hello where
  /-- Everything up to and including the session id. -/
  head : List UInt8
  csHi : UInt8
  csLo : UInt8
  suites : List UInt8
  compLen : UInt8
  compression : List UInt8
  extHi : UInt8
  extLo : UInt8
  extensions : List UInt8
  suites_length : suites.length = be16 csHi csLo
  compression_length : compression.length = compLen.toNat
  extensions_length : extensions.length = be16 extHi extLo

namespace Hello

/-- From the length of the extensions on. -/
def extensionPart (h : Hello) : List UInt8 := h.extHi :: h.extLo :: h.extensions

/-- From the length of the compression methods on. -/
def compressionPart (h : Hello) : List UInt8 := h.compLen :: (h.compression ++ h.extensionPart)

/-- From the length of the cipher suites on. -/
def suitesPart (h : Hello) : List UInt8 := h.csHi :: h.csLo :: (h.suites ++ h.compressionPart)

def bytes (h : Hello) : List UInt8 := h.head ++ h.suitesPart

theorem skipU16Prefixed_suitesPart (h : Hello) :
    skipU16Prefixed h.suitesPart = .ok h.compressionPart := by
  have hlen : u16At h.suitesPart 0 = h.suites.length := h.suites_length.symm
  have htotal : h.suitesPart.length = 2 + h.suites.length + h.compressionPart.length := by
    simp only [suitesPart, List.length_cons, List.length_append]
    omega
  unfold skipU16Prefixed
  rw [hlen, if_neg (by omega), if_neg (by omega), Nat.add_comm 2]
  change Except.ok ((h.suites ++ h.compressionPart).drop h.suites.length) = _
  rw [List.drop_left]

theorem skipU8Prefixed_compressionPart (h : Hello) :
    skipU8Prefixed h.compressionPart = .ok h.extensionPart := by
  have hlen : (h.compressionPart.getD 0 0).toNat = h.compression.length :=
    h.compression_length.symm
  have htotal : h.compressionPart.length =
      1 + h.compression.length + h.extensionPart.length := by
    simp only [compressionPart, List.length_cons, List.length_append]
    omega
  unfold skipU8Prefixed
  rw [hlen, if_neg (by omega), if_neg (by omega), Nat.add_comm 1]
  change Except.ok ((h.compression ++ h.extensionPart).drop h.compression.length) = _
  rw [List.drop_left]

/-- **The parser finds the extension block.** -/
theorem extensionBlock_bytes (h : Hello)
    (hhead : h.head.length = sessionIdOffset + sessionIdBytes) :
    extensionBlock h.bytes = .ok h.extensions := by
  have hdrop : h.bytes.drop (sessionIdOffset + sessionIdBytes) = h.suitesPart := by
    rw [← hhead, bytes, List.drop_left]
  have hlen : u16At h.extensionPart 0 = h.extensions.length := h.extensions_length.symm
  have htotal : h.extensionPart.length = 2 + h.extensions.length := by
    simp only [extensionPart, List.length_cons]
    omega
  simp only [extensionBlock, hdrop, skipU16Prefixed_suitesPart, skipU8Prefixed_compressionPart]
  rw [hlen, if_neg (by omega), if_neg (by omega)]
  change Except.ok (h.extensions.take h.extensions.length) = _
  rw [List.take_length]

end Hello

/-! ## Extension blocks -/

/-- The complete extensions at the front of a block: type, and bytes with their header. -/
def walkExtensions : ℕ → List UInt8 → List (ℕ × List UInt8)
  | 0, _ => []
  | fuel + 1, ext =>
    if ext.length < 4 then []
    else if ext.length < 4 + u16At ext 2 then []
    else (u16At ext 0, ext.take (4 + u16At ext 2)) ::
      walkExtensions fuel (ext.drop (4 + u16At ext 2))

/-- The body has exactly one `key_share` extension. -/
def OneKeyShare (bytes : List UInt8) : Prop :=
  ∃ ext, extensionBlock bytes = .ok ext ∧
    (walkExtensions ext.length ext).countP (fun e => decide (e.1 = extKeyShare)) = 1

/-- An extension whose header says what it is and how long. -/
structure IsExtension (e : ℕ × List UInt8) : Prop where
  length_eq : e.2.length = 4 + u16At e.2 2
  type_eq : e.1 = u16At e.2 0

theorem u16At_append {l : List UInt8} {off : ℕ} (h : off + 1 < l.length) (t : List UInt8) :
    u16At (l ++ t) off = u16At l off := by
  rw [u16At, u16At, List.getD_append _ _ _ _ (Nat.lt_of_succ_lt h), List.getD_append _ _ _ _ h]

section Blocks

variable {e : ℕ × List UInt8} {rest : List UInt8} (he : IsExtension e)

include he

theorem IsExtension.four_le : 4 ≤ e.2.length := by
  rw [he.length_eq]
  exact Nat.le_add_right 4 _

/-- The header of an extension is read the same with others behind it. -/
theorem IsExtension.header_append (rest : List UInt8) :
    u16At (e.2 ++ rest) 0 = e.1 ∧ 4 + u16At (e.2 ++ rest) 2 = e.2.length := by
  have hlen := he.four_le
  rw [u16At_append (by omega), u16At_append (by omega), ← he.type_eq, he.length_eq]
  exact ⟨rfl, rfl⟩

/-- One turn of the loop takes one extension. -/
theorem extensionLoop_append {fuel : ℕ} :
    extensionLoop (fuel + 1) (e.2 ++ rest) =
      if e.1 = extKeyShare then parseX25519InKeyShare (e.2.drop 4)
      else extensionLoop fuel rest := by
  have hlen := he.four_le
  obtain ⟨htype, hsize⟩ := he.header_append rest
  have hsize' : u16At (e.2 ++ rest) 2 = e.2.length - 4 := by omega
  rw [extensionLoop, List.length_append, if_neg (by omega), if_neg (by omega), htype]
  congr 1
  · rw [hsize', List.drop_append_of_le_length hlen, List.take_append_of_le_length (by simp),
      List.take_of_length_le (by simp)]
  · rw [hsize, List.drop_left]

theorem walkExtensions_append {fuel : ℕ} :
    walkExtensions (fuel + 1) (e.2 ++ rest) = e :: walkExtensions fuel rest := by
  have hlen := he.four_le
  obtain ⟨htype, hsize⟩ := he.header_append rest
  rw [walkExtensions, List.length_append, if_neg (by omega), if_neg (by omega), htype, hsize,
    List.take_left, List.drop_left]

end Blocks

/-- The bytes of a list of extensions. -/
def blockBytes (blocks : List (ℕ × List UInt8)) : List UInt8 := (blocks.map Prod.snd).flatten

theorem blockBytes_cons (e : ℕ × List UInt8) (blocks : List (ℕ × List UInt8)) :
    blockBytes (e :: blocks) = e.2 ++ blockBytes blocks := rfl

variable {blocks : List (ℕ × List UInt8)}

/-- **In a block of complete extensions the parser takes the first `key_share`.** -/
theorem extensionLoop_blockBytes (h : ∀ e ∈ blocks, IsExtension e) {fuel : ℕ}
    (hfuel : blocks.length ≤ fuel) :
    extensionLoop fuel (blockBytes blocks) =
      match blocks.find? fun e => decide (e.1 = extKeyShare) with
      | some e => parseX25519InKeyShare (e.2.drop 4)
      | none => .error .missingKeyShare := by
  induction blocks generalizing fuel with
  | nil =>
    cases fuel <;> rfl
  | cons e blocks ih =>
    obtain ⟨fuel, rfl⟩ : ∃ n, fuel = n + 1 :=
      ⟨fuel - 1, by rw [List.length_cons] at hfuel; omega⟩
    rw [blockBytes_cons, extensionLoop_append (h e List.mem_cons_self), List.find?_cons]
    by_cases hkey : e.1 = extKeyShare
    · simp only [hkey, if_true, decide_true]
    · simp only [hkey, if_false, decide_false]
      exact ih (fun e' he' => h e' (List.mem_cons_of_mem _ he'))
        (Nat.le_of_succ_le_succ hfuel)

theorem walkExtensions_blockBytes (h : ∀ e ∈ blocks, IsExtension e) {fuel : ℕ}
    (hfuel : blocks.length ≤ fuel) :
    walkExtensions fuel (blockBytes blocks) = blocks := by
  induction blocks generalizing fuel with
  | nil =>
    cases fuel <;> rfl
  | cons e blocks ih =>
    obtain ⟨fuel, rfl⟩ : ∃ n, fuel = n + 1 :=
      ⟨fuel - 1, by rw [List.length_cons] at hfuel; omega⟩
    rw [blockBytes_cons, walkExtensions_append (h e List.mem_cons_self),
      ih (fun e' he' => h e' (List.mem_cons_of_mem _ he')) (Nat.le_of_succ_le_succ hfuel)]

/-- Extensions are not empty, so there are at most as many as bytes. -/
theorem length_le_length_blockBytes (h : ∀ e ∈ blocks, IsExtension e) :
    blocks.length ≤ (blockBytes blocks).length := by
  induction blocks with
  | nil => exact le_rfl
  | cons e blocks ih =>
    have hlen := (h e List.mem_cons_self).four_le
    have htail := ih fun e' he' => h e' (List.mem_cons_of_mem _ he')
    rw [blockBytes_cons, List.length_append, List.length_cons]
    omega

/-- **The order of the extensions does not matter** when exactly one is a `key_share`. -/
theorem extensionLoop_perm {blocks' : List (ℕ × List UInt8)} (hperm : blocks'.Perm blocks)
    (h : ∀ e ∈ blocks, IsExtension e)
    (hone : blocks.countP (fun e => decide (e.1 = extKeyShare)) = 1) :
    extensionLoop (blockBytes blocks').length (blockBytes blocks') =
      extensionLoop (blockBytes blocks).length (blockBytes blocks) := by
  have h' : ∀ e ∈ blocks', IsExtension e := fun e he => h e (hperm.mem_iff.mp he)
  rw [extensionLoop_blockBytes h (length_le_length_blockBytes h),
    extensionLoop_blockBytes h' (length_le_length_blockBytes h')]
  -- the first key share is the only one, and it is the same one in both orders
  have hfind : blocks'.find? (fun e => decide (e.1 = extKeyShare)) =
      blocks.find? fun e => decide (e.1 = extKeyShare) := by
    rw [← List.head?_filter, ← List.head?_filter]
    rw [List.countP_eq_length_filter, List.length_eq_one_iff] at hone
    obtain ⟨k, hk⟩ := hone
    have hfilter := hperm.filter fun e => decide (e.1 = extKeyShare)
    rw [hk, List.perm_singleton] at hfilter
    rw [hk, hfilter]
  rw [hfind]

end Veil
end HoldTheDonut
