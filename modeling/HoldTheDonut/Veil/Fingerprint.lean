import Mathlib.Data.List.Perm.Basic
import HoldTheDonut.Veil.Parse

/-!
# `donut-veil/src/fingerprint.rs`: shuffling a ClientHello in place

A randomizing fingerprint reorders the cipher suites and the extensions of a serialised
ClientHello.  `randomizeOrder` walks the buffer with offsets of its own, apart from the
parser of `Veil.Parse`, and only when everything fits does it write.  The two draws of the
random number generator are a `Shuffle`, which may be any pair of permutations.

The result of a walk is a `Hello` (`locate_eq_ok`) whose extensions are complete
(`extensionBlocks_eq_ok`), and what is written back is a `Hello` again, `Reordered` from
the first (`randomizeOrder_reordered`).  The parser therefore finds the same in both, as
long as there is exactly one `key_share` to find (`untouched_apply`).

The `checked_add` errors of the source are out of reach: no sum of two lengths overflows a
`usize`.
-/

namespace HoldTheDonut
namespace Veil

/-- The `pre_shared_key` extension. -/
def preSharedKeyExt : ℕ := 41

inductive Fingerprint where
  | native
  | randomized
  | randomizedAlpn
  | randomizedNoAlpn
  deriving DecidableEq

def Fingerprint.randomizes : Fingerprint → Bool
  | .native => false
  | .randomized | .randomizedAlpn | .randomizedNoAlpn => true

/-- What the two calls of `shuffle` draw. -/
structure Shuffle where
  suites : List (UInt8 × UInt8) → List (UInt8 × UInt8)
  /-- The order of so many extensions. -/
  order : ℕ → List ℕ
  suites_perm : ∀ l, (suites l).Perm l
  order_perm : ∀ n, (order n).Perm (List.range n)

/-- A big-endian `u16`, or `none` if out of bounds. -/
def readU16 (buf : List UInt8) (off : ℕ) : Option ℕ :=
  if off + 1 < buf.length then some (u16At buf off) else none

/-- Where the lists are: the suites from `csOff` to `csEnd`, the extensions from `extOff`
to the end. -/
structure Slots where
  csOff : ℕ
  csEnd : ℕ
  extOff : ℕ

/-- The bounds checks of `randomize_order`. -/
def locate (buf : List UInt8) : Except String Slots :=
  if buf.length ≤ sessionIdLenOffset then .error "buffer too short for session_id length"
  else
    let csLenOff := sessionIdOffset + (buf.getD sessionIdLenOffset 0).toNat
    match readU16 buf csLenOff with
    | none => .error "truncated cipher_suites length"
    | some csLen =>
      let csOff := csLenOff + 2
      if csLen % 2 ≠ 0 then .error "odd cipher_suites length"
      else
        let csEnd := csOff + csLen
        if buf.length < csEnd then .error "cipher_suites out of bounds"
        else if buf.length ≤ csEnd then .error "truncated compression_methods length"
        else
          let compEnd := csEnd + 1 + (buf.getD csEnd 0).toNat
          if buf.length < compEnd then .error "compression_methods out of bounds"
          else
            match readU16 buf compEnd with
            | none => .error "truncated extensions length"
            | some extLen =>
              let extOff := compEnd + 2
              if extOff + extLen ≠ buf.length then
                .error "extensions length does not match buffer end"
              else .ok ⟨csOff, csEnd, extOff⟩

/-- The loop that takes the extensions apart.  A turn takes four bytes at least, so the
number of bytes is enough fuel. -/
def blocksLoop : ℕ → List UInt8 → Except String (List (ℕ × List UInt8))
  | 0, _ => .ok []
  | fuel + 1, ext =>
    if ext.length = 0 then .ok []
    else
      match readU16 ext 0 with
      | none => .error "truncated extension type"
      | some etype =>
        match readU16 ext 2 with
        | none => .error "truncated extension length"
        | some elen =>
          if ext.length < 4 + elen then .error "extension body out of bounds"
          else if etype = preSharedKeyExt then
            .error "pre_shared_key present; preserving binder"
          else
            match blocksLoop fuel (ext.drop (4 + elen)) with
            | .error e => .error e
            | .ok blocks => .ok ((etype, ext.take (4 + elen)) :: blocks)

def extensionBlocks (ext : List UInt8) : Except String (List (ℕ × List UInt8)) :=
  blocksLoop ext.length ext

/-- `chunks_exact(2)`. -/
def suitePairs : List UInt8 → List (UInt8 × UInt8)
  | a :: b :: l => (a, b) :: suitePairs l
  | _ => []

def suiteBytes (s : UInt8 × UInt8) : List UInt8 := [s.1, s.2]

/-- The writes: first the suites, then the extensions. -/
def commit (sh : Shuffle) (slots : Slots) (blocks : List (ℕ × List UInt8)) (buf : List UInt8) :
    List UInt8 :=
  let suites := sh.suites (suitePairs ((buf.drop slots.csOff).take (slots.csEnd - slots.csOff)))
  let order := sh.order blocks.length
  writeAll (writeAll buf slots.csOff (suites.map suiteBytes)) slots.extOff
    (order.map fun i => (blocks.getD i (0, [])).2)

/-- What `randomize_order` returns, and the buffer it leaves. -/
def randomizeOrder (sh : Shuffle) (buf : List UInt8) : Except String Unit × List UInt8 :=
  match locate buf with
  | .error reason => (.error reason, buf)
  | .ok slots =>
    match extensionBlocks (buf.drop slots.extOff) with
    | .error reason => (.error reason, buf)
    | .ok blocks => (.ok (), commit sh slots blocks buf)

/-- `Fingerprint::apply`: an error is logged and leaves the buffer as `randomize_order`
left it. -/
def Fingerprint.apply (fp : Fingerprint) (sh : Shuffle) (buf : List UInt8) : List UInt8 :=
  if fp.randomizes then (randomizeOrder sh buf).2 else buf

/-! ## What the walk finds -/

variable {buf : List UInt8}

theorem readU16_eq_some {off n : ℕ} (h : readU16 buf off = some n) :
    off + 1 < buf.length ∧ u16At buf off = n := by
  unfold readU16 at h
  split at h
  · next hlt => exact ⟨hlt, Option.some_inj.mp h⟩
  · cases h

variable {l : List UInt8}

theorem drop_eq_getD_cons {n : ℕ} (h : n < l.length) : l.drop n = l.getD n 0 :: l.drop (n + 1) := by
  rw [List.drop_eq_getElem_cons h, List.getD_eq_getElem _ _ h]

theorem drop_eq_u16At_cons {n : ℕ} (h : n + 1 < l.length) :
    l.drop n = l.getD n 0 :: l.getD (n + 1) 0 :: l.drop (n + 2) := by
  rw [drop_eq_getD_cons (Nat.lt_of_succ_lt h), drop_eq_getD_cons h]

theorem drop_eq_take_append (l : List UInt8) (n m : ℕ) :
    l.drop n = (l.drop n).take m ++ l.drop (n + m) := by
  rw [← List.drop_drop, List.take_append_drop]

/-- The offsets of the lists of a `Hello`. -/
def Hello.slots (h : Hello) : Slots where
  csOff := h.head.length + 2
  csEnd := h.head.length + 2 + h.suites.length
  extOff := h.head.length + 2 + h.suites.length + 1 + h.compression.length + 2

namespace Hello

variable (h : Hello)

/-- Everything in front of the suites. -/
def suitesFront : List UInt8 := h.head ++ [h.csHi, h.csLo]

/-- Everything in front of the extensions. -/
def extensionsFront : List UInt8 :=
  h.suitesFront ++ (h.suites ++ h.compLen :: (h.compression ++ [h.extHi, h.extLo]))

theorem length_suitesFront : h.suitesFront.length = h.slots.csOff := by
  rw [suitesFront, List.length_append]
  rfl

theorem length_extensionsFront : h.extensionsFront.length = h.slots.extOff := by
  simp only [extensionsFront, suitesFront, slots, List.length_append, List.length_cons,
    List.length_nil]
  omega

theorem bytes_eq_suites : h.bytes = h.suitesFront ++ (h.suites ++ h.compressionPart) := by
  simp only [bytes, suitesPart, suitesFront, List.append_assoc, List.cons_append,
    List.nil_append]

theorem bytes_eq_extensions : h.bytes = h.extensionsFront ++ h.extensions := by
  simp only [bytes_eq_suites, extensionsFront, compressionPart, extensionPart, List.append_assoc,
    List.cons_append, List.nil_append]

/-- The suites are where `locate` says. -/
theorem suites_eq : (h.bytes.drop h.slots.csOff).take (h.slots.csEnd - h.slots.csOff) =
    h.suites := by
  have hlen : h.slots.csEnd - h.slots.csOff = h.suites.length := Nat.add_sub_cancel_left _ _
  rw [hlen, ← length_suitesFront, bytes_eq_suites, List.drop_left, List.take_left]

/-- So are the extensions. -/
theorem extensions_eq : h.bytes.drop h.slots.extOff = h.extensions := by
  rw [← length_extensionsFront, bytes_eq_extensions, List.drop_left]

def withSuites (l : List UInt8) (hl : h.suites.length = l.length) : Hello :=
  { h with suites := l, suites_length := hl.symm.trans h.suites_length }

def withExtensions (l : List UInt8) (hl : h.extensions.length = l.length) : Hello :=
  { h with extensions := l, extensions_length := hl.symm.trans h.extensions_length }

theorem slots_withSuites (hl : h.suites.length = l.length) :
    (h.withSuites l hl).slots = h.slots := by
  simp only [slots, withSuites, hl]

/-- Pieces as long as the suites take their place. -/
theorem writeAll_suites {pieces : List (List UInt8)}
    (hl : h.suites.length = pieces.flatten.length) :
    writeAll h.bytes h.slots.csOff pieces = (h.withSuites pieces.flatten hl).bytes := by
  rw [bytes_eq_suites, ← length_suitesFront, writeAll_append _ hl, bytes_eq_suites]
  rfl

/-- Pieces as long as the extensions take theirs. -/
theorem writeAll_extensions {pieces : List (List UInt8)}
    (hl : h.extensions.length = pieces.flatten.length) :
    writeAll h.bytes h.slots.extOff pieces = (h.withExtensions pieces.flatten hl).bytes := by
  have hwrite := writeAll_append h.extensionsFront hl []
  rw [List.append_nil, List.append_nil] at hwrite
  rw [bytes_eq_extensions, ← length_extensionsFront, hwrite, bytes_eq_extensions]
  rfl

end Hello

/-- **A buffer that passes the bounds checks is a `Hello`**, with a head as long as its
session id says and an even number of bytes of suites. -/
theorem locate_eq_ok {slots : Slots} (hloc : locate buf = .ok slots) :
    ∃ h : Hello, h.bytes = buf ∧ h.slots = slots ∧ h.suites.length % 2 = 0 ∧
      h.head.length = sessionIdOffset + (buf.getD sessionIdLenOffset 0).toNat := by
  unfold locate at hloc
  split at hloc
  · cases hloc
  simp only at hloc
  split at hloc
  · cases hloc
  next csLen hcs =>
  obtain ⟨hcsIn, hcsLen⟩ := readU16_eq_some hcs
  split at hloc
  · cases hloc
  next heven =>
  split at hloc
  · cases hloc
  split at hloc
  · cases hloc
  next _ hcsEnd =>
  split at hloc
  · cases hloc
  next hcomp =>
  split at hloc
  · cases hloc
  next extLen hext =>
  obtain ⟨hextIn, hextLen⟩ := readU16_eq_some hext
  split at hloc
  · cases hloc
  next hend =>
  cases hloc
  set a := sessionIdOffset + (buf.getD sessionIdLenOffset 0).toNat with ha
  set compLen := buf.getD (a + 2 + csLen) 0 with hcompLen
  have hhead : (buf.take a).length = a := by
    rw [List.length_take]
    omega
  have hsuites : ((buf.drop (a + 2)).take csLen).length = csLen := by
    rw [List.length_take, List.length_drop]
    omega
  have hcompression : ((buf.drop (a + 2 + csLen + 1)).take compLen.toNat).length =
      compLen.toNat := by
    rw [List.length_take, List.length_drop]
    omega
  refine ⟨⟨buf.take a, buf.getD a 0, buf.getD (a + 1) 0, (buf.drop (a + 2)).take csLen, compLen,
    (buf.drop (a + 2 + csLen + 1)).take compLen.toNat,
    buf.getD (a + 2 + csLen + 1 + compLen.toNat) 0,
    buf.getD (a + 2 + csLen + 1 + compLen.toNat + 1) 0,
    buf.drop (a + 2 + csLen + 1 + compLen.toNat + 2), hsuites.trans hcsLen.symm, hcompression,
    ?_⟩, ?_, ?_, ?_, hhead⟩
  · rw [List.length_drop]
    change _ = u16At buf _
    omega
  · -- the pieces are the buffer, cut at the offsets
    simp only [Hello.bytes, Hello.suitesPart, Hello.compressionPart, Hello.extensionPart]
    rw [← drop_eq_u16At_cons hextIn, ← drop_eq_take_append, hcompLen,
      ← drop_eq_getD_cons (Nat.not_le.mp hcsEnd), ← drop_eq_take_append,
      ← drop_eq_u16At_cons hcsIn, List.take_append_drop]
  · simp only [Hello.slots, hhead, hsuites, hcompression]
  · simp only [hsuites]
    exact not_not.mp heven

variable {blocks : List (ℕ × List UInt8)}

/-- **Extensions that pass the walk are complete**, and no `pre_shared_key` is among
them. -/
theorem blocksLoop_eq_ok {fuel : ℕ} {ext : List UInt8} (hfuel : ext.length ≤ fuel)
    (h : blocksLoop fuel ext = .ok blocks) :
    blockBytes blocks = ext ∧ ∀ e ∈ blocks, IsExtension e ∧ e.1 ≠ preSharedKeyExt := by
  induction fuel generalizing ext blocks with
  | zero =>
    obtain rfl : ext = [] := List.eq_nil_of_length_eq_zero (Nat.le_zero.mp hfuel)
    cases h
    exact ⟨rfl, fun e he => absurd he List.not_mem_nil⟩
  | succ fuel ih =>
    rw [blocksLoop] at h
    split at h
    · next hnil =>
      obtain rfl : ext = [] := List.eq_nil_of_length_eq_zero hnil
      cases h
      exact ⟨rfl, fun e he => absurd he List.not_mem_nil⟩
    split at h
    · cases h
    next etype htype =>
    split at h
    · cases h
    next elen hlen =>
    split at h
    · cases h
    next hfits =>
    split at h
    · cases h
    next hpsk =>
    split at h
    · cases h
    next rest hrest =>
    cases h
    obtain ⟨-, htype⟩ := readU16_eq_some htype
    obtain ⟨hin, hlen⟩ := readU16_eq_some hlen
    have hdrop : (ext.drop (4 + elen)).length ≤ fuel := by
      rw [List.length_drop]
      omega
    obtain ⟨hbytes, hall⟩ := ih hdrop hrest
    have htake : (ext.take (4 + elen)).length = 4 + elen := by
      rw [List.length_take]
      omega
    have hread : ∀ off, off + 1 < 4 + elen → u16At (ext.take (4 + elen)) off = u16At ext off := by
      intro off hoff
      conv_rhs => rw [← List.take_append_drop (4 + elen) ext]
      rw [u16At_append (by rw [htake]; exact hoff)]
    refine ⟨?_, fun e he => ?_⟩
    · change ext.take (4 + elen) ++ blockBytes rest = ext
      rw [hbytes, List.take_append_drop]
    · rcases List.mem_cons.mp he with rfl | he
      · refine ⟨⟨?_, ?_⟩, hpsk⟩
        · rw [htake, hread 2 (by omega), hlen]
        · rw [hread 0 (by omega), htype]
      · exact hall e he

theorem extensionBlocks_eq_ok {ext : List UInt8} (h : extensionBlocks ext = .ok blocks) :
    blockBytes blocks = ext ∧ ∀ e ∈ blocks, IsExtension e ∧ e.1 ≠ preSharedKeyExt :=
  blocksLoop_eq_ok le_rfl h

/-! ## What is written back -/

theorem flatten_suitePairs (h : l.length % 2 = 0) :
    ((suitePairs l).map suiteBytes).flatten = l := by
  induction l using suitePairs.induct with
  | case1 a b l ih =>
    rw [List.length_cons, List.length_cons] at h
    change a :: b :: ((suitePairs l).map suiteBytes).flatten = a :: b :: l
    rw [ih (by omega)]
  | case2 l hl =>
    match l, h, hl with
    | [], _, _ => rfl
    | [a], h, _ => cases h
    | a :: b :: l, _, hl => exact absurd rfl (hl a b l)

theorem suitePairs_flatten (pairs : List (UInt8 × UInt8)) :
    suitePairs (pairs.map suiteBytes).flatten = pairs := by
  induction pairs with
  | nil => rfl
  | cons p pairs ih =>
    change p :: suitePairs (pairs.map suiteBytes).flatten = p :: pairs
    rw [ih]

theorem map_getD_range {α : Type*} (l : List α) (d : α) :
    (List.range l.length).map (fun i => l.getD i d) = l := by
  refine List.ext_getElem (by simp) fun i hi hi' => ?_
  rw [List.getElem_map, List.getElem_range, List.getD_eq_getElem _ _ hi']

/-- The extensions in the order that was drawn. -/
def Shuffle.arrange (sh : Shuffle) (blocks : List (ℕ × List UInt8)) : List (ℕ × List UInt8) :=
  (sh.order blocks.length).map fun i => blocks.getD i (0, [])

theorem Shuffle.arrange_perm (sh : Shuffle) (blocks : List (ℕ × List UInt8)) :
    (sh.arrange blocks).Perm blocks := by
  have hperm := (sh.order_perm blocks.length).map fun i => blocks.getD i (0, [])
  rwa [map_getD_range] at hperm

theorem length_blockBytes_perm {blocks' : List (ℕ × List UInt8)} (h : blocks'.Perm blocks) :
    (blockBytes blocks').length = (blockBytes blocks).length :=
  (h.map Prod.snd).flatten.length_eq

/-- `h'` is `h` with its suites and its extensions in another order. -/
structure Reordered (h h' : Hello) : Prop where
  head_eq : h'.head = h.head
  suitesLen_eq : h'.csHi = h.csHi ∧ h'.csLo = h.csLo
  suites_perm : (suitePairs h'.suites).Perm (suitePairs h.suites)
  compression_eq : h'.compLen = h.compLen ∧ h'.compression = h.compression
  extensionsLen_eq : h'.extHi = h.extHi ∧ h'.extLo = h.extLo
  extensions_perm : ∃ blocks blocks', h.extensions = blockBytes blocks ∧
    h'.extensions = blockBytes blocks' ∧ blocks'.Perm blocks ∧
    ∀ e ∈ blocks, IsExtension e ∧ e.1 ≠ preSharedKeyExt

/-- The writes put a `Hello` in the place of a `Hello`. -/
theorem commit_bytes (sh : Shuffle) (h : Hello) (heven : h.suites.length % 2 = 0)
    (hblocks : blockBytes blocks = h.extensions)
    (hext : ∀ e ∈ blocks, IsExtension e ∧ e.1 ≠ preSharedKeyExt) :
    ∃ h' : Hello, commit sh h.slots blocks h.bytes = h'.bytes ∧ Reordered h h' := by
  have hperm := sh.suites_perm (suitePairs h.suites)
  have hsuites : h.suites.length =
      ((sh.suites (suitePairs h.suites)).map suiteBytes).flatten.length := by
    rw [(hperm.map suiteBytes).flatten.length_eq, flatten_suitePairs heven]
  have harranged := sh.arrange_perm blocks
  have hextensions : h.extensions.length = (blockBytes (sh.arrange blocks)).length := by
    rw [length_blockBytes_perm harranged, hblocks]
  have hpieces : (sh.order blocks.length).map (fun i => (blocks.getD i (0, [])).2) =
      (sh.arrange blocks).map Prod.snd := by
    rw [Shuffle.arrange, List.map_map]
    rfl
  refine ⟨(h.withSuites _ hsuites).withExtensions (blockBytes (sh.arrange blocks)) hextensions,
    ?_, ?_⟩
  · -- first the suites go into their slot, then the extensions into theirs
    simp only [commit, h.suites_eq, hpieces]
    rw [h.writeAll_suites hsuites, ← h.slots_withSuites hsuites]
    exact (h.withSuites _ hsuites).writeAll_extensions hextensions
  · refine ⟨rfl, ⟨rfl, rfl⟩, ?_, ⟨rfl, rfl⟩, ⟨rfl, rfl⟩, blocks, sh.arrange blocks,
      hblocks.symm, rfl, harranged, hext⟩
    change (suitePairs ((sh.suites (suitePairs h.suites)).map suiteBytes).flatten).Perm _
    rw [suitePairs_flatten]
    exact hperm

/-- **A buffer that is shuffled was a `Hello` and is one again, reordered.** -/
theorem randomizeOrder_reordered {sh : Shuffle} (hok : (randomizeOrder sh buf).1 = .ok ()) :
    ∃ h h' : Hello, h.bytes = buf ∧ h'.bytes = (randomizeOrder sh buf).2 ∧ Reordered h h' ∧
      h.head.length = sessionIdOffset + (buf.getD sessionIdLenOffset 0).toNat ∧
      h.suites.length % 2 = 0 := by
  unfold randomizeOrder at hok ⊢
  split at hok
  · cases hok
  next slots hloc =>
  split at hok
  · cases hok
  next blocks hblocks =>
  obtain ⟨h, rfl, rfl, heven, hhead⟩ := locate_eq_ok hloc
  obtain ⟨hflat, hext⟩ := extensionBlocks_eq_ok hblocks
  rw [h.extensions_eq] at hflat
  obtain ⟨h', hcommit, hreordered⟩ := commit_bytes sh h heven hflat hext
  exact ⟨h, h', rfl, hcommit.symm, hreordered, hhead, heven⟩

/-- **A buffer that is refused is left alone.** -/
theorem randomizeOrder_error {sh : Shuffle} {reason : String}
    (herr : (randomizeOrder sh buf).1 = .error reason) : (randomizeOrder sh buf).2 = buf := by
  unfold randomizeOrder at herr ⊢
  split at herr
  · rfl
  · split at herr
    · rfl
    · cases herr

/-! ## The parser on a shuffled body -/

namespace Reordered

variable {h h' : Hello} (hr : Reordered h h')

include hr

theorem length_bytes : h'.bytes.length = h.bytes.length := by
  have hsuites : h'.suites.length = h.suites.length := by
    rw [h'.suites_length, h.suites_length, hr.suitesLen_eq.1, hr.suitesLen_eq.2]
  have hextensions : h'.extensions.length = h.extensions.length := by
    rw [h'.extensions_length, h.extensions_length, hr.extensionsLen_eq.1,
      hr.extensionsLen_eq.2]
  simp only [Hello.bytes, Hello.suitesPart, Hello.compressionPart, Hello.extensionPart,
    List.length_append, List.length_cons, hr.head_eq, hr.compression_eq.2, hsuites, hextensions]

/-- Nothing in front of the suites is touched. -/
theorem take_bytes {n : ℕ} (hn : n ≤ h.head.length) : h'.bytes.take n = h.bytes.take n := by
  rw [Hello.bytes, Hello.bytes, hr.head_eq, List.take_append_of_le_length hn,
    List.take_append_of_le_length hn]

/-- **The share survives the shuffle.** -/
theorem findX25519Share_eq (hhead : h.head.length = sessionIdOffset + sessionIdBytes)
    (hone : OneKeyShare h.bytes) : findX25519Share h'.bytes = findX25519Share h.bytes := by
  obtain ⟨blocks, blocks', hext, hext', hperm, hall⟩ := hr.extensions_perm
  have hall' : ∀ e ∈ blocks, IsExtension e := fun e he => (hall e he).1
  obtain ⟨ext, hblock, hcount⟩ := hone
  rw [h.extensionBlock_bytes hhead] at hblock
  cases hblock
  rw [hext, walkExtensions_blockBytes hall' (length_le_length_blockBytes hall')] at hcount
  have hhead' : h'.head.length = sessionIdOffset + sessionIdBytes := by rw [hr.head_eq, hhead]
  simp only [findX25519Share, h.extensionBlock_bytes hhead, h'.extensionBlock_bytes hhead']
  rw [hext, hext', extensionLoop_perm hperm hall' hcount]

end Reordered

/-- The parser looks at the length, the first 71 bytes and the share. -/
theorem parse_congr {bytes bytes' : List UInt8} (hlen : bytes'.length = bytes.length)
    (hsid : bytes'.getD sessionIdLenOffset 0 = bytes.getD sessionIdLenOffset 0)
    (hfixed : (bytes.getD sessionIdLenOffset 0).toNat = sessionIdBytes →
      bytes'.take (sessionIdOffset + sessionIdBytes) =
          bytes.take (sessionIdOffset + sessionIdBytes) ∧
        findX25519Share bytes' = findX25519Share bytes) :
    ClientHelloView.parse bytes' = ClientHelloView.parse bytes := by
  unfold ClientHelloView.parse
  rw [hlen, hsid]
  by_cases hshort : bytes.length < sessionIdOffset + sessionIdBytes
  · rw [if_pos hshort, if_pos hshort]
  by_cases hbad : (bytes.getD sessionIdLenOffset 0).toNat = sessionIdBytes
  · obtain ⟨htake, hshare⟩ := hfixed hbad
    have hslice : ∀ off, off + 32 ≤ sessionIdOffset + sessionIdBytes →
        (bytes'.drop off).take 32 = (bytes.drop off).take 32 := by
      intro off hoff
      have hcut : ∀ l : List UInt8, (l.drop off).take 32 =
          ((l.take (sessionIdOffset + sessionIdBytes)).drop off).take 32 := by
        intro l
        rw [List.drop_take, List.take_take, Nat.min_eq_left (by omega)]
      rw [hcut bytes', hcut bytes, htake]
    rw [if_neg hshort, if_neg hshort, if_neg (not_not.mpr hbad), if_neg (not_not.mpr hbad),
      hshare, hslice randomOffset (by decide), hslice sessionIdOffset (by decide)]
  · rw [if_neg hshort, if_neg hshort, if_pos hbad, if_pos hbad]

/-- The byte at an offset is in every prefix that reaches it. -/
theorem getD_eq_of_take_eq {l' : List UInt8} {n i : ℕ} (h : l'.take n = l.take n) (hi : i < n) :
    l'.getD i 0 = l.getD i 0 := by
  have hcut : ∀ l : List UInt8, l.getD i 0 = (l.take n).getD i 0 := by
    intro l
    rw [List.getD_eq_getElem?_getD, List.getD_eq_getElem?_getD, List.getElem?_take_of_lt hi]
  rw [hcut l', hcut l, h]

/-- What a fingerprint leaves as it was, whatever it draws. -/
structure Untouched (buf buf' : List UInt8) : Prop where
  length_eq : buf'.length = buf.length
  take_eq : buf'.take (sessionIdOffset + (buf.getD sessionIdLenOffset 0).toNat) =
    buf.take (sessionIdOffset + (buf.getD sessionIdLenOffset 0).toNat)
  parse_eq : OneKeyShare buf → ClientHelloView.parse buf' = ClientHelloView.parse buf

theorem Untouched.refl (buf : List UInt8) : Untouched buf buf := ⟨rfl, rfl, fun _ => rfl⟩

/-- The parser finds the same after the shuffle.  That there is one `key_share` matters only where
it gets as far as the extensions. -/
theorem Reordered.parse_eq {h h' : Hello} (hr : Reordered h h')
    (hhead : h.head.length = sessionIdOffset + (h.bytes.getD sessionIdLenOffset 0).toNat)
    (hone : h.head.length = sessionIdOffset + sessionIdBytes → OneKeyShare h.bytes) :
    ClientHelloView.parse h'.bytes = ClientHelloView.parse h.bytes := by
  have htake := hr.take_bytes hhead.ge
  refine parse_congr hr.length_bytes ?_ fun hsid => ?_
  · refine getD_eq_of_take_eq htake ?_
    rw [sessionIdOffset, sessionIdLenOffset]
    omega
  · rw [hsid] at hhead htake
    exact ⟨htake, hr.findX25519Share_eq hhead (hone hhead)⟩

theorem Reordered.untouched {h h' : Hello} (hr : Reordered h h')
    (hhead : h.head.length = sessionIdOffset + (h.bytes.getD sessionIdLenOffset 0).toNat) :
    Untouched h.bytes h'.bytes :=
  ⟨hr.length_bytes, hr.take_bytes hhead.ge, fun hone => hr.parse_eq hhead fun _ => hone⟩

/-- **No fingerprint changes what the server reads.** -/
theorem untouched_apply (fp : Fingerprint) (sh : Shuffle) (buf : List UInt8) :
    Untouched buf (fp.apply sh buf) := by
  unfold Fingerprint.apply
  split
  · cases hres : (randomizeOrder sh buf).1 with
    | error reason =>
      rw [randomizeOrder_error hres]
      exact Untouched.refl buf
    | ok =>
      obtain ⟨h, h', rfl, hbytes', hreordered, hhead, -⟩ := randomizeOrder_reordered hres
      rw [← hbytes']
      exact hreordered.untouched hhead
  · exact Untouched.refl buf

/-! ## The shuffle as a whole -/

/-- How many `key_share` extensions there are. -/
def Hello.keyShares (h : Hello) : ℕ :=
  (walkExtensions h.extensions.length h.extensions).countP fun e => decide (e.1 = extKeyShare)

/-- With a session id of 32 bytes, the parser counts the same extensions. -/
theorem Hello.oneKeyShare (h : Hello) (hone : h.keyShares = 1)
    (hhead : h.head.length = sessionIdOffset + sessionIdBytes) : OneKeyShare h.bytes :=
  ⟨h.extensions, h.extensionBlock_bytes hhead, hone⟩

/-- **Shuffling is safe**, whatever is in the buffer and whatever is drawn.  A refused buffer is as
it was.  An accepted one was a ClientHello `h` with an even number of bytes of suites and without
`pre_shared_key`, and is a ClientHello `h'` of the same length that differs from `h` in the order
of its suites and of its extensions alone (`Reordered`).  If it had one `key_share`, the parser
makes the same of it as before, errors included. -/
theorem randomizeOrder_safe (sh : Shuffle) (buf : List UInt8) :
    (∀ reason, (randomizeOrder sh buf).1 = .error reason → (randomizeOrder sh buf).2 = buf) ∧
    ((randomizeOrder sh buf).1 = .ok () →
      ∃ h h' : Hello, h.bytes = buf ∧ h'.bytes = (randomizeOrder sh buf).2 ∧ Reordered h h' ∧
        h.head.length = sessionIdOffset + (buf.getD sessionIdLenOffset 0).toNat ∧
        h.suites.length % 2 = 0 ∧ (randomizeOrder sh buf).2.length = buf.length ∧
        (h.keyShares = 1 →
          ClientHelloView.parse (randomizeOrder sh buf).2 = ClientHelloView.parse buf)) := by
  refine ⟨fun reason herr => randomizeOrder_error herr, fun hok => ?_⟩
  obtain ⟨h, h', hbytes, hbytes', hr, hhead, heven⟩ := randomizeOrder_reordered hok
  refine ⟨h, h', hbytes, hbytes', hr, hhead, heven, ?_, fun hone => ?_⟩
  · rw [← hbytes', ← hbytes, hr.length_bytes]
  · rw [← hbytes', ← hbytes]
    rw [← hbytes] at hhead
    exact hr.parse_eq hhead (h.oneKeyShare hone)

/-- Both lists backwards. -/
def reversing : Shuffle where
  suites := List.reverse
  order n := (List.range n).reverse
  suites_perm := List.reverse_perm
  order_perm n := List.reverse_perm (List.range n)

/-- A `server_name` and a `key_share`. -/
def plainExtensions : List UInt8 :=
  [0, 0, 0, 1, 9, 0, 0x33, 0, 38, 0, 36, 0, 0x1d, 0, 32] ++ List.replicate 32 7

/-- Two suites, one compression method and the extensions. -/
def plainHello : List UInt8 :=
  [1, 0, 0, 124, 3, 3] ++ List.replicate 32 0x11 ++ [32] ++ List.replicate 32 0x22 ++
    [0, 4, 0x13, 0x01, 0x13, 0x02] ++ [1, 0] ++ [0, 47] ++ plainExtensions

/-- A ClientHello that is shuffled. -/
theorem randomizeOrder_safe_reversing :
    (randomizeOrder reversing plainHello).1 = .ok () ∧
      ∃ h h' : Hello, h.bytes = plainHello ∧ h'.bytes = (randomizeOrder reversing plainHello).2 ∧
        Reordered h h' := by
  have hok : (randomizeOrder reversing plainHello).1 = .ok () := by decide +kernel
  obtain ⟨h, h', hbytes, hbytes', hreordered, -⟩ :=
    (randomizeOrder_safe reversing plainHello).2 hok
  exact ⟨hok, h, h', hbytes, hbytes', hreordered⟩

end Veil
end HoldTheDonut
