import HoldTheDonut.Veil.Parse

/-!
# Finding the X25519 share, index by index

`parse.rs` walks a ClientHello with a cursor: it compares the cursor with a length and then
indexes.  `Veil.Parse` keeps the rest of the buffer instead of a cursor, where nothing can be
indexed out of range because nothing is indexed.  The first half of this file is the walk with
its cursor, in which `bytes[i]`, `&bytes[lo..hi]` and a copy into an array have an outcome of
their own for what makes them panic.  `Cursor.parse_eq` compares the two walks: the cursor finds
what the lists find, and never that outcome.

The second half says what is found, without a walk.  An extension and an entry of a `key_share`
have the same layout --- sixteen bits of type, sixteen of length, data --- and `FirstTagged` takes
a byte string apart at the first block with a given type: complete blocks of other types, the
block, and anything behind it.  `Located` puts the parts of a whole ClientHello together, and
`parse_share_exact` is that `parse` returns exactly the shares that are located.  The walk stops
at the first block it looks for, so what stands behind it is free, and everything before it is
not.
-/

namespace HoldTheDonut
namespace Veil

variable {bytes : List UInt8}

theorem length_take_drop {i n : ℕ} (h : i + n ≤ bytes.length) :
    ((bytes.drop i).take n).length = n := by
  rw [List.length_take, List.length_drop]
  omega

namespace Cursor

/-! ## Checked access -/

/-- How a walk fails: by a panic on an index, a slice or a copy, or with an error. -/
inductive Fault where
  | outOfRange
  | failed (e : VeilError)
  deriving DecidableEq

/-- `bytes[i]`. -/
def index (bytes : List UInt8) (i : ℕ) : Except Fault UInt8 :=
  match bytes[i]? with
  | some b => .ok b
  | none => .error .outOfRange

/-- `&bytes[lo..hi]`. -/
def slice (bytes : List UInt8) (lo hi : ℕ) : Except Fault (List UInt8) :=
  if lo ≤ hi ∧ hi ≤ bytes.length then .ok ((bytes.take hi).drop lo) else .error .outOfRange

/-- `copy_from_slice` into an array of `n` bytes, and `try_into` with its `expect`. -/
def copyFromSlice (n : ℕ) (src : List UInt8) : Except Fault (Octets n) :=
  if src.length = n then .ok (Octets.fromSlice n src) else .error .outOfRange

/-- `u16::from_be_bytes([bytes[i], bytes[i + 1]])`. -/
def fromBeBytes (bytes : List UInt8) (i : ℕ) : Except Fault ℕ := do
  let hi ← index bytes i
  let lo ← index bytes (i + 1)
  pure (be16 hi lo)

/-! ## The walk -/

/-- The cursor behind a vector with a sixteen-bit length. -/
def skipU16Prefixed (bytes : List UInt8) (cur : ℕ) : Except Fault ℕ :=
  if bytes.length < cur + 2 then .error (.failed .shortClientHello)
  else do
    let len ← fromBeBytes bytes cur
    if bytes.length < cur + 2 + len then .error (.failed .shortClientHello)
    else .ok (cur + 2 + len)

/-- The cursor behind a vector with an eight-bit length. -/
def skipU8Prefixed (bytes : List UInt8) (cur : ℕ) : Except Fault ℕ :=
  if bytes.length ≤ cur then .error (.failed .shortClientHello)
  else do
    let len ← index bytes cur
    if bytes.length < cur + 1 + len.toNat then .error (.failed .shortClientHello)
    else .ok (cur + 1 + len.toNat)

/-- The loop over the entries of a `key_share` list. -/
def keyShareLoop (list : List UInt8) : ℕ → ℕ → Except Fault (Octets 32)
  | 0, _ => .error (.failed .noX25519Share)
  | fuel + 1, cur =>
    if cur + 4 ≤ list.length then do
      let group ← fromBeBytes list cur
      let len ← fromBeBytes list (cur + 2)
      if list.length < cur + 4 + len then .error (.failed .shortClientHello)
      else if group = namedGroupX25519 then
        if len ≠ 32 then .error (.failed .noX25519Share)
        else (slice list (cur + 4) (cur + 4 + len)).bind (copyFromSlice 32)
      else keyShareLoop list fuel (cur + 4 + len)
    else .error (.failed .noX25519Share)

def parseX25519InKeyShare (data : List UInt8) : Except Fault (Octets 32) :=
  if data.length < 2 then .error (.failed .shortClientHello)
  else do
    let listLen ← fromBeBytes data 0
    if data.length < 2 + listLen then .error (.failed .shortClientHello)
    else (slice data 2 (2 + listLen)).bind fun list => keyShareLoop list list.length 0

/-- The loop over the extensions, up to the end of their block. -/
def extensionLoop (bytes : List UInt8) (extEnd : ℕ) : ℕ → ℕ → Except Fault (Octets 32)
  | 0, _ => .error (.failed .missingKeyShare)
  | fuel + 1, cur =>
    if cur + 4 ≤ extEnd then do
      let extType ← fromBeBytes bytes cur
      let extLen ← fromBeBytes bytes (cur + 2)
      if extEnd < cur + 4 + extLen then .error (.failed .shortClientHello)
      else if extType = extKeyShare then
        (slice bytes (cur + 4) (cur + 4 + extLen)).bind parseX25519InKeyShare
      else extensionLoop bytes extEnd fuel (cur + 4 + extLen)
    else .error (.failed .missingKeyShare)

/-- From the length of the extension block on. -/
def findInExtensions (bytes : List UInt8) (cur : ℕ) : Except Fault (Octets 32) :=
  if bytes.length < cur + 2 then .error (.failed .shortClientHello)
  else do
    let extTotal ← fromBeBytes bytes cur
    if bytes.length < cur + 2 + extTotal then .error (.failed .shortClientHello)
    else extensionLoop bytes (cur + 2 + extTotal) extTotal (cur + 2)

def findX25519Share (bytes : List UInt8) : Except Fault (Octets 32) := do
  let cur ← skipU16Prefixed bytes (sessionIdOffset + sessionIdBytes)
  let cur ← skipU8Prefixed bytes cur
  findInExtensions bytes cur

/-- The fields, once the length of the session id is right. -/
def parseFields (bytes : List UInt8) : Except Fault ClientHelloView := do
  let random ← (slice bytes randomOffset sessionIdLenOffset).bind (copyFromSlice 32)
  let sessionId ← (slice bytes sessionIdOffset (sessionIdOffset + 32)).bind (copyFromSlice 32)
  let x25519Pub ← findX25519Share bytes
  pure ⟨random, sessionId, x25519Pub⟩

/-- `ClientHelloView::parse`. -/
def parse (bytes : List UInt8) : Except Fault ClientHelloView :=
  if bytes.length < sessionIdOffset + sessionIdBytes then .error (.failed .shortClientHello)
  else do
    let sessionIdLen ← index bytes sessionIdLenOffset
    if sessionIdLen.toNat ≠ sessionIdBytes then .error (.failed .badSessionIdLength)
    else parseFields bytes

/-! ## The cursor and the rest of the buffer -/

/-- An error of the parser, as a fault of the walk. -/
def lift {α : Type} : Except VeilError α → Except Fault α
  | .ok a => .ok a
  | .error e => .error (.failed e)

theorem u16At_drop (l : List UInt8) (cur off : ℕ) :
    u16At (l.drop cur) off = u16At l (cur + off) := by
  simp [u16At, List.getD_eq_getElem?_getD, Nat.add_assoc]

theorem u16At_drop_zero (l : List UInt8) (cur : ℕ) : u16At (l.drop cur) 0 = u16At l cur :=
  u16At_drop l cur 0

theorem u16At_take {l : List UInt8} {n off : ℕ} (h : off + 2 ≤ n) :
    u16At (l.take n) off = u16At l off := by
  have h₀ : off < n := by omega
  have h₁ : off + 1 < n := by omega
  simp [u16At, List.getD_eq_getElem?_getD, List.getElem?_take_of_lt, h₀, h₁]

section Access

variable {i : ℕ}

theorem index_of_lt (h : i < bytes.length) : index bytes i = .ok (bytes.getD i 0) := by
  rw [index, List.getElem?_eq_getElem h, List.getD_eq_getElem _ _ h]

theorem fromBeBytes_of_le (h : i + 2 ≤ bytes.length) :
    fromBeBytes bytes i = .ok (u16At bytes i) := by
  rw [fromBeBytes, index_of_lt (by omega), index_of_lt (by omega)]
  rfl

theorem slice_of_le {n : ℕ} (h : i + n ≤ bytes.length) :
    slice bytes i (i + n) = .ok ((bytes.drop i).take n) := by
  rw [slice, if_pos ⟨Nat.le_add_right i n, h⟩, List.drop_take, Nat.add_sub_cancel_left]

theorem copyFromSlice_of_length {n : ℕ} (h : bytes.length = n) :
    copyFromSlice n bytes = .ok (Octets.fromSlice n bytes) := if_pos h

/-- A slice of 32 bytes fills its array. -/
theorem slice_copy (bytes : List UInt8) (i : ℕ) (h : i + 32 ≤ bytes.length) :
    (slice bytes i (i + 32)).bind (copyFromSlice 32) =
      .ok (Octets.fromSlice 32 ((bytes.drop i).take 32)) := by
  rw [slice_of_le h]
  exact copyFromSlice_of_length (length_take_drop h)

end Access

variable {cur : ℕ}

theorem keyShareLoop_eq (list : List UInt8) (fuel : ℕ) (h : cur ≤ list.length) :
    keyShareLoop list fuel cur = lift (Veil.keyShareLoop fuel (list.drop cur)) := by
  induction fuel generalizing cur with
  | zero => rfl
  | succ fuel ih =>
    rw [keyShareLoop, Veil.keyShareLoop, List.length_drop, u16At_drop_zero, u16At_drop]
    by_cases hfour : cur + 4 ≤ list.length
    · rw [if_pos hfour, if_neg (by omega), fromBeBytes_of_le (by omega),
        fromBeBytes_of_le (by omega)]
      simp only [bind, Except.bind]
      by_cases hlen : list.length < cur + 4 + u16At list (cur + 2)
      · rw [if_pos hlen, if_pos (by omega)]
        rfl
      · have hrest : ¬ list.length - cur < 4 + u16At list (cur + 2) := by omega
        rw [if_neg hlen, if_neg hrest]
        by_cases hgroup : u16At list cur = namedGroupX25519
        · rw [if_pos hgroup, if_pos hgroup]
          by_cases hsize : u16At list (cur + 2) = 32
          · have hkey := slice_copy list (cur + 4) (by omega)
            rw [if_neg (not_not.mpr hsize), if_neg (not_not.mpr hsize), hsize, List.drop_drop]
            exact hkey
          · rw [if_pos hsize, if_pos hsize]
            rfl
        · rw [if_neg hgroup, if_neg hgroup, ih (by omega), List.drop_drop, Nat.add_assoc]
    · rw [if_neg hfour, if_pos (by omega)]
      rfl

theorem parseX25519InKeyShare_eq (data : List UInt8) :
    parseX25519InKeyShare data = lift (Veil.parseX25519InKeyShare data) := by
  unfold parseX25519InKeyShare Veil.parseX25519InKeyShare
  by_cases htwo : data.length < 2
  · rw [if_pos htwo, if_pos htwo]
    rfl
  · rw [if_neg htwo, if_neg htwo, fromBeBytes_of_le (by omega)]
    simp only [bind, Except.bind]
    by_cases hlen : data.length < 2 + u16At data 0
    · rw [if_pos hlen, if_pos hlen]
      rfl
    · rw [if_neg hlen, if_neg hlen, slice_of_le (by omega)]
      exact keyShareLoop_eq _ _ (Nat.zero_le _)

/-- The extensions still to be walked are what is left of the block. -/
theorem extensionLoop_eq {extEnd : ℕ} (hend : extEnd ≤ bytes.length) (fuel : ℕ) (h : cur ≤ extEnd) :
    extensionLoop bytes extEnd fuel cur =
      lift (Veil.extensionLoop fuel ((bytes.take extEnd).drop cur)) := by
  induction fuel generalizing cur with
  | zero => rfl
  | succ fuel ih =>
    have hblock : ((bytes.take extEnd).drop cur).length = extEnd - cur := by
      rw [List.length_drop, List.length_take, Nat.min_eq_left hend]
    rw [extensionLoop, Veil.extensionLoop, hblock, u16At_drop_zero, u16At_drop]
    by_cases hfour : cur + 4 ≤ extEnd
    · rw [if_pos hfour, if_neg (by omega), fromBeBytes_of_le (by omega),
        fromBeBytes_of_le (by omega), u16At_take (by omega), u16At_take (by omega)]
      simp only [bind, Except.bind]
      by_cases hlen : extEnd < cur + 4 + u16At bytes (cur + 2)
      · rw [if_pos hlen, if_pos (by omega)]
        rfl
      · have hrest : ¬ extEnd - cur < 4 + u16At bytes (cur + 2) := by omega
        rw [if_neg hlen, if_neg hrest]
        by_cases htype : u16At bytes cur = extKeyShare
        · have hdata : ((bytes.take extEnd).drop (cur + 4)).take (u16At bytes (cur + 2)) =
              (bytes.drop (cur + 4)).take (u16At bytes (cur + 2)) := by
            rw [List.drop_take, List.take_take, Nat.min_eq_left (by omega)]
          rw [if_pos htype, if_pos htype, slice_of_le (by omega), List.drop_drop, hdata]
          exact parseX25519InKeyShare_eq _
        · rw [if_neg htype, if_neg htype, ih (by omega), List.drop_drop, Nat.add_assoc]
    · rw [if_neg hfour, if_pos (by omega)]
      rfl

/-- A cursor and the rest of the buffer behind it, or the same error. -/
inductive SameRest (bytes : List UInt8) :
    Except Fault ℕ → Except VeilError (List UInt8) → Prop where
  | ok {cur : ℕ} (h : cur ≤ bytes.length) : SameRest bytes (.ok cur) (.ok (bytes.drop cur))
  | error (e : VeilError) : SameRest bytes (.error (.failed e)) (.error e)

section Skips

theorem skipU16Prefixed_sameRest (h : cur ≤ bytes.length) :
    SameRest bytes (skipU16Prefixed bytes cur) (Veil.skipU16Prefixed (bytes.drop cur)) := by
  unfold skipU16Prefixed Veil.skipU16Prefixed
  rw [List.length_drop, u16At_drop_zero]
  by_cases htwo : bytes.length < cur + 2
  · rw [if_pos htwo, if_pos (by omega)]
    exact .error _
  · rw [if_neg htwo, if_neg (by omega), fromBeBytes_of_le (by omega)]
    simp only [bind, Except.bind]
    by_cases hlen : bytes.length < cur + 2 + u16At bytes cur
    · rw [if_pos hlen, if_pos (by omega)]
      exact .error _
    · rw [if_neg hlen, if_neg (by omega), List.drop_drop, ← Nat.add_assoc]
      exact .ok (by omega)

theorem skipU8Prefixed_sameRest (h : cur ≤ bytes.length) :
    SameRest bytes (skipU8Prefixed bytes cur) (Veil.skipU8Prefixed (bytes.drop cur)) := by
  have hhead : (bytes.drop cur).getD 0 0 = bytes.getD cur 0 := by
    simp [List.getD_eq_getElem?_getD]
  unfold skipU8Prefixed Veil.skipU8Prefixed
  rw [List.length_drop, hhead]
  by_cases hone : bytes.length ≤ cur
  · rw [if_pos hone, if_pos (by omega)]
    exact .error _
  · rw [if_neg hone, if_neg (by omega), index_of_lt (by omega)]
    simp only [bind, Except.bind]
    by_cases hlen : bytes.length < cur + 1 + (bytes.getD cur 0).toNat
    · rw [if_pos hlen, if_pos (by omega)]
      exact .error _
    · rw [if_neg hlen, if_neg (by omega), List.drop_drop, ← Nat.add_assoc]
      exact .ok (by omega)

end Skips

/-- The extension block, from its length field on. -/
theorem findInExtensions_eq (h : cur ≤ bytes.length) :
    findInExtensions bytes cur =
      lift (if (bytes.drop cur).length < 2 then .error .shortClientHello
        else if (bytes.drop cur).length < 2 + u16At (bytes.drop cur) 0 then
          .error .shortClientHello
        else
          Veil.extensionLoop (u16At (bytes.drop cur) 0)
            (((bytes.drop cur).drop 2).take (u16At (bytes.drop cur) 0))) := by
  unfold findInExtensions
  rw [List.length_drop, u16At_drop_zero]
  by_cases htwo : bytes.length < cur + 2
  · rw [if_pos htwo, if_pos (by omega)]
    rfl
  · rw [if_neg htwo, if_neg (by omega), fromBeBytes_of_le (by omega)]
    simp only [bind, Except.bind]
    by_cases hlen : bytes.length < cur + 2 + u16At bytes cur
    · rw [if_pos hlen, if_pos (by omega)]
      rfl
    · rw [if_neg hlen, if_neg (by omega), extensionLoop_eq (by omega) _ (by omega),
        List.drop_take, Nat.add_sub_cancel_left, List.drop_drop]

theorem findX25519Share_eq (h : sessionIdOffset + sessionIdBytes ≤ bytes.length) :
    findX25519Share bytes = lift (Veil.findX25519Share bytes) := by
  unfold findX25519Share Veil.findX25519Share extensionBlock
  have hsuites := skipU16Prefixed_sameRest h
  generalize skipU16Prefixed bytes (sessionIdOffset + sessionIdBytes) = c at hsuites
  generalize Veil.skipU16Prefixed (bytes.drop (sessionIdOffset + sessionIdBytes)) = r at hsuites
  cases hsuites with
  | error e => rfl
  | @ok cur hcur =>
    have hcompression := skipU8Prefixed_sameRest hcur
    simp only [bind, Except.bind]
    generalize skipU8Prefixed bytes cur = c at hcompression
    generalize Veil.skipU8Prefixed (bytes.drop cur) = r at hcompression
    cases hcompression with
    | error e => rfl
    | @ok cur hcur =>
      simp only [findInExtensions_eq hcur]
      split
      · rfl
      · split
        · rfl
        · next hlen =>
          have hblock : (((bytes.drop cur).drop 2).take (u16At (bytes.drop cur) 0)).length =
              u16At (bytes.drop cur) 0 := length_take_drop (Nat.not_lt.mp hlen)
          simp only [hblock]

/-- **The cursor finds what the lists find, and never leaves a buffer.** -/
theorem parse_eq (bytes : List UInt8) : parse bytes = lift (ClientHelloView.parse bytes) := by
  unfold parse ClientHelloView.parse
  by_cases hshort : bytes.length < sessionIdOffset + sessionIdBytes
  · rw [if_pos hshort, if_pos hshort]
    rfl
  · have hlen : 71 ≤ bytes.length := Nat.not_lt.mp hshort
    rw [if_neg hshort, if_neg hshort, index_of_lt (Nat.lt_of_lt_of_le (by decide) hlen)]
    simp only [bind, Except.bind]
    by_cases hsid : (bytes.getD sessionIdLenOffset 0).toNat = sessionIdBytes
    · rw [if_neg (not_not.mpr hsid), if_neg (not_not.mpr hsid)]
      have hrandom := slice_copy bytes randomOffset (le_trans (by decide) hlen)
      have hsession := slice_copy bytes sessionIdOffset hlen
      unfold parseFields
      rw [show sessionIdLenOffset = randomOffset + 32 from rfl, hrandom, hsession,
        findX25519Share_eq hlen]
      cases Veil.findX25519Share bytes <;> rfl
    · rw [if_pos hsid, if_pos hsid]
      rfl

end Cursor

/-! ## The parts of a hello -/

/-- A vector with a sixteen-bit length stands at the front. -/
def Vector16 (s body behind : List UInt8) : Prop :=
  ∃ hi lo : UInt8, s = hi :: lo :: (body ++ behind) ∧ body.length = be16 hi lo

/-- A vector with an eight-bit length stands at the front. -/
def Vector8 (s body behind : List UInt8) : Prop :=
  ∃ len : UInt8, s = len :: (body ++ behind) ∧ body.length = len.toNat

/-- A block stands at the front: type, length and data. -/
def Block (s : List UInt8) (tag : ℕ) (data behind : List UInt8) : Prop :=
  ∃ tagHi tagLo lenHi lenLo : UInt8, s = tagHi :: tagLo :: lenHi :: lenLo :: (data ++ behind) ∧
    be16 tagHi tagLo = tag ∧ data.length = be16 lenHi lenLo

/-- The data of the first block of a type.  The blocks before it are complete, and so is it;
behind it anything may follow. -/
inductive FirstTagged (tag : ℕ) : List UInt8 → List UInt8 → Prop where
  | here {s data behind : List UInt8} : Block s tag data behind → FirstTagged tag s data
  | there {s skipped rest data : List UInt8} {other : ℕ} : Block s other skipped rest →
    other ≠ tag → FirstTagged tag rest data → FirstTagged tag s data

/-- **The hello has a share, and this is its key.** -/
structure Located (bytes key : List UInt8) : Prop where
  length_le : 71 ≤ bytes.length
  sessionIdLen_eq : bytes[38]? = some 32
  /-- Cipher suites, compression methods, extensions; in them the first `key_share`; in it a
  list; in the list the first X25519 entry. -/
  share : ∃ suites s₁ compression s₂ extensions s₃ data list s₄ : List UInt8,
    Vector16 (bytes.drop 71) suites s₁ ∧ Vector8 s₁ compression s₂ ∧
    Vector16 s₂ extensions s₃ ∧ FirstTagged extKeyShare extensions data ∧
    Vector16 data list s₄ ∧ FirstTagged namedGroupX25519 list key ∧ key.length = 32

/-! ## Parts and cursors -/

variable {s body behind : List UInt8}

/-- A header of `n` bytes, and behind it something of a known length. -/
theorem eq_header_append_iff (header : List UInt8) {n : ℕ} (hn : header.length = n) {k : ℕ} :
    s = header ++ (body ++ behind) ∧ body.length = k ↔ s.take n = header ∧ n + k ≤ s.length ∧
      body = (s.drop n).take k ∧ behind = s.drop (n + k) := by
  subst hn
  constructor
  · rintro ⟨rfl, rfl⟩
    rw [← List.drop_drop, List.drop_left, List.drop_left, List.take_left, List.take_left]
    refine ⟨rfl, ?_, rfl, rfl⟩
    rw [List.length_append, List.length_append]
    omega
  · rintro ⟨hheader, hle, rfl, rfl⟩
    refine ⟨?_, length_take_drop hle⟩
    rw [← List.drop_drop, List.take_append_drop]
    exact (List.take_append_drop header.length s).symm.trans (by rw [hheader])

theorem vector16_iff :
    Vector16 s body behind ↔ 2 ≤ s.length ∧ 2 + u16At s 0 ≤ s.length ∧
      body = (s.drop 2).take (u16At s 0) ∧ behind = s.drop (2 + u16At s 0) := by
  constructor
  · rintro ⟨hi, lo, hs, hlen⟩
    obtain ⟨-, hparts⟩ := (eq_header_append_iff [hi, lo] rfl).mp ⟨hs, hlen⟩
    have hfield : u16At s 0 = be16 hi lo := by rw [hs]; rfl
    rw [hfield]
    exact ⟨by rw [hs]; simp, hparts⟩
  · rintro ⟨htwo, hparts⟩
    rcases s with _ | ⟨hi, _ | ⟨lo, rest⟩⟩
    · simp at htwo
    · simp at htwo
    · have hfield : u16At (hi :: lo :: rest) 0 = be16 hi lo := rfl
      rw [hfield] at hparts
      exact ⟨hi, lo, (eq_header_append_iff [hi, lo] rfl).mpr ⟨rfl, hparts⟩⟩

theorem vector8_iff :
    Vector8 s body behind ↔ 1 ≤ s.length ∧ 1 + (s.getD 0 0).toNat ≤ s.length ∧
      body = (s.drop 1).take (s.getD 0 0).toNat ∧ behind = s.drop (1 + (s.getD 0 0).toNat) := by
  constructor
  · rintro ⟨len, hs, hlen⟩
    obtain ⟨-, hparts⟩ := (eq_header_append_iff [len] rfl).mp ⟨hs, hlen⟩
    have hfield : s.getD 0 0 = len := by rw [hs]; rfl
    rw [hfield]
    exact ⟨by rw [hs]; simp, hparts⟩
  · rintro ⟨hone, hparts⟩
    rcases s with _ | ⟨len, rest⟩
    · simp at hone
    · exact ⟨len, (eq_header_append_iff [len] rfl).mpr ⟨rfl, hparts⟩⟩

variable {data : List UInt8}

theorem block_iff {tag : ℕ} :
    Block s tag data behind ↔ 4 ≤ s.length ∧ u16At s 0 = tag ∧ 4 + u16At s 2 ≤ s.length ∧
      data = (s.drop 4).take (u16At s 2) ∧ behind = s.drop (4 + u16At s 2) := by
  constructor
  · rintro ⟨tagHi, tagLo, lenHi, lenLo, hs, htag, hlen⟩
    obtain ⟨-, hparts⟩ := (eq_header_append_iff [tagHi, tagLo, lenHi, lenLo] rfl).mp ⟨hs, hlen⟩
    have htype : u16At s 0 = be16 tagHi tagLo := by rw [hs]; rfl
    have hfield : u16At s 2 = be16 lenHi lenLo := by rw [hs]; rfl
    rw [hfield]
    exact ⟨by rw [hs]; simp, htype.trans htag, hparts⟩
  · rintro ⟨hfour, htag, hparts⟩
    rcases s with _ | ⟨tagHi, _ | ⟨tagLo, _ | ⟨lenHi, _ | ⟨lenLo, rest⟩⟩⟩⟩
    iterate 4 simp at hfour
    · have hfield : u16At (tagHi :: tagLo :: lenHi :: lenLo :: rest) 2 = be16 lenHi lenLo := rfl
      rw [hfield] at hparts
      obtain ⟨hs, hlen⟩ :=
        (eq_header_append_iff [tagHi, tagLo, lenHi, lenLo] rfl).mpr ⟨rfl, hparts⟩
      exact ⟨tagHi, tagLo, lenHi, lenLo, hs, htag, hlen⟩

/-- One step towards the first block of a type. -/
theorem firstTagged_iff {tag : ℕ} :
    FirstTagged tag s data ↔ 4 ≤ s.length ∧ 4 + u16At s 2 ≤ s.length ∧
      if u16At s 0 = tag then data = (s.drop 4).take (u16At s 2)
      else FirstTagged tag (s.drop (4 + u16At s 2)) data := by
  constructor
  · intro h
    cases h with
    | here hblock =>
      obtain ⟨hfour, htag, hle, hdata, -⟩ := block_iff.mp hblock
      exact ⟨hfour, hle, by rw [if_pos htag]; exact hdata⟩
    | there hblock hother hrest =>
      obtain ⟨hfour, htag, hle, -, hbehind⟩ := block_iff.mp hblock
      refine ⟨hfour, hle, ?_⟩
      rw [if_neg (htag ▸ hother), ← hbehind]
      exact hrest
  · rintro ⟨hfour, hle, hstep⟩
    split at hstep
    · next htag => exact .here (block_iff.mpr ⟨hfour, htag, hle, hstep, rfl⟩)
    · next htag => exact .there (block_iff.mpr ⟨hfour, rfl, hle, rfl, rfl⟩) htag hstep

/-! ## What the parser returns -/

theorem skipU16Prefixed_eq_ok_iff {rest : List UInt8} :
    skipU16Prefixed s = .ok rest ↔ ∃ body, Vector16 s body rest := by
  simp only [vector16_iff, skipU16Prefixed]
  split
  · next h => exact ⟨(fun e => by cases e), fun ⟨_, htwo, _⟩ => absurd htwo (by omega)⟩
  · split
    · next h => exact ⟨(fun e => by cases e), fun ⟨_, _, hle, _⟩ => absurd hle (by omega)⟩
    · next htwo hle =>
      constructor
      · intro e
        cases e
        exact ⟨_, by omega, by omega, rfl, rfl⟩
      · rintro ⟨_, -, -, -, rfl⟩
        rfl

theorem skipU8Prefixed_eq_ok_iff {rest : List UInt8} :
    skipU8Prefixed s = .ok rest ↔ ∃ body, Vector8 s body rest := by
  simp only [vector8_iff, skipU8Prefixed]
  split
  · next h => exact ⟨(fun e => by cases e), fun ⟨_, hone, _⟩ => absurd hone (by omega)⟩
  · split
    · next h => exact ⟨(fun e => by cases e), fun ⟨_, _, hle, _⟩ => absurd hle (by omega)⟩
    · next hone hle =>
      constructor
      · intro e
        cases e
        exact ⟨_, by omega, by omega, rfl, rfl⟩
      · rintro ⟨_, -, -, -, rfl⟩
        rfl

variable {key : Octets 32}

/-- A block takes four bytes at least, so the length of the list is enough fuel. -/
theorem keyShareLoop_eq_ok_iff {fuel : ℕ} (hfuel : s.length ≤ fuel) :
    keyShareLoop fuel s = .ok key ↔
      FirstTagged namedGroupX25519 s key.toList ∧ key.toList.length = 32 := by
  rw [and_iff_left key.toList_length]
  induction fuel generalizing s with
  | zero =>
    rw [firstTagged_iff, keyShareLoop]
    exact ⟨(fun e => by cases e), fun h => absurd h.1 (by omega)⟩
  | succ fuel ih =>
    rw [firstTagged_iff, keyShareLoop]
    by_cases hfour : s.length < 4
    · rw [if_pos hfour]
      exact ⟨(fun e => by cases e), fun h => absurd h.1 (by omega)⟩
    · by_cases hlen : s.length < 4 + u16At s 2
      · rw [if_neg hfour, if_pos hlen]
        exact ⟨(fun e => by cases e), fun h => absurd h.2.1 (by omega)⟩
      · rw [if_neg hfour, if_neg hlen, and_iff_right (Nat.not_lt.mp hfour),
          and_iff_right (Nat.not_lt.mp hlen)]
        by_cases htag : u16At s 0 = namedGroupX25519
        · rw [if_pos htag, if_pos htag]
          have hdata : ((s.drop 4).take (u16At s 2)).length = u16At s 2 :=
            length_take_drop (Nat.not_lt.mp hlen)
          by_cases hsize : u16At s 2 = 32
          · rw [hsize] at hdata
            rw [if_neg (not_not.mpr hsize), hsize]
            constructor
            · intro e
              cases e
              exact Octets.toList_fromSlice hdata
            · intro e
              rw [← e, Octets.fromSlice_toList]
          · rw [if_pos hsize]
            refine ⟨(fun e => by cases e), fun e => absurd ?_ hsize⟩
            rw [← hdata, ← e, key.toList_length]
        · rw [if_neg htag, if_neg htag]
          exact ih (by rw [List.length_drop]; omega)

theorem parseX25519InKeyShare_eq_ok_iff :
    parseX25519InKeyShare data = .ok key ↔ ∃ list behind, Vector16 data list behind ∧
      FirstTagged namedGroupX25519 list key.toList ∧ key.toList.length = 32 := by
  simp only [parseX25519InKeyShare, vector16_iff]
  by_cases htwo : data.length < 2
  · rw [if_pos htwo]
    exact ⟨(fun e => by cases e), fun ⟨_, _, h, _⟩ => absurd h.1 (by omega)⟩
  · by_cases hlen : data.length < 2 + u16At data 0
    · rw [if_neg htwo, if_pos hlen]
      exact ⟨(fun e => by cases e), fun ⟨_, _, h, _⟩ => absurd h.2.1 (by omega)⟩
    · rw [if_neg htwo, if_neg hlen, keyShareLoop_eq_ok_iff le_rfl]
      constructor
      · exact fun h => ⟨_, _, ⟨by omega, by omega, rfl, rfl⟩, h⟩
      · rintro ⟨_, _, ⟨-, -, rfl, rfl⟩, h⟩
        exact h

theorem extensionLoop_eq_ok_iff {fuel : ℕ} (hfuel : s.length ≤ fuel) :
    extensionLoop fuel s = .ok key ↔
      ∃ data, FirstTagged extKeyShare s data ∧ parseX25519InKeyShare data = .ok key := by
  induction fuel generalizing s with
  | zero =>
    refine ⟨(fun e => by cases e), fun ⟨_, h, _⟩ => ?_⟩
    exact absurd (firstTagged_iff.mp h).1 (by omega)
  | succ fuel ih =>
    rw [extensionLoop]
    by_cases hfour : s.length < 4
    · rw [if_pos hfour]
      refine ⟨(fun e => by cases e), fun ⟨_, h, _⟩ => ?_⟩
      exact absurd (firstTagged_iff.mp h).1 (by omega)
    · by_cases hlen : s.length < 4 + u16At s 2
      · rw [if_neg hfour, if_pos hlen]
        refine ⟨(fun e => by cases e), fun ⟨_, h, _⟩ => ?_⟩
        exact absurd (firstTagged_iff.mp h).2.1 (by omega)
      · have hstep : ∀ data, FirstTagged extKeyShare s data ↔
            if u16At s 0 = extKeyShare then data = (s.drop 4).take (u16At s 2)
            else FirstTagged extKeyShare (s.drop (4 + u16At s 2)) data := fun data => by
          rw [firstTagged_iff, and_iff_right (Nat.not_lt.mp hfour),
            and_iff_right (Nat.not_lt.mp hlen)]
        simp only [hstep]
        rw [if_neg hfour, if_neg hlen]
        by_cases htag : u16At s 0 = extKeyShare
        · simp only [if_pos htag, exists_eq_left]
        · simp only [if_neg htag]
          exact ih (by rw [List.length_drop]; omega)

theorem extensionBlock_eq_ok_iff {extensions : List UInt8} :
    extensionBlock bytes = .ok extensions ↔ ∃ suites s₁ compression s₂ s₃ : List UInt8,
      Vector16 (bytes.drop 71) suites s₁ ∧ Vector8 s₁ compression s₂ ∧
      Vector16 s₂ extensions s₃ := by
  unfold extensionBlock
  rw [show sessionIdOffset + sessionIdBytes = 71 from rfl]
  constructor
  · intro h
    split at h
    · cases h
    · next s₁ hsuites =>
      split at h
      · cases h
      · next s₂ hcompression =>
        split at h
        · cases h
        · next htwo =>
          split at h
          · cases h
          · next hlen =>
            cases h
            obtain ⟨suites, hsuites⟩ := skipU16Prefixed_eq_ok_iff.mp hsuites
            obtain ⟨compression, hcompression⟩ := skipU8Prefixed_eq_ok_iff.mp hcompression
            exact ⟨suites, s₁, compression, s₂, _, hsuites, hcompression,
              vector16_iff.mpr ⟨by omega, by omega, rfl, rfl⟩⟩
  · rintro ⟨suites, s₁, compression, s₂, s₃, hsuites, hcompression, hextensions⟩
    obtain ⟨htwo, hlen, rfl, -⟩ := vector16_iff.mp hextensions
    simp only [skipU16Prefixed_eq_ok_iff.mpr ⟨suites, hsuites⟩,
      skipU8Prefixed_eq_ok_iff.mpr ⟨compression, hcompression⟩]
    rw [if_neg (by omega), if_neg (by omega)]

theorem findX25519Share_eq_ok_iff :
    findX25519Share bytes = .ok key ↔ ∃ extensions data, extensionBlock bytes = .ok extensions ∧
      FirstTagged extKeyShare extensions data ∧ parseX25519InKeyShare data = .ok key := by
  unfold findX25519Share
  cases extensionBlock bytes with
  | error e => exact ⟨(fun h => by cases h), fun ⟨_, _, h, _⟩ => by cases h⟩
  | ok extensions =>
    simp only [extensionLoop_eq_ok_iff le_rfl, Except.ok.injEq, exists_and_left, exists_eq_left']

/-- The length of the session id, as a byte and as a number. -/
theorem sessionIdLen_iff (h : 71 ≤ bytes.length) :
    (bytes.getD sessionIdLenOffset 0).toNat = sessionIdBytes ↔ bytes[38]? = some 32 := by
  have hlt : 38 < bytes.length := by omega
  rw [sessionIdLenOffset, sessionIdBytes, List.getD_eq_getElem _ _ hlt,
    List.getElem?_eq_getElem hlt, Option.some.injEq]
  exact UInt8.toNat_inj (b := 32)

/-- **A share is found exactly where the hello has one.** -/
theorem accepted_iff_located {view : ClientHelloView} :
    Accepted bytes view ↔ Located bytes view.x25519Pub.toList ∧
      view.random.toList = (bytes.drop 6).take 32 ∧
      view.sessionId.toList = (bytes.drop 39).take 32 := by
  constructor
  · intro h
    have hlen : 71 ≤ bytes.length := h.length_le
    obtain ⟨extensions, data, hblock, hfirst, hkey⟩ := findX25519Share_eq_ok_iff.mp h.share_eq
    obtain ⟨suites, s₁, compression, s₂, s₃, hsuites, hcompression, hextensions⟩ :=
      extensionBlock_eq_ok_iff.mp hblock
    obtain ⟨list, s₄, hlist, hentry⟩ := parseX25519InKeyShare_eq_ok_iff.mp hkey
    refine ⟨⟨hlen, (sessionIdLen_iff hlen).mp h.sessionIdLen_eq, suites, s₁, compression, s₂,
      extensions, s₃, data, list, s₄, hsuites, hcompression, hextensions, hfirst, hlist, hentry⟩,
      ?_, ?_⟩
    · rw [h.random_eq]
      exact Octets.toList_fromSlice (length_take_drop (le_trans (by decide) hlen))
    · rw [h.sessionId_eq]
      exact Octets.toList_fromSlice (length_take_drop hlen)
  · rintro ⟨⟨hlen, hsid, suites, s₁, compression, s₂, extensions, s₃, data, list, s₄, hsuites,
      hcompression, hextensions, hfirst, hlist, hentry⟩, hrandom, hsession⟩
    have hblock : extensionBlock bytes = .ok extensions := extensionBlock_eq_ok_iff.mpr
      ⟨suites, s₁, compression, s₂, s₃, hsuites, hcompression, hextensions⟩
    have hkey : parseX25519InKeyShare data = .ok view.x25519Pub :=
      parseX25519InKeyShare_eq_ok_iff.mpr ⟨list, s₄, hlist, hentry⟩
    exact ⟨hlen, (sessionIdLen_iff hlen).mpr hsid,
      findX25519Share_eq_ok_iff.mpr ⟨extensions, data, hblock, hfirst, hkey⟩,
      (Octets.fromSlice_toList view.random).symm.trans (congrArg (Octets.fromSlice 32) hrandom),
      (Octets.fromSlice_toList view.sessionId).symm.trans
        (congrArg (Octets.fromSlice 32) hsession)⟩

/-- **`parse` never leaves its buffers, accepts exactly the hellos that have a share, and
returns its key with the random and the session id.** -/
theorem parse_share_exact (bytes : List UInt8) :
    Cursor.parse bytes ≠ .error .outOfRange ∧
    ((∃ view, Cursor.parse bytes = .ok view) ↔ ∃ key, Located bytes key) ∧
    ∀ view : ClientHelloView, Cursor.parse bytes = .ok view ↔
      Located bytes view.x25519Pub.toList ∧ view.random.toList = (bytes.drop 6).take 32 ∧
      view.sessionId.toList = (bytes.drop 39).take 32 := by
  have hview : ∀ view : ClientHelloView, Cursor.parse bytes = .ok view ↔
      Located bytes view.x25519Pub.toList ∧ view.random.toList = (bytes.drop 6).take 32 ∧
      view.sessionId.toList = (bytes.drop 39).take 32 := by
    intro view
    rw [Cursor.parse_eq, ← accepted_iff_located, ← parse_eq_ok_iff]
    cases ClientHelloView.parse bytes <;> simp [Cursor.lift]
  refine ⟨?_, ⟨fun ⟨view, h⟩ => ⟨_, ((hview view).mp h).1⟩, fun ⟨key, h⟩ => ?_⟩, hview⟩
  · rw [Cursor.parse_eq]
    cases ClientHelloView.parse bytes <;> simp [Cursor.lift]
  · obtain ⟨-, -, -, -, -, -, -, -, -, -, -, -, -, -, -, hkey⟩ := h.share
    refine ⟨⟨Octets.fromSlice 32 ((bytes.drop 6).take 32),
      Octets.fromSlice 32 ((bytes.drop 39).take 32), Octets.fromSlice 32 key⟩, (hview _).mpr ?_⟩
    rw [Octets.toList_fromSlice hkey,
      Octets.toList_fromSlice (length_take_drop (le_trans (by decide) h.length_le)),
      Octets.toList_fromSlice (length_take_drop h.length_le)]
    exact ⟨h, rfl, rfl⟩

end Veil
end HoldTheDonut
