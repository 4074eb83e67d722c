import Mathlib.Data.Finset.Insert
import HoldTheDonut.Veil.Fingerprint

/-!
# `donut-veil`: sealing and opening the session id

The client hides `version | 0 | time | short id` in the session id of its ClientHello,
sealed under a key that only the holder of the server's private key can derive too:

    shared  = X25519(client ephemeral, server public)
    authKey = HKDF-SHA256(salt = random[..20], info = "REALITY", shared)
    sealed  = AES-256-GCM(authKey, nonce = random[20..32], aad = hello with the id zeroed)

The three primitives are the functions of a `Crypto`; `Crypto.Lawful` is what the two
sides need of them.  The client (`client.rs`) seals a buffer that its fingerprint has just
shuffled, with offsets of its own; the server (`server.rs`) parses the bytes that arrive.
They agree because a sealed buffer parses like the body it came from, apart from the
session id (`Framed.accepted_withSessionId`), and because zeroing the session id gives both the
same associated data (`Framed`).
-/

namespace HoldTheDonut
namespace Veil

/-! ## The primitives -/

/-- X25519, HKDF-SHA256 and AES-256-GCM at the sizes the handshake uses.  A message of 16
bytes is sealed into 32, with the tag. -/
structure Crypto where
  publicKey : Octets 32 → Octets 32
  diffieHellman : Octets 32 → Octets 32 → Octets 32
  /-- From salt, secret and info to 32 bytes. -/
  hkdf : List UInt8 → Octets 32 → List UInt8 → Octets 32
  /-- Under key and nonce, the message with the associated data. -/
  encrypt : Octets 32 → Octets 12 → Octets 16 → List UInt8 → Octets 32
  decrypt : Octets 32 → Octets 12 → Octets 32 → List UInt8 → Option (List UInt8)

/-- Both ends of an exchange get the same secret, and decryption undoes encryption. -/
structure Crypto.Lawful (X : Crypto) : Prop where
  diffieHellman_comm : ∀ a b,
    X.diffieHellman a (X.publicKey b) = X.diffieHellman b (X.publicKey a)
  decrypt_encrypt : ∀ key nonce msg aad,
    X.decrypt key nonce (X.encrypt key nonce msg aad) aad = some msg.toList

/-! ## `auth.rs` -/

abbrev ShortId : Type := Octets 8

/-- `b"REALITY"`. -/
def hkdfInfo : List UInt8 := [0x52, 0x45, 0x41, 0x4c, 0x49, 0x54, 0x59]

def plaintextLen : ℕ := 16

def deriveAuthKey (X : Crypto) (shared : Octets 32) (randomPrefix : List UInt8) : Octets 32 :=
  X.hkdf randomPrefix shared hkdfInfo

/-- `u32::to_be_bytes`. -/
def be32Bytes (n : UInt32) : List UInt8 :=
  [UInt8.ofNat (n.toNat / 2 ^ 24), UInt8.ofNat (n.toNat / 2 ^ 16), UInt8.ofNat (n.toNat / 2 ^ 8),
    UInt8.ofNat n.toNat]

/-- `u32::from_be_bytes`. -/
def be32 (l : List UInt8) : UInt32 :=
  UInt32.ofNat (be16 (l.getD 0 0) (l.getD 1 0) * 2 ^ 16 + be16 (l.getD 2 0) (l.getD 3 0))

/-- The stamped time, at 4..8. -/
def parseTimestamp (plaintext : Octets 16) : UInt32 := be32 ((plaintext.toList.drop 4).take 4)

/-- `version | 0 | time | short id`. -/
def buildPlaintext (version : Octets 3) (unixTs : UInt32) (shortId : ShortId) : Octets 16 :=
  ⟨version.toList ++ (0 :: (be32Bytes unixTs ++ shortId.toList)), by
    simp only [List.length_append, List.length_cons, List.Vector.toList_length, be32Bytes,
      List.length_nil]⟩

def sealPlaintext (X : Crypto) (authKey : Octets 32) (nonce : Octets 12) (plaintext : Octets 16)
    (aad : List UInt8) : Octets 32 :=
  X.encrypt authKey nonce plaintext aad

def openSeal (X : Crypto) (authKey : Octets 32) (nonce : Octets 12) (sealed : Octets 32)
    (aad : List UInt8) : Except VeilError (Octets 16) :=
  match X.decrypt authKey nonce sealed aad with
  | none => .error .authFailed
  | some plain =>
    if plain.length ≠ plaintextLen then .error .authFailed else .ok (Octets.fromSlice 16 plain)

/-- `buf[39..71].fill(0)`. -/
def zeroSessionId (buf : List UInt8) : List UInt8 :=
  overwrite buf sessionIdOffset (List.replicate sessionIdBytes 0)

/-- Seconds since the epoch as a `u32`; a clock before the epoch reads zero. -/
def nowUnix (clock : Option ℕ) : UInt32 :=
  match clock with
  | some secs => UInt32.ofNat secs
  | none => 0

/-! ## `kx.rs` and `client.rs` -/

/-- `diffie_hellman` of a key exchange in progress, if its group has it. -/
abbrev KeyExchange : Type := List UInt8 → Option (List UInt8)

/-- `VeilX25519::Active`: the exchange of a private key, which wants a share of 32 bytes. -/
def activeX25519 (X : Crypto) (secret : Octets 32) : KeyExchange := fun peerPubKey =>
  if peerPubKey.length = 32 then
    some (X.diffieHellman secret (Octets.fromSlice 32 peerPubKey)).toList
  else none

structure VeilClientConfig where
  serverPub : Octets 32
  shortId : ShortId
  version : Octets 3
  fingerprint : Fingerprint

/-- A cell that is written once. -/
abbrev AuthKeySink : Type := Option (Octets 32)

/-- `OnceLock::set`, its failure ignored. -/
def AuthKeySink.set (sink : AuthKeySink) (authKey : Octets 32) : AuthKeySink :=
  some (sink.getD authKey)

/-- The callback of `build_client_hello_mutator_capturing`: the buffer and the sink after
it.  `sh` is what the fingerprint draws and `clock` what the system clock says. -/
def buildClientHelloMutatorCapturing (X : Crypto) (config : VeilClientConfig) (sh : Shuffle)
    (clock : Option ℕ) (sink : Option AuthKeySink) (kx : Option KeyExchange) (buf : List UInt8) :
    List UInt8 × Option AuthKeySink :=
  match kx with
  | none => (buf, sink)
  | some kx =>
    match kx config.serverPub.toList with
    | none => (buf, sink)
    | some secret =>
      if buf.length < sessionIdOffset + sessionIdBytes then (buf, sink)
      else
        let shuffled := config.fingerprint.apply sh buf
        let randomPrefix := (shuffled.drop randomOffset).take 20
        let nonce := Octets.fromSlice 12 ((shuffled.drop (randomOffset + 20)).take 12)
        let zeroed := zeroSessionId shuffled
        if secret.length ≠ 32 then (zeroed, sink)
        else
          let authKey := deriveAuthKey X (Octets.fromSlice 32 secret) randomPrefix
          let plaintext := buildPlaintext config.version (nowUnix clock) config.shortId
          let sealed := sealPlaintext X authKey nonce plaintext zeroed
          (overwrite zeroed sessionIdOffset sealed.toList, sink.map fun s => s.set authKey)

/-! ## `server.rs` -/

inductive Verdict where
  | tunnel (authKey : Octets 32)
  | forward
  deriving DecidableEq

/-- `std::time::Duration`. -/
structure Duration where
  secs : ℕ
  nanos : ℕ

/-- `u32::abs_diff`. -/
def absDiff (a b : UInt32) : ℕ := if a < b then b.toNat - a.toNat else a.toNat - b.toNat

namespace Server

/-- What happens to a plaintext that opened. -/
def judge (shortIds : Finset ShortId) (maxTimeSkew : Option Duration) (now : UInt32)
    (authKey : Octets 32) (plaintext : Octets 16) : Verdict :=
  if Octets.fromSlice 8 ((plaintext.toList.drop 8).take 8) ∉ shortIds then .forward
  else
    match maxTimeSkew with
    | none => .tunnel authKey
    | some skew =>
      if absDiff now (parseTimestamp plaintext) > skew.secs then .forward else .tunnel authKey

/-- `decide`. -/
def decide (X : Crypto) (shortIds : Finset ShortId) (privateKey : Octets 32)
    (maxTimeSkew : Option Duration) (now : UInt32) (clientHello : List UInt8) : Verdict :=
  match ClientHelloView.parse clientHello with
  | .error _ => .forward
  | .ok view =>
    let aad := zeroSessionId clientHello
    let shared := X.diffieHellman privateKey view.x25519Pub
    let authKey := deriveAuthKey X shared (view.random.toList.take 20)
    let nonce := Octets.fromSlice 12 ((view.random.toList.drop 20).take 12)
    match openSeal X authKey nonce view.sessionId aad with
    | .error _ => .forward
    | .ok plaintext => judge shortIds maxTimeSkew now authKey plaintext

end Server

/-! ## The plaintext -/

section Plaintext

variable (version : Octets 3) (ts : UInt32) (shortId : ShortId)

/-- Four bytes spell the number they were made from. -/
theorem be32_be32Bytes : be32 (be32Bytes ts) = ts := by
  have hts := ts.toNat_lt
  apply UInt32.toNat_inj.mp
  simp only [be32, be32Bytes, be16, List.getD_cons_zero, List.getD_cons_succ,
    UInt8.toNat_ofNat', UInt32.toNat_ofNat']
  omega

/-- The server reads the time the client stamped. -/
theorem parseTimestamp_buildPlaintext :
    parseTimestamp (buildPlaintext version ts shortId) = ts := by
  have hslice : ((buildPlaintext version ts shortId).toList.drop 4).take 4 = be32Bytes ts := by
    change ((version.toList ++ (0 :: (be32Bytes ts ++ shortId.toList))).drop 4).take 4 = _
    rw [List.drop_append, List.drop_of_length_le (by simp), List.nil_append,
      List.Vector.toList_length]
    rfl
  rw [parseTimestamp, hslice, be32_be32Bytes]

/-- The server reads the short id the client put in. -/
theorem shortId_buildPlaintext :
    Octets.fromSlice 8 (((buildPlaintext version ts shortId).toList.drop 8).take 8) = shortId := by
  have hslice : ((buildPlaintext version ts shortId).toList.drop 8).take 8 = shortId.toList := by
    change ((version.toList ++ (0 :: (be32Bytes ts ++ shortId.toList))).drop 8).take 8 = _
    rw [List.drop_append, List.drop_of_length_le (by simp), List.nil_append,
      List.Vector.toList_length]
    change shortId.toList.take 8 = shortId.toList
    exact List.take_of_length_le (by simp)
  rw [hslice, Octets.fromSlice_toList]

/-- **What was sealed is opened**, under the same key, nonce and associated data. -/
theorem openSeal_sealPlaintext {X : Crypto}
    (hopen : ∀ key nonce msg aad,
      X.decrypt key nonce (X.encrypt key nonce msg aad) aad = some msg.toList)
    (authKey : Octets 32) (nonce : Octets 12) (plaintext : Octets 16) (aad : List UInt8) :
    openSeal X authKey nonce (sealPlaintext X authKey nonce plaintext aad) aad =
      .ok plaintext := by
  unfold openSeal sealPlaintext
  rw [hopen]
  simp only [List.Vector.toList_length, plaintextLen, ne_eq, not_true, if_false,
    Octets.fromSlice_toList]

end Plaintext

theorem absDiff_eq_natAbs (a b : UInt32) : absDiff a b = ((a.toNat : ℤ) - b.toNat).natAbs := by
  unfold absDiff
  split
  · next h =>
    have h' : a.toNat < b.toNat := UInt32.lt_iff_toNat_lt.mp h
    omega
  · next h =>
    have h' : ¬ a.toNat < b.toNat := fun hlt => h (UInt32.lt_iff_toNat_lt.mpr hlt)
    omega

/-- The stamped time is near enough to the server's. -/
def WithinSkew (maxTimeSkew : Option Duration) (now ts : UInt32) : Prop :=
  ∀ skew ∈ maxTimeSkew, ((now.toNat : ℤ) - ts.toNat).natAbs ≤ skew.secs

/-- What the server does with the plaintext of a client. -/
theorem Server.judge_buildPlaintext (shortIds : Finset ShortId) (maxTimeSkew : Option Duration)
    (now : UInt32) (authKey : Octets 32) (version : Octets 3) (ts : UInt32) (shortId : ShortId) :
    (shortId ∈ shortIds ∧ WithinSkew maxTimeSkew now ts →
      Server.judge shortIds maxTimeSkew now authKey (buildPlaintext version ts shortId) =
        .tunnel authKey) ∧
    (¬ (shortId ∈ shortIds ∧ WithinSkew maxTimeSkew now ts) →
      Server.judge shortIds maxTimeSkew now authKey (buildPlaintext version ts shortId) =
        .forward) := by
  unfold Server.judge
  rw [shortId_buildPlaintext, parseTimestamp_buildPlaintext]
  by_cases hmem : shortId ∈ shortIds
  · rw [if_neg (not_not.mpr hmem)]
    cases maxTimeSkew with
    | none =>
      have hskew : WithinSkew none now ts := fun skew hskew => by cases hskew
      exact ⟨fun _ => rfl, fun h => absurd ⟨hmem, hskew⟩ h⟩
    | some skew =>
      have hskew : WithinSkew (some skew) now ts ↔ absDiff now ts ≤ skew.secs := by
        simp only [WithinSkew, Option.mem_some_iff, forall_eq', absDiff_eq_natAbs]
      simp only [hskew]
      exact ⟨fun h => if_neg (Nat.not_lt.mpr h.2),
        fun h => if_pos (Nat.lt_of_not_le fun hle => h ⟨hmem, hle⟩)⟩
  · rw [if_pos hmem]
    exact ⟨fun h => absurd h.1 hmem, fun _ => rfl⟩

/-! ## The session id in its frame -/

/-- The session id of associated data. -/
def noSessionId : Octets 32 := ⟨List.replicate sessionIdBytes 0, List.length_replicate⟩

/-- A body around its session id. -/
structure Framed where
  front : List UInt8
  back : List UInt8
  front_length : front.length = sessionIdOffset

namespace Framed

def withSessionId (f : Framed) (sessionId : Octets 32) : List UInt8 :=
  f.front ++ (sessionId.toList ++ f.back)

/-- The frame of a body that is long enough. -/
theorem exists_of_length {buf : List UInt8} (h : sessionIdOffset + sessionIdBytes ≤ buf.length) :
    ∃ (f : Framed) (sessionId : Octets 32), buf = f.withSessionId sessionId := by
  have hlen : ((buf.drop sessionIdOffset).take sessionIdBytes).length = 32 := by
    rw [List.length_take, List.length_drop]
    exact Nat.min_eq_left (by omega)
  refine ⟨⟨buf.take sessionIdOffset, buf.drop (sessionIdOffset + sessionIdBytes), ?_⟩,
    ⟨(buf.drop sessionIdOffset).take sessionIdBytes, hlen⟩, ?_⟩
  · rw [List.length_take]
    exact Nat.min_eq_left (by omega)
  · change buf = buf.take sessionIdOffset ++ ((buf.drop sessionIdOffset).take sessionIdBytes ++ _)
    rw [← drop_eq_take_append, List.take_append_drop]

variable (f : Framed) (sessionId sessionId' : Octets 32)

/-- Writing a session id replaces the one that was there. -/
theorem overwrite_withSessionId :
    overwrite (f.withSessionId sessionId) sessionIdOffset sessionId'.toList =
      f.withSessionId sessionId' := by
  have hlen : sessionId.toList.length = sessionId'.toList.length := by
    rw [List.Vector.toList_length, List.Vector.toList_length]
  rw [withSessionId, ← f.front_length, overwrite_append f.front hlen]
  rfl

/-- Zeroing forgets the session id. -/
theorem zeroSessionId_withSessionId :
    zeroSessionId (f.withSessionId sessionId) = f.withSessionId noSessionId :=
  f.overwrite_withSessionId sessionId noSessionId

theorem length_withSessionId :
    (f.withSessionId sessionId).length = sessionIdOffset + (32 + f.back.length) := by
  rw [withSessionId, List.length_append, List.length_append, List.Vector.toList_length,
    f.front_length]

/-- A slice in front of the session id. -/
theorem slice_withSessionId {off len : ℕ} (h : off + len ≤ sessionIdOffset) :
    ((f.withSessionId sessionId).drop off).take len = (f.front.drop off).take len := by
  have hfront := f.front_length
  rw [withSessionId, List.drop_append_of_le_length (by omega),
    List.take_append_of_le_length (by rw [List.length_drop]; omega)]

theorem getD_withSessionId {i : ℕ} (h : i < sessionIdOffset) :
    (f.withSessionId sessionId).getD i 0 = f.front.getD i 0 := by
  rw [withSessionId, List.getD_append _ _ _ _ (by rw [f.front_length]; exact h)]

theorem findX25519Share_withSessionId :
    findX25519Share (f.withSessionId sessionId) = findX25519Share (f.withSessionId sessionId') := by
  have hdrop : ∀ s : Octets 32,
      (f.withSessionId s).drop (sessionIdOffset + sessionIdBytes) = f.back := by
    intro s
    rw [withSessionId, ← List.append_assoc]
    refine List.drop_left' ?_
    rw [List.length_append, f.front_length, List.Vector.toList_length]
    rfl
  simp only [findX25519Share, extensionBlock, hdrop]

/-- **A body parses the same around another session id.** -/
theorem accepted_withSessionId {view : ClientHelloView}
    (h : Accepted (f.withSessionId sessionId) view) :
    Accepted (f.withSessionId sessionId') { view with sessionId := sessionId' } where
  length_le := by
    have hlen := h.length_le
    rw [length_withSessionId] at hlen ⊢
    exact hlen
  sessionIdLen_eq := by
    have hsid := h.sessionIdLen_eq
    rw [f.getD_withSessionId _ (by decide)] at hsid ⊢
    exact hsid
  share_eq := by
    rw [f.findX25519Share_withSessionId sessionId' sessionId]
    exact h.share_eq
  random_eq := by
    have hrandom := h.random_eq
    rw [f.slice_withSessionId _ (by decide)] at hrandom ⊢
    exact hrandom
  sessionId_eq := by
    have hslice : ((f.withSessionId sessionId').drop sessionIdOffset).take 32 =
        sessionId'.toList := by
      rw [withSessionId, List.drop_left' f.front_length]
      exact List.take_left' sessionId'.toList_length
    rw [hslice, Octets.fromSlice_toList]

end Framed

/-- Salt and nonce are the two parts of the random. -/
theorem Accepted.random_parts {bytes : List UInt8} {view : ClientHelloView}
    (h : Accepted bytes view) :
    view.random.toList.take 20 = (bytes.drop randomOffset).take 20 ∧
      (view.random.toList.drop 20).take 12 = (bytes.drop (randomOffset + 20)).take 12 := by
  have hlen := h.length_le
  have hrandom : view.random.toList = (bytes.drop randomOffset).take 32 := by
    rw [h.random_eq]
    refine Octets.toList_fromSlice ?_
    rw [List.length_take, List.length_drop]
    simp only [randomOffset, sessionIdOffset, sessionIdBytes] at hlen ⊢
    omega
  rw [hrandom, List.take_take, List.drop_take, List.take_take, List.drop_drop]
  exact ⟨rfl, rfl⟩

/-! ## Agreement -/

section Agreement

variable {X : Crypto} {body : List UInt8} {view : ClientHelloView}

/-- The key both sides derive from a hello. -/
def authKeyOf (X : Crypto) (privateKey : Octets 32) (view : ClientHelloView) : Octets 32 :=
  deriveAuthKey X (X.diffieHellman privateKey view.x25519Pub) (view.random.toList.take 20)

def nonceOf (view : ClientHelloView) : Octets 12 :=
  Octets.fromSlice 12 ((view.random.toList.drop 20).take 12)

/-- The client's buffer is the shuffled body around the seal, and the key it captures is
the one the server will derive. -/
theorem mutator_eq (hX : X.Lawful) (c s : Octets 32) (hbody : Accepted body view)
    (hone : OneKeyShare body) (hshare : view.x25519Pub = X.publicKey c) (shortId : ShortId)
    (version : Octets 3) (fp : Fingerprint) (sh : Shuffle) (clock : Option ℕ) :
    ∃ (f : Framed) (sessionId : Octets 32), Accepted (f.withSessionId sessionId) view ∧
      buildClientHelloMutatorCapturing X ⟨X.publicKey s, shortId, version, fp⟩ sh clock
          (some none) (some (activeX25519 X c)) body =
        (f.withSessionId (sealPlaintext X (authKeyOf X s view) (nonceOf view)
          (buildPlaintext version (nowUnix clock) shortId)
          (zeroSessionId (f.withSessionId sessionId))),
        some (some (authKeyOf X s view))) := by
  have huntouched := untouched_apply fp sh body
  have hshuffled : Accepted (fp.apply sh body) view := by
    rw [← parse_eq_ok_iff, huntouched.parse_eq hone]
    exact parse_eq_ok_iff.mpr hbody
  obtain ⟨f, sessionId, hframe⟩ := Framed.exists_of_length hshuffled.length_le
  obtain ⟨hsalt, hnonce⟩ := hshuffled.random_parts
  -- the client computes the server's secret from its own ephemeral
  have hsecret : activeX25519 X c (X.publicKey s).toList =
      some (X.diffieHellman s view.x25519Pub).toList := by
    unfold activeX25519
    rw [if_pos (List.Vector.toList_length _), Octets.fromSlice_toList, hshare,
      hX.diffieHellman_comm]
  have hlong : ¬ body.length < sessionIdOffset + sessionIdBytes :=
    Nat.not_lt.mpr hbody.length_le
  have hsize : ¬ (X.diffieHellman s view.x25519Pub).toList.length ≠ 32 :=
    not_not.mpr (List.Vector.toList_length _)
  refine ⟨f, sessionId, hframe ▸ hshuffled, ?_⟩
  simp only [buildClientHelloMutatorCapturing, hsecret, if_neg hlong, if_neg hsize,
    Octets.fromSlice_toList, ← hsalt, ← hnonce, Option.map_some]
  rw [hframe, f.zeroSessionId_withSessionId, f.overwrite_withSessionId]
  rfl

/-- The server opens what is sealed under the key and nonce of the hello it arrives in. -/
theorem Server.decide_sealed
    (hX : ∀ key nonce msg aad,
      X.decrypt key nonce (X.encrypt key nonce msg aad) aad = some msg.toList)
    (s : Octets 32) {f : Framed} {sessionId : Octets 32}
    (hframed : Accepted (f.withSessionId sessionId) view) (plaintext : Octets 16)
    (shortIds : Finset ShortId) (maxTimeSkew : Option Duration) (now : UInt32) :
    Server.decide X shortIds s maxTimeSkew now
        (f.withSessionId (sealPlaintext X (authKeyOf X s view) (nonceOf view) plaintext
          (zeroSessionId (f.withSessionId sessionId)))) =
      Server.judge shortIds maxTimeSkew now (authKeyOf X s view) plaintext := by
  set sealed := sealPlaintext X (authKeyOf X s view) (nonceOf view) plaintext
    (zeroSessionId (f.withSessionId sessionId)) with hsealed
  have hparse : ClientHelloView.parse (f.withSessionId sealed) =
      .ok { view with sessionId := sealed } :=
    parse_eq_ok_iff.mpr (f.accepted_withSessionId sessionId sealed hframed)
  -- both zero the session id, so both authenticate the same bytes
  have haad : zeroSessionId (f.withSessionId sealed) =
      zeroSessionId (f.withSessionId sessionId) := by
    rw [f.zeroSessionId_withSessionId, f.zeroSessionId_withSessionId]
  have hopen : openSeal X (authKeyOf X s view) (nonceOf view) sealed
      (zeroSessionId (f.withSessionId sealed)) = .ok plaintext := by
    rw [haad, hsealed, openSeal_sealPlaintext hX]
  unfold Server.decide
  rw [hparse]
  change (match openSeal X (authKeyOf X s view) (nonceOf view) sealed
    (zeroSessionId (f.withSessionId sealed)) with
    | .error _ => Verdict.forward
    | .ok plaintext => Server.judge shortIds maxTimeSkew now (authKeyOf X s view) plaintext) = _
  rw [hopen]

/-- **Client and server agree.**  Whatever the fingerprint draws, the server opens the
sealed hello to the key the client captured, and answers with the tunnel exactly when the
short id is configured and the stamped time is near enough. -/
theorem client_server_agree (hX : X.Lawful) (hbody : ClientHelloView.parse body = .ok view)
    (hone : OneKeyShare body) (c s : Octets 32) (hshare : view.x25519Pub = X.publicKey c)
    (fp : Fingerprint) (sh : Shuffle) (version : Octets 3) (shortId : ShortId)
    (clock : Option ℕ) :
    ∃ (sealed : List UInt8) (authKey : Octets 32),
      buildClientHelloMutatorCapturing X ⟨X.publicKey s, shortId, version, fp⟩ sh clock
          (some none) (some (activeX25519 X c)) body = (sealed, some (some authKey)) ∧
      ∀ (shortIds : Finset ShortId) (maxTimeSkew : Option Duration) (now : UInt32),
        (shortId ∈ shortIds ∧ WithinSkew maxTimeSkew now (nowUnix clock) →
          Server.decide X shortIds s maxTimeSkew now sealed = .tunnel authKey) ∧
        (¬ (shortId ∈ shortIds ∧ WithinSkew maxTimeSkew now (nowUnix clock)) →
          Server.decide X shortIds s maxTimeSkew now sealed = .forward) := by
  obtain ⟨f, sessionId, hframed, hmutated⟩ := mutator_eq hX c s (parse_eq_ok_iff.mp hbody) hone
    hshare shortId version fp sh clock
  refine ⟨_, _, hmutated, fun shortIds maxTimeSkew now => ?_⟩
  rw [Server.decide_sealed hX.decrypt_encrypt s hframed]
  exact Server.judge_buildPlaintext shortIds maxTimeSkew now _ version (nowUnix clock) shortId

end Agreement

/-! ### A handshake -/

/-- Lawful stand-ins for the primitives: a secret that is the sum of the keys, and a tag
that is half of the key. -/
def plainCrypto : Crypto where
  publicKey := id
  diffieHellman a b := ⟨List.zipWith (· + ·) a.toList b.toList, by simp⟩
  hkdf _ ikm _ := ikm
  encrypt key _ msg _ := ⟨msg.toList ++ key.toList.take 16, by simp⟩
  decrypt key _ sealed _ :=
    if sealed.toList.drop 16 = key.toList.take 16 then some (sealed.toList.take 16) else none

theorem plainCrypto_lawful : plainCrypto.Lawful where
  diffieHellman_comm a b :=
    List.Vector.eq _ _ (List.zipWith_comm_of_comm (fun x y => UInt8.add_comm x y))
  decrypt_encrypt key nonce msg aad := by
    change (if (msg.toList ++ key.toList.take 16).drop 16 = key.toList.take 16 then
      some ((msg.toList ++ key.toList.take 16).take 16) else none) = some msg.toList
    rw [List.drop_left' msg.toList_length, if_pos rfl, List.take_left' msg.toList_length]

theorem client_server_agree_reversing :
    ∃ (sealed : List UInt8) (authKey : Octets 32),
      buildClientHelloMutatorCapturing plainCrypto
          ⟨List.Vector.replicate 32 5, List.Vector.replicate 8 1, List.Vector.replicate 3 0,
            .randomized⟩
          reversing (some 1700000000) (some none)
          (some (activeX25519 plainCrypto (List.Vector.replicate 32 7))) plainHello =
        (sealed, some (some authKey)) ∧
      Server.decide plainCrypto {List.Vector.replicate 8 1} (List.Vector.replicate 32 5)
          (some ⟨120, 0⟩) 1700000120 sealed = .tunnel authKey ∧
      Server.decide plainCrypto {List.Vector.replicate 8 1} (List.Vector.replicate 32 5)
          (some ⟨120, 0⟩) 1700000121 sealed = .forward := by
  have hparse : ClientHelloView.parse plainHello = .ok ⟨List.Vector.replicate 32 0x11,
      List.Vector.replicate 32 0x22, List.Vector.replicate 32 7⟩ := by decide +kernel
  have hone : OneKeyShare plainHello := ⟨plainExtensions, by decide +kernel, by decide +kernel⟩
  obtain ⟨sealed, authKey, hmutated, hdecide⟩ := client_server_agree plainCrypto_lawful hparse
    hone (List.Vector.replicate 32 7) (List.Vector.replicate 32 5) rfl .randomized reversing
    (List.Vector.replicate 3 0) (List.Vector.replicate 8 1) (some 1700000000)
  refine ⟨sealed, authKey, hmutated, (hdecide _ _ _).1 ⟨Finset.mem_singleton_self _, ?_⟩,
    (hdecide _ _ _).2 fun h => ?_⟩
  · rintro skew ⟨⟩
    decide
  · exact absurd (h.2 ⟨120, 0⟩ rfl) (by decide)

end Veil
end HoldTheDonut
