import HoldTheDonut.Veil.Handshake

/-!
# `donut-veil`: a hello that every server opens

What keeps a stranger out of the tunnel is that the sealing key comes from the server's
private key.  X25519 has public shares for which it does not: the share of 32 zero bytes
gives the secret of 32 zero bytes with every private key.  The documentation of
`ActiveKeyExchange` in `donut-tls` tells an exchange to refuse such a share; `decide`
takes the secret as it comes.

So a peer that knows no key can still derive one.  It writes the zero share into its hello
and seals, under the key of the zero secret, a short id and the current time.
`zeroShareHello` is that hello: it is put together from the short id and the time alone,
and every server that knows the short id answers it with the tunnel.
-/

namespace HoldTheDonut
namespace Veil

/-! ## The hello -/

/-- 32 zero bytes. -/
def zeroShare : Octets 32 := List.Vector.replicate 32 0

/-- Header, version, random and the length of the session id. -/
def zeroShareFront : List UInt8 :=
  [1, 0, 0, 109, 3, 3] ++ List.replicate 32 0x11 ++ [32]

/-- One suite, one compression method, and `key_share` with the zero share. -/
def zeroShareBack : List UInt8 :=
  [0, 2, 0x13, 0x01] ++ [1, 0] ++ [0, 42] ++
    ([0, 0x33, 0, 38, 0, 36, 0, 0x1d, 0, 32] ++ List.replicate 32 0)

theorem length_zeroShareFront : zeroShareFront.length = sessionIdOffset := rfl

def zeroShareFrame : Framed where
  front := zeroShareFront
  back := zeroShareBack
  front_length := length_zeroShareFront

/-- What the server reads, but for the session id. -/
def zeroShareView : ClientHelloView where
  random := List.Vector.replicate 32 0x11
  sessionId := noSessionId
  x25519Pub := zeroShare

/-- The key of the secret that everybody knows. -/
def zeroShareKey (X : Crypto) : Octets 32 :=
  deriveAuthKey X zeroShare (zeroShareView.random.toList.take 20)

/-- The hello of a peer without a key: a short id and a time, sealed under the key of the
zero secret. -/
def zeroShareHello (X : Crypto) (shortId : ShortId) (ts : UInt32) : List UInt8 :=
  zeroShareFrame.withSessionId
    (sealPlaintext X (zeroShareKey X) (nonceOf zeroShareView)
      (buildPlaintext (List.Vector.replicate 3 0) ts shortId)
      (zeroSessionId (zeroShareFrame.withSessionId noSessionId)))

/-- The frame is a hello the server parses. -/
theorem accepted_zeroShareFrame :
    Accepted (zeroShareFrame.withSessionId noSessionId) zeroShareView := by
  have hparse : ClientHelloView.parse (zeroShareFrame.withSessionId noSessionId) =
      .ok zeroShareView := by decide +kernel
  exact parse_eq_ok_iff.mp hparse

/-! ## Every server opens it -/

section Admission

variable {X : Crypto}

/-- With the zero share every private key derives the same key. -/
theorem authKeyOf_zeroShareView (hzero : ∀ s, X.diffieHellman s zeroShare = zeroShare)
    (s : Octets 32) : authKeyOf X s zeroShareView = zeroShareKey X := by
  change deriveAuthKey X (X.diffieHellman s zeroShare) _ = deriveAuthKey X zeroShare _
  rw [hzero]

/-- Whatever its private key, the server that has the short id answers with the tunnel. -/
theorem Server.decide_zeroShareHello
    (hopen : ∀ key nonce msg aad,
      X.decrypt key nonce (X.encrypt key nonce msg aad) aad = some msg.toList)
    (hzero : ∀ s, X.diffieHellman s zeroShare = zeroShare)
    {shortIds : Finset ShortId} {shortId : ShortId} (hmem : shortId ∈ shortIds)
    (maxTimeSkew : Option Duration) (now : UInt32) (s : Octets 32) :
    Server.decide X shortIds s maxTimeSkew now (zeroShareHello X shortId now) =
      .tunnel (zeroShareKey X) := by
  have hskew : WithinSkew maxTimeSkew now now := by
    intro skew _
    rw [sub_self, Int.natAbs_zero]
    exact Nat.zero_le _
  have hdecide := Server.decide_sealed hopen s accepted_zeroShareFrame
    (buildPlaintext (List.Vector.replicate 3 0) now shortId) shortIds maxTimeSkew now
  rw [authKeyOf_zeroShareView hzero] at hdecide
  exact hdecide.trans
    ((Server.judge_buildPlaintext shortIds maxTimeSkew now _ _ now shortId).1 ⟨hmem, hskew⟩)

/-- Admission depends on the key: no hello gets the tunnel from every private key. -/
def KeyDecides (X : Crypto) (shortIds : Finset ShortId) (maxTimeSkew : Option Duration)
    (now : UInt32) : Prop :=
  ¬ ∃ clientHello, ∀ privateKey, ∃ authKey,
    Server.decide X shortIds privateKey maxTimeSkew now clientHello = .tunnel authKey

/-- **The key never decides.**  Under any settings that admit anybody there is one hello
that every private key answers with the tunnel. -/
theorem not_keyDecides
    (hopen : ∀ key nonce msg aad,
      X.decrypt key nonce (X.encrypt key nonce msg aad) aad = some msg.toList)
    (hzero : ∀ s, X.diffieHellman s zeroShare = zeroShare)
    (shortIds : Finset ShortId) (hids : shortIds.Nonempty) (maxTimeSkew : Option Duration)
    (now : UInt32) : ¬ KeyDecides X shortIds maxTimeSkew now := by
  obtain ⟨shortId, hmem⟩ := hids
  intro hkey
  refine hkey ⟨zeroShareHello X shortId now, fun s => ⟨zeroShareKey X, ?_⟩⟩
  exact Server.decide_zeroShareHello hopen hzero hmem maxTimeSkew now s

end Admission

/-! ### With concrete primitives -/

/-- The plain primitives with an exchange that, like X25519, a zero share annihilates:
the product of the keys, byte by byte. -/
def productCrypto : Crypto :=
  { plainCrypto with
    diffieHellman := fun a b => ⟨List.zipWith (· * ·) a.toList b.toList, by simp⟩ }

theorem productCrypto_zeroShare (s : Octets 32) :
    productCrypto.diffieHellman s zeroShare = zeroShare := by
  have hzero : ∀ l : List UInt8,
      List.zipWith (· * ·) l (List.replicate l.length 0) = List.replicate l.length 0 := by
    intro l
    induction l with
    | nil => rfl
    | cons b l ih =>
      rw [List.length_cons, List.replicate_succ, List.zipWith_cons_cons, ih, UInt8.mul_zero]
  refine List.Vector.eq _ _ ?_
  have hs := hzero s.toList
  rw [s.toList_length] at hs
  exact hs

theorem productCrypto_opens (key : Octets 32) (nonce : Octets 12) (msg : Octets 16)
    (aad : List UInt8) :
    productCrypto.decrypt key nonce (productCrypto.encrypt key nonce msg aad) aad =
      some msg.toList :=
  plainCrypto_lawful.decrypt_encrypt key nonce msg aad

theorem not_keyDecides_product :
    ¬ KeyDecides productCrypto {List.Vector.replicate 8 1} (some ⟨120, 0⟩) 1700000000 :=
  not_keyDecides productCrypto_opens productCrypto_zeroShare _
    (Finset.singleton_nonempty _) _ _

/-- The bytes of such a hello: under the product exchange the key is zero, so the session
id is the plaintext and sixteen zero bytes. -/
theorem decide_zeroShare_bytes :
    ∃ clientHello, clientHello = [1, 0, 0, 109, 3, 3] ++ List.replicate 32 0x11 ++ [32] ++
        ([0, 0, 0, 0, 0x65, 0x53, 0xf1, 0x00] ++ List.replicate 8 1 ++ List.replicate 16 0) ++
        [0, 2, 0x13, 0x01, 1, 0, 0, 42] ++
        [0, 0x33, 0, 38, 0, 36, 0, 0x1d, 0, 32] ++ List.replicate 32 0 ∧
      ∀ privateKey : Octets 32, Server.decide productCrypto {List.Vector.replicate 8 1} privateKey
        (some ⟨120, 0⟩) 1700000000 clientHello = .tunnel (List.Vector.replicate 32 0) := by
  refine ⟨zeroShareHello productCrypto (List.Vector.replicate 8 1) 1700000000, ?_, ?_⟩
  · decide +kernel
  · intro privateKey
    have hkey : zeroShareKey productCrypto = List.Vector.replicate 32 0 := by decide +kernel
    rw [← hkey]
    exact Server.decide_zeroShareHello productCrypto_opens productCrypto_zeroShare
      (Finset.mem_singleton_self _) _ _ privateKey

end Veil
end HoldTheDonut
