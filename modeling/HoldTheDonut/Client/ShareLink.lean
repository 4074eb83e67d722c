import HoldTheDonut.Client.PercentDecode

/-!
# Share links are read back

`vless_link` of `donut-tools` and `vless_xhttp_link` of `donut-config` write the links that
`link.rs` reads.  Both join percent-encoded values into a query and hang it between the
address and the label; they differ in their parameters only, so `shareLink` is both of them.

`parse_shareLink` follows the parser over such a link, cut by cut.  It rests on one thing:
`pct` leaves no separator, because it keeps the unreserved characters alone, and
`pctDecode_pct` says that nothing is lost by it, whatever the text.

An address is `host:port` or `[v6]:port`.  A host that begins with a bracket is taken for the
second form by `split_host_port`, and there is nothing else that a host without a colon, a
hash sign or a question mark can do wrong.
-/

namespace HoldTheDonut
namespace Client
namespace Link

open Text (bytes splitOnce)
open Text.Percent (sign digit unescape)

/-! ## Writing a link -/

/-- The bytes `pct` keeps. -/
def unreserved (b : UInt8) : Bool :=
  decide ((65 ≤ b ∧ b ≤ 90) ∨ (97 ≤ b ∧ b ≤ 122) ∨ (48 ≤ b ∧ b ≤ 57) ∨
    b = 45 ∨ b = 46 ∨ b = 95 ∨ b = 126)

/-- `pct`, in `donut-tools` and in `donut-config`. -/
def pct (s : Text) : Text := Text.Percent.escape unreserved (bytes s)

/-- `{k}={}` of a parameter. -/
def writePair (kv : Text × Text) : Text := kv.1 ++ '=' :: pct kv.2

def writeQuery (params : List (Text × Text)) : Text := ['&'].intercalate (params.map writePair)

/-- `vless://{uuid}@{addr}?{query}#{}`. -/
def shareLink (uuid addr : Text) (params : List (Text × Text)) (label : Text) : Text :=
  scheme ++ (uuid ++ '@' :: addr ++ '?' :: writeQuery params ++ '#' :: pct label)

/-- `vless_link`. -/
def vlessLink (uuid addr sni fp flow label : Text) : Text :=
  let params :=
    [("type".toList, "tcp".toList), ("security".toList, "tls".toList), ("sni".toList, sni),
      ("fp".toList, fp), ("alpn".toList, "http/1.1".toList)]
  shareLink uuid addr
    (if flow ≠ [] ∧ flow ≠ "none".toList then params ++ [("flow".toList, flow)] else params) label

structure XhttpParams where
  uuid : Text
  serverAddr : Text
  sni : Text
  host : Text
  path : Text
  mode : Text
  fp : Text
  label : Text

/-- `vless_xhttp_link`. -/
def vlessXhttpLink (p : XhttpParams) : Text :=
  shareLink p.uuid p.serverAddr
    [("type".toList, "xhttp".toList), ("security".toList, "tls".toList),
      ("encryption".toList, "none".toList), ("sni".toList, p.sni), ("fp".toList, p.fp),
      ("alpn".toList, "h2".toList), ("host".toList, p.host), ("path".toList, p.path),
      ("mode".toList, p.mode)] p.label

/-! ## Percent-encoding is undone -/

theorem unreserved_keepable : Text.Percent.Keepable unreserved := by
  unfold Text.Percent.Keepable
  exact forall_uint8 (by decide +kernel)

/-- What holds of the percent sign and of the unreserved characters holds of every character:
the digits are among them. -/
theorem forall_mem_pct {p : Char → Prop}
    (h : ∀ b : UInt8, unreserved b = true ∨ b = sign → p (Char.ofNat b.toNat)) (s : Text) :
    ∀ c ∈ pct s, p c := by
  refine Text.Percent.forall_mem_escape (h sign (Or.inr rfl)) ?_ (fun b hb => h b (Or.inl hb)) _
  intro d hd
  have hall : ∀ d ∈ List.range 16, ∃ b ∈ [UInt8.ofNat (Text.Percent.upperDigit d).toNat],
      unreserved b = true ∧ Char.ofNat b.toNat = Text.Percent.upperDigit d := by decide
  obtain ⟨b, -, hb, hchar⟩ := hall d (List.mem_range.mpr hd)
  exact hchar ▸ h b (Or.inl hb)

theorem forall_mem_bytes_of_ascii {p : UInt8 → Prop} {t : Text}
    (h : ∀ c ∈ t, c.toNat < 0x80 ∧ p (UInt8.ofNat c.toNat)) : ∀ b ∈ bytes t, p b := by
  intro b hb
  obtain ⟨c, hc, hbc⟩ := List.mem_flatMap.mp hb
  obtain ⟨hascii, hp⟩ := h c hc
  rw [Text.utf8EncodeChar_ascii hascii] at hbc
  exact List.mem_singleton.mp hbc ▸ hp

theorem utf8_ofList (s : Text) : utf8 (String.ofList s) = bytes s := by
  rw [utf8_eq_flatMap, String.toList_ofList]
  rfl

theorem lossyText_bytes (s : Text) : lossyText (bytes s) = s := by
  have hkeep := lossyText_utf8_append (String.ofList s) []
  rw [utf8_ofList, List.append_nil, String.toList_ofList] at hkeep
  rw [hkeep]
  exact List.append_nil s

/-- The bytes of an encoded text are ASCII, and there is no plus among them. -/
theorem forall_mem_bytes_pct (s : Text) : ∀ b ∈ bytes (pct s), b.toNat < 0x80 ∧ b ≠ 43 := by
  refine forall_mem_bytes_of_ascii (forall_mem_pct ?_ s)
  exact forall_uint8 (by decide +kernel)

theorem isCharBoundary_of_ascii {l : List UInt8} (h : ∀ b ∈ l, b.toNat < 0x80) :
    isCharBoundary l = true := by
  cases l with
  | nil => rfl
  | cons b l => exact decide_eq_true (Or.inl (h b List.mem_cons_self))

/-- **What was percent-encoded is decoded again**, for every text. -/
theorem pctDecode_pct (s : Text) : pctDecode (pct s) = some s := by
  have hmem := forall_mem_bytes_pct s
  have htorn : ¬ Torn (bytes (pct s)) := by
    rintro ⟨front, x, y, rest, hl, hslice⟩
    have hascii : ∀ b ∈ front ++ sign :: x :: y :: rest, b.toNat < 0x80 := fun b hb =>
      (hmem b (hl ▸ hb)).1
    refine hslice ⟨isCharBoundary_of_ascii fun b hb => hascii b ?_,
      isCharBoundary_of_ascii fun b hb => hascii b ?_⟩
    · exact List.mem_append_right front (List.mem_cons_of_mem sign hb)
    · exact List.mem_append_right front
        (List.mem_cons_of_mem sign (List.mem_cons_of_mem x (List.mem_cons_of_mem y hb)))
  have hsigned : ¬ Signed (bytes (pct s)) := by
    rintro ⟨front, x, y, rest, hl, rfl, -⟩
    have hplus : 43 ∈ bytes (pct s) := by
      rw [hl]
      simp
    exact (hmem 43 hplus).2 rfl
  rw [(pctDecode_eq_iff (pct s)).mpr ⟨htorn, hsigned⟩, pct,
    Text.Percent.unescape_escape unreserved_keepable, lossyText_bytes]

/-- A separator is not in it. -/
theorem not_mem_pct {c : Char}
    (h : ∀ b : UInt8, unreserved b = true ∨ b = sign → Char.ofNat b.toNat ≠ c) (s : Text) :
    c ∉ pct s := fun hc => forall_mem_pct (p := (· ≠ c)) h s c hc rfl

theorem isWhitespace_pct (s : Text) : ∀ c ∈ pct s, Routing.isWhitespace c = false :=
  forall_mem_pct (forall_uint8 (by decide +kernel)) s

/-! ## The query is read back -/

/-- A key that can be written: none of the separators is in it. -/
def KeyOk (k : Text) : Prop := '=' ∉ k ∧ '&' ∉ k ∧ '#' ∉ k

instance (k : Text) : Decidable (KeyOk k) := inferInstanceAs (Decidable (_ ∧ _ ∧ _))

variable {params : List (Text × Text)}

theorem not_mem_writePair {kv : Text × Text} (hk : KeyOk kv.1) :
    '&' ∉ writePair kv ∧ '#' ∉ writePair kv := by
  have hamp : '&' ∉ pct kv.2 := not_mem_pct (forall_uint8 (by decide +kernel)) kv.2
  have hhash : '#' ∉ pct kv.2 := not_mem_pct (forall_uint8 (by decide +kernel)) kv.2
  refine ⟨?_, ?_⟩ <;> simp [writePair, hk.2.1, hk.2.2, hamp, hhash]

theorem hash_not_mem_writeQuery (hkeys : ∀ kv ∈ params, KeyOk kv.1) : '#' ∉ writeQuery params := by
  refine Text.not_mem_intercalate (by decide) fun l hl => ?_
  obtain ⟨kv, hkv, rfl⟩ := List.mem_map.mp hl
  exact (not_mem_writePair (hkeys kv hkv)).2

theorem keyValue_writePair {kv : Text × Text} (hk : KeyOk kv.1) :
    keyValue (writePair kv) = (kv.1, pct kv.2) := by
  rw [keyValue, writePair, Text.splitOnce_append hk.1]
  rfl

/-- The pairs are those that were written. -/
theorem pairs_writeQuery (hkeys : ∀ kv ∈ params, KeyOk kv.1) (hne : params ≠ []) :
    pairs (writeQuery params) = params.map fun kv => (kv.1, pct kv.2) := by
  have hamp : ∀ l ∈ params.map writePair, '&' ∉ l := by
    intro l hl
    obtain ⟨kv, hkv, rfl⟩ := List.mem_map.mp hl
    exact (not_mem_writePair (hkeys kv hkv)).1
  have hfull : ∀ l ∈ params.map writePair, (!l.isEmpty) = true := by
    intro l hl
    obtain ⟨kv, -, rfl⟩ := List.mem_map.mp hl
    simp [writePair]
  rw [pairs, writeQuery, List.splitOn_intercalate '&' hamp (by simpa using hne),
    List.filter_eq_self.mpr hfull, List.map_map]
  exact List.map_congr_left fun kv hkv => keyValue_writePair (hkeys kv hkv)

/-- Decoding the values gives the parameters back, and they are set one after another. -/
theorem applyQuery_pct (params : List (Text × Text)) (link : VlessLink) :
    applyQuery (params.map fun kv => (kv.1, pct kv.2)) link =
      some (params.foldl (fun l kv => l.set kv.1 kv.2) link) := by
  induction params generalizing link with
  | nil => rfl
  | cons kv params ih =>
    rw [List.map_cons, applyQuery, pctDecode_pct]
    exact ih (link.set kv.1 kv.2)

/-! ## The authority is read back -/

theorem cutParts_shareLink {authority query fragment : Text} (hauthority : '?' ∉ authority)
    (hhash : '#' ∉ authority ++ '?' :: query) :
    cutParts (authority ++ '?' :: query ++ '#' :: fragment) = ⟨authority, query, fragment⟩ := by
  unfold cutParts
  rw [Text.splitOnce_append hhash]
  simp only [Option.getD_some]
  rw [Text.splitOnce_append hauthority]
  rfl

/-- The parser on a link that was written, given what the address is split into. -/
theorem parse_shareLink {uuid addr host : Text} {port : UInt16} (huuid : uuid ≠ [])
    (hseps : ∀ c ∈ ['@', '#', '?'], c ∉ uuid) (haddr : ∀ c ∈ ['#', '?'], c ∉ addr)
    (hsplit : splitHostPort addr = .ok (host, port)) (hkeys : ∀ kv ∈ params, KeyOk kv.1)
    (hne : params ≠ []) (label : Text) :
    parse (shareLink uuid addr params label) =
      some (.ok (params.foldl (fun l kv => l.set kv.1 kv.2)
        { uuid, host, port, security := [], sni := [], fp := [], flow := [],
          network := "tcp".toList, label })) := by
  have hat : '@' ∉ uuid := hseps '@' (by simp)
  have hquestion : '?' ∉ uuid ++ '@' :: addr := by
    simp [hseps '?' (by simp), haddr '?' (by simp)]
  have hhash : '#' ∉ uuid ++ '@' :: addr ++ '?' :: writeQuery params := by
    simp [hseps '#' (by simp), haddr '#' (by simp), hash_not_mem_writeQuery hkeys]
  have hends : shareLink uuid addr params label =
      'v' :: ("less://".toList ++ (uuid ++ '@' :: addr ++ '?' :: writeQuery params)) ++
        '#' :: pct label := by
    rw [shareLink, ← List.append_assoc]
    rfl
  have htrim : Routing.trim (shareLink uuid addr params label) =
      shareLink uuid addr params label := by
    rw [hends]
    exact Text.trim_cons_append (by decide) (by decide) _ (isWhitespace_pct label)
  rw [parse, htrim, shareLink, Text.dropStart_append]
  simp only [cutParts_shareLink hquestion hhash, pctDecode_pct]
  rw [parseParts, Text.splitOnce_append hat]
  simp only [if_neg huuid, hsplit]
  rw [pairs_writeQuery hkeys hne, applyQuery_pct]
  rfl

/-- The text of an IPv6 address. -/
def Ipv6Text (t : Text) : Prop := ∃ a, parseIpAddr (String.ofList t) = some (.v6 a)

theorem Ipv6Text.not_mem {t : Text} (h : Ipv6Text t) {c : Char} (hc : c.toNat < 0x80)
    (hforeign : IpLiteral.Foreign (UInt8.ofNat c.toNat)) : c ∉ t := by
  obtain ⟨a, ha⟩ := h
  intro hmem
  refine foreign_not_mem hforeign ha ?_
  rw [utf8_ofList]
  exact Text.mem_bytes_of_mem hmem hc

/-- An address as it is written, its host and its port.  The port is a numeral. -/
inductive WritesAddress : Text → Text → UInt16 → Prop
  | name {host p : Text} {port : UInt16} (hhost : ∀ c ∈ [':', '#', '?'], c ∉ host)
      (hbracket : host.head? ≠ some '[') (hp : Text.Numeral p port.toNat) :
      WritesAddress (host ++ ':' :: p) host port
  | v6 {host p : Text} {port : UInt16} (hhost : Ipv6Text host) (hp : Text.Numeral p port.toNat) :
      WritesAddress ('[' :: (host ++ ']' :: ':' :: p)) host port

theorem parsePort_eq_ok_iff {s p : Text} {port : UInt16} :
    parsePort s p = .ok port ↔ Text.Numeral p port.toNat := by
  have hread : Text.parseUnsigned 65536 p = some port.toNat ↔ Text.Numeral p port.toNat := by
    rw [Text.parseUnsigned_eq_some_iff]
    exact and_iff_left port.toNat_lt
  rw [← hread, parsePort]
  cases hn : Text.parseUnsigned 65536 p with
  | none => exact iff_of_false (fun h => by cases h) (fun h => by cases h)
  | some n =>
    have hlt : n < 65536 := (Text.parseUnsigned_eq_some_iff.mp hn).2
    simp only [Except.ok.injEq, Option.some_inj]
    constructor
    · rintro rfl
      rw [UInt16.toNat_ofNat', Nat.mod_eq_of_lt hlt]
    · rintro rfl
      exact UInt16.ofNat_toNat

/-- The text, given the port's text, is what the port is read from. -/
theorem map_parsePort_eq_ok_iff {s h p host : Text} {port : UInt16} :
    (parsePort s p).map (fun port => (h, port)) = .ok (host, port) ↔
      h = host ∧ Text.Numeral p port.toNat := by
  rw [← parsePort_eq_ok_iff (s := s)]
  cases parsePort s p with
  | error e => exact iff_of_false (fun h => by cases h) (fun h => by cases h.2)
  | ok n =>
    change Except.ok (h, n) = Except.ok (host, port) ↔ _
    simp only [Except.ok.injEq, Prod.mk.injEq]

theorem cut_bracket {host : Text} (h : ']' ∉ host) (p : Text) :
    Text.cut [']', ':'] (host ++ ']' :: ':' :: p) = some (host, p) := by
  have hcut : Text.cut [']', ':'] (host ++ [']', ':'] ++ p) = some (host, p) :=
    Text.cut_of_not_mem h p
  rwa [List.append_assoc] at hcut

/-- Behind a bracket the host ends at the first bracket with a colon behind it. -/
theorem splitHostPort_bracket_iff {rest host : Text} {port : UInt16} :
    splitHostPort ('[' :: rest) = .ok (host, port) ↔
      ∃ p, Text.cut [']', ':'] rest = some (host, p) ∧ Text.Numeral p port.toNat := by
  have hdrop : Text.dropStart ['['] ('[' :: rest) = some rest := Text.dropStart_append ['['] rest
  rw [splitHostPort, hdrop]
  simp only
  rcases Text.cut [']', ':'] rest with _ | ⟨h, p⟩
  · refine iff_of_false (fun h => by cases h) ?_
    rintro ⟨p, hcut, -⟩
    cases hcut
  · simp only [map_parsePort_eq_ok_iff, Option.some_inj, Prod.mk.injEq]
    constructor
    · rintro ⟨rfl, hp⟩
      exact ⟨p, ⟨rfl, rfl⟩, hp⟩
    · rintro ⟨p', ⟨rfl, rfl⟩, hp⟩
      exact ⟨rfl, hp⟩

/-- Without a bracket the host ends at the last colon. -/
theorem splitHostPort_iff {s host : Text} {port : UInt16} (hs : s.head? ≠ some '[') :
    splitHostPort s = .ok (host, port) ↔ ∃ p, s = host ++ ':' :: p ∧ Text.Numeral p port.toNat := by
  have hnone : Text.dropStart ['['] s = none := by
    rw [Text.dropStart, if_neg]
    rintro ⟨t, rfl⟩
    exact hs rfl
  rw [splitHostPort, hnone]
  simp only
  constructor
  · intro h
    rcases hcut : Text.rsplitOnce ':' s with _ | ⟨h', p⟩
    · rw [hcut] at h
      cases h
    · rw [hcut] at h
      obtain ⟨rfl, hp⟩ := map_parsePort_eq_ok_iff.mp h
      exact ⟨p, (Text.rsplitOnce_eq_some_iff.mp hcut).1, hp⟩
  · rintro ⟨p, rfl, hp⟩
    have hcolon : ':' ∉ p := hp.not_mem (by decide) (by decide)
    rw [Text.rsplitOnce_eq_some_iff.mpr ⟨rfl, hcolon⟩]
    exact map_parsePort_eq_ok_iff.mpr ⟨rfl, hp⟩

theorem splitHostPort_name {host p : Text} {port : UInt16} (hbracket : host.head? ≠ some '[')
    (hp : Text.Numeral p port.toNat) : splitHostPort (host ++ ':' :: p) = .ok (host, port) := by
  have hhead : (host ++ ':' :: p).head? ≠ some '[' := by
    cases host with
    | nil => simp
    | cons c host => exact hbracket
  exact (splitHostPort_iff hhead).mpr ⟨p, rfl, hp⟩

theorem splitHostPort_v6 {host p : Text} {port : UInt16} (hhost : Ipv6Text host)
    (hp : Text.Numeral p port.toNat) :
    splitHostPort ('[' :: (host ++ ']' :: ':' :: p)) = .ok (host, port) := by
  have hbracket : ']' ∉ host :=
    hhost.not_mem (by decide) ⟨by decide, by decide, by decide, by decide⟩
  refine splitHostPort_bracket_iff.mpr ⟨p, ?_, hp⟩
  exact cut_bracket hbracket p

theorem WritesAddress.splitHostPort_eq {addr host : Text} {port : UInt16}
    (h : WritesAddress addr host port) : splitHostPort addr = .ok (host, port) := by
  cases h with
  | name hhost hbracket hp => exact splitHostPort_name hbracket hp
  | v6 hhost hp => exact splitHostPort_v6 hhost hp

/-- Neither form has a separator of the link in it. -/
theorem WritesAddress.not_mem {addr host : Text} {port : UInt16}
    (h : WritesAddress addr host port) : ∀ c ∈ ['#', '?'], c ∉ addr := by
  cases h with
  | @name _ p _ hhost hbracket hp =>
    have hhash : '#' ∉ p := hp.not_mem (by decide) (by decide)
    have hquestion : '?' ∉ p := hp.not_mem (by decide) (by decide)
    simp [hhost '#' (by simp), hhost '?' (by simp), hhash, hquestion]
  | @v6 _ p _ hhost hp =>
    have hhash : '#' ∉ p := hp.not_mem (by decide) (by decide)
    have hquestion : '?' ∉ p := hp.not_mem (by decide) (by decide)
    have hhash' : '#' ∉ host :=
      hhost.not_mem (by decide) ⟨by decide, by decide, by decide, by decide⟩
    have hquestion' : '?' ∉ host :=
      hhost.not_mem (by decide) ⟨by decide, by decide, by decide, by decide⟩
    simp [hhash, hquestion, hhash', hquestion']

/-! ## The two kinds of links -/

/-- **Share links are read back.**  For a user id without separators and an address in one of
its two forms, whatever the texts beside them, and percent-encoding is undone for every text. -/
theorem share_links_round_trip {uuid addr host : Text} {port : UInt16} (huuid : uuid ≠ [])
    (hseps : ∀ c ∈ ['@', '#', '?'], c ∉ uuid) (haddr : WritesAddress addr host port)
    (sni fp flow label xhost path mode s : Text) :
    parse (vlessLink uuid addr sni fp flow label) = some (.ok
      { uuid, host, port, sni, fp, label,
        security := "tls".toList, network := "tcp".toList,
        flow := if flow = "none".toList then [] else flow }) ∧
    parse (vlessXhttpLink
      { uuid, sni, path, mode, fp, label,
        serverAddr := addr, host := xhost }) = some (.ok
      { uuid, host, port, sni, fp, label,
        security := "tls".toList, network := "xhttp".toList, flow := [] }) ∧
    pctDecode (pct s) = some s := by
  have hread : ∀ params : List (Text × Text), (∀ kv ∈ params, KeyOk kv.1) → params ≠ [] → _ :=
    fun params hkeys hne => parse_shareLink huuid hseps haddr.not_mem haddr.splitHostPort_eq
      hkeys hne label
  refine ⟨?_, ?_, pctDecode_pct s⟩
  · unfold vlessLink
    simp only
    by_cases hflow : flow ≠ [] ∧ flow ≠ "none".toList
    · rw [if_pos hflow, hread _ _ (by simp), if_neg hflow.2]
      · rfl
      · simp only [List.cons_append, List.nil_append, List.forall_mem_cons]
        decide
    · have hnone : (if flow = "none".toList then [] else flow) = [] := by
        split
        · rfl
        · next hne => exact not_not.mp fun h => hflow ⟨h, hne⟩
      rw [if_neg hflow, hread _ _ (by simp), hnone]
      · rfl
      · simp only [List.forall_mem_cons]
        decide
  · rw [vlessXhttpLink, hread _ _ (List.cons_ne_nil _ _)]
    · rfl
    · simp only [List.forall_mem_cons]
      decide

/-- Both forms of an address. -/
theorem share_links_round_trip_two :
    parse (vlessLink ['u'] "h:443".toList ['s'] [] "none".toList ['#']) = some (.ok
      { uuid := ['u'], host := ['h'], port := 443, sni := ['s'], fp := [], label := ['#'],
        security := "tls".toList, network := "tcp".toList, flow := [] }) ∧
    parse (vlessLink ['u'] "[::1]:443".toList ['s'] [] ['f'] ['é']) = some (.ok
      { uuid := ['u'], host := "::1".toList, port := 443, sni := ['s'], fp := [], label := ['é'],
        security := "tls".toList, network := "tcp".toList, flow := ['f'] }) := by
  have hport : Text.Numeral "443".toList (443 : UInt16).toNat :=
    (parsePort_eq_ok_iff (s := [])).mp rfl
  have hhost : ∀ c ∈ [':', '#', '?'], c ∉ ['h'] := by simp
  have hbracket : ['h'].head? ≠ some '[' := by decide
  have hname : WritesAddress "h:443".toList ['h'] 443 := WritesAddress.name hhost hbracket hport
  have hliteral : Ipv6Text "::1".toList :=
    ⟨Octets.fromSlice 16 [0, 0, 0, 0, 0, 0, 0, 0, 0, 0, 0, 0, 0, 0, 0, 1], by decide⟩
  have hv6 : WritesAddress "[::1]:443".toList "::1".toList 443 := WritesAddress.v6 hliteral hport
  have huuid : ∀ c ∈ ['@', '#', '?'], c ∉ ['u'] := by simp
  exact ⟨(share_links_round_trip (by decide) huuid hname ['s'] [] "none".toList ['#'] [] [] []
      []).1,
    (share_links_round_trip (by decide) huuid hv6 ['s'] [] ['f'] ['é'] [] [] [] []).1⟩

/-- A host that begins with a bracket is not read back. -/
theorem vlessLink_bracket :
    (∀ c ∈ ['@', '#', '?', '/', ':'], c ∉ ['[', 'a']) ∧
      (∀ c ∈ ['[', 'a'], Routing.isWhitespace c = false) ∧
      parse (vlessLink ['u'] "[a:443".toList [] [] [] []) =
        some (.error (.malformedIpv6HostPort "[a:443".toList)) := by
  refine ⟨by simp, ?_, rfl⟩
  simp only [List.forall_mem_cons]
  exact ⟨by decide, by decide, List.forall_mem_nil _⟩

end Link
end Client
end HoldTheDonut
