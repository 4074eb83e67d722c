import HoldTheDonut.Client.ShareLink

/-!
# Importing a link

`cmd_import` of `donut-client/src/imports.rs` makes the outbound of a client configuration
from a share link.  The parser has taken the brackets off an IPv6 address, and the import puts
the host and the port together again with a colon and no brackets.

That is read back by `split_host_port` all the same.  A host that does not begin with a bracket
is split off at the last colon, however many there are before it, and neither a host that was
given without brackets nor an IPv6 address begins with one.
-/

namespace HoldTheDonut
namespace Client
namespace Link

/-- The outbound of a client configuration. -/
structure ClientOutbound where
  server : Text
  uuid : Text
  transport : Text
  serverName : Text
  path : Text
  mode : Text
  flow : Text
  deriving DecidableEq

/-- The outbound `cmd_import` writes for a link.  The client cannot start Vision itself, so
that flow becomes `none`. -/
def VlessLink.outbound (l : VlessLink) : ClientOutbound where
  server := l.host ++ ':' :: Nat.toDigits 10 l.port.toNat
  uuid := l.uuid
  transport := "raw".toList
  serverName := l.serverName
  path := "/".toList
  mode := "stream-one".toList
  flow := if l.flow = "xtls-rprx-vision".toList then "none".toList else l.flow

/-- `cmd_import`, as far as the outbound goes. -/
def cmdImport (link : Text) : Option (Except LinkError ClientOutbound) :=
  (parse link).map fun parsed => parsed.map VlessLink.outbound

/-- What stands between the user id and the query of a link. -/
def hostport (s : Text) : Option Text :=
  (Text.dropStart scheme (Routing.trim s)).bind fun rest =>
    (Text.splitOnce '@' (cutParts rest).authority).map Prod.snd

/-! ## What the parser returns -/

/-- The query does not touch the address. -/
theorem set_address (l : VlessLink) (k v : Text) :
    (l.set k v).host = l.host ∧ (l.set k v).port = l.port := by
  unfold VlessLink.set
  split_ifs <;> exact ⟨rfl, rfl⟩

theorem applyQuery_address {kvs : List (Text × Text)} {link l : VlessLink}
    (h : applyQuery kvs link = some l) : l.host = link.host ∧ l.port = link.port := by
  induction kvs generalizing link with
  | nil =>
    cases h
    exact ⟨rfl, rfl⟩
  | cons kv kvs ih =>
    obtain ⟨k, v⟩ := kv
    rw [applyQuery] at h
    rcases hv : pctDecode v with _ | v'
    · rw [hv] at h
      cases h
    · rw [hv] at h
      obtain ⟨hhost, hport⟩ := ih h
      obtain ⟨hhost', hport'⟩ := set_address link k v'
      exact ⟨hhost.trans hhost', hport.trans hport'⟩

/-- The address of an accepted link is that of its authority. -/
theorem splitHostPort_of_parse {s authority : Text} {l : VlessLink}
    (h : parse s = some (.ok l)) (hauthority : hostport s = some authority) :
    splitHostPort authority = .ok (l.host, l.port) := by
  unfold parse at h
  unfold hostport at hauthority
  rcases hdrop : Text.dropStart scheme (Routing.trim s) with _ | rest
  · rw [hdrop] at hauthority
    cases hauthority
  rw [hdrop] at h hauthority
  rcases hlabel : pctDecode (cutParts rest).fragment with _ | label
  · simp only [hlabel] at h
    cases h
  simp only [hlabel, parseParts] at h
  rcases hat : Text.splitOnce '@' (cutParts rest).authority with _ | ⟨uuid, addr⟩
  · rw [hat] at h
    cases h
  rw [Option.bind_some, hat] at hauthority
  cases hauthority
  simp only [hat] at h
  split at h
  · cases h
  rcases hsplit : splitHostPort addr with e | ⟨host, port⟩
  · rw [hsplit] at h
    cases h
  simp only [hsplit] at h
  obtain ⟨l', hquery, hl⟩ := Option.map_eq_some_iff.mp h
  cases hl
  obtain ⟨hhost, hport⟩ := applyQuery_address hquery
  exact congrArg Except.ok (Prod.ext hhost.symm hport.symm)

/-! ## The server of the outbound -/

/-- A port as it is written is read back. -/
theorem numeral_toDigits (port : UInt16) :
    Text.Numeral (Nat.toDigits 10 port.toNat) port.toNat :=
  (Text.parseUnsigned_eq_some_iff.mp (Text.parseUnsigned_toDigits port.toNat_lt)).1

/-- An authority `host:port`, or `[address]:port` with an IPv6 address. -/
def AuthorityForm (authority : Text) : Prop :=
  authority.head? ≠ some '[' ∨
    ∃ v6 p : Text, Ipv6Text v6 ∧ authority = '[' :: (v6 ++ ']' :: ':' :: p)

/-- The host of such an authority does not begin with a bracket. -/
theorem AuthorityForm.head_ne {authority host : Text} {port : UInt16}
    (h : AuthorityForm authority) (hsplit : splitHostPort authority = .ok (host, port)) :
    host.head? ≠ some '[' := by
  rcases h with hhead | ⟨v6, p, hv6, rfl⟩
  · obtain ⟨p, rfl, -⟩ := (splitHostPort_iff hhead).mp hsplit
    cases host with
    | nil => exact fun h => by cases h
    | cons c host => exact hhead
  · have hclose : ']' ∉ v6 :=
      hv6.not_mem (by decide) ⟨by decide, by decide, by decide, by decide⟩
    have hopen : '[' ∉ v6 :=
      hv6.not_mem (by decide) ⟨by decide, by decide, by decide, by decide⟩
    obtain ⟨p', hcut, -⟩ := splitHostPort_bracket_iff.mp hsplit
    cases (cut_bracket hclose p).symm.trans hcut
    exact fun h => hopen (List.mem_of_head? h)

/-- **An import keeps the server address.**  The server of the outbound that is written for a
link, split the way the parser splits an authority, is the host and the port of the link. -/
theorem import_keeps_server {s authority : Text} {l : VlessLink} (hparse : parse s = some (.ok l))
    (hauthority : hostport s = some authority) (hform : AuthorityForm authority) :
    ∃ o, cmdImport s = some (.ok o) ∧ splitHostPort o.server = .ok (l.host, l.port) := by
  refine ⟨l.outbound, ?_, ?_⟩
  · rw [cmdImport, hparse]
    rfl
  · exact splitHostPort_name (hform.head_ne (splitHostPort_of_parse hparse hauthority))
      (numeral_toDigits l.port)

/-- An IPv6 address, whose brackets are gone. -/
theorem import_keeps_server_v6 :
    ∃ o, cmdImport (scheme ++ "u@[::1]:443".toList) = some (.ok o) ∧
      splitHostPort o.server = .ok ("::1".toList, 443) := by
  have hliteral : Ipv6Text "::1".toList :=
    ⟨Octets.fromSlice 16 [0, 0, 0, 0, 0, 0, 0, 0, 0, 0, 0, 0, 0, 0, 0, 1], by decide⟩
  have hform : AuthorityForm "[::1]:443".toList :=
    Or.inr ⟨"::1".toList, "443".toList, hliteral, rfl⟩
  have hparse : parse (scheme ++ "u@[::1]:443".toList) = some (.ok
      { uuid := ['u'], host := "::1".toList, port := 443, security := [], sni := [], fp := [],
        flow := [], network := "tcp".toList, label := [] }) := rfl
  have hauthority : hostport (scheme ++ "u@[::1]:443".toList) = some "[::1]:443".toList := rfl
  exact import_keeps_server hparse hauthority hform

end Link
end Client
end HoldTheDonut
