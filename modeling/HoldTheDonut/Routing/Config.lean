import HoldTheDonut.Routing.Networks
import HoldTheDonut.Text.Format

/-!
# `donut-routing`: from the configuration to the rule table

A rule of the configuration is text: domains, networks in CIDR form, ports and port ranges, and
codes of the geo databases.  `build_with_geo` compiles the rules once, so that `route` works on
parsed conditions, and refuses a configuration with an entry it cannot compile.

The other reading of a configuration is direct.  `WritesCidr` and `WritesPorts` say what a text
writes, without a parser; an endpoint satisfies a rule when it satisfies one of its entries
(`Satisfies`); the first rule that is satisfied gives the tag (`FirstSatisfied`).
`buildWithGeo_exact` is that the two readings agree, and that the entries that cannot be
compiled are those that write nothing.

A network is cut at the first slash, and what stands before it has to be an address; an address
has no slash (`not_mem_of_parseIpAddr`), so any slash with an address before and a number behind
is the first.  Blanks around a port, a range and its ends are ignored, and a range is cut at the
first hyphen, which no number has.
-/

namespace HoldTheDonut
namespace Routing

open Geo

/-! ## The two small parsers -/

inductive RoutingError where
  | cidr (text : String)
  | port (text : String)
  | missingGeo (text : String)
  deriving DecidableEq

/-- The longest prefix of a network of this family. -/
def maxPrefix (net : IpAddr) : ℕ := if net.isIpv4 then 32 else 128

/-- `Cidr::from_str`. -/
def Cidr.fromStr (s : String) : Except RoutingError Cidr :=
  match Text.splitOnce '/' s.toList with
  | none => .error (.cidr s)
  | some (netStr, prefixStr) =>
    match parseIpAddr (String.ofList netStr) with
    | none => .error (.cidr s)
    | some net =>
      match Text.parseUnsigned 256 prefixStr with
      | none => .error (.cidr s)
      | some prefixLen =>
        if maxPrefix net < prefixLen then .error (.cidr s)
        else .ok ⟨net, UInt8.ofNat prefixLen⟩

/-- `char::is_whitespace`. -/
def isWhitespace (c : Char) : Bool :=
  let n := c.toNat
  decide (9 ≤ n ∧ n ≤ 13) || n == 0x20 || n == 0x85 || n == 0xa0 || n == 0x1680 ||
    decide (0x2000 ≤ n ∧ n ≤ 0x200a) || n == 0x2028 || n == 0x2029 || n == 0x202f ||
    n == 0x205f || n == 0x3000

/-- `str::trim`. -/
def trim (t : Text) : Text := Text.trim isWhitespace t

/-- The ports of a trimmed text, given as the text itself and as it is cut at a hyphen. -/
def portsOfCut (t : Text) : Option (Text × Text) → Except RoutingError (UInt16 × UInt16)
  | some (a, b) =>
    match Text.parseUnsigned 65536 (trim a) with
    | none => .error (.port (String.ofList t))
    | some lo =>
      match Text.parseUnsigned 65536 (trim b) with
      | none => .error (.port (String.ofList t))
      | some hi =>
        if hi < lo then .error (.port (String.ofList t))
        else .ok (UInt16.ofNat lo, UInt16.ofNat hi)
  | none =>
    match Text.parseUnsigned 65536 t with
    | none => .error (.port (String.ofList t))
    | some p => .ok (UInt16.ofNat p, UInt16.ofNat p)

/-- `parse_port_spec`.  Its error carries the trimmed text. -/
def parsePortSpec (s : String) : Except RoutingError (UInt16 × UInt16) :=
  portsOfCut (trim s.toList) (Text.splitOnce '-' (trim s.toList))

/-! ## Compiling -/

/-- A rule as it is written. -/
structure RuleConfig where
  domain : List DomainMatch
  ip : List String
  port : List String
  geoip : List String
  geosite : List String
  outbound : String

/-- The routing table as it is written. -/
structure RoutingConfig where
  defaultOutbound : String
  rules : List RuleConfig

def cidrCondition (s : String) : Except RoutingError Condition := do
  let c ← Cidr.fromStr s
  pure (.cidr c)

def portCondition (s : String) : Except RoutingError Condition := do
  let r ← parsePortSpec s
  pure (.ports r.1 r.2)

def geoIpCondition (geoipDb : Option GeoIpDb) (code : String) : Except RoutingError Condition :=
  match geoipDb with
  | some db => .ok (.geoIp db code)
  | none => .error (.missingGeo ("geoip:" ++ code))

def geoSiteCondition (geositeDb : Option GeoSiteDb) (code : String) :
    Except RoutingError Condition :=
  match geositeDb with
  | some db => .ok (.geoSite db code)
  | none => .error (.missingGeo ("geosite:" ++ code))

section Compiling

variable (geoipDb : Option GeoIpDb) (geositeDb : Option GeoSiteDb)

/-- One turn of the loop over the rules: five loops over the entries, each of which stops at
the first error. -/
def buildRule (rc : RuleConfig) : Except RoutingError Rule := do
  let cidrs ← rc.ip.mapM cidrCondition
  let ports ← rc.port.mapM portCondition
  let geoips ← rc.geoip.mapM (geoIpCondition geoipDb)
  let geosites ← rc.geosite.mapM (geoSiteCondition geositeDb)
  pure ⟨rc.domain.map .domain ++ cidrs ++ ports ++ geoips ++ geosites, rc.outbound⟩

/-- `RoutingConfig::build_with_geo`. -/
def RoutingConfig.buildWithGeo (config : RoutingConfig) : Except RoutingError Router := do
  let rules ← config.rules.mapM (buildRule geoipDb geositeDb)
  pure ⟨rules, config.defaultOutbound⟩

end Compiling

/-! ## What an entry writes -/

/-- A network: an address, a slash, and a number of at most as many as the address has bits. -/
def WritesCidr (s : String) (net : IpAddr) (n : ℕ) : Prop :=
  ∃ a b : Text, s.toList = a ++ '/' :: b ∧ parseIpAddr (String.ofList a) = some net ∧
    Text.Numeral b n ∧ n ≤ net.width

/-- A port, or two with a hyphen between, with blanks around them. -/
def WritesPorts (s : String) (lo hi : ℕ) : Prop :=
  ((Text.Numeral (trim s.toList) lo ∧ hi = lo) ∨
    ∃ a b : Text, s.toList = a ++ '-' :: b ∧ Text.Numeral (trim a) lo ∧
      Text.Numeral (trim b) hi) ∧
  lo ≤ hi ∧ hi < 65536

/-- **An endpoint satisfies an entry of a rule.** -/
inductive Satisfies (geoipDb : Option GeoIpDb) (geositeDb : Option GeoSiteDb) (rc : RuleConfig)
    (ep : Endpoint) : Prop where
  | domain {m : DomainMatch} {host : String} : m ∈ rc.domain → ep.address = .domain host →
    m.matches host = true → Satisfies geoipDb geositeDb rc ep
  | ip {s : String} {net a : IpAddr} {n : ℕ} : s ∈ rc.ip → ep.address = .ip a →
    WritesCidr s net n → a.isIpv4 = net.isIpv4 →
    (∀ j, j < n → addressBit net.octets j = addressBit a.octets j) →
    Satisfies geoipDb geositeDb rc ep
  | port {s : String} {lo hi : ℕ} : s ∈ rc.port → WritesPorts s lo hi → lo ≤ ep.port.toNat →
    ep.port.toNat ≤ hi → Satisfies geoipDb geositeDb rc ep
  | geoip {code : String} {db : GeoIpDb} {a : IpAddr} : code ∈ rc.geoip → geoipDb = some db →
    ep.address = .ip a → db.contains code a = true → Satisfies geoipDb geositeDb rc ep
  | geosite {code : String} {db : GeoSiteDb} {host : String} : code ∈ rc.geosite →
    geositeDb = some db → ep.address = .domain host → db.matches code host = true →
    Satisfies geoipDb geositeDb rc ep

/-- **The tag of the first rule that is satisfied, or the default.** -/
def FirstSatisfied (geoipDb : Option GeoIpDb) (geositeDb : Option GeoSiteDb)
    (config : RoutingConfig) (ep : Endpoint) (tag : String) : Prop :=
  (∃ before rc behind, config.rules = before ++ rc :: behind ∧
    (∀ r ∈ before, ¬ Satisfies geoipDb geositeDb r ep) ∧ Satisfies geoipDb geositeDb rc ep ∧
    tag = rc.outbound) ∨
  ((∀ r ∈ config.rules, ¬ Satisfies geoipDb geositeDb r ep) ∧ tag = config.defaultOutbound)

/-- **A rule with an entry that writes nothing**, or that asks for a database there is not. -/
def Unusable (geoipDb : Option GeoIpDb) (geositeDb : Option GeoSiteDb) (rc : RuleConfig) : Prop :=
  (∃ s ∈ rc.ip, ¬ ∃ net n, WritesCidr s net n) ∨ (∃ s ∈ rc.port, ¬ ∃ lo hi, WritesPorts s lo hi) ∨
  (rc.geoip ≠ [] ∧ geoipDb = none) ∨ (rc.geosite ≠ [] ∧ geositeDb = none)

/-! ## The parsers read what is written -/

theorem slash_mem_utf8 {t : Text} (h : '/' ∈ t) : 47 ∈ utf8 (String.ofList t) := by
  obtain ⟨a, b, rfl⟩ := List.append_of_mem h
  have hslash : utf8 (String.ofList ['/']) = [47] := by decide
  rw [← List.singleton_append, String.ofList_append, String.ofList_append, utf8_append,
    utf8_append, hslash]
  simp

theorem width_eq_maxPrefix (net : IpAddr) : net.width = maxPrefix net := by
  cases net <;> rfl

variable {s : String}

/-- **A network is read exactly where one is written.** -/
theorem fromStr_eq_ok_iff {c : Cidr} :
    Cidr.fromStr s = .ok c ↔ WritesCidr s c.net c.prefixLen.toNat := by
  constructor
  · intro h
    unfold Cidr.fromStr at h
    split at h
    · cases h
    · next a b hsplit =>
      split at h
      · cases h
      · next net hnet =>
        split at h
        · cases h
        · next n hn =>
          split at h
          · cases h
          · next hmax =>
            cases h
            obtain ⟨hnum, hlt⟩ := Text.parseUnsigned_eq_some_iff.mp hn
            have htoNat : (UInt8.ofNat n).toNat = n := by
              rw [UInt8.toNat_ofNat']
              exact Nat.mod_eq_of_lt hlt
            refine ⟨a, b, (Text.splitOnce_eq_some_iff.mp hsplit).1, hnet, ?_, ?_⟩
            · rw [htoNat]
              exact hnum
            · rw [htoNat, width_eq_maxPrefix]
              exact Nat.not_lt.mp hmax
  · rintro ⟨a, b, hs, hnet, hnum, hmax⟩
    have hslash : '/' ∉ a := fun hmem => not_mem_of_parseIpAddr hnet (slash_mem_utf8 hmem)
    have hn : Text.parseUnsigned 256 b = some c.prefixLen.toNat :=
      Text.parseUnsigned_eq_some_iff.mpr ⟨hnum, c.prefixLen.toNat_lt⟩
    rw [width_eq_maxPrefix] at hmax
    unfold Cidr.fromStr
    simp only [hs, Text.splitOnce_append hslash, hnet, hn]
    rw [if_neg (Nat.not_lt.mpr hmax), UInt8.ofNat_toNat]

/-- Hyphens are not blanks. -/
theorem isWhitespace_hyphen : isWhitespace '-' = false := by decide

theorem Numeral.no_hyphen {t : Text} {n : ℕ} (h : Text.Numeral t n) : '-' ∉ t :=
  h.not_mem (by decide) (by decide)

/-- The text may as well be cut before it is trimmed. -/
theorem parsePortSpec_eq (s : String) :
    parsePortSpec s = portsOfCut (trim s.toList) (Text.splitOnce '-' s.toList) := by
  have hcut : Text.splitOnce '-' (trim s.toList) = (Text.splitOnce '-' s.toList).map
      fun p => (p.1.dropWhile isWhitespace, p.2.rdropWhile isWhitespace) :=
    Text.splitOnce_trim isWhitespace_hyphen s.toList
  rw [parsePortSpec, hcut]
  cases Text.splitOnce '-' s.toList with
  | none => rfl
  | some p =>
    have ha : trim (p.1.dropWhile isWhitespace) = trim p.1 := Text.trim_dropWhile p.1
    have hb : trim (p.2.rdropWhile isWhitespace) = trim p.2 := Text.trim_rdropWhile p.2
    simp only [Option.map_some, portsOfCut, ha, hb]

/-- What is read is written there. -/
theorem writesPorts_of_parsePortSpec {lo hi : UInt16} (h : parsePortSpec s = .ok (lo, hi)) :
    WritesPorts s lo.toNat hi.toNat := by
  rw [parsePortSpec_eq] at h
  unfold portsOfCut at h
  split at h
  · next a b hsplit =>
    split at h
    · cases h
    · next l hl =>
      split at h
      · cases h
      · next u hu =>
        split at h
        · cases h
        · next hle =>
          cases h
          obtain ⟨hlnum, hllt⟩ := Text.parseUnsigned_eq_some_iff.mp hl
          obtain ⟨hunum, hult⟩ := Text.parseUnsigned_eq_some_iff.mp hu
          rw [WritesPorts, UInt16.toNat_ofNat_of_lt' hllt, UInt16.toNat_ofNat_of_lt' hult]
          exact ⟨Or.inr ⟨a, b, (Text.splitOnce_eq_some_iff.mp hsplit).1, hlnum, hunum⟩,
            Nat.not_lt.mp hle, hult⟩
  · split at h
    · cases h
    · next n hn =>
      cases h
      obtain ⟨hnum, hlt⟩ := Text.parseUnsigned_eq_some_iff.mp hn
      rw [WritesPorts, UInt16.toNat_ofNat_of_lt' hlt]
      exact ⟨Or.inl ⟨hnum, rfl⟩, le_rfl, hlt⟩

/-- A numeral that fits sixteen bits is read as its value. -/
theorem parseUnsigned_of_numeral {t : Text} {n : UInt16} (h : Text.Numeral (trim t) n.toNat) :
    Text.parseUnsigned 65536 (trim t) = some n.toNat :=
  Text.parseUnsigned_eq_some_iff.mpr ⟨h, n.toNat_lt⟩

/-- **Ports are read exactly where they are written.** -/
theorem parsePortSpec_eq_ok_iff {lo hi : UInt16} :
    parsePortSpec s = .ok (lo, hi) ↔ WritesPorts s lo.toNat hi.toNat := by
  refine ⟨writesPorts_of_parsePortSpec, ?_⟩
  rw [parsePortSpec_eq]
  rintro ⟨⟨hnum, hsame⟩ | ⟨a, b, hs, hlo, hhi⟩, hle, -⟩
  · have hnone : Text.splitOnce '-' s.toList = none := Text.splitOnce_eq_none fun hmem =>
      Numeral.no_hyphen hnum (Text.mem_trim hmem isWhitespace_hyphen)
    have hlohi : hi = lo := UInt16.toNat_inj.mp hsame
    simp only [portsOfCut, hnone, parseUnsigned_of_numeral hnum, UInt16.ofNat_toNat, hlohi]
  · have hhyphen : '-' ∉ a := fun hmem =>
      Numeral.no_hyphen hlo (Text.mem_trim hmem isWhitespace_hyphen)
    simp only [portsOfCut, hs, Text.splitOnce_append hhyphen, parseUnsigned_of_numeral hlo,
      parseUnsigned_of_numeral hhi]
    rw [if_neg (Nat.not_lt.mpr hle), UInt16.ofNat_toNat, UInt16.ofNat_toNat]

/-! ## Compiled entries -/

section Lists

variable {α β ε : Type} {f : α → Except ε β} {l : List α}

/-- A loop that stops at the first error has compiled every entry. -/
theorem mapM_eq_ok_iff {ys : List β} :
    l.mapM f = .ok ys ↔ List.Forall₂ (fun x y => f x = .ok y) l ys := by
  induction l generalizing ys with
  | nil =>
    rw [List.mapM_nil, List.forall₂_nil_left_iff]
    exact ⟨fun h => (Except.ok.inj h).symm, fun h => congrArg Except.ok h.symm⟩
  | cons x l ih =>
    rw [List.mapM_cons, List.forall₂_cons_left_iff]
    cases hx : f x with
    | error e => exact ⟨(fun h => by cases h), fun ⟨_, _, h, _⟩ => by cases h⟩
    | ok y =>
      cases hl : l.mapM f with
      | error e =>
        refine ⟨(fun h => by cases h), fun ⟨_, ys', _, hall, _⟩ => ?_⟩
        rw [ih.mpr hall] at hl
        cases hl
      | ok ys' =>
        constructor
        · intro h
          cases h
          exact ⟨y, ys', rfl, ih.mp hl, rfl⟩
        · rintro ⟨y', ys'', hy, hall, rfl⟩
          cases hy
          rw [ih.mpr hall] at hl
          cases hl
          rfl

/-- Or some entry does not compile. -/
theorem mapM_eq_error_iff : (∃ e, l.mapM f = .error e) ↔ ∃ x ∈ l, ∃ e, f x = .error e := by
  induction l with
  | nil => simp [List.mapM_nil, pure, Except.pure]
  | cons x l ih =>
    rw [List.mapM_cons]
    simp only [List.mem_cons, exists_eq_or_imp, ← ih]
    cases f x with
    | error e => simp [bind, Except.bind]
    | ok y => cases l.mapM f <;> simp [bind, Except.bind, pure, Except.pure]

/-- What the compiled entries satisfy, the entries do. -/
theorem exists_mem_iff_of_forall₂ {p : α → Prop} {q : β → Prop} {ys : List β}
    (hall : List.Forall₂ (fun x y => f x = .ok y) l ys) (h : ∀ x y, f x = .ok y → (q y ↔ p x)) :
    (∃ y ∈ ys, q y) ↔ ∃ x ∈ l, p x := by
  induction hall with
  | nil => simp
  | cons hx _ ih => simp only [List.mem_cons, exists_eq_or_imp, h _ _ hx, ih]

end Lists

/-- A text writes one network at most. -/
theorem WritesCidr.fromStr_eq {net : IpAddr} {n : ℕ} (h : WritesCidr s net n) :
    Cidr.fromStr s = .ok ⟨net, UInt8.ofNat n⟩ ∧ (UInt8.ofNat n).toNat = n := by
  have hwidth : net.width ≤ 128 := by cases net <;> simp [IpAddr.width]
  have hn : (UInt8.ofNat n).toNat = n := by
    obtain ⟨_, _, _, _, _, hle⟩ := h
    rw [UInt8.toNat_ofNat']
    exact Nat.mod_eq_of_lt (by omega)
  refine ⟨fromStr_eq_ok_iff.mpr ?_, hn⟩
  show WritesCidr s net (UInt8.ofNat n).toNat
  rw [hn]
  exact h

theorem WritesPorts.parsePortSpec_eq {lo hi : ℕ} (h : WritesPorts s lo hi) :
    parsePortSpec s = .ok (UInt16.ofNat lo, UInt16.ofNat hi) ∧
      (UInt16.ofNat lo).toNat = lo ∧ (UInt16.ofNat hi).toNat = hi := by
  have hlo : (UInt16.ofNat lo).toNat = lo := by
    rw [UInt16.toNat_ofNat']
    exact Nat.mod_eq_of_lt (lt_of_le_of_lt h.2.1 h.2.2)
  have hhi : (UInt16.ofNat hi).toNat = hi := by
    rw [UInt16.toNat_ofNat']
    exact Nat.mod_eq_of_lt h.2.2
  refine ⟨parsePortSpec_eq_ok_iff.mpr ?_, hlo, hhi⟩
  rw [hlo, hhi]
  exact h

section Entries

variable {ep : Endpoint} {c : Condition}

theorem matches_cidrCondition (h : cidrCondition s = .ok c) :
    c.matches ep = true ↔ ∃ net a n, ep.address = .ip a ∧ WritesCidr s net n ∧
      a.isIpv4 = net.isIpv4 ∧ ∀ j, j < n → addressBit net.octets j = addressBit a.octets j := by
  cases hread : Cidr.fromStr s with
  | error e =>
    rw [cidrCondition, hread] at h
    cases h
  | ok cidr =>
    rw [cidrCondition, hread] at h
    cases h
    have hwrites := fromStr_eq_ok_iff.mp hread
    rw [Condition.matches]
    cases haddress : ep.address with
    | domain d =>
      constructor
      · intro hmatches
        cases hmatches
      · rintro ⟨_, _, _, ha, _⟩
        cases ha
    | ip a =>
      show Network.contains cidr a = true ↔ _
      rw [Network.contains_iff]
      constructor
      · rintro ⟨hfamily, -, hbits⟩
        exact ⟨cidr.net, a, cidr.prefixLen.toNat, rfl, hwrites, hfamily, hbits⟩
      · rintro ⟨net, a', n, ha, hwrites', hfamily, hbits⟩
        cases ha
        obtain ⟨hread', hn⟩ := hwrites'.fromStr_eq
        rw [hread'] at hread
        cases hread
        obtain ⟨_, _, _, _, _, hle⟩ := hwrites
        refine ⟨hfamily, hle, ?_⟩
        rw [hn]
        exact hbits

theorem matches_portCondition (h : portCondition s = .ok c) :
    c.matches ep = true ↔
      ∃ lo hi, WritesPorts s lo hi ∧ lo ≤ ep.port.toNat ∧ ep.port.toNat ≤ hi := by
  cases hread : parsePortSpec s with
  | error e =>
    rw [portCondition, hread] at h
    cases h
  | ok r =>
    obtain ⟨lo, hi⟩ := r
    rw [portCondition, hread] at h
    cases h
    have hwrites := parsePortSpec_eq_ok_iff.mp hread
    have hports : (Condition.ports lo hi).matches ep = true ↔
        lo.toNat ≤ ep.port.toNat ∧ ep.port.toNat ≤ hi.toNat := by
      rw [Condition.matches, Bool.and_eq_true, decide_eq_true_iff, decide_eq_true_iff,
        UInt16.le_iff_toNat_le, UInt16.le_iff_toNat_le]
    show (Condition.ports lo hi).matches ep = true ↔ _
    rw [hports]
    constructor
    · exact fun h => ⟨lo.toNat, hi.toNat, hwrites, h⟩
    · rintro ⟨lo', hi', hwrites', h⟩
      obtain ⟨hread', hlo, hhi⟩ := hwrites'.parsePortSpec_eq
      rw [hread'] at hread
      cases hread
      rw [hlo, hhi]
      exact h

theorem matches_geoIpCondition {geoipDb : Option GeoIpDb} {code : String}
    (h : geoIpCondition geoipDb code = .ok c) :
    c.matches ep = true ↔
      ∃ db a, geoipDb = some db ∧ ep.address = .ip a ∧ db.contains code a = true := by
  cases geoipDb with
  | none => cases h
  | some db =>
    cases h
    rw [Condition.matches]
    cases ep.address <;> simp

theorem matches_geoSiteCondition {geositeDb : Option GeoSiteDb} {code : String}
    (h : geoSiteCondition geositeDb code = .ok c) :
    c.matches ep = true ↔
      ∃ db host, geositeDb = some db ∧ ep.address = .domain host ∧ db.matches code host = true := by
  cases geositeDb with
  | none => cases h
  | some db =>
    cases h
    rw [Condition.matches]
    cases ep.address <;> simp

end Entries

theorem cidrCondition_eq_error_iff :
    (∃ e, cidrCondition s = .error e) ↔ ¬ ∃ net n, WritesCidr s net n := by
  cases hread : Cidr.fromStr s with
  | error e =>
    refine ⟨fun _ ⟨net, n, hwrites⟩ => ?_, fun _ => ⟨e, by rw [cidrCondition, hread]; rfl⟩⟩
    rw [hwrites.fromStr_eq.1] at hread
    cases hread
  | ok c =>
    refine ⟨fun ⟨e, he⟩ => ?_, fun h => absurd ⟨_, _, fromStr_eq_ok_iff.mp hread⟩ h⟩
    rw [cidrCondition, hread] at he
    cases he

theorem portCondition_eq_error_iff :
    (∃ e, portCondition s = .error e) ↔ ¬ ∃ lo hi, WritesPorts s lo hi := by
  cases hread : parsePortSpec s with
  | error e =>
    refine ⟨fun _ ⟨lo, hi, hwrites⟩ => ?_, fun _ => ⟨e, by rw [portCondition, hread]; rfl⟩⟩
    rw [hwrites.parsePortSpec_eq.1] at hread
    cases hread
  | ok r =>
    refine ⟨fun ⟨e, he⟩ => ?_, fun h => absurd ⟨_, _, parsePortSpec_eq_ok_iff.mp hread⟩ h⟩
    rw [portCondition, hread] at he
    cases he

/-! ## Compiled rules -/

section Rules

variable {geoipDb : Option GeoIpDb} {geositeDb : Option GeoSiteDb} {rc : RuleConfig} {rule : Rule}

/-- The compiled entries of a compiled rule. -/
theorem buildRule_eq_ok (h : buildRule geoipDb geositeDb rc = .ok rule) :
    ∃ cidrs ports geoips geosites,
      List.Forall₂ (fun x y => cidrCondition x = .ok y) rc.ip cidrs ∧
      List.Forall₂ (fun x y => portCondition x = .ok y) rc.port ports ∧
      List.Forall₂ (fun x y => geoIpCondition geoipDb x = .ok y) rc.geoip geoips ∧
      List.Forall₂ (fun x y => geoSiteCondition geositeDb x = .ok y) rc.geosite geosites ∧
      rule = ⟨rc.domain.map .domain ++ cidrs ++ ports ++ geoips ++ geosites, rc.outbound⟩ := by
  rw [buildRule] at h
  cases hip : rc.ip.mapM cidrCondition with
  | error e => rw [hip] at h; cases h
  | ok cidrs =>
    cases hport : rc.port.mapM portCondition with
    | error e => rw [hip, hport] at h; cases h
    | ok ports =>
      cases hgeoip : rc.geoip.mapM (geoIpCondition geoipDb) with
      | error e => rw [hip, hport, hgeoip] at h; cases h
      | ok geoips =>
        cases hgeosite : rc.geosite.mapM (geoSiteCondition geositeDb) with
        | error e => rw [hip, hport, hgeoip, hgeosite] at h; cases h
        | ok geosites =>
          rw [hip, hport, hgeoip, hgeosite] at h
          cases h
          exact ⟨cidrs, ports, geoips, geosites, mapM_eq_ok_iff.mp hip, mapM_eq_ok_iff.mp hport,
            mapM_eq_ok_iff.mp hgeoip, mapM_eq_ok_iff.mp hgeosite, rfl⟩

theorem buildRule_outbound (h : buildRule geoipDb geositeDb rc = .ok rule) :
    rule.outbound = rc.outbound := by
  obtain ⟨_, _, _, _, _, _, _, _, rfl⟩ := buildRule_eq_ok h
  rfl

/-- **A compiled rule matches what satisfies the rule as it is written.** -/
theorem buildRule_matches_iff (h : buildRule geoipDb geositeDb rc = .ok rule) (ep : Endpoint) :
    rule.matches ep = true ↔ Satisfies geoipDb geositeDb rc ep := by
  obtain ⟨cidrs, ports, geoips, geosites, hip, hport, hgeoip, hgeosite, rfl⟩ := buildRule_eq_ok h
  have hdomain : (∃ c ∈ rc.domain.map Condition.domain, c.matches ep = true) ↔
      ∃ m ∈ rc.domain, ∃ host, ep.address = .domain host ∧ m.matches host = true := by
    simp only [List.mem_map, exists_exists_and_eq_and, Condition.matches]
    cases ep.address <;> simp
  rw [Rule.matches, List.any_eq_true]
  simp only [List.mem_append, or_and_right, exists_or]
  rw [hdomain, exists_mem_iff_of_forall₂ hip fun _ _ => matches_cidrCondition,
    exists_mem_iff_of_forall₂ hport fun _ _ => matches_portCondition,
    exists_mem_iff_of_forall₂ hgeoip fun _ _ => matches_geoIpCondition,
    exists_mem_iff_of_forall₂ hgeosite fun _ _ => matches_geoSiteCondition]
  constructor
  · rintro ((((⟨m, hm, host, hhost, hmatch⟩ | ⟨s, hs, net, a, n, ha, hwrites, hfamily, hbits⟩) |
      ⟨s, hs, lo, hi, hwrites, hlo, hhi⟩) | ⟨code, hcode, db, a, hdb, ha, hin⟩) |
      ⟨code, hcode, db, host, hdb, hhost, hmatch⟩)
    · exact .domain hm hhost hmatch
    · exact .ip hs ha hwrites hfamily hbits
    · exact .port hs hwrites hlo hhi
    · exact .geoip hcode hdb ha hin
    · exact .geosite hcode hdb hhost hmatch
  · intro hsat
    cases hsat with
    | domain hm hhost hmatch => exact .inl (.inl (.inl (.inl ⟨_, hm, _, hhost, hmatch⟩)))
    | ip hs ha hwrites hfamily hbits =>
      exact .inl (.inl (.inl (.inr ⟨_, hs, _, _, _, ha, hwrites, hfamily, hbits⟩)))
    | port hs hwrites hlo hhi => exact .inl (.inl (.inr ⟨_, hs, _, _, hwrites, hlo, hhi⟩))
    | geoip hcode hdb ha hin => exact .inl (.inr ⟨_, hcode, _, _, hdb, ha, hin⟩)
    | geosite hcode hdb hhost hmatch => exact .inr ⟨_, hcode, _, _, hdb, hhost, hmatch⟩

/-- A rule does not compile exactly when it is unusable. -/
theorem buildRule_eq_error_iff :
    (∃ e, buildRule geoipDb geositeDb rc = .error e) ↔ Unusable geoipDb geositeDb rc := by
  have hparts : (∃ e, buildRule geoipDb geositeDb rc = .error e) ↔
      (∃ e, rc.ip.mapM cidrCondition = .error e) ∨ (∃ e, rc.port.mapM portCondition = .error e) ∨
      (∃ e, rc.geoip.mapM (geoIpCondition geoipDb) = .error e) ∨
      ∃ e, rc.geosite.mapM (geoSiteCondition geositeDb) = .error e := by
    cases hip : rc.ip.mapM cidrCondition <;> cases hport : rc.port.mapM portCondition <;>
      cases hgeoip : rc.geoip.mapM (geoIpCondition geoipDb) <;>
      cases hgeosite : rc.geosite.mapM (geoSiteCondition geositeDb) <;>
      simp [buildRule, hip, hport, hgeoip, hgeosite, bind, Except.bind, pure, Except.pure]
  have hgeoip : (∃ code ∈ rc.geoip, ∃ e, geoIpCondition geoipDb code = .error e) ↔
      rc.geoip ≠ [] ∧ geoipDb = none := by
    cases geoipDb <;> simp [geoIpCondition, List.eq_nil_iff_forall_not_mem]
  have hgeosite : (∃ code ∈ rc.geosite, ∃ e, geoSiteCondition geositeDb code = .error e) ↔
      rc.geosite ≠ [] ∧ geositeDb = none := by
    cases geositeDb <;> simp [geoSiteCondition, List.eq_nil_iff_forall_not_mem]
  rw [hparts, mapM_eq_error_iff, mapM_eq_error_iff, mapM_eq_error_iff, mapM_eq_error_iff, hgeoip,
    hgeosite, Unusable]
  simp only [cidrCondition_eq_error_iff, portCondition_eq_error_iff]

end Rules

/-! ## Compiled tables -/

section Tables

variable {geoipDb : Option GeoIpDb} {geositeDb : Option GeoSiteDb}

/-- The walk over the compiled rules ends where the walk over the written ones does. -/
theorem routeLoop_firstSatisfied {written : List RuleConfig} {rules : List Rule}
    (hall : List.Forall₂ (fun rc r => buildRule geoipDb geositeDb rc = .ok r) written rules)
    (defaultOutbound : String) (ep : Endpoint) :
    FirstSatisfied geoipDb geositeDb ⟨defaultOutbound, written⟩ ep
      (routeLoop ep defaultOutbound rules) := by
  induction hall with
  | nil => exact Or.inr ⟨fun r hr => absurd hr List.not_mem_nil, rfl⟩
  | @cons rc r written rules hrule _ ih =>
    rw [routeLoop]
    by_cases hmatch : r.matches ep = true
    · rw [if_pos hmatch, buildRule_outbound hrule]
      exact Or.inl ⟨[], rc, written, rfl, fun r hr => absurd hr List.not_mem_nil,
        (buildRule_matches_iff hrule ep).mp hmatch, rfl⟩
    · have hrc : ¬ Satisfies geoipDb geositeDb rc ep := fun hsat =>
        hmatch ((buildRule_matches_iff hrule ep).mpr hsat)
      rw [if_neg hmatch]
      rcases ih with ⟨before, rc', behind, hwritten, hbefore, hsat, htag⟩ | ⟨hnone, htag⟩
      · refine Or.inl ⟨rc :: before, rc', behind, congrArg (rc :: ·) hwritten, ?_, hsat, htag⟩
        exact List.forall_mem_cons.mpr ⟨hrc, hbefore⟩
      · exact Or.inr ⟨List.forall_mem_cons.mpr ⟨hrc, hnone⟩, htag⟩

end Tables

/-- **Compiled routing is the configuration read directly**, and what does not compile is a
configuration with an unusable rule. -/
theorem buildWithGeo_exact (config : RoutingConfig) (geoipDb : Option GeoIpDb)
    (geositeDb : Option GeoSiteDb) :
    (∀ router, config.buildWithGeo geoipDb geositeDb = .ok router →
      ∀ ep, FirstSatisfied geoipDb geositeDb config ep (router.route ep)) ∧
    ((∃ e, config.buildWithGeo geoipDb geositeDb = .error e) ↔
      ∃ rc ∈ config.rules, Unusable geoipDb geositeDb rc) := by
  constructor
  · intro router h ep
    rw [RoutingConfig.buildWithGeo] at h
    cases hrules : config.rules.mapM (buildRule geoipDb geositeDb) with
    | error e =>
      rw [hrules] at h
      cases h
    | ok rules =>
      rw [hrules] at h
      cases h
      exact routeLoop_firstSatisfied (mapM_eq_ok_iff.mp hrules) config.defaultOutbound ep
  · have hbuild : (∃ e, config.buildWithGeo geoipDb geositeDb = .error e) ↔
        ∃ e, config.rules.mapM (buildRule geoipDb geositeDb) = .error e := by
      cases hrules : config.rules.mapM (buildRule geoipDb geositeDb) <;>
        simp [RoutingConfig.buildWithGeo, hrules, bind, Except.bind, pure, Except.pure]
    rw [hbuild, mapM_eq_error_iff]
    simp only [buildRule_eq_error_iff]

/-- One rule with a network and a port range. -/
def sampleConfig : RoutingConfig :=
  ⟨"freedom", [⟨[.suffix "example.com"], ["10.0.0.0/8"], [" 80 - +100"], [], [], "proxy"⟩]⟩

/-- An address of the network goes where the rule says. -/
theorem buildWithGeo_exact_sample :
    ∃ router, sampleConfig.buildWithGeo none none = .ok router ∧
      FirstSatisfied none none sampleConfig ⟨.ip (.v4 (Octets.fromSlice 4 [10, 1, 2, 3])), 443⟩
        "proxy" := by
  obtain ⟨router, hrouter⟩ : ∃ router, sampleConfig.buildWithGeo none none = .ok router :=
    ⟨_, rfl⟩
  have htag : router.route ⟨.ip (.v4 (Octets.fromSlice 4 [10, 1, 2, 3])), 443⟩ = "proxy" := by
    cases hrouter
    decide
  exact ⟨router, hrouter, htag ▸ (buildWithGeo_exact sampleConfig none none).1 router hrouter _⟩

end Routing
end HoldTheDonut
