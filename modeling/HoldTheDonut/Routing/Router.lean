import HoldTheDonut.Core.IpLiteral
import HoldTheDonut.Routing.Geo

/-!
# `donut-routing`: the rule table

An ordered list of rules, each with some conditions and an outbound tag.  A rule
matches when any of its conditions does, the first rule that matches decides, and a
default decides when none does.

A target is judged by the address it *states*.  Domain conditions read a domain and
never an IP address, network conditions the other way round.  The resolver, on the
other hand, dials an IP literal without asking anybody, so one and the same socket
address can be reached under two targets that the table judges by different
conditions.  `route_literal` says which tables judge them alike, by the conditions of
the rules the two get to.
-/

namespace HoldTheDonut
namespace Routing

open Geo

/-- How a domain condition reads a host. -/
inductive DomainMatch where
  | full (d : String)
  | suffix (d : String)
  | keyword (k : String)
  deriving DecidableEq

def DomainMatch.matches (m : DomainMatch) (host : String) : Bool :=
  match m with
  | .full d => decide (lowercase host = lowercase d)
  | .suffix d => matchesSuffix (lowercase host) (((utf8 d).dropWhile (· = 46)).map asciiLower)
  | .keyword k => hasInfix (lowercase host) (lowercase k)

/-- `Cidr`. -/
abbrev Cidr : Type := Network

/-- One condition of a rule. -/
inductive Condition where
  | domain (m : DomainMatch)
  | cidr (c : Cidr)
  | ports (lo hi : UInt16)
  | geoIp (db : GeoIpDb) (code : String)
  | geoSite (db : GeoSiteDb) (code : String)

def Condition.matches (c : Condition) (target : Endpoint) : Bool :=
  match c with
  | .domain m =>
    match target.address with
    | .domain d => m.matches d
    | .ip _ => false
  | .cidr c =>
    match target.address with
    | .ip ip => c.contains ip
    | .domain _ => false
  | .ports lo hi => decide (lo ≤ target.port) && decide (target.port ≤ hi)
  | .geoIp db code =>
    match target.address with
    | .ip ip => db.contains code ip
    | .domain _ => false
  | .geoSite db code =>
    match target.address with
    | .domain d => db.matches code d
    | .ip _ => false

structure Rule where
  conditions : List Condition
  outbound : String

def Rule.matches (r : Rule) (target : Endpoint) : Bool := r.conditions.any fun c => c.matches target

structure Router where
  rules : List Rule
  defaultOutbound : String

/-- The loop of `route` over the rules still to be tried. -/
def routeLoop (target : Endpoint) (defaultOutbound : String) : List Rule → String
  | [] => defaultOutbound
  | r :: rs => if r.matches target then r.outbound else routeLoop target defaultOutbound rs

/-- Tag of the first matching rule, or the default. -/
def Router.route (router : Router) (target : Endpoint) : String :=
  routeLoop target router.defaultOutbound router.rules

/-! ## What is dialled -/

/-- `Resolver::resolve_one`, over what the configured name server answers. -/
def resolveOne (lookup : String → Option (List IpAddr)) (host : String) (port : UInt16) :
    Option (IpAddr × UInt16) :=
  match parseIpAddr host with
  | some ip => some (ip, port)
  | none => ((lookup host).bind List.head?).map fun ip => (ip, port)

/-- `resolve` of the proxy: IP addresses pass through. -/
def resolve (lookup : String → Option (List IpAddr)) (ep : Endpoint) : Option (IpAddr × UInt16) :=
  match ep.address with
  | .ip ip => some (ip, ep.port)
  | .domain d => resolveOne lookup d ep.port

/-- A literal and the address it denotes are dialled alike, whatever the name server says. -/
theorem resolve_literal (lookup : String → Option (List IpAddr)) {t : String} {a : IpAddr}
    (h : parseIpAddr t = some a) (p : UInt16) :
    resolve lookup ⟨.domain t, p⟩ = resolve lookup ⟨.ip a, p⟩ := by
  simp only [resolve, resolveOne, h]

/-! ## What a rule covers

Ports are read from either target, names from a text only and networks from an address only. -/

/-- A condition is on the port, on a name or on a network. -/
theorem Condition.exists_iff {P : Condition → Prop} :
    (∃ c, P c) ↔ (∃ lo hi, P (.ports lo hi)) ∨
      ((∃ m, P (.domain m)) ∨ ∃ db code, P (.geoSite db code)) ∨
        (∃ c, P (.cidr c)) ∨ ∃ db code, P (.geoIp db code) := by
  constructor
  · rintro ⟨c, hc⟩
    cases c with
    | domain m => exact .inr (.inl (.inl ⟨m, hc⟩))
    | cidr c => exact .inr (.inr (.inl ⟨c, hc⟩))
    | ports lo hi => exact .inl ⟨lo, hi, hc⟩
    | geoIp db code => exact .inr (.inr (.inr ⟨db, code, hc⟩))
    | geoSite db code => exact .inr (.inl (.inr ⟨db, code, hc⟩))
  · rintro (⟨_, _, h⟩ | (⟨_, h⟩ | ⟨_, _, h⟩) | ⟨_, h⟩ | ⟨_, _, h⟩) <;> exact ⟨_, h⟩

namespace Rule

/-- A port condition of the rule has the port in its range. -/
def CoversPort (r : Rule) (p : UInt16) : Prop :=
  ∃ lo hi, .ports lo hi ∈ r.conditions ∧ lo ≤ p ∧ p ≤ hi

/-- A name condition of the rule, one of its own or of a geosite list, matches the text. -/
def CoversName (r : Rule) (t : String) : Prop :=
  (∃ m, .domain m ∈ r.conditions ∧ m.matches t = true) ∨
    ∃ db code, .geoSite db code ∈ r.conditions ∧ db.matches code t = true

/-- A network of the rule, one of its own or of a geoip list, contains the address. -/
def CoversAddress (r : Rule) (a : IpAddr) : Prop :=
  (∃ c, .cidr c ∈ r.conditions ∧ c.contains a = true) ∨
    ∃ db code, .geoIp db code ∈ r.conditions ∧ db.contains code a = true

theorem matches_iff (r : Rule) (target : Endpoint) :
    r.matches target = true ↔ ∃ c ∈ r.conditions, c.matches target = true := List.any_eq_true

/-- A domain is judged by ports and names. -/
theorem matches_domain_iff (r : Rule) (t : String) (p : UInt16) :
    r.matches ⟨.domain t, p⟩ = true ↔ r.CoversPort p ∨ r.CoversName t := by
  rw [matches_iff, Condition.exists_iff]
  simp [Condition.matches, CoversPort, CoversName]

/-- An address is judged by ports and networks. -/
theorem matches_ip_iff (r : Rule) (a : IpAddr) (p : UInt16) :
    r.matches ⟨.ip a, p⟩ = true ↔ r.CoversPort p ∨ r.CoversAddress a := by
  rw [matches_iff, Condition.exists_iff]
  simp [Condition.matches, CoversPort, CoversAddress]

end Rule

/-! ## Two targets in one table -/

/-- The rules that a target gets to, each with the rules behind it: none in front covers the
target. -/
def Reached (covers : Rule → Prop) (rules : List Rule) (r : Rule) (rest : List Rule) : Prop :=
  ∃ front, rules = front ++ r :: rest ∧ ∀ q ∈ front, ¬ covers q

theorem Reached.tail {covers : Rule → Prop} {q : Rule} {rules : List Rule} {r : Rule}
    {rest : List Rule} (hq : ¬ covers q) (h : Reached covers rules r rest) :
    Reached covers (q :: rules) r rest := by
  obtain ⟨front, rfl, hfront⟩ := h
  exact ⟨q :: front, rfl, List.forall_mem_cons.mpr ⟨hq, hfront⟩⟩

theorem routeLoop_mem (target : Endpoint) (defaultOutbound : String) (rules : List Rule) :
    routeLoop target defaultOutbound rules ∈ defaultOutbound :: rules.map Rule.outbound := by
  induction rules with
  | nil => exact List.mem_cons_self
  | cons r rs ih =>
    rw [routeLoop, List.map_cons]
    split
    · exact List.mem_cons_of_mem _ List.mem_cons_self
    · rcases List.mem_cons.mp ih with h | h
      · rw [h]
        exact List.mem_cons_self
      · exact List.mem_cons_of_mem _ (List.mem_cons_of_mem _ h)

section Pair

variable {target target' : Endpoint} {covers : Rule → Prop}
  (hcovers : ∀ r : Rule, covers r ↔ r.matches target = true ∨ r.matches target' = true)
  (defaultOutbound : String)

include hcovers

/-- **Two targets that every rule they get to treats alike get the same tag.** -/
theorem routeLoop_eq_of_alike {rules : List Rule}
    (h : ∀ r rest, Reached covers rules r rest →
      (r.matches target = true ↔ r.matches target' = true)) :
    routeLoop target defaultOutbound rules = routeLoop target' defaultOutbound rules := by
  induction rules with
  | nil => rfl
  | cons r rs ih =>
    have hr := h r rs ⟨[], rfl, fun q hq => absurd hq List.not_mem_nil⟩
    rw [routeLoop, routeLoop]
    by_cases hm : r.matches target = true
    · rw [if_pos hm, if_pos (hr.mp hm)]
    · have hm' : ¬ r.matches target' = true := fun h' => hm (hr.mpr h')
      have hnot : ¬ covers r := fun hc => ((hcovers r).mp hc).elim hm hm'
      rw [if_neg hm, if_neg hm']
      exact ih fun q rest hq => h q rest (hq.tail hnot)

/-- **A rule that covers one of them only parts them**, unless its tag is given again behind it. -/
theorem routeLoop_ne_of_parted {rules : List Rule} {r : Rule} {rest : List Rule}
    (hreached : Reached covers rules r rest)
    (h : ¬ (r.matches target = true ↔ r.matches target' = true))
    (htag : r.outbound ∉ defaultOutbound :: rest.map Rule.outbound) :
    routeLoop target defaultOutbound rules ≠ routeLoop target' defaultOutbound rules := by
  obtain ⟨front, rfl, hfront⟩ := hreached
  induction front with
  | nil =>
    rw [List.nil_append, routeLoop, routeLoop]
    by_cases hm : r.matches target = true
    · have hm' : ¬ r.matches target' = true := fun hm' => h ⟨fun _ => hm', fun _ => hm⟩
      rw [if_pos hm, if_neg hm']
      exact fun heq => htag (heq ▸ routeLoop_mem target' defaultOutbound rest)
    · have hm' : r.matches target' = true := by
        by_contra hm'
        exact h ⟨fun hm'' => absurd hm'' hm, fun hm'' => absurd hm'' hm'⟩
      rw [if_neg hm, if_pos hm']
      exact fun heq => htag (heq ▸ routeLoop_mem target defaultOutbound rest)
  | cons q front ih =>
    obtain ⟨hq, hfront⟩ := List.forall_mem_cons.mp hfront
    rw [hcovers, not_or] at hq
    rw [List.cons_append, routeLoop, routeLoop, if_neg hq.1, if_neg hq.2]
    exact ih hfront

end Pair

theorem not_and_not_iff {c a b : Prop} : (¬ c ∧ ¬ (a ↔ b)) ↔ ¬ (c ∨ a ↔ c ∨ b) := by tauto

/-! ## Literals and addresses -/

/-- The rule covers the text or the address of a target, but not both, and not its port. -/
def Rule.TellsLiteral (r : Rule) (t : String) (a : IpAddr) (p : UInt16) : Prop :=
  ¬ r.CoversPort p ∧ ¬ (r.CoversName t ↔ r.CoversAddress a)

/-- The rule covers the text, the address or the port of a target. -/
def Rule.CoversLiteral (t : String) (a : IpAddr) (p : UInt16) (r : Rule) : Prop :=
  r.CoversPort p ∨ r.CoversName t ∨ r.CoversAddress a

theorem Rule.coversLiteral_iff (t : String) (a : IpAddr) (p : UInt16) (r : Rule) :
    r.CoversLiteral t a p ↔
      r.matches ⟨.domain t, p⟩ = true ∨ r.matches ⟨.ip a, p⟩ = true := by
  rw [CoversLiteral, r.matches_domain_iff, r.matches_ip_iff, or_or_distrib_left]

theorem Rule.tellsLiteral_iff (r : Rule) (t : String) (a : IpAddr) (p : UInt16) :
    r.TellsLiteral t a p ↔
      ¬ (r.matches ⟨.domain t, p⟩ = true ↔ r.matches ⟨.ip a, p⟩ = true) := by
  rw [TellsLiteral, r.matches_domain_iff, r.matches_ip_iff, not_and_not_iff]

/-- **A literal and its address are dialled alike, but not always routed alike.**  They are if
every rule they get to covers both or neither.  The first rule that covers only one of them sends
them apart, unless the tag it gives is given again further down. -/
theorem route_literal (router : Router) (t : String) (a : IpAddr) (h : parseIpAddr t = some a)
    (p : UInt16) :
    (∀ lookup, resolve lookup ⟨.domain t, p⟩ = some (a, p) ∧
      resolve lookup ⟨.ip a, p⟩ = some (a, p)) ∧
    ((∀ r rest, Reached (Rule.CoversLiteral t a p) router.rules r rest → ¬ r.TellsLiteral t a p) →
      router.route ⟨.domain t, p⟩ = router.route ⟨.ip a, p⟩) ∧
    ∀ r rest, Reached (Rule.CoversLiteral t a p) router.rules r rest → r.TellsLiteral t a p →
      r.outbound ∉ router.defaultOutbound :: rest.map Rule.outbound →
      router.route ⟨.domain t, p⟩ ≠ router.route ⟨.ip a, p⟩ := by
  have hcovers := Rule.coversLiteral_iff t a p
  refine ⟨fun lookup => ⟨resolve_literal lookup h p, rfl⟩, fun halike => ?_,
    fun r rest hreached htells htag => ?_⟩
  · refine routeLoop_eq_of_alike hcovers _ fun r rest hreached => ?_
    have hnot := halike r rest hreached
    rwa [Rule.tellsLiteral_iff, not_not] at hnot
  · exact routeLoop_ne_of_parted hcovers _ hreached ((r.tellsLiteral_iff t a p).mp htells) htag

/-- The table that blocks what these conditions match. -/
def blocking (conditions : List Condition) : Router := ⟨[⟨conditions, "block"⟩], "freedom"⟩

/-- The network 10.0.0.0/8. -/
def tenNetwork : Condition := .cidr ⟨.v4 (Octets.fromSlice 4 [10, 0, 0, 0]), 8⟩

/-- An address in it. -/
def tenAddress : IpAddr := .v4 (Octets.fromSlice 4 [10, 0, 0, 1])

theorem reached_singleton {covers : Rule → Prop} {q r : Rule} {rest : List Rule}
    (h : Reached covers [q] r rest) : r = q ∧ rest = [] := by
  obtain ⟨front, heq, -⟩ := h
  cases front with
  | nil =>
    obtain ⟨rfl, rfl⟩ := List.cons.inj heq
    exact ⟨rfl, rfl⟩
  | cons x front => simp at heq

/-- A rule with the network and the text in it treats both alike, one with the network only does
not. -/
theorem route_literal_ten :
    (blocking [.domain (.full "10.0.0.1"), tenNetwork]).route ⟨.domain "10.0.0.1", 80⟩ =
        (blocking [.domain (.full "10.0.0.1"), tenNetwork]).route ⟨.ip tenAddress, 80⟩ ∧
      (blocking [tenNetwork]).route ⟨.domain "10.0.0.1", 80⟩ ≠
        (blocking [tenNetwork]).route ⟨.ip tenAddress, 80⟩ := by
  have hparse : parseIpAddr "10.0.0.1" = some tenAddress := by decide
  constructor
  · refine (route_literal _ "10.0.0.1" _ hparse 80).2.1 fun r rest hreached htells => ?_
    obtain ⟨rfl, rfl⟩ := reached_singleton hreached
    exact htells.2 (iff_of_true (Or.inl ⟨.full "10.0.0.1", by simp, by decide⟩)
      (Or.inl ⟨_, List.mem_cons_of_mem _ List.mem_cons_self, by decide⟩))
  · refine (route_literal _ "10.0.0.1" _ hparse 80).2.2 _ [] ⟨[], rfl, by simp⟩ ⟨?_, ?_⟩
      (by simp [blocking])
    · rintro ⟨lo, hi, hc, -⟩
      simp [tenNetwork] at hc
    · have haddress : Rule.CoversAddress ⟨[tenNetwork], "block"⟩ tenAddress :=
        Or.inl ⟨_, List.mem_cons_self, by decide⟩
      intro hiff
      obtain ⟨m, hc, -⟩ | ⟨db, code, hc, -⟩ := hiff.mpr haddress <;> simp [tenNetwork] at hc

/-- Under a rule that blocks a network, its addresses written as text get through. -/
theorem route_literal_past_cidr :
    parseIpAddr "10.0.0.1" = some tenAddress ∧
      (blocking [tenNetwork]).route ⟨.domain "10.0.0.1", 80⟩ = "freedom" ∧
      (blocking [tenNetwork]).route ⟨.ip tenAddress, 80⟩ = "block" := by
  refine ⟨by decide, by decide, by decide⟩

end Routing
end HoldTheDonut
