import HoldTheDonut.Routing.Router
import HoldTheDonut.Text.Format
import Mathlib.Data.List.Infix

/-!
# Domain rules: labels, letters and dots

A domain condition tests text, and what its author means is a name.  A name is a list of
labels between dots, read without regard to letter case.

A suffix condition gets the labels right.  It compares the text with its pattern, or with a dot
and its pattern at the end, and that is the same as comparing the last labels
(`suffix_matches_iff`), so that `example.com` does not match `notexample.com`.  The matcher of
the geo databases is written separately and agrees with it on the patterns such a database holds.

Letter case is right as well: every condition lower-cases the host, so two spellings in
different case are routed alike (`route_of_lowercase_eq`).  A trailing dot is not.  A resolver
takes `example.com` and `example.com.` for the same host, but no condition does.  Which patterns
cover which of the two spellings is said pattern by pattern (`Pattern.CoversDotted`), and
`route_same_name` says from the patterns of the rules when the two get the same tag.
-/

namespace HoldTheDonut
namespace Routing

open Geo

/-! ## Labels -/

/-- The labels of a text, lower-cased. -/
def labels (s : String) : List (List UInt8) := ((utf8 s).splitOn 46).map (List.map asciiLower)

/-- Lower case moves no dot. -/
theorem asciiLower_eq_dot_iff (b : UInt8) : asciiLower b = 46 ↔ b = 46 := by
  revert b
  refine forall_uint8 ?_
  decide +kernel

theorem splitOn_lowercase (s : String) : (lowercase s).splitOn 46 = labels s :=
  Text.splitOn_map asciiLower_eq_dot_iff (utf8 s)

theorem matchesSuffix_iff {h d : List UInt8} :
    matchesSuffix h d = true ↔ h = d ∨ 46 :: d <:+ h := by
  simp [matchesSuffix]

/-- Without a dot in front there is nothing to trim. -/
theorem trimmed_eq_lowercase {d : String} (hdot : (utf8 d).head? ≠ some 46) :
    ((utf8 d).dropWhile (· = 46)).map asciiLower = lowercase d := by
  have htrim : (utf8 d).dropWhile (· = 46) = utf8 d := by
    cases hd : utf8 d with
    | nil => rfl
    | cons b bs =>
      have hb : b ≠ 46 := fun hb => hdot (by rw [hd, hb]; rfl)
      rw [List.dropWhile_cons, if_neg (by simpa using hb)]
  rw [htrim, lowercase]

/-- **A suffix condition compares the last labels.** -/
theorem suffix_matches_iff {d : String} (hdot : (utf8 d).head? ≠ some 46) (h : String) :
    (DomainMatch.suffix d).matches h = true ↔ labels d <:+ labels h := by
  rw [DomainMatch.matches, trimmed_eq_lowercase hdot, matchesSuffix_iff,
    ← Text.splitOn_suffix_iff, splitOn_lowercase, splitOn_lowercase]

/-- **Suffix conditions match by whole labels, and the two matchers agree** on lower-case
patterns without a leading dot; on exact and substring patterns they agree with one as well. -/
theorem domain_matchers_agree (d : String) :
    ((utf8 d).head? ≠ some 46 →
      ∀ h : String, (DomainMatch.suffix d).matches h = true ↔ labels d <:+ labels h) ∧
    (lowercase d = utf8 d → ∀ h : String,
      ((utf8 d).head? ≠ some 46 →
        (DomainRule.suffix (utf8 d)).matches h = (DomainMatch.suffix d).matches h) ∧
      (DomainRule.full (utf8 d)).matches h = (DomainMatch.full d).matches h ∧
      (DomainRule.keyword (utf8 d)).matches h = (DomainMatch.keyword d).matches h) := by
  refine ⟨fun hdot => suffix_matches_iff hdot, fun hlower h => ⟨fun hdot => ?_, ?_, ?_⟩⟩
  · rw [DomainMatch.matches, trimmed_eq_lowercase hdot, hlower]
    rfl
  · rw [DomainMatch.matches, hlower]
    rfl
  · rw [DomainMatch.matches, hlower]
    rfl

/-- A subdomain is matched by both, a longer word by neither. -/
theorem domain_matchers_agree_example :
    (labels "example.com" <:+ labels "A.Example.com") ∧
      (DomainRule.suffix (utf8 "example.com")).matches "A.Example.com" = true ∧
      (DomainRule.suffix (utf8 "example.com")).matches "notexample.com" = false := by
  have hdot : (utf8 "example.com").head? ≠ some 46 := by decide
  have hlower : lowercase "example.com" = utf8 "example.com" := by decide
  obtain ⟨hlabels, hagree⟩ := domain_matchers_agree "example.com"
  rw [(hagree hlower _).1 hdot, (hagree hlower _).1 hdot]
  exact ⟨(hlabels hdot _).mp (by decide), by decide, by decide⟩

/-! ## What patterns cover, with and without a dot -/

/-- What is left of a name condition when letter case is out of the way. -/
inductive Pattern where
  | full (d : List UInt8)
  | suffix (d : List UInt8)
  | keyword (k : List UInt8)

namespace Pattern

/-- The pattern covers a name. -/
def Covers (n : List UInt8) : Pattern → Prop
  | .full d => n = d
  | .suffix d => n = d ∨ 46 :: d <:+ n
  | .keyword k => k <:+: n

/-- **The pattern covers a name with a dot behind it**, said of the name.  An exact pattern has to
end in that dot.  So has a suffix, unless it is empty.  A keyword covers what it covers of the name
itself, or it ends in the dot. -/
def CoversDotted (n : List UInt8) : Pattern → Prop
  | .full d => d = n ++ [46]
  | .suffix d => d = [] ∨ ∃ e, d = e ++ [46] ∧ (n = e ∨ 46 :: e <:+ n)
  | .keyword k => k <:+: n ∨ ∃ e, k = e ++ [46] ∧ e <:+ n

theorem coversDotted_iff (n : List UInt8) (pat : Pattern) :
    pat.CoversDotted n ↔ pat.Covers (n ++ [46]) := by
  cases pat with
  | full d => exact eq_comm
  | suffix d =>
    simp only [Covers, CoversDotted, List.suffix_concat_iff]
    constructor
    · rintro (rfl | ⟨e, rfl, rfl | hsuffix⟩)
      · exact Or.inr (Or.inr ⟨[], rfl, List.nil_suffix⟩)
      · exact Or.inl rfl
      · exact Or.inr (Or.inr ⟨46 :: e, rfl, hsuffix⟩)
    · rintro (rfl | hnil | ⟨e, he, hsuffix⟩)
      · exact Or.inr ⟨n, rfl, Or.inl rfl⟩
      · cases hnil
      · -- the dot in front of the pattern is the one behind the name, or one inside it
        cases e with
        | nil => exact Or.inl (List.cons.inj he).2
        | cons b e =>
          obtain ⟨rfl, rfl⟩ := List.cons.inj he
          exact Or.inr ⟨e, rfl, Or.inr hsuffix⟩
  | keyword k =>
    simp only [Covers, CoversDotted, List.infix_concat_iff, List.suffix_concat_iff]
    constructor
    · rintro (hinner | hdot)
      · exact Or.inr hinner
      · exact Or.inl (Or.inr hdot)
    · rintro ((rfl | hdot) | hinner)
      · exact Or.inl (List.nil_infix)
      · exact Or.inr hdot
      · exact Or.inl hinner

end Pattern

def DomainMatch.pattern : DomainMatch → Pattern
  | .full d => .full (lowercase d)
  | .suffix d => .suffix (((utf8 d).dropWhile (· = 46)).map asciiLower)
  | .keyword k => .keyword (lowercase k)

/-- A regular expression is never evaluated. -/
def rulePattern : DomainRule → Option Pattern
  | .full v => some (.full v)
  | .suffix v => some (.suffix v)
  | .keyword v => some (.keyword v)
  | .regex _ => none

/-- The patterns of a rule, those of its geosite lists included. -/
def Rule.patterns (r : Rule) : List Pattern :=
  r.conditions.flatMap fun
    | .domain m => [m.pattern]
    | .geoSite db code => ((db.rules code).getD []).filterMap rulePattern
    | _ => []

theorem hasInfix_iff {text pattern : List UInt8} :
    hasInfix text pattern = true ↔ pattern <:+: text := by
  rw [hasInfix, List.any_eq_true]
  simp only [List.mem_tails, List.isPrefixOf_iff_prefix]
  constructor
  · rintro ⟨l, hsuffix, hprefix⟩
    exact hprefix.isInfix.trans hsuffix.isInfix
  · exact fun h => (List.infix_iff_prefix_suffix.mp h).imp fun l hl => ⟨hl.2, hl.1⟩

theorem DomainMatch.matches_iff (m : DomainMatch) (t : String) :
    m.matches t = true ↔ m.pattern.Covers (lowercase t) := by
  cases m with
  | full d => exact decide_eq_true_iff
  | suffix d => exact matchesSuffix_iff
  | keyword k => exact hasInfix_iff

theorem domainRule_matches_iff (r : DomainRule) (t : String) :
    r.matches t = true ↔ ∃ pat, rulePattern r = some pat ∧ pat.Covers (lowercase t) := by
  cases r with
  | full v => simp [DomainRule.matches, rulePattern, Pattern.Covers]
  | suffix v => simp [DomainRule.matches, rulePattern, Pattern.Covers, matchesSuffix_iff]
  | keyword v => simp [DomainRule.matches, rulePattern, Pattern.Covers, hasInfix_iff]
  | regex v => simp [DomainRule.matches, rulePattern]

/-- **A rule covers a name by its patterns**, whatever the letter case. -/
theorem Rule.coversName_iff (r : Rule) (t : String) :
    r.CoversName t ↔ ∃ pat ∈ r.patterns, pat.Covers (lowercase t) := by
  have hlist : ∀ db code, db.matches code t = true ↔
      ∃ pat ∈ ((GeoSiteDb.rules db code).getD []).filterMap rulePattern,
        pat.Covers (lowercase t) := by
    intro db code
    rw [GeoSiteDb.matches]
    cases db.rules code with
    | none => simp
    | some rules =>
      simp only [Option.any_some, List.any_eq_true, domainRule_matches_iff, Option.getD_some,
        List.mem_filterMap]
      grind
  simp only [Rule.CoversName, Rule.patterns, List.mem_flatMap, DomainMatch.matches_iff, hlist]
  constructor
  · rintro (⟨m, hc, hm⟩ | ⟨db, code, hc, pat, hpat, hcovers⟩)
    · exact ⟨m.pattern, ⟨_, hc, List.mem_singleton_self _⟩, hm⟩
    · exact ⟨pat, ⟨_, hc, hpat⟩, hcovers⟩
  · rintro ⟨pat, ⟨c, hc, hpat⟩, hcovers⟩
    cases c with
    | domain m =>
      obtain rfl := List.mem_singleton.mp hpat
      exact Or.inl ⟨m, hc, hcovers⟩
    | geoSite db code => exact Or.inr ⟨db, code, hc, pat, hpat, hcovers⟩
    | cidr c => cases hpat
    | ports lo hi => cases hpat
    | geoIp db code => cases hpat

/-! ## Spellings of one name -/

/-- A spelling of a name: in any letter case, with or without a dot at its end.  Two texts are
equal up to letter case and one trailing dot on either when they are spellings of one name. -/
def Spells (name t : String) : Prop :=
  ∃ x : String, lowercase x = lowercase name ∧ (t = x ∨ t = x ++ ".")

theorem lowercase_dot (s : String) : lowercase (s ++ ".") = lowercase s ++ [46] := by
  have hdot : (utf8 ".").map asciiLower = [46] := by decide
  rw [lowercase, utf8_append, List.map_append, hdot, lowercase]

theorem Rule.matches_name_iff (r : Rule) (t : String) (p : UInt16) :
    r.matches ⟨.domain t, p⟩ = true ↔
      r.CoversPort p ∨ ∃ pat ∈ r.patterns, pat.Covers (lowercase t) := by
  rw [r.matches_domain_iff, r.coversName_iff]

theorem Rule.matches_dotted_iff (r : Rule) (t : String) (p : UInt16) :
    r.matches ⟨.domain (t ++ "."), p⟩ = true ↔
      r.CoversPort p ∨ ∃ pat ∈ r.patterns, pat.CoversDotted (lowercase t) := by
  simp only [r.matches_name_iff, lowercase_dot, Pattern.coversDotted_iff]

/-- **Letter case does not matter.** -/
theorem route_of_lowercase_eq (router : Router) (p : UInt16) {t t' : String}
    (h : lowercase t = lowercase t') :
    router.route ⟨.domain t, p⟩ = router.route ⟨.domain t', p⟩ := by
  refine routeLoop_eq_of_alike (fun r => Iff.rfl) _ fun r rest _ => ?_
  rw [r.matches_name_iff, r.matches_name_iff, h]

/-- A spelling is routed like the name or like the name with a dot. -/
theorem Spells.route_eq {name t : String} (h : Spells name t) (router : Router) (p : UInt16) :
    router.route ⟨.domain t, p⟩ = router.route ⟨.domain name, p⟩ ∨
      router.route ⟨.domain t, p⟩ = router.route ⟨.domain (name ++ "."), p⟩ := by
  obtain ⟨x, hx, rfl | rfl⟩ := h
  · exact Or.inl (route_of_lowercase_eq router p hx)
  · refine Or.inr (route_of_lowercase_eq router p ?_)
    rw [lowercase_dot, lowercase_dot, hx]

/-- The rule covers the port, or the name with or without a dot. -/
def Rule.CoversSpelling (n : List UInt8) (p : UInt16) (r : Rule) : Prop :=
  r.CoversPort p ∨ ∃ pat ∈ r.patterns, pat.Covers n ∨ pat.CoversDotted n

/-- The rule tells a name from the same name with a dot: a pattern of it covers one of them, and
none covers the other. -/
def Rule.TellsDot (r : Rule) (n : List UInt8) (p : UInt16) : Prop :=
  ¬ r.CoversPort p ∧
    ¬ ((∃ pat ∈ r.patterns, pat.Covers n) ↔ ∃ pat ∈ r.patterns, pat.CoversDotted n)

theorem Rule.coversSpelling_iff (name : String) (p : UInt16) (r : Rule) :
    r.CoversSpelling (lowercase name) p ↔
      r.matches ⟨.domain name, p⟩ = true ∨ r.matches ⟨.domain (name ++ "."), p⟩ = true := by
  rw [CoversSpelling, r.matches_name_iff, r.matches_dotted_iff, ← or_or_distrib_left]
  simp only [and_or_left, exists_or]

theorem Rule.tellsDot_iff (r : Rule) (name : String) (p : UInt16) :
    r.TellsDot (lowercase name) p ↔
      ¬ (r.matches ⟨.domain name, p⟩ = true ↔ r.matches ⟨.domain (name ++ "."), p⟩ = true) := by
  rw [TellsDot, r.matches_name_iff, r.matches_dotted_iff, not_and_not_iff]

/-- **All spellings of a name are routed alike if no rule they get to tells the dot.**  The first
one that does sends the name and the name with a dot apart, unless the tag it gives is given again
further down. -/
theorem route_same_name (router : Router) (p : UInt16) (name : String) :
    ((∀ r rest, Reached (Rule.CoversSpelling (lowercase name) p) router.rules r rest →
        ¬ r.TellsDot (lowercase name) p) →
      ∀ t t' : String, Spells name t → Spells name t' →
        router.route ⟨.domain t, p⟩ = router.route ⟨.domain t', p⟩) ∧
    ∀ r rest, Reached (Rule.CoversSpelling (lowercase name) p) router.rules r rest →
      r.TellsDot (lowercase name) p →
      r.outbound ∉ router.defaultOutbound :: rest.map Rule.outbound →
      Spells name name ∧ Spells name (name ++ ".") ∧
        router.route ⟨.domain name, p⟩ ≠ router.route ⟨.domain (name ++ "."), p⟩ := by
  have hcovers := Rule.coversSpelling_iff name p
  refine ⟨fun hblind t t' ht ht' => ?_, fun r rest hreached htells htag => ?_⟩
  · have hdot : router.route ⟨.domain name, p⟩ = router.route ⟨.domain (name ++ "."), p⟩ := by
      refine routeLoop_eq_of_alike hcovers _ fun r rest hreached => ?_
      have hnot := hblind r rest hreached
      rwa [Rule.tellsDot_iff, not_not] at hnot
    have hbare : ∀ {s : String}, Spells name s →
        router.route ⟨.domain s, p⟩ = router.route ⟨.domain name, p⟩ := fun hs =>
      (hs.route_eq router p).elim id fun hs => hs.trans hdot.symm
    rw [hbare ht, hbare ht']
  · exact ⟨⟨name, rfl, Or.inl rfl⟩, ⟨name, rfl, Or.inr rfl⟩,
      routeLoop_ne_of_parted hcovers _ hreached ((r.tellsDot_iff name p).mp htells) htag⟩

/-- A keyword does not see the dot, an exact name does. -/
theorem route_same_name_ads :
    (∀ t t' : String, Spells "ads.example.com" t → Spells "ads.example.com" t' →
      (blocking [.domain (.keyword "ads")]).route ⟨.domain t, 443⟩ =
        (blocking [.domain (.keyword "ads")]).route ⟨.domain t', 443⟩) ∧
    (blocking [.domain (.full "ads.example.com")]).route ⟨.domain "ads.example.com", 443⟩ ≠
      (blocking [.domain (.full "ads.example.com")]).route
        ⟨.domain ("ads.example.com" ++ "."), 443⟩ := by
  constructor
  · refine (route_same_name _ 443 "ads.example.com").1 fun r rest hreached htells => ?_
    obtain ⟨rfl, rfl⟩ := reached_singleton hreached
    have hads : lowercase "ads" <:+: lowercase "ads.example.com" := by decide
    exact htells.2 (iff_of_true ⟨_, List.mem_singleton_self _, hads⟩
      ⟨_, List.mem_singleton_self _, Or.inl hads⟩)
  · refine ((route_same_name _ 443 "ads.example.com").2 _ [] ⟨[], rfl, by simp⟩ ⟨?_, ?_⟩
      (by simp [blocking])).2.2
    · rintro ⟨lo, hi, hc, -⟩
      simp at hc
    · intro hiff
      obtain ⟨pat, hpat, hdotted⟩ := hiff.mp ⟨_, List.mem_singleton_self _, rfl⟩
      obtain rfl := List.mem_singleton.mp hpat
      have hlonger : lowercase "ads.example.com" ≠ lowercase "ads.example.com" ++ [46] := by decide
      exact hlonger hdotted

/-- Under a rule that blocks a host, the host written with a dot gets through. -/
theorem route_past_block_with_dot :
    ∃ t t' : String, Spells "ads.example.com" t ∧ Spells "ads.example.com" t' ∧
      (blocking [.domain (.full "ads.example.com")]).route ⟨.domain t, 443⟩ = "block" ∧
      (blocking [.domain (.full "ads.example.com")]).route ⟨.domain t', 443⟩ = "freedom" :=
  ⟨"ads.example.com", "ads.example.com.", ⟨_, rfl, Or.inl rfl⟩, ⟨_, rfl, Or.inr (by decide)⟩,
    by decide, by decide⟩

end Routing
end HoldTheDonut
