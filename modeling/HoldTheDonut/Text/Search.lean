import HoldTheDonut.Text.Format

/-!
# Searching: the first occurrence of a pattern, lines and words

`cut` finds the first occurrence of a pattern and returns what stands before and behind it.  A
receiver that looks for a pattern in what it has got so far finds the same place again once more
has arrived (`cut_append`), and finds it as soon as it is there (`cut_of_prefix`): the place is a
property of the stream and not of how it was cut.

Lines and words are those of line-based headers.  A line ends with a line feed, and a carriage
return before it is not part of the line; the last line need not be ended.
-/

namespace HoldTheDonut
namespace Text

/-! ## The first occurrence -/

section Cut

variable {α : Type*} [DecidableEq α]

/-- The parts before and behind the first occurrence of a pattern. -/
def cut (pat : List α) : List α → Option (List α × List α)
  | [] => if pat = [] then some ([], []) else none
  | c :: l =>
    if pat <+: c :: l then some ([], (c :: l).drop pat.length)
    else (cut pat l).map fun p => (c :: p.1, p.2)

variable {pat l a b : List α}

theorem cut_of_isPrefix (h : pat <+: l) : cut pat l = some ([], l.drop pat.length) := by
  cases l with
  | nil => rw [cut, if_pos (List.prefix_nil.mp h), List.drop_nil]
  | cons c l => rw [cut, if_pos h]

theorem cut_cons_of_not_isPrefix {c : α} (h : ¬ pat <+: c :: l) :
    cut pat (c :: l) = (cut pat l).map fun p => (c :: p.1, p.2) := by
  rw [cut, if_neg h]

/-- What is found is there. -/
theorem eq_of_cut (h : cut pat l = some (a, b)) : l = a ++ pat ++ b := by
  induction l generalizing a with
  | nil =>
    rw [cut] at h
    split at h
    · next hpat =>
      cases h
      rw [hpat]
      rfl
    · cases h
  | cons c l ih =>
    by_cases hpre : pat <+: c :: l
    · rw [cut_of_isPrefix hpre] at h
      cases h
      obtain ⟨rest, hrest⟩ := hpre
      rw [← hrest, List.nil_append, List.drop_left]
    · rw [cut_cons_of_not_isPrefix hpre] at h
      obtain ⟨p, hp, heq⟩ := Option.map_eq_some_iff.mp h
      cases heq
      rw [ih hp, List.cons_append, List.cons_append]

/-- What is there is found, or something before it. -/
theorem cut_isSome (a b : List α) : (cut pat (a ++ pat ++ b)).isSome := by
  induction a with
  | nil =>
    rw [List.nil_append, cut_of_isPrefix (List.prefix_append pat b)]
    rfl
  | cons c a ih =>
    by_cases hpre : pat <+: c :: (a ++ pat ++ b)
    · rw [List.cons_append, List.cons_append, cut_of_isPrefix hpre]
      rfl
    · rw [List.cons_append, List.cons_append, cut_cons_of_not_isPrefix hpre, Option.isSome_map]
      exact ih

/-- **It stays the first occurrence when more follows.** -/
theorem cut_append (h : cut pat l = some (a, b)) (x : List α) :
    cut pat (l ++ x) = some (a, b ++ x) := by
  induction l generalizing a with
  | nil =>
    rw [cut] at h
    split at h
    · next hpat =>
      cases h
      rw [hpat]
      exact cut_of_isPrefix List.nil_prefix
    · cases h
  | cons c l ih =>
    by_cases hpre : pat <+: c :: l
    · rw [cut_of_isPrefix hpre] at h
      cases h
      rw [cut_of_isPrefix (hpre.trans (List.prefix_append _ _)),
        List.drop_append_of_le_length hpre.length_le]
    · rw [cut_cons_of_not_isPrefix hpre] at h
      obtain ⟨p, hp, heq⟩ := Option.map_eq_some_iff.mp h
      cases heq
      -- what is found further on is long enough for the pattern to have been seen here
      have hlong : pat.length ≤ (c :: l).length := by
        rw [eq_of_cut hp]
        simp only [List.length_cons, List.length_append]
        omega
      have hpre' : ¬ pat <+: c :: (l ++ x) := fun hx =>
        hpre (List.prefix_of_prefix_length_le hx (List.prefix_append (c :: l) x) hlong)
      rw [List.cons_append, cut_cons_of_not_isPrefix hpre', ih hp]
      rfl

/-- A pattern is not found where its first letter is not. -/
theorem cut_skip {x : α} (h : x ∉ a) (t : List α) :
    cut (x :: pat) (a ++ t) = (cut (x :: pat) t).map fun p => (a ++ p.1, p.2) := by
  induction a with
  | nil => exact Option.map_id'.symm
  | cons c a ih =>
    have hpre : ¬ x :: pat <+: c :: (a ++ t) := fun hp =>
      h ((List.cons_prefix_cons.mp hp).1 ▸ List.mem_cons_self)
    rw [List.cons_append, cut_cons_of_not_isPrefix hpre,
      ih fun hmem => h (List.mem_cons_of_mem c hmem), Option.map_map]
    rfl

theorem cut_of_not_mem {x : α} (h : x ∉ a) (b : List α) :
    cut (x :: pat) (a ++ x :: pat ++ b) = some (a, b) := by
  rw [List.append_assoc, cut_skip h, cut_of_isPrefix (List.prefix_append (x :: pat) b),
    List.drop_left, Option.map_some, List.append_nil]

/-- **It is found as soon as it is there**, and not before. -/
theorem cut_of_prefix (h : cut pat l = some (a, b)) {p : List α} (hp : p <+: l) :
    (a.length + pat.length ≤ p.length →
      cut pat p = some (a, p.drop (a.length + pat.length))) ∧
    (p.length < a.length + pat.length → cut pat p = none) := by
  obtain ⟨x, rfl⟩ := hp
  have hfound : ∀ {a' b' : List α}, cut pat p = some (a', b') → a' = a ∧ p = a ++ pat ++ b' := by
    intro a' b' h'
    have hsame := cut_append h' x
    rw [h] at hsame
    cases hsame
    exact ⟨rfl, eq_of_cut h'⟩
  constructor
  · intro hlong
    have hpre : a ++ pat <+: p := by
      refine List.prefix_of_prefix_length_le ?_ (List.prefix_append p x) ?_
      · rw [eq_of_cut h]
        exact List.prefix_append _ _
      · rwa [List.length_append]
    obtain ⟨y, rfl⟩ := hpre
    have hsome : (cut pat (a ++ pat ++ y)).isSome := cut_isSome a y
    obtain ⟨⟨a', b'⟩, h'⟩ := Option.isSome_iff_exists.mp hsome
    obtain ⟨rfl, hb⟩ := hfound h'
    rw [h', ← List.length_append, List.drop_left, List.append_cancel_left hb]
  · intro hshort
    cases h' : cut pat p with
    | none => rfl
    | some r =>
      obtain ⟨-, hb⟩ := hfound h'
      rw [hb] at hshort
      simp only [List.length_append] at hshort
      omega

end Cut

/-! ## Lines and words -/

/-- A line without the carriage return at its end. -/
def chomp (line : Text) : Text :=
  if line.getLast? = some '\r' then line.dropLast else line

/-- `str::lines`: what the last line feed does not end is a line too, unless it is empty. -/
def lines (t : Text) : List Text :=
  let parts := t.splitOn '\n'
  parts.dropLast.map chomp ++ (parts.getLast?.toList.filter fun last => !last.isEmpty)

/-- `str::split_whitespace`. -/
def words (blank : Char → Bool) (t : Text) : List Text :=
  (t.splitOnP blank).filter fun word => !word.isEmpty

/-- The first line of a text begins as the text does. -/
theorem exists_head_lines {a : Text} (ha : '\n' ∉ a) (hne : a ≠ []) (hlast : a.getLast? ≠ some '\r')
    (x : Text) : ∃ y, (lines (a ++ x)).head? = some (a ++ y) := by
  by_cases hx : '\n' ∈ x
  · obtain ⟨p, q, rfl, hp⟩ := List.eq_append_cons_of_mem hx
    have hfirst : '\n' ∉ a ++ p := fun hmem => (List.mem_append.mp hmem).elim ha hp
    have hparts : (a ++ (p ++ '\n' :: q)).splitOn '\n' = (a ++ p) :: q.splitOn '\n' := by
      rw [← List.append_assoc, List.splitOn_append_cons_self, List.splitOn_eq_singleton hfirst]
      rfl
    have hhead : (lines (a ++ (p ++ '\n' :: q))).head? = some (chomp (a ++ p)) := by
      unfold lines
      simp only [hparts, List.dropLast_cons_of_ne_nil (List.splitOn_ne_nil '\n' q), List.map_cons,
        List.cons_append, List.head?_cons]
    rw [hhead]
    unfold chomp
    split
    · next hcr =>
      rcases eq_or_ne p [] with rfl | hpne
      · rw [List.append_nil] at hcr
        exact absurd hcr hlast
      · exact ⟨p.dropLast, by rw [List.dropLast_append_of_ne_nil hpne]⟩
    · exact ⟨p, rfl⟩
  · have hall : '\n' ∉ a ++ x := fun hmem => (List.mem_append.mp hmem).elim ha hx
    refine ⟨x, ?_⟩
    unfold lines
    simp [List.splitOn_eq_singleton hall, hne]

/-- The first word, up to a blank. -/
theorem words_append_cons {blank : Char → Bool} {w : Text} (hw : ∀ c ∈ w, blank c = false)
    (hne : w ≠ []) {c : Char} (hc : blank c = true) (t : Text) :
    words blank (w ++ c :: t) = w :: words blank t := by
  have hfull : (!w.isEmpty) = true := by simpa using hne
  rw [words, List.splitOnP_append_cons_of_forall_mem hw c hc, List.filter_cons, if_pos hfull]
  rfl

/-- `str::strip_prefix`. -/
def dropStart (pat t : Text) : Option Text :=
  if pat <+: t then some (t.drop pat.length) else none

theorem dropStart_append (pat t : Text) : dropStart pat (pat ++ t) = some t := by
  rw [dropStart, if_pos (List.prefix_append pat t), List.drop_left]

/-- `str::trim_start_matches`, by recursion on fuel: each turn takes the pattern off. -/
def trimStartLoop (pat : Text) : ℕ → Text → Text
  | 0, t => t
  | fuel + 1, t => if pat <+: t then trimStartLoop pat fuel (t.drop pat.length) else t

def trimStartMatches (pat t : Text) : Text := trimStartLoop pat t.length t

/-- `str::trim_end_matches` with one character. -/
def trimEndMatches (c : Char) (t : Text) : Text := t.rdropWhile fun d => d == c

/-- `str::eq_ignore_ascii_case`. -/
def eqIgnoreAsciiCase (a b : Text) : Bool := a.map Char.toLower == b.map Char.toLower

end Text
end HoldTheDonut
