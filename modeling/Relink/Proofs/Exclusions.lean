import Mathlib.Data.List.Basic
import Relink.Walk

/-! # What patterns leave out

Each pattern given from outside is read as the line of an ignore file that takes in again, whatever it starts with,
and its decision is turned around. So no pattern takes anything in, nothing is left out that no pattern matches, and
what is left out depends on which patterns there are, not on their order. A list of patterns can be used when each of
them can. -/

namespace Relink

/-- Globs can be used together when none that is looked for by its expression is nested too deep. -/
theorem Glob.overrun?_eq_none_iff {globs : List Glob} : overrun? globs = none ↔
    ∀ glob ∈ globs, glob.isPlain = false → glob.isTooDeep = false := by
  rw [overrun?, List.partition_eq_filter_filter]
  dsimp only
  constructor
  · intro h glob hmem hplain
    split at h
    · cases h
    · rename_i hextensions
      rw [List.find?_eq_none] at hextensions
      rw [Option.map_eq_none_iff, List.findIdx?_eq_none_iff] at h
      by_cases hend : endsInExtension glob.reverse = true
      · simpa using hextensions glob (by simp [hmem, hplain, hend])
      · exact h glob (by simp [hmem, hplain, hend])
  · intro h
    have hdeep : ∀ glob ∈ globs.filter fun glob => !glob.isPlain, glob.isTooDeep = false := by
      intro glob hmem
      rw [List.mem_filter, Bool.not_eq_true'] at hmem
      exact h glob hmem.1 hmem.2
    split
    · rename_i glob hfound
      have hmem := List.mem_of_mem_filter (List.mem_of_find?_eq_some hfound)
      exact absurd (List.find?_some hfound) (by rw [hdeep glob hmem]; exact Bool.false_ne_true)
    · rw [Option.map_eq_none_iff, List.findIdx?_eq_none_iff]
      exact fun glob hmem => hdeep glob (List.mem_of_mem_filter hmem)

namespace Ignore
variable {patterns : List Text} {pattern : Text} {rules : List Rule} {rule : Rule} {path : Bytes} {isFolder : Bool}

/-! ### The rule of a pattern -/

/-- The line that takes in again what a pattern matches. -/
def lineOf (pattern : Text) : Text := '!' :: pattern

/-- Whether a pattern matches a path. -/
def patternMatches (pattern : Text) (path : Bytes) (isFolder : Bool) : Bool :=
  match Rule.ofLine false (lineOf pattern) with
  | .ok (some rule) => rule.applies path isFolder
  | _ => false

/-- Whether a pattern can be used. -/
def Usable (pattern : Text) : Prop := ∃ rules, exclusions [pattern] = .ok rules

theorem Rule.trimmed_lineOf (pattern : Text) : ∃ rest, Rule.trimmed (lineOf pattern) = '!' :: rest := by
  rw [Rule.trimmed]
  split
  · exact ⟨pattern, rfl⟩
  · have hmark : Text.isBlank '!' = false := by decide
    rw [Text.trimEnd, lineOf, List.reverse_cons, List.dropWhile_append]
    split
    · exact ⟨[], by simp [hmark]⟩
    · exact ⟨(pattern.reverse.dropWhile Text.isBlank).reverse, by simp⟩

theorem Rule.opening_mark (rest : Text) : (Rule.opening ('!' :: rest)).1 = .takeIn := by
  unfold Rule.opening
  split <;> simp_all

/-- The line of a pattern takes in, whatever the pattern starts with. -/
theorem Rule.decision_of_lineOf (h : Rule.ofLine false (lineOf pattern) = .ok (some rule)) :
    rule.decision = .takeIn := by
  obtain ⟨rest, hrest⟩ := Rule.trimmed_lineOf pattern
  have hhead : (lineOf pattern).head? ≠ some '#' := by simp [lineOf]
  rw [Rule.ofLine, if_neg hhead] at h
  dsimp only at h
  rw [hrest, if_neg (by simp)] at h
  split at h
  · cases h
  · cases h
    exact Rule.opening_mark rest

/-! ### The rules of patterns -/

theorem exclusionsOf_cons_eq_ok_iff : exclusionsOf (pattern :: patterns) = .ok rules ↔ ∃ read others,
    Rule.ofLine false (lineOf pattern) = .ok read ∧ exclusionsOf patterns = .ok others ∧
      rules = read.toList ++ others := by
  have hline : exclusionsOf (pattern :: patterns) = (Rule.ofLine false (lineOf pattern)).bind fun read =>
      (exclusionsOf patterns).bind fun others => .ok (read.toList ++ others) := rfl
  rw [hline]
  cases Rule.ofLine false (lineOf pattern) with
  | error fault => simp [Except.bind]
  | ok read =>
    cases exclusionsOf patterns with
    | error fault => simp [Except.bind]
    | ok others => simp [Except.bind, eq_comm]

/-- The rules are those of the patterns. -/
theorem mem_exclusionsOf_iff (h : exclusionsOf patterns = .ok rules) : rule ∈ rules ↔
    ∃ pattern ∈ patterns, Rule.ofLine false (lineOf pattern) = .ok (some rule) := by
  induction patterns generalizing rules with
  | nil =>
    cases h
    simp
  | cons pattern patterns ih =>
    obtain ⟨read, others, hread, hothers, rfl⟩ := exclusionsOf_cons_eq_ok_iff.mp h
    rw [List.mem_append, ih hothers, Option.mem_toList]
    constructor
    · rintro (rfl | ⟨other, hother, hfound⟩)
      · exact ⟨pattern, List.mem_cons_self, hread⟩
      · exact ⟨other, List.mem_cons_of_mem _ hother, hfound⟩
    · rintro ⟨other, hother, hfound⟩
      rcases List.mem_cons.mp hother with rfl | hother
      · rw [hread, Except.ok.injEq] at hfound
        exact Or.inl hfound
      · exact Or.inr ⟨other, hother, hfound⟩

/-- The rules of patterns would take in. -/
theorem decision_of_mem_exclusions (h : exclusionsOf patterns = .ok rules) (hmem : rule ∈ rules) :
    rule.decision = .takeIn := by
  obtain ⟨pattern, -, hread⟩ := (mem_exclusionsOf_iff h).mp hmem
  exact Rule.decision_of_lineOf hread

theorem exists_exclusionsOf_iff : (∃ rules, exclusionsOf patterns = .ok rules) ↔
    ∀ pattern ∈ patterns, ∃ read, Rule.ofLine false (lineOf pattern) = .ok read := by
  induction patterns with
  | nil => simp [exclusionsOf]
  | cons pattern patterns ih =>
    rw [List.forall_mem_cons, ← ih]
    constructor
    · rintro ⟨rules, h⟩
      obtain ⟨read, others, hread, hothers, -⟩ := exclusionsOf_cons_eq_ok_iff.mp h
      exact ⟨⟨read, hread⟩, others, hothers⟩
    · rintro ⟨⟨read, hread⟩, others, hothers⟩
      exact ⟨_, exclusionsOf_cons_eq_ok_iff.mpr ⟨read, others, hread, hothers, rfl⟩⟩

theorem exclusions_eq_ok_iff : exclusions patterns = .ok rules ↔
    exclusionsOf patterns = .ok rules ∧ overrun? rules = none := by
  rw [exclusions]
  split
  · rename_i fault hfault
    simp [hfault]
  · rename_i found hfound
    rw [hfound]
    split
    · rename_i overrun hoverrun
      simp only [reduceCtorEq, Except.ok.injEq, false_iff, not_and]
      rintro rfl
      simp [hoverrun]
    · rename_i hoverrun
      simp only [Except.ok.injEq]
      exact ⟨fun he => ⟨he, he ▸ hoverrun⟩, And.left⟩

/-- Patterns can be used together when the line of each is no fault and no glob is nested too deep. -/
theorem exists_exclusions_iff_lines : (∃ rules, exclusions patterns = .ok rules) ↔ ∀ pattern ∈ patterns, ∃ read,
    Rule.ofLine false (lineOf pattern) = .ok read ∧
      ∀ rule ∈ read, rule.glob.isPlain = false → rule.glob.isTooDeep = false := by
  constructor
  · rintro ⟨rules, h⟩ pattern hpattern
    obtain ⟨hrules, hdeep⟩ := exclusions_eq_ok_iff.mp h
    obtain ⟨read, hread⟩ := exists_exclusionsOf_iff.mp ⟨rules, hrules⟩ pattern hpattern
    refine ⟨read, hread, ?_⟩
    rintro rule rfl
    rw [overrun?, Glob.overrun?_eq_none_iff, List.forall_mem_map] at hdeep
    exact hdeep rule ((mem_exclusionsOf_iff hrules).mpr ⟨pattern, hpattern, hread⟩)
  · intro h
    obtain ⟨rules, hrules⟩ := exists_exclusionsOf_iff.mpr fun pattern hpattern =>
      (h pattern hpattern).imp fun _ => And.left
    refine ⟨rules, exclusions_eq_ok_iff.mpr ⟨hrules, ?_⟩⟩
    rw [overrun?, Glob.overrun?_eq_none_iff, List.forall_mem_map]
    intro rule hrule
    obtain ⟨pattern, hpattern, hfound⟩ := (mem_exclusionsOf_iff hrules).mp hrule
    obtain ⟨read, hread, hdeep⟩ := h pattern hpattern
    rw [hfound, Except.ok.injEq] at hread
    exact hdeep rule hread.symm

/-- Patterns can be used together when each of them can. -/
theorem exists_exclusions_iff : (∃ rules, exclusions patterns = .ok rules) ↔ ∀ pattern ∈ patterns, Usable pattern := by
  have hone : ∀ pattern, Usable pattern ↔ ∃ read, Rule.ofLine false (lineOf pattern) = .ok read ∧
      ∀ rule ∈ read, rule.glob.isPlain = false → rule.glob.isTooDeep = false := by
    intro pattern
    rw [Usable, exists_exclusions_iff_lines, List.forall_mem_singleton]
  rw [exists_exclusions_iff_lines]
  exact forall₂_congr fun pattern _ => (hone pattern).symm

/-! ### What is left out -/

theorem decide?_isSome_iff :
    (decide? rules path isFolder).isSome ↔ ∃ rule ∈ rules, rule.applies path isFolder = true := by
  rw [decide?, Option.isSome_map, List.find?_isSome]
  simp only [List.mem_reverse]

/-- A path that rules speak of matches one of them, and that rule decides. -/
theorem exists_of_decide? {decision : Decision} (h : decide? rules path isFolder = some decision) :
    ∃ rule ∈ rules, rule.decision = decision := by
  obtain ⟨rule, hfound, hdecision⟩ := Option.map_eq_some_iff.mp h
  exact ⟨rule, List.mem_reverse.mp (List.mem_of_find?_eq_some hfound), hdecision⟩

theorem patternMatches_iff : patternMatches pattern path isFolder = true ↔
    ∃ rule, Rule.ofLine false (lineOf pattern) = .ok (some rule) ∧ rule.applies path isFolder = true := by
  rw [patternMatches]
  split
  · rename_i rule hrule
    simp [hrule]
  · rename_i hnone
    refine ⟨fun h => absurd h Bool.false_ne_true, ?_⟩
    rintro ⟨rule, hrule, -⟩
    exact absurd hrule (hnone rule)

/-- The rules of patterns leave out what one of the patterns matches, and decide about nothing else. They would take
    it in as lines of an ignore file, and none of them would leave out what the others do not speak of. -/
theorem override?_exclusions (h : exclusions patterns = .ok rules) (path : Bytes) (isFolder : Bool) :
    override? rules path isFolder =
      if patterns.any (patternMatches · path isFolder) then some .leaveOut else none := by
  obtain ⟨hrules, -⟩ := exclusions_eq_ok_iff.mp h
  have hspeaks : patterns.any (patternMatches · path isFolder) = (decide? rules path isFolder).isSome := by
    rw [Bool.eq_iff_iff, List.any_eq_true]
    simp only [decide?_isSome_iff, mem_exclusionsOf_iff hrules, patternMatches_iff]
    constructor
    · rintro ⟨pattern, hpattern, rule, hrule, happlies⟩
      exact ⟨rule, ⟨pattern, hpattern, hrule⟩, happlies⟩
    · rintro ⟨rule, ⟨pattern, hpattern, hrule⟩, happlies⟩
      exact ⟨pattern, hpattern, rule, hrule, happlies⟩
  rw [override?, hspeaks]
  cases hdecide : decide? rules path isFolder with
  | some decision =>
    obtain ⟨rule, hrule, rfl⟩ := exists_of_decide? hdecide
    rw [decision_of_mem_exclusions hrules hrule]
    rfl
  | none =>
    have hnone : (rules.any fun rule => rule.decision = .leaveOut) = false := by
      rw [List.any_eq_false]
      intro rule hrule
      simp [decision_of_mem_exclusions hrules hrule]
    simp [hnone]

end Ignore

/-- An entry is left out by the rules given from outside or, if these do not decide and the standard rules are used,
    by the standard rules. -/
theorem Filter.skips_iff {filter : Filter} {scope : Scope} {names : List Bytes} {isFolder : Bool} :
    filter.skips scope names isFolder = true ↔
      Ignore.override? filter.exclusions (joinWith [Path.slash] names) isFolder = some .leaveOut ∨
        Ignore.override? filter.exclusions (joinWith [Path.slash] names) isFolder = none ∧
          filter.standard = true ∧ standardSkips scope names isFolder = true := by
  rw [skips]
  split <;> rename_i hdecision <;> simp [hdecision]

end Relink
