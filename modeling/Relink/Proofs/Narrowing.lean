import Mathlib.Data.List.Sort
import Relink.CommandLine
import Relink.Proofs.Exclusions
import Relink.Proofs.Naming

/-! # Filters that narrow a walk

A filter that leaves out all that another one leaves out finds a part of what the other finds, in the same order. More
patterns make such a filter, and so do the standard rules: an ignore file that takes something in again only keeps the
standard rules from leaving it out. So what the command line adds to the settings never adds a file. -/

namespace Relink

/-! ### Stricter filters -/

/-- Whether a filter leaves out what another one does: by rules given from outside, which take in no more, and by the
    standard rules. -/
structure Filter.Stricter (filter other : Filter) : Prop where
  leavesOut : ∀ path isFolder, Ignore.override? other.exclusions path isFolder = some .leaveOut →
    Ignore.override? filter.exclusions path isFolder = some .leaveOut
  takesIn : ∀ path isFolder, Ignore.override? filter.exclusions path isFolder = some .takeIn →
    Ignore.override? other.exclusions path isFolder = some .takeIn
  standard : other.standard = true → filter.standard = true

/-- Whether two walks stand at one entry; their scopes have to agree when a filter looks at them. -/
structure Scope.Alike (filter : Filter) (scope other : Scope) : Prop where
  path : scope.path = other.path
  scope : filter.standard = true → scope = other

namespace Filter
variable {filter other : Filter} {scope otherScope : Scope} {names : List Bytes} {isFolder : Bool}

theorem stricter_of_subset {patterns more : List Text} {rules moreRules : List Ignore.Rule}
    (hrules : Ignore.exclusions patterns = .ok rules) (hmore : Ignore.exclusions more = .ok moreRules)
    (hsubset : patterns ⊆ more) {standard moreStandard : Bool} (hstandard : standard = true → moreStandard = true) :
    Stricter ⟨moreRules, moreStandard⟩ ⟨rules, standard⟩ where
  leavesOut path isFolder h := by
    rw [Ignore.override?_exclusions hrules] at h
    rw [Ignore.override?_exclusions hmore, if_pos]
    split at h
    · rename_i hmatches
      obtain ⟨pattern, hpattern, hmatches⟩ := List.any_eq_true.mp hmatches
      exact List.any_eq_true.mpr ⟨pattern, hsubset hpattern, hmatches⟩
    · cases h
  takesIn path isFolder h := by
    rw [Ignore.override?_exclusions hmore] at h
    split at h <;> cases h
  standard := hstandard

theorem Stricter.skips (h : filter.Stricter other) (hscope : scope.Alike other otherScope)
    (hskips : other.skips otherScope names isFolder = true) : filter.skips scope names isFolder = true := by
  rw [skips_iff] at hskips ⊢
  rcases hskips with hleaves | ⟨hnone, hstandard, hskips⟩
  · exact Or.inl (h.leavesOut _ _ hleaves)
  · rw [hscope.scope hstandard]
    cases hdecision : Ignore.override? filter.exclusions (joinWith [Path.slash] names) isFolder with
    | none => exact Or.inr ⟨rfl, h.standard hstandard, hskips⟩
    | some decision =>
      cases decision with
      | leaveOut => exact Or.inl rfl
      | takeIn => cases hnone.symm.trans (h.takesIn _ _ hdecision)

end Filter

/-! ### Walks with stricter filters -/

namespace Walk
variable {tree node : Node} {working : Location} {ownRule? : Location → Bool → Option Decision} {filter other : Filter}
  {scope otherScope : Scope}

theorem alike_enter (h : filter.Stricter other) (hscope : scope.Alike other otherScope) (names : List Bytes) :
    Scope.Alike other ((Walk.mk tree working ownRule? filter).enter scope names)
      ((Walk.mk tree working ownRule? other).enter otherScope names) where
  path := by
    rw [enter_path, enter_path]
    exact hscope.path
  scope hstandard := by
    rw [enter, enter, if_pos hstandard, if_pos (h.standard hstandard), hscope.scope hstandard]

mutual

theorem visit_sublist (h : filter.Stricter other) (scope otherScope : Scope) (hscope : scope.Alike other otherScope)
    (names : List Bytes) : ∀ node : Node,
      ((Walk.mk tree working ownRule? filter).visit scope names node).Sublist
        ((Walk.mk tree working ownRule? other).visit otherScope names node)
  | .file _ => .refl _
  | .locked _ => .refl _
  | .special _ => .refl _
  | .link _ => .refl _
  | .folder entries refusal => by
    have hclosed : (Walk.mk tree working ownRule? filter).closed? (pathOf scope.path names) refusal =
        (Walk.mk tree working ownRule? other).closed? (pathOf otherScope.path names) refusal := by
      rw [hscope.path]
      rfl
    rw [visit, visit, hclosed, hscope.path]
    refine List.Sublist.cons_cons _ ?_
    split
    · exact .refl _
    · exact visitAll_sublist h _ _ (alike_enter h hscope names) names entries

theorem visitAll_sublist (h : filter.Stricter other) (scope otherScope : Scope) (hscope : scope.Alike other otherScope)
    (names : List Bytes) : ∀ entries : Folder,
      ((Walk.mk tree working ownRule? filter).visitAll scope names entries).Sublist
        ((Walk.mk tree working ownRule? other).visitAll otherScope names entries)
  | .empty => .refl _
  | .entry name node rest => by
    rw [visitAll, visitAll]
    refine List.Sublist.append ?_ (visitAll_sublist h scope otherScope hscope names rest)
    split
    · exact List.nil_sublist _
    · rename_i hkept
      have hother : ¬ other.skips otherScope (names ++ [name]) node.isFolder = true := fun hskips =>
        hkept (h.skips hscope hskips)
      rw [if_neg hother]
      exact visit_sublist h scope otherScope hscope (names ++ [name]) node

end

theorem below_sublist (h : filter.Stricter other) (hscope : scope.Alike other otherScope) (node : Node) :
    ((Walk.mk tree working ownRule? filter).below scope node).Sublist
      ((Walk.mk tree working ownRule? other).below otherScope node) := by
  -- Both lists are in order, so it is enough that one holds what the other does, as often.
  refine List.sublist_of_subperm_of_pairwise ?_ (pairwise_below _ _ _) (pairwise_below _ _ _)
  rw [below, below, (Sorted.sort_perm _ _).subperm_right, (Sorted.sort_perm _ _).subperm_left, filesOf, filesOf,
    hscope.path]
  exact (((visit_sublist h scope otherScope hscope [] node).filterMap _).filter _).subperm

theorem alike_scopeAt (h : filter.Stricter other) (root : Bytes) (location : Location) (node : Node) :
    Scope.Alike other ((Walk.mk tree working ownRule? filter).scopeAt root location node)
      ((Walk.mk tree working ownRule? other).scopeAt root location node) where
  path := rfl
  scope hstandard := by
    rw [scopeAt, scopeAt, show (Walk.mk tree working ownRule? filter).filter.standard = true from h.standard hstandard,
      show (Walk.mk tree working ownRule? other).filter.standard = true from hstandard]
    rfl

/-- A walk with a stricter filter finds a part of what the other finds, in the same order. -/
theorem paths_run_sublist (h : filter.Stricter other) (root : Bytes) :
    ((Walk.mk tree working ownRule? filter).run root).paths.Sublist
      ((Walk.mk tree working ownRule? other).run root).paths := by
  rw [run, run]
  split
  · exact List.nil_sublist _
  · rename_i location hlocation
    rw [hlocation]
    dsimp only
    split
    · rename_i node _
      exact (below_sublist h (alike_scopeAt h root location node) node).map _
    · exact .refl _

/-- Walks find the same when each filter leaves out what the other does. -/
theorem run_eq_of_stricter (h : filter.Stricter other) (h' : other.Stricter filter) (root : Bytes) :
    (Walk.mk tree working ownRule? filter).run root = (Walk.mk tree working ownRule? other).run root := by
  have hstandard : filter.standard = other.standard := Bool.eq_iff_iff.mpr ⟨h'.standard, h.standard⟩
  have hrunAt : ∀ location node, (Walk.mk tree working ownRule? filter).runAt root location node =
      (Walk.mk tree working ownRule? other).runAt root location node := by
    intro location node
    have hscope : (Walk.mk tree working ownRule? filter).scopeAt root location node =
        (Walk.mk tree working ownRule? other).scopeAt root location node := by
      simp only [scopeAt, hstandard]
      rfl
    have hvisit : (Walk.mk tree working ownRule? filter).visit
        ((Walk.mk tree working ownRule? filter).scopeAt root location node) [] node =
        (Walk.mk tree working ownRule? other).visit
          ((Walk.mk tree working ownRule? other).scopeAt root location node) [] node :=
      (visit_sublist h _ _ (alike_scopeAt h root location node) [] node).antisymm
        (visit_sublist h' _ _ (alike_scopeAt h' root location node) [] node)
    rw [runAt, runAt, below, below, hvisit, hscope]
    rfl
  rw [run, run]
  simp only [hrunAt]

theorem projectFiles_sublist {walked others : Walked} (h : walked.paths.Sublist others.paths) (root : Bytes) :
    (projectFiles root walked).Sublist (projectFiles root others) :=
  (h.filterMap _).filter _

/-- Patterns and the standard rules only leave out. The line of a pattern takes in, whatever the pattern starts with, so
    turned around it leaves out. With more patterns, or with the standard rules on top, a walk finds a part of what it
    finds without, in the same order, and which patterns there are is all that counts. So the arguments, which add to
    the settings, never add a project file. -/
theorem patterns_only_exclude (system : System) (tree : Node) (working : Location) (root : Bytes) :
    (∀ pattern rule, Ignore.Rule.ofLine false (Ignore.lineOf pattern) = .ok (some rule) → rule.decision = .takeIn) ∧
    (∀ patterns more standard, (∀ pattern ∈ more, Ignore.Usable pattern) → patterns ⊆ more → ∃ rules moreRules,
      Ignore.exclusions patterns = .ok rules ∧ Ignore.exclusions more = .ok moreRules ∧
      let walked := (Walk.mk tree working system.ownRule? ⟨rules, standard⟩).run root
      let fewer := (Walk.mk tree working system.ownRule? ⟨moreRules, standard⟩).run root
      fewer.paths.Sublist walked.paths ∧ (more ⊆ patterns → fewer = walked)) ∧
    (∀ rules, ((Walk.mk tree working system.ownRule? ⟨rules, true⟩).run root).paths.Sublist
      ((Walk.mk tree working system.ownRule? ⟨rules, false⟩).run root).paths) ∧
    ∀ settings arguments files complaints,
      Run.discover system tree working (CommandLine.overrule settings arguments) root = .ok (files, complaints) →
      ∃ others otherComplaints, Run.discover system tree working settings root = .ok (others, otherComplaints) ∧
        files.Sublist others := by
  refine ⟨fun pattern rule => Ignore.Rule.decision_of_lineOf, ?_, ?_, ?_⟩
  · intro patterns more standard husable hsubset
    obtain ⟨rules, hrules⟩ := Ignore.exists_exclusions_iff.mpr fun pattern hpattern =>
      husable pattern (hsubset hpattern)
    obtain ⟨moreRules, hmore⟩ := Ignore.exists_exclusions_iff.mpr husable
    have hstricter : Filter.Stricter ⟨moreRules, standard⟩ ⟨rules, standard⟩ :=
      Filter.stricter_of_subset hrules hmore hsubset id
    refine ⟨rules, moreRules, hrules, hmore, paths_run_sublist hstricter root, fun hback => ?_⟩
    exact run_eq_of_stricter hstricter (Filter.stricter_of_subset hmore hrules hback id) root
  · intro rules
    have hstricter : Filter.Stricter ⟨rules, true⟩ ⟨rules, false⟩ := ⟨fun _ _ => id, fun _ _ => id, fun _ => rfl⟩
    exact paths_run_sublist hstricter root
  · intro settings arguments files complaints h
    obtain ⟨moreRules, hmore, rfl⟩ := Run.exists_of_discover h
    have hsubset : settings.ignorePatterns ⊆ (CommandLine.overrule settings arguments).ignorePatterns :=
      List.subset_append_left _ _
    obtain ⟨rules, hrules⟩ := Ignore.exists_exclusions_iff.mpr fun pattern hpattern =>
      Ignore.exists_exclusions_iff.mp ⟨moreRules, hmore⟩ pattern (hsubset hpattern)
    have hstandard : settings.respectGitignore = true →
        (CommandLine.overrule settings arguments).respectGitignore = true := fun h => Bool.or_eq_true_iff.mpr (Or.inl h)
    have hstricter := Filter.stricter_of_subset hrules hmore hsubset hstandard
    rw [Run.discover, hrules]
    exact ⟨_, _, rfl, projectFiles_sublist (paths_run_sublist hstricter root) root⟩

/-- A pattern that starts with an exclamation mark, with another one on both sides of it. -/
def samplePatterns : List Text := ["b.gd".toList, "!a.gd".toList, "b.gd".toList]

theorem patterns_only_exclude_sample :
    let root := Utf8.encode "/p".toList
    let arguments : CommandLine.Arguments := { CommandLine.Arguments.none with ignore := samplePatterns }
    let walked := fun rules standard => (Walk.mk Run.sample [] Run.sampleSystem.ownRule? ⟨rules, standard⟩).run root
    (∃ rule, Ignore.Rule.ofLine false (Ignore.lineOf "!a.gd".toList) = .ok (some rule) ∧ rule.decision = .takeIn) ∧
    (∃ rules moreRules, Ignore.exclusions ["!a.gd".toList] = .ok rules ∧
      Ignore.exclusions samplePatterns = .ok moreRules ∧
      (walked moreRules false).paths.Sublist (walked rules false).paths ∧
      (walked moreRules false).paths = [Utf8.encode "/p/a.gd".toList]) ∧
    (∃ rules moreRules, Ignore.exclusions ["!a.gd".toList, "b.gd".toList] = .ok rules ∧
      Ignore.exclusions samplePatterns = .ok moreRules ∧ walked moreRules true = walked rules true) ∧
    Run.discover Run.sampleSystem Run.sample [] (CommandLine.overrule Run.sampleSettings arguments) root =
      .ok (Run.sampleFiles.take 1, []) ∧
    ∃ others complaints,
      Run.discover Run.sampleSystem Run.sample [] Run.sampleSettings root = .ok (others, complaints) ∧
      (Run.sampleFiles.take 1).Sublist others := by
  intro root arguments walked
  obtain ⟨hmark, hpatterns, -, hdiscover⟩ := patterns_only_exclude Run.sampleSystem Run.sample [] root
  obtain ⟨rule, hrule⟩ : ∃ rule, Ignore.Rule.ofLine false (Ignore.lineOf "!a.gd".toList) = .ok (some rule) := ⟨_, rfl⟩
  obtain ⟨moreRules, hmore⟩ : ∃ rules, Ignore.exclusions samplePatterns = .ok rules := ⟨_, rfl⟩
  have husable : ∀ pattern ∈ samplePatterns, Ignore.Usable pattern := Ignore.exists_exclusions_iff.mp ⟨moreRules, hmore⟩
  have hwalked : walked moreRules false = ⟨[Utf8.encode "/p/a.gd".toList], []⟩ := by
    cases hmore
    exact (Run.walk_sample _ rfl).trans (by decide)
  have hfiles : Run.discover Run.sampleSystem Run.sample [] (CommandLine.overrule Run.sampleSettings arguments) root =
      .ok (Run.sampleFiles.take 1, []) := by
    have hrules : Ignore.exclusions (CommandLine.overrule Run.sampleSettings arguments).ignorePatterns =
        .ok moreRules := hmore
    have hstandard : (CommandLine.overrule Run.sampleSettings arguments).respectGitignore = false := rfl
    rw [Run.discover, hrules, hstandard]
    show Except.ok (projectFiles root (walked moreRules false), (walked moreRules false).complaints) = _
    rw [hwalked]
    rfl
  refine ⟨⟨rule, hrule, hmark _ _ hrule⟩, ?_, ?_, hfiles, hdiscover _ _ _ _ hfiles⟩
  · obtain ⟨rules, moreRules', hrules, hmore', hsublist, -⟩ :=
      hpatterns ["!a.gd".toList] samplePatterns false husable (by decide)
    cases hmore.symm.trans hmore'
    exact ⟨rules, moreRules, hrules, hmore, hsublist, congrArg Walked.paths hwalked⟩
  · obtain ⟨rules, moreRules', hrules, hmore', -, hsame⟩ :=
      hpatterns ["!a.gd".toList, "b.gd".toList] samplePatterns true husable (by decide)
    exact ⟨rules, moreRules', hrules, hmore', hsame (by decide)⟩

end Walk
end Relink
