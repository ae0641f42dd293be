import Relink.Proofs.Accounting
import Relink.Proofs.Naming

/-! # What a run depends on

A run that leaves the standard rules aside reads no ignore file. What it archives and counts then follows from
the project files alone: those that folders lead to and, of the editable ones, what they hold. Files of other
kinds, what resources hold and folders without project files have no influence. -/

namespace Relink

/-! ### The way back to a folder -/

namespace Node
variable {tree : Node} {working location : Location} {entries : Folder} {refusal : Option Text}

theorem splitAt_pathOf (h : ∀ name ∈ location, Path.slash ∉ name) (hne : location ≠ []) :
    splitAt Path.slash (Ignore.pathOf location) = [] :: location := by
  rw [Ignore.pathOf, splitAt, if_pos rfl, splitAt_joinWith hne h]

/-- The path of a folder leads to it, when it is not too long. -/
theorem locate_pathOf (h : tree.Proper) (hfind : tree.find? location = some (.folder entries refusal)) :
    tree.locate working (Ignore.pathOf location) =
      if (Ignore.pathOf location).length > pathLimit then .error .nameTooLong else .ok location := by
  have hnames := (proper_of_find? h hfind).1
  have hzero : 0 ∉ Ignore.pathOf location := by
    intro hmem
    rcases List.mem_cons.mp hmem with hmem | hmem
    · exact absurd hmem (by decide)
    · rcases mem_of_mem_joinWith hmem with hmem | ⟨name, hname, hmem⟩
      · exact absurd hmem (by decide)
      · exact (hnames name hname).2.2 hmem
  have hrefuse : refuse? (Ignore.pathOf location) =
      if (Ignore.pathOf location).length > pathLimit then some .nameTooLong else none := by
    have hempty : Ignore.pathOf location ≠ [] := List.cons_ne_nil _ _
    rw [refuse?, if_neg hzero, if_neg hempty]
  split
  · rename_i hlong
    rw [locate, hrefuse, if_pos hlong]
  · rename_i hshort
    rw [if_neg hshort] at hrefuse
    cases tree with
    | folder top =>
      by_cases hne : location = []
      · subst hne
        rw [locate, hrefuse]
        simp [start, Ignore.pathOf, joinWith, splitAt, follow_root, follow, Except.map]
      · exact locate_absolute hrefuse rfl (splitAt_pathOf (fun name hname => (hnames name hname).2.1) hne)
          (fun name hname => (hnames name hname).1) hfind fun _ => Node.noConfusion
    | _ => cases location <;> cases hfind

/-- Whether names lead from a location, through folders that can be listed, to an entry whose path leads to a file. -/
def FindsFile (tree : Node) (working location : Location) (names : List Bytes) : Prop :=
  ((tree.find? location).bind (·.listed? names)).isSome = true ∧
    tree.hasFile working (Walk.pathOf (Ignore.pathOf location) names) = true

end Node

/-! ### Walks without the standard rules -/

namespace Walk
variable {walk other : Walk} {scope otherScope : Scope} {names below : List Bytes} {location : Location}
  {entries others : Folder} {refusal othersRefusal : Option Text} {isFolder : Bool}

theorem keeps_congr (hfilter : walk.filter = other.filter) (hstandard : walk.filter.standard = false) :
    walk.Keeps scope names isFolder below ↔ other.Keeps otherScope names isFolder below := by
  induction below generalizing scope otherScope names with
  | nil => exact Iff.rfl
  | cons name below ih =>
    have hskips : walk.filter.skips scope (names ++ [name]) (!below.isEmpty || isFolder) =
        other.filter.skips otherScope (names ++ [name]) (!below.isEmpty || isFolder) := by
      rw [Filter.skips, Filter.skips, ← hfilter, hstandard]
      rfl
    rw [Keeps, Keeps, hskips]
    exact and_congr_right fun _ => ih

/-- What a walk comes to below a folder. -/
def foundAt (walk : Walk) (location : Location) (node : Node) : List (List Bytes) :=
  walk.below (walk.scopeAt (Ignore.pathOf location) location node) node

/-- The project files below a folder. -/
theorem projectFiles_run (hproper : walk.tree.Proper)
    (hfind : walk.tree.find? location = some (.folder entries refusal)) :
    projectFiles (Ignore.pathOf location) (walk.run (Ignore.pathOf location)) =
      if (Ignore.pathOf location).length > pathLimit then []
      else (walk.foundAt location (.folder entries refusal)).filterMap (fileAt? (Ignore.pathOf location)) := by
  have hlocate : walk.tree.locate walk.working (Ignore.pathOf location) = _ := Node.locate_pathOf hproper hfind
  split
  · rename_i hlong
    rw [run, hlocate, if_pos hlong]
    rfl
  · rename_i hshort
    rw [if_neg hshort] at hlocate
    rw [run_eq hlocate hfind]
    exact projectFiles_map _ _ _

theorem mem_foundAt_iff (hproper : walk.tree.Proper)
    (hfind : walk.tree.find? location = some (.folder entries refusal))
    (hshort : ¬ (Ignore.pathOf location).length > pathLimit) :
    names ∈ walk.foundAt location (.folder entries refusal) ↔ walk.tree.FindsFile walk.working location names ∧
      walk.Keeps (walk.enter (walk.scopeAt (Ignore.pathOf location) location (.folder entries refusal)) []) [] false
        names := by
  have hlocate : walk.tree.locate walk.working (Ignore.pathOf location) = .ok location := by
    rw [Node.locate_pathOf hproper hfind, if_neg hshort]
  rw [foundAt, mem_below_scopeAt_iff hproper hlocate hfind, Node.FindsFile, hfind, Option.bind_some, ← and_assoc,
    and_comm (a := walk.tree.hasFile _ _ = true)]

theorem exists_of_mem_projectFiles (hproper : walk.tree.Proper)
    (hfind : walk.tree.find? location = some (.folder entries refusal)) {file : ProjectFile}
    (hmem : file ∈ projectFiles (Ignore.pathOf location) (walk.run (Ignore.pathOf location))) :
    ∃ names, fileAt? (Ignore.pathOf location) names = some file ∧ walk.tree.FindsFile walk.working location names := by
  rw [projectFiles_run hproper hfind] at hmem
  split at hmem
  · cases hmem
  · rename_i hshort
    obtain ⟨names, hnames, hfile⟩ := List.mem_filterMap.mp hmem
    exact ⟨names, hfile, ((mem_foundAt_iff hproper hfind hshort).mp hnames).1⟩

theorem filterMap_fileAt? (root : Bytes) (list : List (List Bytes)) : list.filterMap (fileAt? root) =
    (list.filter fun names => (fileAt? root names).isSome).filterMap (fileAt? root) := by
  rw [List.filterMap_filter]
  refine List.filterMap_congr fun names _ => ?_
  cases fileAt? root names <;> rfl

/-- What a walk finds that leaves the standard rules aside follows from the files that it can find. -/
theorem projectFiles_congr (hproper : walk.tree.Proper) (hproper' : other.tree.Proper)
    (hfind : walk.tree.find? location = some (.folder entries refusal))
    (hfind' : other.tree.find? location = some (.folder others othersRefusal)) (hfilter : walk.filter = other.filter)
    (hstandard : walk.filter.standard = false)
    (hsame : ∀ names, (fileAt? (Ignore.pathOf location) names).isSome →
      (walk.tree.FindsFile walk.working location names ↔ other.tree.FindsFile other.working location names)) :
    projectFiles (Ignore.pathOf location) (walk.run (Ignore.pathOf location)) =
      projectFiles (Ignore.pathOf location) (other.run (Ignore.pathOf location)) := by
  have hentries : (walk.foundAt location (.folder entries refusal)).Nodup :=
    nodup_below (Node.proper_of_find? hproper hfind).2
  have hothers : (other.foundAt location (.folder others othersRefusal)).Nodup :=
    nodup_below (Node.proper_of_find? hproper' hfind').2
  rw [projectFiles_run hproper hfind, projectFiles_run hproper' hfind']
  split
  · rfl
  · rename_i hshort
    rw [filterMap_fileAt? _ (walk.foundAt _ _), filterMap_fileAt? _ (other.foundAt _ _)]
    refine congrArg _ (List.Perm.eq_of_pairwise (fun _ _ _ _ => List.le_antisymm)
      ((pairwise_below walk _ _).filter _) ((pairwise_below other _ _).filter _) ?_)
    rw [List.perm_ext_iff_of_nodup (hentries.filter _) (hothers.filter _)]
    intro names
    rw [List.mem_filter, List.mem_filter]
    refine and_congr_left fun hfile => ?_
    exact (mem_foundAt_iff hproper hfind hshort).trans ((and_congr (hsame names hfile)
      (keeps_congr hfilter hstandard)).trans (mem_foundAt_iff hproper' hfind' hshort).symm)

end Walk

/-! ### Runs without the standard rules -/

namespace Run
variable {system : System} {tree other : Node} {working location : Location} {settings : Settings}
  {entries others : Folder} {refusal othersRefusal : Option Text}

/-- The archive and the summary of the project in a tree. -/
def collect (system : System) (tree : Node) (working : Location) (settings : Settings) :
    Except Failure (Archive × Summary) :=
  match tree.locate working settings.path, tree.hasFolder working settings.path with
  | .ok location, true =>
    (discover system tree working settings (Ignore.pathOf location)).bind fun (files, _) =>
      (Packing.into system.archiver (Index.ofFiles files) settings.verbose [] (readAll tree files)).outcome.mapError
        .badEntry
  | _, _ => .error (.missingRoot settings.path)

/-- What comes of entries that are handed to the archive. -/
def gather (system : System) (entries : List Entry) (summary : Summary) : Except Failure (Archive × Summary) :=
  ((system.archiver.addAll [] entries).map fun archive => (archive, summary)).mapError .badEntry

/-- Entries that the archive takes are its entries. -/
theorem gather_eq {entries : List Entry} (h : system.archiver.Accepts [] entries) (summary : Summary) :
    gather system entries summary = .ok (entries, summary) := by
  have hall : system.archiver.addAll [] entries = .ok entries := Archiver.addAll_eq_ok_iff.mpr ⟨h, rfl⟩
  rw [gather, hall]
  rfl

/-- A run writes the archive that it collects. -/
theorem outcome_eq (system : System) (tree : Node) (working : Location) (settings : Settings) :
    (run system tree working settings).outcome = (collect system tree working settings).bind fun result =>
      (write system tree working settings result.1).map fun _ => result.2 := by
  cases hlocate : tree.locate working settings.path with
  | error error => simp [run, collect, hlocate, Except.bind]
  | ok location =>
    cases hfolder : tree.hasFolder working settings.path with
    | false => simp [run, collect, hlocate, hfolder, Except.bind]
    | true =>
      cases hdiscover : discover system tree working settings (Ignore.pathOf location) with
      | error failure => simp [run, collect, hlocate, hfolder, hdiscover, Except.bind]
      | ok found =>
        simp only [run, collect, hlocate, hfolder, hdiscover, Except.bind, deliver]
        cases (Packing.into system.archiver (Index.ofFiles found.1) settings.verbose []
            (readAll tree found.1)).outcome with
        | error rejection => rfl
        | ok packed =>
          dsimp only [Except.mapError]
          cases write system tree working settings packed.1 <;> rfl

/-- Two trees hold the same project in a folder: the same project files that folders lead to, and the editable ones
    with the same content, if they can be read. -/
structure SameProject (working location : Location) (tree other : Node) : Prop where
  files : ∀ names, (Walk.fileAt? (Ignore.pathOf location) names).isSome →
    (tree.FindsFile working location names ↔ other.FindsFile working location names)
  contents : ∀ names file, Walk.fileAt? (Ignore.pathOf location) names = some file → file.isEditable = true →
    tree.FindsFile working location names → (tree.read [] file.path).toOption = (other.read [] file.path).toOption

theorem toOption_readText (tree : Node) (file : ProjectFile) :
    (readText tree file).toOption = (tree.read [] file.path).toOption.map Utf8.decodeLossy := by
  rw [readText]
  cases tree.read [] file.path <;> rfl

/-- What is packed and counted follows from the contents of the editable files. -/
theorem packed_congr {files : List ProjectFile} (h : ∀ file ∈ files, file.isEditable = true →
      (tree.read [] file.path).toOption = (other.read [] file.path).toOption) :
    entriesOf tree files = entriesOf other files ∧
      Packing.summaryOf (Index.ofFiles files) (readAll tree files) =
        Packing.summaryOf (Index.ofFiles files) (readAll other files) := by
  have hreads : ((readAll tree files).map fun read => (read.1, read.2.toOption)) =
      (readAll other files).map fun read => (read.1, read.2.toOption) := by
    rw [readAll, readAll, List.map_map, List.map_map]
    refine List.map_congr_left fun file hmem => ?_
    obtain ⟨hfile, heditable⟩ := List.mem_filter.mp hmem
    rw [Function.comp_apply, Function.comp_apply, toOption_readText, toOption_readText, h file hfile heditable]
  obtain ⟨hreadable, htally⟩ := Packing.readable_congr (Index.ofFiles files) hreads
  rw [entriesOf, entriesOf, Packing.entriesOf, Packing.entriesOf, Packing.summaryOf, Packing.summaryOf, hreadable,
    htally]
  exact ⟨rfl, rfl⟩

/-- The project files of a tree. -/
def filesIn (system : System) (tree : Node) (working location : Location) (settings : Settings)
    (rules : List Ignore.Rule) : List ProjectFile :=
  Walk.projectFiles (Ignore.pathOf location)
    ((Walk.mk tree working system.ownRule? ⟨rules, settings.respectGitignore⟩).run (Ignore.pathOf location))

theorem collect_eq (system : System) (hlocate : tree.locate working settings.path = .ok location)
    (hfind : tree.find? location = some (.folder entries refusal)) {rules : List Ignore.Rule}
    (hpatterns : Ignore.exclusions settings.ignorePatterns = .ok rules) :
    let files := filesIn system tree working location settings rules
    collect system tree working settings =
      gather system (entriesOf tree files) (Packing.summaryOf (Index.ofFiles files) (readAll tree files)) := by
  intro files
  have hfolder : tree.hasFolder working settings.path = true := by
    rw [Node.hasFolder, Node.stat_eq hlocate hfind]
    rfl
  simp only [collect, hlocate, hfolder, discover, hpatterns, Except.bind, Packing.outcome_into]
  rfl

/-- Without the standard rules the archive and the summary of a run follow from the project files: from those that
    folders lead to and from what the editable ones hold. They make entries and a summary, and if the archive takes the
    entries, these and the summary are what a run collects. -/
theorem collect_congr (system : System) (hproper : tree.Proper) (hproper' : other.Proper)
    (hlocate : tree.locate working settings.path = .ok location)
    (hlocate' : other.locate working settings.path = .ok location)
    (hfind : tree.find? location = some (.folder entries refusal))
    (hfind' : other.find? location = some (.folder others othersRefusal))
    (hsame : SameProject working location tree other) (hstandard : settings.respectGitignore = false)
    {rules : List Ignore.Rule} (hpatterns : Ignore.exclusions settings.ignorePatterns = .ok rules) :
    ∃ entries summary,
      (system.archiver.Accepts [] entries → gather system entries summary = .ok (entries, summary)) ∧
      collect system tree working settings = gather system entries summary ∧
      collect system other working settings = gather system entries summary ∧
      (run system tree working settings).outcome = (gather system entries summary).bind (fun result =>
        (write system tree working settings result.1).map fun _ => result.2) ∧
      (run system other working settings).outcome = (gather system entries summary).bind fun result =>
        (write system other working settings result.1).map fun _ => result.2 := by
  have hfiles : filesIn system tree working location settings rules =
      filesIn system other working location settings rules :=
    Walk.projectFiles_congr hproper hproper' hfind hfind' rfl hstandard hsame.files
  have hcontents : ∀ file ∈ filesIn system tree working location settings rules, file.isEditable = true →
      (tree.read [] file.path).toOption = (other.read [] file.path).toOption := by
    intro file hmem heditable
    obtain ⟨names, hfile, hfinds⟩ := Walk.exists_of_mem_projectFiles hproper hfind hmem
    exact hsame.contents names file hfile heditable hfinds
  obtain ⟨hentries, hsummary⟩ := packed_congr hcontents
  have hcollect := collect_eq system hlocate hfind hpatterns
  have hcollect' := collect_eq system hlocate' hfind' hpatterns
  dsimp only at hcollect'
  rw [← hfiles, ← hentries, ← hsummary] at hcollect'
  rw [outcome_eq, outcome_eq, hcollect, hcollect']
  exact ⟨_, _, fun haccepts => gather_eq haccepts _, rfl, rfl, rfl, rfl⟩

/-- The project of `sample` with an archive and an empty folder in it. -/
def sampleAgain : Node :=
  .folder (.entry (Utf8.encode "p".toList)
    (.folder (.entry (Utf8.encode "o.zip".toList) (.file [0x50, 0x4b])
      (.entry (Utf8.encode "b.gd".toList) (.file (Utf8.encode "load('./a.gd')".toList))
        (.entry (Utf8.encode "d".toList) .bare (.entry (Utf8.encode "a.gd".toList) (.file [0xff]) .empty)))) none)
    .empty) none

theorem proper_sampleAgain : sampleAgain.Proper :=
  ⟨by decide, rfl, ⟨by decide, rfl, trivial, by decide, rfl, trivial, by decide, rfl, trivial, by decide, rfl, trivial,
    trivial⟩, trivial⟩

theorem findsFile_sample (names : List Bytes) : sample.FindsFile [] [Utf8.encode "p".toList] names ↔
    names ∈ [[Utf8.encode "a.gd".toList], [Utf8.encode "b.gd".toList]] := by
  obtain ⟨hroot, ha, hb⟩ := hasFile_sample
  constructor
  · rintro ⟨hlisted, hfile⟩
    cases names with
    | nil => exact absurd (hroot.symm.trans hfile) Bool.false_ne_true
    | cons name names =>
      obtain ⟨child, hchild, hbelow⟩ := Node.exists_of_listed? hlisted
      simp only [Folder.toList, List.mem_cons, Prod.mk.injEq, List.not_mem_nil, or_false] at hchild
      rcases hchild with ⟨rfl, rfl⟩ | ⟨rfl, rfl⟩ <;> cases names with
      | nil => decide
      | cons => cases hbelow
  · intro hmem
    simp only [List.mem_cons, List.not_mem_nil, or_false] at hmem
    rcases hmem with rfl | rfl
    · exact ⟨rfl, ha⟩
    · exact ⟨rfl, hb⟩

theorem locate_sampleAgain : sampleAgain.locate [] (Utf8.encode "/p".toList) = .ok [Utf8.encode "p".toList] :=
  Node.locate_absolute (by decide) (by decide) (by decide) (by decide) rfl fun _ => Node.noConfusion

/-- The folders of `sampleAgain` are no files. -/
theorem hasFile_sampleAgain :
    sampleAgain.hasFile [] (Utf8.encode "/p".toList) = false ∧
      sampleAgain.hasFile [] (Utf8.encode "/p/d".toList) = false := by
  have hbelow : sampleAgain.locate [] (Utf8.encode "/p/d".toList) =
      .ok [Utf8.encode "p".toList, Utf8.encode "d".toList] :=
    Node.locate_absolute (by decide) (by decide) (by decide) (by decide) rfl fun _ => Node.noConfusion
  rw [Node.hasFile, Node.hasFile, Node.stat_eq locate_sampleAgain rfl, Node.stat_eq hbelow rfl]
  exact ⟨rfl, rfl⟩

theorem findsFile_sampleAgain (names : List Bytes) : sampleAgain.FindsFile [] [Utf8.encode "p".toList] names ↔
    names ∈ [[Utf8.encode "a.gd".toList], [Utf8.encode "b.gd".toList], [Utf8.encode "o.zip".toList]] := by
  constructor
  · rintro ⟨hlisted, hfile⟩
    cases names with
    | nil => exact absurd (hasFile_sampleAgain.1.symm.trans hfile) Bool.false_ne_true
    | cons name names =>
      obtain ⟨child, hchild, hbelow⟩ := Node.exists_of_listed? hlisted
      simp only [Folder.toList, List.mem_cons, Prod.mk.injEq, List.not_mem_nil, or_false] at hchild
      rcases hchild with ⟨rfl, rfl⟩ | ⟨rfl, rfl⟩ | ⟨rfl, rfl⟩ | ⟨rfl, rfl⟩ <;> cases names with
      | nil => first | decide | exact absurd (hasFile_sampleAgain.2.symm.trans hfile) Bool.false_ne_true
      | cons => cases hbelow
  · intro hmem
    simp only [List.mem_cons, List.not_mem_nil, or_false] at hmem
    rcases hmem with rfl | rfl | rfl
    · exact ⟨rfl, Node.hasFile_absolute [Utf8.encode "p".toList, Utf8.encode "a.gd".toList]
        (by decide) (by decide) (by decide) (by decide) rfl⟩
    · exact ⟨rfl, Node.hasFile_absolute [Utf8.encode "p".toList, Utf8.encode "b.gd".toList]
        (by decide) (by decide) (by decide) (by decide) rfl⟩
    · exact ⟨rfl, Node.hasFile_absolute [Utf8.encode "p".toList, Utf8.encode "o.zip".toList]
        (by decide) (by decide) (by decide) (by decide) rfl⟩

theorem read_sampleAgain :
    sampleAgain.read [] (Utf8.encode "/p/a.gd".toList) = .ok [0xff] ∧
      sampleAgain.read [] (Utf8.encode "/p/b.gd".toList) = .ok (Utf8.encode "load('./a.gd')".toList) :=
  ⟨Node.read_absolute [Utf8.encode "p".toList, Utf8.encode "a.gd".toList]
      (by decide) (by decide) (by decide) (by decide) rfl,
   Node.read_absolute [Utf8.encode "p".toList, Utf8.encode "b.gd".toList]
      (by decide) (by decide) (by decide) (by decide) rfl⟩

theorem sameProject_sample : SameProject [] [Utf8.encode "p".toList] sample sampleAgain where
  files names hfile := by
    rw [findsFile_sample, findsFile_sampleAgain]
    simp only [List.mem_cons, List.not_mem_nil, or_false]
    refine ⟨fun h => h.elim Or.inl fun h => Or.inr (Or.inl h), ?_⟩
    rintro (h | h | rfl)
    · exact Or.inl h
    · exact Or.inr h
    · exact absurd hfile (by decide)
  contents names file hfile _ hfinds := by
    rw [Walk.path_of_fileAt? hfile]
    rw [findsFile_sample] at hfinds
    rcases List.mem_cons.mp hfinds with rfl | hfinds
    · exact congrArg Except.toOption (read_sample.1.trans read_sampleAgain.1.symm)
    · rw [List.mem_singleton.mp hfinds]
      exact congrArg Except.toOption (read_sample.2.trans read_sampleAgain.2.symm)

theorem collect_sample : collect sampleSystem sample [] sampleSettings =
    .ok (entriesOf sample sampleFiles, ⟨⟨2, 0, 1, 0, 1⟩, []⟩) := by
  have hlocate : sample.locate [] sampleSettings.path = .ok [Utf8.encode "p".toList] := locate_sample
  have hpacked : (Packing.into sampleSystem.archiver (Index.ofFiles sampleFiles) sampleSettings.verbose []
      (readAll sample sampleFiles)).outcome = _ := outcome_into_sample
  simp only [collect, hlocate, hasFolder_sample, pathOf_sample, discover_sample, Except.bind, hpacked]
  rfl

theorem collect_congr_sample :
    SameProject [] [Utf8.encode "p".toList] sample sampleAgain ∧
    ∃ archive, collect sampleSystem sample [] sampleSettings = .ok (archive, ⟨⟨2, 0, 1, 0, 1⟩, []⟩) ∧
      collect sampleSystem sampleAgain [] sampleSettings = .ok (archive, ⟨⟨2, 0, 1, 0, 1⟩, []⟩) := by
  obtain ⟨entries, summary, -, hcollect, hcollect', -⟩ :=
    collect_congr sampleSystem proper_sample proper_sampleAgain locate_sample locate_sampleAgain rfl rfl
      sameProject_sample (show sampleSettings.respectGitignore = false from rfl)
      (show Ignore.exclusions sampleSettings.ignorePatterns = .ok [] from rfl)
  exact ⟨sameProject_sample, _, collect_sample, (hcollect'.trans hcollect.symm).trans collect_sample⟩

end Run
end Relink
