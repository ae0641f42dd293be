import Mathlib.Data.List.Basic
import Relink.Proofs.Accounting
import Relink.Proofs.Descending
import Relink.Run

/-! # What a run counts

A run reads the editable files, repairs their texts and packs the results. It counts a file as modified when
the repair changes the text that was read. The packed bytes can differ from those of the file for another
reason: bytes that are not well-formed are read as replacement characters, and these are packed. So the files
that are packed with other bytes are the modified ones and those whose bytes are not well-formed. -/

namespace Relink

/-! ### Well-formed bytes -/

namespace Utf8

/-- Whether bytes are those of a text. -/
def WellFormed (bytes : Bytes) : Prop := encode (decodeLossy bytes) = bytes

instance (bytes : Bytes) : Decidable (WellFormed bytes) := inferInstanceAs (Decidable (_ = _))

theorem wellFormed_iff {bytes : Bytes} : WellFormed bytes ↔ ∃ text, encode text = bytes := by
  refine ⟨fun h => ⟨_, h⟩, ?_⟩
  rintro ⟨text, rfl⟩
  rw [WellFormed, decodeLossy_encode]

/-- A text has the bytes that another one was read from when it is that one and the bytes are well-formed. -/
theorem encode_eq_iff {text : Text} {bytes : Bytes} :
    encode text = bytes ↔ text = decodeLossy bytes ∧ WellFormed bytes := by
  constructor
  · rintro rfl
    exact ⟨(decodeLossy_encode text).symm, wellFormed_iff.mpr ⟨text, rfl⟩⟩
  · rintro ⟨rfl, hwellFormed⟩
    exact hwellFormed

end Utf8

/-! ### A run -/

namespace Run
variable {system : System} {tree written : Node} {working : Location} {settings : Settings} {summary : Summary}
  {archive : Archive}

/-- The editable files that can be read, with what they hold. -/
def contents (tree : Node) (files : List ProjectFile) : List (ProjectFile × Bytes) :=
  (files.filter ProjectFile.isEditable).filterMap fun file =>
    (tree.read [] file.path).toOption.map fun content => (file, content)

/-- The bytes that are packed of what a file holds. -/
def packed (index : Index) (content : Bytes) : Bytes := Utf8.encode (index.repair (Utf8.decodeLossy content)).text

theorem packed_eq_iff {index : Index} {content : Bytes} : packed index content = content ↔
    (index.repair (Utf8.decodeLossy content)).text = Utf8.decodeLossy content ∧ Utf8.WellFormed content :=
  Utf8.encode_eq_iff

theorem readable_readAll (tree : Node) (files : List ProjectFile) :
    Packing.readable (readAll tree files) =
      (contents tree files).map fun file => (file.1, Utf8.decodeLossy file.2) := by
  rw [Packing.readable, readAll, contents, List.filterMap_map, List.map_filterMap]
  refine List.filterMap_congr fun file _ => ?_
  rw [Function.comp_apply, readText]
  cases tree.read [] file.path <;> rfl

/-- The entries that a run hands to the archive. -/
def entriesOf (tree : Node) (files : List ProjectFile) : List Entry :=
  Packing.entriesOf (Index.ofFiles files) (readAll tree files)

theorem map_entriesOf (tree : Node) (files : List ProjectFile) :
    (entriesOf tree files).map (fun entry => (entry.name, Utf8.encode entry.content)) =
      (contents tree files).map fun file => (file.1.relative, packed (Index.ofFiles files) file.2) := by
  simp only [entriesOf, Packing.entriesOf, readable_readAll, List.map_map]
  rfl

theorem write_eq_ok_iff : write system tree working settings archive = .ok written ↔ ∃ file,
    system.archiver.finish archive = .ok file ∧
      tree.write system.refusesWrite? working settings.output file = .ok written := by
  rw [write]
  cases system.archiver.finish archive with
  | error error => simp
  | ok file =>
    simp only [Except.ok.injEq, exists_eq_left']
    cases tree.write system.refusesWrite? working settings.output file <;> simp

/-- What becomes of the files that a run has discovered: it fails and leaves the tree, or the archive takes all
    entries and is written. -/
theorem deliver_cases (system : System) (tree : Node) (working : Location) (settings : Settings)
    (files : List ProjectFile) (complaints : List Text) :
    let report := deliver system tree working settings files complaints
    (∃ failure, report.outcome = .error failure ∧ report.tree = tree) ∨
      system.archiver.Accepts [] (entriesOf tree files) ∧
      write system tree working settings (entriesOf tree files) = .ok report.tree ∧
      report.outcome = .ok (Packing.summaryOf (Index.ofFiles files) (readAll tree files)) := by
  intro report
  cases hpacked : (Packing.into system.archiver (Index.ofFiles files) settings.verbose []
      (readAll tree files)).outcome with
  | error rejection =>
    refine Or.inl ⟨.badEntry rejection, ?_, ?_⟩ <;> simp only [report, deliver, hpacked]
  | ok packed =>
    obtain ⟨archive, summary⟩ := packed
    obtain ⟨haccepts, rfl, rfl⟩ := Packing.outcome_into_eq_ok_iff.mp hpacked
    cases hwrite : write system tree working settings
        ([] ++ Packing.entriesOf (Index.ofFiles files) (readAll tree files)) with
    | error failure =>
      refine Or.inl ⟨failure, ?_, ?_⟩ <;> simp only [report, deliver, hpacked, hwrite]
    | ok written =>
      refine Or.inr ⟨haccepts, hwrite.trans ?_, ?_⟩ <;> simp only [report, deliver, hpacked, hwrite]

/-- What a run does: it fails and leaves the tree, or it discovers files and writes an archive with all their
    entries. -/
theorem run_cases (system : System) (tree : Node) (working : Location) (settings : Settings) :
    let report := run system tree working settings
    (∃ failure, report.outcome = .error failure ∧ report.tree = tree) ∨
    ∃ location files complaints, tree.locate working settings.path = .ok location ∧
      discover system tree working settings (Ignore.pathOf location) = .ok (files, complaints) ∧
      system.archiver.Accepts [] (entriesOf tree files) ∧
      write system tree working settings (entriesOf tree files) = .ok report.tree ∧
      report.outcome = .ok (Packing.summaryOf (Index.ofFiles files) (readAll tree files)) := by
  intro report
  have hfailed : ∀ failure, report = ⟨.error failure, [], [], tree⟩ →
      ∃ failure, report.outcome = .error failure ∧ report.tree = tree :=
    fun failure h => ⟨failure, congrArg Report.outcome h, congrArg Report.tree h⟩
  cases hlocate : tree.locate working settings.path with
  | error error => exact Or.inl (hfailed (.missingRoot settings.path) (by simp only [report, run, hlocate]))
  | ok location =>
    cases hfolder : tree.hasFolder working settings.path with
    | false => exact Or.inl (hfailed (.missingRoot settings.path) (by simp only [report, run, hlocate, hfolder]))
    | true =>
      cases hdiscover : discover system tree working settings (Ignore.pathOf location) with
      | error failure => exact Or.inl (hfailed failure (by simp only [report, run, hlocate, hfolder, hdiscover]))
      | ok discovered =>
        obtain ⟨files, complaints⟩ := discovered
        have hreport : report = deliver system tree working settings files complaints := by
          simp only [report, run, hlocate, hfolder, hdiscover]
        rw [hreport]
        refine (deliver_cases system tree working settings files complaints).imp_right fun hdelivered => ?_
        exact ⟨location, files, complaints, rfl, hdiscover, hdelivered⟩

/-- What a run has done that succeeded. -/
theorem exists_of_outcome (h : (run system tree working settings).outcome = .ok summary) :
    ∃ location files complaints, tree.locate working settings.path = .ok location ∧
      discover system tree working settings (Ignore.pathOf location) = .ok (files, complaints) ∧
      system.archiver.Accepts [] (entriesOf tree files) ∧
      write system tree working settings (entriesOf tree files) = .ok (run system tree working settings).tree ∧
      summary = Packing.summaryOf (Index.ofFiles files) (readAll tree files) := by
  rcases run_cases system tree working settings with ⟨failure, houtcome, -⟩ |
    ⟨location, files, complaints, hlocate, hdiscover, haccepts, hwrite, houtcome⟩
  · cases houtcome.symm.trans h
  · exact ⟨location, files, complaints, hlocate, hdiscover, haccepts, hwrite, Except.ok.inj (h.symm.trans houtcome)⟩

/-! ### A run of a sample -/

/-- A project in `/p` with a script whose bytes are not well-formed and one with a reference to it. -/
def sample : Node :=
  .folder (.entry (Utf8.encode "p".toList)
    (.folder (.entry (Utf8.encode "a.gd".toList) (.file [0xff])
      (.entry (Utf8.encode "b.gd".toList) (.file (Utf8.encode "load('./a.gd')".toList)) .empty)) none) .empty) none

/-- The files of `sample`. -/
def sampleFiles : List ProjectFile :=
  [⟨Utf8.encode "/p/a.gd".toList, "a.gd".toList, "gd".toList⟩,
   ⟨Utf8.encode "/p/b.gd".toList, "b.gd".toList, "gd".toList⟩]

/-- Settings for `sample`. -/
def sampleSettings : Settings :=
  ⟨Utf8.encode "/p".toList, Utf8.encode "/o.zip".toList, [], false, false, 10⟩

/-- A system that makes zip files and refuses to write none of them. -/
def sampleSystem : System := ⟨Zip.archiver, fun _ _ => none, fun _ _ => none⟩

theorem locate_sample : sample.locate [] (Utf8.encode "/p".toList) = .ok [Utf8.encode "p".toList] :=
  Node.locate_absolute (by decide) (by decide) (by decide) (by decide) rfl fun _ => Node.noConfusion

theorem hasFolder_sample : sample.hasFolder [] sampleSettings.path = true := by
  have hlocate : sample.locate [] sampleSettings.path = .ok [Utf8.encode "p".toList] := locate_sample
  rw [Node.hasFolder, Node.stat_eq hlocate rfl]
  rfl

theorem pathOf_sample : Ignore.pathOf [Utf8.encode "p".toList] = Utf8.encode "/p".toList := by decide

theorem read_sample :
    sample.read [] (Utf8.encode "/p/a.gd".toList) = .ok [0xff] ∧
      sample.read [] (Utf8.encode "/p/b.gd".toList) = .ok (Utf8.encode "load('./a.gd')".toList) :=
  ⟨Node.read_absolute [Utf8.encode "p".toList, Utf8.encode "a.gd".toList]
      (by decide) (by decide) (by decide) (by decide) rfl,
   Node.read_absolute [Utf8.encode "p".toList, Utf8.encode "b.gd".toList]
      (by decide) (by decide) (by decide) (by decide) rfl⟩

theorem hasFile_sample :
    let root := Utf8.encode "/p".toList
    sample.hasFile [] (Walk.pathOf root []) = false ∧
      sample.hasFile [] (Walk.pathOf root [Utf8.encode "a.gd".toList]) = true ∧
      sample.hasFile [] (Walk.pathOf root [Utf8.encode "b.gd".toList]) = true := by
  refine ⟨?_, Node.hasFile_absolute [Utf8.encode "p".toList, Utf8.encode "a.gd".toList]
      (by decide) (by decide) (by decide) (by decide) rfl,
    Node.hasFile_absolute [Utf8.encode "p".toList, Utf8.encode "b.gd".toList]
      (by decide) (by decide) (by decide) (by decide) rfl⟩
  have hstat : sample.stat [] (Utf8.encode "/p".toList) = .ok _ := Node.stat_eq locate_sample rfl
  show sample.hasFile [] (Utf8.encode "/p".toList) = false
  rw [Node.hasFile, hstat]
  rfl

/-- What a walk comes to in `sample` that leaves the standard rules aside. -/
theorem walk_sample (ownRule? : Location → Bool → Option Decision) {filter : Filter}
    (hstandard : filter.standard = false) :
    let root := Utf8.encode "/p".toList
    (Walk.mk sample [] ownRule? filter).run root =
      ⟨([[Utf8.encode "a.gd".toList], [Utf8.encode "b.gd".toList]].filter fun names =>
        !filter.skips ⟨root, [Utf8.encode "p".toList], [], ownRule?⟩ names false).map (Walk.pathOf root), []⟩ := by
  intro root
  let walk : Walk := ⟨sample, [], ownRule?, filter⟩
  let scope : Scope := ⟨root, [Utf8.encode "p".toList], [], ownRule?⟩
  obtain ⟨node, hfind⟩ : ∃ node, sample.find? [Utf8.encode "p".toList] = some node := ⟨_, rfl⟩
  have hscope : walk.scopeAt root [Utf8.encode "p".toList] node = scope := by
    simp only [Walk.scopeAt, walk, hstandard, Bool.false_and]
    rfl
  have henter : walk.enter scope [] = scope := by
    simp only [Walk.enter, walk, hstandard]
    rfl
  have hclosed : walk.closed? root none = none :=
    Walk.closed?_eq_none_iff.mpr ⟨⟨node, Node.stat_eq locate_sample hfind⟩, rfl⟩
  obtain ⟨hroot, ha, hb⟩ : walk.tree.hasFile walk.working (Walk.pathOf scope.path []) = false ∧
    walk.tree.hasFile walk.working (Walk.pathOf scope.path [Utf8.encode "a.gd".toList]) = true ∧
    walk.tree.hasFile walk.working (Walk.pathOf scope.path [Utf8.encode "b.gd".toList]) = true := hasFile_sample
  have hvisit : walk.visit scope [] node = .ok [] ::
      ((if filter.skips scope [Utf8.encode "a.gd".toList] false then [] else [.ok [Utf8.encode "a.gd".toList]]) ++
      ((if filter.skips scope [Utf8.encode "b.gd".toList] false then [] else [.ok [Utf8.encode "b.gd".toList]]) ++
      [])) := by
    have hpath : Walk.pathOf scope.path [] = root := rfl
    cases hfind
    rw [Walk.visit, hpath, hclosed, henter]
    rfl
  have hrun : walk.run root = ⟨(walk.below scope node).map (Walk.pathOf root),
      (Walk.faultsOf (walk.visit scope [] node)).map Walk.complaint⟩ := by
    rw [Walk.run_eq locate_sample hfind, Walk.runAt, hscope]
    rfl
  show walk.run root = ⟨List.map _ (List.filter (fun names => !filter.skips scope names false) _), []⟩
  rw [hrun, Walk.below, Walk.filesOf, hvisit]
  simp only [List.filter_cons, List.filter_nil]
  cases filter.skips scope [Utf8.encode "a.gd".toList] false <;>
    cases filter.skips scope [Utf8.encode "b.gd".toList] false <;>
    simp only [Bool.false_eq_true, ↓reduceIte, List.nil_append, List.append_nil, List.cons_append, Walk.entriesOf,
      Except.toOption, List.filterMap_cons, List.filterMap_nil, List.filter_cons, List.filter_nil, hroot, ha, hb] <;>
    rfl

theorem discover_sample :
    discover sampleSystem sample [] sampleSettings (Utf8.encode "/p".toList) = .ok (sampleFiles, []) := by
  have hexclusions : Ignore.exclusions sampleSettings.ignorePatterns = .ok [] := rfl
  have hstandard : sampleSettings.respectGitignore = false := rfl
  simp only [discover, hexclusions, hstandard, walk_sample]
  rfl

theorem contents_sample : contents sample sampleFiles =
    [(sampleFiles[0], ([0xff] : Bytes)), (sampleFiles[1], Utf8.encode "load('./a.gd')".toList)] := by
  have heditable : sampleFiles.filter ProjectFile.isEditable = sampleFiles := by decide
  rw [contents, heditable]
  simp only [sampleFiles, List.filterMap_cons, List.filterMap_nil, read_sample.1, read_sample.2]
  rfl

theorem readAll_sample : readAll sample sampleFiles =
    [(sampleFiles[0], .ok ['\ufffd']), (sampleFiles[1], .ok "load('./a.gd')".toList)] := by
  have heditable : sampleFiles.filter ProjectFile.isEditable = sampleFiles := by decide
  rw [readAll, heditable]
  simp only [sampleFiles, List.map_cons, List.map_nil, readText, read_sample.1, read_sample.2]
  decide +kernel

theorem entriesOf_sample : entriesOf sample sampleFiles =
    [⟨"a.gd".toList, ['\ufffd']⟩, ⟨"b.gd".toList, "load(\x22res://a.gd\x22)".toList⟩] := by
  rw [entriesOf, readAll_sample]
  decide +kernel

theorem summaryOf_sample :
    Packing.summaryOf (Index.ofFiles sampleFiles) (readAll sample sampleFiles) = ⟨⟨2, 0, 1, 0, 1⟩, []⟩ := by
  rw [readAll_sample]
  decide +kernel

theorem outcome_into_sample :
    (Packing.into Zip.archiver (Index.ofFiles sampleFiles) false [] (readAll sample sampleFiles)).outcome =
      .ok (entriesOf sample sampleFiles, ⟨⟨2, 0, 1, 0, 1⟩, []⟩) := by
  refine Packing.outcome_into_eq_ok_iff.mpr ⟨Zip.accepts_archiver ?_, rfl, summaryOf_sample.symm⟩
  rw [← entriesOf, entriesOf_sample]
  decide

theorem outcome_sample : (run sampleSystem sample [] sampleSettings).outcome = .ok ⟨⟨2, 0, 1, 0, 1⟩, []⟩ := by
  have hlocate : sample.locate [] sampleSettings.path = .ok [Utf8.encode "p".toList] := locate_sample
  have hdestination : sample.destination [] sampleSettings.output = .ok ([] ++ [Utf8.encode "o.zip".toList]) :=
    Node.destination_absolute (by decide) (by decide) (by decide) (by decide) (by decide) rfl rfl
  have hfinish : sampleSystem.archiver.finish (entriesOf sample sampleFiles) =
      .ok (Zip.encode (entriesOf sample sampleFiles)) := by
    have hfits : Zip.finish (entriesOf sample sampleFiles) = .ok (Zip.encode (entriesOf sample sampleFiles)) := by
      rw [entriesOf_sample, Zip.finish, if_pos (by decide +kernel)]
    exact hfits
  have hwrite : sample.write sampleSystem.refusesWrite? [] sampleSettings.output
      (Zip.encode (entriesOf sample sampleFiles)) = .ok (sample.put ([] ++ [Utf8.encode "o.zip".toList])
        (.file (Zip.encode (entriesOf sample sampleFiles)))) := by
    rw [Node.write, hdestination]
    rfl
  have hwritten := write_eq_ok_iff.mpr ⟨_, hfinish, hwrite⟩
  have hpacked : (Packing.into sampleSystem.archiver (Index.ofFiles sampleFiles) sampleSettings.verbose []
      (readAll sample sampleFiles)).outcome = _ := outcome_into_sample
  simp only [run, hlocate, hasFolder_sample, pathOf_sample, discover_sample, deliver, hpacked, hwritten]

/-! ### The counts of a run -/

/-- The files of a run that are packed with other bytes than they hold are those that it counts as modified and
    those of the others whose bytes are not well-formed. -/
theorem run_counts (h : (run system tree working settings).outcome = .ok summary) :
    ∃ location files complaints, tree.locate working settings.path = .ok location ∧
      discover system tree working settings (Ignore.pathOf location) = .ok (files, complaints) ∧
      (∃ archive file, system.archiver.finish archive = .ok file ∧
        tree.write system.refusesWrite? working settings.output file = .ok (run system tree working settings).tree ∧
        archive.map (fun entry => (entry.name, Utf8.encode entry.content)) =
          (contents tree files).map fun file => (file.1.relative, packed (Index.ofFiles files) file.2)) ∧
      ((contents tree files).countP fun file => packed (Index.ofFiles files) file.2 ≠ file.2) =
        summary.tally.modified + (contents tree files).countP fun file =>
          ¬ Utf8.WellFormed file.2 ∧
            ((Index.ofFiles files).repair (Utf8.decodeLossy file.2)).text = Utf8.decodeLossy file.2 := by
  obtain ⟨location, files, complaints, hlocate, hdiscover, -, hwrite, rfl⟩ := exists_of_outcome h
  obtain ⟨file, hfinish, hwritten⟩ := write_eq_ok_iff.mp hwrite
  refine ⟨location, files, complaints, hlocate, hdiscover,
    ⟨entriesOf tree files, file, hfinish, hwritten, map_entriesOf tree files⟩, ?_⟩
  have hmodified : (Packing.summaryOf (Index.ofFiles files) (readAll tree files)).tally.modified =
      (contents tree files).countP fun file =>
        ((Index.ofFiles files).repair (Utf8.decodeLossy file.2)).text ≠ Utf8.decodeLossy file.2 := by
    simp only [Packing.summaryOf, Packing.tallyOf, readable_readAll, List.countP_map]
    rfl
  rw [hmodified, List.countP_eq_countP_filter_add _ _ fun file =>
    ((Index.ofFiles files).repair (Utf8.decodeLossy file.2)).text ≠ Utf8.decodeLossy file.2,
    List.countP_filter, List.countP_filter]
  refine congrArg₂ (· + ·) ?_ ?_
  · refine List.countP_congr fun file _ => ?_
    rw [Bool.and_eq_true, decide_eq_true_iff, decide_eq_true_iff, Ne, packed_eq_iff]
    exact ⟨And.right, fun hchanged => ⟨fun hsame => hchanged hsame.1, hchanged⟩⟩
  · refine List.countP_congr fun file _ => ?_
    simp only [Bool.and_eq_true, decide_eq_true_iff, Bool.not_eq_true', decide_eq_false_iff_not, not_not, Ne,
      packed_eq_iff]
    constructor
    · rintro ⟨hother, hsame⟩
      exact ⟨fun hwellFormed => hother ⟨hsame, hwellFormed⟩, hsame⟩
    · rintro ⟨hill, hsame⟩
      exact ⟨fun hwellFormed => hill hwellFormed.2, hsame⟩

theorem run_counts_sample :
    (run sampleSystem sample [] sampleSettings).outcome = .ok ⟨⟨2, 0, 1, 0, 1⟩, []⟩ ∧
    ((contents sample sampleFiles).countP fun file => packed (Index.ofFiles sampleFiles) file.2 ≠ file.2) = 2 := by
  obtain ⟨location, files, complaints, hlocate, hdiscover, -, hcount⟩ := run_counts outcome_sample
  have hlocation : [Utf8.encode "p".toList] = location := Except.ok.inj (locate_sample.symm.trans hlocate)
  rw [← hlocation] at hdiscover
  have hfiles : (sampleFiles, []) = (files, complaints) := Except.ok.inj (discover_sample.symm.trans hdiscover)
  obtain ⟨rfl, -⟩ := Prod.mk.inj hfiles
  have hill : ((contents sample sampleFiles).countP fun file => ¬ Utf8.WellFormed file.2 ∧
      ((Index.ofFiles sampleFiles).repair (Utf8.decodeLossy file.2)).text = Utf8.decodeLossy file.2) = 1 := by
    rw [contents_sample]
    decide +kernel
  rw [hill] at hcount
  exact ⟨outcome_sample, hcount⟩

end Run
end Relink
