import Mathlib.Algebra.Ring.Nat
import Relink.Pack
import Relink.Proofs.Target
import Relink.Proofs.Unpacking

/-! # What packing accounts for

Each file that could be read gives the archive one entry and the counts what its repair records; a file that
could not be read counts as given and as skipped, and that is all. So what packing yields follows from the
files that could be read, up to these two counts, and a list may be packed in parts. All this holds as long as the
archive takes the entries; packing ends with the first that it does not take. -/

namespace Relink

/-! ### Adding entries -/

namespace Archiver
variable {archiver : Archiver} {archive whole : Archive} {entries others : List Entry}

/-- Adds entries to an archive, one after another. -/
def addAll (archiver : Archiver) : Archive → List Entry → Except Rejection Archive
  | archive, [] => .ok archive
  | archive, e :: entries => (archiver.add archive e).bind fun archive => archiver.addAll archive entries

theorem addAll_eq_ok_iff :
    archiver.addAll archive entries = .ok whole ↔ archiver.Accepts archive entries ∧ whole = archive ++ entries := by
  induction entries generalizing archive with
  | nil => simp [addAll, Accepts, eq_comm]
  | cons e entries ih =>
    rw [addAll, Accepts, add]
    cases archiver.refuses? archive e with
    | some error => simp [Except.bind]
    | none => simp [Except.bind, ih]

theorem accepts_append : archiver.Accepts archive (entries ++ others) ↔
    archiver.Accepts archive entries ∧ archiver.Accepts (archive ++ entries) others := by
  induction entries generalizing archive with
  | nil => simp [Accepts]
  | cons e entries ih => simp [Accepts, ih, and_assoc]

end Archiver

/-! ### What packing adds and counts -/

namespace Packing
variable {archiver : Archiver} {index : Index} {verbose : Bool} {archive whole : Archive} {summary : Summary}
  {reads others : List (ProjectFile × Except Text Text)}

/-- The files that were read, with their texts. -/
def readable (reads : List (ProjectFile × Except Text Text)) : List (ProjectFile × Text) :=
  reads.filterMap fun read => read.2.toOption.map fun text => (read.1, text)

/-- The entries for the files that were read. -/
def entriesOf (index : Index) (reads : List (ProjectFile × Except Text Text)) : List Entry :=
  (readable reads).map fun file => ⟨file.1.relative, (index.repair file.2).text⟩

/-- The counts over files that were read with these results. -/
def tallyOf (index : Index) (reads : List (ProjectFile × Except Text Text)) : Tally where
  files := reads.length
  skipped := reads.countP (!·.2.isOk)
  changes := ((readable reads).map fun file => (index.repair file.2).changes.length).sum
  warnings := ((readable reads).map fun file => (index.repair file.2).changes.countP Change.isWarning).sum
  modified := (readable reads).countP fun file => (index.repair file.2).text ≠ file.2

/-- What packing files tells in the end. -/
def summaryOf (index : Index) (reads : List (ProjectFile × Except Text Text)) : Summary :=
  ⟨tallyOf index reads, index.ambiguousNames⟩

theorem readable_append (reads others : List (ProjectFile × Except Text Text)) :
    readable (reads ++ others) = readable reads ++ readable others := List.filterMap_append

theorem entriesOf_append (index : Index) (reads others : List (ProjectFile × Except Text Text)) :
    entriesOf index (reads ++ others) = entriesOf index reads ++ entriesOf index others := by
  rw [entriesOf, readable_append, List.map_append]
  rfl

theorem tallyOf_append (index : Index) (reads others : List (ProjectFile × Except Text Text)) :
    tallyOf index (reads ++ others) = (tallyOf index reads).add (tallyOf index others) := by
  simp only [tallyOf, Tally.add, readable_append, List.length_append, List.countP_append, List.map_append,
    List.sum_append]

theorem summaryOf_append (index : Index) (reads others : List (ProjectFile × Except Text Text)) :
    summaryOf index (reads ++ others) =
      { summaryOf index others with tally := (tallyOf index reads).add (summaryOf index others).tally } :=
  congrArg (Summary.mk · index.ambiguousNames) (tallyOf_append index reads others)

theorem tallyOf_text (index : Index) (verbose : Bool) (file : ProjectFile) (text : Text) :
    tallyOf index [(file, .ok text)] = (ofRepaired verbose file text (index.repair text)).tally := by
  have hmodified : (readable [(file, .ok text)]).countP (fun file => (index.repair file.2).text ≠ file.2) =
      if (index.repair text).isModified text then 1 else 0 := by
    show List.countP _ [(file, text)] = _
    rw [List.countP_singleton]
    rfl
  rw [tallyOf, hmodified]
  simp [readable, ofRepaired, Except.toOption, Except.isOk, Except.toBool, List.countP_eq_length_filter]

/-- Packing adds the entries of the files that were read, one after another, and if the archive takes them all, it
    counts over all files. -/
theorem outcome_into (archiver : Archiver) (index : Index) (verbose : Bool) (archive : Archive)
    (reads : List (ProjectFile × Except Text Text)) :
    (into archiver index verbose archive reads).outcome =
      (archiver.addAll archive (entriesOf index reads)).map fun whole => (whole, summaryOf index reads) := by
  induction reads generalizing archive with
  | nil => rfl
  | cons read reads ih =>
    obtain ⟨file, result⟩ := read
    have hsummary := summaryOf_append index [(file, result)] reads
    rw [List.singleton_append] at hsummary
    cases result with
    | error message =>
      have htally : tallyOf index [(file, .error message)] = (ofFailure file message).tally := rfl
      have hentries : entriesOf index ((file, .error message) :: reads) = entriesOf index reads := rfl
      rw [hsummary, htally, hentries, into, Packed.after, ih]
      cases archiver.addAll archive (entriesOf index reads) <;> rfl
    | ok text =>
      have hentries : entriesOf index ((file, .ok text) :: reads) =
          entry file (index.repair text) :: entriesOf index reads := rfl
      rw [hsummary, tallyOf_text index verbose, hentries, into, Archiver.addAll]
      cases archiver.add archive (entry file (index.repair text)) with
      | error rejection => rfl
      | ok more =>
        dsimp only [Packed.after, Except.bind]
        rw [ih]
        cases archiver.addAll more (entriesOf index reads) <;> rfl

theorem outcome_into_eq_ok_iff : (into archiver index verbose archive reads).outcome = .ok (whole, summary) ↔
    archiver.Accepts archive (entriesOf index reads) ∧ whole = archive ++ entriesOf index reads ∧
      summary = summaryOf index reads := by
  rw [outcome_into, ← and_assoc, ← Archiver.addAll_eq_ok_iff]
  cases archiver.addAll archive (entriesOf index reads) <;> simp [Except.map, eq_comm]

/-! ### What has no influence -/

theorem readable_filter_isOk (reads : List (ProjectFile × Except Text Text)) :
    readable (reads.filter (·.2.isOk)) = readable reads := by
  rw [readable, List.filterMap_filter]
  refine List.filterMap_congr fun read _ => ?_
  obtain ⟨file, result⟩ := read
  cases result <;> rfl

/-- Without the files that could not be read, only the counts of files and of skipped ones are others. -/
theorem tallyOf_filter_isOk (index : Index) (reads : List (ProjectFile × Except Text Text)) :
    tallyOf index (reads.filter (·.2.isOk)) =
      { tallyOf index reads with files := (reads.filter (·.2.isOk)).length, skipped := 0 } := by
  have hskipped : (reads.filter (·.2.isOk)).countP (!·.2.isOk) = 0 := by simp
  simp only [tallyOf, readable_filter_isOk, hskipped]

/-- Why a file could not be read has no influence on what is packed and counted. -/
theorem readable_congr (index : Index)
    (h : (reads.map fun read => (read.1, read.2.toOption)) = others.map fun read => (read.1, read.2.toOption)) :
    readable reads = readable others ∧ tallyOf index reads = tallyOf index others := by
  have hreadable : ∀ list : List (ProjectFile × Except Text Text), readable list =
      (list.map fun read => (read.1, read.2.toOption)).filterMap fun read => read.2.map fun text => (read.1, text) :=
    fun list => by rw [List.filterMap_map]; rfl
  have hskipped : ∀ list : List (ProjectFile × Except Text Text), list.countP (!·.2.isOk) =
      (list.map fun read => (read.1, read.2.toOption)).countP (·.2.isNone) := by
    intro list
    rw [List.countP_map]
    refine List.countP_congr fun read _ => ?_
    obtain ⟨file, result⟩ := read
    cases result <;> simp [Except.isOk, Except.toBool, Except.toOption]
  have hlength := congrArg List.length h
  rw [List.length_map, List.length_map] at hlength
  have hsame : readable reads = readable others := by rw [hreadable, h, ← hreadable]
  refine ⟨hsame, ?_⟩
  rw [tallyOf, tallyOf, hsame, hlength, hskipped, h, ← hskipped]

/-! ### What packing accounts for -/

/-- When the archive takes the entries, packing appends one for each file that could be read, in order, and accounts
    for all files. Files that could not be read have no other influence, and a list may be packed in two parts. -/
theorem into_accounts (archiver : Archiver) (index : Index) (verbose : Bool) (archive : Archive)
    (reads : List (ProjectFile × Except Text Text)) (haccepts : archiver.Accepts archive (entriesOf index reads)) :
    let whole := archive ++ entriesOf index reads
    let summary := summaryOf index reads
    (into archiver index verbose archive reads).outcome = .ok (whole, summary) ∧
      (into archiver index verbose archive (reads.filter (·.2.isOk))).outcome = .ok (whole, { summary with
        tally := { summary.tally with files := (reads.filter (·.2.isOk)).length, skipped := 0 } }) ∧
      ∀ others, archiver.Accepts whole (entriesOf index others) → ∃ second,
        (into archiver index verbose whole others).outcome = .ok (whole ++ entriesOf index others, second) ∧
        (into archiver index verbose archive (reads ++ others)).outcome =
          .ok (whole ++ entriesOf index others, { summary with tally := summary.tally.add second.tally }) := by
  intro whole summary
  have hfilter : entriesOf index (reads.filter (·.2.isOk)) = entriesOf index reads := by
    rw [entriesOf, readable_filter_isOk]
    rfl
  refine ⟨outcome_into_eq_ok_iff.mpr ⟨haccepts, rfl, rfl⟩, outcome_into_eq_ok_iff.mpr ⟨?_, ?_, ?_⟩,
    fun others hothers => ?_⟩
  · rwa [hfilter]
  · rw [hfilter]
  · rw [summaryOf, tallyOf_filter_isOk]
    rfl
  · refine ⟨summaryOf index others, outcome_into_eq_ok_iff.mpr ⟨hothers, rfl, rfl⟩,
      outcome_into_eq_ok_iff.mpr ⟨?_, ?_, ?_⟩⟩
    · rw [entriesOf_append, Archiver.accepts_append]
      exact ⟨haccepts, hothers⟩
    · rw [entriesOf_append, ← List.append_assoc]
    · exact (summaryOf_append index reads others).symm

/-- Files of which the second could not be read. -/
def sampleReads : List (ProjectFile × Except Text Text) :=
  ProjectFile.sample.zip [.ok "load('./Q.gd')".toList, .error [], .ok "load('./P.gd')".toList]

theorem entriesOf_sample : entriesOf (Index.ofFiles ProjectFile.sample) sampleReads =
    [⟨"A/P.gd".toList, "load('./Q.gd')".toList⟩, ⟨"B/Q.gd".toList, "load(\x22res://A/P.gd\x22)".toList⟩] := by
  decide +kernel

theorem accepts_sample {first : Archive} :
    Zip.archiver.Accepts first (entriesOf (Index.ofFiles ProjectFile.sample) sampleReads) := by
  rw [entriesOf_sample]
  exact Zip.accepts_archiver (by decide)

theorem into_accounts_sample :
    let index := Index.ofFiles ProjectFile.sample
    Zip.archiver.Accepts [⟨['n'], []⟩] (entriesOf index sampleReads) ∧
    (into Zip.archiver index false [⟨['n'], []⟩] sampleReads).outcome =
      .ok ([⟨['n'], []⟩, ⟨"A/P.gd".toList, "load('./Q.gd')".toList⟩,
        ⟨"B/Q.gd".toList, "load(\x22res://A/P.gd\x22)".toList⟩], ⟨⟨3, 1, 2, 1, 1⟩, ["Q.gd".toList]⟩) := by
  intro index
  have hsummary : summaryOf index sampleReads = ⟨⟨3, 1, 2, 1, 1⟩, ["Q.gd".toList]⟩ := by decide +kernel
  obtain ⟨hpacked, -, -⟩ := into_accounts Zip.archiver index false [⟨['n'], []⟩] sampleReads accepts_sample
  rw [entriesOf_sample, hsummary] at hpacked
  exact ⟨accepts_sample, hpacked⟩

end Packing
end Relink
