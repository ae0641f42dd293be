import Relink.Proofs.Naming
import Relink.Proofs.Target

/-! # Extensions of files and of names

Whether a file is indexable is decided by the extension of its path, in bytes and before anything is decoded. Whether
an attribute is looked up is decided by the end of the last name of its path, which is a text. For the files of a
project both come to the same. So a name without an indexable extension leads nowhere, and to look up every attribute
would make no difference. -/

namespace Relink

/-! ### The last name of a file -/

namespace Path
variable {name extension : Bytes}

theorem nameExtension?_eq_some (h : nameExtension? name = some extension) :
    ∃ stem, name = stem ++ dot :: extension ∧ dot ∉ extension := by
  have hdot := ProjectFile.dot_mem_of_nameExtension? h
  rw [nameExtension?] at h
  split at h
  · cases h
    obtain ⟨after, before, hsplit, hafter⟩ := List.eq_append_cons_of_mem (List.mem_reverse.mpr hdot)
    have hfree : ∀ b ∈ after, decide (b ≠ dot) = true :=
      fun b hb => decide_eq_true fun he => hafter (he ▸ hb)
    have htake : name.reverse.takeWhile (· ≠ dot) = after := by
      rw [hsplit, List.takeWhile_append_of_pos hfree, List.takeWhile_cons_of_neg (by simp), List.append_nil]
    refine ⟨before.reverse, ?_, ?_⟩
    · rw [htake, ← List.reverse_reverse name, hsplit]
      simp
    · rwa [htake, List.mem_reverse]
  · cases h

/-- The dot before the extension is shown, and it is the last one that is. -/
theorem decodeLossy_nameExtension? (h : nameExtension? name = some extension) : ∃ stem : Text,
    Utf8.decodeLossy name = stem ++ '.' :: Utf8.decodeLossy extension ∧ '.' ∉ Utf8.decodeLossy extension := by
  obtain ⟨stem, rfl, hdot⟩ := nameExtension?_eq_some h
  refine ⟨_, Utf8.decodeLossy_append_ascii stem (show dot.toNat < 0x80 by decide) extension, fun hmem => ?_⟩
  obtain ⟨b, hb, hshown⟩ := Utf8.exists_of_mem_decodeLossy hmem (by decide) (by decide)
  have he : b = dot := UInt8.toNat_inj.mp hshown
  exact hdot (he ▸ hb)

end Path

namespace Resource

/-- What follows the last slash of a path is its last name. -/
theorem basename_append {front name : Text} (hfront : front = [] ∨ ∃ above, front = above ++ ['/']) (hne : name ≠ [])
    (hslash : '/' ∉ name) : basename (front ++ name) = name := by
  have hfree : ∀ c ∈ name.reverse, decide (c ≠ '/') = true :=
    fun c hc => decide_eq_true fun he => hslash (he ▸ List.mem_reverse.mp hc)
  obtain ⟨c, rest, hrest⟩ := List.exists_cons_of_ne_nil (mt List.reverse_eq_nil_iff.mp hne)
  have hdrop : (front ++ name).reverse.dropWhile (· = '/') = name.reverse ++ front.reverse := by
    have hc := hfree c (hrest ▸ List.mem_cons_self)
    rw [List.reverse_append, hrest, List.cons_append, List.dropWhile_cons_of_neg (by simpa using hc)]
  have hstop : front.reverse.takeWhile (· ≠ '/') = [] := by
    rcases hfront with rfl | ⟨above, rfl⟩
    · rfl
    · simp
  rw [basename, hdrop, List.takeWhile_append_of_pos hfree, hstop, List.append_nil, List.reverse_reverse]

/-- A name with a dot ends in an indexable extension when this is what follows its last dot. -/
theorem hasIndexableExtension_iff {stem extension : Text} (h : '.' ∉ extension) :
    hasIndexableExtension (stem ++ '.' :: extension) = indexable.contains extension := by
  have hsuffix : ∀ wanted ∈ indexable, ('.' :: wanted).isSuffixOf (stem ++ '.' :: extension) = (wanted == extension) := by
    intro wanted hmem
    have hwanted : '.' ∉ wanted := by
      revert wanted
      decide
    rw [Bool.eq_iff_iff, List.isSuffixOf_iff_suffix, beq_iff_eq]
    constructor
    · rintro ⟨before, he⟩
      obtain ⟨-, -, hsame⟩ := Reference.append_cons_inj_right (p := (· == '.'))
        (fun c hc => beq_false_of_ne fun he => hwanted (he ▸ hc)) (fun c hc => beq_false_of_ne fun he => h (he ▸ hc))
        (beq_self_eq_true _) (beq_self_eq_true _) he
      exact hsame
    · rintro rfl
      exact List.suffix_append _ _
  rw [hasIndexableExtension, Bool.eq_iff_iff, List.any_eq_true, List.contains_iff_mem]
  constructor
  · rintro ⟨wanted, hmem, hend⟩
    rw [hsuffix wanted hmem, beq_iff_eq] at hend
    exact hend ▸ hmem
  · intro hmem
    exact ⟨extension, hmem, by rw [hsuffix extension hmem, beq_self_eq_true]⟩

end Resource

namespace ProjectFile
variable {root : Bytes} {file : ProjectFile}

theorem display_append (folders : List Path.Component) (name : Bytes) : ∃ front,
    display (folders ++ [.name name]) = front ++ Utf8.decodeLossy name ∧ (front = [] ∨ ∃ above, front = above ++ ['/']) := by
  by_cases hnil : folders = []
  · subst hnil
    exact ⟨[], rfl, Or.inl rfl⟩
  · refine ⟨display folders ++ ['/'], ?_, Or.inr ⟨_, rfl⟩⟩
    rw [display, List.map_append, List.map_singleton,
      joinWith_append (mt List.map_eq_nil_iff.mp hnil) (List.cons_ne_nil _ _)]
    rfl

/-- The last name of a file is what its last component shows. -/
theorem exists_basename (h : file.IsBelow root) : ∃ name extension, file.basename = Utf8.decodeLossy name ∧
    '/' ∉ file.basename ∧ Path.nameExtension? name = some extension ∧ file.extension = Utf8.decodeLossy extension := by
  obtain ⟨folders, name, extension, hrelative, hmem, hextension, hfile⟩ := exists_name h
  obtain ⟨front, hdisplay, hfront⟩ := display_append folders name
  have hshown := Path.shown_piece (Path.isPlain_of_mem_components hmem) nofun
  have hbasename : file.basename = Utf8.decodeLossy name := by
    rw [basename, hrelative, hdisplay]
    exact Resource.basename_append hfront hshown.1 hshown.2
  exact ⟨name, extension, hbasename, hbasename ▸ hshown.2, hextension, hfile⟩

theorem hasIndexableExtension_basename (h : file.IsBelow root) :
    Resource.hasIndexableExtension file.basename = file.isIndexable := by
  obtain ⟨name, extension, hbasename, -, hextension, hfile⟩ := exists_basename h
  obtain ⟨stem, hname, hdot⟩ := Path.decodeLossy_nameExtension? hextension
  rw [hbasename, hname, Resource.hasIndexableExtension_iff hdot, isIndexable, hfile]

end ProjectFile

/-! ### Repair by another judgment -/

namespace Index
variable {index : Index} {files : List ProjectFile} {name : Text}

/-- What becomes of a reference when its name is looked up in any case. -/
def lookUp (index : Index) (reference : Reference) : Verdict :=
  match index.resolve reference.name with
  | .unique target => if reference.leadsTo target then .keep else .redirect target
  | .ambiguous candidates => .flag candidates
  | .notFound => .keep

/-- The text of a segment after the repair of its reference, when `judge` tells what becomes of it. -/
def replacementBy (judge : Reference → Verdict) : Segment → Text
  | .plain c => [c]
  | .found reference source =>
    match judge reference with
    | .redirect target => reference.redirected target
    | _ => source

/-- The record made of a segment, when `judge` tells what becomes of its reference. -/
def changeBy? (judge : Reference → Verdict) (segment : Segment) : Option Change := do
  let reference ← segment.reference?
  let outcome ← (judge reference).outcome?
  return ⟨reference.kind, reference.path, outcome⟩

/-- Repairs the references of one form as `judge` tells. -/
def repairFormBy (judge : Reference → Verdict) (form : Reference.Form) (text : Text) : Repaired :=
  let segments := Segment.cut form text
  ⟨segments.flatMap (replacementBy judge), segments.filterMap (changeBy? judge)⟩

/-- Repairs a text as `judge` tells. -/
def repairBy (judge : Reference → Verdict) (text : Text) : Repaired :=
  let (moved, relocations) := Relocation.applyAll Relocation.table text
  let loads := repairFormBy judge .load moved
  let relativeLoads := repairFormBy judge .relativeLoad loads.text
  let extResources := repairFormBy judge .extResource relativeLoads.text
  ⟨extResources.text, relocations ++ loads.changes ++ relativeLoads.changes ++ extResources.changes⟩

/-- The repair of an index is that by its verdicts. -/
theorem repairBy_verdict (index : Index) (text : Text) : repairBy index.verdict text = index.repair text := by
  have hreplacement : replacementBy index.verdict = index.replacement := by
    funext segment
    cases segment <;> rfl
  have hform : ∀ form t, repairFormBy index.verdict form t = index.repairForm form t := fun form t => by
    rw [repairFormBy, hreplacement]
    rfl
  simp only [repairBy, repair, hform]

/-- When only names with an indexable extension lead anywhere, it makes no difference to look up the others. -/
theorem lookUp_eq_verdict (h : ∀ name, index.resolve name ≠ .notFound → Resource.hasIndexableExtension name = true) :
    index.lookUp = index.verdict := by
  funext reference
  by_cases hconsidered : considers reference = true
  · rw [verdict, if_pos hconsidered]
    rfl
  · have hnone : index.resolve reference.name = .notFound := by
      by_contra hfound
      cases reference with
      | extResource path => exact hconsidered (h _ hfound)
      | load => exact hconsidered rfl
      | relativeLoad => exact hconsidered rfl
    rw [lookUp, hnone, verdict, if_neg hconsidered]

/-! ### The index of a project -/

theorem exists_of_resolve_ne (h : (ofFiles files).resolve name ≠ .notFound) :
    ∃ file ∈ files, file.isIndexable = true ∧ Resource.basename file.canonical = name := by
  rw [ofFiles, resolve_eq_ofRanked, Ne, Resolution.ofRanked_eq_notFound_iff] at h
  obtain ⟨path, hmem⟩ := List.exists_mem_of_ne_nil _ h
  have hcandidate := (ranked_perm _ _).mem_iff.mp hmem
  simp only [candidates, List.mem_filter, List.mem_map, decide_eq_true_eq] at hcandidate
  obtain ⟨⟨file, ⟨hfile, hindexable⟩, rfl⟩, hname⟩ := hcandidate
  exact ⟨file, hfile, hindexable, hname⟩

theorem hasIndexableExtension_of_resolve (hfiles : ∀ file ∈ files, ∃ root, file.IsBelow root)
    (h : (ofFiles files).resolve name ≠ .notFound) : Resource.hasIndexableExtension name = true := by
  obtain ⟨file, hfile, hindexable, rfl⟩ := exists_of_resolve_ne h
  obtain ⟨root, hbelow⟩ := hfiles file hfile
  rw [ProjectFile.basename_canonical hbelow, ProjectFile.hasIndexableExtension_basename hbelow, hindexable]

/-- The last name of a file below a root is that of its resource path. It is a name without slashes, and it has an
    indexable extension when the file is indexable. So only such names lead anywhere in the index of a project, and
    to look up the attributes with other names too makes no difference to any text. -/
theorem extensions_agree :
    (∀ root path file, ProjectFile.ofPath? root path = some file → Path.below? root path ≠ some [] →
      file.basename = Resource.basename file.canonical ∧ '/' ∉ file.basename ∧
        (Resource.hasIndexableExtension file.basename = true ↔ file.isIndexable = true)) ∧
    ∀ files : List ProjectFile, (∀ file ∈ files, ∃ root, file.IsBelow root) →
      (∀ name, (ofFiles files).resolve name ≠ .notFound → Resource.hasIndexableExtension name = true) ∧
        ∀ text, repairBy (ofFiles files).lookUp text = (ofFiles files).repair text := by
  refine ⟨fun root path file hfile hbelow => ?_, fun files hfiles => ?_⟩
  · have hpath : file.path = path := by
      obtain ⟨components, extension, -, -, rfl⟩ := ProjectFile.ofPath?_eq_some_iff.mp hfile
      rfl
    have hisBelow : file.IsBelow root := by
      rw [ProjectFile.IsBelow, hpath]
      exact ⟨hfile, hbelow⟩
    obtain ⟨name, extension, -, hslash, -⟩ := ProjectFile.exists_basename hisBelow
    rw [ProjectFile.hasIndexableExtension_basename hisBelow]
    exact ⟨(ProjectFile.basename_canonical hisBelow).symm, hslash, Iff.rfl⟩
  · have hnames : ∀ name, (ofFiles files).resolve name ≠ .notFound → Resource.hasIndexableExtension name = true :=
      fun _ => hasIndexableExtension_of_resolve hfiles
    refine ⟨hnames, fun text => ?_⟩
    rw [lookUp_eq_verdict hnames, repairBy_verdict]

theorem extensions_agree_sample :
    (∃ file, ProjectFile.ofPath? (Utf8.encode "/p".toList) (Utf8.encode "/p/".toList ++ 0xff :: Utf8.encode "..gd".toList) =
        some file ∧ file.isIndexable = true ∧ Resource.hasIndexableExtension file.basename = true) ∧
    (∀ file ∈ ProjectFile.sample, file.IsBelow (Utf8.encode "/p".toList)) ∧
    Resource.hasIndexableExtension "Q.gd".toList = true ∧
    (repairBy (ofFiles ProjectFile.sample).lookUp "path='res://P.gd' path='res://P'".toList).text =
      "path=\x22res://A/P.gd\x22 path='res://P'".toList := by
  obtain ⟨hfile, hindex⟩ := extensions_agree
  have hbelow : ∀ file ∈ ProjectFile.sample, file.IsBelow (Utf8.encode "/p".toList) := by decide
  obtain ⟨hnames, hrepair⟩ := hindex ProjectFile.sample fun file hmem => ⟨_, hbelow file hmem⟩
  have hodd : ProjectFile.ofPath? (Utf8.encode "/p".toList)
      (Utf8.encode "/p/".toList ++ 0xff :: Utf8.encode "..gd".toList) = some
        ⟨Utf8.encode "/p/".toList ++ 0xff :: Utf8.encode "..gd".toList, "\ufffd..gd".toList, "gd".toList⟩ := by decide
  refine ⟨⟨_, hodd, by decide, ?_⟩, hbelow, hnames _ (by decide +kernel), ?_⟩
  · exact (hfile _ _ _ hodd (by decide)).2.2.mpr (by decide)
  · rw [hrepair]
    decide +kernel

end Index
end Relink
