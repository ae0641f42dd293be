import Mathlib.Algebra.Group.Nat.Defs
import Relink.Archive.Zip

/-! # Unpacking

A reader finds in an archive file what was packed into it. This is what a run relies on when it hands its entries to
a library for archive files, and zip files keep it: the record at the end leads to the directory, and the directory to
the entries, as long as the lengths and the places fit in the numbers that hold them. -/

namespace Relink

/-! ### What a library for archive files does -/

namespace Archiver
variable {archiver : Archiver} {archive entries : Archive} {e : Entry}

/-- Whether an archive takes entries, one after another. -/
def Accepts (archiver : Archiver) : Archive → List Entry → Prop
  | _, [] => True
  | archive, e :: entries => archiver.refuses? archive e = none ∧ archiver.Accepts (archive ++ [e]) entries

/-- Whether a library for archive files can be relied on: in a file that it makes of entries which it has taken, it
    finds these entries. The length of a name has two bytes in the file. -/
structure Lawful (archiver : Archiver) : Prop where
  open?_finish : ∀ {archive : Archive} {file : Bytes}, archiver.Accepts [] archive →
    (∀ e ∈ archive, (Utf8.encode e.name).length < 0x10000) → archiver.finish archive = .ok file →
    archiver.open? file = some archive

end Archiver

namespace Zip
variable {archive : Archive} {e : Entry} {file front bytes lines rest : Bytes} {place width n : Nat}

/-! ### Numbers -/

@[simp] theorem length_number (width n : Nat) : (number width n).length = width := by
  induction width generalizing n with
  | zero => rfl
  | succ width ih => rw [number, List.length_cons, ih]

theorem value_number (h : n < 256 ^ width) : value (number width n) = n := by
  induction width generalizing n with
  | zero => exact (Nat.lt_one_iff.mp h).symm
  | succ width ih =>
    have hrest : n / 256 < 256 ^ width := Nat.div_lt_of_lt_mul (by rwa [← Nat.pow_succ'])
    rw [number, value, ih hrest, UInt8.toNat_ofNat']
    exact Nat.mod_add_div n 256

/-- A number is read where it is written. -/
theorem numberAt_append (hfront : front.length = place) (h : n < 256 ^ width) (rest : Bytes) :
    numberAt place width (front ++ (number width n ++ rest)) = n := by
  rw [numberAt, ← hfront, List.drop_left, List.take_left' (length_number width n), value_number h]

/-! ### The directory -/

/-- What a reader takes from the numbers of a line in the directory. -/
theorem numbers_of_line {head middle : Bytes} {size length : Nat} (hhead : head.length = 20)
    (hmiddle : middle.length = 12) (hsize : size < 0x100000000) (hlength : length < 0x10000)
    (hplace : place < 0x100000000) (rest : Bytes) :
    let line := head ++ (number 4 size ++ (number 4 size ++ (number 2 length ++ (middle ++ (number 4 place ++ rest)))))
    numberAt 20 4 line = size ∧ numberAt 28 2 line = length ∧ numberAt 42 4 line = place ∧ line.drop 46 = rest := by
  refine ⟨numberAt_append hhead hsize _, ?_, ?_, ?_⟩
  · rw [← List.append_assoc, ← List.append_assoc]
    exact numberAt_append (by simp [hhead]) hlength _
  · rw [← List.append_assoc, ← List.append_assoc, ← List.append_assoc, ← List.append_assoc]
    exact numberAt_append (by simp [hhead, hmiddle]) hplace _
  · rw [← List.append_assoc, ← List.append_assoc, ← List.append_assoc, ← List.append_assoc, ← List.append_assoc]
    exact List.drop_left' (by simp [hhead, hmiddle])

/-- A line of the directory leads to the entry that it was written for. -/
theorem entriesOf?_line (hname : (Utf8.encode e.name).length < 0x10000)
    (hcontent : (Utf8.encode e.content).length < 0x100000000) (hplace : place < 0x100000000)
    (hfront : front.length = place) (count : Nat) (lines rest : Bytes) :
    entriesOf? (front ++ (entry e ++ rest)) (count + 1) (directoryLine place e ++ lines) =
      (entriesOf? (front ++ (entry e ++ rest)) count lines).map (e :: ·) := by
  obtain ⟨name, hn⟩ : ∃ name, Utf8.encode e.name = name := ⟨_, rfl⟩
  obtain ⟨content, hc⟩ : ∃ content, Utf8.encode e.content = content := ⟨_, rfl⟩
  rw [hn] at hname
  rw [hc] at hcontent
  obtain ⟨head, hhead, hline⟩ : ∃ head, head.length = 20 ∧ directoryLine place e ++ lines = head ++
      (number 4 content.length ++ (number 4 content.length ++ (number 2 name.length ++
      ((number 2 0 ++ number 2 0 ++ number 2 0 ++ number 2 0 ++ number 4 0) ++
      (number 4 place ++ (name ++ lines)))))) := by
    refine ⟨directoryMark ++ number 2 20 ++ number 2 20 ++ number 2 0x800 ++ number 2 0 ++ number 2 0 ++
      number 2 0x21 ++ number 4 (Checksum.ofBytes content).toNat, by simp [directoryMark], ?_⟩
    simp only [directoryLine, description, hn, hc, List.append_assoc]
  obtain ⟨start, hstart, hentry⟩ : ∃ start, start.length = 30 ∧
      entry e ++ rest = start ++ (name ++ (content ++ rest)) := by
    refine ⟨entryMark ++ description name content ++ number 2 0, by simp [entryMark, description], ?_⟩
    simp only [entry, hn, hc, List.append_assoc]
  have hmiddle : (number 2 0 ++ number 2 0 ++ number 2 0 ++ number 2 0 ++ number 4 0).length = 12 := rfl
  obtain ⟨hsize, hlength, hwhere, hrest⟩ := numbers_of_line hhead hmiddle hcontent hname hplace (name ++ lines)
  have hdrop : (front ++ (entry e ++ rest)).drop (place + 30 + name.length) = content ++ rest := by
    rw [hentry, ← List.append_assoc, ← List.append_assoc]
    exact List.drop_left' (by simp only [List.length_append, hfront, hstart])
  have htext : ∀ {text : Text} {bytes : Bytes}, Utf8.encode text = bytes → Utf8.decode? bytes = some text := by
    rintro text bytes rfl
    exact Utf8.decode?_encode text
  rw [hline, entriesOf?]
  simp only [hsize, hlength, hwhere, hrest, hdrop, ← List.drop_drop, List.take_left, List.drop_left, htext hn, htext hc]
  cases entriesOf? (front ++ (entry e ++ rest)) count lines <;> rfl

/-- The directory leads to all entries. -/
theorem entriesOf?_directory (hnames : ∀ e ∈ archive, (Utf8.encode e.name).length < 0x10000)
    (hfront : front.length = place) (hplaces : place + (archive.flatMap entry).length < 0x100000000)
    (lines rest : Bytes) :
    entriesOf? (front ++ (archive.flatMap entry ++ rest)) archive.length (directory place archive ++ lines) =
      some archive := by
  induction archive generalizing place front with
  | nil => rfl
  | cons e archive ih =>
    obtain ⟨hname, hnames⟩ := List.forall_mem_cons.mp hnames
    rw [List.flatMap_cons, List.length_append] at hplaces
    have hcontent : (Utf8.encode e.content).length ≤ (entry e).length := by
      simp only [entry, List.length_append]
      exact Nat.le_add_left _ _
    rw [List.flatMap_cons, directory, List.append_assoc, List.append_assoc, List.length_cons,
      entriesOf?_line hname (by omega) (by omega) hfront, ← List.append_assoc,
      ih hnames (by rw [List.length_append, hfront]) (by omega)]
    rfl

/-- What a reader takes from the record at the end of a file. -/
theorem numbers_of_endRecord {count : Nat} (hcount : count < 0x10000) (hplace : place < 0x100000000) (length : Nat) :
    numberAt 10 2 (endRecord count length place) = count ∧ numberAt 16 4 (endRecord count length place) = place := by
  have hcounted : endRecord count length place = (endMark ++ number 2 0 ++ number 2 0 ++ number 2 count) ++
      (number 2 count ++ (number 4 length ++ (number 4 place ++ number 2 0))) := by
    simp only [endRecord, List.append_assoc]
  have hwhere : endRecord count length place =
      (endMark ++ number 2 0 ++ number 2 0 ++ number 2 count ++ number 2 count ++ number 4 length) ++
      (number 4 place ++ number 2 0) := by
    simp only [endRecord, List.append_assoc]
  constructor
  · rw [hcounted]
    exact numberAt_append (by simp [endMark]) hcount _
  · rw [hwhere]
    exact numberAt_append (by simp [endMark]) hplace _

/-- A zip file is unpacked to the archive that it was made of. -/
theorem decode?_encode (hnames : ∀ e ∈ archive, (Utf8.encode e.name).length < 0x10000)
    (hcount : archive.length < 0x10000) (hentries : (archive.flatMap entry).length < 0x100000000) :
    decode? (encode archive) = some archive := by
  obtain ⟨hcounted, hwhere⟩ := numbers_of_endRecord hcount hentries (directory 0 archive).length
  obtain ⟨record, hrecord⟩ : ∃ record,
    endRecord archive.length (directory 0 archive).length (archive.flatMap entry).length = record := ⟨_, rfl⟩
  have hlength : record.length = 22 := by simp [← hrecord, endRecord, endMark]
  rw [hrecord] at hcounted hwhere
  have hfile : encode archive = archive.flatMap entry ++ (directory 0 archive ++ record) := by
    rw [encode, hrecord, List.append_assoc]
  have hlast : (encode archive).drop ((encode archive).length - 22) = record := by
    rw [hfile, ← List.append_assoc]
    exact List.drop_left' (by simp only [List.length_append, hlength, Nat.add_sub_cancel])
  have hread : entriesOf? (encode archive) archive.length (directory 0 archive ++ record) = some archive := by
    rw [hfile]
    exact @entriesOf?_directory archive [] 0 hnames rfl (by rwa [Nat.zero_add]) _ _
  have hdirectory : (encode archive).drop (archive.flatMap entry).length = directory 0 archive ++ record := by
    rw [hfile, List.drop_left]
  rw [decode?]
  simp only [hlast, hcounted, hwhere, hdirectory, hread, Option.filter_some, decide_true, if_true]

/-- What is unpacked from a file is what the file is made of. -/
theorem encode_of_decode? (h : decode? file = some archive) : encode archive = file := by
  rw [decode?, Option.filter_eq_some_iff] at h
  exact of_decide_eq_true h.2

theorem accepts_archiver (hcontents : ∀ e ∈ archive, (Utf8.encode e.content).length < 0x100000000) {first : Archive} :
    archiver.Accepts first archive := by
  induction archive generalizing first with
  | nil => trivial
  | cons e archive ih =>
    obtain ⟨hcontent, hcontents⟩ := List.forall_mem_cons.mp hcontents
    exact ⟨if_pos hcontent, ih hcontents⟩

theorem archiver_lawful : archiver.Lawful where
  open?_finish {archive file} _ hnames hfinish := by
    have hfinish : finish archive = .ok file := hfinish
    rw [finish] at hfinish
    split at hfinish
    · rename_i hfits
      cases hfinish
      exact decode?_encode hnames hfits.1 hfits.2.1
    · cases hfinish

end Zip
end Relink
