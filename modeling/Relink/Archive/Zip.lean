import Relink.Archive
import Relink.Archive.Checksum

/-! # Zip files

An archive as a zip file: for each entry a header and its content, uncompressed; then the directory, which
repeats the headers with the places of the entries; then a record of how many entries there are and where
the directory lies. Numbers are written with the lowest byte first, names and contents in UTF-8. A file is
read from that record on: it says where the directory lies, and the directory where the entries lie. What was
read is the archive of the file when the file is made of it, with its lengths, its places and its checksums. -/

namespace Relink.Zip

/-- A number in `width` bytes, lowest first. -/
def number : (width : Nat) → Nat → Bytes
  | 0, _ => []
  | width + 1, n => UInt8.ofNat n :: number width (n / 256)

/-- The number that bytes write, lowest first. -/
def value : Bytes → Nat
  | [] => 0
  | b :: bytes => b.toNat + 256 * value bytes

/-- What the header of an entry starts with. -/
def entryMark : Bytes := [0x50, 0x4b, 3, 4]

/-- What the directory's line of an entry starts with. -/
def directoryMark : Bytes := [0x50, 0x4b, 1, 2]

/-- What the end of the file starts with. -/
def endMark : Bytes := [0x50, 0x4b, 5, 6]

/-- What the header of an entry and its line in the directory share: the format's version, a flag for
    names in UTF-8, no compression, the first day that can be written, the checksum, the size twice,
    and the length of the name. -/
def description (name content : Bytes) : Bytes :=
  number 2 20 ++ number 2 0x800 ++ number 2 0 ++ number 2 0 ++ number 2 0x21 ++
    number 4 (Checksum.ofBytes content).toNat ++ number 4 content.length ++ number 4 content.length ++
    number 2 name.length

/-- An entry with its header. -/
def entry (e : Entry) : Bytes :=
  let name := Utf8.encode e.name
  let content := Utf8.encode e.content
  entryMark ++ description name content ++ number 2 0 ++ name ++ content

/-- The directory's line of an entry that starts at `place`. -/
def directoryLine (place : Nat) (e : Entry) : Bytes :=
  let name := Utf8.encode e.name
  directoryMark ++ number 2 20 ++ description name (Utf8.encode e.content) ++ number 2 0 ++ number 2 0 ++
    number 2 0 ++ number 2 0 ++ number 4 0 ++ number 4 place ++ name

/-- The directory of entries, the first of which starts at `place`. -/
def directory (place : Nat) : Archive → Bytes
  | [] => []
  | e :: archive => directoryLine place e ++ directory (place + (entry e).length) archive

/-- The record at the end of the file: how many entries there are, and the length and the place of the
    directory. -/
def endRecord (count length place : Nat) : Bytes :=
  endMark ++ number 2 0 ++ number 2 0 ++ number 2 count ++ number 2 count ++ number 4 length ++
    number 4 place ++ number 2 0

/-- The file of an archive. -/
def encode (archive : Archive) : Bytes :=
  let entries := archive.flatMap entry
  let lines := directory 0 archive
  entries ++ lines ++ endRecord archive.length lines.length entries.length

/-! ### Reading -/

/-- A number at a place. -/
def numberAt (place width : Nat) (bytes : Bytes) : Nat := value ((bytes.drop place).take width)

/-- The entries that `count` lines of a directory tell of. -/
def entriesOf? (file : Bytes) : (count : Nat) → (lines : Bytes) → Option Archive
  | 0, _ => some []
  | count + 1, lines => do
    let size := numberAt 20 4 lines
    let nameLength := numberAt 28 2 lines
    let place := numberAt 42 4 lines
    let name ← Utf8.decode? ((lines.drop 46).take nameLength)
    let content ← Utf8.decode? ((file.drop (place + 30 + nameLength)).take size)
    let archive ← entriesOf? file count (lines.drop (46 + nameLength))
    return ⟨name, content⟩ :: archive

/-- The archive in a file that was made here. -/
def decode? (file : Bytes) : Option Archive :=
  let record := file.drop (file.length - 22)
  (entriesOf? file (numberAt 10 2 record) (file.drop (numberAt 16 4 record))).filter (encode · = file)

/-! ### The library -/

/-- Why an entry cannot be added. -/
def refuses? (e : Entry) : Option ArchiveError :=
  if (Utf8.encode e.content).length < 0x100000000 then none else some ⟨"the content is too long".toList, []⟩

/-- The file of an archive, if the numbers in it have room for its lengths and places. -/
def finish (archive : Archive) : Except ArchiveError Bytes :=
  if archive.length < 0x10000 ∧ (archive.flatMap entry).length < 0x100000000 ∧
      (directory 0 archive).length < 0x100000000 then
    .ok (encode archive)
  else .error ⟨"the archive is too long".toList, []⟩

/-- Zip files as archive files. -/
def archiver : Archiver := ⟨fun _ => refuses?, finish, decode?⟩

end Relink.Zip
