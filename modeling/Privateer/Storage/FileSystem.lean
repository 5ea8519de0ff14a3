import Privateer.Data.Overwrite
import Privateer.Logic.Contract

/-!
# The files of a datastore

A datastore keeps its blocks in numbered subdirectories of a blocks directory,
one file for each distinct content, named by its hash; stashed blocks in a stash
directory under random names; and for each version a directory with the files
`_metadata`, `_capacity` and `_blocks_path`.  This module fixes those files, the
system calls that the library makes on them, and their effect when they succeed.

An entry of `_metadata` is one name of `HASH_SIZE` characters, so that file is a
list of names.  Names are an abstract type: no fixed-length name is an injective
function of blocks of every size.  A temporary file and a stash file carry the
number that `mkstemp` or the random generator drew for their name.
-/

namespace Privateer

abbrev Byte := UInt8
abbrev Path := List Char

/-- How the library was built, and the functions it links: the hash of a block,
the value of the leading digits of a name, and the compressor. -/
structure Build (Hash : Type) where
  useCompression : Bool
  computeHash : List Byte → Hash
  emptyBlockHash : Hash
  prefixIndex : Hash → ℕ
  compress : List Byte → List Byte
  decompress : List Byte → Option (List Byte)

/-- What the library assumes of its hash function and of its compressor. -/
structure Build.Sound {Hash : Type} (build : Build Hash) : Prop where
  computeHash_injective : Function.Injective build.computeHash
  computeHash_ne_empty : ∀ content, build.computeHash content ≠ build.emptyBlockHash
  decompress_compress : build.useCompression = true →
    ∀ content, build.decompress (build.compress content) = some content

/-- A build that names every block by its contents. -/
def Build.transparent : Build (Option (List Byte)) where
  useCompression := false
  computeHash := some
  emptyBlockHash := none
  prefixIndex := fun _ => 0
  compress := id
  decompress := some

theorem Build.transparent_sound : Build.transparent.Sound where
  computeHash_injective := Option.some_injective _
  computeHash_ne_empty := fun content => Option.some_ne_none content
  decompress_compress := fun _ _ => rfl

/-- A directory: a version, the blocks or stash directory, or one of the
numbered subdirectories of the latter two. -/
inductive Directory where
  | path (location : Path)
  | subdirectory (location : Path) (index : ℕ)
  deriving DecidableEq

/-- A file that holds the contents of a block. -/
inductive DataFile (Hash : Type) where
  | block (location : Path) (subdirectory : ℕ) (name : Hash)
  | temporary (location : Path) (subdirectory blockIndex suffix : ℕ)
  | stash (location : Path) (uuid : ℕ)
  deriving DecidableEq

/-- A file of one line. -/
inductive TextFile where
  | capacity (version : Path)
  | blocksPath (version : Path)
  | granularity (blocks : Path)
  deriving DecidableEq

inductive Text where
  | number (value : ℕ)
  | path (value : Path)
  deriving DecidableEq

variable {Hash : Type}

/-- The number drawn for the name of a temporary or stash file. -/
def DataFile.drawn : DataFile Hash → Option ℕ
  | .block _ _ _ => none
  | .temporary _ _ _ suffix => some suffix
  | .stash _ uuid => some uuid

/-- The directory a data file lies in. -/
def DataFile.parent : DataFile Hash → Directory
  | .block location subdirectory _ => .subdirectory location subdirectory
  | .temporary location subdirectory _ _ => .subdirectory location subdirectory
  | .stash location _ => .path location

def TextFile.parent : TextFile → Directory
  | .capacity version => .path version
  | .blocksPath version => .path version
  | .granularity blocks => .path blocks

/-- The files on disk.  A text file that was opened for writing is empty until
it is closed.  `fresh` bounds every number drawn so far. -/
structure FileSystem (Hash : Type) where
  directories : Directory → Bool
  data : DataFile Hash → Option (List Byte)
  metadata : Path → Option (List Hash)
  texts : TextFile → Option (Option Text)
  fresh : ℕ

/-- The system calls and file utilities that the library uses. -/
inductive Call (Hash : Type) where
  | directoryExists (directory : Directory)
  | createDirectory (directory : Directory)
  | fileExists (file : DataFile Hash)
  | fileSize (file : DataFile Hash)
  | openFile (file : DataFile Hash) (create : Bool)
  | ftruncate (file : DataFile Hash) (length : ℕ)
  | pwrite (file : DataFile Hash) (bytes : List Byte)
  | pread (file : DataFile Hash) (count : ℕ)
  | close
  | rename (source target : DataFile Hash)
  | remove (file : DataFile Hash)
  | mkstemp (location : Path) (subdirectory blockIndex : ℕ)
  | randomUuid
  | copyFile (source target : DataFile Hash)
  | metadataExists (version : Path)
  | openMetadata (version : Path) (create exclusive : Bool)
  | metadataSize (version : Path)
  | preadMetadata (version : Path) (count : ℕ)
  | pwriteMetadata (version : Path) (entries : List Hash)
  | removeMetadata (version : Path)
  | copyMetadata (source target : Path)
  | openText (file : TextFile)
  | writeText (file : TextFile) (text : Text)
  | readText (file : TextFile)
  | copyText (source target : TextFile)
  | mmapRegion (length : ℕ)

/-- The type of a reply.  `false` and `none` report failure; a text file that
exists but has no line replies `some none`. -/
abbrev Reply : Call Hash → Type
  | .directoryExists _ => Bool
  | .createDirectory _ => Bool
  | .fileExists _ => Bool
  | .fileSize _ => Option ℕ
  | .openFile _ _ => Bool
  | .ftruncate _ _ => Bool
  | .pwrite _ _ => Option ℕ
  | .pread _ _ => Option (List Byte)
  | .close => Bool
  | .rename _ _ => Bool
  | .remove _ => Bool
  | .mkstemp _ _ _ => Option ℕ
  | .randomUuid => ℕ
  | .copyFile _ _ => Bool
  | .metadataExists _ => Bool
  | .openMetadata _ _ _ => Bool
  | .metadataSize _ => ℕ
  | .preadMetadata _ _ => Option (List Hash)
  | .pwriteMetadata _ _ => Option ℕ
  | .removeMetadata _ => Bool
  | .copyMetadata _ _ => Bool
  | .openText _ => Unit
  | .writeText _ _ => Unit
  | .readText _ => Option (Option Text)
  | .copyText _ _ => Bool
  | .mmapRegion _ => Bool

namespace FileSystem

/-- No files at all. -/
def empty : FileSystem Hash where
  directories := fun _ => false
  data := fun _ => none
  metadata := fun _ => none
  texts := fun _ => none
  fresh := 0

/-- The files with one more directory. -/
def setDirectory (files : FileSystem Hash) (directory : Directory) : FileSystem Hash :=
  { files with directories := Function.update files.directories directory true }

@[simp]
theorem setDirectory_self (files : FileSystem Hash) (directory : Directory) :
    (files.setDirectory directory).directories directory = true :=
  Function.update_self _ _ _

theorem setDirectory_of_directories {files : FileSystem Hash} {directory : Directory}
    (hdirectory : files.directories directory = true) : files.setDirectory directory = files := by
  rw [setDirectory, ← hdirectory, Function.update_eq_self]

/-- No directory is lost. -/
theorem directories_setDirectory {files : FileSystem Hash} {directory other : Directory}
    (hother : files.directories other) : (files.setDirectory directory).directories other := by
  by_cases hsame : other = directory
  · rw [hsame]
    exact setDirectory_self _ _
  · exact (Function.update_of_ne hsame true _).trans hother

def setMetadata (files : FileSystem Hash) (version : Path)
    (entries : Option (List Hash)) : FileSystem Hash :=
  { files with metadata := Function.update files.metadata version entries }

@[simp]
theorem setMetadata_self (files : FileSystem Hash) (version : Path)
    (entries : Option (List Hash)) :
    (files.setMetadata version entries).metadata version = entries :=
  Function.update_self _ _ _

theorem setMetadata_of_ne (files : FileSystem Hash) {version other : Path}
    (hother : other ≠ version) (entries : Option (List Hash)) :
    (files.setMetadata version entries).metadata other = files.metadata other :=
  Function.update_of_ne hother _ _

theorem setMetadata_eq_self {files : FileSystem Hash} {version : Path}
    {entries : Option (List Hash)} (hentries : files.metadata version = entries) :
    files.setMetadata version entries = files := by
  rw [setMetadata, ← hentries, Function.update_eq_self]

theorem setMetadata_setMetadata (files : FileSystem Hash) (version : Path)
    (first second : Option (List Hash)) :
    (files.setMetadata version first).setMetadata version second =
      files.setMetadata version second := by
  rw [setMetadata, setMetadata, setMetadata, Function.update_idem]

def setText (files : FileSystem Hash) (file : TextFile)
    (text : Option (Option Text)) : FileSystem Hash :=
  { files with texts := Function.update files.texts file text }

@[simp]
theorem setText_self (files : FileSystem Hash) (file : TextFile) (text : Option (Option Text)) :
    (files.setText file text).texts file = text :=
  Function.update_self _ _ _

theorem setText_of_ne (files : FileSystem Hash) {file other : TextFile}
    (hother : other ≠ file) (text : Option (Option Text)) :
    (files.setText file text).texts other = files.texts other :=
  Function.update_of_ne hother _ _

theorem setText_setText (files : FileSystem Hash) (file : TextFile)
    (first second : Option (Option Text)) :
    (files.setText file first).setText file second = files.setText file second := by
  rw [setText, setText, setText, Function.update_idem]

variable [DecidableEq Hash]

def setData (files : FileSystem Hash) (file : DataFile Hash)
    (content : Option (List Byte)) : FileSystem Hash :=
  { files with data := Function.update files.data file content }

@[simp]
theorem setData_self (files : FileSystem Hash) (file : DataFile Hash)
    (content : Option (List Byte)) : (files.setData file content).data file = content :=
  Function.update_self _ _ _

theorem setData_of_ne (files : FileSystem Hash) {file other : DataFile Hash}
    (hother : other ≠ file) (content : Option (List Byte)) :
    (files.setData file content).data other = files.data other :=
  Function.update_of_ne hother _ _

theorem setData_eq_self {files : FileSystem Hash} {file : DataFile Hash}
    {content : Option (List Byte)} (hcontent : files.data file = content) :
    files.setData file content = files := by
  rw [setData, ← hcontent, Function.update_eq_self]

theorem setData_setData (files : FileSystem Hash) (file : DataFile Hash)
    (first second : Option (List Byte)) :
    (files.setData file first).setData file second = files.setData file second := by
  rw [setData, setData, setData, Function.update_idem]

/-- The effect of a system call that meets no fault of the device: it fails only
when the files it names do not allow it. -/
def answer : (call : Call Hash) → FileSystem Hash → Reply call × FileSystem Hash
  | .directoryExists directory, files => (files.directories directory, files)
  | .createDirectory directory, files =>
      (true, files.setDirectory directory)
  | .fileExists file, files => ((files.data file).isSome, files)
  | .fileSize file, files => ((files.data file).map List.length, files)
  | .openFile file create, files =>
      match files.data file with
      | some _ => (true, files)
      | none =>
          if create && files.directories file.parent then
            (true, files.setData file (some []))
          else (false, files)
  | .ftruncate file length, files =>
      match files.data file with
      | some content => (true, files.setData file (some (resize 0 length content)))
      | none => (false, files)
  | .pwrite file bytes, files =>
      match files.data file with
      | some content =>
          (some bytes.length, files.setData file (some (overwrite bytes content)))
      | none => (none, files)
  | .pread file count, files =>
      ((files.data file).map (List.take count), files)
  | .close, files => (true, files)
  | .rename source target, files =>
      match files.data source with
      | some content =>
          if files.directories target.parent then
            (true, (files.setData source none).setData target (some content))
          else (false, files)
      | none => (false, files)
  | .remove file, files =>
      match files.data file with
      | some _ => (true, files.setData file none)
      | none => (false, files)
  | .mkstemp location subdirectory blockIndex, files =>
      if files.directories (.subdirectory location subdirectory) then
        (some files.fresh,
          { files.setData (.temporary location subdirectory blockIndex files.fresh) (some [])
            with fresh := files.fresh + 1 })
      else (none, files)
  | .randomUuid, files => (files.fresh, { files with fresh := files.fresh + 1 })
  | .copyFile source target, files =>
      match files.data source, files.data target with
      | some content, none => (true, files.setData target (some content))
      | _, _ => (false, files)
  | .metadataExists version, files => ((files.metadata version).isSome, files)
  | .openMetadata version create exclusive, files =>
      match files.metadata version with
      | some _ => (!(create && exclusive), files)
      | none =>
          if create && files.directories (.path version) then
            (true, files.setMetadata version (some []))
          else (false, files)
  | .metadataSize version, files => (((files.metadata version).getD []).length, files)
  | .preadMetadata version count, files =>
      ((files.metadata version).map (List.take count), files)
  | .pwriteMetadata version entries, files =>
      match files.metadata version with
      | some old =>
          (some entries.length, files.setMetadata version (some (overwrite entries old)))
      | none => (none, files)
  | .removeMetadata version, files =>
      match files.metadata version with
      | some _ => (true, files.setMetadata version none)
      | none => (false, files)
  | .copyMetadata source target, files =>
      match files.metadata source, files.metadata target with
      | some entries, none => (true, files.setMetadata target (some entries))
      | _, _ => (false, files)
  | .openText file, files =>
      if files.directories file.parent then ((), files.setText file (some none))
      else ((), files)
  | .writeText file text, files =>
      match files.texts file with
      | some _ => ((), files.setText file (some (some text)))
      | none => ((), files)
  | .readText file, files => (files.texts file, files)
  | .copyText source target, files =>
      match files.texts source, files.texts target with
      | some text, none => (true, files.setText target (some text))
      | _, _ => (false, files)
  | .mmapRegion length, files => (decide (length ≠ 0), files)

/-- Opening a file without creating it changes nothing. -/
theorem answer_openFile_snd (files : FileSystem Hash) (file : DataFile Hash) :
    (files.answer (.openFile file false)).2 = files := by
  simp only [answer]
  cases files.data file with
  | some _ => rfl
  | none => rfl

end FileSystem

end Privateer
