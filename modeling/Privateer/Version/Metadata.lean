import Privateer.Storage.BlockStorage

/-!
# Version metadata

A version directory holds the table of block names, the capacity of the region
and the path of the blocks directory.  This module creates and reads these files
as both virtual memory managers do, and says which contents a version denotes.
-/

namespace Privateer

variable {Hash : Type}

/-- `std::ofstream`: opening empties the file, the text is there once it is closed. -/
def writeTextFile (file : TextFile) (text : Text) : StorageProgram Hash Unit := do
  systemCall (.openText file)
  systemCall (.writeText file text)

/-- The three files of a new version. -/
def createMetadataFiles (versionPath blocksPath : Path) (versionCapacity : ℕ) :
    StorageProgram Hash Unit := do
  if ← systemCall (.openMetadata versionPath true true) then
    writeTextFile (.blocksPath versionPath) (.path blocksPath)
    writeTextFile (.capacity versionPath) (.number versionCapacity)
  else .exit

/-- Create a version, over an existing one only when that is allowed. -/
def createVersionMetadata (versionPath blocksPath : Path) (versionCapacity : ℕ)
    (allowOverwrite : Bool) : StorageProgram Hash Unit := do
  if ← systemCall (.directoryExists (.path versionPath)) then
    if allowOverwrite then
      if ← systemCall (.metadataExists versionPath) then
        if ← systemCall (.removeMetadata versionPath) then
          createMetadataFiles versionPath blocksPath versionCapacity
        else .exit
      else createMetadataFiles versionPath blocksPath versionCapacity
    else .exit
  else if ← systemCall (.createDirectory (.path versionPath)) then
    createMetadataFiles versionPath blocksPath versionCapacity
  else .exit

/-- The files after the three files of a version were written. -/
def FileSystem.writeVersion (files : FileSystem Hash) (version : Path) (entries : List Hash)
    (blocksPath : Path) (capacity : ℕ) : FileSystem Hash :=
  ((files.setMetadata version (some entries)).setText (.blocksPath version)
    (some (some (.path blocksPath)))).setText (.capacity version)
      (some (some (.number capacity)))

section WriteVersion

variable {files : FileSystem Hash} {version other : Path} {entries : List Hash}
variable {blocksPath : Path} {capacity : ℕ}

@[simp]
theorem FileSystem.metadata_writeVersion :
    (files.writeVersion version entries blocksPath capacity).metadata version = some entries :=
  setMetadata_self _ _ _

@[simp]
theorem FileSystem.capacity_writeVersion :
    (files.writeVersion version entries blocksPath capacity).texts (.capacity version) =
      some (some (.number capacity)) :=
  setText_self _ _ _

@[simp]
theorem FileSystem.blocksPath_writeVersion :
    (files.writeVersion version entries blocksPath capacity).texts (.blocksPath version) =
      some (some (.path blocksPath)) := by
  rw [writeVersion, setText_of_ne _ (by simp), setText_self]

/-- The text files of other versions and the granularity stay. -/
theorem FileSystem.texts_writeVersion_of_ne {file : TextFile}
    (hcapacity : file ≠ .capacity version) (hpath : file ≠ .blocksPath version) :
    (files.writeVersion version entries blocksPath capacity).texts file = files.texts file := by
  rw [writeVersion, setText_of_ne _ hcapacity, setText_of_ne _ hpath]
  rfl

theorem FileSystem.writeVersion_eq_setMetadata :
    files.writeVersion version entries blocksPath capacity =
      (files.writeVersion version [] blocksPath capacity).setMetadata version (some entries) := by
  rw [writeVersion, writeVersion, ← setMetadata_setMetadata files version (some [])]
  rfl

theorem FileSystem.metadata_writeVersion_of_ne (hother : other ≠ version) :
    (files.writeVersion version entries blocksPath capacity).metadata other =
      files.metadata other :=
  setMetadata_of_ne _ hother _

end WriteVersion

/-- The capacity of a version; a file that is missing, empty or no number
terminates the process. -/
def versionCapacity (versionPath : Path) : StorageProgram Hash ℕ := do
  match ← systemCall (.readText (.capacity versionPath)) with
  | some (some (.number capacity)) => return capacity
  | _ => .exit

/-- The blocks directory of a version. -/
def versionBlocksPath (versionPath : Path) : StorageProgram Hash Path := do
  match ← systemCall (.readText (.blocksPath versionPath)) with
  | some (some (.path blocksPath)) => return blocksPath
  | some (some (.number value)) => return Nat.toDigits 10 value
  | _ => .exit

/-! ## What a version denotes -/

/-- The parts of a version that the open constructor reads. -/
structure VersionTable (Hash : Type) where
  blocksPath : Path
  blockSize : ℕ
  capacity : ℕ
  entries : List Hash

def readVersion (files : FileSystem Hash) (version : Path) : Option (VersionTable Hash) :=
  match files.texts (.blocksPath version), files.texts (.capacity version),
      files.metadata version with
  | some (some (.path blocksPath)), some (some (.number capacity)), some entries =>
      match files.texts (.granularity blocksPath) with
      | some (some (.number blockSize)) =>
          if entries.length ≤ capacity / blockSize then
            some ⟨blocksPath, blockSize, capacity, entries⟩
          else none
      | _ => none
  | _, _, _ => none

variable [DecidableEq Hash]

theorem run_writeTextFile {files : FileSystem Hash} {file : TextFile}
    (hdirectory : files.directories file.parent) (text : Text) :
    (writeTextFile file text).run FileSystem.answer files =
      (.returned (), files.setText file (some (some text))) := by
  have hopened : files.answer (.openText file) = ((), files.setText file (some none)) := by
    simp [FileSystem.answer, hdirectory]
  change (Outcome.returned (), ((files.answer (.openText file)).2.answer _).2) = _
  rw [hopened]
  simp only [FileSystem.answer, FileSystem.setText_self, FileSystem.setText_setText]

/-- Writing the two text files of a version whose table is there. -/
theorem run_writeTextFiles {A : Type} {files : FileSystem Hash} {version : Path}
    (hdirectory : files.directories (.path version)) (entries : List Hash) (blocksPath : Path)
    (capacity : ℕ) (next : StorageProgram Hash A) :
    (do
      writeTextFile (.blocksPath version) (.path blocksPath)
      writeTextFile (.capacity version) (.number capacity)
      next : StorageProgram Hash A).run FileSystem.answer
        (files.setMetadata version (some entries)) =
      next.run FileSystem.answer (files.writeVersion version entries blocksPath capacity) := by
  have hpath : (files.setMetadata version (some entries)).directories
      (TextFile.blocksPath version).parent := hdirectory
  rw [Program.run_bind_of_returned (run_writeTextFile hpath _)]
  have hcapacity : ((files.setMetadata version (some entries)).setText (.blocksPath version)
      (some (some (.path blocksPath)))).directories (TextFile.capacity version).parent :=
    hdirectory
  rw [Program.run_bind_of_returned (run_writeTextFile hcapacity _)]
  rfl

theorem run_createMetadataFiles {files : FileSystem Hash} {version : Path}
    (hdirectory : files.directories (.path version)) (hfresh : files.metadata version = none)
    (blocksPath : Path) (capacity : ℕ) :
    (createMetadataFiles version blocksPath capacity).run FileSystem.answer files =
      (.returned (), files.writeVersion version [] blocksPath capacity) := by
  unfold createMetadataFiles
  simp only [Program.request_bind, Program.run_call, FileSystem.answer, hfresh, hdirectory,
    Bool.and_self, if_true]
  exact run_writeTextFiles hdirectory [] blocksPath capacity (.finish ())

/-- The content of a block file: a compressed file must not be larger than a
block, and what is read is cut or filled up to a block. -/
def decodeBlock (build : Build Hash) (blockSize : ℕ) (bytes : List Byte) :
    Option (List Byte) :=
  if build.useCompression then
    if bytes.length ≤ blockSize then
      match build.decompress bytes with
      | none => some (List.replicate blockSize 0)
      | some content =>
          if content.length ≤ blockSize then some (resize 0 blockSize content) else none
    else none
  else some (resize 0 blockSize (bytes.take blockSize))

/-- The contents that a name stands for. -/
def loadName (build : Build Hash) (files : FileSystem Hash) (blocksPath : Path)
    (blockSize : ℕ) (name : Hash) : Option (List Byte) :=
  if name = build.emptyBlockHash then some (List.replicate blockSize 0)
  else
    match files.data (.block blocksPath (build.prefixIndex name % numSubdirs) name) with
    | none => none
    | some bytes => decodeBlock build blockSize bytes

namespace VersionTable

def numBlocks (table : VersionTable Hash) : ℕ := table.capacity / table.blockSize

/-- The name of a block: blocks beyond the end of the table are empty. -/
def name (build : Build Hash) (table : VersionTable Hash) (blockIndex : ℕ) : Hash :=
  table.entries.getD blockIndex build.emptyBlockHash

def block (build : Build Hash) (files : FileSystem Hash) (table : VersionTable Hash)
    (blockIndex : ℕ) : Option (List Byte) :=
  loadName build files table.blocksPath table.blockSize (table.name build blockIndex)

end VersionTable

/-- The contents of every block of a version, as opening it would show them:
`none` when the version cannot be opened, and `none` for a block that cannot be
loaded. -/
def denotedBlocks (build : Build Hash) (files : FileSystem Hash) (version : Path) :
    Option (List (Option (List Byte))) :=
  (readVersion files version).map fun table =>
    (List.range table.numBlocks).map (table.block build files)

/-- The contents of one block of a version. -/
def denotedBlock (build : Build Hash) (files : FileSystem Hash) (version : Path)
    (blockIndex : ℕ) : Option (List Byte) :=
  (readVersion files version).bind fun table => table.block build files blockIndex

/-- The byte that a version with the given block size shows at an offset. -/
def denotedByte (build : Build Hash) (files : FileSystem Hash) (version : Path)
    (blockSize offset : ℕ) : Byte :=
  match denotedBlock build files version (offset / blockSize) with
  | none => 0
  | some content => content.getD (offset % blockSize) 0

end Privateer
