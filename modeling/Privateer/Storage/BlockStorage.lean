import Privateer.Storage.FileSystem

/-!
# POSIX block storage

The block storage of one session: it stores a block under its hash, keeps
evicted dirty blocks in stash files, and commits a stash file to the blocks
directory.  Every branch on a failed system call is kept.  The empty string that
the source returns in place of a name is `none`.
-/

namespace Privateer

variable {Hash : Type}

abbrev StorageProgram (Hash A : Type) := Program (Call Hash) Reply A

abbrev systemCall (call : Call Hash) : StorageProgram Hash (Reply call) :=
  Program.request call

/-- The fields of a block storage: `stashBlockIds` gives the stash file of a
block, `stashCommittedBlockIds` the name under which a block was last copied to
the stash tier. -/
structure BlockStorage (Hash : Type) where
  baseDirectory : Path
  stashDirectory : Path
  blockGranularity : ℕ
  stashBlockIds : ℕ → Option ℕ
  stashCommittedBlockIds : ℕ → Option (Option Hash)

def numSubdirs : ℕ := 1024

/-- The part of a path before its last slash, or the whole path if it has none. -/
def pathPrefix (path : Path) : Path :=
  if '/' ∈ path then ((path.reverse.dropWhile (· ≠ '/')).drop 1).reverse else path

namespace BlockStorage

def isMultiTiered (storage : BlockStorage Hash) : Bool :=
  pathPrefix storage.baseDirectory != pathPrefix storage.stashDirectory

/-- Close a file; a failure terminates the process. -/
def closeOrExit : StorageProgram Hash Unit := do
  if ← systemCall .close then return () else .exit

/-- The subdirectory that a name belongs to, created when it is missing. -/
def getBlocksSubdirectory (build : Build Hash) (storage : BlockStorage Hash)
    (blockHash : Hash) (onStash : Bool) : StorageProgram Hash (Path × ℕ) := do
  let basePath := if onStash then storage.stashDirectory else storage.baseDirectory
  let subdirIndex := build.prefixIndex blockHash % numSubdirs
  if ← systemCall (.directoryExists (.subdirectory basePath subdirIndex)) then
    return (basePath, subdirIndex)
  else if ← systemCall (.createDirectory (.subdirectory basePath subdirIndex)) then
    return (basePath, subdirIndex)
  else .exit

/-- A new temporary file; the build without compression sizes it at once. -/
def createTemporaryUniqueBlock (build : Build Hash) (storage : BlockStorage Hash)
    (location : Path) (subdirectory blockIndex : ℕ) :
    StorageProgram Hash (DataFile Hash) := do
  match ← systemCall (.mkstemp location subdirectory blockIndex) with
  | none => .exit
  | some suffix =>
      let temporary := DataFile.temporary location subdirectory blockIndex suffix
      if build.useCompression then return temporary
      else if ← systemCall (.ftruncate temporary storage.blockGranularity) then
        return temporary
      else .exit

/-- Write a buffer, compressed where the build says so, to a temporary file. -/
def writeTemporary (build : Build Hash) (temporary : DataFile Hash)
    (buffer : List Byte) : StorageProgram Hash Bool := do
  if build.useCompression then
    let compressed := build.compress buffer
    if ← systemCall (.ftruncate temporary compressed.length) then
      return (← systemCall (.pwrite temporary compressed)).isSome
    else .exit
  else
    return (← systemCall (.pwrite temporary buffer)).isSome

/-- Move a written temporary file to its final name. -/
def publishTemporary (temporary published : DataFile Hash) (blockHash : Hash) :
    StorageProgram Hash (Option Hash) := do
  if ← systemCall (.rename temporary published) then
    closeOrExit
    return some blockHash
  else if ← systemCall (.fileExists published) then
    if ← systemCall (.remove temporary) then
      closeOrExit
      return some blockHash
    else return none
  else
    closeOrExit
    return none

/-- `store_block` with a tier and a hash that the caller may have computed. -/
def storeBlockOn (build : Build Hash) (storage : BlockStorage Hash)
    (buffer : List Byte) (writeToFile : Bool) (blockIndex : ℕ) (onStash : Bool)
    (preComputedHash : Option Hash) : StorageProgram Hash (Option Hash) := do
  let blockHash := preComputedHash.getD (build.computeHash buffer)
  let directory ← getBlocksSubdirectory build storage blockHash onStash
  let temporary ← createTemporaryUniqueBlock build storage directory.1 directory.2 blockIndex
  let published := DataFile.block directory.1 directory.2 blockHash
  if ← systemCall (.fileExists published) then
    if ← systemCall (.remove temporary) then
      closeOrExit
      return some blockHash
    else
      closeOrExit
      return none
  else if writeToFile then
    if ← writeTemporary build temporary buffer then
      publishTemporary temporary published blockHash
    else return none
  else publishTemporary temporary published blockHash

/-- `store_block` of a block: with two tiers it is stored on the stash tier
first.  The caller applies `noteStored` to a result that names the block. -/
def storeBlock (build : Build Hash) (storage : BlockStorage Hash)
    (buffer : List Byte) (writeToFile : Bool) (blockIndex : ℕ) :
    StorageProgram Hash (Option Hash) := do
  if storage.isMultiTiered then
    match ← storeBlockOn build storage buffer writeToFile blockIndex true none with
    | none => return none
    | some _ => storeBlockOn build storage buffer writeToFile blockIndex false none
  else storeBlockOn build storage buffer writeToFile blockIndex false none

/-- The end of `store_block`.  The name recorded is the outer `block_hash`, which
the source never sets; an entry that exists is kept. -/
def noteStored (storage : BlockStorage Hash) (blockIndex : ℕ) : BlockStorage Hash :=
  if (storage.stashCommittedBlockIds blockIndex).isSome then storage
  else
    { storage with
      stashCommittedBlockIds :=
        Function.update storage.stashCommittedBlockIds blockIndex (some none) }

def setStashBlockId (storage : BlockStorage Hash) (blockIndex : ℕ)
    (uuid : Option ℕ) : BlockStorage Hash :=
  { storage with stashBlockIds := Function.update storage.stashBlockIds blockIndex uuid }

@[simp]
theorem setStashBlockId_stashDirectory (storage : BlockStorage Hash) (blockIndex : ℕ)
    (uuid : Option ℕ) :
    (storage.setStashBlockId blockIndex uuid).stashDirectory = storage.stashDirectory := rfl

theorem setStashBlockId_apply (storage : BlockStorage Hash) (blockIndex other : ℕ)
    (uuid : Option ℕ) :
    (storage.setStashBlockId blockIndex uuid).stashBlockIds other =
      if other = blockIndex then uuid else storage.stashBlockIds other :=
  Function.update_apply _ _ _ _

theorem setStashBlockId_eq_self {storage : BlockStorage Hash} {blockIndex : ℕ}
    {uuid : Option ℕ} (hid : storage.stashBlockIds blockIndex = uuid) :
    storage.setStashBlockId blockIndex uuid = storage := by
  rw [setStashBlockId, ← hid, Function.update_eq_self]

/-- The rest of `stash_block` once the name of the stash file is known. -/
def writeStash (storage : BlockStorage Hash) (block : List Byte) (uuid : ℕ)
    (fileExists : Bool) : StorageProgram Hash Bool := do
  let file := DataFile.stash storage.stashDirectory uuid
  if ← systemCall (.openFile file (!fileExists)) then
    if fileExists then
      if (← systemCall (.pwrite file block)).isSome then systemCall .close
      else return false
    else if ← systemCall (.ftruncate file storage.blockGranularity) then
      if (← systemCall (.pwrite file block)).isSome then systemCall .close
      else return false
    else return false
  else return false

/-- Write a block to its stash file, under a new random name if it has none. -/
def stashBlock (storage : BlockStorage Hash) (block : List Byte) (blockIndex : ℕ) :
    StorageProgram Hash (Bool × BlockStorage Hash) := do
  match storage.stashBlockIds blockIndex with
  | some uuid =>
      let status ← writeStash storage block uuid true
      return (status, storage)
  | none =>
      let uuid ← systemCall .randomUuid
      let status ← writeStash storage block uuid false
      return (status, storage.setStashBlockId blockIndex (some uuid))

/-- Remove the stash file of a block. -/
def unstashBlock (storage : BlockStorage Hash) (blockIndex : ℕ) :
    StorageProgram Hash (Bool × BlockStorage Hash) := do
  match storage.stashBlockIds blockIndex with
  | none => return (false, storage)
  | some uuid =>
      if ← systemCall (.remove (.stash storage.stashDirectory uuid)) then
        return (true, storage.setStashBlockId blockIndex none)
      else return (false, storage)

/-- Read a whole stash file into a new buffer of one block. -/
def readStash (storage : BlockStorage Hash) (file : DataFile Hash) :
    StorageProgram Hash (List Byte) := do
  if ← systemCall (.openFile file false) then
    match ← systemCall (.pread file storage.blockGranularity) with
    | none => .exit
    | some bytes =>
        closeOrExit
        return resize 0 storage.blockGranularity bytes
  else .exit

/-- Commit a stash file whose content was read and whose final file does not
exist, in the build without compression: the file itself is renamed. -/
def commitByRename (build : Build Hash) (storage : BlockStorage Hash)
    (buffer : List Byte) (blockIndex : ℕ) (file published : DataFile Hash)
    (blockHash : Hash) : StorageProgram Hash (Option Hash × BlockStorage Hash) := do
  if ← systemCall (.rename file published) then
    match ← storeBlockOn build storage buffer true blockIndex false (some blockHash) with
    | none => return (none, storage)
    | some stored => return (some stored, storage.setStashBlockId blockIndex none)
  else if ← systemCall (.fileExists published) then
    if ← systemCall (.remove file) then
      if storage.isMultiTiered then
        let stored ← storeBlockOn build storage buffer true blockIndex false (some blockHash)
        return (stored, storage.setStashBlockId blockIndex none)
      else return (some blockHash, storage.setStashBlockId blockIndex none)
    else return (none, storage)
  else return (none, storage)

/-- The same in the build with compression: the content is stored anew and the
stash file removed. -/
def commitByStore (build : Build Hash) (storage : BlockStorage Hash)
    (buffer : List Byte) (blockIndex : ℕ) (file : DataFile Hash)
    (blockHash : Hash) : StorageProgram Hash (Option Hash × BlockStorage Hash) := do
  match ← storeBlockOn build storage buffer true blockIndex false (some blockHash) with
  | none => return (none, storage)
  | some stored =>
      if ← systemCall (.remove file) then
        return (some stored, storage.setStashBlockId blockIndex none)
      else return (none, storage.setStashBlockId blockIndex none)

/-- Store a stashed block under its hash and drop its stash file. -/
def commitStashBlock (build : Build Hash) (storage : BlockStorage Hash)
    (blockIndex : ℕ) : StorageProgram Hash (Option Hash × BlockStorage Hash) := do
  match storage.stashBlockIds blockIndex with
  | none => .exit
  | some uuid =>
      let file := DataFile.stash storage.stashDirectory uuid
      let buffer ← readStash storage file
      let blockHash := build.computeHash buffer
      let directory ← getBlocksSubdirectory build storage blockHash storage.isMultiTiered
      let published := DataFile.block directory.1 directory.2 blockHash
      if ← systemCall (.fileExists published) then
        if ← systemCall (.remove file) then
          return (some blockHash, storage.setStashBlockId blockIndex none)
        else return (none, storage)
      else if build.useCompression then
        commitByStore build storage buffer blockIndex file blockHash
      else commitByRename build storage buffer blockIndex file published blockHash

def copyToStash (baseBlock stashBlock : DataFile Hash) : StorageProgram Hash Bool := do
  if ← systemCall (.fileExists stashBlock) then return true
  else systemCall (.copyFile baseBlock stashBlock)

/-- The subdirectory to read a named block from; with two tiers the block is
copied to the stash tier on its first use. -/
def getBlockFullPath (build : Build Hash) (storage : BlockStorage Hash)
    (blockIndex : ℕ) (blockHash : Hash) :
    StorageProgram Hash ((Path × ℕ) × BlockStorage Hash) := do
  let baseSubdir ← getBlocksSubdirectory build storage blockHash false
  if storage.isMultiTiered then
    let stashSubdir ← getBlocksSubdirectory build storage blockHash true
    if (storage.stashCommittedBlockIds blockIndex).isSome then
      return (stashSubdir, storage)
    else if ← copyToStash (.block baseSubdir.1 baseSubdir.2 blockHash)
        (.block stashSubdir.1 stashSubdir.2 blockHash) then
      return (stashSubdir,
        { storage with
          stashCommittedBlockIds :=
            Function.update storage.stashCommittedBlockIds blockIndex
              (some (some blockHash)) })
    else .exit
  else return (baseSubdir, storage)

/-- The stash file of a block, if it has one. -/
def getBlockStashPath (storage : BlockStorage Hash) (blockIndex : ℕ) :
    Option (DataFile Hash) :=
  (storage.stashBlockIds blockIndex).map (.stash storage.stashDirectory)

/-! ## Opening a block storage -/

/-- The stash directory is created when it is missing; an empty path is none. -/
def prepareStashDirectory (stashDirectory : Path) : StorageProgram Hash Unit := do
  if stashDirectory = [] then return ()
  else if ← systemCall (.directoryExists (.path stashDirectory)) then return ()
  else if ← systemCall (.createDirectory (.path stashDirectory)) then return ()
  else .exit

def initial (baseDirectory stashDirectory : Path) (blockGranularity : ℕ) :
    BlockStorage Hash where
  baseDirectory := baseDirectory
  stashDirectory := stashDirectory
  blockGranularity := blockGranularity
  stashBlockIds := fun _ => none
  stashCommittedBlockIds := fun _ => none

/-- Create a block storage.  The granularity is written only with a new blocks
directory. -/
def create (baseDirectory stashDirectory : Path) (blockGranularity : ℕ) :
    StorageProgram Hash (BlockStorage Hash) := do
  prepareStashDirectory stashDirectory
  if ← systemCall (.directoryExists (.path baseDirectory)) then
    return initial baseDirectory stashDirectory blockGranularity
  else if ← systemCall (.createDirectory (.path baseDirectory)) then
    systemCall (.openText (.granularity baseDirectory))
    systemCall (.writeText (.granularity baseDirectory) (.number blockGranularity))
    return initial baseDirectory stashDirectory blockGranularity
  else .exit

/-- Open a block storage.  A granularity that is not a number makes `std::stol`
throw, and the uncaught exception terminates the process. -/
def «open» (baseDirectory stashDirectory : Path) :
    StorageProgram Hash (BlockStorage Hash) := do
  prepareStashDirectory stashDirectory
  if ← systemCall (.directoryExists (.path baseDirectory)) then
    match ← systemCall (.readText (.granularity baseDirectory)) with
    | some (some (.number blockGranularity)) =>
        return initial baseDirectory stashDirectory blockGranularity
    | _ => .exit
  else .exit

end BlockStorage

end Privateer
