import Privateer.Data.LruPair
import Privateer.VirtualMemory.Base

/-!
# The SIGACTION virtual memory manager

The manager keeps a region of memory whose blocks are mapped without access
until they are used.  An access that the protection of its block forbids raises
SIGSEGV; `handler` then loads the block or records the write.  The kernel's part of
the state, the protection and the memory of each block, is kept with the manager's
own fields.
-/

namespace Privateer

/-- The access that the kernel allows to a block; a writable block is readable. -/
inductive Protection where
  | none
  | read
  | write
  deriving DecidableEq

def Protection.permits : Protection → Bool → Bool
  | .none, _ => false
  | .read, isWrite => !isWrite
  | .write, _ => true

structure SigactionVirtualMemoryManager (Hash : Type)
    extends base : VirtualMemoryManagerBase Hash where
  cleanLru : List ℕ
  dirtyLru : List ℕ
  stashSet : Finset ℕ
  presentBlocks : Finset ℕ
  protection : ℕ → Protection
  memory : ℕ → List Byte

namespace SigactionVirtualMemoryManager

open BlockStorage (closeOrExit)

variable {Hash : Type}

/-! ## Constructors -/

/-- A manager that has just been constructed. -/
def initial (base : VirtualMemoryManagerBase Hash) : SigactionVirtualMemoryManager Hash where
  base := base
  cleanLru := []
  dirtyLru := []
  stashSet := ∅
  presentBlocks := ∅
  protection := fun _ => .none
  memory := fun _ => List.replicate base.blockSize 0

def create (build : Build Hash) (regionMaxCapacity blockSize maxMemBlocks : ℕ)
    (versionMetadataPath blocksPath stashPath : Path) (allowOverwrite : Bool) :
    StorageProgram Hash (SigactionVirtualMemoryManager Hash) := do
  let base ← VirtualMemoryManagerBase.create build regionMaxCapacity blockSize maxMemBlocks
    versionMetadataPath blocksPath stashPath allowOverwrite
  return initial base

def «open» (build : Build Hash) (versionMetadataPath stashPath : Path)
    (maxMemBlocks : ℕ) (readOnly : Bool) :
    StorageProgram Hash (SigactionVirtualMemoryManager Hash) := do
  let base ← VirtualMemoryManagerBase.open build versionMetadataPath stashPath maxMemBlocks
    readOnly
  return initial base

/-! ## Faults -/

def protect (manager : SigactionVirtualMemoryManager Hash) (block : ℕ)
    (protection : Protection) : SigactionVirtualMemoryManager Hash :=
  { manager with protection := Function.update manager.protection block protection }

/-- `mprotect` without access and `madvise`, which zeroes the block. -/
def discard (manager : SigactionVirtualMemoryManager Hash) (block : ℕ) :
    SigactionVirtualMemoryManager Hash :=
  { manager with
    protection := Function.update manager.protection block .none
    memory := Function.update manager.memory block (List.replicate manager.blockSize 0)
    presentBlocks := manager.presentBlocks.erase block }

/-- Evict the oldest clean block, or stash the oldest dirty one. -/
def evictIfNeeded (manager : SigactionVirtualMemoryManager Hash) :
    StorageProgram Hash (SigactionVirtualMemoryManager Hash) := do
  if manager.presentBlocks.card * manager.blockSize ≥ manager.maxMemSize then
    match manager.cleanLru.getLast? with
    | some toEvict =>
        return discard { manager with cleanLru := manager.cleanLru.dropLast } toEvict
    | none =>
        match manager.dirtyLru.getLast? with
        | none => .undefined
        | some toEvict =>
            let stashed ← manager.base.stash (manager.memory toEvict) toEvict
            return discard
              { manager with
                base := stashed
                dirtyLru := manager.dirtyLru.dropLast
                stashSet := insert toEvict manager.stashSet } toEvict
  else return manager

/-- Read a backing file into a new buffer of one block. -/
def readBacking (build : Build Hash) (blockSize : ℕ) (file : DataFile Hash)
    (fromStash : Bool) : StorageProgram Hash (List Byte) := do
  if ← systemCall (.openFile file false) then
    if build.useCompression && !fromStash then
      match ← systemCall (.fileSize file) with
      | none => .exit
      | some compressedBlockSize =>
          if compressedBlockSize > blockSize then .exit
          else
            match ← systemCall (.pread file compressedBlockSize) with
            | none => .exit
            | some bytes =>
                match decodeBlock build blockSize bytes with
                | none => .undefined
                | some buffer =>
                    closeOrExit
                    return buffer
    else
      match ← systemCall (.pread file blockSize) with
      | none => .exit
      | some bytes =>
          closeOrExit
          return resize 0 blockSize bytes
  else .exit

/-- Remove the stash file of a block that is written to. -/
def unstash (manager : SigactionVirtualMemoryManager Hash) (blockIndex : ℕ) :
    StorageProgram Hash (SigactionVirtualMemoryManager Hash) := do
  let unstashed ← manager.base.unstash blockIndex
  return { manager with
    base := unstashed
    stashSet := manager.stashSet.erase blockIndex }

/-- `clean_lru.remove` and `dirty_lru.push_front`. -/
def moveToDirty (manager : SigactionVirtualMemoryManager Hash) (blockIndex : ℕ) :
    SigactionVirtualMemoryManager Hash :=
  { manager with
    cleanLru := removeAll blockIndex manager.cleanLru
    dirtyLru := blockIndex :: manager.dirtyLru }

/-- A fault on a resident block. -/
def handlePresent (manager : SigactionVirtualMemoryManager Hash) (blockIndex : ℕ)
    (isWriteFault : Bool) : StorageProgram Hash (SigactionVirtualMemoryManager Hash) := do
  if isWriteFault then
    let moved := manager.moveToDirty blockIndex
    if blockIndex ∈ moved.stashSet then
      let unstashed ← unstash moved blockIndex
      return unstashed.protect blockIndex .write
    else return moved.protect blockIndex .write
  else return manager.protect blockIndex .write

/-- The access that the block of a handled fault is mapped with. -/
def faultProtection (isWriteFault : Bool) : Protection :=
  if isWriteFault then .write else .read

/-- The last step of a fault on a block that was not resident. -/
def makeResident (manager : SigactionVirtualMemoryManager Hash) (blockIndex : ℕ)
    (isWriteFault : Bool) : SigactionVirtualMemoryManager Hash :=
  if isWriteFault then
    { manager with
      dirtyLru := blockIndex :: manager.dirtyLru
      presentBlocks := insert blockIndex manager.presentBlocks }
  else
    { manager with
      cleanLru := blockIndex :: manager.cleanLru
      presentBlocks := insert blockIndex manager.presentBlocks }

/-- Map a buffer that holds a block in the place of the block. -/
def mapBlock (manager : SigactionVirtualMemoryManager Hash) (blockIndex : ℕ)
    (buffer : List Byte) (protection : Protection) : SigactionVirtualMemoryManager Hash :=
  { manager with
    memory := Function.update manager.memory blockIndex buffer
    protection := Function.update manager.protection blockIndex protection }

variable [DecidableEq Hash]

/-- A fault on a block that is not resident, once there is room: its content
comes from its stash file, from the blocks directory, or is zero. -/
def loadAbsent (build : Build Hash) (manager : SigactionVirtualMemoryManager Hash)
    (blockIndex : ℕ) (isWriteFault : Bool) :
    StorageProgram Hash (SigactionVirtualMemoryManager Hash) := do
  match manager.blockStorage.getBlockStashPath blockIndex with
  | some stashBackingBlockPath =>
      let buffer ← readBacking build manager.blockSize stashBackingBlockPath true
      let loaded := manager.mapBlock blockIndex buffer (faultProtection isWriteFault)
      if isWriteFault then
        let unstashed ← unstash loaded blockIndex
        return unstashed.makeResident blockIndex isWriteFault
      else return loaded.makeResident blockIndex isWriteFault
  | none =>
      if manager.blocksIds blockIndex = build.emptyBlockHash then
        return (manager.protect blockIndex (faultProtection isWriteFault)).makeResident
          blockIndex isWriteFault
      else
        let path ← manager.blockStorage.getBlockFullPath build blockIndex
          (manager.blocksIds blockIndex)
        let buffer ← readBacking build manager.blockSize
          (.block path.1.1 path.1.2 (manager.blocksIds blockIndex)) false
        return (({ manager with blockStorage := path.2 }).mapBlock blockIndex buffer
          (faultProtection isWriteFault)).makeResident blockIndex isWriteFault

/-- The SIGSEGV handler for a fault on a block. -/
def handler (build : Build Hash) (manager : SigactionVirtualMemoryManager Hash)
    (blockIndex : ℕ) (isWriteFault : Bool) :
    StorageProgram Hash (SigactionVirtualMemoryManager Hash) := do
  if manager.readOnly && isWriteFault then .exit
  else if blockIndex ∈ manager.presentBlocks then
    handlePresent manager blockIndex isWriteFault
  else
    let room ← evictIfNeeded manager
    loadAbsent build room blockIndex isWriteFault

/-! ## Committing -/

/-- A block that was stored becomes read-only and clean. -/
def markStored (manager : SigactionVirtualMemoryManager Hash) (block : ℕ) :
    SigactionVirtualMemoryManager Hash :=
  { manager with
    protection := Function.update manager.protection block .read
    cleanLru := block :: manager.cleanLru }

/-- The part of `msync` before the table is written.  The workers mark their blocks in
the order in which they end. -/
def msyncBlocks (build : Build Hash) (manager : SigactionVirtualMemoryManager Hash)
    (schedule : MsyncSchedule) :
    StorageProgram Hash (SigactionVirtualMemoryManager Hash) := do
  let committed ← manager.base.commitBlocks build manager.dirtyLru manager.memory
    manager.stashSet schedule
  return { (committed.1.map Prod.fst).foldl markStored manager with
    base := committed.2
    dirtyLru := []
    stashSet := ∅ }

def occupiedBlocks (manager : SigactionVirtualMemoryManager Hash) : ℕ :=
  VirtualMemoryManagerBase.occupiedBlocks manager.presentBlocks

def updateMetadata (manager : SigactionVirtualMemoryManager Hash) :
    StorageProgram Hash Unit :=
  manager.base.updateMetadata manager.presentBlocks

def msync (build : Build Hash) (manager : SigactionVirtualMemoryManager Hash)
    (schedule : MsyncSchedule) :
    StorageProgram Hash (SigactionVirtualMemoryManager Hash) := do
  let committed ← msyncBlocks build manager schedule
  updateMetadata committed
  return committed

/-- `snapshot` once the directory of the new version is there: the manager's
path points to it while `msync` runs. -/
def takeSnapshot (build : Build Hash) (manager : SigactionVirtualMemoryManager Hash)
    (versionMetadataPath : Path) (schedule : MsyncSchedule) :
    StorageProgram Hash (Bool × SigactionVirtualMemoryManager Hash) := do
  let _ ← systemCall (.openMetadata versionMetadataPath true false)
  let _ ← systemCall .close
  let redirected := { manager with versionMetadataPath := versionMetadataPath }
  let committed ← msync build redirected schedule
  let restored := { committed with versionMetadataPath := manager.versionMetadataPath }
  writeTextFile (.blocksPath versionMetadataPath) (.path restored.blockStorage.baseDirectory)
  writeTextFile (.capacity versionMetadataPath) (.number restored.regionMaxCapacity)
  return (true, restored)

def snapshot (build : Build Hash) (manager : SigactionVirtualMemoryManager Hash)
    (versionMetadataPath : Path) (schedule : MsyncSchedule) :
    StorageProgram Hash (Bool × SigactionVirtualMemoryManager Hash) := do
  if ← systemCall (.directoryExists (.path versionMetadataPath)) then
    if ← systemCall (.metadataExists versionMetadataPath) then return (false, manager)
    else takeSnapshot build manager versionMetadataPath schedule
  else if ← systemCall (.createDirectory (.path versionMetadataPath)) then
    takeSnapshot build manager versionMetadataPath schedule
  else return (false, manager)

/-- `close` unmaps the region after a last `msync`. -/
def close (build : Build Hash) (manager : SigactionVirtualMemoryManager Hash)
    (schedule : MsyncSchedule) : StorageProgram Hash Unit := do
  let _ ← msync build manager schedule
  return ()

/-! ## Accesses of the application -/

/-- An access to a byte: if the protection of its block forbids it, the handler
runs and the access is tried again. -/
def access (build : Build Hash) (manager : SigactionVirtualMemoryManager Hash)
    (offset : ℕ) (isWrite : Bool) :
    StorageProgram Hash (SigactionVirtualMemoryManager Hash) := do
  let block := offset / manager.blockSize
  if (manager.protection block).permits isWrite then return manager
  else
    let handled ← handler build manager block isWrite
    if (handled.protection block).permits isWrite then return handled else .undefined

def readByte (build : Build Hash) (manager : SigactionVirtualMemoryManager Hash)
    (offset : ℕ) : StorageProgram Hash (Byte × SigactionVirtualMemoryManager Hash) := do
  let mapped ← access build manager offset false
  return ((mapped.memory (offset / mapped.blockSize)).getD (offset % mapped.blockSize) 0,
    mapped)

def writeByte (build : Build Hash) (manager : SigactionVirtualMemoryManager Hash)
    (offset : ℕ) (byte : Byte) :
    StorageProgram Hash (SigactionVirtualMemoryManager Hash) := do
  let mapped ← access build manager offset true
  let block := offset / mapped.blockSize
  return { mapped with
    memory := Function.update mapped.memory block
      ((mapped.memory block).set (offset % mapped.blockSize) byte) }

end SigactionVirtualMemoryManager

end Privateer
