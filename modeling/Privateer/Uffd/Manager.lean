import Privateer.Data.LruPair
import Privateer.VirtualMemory.Base

/-!
# The UFFD virtual memory manager

The kernel reports faults as messages; `UFFD::handler` turns each one into a fault
event for the handler thread of its sub-region.  An iteration of that thread loads
the block or removes its write protection.  The kernel's part of the state, which
blocks have pages, which of them are write-protected and what they hold, is kept
with the manager's own fields.
-/

namespace Privateer

/-- A fault event; `address` is the address of the page. -/
structure FaultEvent where
  address : ℕ
  isWpFault : Bool
  isWriteFault : Bool
  deriving DecidableEq

structure UffdVirtualMemoryManager (Hash : Type)
    extends base : VirtualMemoryManagerBase Hash where
  regionStartAddress : ℕ
  numHandlingThreads : ℕ
  cleanLru : ℕ → List ℕ
  dirtyLru : ℕ → List ℕ
  stashSet : ℕ → Finset ℕ
  presentBlocks : ℕ → Finset ℕ
  tempBuffer : ℕ → List Byte
  installed : ℕ → Bool
  writeProtected : ℕ → Bool
  memory : ℕ → List Byte

namespace UffdVirtualMemoryManager

open BlockStorage (closeOrExit)

variable {Hash : Type}

/-! ## Constructors -/

/-- A manager that has just been constructed. -/
def initial (base : VirtualMemoryManagerBase Hash) (regionStartAddress numHandlingThreads : ℕ) :
    UffdVirtualMemoryManager Hash where
  base := base
  regionStartAddress := regionStartAddress
  numHandlingThreads := numHandlingThreads
  cleanLru := fun _ => []
  dirtyLru := fun _ => []
  stashSet := fun _ => ∅
  presentBlocks := fun _ => ∅
  tempBuffer := fun _ => List.replicate base.blockSize 0
  installed := fun _ => false
  writeProtected := fun _ => false
  memory := fun _ => List.replicate base.blockSize 0

/-! ## Addresses -/

def blockIndex (manager : UffdVirtualMemoryManager Hash) (address : ℕ) : ℕ :=
  (address - manager.regionStartAddress) / manager.blockSize

def blockAddress (manager : UffdVirtualMemoryManager Hash) (block : ℕ) : ℕ :=
  manager.regionStartAddress + block * manager.blockSize

/-- The sub-region whose queue gets the events of a block. -/
def subRegion (manager : UffdVirtualMemoryManager Hash) (block : ℕ) : ℕ :=
  block % manager.numHandlingThreads

/-! ## Faults -/

/-- The end of an eviction.  Without `MAP_FIXED`, `mmap` over the block leaves its
pages, their contents and their protection as they are. -/
def evicted (manager : UffdVirtualMemoryManager Hash) (subRegion toEvict : ℕ) :
    UffdVirtualMemoryManager Hash :=
  { manager with
    presentBlocks := Function.update manager.presentBlocks subRegion
      ((manager.presentBlocks subRegion).erase toEvict) }

/-- Evict the oldest clean block, or stash the oldest dirty one. -/
def evictIfNeeded (manager : UffdVirtualMemoryManager Hash) (subRegion : ℕ) :
    StorageProgram Hash (UffdVirtualMemoryManager Hash) := do
  if (manager.presentBlocks subRegion).card * manager.blockSize ≥ manager.maxMemSize then
    match (manager.cleanLru subRegion).getLast? with
    | some toEvict =>
        return evicted
          { manager with
            cleanLru := Function.update manager.cleanLru subRegion
              (manager.cleanLru subRegion).dropLast } subRegion toEvict
    | none =>
        match (manager.dirtyLru subRegion).getLast? with
        | none => .undefined
        | some toEvict =>
            let stashed ← manager.base.stash (manager.memory toEvict) toEvict
            return evicted
              { manager with
                base := stashed
                dirtyLru := Function.update manager.dirtyLru subRegion
                  (manager.dirtyLru subRegion).dropLast
                stashSet := Function.update manager.stashSet subRegion
                  (insert toEvict (manager.stashSet subRegion)) } subRegion toEvict
  else return manager

/-- `decompress` into the temporary buffer, which a corrupt file leaves alone. -/
def decompressInto (build : Build Hash) (bytes buffer : List Byte) : Option (List Byte) :=
  match build.decompress bytes with
  | none => some buffer
  | some content =>
      if content.length ≤ buffer.length then some (overwrite content buffer) else none

/-- Read a backing file into the temporary buffer of the sub-region. -/
def readBacking (build : Build Hash) (blockSize : ℕ) (file : DataFile Hash)
    (buffer : List Byte) : StorageProgram Hash (List Byte) := do
  if ← systemCall (.openFile file false) then
    if build.useCompression then
      match ← systemCall (.fileSize file) with
      | none => .exit
      | some compressedBlockSize =>
          match ← systemCall (.pread file compressedBlockSize) with
          | none => .exit
          | some bytes =>
              match decompressInto build bytes buffer with
              | none => .undefined
              | some decompressed =>
                  closeOrExit
                  return decompressed
    else
      match ← systemCall (.pread file blockSize) with
      | none => .exit
      | some bytes =>
          closeOrExit
          return overwrite bytes buffer
  else .exit

/-- `UFFDIO_COPY` or `UFFDIO_ZEROPAGE` of a whole block; pages that are there
already make it fail.  A block that was read is write-protected. -/
def install (manager : UffdVirtualMemoryManager Hash) (block : ℕ) (content : List Byte)
    (isWriteFault : Bool) : StorageProgram Hash (UffdVirtualMemoryManager Hash) :=
  if manager.installed block then .exit
  else
    return { manager with
      installed := Function.update manager.installed block true
      writeProtected := Function.update manager.writeProtected block (!isWriteFault)
      memory := Function.update manager.memory block content }

/-- `UFFDIO_WRITEPROTECT` of a whole block. -/
def protect (manager : UffdVirtualMemoryManager Hash) (block : ℕ) (isProtected : Bool) :
    UffdVirtualMemoryManager Hash :=
  { manager with
    writeProtected := Function.update manager.writeProtected block isProtected }

/-- `clean_lru.remove` and `dirty_lru.push_front`. -/
def moveToDirty (manager : UffdVirtualMemoryManager Hash) (subRegion block : ℕ) :
    UffdVirtualMemoryManager Hash :=
  { manager with
    cleanLru := Function.update manager.cleanLru subRegion
      (removeAll block (manager.cleanLru subRegion))
    dirtyLru := Function.update manager.dirtyLru subRegion
      (block :: manager.dirtyLru subRegion) }

/-- An event for a write-protected page, up to the wake of the block. -/
def handleWpFault (manager : UffdVirtualMemoryManager Hash) (subRegion block : ℕ) :
    StorageProgram Hash (UffdVirtualMemoryManager Hash) := do
  if manager.readOnly then .exit
  else
    let moved := manager.moveToDirty subRegion block
    if block ∈ manager.stashSet subRegion then
      let unstashed ← moved.base.unstash block
      return protect
        { moved with
          base := unstashed
          stashSet := Function.update manager.stashSet subRegion
            ((manager.stashSet subRegion).erase block) } block false
    else return moved.protect block false

/-- The list that a loaded block joins. -/
def makePresent (manager : UffdVirtualMemoryManager Hash) (subRegion block : ℕ)
    (isWriteFault : Bool) : UffdVirtualMemoryManager Hash :=
  let present := Function.update manager.presentBlocks subRegion
    (insert block (manager.presentBlocks subRegion))
  if isWriteFault then
    { manager with
      dirtyLru := Function.update manager.dirtyLru subRegion
        (block :: manager.dirtyLru subRegion)
      presentBlocks := present }
  else
    { manager with
      cleanLru := Function.update manager.cleanLru subRegion
        (block :: manager.cleanLru subRegion)
      presentBlocks := present }

variable [DecidableEq Hash]

/-- The contents that a block is loaded with, and the manager that has read them. -/
def loadContent (build : Build Hash) (manager : UffdVirtualMemoryManager Hash)
    (subRegion block : ℕ) :
    StorageProgram Hash (List Byte × UffdVirtualMemoryManager Hash) := do
  match manager.blockStorage.getBlockStashPath block with
  | some stashBackingBlockPath =>
      let content ← readBacking build manager.blockSize stashBackingBlockPath
        (manager.tempBuffer subRegion)
      return (content,
        { manager with tempBuffer := Function.update manager.tempBuffer subRegion content })
  | none =>
      if manager.blocksIds block = build.emptyBlockHash then
        return (List.replicate manager.blockSize 0, manager)
      else
        let path ← manager.blockStorage.getBlockFullPath build block (manager.blocksIds block)
        let content ← readBacking build manager.blockSize
          (.block path.1.1 path.1.2 (manager.blocksIds block)) (manager.tempBuffer subRegion)
        return (content,
          { manager with
            blockStorage := path.2
            tempBuffer := Function.update manager.tempBuffer subRegion content })

/-- An event for a missing page of a block that is not present, up to the wake. -/
def handleMissing (build : Build Hash) (manager : UffdVirtualMemoryManager Hash)
    (subRegion block : ℕ) (isWriteFault : Bool) :
    StorageProgram Hash (UffdVirtualMemoryManager Hash) := do
  let room ← evictIfNeeded manager subRegion
  let loaded ← loadContent build room subRegion block
  let filled ← install loaded.2 block loaded.1 isWriteFault
  return makePresent filled subRegion block isWriteFault

/-- `handler` has nothing to do for a missing page of a present block. -/
def skips (manager : UffdVirtualMemoryManager Hash) (subRegion : ℕ) (event : FaultEvent) : Bool :=
  manager.blockIndex event.address ∈ manager.presentBlocks subRegion && !event.isWpFault

/-- What an iteration of `handler` does with an event. -/
def handleEvent (build : Build Hash) (manager : UffdVirtualMemoryManager Hash)
    (subRegion : ℕ) (event : FaultEvent) :
    StorageProgram Hash (UffdVirtualMemoryManager Hash) :=
  if manager.skips subRegion event then return manager
  else if event.isWpFault then
    handleWpFault manager subRegion (manager.blockIndex event.address)
  else
    handleMissing build manager subRegion (manager.blockIndex event.address)
      event.isWriteFault

/-! ## Committing -/

/-- `clean_lru.push_front` of `msync`, which picks the list by the address of the block. -/
def pushClean (manager : UffdVirtualMemoryManager Hash) (block : ℕ) :
    UffdVirtualMemoryManager Hash :=
  let list := manager.blockAddress block % manager.numHandlingThreads
  { manager with
    cleanLru := Function.update manager.cleanLru list (block :: manager.cleanLru list) }

/-- A block that was stored becomes write-protected and clean. -/
def markStored (manager : UffdVirtualMemoryManager Hash) (block : ℕ) :
    UffdVirtualMemoryManager Hash :=
  (manager.protect block true).pushClean block

/-- `dirty_lru.clear`. -/
def clearDirty (manager : UffdVirtualMemoryManager Hash) (subRegion : ℕ) :
    UffdVirtualMemoryManager Hash :=
  { manager with dirtyLru := Function.update manager.dirtyLru subRegion [] }

/-- `msync` of a sub-region, before the table is written.  The workers mark their blocks
in the order in which they end. -/
def msyncBlocks (build : Build Hash) (manager : UffdVirtualMemoryManager Hash)
    (subRegion : ℕ) (schedule : MsyncSchedule) :
    StorageProgram Hash (UffdVirtualMemoryManager Hash) := do
  let committed ← manager.base.commitBlocks build (manager.dirtyLru subRegion) manager.memory
    (manager.stashSet subRegion) schedule
  return { ((committed.1.map Prod.fst).foldl markStored manager).clearDirty subRegion with
    base := committed.2
    stashSet := Function.update manager.stashSet subRegion ∅ }

def msyncSubRegion (build : Build Hash) (manager : UffdVirtualMemoryManager Hash)
    (subRegion : ℕ) (schedule : MsyncSchedule) :
    StorageProgram Hash (UffdVirtualMemoryManager Hash) := do
  let committed ← msyncBlocks build manager subRegion schedule
  committed.base.updateMetadata (committed.presentBlocks subRegion)
  return committed

/-- The sub-regions of one `msync`, each with the schedule of its workers. -/
def msyncSubRegions (build : Build Hash) (schedule : ℕ → MsyncSchedule) :
    List ℕ → UffdVirtualMemoryManager Hash →
      StorageProgram Hash (UffdVirtualMemoryManager Hash)
  | [], manager => return manager
  | subRegion :: rest, manager => do
      let committed ← msyncSubRegion build manager subRegion (schedule subRegion)
      msyncSubRegions build schedule rest committed

def msync (build : Build Hash) (manager : UffdVirtualMemoryManager Hash)
    (schedule : ℕ → MsyncSchedule) : StorageProgram Hash (UffdVirtualMemoryManager Hash) :=
  msyncSubRegions build schedule (List.range manager.numHandlingThreads) manager

/-- `snapshot` once the directory of the new version is there: the manager's
path points to it while `msync` runs. -/
def takeSnapshot (build : Build Hash) (manager : UffdVirtualMemoryManager Hash)
    (versionMetadataPath : Path) (schedule : ℕ → MsyncSchedule) :
    StorageProgram Hash (Bool × UffdVirtualMemoryManager Hash) := do
  let _ ← systemCall (.openMetadata versionMetadataPath true false)
  let _ ← systemCall .close
  let redirected := { manager with versionMetadataPath := versionMetadataPath }
  let committed ← msync build redirected schedule
  let restored := { committed with versionMetadataPath := manager.versionMetadataPath }
  writeTextFile (.blocksPath versionMetadataPath) (.path restored.blockStorage.baseDirectory)
  writeTextFile (.capacity versionMetadataPath) (.number restored.regionMaxCapacity)
  return (true, restored)

def snapshot (build : Build Hash) (manager : UffdVirtualMemoryManager Hash)
    (versionMetadataPath : Path) (schedule : ℕ → MsyncSchedule) :
    StorageProgram Hash (Bool × UffdVirtualMemoryManager Hash) := do
  if ← systemCall (.directoryExists (.path versionMetadataPath)) then
    if ← systemCall (.metadataExists versionMetadataPath) then return (false, manager)
    else takeSnapshot build manager versionMetadataPath schedule
  else if ← systemCall (.createDirectory (.path versionMetadataPath)) then
    takeSnapshot build manager versionMetadataPath schedule
  else return (false, manager)

/-! ## Accesses of the application -/

/-- The access that goes through without a fault. -/
def permits (manager : UffdVirtualMemoryManager Hash) (block : ℕ) (isWrite : Bool) : Bool :=
  manager.installed block && !(isWrite && manager.writeProtected block)

/-- The event of an access that does not go through. -/
def faultEvent (manager : UffdVirtualMemoryManager Hash) (address : ℕ) (isWrite : Bool) :
    FaultEvent :=
  if manager.installed (manager.blockIndex address) then ⟨address, true, false⟩
  else ⟨address, false, isWrite⟩

/-- An access of a thread whose faults are each handled before its next access: the
event is handled, the thread is woken, and the access is tried again. -/
def access (build : Build Hash) (manager : UffdVirtualMemoryManager Hash) (offset : ℕ)
    (isWrite : Bool) : StorageProgram Hash (UffdVirtualMemoryManager Hash) := do
  let block := offset / manager.blockSize
  if manager.permits block isWrite then return manager
  else
    let handled ← handleEvent build manager (manager.subRegion block)
      (manager.faultEvent (manager.regionStartAddress + offset) isWrite)
    if handled.permits block isWrite then return handled else .undefined

def readByte (build : Build Hash) (manager : UffdVirtualMemoryManager Hash) (offset : ℕ) :
    StorageProgram Hash (Byte × UffdVirtualMemoryManager Hash) := do
  let mapped ← access build manager offset false
  return ((mapped.memory (offset / mapped.blockSize)).getD (offset % mapped.blockSize) 0,
    mapped)

/-- The memory after a byte was written. -/
def writeMemory (manager : UffdVirtualMemoryManager Hash) (offset : ℕ) (byte : Byte) :
    UffdVirtualMemoryManager Hash :=
  let block := offset / manager.blockSize
  { manager with
    memory := Function.update manager.memory block
      ((manager.memory block).set (offset % manager.blockSize) byte) }

def writeByte (build : Build Hash) (manager : UffdVirtualMemoryManager Hash) (offset : ℕ)
    (byte : Byte) : StorageProgram Hash (UffdVirtualMemoryManager Hash) := do
  let mapped ← access build manager offset true
  return mapped.writeMemory offset byte

end UffdVirtualMemoryManager

end Privateer
