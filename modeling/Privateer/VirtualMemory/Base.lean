import Privateer.Logic.Interleaving
import Privateer.Version.Metadata

/-!
# What both virtual memory managers share

The base class of the two managers holds the storage side of a session: the
version, the block storage and the names of the blocks.  Blocks are named by their
index in the region, where the source uses their addresses.  Both managers stash
evicted blocks, store dirty ones and commit stashed ones in the same way; each of
these loops is written once here.
-/

namespace Privateer

structure VirtualMemoryManagerBase (Hash : Type) where
  versionMetadataPath : Path
  regionMaxCapacity : ℕ
  blockSize : ℕ
  maxMemSize : ℕ
  readOnly : Bool
  blockStorage : BlockStorage Hash
  blocksIds : ℕ → Hash

/-- How the workers of one `msync` are scheduled: the calls of those that store
dirty blocks, and the order in which the others get the lock. -/
structure MsyncSchedule where
  storing : List ℕ
  committing : List ℕ

def maxMemDefaultBlocks : ℕ := 16384

namespace VirtualMemoryManagerBase

variable {Hash : Type}

def numBlocks (base : VirtualMemoryManagerBase Hash) : ℕ :=
  base.regionMaxCapacity / base.blockSize

/-- The number of entries that `update_metadata` writes: those up to the highest
resident block. -/
def occupiedBlocks (presentBlocks : Finset ℕ) : ℕ :=
  if presentBlocks = ∅ then 0 else presentBlocks.sup id + 1

/-! ## Constructors -/

/-- The fields that a constructor sets; `maxMemBlocks` is the environment's limit,
zero when it is not set. -/
def initial (versionMetadataPath : Path) (regionMaxCapacity blockSize maxMemBlocks : ℕ)
    (readOnly : Bool) (blockStorage : BlockStorage Hash) (blocksIds : ℕ → Hash) :
    VirtualMemoryManagerBase Hash where
  versionMetadataPath := versionMetadataPath
  regionMaxCapacity := regionMaxCapacity
  blockSize := blockSize
  maxMemSize := (if maxMemBlocks = 0 then maxMemDefaultBlocks else maxMemBlocks) * blockSize
  readOnly := readOnly
  blockStorage := blockStorage
  blocksIds := blocksIds

/-- The constructor for a new region, whose size is rounded up to whole blocks. -/
def create (build : Build Hash) (regionMaxCapacity blockSize maxMemBlocks : ℕ)
    (versionMetadataPath blocksPath stashPath : Path) (allowOverwrite : Bool) :
    StorageProgram Hash (VirtualMemoryManagerBase Hash) := do
  let capacity :=
    if regionMaxCapacity % blockSize ≠ 0 ∧ regionMaxCapacity ≠ 0 then
      (regionMaxCapacity / blockSize + 1) * blockSize
    else regionMaxCapacity
  createVersionMetadata versionMetadataPath blocksPath capacity allowOverwrite
  let blockStorage ← BlockStorage.create blocksPath stashPath blockSize
  if ← systemCall (.mmapRegion capacity) then
    return initial versionMetadataPath capacity blockSize maxMemBlocks false blockStorage
      fun _ => build.emptyBlockHash
  else .exit

/-- The constructor for an existing version.  A table that is longer than the
region has blocks is copied past the end of `blocks_ids`. -/
def «open» (build : Build Hash) (versionMetadataPath stashPath : Path)
    (maxMemBlocks : ℕ) (readOnly : Bool) :
    StorageProgram Hash (VirtualMemoryManagerBase Hash) := do
  let blocksPath ← versionBlocksPath versionMetadataPath
  let blockStorage ← BlockStorage.open blocksPath stashPath
  if ← systemCall (.openMetadata versionMetadataPath false false) then
    let metadataSize ← systemCall (.metadataSize versionMetadataPath)
    let capacity ← versionCapacity versionMetadataPath
    if ← systemCall (.mmapRegion capacity) then
      match ← systemCall (.preadMetadata versionMetadataPath metadataSize) with
      | none => .exit
      | some entries =>
          if entries.length ≤ capacity / blockStorage.blockGranularity then
            return initial versionMetadataPath capacity blockStorage.blockGranularity
              maxMemBlocks readOnly blockStorage
              fun blockIndex => entries.getD blockIndex build.emptyBlockHash
          else .undefined
    else .exit
  else .exit

/-! ## Stashing -/

/-- Stash an evicted block; a failure terminates the process. -/
def stash (base : VirtualMemoryManagerBase Hash) (content : List Byte) (blockIndex : ℕ) :
    StorageProgram Hash (VirtualMemoryManagerBase Hash) := do
  let stashed ← base.blockStorage.stashBlock content blockIndex
  if stashed.1 then return { base with blockStorage := stashed.2 } else .exit

/-- Remove the stash file of a block that is written to. -/
def unstash (base : VirtualMemoryManagerBase Hash) (blockIndex : ℕ) :
    StorageProgram Hash (VirtualMemoryManagerBase Hash) := do
  let unstashed ← base.blockStorage.unstashBlock blockIndex
  if unstashed.1 then return { base with blockStorage := unstashed.2 } else .exit

/-- A base whose block has lost its stash file. -/
def forgetStash (base : VirtualMemoryManagerBase Hash) (blockIndex : ℕ) :
    VirtualMemoryManagerBase Hash :=
  { base with blockStorage := base.blockStorage.setStashBlockId blockIndex none }

/-- Write the names up to the highest resident block over the start of the table. -/
def updateMetadata (base : VirtualMemoryManagerBase Hash) (presentBlocks : Finset ℕ) :
    StorageProgram Hash Unit := do
  if presentBlocks = ∅ then return ()
  else if ← systemCall (.openMetadata base.versionMetadataPath false false) then
    match ← systemCall (.pwriteMetadata base.versionMetadataPath
        ((List.range (occupiedBlocks presentBlocks)).map base.blocksIds)) with
    | none => .exit
    | some _ => BlockStorage.closeOrExit
  else .exit

/-! ## Committing -/

/-- Store one dirty block; a block that cannot be stored terminates the process. -/
def storeDirty (build : Build Hash) (base : VirtualMemoryManagerBase Hash)
    (content : List Byte) (blockIndex : ℕ) : StorageProgram Hash Hash := do
  match ← base.blockStorage.storeBlock build content true blockIndex with
  | none => .exit
  | some blockHash => return blockHash

/-- The workers that store dirty blocks, with the names in the order in which the
workers end. -/
def storeDirtyBlocks (build : Build Hash) (base : VirtualMemoryManagerBase Hash)
    (dirtyLru : List ℕ) (memory : ℕ → List Byte) (schedule : List ℕ) :
    StorageProgram Hash (List (ℕ × Hash)) :=
  Program.interleave schedule
    (dirtyLru.map fun blockIndex =>
      (blockIndex, storeDirty build base (memory blockIndex) blockIndex))

/-- The name that a worker records once its block is stored. -/
def recordStored (base : VirtualMemoryManagerBase Hash) (stored : ℕ × Hash) :
    VirtualMemoryManagerBase Hash :=
  { base with
    blockStorage := base.blockStorage.noteStored stored.1
    blocksIds := Function.update base.blocksIds stored.1 stored.2 }

/-- The workers that commit stash files hold a lock while they do so. -/
def commitStashed (build : Build Hash) :
    List ℕ → VirtualMemoryManagerBase Hash →
      StorageProgram Hash (VirtualMemoryManagerBase Hash)
  | [], base => return base
  | blockIndex :: rest, base => do
      let committed ← base.blockStorage.commitStashBlock build blockIndex
      match committed.1 with
      | none => .exit
      | some blockHash =>
          commitStashed build rest
            { base with
              blockStorage := committed.2
              blocksIds := Function.update base.blocksIds blockIndex blockHash }

/-- The stashed blocks in the order of their addresses. -/
def stashVector (base : VirtualMemoryManagerBase Hash) (stashSet : Finset ℕ) : List ℕ :=
  (List.range base.numBlocks).filter (· ∈ stashSet)

/-- What `msync` does to the storage side: the dirty blocks are stored and their names
recorded, then the stashed blocks are committed. -/
def commitBlocks (build : Build Hash) (base : VirtualMemoryManagerBase Hash)
    (dirtyLru : List ℕ) (memory : ℕ → List Byte) (stashSet : Finset ℕ)
    (schedule : MsyncSchedule) :
    StorageProgram Hash (List (ℕ × Hash) × VirtualMemoryManagerBase Hash) := do
  let stored ← storeDirtyBlocks build base dirtyLru memory schedule.storing
  let recorded := stored.foldl recordStored base
  let committed ← commitStashed build
    (Program.arrange schedule.committing (recorded.stashVector stashSet)) recorded
  return (stored, committed)

/-- Each dirty block is stored once. -/
theorem returns_commitBlocks {build : Build Hash} {base : VirtualMemoryManagerBase Hash}
    {dirtyLru : List ℕ} {memory : ℕ → List Byte} {stashSet : Finset ℕ}
    {schedule : MsyncSchedule} {committed : List (ℕ × Hash) × VirtualMemoryManagerBase Hash}
    (hreturns : (commitBlocks build base dirtyLru memory stashSet schedule).Returns committed) :
    (committed.1.map Prod.fst).Perm dirtyLru := by
  obtain ⟨stored, hstored, hrest⟩ := Program.returns_bind.mp hreturns
  obtain ⟨_, -, hlast⟩ := Program.returns_bind.mp hrest
  cases hlast
  have hperm := Program.returns_interleave hstored
  have hlabels : (dirtyLru.map fun block =>
      (block, storeDirty build base (memory block) block)).map Prod.fst = dirtyLru := by
    rw [List.map_map]
    exact List.map_id _
  rwa [hlabels] at hperm

end VirtualMemoryManagerBase

end Privateer
