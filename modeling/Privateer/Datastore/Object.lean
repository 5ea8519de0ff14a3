import Privateer.Sigaction.Manager

/-!
# The `Privateer` object of a SIGACTION build

An object creates and opens versions of one datastore.  Each call makes a manager with a
region of its own and registers it in the dispatcher, which finds the manager of a fault
by its address.  The object itself keeps one pointer, to the manager it made last.

Managers are numbered in the order in which they were made, and the number stands for the
pointer.  The kernel's choice of a start address is an argument of the calls.
-/

namespace Privateer

open Std (TreeMap)

/-! ## The dispatcher -/

/-- The maps of the dispatcher: the length and the manager of each region, by its start
address. -/
structure SigsegvHandlerDispatcher where
  regions : TreeMap ℕ ℕ
  regionManagers : TreeMap ℕ ℕ

namespace SigsegvHandlerDispatcher

def empty : SigsegvHandlerDispatcher where
  regions := ∅
  regionManagers := ∅

/-- `std::map::insert` keeps an entry that is there. -/
def addVirtualMemoryManager (dispatcher : SigsegvHandlerDispatcher) (addr length vmm : ℕ) :
    SigsegvHandlerDispatcher where
  regions := dispatcher.regions.insertIfNew addr length
  regionManagers := dispatcher.regionManagers.insertIfNew addr vmm

def removeVirtualMemoryManager (dispatcher : SigsegvHandlerDispatcher) (addr : ℕ) :
    SigsegvHandlerDispatcher where
  regions := dispatcher.regions.erase addr
  regionManagers := dispatcher.regionManagers.erase addr

/-- The manager of the first region, in the order of addresses, that a fault lies in. -/
def handlerOf (dispatcher : SigsegvHandlerDispatcher) (faultAddress : ℕ) : Option ℕ :=
  (dispatcher.regions.toList.find? fun region =>
    region.1 ≤ faultAddress ∧ faultAddress < region.1 + region.2).bind fun region =>
      dispatcher.regionManagers[region.1]?

end SigsegvHandlerDispatcher

/-! ## Objects -/

/-- A manager and the address that its region starts at. -/
structure MappedManager (Hash : Type) extends
    manager : SigactionVirtualMemoryManager Hash where
  regionStartAddress : ℕ

/-- A `Privateer` object, the managers that it has made, and the dispatcher of its
process.  `vmm` is not initialised before the first region. -/
structure PrivateerObject (Hash : Type) where
  baseDirPath : Path
  blocksDirPath : Path
  stashDirPath : Path
  blockSize : ℕ
  vmm : Option ℕ
  managers : List (MappedManager Hash)
  dispatcher : SigsegvHandlerDispatcher

/-- A path below a directory. -/
def Path.below (directory name : Path) : Path :=
  directory ++ '/' :: name

def blocksName : Path := ['b', 'l', 'o', 'c', 'k', 's']

def stashName : Path := ['s', 't', 'a', 's', 'h']

def fileGranularityDefaultBytes : ℕ := 2097152

/-- The block size that the environment asks for; a variable that is not set counts as
zero.  With a number of blocks in its place the size stays zero. -/
def initBlockSize (blockSizeVariable numBlocksVariable : ℕ) : ℕ :=
  if blockSizeVariable = 0 then
    if numBlocksVariable = 0 then fileGranularityDefaultBytes else 0
  else blockSizeVariable

namespace PrivateerObject

variable {Hash : Type}

/-- The fields that the constructors set. -/
def initial (basePath stashBasePath : Path) (blockSize : ℕ) : PrivateerObject Hash where
  baseDirPath := basePath
  blocksDirPath := basePath.below blocksName
  stashDirPath := stashBasePath.below stashName
  blockSize := blockSize
  vmm := none
  managers := []
  dispatcher := .empty

def createAction : ℕ := 0

def openAction : ℕ := 1

/-- The constructor without a stash path.  It uses a base directory that is there. -/
def construct (action : ℕ) (basePath : Path) (blockSizeVariable numBlocksVariable : ℕ) :
    StorageProgram Hash (PrivateerObject Hash) := do
  if action = createAction then
    if ← systemCall (.directoryExists (.path basePath)) then
      return initial basePath basePath (initBlockSize blockSizeVariable numBlocksVariable)
    else if ← systemCall (.createDirectory (.path basePath)) then
      return initial basePath basePath (initBlockSize blockSizeVariable numBlocksVariable)
    else .exit
  else if action = openAction then
    if ← systemCall (.directoryExists (.path basePath)) then
      return initial basePath basePath 0
    else .exit
  else .exit

/-- The constructor with a stash path never sets the block size. -/
def constructWithStash (action : ℕ) (basePath stashBasePath : Path) :
    StorageProgram Hash (PrivateerObject Hash) := do
  if action = createAction then
    if ← systemCall (.directoryExists (.path basePath)) then .exit
    else if ← systemCall (.createDirectory (.path basePath)) then
      if ← systemCall (.directoryExists (.path stashBasePath)) then
        return initial basePath stashBasePath 0
      else if ← systemCall (.createDirectory (.path stashBasePath)) then
        return initial basePath stashBasePath 0
      else .exit
    else .exit
  else if action = openAction then
    if ← systemCall (.directoryExists (.path stashBasePath)) then
      if ← systemCall (.directoryExists (.path basePath)) then
        return initial basePath stashBasePath 0
      else .exit
    else if ← systemCall (.createDirectory (.path stashBasePath)) then
      if ← systemCall (.directoryExists (.path basePath)) then
        return initial basePath stashBasePath 0
      else .exit
    else .exit
  else .exit

/-- The directory of a version. -/
def versionPath (object : PrivateerObject Hash) (version : Path) : Path :=
  object.baseDirPath.below version

/-- A manager was made and registered with this length. -/
def addManager (object : PrivateerObject Hash) (manager : SigactionVirtualMemoryManager Hash)
    (regionStartAddress length : ℕ) : PrivateerObject Hash :=
  { object with
    vmm := some object.managers.length
    managers := object.managers ++
      [{ manager := manager, regionStartAddress := regionStartAddress }]
    dispatcher := object.dispatcher.addVirtualMemoryManager regionStartAddress length
      object.managers.length }

/-- `create` registers the size that was asked for, before it was rounded up to blocks.  A
block size of zero is divided by. -/
def create (build : Build Hash) (object : PrivateerObject Hash) (version : Path)
    (regionSize maxMemBlocks : ℕ) (allowOverwrite : Bool) (address : ℕ) :
    StorageProgram Hash (PrivateerObject Hash) := do
  if object.blockSize = 0 then .undefined
  else
    let manager ← SigactionVirtualMemoryManager.create build regionSize object.blockSize
      maxMemBlocks (object.versionPath version) object.blocksDirPath object.stashDirPath
      allowOverwrite
    return object.addManager manager address regionSize

/-- `open`, and `open_read_only` when `readOnly` is set. -/
def «open» (build : Build Hash) (object : PrivateerObject Hash) (version : Path)
    (maxMemBlocks : ℕ) (readOnly : Bool) (address : ℕ) :
    StorageProgram Hash (PrivateerObject Hash) := do
  if ← systemCall (.directoryExists (.path (object.versionPath version))) then
    let manager ← SigactionVirtualMemoryManager.open build (object.versionPath version)
      object.stashDirPath maxMemBlocks readOnly
    return object.addManager manager address manager.regionMaxCapacity
  else .exit

/-- `open_immutable` opens a copy of the files of a version.  For a version that is not
there the source throws, which ends the process unless the caller catches it; nothing has
changed then. -/
def openImmutable (build : Build Hash) (object : PrivateerObject Hash)
    (version newVersion : Path) (maxMemBlocks address : ℕ) :
    StorageProgram Hash (PrivateerObject Hash) := do
  let source := object.versionPath version
  let target := object.versionPath newVersion
  if ← systemCall (.directoryExists (.path source)) then
    if ← systemCall (.directoryExists (.path target)) then .exit
    else
      let _ ← systemCall (.createDirectory (.path target))
      if ← systemCall (.copyMetadata source target) then
        if ← systemCall (.copyText (.capacity source) (.capacity target)) then
          if ← systemCall (.copyText (.blocksPath source) (.blocksPath target)) then
            object.open build newVersion maxMemBlocks false address
          else .exit
        else .exit
      else .exit
  else .exit

/-! ## Accesses -/

def setManager (object : PrivateerObject Hash) (index : ℕ) (mapped : MappedManager Hash) :
    PrivateerObject Hash :=
  { object with managers := object.managers.set index mapped }

variable [DecidableEq Hash]

/-- An access to the region of a manager.  If it faults, the dispatcher hands the fault to
the manager that is registered for the address, and the access is tried again. -/
def access (build : Build Hash) (object : PrivateerObject Hash) (index offset : ℕ)
    (isWrite : Bool) : StorageProgram Hash (PrivateerObject Hash) := do
  match object.managers[index]? with
  | none => .undefined
  | some mapped =>
      let block := offset / mapped.blockSize
      if (mapped.protection block).permits isWrite then return object
      else
        let faultAddress := mapped.regionStartAddress + offset
        match object.dispatcher.handlerOf faultAddress with
        | none => .exit
        | some target =>
            match object.managers[target]? with
            | none => .undefined
            | some handling =>
                let handled ← SigactionVirtualMemoryManager.handler build handling.manager
                  ((faultAddress - handling.regionStartAddress) / handling.blockSize) isWrite
                let retried := object.setManager target { handling with manager := handled }
                match retried.managers[index]? with
                | none => .undefined
                | some again =>
                    if (again.protection block).permits isWrite then return retried
                    else .undefined

def readByte (build : Build Hash) (object : PrivateerObject Hash) (index offset : ℕ) :
    StorageProgram Hash (Byte × PrivateerObject Hash) := do
  let accessed ← object.access build index offset false
  match accessed.managers[index]? with
  | none => .undefined
  | some mapped =>
      return ((mapped.memory (offset / mapped.blockSize)).getD (offset % mapped.blockSize) 0,
        accessed)

def writeByte (build : Build Hash) (object : PrivateerObject Hash) (index offset : ℕ)
    (byte : Byte) : StorageProgram Hash (PrivateerObject Hash) := do
  let accessed ← object.access build index offset true
  match accessed.managers[index]? with
  | none => .undefined
  | some mapped =>
      let block := offset / mapped.blockSize
      return accessed.setManager index
        { mapped with
          memory := Function.update mapped.memory block
            ((mapped.memory block).set (offset % mapped.blockSize) byte) }

/-! ## Commits -/

omit [DecidableEq Hash] in
/-- `msync` commits the region that was created or opened last. -/
def msync (build : Build Hash) (object : PrivateerObject Hash) (schedule : MsyncSchedule) :
    StorageProgram Hash (PrivateerObject Hash) := do
  match object.vmm with
  | none => .undefined
  | some index =>
      match object.managers[index]? with
      | none => .undefined
      | some mapped =>
          let committed ← SigactionVirtualMemoryManager.msync build mapped.manager schedule
          return object.setManager index { mapped with manager := committed }

omit [DecidableEq Hash] in
/-- The destructor takes the region of `vmm` out of the dispatcher and deletes the manager,
which commits and closes.  What is left is the dispatcher. -/
def destroy (build : Build Hash) (object : PrivateerObject Hash) (schedule : MsyncSchedule) :
    StorageProgram Hash SigsegvHandlerDispatcher := do
  match object.vmm with
  | none => .undefined
  | some index =>
      match object.managers[index]? with
      | none => .undefined
      | some mapped =>
          SigactionVirtualMemoryManager.close build mapped.manager schedule
          return object.dispatcher.removeVirtualMemoryManager mapped.regionStartAddress

end PrivateerObject

end Privateer
