import Privateer.Sigaction.Manager
import Privateer.Uffd.Manager
import Privateer.Version.Denoted

/-!
# Two fault handlers, one load path

Both handlers fill a block that is not in memory from its stash file, from the file of
its name, or with zeros.  Stash files hold the block as it is, files of names hold it
as the build stores blocks.  The SIGACTION handler reads each kind in its own way; the
UFFD handler of the build with compression decompresses both.
-/

namespace Privateer

variable {Hash : Type}

namespace BlockStorage

/-- The storage has a file with these bytes to give out for the name of a block: it is
on the base tier, and a copy on the stash tier is the same. -/
structure Provides (build : Build Hash) (storage : BlockStorage Hash) (files : FileSystem Hash)
    (block : ℕ) (name : Hash) (bytes : List Byte) : Prop where
  base : files.data (storage.tierFile build name false) = some bytes
  copy : storage.isMultiTiered = true → ∀ other,
    files.data (storage.tierFile build name true) = some other → other = bytes
  noted : storage.isMultiTiered = true → (storage.stashCommittedBlockIds block).isSome →
    files.data (storage.tierFile build name true) = some bytes

variable [DecidableEq Hash] {build : Build Hash} {storage : BlockStorage Hash}
variable {files : FileSystem Hash} {block : ℕ} {name : Hash} {bytes : List Byte}

/-- Looking up a subdirectory leaves all files as they are. -/
theorem run_getBlocksSubdirectory (build : Build Hash) (storage : BlockStorage Hash)
    (files : FileSystem Hash) (name : Hash) (onStash : Bool) :
    ∃ files', (getBlocksSubdirectory build storage name onStash).run FileSystem.answer files =
        (.returned (if onStash then storage.stashDirectory else storage.baseDirectory,
          build.prefixIndex name % numSubdirs), files') ∧ files'.data = files.data := by
  generalize hbase : (if onStash then storage.stashDirectory else storage.baseDirectory) = base
  cases hdirectory : files.directories
      (.subdirectory base (build.prefixIndex name % numSubdirs)) with
  | true =>
      refine ⟨files, ?_, rfl⟩
      simp [getBlocksSubdirectory, hbase, FileSystem.answer, hdirectory]
  | false =>
      refine ⟨files.setDirectory (.subdirectory base (build.prefixIndex name % numSubdirs)), ?_,
        rfl⟩
      simp [getBlocksSubdirectory, hbase, FileSystem.answer, hdirectory]

/-- The copy on the stash tier is made on first use. -/
theorem run_copyToStash {baseBlock stashBlock : DataFile Hash}
    (hbase : files.data baseBlock = some bytes)
    (hcopy : ∀ other, files.data stashBlock = some other → other = bytes) :
    ∃ files', (copyToStash baseBlock stashBlock).run FileSystem.answer files =
      (.returned true, files') ∧ files'.data stashBlock = some bytes := by
  cases hfound : files.data stashBlock with
  | some other =>
      obtain rfl := hcopy other hfound
      exact ⟨files, by simp [copyToStash, FileSystem.answer, hfound], hfound⟩
  | none =>
      refine ⟨files.setData stashBlock (some bytes), ?_, FileSystem.setData_self _ _ _⟩
      simp [copyToStash, FileSystem.answer, hfound, hbase, systemCall, Program.request]

/-- The path that the storage gives out for a name leads to the bytes. -/
theorem run_getBlockFullPath (hprovides : storage.Provides build files block name bytes) :
    ∃ path files', (getBlockFullPath build storage block name).run FileSystem.answer files =
      (.returned path, files') ∧ files'.data (.block path.1.1 path.1.2 name) = some bytes := by
  obtain ⟨baseFiles, hbaseRun, hbaseData⟩ :=
    run_getBlocksSubdirectory build storage files name false
  have hbase : baseFiles.data (storage.tierFile build name false) = some bytes := by
    rw [hbaseData]
    exact hprovides.base
  unfold getBlockFullPath
  rw [Program.run_bind_of_returned hbaseRun]
  cases htier : storage.isMultiTiered with
  | false => exact ⟨_, baseFiles, rfl, hbase⟩
  | true =>
      obtain ⟨stashFiles, hstashRun, hstashData⟩ :=
        run_getBlocksSubdirectory build storage baseFiles name true
      have hdata : stashFiles.data = files.data := hstashData.trans hbaseData
      simp only [if_true]
      rw [Program.run_bind_of_returned hstashRun]
      cases hnoted : (storage.stashCommittedBlockIds block).isSome with
      | true =>
          refine ⟨_, stashFiles, rfl, ?_⟩
          rw [hdata]
          exact hprovides.noted htier hnoted
      | false =>
          have hbase' : stashFiles.data (storage.tierFile build name false) = some bytes := by
            rw [hdata]
            exact hprovides.base
          have hcopy : ∀ other, stashFiles.data (storage.tierFile build name true) =
              some other → other = bytes := by
            rw [hdata]
            exact hprovides.copy htier
          obtain ⟨copied, hcopyRun, hcopied⟩ := run_copyToStash hbase' hcopy
          simp only [Bool.false_eq_true, if_false]
          refine ⟨_, copied, Program.run_bind_of_returned hcopyRun, hcopied⟩

end BlockStorage

/-- Where a block that is not in memory has its contents. -/
def VirtualMemoryManagerBase.Holds (build : Build Hash) (base : VirtualMemoryManagerBase Hash)
    (files : FileSystem Hash) (block : ℕ) (content : List Byte) : Prop :=
  match base.blockStorage.stashBlockIds block with
  | some uuid => files.data (.stash base.blockStorage.stashDirectory uuid) = some content
  | none =>
      (base.blocksIds block = build.emptyBlockHash ∧
        content = List.replicate base.blockSize 0) ∨
      (base.blocksIds block ≠ build.emptyBlockHash ∧
        base.blockStorage.Provides build files block (base.blocksIds block)
          (build.encode content))

variable [DecidableEq Hash] {build : Build Hash} {files : FileSystem Hash} {block blockSize : ℕ}
variable {file : DataFile Hash} {content : List Byte}

/-! ## The SIGACTION handler -/

namespace SigactionVirtualMemoryManager

/-- A stash file is read as it is. -/
theorem run_readBacking_stash (hdata : files.data file = some content)
    (hlength : content.length = blockSize) :
    (readBacking build blockSize file true).run FileSystem.answer files =
      (.returned content, files) := by
  have htake : content.take blockSize = content := List.take_of_length_le hlength.le
  have hresize : resize 0 blockSize content = content := resize_of_length_eq 0 hlength
  simp [readBacking, FileSystem.answer, hdata, htake, hresize, BlockStorage.closeOrExit]

/-- The file of a name is decoded. -/
theorem run_readBacking_named (hsound : build.Sound)
    (hfits : build.useCompression = true → (build.encode content).length ≤ blockSize)
    (hdata : files.data file = some (build.encode content))
    (hlength : content.length = blockSize) :
    (readBacking build blockSize file false).run FileSystem.answer files =
      (.returned content, files) := by
  let blocks : BlocksDirectory Hash := ⟨build, [], blockSize⟩
  have hdecode : decodeBlock build blockSize (build.encode content) = some content :=
    BlocksDirectory.decodeBlock_encode (show blocks.build.Sound from hsound) hlength hfits
  cases hcompression : build.useCompression with
  | true =>
      have hlarge : ¬ (build.encode content).length > blockSize := not_lt.mpr (hfits hcompression)
      simp [readBacking, FileSystem.answer, hdata, hcompression, hlarge, hdecode,
        BlockStorage.closeOrExit]
  | false =>
      have hencode : build.encode content = content := by
        rw [Build.encode, hcompression]
        rfl
      rw [hencode] at hdata
      have htake : content.take blockSize = content := List.take_of_length_le hlength.le
      have hresize : resize 0 blockSize content = content := resize_of_length_eq 0 hlength
      simp [readBacking, FileSystem.answer, hdata, hcompression, htake, hresize,
        BlockStorage.closeOrExit]

/-- The handler installs `content` into a block that is not in memory. -/
def Installs (build : Build Hash) (manager : SigactionVirtualMemoryManager Hash)
    (files : FileSystem Hash) (block : ℕ) (isWriteFault : Bool) (content : List Byte) : Prop :=
  ∃ loaded files', (loadAbsent build manager block isWriteFault).run FileSystem.answer files =
    (.returned loaded, files') ∧ loaded.memory block = content

variable {manager : SigactionVirtualMemoryManager Hash}

omit [DecidableEq Hash] in
theorem memory_makeResident (isWriteFault : Bool) :
    (makeResident manager block isWriteFault).memory = manager.memory := by
  cases isWriteFault with
  | true => rfl
  | false => rfl

/-- The SIGACTION handler loads what is held, in both builds. -/
theorem installs_of_holds (hsound : build.Sound)
    (hfits : build.useCompression = true → (build.encode content).length ≤ manager.blockSize)
    (hlength : content.length = manager.blockSize)
    (hholds : manager.base.Holds build files block content)
    (hmemory : manager.memory block = List.replicate manager.blockSize 0)
    (isWriteFault : Bool) : manager.Installs build files block isWriteFault content := by
  unfold Installs loadAbsent BlockStorage.getBlockStashPath
  unfold VirtualMemoryManagerBase.Holds at hholds
  cases huuid : manager.blockStorage.stashBlockIds block with
  | some uuid =>
      rw [huuid] at hholds
      have hread : (readBacking build manager.blockSize
          (.stash manager.blockStorage.stashDirectory uuid) true).run FileSystem.answer files =
            (.returned content, files) := run_readBacking_stash hholds hlength
      simp only [Option.map_some]
      rw [Program.run_bind_of_returned hread]
      cases isWriteFault with
      | false =>
          refine ⟨_, files, rfl, ?_⟩
          rw [memory_makeResident]
          exact Function.update_self _ _ _
      | true =>
          have hremove : (manager.base.unstash block).run FileSystem.answer files =
              (.returned (manager.base.forgetStash block),
                files.setData (.stash manager.blockStorage.stashDirectory uuid) none) := by
            simp [VirtualMemoryManagerBase.unstash, BlockStorage.unstashBlock, huuid,
              FileSystem.answer, hholds, VirtualMemoryManagerBase.forgetStash]
          simp only [if_true, unstash]
          rw [Program.bind_assoc, mapBlock, Program.run_bind_of_returned hremove]
          refine ⟨_, _, rfl, ?_⟩
          rw [memory_makeResident]
          exact Function.update_self _ _ _
  | none =>
      rw [huuid] at hholds
      rcases hholds with ⟨hempty, hzero⟩ | ⟨hnamed, hprovides⟩
      · simp only [Option.map_none, hempty, if_true]
        refine ⟨_, files, rfl, ?_⟩
        rw [memory_makeResident, hzero]
        exact hmemory
      · obtain ⟨path, found, hpath, hdata⟩ := BlockStorage.run_getBlockFullPath hprovides
        have hread : (readBacking build manager.blockSize
            (.block path.1.1 path.1.2 (manager.blocksIds block)) false).run FileSystem.answer found =
              (.returned content, found) := run_readBacking_named hsound hfits hdata hlength
        simp only [Option.map_none, if_neg hnamed]
        rw [Program.run_bind_of_returned hpath, Program.run_bind_of_returned hread]
        refine ⟨_, found, rfl, ?_⟩
        rw [memory_makeResident]
        exact Function.update_self _ _ _

end SigactionVirtualMemoryManager

/-! ## The UFFD handler -/

namespace UffdVirtualMemoryManager

variable {manager : UffdVirtualMemoryManager Hash} {subRegion : ℕ} {buffer : List Byte}

/-- The rest of the iteration once there is room. -/
def loadMissing (build : Build Hash) (manager : UffdVirtualMemoryManager Hash)
    (subRegion block : ℕ) (isWriteFault : Bool) :
    StorageProgram Hash (UffdVirtualMemoryManager Hash) := do
  let loaded ← loadContent build manager subRegion block
  let filled ← install loaded.2 block loaded.1 isWriteFault
  return makePresent filled subRegion block isWriteFault

theorem handleMissing_eq (isWriteFault : Bool) :
    handleMissing build manager subRegion block isWriteFault =
      evictIfNeeded manager subRegion >>= fun room =>
        loadMissing build room subRegion block isWriteFault := rfl

/-- What reading a file that holds a block as it is leaves in the buffer. -/
def readRaw (build : Build Hash) (content buffer : List Byte) : Option (List Byte) :=
  if build.useCompression then decompressInto build content buffer else some content

omit [DecidableEq Hash] in
theorem readRaw_eq_some_iff :
    readRaw build content buffer = some content ↔ build.useCompression = false ∨
      decompressInto build content buffer = some content := by
  unfold readRaw
  cases build.useCompression with
  | true => simp
  | false => simp

theorem run_readBacking_raw (hdata : files.data file = some content)
    (hlength : content.length = blockSize) (hbuffer : buffer.length = blockSize) :
    (readBacking build blockSize file buffer).run FileSystem.answer files =
      (match readRaw build content buffer with
        | some result => .returned result
        | none => .undefined, files) := by
  cases hcompression : build.useCompression with
  | true =>
      cases hresult : decompressInto build content buffer with
      | some result =>
          simp [readBacking, readRaw, FileSystem.answer, hdata, hcompression, hresult,
            BlockStorage.closeOrExit]
      | none =>
          simp [readBacking, readRaw, FileSystem.answer, hdata, hcompression, hresult,
            Program.run]
  | false =>
      have htake : content.take blockSize = content := List.take_of_length_le hlength.le
      have hoverwrite : overwrite content buffer = content :=
        overwrite_of_length_le (hbuffer.trans hlength.symm).le
      simp [readBacking, readRaw, FileSystem.answer, hdata, hcompression, htake, hoverwrite,
        BlockStorage.closeOrExit]

/-- The file of a name is decoded into the buffer. -/
theorem run_readBacking_encoded (hsound : build.Sound)
    (hdata : files.data file = some (build.encode content))
    (hlength : content.length = blockSize) (hbuffer : buffer.length = blockSize) :
    (readBacking build blockSize file buffer).run FileSystem.answer files =
      (.returned content, files) := by
  have hoverwrite : overwrite content buffer = content :=
    overwrite_of_length_le (hbuffer.trans hlength.symm).le
  cases hcompression : build.useCompression with
  | true =>
      have hencode : build.encode content = build.compress content := by
        rw [Build.encode, hcompression]
        rfl
      have hdecode : decompressInto build (build.compress content) buffer = some content := by
        rw [decompressInto, hsound.decompress_compress hcompression]
        simp only [(hlength.trans hbuffer.symm).le, if_true, hoverwrite]
      rw [hencode] at hdata
      simp [readBacking, FileSystem.answer, hdata, hcompression, hdecode,
        BlockStorage.closeOrExit]
  | false =>
      have hencode : build.encode content = content := by
        rw [Build.encode, hcompression]
        rfl
      rw [hencode] at hdata
      have htake : content.take blockSize = content := List.take_of_length_le hlength.le
      simp [readBacking, FileSystem.answer, hdata, hcompression, htake, hoverwrite,
        BlockStorage.closeOrExit]

/-- The handler installs `content` into a block that has no pages. -/
def Installs (build : Build Hash) (manager : UffdVirtualMemoryManager Hash)
    (files : FileSystem Hash) (subRegion block : ℕ) (isWriteFault : Bool)
    (content : List Byte) : Prop :=
  ∃ loaded files', (loadMissing build manager subRegion block isWriteFault).run
    FileSystem.answer files = (.returned loaded, files') ∧ loaded.memory block = content

omit [DecidableEq Hash] in
theorem memory_makePresent (isWriteFault : Bool) :
    (makePresent manager subRegion block isWriteFault).memory = manager.memory := by
  cases isWriteFault with
  | true => rfl
  | false => rfl

/-- Whatever was read into the buffer is installed. -/
theorem installs_iff_of_loadContent {loaded : List Byte × UffdVirtualMemoryManager Hash}
    {files' : FileSystem Hash} {isWriteFault : Bool}
    (hload : (loadContent build manager subRegion block).run FileSystem.answer files =
      (.returned loaded, files')) (hmissing : loaded.2.installed block = false) :
    manager.Installs build files subRegion block isWriteFault content ↔ loaded.1 = content := by
  have hinstall : install loaded.2 block loaded.1 isWriteFault =
      pure { loaded.2 with
        installed := Function.update loaded.2.installed block true
        writeProtected := Function.update loaded.2.writeProtected block (!isWriteFault)
        memory := Function.update loaded.2.memory block loaded.1 } := by
    rw [install, hmissing]
    rfl
  have hblock : Function.update loaded.2.memory block loaded.1 block = loaded.1 :=
    Function.update_self _ _ _
  unfold Installs loadMissing
  rw [Program.run_bind_of_returned hload, hinstall]
  constructor
  · rintro ⟨handled, final, hrun, hcontent⟩
    cases hrun
    rw [memory_makePresent] at hcontent
    exact hblock.symm.trans hcontent
  · intro hcontent
    refine ⟨_, files', rfl, ?_⟩
    rw [memory_makePresent]
    exact hblock.trans hcontent

/-- The UFFD handler loads what is held, unless it decompresses a stash file to
something else. -/
theorem installs_iff_of_holds (hsound : build.Sound)
    (hlength : content.length = manager.blockSize)
    (hholds : manager.base.Holds build files block content)
    (hmissing : manager.installed block = false)
    (hbuffer : (manager.tempBuffer subRegion).length = manager.blockSize)
    (isWriteFault : Bool) :
    manager.Installs build files subRegion block isWriteFault content ↔
      (manager.blockStorage.stashBlockIds block).isSome →
        readRaw build content (manager.tempBuffer subRegion) = some content := by
  unfold VirtualMemoryManagerBase.Holds at hholds
  cases huuid : manager.blockStorage.stashBlockIds block with
  | some uuid =>
      rw [huuid] at hholds
      have hread : (readBacking build manager.blockSize
          (.stash manager.blockStorage.stashDirectory uuid) (manager.tempBuffer subRegion)).run
            FileSystem.answer files = _ := run_readBacking_raw hholds hlength hbuffer
      have hpath : manager.blockStorage.getBlockStashPath block =
          some (.stash manager.blockStorage.stashDirectory uuid) := by
        rw [BlockStorage.getBlockStashPath, huuid]
        rfl
      cases hresult : readRaw build content (manager.tempBuffer subRegion) with
      | some result =>
          rw [hresult] at hread
          have hload : (loadContent build manager subRegion block).run FileSystem.answer files =
              (.returned (result, { manager with
                tempBuffer := Function.update manager.tempBuffer subRegion result }), files) := by
            simp only [loadContent, hpath]
            exact Program.run_bind_of_returned hread
          rw [installs_iff_of_loadContent hload hmissing]
          simp
      | none =>
          rw [hresult] at hread
          have hnever : ¬ manager.Installs build files subRegion block isWriteFault content := by
            rintro ⟨loaded, files', hrun, -⟩
            obtain ⟨read, between, hload, -⟩ := Program.run_bind_returned hrun
            simp only [loadContent, hpath] at hload
            obtain ⟨result, after, hreturned, -⟩ := Program.run_bind_returned hload
            cases hread.symm.trans hreturned
          simp [hnever]
  | none =>
      rw [huuid] at hholds
      have hpath : manager.blockStorage.getBlockStashPath block = none := by
        rw [BlockStorage.getBlockStashPath, huuid]
        rfl
      refine iff_of_true ?_ fun hsome => absurd hsome Bool.false_ne_true
      rcases hholds with ⟨hempty, hzero⟩ | ⟨hnamed, hprovides⟩
      · have hload : (loadContent build manager subRegion block).run FileSystem.answer files =
            (.returned (List.replicate manager.blockSize 0, manager), files) := by
          simp only [loadContent, hpath, hempty, if_true]
          rfl
        exact (installs_iff_of_loadContent hload hmissing).mpr hzero.symm
      · obtain ⟨path, found, hlookup, hdata⟩ := BlockStorage.run_getBlockFullPath hprovides
        have hread : (readBacking build manager.blockSize
            (.block path.1.1 path.1.2 (manager.blocksIds block))
            (manager.tempBuffer subRegion)).run FileSystem.answer found =
              (.returned content, found) :=
          run_readBacking_encoded hsound hdata hlength hbuffer
        have hload : (loadContent build manager subRegion block).run FileSystem.answer files =
            (.returned (content, { manager with
              base := { manager.base with blockStorage := path.2 }
              tempBuffer := Function.update manager.tempBuffer subRegion content }), found) := by
          simp only [loadContent, hpath, if_neg hnamed]
          rw [Program.run_bind_of_returned hlookup, Program.run_bind_of_returned hread]
          rfl
        exact (installs_iff_of_loadContent hload hmissing).mpr rfl

end UffdVirtualMemoryManager

/-! ## Both handlers -/

/-- The two handlers load what is held exactly when the block has no stash file, or the
stash file survives the way in which the UFFD handler reads it. -/
theorem handlers_load_same_iff (hsound : build.Sound)
    {sigaction : SigactionVirtualMemoryManager Hash} {uffd : UffdVirtualMemoryManager Hash}
    (hbase : sigaction.base = uffd.base) (hlength : content.length = uffd.blockSize)
    (hfits : build.useCompression = true → (build.encode content).length ≤ uffd.blockSize)
    (hholds : uffd.base.Holds build files block content)
    (hmemory : sigaction.memory block = List.replicate uffd.blockSize 0)
    (hmissing : uffd.installed block = false) {subRegion : ℕ}
    (hbuffer : (uffd.tempBuffer subRegion).length = uffd.blockSize) (isWriteFault : Bool) :
    (sigaction.Installs build files block isWriteFault content ∧
        uffd.Installs build files subRegion block isWriteFault content) ↔
      build.useCompression = false ∨ uffd.blockStorage.stashBlockIds block = none ∨
        UffdVirtualMemoryManager.decompressInto build content (uffd.tempBuffer subRegion) =
          some content := by
  rw [← hbase] at hlength hfits hmemory
  have hsigaction : sigaction.Installs build files block isWriteFault content :=
    sigaction.installs_of_holds hsound hfits hlength (hbase ▸ hholds) hmemory isWriteFault
  rw [hbase] at hlength
  rw [and_iff_right hsigaction,
    UffdVirtualMemoryManager.installs_iff_of_holds hsound hlength hholds hmissing hbuffer,
    UffdVirtualMemoryManager.readRaw_eq_some_iff]
  cases uffd.blockStorage.stashBlockIds block with
  | none => simp
  | some uuid => simp

/-- A storage with one block of one byte, which lies in a stash file. -/
def stashedByte : BlockStorage (Option (List Byte)) :=
  (BlockStorage.initial ['/', 'b'] ['/', 's'] 1).setStashBlockId 0 (some 0)

def stashedByteBase : VirtualMemoryManagerBase (Option (List Byte)) :=
  .initial ['/', 'v'] 1 1 1 false stashedByte fun _ => none

/-- A block that was stashed without compression. -/
theorem handlers_load_same_iff_stashedByte :
    ∃ files : FileSystem (Option (List Byte)),
      files.data (.stash ['/', 's'] 0) = some [7] ∧
      (SigactionVirtualMemoryManager.initial stashedByteBase).Installs .transparent files 0
        false [7] ∧
      (UffdVirtualMemoryManager.initial stashedByteBase 0 1).Installs .transparent files 0 0
        false [7] := by
  let files : FileSystem (Option (List Byte)) :=
    FileSystem.empty.setData (.stash ['/', 's'] 0) (some [7])
  have hdata : files.data (.stash ['/', 's'] 0) = some [7] := FileSystem.setData_self _ _ _
  have hholds : (UffdVirtualMemoryManager.initial stashedByteBase 0 1).base.Holds .transparent
      files 0 [7] := hdata
  have hbase : (SigactionVirtualMemoryManager.initial stashedByteBase).base =
      (UffdVirtualMemoryManager.initial stashedByteBase 0 1).base := rfl
  have hfits : Build.transparent.useCompression = true →
      (Build.transparent.encode [7]).length ≤ 1 := fun _ => le_rfl
  exact ⟨files, hdata, (handlers_load_same_iff Build.transparent_sound hbase rfl hfits hholds
    rfl rfl rfl false).mpr (.inl rfl)⟩

/-- A compressor that leaves blocks of one byte alone but for the zero block, which it
makes empty. -/
def Build.elided : Build (Option (List Byte)) where
  useCompression := true
  computeHash := some
  emptyBlockHash := none
  prefixIndex := fun _ => 0
  compress := fun
    | [byte] => if byte = 0 then [] else [byte]
    | content => 0 :: 0 :: content
  decompress := fun
    | [] => some [0]
    | [byte] => if byte = 0 then none else some [byte]
    | _ :: _ :: content => some content

theorem Build.elided_sound : Build.elided.Sound where
  computeHash_injective := Option.some_injective _
  computeHash_ne_empty := fun content => Option.some_ne_none content
  decompress_compress := fun _ content => by
    match content with
    | [] => rfl
    | [byte] =>
        by_cases hzero : byte = 0
        · simp [elided, hzero]
        · simp [elided, hzero]
    | _ :: _ :: _ => rfl

/-- A zero block was stashed.  Its stash file is no compressed block, so the UFFD
handler installs what the buffer holds from the last block it loaded. -/
theorem uffd_loads_other_block :
    ∃ storage files,
      ((BlockStorage.initial ['/', 'b'] ['/', 's'] 1).stashBlock [0] 0).run FileSystem.answer
        (FileSystem.empty.setDirectory (.path ['/', 's'])) =
          (.returned (true, storage), files) ∧
      ∀ base : VirtualMemoryManagerBase (Option (List Byte)),
        base = .initial ['/', 'v'] 1 1 1 false storage (fun _ => none) →
        (SigactionVirtualMemoryManager.initial base).Installs .elided files 0 false [0] ∧
        ∃ uffd : UffdVirtualMemoryManager (Option (List Byte)),
          uffd = { UffdVirtualMemoryManager.initial base 0 1 with tempBuffer := fun _ => [7] } ∧
          uffd.Installs .elided files 0 0 false [7] ∧
            ¬ uffd.Installs .elided files 0 0 false [0] := by
  refine ⟨_, _, rfl, ?_⟩
  rintro base rfl
  refine ⟨⟨_, _, rfl, rfl⟩, _, rfl, ⟨_, _, rfl, rfl⟩, ?_⟩
  rintro ⟨loaded, files, hrun, hcontent⟩
  cases hrun
  exact absurd hcontent (by decide)

end Privateer
