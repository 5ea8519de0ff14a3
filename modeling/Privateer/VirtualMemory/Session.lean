import Privateer.Data.Blocks
import Privateer.VirtualMemory.Backing

/-!
# What a session should show

The application reads and writes bytes of a region, commits and takes snapshots;
`flatReads` and `flatRegion` say what the same operations do to a plain array of
bytes.  A session starts with one of two constructors.  One that returns leaves a
storage side that backs the region: zeros for a new version, and what the version
denotes for an existing one.
-/

namespace Privateer

/-- The contents of every block of a region. -/
def regionBlocks (blockSize numBlocks : ℕ) (region : ℕ → Byte) :
    List (Option (List Byte)) :=
  (List.range numBlocks).map fun block => some (blockOf blockSize region block)

/-! ## Operations -/

/-- What the application does with an open region. -/
inductive Operation where
  | read (offset : ℕ)
  | write (offset : ℕ) (byte : Byte)
  | msync (schedule : MsyncSchedule)
  | snapshot (version : Path) (schedule : MsyncSchedule)

/-- An access of the application lies in the region. -/
def Operation.Within (size : ℕ) : Operation → Prop
  | .read offset => offset < size
  | .write offset _ => offset < size
  | .msync _ => True
  | .snapshot _ _ => True

instance (size : ℕ) (operation : Operation) : Decidable (operation.Within size) :=
  match operation with
  | .read offset => inferInstanceAs (Decidable (offset < size))
  | .write offset _ => inferInstanceAs (Decidable (offset < size))
  | .msync _ => .isTrue trivial
  | .snapshot _ _ => .isTrue trivial

/-- A read-only session does not write. -/
def Operation.Permitted (readOnly : Bool) : Operation → Prop
  | .write _ _ => readOnly = false
  | .read _ | .msync _ | .snapshot _ _ => True

instance (readOnly : Bool) (operation : Operation) : Decidable (operation.Permitted readOnly) :=
  match operation with
  | .read _ => .isTrue trivial
  | .write _ _ => inferInstanceAs (Decidable (readOnly = false))
  | .msync _ => .isTrue trivial
  | .snapshot _ _ => .isTrue trivial

theorem Operation.permitted_readWrite (operation : Operation) : operation.Permitted false := by
  cases operation with
  | read offset => trivial
  | write offset byte => rfl
  | msync schedule => trivial
  | snapshot version schedule => trivial

/-- The bytes that the reads return from a plain array. -/
def flatReads : List Operation → (ℕ → Byte) → List Byte
  | [], _ => []
  | .read offset :: rest, region => region offset :: flatReads rest region
  | .write offset byte :: rest, region =>
      flatReads rest (Function.update region offset byte)
  | .msync _ :: rest, region => flatReads rest region
  | .snapshot _ _ :: rest, region => flatReads rest region

/-- The plain array after the operations. -/
def flatRegion : List Operation → (ℕ → Byte) → ℕ → Byte
  | [], region => region
  | .read _ :: rest, region => flatRegion rest region
  | .write offset byte :: rest, region =>
      flatRegion rest (Function.update region offset byte)
  | .msync _ :: rest, region => flatRegion rest region
  | .snapshot _ _ :: rest, region => flatRegion rest region

theorem flatReads_cons (operation : Operation) (rest : List Operation) (region : ℕ → Byte) :
    flatReads (operation :: rest) region =
      flatReads [operation] region ++ flatReads rest (flatRegion [operation] region) := by
  cases operation with
  | read offset => rfl
  | write offset byte => rfl
  | msync schedule => rfl
  | snapshot version schedule => rfl

theorem flatRegion_cons (operation : Operation) (rest : List Operation) (region : ℕ → Byte) :
    flatRegion (operation :: rest) region = flatRegion rest (flatRegion [operation] region) := by
  cases operation with
  | read offset => rfl
  | write offset byte => rfl
  | msync schedule => rfl
  | snapshot version schedule => rfl

variable {Hash : Type} [DecidableEq Hash] {blocks : BlocksDirectory Hash}
variable {files files' : FileSystem Hash}

/-! ## The parts of the constructors -/

theorem run_prepareStashDirectory {stashPath : Path} (hpath : stashPath ≠ []) :
    (BlockStorage.prepareStashDirectory stashPath).run FileSystem.answer files =
      (.returned (), files.setDirectory (.path stashPath)) := by
  unfold BlockStorage.prepareStashDirectory
  rw [if_neg hpath]
  cases hdirectory : files.directories (.path stashPath) with
  | true =>
      rw [FileSystem.setDirectory_of_directories hdirectory]
      simp [FileSystem.answer, hdirectory]
  | false => simp [FileSystem.answer, hdirectory]

/-- The files after a block storage was created. -/
def storageFiles (files : FileSystem Hash) (blocksPath stashPath : Path)
    (blockGranularity : ℕ) : FileSystem Hash :=
  let prepared := files.setDirectory (.path stashPath)
  if prepared.directories (.path blocksPath) then prepared
  else (prepared.setDirectory (.path blocksPath)).setText (.granularity blocksPath)
    (some (some (.number blockGranularity)))

section StorageFiles

variable {blocksPath stashPath : Path} {blockGranularity : ℕ}

omit [DecidableEq Hash] in
theorem directories_storageFiles {directory : Directory} (hdirectory : files.directories directory) :
    (storageFiles files blocksPath stashPath blockGranularity).directories directory := by
  unfold storageFiles
  dsimp only
  split_ifs with hblocks
  · exact FileSystem.directories_setDirectory hdirectory
  · exact FileSystem.directories_setDirectory (FileSystem.directories_setDirectory hdirectory)

omit [DecidableEq Hash] in
theorem stashDirectory_storageFiles :
    (storageFiles files blocksPath stashPath blockGranularity).directories (.path stashPath) := by
  unfold storageFiles
  dsimp only
  split_ifs with hblocks
  · exact files.setDirectory_self _
  · exact FileSystem.directories_setDirectory (files.setDirectory_self _)

omit [DecidableEq Hash] in
theorem blocksDirectory_storageFiles :
    (storageFiles files blocksPath stashPath blockGranularity).directories (.path blocksPath) := by
  unfold storageFiles
  dsimp only
  split_ifs with hblocks
  · exact hblocks
  · exact (files.setDirectory (.path stashPath)).setDirectory_self _

omit [DecidableEq Hash] in
/-- A blocks directory that is there keeps its granularity. -/
theorem storageFiles_of_directory (hdirectory : files.directories (.path blocksPath)) :
    storageFiles files blocksPath stashPath blockGranularity =
      files.setDirectory (.path stashPath) := by
  unfold storageFiles
  exact if_pos (FileSystem.directories_setDirectory hdirectory)

omit [DecidableEq Hash] in
/-- Only the granularity is written. -/
theorem texts_storageFiles_of_ne {file : TextFile} (hfile : file ≠ .granularity blocksPath) :
    (storageFiles files blocksPath stashPath blockGranularity).texts file = files.texts file := by
  unfold storageFiles
  dsimp only
  split_ifs with hblocks
  · rfl
  · exact FileSystem.setText_of_ne _ hfile _

omit [DecidableEq Hash] in
theorem granularity_storageFiles (hother : stashPath ≠ blocksPath)
    (hgranularity : files.directories (.path blocksPath) →
      files.texts (.granularity blocksPath) = some (some (.number blockGranularity))) :
    (storageFiles files blocksPath stashPath blockGranularity).texts (.granularity blocksPath) =
      some (some (.number blockGranularity)) := by
  unfold storageFiles
  dsimp only
  split_ifs with hblocks
  · apply hgranularity
    have hne : Directory.path blocksPath ≠ .path stashPath := by simp [hother.symm]
    exact (Function.update_of_ne hne _ _).symm.trans hblocks
  · exact FileSystem.setText_self _ _ _

omit [DecidableEq Hash] in
theorem data_storageFiles :
    (storageFiles files blocksPath stashPath blockGranularity).data = files.data := by
  unfold storageFiles
  dsimp only
  split_ifs with hblocks
  · rfl
  · rfl

omit [DecidableEq Hash] in
theorem metadata_storageFiles :
    (storageFiles files blocksPath stashPath blockGranularity).metadata = files.metadata := by
  unfold storageFiles
  dsimp only
  split_ifs with hblocks
  · rfl
  · rfl

end StorageFiles

theorem run_createStorage {stashPath : Path} (hpath : stashPath ≠ []) (blocksPath : Path)
    (blockGranularity : ℕ) :
    (BlockStorage.create blocksPath stashPath blockGranularity).run FileSystem.answer files =
      (.returned (BlockStorage.initial blocksPath stashPath blockGranularity),
        storageFiles files blocksPath stashPath blockGranularity) := by
  unfold BlockStorage.create
  rw [Program.run_bind_of_returned (run_prepareStashDirectory hpath)]
  unfold storageFiles
  cases hdirectory : (files.setDirectory (.path stashPath)).directories (.path blocksPath) with
  | true => simp [FileSystem.answer, hdirectory]
  | false => simp [FileSystem.answer, hdirectory, FileSystem.setText_setText, TextFile.parent]

theorem createMetadataFiles_returned {version blocksPath : Path} {capacity : ℕ}
    (hdirectory : files.directories (.path version))
    (hrun : (createMetadataFiles version blocksPath capacity).run FileSystem.answer files =
      (.returned (), files')) :
    files' = files.writeVersion version [] blocksPath capacity := by
  cases hmetadata : files.metadata version with
  | none =>
      rw [run_createMetadataFiles hdirectory hmetadata] at hrun
      exact (Prod.mk.inj hrun).2.symm
  | some table => simp [createMetadataFiles, FileSystem.answer, hmetadata, Program.run] at hrun

/-- A version that was created has its three files, with an empty table. -/
theorem createVersionMetadata_returned {version blocksPath : Path} {capacity : ℕ}
    {allowOverwrite : Bool}
    (hrun : (createVersionMetadata version blocksPath capacity allowOverwrite).run
      FileSystem.answer files = (.returned (), files')) :
    files' = (files.setDirectory (.path version)).writeVersion version [] blocksPath
      capacity := by
  cases hdirectory : files.directories (.path version) with
  | false =>
      simp only [createVersionMetadata, Program.request_bind, Program.run_call,
        FileSystem.answer, hdirectory, Bool.false_eq_true, if_false, if_true] at hrun
      exact createMetadataFiles_returned (files.setDirectory_self _) hrun
  | true =>
      rw [FileSystem.setDirectory_of_directories hdirectory]
      cases allowOverwrite with
      | false => simp [createVersionMetadata, FileSystem.answer, hdirectory, Program.run] at hrun
      | true =>
          cases hmetadata : files.metadata version with
          | none =>
              simp only [createVersionMetadata, Program.request_bind, Program.run_call,
                FileSystem.answer, hdirectory, hmetadata, if_true, Option.isSome_none,
                Bool.false_eq_true, if_false] at hrun
              exact createMetadataFiles_returned hdirectory hrun
          | some table =>
              simp only [createVersionMetadata, Program.request_bind, Program.run_call,
                FileSystem.answer, hdirectory, hmetadata, if_true, Option.isSome_some] at hrun
              have hcleared : (files.setMetadata version none).directories (.path version) :=
                hdirectory
              rw [createMetadataFiles_returned hcleared hrun, FileSystem.writeVersion,
                FileSystem.writeVersion, FileSystem.setMetadata_setMetadata]

/-! ## A new version -/

/-- What the constructor for a new region leaves. -/
theorem VirtualMemoryManagerBase.create_returned {build : Build Hash}
    {regionMaxCapacity blockSize maxMemBlocks : ℕ} {version blocksPath stashPath : Path}
    {allowOverwrite : Bool} (hstash : stashPath ≠ [])
    {base : VirtualMemoryManagerBase Hash}
    (hrun : (VirtualMemoryManagerBase.create build regionMaxCapacity blockSize maxMemBlocks
      version blocksPath stashPath allowOverwrite).run FileSystem.answer files =
        (.returned base, files')) :
    ∃ capacity, capacity ≠ 0 ∧ base = VirtualMemoryManagerBase.initial version capacity
        blockSize maxMemBlocks false (BlockStorage.initial blocksPath stashPath blockSize)
          (fun _ => build.emptyBlockHash) ∧
      files' = storageFiles ((files.setDirectory (.path version)).writeVersion version []
        blocksPath capacity) blocksPath stashPath blockSize := by
  unfold VirtualMemoryManagerBase.create at hrun
  generalize (if regionMaxCapacity % blockSize ≠ 0 ∧ regionMaxCapacity ≠ 0 then
    (regionMaxCapacity / blockSize + 1) * blockSize else regionMaxCapacity) = capacity at hrun
  obtain ⟨⟨⟩, middle, hversion, hrest⟩ := Program.run_bind_returned hrun
  rw [Program.run_bind_of_returned (run_createStorage hstash _ _),
    createVersionMetadata_returned hversion] at hrest
  refine ⟨capacity, ?_⟩
  by_cases hcapacity : capacity = 0
  · simp [FileSystem.answer, hcapacity, Program.run] at hrest
  · simp only [Program.request_bind, Program.run_call, FileSystem.answer, hcapacity, ne_eq,
      not_false_eq_true, decide_true, if_true, Program.pure_eq, Program.run_finish, Prod.mk.injEq,
      Outcome.returned.injEq] at hrest
    exact ⟨hcapacity, hrest.1.symm, hrest.2.symm⟩

omit [DecidableEq Hash] in
/-- The files that it leaves have the new version. -/
theorem created_hasVersion {version stashPath : Path} (capacity : ℕ)
    (hversion : version ≠ blocks.location) (hother : stashPath ≠ blocks.location)
    (hgranularity : files.directories (.path blocks.location) →
      files.texts (.granularity blocks.location) = some (some (.number blocks.blockSize))) :
    blocks.HasVersion (storageFiles ((files.setDirectory (.path version)).writeVersion version []
        blocks.location capacity) blocks.location stashPath blocks.blockSize) version capacity [] ∧
      (storageFiles ((files.setDirectory (.path version)).writeVersion version []
        blocks.location capacity) blocks.location stashPath blocks.blockSize).directories
          (.path version) := by
  have hgranularity' : ((files.setDirectory (.path version)).writeVersion version []
      blocks.location capacity).directories (.path blocks.location) →
        ((files.setDirectory (.path version)).writeVersion version [] blocks.location
          capacity).texts (.granularity blocks.location) =
            some (some (.number blocks.blockSize)) := by
    intro hdirectory
    have hne : Directory.path blocks.location ≠ .path version := by simp [hversion.symm]
    rw [FileSystem.texts_writeVersion_of_ne (by simp) (by simp)]
    exact hgranularity ((Function.update_of_ne hne _ _).symm.trans hdirectory)
  refine ⟨⟨?_, ?_, ?_, ?_, Nat.zero_le _⟩, ?_⟩
  · exact (texts_storageFiles_of_ne (by simp)).trans FileSystem.blocksPath_writeVersion
  · exact (texts_storageFiles_of_ne (by simp)).trans FileSystem.capacity_writeVersion
  · exact granularity_storageFiles hother hgranularity'
  · exact (congrFun metadata_storageFiles _).trans FileSystem.metadata_writeVersion
  · exact directories_storageFiles (files.setDirectory_self _)

omit [DecidableEq Hash] in
/-- In a datastore that is there, a new version leaves the others alone. -/
theorem created_leavesOthers {version stashPath : Path} (capacity : ℕ)
    (hdirectory : files.directories (.path blocks.location)) :
    blocks.LeavesOthers version files (storageFiles ((files.setDirectory (.path version)).writeVersion
      version [] blocks.location capacity) blocks.location stashPath blocks.blockSize) := by
  have hdirectory' : ((files.setDirectory (.path version)).writeVersion version []
      blocks.location capacity).directories (.path blocks.location) :=
    FileSystem.directories_setDirectory hdirectory
  rw [storageFiles_of_directory hdirectory']
  refine ⟨fun directory hold => ?_, fun file hpath hcapacity => ?_, fun other hother => ?_,
    fun _ _ _ hbytes => hbytes⟩
  · exact FileSystem.directories_setDirectory (FileSystem.directories_setDirectory hold)
  · exact FileSystem.texts_writeVersion_of_ne hcapacity hpath
  · exact FileSystem.setMetadata_of_ne (files.setDirectory (.path version)) hother (some [])

/-! ## An existing version -/

theorem openStorage_returned {blocksPath stashPath : Path} {blockGranularity : ℕ}
    (hstash : stashPath ≠ []) (hgranularity : files.texts (.granularity blocksPath) =
      some (some (.number blockGranularity))) {storage : BlockStorage Hash}
    (hrun : (BlockStorage.open blocksPath stashPath).run FileSystem.answer files =
      (.returned storage, files')) :
    storage = BlockStorage.initial blocksPath stashPath blockGranularity ∧
      files' = files.setDirectory (.path stashPath) := by
  unfold BlockStorage.open at hrun
  rw [Program.run_bind_of_returned (run_prepareStashDirectory hstash)] at hrun
  have hprepared : (files.setDirectory (.path stashPath)).texts (.granularity blocksPath) =
      some (some (.number blockGranularity)) := hgranularity
  generalize files.setDirectory (.path stashPath) = prepared at hprepared hrun ⊢
  cases hdirectory : prepared.directories (.path blocksPath) with
  | true =>
      simp [FileSystem.answer, hdirectory, hprepared] at hrun
      exact ⟨hrun.1.symm, hrun.2.symm⟩
  | false => simp [FileSystem.answer, hdirectory, Program.run] at hrun

/-- What the constructor for an existing version leaves. -/
theorem VirtualMemoryManagerBase.open_returned {version stashPath : Path}
    {capacity maxMemBlocks : ℕ} {readOnly : Bool} {entries : List Hash} (hstash : stashPath ≠ [])
    (hversion : blocks.HasVersion files version capacity entries)
    {base : VirtualMemoryManagerBase Hash}
    (hrun : (VirtualMemoryManagerBase.open blocks.build version stashPath maxMemBlocks
      readOnly).run FileSystem.answer files = (.returned base, files')) :
    base = VirtualMemoryManagerBase.initial version capacity blocks.blockSize
        maxMemBlocks readOnly (BlockStorage.initial blocks.location stashPath blocks.blockSize)
          (fun block => entries.getD block blocks.build.emptyBlockHash) ∧
      files' = files.setDirectory (.path stashPath) := by
  have hblocksPath : (versionBlocksPath version).run FileSystem.answer files =
      (.returned blocks.location, files) := by
    simp [versionBlocksPath, FileSystem.answer, hversion.blocksPath]
  unfold VirtualMemoryManagerBase.open at hrun
  rw [Program.run_bind_of_returned hblocksPath] at hrun
  obtain ⟨storage, prepared, hstorage, hrest⟩ := Program.run_bind_returned hrun
  obtain ⟨rfl, rfl⟩ := openStorage_returned hstash hversion.granularity hstorage
  have hmetadata : (files.setDirectory (.path stashPath)).metadata version = some entries :=
    hversion.metadata
  have hcapacity : (versionCapacity version).run FileSystem.answer
      (files.setDirectory (.path stashPath)) =
        (.returned capacity, files.setDirectory (.path stashPath)) := by
    have htext : (files.setDirectory (.path stashPath)).texts (.capacity version) =
        some (some (.number capacity)) := hversion.capacityText
    simp [versionCapacity, FileSystem.answer, htext]
  simp only [Program.request_bind, Program.run_call, FileSystem.answer, hmetadata,
    Bool.false_and, Bool.not_false, if_true] at hrest
  rw [Program.run_bind_of_returned hcapacity] at hrest
  by_cases hzero : capacity = 0
  · simp [FileSystem.answer, hzero, Program.run] at hrest
  · simp only [Program.run_call, FileSystem.answer, hzero, ne_eq, not_false_eq_true,
      decide_true, if_true, hmetadata, Option.map_some, Option.getD_some, List.take_length,
      BlockStorage.initial, hversion.length_le, Program.pure_eq, Program.run_finish,
      Prod.mk.injEq, Outcome.returned.injEq] at hrest
    exact ⟨hrest.1.symm, hrest.2.symm⟩

/-- The constructor for a version that is there returns. -/
theorem VirtualMemoryManagerBase.run_open {version stashPath : Path} {capacity : ℕ}
    {entries : List Hash} (hstash : stashPath ≠ [])
    (hversion : blocks.HasVersion files version capacity entries)
    (hdirectory : files.directories (.path blocks.location)) (hcapacity : capacity ≠ 0)
    (maxMemBlocks : ℕ) (readOnly : Bool) :
    (VirtualMemoryManagerBase.open blocks.build version stashPath maxMemBlocks readOnly).run
      FileSystem.answer files =
        (.returned (VirtualMemoryManagerBase.initial version capacity blocks.blockSize
          maxMemBlocks readOnly (BlockStorage.initial blocks.location stashPath blocks.blockSize)
            fun block => entries.getD block blocks.build.emptyBlockHash),
          files.setDirectory (.path stashPath)) := by
  have hblocksPath : (versionBlocksPath version).run FileSystem.answer files =
      (.returned blocks.location, files) := by
    simp [versionBlocksPath, FileSystem.answer, hversion.blocksPath]
  let prepared := files.setDirectory (.path stashPath)
  have hprepared : prepared.directories (.path blocks.location) = true :=
    FileSystem.directories_setDirectory hdirectory
  have hgranularity : prepared.texts (.granularity blocks.location) =
      some (some (.number blocks.blockSize)) := hversion.granularity
  have hstorage : (BlockStorage.open blocks.location stashPath).run FileSystem.answer files =
      (.returned (BlockStorage.initial blocks.location stashPath blocks.blockSize : BlockStorage Hash),
        prepared) := by
    unfold BlockStorage.open
    rw [Program.run_bind_of_returned (run_prepareStashDirectory hstash)]
    change Program.run FileSystem.answer _ prepared = _
    simp [FileSystem.answer, hprepared, hgranularity]
  have hmetadata : prepared.metadata version = some entries := hversion.metadata
  have hcapacityText : (versionCapacity version).run FileSystem.answer prepared =
      (.returned capacity, prepared) := by
    have htext : prepared.texts (.capacity version) = some (some (.number capacity)) :=
      hversion.capacityText
    simp [versionCapacity, FileSystem.answer, htext]
  have hlength : entries.length ≤ capacity / blocks.blockSize := hversion.length_le
  unfold VirtualMemoryManagerBase.open
  rw [Program.run_bind_of_returned hblocksPath, Program.run_bind_of_returned hstorage]
  simp only [Program.request_bind, Program.run_call, FileSystem.answer, hmetadata,
    Bool.false_and, Bool.not_false, if_true]
  rw [Program.run_bind_of_returned hcapacityText]
  simp [FileSystem.answer, hcapacity, hmetadata, BlockStorage.initial, hlength, prepared]

/-! ## Well-formed starts -/

omit [DecidableEq Hash] in
theorem BlockStorage.initial_singleTiered {stashPath : Path}
    (htier : pathPrefix blocks.location = pathPrefix stashPath) :
    (BlockStorage.initial blocks.location stashPath blocks.blockSize).SingleTiered blocks :=
  ⟨rfl, rfl, by simp [BlockStorage.isMultiTiered, BlockStorage.initial, htier]⟩

namespace VirtualMemoryManagerBase

/-- What a constructor leaves. -/
structure Started (blocks : BlocksDirectory Hash) (base : VirtualMemoryManagerBase Hash)
    (files : FileSystem Hash) (contents : ℕ → List Byte) : Prop where
  blockSize : base.blockSize = blocks.blockSize
  blockSize_pos : 0 < blocks.blockSize
  limit : base.blockSize ≤ base.maxMemSize
  backing : Backing blocks base ∅ [] files contents
  version : ∃ entries, blocks.Intact files base.versionMetadataPath base.regionMaxCapacity
    entries

/-- A block storage that was just constructed backs what the names stand for. -/
theorem Backing.initial (hnamed : blocks.Named files) {stashPath : Path}
    (htier : pathPrefix blocks.location = pathPrefix stashPath)
    (hdirectory : files.directories (.path stashPath)) {capacity : ℕ} {blocksIds : ℕ → Hash}
    {contents : ℕ → List Byte} (hlength : ∀ block, (contents block).length = blocks.blockSize)
    (hnames : ∀ block < capacity / blocks.blockSize,
      blocks.Names files (blocksIds block) (contents block))
    (version : Path) (maxMemBlocks : ℕ) (readOnly : Bool) :
    Backing blocks (VirtualMemoryManagerBase.initial version capacity blocks.blockSize
      maxMemBlocks readOnly (BlockStorage.initial blocks.location stashPath blocks.blockSize)
        blocksIds) ∅ [] files contents where
  storage := BlockStorage.initial_singleTiered htier
  stashDirectory := hdirectory
  named := hnamed
  stashed_iff := by
    intro block
    simp [VirtualMemoryManagerBase.initial, BlockStorage.initial]
  stashed_lt := fun block hblock => absurd hblock (Finset.notMem_empty block)
  stash_injective := by
    intro block other uuid huuid
    cases huuid
  allocated := by
    rintro _ ⟨block, uuid, huuid, -⟩
    cases huuid
  dirty_unstashed := fun block hblock => absurd hblock List.not_mem_nil
  length := hlength
  backed := fun block hblock _ => hnames block hblock

omit [DecidableEq Hash] in
/-- There is room for one block. -/
theorem initial_limit (version : Path) (capacity blockSize maxMemBlocks : ℕ) (readOnly : Bool)
    (storage : BlockStorage Hash) (blocksIds : ℕ → Hash) :
    blockSize ≤ (VirtualMemoryManagerBase.initial version capacity blockSize maxMemBlocks
      readOnly storage blocksIds).maxMemSize := by
  have hlimit : 0 < if maxMemBlocks = 0 then maxMemDefaultBlocks else maxMemBlocks := by
    split_ifs with hzero
    · decide
    · exact Nat.pos_of_ne_zero hzero
  exact Nat.le_mul_of_pos_left _ hlimit

theorem Started.initial (hpos : 0 < blocks.blockSize) (hnamed : blocks.Named files)
    {stashPath version : Path} (htier : pathPrefix blocks.location = pathPrefix stashPath)
    (hdirectory : files.directories (.path stashPath)) {capacity : ℕ} {blocksIds : ℕ → Hash}
    {contents : ℕ → List Byte} (hlength : ∀ block, (contents block).length = blocks.blockSize)
    (hnames : ∀ block < capacity / blocks.blockSize,
      blocks.Names files (blocksIds block) (contents block))
    (hversion : ∃ entries, blocks.Intact files version capacity entries)
    (maxMemBlocks : ℕ) (readOnly : Bool) :
    Started blocks (VirtualMemoryManagerBase.initial version capacity blocks.blockSize
      maxMemBlocks readOnly (BlockStorage.initial blocks.location stashPath blocks.blockSize)
        blocksIds) files contents where
  blockSize := rfl
  blockSize_pos := hpos
  limit := initial_limit _ _ _ _ _ _ _
  backing := Backing.initial hnamed htier hdirectory hlength hnames _ _ _
  version := hversion

end VirtualMemoryManagerBase

/-! ## Both starts -/

/-- How a session starts: with a new version, or on an existing one. -/
inductive Start where
  | create (regionMaxCapacity blockSize maxMemBlocks : ℕ)
      (version blocksPath stashPath : Path) (allowOverwrite : Bool)
  | «open» (version stashPath : Path) (maxMemBlocks : ℕ)

def Start.stashPath : Start → Path
  | .create _ _ _ _ _ stashPath _ => stashPath
  | .open _ stashPath _ => stashPath

/-- The storage side of a read-write session. -/
def Start.base (build : Build Hash) : Start → StorageProgram Hash (VirtualMemoryManagerBase Hash)
  | .create regionMaxCapacity blockSize maxMemBlocks version blocksPath stashPath
      allowOverwrite =>
      VirtualMemoryManagerBase.create build regionMaxCapacity blockSize maxMemBlocks version
        blocksPath stashPath allowOverwrite
  | .open version stashPath maxMemBlocks =>
      VirtualMemoryManagerBase.open build version stashPath maxMemBlocks false

/-- The array that a session starts on: zeros, or what its version denotes. -/
def Start.region (build : Build Hash) (files : FileSystem Hash)
    (blockSize : ℕ) : Start → ℕ → Byte
  | .create _ _ _ _ _ _ _ => fun _ => 0
  | .open version _ _ => denotedByte build files version blockSize

/-- A start in one datastore: the constructor works on the given blocks directory
with a stash directory beside it, and the files it finds there were written by
the library. -/
structure Start.WellFormed (blocks : BlocksDirectory Hash) (files : FileSystem Hash)
    (start : Start) : Prop where
  named : blocks.Named files
  blockSize_pos : 0 < blocks.blockSize
  stashPath_ne_nil : start.stashPath ≠ []
  singleTiered : pathPrefix blocks.location = pathPrefix start.stashPath
  version : match start with
    | .create _ blockSize _ version blocksPath stashPath _ =>
        blocksPath = blocks.location ∧ blockSize = blocks.blockSize ∧
          version ≠ blocks.location ∧ stashPath ≠ blocks.location ∧
            (files.directories (.path blocks.location) →
              files.texts (.granularity blocks.location) =
                some (some (.number blocks.blockSize)))
    | .open version _ _ => ∃ capacity entries, blocks.Intact files version capacity entries

/-- How any session starts: one that writes, or a read-only one on an existing version. -/
inductive AnyStart where
  | readWrite (start : Start)
  | readOnly (version stashPath : Path) (maxMemBlocks : ℕ)

/-- The read-write start with the same version and directories. -/
def AnyStart.start : AnyStart → Start
  | .readWrite start => start
  | .readOnly version stashPath maxMemBlocks => .open version stashPath maxMemBlocks

/-- The storage side of any session. -/
def AnyStart.base (build : Build Hash) :
    AnyStart → StorageProgram Hash (VirtualMemoryManagerBase Hash)
  | .readWrite start => start.base build
  | .readOnly version stashPath maxMemBlocks =>
      VirtualMemoryManagerBase.open build version stashPath maxMemBlocks true

/-- A datastore with blocks of one byte. -/
def byteBlocks : BlocksDirectory (Option (List Byte)) where
  build := .transparent
  location := ['/', 'b']
  blockSize := 1

/-- A session on a new version with two blocks, one of which may be resident. -/
def twoBlocks : Start :=
  .create 2 1 1 ['/', 'v'] ['/', 'b'] ['/', 's'] false

theorem twoBlocks_wellFormed : twoBlocks.WellFormed byteBlocks FileSystem.empty where
  named := fun _ _ _ hbytes => by cases hbytes
  blockSize_pos := by decide
  stashPath_ne_nil := by decide
  singleTiered := by decide
  version := ⟨rfl, rfl, by decide, by decide, fun hdirectory => by cases hdirectory⟩

namespace VirtualMemoryManagerBase

/-- A new version starts on zeros. -/
theorem Started.of_create (hnamed : blocks.Named files) (hpos : 0 < blocks.blockSize)
    {stashPath version : Path} (hstash : stashPath ≠ [])
    (htier : pathPrefix blocks.location = pathPrefix stashPath)
    (hversion : version ≠ blocks.location) (hother : stashPath ≠ blocks.location)
    (hgranularity : files.directories (.path blocks.location) →
      files.texts (.granularity blocks.location) = some (some (.number blocks.blockSize)))
    {regionMaxCapacity maxMemBlocks : ℕ} {allowOverwrite : Bool}
    {base : VirtualMemoryManagerBase Hash}
    (hrun : (VirtualMemoryManagerBase.create blocks.build regionMaxCapacity blocks.blockSize
      maxMemBlocks version blocks.location stashPath allowOverwrite).run FileSystem.answer files =
        (.returned base, files')) :
    Started blocks base files' (blockOf blocks.blockSize fun _ => 0) ∧
      base.readOnly = false := by
  obtain ⟨capacity, -, rfl, rfl⟩ := create_returned hstash hrun
  let created := (files.setDirectory (.path version)).writeVersion version [] blocks.location
    capacity
  have hdata : (storageFiles created blocks.location stashPath blocks.blockSize).data =
      files.data := data_storageFiles
  have hnamed' : blocks.Named
      (storageFiles created blocks.location stashPath blocks.blockSize) := by
    unfold BlocksDirectory.Named
    rw [hdata]
    exact hnamed
  have hgranularity' : created.directories (.path blocks.location) →
      created.texts (.granularity blocks.location) = some (some (.number blocks.blockSize)) := by
    intro hdirectory
    have hne : Directory.path blocks.location ≠ .path version := by simp [hversion.symm]
    rw [FileSystem.texts_writeVersion_of_ne (by simp) (by simp)]
    exact hgranularity ((Function.update_of_ne hne _ _).symm.trans hdirectory)
  refine ⟨Started.initial hpos hnamed' htier stashDirectory_storageFiles
    (fun _ => length_blockOf _ _ _) (fun block _ => .inl ⟨rfl, by simp [blockOf]⟩)
    ⟨[], ⟨?_, ?_, ?_, ?_, Nat.zero_le _⟩, ?_, ?_⟩ _ _, rfl⟩
  · exact (texts_storageFiles_of_ne (by simp)).trans FileSystem.blocksPath_writeVersion
  · exact (texts_storageFiles_of_ne (by simp)).trans FileSystem.capacity_writeVersion
  · exact granularity_storageFiles hother hgranularity'
  · exact (congrFun metadata_storageFiles _).trans FileSystem.metadata_writeVersion
  · exact directories_storageFiles (files.setDirectory_self _)
  · exact fun name hname => absurd hname List.not_mem_nil

/-- An existing version starts on what it denotes. -/
theorem Started.of_open (hsound : blocks.build.Sound)
    (hcompression : blocks.build.useCompression = false) (hnamed : blocks.Named files)
    (hpos : 0 < blocks.blockSize) {stashPath version : Path} (hstash : stashPath ≠ [])
    (htier : pathPrefix blocks.location = pathPrefix stashPath) {capacity maxMemBlocks : ℕ}
    {entries : List Hash} (hintact : blocks.Intact files version capacity entries)
    {readOnly : Bool} {base : VirtualMemoryManagerBase Hash}
    (hrun : (VirtualMemoryManagerBase.open blocks.build version stashPath maxMemBlocks
      readOnly).run FileSystem.answer files = (.returned base, files')) :
    Started blocks base files' (blockOf blocks.blockSize
        (denotedByte blocks.build files version blocks.blockSize)) ∧
      base.readOnly = readOnly := by
  obtain ⟨rfl, rfl⟩ := open_returned hstash hintact.toHasVersion hrun
  have hpromises : blocks.Promises files _ :=
    BlocksDirectory.promises_createDirectory (.path stashPath)
  have hnames : ∀ block, blocks.Names files (entries.getD block blocks.build.emptyBlockHash)
      (blockOf blocks.blockSize (denotedByte blocks.build files version blocks.blockSize)
        block) := by
    intro block
    obtain ⟨content, hcontent⟩ := hintact.exists_names block
    have hblock := (BlocksDirectory.denotedBlock_eq_some_iff hsound hcompression hnamed
      hintact.toHasVersion block).mpr hcontent
    have hsame : blockOf blocks.blockSize
        (denotedByte blocks.build files version blocks.blockSize) block = content := by
      apply blockOf_eq_of_getD hcontent.length
      intro position hposition
      have hdiv : (block * blocks.blockSize + position) / blocks.blockSize = block := by
        rw [Nat.add_comm, Nat.add_mul_div_right _ _ hpos, Nat.div_eq_of_lt hposition,
          Nat.zero_add]
      have hmod : (block * blocks.blockSize + position) % blocks.blockSize = position := by
        rw [Nat.add_comm, Nat.add_mul_mod_self_right, Nat.mod_eq_of_lt hposition]
      unfold denotedByte
      rw [hdiv, hmod, hblock]
    rw [hsame]
    exact hcontent
  exact ⟨Started.initial hpos (hpromises.named hnamed).1 htier (files.setDirectory_self _)
    (fun _ => length_blockOf _ _ _) (fun block _ => (hnames block).keep (hpromises.named hnamed).2)
    ⟨entries, hintact.keep hnamed hpromises⟩ _ _, rfl⟩

/-- A constructor that returns leaves a storage side that backs the region. -/
theorem Started.of_start (hsound : blocks.build.Sound)
    (hcompression : blocks.build.useCompression = false) {start : Start}
    (hstart : start.WellFormed blocks files) {base : VirtualMemoryManagerBase Hash}
    (hrun : (start.base blocks.build).run FileSystem.answer files = (.returned base, files')) :
    Started blocks base files' (blockOf blocks.blockSize
        (start.region blocks.build files blocks.blockSize)) ∧
      base.readOnly = false := by
  cases start with
  | create regionMaxCapacity blockSize maxMemBlocks version blocksPath stashPath
      allowOverwrite =>
      obtain ⟨rfl, rfl, hversion, hother, hgranularity⟩ := hstart.version
      exact Started.of_create hstart.named hstart.blockSize_pos hstart.stashPath_ne_nil
        hstart.singleTiered hversion hother hgranularity hrun
  | «open» version stashPath maxMemBlocks =>
      obtain ⟨capacity, entries, hintact⟩ := hstart.version
      exact Started.of_open hsound hcompression hstart.named hstart.blockSize_pos
        hstart.stashPath_ne_nil hstart.singleTiered hintact hrun

end VirtualMemoryManagerBase

end Privateer
