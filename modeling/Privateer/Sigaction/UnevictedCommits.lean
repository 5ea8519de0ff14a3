import Privateer.Sigaction.MsyncSpec
import Privateer.Sigaction.Unevicted
import Privateer.VirtualMemory.Session

/-!
# Commits of SIGACTION sessions that evict nothing

`msync` writes the names of the blocks up to the highest resident one.  When nothing was
evicted, every block above it still has the name that the table had for it, so the table
then has the name of every block and the version denotes the region.  Other versions of
the datastore are left as they are.
-/

namespace Privateer

namespace SigactionVirtualMemoryManager

open VirtualMemoryManagerBase (SameSession)

variable {Hash : Type} [DecidableEq Hash] {blocks : BlocksDirectory Hash}
variable {manager : SigactionVirtualMemoryManager Hash} {files files' : FileSystem Hash}
variable {contents : ℕ → List Byte} {region : ℕ → Byte} {entries : List Hash}

/-! ## Storing the dirty blocks -/

omit [DecidableEq Hash] in
/-- Stored blocks are clean. -/
theorem KeepsPages.stored (hpages : manager.KeepsPages) {stored : List ℕ}
    (hperm : stored.Perm manager.dirtyLru) {marked : SigactionVirtualMemoryManager Hash}
    (hmarked : manager.Marked marked stored) {base : VirtualMemoryManagerBase Hash}
    (hbase : manager.base.SameSession base) :
    KeepsPages { marked with base := base, dirtyLru := [], stashSet := ∅ } where
  present := fun block => by
    change block ∈ marked.presentBlocks ↔ marked.protection block ≠ .none
    rw [hmarked.presentBlocks, hmarked.protection]
    split_ifs with hstored
    · have hdirty := (hpages.dirty block).mp (hperm.mem_iff.mp hstored)
      refine iff_of_true ((hpages.present block).mpr ?_) Protection.noConfusion
      rw [hdirty]
      exact Protection.noConfusion
    · exact hpages.present block
  dirty := fun block => by
    change block ∈ [] ↔ marked.protection block = .write
    rw [hmarked.protection]
    split_ifs with hstored
    · exact iff_of_false List.not_mem_nil id
    · rw [← hpages.dirty]
      exact iff_of_false List.not_mem_nil fun hdirty => hstored (hperm.mem_iff.mpr hdirty)
  nodup := List.nodup_nil
  stashSet := rfl
  present_lt := fun block hblock => by
    change block ∈ marked.presentBlocks at hblock
    rw [hmarked.presentBlocks] at hblock
    exact (hpages.present_lt block hblock).trans_eq hbase.numBlocks.symm

/-- What a commit has done before the table is written. -/
structure StoredAll (blocks : BlocksDirectory Hash)
    (manager committed : SigactionVirtualMemoryManager Hash) (files files' : FileSystem Hash) :
    Prop where
  session : manager.base.SameSession committed.base
  present : committed.presentBlocks = manager.presentBlocks
  clean : committed.dirtyLru = []
  blocksIds : ∀ block ∉ manager.presentBlocks,
    committed.blocksIds block = manager.blocksIds block
  promises : ∀ location, (blocks.at location).Promises files files'

/-- The part of a commit before the table is written. -/
theorem Unevicted.run_msyncBlocks (hsound : blocks.build.Sound)
    (hunevicted : Unevicted blocks contents manager files) (schedule : MsyncSchedule) :
    ∃ committed files', (msyncBlocks blocks.build manager schedule).run FileSystem.answer files =
        (.returned committed, files') ∧
      Unevicted blocks contents committed files' ∧
      StoredAll blocks manager committed files files' := by
  have hpages := hunevicted.pages
  have hdirty : ∀ block ∈ manager.dirtyLru, manager.memory block = contents block := by
    intro block hblock
    apply hunevicted.memory
    rw [hpages.present, (hpages.dirty block).mp hblock]
    exact Protection.noConfusion
  have hlength : ∀ block ∈ manager.dirtyLru,
      (manager.memory block).length = blocks.blockSize := fun block hblock => by
    rw [hdirty block hblock, hunevicted.length]
  obtain ⟨names, files', hrun, hperm, hnames, hpromises⟩ :=
    VirtualMemoryManagerBase.run_commitBlocks_tiers hsound hunevicted.granularity hunevicted.named
      hlength schedule
  obtain ⟨hnamed, hkeeps⟩ := hunevicted.named_of_tolerates fun location =>
    (hpromises location).toTolerates
  have hmem : ∀ block, block ∈ names.map Prod.fst ↔ block ∈ manager.dirtyLru :=
    fun block => hperm.mem_iff
  have hids := VirtualMemoryManagerBase.foldl_recordStored_blocksIds manager.base
    (hperm.nodup_iff.mpr hpages.nodup)
  obtain ⟨noted, blocksIds, hrecorded, hkept⟩ :=
    VirtualMemoryManagerBase.foldl_recordStored_eq manager.base names
  have hmarked := foldl_markStored manager (names.map Prod.fst)
  rw [hrecorded] at hids hrun
  have hstored : ∀ block ∈ manager.dirtyLru,
      blocks.Names files' (blocksIds block) (contents block) := by
    intro block hblock
    obtain ⟨entry, hentry, rfl⟩ := List.mem_map.mp ((hmem block).mpr hblock)
    have htier := hnames entry hentry _ BlockStorage.baseDirectory_mem_tiers
    rw [hunevicted.baseDirectory, hdirty _ hblock] at htier
    rw [show blocksIds entry.1 = entry.2 from hids entry hentry]
    exact .inr htier
  have hother : ∀ block ∉ manager.dirtyLru, noted block =
      manager.blockStorage.stashCommittedBlockIds block ∧
        blocksIds block = manager.blocksIds block :=
    fun block hblock => hkept block ((hmem block).not.mpr hblock)
  let marked := (names.map Prod.fst).foldl markStored manager
  have habsent : ∀ block ∉ marked.presentBlocks, block ∉ manager.presentBlocks :=
    fun block hblock => by rwa [hmarked.presentBlocks] at hblock
  let recorded : VirtualMemoryManagerBase Hash :=
    { manager.base with
      blockStorage := { manager.blockStorage with stashCommittedBlockIds := noted }
      blocksIds := blocksIds }
  refine ⟨{ marked with base := recorded, dirtyLru := [], stashSet := ∅ }, files', ?_,
    ⟨hpages.stored hperm hmarked ⟨rfl, rfl, rfl, rfl, rfl, rfl⟩,
    hunevicted.blockSize, hunevicted.baseDirectory, hunevicted.granularity, hunevicted.unstashed,
    fun block hblock => ?_, hunevicted.length, fun block hblock => ?_, fun block hblock => ?_,
    hnamed, fun block hblock _ => ?_⟩, ⟨⟨rfl, rfl, rfl, rfl, rfl, rfl⟩, hmarked.presentBlocks, rfl,
    fun block hblock => (hother block (hpages.not_dirty hblock)).2,
    hpromises⟩⟩
  · unfold msyncBlocks
    rw [hpages.stashSet, Program.run_bind_of_returned hrun]
    rfl
  · have hblock' := habsent block hblock
    exact (hother block (hpages.not_dirty hblock')).1.trans (hunevicted.unnoted block hblock')
  · change marked.memory block = contents block
    rw [hmarked.memory]
    exact hunevicted.memory block (hmarked.presentBlocks ▸ hblock)
  · change marked.memory block = _
    rw [hmarked.memory]
    exact hunevicted.zeros block (habsent block hblock)
  · by_cases hlisted : block ∈ manager.dirtyLru
    · exact hstored block hlisted
    · change blocks.Names files' (blocksIds block) (contents block)
      rw [(hother block hlisted).2]
      exact (hunevicted.names block hblock hlisted).keep hkeeps

/-! ## Sessions -/

/-- The table has the names of the blocks that are not resident. -/
structure Tabled (blocks : BlocksDirectory Hash) (manager : SigactionVirtualMemoryManager Hash)
    (files : FileSystem Hash) (entries : List Hash) : Prop where
  version : blocks.HasVersion files manager.versionMetadataPath manager.regionMaxCapacity entries
  absent : ∀ block ∉ manager.presentBlocks,
    entries.getD block blocks.build.emptyBlockHash = manager.blocksIds block

/-- A session that has evicted nothing, on its version. -/
structure UnevictedSession (blocks : BlocksDirectory Hash) (region : ℕ → Byte)
    (manager : SigactionVirtualMemoryManager Hash) (files : FileSystem Hash) : Prop where
  unevicted : Unevicted blocks (blockOf blocks.blockSize region) manager files
  blockSize_pos : 0 < blocks.blockSize
  table : ∃ entries, Tabled blocks manager files entries

theorem UnevictedSession.named (hsession : UnevictedSession blocks region manager files) :
    blocks.Named files := by
  have hnamed := hsession.unevicted.named _ BlockStorage.baseDirectory_mem_tiers
  rw [hsession.unevicted.baseDirectory] at hnamed
  exact hnamed

omit [DecidableEq Hash] in
/-- Accesses leave the table alone. -/
theorem Tabled.access {mapped : SigactionVirtualMemoryManager Hash}
    (htabled : Tabled blocks manager files entries)
    (haccessed : Accessed blocks manager mapped files files') :
    Tabled blocks mapped files' entries where
  version := by
    rw [haccessed.session.versionMetadataPath, haccessed.session.regionMaxCapacity]
    exact htabled.version.keep (haccessed.promises blocks.location)
  absent := fun block hblock => by
    rw [haccessed.blocksIds]
    exact htabled.absent block fun hpresent => hblock (haccessed.present hpresent)

/-- An access that goes through keeps the session. -/
theorem UnevictedSession.access_returned (hsound : blocks.build.Sound)
    (hsession : UnevictedSession blocks region manager files) {offset : ℕ}
    (hoffset : offset / manager.blockSize < manager.numBlocks)
    (hroom : manager.FindsRoom (offset / manager.blockSize)) {isWrite : Bool}
    {mapped : SigactionVirtualMemoryManager Hash}
    (hrun : (access blocks.build manager offset isWrite).run FileSystem.answer files =
      (.returned mapped, files')) :
    UnevictedSession blocks region mapped files' ∧ Accessed blocks manager mapped files files' ∧
      (mapped.protection (offset / manager.blockSize)).permits isWrite := by
  obtain ⟨entries, htabled⟩ := hsession.table
  obtain ⟨hmapped, haccessed, hpermits⟩ :=
    hsession.unevicted.access_returned hsound hoffset hroom hrun
  exact ⟨⟨hmapped, hsession.blockSize_pos, entries, htabled.access haccessed⟩, haccessed, hpermits⟩

/-- A write to a block that can be written to. -/
theorem UnevictedSession.write (hsession : UnevictedSession blocks region manager files)
    {offset : ℕ} (hpermits : (manager.protection (offset / manager.blockSize)).permits true)
    (byte : Byte) :
    UnevictedSession blocks (Function.update region offset byte)
      { manager with
        memory := Function.update manager.memory (offset / manager.blockSize)
          ((manager.memory (offset / manager.blockSize)).set (offset % manager.blockSize) byte) }
      files := by
  have hunevicted := hsession.unevicted
  have hpos := hsession.blockSize_pos
  obtain ⟨entries, htabled⟩ := hsession.table
  have hdirty := hunevicted.pages.dirty_of_permits hpermits
  have hpresent : offset / manager.blockSize ∈ manager.presentBlocks := by
    by_contra habsent
    exact hunevicted.pages.not_dirty habsent hdirty
  have hwritten := hunevicted.write hdirty (length_blockOf blocks.blockSize
    (Function.update region offset byte) (offset / manager.blockSize))
  rw [hunevicted.memory _ hpresent]
  rw [hunevicted.blockSize] at hwritten ⊢
  rw [blockOf_update_self, ← blockOf_update hpos] at hwritten
  exact ⟨hwritten, hpos, entries, ⟨htabled.version, htabled.absent⟩⟩

/-- A commit returns, and the version then denotes the region. -/
theorem UnevictedSession.run_msync (hsound : blocks.build.Sound)
    (hsession : UnevictedSession blocks region manager files) (schedule : MsyncSchedule) :
    ∃ committed files', (msync blocks.build manager schedule).run FileSystem.answer files =
        (.returned committed, files') ∧
      UnevictedSession blocks region committed files' ∧
      manager.base.SameSession committed.base ∧
      blocks.Denotes files' manager.versionMetadataPath manager.regionMaxCapacity region ∧
      blocks.LeavesOthers manager.versionMetadataPath files files' ∧
      ∀ location, (blocks.at location).Tolerates files files' := by
  obtain ⟨entries, htabled⟩ := hsession.table
  obtain ⟨committed, between, hrun, hkept, hstored⟩ :=
    hsession.unevicted.run_msyncBlocks hsound schedule
  have hpromises : blocks.Promises files between := hstored.promises blocks.location
  have hversion := htabled.version.keep hpromises
  have hmetadata : between.metadata committed.base.versionMetadataPath = some entries := by
    rw [hstored.session.versionMetadataPath]
    exact hversion.metadata
  have hupdate := VirtualMemoryManagerBase.run_updateMetadata committed.presentBlocks hmetadata
  let count := VirtualMemoryManagerBase.occupiedBlocks committed.presentBlocks
  let written := overwrite ((List.range count).map committed.blocksIds) entries
  let final := between.setMetadata committed.versionMetadataPath (some written)
  have hcount : count ≤ manager.regionMaxCapacity / blocks.blockSize := by
    have hle : count ≤ committed.numBlocks :=
      VirtualMemoryManagerBase.occupiedBlocks_le hkept.pages.present_lt
    rwa [hstored.session.numBlocks, VirtualMemoryManagerBase.numBlocks,
      hsession.unevicted.blockSize] at hle
  have hall : ∀ block, written.getD block blocks.build.emptyBlockHash =
      committed.blocksIds block := by
    intro block
    rw [VirtualMemoryManagerBase.getD_overwrite_names]
    split_ifs with hwritten
    · rfl
    · have habsent : block ∉ manager.presentBlocks := by
        rw [← hstored.present]
        exact fun hpresent => hwritten (VirtualMemoryManagerBase.lt_occupiedBlocks hpresent)
      rw [hstored.blocksIds block habsent, htabled.absent block habsent]
  have htable : blocks.HasVersion final manager.versionMetadataPath manager.regionMaxCapacity
      written := by
    refine ⟨?_, ?_, ?_, ?_, ?_⟩
    · exact hversion.blocksPath
    · exact hversion.capacityText
    · exact hversion.granularity
    · rw [← hstored.session.versionMetadataPath]
      exact FileSystem.setMetadata_self _ _ _
    · rw [length_overwrite, List.length_map, List.length_range]
      exact max_le hcount hversion.length_le
  have htolerates : ∀ location, (blocks.at location).Tolerates between final :=
    fun _ => BlocksDirectory.tolerates_setMetadata _ _
  refine ⟨committed, final, ?_, ⟨hkept.extend htolerates, hsession.blockSize_pos, written, ?_, ?_⟩,
    hstored.session, ⟨written, htable, fun block hblock => ?_⟩, ?_, fun location => ?_⟩
  · unfold msync
    rw [Program.run_bind_of_returned hrun]
    exact Program.run_bind_of_returned hupdate
  · rw [hstored.session.versionMetadataPath, hstored.session.regionMaxCapacity]
    exact htable
  · exact fun block _ => hall block
  · have hblock' : block < committed.numBlocks := by
      rw [hstored.session.numBlocks, VirtualMemoryManagerBase.numBlocks,
        hsession.unevicted.blockSize]
      exact hblock
    have hclean : block ∉ committed.dirtyLru := by
      rw [hstored.clean]
      exact List.not_mem_nil
    rw [hall]
    exact (hkept.names block hblock' hclean).keep fun _ _ _ hbytes => hbytes
  · have hleaves := hpromises.leavesOthers hsession.named manager.versionMetadataPath
    refine hleaves.trans ⟨fun _ hdirectory => hdirectory, fun _ _ _ => rfl,
      fun other hother => ?_, fun _ _ _ hbytes => hbytes⟩
    rw [← hstored.session.versionMetadataPath] at hother
    exact FileSystem.setMetadata_of_ne _ hother _
  · exact (hstored.promises location).toTolerates.trans (htolerates location)

/-- Another session that adds blocks leaves this one as it is. -/
theorem UnevictedSession.extend (hsession : UnevictedSession blocks region manager files)
    (hpromises : ∀ location, (blocks.at location).Promises files files') :
    UnevictedSession blocks region manager files' := by
  obtain ⟨entries, htabled⟩ := hsession.table
  exact ⟨hsession.unevicted.extend fun location => (hpromises location).toTolerates,
    hsession.blockSize_pos, entries, htabled.version.keep (hpromises blocks.location),
    htabled.absent⟩

/-- A commit without dirty blocks only writes the table. -/
theorem run_msync_clean (build : Build Hash) (hclean : manager.dirtyLru = [])
    (hstash : manager.stashSet = ∅)
    (hmetadata : files.metadata manager.versionMetadataPath = some entries)
    (schedule : MsyncSchedule) :
    (msync build manager schedule).run FileSystem.answer files =
      (.returned manager, files.setMetadata manager.versionMetadataPath
        (some (overwrite ((List.range manager.occupiedBlocks).map manager.blocksIds)
          entries))) := by
  have hcommit : manager.base.commitBlocks build [] manager.memory ∅ schedule =
      .finish ([], manager.base) := by
    have hvector : manager.base.stashVector ∅ = [] := by
      simp [VirtualMemoryManagerBase.stashVector]
    unfold VirtualMemoryManagerBase.commitBlocks VirtualMemoryManagerBase.storeDirtyBlocks
    rw [List.map_nil, Program.interleave_nil, Program.finish_bind, List.foldl_nil]
    dsimp only
    rw [hvector, Program.arrange_nil]
    rfl
  have hstored : msyncBlocks build manager schedule = .finish manager := by
    unfold msyncBlocks
    rw [hclean, hstash, hcommit]
    change Program.finish { manager with dirtyLru := [], stashSet := ∅ } = _
    rw [← hclean, ← hstash]
  unfold msync
  rw [hstored, Program.finish_bind]
  exact Program.run_bind_of_returned
    (VirtualMemoryManagerBase.run_updateMetadata manager.presentBlocks hmetadata)

/-! ## Starts -/

/-- A manager that was just constructed has no resident block. -/
theorem Unevicted.initial {version stashPath : Path} {capacity maxMemBlocks : ℕ} {readOnly : Bool}
    {blocksIds : ℕ → Hash}
    (hnamed : blocks.TiersNamed
      (BlockStorage.initial blocks.location stashPath blocks.blockSize :
        BlockStorage Hash).tiers files)
    (hnames : ∀ block < capacity / blocks.blockSize,
      blocks.Names files (blocksIds block) (blockOf blocks.blockSize region block)) :
    Unevicted blocks (blockOf blocks.blockSize region)
      (SigactionVirtualMemoryManager.initial
        (VirtualMemoryManagerBase.initial version capacity blocks.blockSize maxMemBlocks readOnly
          (BlockStorage.initial blocks.location stashPath blocks.blockSize) blocksIds)) files where
  pages :=
    { present := fun block => by simp [SigactionVirtualMemoryManager.initial]
      dirty := fun block => by simp [SigactionVirtualMemoryManager.initial]
      nodup := List.nodup_nil
      stashSet := rfl
      present_lt := fun block hblock => absurd hblock (Finset.notMem_empty block) }
  blockSize := rfl
  baseDirectory := rfl
  granularity := rfl
  unstashed := fun _ => rfl
  unnoted := fun _ _ => rfl
  length := fun block => length_blockOf _ _ _
  memory := fun block hblock => absurd hblock (Finset.notMem_empty block)
  zeros := fun _ _ => rfl
  named := hnamed
  names := fun block hblock _ => hnames block hblock

/-- A new version. -/
theorem UnevictedSession.of_create (hpos : 0 < blocks.blockSize)
    {regionMaxCapacity maxMemBlocks : ℕ} {version stashPath : Path} {allowOverwrite : Bool}
    (hstash : stashPath ≠ []) (hversion : version ≠ blocks.location)
    (hother : stashPath ≠ blocks.location)
    (hgranularity : files.directories (.path blocks.location) →
      files.texts (.granularity blocks.location) = some (some (.number blocks.blockSize)))
    (hnamed : blocks.TiersNamed
      (BlockStorage.initial blocks.location stashPath blocks.blockSize :
        BlockStorage Hash).tiers files)
    (hrun : (create blocks.build regionMaxCapacity blocks.blockSize maxMemBlocks version
      blocks.location stashPath allowOverwrite).run FileSystem.answer files =
        (.returned manager, files')) :
    UnevictedSession blocks (fun _ => 0) manager files' ∧
      manager.versionMetadataPath = version ∧ manager.regionMaxCapacity ≠ 0 ∧
      files'.directories (.path blocks.location) ∧
      (files.directories (.path blocks.location) → blocks.LeavesOthers version files files') := by
  obtain ⟨base, middle, hbase, hinitial⟩ := Program.run_bind_returned hrun
  obtain ⟨capacity, hcapacity, rfl, rfl⟩ := VirtualMemoryManagerBase.create_returned hstash hbase
  obtain ⟨hmanager, rfl⟩ := Prod.mk.inj hinitial
  obtain rfl := Outcome.returned.inj hmanager
  obtain ⟨hhas, -⟩ := created_hasVersion capacity hversion hother hgranularity
  refine ⟨⟨Unevicted.initial ?_ fun block _ => .inl ⟨rfl, by simp [blockOf]⟩, hpos, [], hhas,
    fun _ _ => rfl⟩, rfl, hcapacity, blocksDirectory_storageFiles,
    created_leavesOthers capacity⟩
  intro location hlocation subdirectory name bytes hbytes
  rw [data_storageFiles] at hbytes
  exact hnamed location hlocation subdirectory name bytes hbytes

/-- An existing version. -/
theorem UnevictedSession.of_open (hpos : 0 < blocks.blockSize) {maxMemBlocks capacity : ℕ}
    {version stashPath : Path} {readOnly : Bool} (hstash : stashPath ≠ [])
    (hdenotes : blocks.Denotes files version capacity region)
    (hnamed : blocks.TiersNamed
      (BlockStorage.initial blocks.location stashPath blocks.blockSize :
        BlockStorage Hash).tiers files)
    (hrun : (SigactionVirtualMemoryManager.open blocks.build version stashPath maxMemBlocks
      readOnly).run FileSystem.answer files = (.returned manager, files')) :
    UnevictedSession blocks region manager files' ∧
      manager.versionMetadataPath = version := by
  obtain ⟨entries, hversion, hnames⟩ := hdenotes
  obtain ⟨base, middle, hbase, hinitial⟩ := Program.run_bind_returned hrun
  obtain ⟨rfl, rfl⟩ := VirtualMemoryManagerBase.open_returned hstash hversion hbase
  obtain ⟨hmanager, rfl⟩ := Prod.mk.inj hinitial
  obtain rfl := Outcome.returned.inj hmanager
  refine ⟨⟨Unevicted.initial hnamed fun block hblock =>
    (hnames block hblock).keep fun _ _ _ hbytes => hbytes, hpos, entries,
    ⟨hversion.blocksPath, hversion.capacityText, hversion.granularity, hversion.metadata,
      hversion.length_le⟩, fun _ _ => rfl⟩, rfl⟩

end SigactionVirtualMemoryManager

end Privateer
