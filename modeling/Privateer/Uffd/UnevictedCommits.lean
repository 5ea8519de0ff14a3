import Privateer.Uffd.Unevicted

/-!
# What the table of a version says after `msync`

Each sub-region is committed on its own and writes the names up to its highest present
block, also those of blocks that other sub-regions still have to store.  These entries
are stale until the commit of their own sub-region writes them again: an entry that is
right stays right, and the commit of a sub-region puts right the entries of its blocks.
-/

namespace Privateer

namespace UffdVirtualMemoryManager

open VirtualMemoryManagerBase (SameSession)

variable {Hash : Type} {manager committed : UffdVirtualMemoryManager Hash} {block : ℕ}
variable {subRegion : ℕ}

/-! ## The commit of one sub-region -/

/-- The manager after the dirty blocks of a sub-region were stored under these names. -/
def stored (manager : UffdVirtualMemoryManager Hash) (subRegion : ℕ)
    (noted : ℕ → Option (Option Hash)) (blocksIds : ℕ → Hash) (cleanLru : ℕ → List ℕ) :
    UffdVirtualMemoryManager Hash :=
  { manager with
    base := { manager.base with
      blockStorage := { manager.blockStorage with stashCommittedBlockIds := noted }
      blocksIds := blocksIds }
    cleanLru := cleanLru
    writeProtected := fun block =>
      block ∈ manager.dirtyLru subRegion || manager.writeProtected block
    dirtyLru := Function.update manager.dirtyLru subRegion []
    stashSet := Function.update manager.stashSet subRegion ∅ }

section Stored

variable {noted : ℕ → Option (Option Hash)} {blocksIds : ℕ → Hash} {cleanLru : ℕ → List ℕ}

theorem dirty_stored_iff (hpages : manager.KeepsPages) :
    (manager.stored subRegion noted blocksIds cleanLru).Dirty block ↔
      manager.Dirty block ∧ manager.subRegion block ≠ subRegion := by
  have hlisted := hpages.dirty subRegion block
  simp only [Dirty, stored, Bool.or_eq_false_iff, decide_eq_false_iff_not, hlisted]
  constructor
  · rintro ⟨hinstalled, hother, hwritable⟩
    exact ⟨⟨hinstalled, hwritable⟩, fun hregion => hother ⟨⟨hinstalled, hwritable⟩, hregion⟩⟩
  · rintro ⟨⟨hinstalled, hwritable⟩, hregion⟩
    exact ⟨hinstalled, fun hother => hregion hother.2, hwritable⟩

theorem KeepsPages.stored (hpages : manager.KeepsPages) :
    (manager.stored subRegion noted blocksIds cleanLru).KeepsPages where
  present := hpages.present
  dirty := fun other block => by
    rw [dirty_stored_iff hpages]
    change block ∈ Function.update manager.dirtyLru subRegion [] other ↔
      _ ∧ manager.subRegion block = other
    by_cases hsame : other = subRegion
    · subst hsame
      rw [Function.update_self]
      simp
    · rw [Function.update_of_ne hsame, hpages.dirty]
      constructor
      · rintro ⟨hdirty, rfl⟩
        exact ⟨⟨hdirty, hsame⟩, rfl⟩
      · rintro ⟨⟨hdirty, -⟩, rfl⟩
        exact ⟨hdirty, rfl⟩
  nodup := fun other => by
    change (Function.update manager.dirtyLru subRegion [] other).Nodup
    by_cases hsame : other = subRegion
    · rw [hsame, Function.update_self]
      exact List.nodup_nil
    · rw [Function.update_of_ne hsame]
      exact hpages.nodup other
  stashSet := fun other => by
    change Function.update manager.stashSet subRegion ∅ other = ∅
    by_cases hsame : other = subRegion
    · rw [hsame, Function.update_self]
    · rw [Function.update_of_ne hsame, hpages.stashSet]
  installed_lt := hpages.installed_lt

end Stored

variable [DecidableEq Hash] {blocks : BlocksDirectory Hash} {files files' : FileSystem Hash}
variable {region : ℕ → List Byte} {entries : List Hash}

/-- The part of a commit before the table is written. -/
theorem Unevicted.run_msyncBlocks (hsound : blocks.build.Sound)
    (hunevicted : Unevicted blocks region manager files) (subRegion : ℕ)
    (schedule : MsyncSchedule) :
    ∃ noted blocksIds cleanLru files', (msyncBlocks blocks.build manager subRegion schedule).run
        FileSystem.answer files =
          (.returned (manager.stored subRegion noted blocksIds cleanLru), files') ∧
      Unevicted blocks region (manager.stored subRegion noted blocksIds cleanLru) files' ∧
      (∀ block, block ∉ manager.dirtyLru subRegion →
        blocksIds block = manager.blocksIds block) ∧
      blocks.Promises files files' := by
  have hpages := hunevicted.pages
  have hdirty : ∀ block ∈ manager.dirtyLru subRegion,
      manager.memory block = region block := fun block hblock =>
    hunevicted.memory block ((hpages.dirty subRegion block).mp hblock).1.1
  have hlength : ∀ block ∈ manager.dirtyLru subRegion,
      (manager.memory block).length = blocks.blockSize := fun block hblock => by
    rw [hdirty block hblock, hunevicted.length]
  obtain ⟨names, files', hrun, hperm, hnames, hpromises⟩ :=
    VirtualMemoryManagerBase.run_commitBlocks_tiers hsound hunevicted.granularity hunevicted.named
      hlength schedule
  obtain ⟨hnamed, hkeeps⟩ := hunevicted.named_of_promises hpromises
  have hmem : ∀ block, block ∈ names.map Prod.fst ↔ block ∈ manager.dirtyLru subRegion :=
    fun block => hperm.mem_iff
  have hids := VirtualMemoryManagerBase.foldl_recordStored_blocksIds manager.base
    (hperm.nodup_iff.mpr (hpages.nodup subRegion))
  obtain ⟨noted, blocksIds, hrecorded, hkept⟩ :=
    VirtualMemoryManagerBase.foldl_recordStored_eq manager.base names
  -- Which clean list the stored blocks join does not matter here.
  obtain ⟨cleanLru, hmarked⟩ : ∃ cleanLru, (names.map Prod.fst).foldl markStored manager =
      { manager with
        writeProtected := fun block =>
          decide (block ∈ names.map Prod.fst) || manager.writeProtected block
        cleanLru := cleanLru } := ⟨_, foldl_markStored_eq manager (names.map Prod.fst)⟩
  rw [hrecorded] at hids hrun
  have hbase : blocks.Promises files files' := hpromises blocks.location
  have hstored : ∀ block ∈ manager.dirtyLru subRegion,
      blocks.Names files' (blocksIds block) (region block) := by
    intro block hblock
    obtain ⟨entry, hentry, rfl⟩ := List.mem_map.mp ((hmem block).mpr hblock)
    have htier := hnames entry hentry _ BlockStorage.baseDirectory_mem_tiers
    rw [hunevicted.baseDirectory, hdirty _ hblock] at htier
    rw [show blocksIds entry.1 = entry.2 from hids entry hentry]
    exact .inr htier
  refine ⟨noted, blocksIds, cleanLru, files', ?_, ?_, fun block hblock =>
    (hkept block ((hmem block).not.mpr hblock)).2, hbase⟩
  · unfold msyncBlocks
    rw [hpages.stashSet, Program.run_bind_of_returned hrun, hmarked]
    simp only [hmem]
    rfl
  · refine ⟨hpages.stored, hunevicted.blockSize, hunevicted.baseDirectory,
      hunevicted.granularity, hunevicted.unstashed, ?_, hunevicted.tempBuffer, hunevicted.length,
      hunevicted.memory, hnamed, ?_⟩
    · intro block habsent
      have hclean := hpages.notMem_dirtyLru (not_dirty_of_absent habsent) subRegion
      exact (hkept block ((hmem block).not.mpr hclean)).1.trans
        (hunevicted.unnoted block habsent)
    · intro block hblock hclean
      by_cases hlisted : block ∈ manager.dirtyLru subRegion
      · exact hstored block hlisted
      · have hsame : blocksIds block = manager.blocksIds block :=
          (hkept block ((hmem block).not.mpr hlisted)).2
        change blocks.Names files' (blocksIds block) (region block)
        rw [hsame]
        refine (hunevicted.names block hblock fun hdirty => hclean ?_).keep hkeeps
        refine (dirty_stored_iff hpages).mpr ⟨hdirty, fun hregion => hlisted ?_⟩
        exact (hpages.dirty subRegion block).mpr ⟨hdirty, hregion⟩

/-! ## The commits of several sub-regions -/

/-- What the commits of some sub-regions leave; `entries` is the table before them and
`entries'` the one after.  Right entries stay right, and the entries of the blocks in
these sub-regions become right. -/
structure CommitsSubRegions (build : Build Hash) (manager committed : UffdVirtualMemoryManager Hash)
    (files files' : FileSystem Hash) (subRegions : List ℕ) (entries entries' : List Hash) :
    Prop where
  session : manager.base.SameSession committed.base
  numHandlingThreads : committed.numHandlingThreads = manager.numHandlingThreads
  installed : committed.installed = manager.installed
  dirty : ∀ block, committed.Dirty block ↔
    manager.Dirty block ∧ manager.subRegion block ∉ subRegions
  blocksIds : ∀ block, ¬ manager.Dirty block →
    committed.blocksIds block = manager.blocksIds block
  table : ∀ block, (entries.getD block build.emptyBlockHash = manager.blocksIds block ∨
    (manager.installed block = true ∧ manager.subRegion block ∈ subRegions)) →
      entries'.getD block build.emptyBlockHash = committed.blocksIds block
  length_le : entries'.length ≤ max entries.length manager.numBlocks
  directories : ∀ directory, files.directories directory → files'.directories directory
  texts : files'.texts = files.texts
  metadata : files'.metadata =
    Function.update files.metadata manager.versionMetadataPath (some entries')

omit [DecidableEq Hash] in
theorem CommitsSubRegions.refl (build : Build Hash)
    (hmetadata : files.metadata manager.versionMetadataPath = some entries) :
    CommitsSubRegions build manager manager files files [] entries entries where
  session := SameSession.refl _
  numHandlingThreads := rfl
  installed := rfl
  dirty := fun block => by simp
  blocksIds := fun _ _ => rfl
  table := fun block hblock => hblock.resolve_right fun h => List.not_mem_nil h.2
  length_le := le_max_left _ _
  directories := fun _ hdirectory => hdirectory
  texts := rfl
  metadata := by rw [← hmetadata, Function.update_eq_self]

omit [DecidableEq Hash] in
theorem CommitsSubRegions.subRegion_eq {build : Build Hash} {subRegions : List ℕ}
    {entries' : List Hash}
    (hcommits : CommitsSubRegions build manager committed files files' subRegions entries entries')
    (block : ℕ) : committed.subRegion block = manager.subRegion block := by
  rw [UffdVirtualMemoryManager.subRegion, hcommits.numHandlingThreads]
  rfl

omit [DecidableEq Hash] in
theorem CommitsSubRegions.trans {build : Build Hash}
    {first second third : UffdVirtualMemoryManager Hash}
    {files₁ files₂ files₃ : FileSystem Hash} {entries₁ entries₂ entries₃ : List Hash}
    {subRegions : List ℕ}
    (hfirst : CommitsSubRegions build first second files₁ files₂ [subRegion] entries₁ entries₂)
    (hrest : CommitsSubRegions build second third files₂ files₃ subRegions entries₂ entries₃) :
    CommitsSubRegions build first third files₁ files₃ (subRegion :: subRegions) entries₁
      entries₃ where
  session := hfirst.session.trans hrest.session
  numHandlingThreads := hrest.numHandlingThreads.trans hfirst.numHandlingThreads
  installed := hrest.installed.trans hfirst.installed
  dirty := fun block => by
    rw [hrest.dirty, hfirst.dirty, hfirst.subRegion_eq, List.mem_singleton, List.mem_cons, not_or,
      and_assoc]
  blocksIds := fun block hclean => by
    rw [hrest.blocksIds block fun h => hclean ((hfirst.dirty block).mp h).1,
      hfirst.blocksIds block hclean]
  table := fun block hblock => by
    apply hrest.table
    rcases hblock with hright | ⟨hinstalled, hregion⟩
    · exact .inl (hfirst.table block (.inl hright))
    · rcases List.mem_cons.mp hregion with hhere | hlater
      · exact .inl (hfirst.table block (.inr ⟨hinstalled, List.mem_singleton.mpr hhere⟩))
      · exact .inr ⟨hfirst.installed ▸ hinstalled, hfirst.subRegion_eq block ▸ hlater⟩
  length_le := by
    have hcount := hfirst.session.numBlocks
    have hlength₁ := hfirst.length_le
    have hlength₂ := hrest.length_le
    omega
  directories := fun directory hdirectory =>
    hrest.directories directory (hfirst.directories directory hdirectory)
  texts := hrest.texts.trans hfirst.texts
  metadata := by
    rw [hrest.metadata, hfirst.metadata, hfirst.session.versionMetadataPath, Function.update_idem]

/-- The commit of one sub-region. -/
theorem Unevicted.run_msyncSubRegion (hsound : blocks.build.Sound)
    (hunevicted : Unevicted blocks region manager files)
    (hmetadata : files.metadata manager.versionMetadataPath = some entries) (subRegion : ℕ)
    (schedule : MsyncSchedule) :
    ∃ committed files' entries', (msyncSubRegion blocks.build manager subRegion schedule).run
        FileSystem.answer files = (.returned committed, files') ∧
      Unevicted blocks region committed files' ∧
      CommitsSubRegions blocks.build manager committed files files' [subRegion] entries
        entries' := by
  have hpages := hunevicted.pages
  obtain ⟨noted, blocksIds, cleanLru, files', hrun, hstored, hids, hpromises⟩ :=
    hunevicted.run_msyncBlocks hsound subRegion schedule
  have hmetadata' : files'.metadata
      (manager.stored subRegion noted blocksIds cleanLru).base.versionMetadataPath =
        some entries := by
    rw [hpromises.metadata]
    exact hmetadata
  have hupdate := VirtualMemoryManagerBase.run_updateMetadata
    (manager.presentBlocks subRegion) hmetadata'
  let count := VirtualMemoryManagerBase.occupiedBlocks (manager.presentBlocks subRegion)
  let written := overwrite ((List.range count).map blocksIds) entries
  have hcount : count ≤ manager.numBlocks := VirtualMemoryManagerBase.occupiedBlocks_le
    fun block hblock => hpages.installed_lt block ((hpages.present _ block).mp hblock).1
  refine ⟨manager.stored subRegion noted blocksIds cleanLru,
    files'.setMetadata manager.versionMetadataPath (some written), written, ?_, ?_, ?_⟩
  · unfold msyncSubRegion
    rw [Program.run_bind_of_returned hrun]
    exact Program.run_bind_of_returned hupdate
  · exact hstored.of_data_eq rfl
  · refine ⟨⟨rfl, rfl, rfl, rfl, rfl, rfl⟩, rfl, rfl, fun block => ?_, fun block hclean =>
      hids block (hpages.notMem_dirtyLru hclean subRegion), fun block hblock => ?_, ?_,
      hpromises.directories, hpromises.texts, ?_⟩
    · rw [dirty_stored_iff hpages, List.mem_singleton]
    · change written.getD block blocks.build.emptyBlockHash = blocksIds block
      rw [VirtualMemoryManagerBase.getD_overwrite_names]
      split_ifs with hwritten
      · rfl
      · have habsent : block ∉ manager.presentBlocks subRegion := fun hpresent =>
          hwritten (VirtualMemoryManagerBase.lt_occupiedBlocks hpresent)
        have hunlisted : block ∉ manager.dirtyLru subRegion := by
          intro hlisted
          obtain ⟨hdirty, hregion⟩ := (hpages.dirty subRegion block).mp hlisted
          exact habsent ((hpages.present subRegion block).mpr ⟨hdirty.1, hregion⟩)
        rw [hids block hunlisted]
        refine hblock.resolve_right fun hcovered => habsent ?_
        exact (hpages.present subRegion block).mpr
          ⟨hcovered.1, List.mem_singleton.mp hcovered.2⟩
    · rw [length_overwrite, List.length_map, List.length_range]
      omega
    · change Function.update files'.metadata _ _ = _
      rw [hpromises.metadata]

/-- The commits of several sub-regions, one after the other. -/
theorem Unevicted.run_msyncSubRegions (hsound : blocks.build.Sound) (schedule : ℕ → MsyncSchedule)
    (subRegions : List ℕ) (hunevicted : Unevicted blocks region manager files)
    (hmetadata : files.metadata manager.versionMetadataPath = some entries) :
    ∃ committed files' entries', (msyncSubRegions blocks.build schedule subRegions manager).run
        FileSystem.answer files = (.returned committed, files') ∧
      Unevicted blocks region committed files' ∧
      CommitsSubRegions blocks.build manager committed files files' subRegions entries
        entries' := by
  induction subRegions generalizing manager files entries with
  | nil => exact ⟨manager, files, entries, rfl, hunevicted, .refl blocks.build hmetadata⟩
  | cons subRegion rest ih =>
      obtain ⟨middle, between, entries₂, hrun, hmiddle, hfirst⟩ :=
        hunevicted.run_msyncSubRegion hsound hmetadata subRegion (schedule subRegion)
      have hmetadata₂ : between.metadata middle.versionMetadataPath = some entries₂ := by
        rw [hfirst.metadata, hfirst.session.versionMetadataPath, Function.update_self]
      obtain ⟨committed, files', entries', hrest, hkept, hcommits⟩ := ih hmiddle hmetadata₂
      refine ⟨committed, files', entries', ?_, hkept, hfirst.trans hcommits⟩
      rw [msyncSubRegions, Program.run_bind_of_returned hrun]
      exact hrest

/-- A commit: no block is left dirty, and the entry of every block is right that was right
before or whose block has its pages. -/
theorem Unevicted.run_msync (hsound : blocks.build.Sound)
    (hthreads : 0 < manager.numHandlingThreads)
    (hunevicted : Unevicted blocks region manager files)
    (hmetadata : files.metadata manager.versionMetadataPath = some entries)
    (schedule : ℕ → MsyncSchedule) :
    ∃ committed files' entries', (msync blocks.build manager schedule).run
        FileSystem.answer files = (.returned committed, files') ∧
      Unevicted blocks region committed files' ∧
      CommitsSubRegions blocks.build manager committed files files'
        (List.range manager.numHandlingThreads) entries entries' ∧
      ∀ block, ¬ committed.Dirty block := by
  obtain ⟨committed, files', entries', hrun, hkept, hcommits⟩ :=
    hunevicted.run_msyncSubRegions hsound schedule (List.range manager.numHandlingThreads)
      hmetadata
  refine ⟨committed, files', entries', hrun, hkept, hcommits, fun block hdirty => ?_⟩
  exact ((hcommits.dirty block).mp hdirty).2 (List.mem_range.mpr (Nat.mod_lt _ hthreads))

end UffdVirtualMemoryManager

end Privateer
