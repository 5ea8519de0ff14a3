import Privateer.Uffd.Loading
import Privateer.Uffd.Residency
import Privateer.VirtualMemory.TierCommits

/-!
# Sessions that evict nothing

As long as nothing is evicted, a block gets its pages once and keeps them, whatever the
number of handling threads.  It can be written to exactly while it is on the dirty list
of its sub-region, and a block that is not dirty has its contents under its name, on
every tier that the storage has.
-/

namespace Privateer

namespace UffdVirtualMemoryManager

open VirtualMemoryManagerBase (SameSession)

variable {Hash : Type}

/-- A block that can be written to without a fault. -/
def Dirty (manager : UffdVirtualMemoryManager Hash) (block : ℕ) : Prop :=
  manager.installed block = true ∧ manager.writeProtected block = false

/-- The lists of every sub-region are those of its pages. -/
structure KeepsPages (manager : UffdVirtualMemoryManager Hash) : Prop where
  present : ∀ subRegion block, block ∈ manager.presentBlocks subRegion ↔
    manager.installed block = true ∧ manager.subRegion block = subRegion
  dirty : ∀ subRegion block, block ∈ manager.dirtyLru subRegion ↔
    manager.Dirty block ∧ manager.subRegion block = subRegion
  nodup : ∀ subRegion, (manager.dirtyLru subRegion).Nodup
  stashSet : ∀ subRegion, manager.stashSet subRegion = ∅
  installed_lt : ∀ block, manager.installed block = true → block < manager.numBlocks

/-- A session that has evicted nothing, on a region with these contents. -/
structure Unevicted [DecidableEq Hash] (blocks : BlocksDirectory Hash)
    (region : ℕ → List Byte) (manager : UffdVirtualMemoryManager Hash)
    (files : FileSystem Hash) : Prop where
  pages : manager.KeepsPages
  blockSize : manager.blockSize = blocks.blockSize
  baseDirectory : manager.blockStorage.baseDirectory = blocks.location
  granularity : manager.blockStorage.blockGranularity = blocks.blockSize
  unstashed : ∀ block, manager.blockStorage.stashBlockIds block = none
  unnoted : ∀ block, manager.installed block = false →
    manager.blockStorage.stashCommittedBlockIds block = none
  tempBuffer : ∀ subRegion, (manager.tempBuffer subRegion).length = blocks.blockSize
  length : ∀ block, (region block).length = blocks.blockSize
  memory : ∀ block, manager.installed block = true → manager.memory block = region block
  named : blocks.TiersNamed manager.blockStorage.tiers files
  names : ∀ block < manager.numBlocks, ¬ manager.Dirty block →
    blocks.Names files (manager.blocksIds block) (region block)

/-- The sub-region of the block has room for it, or the block has its pages. -/
def FindsRoom (manager : UffdVirtualMemoryManager Hash) (block : ℕ) : Prop :=
  manager.installed block = true ∨
    (manager.presentBlocks (manager.subRegion block)).card * manager.blockSize <
      manager.maxMemSize

variable {manager : UffdVirtualMemoryManager Hash} {block : ℕ}

/-! ## Pages -/

theorem not_dirty_of_absent (habsent : manager.installed block = false) :
    ¬ manager.Dirty block := by
  intro hdirty
  rw [hdirty.1] at habsent
  cases habsent

section Lists

variable {lists : ℕ → List ℕ} {sets : ℕ → Finset ℕ} {site other subRegion : ℕ}

theorem mem_update_cons : other ∈ Function.update lists site (block :: lists site) subRegion ↔
    other ∈ lists subRegion ∨ (other = block ∧ subRegion = site) := by
  by_cases hsite : subRegion = site
  · subst hsite
    simp [or_comm]
  · simp [hsite]

theorem mem_update_insert : other ∈ Function.update sets site (insert block (sets site)) subRegion ↔
    other ∈ sets subRegion ∨ (other = block ∧ subRegion = site) := by
  by_cases hsite : subRegion = site
  · subst hsite
    simp [or_comm]
  · simp [hsite]

theorem nodup_update_cons (hnodup : ∀ subRegion, (lists subRegion).Nodup)
    (hnew : block ∉ lists site) (subRegion : ℕ) :
    (Function.update lists site (block :: lists site) subRegion).Nodup := by
  by_cases hsite : subRegion = site
  · subst hsite
    rw [Function.update_self, List.nodup_cons]
    exact ⟨hnew, hnodup _⟩
  · rw [Function.update_of_ne hsite]
    exact hnodup subRegion

end Lists

theorem KeepsPages.notMem_dirtyLru (hpages : manager.KeepsPages)
    (hclean : ¬ manager.Dirty block) (subRegion : ℕ) :
    block ∉ manager.dirtyLru subRegion :=
  fun hdirty => hclean ((hpages.dirty subRegion block).mp hdirty).1

/-- A block gets its pages. -/
theorem KeepsPages.load (hpages : manager.KeepsPages) (hblock : block < manager.numBlocks)
    (habsent : manager.installed block = false) (content : List Byte) (isWriteFault : Bool) :
    KeepsPages (makePresent
      { manager with
        installed := Function.update manager.installed block true
        writeProtected := Function.update manager.writeProtected block (!isWriteFault)
        memory := Function.update manager.memory block content }
      (manager.subRegion block) block isWriteFault) := by
  have hclean := not_dirty_of_absent habsent
  have hpresent : ∀ subRegion other, other ∈ Function.update manager.presentBlocks
      (manager.subRegion block) (insert block (manager.presentBlocks (manager.subRegion block)))
        subRegion ↔ Function.update manager.installed block true other = true ∧
          manager.subRegion other = subRegion := by
    intro subRegion other
    rw [mem_update_insert, hpages.present]
    by_cases hsame : other = block
    · subst hsame
      simp [habsent, @eq_comm ℕ subRegion (manager.subRegion other)]
    · simp [hsame]
  have hlt : ∀ other, Function.update manager.installed block true other = true →
      other < manager.numBlocks := by
    intro other hother
    by_cases hsame : other = block
    · rwa [hsame]
    · rw [Function.update_of_ne hsame] at hother
      exact hpages.installed_lt other hother
  cases isWriteFault with
  | false =>
      refine ⟨hpresent, fun subRegion other => ?_, hpages.nodup, hpages.stashSet, hlt⟩
      refine (hpages.dirty subRegion other).trans (and_congr_left fun _ => ?_)
      by_cases hsame : other = block
      · subst hsame
        simp [Dirty, makePresent, habsent]
      · simp [Dirty, makePresent, hsame]
  | true =>
      refine ⟨hpresent, fun subRegion other => ?_,
        nodup_update_cons hpages.nodup (hpages.notMem_dirtyLru hclean _), hpages.stashSet, hlt⟩
      refine mem_update_cons.trans ?_
      rw [hpages.dirty]
      change _ ↔ _ ∧ manager.subRegion other = subRegion
      by_cases hsame : other = block
      · subst hsame
        simp [Dirty, makePresent, habsent, @eq_comm ℕ subRegion (manager.subRegion other)]
      · simp [Dirty, makePresent, hsame]

/-- A write-protected block becomes dirty. -/
theorem KeepsPages.markDirty (hpages : manager.KeepsPages)
    (hinstalled : manager.installed block = true)
    (hprotected : manager.writeProtected block = true) :
    KeepsPages ((manager.moveToDirty (manager.subRegion block) block).protect block false) := by
  have hclean : ¬ manager.Dirty block := by
    intro hdirty
    rw [hdirty.2] at hprotected
    cases hprotected
  refine ⟨hpages.present, fun subRegion other => ?_,
    nodup_update_cons hpages.nodup (hpages.notMem_dirtyLru hclean _), hpages.stashSet,
    hpages.installed_lt⟩
  refine mem_update_cons.trans ?_
  rw [hpages.dirty]
  change _ ↔ _ ∧ manager.subRegion other = subRegion
  by_cases hsame : other = block
  · subst hsame
    simp [Dirty, protect, moveToDirty, hinstalled, hprotected,
      @eq_comm ℕ subRegion (manager.subRegion other)]
  · simp [Dirty, protect, moveToDirty, hsame]

/-! ## Loading -/

/-- The manager after a block was looked up and read. -/
def looked (manager : UffdVirtualMemoryManager Hash) (noted : ℕ → Option (Option Hash))
    (tempBuffer : ℕ → List Byte) : UffdVirtualMemoryManager Hash :=
  { manager with
    base := { manager.base with
      blockStorage := { manager.blockStorage with stashCommittedBlockIds := noted } }
    tempBuffer := tempBuffer }

variable [DecidableEq Hash] {blocks : BlocksDirectory Hash} {files files' : FileSystem Hash}
variable {region : ℕ → List Byte}

/-- A block is read from where its name leads. -/
theorem run_loadContent_of_names (hsound : blocks.build.Sound)
    (hblockSize : manager.blockSize = blocks.blockSize)
    (hlocation : manager.blockStorage.baseDirectory = blocks.location)
    (hunstashed : manager.blockStorage.stashBlockIds block = none)
    (hunnoted : manager.blockStorage.stashCommittedBlockIds block = none)
    (hbuffers : ∀ subRegion, (manager.tempBuffer subRegion).length = blocks.blockSize)
    (hnamed : blocks.TiersNamed manager.blockStorage.tiers files) {content : List Byte}
    (hlength : content.length = blocks.blockSize)
    (hnames : blocks.Names files (manager.blocksIds block) content) (subRegion : ℕ) :
    ∃ noted tempBuffer files', (loadContent blocks.build manager subRegion block).run
        FileSystem.answer files =
          (.returned (content, manager.looked noted tempBuffer), files') ∧
      (∀ other, other ≠ block →
        noted other = manager.blockStorage.stashCommittedBlockIds other) ∧
      (∀ other, (tempBuffer other).length = blocks.blockSize) ∧
      blocks.Advances ∅ files files' := by
  unfold loadContent BlockStorage.getBlockStashPath
  simp only [hunstashed, Option.map_none]
  split_ifs with hempty
  · have hzero : List.replicate manager.blockSize 0 = content := by
      have hnamed : blocks.Names files (manager.blocksIds block)
          (List.replicate blocks.blockSize 0) := .inl ⟨hempty, rfl⟩
      rw [hblockSize]
      exact hnamed.unique hsound hnames
    rw [hzero]
    exact ⟨_, _, files, rfl, fun _ _ => rfl, hbuffers, BlocksDirectory.Advances.refl ∅ files⟩
  · have hstored : blocks.Stored files (manager.blocksIds block) content :=
      hnames.resolve_left fun h => hempty h.1
    obtain ⟨path, noted, files', hrun, hfile, hadvances⟩ :=
      BlockStorage.run_getBlockFullPath_advances hsound hlocation hnamed hunnoted hstored
    have hbuffer : (manager.tempBuffer subRegion).length = manager.blockSize := by
      rw [hbuffers, hblockSize]
    have hread := run_readBacking_encoded hsound hfile (hlength.trans hblockSize.symm) hbuffer
    rw [Program.run_bind_of_returned hrun, Program.run_bind_of_returned hread]
    refine ⟨_, _, files', rfl, fun other hother => Function.update_of_ne hother _ _, ?_,
      hadvances⟩
    intro other
    by_cases hsame : other = subRegion
    · rw [hsame, Function.update_self, hlength]
    · rw [Function.update_of_ne hsame, hbuffers]

/-- A block without pages is read from where its name leads. -/
theorem Unevicted.run_loadContent (hsound : blocks.build.Sound)
    (hunevicted : Unevicted blocks region manager files) (hblock : block < manager.numBlocks)
    (habsent : manager.installed block = false) (subRegion : ℕ) :
    ∃ noted tempBuffer files', (loadContent blocks.build manager subRegion block).run
        FileSystem.answer files =
          (.returned (region block, manager.looked noted tempBuffer), files') ∧
      (∀ other, other ≠ block →
        noted other = manager.blockStorage.stashCommittedBlockIds other) ∧
      (∀ other, (tempBuffer other).length = blocks.blockSize) ∧
      ∀ location, (blocks.at location).Promises files files' := by
  obtain ⟨noted, tempBuffer, files', hrun, hnoted, hbuffers, hadvances⟩ :=
    run_loadContent_of_names hsound hunevicted.blockSize hunevicted.baseDirectory
      (hunevicted.unstashed block) (hunevicted.unnoted block habsent) hunevicted.tempBuffer
      hunevicted.named (hunevicted.length block)
      (hunevicted.names block hblock (not_dirty_of_absent habsent)) subRegion
  exact ⟨noted, tempBuffer, files', hrun, hnoted, hbuffers, hadvances.promises⟩

/-- Files that only gained blocks serve the session as well. -/
theorem Unevicted.named_of_promises (hunevicted : Unevicted blocks region manager files)
    (hpromises : ∀ location, (blocks.at location).Promises files files') :
    blocks.TiersNamed manager.blockStorage.tiers files' ∧ blocks.Keeps files files' := by
  refine ⟨fun location hlocation =>
    ((hpromises location).named (hunevicted.named location hlocation)).1, ?_⟩
  have hbase : manager.blockStorage.baseDirectory ∈ manager.blockStorage.tiers :=
    BlockStorage.baseDirectory_mem_tiers
  have hkeeps := ((hpromises _).named (hunevicted.named _ hbase)).2
  rw [hunevicted.baseDirectory] at hkeeps
  exact hkeeps

/-- Only the contents of blocks matter. -/
theorem Unevicted.of_data_eq (hunevicted : Unevicted blocks region manager files)
    (hdata : files'.data = files.data) : Unevicted blocks region manager files' := by
  have hkeeps : blocks.Keeps files files' := fun _ _ _ hbytes => by rw [hdata, hbytes]
  refine ⟨hunevicted.pages, hunevicted.blockSize, hunevicted.baseDirectory,
    hunevicted.granularity, hunevicted.unstashed, hunevicted.unnoted, hunevicted.tempBuffer,
    hunevicted.length, hunevicted.memory, ?_, ?_⟩
  · intro location hlocation subdirectory name bytes hbytes
    rw [hdata] at hbytes
    exact hunevicted.named location hlocation subdirectory name bytes hbytes
  · exact fun block hblock hclean => (hunevicted.names block hblock hclean).keep hkeeps

/-- The path of the version does not matter. -/
theorem Unevicted.redirect (hunevicted : Unevicted blocks region manager files) (version : Path) :
    Unevicted blocks region { manager with versionMetadataPath := version } files :=
  ⟨⟨hunevicted.pages.present, hunevicted.pages.dirty, hunevicted.pages.nodup,
      hunevicted.pages.stashSet, hunevicted.pages.installed_lt⟩, hunevicted.blockSize,
    hunevicted.baseDirectory, hunevicted.granularity, hunevicted.unstashed, hunevicted.unnoted,
    hunevicted.tempBuffer, hunevicted.length, hunevicted.memory, hunevicted.named,
    hunevicted.names⟩

/-- A block that was read gets its pages. -/
theorem Unevicted.load (hunevicted : Unevicted blocks region manager files)
    (hblock : block < manager.numBlocks) (habsent : manager.installed block = false)
    (isWriteFault : Bool) {noted : ℕ → Option (Option Hash)} {tempBuffer : ℕ → List Byte}
    (hnoted : ∀ other, other ≠ block →
      noted other = manager.blockStorage.stashCommittedBlockIds other)
    (hbuffer : ∀ other, (tempBuffer other).length = blocks.blockSize)
    (hpromises : ∀ location, (blocks.at location).Promises files files') :
    Unevicted blocks region (makePresent
      { manager.looked noted tempBuffer with
        installed := Function.update manager.installed block true
        writeProtected := Function.update manager.writeProtected block (!isWriteFault)
        memory := Function.update manager.memory block (region block) }
      (manager.subRegion block) block isWriteFault) files' := by
  have hpages : (manager.looked noted tempBuffer).KeepsPages :=
    ⟨hunevicted.pages.present, hunevicted.pages.dirty, hunevicted.pages.nodup,
      hunevicted.pages.stashSet, hunevicted.pages.installed_lt⟩
  obtain ⟨hnamed, hkeeps⟩ := hunevicted.named_of_promises hpromises
  have hunnoted : ∀ other, Function.update manager.installed block true other = false →
      noted other = none := by
    intro other hother
    by_cases hsame : other = block
    · simp [hsame] at hother
    · rw [Function.update_of_ne hsame] at hother
      rw [hnoted other hsame, hunevicted.unnoted other hother]
  have hmemory : ∀ other, Function.update manager.installed block true other = true →
      Function.update manager.memory block (region block) other = region other := by
    intro other hother
    by_cases hsame : other = block
    · rw [hsame, Function.update_self]
    · rw [Function.update_of_ne hsame] at hother ⊢
      exact hunevicted.memory other hother
  have hclean : ∀ other, ¬ (Function.update manager.installed block true other = true ∧
      Function.update manager.writeProtected block (!isWriteFault) other = false) →
        ¬ manager.Dirty other := by
    intro other hother hdirty
    have hne : other ≠ block := by
      rintro rfl
      exact not_dirty_of_absent habsent hdirty
    rw [Function.update_of_ne hne, Function.update_of_ne hne] at hother
    exact hother hdirty
  have hload := hpages.load hblock habsent (region block) isWriteFault
  cases isWriteFault with
  | false =>
      exact ⟨hload, hunevicted.blockSize, hunevicted.baseDirectory, hunevicted.granularity,
        hunevicted.unstashed, hunnoted, hbuffer, hunevicted.length, hmemory, hnamed,
        fun other hother hdirty => (hunevicted.names other hother (hclean other hdirty)).keep hkeeps⟩
  | true =>
      exact ⟨hload, hunevicted.blockSize, hunevicted.baseDirectory, hunevicted.granularity,
        hunevicted.unstashed, hunnoted, hbuffer, hunevicted.length, hmemory, hnamed,
        fun other hother hdirty => (hunevicted.names other hother (hclean other hdirty)).keep hkeeps⟩

/-! ## Accesses -/

/-- What an access leaves. -/
structure Accessed (blocks : BlocksDirectory Hash) (manager mapped : UffdVirtualMemoryManager Hash)
    (files files' : FileSystem Hash) (block : ℕ) (isWrite : Bool) : Prop where
  session : manager.base.SameSession mapped.base
  numHandlingThreads : mapped.numHandlingThreads = manager.numHandlingThreads
  blocksIds : mapped.blocksIds = manager.blocksIds
  installed : ∀ other, manager.installed other = true → mapped.installed other = true
  permits : mapped.permits block isWrite
  promises : blocks.Promises files files'

/-- A block without pages is loaded when there is room for it. -/
theorem Unevicted.run_handleMissing (hsound : blocks.build.Sound)
    (hunevicted : Unevicted blocks region manager files) (hblock : block < manager.numBlocks)
    (habsent : manager.installed block = false)
    (hroom : (manager.presentBlocks (manager.subRegion block)).card * manager.blockSize <
      manager.maxMemSize) (isWriteFault : Bool) :
    ∃ handled files', (handleMissing blocks.build manager (manager.subRegion block) block
        isWriteFault).run FileSystem.answer files = (.returned handled, files') ∧
      Unevicted blocks region handled files' ∧
        Accessed blocks manager handled files files' block isWriteFault := by
  obtain ⟨noted, tempBuffer, files', hrun, hnoted, hbuffer, hpromises⟩ :=
    hunevicted.run_loadContent hsound hblock habsent (manager.subRegion block)
  have hbase : blocks.Promises files files' := hpromises blocks.location
  have hkept : ∀ other, manager.installed other = true →
      Function.update manager.installed block true other = true := by
    intro other hother
    by_cases hsame : other = block
    · rw [hsame, Function.update_self]
    · rwa [Function.update_of_ne hsame]
  have hevict : (evictIfNeeded manager (manager.subRegion block)).run FileSystem.answer files =
      (.returned manager, files) := by
    rw [evictIfNeeded, if_neg (not_le.mpr hroom)]
    rfl
  unfold handleMissing
  rw [Program.run_bind_of_returned hevict, Program.run_bind_of_returned hrun, install]
  have habsent' : (manager.looked noted tempBuffer).installed block = false := habsent
  simp only [habsent', Bool.false_eq_true, if_false]
  refine ⟨_, files', rfl, hunevicted.load hblock habsent isWriteFault hnoted hbuffer hpromises, ?_⟩
  cases isWriteFault with
  | false =>
      refine ⟨⟨rfl, rfl, rfl, rfl, rfl, rfl⟩, rfl, rfl, hkept, ?_, hbase⟩
      simp [permits, makePresent]
  | true =>
      refine ⟨⟨rfl, rfl, rfl, rfl, rfl, rfl⟩, rfl, rfl, hkept, ?_, hbase⟩
      simp [permits, makePresent]

/-- A write-protected block becomes writable. -/
theorem Unevicted.run_handleWpFault (hunevicted : Unevicted blocks region manager files)
    (hreadWrite : manager.readOnly = false) (hinstalled : manager.installed block = true)
    (hprotected : manager.writeProtected block = true) :
    ∃ handled, (handleWpFault manager (manager.subRegion block) block).run FileSystem.answer
        files = (.returned handled, files) ∧
      Unevicted blocks region handled files ∧
        Accessed blocks manager handled files files block true := by
  have hunstashed : block ∉ manager.stashSet (manager.subRegion block) := by
    rw [hunevicted.pages.stashSet]
    exact Finset.notMem_empty block
  unfold handleWpFault
  simp only [hreadWrite, Bool.false_eq_true, if_false, hunstashed]
  refine ⟨_, rfl, ⟨hunevicted.pages.markDirty hinstalled hprotected, hunevicted.blockSize,
    hunevicted.baseDirectory, hunevicted.granularity, hunevicted.unstashed, hunevicted.unnoted,
    hunevicted.tempBuffer, hunevicted.length, hunevicted.memory, hunevicted.named, ?_⟩,
    SameSession.refl _, rfl, rfl, fun _ hother => hother, ?_, BlocksDirectory.Promises.refl files⟩
  · intro other hother hclean
    apply hunevicted.names other hother
    rintro ⟨hpages, hwritable⟩
    have hne : other ≠ block := by
      rintro rfl
      rw [hprotected] at hwritable
      cases hwritable
    exact hclean ⟨hpages, (Function.update_of_ne hne _ _).trans hwritable⟩
  · simp [permits, protect, moveToDirty, hinstalled]

/-- Every access for which there is room goes through, after at most one event. -/
theorem Unevicted.run_access (hsound : blocks.build.Sound)
    (hunevicted : Unevicted blocks region manager files) {offset : ℕ}
    (hoffset : offset / manager.blockSize < manager.numBlocks)
    (hroom : manager.FindsRoom (offset / manager.blockSize)) (isWrite : Bool)
    (hreadWrite : isWrite = true → manager.readOnly = false) :
    ∃ mapped files', (access blocks.build manager offset isWrite).run FileSystem.answer files =
        (.returned mapped, files') ∧ Unevicted blocks region mapped files' ∧
          Accessed blocks manager mapped files files' (offset / manager.blockSize) isWrite := by
  have hindex : manager.blockIndex (manager.regionStartAddress + offset) =
      offset / manager.blockSize := by
    rw [blockIndex, Nat.add_sub_cancel_left]
  unfold access
  dsimp only
  generalize offset / manager.blockSize = block at hoffset hroom hindex ⊢
  split_ifs with hpermits
  · exact ⟨manager, files, rfl, hunevicted, SameSession.refl _, rfl, rfl, fun _ h => h, hpermits,
      BlocksDirectory.Promises.refl files⟩
  · have hhandled : ∃ handled files', (handleEvent blocks.build manager (manager.subRegion block)
        (manager.faultEvent (manager.regionStartAddress + offset) isWrite)).run
          FileSystem.answer files = (.returned handled, files') ∧
        Unevicted blocks region handled files' ∧
          Accessed blocks manager handled files files' block isWrite := by
      cases hinstalled : manager.installed block with
      | true =>
          rw [permits, hinstalled, Bool.true_and, Bool.not_eq_true', Bool.not_eq_false,
            Bool.and_eq_true] at hpermits
          obtain ⟨rfl, hprotected⟩ := hpermits
          rw [handleEvent, skips, faultEvent, hindex, hinstalled]
          simp only [if_true, Bool.not_true, Bool.and_false, Bool.false_eq_true, if_false, hindex]
          obtain ⟨handled, hrun, hkept, hdone⟩ := hunevicted.run_handleWpFault (hreadWrite rfl)
            hinstalled hprotected
          exact ⟨handled, files, hrun, hkept, hdone⟩
      | false =>
          have habsent : block ∉ manager.presentBlocks (manager.subRegion block) := by
            intro hpresent
            rw [((hunevicted.pages.present _ block).mp hpresent).1] at hinstalled
            cases hinstalled
          have hfree := hroom.resolve_left (by simp [hinstalled])
          rw [handleEvent, skips, faultEvent, hindex, hinstalled]
          simp only [Bool.false_eq_true, if_false, hindex, habsent, decide_false, Bool.false_and]
          exact hunevicted.run_handleMissing hsound hoffset hinstalled hfree isWrite
    obtain ⟨handled, files', hrun, hkept, hdone⟩ := hhandled
    rw [Program.run_bind_of_returned hrun, if_pos hdone.permits]
    exact ⟨handled, files', rfl, hkept, hdone⟩

/-- A write to a dirty block. -/
theorem Unevicted.write (hunevicted : Unevicted blocks region manager files)
    (hdirty : manager.Dirty block) {content : List Byte}
    (hlength : content.length = blocks.blockSize) :
    Unevicted blocks (Function.update region block content)
      { manager with memory := Function.update manager.memory block content } files := by
  refine ⟨⟨hunevicted.pages.present, hunevicted.pages.dirty, hunevicted.pages.nodup,
      hunevicted.pages.stashSet, hunevicted.pages.installed_lt⟩, hunevicted.blockSize,
    hunevicted.baseDirectory, hunevicted.granularity, hunevicted.unstashed, hunevicted.unnoted,
    hunevicted.tempBuffer, fun other => ?_, fun other hother => ?_, hunevicted.named,
    fun other hother hclean => ?_⟩
  · by_cases hsame : other = block
    · rw [hsame, Function.update_self, hlength]
    · rw [Function.update_of_ne hsame, hunevicted.length]
  · by_cases hsame : other = block
    · rw [hsame, Function.update_self]
      exact Function.update_self _ _ _
    · rw [Function.update_of_ne hsame]
      exact (Function.update_of_ne hsame _ _).trans (hunevicted.memory other hother)
  · have hne : other ≠ block := by
      rintro rfl
      exact hclean hdirty
    rw [Function.update_of_ne hne]
    exact hunevicted.names other hother hclean

end UffdVirtualMemoryManager

end Privateer
