import Privateer.Sigaction.Manager
import Privateer.Version.Denoted
import Privateer.VirtualMemory.TierCommits

/-!
# SIGACTION sessions that evict nothing

As long as nothing is evicted, a block is mapped once and stays mapped.  It can be written
to exactly while it is on the dirty list, and a block that is not dirty has its contents
under its name, on every tier that the storage has.  Then the names that `msync` leaves
out of the table are those of blocks that were never touched.
-/

namespace Privateer

namespace SigactionVirtualMemoryManager

open VirtualMemoryManagerBase (SameSession)

variable {Hash : Type}

/-- The lists and sets of the manager follow the protection of its blocks. -/
structure KeepsPages (manager : SigactionVirtualMemoryManager Hash) : Prop where
  present : ∀ block, block ∈ manager.presentBlocks ↔ manager.protection block ≠ .none
  dirty : ∀ block, block ∈ manager.dirtyLru ↔ manager.protection block = .write
  nodup : manager.dirtyLru.Nodup
  stashSet : manager.stashSet = ∅
  present_lt : ∀ block ∈ manager.presentBlocks, block < manager.numBlocks

/-- A session that has evicted nothing, on a region with these contents. -/
structure Unevicted [DecidableEq Hash] (blocks : BlocksDirectory Hash)
    (region : ℕ → List Byte) (manager : SigactionVirtualMemoryManager Hash)
    (files : FileSystem Hash) : Prop where
  pages : manager.KeepsPages
  blockSize : manager.blockSize = blocks.blockSize
  baseDirectory : manager.blockStorage.baseDirectory = blocks.location
  granularity : manager.blockStorage.blockGranularity = blocks.blockSize
  unstashed : ∀ block, manager.blockStorage.stashBlockIds block = none
  unnoted : ∀ block ∉ manager.presentBlocks,
    manager.blockStorage.stashCommittedBlockIds block = none
  length : ∀ block, (region block).length = blocks.blockSize
  memory : ∀ block ∈ manager.presentBlocks, manager.memory block = region block
  zeros : ∀ block ∉ manager.presentBlocks,
    manager.memory block = List.replicate manager.blockSize 0
  named : blocks.TiersNamed manager.blockStorage.tiers files
  names : ∀ block < manager.numBlocks, block ∉ manager.dirtyLru →
    blocks.Names files (manager.blocksIds block) (region block)

/-- There is room for the block, or it is resident. -/
def FindsRoom (manager : SigactionVirtualMemoryManager Hash) (block : ℕ) : Prop :=
  block ∈ manager.presentBlocks ∨
    manager.presentBlocks.card * manager.blockSize < manager.maxMemSize

/-- The manager after a block was looked up and mapped. -/
def loaded (manager : SigactionVirtualMemoryManager Hash) (noted : ℕ → Option (Option Hash))
    (block : ℕ) (content : List Byte) (isWriteFault : Bool) :
    SigactionVirtualMemoryManager Hash :=
  makeResident
    { manager with
      base := { manager.base with
        blockStorage := { manager.blockStorage with stashCommittedBlockIds := noted } }
      memory := Function.update manager.memory block content
      protection := Function.update manager.protection block (faultProtection isWriteFault) }
    block isWriteFault

variable {manager : SigactionVirtualMemoryManager Hash} {block : ℕ}

/-! ## Pages -/

theorem KeepsPages.not_dirty (hpages : manager.KeepsPages)
    (habsent : block ∉ manager.presentBlocks) : block ∉ manager.dirtyLru := by
  intro hdirty
  apply habsent
  rw [hpages.present, (hpages.dirty block).mp hdirty]
  exact Protection.noConfusion

theorem faultProtection_ne_none (isWriteFault : Bool) :
    faultProtection isWriteFault ≠ .none := by
  cases isWriteFault with
  | false => exact Protection.noConfusion
  | true => exact Protection.noConfusion

/-- What a load does to the lists. -/
theorem loaded_presentBlocks (manager : SigactionVirtualMemoryManager Hash)
    (noted : ℕ → Option (Option Hash)) (block : ℕ) (content : List Byte) (isWriteFault : Bool) :
    (manager.loaded noted block content isWriteFault).presentBlocks =
      insert block manager.presentBlocks := by
  cases isWriteFault with
  | false => rfl
  | true => rfl

theorem loaded_dirtyLru (manager : SigactionVirtualMemoryManager Hash)
    (noted : ℕ → Option (Option Hash)) (block : ℕ) (content : List Byte) (isWriteFault : Bool) :
    (manager.loaded noted block content isWriteFault).dirtyLru =
      if isWriteFault then block :: manager.dirtyLru else manager.dirtyLru := by
  cases isWriteFault with
  | false => rfl
  | true => rfl

theorem loaded_base (manager : SigactionVirtualMemoryManager Hash)
    (noted : ℕ → Option (Option Hash)) (block : ℕ) (content : List Byte) (isWriteFault : Bool) :
    (manager.loaded noted block content isWriteFault).base =
      { manager.base with
        blockStorage := { manager.blockStorage with stashCommittedBlockIds := noted } } := by
  cases isWriteFault with
  | false => rfl
  | true => rfl

theorem loaded_mapping (manager : SigactionVirtualMemoryManager Hash)
    (noted : ℕ → Option (Option Hash)) (block : ℕ) (content : List Byte) (isWriteFault : Bool) :
    (manager.loaded noted block content isWriteFault).protection =
        Function.update manager.protection block (faultProtection isWriteFault) ∧
      (manager.loaded noted block content isWriteFault).memory =
        Function.update manager.memory block content ∧
      (manager.loaded noted block content isWriteFault).stashSet = manager.stashSet := by
  cases isWriteFault with
  | false => exact ⟨rfl, rfl, rfl⟩
  | true => exact ⟨rfl, rfl, rfl⟩

/-- A block is mapped. -/
theorem KeepsPages.load (hpages : manager.KeepsPages) (hblock : block < manager.numBlocks)
    (habsent : block ∉ manager.presentBlocks) (noted : ℕ → Option (Option Hash))
    (content : List Byte) (isWriteFault : Bool) :
    (manager.loaded noted block content isWriteFault).KeepsPages := by
  obtain ⟨hprotection, -, hstashSet⟩ := loaded_mapping manager noted block content isWriteFault
  have hclean := hpages.not_dirty habsent
  refine ⟨fun other => ?_, fun other => ?_, ?_, hstashSet.trans hpages.stashSet,
    fun other hother => ?_⟩
  · rw [loaded_presentBlocks, hprotection, Finset.mem_insert]
    by_cases hsame : other = block
    · rw [hsame, Function.update_self]
      exact iff_of_true (.inl rfl) (faultProtection_ne_none _)
    · rw [Function.update_of_ne hsame, ← hpages.present, or_iff_right hsame]
  · rw [loaded_dirtyLru, hprotection]
    by_cases hsame : other = block
    · subst hsame
      rw [Function.update_self]
      cases isWriteFault with
      | false => exact iff_of_false hclean Protection.noConfusion
      | true => exact iff_of_true List.mem_cons_self rfl
    · rw [Function.update_of_ne hsame, ← hpages.dirty]
      cases isWriteFault with
      | false => rfl
      | true => rw [if_pos rfl, List.mem_cons, or_iff_right hsame]
  · rw [loaded_dirtyLru]
    cases isWriteFault with
    | false => exact hpages.nodup
    | true => exact List.nodup_cons.mpr ⟨hclean, hpages.nodup⟩
  · rw [loaded_presentBlocks, Finset.mem_insert] at hother
    have hcount : (manager.loaded noted block content isWriteFault).numBlocks =
        manager.numBlocks := by
      rw [VirtualMemoryManagerBase.numBlocks, loaded_base]
      rfl
    rw [hcount]
    rcases hother with rfl | hold
    · exact hblock
    · exact hpages.present_lt other hold

/-- A resident block becomes dirty. -/
theorem KeepsPages.markDirty (hpages : manager.KeepsPages)
    (hpresent : block ∈ manager.presentBlocks) (hclean : block ∉ manager.dirtyLru) :
    ((manager.moveToDirty block).protect block .write).KeepsPages where
  present := fun other => by
    change other ∈ manager.presentBlocks ↔
      Function.update manager.protection block .write other ≠ .none
    by_cases hsame : other = block
    · rw [hsame, Function.update_self]
      exact iff_of_true hpresent Protection.noConfusion
    · rw [Function.update_of_ne hsame, hpages.present]
  dirty := fun other => by
    change other ∈ block :: manager.dirtyLru ↔
      Function.update manager.protection block .write other = .write
    by_cases hsame : other = block
    · rw [hsame, Function.update_self]
      exact iff_of_true List.mem_cons_self rfl
    · rw [Function.update_of_ne hsame, List.mem_cons, or_iff_right hsame, hpages.dirty]
  nodup := List.nodup_cons.mpr ⟨hclean, hpages.nodup⟩
  stashSet := hpages.stashSet
  present_lt := hpages.present_lt

variable [DecidableEq Hash] {blocks : BlocksDirectory Hash} {files files' : FileSystem Hash}
variable {region : ℕ → List Byte}

/-! ## Loading -/

/-- A block that is read from its file is what was stored there. -/
theorem readBacking_returned (hsound : blocks.build.Sound) {file : DataFile Hash}
    {content buffer : List Byte} (hfile : files.data file = some (blocks.build.encode content))
    (hlength : content.length = blocks.blockSize)
    (hrun : (readBacking blocks.build blocks.blockSize file false).run FileSystem.answer files =
      (.returned buffer, files')) : buffer = content ∧ files' = files := by
  unfold readBacking at hrun
  simp only [Program.request_bind, Program.run_call, FileSystem.answer, hfile, if_true,
    Bool.not_false, Bool.and_true] at hrun
  cases hcompression : blocks.build.useCompression with
  | true =>
      simp only [hcompression, if_true, Program.run_call, FileSystem.answer, hfile,
        Option.map_some] at hrun
      split_ifs at hrun with hlarge
      · cases (Prod.mk.inj hrun).1
      · simp only [Program.run_call, FileSystem.answer, hfile, Option.map_some,
          List.take_length] at hrun
        rw [BlocksDirectory.decodeBlock_encode hsound hlength fun _ => Nat.le_of_not_lt hlarge]
          at hrun
        obtain ⟨hbuffer, hfiles⟩ := Prod.mk.inj hrun
        exact ⟨(Outcome.returned.inj hbuffer).symm, hfiles.symm⟩
  | false =>
      have hencode : blocks.build.encode content = content := by
        rw [Build.encode, hcompression]
        rfl
      simp only [hcompression, Bool.false_eq_true, if_false, Program.run_call, FileSystem.answer,
        hfile, hencode, Option.map_some, List.take_of_length_le hlength.le,
        resize_of_length_eq 0 hlength] at hrun
      obtain ⟨hbuffer, hfiles⟩ := Prod.mk.inj hrun
      exact ⟨(Outcome.returned.inj hbuffer).symm, hfiles.symm⟩

/-- A block that is not resident is mapped with its contents. -/
theorem Unevicted.loadAbsent_returned (hsound : blocks.build.Sound)
    (hunevicted : Unevicted blocks region manager files) (hblock : block < manager.numBlocks)
    (habsent : block ∉ manager.presentBlocks) {isWriteFault : Bool}
    {handled : SigactionVirtualMemoryManager Hash}
    (hrun : (loadAbsent blocks.build manager block isWriteFault).run FileSystem.answer files =
      (.returned handled, files')) :
    ∃ noted, handled = manager.loaded noted block (region block) isWriteFault ∧
      (∀ other, other ≠ block →
        noted other = manager.blockStorage.stashCommittedBlockIds other) ∧
      ∀ location, (blocks.at location).Promises files files' := by
  have hnames := hunevicted.names block hblock (hunevicted.pages.not_dirty habsent)
  unfold loadAbsent BlockStorage.getBlockStashPath at hrun
  simp only [hunevicted.unstashed block, Option.map_none] at hrun
  split_ifs at hrun with hempty
  · have hzero : manager.memory block = region block := by
      have hnamed : blocks.Names files (manager.blocksIds block)
          (List.replicate blocks.blockSize 0) := .inl ⟨hempty, rfl⟩
      rw [hunevicted.zeros block habsent, hunevicted.blockSize]
      exact hnamed.unique hsound hnames
    obtain ⟨hhandled, rfl⟩ := Prod.mk.inj hrun
    refine ⟨manager.blockStorage.stashCommittedBlockIds, ?_, fun _ _ => rfl,
      fun location => BlocksDirectory.Promises.refl files⟩
    rw [loaded, ← hzero, Function.update_eq_self]
    exact (Outcome.returned.inj hhandled).symm
  · have hstored : blocks.Stored files (manager.blocksIds block) (region block) :=
      hnames.resolve_left fun h => hempty h.1
    obtain ⟨path, noted, between, hpath, hfile, hpromises⟩ :=
      BlockStorage.run_getBlockFullPath_of_stored hsound hunevicted.baseDirectory
        hunevicted.named (hunevicted.unnoted block habsent) hstored
    rw [Program.run_bind_of_returned hpath] at hrun
    obtain ⟨buffer, final, hread, hlast⟩ := Program.run_bind_returned hrun
    rw [hunevicted.blockSize] at hread
    obtain ⟨rfl, rfl⟩ := readBacking_returned hsound hfile (hunevicted.length block) hread
    obtain ⟨hhandled, rfl⟩ := Prod.mk.inj hlast
    exact ⟨_, (Outcome.returned.inj hhandled).symm,
      fun other hother => Function.update_of_ne hother _ _, hpromises⟩

/-- Files that only gained blocks serve the session as well. -/
theorem Unevicted.named_of_tolerates (hunevicted : Unevicted blocks region manager files)
    (htolerates : ∀ location, (blocks.at location).Tolerates files files') :
    blocks.TiersNamed manager.blockStorage.tiers files' ∧ blocks.Keeps files files' := by
  refine ⟨fun location hlocation =>
    ((htolerates location).named (hunevicted.named location hlocation)).1, ?_⟩
  have hbase : manager.blockStorage.baseDirectory ∈ manager.blockStorage.tiers :=
    BlockStorage.baseDirectory_mem_tiers
  have hkeeps := ((htolerates _).named (hunevicted.named _ hbase)).2
  rw [hunevicted.baseDirectory] at hkeeps
  exact hkeeps

theorem Unevicted.extend (hunevicted : Unevicted blocks region manager files)
    (htolerates : ∀ location, (blocks.at location).Tolerates files files') :
    Unevicted blocks region manager files' := by
  obtain ⟨hnamed, hkeeps⟩ := hunevicted.named_of_tolerates htolerates
  exact { hunevicted with
    named := hnamed
    names := fun block hblock hclean => (hunevicted.names block hblock hclean).keep hkeeps }


/-- A block that was looked up is mapped. -/
theorem Unevicted.load (hunevicted : Unevicted blocks region manager files)
    (hblock : block < manager.numBlocks) (habsent : block ∉ manager.presentBlocks)
    (isWriteFault : Bool) {noted : ℕ → Option (Option Hash)}
    (hnoted : ∀ other, other ≠ block →
      noted other = manager.blockStorage.stashCommittedBlockIds other)
    (hpromises : ∀ location, (blocks.at location).Promises files files') :
    Unevicted blocks region (manager.loaded noted block (region block) isWriteFault) files' := by
  obtain ⟨hnamed, hkeeps⟩ := hunevicted.named_of_tolerates fun location =>
    (hpromises location).toTolerates
  obtain ⟨-, hmemory, -⟩ := loaded_mapping manager noted block (region block) isWriteFault
  have hbase := loaded_base manager noted block (region block) isWriteFault
  have habsent' : ∀ other, other ∉ (manager.loaded noted block (region block)
      isWriteFault).presentBlocks → other ≠ block ∧ other ∉ manager.presentBlocks := by
    intro other hother
    rw [loaded_presentBlocks, Finset.mem_insert, not_or] at hother
    exact hother
  have hclean : ∀ other, other ∉ (manager.loaded noted block (region block)
      isWriteFault).dirtyLru → other ∉ manager.dirtyLru := by
    intro other hother hdirty
    apply hother
    rw [loaded_dirtyLru]
    cases isWriteFault with
    | false => exact hdirty
    | true => exact List.mem_cons_of_mem _ hdirty
  refine ⟨hunevicted.pages.load hblock habsent noted (region block) isWriteFault, ?_, ?_, ?_, ?_,
    fun other hother => ?_, hunevicted.length, fun other hother => ?_, fun other hother => ?_,
    ?_, fun other hother hother' => ?_⟩
  · rw [hbase]
    exact hunevicted.blockSize
  · rw [hbase]
    exact hunevicted.baseDirectory
  · rw [hbase]
    exact hunevicted.granularity
  · rw [hbase]
    exact hunevicted.unstashed
  · obtain ⟨hne, hold⟩ := habsent' other hother
    rw [hbase]
    exact (hnoted other hne).trans (hunevicted.unnoted other hold)
  · rw [hmemory]
    by_cases hsame : other = block
    · rw [hsame, Function.update_self]
    · rw [loaded_presentBlocks, Finset.mem_insert, or_iff_right hsame] at hother
      rw [Function.update_of_ne hsame, hunevicted.memory other hother]
  · obtain ⟨hne, hold⟩ := habsent' other hother
    rw [hmemory, Function.update_of_ne hne, hbase]
    exact hunevicted.zeros other hold
  · rw [hbase]
    exact hnamed
  · rw [VirtualMemoryManagerBase.numBlocks, hbase] at hother
    rw [hbase]
    exact (hunevicted.names other hother (hclean other hother')).keep hkeeps

/-! ## Accesses -/

/-- What an access leaves; a session that is only read dirties nothing. -/
structure Accessed (blocks : BlocksDirectory Hash)
    (manager mapped : SigactionVirtualMemoryManager Hash) (files files' : FileSystem Hash) :
    Prop where
  session : manager.base.SameSession mapped.base
  blocksIds : mapped.blocksIds = manager.blocksIds
  present : manager.presentBlocks ⊆ mapped.presentBlocks
  dirty : manager.readOnly = true → mapped.dirtyLru = manager.dirtyLru
  promises : ∀ location, (blocks.at location).Promises files files'

omit [DecidableEq Hash] in
theorem Accessed.refl (blocks : BlocksDirectory Hash)
    (manager : SigactionVirtualMemoryManager Hash) (files : FileSystem Hash) :
    Accessed blocks manager manager files files :=
  ⟨SameSession.refl _, rfl, subset_rfl, fun _ => rfl,
    fun _ => BlocksDirectory.Promises.refl files⟩

/-- A fault on a block that is not resident. -/
theorem Unevicted.handler_absent (hsound : blocks.build.Sound)
    (hunevicted : Unevicted blocks region manager files) (hblock : block < manager.numBlocks)
    (habsent : block ∉ manager.presentBlocks) (hroom : manager.FindsRoom block)
    {isWriteFault : Bool} {handled : SigactionVirtualMemoryManager Hash}
    (hrun : (handler blocks.build manager block isWriteFault).run FileSystem.answer files =
      (.returned handled, files')) :
    Unevicted blocks region handled files' ∧ Accessed blocks manager handled files files' := by
  have hfree := hroom.resolve_left habsent
  have hevict : (evictIfNeeded manager).run FileSystem.answer files =
      (.returned manager, files) := by
    rw [evictIfNeeded, if_neg (not_le.mpr hfree)]
    rfl
  unfold handler at hrun
  split_ifs at hrun with hreadOnly
  · cases (Prod.mk.inj hrun).1
  · rw [Program.run_bind_of_returned hevict] at hrun
    obtain ⟨noted, rfl, hnoted, hpromises⟩ :=
      hunevicted.loadAbsent_returned hsound hblock habsent hrun
    have hbase := loaded_base manager noted block (region block) isWriteFault
    refine ⟨hunevicted.load hblock habsent isWriteFault hnoted hpromises, ?_, ?_, ?_,
      fun hreader => ?_, hpromises⟩
    · rw [hbase]
      exact ⟨rfl, rfl, rfl, rfl, rfl, rfl⟩
    · rw [hbase]
    · rw [loaded_presentBlocks]
      exact Finset.subset_insert _ _
    · have hread : isWriteFault = false := by simpa [hreader] using hreadOnly
      rw [loaded_dirtyLru, hread]
      rfl

/-- A write fault on a resident block that is clean. -/
theorem Unevicted.handler_present (hunevicted : Unevicted blocks region manager files)
    (hpresent : block ∈ manager.presentBlocks) (hclean : block ∉ manager.dirtyLru)
    {handled : SigactionVirtualMemoryManager Hash}
    (hrun : (handler blocks.build manager block true).run FileSystem.answer files =
      (.returned handled, files')) :
    Unevicted blocks region handled files' ∧ Accessed blocks manager handled files files' := by
  have hunstashed : block ∉ manager.stashSet := by
    rw [hunevicted.pages.stashSet]
    exact Finset.notMem_empty block
  have hunstashed' : block ∉ (manager.moveToDirty block).stashSet := hunstashed
  unfold handler handlePresent at hrun
  simp only [hpresent, hunstashed', if_true, if_false] at hrun
  split_ifs at hrun with hreadOnly
  · cases (Prod.mk.inj hrun).1
  · obtain ⟨hhandled, rfl⟩ := Prod.mk.inj hrun
    obtain rfl := Outcome.returned.inj hhandled
    refine ⟨⟨hunevicted.pages.markDirty hpresent hclean, hunevicted.blockSize,
      hunevicted.baseDirectory, hunevicted.granularity, hunevicted.unstashed, hunevicted.unnoted,
      hunevicted.length, hunevicted.memory, hunevicted.zeros, hunevicted.named,
      fun other hother hother' => ?_⟩, SameSession.refl _, rfl, subset_rfl,
      fun hreader => absurd hreader (by simpa using hreadOnly),
      fun _ => BlocksDirectory.Promises.refl files⟩
    exact hunevicted.names other hother fun hdirty => hother' (List.mem_cons_of_mem _ hdirty)

/-- An access that goes through has changed nothing of the region; the block can be written
to if it was a write. -/
theorem Unevicted.access_returned (hsound : blocks.build.Sound)
    (hunevicted : Unevicted blocks region manager files) {offset : ℕ}
    (hoffset : offset / manager.blockSize < manager.numBlocks)
    (hroom : manager.FindsRoom (offset / manager.blockSize)) {isWrite : Bool}
    {mapped : SigactionVirtualMemoryManager Hash}
    (hrun : (access blocks.build manager offset isWrite).run FileSystem.answer files =
      (.returned mapped, files')) :
    Unevicted blocks region mapped files' ∧ Accessed blocks manager mapped files files' ∧
      (mapped.protection (offset / manager.blockSize)).permits isWrite := by
  unfold access at hrun
  dsimp only at hrun
  generalize offset / manager.blockSize = block at hoffset hroom hrun ⊢
  split_ifs at hrun with hpermits
  · obtain ⟨hmapped, rfl⟩ := Prod.mk.inj hrun
    obtain rfl := Outcome.returned.inj hmapped
    exact ⟨hunevicted, Accessed.refl blocks manager files, hpermits⟩
  · obtain ⟨handled, between, hhandler, hlast⟩ := Program.run_bind_returned hrun
    split_ifs at hlast with hpermits'
    · obtain ⟨hmapped, rfl⟩ := Prod.mk.inj hlast
      obtain rfl := Outcome.returned.inj hmapped
      by_cases hpresent : block ∈ manager.presentBlocks
      · -- A resident block only faults when a clean one is written to.
        have hmapping := (hunevicted.pages.present block).mp hpresent
        have hwrite : isWrite = true ∧ block ∉ manager.dirtyLru := by
          rw [hunevicted.pages.dirty]
          cases hprotection : manager.protection block with
          | none => exact absurd hprotection hmapping
          | read =>
              rw [hprotection, Protection.permits, Bool.not_eq_true', Bool.not_eq_false]
                at hpermits
              exact ⟨hpermits, Protection.noConfusion⟩
          | write =>
              rw [hprotection] at hpermits
              exact absurd rfl hpermits
        obtain ⟨rfl, hclean⟩ := hwrite
        obtain ⟨hkept, haccessed⟩ := hunevicted.handler_present hpresent hclean hhandler
        exact ⟨hkept, haccessed, hpermits'⟩
      · obtain ⟨hkept, haccessed⟩ := hunevicted.handler_absent hsound hoffset hpresent hroom
          hhandler
        exact ⟨hkept, haccessed, hpermits'⟩
    · cases (Prod.mk.inj hlast).1

omit [DecidableEq Hash] in
theorem KeepsPages.dirty_of_permits (hpages : manager.KeepsPages)
    (hpermits : (manager.protection block).permits true) : block ∈ manager.dirtyLru := by
  rw [hpages.dirty]
  cases hprotection : manager.protection block with
  | none =>
      rw [hprotection] at hpermits
      cases hpermits
  | read =>
      rw [hprotection] at hpermits
      cases hpermits
  | write => rfl

/-- A write to a dirty block. -/
theorem Unevicted.write (hunevicted : Unevicted blocks region manager files)
    (hdirty : block ∈ manager.dirtyLru) {content : List Byte}
    (hlength : content.length = blocks.blockSize) :
    Unevicted blocks (Function.update region block content)
      { manager with memory := Function.update manager.memory block content } files := by
  have hpages := hunevicted.pages
  refine ⟨⟨hpages.present, hpages.dirty, hpages.nodup, hpages.stashSet, hpages.present_lt⟩,
    hunevicted.blockSize, hunevicted.baseDirectory, hunevicted.granularity, hunevicted.unstashed,
    hunevicted.unnoted, fun other => ?_, fun other hother => ?_, fun other hother => ?_,
    hunevicted.named, fun other hother hclean => ?_⟩
  · by_cases hsame : other = block
    · rw [hsame, Function.update_self, hlength]
    · rw [Function.update_of_ne hsame, hunevicted.length]
  · by_cases hsame : other = block
    · rw [hsame, Function.update_self]
      exact Function.update_self _ _ _
    · rw [Function.update_of_ne hsame]
      exact (Function.update_of_ne hsame _ _).trans (hunevicted.memory other hother)
  · have hne : other ≠ block := by
      rintro rfl
      exact hpages.not_dirty hother hdirty
    exact (Function.update_of_ne hne _ _).trans (hunevicted.zeros other hother)
  · have hne : other ≠ block := by
      rintro rfl
      exact hclean hdirty
    rw [Function.update_of_ne hne]
    exact hunevicted.names other hother hclean

end SigactionVirtualMemoryManager

end Privateer
