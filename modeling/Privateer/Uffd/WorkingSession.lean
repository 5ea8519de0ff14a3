import Privateer.Datastore.WorkingSet
import Privateer.Uffd.Convergence

/-!
# The USERFAULTFD manager as a working set

As long as every block that is touched finds room, the blocks with pages are those that were
touched, and the ones that can be written to are those that were written to, whatever the
sub-regions.  A commit goes through the sub-regions one by one and writes the table each time,
with names that are still to change; in the end it is the table of the working set.
-/

namespace Privateer

/-- The call of a request with its schedules. -/
def UffdRequest.call : UffdRequest → SessionCall
  | .perform operation => operation.flat.call
  | .snapshot version _ => .snapshot version

namespace UffdVirtualMemoryManager

open VirtualMemoryManagerBase (SameSession)

variable {Hash : Type} [DecidableEq Hash] {blocks : BlocksDirectory Hash}
variable {manager mapped : UffdVirtualMemoryManager Hash} {files files' : FileSystem Hash}
variable {contents : ℕ → List Byte} {set : WorkingSet Hash} {block subRegion : ℕ}
variable {start : VirtualMemoryManagerBase Hash} {isWrite : Bool}

/-- A session that carries out a working set. -/
structure WorkingSession (blocks : BlocksDirectory Hash) (start : VirtualMemoryManagerBase Hash)
    (set : WorkingSet Hash) (manager : UffdVirtualMemoryManager Hash)
    (files : FileSystem Hash) : Prop where
  unevicted : Unevicted blocks (blockOf blocks.blockSize set.region) manager files
  session : start.SameSession manager.base
  threads : 0 < manager.numHandlingThreads
  touched : ∀ block, manager.installed block = true ↔ block ∈ set.touched
  dirty : ∀ block, manager.Dirty block ↔ block ∈ set.dirty
  blocksIds : manager.blocksIds = set.blocksIds

/-! ## Accesses -/

omit [DecidableEq Hash] in
/-- A backing file is opened, measured, read and closed. -/
theorem storesOnly_readBacking {names : Set Hash} (blockSize : ℕ) (file : DataFile Hash)
    (buffer : List Byte) :
    (readBacking blocks.build blockSize file buffer).CallsOnly (Call.StoresOnly blocks names) := by
  have hread : ∀ count, Call.StoresOnly blocks names (.pread file count) := fun count =>
    Call.storesOnly_of_nothing trivial (fun _ h => by cases h) rfl
  have hclose : Call.StoresOnly blocks names (.close : Call Hash) :=
    Call.storesOnly_of_nothing trivial (fun _ h => by cases h) rfl
  refine ⟨Call.storesOnly_of_nothing trivial (fun _ h => by cases h) rfl, fun opened => ?_⟩
  cases opened with
  | false => trivial
  | true =>
      cases hcompression : blocks.build.useCompression with
      | false =>
          refine ⟨hread _, fun bytes => ?_⟩
          cases bytes with
          | none => trivial
          | some bytes => exact BlockStorage.callsOnly_closeOrExit hclose trivial
      | true =>
          refine ⟨Call.storesOnly_of_nothing trivial (fun _ h => by cases h) rfl, fun size => ?_⟩
          cases size with
          | none => trivial
          | some size =>
              refine ⟨hread _, fun bytes => ?_⟩
              cases bytes with
              | none => trivial
              | some bytes =>
                  simp only [Program.bind]
                  cases decompressInto blocks.build bytes buffer with
                  | none => trivial
                  | some decompressed => exact BlockStorage.callsOnly_closeOrExit hclose trivial

/-- A block that is not stashed is looked up under its name. -/
theorem storesOnly_loadContent (hunstashed : manager.blockStorage.stashBlockIds block = none) :
    (loadContent blocks.build manager subRegion block).CallsOnly
      (Call.StoresOnly blocks {manager.blocksIds block}) := by
  unfold loadContent BlockStorage.getBlockStashPath
  simp only [hunstashed, Option.map_none]
  split
  · trivial
  · refine (BlockStorage.storesOnly_getBlockFullPath block _).bind fun path => ?_
    exact (storesOnly_readBacking _ _ _).bind fun content => trivial

/-- The manager after an access: as it was, with a protected block made dirty, or with the pages
of one more block. -/
inductive Reached (manager : UffdVirtualMemoryManager Hash) (contents : ℕ → List Byte)
    (block : ℕ) (isWrite : Bool) : UffdVirtualMemoryManager Hash → Prop
  | permitted (hpermits : manager.permits block isWrite) :
      Reached manager contents block isWrite manager
  | written (hinstalled : manager.installed block = true) (hwrite : isWrite = true) :
      Reached manager contents block isWrite
        ((manager.moveToDirty (manager.subRegion block) block).protect block false)
  | loaded (noted : ℕ → Option (Option Hash)) (tempBuffer : ℕ → List Byte)
      (habsent : manager.installed block = false) :
      Reached manager contents block isWrite (makePresent
        { manager.looked noted tempBuffer with
          installed := Function.update manager.installed block true
          writeProtected := Function.update manager.writeProtected block (!isWrite)
          memory := Function.update manager.memory block (contents block) }
        (manager.subRegion block) block isWrite)

/-- A block is read without a trace that a reader of the datastore sees. -/
theorem Unevicted.loadContent_stores (hsound : blocks.build.Sound)
    (hunevicted : Unevicted blocks contents manager files) (hblock : block < manager.numBlocks)
    (habsent : manager.installed block = false) {result : List Byte × UffdVirtualMemoryManager Hash}
    (hrun : (loadContent blocks.build manager subRegion block).run FileSystem.answer files =
      (.returned result, files')) :
    (∃ noted tempBuffer, result = (contents block, manager.looked noted tempBuffer)) ∧
      blocks.Stores ∅ files.metadata files files' := by
  obtain ⟨noted, tempBuffer, between, hrun', -, -, hpromises⟩ :=
    hunevicted.run_loadContent hsound hblock habsent subRegion
  cases hrun'.symm.trans hrun
  refine ⟨⟨noted, tempBuffer, rfl⟩, ?_⟩
  rcases hunevicted.names block hblock (not_dirty_of_absent habsent) with ⟨hempty, -⟩ | hstored
  · have hnothing : (loadContent blocks.build manager subRegion block).run FileSystem.answer
        files = (.returned (List.replicate manager.blockSize 0, manager), files) := by
      unfold loadContent BlockStorage.getBlockStashPath
      simp only [hunevicted.unstashed block, Option.map_none, hempty, if_true]
      rfl
    obtain ⟨-, rfl⟩ := Prod.mk.inj (hnothing.symm.trans hrun)
    exact .refl blocks files
  · obtain ⟨-, hkeeps⟩ := hunevicted.named_of_promises hpromises
    exact BlocksDirectory.stores_of_lookup
      (storesOnly_loadContent (hunevicted.unstashed block)) hstored hkeeps hrun

/-- What an access does for which there is room. -/
theorem Unevicted.access_reached (hsound : blocks.build.Sound)
    (hunevicted : Unevicted blocks contents manager files) {offset : ℕ}
    (hoffset : offset / manager.blockSize < manager.numBlocks)
    (hroom : manager.FindsRoom (offset / manager.blockSize))
    (hreadWrite : isWrite = true → manager.readOnly = false)
    (hrun : (access blocks.build manager offset isWrite).run FileSystem.answer files =
      (.returned mapped, files')) :
    Reached manager contents (offset / manager.blockSize) isWrite mapped ∧
      blocks.Stores ∅ files.metadata files files' := by
  have hindex : manager.blockIndex (manager.regionStartAddress + offset) =
      offset / manager.blockSize := by
    rw [blockIndex, Nat.add_sub_cancel_left]
  unfold access at hrun
  dsimp only at hrun
  generalize offset / manager.blockSize = block at hoffset hroom hindex hrun ⊢
  split_ifs at hrun with hpermits
  · cases hrun
    exact ⟨.permitted hpermits, .refl blocks files⟩
  · obtain ⟨handled, between, hhandled, hlast⟩ := Program.run_bind_returned hrun
    split_ifs at hlast
    · cases hlast
      cases hinstalled : manager.installed block with
      | true =>
          -- Only a write faults on a block with pages.
          rw [permits, hinstalled, Bool.true_and, Bool.not_eq_true', Bool.not_eq_false,
            Bool.and_eq_true] at hpermits
          obtain ⟨rfl, hprotected⟩ := hpermits
          have hunstashed : block ∉ manager.stashSet (manager.subRegion block) := by
            rw [hunevicted.pages.stashSet]
            exact Finset.notMem_empty block
          rw [handleEvent, skips, faultEvent, hindex, hinstalled] at hhandled
          simp only [if_true, Bool.not_true, Bool.and_false, Bool.false_eq_true, if_false, hindex]
            at hhandled
          unfold handleWpFault at hhandled
          simp only [hreadWrite rfl, Bool.false_eq_true, if_false, hunstashed] at hhandled
          cases hhandled
          exact ⟨.written hinstalled rfl, .refl blocks files⟩
      | false =>
          have habsent : block ∉ manager.presentBlocks (manager.subRegion block) := by
            intro hpresent
            rw [((hunevicted.pages.present _ block).mp hpresent).1] at hinstalled
            cases hinstalled
          have hfree := hroom.resolve_left (by simp [hinstalled])
          have hevict : (evictIfNeeded manager (manager.subRegion block)).run FileSystem.answer
              files = (.returned manager, files) := by
            rw [evictIfNeeded, if_neg (not_le.mpr hfree)]
            rfl
          rw [handleEvent, skips, faultEvent, hindex, hinstalled] at hhandled
          simp only [Bool.false_eq_true, if_false, hindex, habsent, decide_false, Bool.false_and]
            at hhandled
          unfold handleMissing at hhandled
          rw [Program.run_bind_of_returned hevict] at hhandled
          obtain ⟨result, middle, hload, hfill⟩ := Program.run_bind_returned hhandled
          obtain ⟨⟨noted, tempBuffer, rfl⟩, hstores⟩ :=
            hunevicted.loadContent_stores hsound hoffset hinstalled hload
          have habsent' : (manager.looked noted tempBuffer).installed block = false := hinstalled
          rw [install] at hfill
          simp only [habsent', Bool.false_eq_true, if_false] at hfill
          cases hfill
          exact ⟨.loaded noted tempBuffer hinstalled, hstores⟩
    · cases (Prod.mk.inj hlast).1

omit [DecidableEq Hash] in
/-- The pages and the dirty blocks after an access. -/
theorem Reached.pages (hreached : Reached manager contents block isWrite mapped) (other : ℕ) :
    (mapped.installed other = true ↔ manager.installed other = true ∨ other = block) ∧
      (mapped.Dirty other ↔ manager.Dirty other ∨ (isWrite = true ∧ other = block)) := by
  cases hreached with
  | permitted hpermits =>
      rw [permits, Bool.and_eq_true, Bool.not_eq_true'] at hpermits
      obtain ⟨hinstalled, hwritable⟩ := hpermits
      refine ⟨(or_iff_left_of_imp ?_).symm, (or_iff_left_of_imp ?_).symm⟩
      · rintro rfl
        exact hinstalled
      · rintro ⟨rfl, rfl⟩
        exact ⟨hinstalled, by simpa using hwritable⟩
  | written hinstalled hwrite =>
      subst hwrite
      by_cases hsame : other = block
      · subst hsame
        simp [Dirty, protect, moveToDirty, hinstalled]
      · simp [Dirty, protect, moveToDirty, hsame]
  | loaded noted tempBuffer habsent =>
      by_cases hsame : other = block
      · subst hsame
        cases isWrite with
        | true => simp [Dirty, makePresent, habsent]
        | false => simp [Dirty, makePresent, habsent]
      · cases isWrite with
        | true => simp [Dirty, makePresent, looked, hsame]
        | false => simp [Dirty, makePresent, looked, hsame]

/-- An access for which there is room goes through. -/
theorem WorkingSession.run_access (hsound : blocks.build.Sound)
    (hsession : WorkingSession blocks start set manager files) {offset : ℕ}
    (hoffset : offset / manager.blockSize < manager.numBlocks)
    (hroom : manager.FindsRoom (offset / manager.blockSize))
    (hreadWrite : isWrite = true → manager.readOnly = false) :
    ∃ mapped files', (access blocks.build manager offset isWrite).run FileSystem.answer files =
        (.returned mapped, files') ∧
      WorkingSession blocks start (set.access (offset / manager.blockSize) isWrite) mapped files' ∧
      blocks.Stores ∅ files.metadata files files' ∧
      mapped.permits (offset / manager.blockSize) isWrite := by
  obtain ⟨mapped, files', hrun, hkept, haccessed⟩ :=
    hsession.unevicted.run_access hsound hoffset hroom isWrite hreadWrite
  obtain ⟨hreached, hstores⟩ :=
    hsession.unevicted.access_reached hsound hoffset hroom hreadWrite hrun
  have hpages := hreached.pages
  refine ⟨mapped, files', hrun, ⟨hkept, hsession.session.trans haccessed.session,
    hsession.threads.trans_eq haccessed.numHandlingThreads.symm, fun other => ?_,
    fun other => ?_, haccessed.blocksIds.trans hsession.blocksIds⟩, hstores, haccessed.permits⟩
  · rw [(hpages other).1, hsession.touched]
    exact or_comm.trans Finset.mem_insert.symm
  · rw [(hpages other).2, hsession.dirty, WorkingSet.access]
    cases isWrite with
    | true => simp [or_comm]
    | false => simp

/-- A write to a block that can be written to. -/
theorem WorkingSession.write (hsession : WorkingSession blocks start set manager files)
    (hpos : 0 < blocks.blockSize) {offset : ℕ}
    (hpermits : manager.permits (offset / blocks.blockSize) true) (byte : Byte) :
    WorkingSession blocks start (set.write offset byte) (manager.writeMemory offset byte)
      files := by
  have hunevicted := hsession.unevicted
  have hdirty : manager.Dirty (offset / blocks.blockSize) := by
    rw [permits, Bool.true_and, Bool.and_eq_true, Bool.not_eq_true'] at hpermits
    exact hpermits
  have hwritten := hunevicted.write hdirty (length_blockOf blocks.blockSize
    (Function.update set.region offset byte) (offset / blocks.blockSize))
  have hmemory : (manager.memory (offset / blocks.blockSize)).set (offset % blocks.blockSize)
      byte = blockOf blocks.blockSize (Function.update set.region offset byte)
        (offset / blocks.blockSize) := by
    rw [hunevicted.memory _ hdirty.1, blockOf_update_self]
  rw [← hmemory, ← hunevicted.blockSize] at hwritten
  have hregion : Function.update (blockOf manager.blockSize set.region)
      (offset / manager.blockSize)
      ((manager.memory (offset / manager.blockSize)).set (offset % manager.blockSize) byte) =
        blockOf manager.blockSize (Function.update set.region offset byte) := by
    rw [hunevicted.blockSize, hmemory, blockOf_update_self, ← blockOf_update hpos]
  rw [hregion, hunevicted.blockSize] at hwritten
  refine ⟨?_, hsession.session, hsession.threads, hsession.touched, hsession.dirty,
    hsession.blocksIds⟩
  rw [writeMemory, hunevicted.blockSize]
  exact hwritten

/-- What a session shows at an offset. -/
theorem WorkingSession.getD_memory (hsession : WorkingSession blocks start set manager files)
    (hpos : 0 < blocks.blockSize) {offset : ℕ}
    (hpermits : manager.permits (offset / blocks.blockSize) false) :
    (manager.memory (offset / manager.blockSize)).getD (offset % manager.blockSize) 0 =
      set.region offset := by
  have hinstalled : manager.installed (offset / blocks.blockSize) = true := by
    rw [permits, Bool.and_eq_true] at hpermits
    exact hpermits.1
  rw [hsession.unevicted.blockSize, hsession.unevicted.memory _ hinstalled, getD_blockOf hpos]

/-! ## Commits -/

/-- What the commits of some sub-regions publish: the names of their dirty blocks, the contents
of these, and a table that has the names of all blocks up to the highest in one of the
sub-regions, but for those that are dirty in another one. -/
structure Publishes (blocks : BlocksDirectory Hash) (contents : ℕ → List Byte)
    (manager committed : UffdVirtualMemoryManager Hash) (files files' : FileSystem Hash)
    (subRegions : List ℕ) (entries entries' : List Hash) : Prop where
  named : ∀ block, manager.Dirty block → manager.subRegion block ∈ subRegions →
    committed.blocksIds block = blocks.build.computeHash (contents block)
  kept : ∀ block, ¬ (manager.Dirty block ∧ manager.subRegion block ∈ subRegions) →
    committed.blocksIds block = manager.blocksIds block
  stores : blocks.Stores
    (contents '' {block | manager.Dirty block ∧ manager.subRegion block ∈ subRegions})
    (Function.update files.metadata manager.versionMetadataPath (some entries')) files files'
  length : ∀ block, block < entries'.length ↔ block < entries.length ∨
    ∃ present, manager.installed present = true ∧ manager.subRegion present ∈ subRegions ∧
      block ≤ present
  written : ∀ block, (manager.Dirty block → manager.subRegion block ∈ subRegions) →
    (∃ present, manager.installed present = true ∧ manager.subRegion present ∈ subRegions ∧
      block ≤ present) →
      entries'.getD block blocks.build.emptyBlockHash = committed.blocksIds block
  left : ∀ block, ¬ (∃ present, manager.installed present = true ∧
    manager.subRegion present ∈ subRegions ∧ block ≤ present) →
      entries'.getD block blocks.build.emptyBlockHash =
        entries.getD block blocks.build.emptyBlockHash

omit [DecidableEq Hash] in
theorem Publishes.refl {entries : List Hash}
    (hmetadata : files.metadata manager.versionMetadataPath = some entries) :
    Publishes blocks contents manager manager files files [] entries entries where
  named := fun block _ hmember => absurd hmember List.not_mem_nil
  kept := fun _ _ => rfl
  stores := by
    rw [← hmetadata, Function.update_eq_self]
    have hnone : contents '' {block | manager.Dirty block ∧ manager.subRegion block ∈ []} = ∅ := by
      simp
    rw [hnone]
    exact .refl blocks files
  length := fun block => by simp
  written := fun block _ hbelow => by simp at hbelow
  left := fun _ _ => rfl

omit [DecidableEq Hash] in
/-- One sub-region after the other.  A block that is written with an old name has pages in a
sub-region that is still to come, which writes it again. -/
theorem Publishes.trans (hsound : blocks.build.Sound)
    {first second third : UffdVirtualMemoryManager Hash}
    {files₁ files₂ files₃ : FileSystem Hash} {entries₁ entries₂ entries₃ : List Hash}
    {subRegions : List ℕ}
    (hcommits : CommitsSubRegions blocks.build first second files₁ files₂ [subRegion] entries₁
      entries₂)
    (hfirst : Publishes blocks contents first second files₁ files₂ [subRegion] entries₁ entries₂)
    (hrest : Publishes blocks contents second third files₂ files₃ subRegions entries₂ entries₃) :
    Publishes blocks contents first third files₁ files₃ (subRegion :: subRegions) entries₁
      entries₃ := by
  have hregion := hcommits.subRegion_eq
  have hdirty : ∀ block, second.Dirty block ↔
      first.Dirty block ∧ first.subRegion block ≠ subRegion := fun block => by
    rw [hcommits.dirty, List.mem_singleton]
  -- The highest blocks of the sub-regions that are still to come.
  have hlater : ∀ block, (∃ present, second.installed present = true ∧
      second.subRegion present ∈ subRegions ∧ block ≤ present) ↔
        ∃ present, first.installed present = true ∧ first.subRegion present ∈ subRegions ∧
          block ≤ present := fun block => by
    simp only [hcommits.installed, hregion]
  have hown : ∀ block, first.Dirty block → first.subRegion block ∈ subRegions →
      ∃ present, first.installed present = true ∧ first.subRegion present ∈ subRegions ∧
        block ≤ present :=
    fun block hblock hmember => ⟨block, hblock.1, hmember, le_rfl⟩
  refine ⟨fun block hblock hmember => ?_, fun block hother => ?_, ?_, fun block => ?_,
    fun block hmember hbelow => ?_, fun block hnone => ?_⟩
  · by_cases hhere : first.subRegion block = subRegion
    · rw [hrest.kept block fun h => ((hdirty block).mp h.1).2 hhere]
      exact hfirst.named block hblock (List.mem_singleton.mpr hhere)
    · apply hrest.named block ((hdirty block).mpr ⟨hblock, hhere⟩)
      rw [hregion]
      exact (List.mem_cons.mp hmember).resolve_left hhere
  · rw [hrest.kept block, hfirst.kept block]
    · rintro ⟨hblock, hhere⟩
      exact hother ⟨hblock, List.mem_cons.mpr (.inl (List.mem_singleton.mp hhere))⟩
    · rintro ⟨hblock, hmember⟩
      rw [hregion] at hmember
      exact hother ⟨((hdirty block).mp hblock).1, List.mem_cons_of_mem _ hmember⟩
  · have hstores := hfirst.stores.trans hsound hrest.stores
    have htables : Function.update files₂.metadata second.versionMetadataPath (some entries₃) =
        Function.update files₁.metadata first.versionMetadataPath (some entries₃) := by
      rw [hfirst.stores.metadata, hcommits.session.versionMetadataPath, Function.update_idem]
    have hcontents :
        {block | first.Dirty block ∧ first.subRegion block ∈ [subRegion]} ∪
          {block | second.Dirty block ∧ second.subRegion block ∈ subRegions} =
        {block | first.Dirty block ∧ first.subRegion block ∈ subRegion :: subRegions} := by
      ext block
      simp only [Set.mem_union, Set.mem_ofPred_eq, hdirty, hregion, List.mem_cons]
      tauto
    rw [← Set.image_union, hcontents, htables] at hstores
    exact hstores
  · rw [hrest.length, hfirst.length, hlater, or_assoc]
    refine or_congr_right ?_
    rw [← exists_or]
    refine exists_congr fun present => ?_
    rw [List.mem_singleton, List.mem_cons]
    tauto
  · by_cases hcovered : ∃ present, first.installed present = true ∧
        first.subRegion present ∈ subRegions ∧ block ≤ present
    · apply hrest.written block _ ((hlater block).mpr hcovered)
      intro hblock
      obtain ⟨hdirty', hhere⟩ := (hdirty block).mp hblock
      rw [hregion]
      exact (List.mem_cons.mp (hmember hdirty')).resolve_left hhere
    · rw [hrest.left block fun h => hcovered ((hlater block).mp h), hrest.kept block]
      · apply hfirst.written block
        · intro hblock
          rcases List.mem_cons.mp (hmember hblock) with hhere | hlater
          · exact List.mem_singleton.mpr hhere
          · exact absurd (hown block hblock hlater) hcovered
        · obtain ⟨present, hinstalled, hpresent, hle⟩ := hbelow
          refine ⟨present, hinstalled, ?_, hle⟩
          rcases List.mem_cons.mp hpresent with hhere | hlater
          · exact List.mem_singleton.mpr hhere
          · exact absurd ⟨present, hinstalled, hlater, hle⟩ hcovered
      · rintro ⟨hblock, hlater⟩
        rw [hregion] at hlater
        exact hcovered (hown block ((hdirty block).mp hblock).1 hlater)
  · rw [hrest.left block, hfirst.left block]
    · rintro ⟨present, hinstalled, hhere, hle⟩
      exact hnone ⟨present, hinstalled,
        List.mem_cons.mpr (.inl (List.mem_singleton.mp hhere)), hle⟩
    · intro hcovered
      obtain ⟨present, hinstalled, hpresent, hle⟩ := (hlater block).mp hcovered
      exact hnone ⟨present, hinstalled, List.mem_cons_of_mem _ hpresent, hle⟩

/-- The commit of one sub-region. -/
theorem Unevicted.msyncSubRegion_publishes (hsound : blocks.build.Sound)
    (hunevicted : Unevicted blocks contents manager files) {entries : List Hash}
    (hmetadata : files.metadata manager.versionMetadataPath = some entries)
    (schedule : MsyncSchedule) :
    ∃ committed files' entries', (msyncSubRegion blocks.build manager subRegion schedule).run
        FileSystem.answer files = (.returned committed, files') ∧
      Unevicted blocks contents committed files' ∧
      CommitsSubRegions blocks.build manager committed files files' [subRegion] entries
        entries' ∧
      Publishes blocks contents manager committed files files' [subRegion] entries entries' := by
  have hpages := hunevicted.pages
  obtain ⟨committed, files', entries', hrun, hkept, hcommits⟩ :=
    hunevicted.run_msyncSubRegion hsound hmetadata subRegion schedule
  obtain ⟨noted, blocksIds, cleanLru, between, hblocks, -, -, -⟩ :=
    hunevicted.run_msyncBlocks hsound subRegion schedule
  have hmember : ∀ block, block ∈ manager.dirtyLru subRegion ↔
      manager.Dirty block ∧ manager.subRegion block ∈ [subRegion] := fun block => by
    rw [hpages.dirty, List.mem_singleton]
  have hmemory : ∀ block ∈ manager.dirtyLru subRegion,
      manager.memory block = contents block := fun block hblock =>
    hunevicted.memory block ((hpages.dirty subRegion block).mp hblock).1.1
  -- The names and the contents that the workers store.
  have hstored := hblocks
  unfold msyncBlocks at hstored
  rw [hpages.stashSet] at hstored
  obtain ⟨result, middle, hcommit, hlast⟩ := Program.run_bind_returned hstored
  obtain ⟨hresult, rfl⟩ := Prod.mk.inj hlast
  obtain ⟨hids, hstores⟩ := VirtualMemoryManagerBase.commitBlocks_stores hsound
    hunevicted.baseDirectory hunevicted.granularity hunevicted.named (hpages.nodup subRegion)
    (fun block hblock => by rw [hmemory block hblock, hunevicted.length]) hcommit
  have hcontents : manager.memory '' {block | block ∈ manager.dirtyLru subRegion} =
      contents '' {block | manager.Dirty block ∧ manager.subRegion block ∈ [subRegion]} := by
    have hsame : {block | block ∈ manager.dirtyLru subRegion} =
        {block | manager.Dirty block ∧ manager.subRegion block ∈ [subRegion]} := by
      ext block
      exact hmember block
    rw [← hsame]
    exact Set.image_congr hmemory
  have hnames : ∀ block, blocksIds block = if block ∈ manager.dirtyLru subRegion then
      blocks.build.computeHash (manager.memory block) else manager.blocksIds block := by
    intro block
    have hbase := congrArg (fun manager => manager.blocksIds block)
      (Outcome.returned.inj hresult)
    exact hbase.symm.trans (hids block)
  -- The table.
  have htable : middle.metadata
      (manager.stored subRegion noted blocksIds cleanLru).base.versionMetadataPath =
        some entries := by
    rw [hstores.metadata]
    exact hmetadata
  have hupdate := VirtualMemoryManagerBase.run_updateMetadata
    (manager.presentBlocks subRegion) htable
  have hcovers : ∀ block, block < VirtualMemoryManagerBase.occupiedBlocks
      (manager.presentBlocks subRegion) ↔ ∃ present, manager.installed present = true ∧
        manager.subRegion present ∈ [subRegion] ∧ block ≤ present := fun block => by
    rw [WorkingSet.lt_occupiedBlocks_iff]
    refine exists_congr fun present => ?_
    rw [hpages.present, List.mem_singleton, and_assoc]
  have hrun' := hrun
  unfold msyncSubRegion at hrun'
  rw [Program.run_bind_of_returned hblocks] at hrun'
  have hlast' := (Program.run_bind_of_returned hupdate).symm.trans hrun'
  obtain ⟨hcommitted, hfiles⟩ := Prod.mk.inj hlast'
  obtain rfl := Outcome.returned.inj hcommitted
  have hwritten : entries' = overwrite ((List.range (VirtualMemoryManagerBase.occupiedBlocks
      (manager.presentBlocks subRegion))).map blocksIds) entries := by
    have hafter := congrFun hcommits.metadata manager.versionMetadataPath
    rw [Function.update_self, ← hfiles] at hafter
    exact (Option.some.inj ((FileSystem.setMetadata_self _ _ _).symm.trans hafter)).symm
  have hgetD : ∀ block, entries'.getD block blocks.build.emptyBlockHash =
      if block < VirtualMemoryManagerBase.occupiedBlocks (manager.presentBlocks subRegion) then
        blocksIds block
      else entries.getD block blocks.build.emptyBlockHash := fun block => by
    rw [hwritten, VirtualMemoryManagerBase.getD_overwrite_names]
  refine ⟨_, files', entries', hrun, hkept, hcommits, ⟨fun block hblock hhere => ?_,
    fun block hother => ?_, ?_, fun block => ?_, fun block _ hbelow => ?_,
    fun block hnone => ?_⟩⟩
  · have hlisted := (hmember block).mpr ⟨hblock, hhere⟩
    refine (hnames block).trans ?_
    rw [if_pos hlisted, hmemory block hlisted]
  · refine (hnames block).trans ?_
    rw [if_neg fun hlisted => hother ((hmember block).mp hlisted)]
  · rw [hcontents] at hstores
    have hset := hstores.setMetadata manager.versionMetadataPath (some entries')
    rw [hwritten] at hset ⊢
    rw [← hfiles]
    exact hset
  · rw [← hcovers, hwritten, length_overwrite, List.length_map, List.length_range, lt_max_iff,
      or_comm]
  · rw [hgetD, if_pos ((hcovers block).mpr hbelow)]
    rfl
  · rw [hgetD, if_neg fun hbelow => hnone ((hcovers block).mp hbelow)]

/-- The commits of several sub-regions, by induction on their list. -/
theorem Unevicted.msyncSubRegions_publishes (hsound : blocks.build.Sound)
    (schedule : ℕ → MsyncSchedule) (subRegions : List ℕ)
    (hunevicted : Unevicted blocks contents manager files) {entries : List Hash}
    (hmetadata : files.metadata manager.versionMetadataPath = some entries) :
    ∃ committed files' entries', (msyncSubRegions blocks.build schedule subRegions manager).run
        FileSystem.answer files = (.returned committed, files') ∧
      Unevicted blocks contents committed files' ∧
      CommitsSubRegions blocks.build manager committed files files' subRegions entries entries' ∧
      Publishes blocks contents manager committed files files' subRegions entries entries' := by
  induction subRegions generalizing manager files entries with
  | nil =>
      exact ⟨manager, files, entries, rfl, hunevicted, .refl blocks.build hmetadata,
        .refl hmetadata⟩
  | cons subRegion rest ih =>
      obtain ⟨middle, between, entries₂, hrun, hmiddle, hfirst, hpublishes⟩ :=
        hunevicted.msyncSubRegion_publishes hsound hmetadata (schedule subRegion)
      have hmetadata₂ : between.metadata middle.versionMetadataPath = some entries₂ := by
        rw [hfirst.metadata, hfirst.session.versionMetadataPath, Function.update_self]
      obtain ⟨committed, files', entries', hrest, hkept, hcommits, hpublishes'⟩ :=
        ih hmiddle hmetadata₂
      refine ⟨committed, files', entries', ?_, hkept, hfirst.trans hcommits,
        hpublishes.trans hsound hfirst hpublishes'⟩
      rw [msyncSubRegions, Program.run_bind_of_returned hrun]
      exact hrest

omit [DecidableEq Hash] in
/-- Two tables with the same entries. -/
theorem table_ext {left right : List Hash} (default : Hash)
    (hlength : ∀ block, block < left.length ↔ block < right.length)
    (hentries : ∀ block, left.getD block default = right.getD block default) : left = right := by
  apply List.ext_getElem
  · refine le_antisymm (Nat.le_of_not_lt fun h => ?_) (Nat.le_of_not_lt fun h => ?_)
    · exact absurd ((hlength _).mp h) (lt_irrefl _)
    · exact absurd ((hlength _).mpr h) (lt_irrefl _)
  · intro block hleft hright
    rw [← List.getD_eq_getElem _ default hleft, ← List.getD_eq_getElem _ default hright]
    exact hentries block

/-- A commit stores the dirty blocks and leaves the table of the working set, in whatever order
the sub-regions and their workers get there. -/
theorem WorkingSession.run_msync (hsound : blocks.build.Sound)
    (hsession : WorkingSession blocks start set manager files) {entries : List Hash}
    (hmetadata : files.metadata start.versionMetadataPath = some entries)
    (schedule : ℕ → MsyncSchedule) :
    ∃ committed files', (msync blocks.build manager schedule).run FileSystem.answer files =
        (.returned committed, files') ∧
      WorkingSession blocks start (set.commit blocks.build blocks.blockSize) committed files' ∧
      blocks.Stores (set.unsaved blocks.blockSize)
        (Function.update files.metadata start.versionMetadataPath
          (some ((set.commit blocks.build blocks.blockSize).table entries))) files files' := by
  rw [← hsession.session.versionMetadataPath] at hmetadata
  obtain ⟨committed, files', entries', hrun, hkept, hcommits, hpublishes⟩ :=
    hsession.unevicted.msyncSubRegions_publishes hsound schedule
      (List.range manager.numHandlingThreads) hmetadata
  have hregion : ∀ block, manager.subRegion block ∈ List.range manager.numHandlingThreads :=
    fun block => List.mem_range.mpr (Nat.mod_lt _ hsession.threads)
  have hnames : committed.blocksIds = (set.commit blocks.build blocks.blockSize).blocksIds := by
    funext block
    rw [WorkingSet.commit_blocksIds, ← hsession.blocksIds]
    split_ifs with hdirty
    · exact hpublishes.named block ((hsession.dirty block).mpr hdirty) (hregion block)
    · exact hpublishes.kept block fun h => hdirty ((hsession.dirty block).mp h.1)
  have hcontents : blockOf blocks.blockSize set.region '' {block | manager.Dirty block ∧
      manager.subRegion block ∈ List.range manager.numHandlingThreads} =
        set.unsaved blocks.blockSize := by
    have hsame : {block | manager.Dirty block ∧
        manager.subRegion block ∈ List.range manager.numHandlingThreads} =
          (set.dirty : Set ℕ) := by
      ext block
      rw [Set.mem_ofPred_eq, hsession.dirty, and_iff_left (hregion block)]
      rfl
    rw [hsame]
    rfl
  have hcovers : ∀ block, block < VirtualMemoryManagerBase.occupiedBlocks set.touched ↔
      ∃ present, manager.installed present = true ∧
        manager.subRegion present ∈ List.range manager.numHandlingThreads ∧
          block ≤ present := fun block => by
    rw [WorkingSet.lt_occupiedBlocks_iff]
    refine exists_congr fun present => ?_
    rw [hsession.touched]
    exact and_congr_right fun _ => (and_iff_right (hregion present)).symm
  have htable : entries' = (set.commit blocks.build blocks.blockSize).table entries := by
    apply table_ext blocks.build.emptyBlockHash
    · intro block
      rw [hpublishes.length, ← hcovers, WorkingSet.table, length_overwrite, List.length_map,
        List.length_range, lt_max_iff]
      exact or_comm
    · intro block
      rw [WorkingSet.table, VirtualMemoryManagerBase.getD_overwrite_names, ← hnames]
      split_ifs with hbelow
      · exact hpublishes.written block (fun _ => hregion block) ((hcovers block).mp hbelow)
      · exact hpublishes.left block fun h => hbelow ((hcovers block).mpr h)
  have hstores := hpublishes.stores
  rw [hcontents, htable, hsession.session.versionMetadataPath] at hstores
  refine ⟨committed, files', hrun, ⟨hkept, hsession.session.trans hcommits.session,
    hsession.threads.trans_eq hcommits.numHandlingThreads.symm, fun block => ?_, fun block => ?_,
    hnames⟩, hstores⟩
  · rw [hcommits.installed]
    exact hsession.touched block
  · rw [hcommits.dirty]
    exact iff_of_false (fun h => h.2 (hregion block)) (Finset.notMem_empty block)

/-- Another path, and other tables. -/
theorem WorkingSession.redirect (hsession : WorkingSession blocks start set manager files)
    (version : Path) (hdata : files'.data = files.data) :
    WorkingSession blocks { start with versionMetadataPath := version } set
      { manager with versionMetadataPath := version } files' :=
  ⟨(hsession.unevicted.redirect version).of_data_eq hdata,
    ⟨rfl, hsession.session.regionMaxCapacity, hsession.session.blockSize,
      hsession.session.maxMemSize, hsession.session.readOnly, hsession.session.stashDirectory⟩,
    hsession.threads, hsession.touched, hsession.dirty, hsession.blocksIds⟩

/-- A snapshot commits the session to the path of the new version. -/
theorem WorkingSession.run_takeSnapshot (hsound : blocks.build.Sound)
    (hsession : WorkingSession blocks start set manager files) {version : Path}
    (hdirectory : files.directories (.path version)) (schedule : ℕ → MsyncSchedule) :
    ∃ restored between, (takeSnapshot blocks.build manager version schedule).run
        FileSystem.answer files =
          (.returned (true, restored), between.writeVersion version
            ((set.commit blocks.build blocks.blockSize).table ((files.metadata version).getD []))
            blocks.location start.regionMaxCapacity) ∧
      WorkingSession blocks start (set.commit blocks.build blocks.blockSize) restored
        (between.writeVersion version
          ((set.commit blocks.build blocks.blockSize).table ((files.metadata version).getD []))
          blocks.location start.regionMaxCapacity) ∧
      blocks.Stores (set.unsaved blocks.blockSize)
        (Function.update files.metadata version
          (some ((set.commit blocks.build blocks.blockSize).table
            ((files.metadata version).getD [])))) files between := by
  let opened := files.setMetadata version (some ((files.metadata version).getD []))
  have hopened : WorkingSession blocks { start with versionMetadataPath := version } set
      { manager with versionMetadataPath := version } opened := hsession.redirect version rfl
  obtain ⟨committed, between, hrun, hkept, hstores⟩ := hopened.run_msync hsound
    (FileSystem.setMetadata_self _ _ _) schedule
  have hdirectory' : between.directories (.path version) :=
    (hstores.directories version).trans hdirectory
  have hwritten : between.metadata version =
      some ((set.commit blocks.build blocks.blockSize).table
        ((files.metadata version).getD [])) := by
    rw [hstores.metadata]
    exact Function.update_self _ _ _
  let written := (set.commit blocks.build blocks.blockSize).table ((files.metadata version).getD [])
  let final := between.writeVersion version written blocks.location start.regionMaxCapacity
  let restored := { committed with versionMetadataPath := manager.versionMetadataPath }
  have hrestored : WorkingSession blocks
      { start with versionMetadataPath := manager.versionMetadataPath }
      (set.commit blocks.build blocks.blockSize) restored final := hkept.redirect _ rfl
  rw [hsession.session.versionMetadataPath] at hrestored
  refine ⟨restored, between, ?_, hrestored, ⟨hstores.directories, hstores.texts, ?_,
    hstores.stored, hstores.others⟩⟩
  · exact run_writeSnapshot hdirectory hrun hdirectory' hwritten hkept.unevicted.baseDirectory
      hkept.session.regionMaxCapacity fun committed =>
        { committed with versionMetadataPath := manager.versionMetadataPath }
  · rw [hstores.metadata]
    exact Function.update_idem _ _ _

/-! ## Calls -/

/-- There is room for a block that a call needs: its sub-region has no more blocks than the
session has touched. -/
theorem WorkingSession.findsRoom (hsession : WorkingSession blocks start set manager files)
    (hpos : 0 < blocks.blockSize)
    (hfits : (insert block set.touched).card * blocks.blockSize ≤ start.maxMemSize) :
    manager.FindsRoom block := by
  unfold FindsRoom
  rw [hsession.touched, hsession.session.maxMemSize, hsession.unevicted.blockSize]
  by_cases htouched : block ∈ set.touched
  · exact .inl htouched
  · rw [Finset.card_insert_of_notMem htouched] at hfits
    have hsubset : manager.presentBlocks (manager.subRegion block) ⊆ set.touched := by
      intro other hother
      exact (hsession.touched other).mp ((hsession.unevicted.pages.present _ other).mp hother).1
    have hcard := Finset.card_le_card hsubset
    refine .inr (lt_of_lt_of_le (Nat.mul_lt_mul_of_pos_right ?_ hpos) hfits)
    exact Nat.lt_succ_of_le hcard

/-- One request; a read gives its byte. -/
def performRequest (build : Build Hash) (manager : UffdVirtualMemoryManager Hash) :
    UffdRequest → StorageProgram Hash (List Byte × UffdVirtualMemoryManager Hash)
  | .perform operation => perform build manager operation
  | .snapshot version schedule => do
      let result ← snapshot build manager version schedule
      return ([], result.2)

/-- The requests in order, with the bytes of all reads. -/
def performRequests (build : Build Hash) :
    List UffdRequest → UffdVirtualMemoryManager Hash →
      StorageProgram Hash (List Byte × UffdVirtualMemoryManager Hash)
  | [], manager => return ([], manager)
  | request :: rest, manager => do
      let first ← performRequest build manager request
      let others ← performRequests build rest first.2
      return (first.1 ++ others.1, others.2)

/-- A call returns and does what the working set says. -/
theorem WorkingSession.run_performRequest (hsound : blocks.build.Sound)
    (hpos : 0 < blocks.blockSize) (hsession : WorkingSession blocks start set manager files)
    (hmetadata : (files.metadata start.versionMetadataPath).isSome) {request : UffdRequest}
    (hwithin : request.call.Within (start.numBlocks * blocks.blockSize))
    (hfits : request.call.Fits blocks.blockSize start.maxMemSize set.touched)
    (hreadWrite : ∀ offset byte, request.call = .write offset byte → start.readOnly = false) :
    ∃ bytes manager' set' files', (performRequest blocks.build manager request).run
        FileSystem.answer files = (.returned (bytes, manager'), files') ∧
      WorkingSet.Performs blocks start set files request.call bytes set' files' ∧
      WorkingSession blocks start set' manager' files' := by
  have hblockSize := hsession.unevicted.blockSize
  have hinside : ∀ offset < start.numBlocks * blocks.blockSize,
      offset / manager.blockSize < manager.numBlocks := by
    intro offset hoffset
    rw [hblockSize, hsession.session.numBlocks]
    exact Nat.div_lt_of_lt_mul (by rwa [Nat.mul_comm])
  have hroom : ∀ offset : ℕ,
      (set.touched ∪ {offset / blocks.blockSize}).card * blocks.blockSize ≤ start.maxMemSize →
        manager.FindsRoom (offset / manager.blockSize) := by
    intro offset hoffset
    rw [Finset.union_comm, ← Finset.insert_eq] at hoffset
    rw [hblockSize]
    exact hsession.findsRoom hpos hoffset
  cases request with
  | perform operation =>
      cases operation with
      | read offset =>
          obtain ⟨mapped, files', hrun, hmapped, hstores, hpermits⟩ := hsession.run_access hsound
            (hinside offset hwithin) (hroom offset hfits)
            (fun hwrite => absurd hwrite Bool.false_ne_true)
          rw [hblockSize] at hmapped hpermits
          refine ⟨_, mapped, _, files', ?_, .read hstores, hmapped⟩
          rw [performRequest, perform, readByte, Program.bind_assoc,
            Program.run_bind_of_returned hrun]
          exact congrArg (fun byte => (Outcome.returned ([byte], mapped), files'))
            (hmapped.getD_memory hpos hpermits)
      | write offset byte =>
          have hwritable := hreadWrite offset byte rfl
          obtain ⟨mapped, files', hrun, hmapped, hstores, hpermits⟩ := hsession.run_access hsound
            (hinside offset hwithin) (hroom offset hfits)
            (fun _ => hsession.session.readOnly.trans hwritable)
          rw [hblockSize] at hmapped hpermits
          refine ⟨_, mapped.writeMemory offset byte, _, files', ?_, .write hwritable hstores,
            hmapped.write hpos hpermits byte⟩
          rw [performRequest, perform, writeByte, Program.bind_assoc,
            Program.run_bind_of_returned hrun]
          rfl
      | msync schedule =>
          obtain ⟨entries, hentries⟩ := Option.isSome_iff_exists.mp hmetadata
          obtain ⟨committed, files', hrun, hkept, hstores⟩ :=
            hsession.run_msync hsound hentries schedule
          refine ⟨[], committed, _, files', ?_, .msync hentries hstores, hkept⟩
          rw [performRequest, perform, Program.run_bind_of_returned hrun]
          rfl
  | snapshot version schedule =>
      have hframe := run_whereNew version manager
        (takeSnapshot blocks.build manager version schedule) files
      split_ifs at hframe with hthere
      · refine ⟨[], manager, set, files, ?_, .refused hthere.1 hthere.2, hsession⟩
        exact Program.run_bind_of_returned hframe
      · have hcreated : WorkingSession blocks
            { start with versionMetadataPath := manager.versionMetadataPath } set manager
              (files.setDirectory (.path version)) :=
          hsession.redirect manager.versionMetadataPath rfl
        rw [hsession.session.versionMetadataPath] at hcreated
        obtain ⟨restored, between, htaken, hkept, hstores⟩ := hcreated.run_takeSnapshot hsound
          (files.setDirectory_self _) schedule
        exact ⟨[], restored, _, _, Program.run_bind_of_returned (hframe.trans htaken),
          .taken hthere hstores, hkept⟩

/-- A program returns and does what the working set says, by induction on its requests. -/
theorem WorkingSession.run_performRequests (hsound : blocks.build.Sound)
    (hpos : 0 < blocks.blockSize) (hsession : WorkingSession blocks start set manager files)
    (hdirectory : files.directories (.path start.versionMetadataPath))
    (hmetadata : (files.metadata start.versionMetadataPath).isSome) {requests : List UffdRequest}
    (hwithin : ∀ call ∈ requests.map UffdRequest.call,
      call.Within (start.numBlocks * blocks.blockSize))
    (hfits : (set.touched ∪ touchedBlocks blocks.blockSize
      (requests.map UffdRequest.call)).card * blocks.blockSize ≤ start.maxMemSize)
    (hreadWrite : ∀ offset byte, .write offset byte ∈ requests.map UffdRequest.call →
      start.readOnly = false) :
    ∃ bytes manager' set' files', (performRequests blocks.build requests manager).run
        FileSystem.answer files = (.returned (bytes, manager'), files') ∧
      WorkingSet.PerformsAll blocks start set files (requests.map UffdRequest.call) bytes set'
        files' ∧ WorkingSession blocks start set' manager' files' := by
  induction requests generalizing set manager files with
  | nil => exact ⟨[], manager, set, files, rfl, .nil, hsession⟩
  | cons request rest ih =>
      rw [List.map_cons] at hwithin hfits hreadWrite
      rw [touchedBlocks, ← Finset.union_assoc] at hfits
      have hroom : request.call.Fits blocks.blockSize start.maxMemSize set.touched :=
        (Nat.mul_le_mul_right _ (Finset.card_le_card Finset.subset_union_left)).trans hfits
      obtain ⟨bytes, manager', set', between, hrun, hperforms, hnext⟩ :=
        hsession.run_performRequest hsound hpos hmetadata (hwithin _ List.mem_cons_self) hroom
          fun offset byte hwrite => hreadWrite offset byte (hwrite ▸ List.mem_cons_self)
      obtain ⟨hdirectory', hmetadata'⟩ := hperforms.version hdirectory hmetadata
      rw [← hperforms.touched] at hfits
      obtain ⟨others, manager'', set'', final, hrest, hperformed, hfinal⟩ := ih hnext hdirectory'
        hmetadata' (fun call hcall => hwithin call (List.mem_cons_of_mem _ hcall)) hfits
        fun offset byte hwrite => hreadWrite offset byte (List.mem_cons_of_mem _ hwrite)
      refine ⟨bytes ++ others, manager'', set'', final, ?_, .cons hperforms hperformed, hfinal⟩
      rw [performRequests, Program.run_bind_of_returned hrun, Program.run_bind_of_returned hrest]
      rfl

end UffdVirtualMemoryManager

end Privateer
