import Privateer.Datastore.WorkingSet
import Privateer.Sigaction.UnevictedCommits

/-!
# The SIGACTION manager as a working set

As long as every block that is touched finds room, the manager's sets and lists are those of
a working set: the resident blocks were touched, and the dirty list has those that were
written to.  An access changes nothing that a reader of the datastore sees, and a commit
stores the dirty blocks and writes one table.
-/

namespace Privateer

namespace SigactionVirtualMemoryManager

open VirtualMemoryManagerBase (SameSession)

variable {Hash : Type} [DecidableEq Hash] {blocks : BlocksDirectory Hash}
variable {manager mapped : SigactionVirtualMemoryManager Hash} {files files' : FileSystem Hash}
variable {contents : ℕ → List Byte} {set : WorkingSet Hash} {block : ℕ}
variable {start : VirtualMemoryManagerBase Hash}

/-- A session that carries out a working set. -/
structure WorkingSession (blocks : BlocksDirectory Hash) (start : VirtualMemoryManagerBase Hash)
    (set : WorkingSet Hash) (manager : SigactionVirtualMemoryManager Hash)
    (files : FileSystem Hash) : Prop where
  unevicted : Unevicted blocks (blockOf blocks.blockSize set.region) manager files
  session : start.SameSession manager.base
  touched : manager.presentBlocks = set.touched
  dirty : manager.dirtyLru.toFinset = set.dirty
  blocksIds : manager.blocksIds = set.blocksIds
  reader : manager.readOnly = true → set.dirty = ∅

/-! ## Accesses -/

/-- A block that is not stashed is looked up under its name. -/
theorem storesOnly_loadAbsent
    (hunstashed : manager.blockStorage.stashBlockIds block = none) (isWriteFault : Bool) :
    (loadAbsent blocks.build manager block isWriteFault).CallsOnly
      (Call.StoresOnly blocks {manager.blocksIds block}) := by
  unfold loadAbsent BlockStorage.getBlockStashPath
  simp only [hunstashed, Option.map_none]
  split
  · trivial
  · refine (BlockStorage.storesOnly_getBlockFullPath block _).bind fun path => ?_
    refine (callsOnly_readBacking ?_ ?_ (fun _ => ?_) ?_ _ _).bind fun buffer => trivial
    · exact Call.storesOnly_of_nothing trivial (fun _ h => by cases h) rfl
    · exact Call.storesOnly_of_nothing trivial (fun _ h => by cases h) rfl
    · exact Call.storesOnly_of_nothing trivial (fun _ h => by cases h) rfl
    · exact Call.storesOnly_of_nothing trivial (fun _ h => by cases h) rfl

/-- The manager after an access: as it was, with a clean block on the dirty list, or with one
more block mapped. -/
inductive Reached (manager : SigactionVirtualMemoryManager Hash) (contents : ℕ → List Byte)
    (block : ℕ) (isWrite : Bool) : SigactionVirtualMemoryManager Hash → Prop
  | permitted (hpermits : (manager.protection block).permits isWrite) :
      Reached manager contents block isWrite manager
  | written (hpresent : block ∈ manager.presentBlocks) (hwrite : isWrite = true)
      (hreadWrite : manager.readOnly = false) :
      Reached manager contents block isWrite ((manager.moveToDirty block).protect block .write)
  | loaded (noted : ℕ → Option (Option Hash))
      (hreadWrite : isWrite = true → manager.readOnly = false) :
      Reached manager contents block isWrite
        (manager.loaded noted block (contents block) isWrite)

/-- A fault on a block that is not resident loads it, and shows nothing in the datastore. -/
theorem Unevicted.loadAbsent_stores (hsound : blocks.build.Sound)
    (hunevicted : Unevicted blocks contents manager files) (hblock : block < manager.numBlocks)
    (habsent : block ∉ manager.presentBlocks) {isWriteFault : Bool}
    (hrun : (loadAbsent blocks.build manager block isWriteFault).run FileSystem.answer files =
      (.returned mapped, files')) :
    (∃ noted, mapped = manager.loaded noted block (contents block) isWriteFault) ∧
      blocks.Stores ∅ files.metadata files files' := by
  obtain ⟨noted, hmapped, -, hpromises⟩ :=
    hunevicted.loadAbsent_returned hsound hblock habsent hrun
  refine ⟨⟨noted, hmapped⟩, ?_⟩
  rcases hunevicted.names block hblock (hunevicted.pages.not_dirty habsent) with
    ⟨hempty, -⟩ | hstored
  · have hnothing : (loadAbsent blocks.build manager block isWriteFault).run FileSystem.answer
        files = (.returned ((manager.protect block (faultProtection isWriteFault)).makeResident
          block isWriteFault), files) := by
      unfold loadAbsent BlockStorage.getBlockStashPath
      simp only [hunevicted.unstashed block, Option.map_none, hempty, if_true]
      rfl
    cases hnothing.symm.trans hrun
    exact .refl blocks files
  · obtain ⟨-, hkeeps⟩ := hunevicted.named_of_tolerates fun location =>
      (hpromises location).toTolerates
    exact BlocksDirectory.stores_of_lookup
      (storesOnly_loadAbsent (hunevicted.unstashed block) isWriteFault) hstored hkeeps hrun

/-- What an access does for which there is room. -/
theorem Unevicted.access_reached (hsound : blocks.build.Sound)
    (hunevicted : Unevicted blocks contents manager files) {offset : ℕ}
    (hoffset : offset / manager.blockSize < manager.numBlocks)
    (hroom : manager.FindsRoom (offset / manager.blockSize)) {isWrite : Bool}
    (hrun : (access blocks.build manager offset isWrite).run FileSystem.answer files =
      (.returned mapped, files')) :
    Reached manager contents (offset / manager.blockSize) isWrite mapped ∧
      blocks.Stores ∅ files.metadata files files' := by
  unfold access at hrun
  dsimp only at hrun
  generalize offset / manager.blockSize = block at hoffset hroom hrun ⊢
  split_ifs at hrun with hpermits
  · cases hrun
    exact ⟨.permitted hpermits, .refl blocks files⟩
  · obtain ⟨handled, between, hhandler, hlast⟩ := Program.run_bind_returned hrun
    split_ifs at hlast with hpermits'
    · cases hlast
      unfold handler at hhandler
      split_ifs at hhandler with hreadOnly hpresent
      · cases (Prod.mk.inj hhandler).1
      · -- Only a write faults on a resident block.
        have hwrite : isWrite = true := by
          cases hprotection : manager.protection block with
          | none => exact absurd hprotection ((hunevicted.pages.present block).mp hpresent)
          | read =>
              rw [hprotection, Protection.permits, Bool.not_eq_true', Bool.not_eq_false]
                at hpermits
              exact hpermits
          | write =>
              rw [hprotection] at hpermits
              exact absurd rfl hpermits
        have hunstashed : block ∉ (manager.moveToDirty block).stashSet := by
          change block ∉ manager.stashSet
          rw [hunevicted.pages.stashSet]
          exact Finset.notMem_empty block
        subst hwrite
        unfold handlePresent at hhandler
        simp only [if_true, hunstashed, if_false] at hhandler
        cases hhandler
        exact ⟨.written hpresent rfl (by simpa using hreadOnly), .refl blocks files⟩
      · have hfree := hroom.resolve_left hpresent
        have hevict : (evictIfNeeded manager).run FileSystem.answer files =
            (.returned manager, files) := by
          rw [evictIfNeeded, if_neg (not_le.mpr hfree)]
          rfl
        rw [Program.run_bind_of_returned hevict] at hhandler
        obtain ⟨⟨noted, rfl⟩, hstores⟩ :=
          hunevicted.loadAbsent_stores hsound hoffset hpresent hhandler
        exact ⟨.loaded noted fun hwrite => by simpa [hwrite] using hreadOnly, hstores⟩
    · cases (Prod.mk.inj hlast).1

/-- The access that the working set records. -/
theorem WorkingSession.reached (hsession : WorkingSession blocks start set manager files)
    {isWrite : Bool} (hreached : Reached manager contents block isWrite mapped) :
    mapped.presentBlocks = (set.access block isWrite).touched ∧
      mapped.dirtyLru.toFinset = (set.access block isWrite).dirty ∧
      (isWrite = true → manager.readOnly = false) := by
  have hpages := hsession.unevicted.pages
  have htouched := hsession.touched
  have hdirty := hsession.dirty
  unfold WorkingSet.access
  rw [← htouched, ← hdirty]
  cases hreached with
  | permitted hpermits =>
      have hpresent : block ∈ manager.presentBlocks := by
        rw [hpages.present]
        intro hnone
        rw [hnone] at hpermits
        cases hpermits
      refine ⟨(Finset.insert_eq_of_mem hpresent).symm, ?_, fun hwrite => ?_⟩
      · cases isWrite with
        | true =>
            exact (Finset.insert_eq_of_mem
              (List.mem_toFinset.mpr (hpages.dirty_of_permits hpermits))).symm
        | false => rfl
      · -- A session that is only read has no block that can be written to.
        subst hwrite
        have hwritten := List.mem_toFinset.mpr (hpages.dirty_of_permits hpermits)
        by_contra hreader
        rw [hdirty, hsession.reader (Bool.eq_true_of_not_eq_false hreader)] at hwritten
        exact Finset.notMem_empty block hwritten
  | written hpresent hwrite hreadWrite =>
      subst hwrite
      exact ⟨(Finset.insert_eq_of_mem hpresent).symm, List.toFinset_cons, fun _ => hreadWrite⟩
  | loaded noted hreadWrite =>
      refine ⟨loaded_presentBlocks manager noted block _ isWrite, ?_, hreadWrite⟩
      rw [loaded_dirtyLru]
      cases isWrite with
      | true => exact List.toFinset_cons
      | false => rfl

/-- An access that goes through. -/
theorem WorkingSession.access_returned (hsound : blocks.build.Sound)
    (hsession : WorkingSession blocks start set manager files) {offset : ℕ}
    (hoffset : offset / manager.blockSize < manager.numBlocks)
    (hroom : manager.FindsRoom (offset / manager.blockSize)) {isWrite : Bool}
    (hrun : (access blocks.build manager offset isWrite).run FileSystem.answer files =
      (.returned mapped, files')) :
    WorkingSession blocks start (set.access (offset / manager.blockSize) isWrite) mapped files' ∧
      blocks.Stores ∅ files.metadata files files' ∧
      (mapped.protection (offset / manager.blockSize)).permits isWrite ∧
      (isWrite = true → manager.readOnly = false) := by
  obtain ⟨hkept, haccessed, hpermits⟩ :=
    hsession.unevicted.access_returned hsound hoffset hroom hrun
  obtain ⟨hreached, hstores⟩ := hsession.unevicted.access_reached hsound hoffset hroom hrun
  obtain ⟨htouched, hdirty, hreadWrite⟩ := hsession.reached hreached
  refine ⟨⟨hkept, hsession.session.trans haccessed.session, htouched, hdirty,
    haccessed.blocksIds.trans hsession.blocksIds, fun hreader => ?_⟩, hstores, hpermits,
    hreadWrite⟩
  rw [haccessed.session.readOnly] at hreader
  have hread : isWrite = false := by
    by_contra hwrite
    rw [hreadWrite (Bool.eq_true_of_not_eq_false hwrite)] at hreader
    cases hreader
  rw [hread]
  exact hsession.reader hreader

/-- A write to a block that can be written to. -/
theorem WorkingSession.write (hsession : WorkingSession blocks start set manager files)
    (hpos : 0 < blocks.blockSize) {offset : ℕ}
    (hpermits : (manager.protection (offset / manager.blockSize)).permits true) (byte : Byte) :
    WorkingSession blocks start (set.write offset byte)
      { manager with
        memory := Function.update manager.memory (offset / manager.blockSize)
          ((manager.memory (offset / manager.blockSize)).set (offset % manager.blockSize) byte) }
      files := by
  have hunevicted := hsession.unevicted
  have hdirty := hunevicted.pages.dirty_of_permits hpermits
  have hpresent : offset / manager.blockSize ∈ manager.presentBlocks := by
    by_contra habsent
    exact hunevicted.pages.not_dirty habsent hdirty
  have hwritten := hunevicted.write hdirty (length_blockOf blocks.blockSize
    (Function.update set.region offset byte) (offset / manager.blockSize))
  rw [hunevicted.memory _ hpresent]
  rw [hunevicted.blockSize] at hwritten ⊢
  rw [blockOf_update_self, ← blockOf_update hpos] at hwritten
  exact ⟨hwritten, hsession.session, hsession.touched, hsession.dirty, hsession.blocksIds,
    hsession.reader⟩

/-- What a session shows at an offset. -/
theorem WorkingSession.getD_memory (hsession : WorkingSession blocks start set manager files)
    (hpos : 0 < blocks.blockSize) {offset : ℕ}
    (hpermits : (manager.protection (offset / manager.blockSize)).permits false) :
    (manager.memory (offset / manager.blockSize)).getD (offset % manager.blockSize) 0 =
      set.region offset := by
  have hpresent : offset / manager.blockSize ∈ manager.presentBlocks := by
    rw [hsession.unevicted.pages.present]
    intro hnone
    rw [hnone] at hpermits
    cases hpermits
  rw [hsession.unevicted.memory _ hpresent, hsession.unevicted.blockSize, getD_blockOf hpos]

/-! ## Commits -/

/-- A commit stores the dirty blocks and writes the table. -/
theorem WorkingSession.run_msync (hsound : blocks.build.Sound)
    (hsession : WorkingSession blocks start set manager files) {entries : List Hash}
    (hmetadata : files.metadata start.versionMetadataPath = some entries)
    (schedule : MsyncSchedule) :
    ∃ committed files', (msync blocks.build manager schedule).run FileSystem.answer files =
        (.returned committed, files') ∧
      WorkingSession blocks start (set.commit blocks.build blocks.blockSize) committed files' ∧
      blocks.Stores (set.unsaved blocks.blockSize)
        (Function.update files.metadata start.versionMetadataPath
          (some ((set.commit blocks.build blocks.blockSize).table entries))) files files' := by
  have hunevicted := hsession.unevicted
  have hpages := hunevicted.pages
  have hlisted : ∀ block, block ∈ manager.dirtyLru ↔ block ∈ set.dirty := fun block => by
    rw [← hsession.dirty, List.mem_toFinset]
  have hmemory : ∀ block ∈ manager.dirtyLru,
      manager.memory block = blockOf blocks.blockSize set.region block := by
    intro block hblock
    apply hunevicted.memory
    rw [hpages.present, (hpages.dirty block).mp hblock]
    exact Protection.noConfusion
  obtain ⟨committed, between, hrun, hkept, hstored⟩ :=
    hunevicted.run_msyncBlocks hsound schedule
  have hblocks := hrun
  unfold msyncBlocks at hblocks
  rw [hpages.stashSet] at hblocks
  obtain ⟨result, middle, hcommit, hlast⟩ := Program.run_bind_returned hblocks
  obtain ⟨hcommitted, rfl⟩ := Prod.mk.inj hlast
  obtain ⟨hids, hstores⟩ := VirtualMemoryManagerBase.commitBlocks_stores hsound
    hunevicted.baseDirectory hunevicted.granularity hunevicted.named hpages.nodup
    (fun block hblock => by rw [hmemory block hblock, hunevicted.length]) hcommit
  have hunsaved : manager.memory '' {block | block ∈ manager.dirtyLru} =
      set.unsaved blocks.blockSize := by
    have hsame : {block | block ∈ manager.dirtyLru} = (set.dirty : Set ℕ) := by
      ext block
      exact hlisted block
    rw [WorkingSet.unsaved, ← hsame]
    exact Set.image_congr hmemory
  rw [hunsaved] at hstores
  have hnames : committed.blocksIds = (set.commit blocks.build blocks.blockSize).blocksIds := by
    funext block
    rw [← Outcome.returned.inj hcommitted]
    refine (hids block).trans ?_
    rw [WorkingSet.commit_blocksIds, ← hsession.blocksIds]
    by_cases hdirty : block ∈ manager.dirtyLru
    · rw [if_pos hdirty, if_pos ((hlisted block).mp hdirty), hmemory block hdirty]
    · rw [if_neg hdirty, if_neg fun hmember => hdirty ((hlisted block).mpr hmember)]
  have hsame := hsession.session.trans hstored.session
  have htable : middle.metadata committed.base.versionMetadataPath = some entries := by
    rw [hsame.versionMetadataPath, hstores.metadata, hmetadata]
  have hupdate := VirtualMemoryManagerBase.run_updateMetadata committed.presentBlocks htable
  have hpresent : committed.presentBlocks = set.touched := hstored.present.trans hsession.touched
  rw [hpresent, hnames, hsame.versionMetadataPath] at hupdate
  refine ⟨committed, _, ?_, ⟨hkept.extend fun _ => BlocksDirectory.tolerates_setMetadata _ _,
    hsame, hpresent, ?_, hnames, fun _ => rfl⟩, hstores.setMetadata _ _⟩
  · unfold msync
    rw [Program.run_bind_of_returned hrun, updateMetadata, hpresent]
    exact Program.run_bind_of_returned hupdate
  · rw [hstored.clean]
    rfl

/-- Another path, and other tables. -/
theorem WorkingSession.redirect (hsession : WorkingSession blocks start set manager files)
    (version : Path) (hdata : files'.data = files.data) :
    WorkingSession blocks { start with versionMetadataPath := version } set
      { manager with versionMetadataPath := version } files' := by
  have hunevicted := hsession.unevicted
  have hpages := hunevicted.pages
  have hsame := hsession.session
  refine ⟨⟨⟨hpages.present, hpages.dirty, hpages.nodup, hpages.stashSet, hpages.present_lt⟩,
    hunevicted.blockSize, hunevicted.baseDirectory, hunevicted.granularity, hunevicted.unstashed,
    hunevicted.unnoted, hunevicted.length, hunevicted.memory, hunevicted.zeros,
    fun location hlocation subdirectory name bytes hbytes => ?_,
    fun block hblock hclean => (hunevicted.names block hblock hclean).keep fun _ _ _ hbytes => ?_⟩,
    ⟨rfl, hsame.regionMaxCapacity, hsame.blockSize, hsame.maxMemSize, hsame.readOnly,
      hsame.stashDirectory⟩, hsession.touched, hsession.dirty, hsession.blocksIds,
    hsession.reader⟩
  · rw [hdata] at hbytes
    exact hunevicted.named location hlocation subdirectory name bytes hbytes
  · rw [hdata, hbytes]

/-- A snapshot commits the session to the path of the new version. -/
theorem WorkingSession.run_takeSnapshot (hsound : blocks.build.Sound)
    (hsession : WorkingSession blocks start set manager files) {version : Path}
    (hdirectory : files.directories (.path version)) (schedule : MsyncSchedule) :
    ∃ restored between, (takeSnapshot blocks.build manager version schedule).run
        FileSystem.answer files =
          (.returned (true, restored), between.writeVersion version
            ((set.commit blocks.build blocks.blockSize).table ((files.metadata version).getD []))
            blocks.location start.regionMaxCapacity) ∧
      WorkingSession blocks start (set.commit blocks.build blocks.blockSize) restored
        (between.writeVersion version
          ((set.commit blocks.build blocks.blockSize).table ((files.metadata version).getD []))
          blocks.location start.regionMaxCapacity) ∧
      blocks.Stores (set.unsaved blocks.blockSize)
        (Function.update files.metadata version
          (some ((set.commit blocks.build blocks.blockSize).table
            ((files.metadata version).getD [])))) files between := by
  let opened := files.setMetadata version (some ((files.metadata version).getD []))
  have hopened : WorkingSession blocks { start with versionMetadataPath := version } set
      { manager with versionMetadataPath := version } opened := hsession.redirect version rfl
  obtain ⟨committed, between, hrun, hkept, hstores⟩ := hopened.run_msync hsound
    (FileSystem.setMetadata_self _ _ _) schedule
  have hdirectory' : between.directories (.path version) :=
    (hstores.directories version).trans hdirectory
  have hwritten : between.metadata version =
      some ((set.commit blocks.build blocks.blockSize).table
        ((files.metadata version).getD [])) := by
    rw [hstores.metadata]
    exact Function.update_self _ _ _
  let written := (set.commit blocks.build blocks.blockSize).table ((files.metadata version).getD [])
  let final := between.writeVersion version written blocks.location start.regionMaxCapacity
  let restored := { committed with versionMetadataPath := manager.versionMetadataPath }
  have hrestored : WorkingSession blocks
      { start with versionMetadataPath := manager.versionMetadataPath }
      (set.commit blocks.build blocks.blockSize) restored final := hkept.redirect _ rfl
  rw [hsession.session.versionMetadataPath] at hrestored
  refine ⟨restored, between, ?_, hrestored, ⟨hstores.directories, hstores.texts, ?_,
    hstores.stored, hstores.others⟩⟩
  · exact run_writeSnapshot hdirectory hrun hdirectory' hwritten hkept.unevicted.baseDirectory
      hkept.session.regionMaxCapacity fun committed =>
        { committed with versionMetadataPath := manager.versionMetadataPath }
  · rw [hstores.metadata]
    exact Function.update_idem _ _ _

/-! ## Calls -/

/-- There is room for a block that a call needs. -/
theorem WorkingSession.findsRoom (hsession : WorkingSession blocks start set manager files)
    (hpos : 0 < blocks.blockSize)
    (hfits : (insert block set.touched).card * blocks.blockSize ≤ start.maxMemSize) :
    manager.FindsRoom block := by
  unfold FindsRoom
  rw [hsession.touched, hsession.session.maxMemSize, hsession.unevicted.blockSize]
  by_cases htouched : block ∈ set.touched
  · exact .inl htouched
  · rw [Finset.card_insert_of_notMem htouched] at hfits
    exact .inr ((Nat.mul_lt_mul_of_pos_right (Nat.lt_succ_self _) hpos).trans_le hfits)

/-- A call that returns does what the working set says. -/
theorem WorkingSession.perform_returned (hsound : blocks.build.Sound)
    (hpos : 0 < blocks.blockSize) (hsession : WorkingSession blocks start set manager files)
    (hmetadata : (files.metadata start.versionMetadataPath).isSome) {operation : Operation}
    (hwithin : operation.call.Within (start.numBlocks * blocks.blockSize))
    (hfits : operation.call.Fits blocks.blockSize start.maxMemSize set.touched)
    {bytes : List Byte} {manager' : SigactionVirtualMemoryManager Hash}
    (hrun : (perform blocks.build manager operation).run FileSystem.answer files =
      (.returned (bytes, manager'), files')) :
    ∃ set', WorkingSet.Performs blocks start set files operation.call bytes set' files' ∧
      WorkingSession blocks start set' manager' files' := by
  have hblockSize := hsession.unevicted.blockSize
  have hinside : ∀ offset < start.numBlocks * blocks.blockSize,
      offset / manager.blockSize < manager.numBlocks := by
    intro offset hoffset
    rw [hblockSize, hsession.session.numBlocks]
    exact Nat.div_lt_of_lt_mul (by rwa [Nat.mul_comm])
  have hroom : ∀ offset : ℕ,
      (set.touched ∪ {offset / blocks.blockSize}).card * blocks.blockSize ≤ start.maxMemSize →
        manager.FindsRoom (offset / manager.blockSize) := by
    intro offset hoffset
    rw [Finset.union_comm, ← Finset.insert_eq] at hoffset
    rw [hblockSize]
    exact hsession.findsRoom hpos hoffset
  cases operation with
  | read offset =>
      obtain ⟨result, between, hread, hlast⟩ := Program.run_bind_returned hrun
      cases hlast
      obtain ⟨mapped, middle, haccess, hlast⟩ := Program.run_bind_returned hread
      cases hlast
      obtain ⟨hmapped, hstores, hpermits, -⟩ :=
        hsession.access_returned hsound (hinside offset hwithin) (hroom offset hfits) haccess
      have hsize := hmapped.unevicted.blockSize
      rw [hblockSize] at hmapped hpermits
      refine ⟨_, ?_, hmapped⟩
      rw [hmapped.getD_memory hpos (by rw [hsize]; exact hpermits)]
      exact .read hstores
  | write offset byte =>
      obtain ⟨result, between, hwrite, hlast⟩ := Program.run_bind_returned hrun
      cases hlast
      obtain ⟨mapped, middle, haccess, hlast⟩ := Program.run_bind_returned hwrite
      cases hlast
      obtain ⟨hmapped, hstores, hpermits, hreadWrite⟩ :=
        hsession.access_returned hsound (hinside offset hwithin) (hroom offset hfits) haccess
      have hsize := hmapped.unevicted.blockSize
      rw [hblockSize] at hmapped hpermits
      exact ⟨_, .write (hsession.session.readOnly.symm.trans (hreadWrite rfl)) hstores,
        hmapped.write hpos (by rw [hsize]; exact hpermits) byte⟩
  | msync schedule =>
      obtain ⟨entries, hentries⟩ := Option.isSome_iff_exists.mp hmetadata
      obtain ⟨committed, between, hmsync, hkept, hstores⟩ :=
        hsession.run_msync hsound hentries schedule
      rw [perform, Program.run_bind_of_returned hmsync] at hrun
      cases hrun
      exact ⟨_, .msync hentries hstores, hkept⟩
  | snapshot version schedule =>
      obtain ⟨result, between, hsnapshot, hlast⟩ := Program.run_bind_returned hrun
      cases hlast
      have hframe := run_whereNew version manager
        (takeSnapshot blocks.build manager version schedule) files
      have hsnapshot' := hframe.symm.trans hsnapshot
      split_ifs at hsnapshot' with hthere
      · cases hsnapshot'
        exact ⟨set, .refused hthere.1 hthere.2, hsession⟩
      · have hcreated : WorkingSession blocks
            { start with versionMetadataPath := manager.versionMetadataPath } set manager
              (files.setDirectory (.path version)) :=
          hsession.redirect manager.versionMetadataPath rfl
        rw [hsession.session.versionMetadataPath] at hcreated
        obtain ⟨restored, middle, htaken, hkept, hstores⟩ := hcreated.run_takeSnapshot hsound
          (files.setDirectory_self _) schedule
        rw [← hsession.session.versionMetadataPath] at htaken
        cases htaken.symm.trans hsnapshot'
        exact ⟨_, .taken hthere hstores, hkept⟩

/-- A program that returns does what the working set says, by induction on its operations: the
blocks that are still to be touched fit beside those that are there. -/
theorem WorkingSession.performAll_returned (hsound : blocks.build.Sound)
    (hpos : 0 < blocks.blockSize) (hsession : WorkingSession blocks start set manager files)
    (hdirectory : files.directories (.path start.versionMetadataPath))
    (hmetadata : (files.metadata start.versionMetadataPath).isSome) {operations : List Operation}
    (hwithin : ∀ operation ∈ operations,
      operation.call.Within (start.numBlocks * blocks.blockSize))
    (hfits : (set.touched ∪ touchedBlocks blocks.blockSize
      (operations.map Operation.call)).card * blocks.blockSize ≤ start.maxMemSize)
    {bytes : List Byte} {manager' : SigactionVirtualMemoryManager Hash}
    (hrun : (performAll blocks.build operations manager).run FileSystem.answer files =
      (.returned (bytes, manager'), files')) :
    ∃ set', WorkingSet.PerformsAll blocks start set files (operations.map Operation.call) bytes
        set' files' ∧ WorkingSession blocks start set' manager' files' := by
  induction operations generalizing set manager files bytes with
  | nil =>
      cases hrun
      exact ⟨set, .nil, hsession⟩
  | cons operation rest ih =>
      rw [List.map_cons, touchedBlocks, ← Finset.union_assoc] at hfits
      obtain ⟨first, between, hfirst, hrest⟩ := Program.run_bind_returned hrun
      obtain ⟨others, final, hothers, hlast⟩ := Program.run_bind_returned hrest
      cases hlast
      have hroom : operation.call.Fits blocks.blockSize start.maxMemSize set.touched :=
        (Nat.mul_le_mul_right _ (Finset.card_le_card Finset.subset_union_left)).trans hfits
      obtain ⟨set', hperforms, hnext⟩ := hsession.perform_returned hsound hpos hmetadata
        (hwithin operation List.mem_cons_self) hroom hfirst
      obtain ⟨hdirectory', hmetadata'⟩ := hperforms.version hdirectory hmetadata
      rw [← hperforms.touched] at hfits
      obtain ⟨set'', hperformed, hfinal⟩ := ih hnext hdirectory' hmetadata'
        (fun operation hoperation => hwithin operation (List.mem_cons_of_mem _ hoperation))
        hfits hothers
      exact ⟨set'', .cons hperforms hperformed, hfinal⟩

end SigactionVirtualMemoryManager

end Privateer
