import Privateer.Uffd.Committed
import Privateer.Uffd.UnevictedCommits

/-!
# The table of a version after `msync`

One application thread reads, writes, commits and takes snapshots on a region with any
number of handling threads, and nothing is evicted.  A snapshot stores dirty blocks
without writing the table of the session's own version, so that table may lack names of
blocks that are clean.  It never lacks names of blocks without pages, and `msync` writes
those of all others: afterwards the table has the name of every block.
-/

namespace Privateer

/-- What the application does with an open region, and with the versions beside it. -/
inductive UffdRequest where
  | perform (operation : UffdOperation)
  | snapshot (version : Path) (schedule : ℕ → MsyncSchedule)

namespace UffdVirtualMemoryManager

open VirtualMemoryManagerBase (SameSession)

variable {Hash : Type}

/-- The access lies in the region, its mapping permits it, and nothing has to be evicted
for it. -/
def Fits (manager : UffdVirtualMemoryManager Hash) : UffdOperation → Prop
  | .read offset => offset < manager.numBlocks * manager.blockSize ∧
      manager.FindsRoom (offset / manager.blockSize)
  | .write offset _ => offset < manager.numBlocks * manager.blockSize ∧
      manager.FindsRoom (offset / manager.blockSize) ∧ manager.readOnly = false
  | .msync _ => True

variable [DecidableEq Hash] {blocks : BlocksDirectory Hash} {files files' : FileSystem Hash}
variable {manager : UffdVirtualMemoryManager Hash} {region : ℕ → Byte} {entries : List Hash}

/-- One request that evicts nothing, in the session and on the plain array beside it. -/
def UnevictedStep (build : Build Hash) (state : SessionState Hash) (request : UffdRequest)
    (next : SessionState Hash) : Prop :=
  match request with
  | .perform operation =>
      state.manager.Fits operation ∧
        (∃ bytes, (perform build state.manager operation).run FileSystem.answer state.files =
          (.returned (bytes, next.manager), next.files)) ∧
        next.region = flatRegion [operation.flat] state.region
  | .snapshot version schedule =>
      state.files.directories (.path version) = false ∧
        (snapshot build state.manager version schedule).run FileSystem.answer state.files =
          (.returned (true, next.manager), next.files) ∧
        next.region = state.region

/-! ## Tables -/

/-- The table has the names of the blocks without pages. -/
structure Tabled (blocks : BlocksDirectory Hash) (manager : UffdVirtualMemoryManager Hash)
    (files : FileSystem Hash) (entries : List Hash) : Prop where
  version : blocks.HasVersion files manager.versionMetadataPath manager.regionMaxCapacity entries
  directory : files.directories (.path manager.versionMetadataPath)
  absent : ∀ block, manager.installed block = false →
    entries.getD block blocks.build.emptyBlockHash = manager.blocksIds block

/-- A session that has evicted nothing. -/
structure UnevictedSession (blocks : BlocksDirectory Hash) (region : ℕ → Byte)
    (manager : UffdVirtualMemoryManager Hash) (files : FileSystem Hash) : Prop where
  unevicted : Unevicted blocks (blockOf blocks.blockSize region) manager files
  threads : 0 < manager.numHandlingThreads
  blockSize_pos : 0 < blocks.blockSize
  table : ∃ entries, Tabled blocks manager files entries

omit [DecidableEq Hash] in
/-- Accesses leave the table alone. -/
theorem Tabled.access {mapped : UffdVirtualMemoryManager Hash} {block : ℕ} {isWrite : Bool}
    (htabled : Tabled blocks manager files entries)
    (haccessed : Accessed blocks manager mapped files files' block isWrite) :
    Tabled blocks mapped files' entries where
  version := by
    rw [haccessed.session.versionMetadataPath, haccessed.session.regionMaxCapacity]
    exact htabled.version.keep haccessed.promises
  directory := by
    rw [haccessed.session.versionMetadataPath]
    exact haccessed.promises.directories _ htabled.directory
  absent := fun block habsent => by
    rw [haccessed.blocksIds]
    apply htabled.absent
    by_contra hinstalled
    rw [haccessed.installed block (Bool.eq_true_of_not_eq_false hinstalled)] at habsent
    cases habsent

omit [DecidableEq Hash] in
/-- A commit leaves a table that has the names of all blocks. -/
theorem Tabled.commit {committed : UffdVirtualMemoryManager Hash} {entries' : List Hash}
    (htabled : Tabled blocks manager files entries) (hthreads : 0 < manager.numHandlingThreads)
    (hblockSize : manager.blockSize = blocks.blockSize)
    (hcommits : CommitsSubRegions blocks.build manager committed files files'
      (List.range manager.numHandlingThreads) entries entries') :
    Tabled blocks committed files' entries' ∧
      ∀ block, entries'.getD block blocks.build.emptyBlockHash = committed.blocksIds block := by
  have hall : ∀ block, entries'.getD block blocks.build.emptyBlockHash =
      committed.blocksIds block := by
    intro block
    apply hcommits.table
    cases hinstalled : manager.installed block with
    | false => exact .inl (htabled.absent block hinstalled)
    | true => exact .inr ⟨rfl, List.mem_range.mpr (Nat.mod_lt _ hthreads)⟩
  have hversion := htabled.version
  refine ⟨⟨?_, ?_, fun block _ => hall block⟩, hall⟩
  · rw [hcommits.session.versionMetadataPath, hcommits.session.regionMaxCapacity]
    refine ⟨hcommits.texts ▸ hversion.blocksPath, hcommits.texts ▸ hversion.capacityText,
      hcommits.texts ▸ hversion.granularity, ?_, ?_⟩
    · rw [hcommits.metadata, Function.update_self]
    · refine hcommits.length_le.trans (max_le hversion.length_le ?_)
      rw [VirtualMemoryManagerBase.numBlocks, hblockSize]
  · rw [hcommits.session.versionMetadataPath]
    exact hcommits.directories _ htabled.directory

/-! ## Requests -/

/-- A commit keeps the session, and the table then has the name of every block. -/
theorem UnevictedSession.run_msync (hsound : blocks.build.Sound)
    (hsession : UnevictedSession blocks region manager files) (schedule : ℕ → MsyncSchedule) :
    ∃ committed files' entries', (msync blocks.build manager schedule).run FileSystem.answer
        files = (.returned committed, files') ∧
      UnevictedSession blocks region committed files' ∧ manager.base.SameSession committed.base ∧
      committed.numHandlingThreads = manager.numHandlingThreads ∧
      Tabled blocks committed files' entries' ∧
      ∀ block < manager.numBlocks,
        entries'.getD block blocks.build.emptyBlockHash = committed.blocksIds block ∧
          blocks.Names files' (committed.blocksIds block) (blockOf blocks.blockSize region block) := by
  obtain ⟨entries, htabled⟩ := hsession.table
  obtain ⟨committed, files', entries', hrun, hkept, hcommits, hclean⟩ :=
    hsession.unevicted.run_msync hsound hsession.threads htabled.version.metadata schedule
  obtain ⟨htabled', hall⟩ := htabled.commit hsession.threads hsession.unevicted.blockSize hcommits
  refine ⟨committed, files', entries', hrun, ⟨hkept, ?_, hsession.blockSize_pos, entries', htabled'⟩,
    hcommits.session, hcommits.numHandlingThreads, htabled', fun block hblock =>
      ⟨hall block, ?_⟩⟩
  · exact hsession.threads.trans_eq hcommits.numHandlingThreads.symm
  · exact hkept.names block (hblock.trans_eq hcommits.session.numBlocks.symm) (hclean block)

/-- An access, a write included, is what it is on the plain array. -/
theorem UnevictedSession.run_perform (hsound : blocks.build.Sound)
    (hsession : UnevictedSession blocks region manager files) {operation : UffdOperation}
    (hfits : manager.Fits operation) :
    ∃ manager' files', (perform blocks.build manager operation).run FileSystem.answer files =
        (.returned (flatReads [operation.flat] region, manager'), files') ∧
      UnevictedSession blocks (flatRegion [operation.flat] region) manager' files' ∧
        manager.base.SameSession manager'.base := by
  have hpos := hsession.blockSize_pos
  have hblockSize := hsession.unevicted.blockSize
  have hinside : ∀ offset < manager.numBlocks * manager.blockSize,
      offset / manager.blockSize < manager.numBlocks := fun offset hoffset =>
    Nat.div_lt_of_lt_mul (by rwa [Nat.mul_comm])
  obtain ⟨entries, htabled⟩ := hsession.table
  cases operation with
  | read offset =>
      obtain ⟨hoffset, hroom⟩ := hfits
      obtain ⟨mapped, files', hrun, hmapped, hdone⟩ := hsession.unevicted.run_access hsound
        (hinside offset hoffset) hroom false (fun hwrite => absurd hwrite Bool.false_ne_true)
      have hinstalled : mapped.installed (offset / manager.blockSize) = true := by
        have hpermits := hdone.permits
        rw [permits, Bool.and_eq_true] at hpermits
        exact hpermits.1
      have hbyte : (mapped.memory (offset / mapped.blockSize)).getD
          (offset % mapped.blockSize) 0 = region offset := by
        rw [hdone.session.blockSize, hmapped.memory _ hinstalled, hblockSize, getD_blockOf hpos]
      refine ⟨mapped, files', ?_, ⟨hmapped, hsession.threads.trans_eq hdone.numHandlingThreads.symm,
        hpos, entries, htabled.access hdone⟩, hdone.session⟩
      rw [perform, readByte, Program.bind_assoc, Program.run_bind_of_returned hrun]
      exact congrArg (fun byte => (Outcome.returned ([byte], mapped), files')) hbyte
  | write offset byte =>
      obtain ⟨hoffset, hroom, hreadWrite⟩ := hfits
      obtain ⟨mapped, files', hrun, hmapped, hdone⟩ := hsession.unevicted.run_access hsound
        (hinside offset hoffset) hroom true (fun _ => hreadWrite)
      have hdirty : mapped.Dirty (offset / blocks.blockSize) := by
        have hpermits := hdone.permits
        rw [permits, Bool.true_and, Bool.and_eq_true, Bool.not_eq_true', hblockSize] at hpermits
        exact hpermits
      have hcontent := blockOf_update_self blocks.blockSize region offset byte
      have hmemory : (mapped.memory (offset / blocks.blockSize)).set (offset % blocks.blockSize)
          byte = blockOf blocks.blockSize (Function.update region offset byte)
            (offset / blocks.blockSize) := by
        rw [hmapped.memory _ hdirty.1, hcontent]
      have hregion : Function.update (blockOf blocks.blockSize region) (offset / blocks.blockSize)
          (blockOf blocks.blockSize (Function.update region offset byte)
            (offset / blocks.blockSize)) =
          blockOf blocks.blockSize (Function.update region offset byte) := by
        rw [hcontent, ← blockOf_update hpos]
      have hwritten := hmapped.write hdirty (length_blockOf blocks.blockSize
        (Function.update region offset byte) (offset / blocks.blockSize))
      rw [hregion, ← hmemory, ← hmapped.blockSize] at hwritten
      have htable := htabled.access hdone
      refine ⟨mapped.writeMemory offset byte, files', ?_, ⟨?_,
        hsession.threads.trans_eq hdone.numHandlingThreads.symm, hpos, entries,
        ⟨htable.version, htable.directory, htable.absent⟩⟩, hdone.session⟩
      · rw [perform, writeByte, Program.bind_assoc, Program.run_bind_of_returned hrun]
        rfl
      · rw [hmapped.blockSize] at hwritten
        rw [writeMemory, hmapped.blockSize]
        exact hwritten
  | msync schedule =>
      obtain ⟨committed, files', entries', hrun, hkept, hsame, -⟩ :=
        hsession.run_msync hsound schedule
      refine ⟨committed, files', ?_, hkept, hsame⟩
      rw [perform, Program.run_bind_of_returned hrun]
      rfl

/-- What a snapshot has done once the table of the new version is written. -/
theorem Unevicted.run_takeSnapshot (hsound : blocks.build.Sound) {contents : ℕ → List Byte}
    (hunevicted : Unevicted blocks contents manager files)
    (hthreads : 0 < manager.numHandlingThreads) {version : Path}
    (hdirectory : files.directories (.path version)) (schedule : ℕ → MsyncSchedule) :
    ∃ committed between written, (takeSnapshot blocks.build manager version schedule).run
        FileSystem.answer files =
          (.returned (true, { committed with versionMetadataPath := manager.versionMetadataPath }),
            between.writeVersion version written committed.blockStorage.baseDirectory
              committed.regionMaxCapacity) ∧
      Unevicted blocks contents committed between ∧
      CommitsSubRegions blocks.build { manager with versionMetadataPath := version } committed
        (files.setMetadata version (some ((files.metadata version).getD []))) between
        (List.range manager.numHandlingThreads) ((files.metadata version).getD []) written := by
  let opened := files.setMetadata version (some ((files.metadata version).getD []))
  let redirected := { manager with versionMetadataPath := version }
  have hopened : files.answer (.openMetadata version true false) = (true, opened) := by
    cases hmetadata : files.metadata version with
    | none => simp [FileSystem.answer, opened, hmetadata, hdirectory]
    | some entries =>
        simp [FileSystem.answer, opened, hmetadata, FileSystem.setMetadata_eq_self hmetadata]
  have hredirected : Unevicted blocks contents redirected opened :=
    (hunevicted.redirect version).of_data_eq rfl
  have hthreads' : 0 < redirected.numHandlingThreads := hthreads
  have hmetadata : opened.metadata redirected.versionMetadataPath =
      some ((files.metadata version).getD []) := FileSystem.setMetadata_self _ _ _
  obtain ⟨committed, between, written, hrun, hkept, hcommits, -⟩ :=
    hredirected.run_msync hsound hthreads' hmetadata schedule
  refine ⟨committed, between, written, ?_, hkept, hcommits⟩
  have hdirectory' : between.directories (.path version) :=
    hcommits.directories _ hdirectory
  have hwritten : between.metadata version = some written := by
    rw [hcommits.metadata]
    exact Function.update_self _ _ _
  unfold takeSnapshot
  simp only [Program.request_bind, Program.run_call, hopened]
  simp only [FileSystem.answer]
  rw [Program.run_bind_of_returned hrun]
  have hself := FileSystem.setMetadata_eq_self hwritten
  have htexts := run_writeTextFiles hdirectory' written committed.blockStorage.baseDirectory
    committed.regionMaxCapacity (.finish (true,
      { committed with versionMetadataPath := manager.versionMetadataPath }))
  rw [hself] at htexts
  exact htexts

/-- A snapshot to a version that is not there stores the dirty blocks and leaves the table
of the session's own version alone. -/
theorem UnevictedSession.run_snapshot (hsound : blocks.build.Sound)
    (hsession : UnevictedSession blocks region manager files) {version : Path}
    (hfresh : files.directories (.path version) = false) (schedule : ℕ → MsyncSchedule) :
    ∃ manager' files', (snapshot blocks.build manager version schedule).run FileSystem.answer
        files = (.returned (true, manager'), files') ∧
      UnevictedSession blocks region manager' files' ∧
        manager.base.SameSession manager'.base := by
  obtain ⟨entries, htabled⟩ := hsession.table
  have hother : manager.versionMetadataPath ≠ version := by
    intro hsame
    rw [← hsame, htabled.directory] at hfresh
    cases hfresh
  let prepared := files.setDirectory (.path version)
  have hprepared : Unevicted blocks (blockOf blocks.blockSize region) manager prepared :=
    hsession.unevicted.of_data_eq rfl
  obtain ⟨committed, between, written, hrun, hkept, hcommits⟩ :=
    hprepared.run_takeSnapshot hsound hsession.threads (files.setDirectory_self _) schedule
  let restored := { committed with versionMetadataPath := manager.versionMetadataPath }
  let final := between.writeVersion version written committed.blockStorage.baseDirectory
    committed.regionMaxCapacity
  have hsame := hcommits.session
  refine ⟨restored, final, ?_, ⟨(hkept.redirect _).of_data_eq rfl,
    hsession.threads.trans_eq hcommits.numHandlingThreads.symm, hsession.blockSize_pos, entries,
    ⟨?_, ?_, ?_⟩⟩, ⟨rfl, hsame.regionMaxCapacity, hsame.blockSize, hsame.maxMemSize,
      hsame.readOnly, hsame.stashDirectory⟩⟩
  · unfold snapshot
    simp only [Program.request_bind, Program.run_call, FileSystem.answer, hfresh,
      Bool.false_eq_true, if_false, if_true]
    exact hrun
  · have hversion := htabled.version
    have htexts : ∀ file : TextFile, file ≠ .capacity version → file ≠ .blocksPath version →
        final.texts file = files.texts file := by
      intro file hcapacity hpath
      rw [FileSystem.texts_writeVersion_of_ne hcapacity hpath, hcommits.texts]
      rfl
    have hcapacity : restored.regionMaxCapacity = manager.regionMaxCapacity :=
      hsame.regionMaxCapacity
    change blocks.HasVersion final manager.versionMetadataPath restored.regionMaxCapacity entries
    rw [hcapacity]
    refine ⟨?_, ?_, ?_, ?_, hversion.length_le⟩
    · rw [htexts _ (by simp) (by simpa using hother), hversion.blocksPath]
    · rw [htexts _ (by simpa using hother) (by simp), hversion.capacityText]
    · rw [htexts _ (by simp) (by simp), hversion.granularity]
    · rw [FileSystem.metadata_writeVersion_of_ne hother, hcommits.metadata,
        Function.update_of_ne hother]
      exact (FileSystem.setMetadata_of_ne _ hother _).trans hversion.metadata
  · exact hcommits.directories _ (FileSystem.directories_setDirectory htabled.directory)
  · intro block habsent
    have hinstalled : restored.installed = manager.installed := hcommits.installed
    rw [hinstalled] at habsent
    exact (htabled.absent block habsent).trans
      (hcommits.blocksIds block (not_dirty_of_absent habsent)).symm

/-- One step keeps the session. -/
theorem UnevictedSession.step (hsound : blocks.build.Sound) {state next : SessionState Hash}
    {request : UffdRequest}
    (hsession : UnevictedSession blocks state.region state.manager state.files)
    (hstep : UnevictedStep blocks.build state request next) :
    UnevictedSession blocks next.region next.manager next.files ∧
      state.manager.base.SameSession next.manager.base := by
  cases request with
  | perform operation =>
      obtain ⟨hfits, ⟨bytes, hrun⟩, hregion⟩ := hstep
      obtain ⟨manager', files', hrun', hnext, hsame⟩ := hsession.run_perform hsound hfits
      obtain ⟨hvalue, rfl⟩ := Prod.mk.inj (hrun'.symm.trans hrun)
      obtain rfl := congrArg Prod.snd (Outcome.returned.inj hvalue)
      rw [hregion]
      exact ⟨hnext, hsame⟩
  | snapshot version schedule =>
      obtain ⟨hfresh, hrun, hregion⟩ := hstep
      obtain ⟨manager', files', hrun', hnext, hsame⟩ :=
        hsession.run_snapshot hsound hfresh schedule
      obtain ⟨hvalue, rfl⟩ := Prod.mk.inj (hrun'.symm.trans hrun)
      obtain rfl := congrArg Prod.snd (Outcome.returned.inj hvalue)
      rw [hregion]
      exact ⟨hnext, hsame⟩

/-- Every state of a run is one of the session. -/
theorem UnevictedSession.run (hsound : blocks.build.Sound) {start : SessionState Hash}
    {trace : List (UffdRequest × SessionState Hash)}
    (hrun : Run (UnevictedStep blocks.build) start trace)
    (hstart : UnevictedSession blocks start.region start.manager start.files) :
    ∀ state ∈ Run.states start trace,
      UnevictedSession blocks state.region state.manager state.files ∧
        start.manager.base.SameSession state.manager.base := by
  have hkeep : ∀ state request next,
      (UnevictedSession blocks state.region state.manager state.files ∧
        start.manager.base.SameSession state.manager.base) →
      UnevictedStep blocks.build state request next →
      UnevictedSession blocks next.region next.manager next.files ∧
        start.manager.base.SameSession next.manager.base := by
    rintro state request next ⟨hsession, hsame⟩ hstep
    obtain ⟨hnext, hsame'⟩ := hsession.step hsound hstep
    exact ⟨hnext, hsame.trans hsame'⟩
  exact hrun.forall_states_of_step hkeep ⟨hstart, SameSession.refl _⟩

/-! ## Starts -/

/-- A constructor has left the storage side of a session on a region with these contents:
zeros for a new version, and what the table names for an existing one. -/
inductive Starts (blocks : BlocksDirectory Hash) (files : FileSystem Hash)
    (base : VirtualMemoryManagerBase Hash) (files' : FileSystem Hash) : (ℕ → Byte) → Prop
  | create {regionMaxCapacity maxMemBlocks : ℕ} {version stashPath : Path} {allowOverwrite : Bool}
      (hstash : stashPath ≠ []) (hversion : version ≠ blocks.location)
      (hother : stashPath ≠ blocks.location)
      (hgranularity : files.directories (.path blocks.location) →
        files.texts (.granularity blocks.location) = some (some (.number blocks.blockSize)))
      (hrun : (VirtualMemoryManagerBase.create blocks.build regionMaxCapacity blocks.blockSize
        maxMemBlocks version blocks.location stashPath allowOverwrite).run FileSystem.answer files =
          (.returned base, files')) :
      Starts blocks files base files' fun _ => 0
  | «open» {version stashPath : Path} {capacity maxMemBlocks : ℕ} {readOnly : Bool}
      {entries : List Hash} {region : ℕ → Byte} (hstash : stashPath ≠ [])
      (hversion : blocks.HasVersion files version capacity entries)
      (hdirectory : files.directories (.path version))
      (hnames : ∀ block < capacity / blocks.blockSize, blocks.Names files
        (entries.getD block blocks.build.emptyBlockHash) (blockOf blocks.blockSize region block))
      (hrun : (VirtualMemoryManagerBase.open blocks.build version stashPath maxMemBlocks
        readOnly).run FileSystem.answer files = (.returned base, files')) :
      Starts blocks files base files' region

/-- A manager that was just constructed has no pages. -/
theorem Unevicted.initial {version stashPath : Path} {capacity maxMemBlocks : ℕ} {readOnly : Bool}
    {blocksIds : ℕ → Hash} (regionStartAddress numHandlingThreads : ℕ)
    (hnamed : blocks.TiersNamed
      (BlockStorage.initial blocks.location stashPath blocks.blockSize :
        BlockStorage Hash).tiers files)
    (hnames : ∀ block < capacity / blocks.blockSize,
      blocks.Names files (blocksIds block) (blockOf blocks.blockSize region block)) :
    Unevicted blocks (blockOf blocks.blockSize region)
      (UffdVirtualMemoryManager.initial
        (VirtualMemoryManagerBase.initial version capacity blocks.blockSize maxMemBlocks readOnly
          (BlockStorage.initial blocks.location stashPath blocks.blockSize) blocksIds)
        regionStartAddress numHandlingThreads) files where
  pages :=
    { present := fun subRegion block => by simp [UffdVirtualMemoryManager.initial]
      dirty := fun subRegion block => by simp [UffdVirtualMemoryManager.initial, Dirty]
      nodup := fun _ => List.nodup_nil
      stashSet := fun _ => rfl
      installed_lt := fun _ hinstalled => absurd hinstalled Bool.false_ne_true }
  blockSize := rfl
  baseDirectory := rfl
  granularity := rfl
  unstashed := fun _ => rfl
  unnoted := fun _ _ => rfl
  tempBuffer := fun _ => List.length_replicate
  length := fun block => length_blockOf _ _ _
  memory := fun _ hinstalled => absurd hinstalled Bool.false_ne_true
  named := hnamed
  names := fun block hblock _ => hnames block hblock

theorem UnevictedSession.of_start (hpos : 0 < blocks.blockSize)
    {base : VirtualMemoryManagerBase Hash} (hstarts : Starts blocks files base files' region)
    (hnamed : blocks.TiersNamed base.blockStorage.tiers files) (regionStartAddress : ℕ)
    {numHandlingThreads : ℕ} (hthreads : 0 < numHandlingThreads) :
    UnevictedSession blocks region
      (UffdVirtualMemoryManager.initial base regionStartAddress numHandlingThreads) files' := by
  cases hstarts with
  | create hstash hversion hother hgranularity hrun =>
      rename_i regionMaxCapacity maxMemBlocks version stashPath allowOverwrite
      obtain ⟨capacity, -, rfl, rfl⟩ := VirtualMemoryManagerBase.create_returned hstash hrun
      let created := (files.setDirectory (.path version)).writeVersion version [] blocks.location
        capacity
      have hdata : (storageFiles created blocks.location stashPath blocks.blockSize).data =
          files.data := data_storageFiles
      have hnamed' : blocks.TiersNamed (BlockStorage.initial blocks.location stashPath
          blocks.blockSize : BlockStorage Hash).tiers
            (storageFiles created blocks.location stashPath blocks.blockSize) := by
        intro location hlocation subdirectory name bytes hbytes
        rw [hdata] at hbytes
        exact hnamed location hlocation subdirectory name bytes hbytes
      obtain ⟨hhas, hdirectory⟩ := created_hasVersion capacity hversion hother hgranularity
      exact ⟨Unevicted.initial _ _ hnamed' fun block _ => .inl ⟨rfl, by simp [blockOf]⟩, hthreads,
        hpos, [], ⟨hhas, hdirectory, fun _ _ => rfl⟩⟩
  | «open» hstash hversion hdirectory hnames hrun =>
      obtain ⟨rfl, rfl⟩ := VirtualMemoryManagerBase.open_returned hstash hversion hrun
      exact ⟨Unevicted.initial _ _ hnamed fun block hblock =>
          (hnames block hblock).keep fun _ _ _ hbytes => hbytes, hthreads, hpos, _,
        ⟨⟨hversion.blocksPath, hversion.capacityText, hversion.granularity, hversion.metadata,
          hversion.length_le⟩, FileSystem.directories_setDirectory hdirectory, fun _ _ => rfl⟩⟩

/-! ## Whole sessions -/

/-- At every point of a session that evicts nothing, `msync` returns; the table of the
version then has the name of every block, and each name stands for what the application
sees in its block. -/
theorem msync_converges (hsound : blocks.build.Sound) (hpos : 0 < blocks.blockSize)
    {base : VirtualMemoryManagerBase Hash} (hstarts : Starts blocks files base files' region)
    (hnamed : blocks.TiersNamed base.blockStorage.tiers files) (regionStartAddress : ℕ)
    {numHandlingThreads : ℕ} (hthreads : 0 < numHandlingThreads)
    {trace : List (UffdRequest × SessionState Hash)}
    (hrun : Run (UnevictedStep blocks.build)
      ⟨initial base regionStartAddress numHandlingThreads, files', region⟩ trace) :
    ∀ state ∈ Run.states ⟨initial base regionStartAddress numHandlingThreads, files', region⟩ trace,
      ∀ schedule, ∃ committed final entries,
        (msync blocks.build state.manager schedule).run FileSystem.answer state.files =
          (.returned committed, final) ∧
        blocks.HasVersion final base.versionMetadataPath base.regionMaxCapacity entries ∧
        ∀ block < base.numBlocks,
          entries.getD block blocks.build.emptyBlockHash = committed.blocksIds block ∧
            blocks.Names final (committed.blocksIds block)
              (blockOf blocks.blockSize state.region block) := by
  have hstart := UnevictedSession.of_start hpos hstarts hnamed regionStartAddress hthreads
  intro state hstate schedule
  obtain ⟨hsession, hsame⟩ := UnevictedSession.run hsound hrun hstart state hstate
  obtain ⟨committed, final, entries, hmsync, -, hcommitted, -, htabled, hnames⟩ :=
    hsession.run_msync hsound schedule
  refine ⟨committed, final, entries, hmsync, ?_, fun block hblock =>
    hnames block (hblock.trans_eq hsame.numBlocks.symm)⟩
  have hversion := htabled.version
  rw [hcommitted.versionMetadataPath, hcommitted.regionMaxCapacity, hsame.versionMetadataPath,
    hsame.regionMaxCapacity] at hversion
  exact hversion

/-- A new version with two blocks of one byte. -/
def twoBytes : VirtualMemoryManagerBase (Option (List Byte)) :=
  .initial ['/', 'v'] 2 1 0 false (.initial ['/', 'b'] ['/', 's'] 1) fun _ => none

/-- The files that its constructor leaves. -/
def twoBytesFiles : FileSystem (Option (List Byte)) :=
  ((VirtualMemoryManagerBase.create .transparent 2 1 0 ['/', 'v'] ['/', 'b'] ['/', 's'] false).run
    FileSystem.answer FileSystem.empty).2

theorem starts_twoBytes : Starts byteBlocks FileSystem.empty twoBytes twoBytesFiles fun _ => 0 := by
  have hrun : (VirtualMemoryManagerBase.create byteBlocks.build 2 byteBlocks.blockSize 0
      ['/', 'v'] byteBlocks.location ['/', 's'] false).run FileSystem.answer FileSystem.empty =
        (.returned twoBytes, twoBytesFiles) := rfl
  exact .create (by decide) (by decide) (by decide) (fun h => by cases h) hrun

/-- Each block has a handling thread of its own.  The snapshot stores the second block and
leaves the table of the session's own version empty. -/
theorem msync_converges_twoBytes :
    ∃ trace, trace.map Prod.fst = [.perform (.write 1 7), .snapshot ['/', 'w'] fun _ => ⟨[], []⟩] ∧
      Run (UnevictedStep .transparent) ⟨initial twoBytes 0 2, twoBytesFiles, fun _ => 0⟩ trace ∧
      ∀ state ∈ Run.states ⟨initial twoBytes 0 2, twoBytesFiles, fun _ => 0⟩ trace, ∀ schedule,
        ∃ committed final entries,
          (msync .transparent state.manager schedule).run FileSystem.answer state.files =
            (.returned committed, final) ∧
          byteBlocks.HasVersion final ['/', 'v'] 2 entries ∧
          ∀ block < 2, entries.getD block none = committed.blocksIds block ∧
            byteBlocks.Names final (committed.blocksIds block) (blockOf 1 state.region block) := by
  have hrun : Run (UnevictedStep .transparent) ⟨initial twoBytes 0 2, twoBytesFiles, fun _ => 0⟩
      [(.perform (.write 1 7), ⟨_, _, _⟩), (.snapshot ['/', 'w'] fun _ => ⟨[], []⟩, ⟨_, _, _⟩)] :=
    .cons ⟨⟨by decide, .inr (by decide), rfl⟩, Exists.intro [] rfl, rfl⟩
      (.cons ⟨rfl, rfl, rfl⟩ .nil)
  refine ⟨_, rfl, hrun, ?_⟩
  exact msync_converges Build.transparent_sound (by decide) starts_twoBytes
    (fun _ _ _ _ _ hbytes => by cases hbytes) 0 (by decide) hrun

end UffdVirtualMemoryManager

end Privateer
