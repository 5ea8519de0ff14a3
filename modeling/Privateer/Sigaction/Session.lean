import Privateer.Sigaction.MsyncSpec
import Privateer.VirtualMemory.Session

/-!
# Sessions of one thread

Each operation of a session that runs alone returns, reads what the plain array
holds, and leaves a session on the array that the operation leaves.  A commit
overwrites the table of the version up to the highest resident block.
-/

namespace Privateer

variable {Hash : Type} [DecidableEq Hash] {blocks : BlocksDirectory Hash}

namespace SigactionVirtualMemoryManager

/-- One operation; a read gives its byte. -/
def perform (build : Build Hash) (manager : SigactionVirtualMemoryManager Hash) :
    Operation → StorageProgram Hash (List Byte × SigactionVirtualMemoryManager Hash)
  | .read offset => do
      let result ← readByte build manager offset
      return ([result.1], result.2)
  | .write offset byte => do
      let written ← writeByte build manager offset byte
      return ([], written)
  | .msync schedule => do
      let committed ← msync build manager schedule
      return ([], committed)
  | .snapshot version schedule => do
      let result ← snapshot build manager version schedule
      return ([], result.2)

/-- The operations in order, with the bytes of all reads. -/
def performAll (build : Build Hash) :
    List Operation → SigactionVirtualMemoryManager Hash →
      StorageProgram Hash (List Byte × SigactionVirtualMemoryManager Hash)
  | [], manager => return ([], manager)
  | operation :: rest, manager => do
      let first ← perform build manager operation
      let others ← performAll build rest first.2
      return (first.1 ++ others.1, others.2)

end SigactionVirtualMemoryManager

/-- The constructor of a read-write session. -/
def Start.program (build : Build Hash) (start : Start) :
    StorageProgram Hash (SigactionVirtualMemoryManager Hash) := do
  let base ← start.base build
  return SigactionVirtualMemoryManager.initial base

/-- The constructor of any session. -/
def AnyStart.program (build : Build Hash) (start : AnyStart) :
    StorageProgram Hash (SigactionVirtualMemoryManager Hash) := do
  let base ← start.base build
  return SigactionVirtualMemoryManager.initial base

/-- A whole session. -/
def runSession (build : Build Hash) (start : Start)
    (operations : List Operation) :
    StorageProgram Hash (List Byte × SigactionVirtualMemoryManager Hash) := do
  let manager ← start.program build
  SigactionVirtualMemoryManager.performAll build operations manager

namespace SigactionVirtualMemoryManager

open VirtualMemoryManagerBase (Backing SameSession Started)

variable {manager : SigactionVirtualMemoryManager Hash} {files files' : FileSystem Hash}
variable {contents : ℕ → List Byte} {region : ℕ → Byte}

/-- The invariant does not depend on the files of versions. -/
theorem Coherent.of_data_eq (hcoherent : Coherent blocks manager files contents)
    (hdirectories : ∀ directory, files.directories directory → files'.directories directory)
    (hdata : files'.data = files.data) (hfresh : files'.fresh = files.fresh) :
    Coherent blocks manager files' contents :=
  ⟨hcoherent.blockSize, hcoherent.blockSize_pos, hcoherent.limit, hcoherent.residency,
    hcoherent.backing.of_data_eq hdirectories hdata hfresh⟩

/-- Nor does it depend on the path of the version. -/
theorem Coherent.redirect (hcoherent : Coherent blocks manager files contents)
    (version : Path) :
    Coherent blocks { manager with versionMetadataPath := version } files contents :=
  ⟨hcoherent.blockSize, hcoherent.blockSize_pos, hcoherent.limit,
    ⟨hcoherent.residency.shared, hcoherent.residency.resident_lt,
      hcoherent.residency.protection, hcoherent.residency.memory⟩,
    hcoherent.backing.redirect version⟩

/-! ## Commits -/

/-- What `msync` has done before it writes the table. -/
structure Committed (blocks : BlocksDirectory Hash) (contents : ℕ → List Byte)
    (manager committed : SigactionVirtualMemoryManager Hash)
    (files files' : FileSystem Hash) : Prop where
  coherent : Coherent blocks committed files' contents
  session : manager.base.SameSession committed.base
  promises : blocks.Promises files files'
  names : ∀ block < committed.numBlocks,
    blocks.Names files' (committed.blocksIds block) (contents block)

theorem run_msyncBlocks (hsound : blocks.build.Sound)
    (hcoherent : Coherent blocks manager files contents) (schedule : MsyncSchedule) :
    ∃ committed files', (msyncBlocks blocks.build manager schedule).run FileSystem.answer files =
        (.returned committed, files') ∧ Committed blocks contents manager committed files files' ∧
          committed.occupiedBlocks = manager.occupiedBlocks := by
  obtain ⟨committed, files', hrun, ⟨owned', hheld, hsession, hpresent, hdirty, hstash⟩,
    hpromises⟩ := BlocksDirectory.run_of_ensures
      (ensures_msyncBlocks hsound ⟨hcoherent, subset_rfl⟩ schedule)
  refine ⟨committed, files', hrun, ⟨hheld.coherent, hsession, hpromises, ?_⟩, ?_⟩
  · exact fun block hblock => hheld.coherent.names hdirty hstash hblock
  · rw [occupiedBlocks, occupiedBlocks, hpresent]

/-- The table is written once the blocks are committed. -/
theorem run_msync_of_msyncBlocks {committed : SigactionVirtualMemoryManager Hash}
    {schedule : MsyncSchedule}
    (hrun : (msyncBlocks blocks.build manager schedule).run FileSystem.answer files =
      (.returned committed, files')) (hcommitted : Committed blocks contents manager committed
        files files') (hoccupied : committed.occupiedBlocks = manager.occupiedBlocks)
    {entries : List Hash}
    (hmetadata : files.metadata manager.versionMetadataPath = some entries) :
    (msync blocks.build manager schedule).run FileSystem.answer files =
      (.returned committed, files'.setMetadata manager.versionMetadataPath
        (some (overwrite ((List.range manager.occupiedBlocks).map committed.blocksIds)
          entries))) := by
  have hpath := hcommitted.session.versionMetadataPath
  have htable : files'.metadata committed.versionMetadataPath = some entries := by
    rw [hpath, hcommitted.promises.metadata]
    exact hmetadata
  have hupdate : (updateMetadata committed).run FileSystem.answer files' = (.returned (),
      files'.setMetadata committed.versionMetadataPath
        (some (overwrite ((List.range committed.occupiedBlocks).map committed.blocksIds)
          entries))) :=
    VirtualMemoryManagerBase.run_updateMetadata committed.presentBlocks htable
  unfold msync
  rw [Program.run_bind_of_returned hrun, Program.run_bind_of_returned hupdate, hpath, hoccupied]
  rfl

theorem run_msync (hsound : blocks.build.Sound)
    (hcoherent : Coherent blocks manager files contents) {entries : List Hash}
    (hmetadata : files.metadata manager.versionMetadataPath = some entries)
    (schedule : MsyncSchedule) :
    ∃ committed files', (msync blocks.build manager schedule).run FileSystem.answer files =
        (.returned committed, files'.setMetadata manager.versionMetadataPath
          (some (overwrite ((List.range manager.occupiedBlocks).map committed.blocksIds)
            entries))) ∧ Committed blocks contents manager committed files files' := by
  obtain ⟨committed, files', hrun, hcommitted, hoccupied⟩ :=
    run_msyncBlocks hsound hcoherent schedule
  exact ⟨committed, files', run_msync_of_msyncBlocks hrun hcommitted hoccupied hmetadata,
    hcommitted⟩

/-! ## Snapshots -/

/-- A snapshot writes a version whose table starts with the names of the blocks up
to the highest resident one. -/
theorem run_takeSnapshot (hsound : blocks.build.Sound)
    (hcoherent : Coherent blocks manager files contents) {version : Path}
    (hdirectory : files.directories (.path version)) (schedule : MsyncSchedule) :
    ∃ restored files', (takeSnapshot blocks.build manager version schedule).run FileSystem.answer
        files = (.returned (true, restored), files'.writeVersion version
          (overwrite ((List.range manager.occupiedBlocks).map restored.blocksIds)
            ((files.metadata version).getD []))
          restored.blockStorage.baseDirectory restored.regionMaxCapacity) ∧
      Committed blocks contents manager restored
        (files.setMetadata version (some ((files.metadata version).getD []))) files' := by
  let opened := files.setMetadata version (some ((files.metadata version).getD []))
  let redirected := { manager with versionMetadataPath := version }
  have hopened : files.answer (.openMetadata version true false) = (true, opened) := by
    cases hmetadata : files.metadata version with
    | none => simp [FileSystem.answer, opened, hmetadata, hdirectory]
    | some entries =>
        simp [FileSystem.answer, opened, hmetadata, FileSystem.setMetadata_eq_self hmetadata]
  have hcoherent' : Coherent blocks redirected opened contents :=
    (hcoherent.redirect version).of_data_eq (fun _ h => h) rfl rfl
  have htable : opened.metadata redirected.versionMetadataPath =
      some ((files.metadata version).getD []) := FileSystem.setMetadata_self _ _ _
  obtain ⟨committed, files', hrun, hcommitted⟩ := run_msync hsound hcoherent' htable schedule
  refine ⟨{ committed with versionMetadataPath := manager.versionMetadataPath }, files', ?_, ?_⟩
  · have hdirectory' : files'.directories (.path version) :=
      hcommitted.promises.directories _ hdirectory
    unfold takeSnapshot
    simp only [Program.request_bind, Program.run_call, hopened]
    simp only [FileSystem.answer]
    rw [Program.run_bind_of_returned hrun]
    exact run_writeTextFiles hdirectory' _ _ _ _
  · have hsession := hcommitted.session
    exact ⟨hcommitted.coherent.redirect _,
      ⟨rfl, hsession.regionMaxCapacity, hsession.blockSize, hsession.maxMemSize,
        hsession.readOnly, hsession.stashDirectory⟩,
      hcommitted.promises, hcommitted.names⟩

/-! ## A session that runs alone -/

/-- A session of one thread whose region holds `region`. -/
structure Session (blocks : BlocksDirectory Hash) (region : ℕ → Byte)
    (manager : SigactionVirtualMemoryManager Hash) (files : FileSystem Hash) : Prop where
  coherent : Coherent blocks manager files (blockOf blocks.blockSize region)
  version : ∃ entries, blocks.Intact files manager.versionMetadataPath
    manager.regionMaxCapacity entries

/-- An operation that keeps the files of versions keeps the session. -/
theorem Session.step (hsession : Session blocks region manager files)
    {manager' : SigactionVirtualMemoryManager Hash} {region' : ℕ → Byte}
    (hcoherent : Coherent blocks manager' files' (blockOf blocks.blockSize region'))
    (hsame : manager.base.SameSession manager'.base) (hpromises : blocks.Promises files files') :
    Session blocks region' manager' files' where
  coherent := hcoherent
  version := by
    obtain ⟨entries, hintact⟩ := hsession.version
    refine ⟨entries, ?_⟩
    rw [hsame.versionMetadataPath, hsame.regionMaxCapacity]
    exact hintact.keep hsession.coherent.backing.named hpromises

/-- The names of the resident part of the region, after a commit. -/
theorem Committed.entries {committed : SigactionVirtualMemoryManager Hash}
    (hcommitted : Committed blocks contents manager committed files files')
    (hresident : ∀ block ∈ manager.presentBlocks,
      block < manager.numBlocks) :
    ∀ name ∈ (List.range manager.occupiedBlocks).map committed.blocksIds,
      ∃ content, blocks.Names files' name content := by
  intro name hname
  obtain ⟨block, hblock, rfl⟩ := List.mem_map.mp hname
  have hlt := (List.mem_range.mp hblock).trans_le
    (VirtualMemoryManagerBase.occupiedBlocks_le hresident)
  rw [← hcommitted.session.numBlocks] at hlt
  exact ⟨_, hcommitted.names block hlt⟩

/-- A commit keeps the session. -/
theorem Session.committed (hsession : Session blocks region manager files)
    {committed : SigactionVirtualMemoryManager Hash}
    (hcommitted : Committed blocks (blockOf blocks.blockSize region) manager committed files
      files') {entries : List Hash}
    (hintact : blocks.Intact files manager.versionMetadataPath manager.regionMaxCapacity
      entries) :
    Session blocks region committed (files'.setMetadata manager.versionMetadataPath
      (some (overwrite ((List.range manager.occupiedBlocks).map committed.blocksIds)
        entries))) where
  coherent := hcommitted.coherent.of_data_eq (fun _ h => h) rfl rfl
  version := by
    have hresident := hsession.coherent.residency.resident_lt
    have hkept := hintact.keep hsession.coherent.backing.named hcommitted.promises
    rw [hcommitted.session.versionMetadataPath, hcommitted.session.regionMaxCapacity]
    refine ⟨_, hkept.overwrite ?_ (hcommitted.entries hresident)⟩
    rw [List.length_map, List.length_range, ← hsession.coherent.blockSize]
    exact VirtualMemoryManagerBase.occupiedBlocks_le hresident

theorem Session.run_msync (hsound : blocks.build.Sound)
    (hsession : Session blocks region manager files) (schedule : MsyncSchedule) :
    ∃ committed files', (msync blocks.build manager schedule).run FileSystem.answer files =
        (.returned committed, files') ∧ Session blocks region committed files' ∧
          manager.base.SameSession committed.base := by
  obtain ⟨entries, hintact⟩ := hsession.version
  obtain ⟨committed, files', hrun, hcommitted⟩ :=
    SigactionVirtualMemoryManager.run_msync hsound hsession.coherent hintact.metadata schedule
  exact ⟨committed, _, hrun, hsession.committed hcommitted hintact, hcommitted.session⟩

/-- Creating a directory keeps the session. -/
theorem Session.createDirectory (hsession : Session blocks region manager files)
    (directory : Directory) :
    Session blocks region manager (files.setDirectory directory) :=
  have hpromises : blocks.Promises files _ := BlocksDirectory.promises_createDirectory directory
  hsession.step (hsession.coherent.of_data_eq hpromises.directories rfl rfl)
    (SameSession.refl manager.base) hpromises

/-- A snapshot under another path than the session's own keeps the session. -/
theorem Session.run_takeSnapshot (hsound : blocks.build.Sound)
    (hsession : Session blocks region manager files) {version : Path}
    (hother : version ≠ manager.versionMetadataPath)
    (hdirectory : files.directories (.path version)) (schedule : MsyncSchedule) :
    ∃ restored files', (takeSnapshot blocks.build manager version schedule).run FileSystem.answer
        files = (.returned (true, restored), files') ∧ Session blocks region restored files' ∧
          manager.base.SameSession restored.base := by
  obtain ⟨restored, files', hrun, hcommitted⟩ :=
    SigactionVirtualMemoryManager.run_takeSnapshot hsound hsession.coherent hdirectory schedule
  refine ⟨restored, _, hrun, ⟨?_, ?_⟩, hcommitted.session⟩
  · exact hcommitted.coherent.of_data_eq (fun _ h => h) rfl rfl
  · obtain ⟨entries, hintact⟩ := hsession.version
    have hopened : blocks.Intact (files.setMetadata version
        (some ((files.metadata version).getD []))) manager.versionMetadataPath
          manager.regionMaxCapacity entries := hintact.setMetadata_of_ne (Ne.symm hother)
    rw [hcommitted.session.versionMetadataPath, hcommitted.session.regionMaxCapacity,
      hcommitted.coherent.backing.storage.baseDirectory]
    exact ⟨entries, (hopened.keep hsession.coherent.backing.named
      hcommitted.promises).writeVersion (Ne.symm hother)⟩

/-- A snapshot under any name keeps the session. -/
theorem Session.run_snapshot (hsound : blocks.build.Sound)
    (hsession : Session blocks region manager files) (version : Path)
    (schedule : MsyncSchedule) :
    ∃ result files', (snapshot blocks.build manager version schedule).run FileSystem.answer
        files = (.returned result, files') ∧ Session blocks region result.2 files' ∧
          manager.base.SameSession result.2.base := by
  obtain ⟨entries, hintact⟩ := hsession.version
  cases hdirectory : files.directories (.path version) with
  | true =>
      cases htable : files.metadata version with
      | some table =>
          refine ⟨(false, manager), files, ?_, hsession, SameSession.refl manager.base⟩
          simp [snapshot, FileSystem.answer, hdirectory, htable]
      | none =>
          have hother : version ≠ manager.versionMetadataPath := by
            intro hsame
            rw [hsame, hintact.metadata] at htable
            cases htable
          obtain ⟨restored, files', hrun, hrestored, hsame⟩ :=
            hsession.run_takeSnapshot hsound hother hdirectory schedule
          refine ⟨(true, restored), files', ?_, hrestored, hsame⟩
          rw [← hrun]
          simp [snapshot, FileSystem.answer, hdirectory, htable]
  | false =>
      have hother : version ≠ manager.versionMetadataPath := by
        intro hsame
        rw [hsame, hintact.directory] at hdirectory
        cases hdirectory
      have hcreated := files.setDirectory_self (.path version)
      obtain ⟨restored, files', hrun, hrestored, hsame⟩ :=
        (hsession.createDirectory (.path version)).run_takeSnapshot hsound hother hcreated
          schedule
      refine ⟨(true, restored), files', ?_, hrestored, hsame⟩
      rw [← hrun]
      simp [snapshot, FileSystem.answer, hdirectory]

/-! ## How a session starts -/

/-- A manager that was just constructed has no resident block, so it is coherent with
whatever its storage side backs. -/
theorem Coherent.of_backing {base : VirtualMemoryManagerBase Hash}
    (hblockSize : base.blockSize = blocks.blockSize) (hpos : 0 < blocks.blockSize)
    (hlimit : base.blockSize ≤ base.maxMemSize) (hbacking : Backing blocks base ∅ [] files contents) :
    Coherent blocks (SigactionVirtualMemoryManager.initial base) files contents where
  blockSize := hblockSize
  blockSize_pos := hpos
  limit := hlimit
  residency :=
    { shared := Shared.empty
      resident_lt := fun block hblock => absurd hblock (Finset.notMem_empty block)
      protection := fun _ => rfl
      memory := fun _ => rfl }
  backing := hbacking

theorem Coherent.initial {base : VirtualMemoryManagerBase Hash}
    (hstarted : Started blocks base files contents) :
    Coherent blocks (SigactionVirtualMemoryManager.initial base) files contents :=
  Coherent.of_backing hstarted.blockSize hstarted.blockSize_pos hstarted.limit hstarted.backing

/-- A session that is not read-only may do anything. -/
theorem Session.of_start (hsound : blocks.build.Sound)
    (hcompression : blocks.build.useCompression = false) {start : Start}
    (hstart : start.WellFormed blocks files) {manager : SigactionVirtualMemoryManager Hash}
    (hrun : (start.program blocks.build).run FileSystem.answer files =
      (.returned manager, files')) :
    Session blocks (start.region blocks.build files blocks.blockSize) manager files' ∧
      ∀ operation : Operation, operation.Permitted manager.readOnly := by
  obtain ⟨base, middle, hbase, hinitial⟩ := Program.run_bind_returned hrun
  obtain ⟨hstarted, hreadWrite⟩ := Started.of_start hsound hcompression hstart hbase
  cases hinitial
  refine ⟨⟨Coherent.initial hstarted, hstarted.version⟩, fun operation => ?_⟩
  rw [show (SigactionVirtualMemoryManager.initial base).readOnly = false from hreadWrite]
  exact operation.permitted_readWrite

/-! ## Any sequence of operations -/

/-- One operation reads what the array holds and keeps the session. -/
theorem Session.run_perform (hsound : blocks.build.Sound)
    (hcompression : blocks.build.useCompression = false)
    (hsession : Session blocks region manager files) {operation : Operation}
    (hwithin : operation.Within (manager.numBlocks * blocks.blockSize))
    (hpermitted : operation.Permitted manager.readOnly) :
    ∃ manager' files', (perform blocks.build manager operation).run FileSystem.answer files =
        (.returned (flatReads [operation] region, manager'), files') ∧
      Session blocks (flatRegion [operation] region) manager' files' ∧
        manager.base.SameSession manager'.base := by
  have hpos := hsession.coherent.blockSize_pos
  have hheld : Held blocks (blockOf blocks.blockSize region) manager
      manager.blockStorage.stashFiles files :=
    ⟨hsession.coherent, subset_rfl⟩
  have hinside : ∀ offset < manager.numBlocks * blocks.blockSize,
      offset / manager.blockSize < manager.numBlocks := by
    intro offset hoffset
    rw [hsession.coherent.blockSize]
    exact Nat.div_lt_of_lt_mul (by rwa [Nat.mul_comm])
  have huncompressed : blocks.build.useCompression = true → False := by
    rw [hcompression]
    exact Bool.false_ne_true
  cases operation with
  | read offset =>
      obtain ⟨result, files', hrun, ⟨owned', hheld', hbyte, hsame⟩, hpromises⟩ :=
        BlocksDirectory.run_of_ensures
          (ensures_readByte hsound hheld (hinside offset hwithin) huncompressed)
      refine ⟨result.2, files', ?_, hsession.step hheld'.coherent hsame hpromises, hsame⟩
      rw [getD_blockOf hpos] at hbyte
      rw [perform, Program.run_bind_of_returned hrun, hbyte]
      rfl
  | write offset byte =>
      have hexit : blocks.build.useCompression = true ∨ manager.readOnly = true → False := by
        rw [show manager.readOnly = false from hpermitted]
        exact fun h => h.elim huncompressed Bool.false_ne_true
      obtain ⟨written, files', hrun, ⟨owned', hheld', hsame⟩, hpromises⟩ :=
        BlocksDirectory.run_of_ensures
          (ensures_writeByte hsound hheld (hinside offset hwithin) byte hexit)
      have hregion : writeRegion blocks.blockSize (blockOf blocks.blockSize region) offset byte =
          blockOf blocks.blockSize (Function.update region offset byte) :=
        (blockOf_update hpos region offset byte).symm
      rw [hregion] at hheld'
      refine ⟨written, files', ?_, hsession.step hheld'.coherent hsame hpromises, hsame⟩
      rw [perform, Program.run_bind_of_returned hrun]
      rfl
  | msync schedule =>
      obtain ⟨committed, files', hrun, hcommitted, hsame⟩ := hsession.run_msync hsound schedule
      refine ⟨committed, files', ?_, hcommitted, hsame⟩
      rw [perform, Program.run_bind_of_returned hrun]
      rfl
  | snapshot version schedule =>
      obtain ⟨result, files', hrun, hkept, hsame⟩ := hsession.run_snapshot hsound version schedule
      refine ⟨result.2, files', ?_, hkept, hsame⟩
      rw [perform, Program.run_bind_of_returned hrun]
      rfl

/-- A whole session reads what the array holds. -/
theorem Session.run_performAll (hsound : blocks.build.Sound)
    (hcompression : blocks.build.useCompression = false)
    (hsession : Session blocks region manager files) {operations : List Operation}
    (hwithin : ∀ operation ∈ operations,
      operation.Within (manager.numBlocks * blocks.blockSize))
    (hpermitted : ∀ operation ∈ operations, operation.Permitted manager.readOnly) :
    ∃ manager' files', (performAll blocks.build operations manager).run FileSystem.answer files =
        (.returned (flatReads operations region, manager'), files') ∧
      Session blocks (flatRegion operations region) manager' files' ∧
        manager.base.SameSession manager'.base := by
  induction operations generalizing manager files region with
  | nil => exact ⟨manager, files, rfl, hsession, SameSession.refl manager.base⟩
  | cons operation rest ih =>
      obtain ⟨middle, between, hfirst, hmiddle, hsame⟩ :=
        hsession.run_perform hsound hcompression (hwithin operation List.mem_cons_self)
          (hpermitted operation List.mem_cons_self)
      have hblocks := hsame.numBlocks
      obtain ⟨manager', files', hrest, hlast, hsame'⟩ := ih hmiddle
        (fun later hlater => hblocks ▸ hwithin later (List.mem_cons_of_mem _ hlater))
        (fun later hlater => hsame.readOnly ▸ hpermitted later (List.mem_cons_of_mem _ hlater))
      refine ⟨manager', files', ?_, ?_, hsame.trans hsame'⟩
      · rw [performAll, Program.run_bind_of_returned hfirst,
          Program.run_bind_of_returned hrest, flatReads_cons operation rest]
        rfl
      · rw [flatRegion_cons]
        exact hlast

end SigactionVirtualMemoryManager

end Privateer
