import Privateer.Datastore.StoredRegions

/-!
# Stores whose processes are killed

A commit stores its blocks beside those that are there and then writes the names into the table
with one system call.  So a process that is killed during it leaves the version as it was, or as
the commit would have left it.  This module kills processes between any two system calls and
follows the datastore by a store of byte regions in which each request happens, or ends its
session and leaves little behind.
-/

namespace Privateer

open SigactionVirtualMemoryManager (Coherent Live Works)

variable {Hash : Type}

/-! ## What a request leaves when its process is killed -/

/-- Of a commit all or nothing is left; a new version may be there, whatever it denotes. -/
def VersionsRequest.Leaves (store left : RegionStore) : VersionsRequest Hash → Prop
  | .start _ object opening _ => store.Fails (opening.creates object) left
  | .perform _ (.read _) => left = store
  | .perform _ (.write _ _) => left = store
  | .perform session (.msync _) => left = store ∨ left = store.commit session
  | .perform _ (.snapshot version _) => store.Fails {version} left
  | .close session _ => left = store ∨ left = store.commit session
  | .kill _ => left = store

/-- A request happens, or its process is killed and the session is over. -/
def VersionsRequest.MayBeKilled (blockSize : ℕ) (store : RegionStore)
    (request : VersionsRequest Hash) (store' : RegionStore) : Prop :=
  request.Effect blockSize store store' ∨
    ∃ left, request.Leaves store left ∧ store' = left.drop request.session

/-- The blocks directory is there and records its block size. -/
structure BlocksDirectory.Ready (blocks : BlocksDirectory Hash) (files : FileSystem Hash) :
    Prop where
  directory : files.directories (.path blocks.location)
  granularity : files.texts (.granularity blocks.location) =
    some (some (.number blocks.blockSize))

variable [DecidableEq Hash] {blocks : BlocksDirectory Hash} {files files' : FileSystem Hash}
variable {state next : VersionsState Hash} {request : VersionsRequest Hash}
variable {store store' : RegionStore} {session : ℕ} {version : Path}
variable {manager : SigactionVirtualMemoryManager Hash} {copy : WorkingCopy Path ByteRegion}

theorem BlocksDirectory.Ready.settled (hready : blocks.Ready state.files)
    (horderly : state.Orderly blocks) : state.Settled blocks :=
  ⟨horderly, fun _ _ => hready.directory⟩

theorem BlocksDirectory.Ready.step (hsound : blocks.build.Sound) (hpos : 0 < blocks.blockSize)
    (hready : blocks.Ready state.files) (horderly : state.Orderly blocks)
    (hstep : VersionsStep blocks killedAnywhere state request next) :
    blocks.Ready next.files ∧ next.Settled blocks := by
  obtain ⟨horderly', hdevelops, -⟩ := horderly.step hsound hpos hstep
  have hready' : blocks.Ready next.files :=
    ⟨hdevelops.tolerates.directories _ hready.directory,
      hdevelops.texts _ _ hready.granularity⟩
  exact ⟨hready', hready'.settled horderly'⟩

/-! ## Commits that are killed -/

/-- The table is written with one system call. -/
theorem VirtualMemoryManagerBase.updateMetadata_killed {base : VirtualMemoryManagerBase Hash}
    {presentBlocks : Finset ℕ} {entries : List Hash}
    (hmetadata : files.metadata base.versionMetadataPath = some entries) {outcome : Outcome Unit}
    (hruns : (base.updateMetadata presentBlocks : StorageProgram Hash Unit).RunsTo
      (fun call files reply files' => files.answer call = (reply, files')) files outcome files') :
    files' = files ∨ files' = files.setMetadata base.versionMetadataPath
      (some (overwrite ((List.range (occupiedBlocks presentBlocks)).map base.blocksIds)
        entries)) := by
  unfold VirtualMemoryManagerBase.updateMetadata at hruns
  by_cases hempty : presentBlocks = ∅
  · rw [if_pos hempty] at hruns
    exact .inl hruns.2
  rw [if_neg hempty] at hruns
  have hopen : files.answer (.openMetadata base.versionMetadataPath false false) =
      (true, files) := by
    simp [FileSystem.answer, hmetadata]
  let names := (List.range (occupiedBlocks presentBlocks)).map base.blocksIds
  have hwrite : files.answer (.pwriteMetadata base.versionMetadataPath names) =
      (some names.length, files.setMetadata base.versionMetadataPath
        (some (overwrite names entries))) := by
    simp [FileSystem.answer, hmetadata]
  rcases hruns with ⟨-, rfl⟩ | ⟨found, opened, hopened, hrest⟩
  · exact .inl rfl
  cases hopen.symm.trans hopened
  rcases hrest with ⟨-, rfl⟩ | ⟨count, written, hwritten, hrest⟩
  · exact .inl rfl
  cases hwrite.symm.trans hwritten
  rcases hrest with ⟨-, rfl⟩ | ⟨done, closed, hclosed, hlast⟩
  · exact .inr rfl
  cases hclosed
  exact .inr hlast.2

namespace SigactionVirtualMemoryManager

/-- A commit that is killed leaves what the version was, or what the whole commit leaves. -/
theorem msync_killed (hsound : blocks.build.Sound) {contents : ℕ → List Byte}
    (hcoherent : Coherent blocks manager files contents) {entries : List Hash}
    (hmetadata : files.metadata manager.versionMetadataPath = some entries)
    (schedule : MsyncSchedule) {outcome : Outcome (SigactionVirtualMemoryManager Hash)}
    (hruns : (msync blocks.build manager schedule).RunsTo
      (fun call files reply files' => files.answer call = (reply, files')) files outcome files') :
    blocks.Promises files files' ∨
      ((msync blocks.build manager schedule).run FileSystem.answer files).2 = files' := by
  have hensures :
      (blocks.contract True).ensures (msyncBlocks blocks.build manager schedule) _ _ _ :=
    ensures_msyncBlocks hsound ⟨hcoherent, subset_rfl⟩ schedule
  rcases Program.RunsTo.bind_cases hruns with
    ⟨stopped, hstopped⟩ | ⟨committed, between, hfirst, hrest⟩
  · exact .inl (Contract.runsTo_of_ensures hensures hstopped).1
  have hpromises : blocks.Promises files between :=
    (Contract.runsTo_of_ensures hensures (Program.runsTo_of_run (fun _ _ => rfl) hfirst)).1
  obtain ⟨outcome', hupdate⟩ := hrest.of_bind_finish
  have hsame : manager.base.SameSession committed.base := by
    obtain ⟨committed', between', hrun, hcommitted, -⟩ := run_msyncBlocks hsound hcoherent schedule
    cases hrun.symm.trans hfirst
    exact hcommitted.session
  have htable : between.metadata committed.versionMetadataPath = some entries := by
    rw [hsame.versionMetadataPath, hpromises.metadata]
    exact hmetadata
  rcases VirtualMemoryManagerBase.updateMetadata_killed htable hupdate with rfl | rfl
  · exact .inl hpromises
  · have hrun : (updateMetadata committed).run FileSystem.answer between = (.returned (), _) :=
      VirtualMemoryManagerBase.run_updateMetadata committed.presentBlocks htable
    refine .inr ?_
    unfold msync
    rw [Program.run_bind_of_returned hfirst, Program.run_bind_of_returned hrun]
    rfl

/-- So the version denotes what it did, or the copy. -/
theorem Works.killed_msync (hsound : blocks.build.Sound)
    (hcompression : blocks.build.useCompression = false)
    (hconsistent : blocks.Consistent files) (hworks : Works blocks files manager copy)
    {entries : List Hash}
    (hintact : blocks.Intact files manager.versionMetadataPath manager.regionMaxCapacity entries)
    (hcovers : manager.Covers blocks.build files) (schedule : MsyncSchedule)
    {outcome : Outcome (SigactionVirtualMemoryManager Hash)}
    (hruns : (msync blocks.build manager schedule).RunsTo
      (fun call files reply files' => files.answer call = (reply, files')) files outcome files') :
    (files'.metadata manager.versionMetadataPath).isSome ∧
      (denotedBlocks blocks.build files' manager.versionMetadataPath =
          denotedBlocks blocks.build files manager.versionMetadataPath ∨
        denotedBlocks blocks.build files' manager.versionMetadataPath =
          some (copy.content.denoted blocks.blockSize)) := by
  rcases msync_killed hsound hworks.coherent hintact.metadata schedule hruns with
    hpromises | hwhole
  · have hdevelops : blocks.Develops ∅ False files files' := hpromises.develops
    refine ⟨?_, .inl (hdevelops.denotedBlocks_eq hconsistent id (Set.notMem_empty _))⟩
    rw [hpromises.metadata, hintact.metadata]
    rfl
  · obtain ⟨committed, final, hrun, -, htable, hdenotes⟩ :=
      hworks.run_msync hsound hcompression hintact hcovers schedule
    rw [hrun] at hwhole
    rw [← hwhole]
    exact ⟨htable, .inr hdenotes⟩

end SigactionVirtualMemoryManager

/-! ## One request -/

section Requests

variable {operation : Operation} {outcome : Outcome (Option (SigactionVirtualMemoryManager Hash))}

omit [DecidableEq Hash] in
theorem VersionsState.After.exited (hafter : state.After session files' .exited next) :
    next.files = files' ∧ next.sessions session = none := by
  rw [show next = _ from hafter]
  exact ⟨rfl, Function.update_self _ _ _⟩

/-- A process that is killed while it commits. -/
theorem VersionsState.Follows.killed_commit (hsound : blocks.build.Sound)
    (hcompression : blocks.build.useCompression = false) (hpos : 0 < blocks.blockSize)
    (hfollows : state.Follows blocks store)
    (hstep : VersionsStep blocks killedAnywhere state request next)
    (hsettled : next.Settled blocks)
    (hmanager : state.sessions request.session = some manager)
    (hwrites : ∀ version, version ∈ request.writes state ↔ version = manager.versionMetadataPath)
    (hcovers : manager.Covers blocks.build state.files) {schedule : MsyncSchedule}
    {outcome : Outcome (SigactionVirtualMemoryManager Hash)}
    (hruns : (manager.msync blocks.build schedule).RunsTo
      (fun call files reply files' => files.answer call = (reply, files')) state.files outcome
        next.files) (hsession : next.sessions request.session = none) :
    ∃ left, (left = store ∨ left = store.commit request.session) ∧
      next.Follows blocks (left.drop request.session) := by
  obtain ⟨copy, hcopy, hworks⟩ := hfollows.exists_copy hmanager
  obtain ⟨entries, hintact⟩ := hfollows.intact hmanager
  obtain ⟨htable, hdenotes⟩ := hworks.killed_msync hsound hcompression
    hfollows.settled.orderly.consistent hintact hcovers schedule hruns
  rcases hdenotes with hsame | hwhole
  · refine ⟨store, .inl rfl, hfollows.of_settled hsound hpos hstep hsettled hfollows.kept.drop
      (fun other hother => VersionStore.copies_drop_of_ne hother) ?_ (fun _ _ => ⟨Iff.rfl, rfl⟩)
      fun version hversion => ?_⟩
    · rw [hsession, VersionStore.copies_drop_self]
      exact .none
    · rw [(hwrites version).mp hversion, hsame]
      refine ⟨iff_of_true ?_ htable, hfollows.versions _⟩
      rw [← hworks.name]
      exact (hfollows.kept _ copy hcopy).1
  · refine ⟨_, .inr rfl, ?_⟩
    rw [VersionStore.commit, hcopy]
    refine hfollows.of_put hsound hpos hstep hsettled hfollows.kept.put.drop
      (fun other hother => VersionStore.copies_drop_of_ne hother) ?_ ?_
      (hworks.name ▸ htable) (hworks.name ▸ hwhole)
    · rw [hsession, Function.update_self]
      exact .none
    · intro version
      rw [hwrites, hworks.name]

/-- A snapshot under a name in use calls nothing that changes the files. -/
theorem snapshot_killed_of_exists {build : Build Hash} {schedule : MsyncSchedule}
    (hdirectory : files.directories (.path version)) (htable : (files.metadata version).isSome)
    {outcome : Outcome (Bool × SigactionVirtualMemoryManager Hash)}
    (hruns : (manager.snapshot build version schedule).RunsTo
      (fun call files reply files' => files.answer call = (reply, files')) files outcome files') :
    files' = files := by
  have hfirst : files.answer (.directoryExists (.path version)) = (true, files) := by
    simp [FileSystem.answer, hdirectory]
  have hsecond : files.answer (.metadataExists version) = (true, files) := by
    simp [FileSystem.answer, htable]
  rcases hruns with ⟨-, rfl⟩ | ⟨found, looked, hfound, hrest⟩
  · rfl
  cases hfirst.symm.trans hfound
  rcases hrest with ⟨-, rfl⟩ | ⟨made, looked, hmade, hlast⟩
  · rfl
  cases hsecond.symm.trans hmade
  exact hlast.2

/-- Neither does an opening that would make a version that is there. -/
theorem Opening.killed_of_exists {object : PrivateerObject Hash} {address : ℕ}
    {opening : Opening} (hpos : 0 < blocks.blockSize)
    (hallowed : opening.Allowed blocks object files) (hconsistent : blocks.Consistent files)
    (hversion : version ∈ opening.creates object) (htable : (files.metadata version).isSome)
    {outcome : Outcome (SigactionVirtualMemoryManager Hash)}
    (hruns : (opening.program blocks.build object address).RunsTo
      (fun call files reply files' => files.answer call = (reply, files')) files outcome files') :
    files' = files := by
  have hdirectory := hconsistent.housed version htable
  have hfound : files.answer (.directoryExists (.path version)) = (true, files) := by
    simp [FileSystem.answer, hdirectory]
  cases opening with
  | create name regionSize maxMemBlocks allowOverwrite =>
      cases hversion
      obtain ⟨hblockSize, honce⟩ := hallowed
      cases allowOverwrite with
      | true =>
          rw [honce rfl] at htable
          cases htable
      | false =>
          let capacity := if regionSize % object.blockSize ≠ 0 ∧ regionSize ≠ 0 then
            (regionSize / object.blockSize + 1) * object.blockSize else regionSize
          have hmetadata : (createVersionMetadata (object.versionPath name) object.blocksDirPath
              capacity false).run FileSystem.answer files = (.exited, files) := by
            simp [createVersionMetadata, FileSystem.answer, hdirectory, Program.run]
          have hbase : (VirtualMemoryManagerBase.create blocks.build regionSize object.blockSize
              maxMemBlocks (object.versionPath name) object.blocksDirPath object.stashDirPath
                false).run FileSystem.answer files = (.exited, files) :=
            Program.run_bind_of_exited hmetadata
          have hmanager : (SigactionVirtualMemoryManager.create blocks.build regionSize
              object.blockSize maxMemBlocks (object.versionPath name) object.blocksDirPath
                object.stashDirPath false).run FileSystem.answer files = (.exited, files) :=
            Program.run_bind_of_exited hbase
          have hne : ¬ object.blockSize = 0 := hblockSize ▸ hpos.ne'
          have hcreate : (object.create blocks.build name regionSize maxMemBlocks false
              address).run FileSystem.answer files = (.exited, files) := by
            unfold PrivateerObject.create
            rw [if_neg hne]
            exact Program.run_bind_of_exited hmanager
          obtain ⟨outcome₁, hruns₁⟩ := Program.RunsTo.of_bind_exited hcreate hruns
          unfold PrivateerObject.create at hruns₁
          rw [if_neg hne] at hruns₁
          obtain ⟨outcome₂, hruns₂⟩ := Program.RunsTo.of_bind_exited hmanager hruns₁
          obtain ⟨outcome₃, hruns₃⟩ := Program.RunsTo.of_bind_exited hbase hruns₂
          obtain ⟨outcome₄, hruns₄⟩ := Program.RunsTo.of_bind_exited hmetadata hruns₃
          rcases hruns₄ with ⟨-, rfl⟩ | ⟨found, looked, hlooked, hlast⟩
          · rfl
          cases hfound.symm.trans hlooked
          exact hlast.2
  | «open» name maxMemBlocks readOnly => cases hversion
  | openImmutable name newVersion maxMemBlocks =>
      cases hversion
      have hopen : (object.openImmutable blocks.build name newVersion maxMemBlocks address).run
          FileSystem.answer files = (.exited, files) := by
        cases hsource : files.directories (.path (object.versionPath name)) with
        | true => simp [PrivateerObject.openImmutable, FileSystem.answer, hsource, hdirectory,
            Program.run]
        | false => simp [PrivateerObject.openImmutable, FileSystem.answer, hsource, Program.run]
      obtain ⟨outcome', hruns'⟩ := Program.RunsTo.of_bind_exited hopen hruns
      rcases hruns' with ⟨-, rfl⟩ | ⟨there, looked, hthere, hrest⟩
      · rfl
      cases hthere
      cases hsource : files.directories (.path (object.versionPath name)) with
      | false =>
          rw [hsource] at hrest
          exact hrest.2
      | true =>
          rw [hsource] at hrest
          rcases hrest with ⟨-, rfl⟩ | ⟨found, looked, hlooked, hlast⟩
          · rfl
          cases hfound.symm.trans hlooked
          exact hlast.2

/-- A request happens, or leaves what its process could do before it was killed. -/
theorem VersionsState.Follows.step_killed (hsound : blocks.build.Sound)
    (hcompression : blocks.build.useCompression = false) (hpos : 0 < blocks.blockSize)
    (hready : blocks.Ready state.files) (hfollows : state.Follows blocks store)
    (hcovered : request.Covered blocks state)
    (hstep : VersionsStep blocks killedAnywhere state request next) :
    ∃ store', request.MayBeKilled blocks.blockSize store store' ∧ next.Follows blocks store' := by
  have hsettled := (hready.step hsound hpos hfollows.settled.orderly hstep).2
  have hhappens : VersionsStep blocks runToEnd state request next →
      ∃ store', request.MayBeKilled blocks.blockSize store store' ∧
        next.Follows blocks store' := by
    intro hwhole
    obtain ⟨store', heffect, hnext⟩ := hfollows.step hsound hcompression hpos hcovered hwhole
    exact ⟨store', .inl heffect, hnext⟩
  have hleft : ∀ left, request.Leaves store left →
      next.Follows blocks (left.drop request.session) →
        ∃ store', request.MayBeKilled blocks.blockSize store store' ∧
          next.Follows blocks store' :=
    fun left hleaves hnext => ⟨_, .inr ⟨left, hleaves, rfl⟩, hnext⟩
  cases request with
  | start session object opening address =>
      obtain ⟨hfree, htier, hallowed, outcome, files', hends, hafter⟩ := id hstep
      rcases hends.run_or_exited with hrun | rfl
      · exact hhappens ⟨hfree, htier, hallowed, outcome, files', hrun, hafter⟩
      obtain ⟨rfl, hsession⟩ := hafter.exited
      obtain ⟨outcome', hruns⟩ := Program.RunsTo.of_bind_finish hends
      obtain ⟨left, hfails, hnext⟩ := hfollows.fails hsound hcompression hpos hstep hsettled
        (fun version => Iff.rfl) (fun version hcreates htable => opening.killed_of_exists hpos
          hallowed hfollows.settled.orderly.consistent hcreates htable hruns) hsession
      exact hleft left hfails hnext
  | perform session operation =>
      obtain ⟨manager, hmanager, hwithin, outcome, files', hends, hafter⟩ := id hstep
      rcases hends.run_or_exited with hrun | rfl
      · exact hhappens ⟨manager, hmanager, hwithin, outcome, files', hrun, hafter⟩
      obtain ⟨rfl, hsession⟩ := hafter.exited
      have hnothing : (∀ version, version ∉ VersionsRequest.writes state
          (.perform session operation)) → next.Follows blocks (store.drop session) := by
        intro hwrites
        refine hfollows.of_settled hsound hpos hstep hsettled hfollows.kept.drop
          (fun other hother => VersionStore.copies_drop_of_ne hother) ?_
          (fun _ _ => ⟨Iff.rfl, rfl⟩) fun version hversion => absurd hversion (hwrites version)
        rw [VersionsRequest.session, hsession, VersionStore.copies_drop_self]
        exact .none
      obtain ⟨outcome₁, hperform⟩ := Program.RunsTo.of_bind_finish hends
      cases operation with
      | read offset =>
          exact hleft store rfl (hnothing fun version hversion =>
            absurd ((VersionsRequest.mem_writes_perform hmanager version).mp hversion)
              (Set.notMem_empty _))
      | write offset byte =>
          exact hleft store rfl (hnothing fun version hversion =>
            absurd ((VersionsRequest.mem_writes_perform hmanager version).mp hversion)
              (Set.notMem_empty _))
      | msync schedule =>
          obtain ⟨outcome₂, hmsync⟩ := Program.RunsTo.of_bind_finish hperform
          obtain ⟨left, hcommits, hnext⟩ := hfollows.killed_commit hsound hcompression hpos hstep
            hsettled hmanager (VersionsRequest.mem_writes_perform hmanager)
              (hcovered manager hmanager) hmsync hsession
          exact hleft left hcommits hnext
      | snapshot version schedule =>
          obtain ⟨outcome₂, hsnapshot⟩ := Program.RunsTo.of_bind_finish hperform
          obtain ⟨left, hfails, hnext⟩ := hfollows.fails hsound hcompression hpos hstep hsettled
            (VersionsRequest.mem_writes_perform hmanager)
            (fun other hcreates htable => by
              cases hcreates
              exact snapshot_killed_of_exists
                (hfollows.settled.orderly.consistent.housed _ htable) htable hsnapshot) hsession
          exact hleft left hfails hnext
  | close session schedule =>
      obtain ⟨manager, hmanager, outcome, files', hends, hafter⟩ := id hstep
      rcases hends.run_or_exited with hrun | rfl
      · exact hhappens ⟨manager, hmanager, outcome, files', hrun, hafter⟩
      obtain ⟨rfl, hsession⟩ := hafter.exited
      obtain ⟨outcome₁, hclose⟩ := Program.RunsTo.of_bind_finish hends
      obtain ⟨outcome₂, hmsync⟩ := Program.RunsTo.of_bind_finish hclose
      have hwrites : ∀ version, version ∈ VersionsRequest.writes state
          (.close session schedule) ↔ version = manager.versionMetadataPath := by
        intro version
        constructor
        · rintro ⟨manager', hmanager', hversion⟩
          cases hmanager.symm.trans hmanager'
          exact hversion
        · exact fun hversion => ⟨manager, hmanager, hversion⟩
      obtain ⟨left, hcommits, hnext⟩ := hfollows.killed_commit hsound hcompression hpos hstep
        hsettled hmanager hwrites (hcovered manager hmanager) hmsync hsession
      exact hleft left hcommits hnext
  | kill session => exact hhappens hstep

end Requests

/-! ## Whole runs -/

/-- However often its processes are killed, between any two system calls, a datastore is a store
of byte regions: what is committed stays as it is until it is committed to again, and then it is
what it was or the copy. -/
theorem killed_datastore_follows_store (hsound : blocks.build.Sound)
    (hcompression : blocks.build.useCompression = false) (hpos : 0 < blocks.blockSize)
    (hconsistent : blocks.Consistent files) (hready : blocks.Ready files)
    (hshows : VersionsState.Shows blocks ⟨files, fun _ => none⟩ store)
    {trace : List (VersionsRequest Hash × VersionsState Hash)}
    (hrun : Run (VersionsStep blocks killedAnywhere) ⟨files, fun _ => none⟩ trace)
    (hcovered : Run.Each (fun state request => request.Covered blocks state)
      ⟨files, fun _ => none⟩ trace) :
    ∃ followed : List (VersionsRequest Hash × RegionStore),
      Run (fun store request store' => request.MayBeKilled blocks.blockSize store store') store
        followed ∧
      List.Forall₂ (fun first second => first.1 = second.1 ∧ first.2.Shows blocks second.2) trace
        followed := by
  have hstart : VersionsState.Follows blocks ⟨files, fun _ => none⟩ store :=
    hshows.follows hconsistent fun _ _ => hready.directory
  obtain ⟨followed, hfollowed, hall⟩ := hrun.simulate
    (fun state request next store (hrelated : blocks.Ready state.files ∧
        state.Follows blocks store) hcovered hstep => by
      obtain ⟨store', heffect, hnext⟩ :=
        hrelated.2.step_killed hsound hcompression hpos hrelated.1 hcovered hstep
      exact ⟨store', heffect,
        (hrelated.1.step hsound hpos hrelated.2.settled.orderly hstep).1, hnext⟩)
    ⟨hready, hstart⟩ hcovered
  exact ⟨followed, hfollowed, hall.imp fun _ _ hsame =>
    ⟨hsame.1, hsame.2.2.shows hsound hcompression⟩⟩

/-- The files of a datastore that has its blocks directory, and no version. -/
def readyFiles : FileSystem (Option (List Byte)) :=
  (smallFiles.setDirectory (.path smallDatastore.location)).setText
    (.granularity smallDatastore.location) (some (some (.number 1)))

theorem readyFiles_ready : smallDatastore.Ready readyFiles where
  directory := by decide
  granularity := FileSystem.setText_self _ _ _

theorem readyFiles_consistent : smallDatastore.Consistent readyFiles := by
  have hcreated : smallDatastore.Consistent
      (smallFiles.setDirectory (.path smallDatastore.location)) :=
    smallFiles_consistent.keep (BlocksDirectory.promises_createDirectory _)
  have hdevelops : smallDatastore.Develops ∅ True
      (smallFiles.setDirectory (.path smallDatastore.location)) readyFiles :=
    BlocksDirectory.develops_setText (fun text htext => by cases htext)
      (fun text htext _ => ⟨trivial, by decide, (Option.some.inj htext).symm⟩)
      ⟨.number 1, fun _ => ⟨trivial, by decide, rfl⟩⟩
  exact hdevelops.consistent hcreated

theorem shows_readyFiles : VersionsState.Shows smallDatastore ⟨readyFiles, fun _ => none⟩
    RegionStore.empty where
  taken := fun _ => iff_of_false (Set.notMem_empty _) Bool.false_ne_true
  versions := fun _ => denotedBlocks_of_missing rfl
  sessions := fun _ => rfl
  reads := fun _ _ _ _ hmanager => by cases hmanager

/-- A process is killed while it closes, and its version is opened again. -/
theorem killed_datastore_follows_store_close :
    ∃ trace : List (VersionsRequest (Option (List Byte)) × VersionsState (Option (List Byte))),
      trace.map Prod.fst = [.start 0 smallObject (.create ['v'] 1 1 false) 4096,
        .perform 0 (.write 0 7), .perform 0 (.msync ⟨[], []⟩), .perform 0 (.write 0 9),
        .close 0 ⟨[], []⟩, .start 1 smallObject (.open ['v'] 1 true) 4096,
        .perform 1 (.read 0)] ∧
      ∃ followed : List (VersionsRequest (Option (List Byte)) × RegionStore),
        Run (fun store request store' => request.MayBeKilled 1 store store') RegionStore.empty
          followed ∧
        List.Forall₂ (fun first second => first.1 = second.1 ∧
          first.2.Shows smallDatastore second.2) trace followed := by
  have hfollows : ∀ trace : List (VersionsRequest (Option (List Byte)) ×
        VersionsState (Option (List Byte))),
      Run (VersionsStep smallDatastore killedAnywhere) ⟨readyFiles, fun _ => none⟩ trace →
      Run.Each (fun state request => request.Covered smallDatastore state)
        ⟨readyFiles, fun _ => none⟩ trace → _ :=
    fun trace hrun hcovered => killed_datastore_follows_store Build.transparent_sound rfl
      (by decide) readyFiles_consistent readyFiles_ready shows_readyFiles hrun hcovered
  refine ⟨[(_, ⟨_, _⟩), (_, ⟨_, _⟩), (_, ⟨_, _⟩), (_, ⟨_, _⟩), (_, ⟨_, _⟩), (_, ⟨_, _⟩),
    (_, ⟨_, _⟩)], rfl, hfollows _
    (.cons ⟨rfl, smallObject_onTier, ⟨rfl, fun h => by cases h⟩, _, _,
        killedAnywhere_of_runToEnd rfl, rfl⟩
      (.cons ⟨_, rfl, by decide, _, _, killedAnywhere_of_runToEnd rfl, rfl⟩
        (.cons ⟨_, rfl, trivial, _, _, killedAnywhere_of_runToEnd rfl, rfl⟩
          (.cons ⟨_, rfl, by decide, _, _, killedAnywhere_of_runToEnd rfl, rfl⟩
            (.cons ⟨_, rfl, .exited, _, .inl ⟨rfl, rfl⟩, rfl⟩
              (.cons ⟨rfl, smallObject_onTier, trivial, _, _, killedAnywhere_of_runToEnd rfl,
                  rfl⟩
                (.cons ⟨_, rfl, by decide, _, _, killedAnywhere_of_runToEnd rfl, rfl⟩
                  .nil)))))))
    ⟨⟨by decide, fun _ => rfl⟩, trivial, ?_, trivial, ?_, trivial, trivial, trivial⟩⟩
  · intro manager hmanager
    cases hmanager
    intro block habove hbelow
    exact absurd hbelow (Nat.not_lt.mpr habove)
  · intro manager hmanager
    cases hmanager
    intro block habove hbelow
    exact absurd hbelow (Nat.not_lt.mpr habove)

end Privateer
