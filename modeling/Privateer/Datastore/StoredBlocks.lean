import Privateer.Datastore.TrackedWrites

/-!
# What a datastore stores

The blocks directory holds what was there and, for each commit, the contents of the blocks that
its session had written since the commit before.  Equal contents have one name and one file,
so copies and snapshots of a version add nothing, and no matter how many versions there are and
which processes are killed, a write adds at most one file.
-/

namespace Privateer

open SigactionVirtualMemoryManager (sparesBlocks_readByte sparesBlocks_writeByte msync_mayEnd
  snapshot_mayEnd run_msync_stored run_takeSnapshot_stored run_snapshot_taken)

variable {Hash : Type}

/-! ## Openings -/

section Openings

variable {build : Build Hash} {version blocksPath stashPath : Path}

theorem sparesBlocks_writeTextFile (file : TextFile) (text : Text) :
    (writeTextFile file text : StorageProgram Hash Unit).CallsOnly Call.SparesBlocks :=
  ⟨Call.sparesBlocks_of_changes rfl, fun _ => ⟨Call.sparesBlocks_of_changes rfl, fun _ => trivial⟩⟩

theorem sparesBlocks_createMetadataFiles (capacity : ℕ) :
    (createMetadataFiles version blocksPath capacity : StorageProgram Hash Unit).CallsOnly
      Call.SparesBlocks := by
  refine ⟨Call.sparesBlocks_of_changes rfl, fun opened => ?_⟩
  cases opened with
  | false => trivial
  | true => exact (sparesBlocks_writeTextFile _ _).bind fun _ => sparesBlocks_writeTextFile _ _

theorem sparesBlocks_createVersionMetadata (capacity : ℕ) (allowOverwrite : Bool) :
    (createVersionMetadata version blocksPath capacity allowOverwrite :
      StorageProgram Hash Unit).CallsOnly Call.SparesBlocks := by
  refine ⟨Call.sparesBlocks_of_changes rfl, fun found => ?_⟩
  cases found with
  | false =>
      refine ⟨Call.sparesBlocks_of_changes rfl, fun created => ?_⟩
      cases created with
      | false => trivial
      | true => exact sparesBlocks_createMetadataFiles capacity
  | true =>
      cases allowOverwrite with
      | false => trivial
      | true =>
          refine ⟨Call.sparesBlocks_of_changes rfl, fun there => ?_⟩
          cases there with
          | false => exact sparesBlocks_createMetadataFiles capacity
          | true =>
              refine ⟨Call.sparesBlocks_of_changes rfl, fun removed => ?_⟩
              cases removed with
              | false => trivial
              | true => exact sparesBlocks_createMetadataFiles capacity

theorem sparesBlocks_prepareStashDirectory :
    (BlockStorage.prepareStashDirectory stashPath : StorageProgram Hash Unit).CallsOnly
      Call.SparesBlocks := by
  unfold BlockStorage.prepareStashDirectory
  split
  · trivial
  · refine ⟨Call.sparesBlocks_of_changes rfl, fun found => ?_⟩
    cases found with
    | true => trivial
    | false =>
        refine ⟨Call.sparesBlocks_of_changes rfl, fun made => ?_⟩
        cases made with
        | true => trivial
        | false => trivial

theorem sparesBlocks_createStorage (blockSize : ℕ) :
    (BlockStorage.create blocksPath stashPath blockSize :
      StorageProgram Hash (BlockStorage Hash)).CallsOnly Call.SparesBlocks := by
  refine sparesBlocks_prepareStashDirectory.bind fun _ =>
    ⟨Call.sparesBlocks_of_changes rfl, fun found => ?_⟩
  cases found with
  | true => trivial
  | false =>
      refine ⟨Call.sparesBlocks_of_changes rfl, fun created => ?_⟩
      cases created with
      | false => trivial
      | true =>
          exact ⟨Call.sparesBlocks_of_changes rfl, fun _ =>
            ⟨Call.sparesBlocks_of_changes rfl, fun _ => trivial⟩⟩

theorem sparesBlocks_openStorage :
    (BlockStorage.open blocksPath stashPath :
      StorageProgram Hash (BlockStorage Hash)).CallsOnly Call.SparesBlocks := by
  refine sparesBlocks_prepareStashDirectory.bind fun _ =>
    ⟨Call.sparesBlocks_of_changes rfl, fun found => ?_⟩
  cases found with
  | false => trivial
  | true =>
      refine ⟨Call.sparesBlocks_of_changes rfl, fun text => ?_⟩
      rcases text with _ | _ | _ | _ <;> trivial

theorem sparesBlocks_create {regionSize blockSize maxMemBlocks : ℕ} {allowOverwrite : Bool} :
    (SigactionVirtualMemoryManager.create build regionSize blockSize maxMemBlocks version
      blocksPath stashPath allowOverwrite).CallsOnly Call.SparesBlocks := by
  have hbase : (VirtualMemoryManagerBase.create build regionSize blockSize maxMemBlocks version
      blocksPath stashPath allowOverwrite).CallsOnly Call.SparesBlocks := by
    refine (sparesBlocks_createVersionMetadata _ _).bind fun _ =>
      (sparesBlocks_createStorage _).bind fun storage => ?_
    refine ⟨Call.sparesBlocks_of_changes rfl, fun mapped => ?_⟩
    cases mapped with
    | true => trivial
    | false => trivial
  exact hbase.bind fun base => trivial

theorem sparesBlocks_open {maxMemBlocks : ℕ} {readOnly : Bool} :
    (SigactionVirtualMemoryManager.open build version stashPath maxMemBlocks readOnly).CallsOnly
      Call.SparesBlocks := by
  have hlocated : (versionBlocksPath version : StorageProgram Hash Path).CallsOnly
      Call.SparesBlocks :=
    ⟨Call.sparesBlocks_of_changes rfl, fun text => by rcases text with _ | _ | _ | _ <;> trivial⟩
  have hcapacity : (versionCapacity version : StorageProgram Hash ℕ).CallsOnly
      Call.SparesBlocks :=
    ⟨Call.sparesBlocks_of_changes rfl, fun text => by rcases text with _ | _ | _ | _ <;> trivial⟩
  have hbase : (VirtualMemoryManagerBase.open build version stashPath maxMemBlocks
      readOnly).CallsOnly Call.SparesBlocks := by
    refine hlocated.bind fun located => sparesBlocks_openStorage.bind fun storage => ?_
    refine ⟨Call.sparesBlocks_of_changes rfl, fun found => ?_⟩
    cases found with
    | false => trivial
    | true =>
        refine ⟨Call.sparesBlocks_of_changes rfl, fun size => hcapacity.bind fun capacity => ?_⟩
        refine ⟨Call.sparesBlocks_of_changes rfl, fun mapped => ?_⟩
        cases mapped with
        | false => trivial
        | true =>
            refine ⟨Call.sparesBlocks_of_changes rfl, fun entries => ?_⟩
            cases entries with
            | none => trivial
            | some entries =>
                change Program.CallsOnly _ (if _ then _ else _)
                split
                · trivial
                · trivial
  exact hbase.bind fun base => trivial

/-- An opening touches no block file, whether it creates, opens or copies a version. -/
theorem Opening.sparesBlocks_program {object : PrivateerObject Hash} {address : ℕ}
    (opening : Opening) :
    (opening.program build object address).CallsOnly Call.SparesBlocks := by
  have hopen : ∀ name maxMemBlocks readOnly,
      (object.open build name maxMemBlocks readOnly address).CallsOnly Call.SparesBlocks := by
    intro name maxMemBlocks readOnly
    refine ⟨Call.sparesBlocks_of_changes rfl, fun found => ?_⟩
    cases found with
    | false => trivial
    | true => exact sparesBlocks_open.bind fun manager => trivial
  have hcreate : ∀ name regionSize maxMemBlocks allowOverwrite,
      (object.create build name regionSize maxMemBlocks allowOverwrite address).CallsOnly
        Call.SparesBlocks := by
    intro name regionSize maxMemBlocks allowOverwrite
    unfold PrivateerObject.create
    split
    · trivial
    · exact sparesBlocks_create.bind fun manager => trivial
  have hcopy : ∀ name newVersion maxMemBlocks,
      (object.openImmutable build name newVersion maxMemBlocks address).CallsOnly
        Call.SparesBlocks := by
    intro name newVersion maxMemBlocks
    refine ⟨Call.sparesBlocks_of_changes rfl, fun found => ?_⟩
    cases found with
    | false => trivial
    | true =>
        refine ⟨Call.sparesBlocks_of_changes rfl, fun there => ?_⟩
        cases there with
        | true => trivial
        | false =>
            refine ⟨Call.sparesBlocks_of_changes rfl, fun _ =>
              ⟨Call.sparesBlocks_of_changes rfl, fun table => ?_⟩⟩
            cases table with
            | false => trivial
            | true =>
                refine ⟨Call.sparesBlocks_of_changes rfl, fun capacity => ?_⟩
                cases capacity with
                | false => trivial
                | true =>
                    refine ⟨Call.sparesBlocks_of_changes rfl, fun path => ?_⟩
                    cases path with
                    | false => trivial
                    | true => exact hopen _ _ _
  cases opening with
  | create name regionSize maxMemBlocks allowOverwrite =>
      refine Program.CallsOnly.bind (hcreate name regionSize maxMemBlocks allowOverwrite) ?_
      intro opened
      dsimp only
      cases opened.managers.getLast? with
      | none => trivial
      | some mapped => trivial
  | «open» name maxMemBlocks readOnly =>
      refine Program.CallsOnly.bind (hopen name maxMemBlocks readOnly) ?_
      intro opened
      dsimp only
      cases opened.managers.getLast? with
      | none => trivial
      | some mapped => trivial
  | openImmutable name newVersion maxMemBlocks =>
      refine Program.CallsOnly.bind (hcopy name newVersion maxMemBlocks) ?_
      intro opened
      dsimp only
      cases opened.managers.getLast? with
      | none => trivial
      | some mapped => trivial

end Openings

variable [DecidableEq Hash] {blocks : BlocksDirectory Hash} {files : FileSystem Hash}
variable {state next : VersionsState Hash} {request : VersionsRequest Hash}
variable {written : ℕ → Finset ℕ}

/-! ## What a request stores -/

/-- The request commits what its session has written. -/
def VersionsRequest.Commits (state : VersionsState Hash) : VersionsRequest Hash → Prop
  | .start _ _ _ _ => False
  | .perform _ (.read _) => False
  | .perform _ (.write _ _) => False
  | .perform _ (.msync _) => True
  | .perform _ (.snapshot version _) => state.files.metadata version = none
  | .close _ _ => True
  | .kill _ => False

/-- The names of the contents that a request commits. -/
def VersionsRequest.stores (blocks : BlocksDirectory Hash) (state : VersionsState Hash)
    (written : ℕ → Finset ℕ) (request : VersionsRequest Hash) : Set Hash :=
  {name | request.Commits state ∧ ∃ manager, state.sessions request.session = some manager ∧
    name ∈ manager.shownNames blocks.build state.files (written request.session)}

/-- A request adds no names but those that it commits, and takes none away. -/
theorem VersionsState.Orderly.storedNames_step (hsound : blocks.build.Sound)
    (hpos : 0 < blocks.blockSize) (horderly : state.Orderly blocks)
    (htracks : state.Tracks written)
    (hstep : VersionsStep blocks killedAnywhere state request next) :
    blocks.storedNames state.files ⊆ blocks.storedNames next.files ∧
      blocks.storedNames next.files ⊆
        blocks.storedNames state.files ∪ request.stores blocks state written := by
  have hdevelops := (horderly.step hsound hpos hstep).2.1
  refine ⟨BlocksDirectory.storedNames_subset
    (hdevelops.tolerates.named horderly.consistent.named).2, fun name hname => ?_⟩
  by_contra hnew
  rw [Set.mem_union, not_or] at hnew
  suffices hkept : next.files.data (blocks.blockFile name) =
      state.files.data (blocks.blockFile name) by
    refine hnew.1 ?_
    rw [BlocksDirectory.storedNames, Set.mem_ofPred_eq, ← hkept]
    exact hname
  have hlasts : (blocks.blockFile name).Lasts := Settles.lasts_blockFile name
  have hcommitted : ∀ manager, state.sessions request.session = some manager →
      request.Commits state →
        name ∉ manager.shownNames blocks.build state.files manager.modified := by
    intro manager hmanager hcommits hshown
    rw [htracks _ manager hmanager] at hshown
    exact hnew.2 ⟨hcommits, manager, hmanager, hshown⟩
  cases request with
  | start session object opening address =>
      obtain ⟨outcome, hends⟩ : ∃ outcome, MayEnd (opening.program blocks.build object address)
          state.files outcome next.files := by
        rcases horderly.started_or_gone hpos hstep with ⟨manager, hrun, -⟩ | ⟨-, stopped, hends⟩
        · exact ⟨_, Program.runsTo_of_run (fun _ _ => rfl) hrun⟩
        · exact ⟨stopped, hends⟩
      exact MayEnd.data_eq hends hlasts
        (opening.sparesBlocks_program.mono fun call hspares => hspares _ _ _)
  | perform session operation =>
      obtain ⟨manager, hmanager, hcases⟩ := horderly.performed_or_gone hsound hstep
      obtain ⟨outcome, hends⟩ : ∃ outcome, MayEnd (manager.perform blocks.build operation)
          state.files outcome next.files := by
        rcases hcases with ⟨result, hrun, -⟩ | ⟨-, stopped, hends⟩
        · exact ⟨_, Program.runsTo_of_run (fun _ _ => rfl) hrun⟩
        · exact ⟨stopped, hends⟩
      obtain ⟨contents, hheld⟩ := (horderly.live session manager hmanager).held
      have hcoherent := hheld.coherent
      have hsingle := hcoherent.backing.storage.tier
      cases operation with
      | read offset =>
          have hcalls : (manager.perform blocks.build (.read offset)).CallsOnly
              Call.SparesBlocks :=
            (sparesBlocks_readByte hsingle offset).bind fun _ => trivial
          exact MayEnd.data_eq hends hlasts (hcalls.mono fun call hspares => hspares _ _ _)
      | write offset byte =>
          have hcalls : (manager.perform blocks.build (.write offset byte)).CallsOnly
              Call.SparesBlocks :=
            (sparesBlocks_writeByte hsingle offset byte).bind fun _ => trivial
          exact MayEnd.data_eq hends hlasts (hcalls.mono fun call hspares => hspares _ _ _)
      | msync schedule =>
          obtain ⟨stopped, hmsync⟩ := Program.RunsTo.of_bind_finish hends
          exact msync_mayEnd hsound hcoherent (hcommitted manager hmanager trivial) hmsync
      | snapshot version schedule =>
          obtain ⟨stopped, hsnapshot⟩ := Program.RunsTo.of_bind_finish hends
          cases htable : state.files.metadata version with
          | none =>
              exact snapshot_mayEnd hsound hcoherent (hcommitted manager hmanager htable) hsnapshot
          | some table =>
              have hexists : (state.files.metadata version).isSome := by
                rw [htable]
                rfl
              rw [snapshot_killed_of_exists (horderly.consistent.housed version hexists) hexists
                hsnapshot]
  | close session schedule =>
      obtain ⟨manager, hmanager, -, stopped, hmsync⟩ := horderly.closed hsound hstep
      obtain ⟨contents, hheld⟩ := (horderly.live session manager hmanager).held
      exact msync_mayEnd hsound hheld.coherent (hcommitted manager hmanager trivial) hmsync
  | kill session =>
      obtain rfl := hstep
      rfl

/-- A request that is not killed adds all the names that it commits. -/
theorem VersionsState.Orderly.stores_subset (hsound : blocks.build.Sound)
    (horderly : state.Orderly blocks) (htracks : state.Tracks written)
    (hstep : VersionsStep blocks runToEnd state request next) :
    request.stores blocks state written ⊆ blocks.storedNames next.files := by
  rintro name ⟨hcommits, manager, hmanager, hname⟩
  rw [← htracks _ manager hmanager] at hname
  have hlive := horderly.live _ manager hmanager
  obtain ⟨contents, hheld⟩ := hlive.held
  have hcoherent := hheld.coherent
  cases request with
  | start session object opening address => exact hcommits.elim
  | perform session operation =>
      cases operation with
      | read offset => exact hcommits.elim
      | write offset byte => exact hcommits.elim
      | msync schedule =>
          obtain ⟨committed, final, hrun, hstored⟩ :=
            run_msync_stored hsound hcoherent hlive.table schedule
          have hperform : (manager.perform blocks.build (.msync schedule)).run FileSystem.answer
              state.files = (.returned ([], committed), final) := Program.run_bind_of_returned hrun
          rw [(hstep.perform_returned hmanager hperform).1]
          exact hstored hname
      | snapshot version schedule =>
          obtain ⟨ready, htaken, hdirectory, hready⟩ :=
            run_snapshot_taken blocks manager schedule hcommits
          have hcoherent' := hready contents hcoherent
          obtain ⟨result, final, hrun, hstored⟩ :=
            run_takeSnapshot_stored hsound hcoherent' hdirectory schedule
          have hperform : (manager.perform blocks.build (.snapshot version schedule)).run
              FileSystem.answer state.files = (.returned ([], result.2), final) :=
            Program.run_bind_of_returned (htaken.trans hrun)
          rw [(hstep.perform_returned hmanager hperform).1]
          exact hstored (hcoherent'.mem_shownNames.mpr (hcoherent.mem_shownNames.mp hname))
  | close session schedule =>
      obtain ⟨manager', hmanager', outcome, files', hends, hafter⟩ := hstep
      cases hmanager.symm.trans hmanager'
      obtain ⟨committed, final, hrun, hstored⟩ :=
        run_msync_stored hsound hcoherent hlive.table schedule
      have hclose : (manager.close blocks.build schedule).run FileSystem.answer state.files =
          (.returned (), final) := Program.run_bind_of_returned hrun
      cases (Program.run_bind_of_returned hclose).symm.trans hends
      rw [show next = _ from hafter]
      exact hstored hname
  | kill session => exact hcommits.elim

/-! ## Whole runs -/

variable {trace : List (VersionsRequest Hash × VersionsState Hash)}

/-- The blocks directory holds what it held, and the contents of the blocks that were written
before each commit, once each. -/
theorem datastore_stores_commits (hsound : blocks.build.Sound) (hpos : 0 < blocks.blockSize)
    (hconsistent : blocks.Consistent files)
    (hrun : Run (VersionsStep blocks runToEnd) ⟨files, fun _ => none⟩ trace) :
    blocks.storedNames (Run.last ⟨files, fun _ => none⟩ trace).files =
      blocks.storedNames files ∪
        Run.collected (fun state request => request.stores blocks state.1 state.2)
          (trackedStart files) (trackedTrace blocks files trace) := by
  have htracked : Run (TrackedStep blocks runToEnd) (trackedStart files)
      (trackedTrace blocks files trace) := hrun.recorded _
  have hkeep : ∀ (state : VersionsState Hash × (ℕ → Finset ℕ)) (request : VersionsRequest Hash)
      (next : VersionsState Hash × (ℕ → Finset ℕ)), OrderlyTracks blocks state →
        TrackedStep blocks runToEnd state request next → OrderlyTracks blocks next ∧
          blocks.storedNames next.1.files = blocks.storedNames state.1.files ∪
            request.stores blocks state.1 state.2 := by
    intro state request next hbefore hstep
    have hkilled := hstep.1.killedAnywhere
    obtain ⟨hkeeps, hadds⟩ := hbefore.1.storedNames_step hsound hpos hbefore.2 hkilled
    have hall := hbefore.1.stores_subset hsound hbefore.2 hstep.1
    exact ⟨hbefore.step hsound hpos ⟨hkilled, hstep.2⟩,
      hadds.antisymm (Set.union_subset hkeeps hall)⟩
  have hcollected := htracked.eq_union_collected hkeep (orderlyTracks_start hconsistent)
  have hlast : (Run.last (trackedStart files) (trackedTrace blocks files trace)).1 =
      Run.last ⟨files, fun _ => none⟩ trace := Run.last_withHistory _
  rw [hlast] at hcollected
  exact hcollected

/-- Two versions with a block in common. -/
theorem datastore_stores_commits_shared :
    ∃ trace : List (VersionsRequest (Option (List Byte)) × VersionsState (Option (List Byte))),
      trace.map Prod.fst = [.start 0 smallObject (.create ['v'] 2 1 false) 4096,
        .perform 0 (.write 1 7), .perform 0 (.write 0 5), .close 0 ⟨[], []⟩,
        .start 1 smallObject (.openImmutable ['v'] ['w'] 1) 4096, .perform 1 (.write 0 7),
        .perform 1 (.msync ⟨[], []⟩)] ∧
      smallDatastore.storedNames (Run.last ⟨smallFiles, fun _ => none⟩ trace).files =
        smallDatastore.storedNames smallFiles ∪
          Run.collected (fun state request => request.stores smallDatastore state.1 state.2)
            (trackedStart smallFiles) (trackedTrace smallDatastore smallFiles trace) := by
  have hrun : Run (VersionsStep smallDatastore runToEnd) ⟨smallFiles, fun _ => none⟩
      [(.start 0 smallObject (.create ['v'] 2 1 false) 4096, ⟨_, _⟩),
        (.perform 0 (.write 1 7), ⟨_, _⟩), (.perform 0 (.write 0 5), ⟨_, _⟩),
        (.close 0 ⟨[], []⟩, ⟨_, _⟩),
        (.start 1 smallObject (.openImmutable ['v'] ['w'] 1) 4096, ⟨_, _⟩),
        (.perform 1 (.write 0 7), ⟨_, _⟩), (.perform 1 (.msync ⟨[], []⟩), ⟨_, _⟩)] :=
    .cons ⟨rfl, smallObject_onTier, ⟨rfl, fun h => by cases h⟩, _, _, rfl, rfl⟩
      (.cons ⟨_, rfl, by decide, _, _, rfl, rfl⟩ (.cons ⟨_, rfl, by decide, _, _, rfl, rfl⟩
        (.cons ⟨_, rfl, _, _, rfl, rfl⟩
          (.cons ⟨rfl, smallObject_onTier, trivial, _, _, rfl, rfl⟩
            (.cons ⟨_, rfl, by decide, _, _, rfl, rfl⟩
              (.cons ⟨_, rfl, trivial, _, _, rfl, rfl⟩ .nil))))))
  refine ⟨_, ?_, datastore_stores_commits Build.transparent_sound (by decide)
    smallFiles_consistent hrun⟩
  rfl

/-! ## How much is stored -/

/-- The blocks that the sessions will commit. -/
def VersionsState.modified (state : VersionsState Hash) (session : ℕ) : Finset ℕ :=
  (state.sessions session).elim ∅ fun manager => manager.modified

/-- Only writes cost. -/
def VersionsRequest.cost : VersionsRequest Hash → ℕ
  | .perform _ (.write _ _) => 1
  | _ => 0

/-- The sessions and their blocks. -/
def blockPairs (written : ℕ → Finset ℕ) : Set (ℕ × ℕ) :=
  {pair | pair.2 ∈ written pair.1}

/-- The blocks that a request commits. -/
def VersionsRequest.taken (state : VersionsState Hash) (written : ℕ → Finset ℕ)
    (request : VersionsRequest Hash) : Set (ℕ × ℕ) :=
  {pair | request.Commits state ∧ pair.1 = request.session ∧ pair ∈ blockPairs written}

/-- The block that a request writes. -/
def VersionsRequest.fresh (blockSize : ℕ) : VersionsRequest Hash → Set (ℕ × ℕ)
  | .perform session (.write offset _) => {(session, offset / blockSize)}
  | _ => ∅

omit [DecidableEq Hash] in
theorem VersionsRequest.encard_fresh_le (blockSize : ℕ) :
    (request.fresh blockSize).encard ≤ request.cost := by
  cases request with
  | perform session operation =>
      cases operation with
      | write offset byte => exact (Set.encard_singleton _).le
      | read offset => exact Set.encard_empty.le
      | msync schedule => exact Set.encard_empty.le
      | snapshot version schedule => exact Set.encard_empty.le
  | start session object opening address => exact Set.encard_empty.le
  | close session schedule => exact Set.encard_empty.le
  | kill session => exact Set.encard_empty.le

omit [DecidableEq Hash] in
/-- Blocks that are committed are not written any more, and a write adds one. -/
theorem blockPairs_track (blockSize : ℕ) :
    blockPairs (request.track blockSize state written) ⊆
      blockPairs written \ request.taken state written ∪ request.fresh blockSize := by
  rintro ⟨other, block⟩ hpair
  have hmember : block ∈ request.track blockSize state written other := hpair
  by_cases hother : other = request.session
  swap
  · rw [VersionsRequest.track_of_ne hother] at hmember
    exact .inl ⟨hmember, fun htaken => hother htaken.2.1⟩
  subst hother
  have hnone : ∀ {session}, block ∈ Function.update written session ∅ session → False := by
    intro session hmember
    rw [Function.update_self] at hmember
    exact Finset.notMem_empty _ hmember
  cases request with
  | start session object opening address => exact (hnone hmember).elim
  | perform session operation =>
      cases operation with
      | read offset => exact .inl ⟨hmember, fun htaken => htaken.1⟩
      | write offset byte =>
          have hinserted : block ∈ Function.update written session
            (insert (offset / blockSize) (written session)) session := hmember
          rw [Function.update_self, Finset.mem_insert] at hinserted
          rcases hinserted with rfl | hold
          · exact .inr rfl
          · exact .inl ⟨hold, fun htaken => htaken.1⟩
      | msync schedule => exact (hnone hmember).elim
      | snapshot version schedule =>
          rw [VersionsRequest.track] at hmember
          split at hmember
          next htable =>
            refine .inl ⟨hmember, fun htaken => ?_⟩
            have hmissing : state.files.metadata version = none := htaken.1
            rw [hmissing] at htable
            cases htable
          next => exact (hnone hmember).elim
  | close session schedule => exact (hnone hmember).elim
  | kill session => exact (hnone hmember).elim

omit [DecidableEq Hash] in
theorem VersionsState.tracks_modified (state : VersionsState Hash) :
    state.Tracks state.modified := by
  intro session manager hmanager
  rw [modified, hmanager]
  rfl

/-- A file that a request adds is paid for by a block that was pending, and a block that becomes
pending by the request. -/
theorem VersionsState.Orderly.paid_step (hsound : blocks.build.Sound) (hpos : 0 < blocks.blockSize)
    (horderly : state.Orderly blocks)
    (hstep : VersionsStep blocks killedAnywhere state request next) :
    (blocks.storedNames next.files \ blocks.storedNames state.files).encard +
        (blockPairs next.modified).encard ≤
      (blockPairs state.modified).encard + request.cost := by
  have htracks := state.tracks_modified
  obtain ⟨-, hadds⟩ := horderly.storedNames_step hsound hpos htracks hstep
  -- Each block has the name of what it shows.
  let name : ℕ × ℕ → Hash := fun pair => blocks.build.computeHash
    (((state.sessions pair.1).bind fun manager =>
      manager.shownBlock blocks.build state.files pair.2).getD [])
  have hnamed : request.stores blocks state state.modified ⊆
      name '' request.taken state state.modified := by
    rintro _ ⟨hcommits, manager, hmanager, block, hblock, content, hshown, rfl⟩
    refine ⟨(request.session, block), ⟨hcommits, rfl, hblock⟩, ?_⟩
    change blocks.build.computeHash (((state.sessions request.session).bind _).getD []) = _
    rw [hmanager, Option.bind_some, hshown, Option.getD_some]
  have hleft : blockPairs next.modified ⊆ blockPairs state.modified \
      request.taken state state.modified ∪ request.fresh blocks.blockSize := by
    refine Set.Subset.trans ?_ (blockPairs_track blocks.blockSize)
    rintro ⟨session, block⟩ hpair
    have hmember : block ∈ (next.sessions session).elim ∅ fun manager => manager.modified := hpair
    cases hmanager : next.sessions session with
    | none =>
        rw [hmanager] at hmember
        exact absurd hmember (Finset.notMem_empty _)
    | some manager =>
        rw [hmanager] at hmember
        have hdirty : block ∈ manager.modified := hmember
        rw [htracks.step hsound hpos horderly hstep session manager hmanager] at hdirty
        exact hdirty
  calc (blocks.storedNames next.files \ blocks.storedNames state.files).encard +
        (blockPairs next.modified).encard
      ≤ (blockPairs state.modified).encard + (request.fresh blocks.blockSize).encard :=
        encard_taken_le (hadds.trans (Set.union_subset_union_right _ hnamed))
          (fun pair htaken => htaken.2.2) hleft
    _ ≤ (blockPairs state.modified).encard + request.cost :=
        add_le_add_right (request.encard_fresh_le blocks.blockSize) _

/-- However many versions, copies, snapshots and commits there are, and whichever processes are
killed, the blocks directory gains at most one file for each write. -/
theorem stored_blocks_le_writes (hsound : blocks.build.Sound) (hpos : 0 < blocks.blockSize)
    (hconsistent : blocks.Consistent files)
    (hrun : Run (VersionsStep blocks killedAnywhere) ⟨files, fun _ => none⟩ trace) :
    (blocks.storedNames (Run.last ⟨files, fun _ => none⟩ trace).files \
      blocks.storedNames files).encard ≤ Run.totalCost VersionsRequest.cost trace := by
  have hkeep : ∀ (state : VersionsState Hash) (request : VersionsRequest Hash)
      (next : VersionsState Hash), state.Orderly blocks →
        VersionsStep blocks killedAnywhere state request next → next.Orderly blocks ∧
          (blocks.storedNames next.files \ blocks.storedNames state.files).encard +
            (blockPairs next.modified).encard ≤
              (blockPairs state.modified).encard + request.cost :=
    fun state request next horderly hstep =>
      ⟨(horderly.step hsound hpos hstep).1, horderly.paid_step hsound hpos hstep⟩
  have hgained := hrun.encard_gained_le hkeep (VersionsState.orderly_start hconsistent)
  have hnothing : blockPairs (VersionsState.modified (⟨files, fun _ => none⟩ :
      VersionsState Hash)) = ∅ :=
    Set.eq_empty_of_forall_notMem fun pair hpair => Finset.notMem_empty _ hpair
  rw [hnothing, Set.encard_empty, zero_add] at hgained
  exact le_self_add.trans hgained

/-- A commit that is killed, and a write that is lost. -/
theorem stored_blocks_le_writes_killed :
    ∃ trace : List (VersionsRequest (Option (List Byte)) × VersionsState (Option (List Byte))),
      trace.map Prod.fst = [.start 0 smallObject (.create ['v'] 2 1 false) 4096,
        .perform 0 (.write 1 7), .perform 0 (.msync ⟨[], []⟩), .perform 0 (.write 0 5),
        .close 0 ⟨[], []⟩] ∧
      (smallDatastore.storedNames (Run.last ⟨smallFiles, fun _ => none⟩ trace).files \
        smallDatastore.storedNames smallFiles).encard ≤
          Run.totalCost VersionsRequest.cost trace := by
  have hrun : Run (VersionsStep smallDatastore killedAnywhere) ⟨smallFiles, fun _ => none⟩
      [(.start 0 smallObject (.create ['v'] 2 1 false) 4096, ⟨_, _⟩),
        (.perform 0 (.write 1 7), ⟨_, _⟩), (.perform 0 (.msync ⟨[], []⟩), ⟨_, _⟩),
        (.perform 0 (.write 0 5), ⟨_, _⟩), (.close 0 ⟨[], []⟩, ⟨_, _⟩)] :=
    .cons ⟨rfl, smallObject_onTier, ⟨rfl, fun h => by cases h⟩, _, _,
        killedAnywhere_of_runToEnd rfl, rfl⟩
      (.cons ⟨_, rfl, by decide, _, _, killedAnywhere_of_runToEnd rfl, rfl⟩
        (.cons ⟨_, rfl, trivial, _, _, killedAnywhere_of_runToEnd rfl, rfl⟩
          (.cons ⟨_, rfl, by decide, _, _, killedAnywhere_of_runToEnd rfl, rfl⟩
            (.cons ⟨_, rfl, .exited, _, .inl ⟨rfl, rfl⟩, rfl⟩ .nil))))
  refine ⟨_, ?_, stored_blocks_le_writes Build.transparent_sound (by decide)
    smallFiles_consistent hrun⟩
  rfl

end Privateer
