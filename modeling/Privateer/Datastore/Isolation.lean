import Privateer.Datastore.VersionRuns

/-!
# Versions are isolated

What a version denotes depends on its own files, the granularity, and blocks that are
never changed.  So a request changes what the versions it writes denote and no other, and
a version that was copied denotes what the original does.
-/

namespace Privateer

variable {Hash : Type} [DecidableEq Hash] {blocks : BlocksDirectory Hash}
variable {files files' : FileSystem Hash} {targets : Set Path} {grounds : Prop}

open BlocksDirectory (Located Develops versions_bind versions_finish)

/-! ## What a version denotes -/

namespace BlocksDirectory

/-- A name stands for the same in later files. -/
theorem Names.loadName_eq {name : Hash} {content : List Byte}
    (hnames : blocks.Names files name content) (hkeeps : blocks.Keeps files files') :
    loadName blocks.build files' blocks.location blocks.blockSize name =
      loadName blocks.build files blocks.location blocks.blockSize name := by
  unfold loadName
  rcases hnames with ⟨hempty, -⟩ | hstored
  · rw [if_pos hempty, if_pos hempty]
  · have hfile := hstored.file
    have hfile' := (hstored.keep hkeeps).file
    rw [blockFile] at hfile hfile'
    rw [hfile, hfile']

omit [DecidableEq Hash] in
/-- A version that can be read lies in this datastore. -/
theorem Consistent.of_readVersion (hconsistent : blocks.Consistent files) {version : Path}
    {table : VersionTable Hash} (hread : readVersion files version = some table) :
    table.blocksPath = blocks.location ∧ table.blockSize = blocks.blockSize ∧
      files.metadata version = some table.entries := by
  unfold readVersion at hread
  split at hread
  · rename_i blocksPath capacity entries hblocksPath hcapacity hmetadata
    cases hconsistent.location version _ hblocksPath
    split at hread
    · rename_i blockSize hgranularity
      cases hconsistent.granularity _ hgranularity
      split_ifs at hread with hlength
      cases hread
      exact ⟨rfl, rfl, hmetadata⟩
    · cases hread
  · cases hread

/-- The files of a version, wherever they are, say what it denotes. -/
theorem Consistent.denotedBlocks_eq (hconsistent : blocks.Consistent files)
    (htolerates : blocks.Tolerates files files') {source target : Path}
    (hcopied : FileSystem.Copied source target files files')
    (hgranularity : files'.texts (.granularity blocks.location) =
      files.texts (.granularity blocks.location)) :
    denotedBlocks blocks.build files' target = denotedBlocks blocks.build files source := by
  have hread : readVersion files' target = readVersion files source := by
    unfold readVersion
    rw [hcopied.blocksPath, hcopied.capacity, hcopied.metadata]
    split
    · rename_i path capacity entries hpath _ _
      cases hconsistent.location source _ hpath
      rw [hgranularity]
    · rfl
  unfold denotedBlocks
  rw [hread]
  cases htable : readVersion files source with
  | none => rfl
  | some table =>
      obtain ⟨hlocation, hblockSize, hentries⟩ := hconsistent.of_readVersion htable
      rw [Option.map_some, Option.map_some, Option.some.injEq, List.map_inj_left]
      intro block _
      obtain ⟨content, hnames⟩ :=
        exists_names_getD (hconsistent.entries source table.entries hentries) block
      unfold VersionTable.block
      rw [hlocation, hblockSize]
      exact hnames.loadName_eq (htolerates.named hconsistent.named).2

/-- A version that is not written denotes what it did, once the datastore has its blocks
directory. -/
theorem Develops.denotedBlocks_eq (hdevelops : blocks.Develops targets grounds files files')
    (hconsistent : blocks.Consistent files) (hgrounds : ¬ grounds) {version : Path}
    (hversion : version ∉ targets) :
    denotedBlocks blocks.build files' version = denotedBlocks blocks.build files version := by
  have hsame := hdevelops.others version hversion
  exact hconsistent.denotedBlocks_eq hdevelops.tolerates
    ⟨hsame.metadata, hsame.capacity, hsame.blocksPath⟩
    (hdevelops.granularity.resolve_left hgrounds)

end BlocksDirectory

/-- A version without a table denotes nothing. -/
theorem denotedBlocks_of_missing {build : Build Hash} {version : Path}
    (hmissing : files.metadata version = none) : denotedBlocks build files version = none := by
  have hread : readVersion files version = none := by
    unfold readVersion
    rw [hmissing]
    split
    · rename_i htable
      cases htable
    · rfl
  rw [denotedBlocks, hread]
  rfl

/-! ## The blocks directory comes with the first version -/

/-- A version that was not there is created, or its directory is in the way. -/
theorem run_createVersionMetadata_of_missing {version blocksPath : Path} {capacity : ℕ}
    {allowOverwrite : Bool} (hmissing : files.metadata version = none) :
    (∃ files', (createVersionMetadata version blocksPath capacity allowOverwrite).run
      FileSystem.answer files = (.returned (), files')) ∨
    (createVersionMetadata version blocksPath capacity allowOverwrite).run FileSystem.answer
      files = (.exited, files) := by
  cases hdirectory : files.directories (.path version) with
  | false =>
      have hcreated := run_createMetadataFiles (files.setDirectory_self (.path version)) hmissing
        blocksPath capacity
      refine .inl ⟨(files.setDirectory (.path version)).writeVersion version [] blocksPath
        capacity, ?_⟩
      simp only [createVersionMetadata, Program.request_bind, Program.run_call,
        FileSystem.answer, hdirectory, Bool.false_eq_true, if_false, if_true]
      exact hcreated
  | true =>
      cases allowOverwrite with
      | false =>
          refine .inr ?_
          simp [createVersionMetadata, FileSystem.answer, hdirectory, Program.run]
      | true =>
          have hcreated := run_createMetadataFiles hdirectory hmissing blocksPath capacity
          refine .inl ⟨files.writeVersion version [] blocksPath capacity, ?_⟩
          simp only [createVersionMetadata, Program.request_bind, Program.run_call,
            FileSystem.answer, hdirectory, hmissing, if_true, Option.isSome_none,
            Bool.false_eq_true, if_false]
          exact hcreated

/-- A manager that is created, by whatever its creation comes to, finds the blocks directory
or makes it. -/
theorem located_run_createBase {stashPath version : Path} {regionSize maxMemBlocks : ℕ}
    {allowOverwrite : Bool} (hstash : stashPath ≠ []) (hlocated : blocks.Located files)
    (hmissing : files.metadata version = none) :
    ((∃ base files', (VirtualMemoryManagerBase.create blocks.build regionSize blocks.blockSize
        maxMemBlocks version blocks.location stashPath allowOverwrite).run FileSystem.answer files =
          (.returned base, files') ∧ files'.directories (.path blocks.location)) ∨
      ∃ files', (VirtualMemoryManagerBase.create blocks.build regionSize blocks.blockSize
        maxMemBlocks version blocks.location stashPath allowOverwrite).run FileSystem.answer files =
          (.exited, files') ∧ blocks.Located files') := by
  unfold VirtualMemoryManagerBase.create
  generalize (if regionSize % blocks.blockSize ≠ 0 ∧ regionSize ≠ 0 then
    (regionSize / blocks.blockSize + 1) * blocks.blockSize else regionSize) = capacity
  rcases run_createVersionMetadata_of_missing hmissing with ⟨created, hreturned⟩ | hexited
  · rw [Program.run_bind_of_returned hreturned,
      Program.run_bind_of_returned (run_createStorage hstash _ _)]
    have hdirectory : (storageFiles created blocks.location stashPath
        blocks.blockSize).directories (.path blocks.location) := blocksDirectory_storageFiles
    simp only [Program.request_bind, Program.run_call, FileSystem.answer]
    by_cases hzero : capacity = 0
    · have hfailed : decide (capacity ≠ 0) = false := by simpa using hzero
      simp only [hfailed, Bool.false_eq_true, if_false]
      exact .inr ⟨_, rfl, fun _ _ => hdirectory⟩
    · have hmapped : decide (capacity ≠ 0) = true := by simpa using hzero
      simp only [hmapped, if_true]
      exact .inl ⟨_, _, rfl, hdirectory⟩
  · exact .inr ⟨files, Program.run_bind_of_exited hexited, hlocated⟩

theorem located_run_create {object : PrivateerObject Hash} {version : Path}
    {regionSize maxMemBlocks address : ℕ} {allowOverwrite : Bool} (hpos : 0 < blocks.blockSize)
    (htier : object.OnTier blocks) (hblockSize : object.blockSize = blocks.blockSize)
    (hlocated : blocks.Located files)
    (hmissing : files.metadata (object.versionPath version) = none)
    {outcome : Outcome (Option (SigactionVirtualMemoryManager Hash))}
    (hruns : runToEnd (do return some (← (Opening.create version regionSize maxMemBlocks
      allowOverwrite).program blocks.build object address)) files outcome files') :
    outcome ≠ .undefined ∧ blocks.Located files' := by
  change (((object.create blocks.build version regionSize maxMemBlocks allowOverwrite address) >>=
    _) >>= _).run FileSystem.answer files = _ at hruns
  unfold PrivateerObject.create SigactionVirtualMemoryManager.create at hruns
  rw [if_neg (hblockSize ▸ hpos.ne'), hblockSize, htier.location] at hruns
  simp only [Program.bind_assoc] at hruns
  rcases @located_run_createBase _ _ blocks _ _ _ regionSize maxMemBlocks allowOverwrite
      htier.stash_ne_nil hlocated hmissing with
    ⟨base, created, hreturned, hdirectory⟩ | ⟨created, hexited, hkept⟩
  · rw [Program.run_bind_of_returned hreturned] at hruns
    simp only [PrivateerObject.getLast?_addManager, pure, Program.finish_bind] at hruns
    cases hruns
    exact ⟨nofun, fun _ _ => hdirectory⟩
  · rw [Program.run_bind_of_exited hexited] at hruns
    cases hruns
    exact ⟨nofun, hkept⟩

/-! ## One step -/

/-- The version that a request commits to: `msync` and `close` write the version of their
session. -/
def VersionsRequest.commits (state : VersionsState Hash) : VersionsRequest Hash → Set Path
  | .start _ _ _ _ => ∅
  | .perform session (.msync _) => {version | state.version session = some version}
  | .perform _ _ => ∅
  | .close session _ => {version | state.version session = some version}
  | .kill _ => ∅

/-- The version that a request makes. -/
def VersionsRequest.creates : VersionsRequest Hash → Set Path
  | .start _ object opening _ => opening.creates object
  | .perform _ (.snapshot version _) => {version}
  | .perform _ _ => ∅
  | .close _ _ => ∅
  | .kill _ => ∅

section Step

variable {state next : VersionsState Hash} {request : VersionsRequest Hash} {version : Path}

omit [DecidableEq Hash] in
theorem VersionsRequest.writes_cases (hwrites : version ∈ request.writes state) :
    version ∈ request.commits state ∨ version ∈ request.creates := by
  cases request with
  | start session object opening address => exact .inr hwrites
  | perform session operation =>
      obtain ⟨manager, hmanager, hversion⟩ := hwrites
      cases operation with
      | read offset => cases hversion
      | write offset byte => cases hversion
      | msync schedule => exact .inl (Option.map_eq_some_iff.mpr ⟨manager, hmanager, hversion.symm⟩)
      | snapshot version schedule => exact .inr hversion
  | close session schedule =>
      obtain ⟨manager, hmanager, hversion⟩ := hwrites
      exact .inl (Option.map_eq_some_iff.mpr ⟨manager, hmanager, hversion.symm⟩)
  | kill session => cases hwrites

omit [DecidableEq Hash] in
theorem VersionsState.After.files_eq {session : ℕ} {outcome : Outcome _}
    (hafter : state.After session files' outcome next) (hdefined : outcome ≠ .undefined) :
    next.files = files' := by
  cases outcome with
  | returned survivor => exact congrArg VersionsState.files hafter
  | exited => exact congrArg VersionsState.files hafter
  | undefined => exact absurd rfl hdefined

/-- No version is made where there is one. -/
theorem Opening.run_program_of_exists {object : PrivateerObject Hash} {address : ℕ}
    {opening : Opening} (hpos : 0 < blocks.blockSize)
    (hallowed : opening.Allowed blocks object files) (hconsistent : blocks.Consistent files)
    (hversion : version ∈ opening.creates object) (htable : (files.metadata version).isSome) :
    (opening.program blocks.build object address).run FileSystem.answer files =
      (.exited, files) := by
  have hdirectory := hconsistent.housed version htable
  cases opening with
  | create name regionSize maxMemBlocks allowOverwrite =>
      cases hversion
      obtain ⟨hblockSize, honce⟩ := hallowed
      cases allowOverwrite with
      | true =>
          rw [honce rfl] at htable
          cases htable
      | false =>
          refine Program.run_bind_of_exited ?_
          unfold PrivateerObject.create SigactionVirtualMemoryManager.create
            VirtualMemoryManagerBase.create
          rw [if_neg (hblockSize ▸ hpos.ne')]
          simp [createVersionMetadata, FileSystem.answer, hdirectory, Program.run]
  | «open» name maxMemBlocks readOnly => cases hversion
  | openImmutable name newVersion maxMemBlocks =>
      cases hversion
      refine Program.run_bind_of_exited ?_
      cases hsource : files.directories (.path (object.versionPath name)) with
      | true => simp [PrivateerObject.openImmutable, FileSystem.answer, hsource, hdirectory,
          Program.run]
      | false => simp [PrivateerObject.openImmutable, FileSystem.answer, hsource, Program.run]

/-- Where a version is there, a request that would make it leaves the files alone. -/
theorem VersionsStep.files_eq_of_exists (hpos : 0 < blocks.blockSize)
    (hconsistent : blocks.Consistent state.files)
    (hstep : VersionsStep blocks runToEnd state request next)
    (hversion : version ∈ request.creates) (htable : (state.files.metadata version).isSome) :
    next.files = state.files := by
  cases request with
  | start session object opening address =>
      obtain ⟨-, -, hallowed, outcome, files', hends, hafter⟩ := hstep
      have hexited : (do return some (← opening.program blocks.build object address) :
          StorageProgram Hash _).run FileSystem.answer state.files = (.exited, state.files) :=
        Program.run_bind_of_exited (opening.run_program_of_exists hpos hallowed hconsistent
          hversion htable)
      cases hexited.symm.trans hends
      exact hafter.files_eq fun hundefined => by cases hundefined
  | perform session operation =>
      obtain ⟨manager, -, -, outcome, files', hends, hafter⟩ := hstep
      cases operation with
      | snapshot name schedule =>
          cases hversion
          have hdirectory := hconsistent.housed version htable
          have hsnapshot : (manager.snapshot blocks.build version schedule).run FileSystem.answer
              state.files = (.returned (false, manager), state.files) := by
            simp [SigactionVirtualMemoryManager.snapshot, FileSystem.answer, hdirectory, htable]
          have hperform : (manager.perform blocks.build (.snapshot version schedule)).run
              FileSystem.answer state.files = (.returned ([], manager), state.files) :=
            Program.run_bind_of_returned hsnapshot
          have hreturned := (Program.run_bind_of_returned hperform).symm.trans hends
          cases hreturned
          exact hafter.files_eq fun hundefined => by cases hundefined
      | read offset => cases hversion
      | write offset byte => cases hversion
      | msync schedule => cases hversion
  | close session schedule => cases hversion
  | kill session => cases hversion

/-- The state between two public operations: the sessions are orderly, and the blocks
directory is there for every version. -/
structure VersionsState.Settled (blocks : BlocksDirectory Hash) (state : VersionsState Hash) :
    Prop where
  orderly : state.Orderly blocks
  located : blocks.Located state.files

theorem VersionsStep.killedAnywhere (hstep : VersionsStep blocks runToEnd state request next) :
    VersionsStep blocks killedAnywhere state request next := by
  cases request with
  | start session object opening address =>
      obtain ⟨hfree, htier, hallowed, outcome, files', hends, hafter⟩ := hstep
      exact ⟨hfree, htier, hallowed, outcome, files', killedAnywhere_of_runToEnd hends, hafter⟩
  | perform session operation =>
      obtain ⟨manager, hmanager, hwithin, outcome, files', hends, hafter⟩ := hstep
      exact ⟨manager, hmanager, hwithin, outcome, files', killedAnywhere_of_runToEnd hends, hafter⟩
  | close session schedule =>
      obtain ⟨manager, hmanager, outcome, files', hends, hafter⟩ := hstep
      exact ⟨manager, hmanager, outcome, files', killedAnywhere_of_runToEnd hends, hafter⟩
  | kill session => exact hstep

/-- Only the first version of a datastore grounds it. -/
theorem VersionsState.Settled.metadata_of_grounds (hsettled : state.Settled blocks)
    (hgrounds : request.Grounds blocks state) (version : Path) :
    state.files.metadata version = none := by
  rw [← Option.not_isSome_iff_eq_none]
  intro htable
  have hdirectory := hsettled.located version htable
  cases request with
  | start session object opening address =>
      cases opening with
      | create name regionSize maxMemBlocks allowOverwrite => exact hgrounds hdirectory
      | «open» name maxMemBlocks readOnly => exact hgrounds
      | openImmutable name newVersion maxMemBlocks => exact hgrounds
  | perform session operation => exact hgrounds
  | close session schedule => exact hgrounds
  | kill session => exact hgrounds

/-- A request that runs to its end keeps the state settled. -/
theorem VersionsState.Settled.step (hsound : blocks.build.Sound) (hpos : 0 < blocks.blockSize)
    (hsettled : state.Settled blocks) (hstep : VersionsStep blocks runToEnd state request next) :
    next.Settled blocks := by
  obtain ⟨horderly, hdevelops, -⟩ := hsettled.orderly.step hsound hpos hstep.killedAnywhere
  refine ⟨horderly, ?_⟩
  rcases hdevelops.located with hgrounds | hkept
  · have hmissing := hsettled.metadata_of_grounds hgrounds
    cases request with
    | start session object opening address =>
        cases opening with
        | create version regionSize maxMemBlocks allowOverwrite =>
            obtain ⟨-, htier, hallowed, outcome, files', hends, hafter⟩ := hstep
            obtain ⟨hdefined, hlocated⟩ := located_run_create hpos htier hallowed.1
              hsettled.located (hmissing _) hends
            rwa [hafter.files_eq hdefined]
        | «open» version maxMemBlocks readOnly => exact hgrounds.elim
        | openImmutable version newVersion maxMemBlocks => exact hgrounds.elim
    | perform session operation => exact hgrounds.elim
    | close session schedule => exact hgrounds.elim
    | kill session => exact hgrounds.elim
  · exact hkept hsettled.located

/-- What a version denotes changes by a commit to it, or where there was none. -/
theorem VersionsState.Settled.denotedBlocks_cases (hsound : blocks.build.Sound)
    (hpos : 0 < blocks.blockSize) (hsettled : state.Settled blocks)
    (hstep : VersionsStep blocks runToEnd state request next) (version : Path) :
    denotedBlocks blocks.build next.files version =
        denotedBlocks blocks.build state.files version ∨
      version ∈ request.commits state ∨
        version ∈ request.creates ∧ denotedBlocks blocks.build state.files version = none := by
  have hconsistent := hsettled.orderly.consistent
  have hdevelops := (hsettled.orderly.step hsound hpos hstep.killedAnywhere).2.1
  by_cases hwrites : version ∈ request.writes state
  · rcases VersionsRequest.writes_cases hwrites with hcommits | hcreates
    · exact .inr (.inl hcommits)
    · cases htable : state.files.metadata version with
      | none => exact .inr (.inr ⟨hcreates, denotedBlocks_of_missing htable⟩)
      | some table =>
          have hexists : (state.files.metadata version).isSome := by
            rw [htable]
            rfl
          rw [hstep.files_eq_of_exists hpos hconsistent hcreates hexists]
          exact .inl rfl
  · refine .inl ?_
    by_cases hgrounds : request.Grounds blocks state
    · have hmissing := hsettled.metadata_of_grounds hgrounds version
      have hmissing' := (hdevelops.others version hwrites).metadata.trans hmissing
      rw [denotedBlocks_of_missing hmissing, denotedBlocks_of_missing hmissing']
    · exact hdevelops.denotedBlocks_eq hconsistent hgrounds hwrites

/-- A copy of a version that is returned denotes what the version does. -/
theorem VersionsStep.denotedBlocks_openImmutable (hpos : 0 < blocks.blockSize)
    (hconsistent : blocks.Consistent state.files) {session address maxMemBlocks : ℕ}
    {object : PrivateerObject Hash} {newVersion : Path}
    (hstep : VersionsStep blocks runToEnd state
      (.start session object (.openImmutable version newVersion maxMemBlocks) address) next)
    (hreturned : (next.sessions session).isSome) :
    denotedBlocks blocks.build next.files (object.versionPath newVersion) =
      denotedBlocks blocks.build state.files (object.versionPath version) := by
  obtain ⟨-, htier, hallowed, outcome, files', hends, hafter⟩ := hstep
  let opening : Opening := .openImmutable version newVersion maxMemBlocks
  have hensures : (blocks.versions (opening.creates object) (opening.Grounds blocks
      state.files)).ensures
        (do return some (← opening.program blocks.build object address))
        (fun _ _ files' => opening.Copies object state.files files')
        (holding ∅ (opening.creates object)) state.files :=
    versions_bind (opening.versions_program hpos htier hconsistent hallowed version_mem_holding)
      fun _ _ _ hcopies _ => versions_finish hcopies.2.2
  obtain ⟨hguarantee, hdefined, hcopies⟩ :=
    Contract.runsTo_of_ensures_guarantee hensures (killedAnywhere_of_runToEnd hends)
  have hfiles := hafter.files_eq hdefined
  have hdevelops := hguarantee.promised
  cases outcome with
  | returned survivor =>
      obtain ⟨owned', hcopied, -⟩ := hcopies survivor rfl
      rw [hfiles]
      exact hconsistent.denotedBlocks_eq hdevelops.tolerates hcopied
        (hdevelops.granularity.resolve_left id)
  | exited =>
      have hnone : next.sessions session = none := by
        rw [show next = _ from hafter]
        exact Function.update_self _ _ _
      rw [hnone] at hreturned
      cases hreturned
  | undefined => exact absurd rfl hdefined

end Step

/-! ## Whole runs -/

section Runs

variable {state : VersionsState Hash} {version : Path}
variable {trace later : List (VersionsRequest Hash × VersionsState Hash)}

theorem VersionsState.settled_start (hconsistent : blocks.Consistent files)
    (hlocated : blocks.Located files) : VersionsState.Settled blocks ⟨files, fun _ => none⟩ :=
  ⟨orderly_start hconsistent, hlocated⟩

/-- While nothing is committed to a version, it denotes what it did. -/
theorem VersionsState.Settled.denotedBlocks_run (hsound : blocks.build.Sound)
    (hpos : 0 < blocks.blockSize) (hsettled : state.Settled blocks)
    (hrun : Run (VersionsStep blocks runToEnd) state later)
    (huncommitted : Run.Each (fun state request => version ∉ request.commits state) state later)
    (hdenotes : (denotedBlocks blocks.build state.files version).isSome) :
    ∀ final ∈ Run.states state later, denotedBlocks blocks.build final.files version =
      denotedBlocks blocks.build state.files version := by
  have hkeep : ∀ between request next, between.Settled blocks ∧
      denotedBlocks blocks.build between.files version =
        denotedBlocks blocks.build state.files version →
      version ∉ request.commits between → VersionsStep blocks runToEnd between request next →
        next.Settled blocks ∧ denotedBlocks blocks.build next.files version =
          denotedBlocks blocks.build state.files version := by
    rintro between request next ⟨hbetween, hsame⟩ huncommitted hstep
    refine ⟨hbetween.step hsound hpos hstep, ?_⟩
    rcases hbetween.denotedBlocks_cases hsound hpos hstep version with
      hkept | hcommits | ⟨-, hnone⟩
    · exact hkept.trans hsame
    · exact absurd hcommits huncommitted
    · rw [← hsame, hnone] at hdenotes
      cases hdenotes
  intro final hfinal
  exact (hrun.forall_states hkeep ⟨hsettled, rfl⟩ huncommitted final hfinal).2

/-- Versions are isolated: what a version denotes changes only by `msync` or `close` of a
session on it, or when it is made.  A copy starts as what was copied, and nothing that is
done to copies or snapshots changes the original. -/
theorem versions_isolated (hsound : blocks.build.Sound) (hpos : 0 < blocks.blockSize)
    (hconsistent : blocks.Consistent files) (hlocated : blocks.Located files)
    (hrun : Run (VersionsStep blocks runToEnd) ⟨files, fun _ => none⟩ trace) :
    ∀ state ∈ Run.states ⟨files, fun _ => none⟩ trace,
      (∀ request next, VersionsStep blocks runToEnd state request next →
        (∀ version, denotedBlocks blocks.build next.files version =
            denotedBlocks blocks.build state.files version ∨
          version ∈ request.commits state ∨
            version ∈ request.creates ∧ denotedBlocks blocks.build state.files version = none) ∧
        ∀ session version, next.version session = some version →
          request.Starts session version ∨ state.version session = some version) ∧
      (∀ session object version newVersion maxMemBlocks address next,
        VersionsStep blocks runToEnd state
          (.start session object (.openImmutable version newVersion maxMemBlocks) address) next →
        (next.sessions session).isSome →
          denotedBlocks blocks.build next.files (object.versionPath newVersion) =
            denotedBlocks blocks.build state.files (object.versionPath version)) ∧
      ∀ version later, Run (VersionsStep blocks runToEnd) state later →
        Run.Each (fun state request => version ∉ request.commits state) state later →
        (denotedBlocks blocks.build state.files version).isSome →
          ∀ final ∈ Run.states state later, denotedBlocks blocks.build final.files version =
            denotedBlocks blocks.build state.files version := by
  have hsettled := hrun.forall_states_of_step
    (fun state request next hsettled hstep => hsettled.step hsound hpos hstep)
    (VersionsState.settled_start hconsistent hlocated)
  intro state hstate
  have hstate' := hsettled state hstate
  refine ⟨fun request next hstep => ⟨?_, ?_⟩, ?_, ?_⟩
  · exact hstate'.denotedBlocks_cases hsound hpos hstep
  · exact (hstate'.orderly.step hsound hpos hstep.killedAnywhere).2.2
  · intro session object version newVersion maxMemBlocks address next hstep hreturned
    exact hstep.denotedBlocks_openImmutable hpos hstate'.orderly.consistent hreturned
  · intro version later hlater huncommitted hdenotes
    exact hstate'.denotedBlocks_run hsound hpos hlater huncommitted hdenotes

/-- A copy of a committed version that is written and closed. -/
theorem versions_isolated_copy :
    ∃ trace later : List (VersionsRequest (Option (List Byte)) ×
        VersionsState (Option (List Byte))),
      trace.map Prod.fst = [.start 0 smallObject (.create ['v'] 1 1 false) 4096,
        .perform 0 (.write 0 7), .close 0 ⟨[], []⟩] ∧
      later.map Prod.fst = [.start 1 smallObject (.openImmutable ['v'] ['w'] 1) 4096,
        .perform 1 (.write 0 9), .close 1 ⟨[], []⟩] ∧
      ∀ final ∈ Run.states (Run.last ⟨smallFiles, fun _ => none⟩ trace) later,
        denotedBlocks smallDatastore.build final.files (smallObject.versionPath ['v']) =
          denotedBlocks smallDatastore.build
            (Run.last ⟨smallFiles, fun _ => none⟩ trace).files (smallObject.versionPath ['v']) := by
  -- What the theorem says of two such runs; the states are found with the runs below.
  have hisolated : ∀ trace later,
      Run (VersionsStep smallDatastore runToEnd) ⟨smallFiles, fun _ => none⟩ trace →
      Run (VersionsStep smallDatastore runToEnd) (Run.last ⟨smallFiles, fun _ => none⟩ trace)
        later →
      Run.Each (fun state request => smallObject.versionPath ['v'] ∉ request.commits state)
        (Run.last ⟨smallFiles, fun _ => none⟩ trace) later →
      (denotedBlocks smallDatastore.build (Run.last ⟨smallFiles, fun _ => none⟩ trace).files
        (smallObject.versionPath ['v'])).isSome → _ :=
    fun trace later hrun hlater huncommitted hdenotes =>
      (versions_isolated Build.transparent_sound (by decide) smallFiles_consistent nofun hrun
        _ Run.last_mem_states).2.2 _ later hlater huncommitted hdenotes
  refine ⟨[(_, ⟨_, _⟩), (_, ⟨_, _⟩), (_, ⟨_, _⟩)], [(_, ⟨_, _⟩), (_, ⟨_, _⟩), (_, ⟨_, _⟩)],
    rfl, rfl, hisolated _ _
      (.cons ⟨rfl, smallObject_onTier, ⟨rfl, nofun⟩, _, _, rfl, rfl⟩
        (.cons ⟨_, rfl, by decide, _, _, rfl, rfl⟩ (.cons ⟨_, rfl, _, _, rfl, rfl⟩ .nil)))
      (.cons ⟨rfl, smallObject_onTier, trivial, _, _, rfl, rfl⟩
        (.cons ⟨_, rfl, by decide, _, _, rfl, rfl⟩ (.cons ⟨_, rfl, _, _, rfl, rfl⟩ .nil)))
      ⟨nofun, nofun, ?_, trivial⟩ rfl⟩
  exact fun hcommits => by cases hcommits

end Runs

end Privateer
