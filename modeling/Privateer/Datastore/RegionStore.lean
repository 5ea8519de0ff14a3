import Privateer.Sigaction.WorkingCopies
import Privateer.Datastore.Isolation
import Privateer.Datastore.OpenableVersions

/-!
# Datastores that show a store of byte regions

Seen from its sessions, a datastore is a store of named regions: a version that is created
holds zeros, one that is opened is checked out, reads and writes work on the copy, `msync` and
`close` commit it, and `snapshot` publishes it.  Each request on a session that is there does to
the datastore what it does to the store, provided that a commit finds the blocks above the
highest resident one in its table.
-/

namespace Privateer

open BlocksDirectory (versions_bind versions_finish)
open SigactionVirtualMemoryManager (Coherent Live Works)
open VirtualMemoryManagerBase (Backing SameSession)

variable {Hash : Type}

abbrev RegionStore := VersionStore Path ByteRegion

/-! ## What requests do to a store of regions -/

/-- A version that is created has room for the bytes that were asked for, and zeros. -/
def Opening.Effect (blockSize : ℕ) (object : PrivateerObject Hash) (session : ℕ)
    (store store' : RegionStore) : Opening → Prop
  | .create version regionSize _ _ =>
      let name := object.versionPath version
      let region := ByteRegion.zeros ((regionSize + (blockSize - 1)) / blockSize)
      name ∉ store.taken ∧
        store' = (store.put name region).checkOut session ⟨name, region, false⟩
  | .open version _ readOnly =>
      let name := object.versionPath version
      ∃ region, store.versions name = some region ∧
        store' = store.checkOut session ⟨name, region, readOnly⟩
  | .openImmutable version newVersion _ =>
      let name := object.versionPath newVersion
      name ∉ store.taken ∧ ∃ region, store.versions (object.versionPath version) = some region ∧
        store' = (store.put name region).checkOut session ⟨name, region, false⟩

/-- What may keep a session from being started: the directory of a new version may be in the
way, and no region is empty. -/
def Opening.MayFail (object : PrivateerObject Hash) (store : RegionStore) : Opening → Prop
  | .create _ regionSize _ allowOverwrite => allowOverwrite = false ∨ regionSize = 0
  | .open version _ _ => ∀ region, store.versions (object.versionPath version) = some region →
      region.numBlocks = 0
  | .openImmutable _ _ _ => True

/-- A snapshot under a name in use does nothing. -/
def VersionsRequest.Effect (blockSize : ℕ) (store : RegionStore) (store' : RegionStore) :
    VersionsRequest Hash → Prop
  | .start session object opening _ =>
      opening.Effect blockSize object session store store' ∨
        opening.MayFail object store ∧ store.Fails (opening.creates object) store'
  | .perform _ (.read _) => store' = store
  | .perform session (.write offset byte) =>
      store' = store.edit session (ByteRegion.write offset byte)
  | .perform session (.msync _) => store' = store.commit session
  | .perform session (.snapshot version _) =>
      (version ∈ store.taken ∧ store' = store) ∨
        version ∉ store.taken ∧ store' = store.publish session version
  | .close session _ => store' = (store.commit session).drop session
  | .kill session => store' = store.drop session

/-- The session that a request is for. -/
def VersionsRequest.session : VersionsRequest Hash → ℕ
  | .start session _ _ _ => session
  | .perform session _ => session
  | .close session _ => session
  | .kill session => session

variable [DecidableEq Hash]

/-- The condition on a request under which the store follows it. -/
def VersionsRequest.Covered (blocks : BlocksDirectory Hash) (state : VersionsState Hash) :
    VersionsRequest Hash → Prop
  | .start _ object opening _ => opening.Records object state.files
  | .perform _ (.read _) => True
  | .perform _ (.write _ _) => True
  | .perform session (.msync _) => ∀ manager, state.sessions session = some manager →
      manager.Covers blocks.build state.files
  | .perform session (.snapshot version _) => state.files.metadata version = none →
      ∀ manager, state.sessions session = some manager →
        manager.CoversZeros blocks.build state.files
  | .close session _ => ∀ manager, state.sessions session = some manager →
      manager.Covers blocks.build state.files
  | .kill _ => True

/-! ## Datastores that show a store -/

/-- What can be seen of a datastore and its sessions: the names in use, what each version
denotes, the version of each session, and the bytes that it reads. -/
structure VersionsState.Shows (blocks : BlocksDirectory Hash) (state : VersionsState Hash)
    (store : RegionStore) : Prop where
  taken : ∀ version, version ∈ store.taken ↔ (state.files.metadata version).isSome
  versions : ∀ version, denotedBlocks blocks.build state.files version =
    (store.versions version).map (ByteRegion.denoted blocks.blockSize)
  sessions : ∀ session, state.version session = (store.copies session).map WorkingCopy.name
  reads : ∀ session manager copy offset, state.sessions session = some manager →
    store.copies session = some copy → offset < copy.content.numBlocks * blocks.blockSize →
      ∃ manager' files', (manager.perform blocks.build (.read offset)).run FileSystem.answer
        state.files = (.returned ([copy.content.bytes offset], manager'), files')

/-- The same from inside: every session works on its copy. -/
structure VersionsState.Follows (blocks : BlocksDirectory Hash) (state : VersionsState Hash)
    (store : RegionStore) : Prop where
  settled : state.Settled blocks
  kept : store.Kept
  taken : ∀ version, version ∈ store.taken ↔ (state.files.metadata version).isSome
  versions : ∀ version, denotedBlocks blocks.build state.files version =
    (store.versions version).map (ByteRegion.denoted blocks.blockSize)
  copies : ∀ session, Option.Rel (Works blocks state.files) (state.sessions session)
    (store.copies session)

variable {blocks : BlocksDirectory Hash} {files files' : FileSystem Hash}
variable {state next : VersionsState Hash} {request : VersionsRequest Hash}
variable {store store' : RegionStore} {session : ℕ} {version : Path}
variable {manager : SigactionVirtualMemoryManager Hash} {copy : WorkingCopy Path ByteRegion}

theorem VersionsState.Follows.shows (hsound : blocks.build.Sound)
    (hcompression : blocks.build.useCompression = false) (hfollows : state.Follows blocks store) :
    state.Shows blocks store where
  taken := hfollows.taken
  versions := hfollows.versions
  sessions := by
    intro session
    have hcopy := hfollows.copies session
    unfold VersionsState.version
    generalize state.sessions session = manager at hcopy
    generalize store.copies session = copy at hcopy
    cases hcopy with
    | none => rfl
    | some hworks => exact congrArg some hworks.name.symm
  reads := by
    intro session manager copy offset hmanager hcopy hoffset
    have hrelated := hfollows.copies session
    rw [hmanager, hcopy] at hrelated
    cases hrelated with
    | some hworks =>
        rw [hworks.numBlocks] at hoffset
        obtain ⟨manager', files', hrun, -⟩ := hworks.run_read hsound hcompression hoffset
        exact ⟨manager', files', hrun⟩

/-! ## What a request leaves alone -/

/-- A program of one session leaves the others, and the contents of their regions. -/
theorem VersionsState.Orderly.others_after (horderly : state.Orderly blocks)
    {targets : Set Path} {grounds : Prop} {stashFiles : Set Resource}
    {program : StorageProgram Hash (Option (SigactionVirtualMemoryManager Hash))}
    {post : Option (SigactionVirtualMemoryManager Hash) → Set Resource → FileSystem Hash → Prop}
    (hensures : (blocks.versions targets grounds).ensures program post
      (holding stashFiles targets) state.files)
    {outcome : Outcome (Option (SigactionVirtualMemoryManager Hash))}
    (hruns : killedAnywhere program state.files outcome files')
    (hafter : state.After session files' outcome next) {other : ℕ} (hother : other ≠ session)
    (hdisjoint : ∀ manager, state.sessions other = some manager →
      Disjoint manager.blockStorage.stashFiles stashFiles) :
    next.sessions other = state.sessions other ∧ ∀ manager, state.sessions other = some manager →
      (blocks.contract True).Rely manager.blockStorage.stashFiles state.files next.files := by
  obtain ⟨hguarantee, hdefined, -⟩ := Contract.runsTo_of_ensures_guarantee hensures hruns
  have hfiles := hafter.files_eq hdefined
  refine ⟨?_, fun manager hmanager => ?_⟩
  · cases outcome with
    | returned survivor =>
        rw [show next = _ from hafter]
        exact Function.update_of_ne hother _ _
    | exited =>
        rw [show next = _ from hafter]
        exact Function.update_of_ne hother _ _
    | undefined => exact absurd rfl hdefined
  · obtain ⟨contents, hheld⟩ := (horderly.live other manager hmanager).held
    rw [hfiles]
    exact ⟨hguarantee.promised.tolerates, hguarantee.allocated, fun resource hresource =>
      hguarantee.others resource (hheld.coherent.backing.allocated hresource)
        (Set.disjoint_left.mp (disjoint_holding (hdisjoint manager hmanager)) hresource)⟩

/-- A request leaves the sessions that it is not for, and the contents of their regions. -/
theorem VersionsState.Orderly.others_rely (hsound : blocks.build.Sound)
    (hpos : 0 < blocks.blockSize) (horderly : state.Orderly blocks)
    (hstep : VersionsStep blocks killedAnywhere state request next) {other : ℕ}
    (hother : other ≠ request.session) :
    next.sessions other = state.sessions other ∧ ∀ manager, state.sessions other = some manager →
      (blocks.contract True).Rely manager.blockStorage.stashFiles state.files next.files := by
  cases request with
  | start session object opening address =>
      obtain ⟨-, htier, hallowed, outcome, files', hends, hafter⟩ := hstep
      have hensures : (blocks.versions (opening.creates object)
          (opening.Grounds blocks state.files)).ensures
            (do return some (← opening.program blocks.build object address))
            (fun _ _ _ => True) (holding ∅ (opening.creates object)) state.files :=
        versions_bind (opening.versions_program hpos htier horderly.consistent hallowed
          version_mem_holding) fun _ _ _ _ _ => versions_finish trivial
      exact horderly.others_after hensures hends hafter hother fun _ _ => Set.disjoint_empty _
  | perform session operation =>
      obtain ⟨manager, hmanager, hwithin, outcome, files', hends, hafter⟩ := hstep
      have hsubset : manager.blockStorage.stashFiles ⊆
          holding manager.blockStorage.stashFiles (operation.writes manager) :=
        Set.subset_union_left
      have hlive := (horderly.live session manager hmanager).hold hsubset
      have hensures : (blocks.versions (operation.writes manager) False).ensures
          (do return some (← manager.perform blocks.build operation).2)
          (fun _ _ _ => True)
          (holding manager.blockStorage.stashFiles (operation.writes manager)) state.files :=
        versions_bind (hlive.versions_perform hsound hwithin version_mem_holding
          horderly.consistent) fun _ _ _ _ _ => versions_finish trivial
      exact horderly.others_after hensures hends hafter hother fun manager' hmanager' =>
        horderly.disjoint other session manager' manager hother hmanager' hmanager
  | close session schedule =>
      obtain ⟨manager, hmanager, outcome, files', hends, hafter⟩ := hstep
      have hsubset : manager.blockStorage.stashFiles ⊆
          holding manager.blockStorage.stashFiles {manager.versionMetadataPath} :=
        Set.subset_union_left
      have hlive := (horderly.live session manager hmanager).hold hsubset
      have hensures : (blocks.versions {manager.versionMetadataPath} False).ensures
          (do
            manager.close blocks.build schedule
            return (none : Option (SigactionVirtualMemoryManager Hash)))
          (fun _ _ _ => True)
          (holding manager.blockStorage.stashFiles {manager.versionMetadataPath}) state.files :=
        versions_bind (hlive.versions_close hsound version_mem_holding rfl horderly.consistent
          schedule) fun _ _ _ _ _ => versions_finish trivial
      exact horderly.others_after hensures hends hafter hother fun manager' hmanager' =>
        horderly.disjoint other session manager' manager hother hmanager' hmanager
  | kill session =>
      obtain rfl := hstep
      exact ⟨Function.update_of_ne hother _ _, fun _ _ => Contract.Rely.refl _ _⟩

/-- A request leaves the versions alone that it does not write. -/
theorem VersionsState.Settled.elsewhere (hsound : blocks.build.Sound)
    (hpos : 0 < blocks.blockSize) (hsettled : state.Settled blocks)
    (hstep : VersionsStep blocks killedAnywhere state request next)
    (hversion : version ∉ request.writes state) :
    next.files.metadata version = state.files.metadata version ∧
      denotedBlocks blocks.build next.files version =
        denotedBlocks blocks.build state.files version := by
  have hdevelops := (hsettled.orderly.step hsound hpos hstep).2.1
  have hmetadata := (hdevelops.others version hversion).metadata
  refine ⟨hmetadata, ?_⟩
  by_cases hgrounds : request.Grounds blocks state
  · have hmissing := hsettled.metadata_of_grounds hgrounds version
    rw [denotedBlocks_of_missing hmissing, denotedBlocks_of_missing (hmetadata.trans hmissing)]
  · exact hdevelops.denotedBlocks_eq hsettled.orderly.consistent hgrounds hversion

/-! ## One step -/

/-- What a request does to its session and to the versions that it writes decides. -/
theorem VersionsState.Follows.of_settled (hsound : blocks.build.Sound)
    (hpos : 0 < blocks.blockSize) (hfollows : state.Follows blocks store)
    (hstep : VersionsStep blocks killedAnywhere state request next)
    (hsettled : next.Settled blocks) (hkept : store'.Kept)
    (hothers : ∀ other, other ≠ request.session → store'.copies other = store.copies other)
    (hcopy : Option.Rel (Works blocks next.files) (next.sessions request.session)
      (store'.copies request.session))
    (helsewhere : ∀ version, version ∉ request.writes state →
      (version ∈ store'.taken ↔ version ∈ store.taken) ∧
        store'.versions version = store.versions version)
    (hwritten : ∀ version ∈ request.writes state,
      (version ∈ store'.taken ↔ (next.files.metadata version).isSome) ∧
        denotedBlocks blocks.build next.files version =
          (store'.versions version).map (ByteRegion.denoted blocks.blockSize)) :
    next.Follows blocks store' where
  settled := hsettled
  kept := hkept
  taken := by
    intro version
    by_cases hwrites : version ∈ request.writes state
    · exact (hwritten version hwrites).1
    · rw [(helsewhere version hwrites).1, hfollows.taken,
        (hfollows.settled.elsewhere hsound hpos hstep hwrites).1]
  versions := by
    intro version
    by_cases hwrites : version ∈ request.writes state
    · exact (hwritten version hwrites).2
    · rw [(helsewhere version hwrites).2, ← hfollows.versions,
        (hfollows.settled.elsewhere hsound hpos hstep hwrites).2]
  copies := by
    intro other
    by_cases hother : other = request.session
    · rw [hother]
      exact hcopy
    · obtain ⟨hsame, hrely⟩ := hfollows.settled.orderly.others_rely hsound hpos hstep hother
      have hold := hfollows.copies other
      rw [hothers other hother, hsame]
      revert hold hrely
      generalize state.sessions other = manager
      generalize store.copies other = copy
      intro hrely hold
      cases hold with
      | none => exact .none
      | some hworks => exact .some (hworks.rely (hrely _ rfl))

/-- The same for a request that runs to its end. -/
theorem VersionsState.Follows.of_step (hsound : blocks.build.Sound) (hpos : 0 < blocks.blockSize)
    (hfollows : state.Follows blocks store)
    (hstep : VersionsStep blocks runToEnd state request next) (hkept : store'.Kept)
    (hothers : ∀ other, other ≠ request.session → store'.copies other = store.copies other)
    (hcopy : Option.Rel (Works blocks next.files) (next.sessions request.session)
      (store'.copies request.session))
    (helsewhere : ∀ version, version ∉ request.writes state →
      (version ∈ store'.taken ↔ version ∈ store.taken) ∧
        store'.versions version = store.versions version)
    (hwritten : ∀ version ∈ request.writes state,
      (version ∈ store'.taken ↔ (next.files.metadata version).isSome) ∧
        denotedBlocks blocks.build next.files version =
          (store'.versions version).map (ByteRegion.denoted blocks.blockSize)) :
    next.Follows blocks store' :=
  hfollows.of_settled hsound hpos hstep.killedAnywhere
    (hfollows.settled.step hsound hpos hstep) hkept hothers hcopy helsewhere hwritten

/-! ## Sessions that are there -/

theorem VersionsState.Follows.exists_copy (hfollows : state.Follows blocks store)
    (hmanager : state.sessions session = some manager) :
    ∃ copy, store.copies session = some copy ∧ Works blocks state.files manager copy := by
  have hrelated := hfollows.copies session
  rw [hmanager] at hrelated
  revert hrelated
  generalize store.copies session = copy
  intro hrelated
  cases hrelated with
  | some hworks => exact ⟨_, rfl, hworks⟩

/-- A version that denotes something has all its files. -/
theorem BlocksDirectory.Consistent.intact_of_denotes (hconsistent : blocks.Consistent files)
    (hdenotes : (denotedBlocks blocks.build files version).isSome) :
    ∃ capacity entries, blocks.Intact files version capacity entries := by
  unfold denotedBlocks at hdenotes
  rw [Option.isSome_map] at hdenotes
  obtain ⟨⟨blocksPath, blockSize, capacity, entries⟩, hread⟩ :=
    Option.isSome_iff_exists.mp hdenotes
  obtain ⟨hlocation, hblockSize, hentries⟩ := hconsistent.of_readVersion hread
  cases hlocation
  cases hblockSize
  exact ⟨capacity, entries, BlocksDirectory.readVersion_eq_some_iff.mp hread,
    hconsistent.housed version (by rw [hentries]; rfl), hconsistent.entries version _ hentries⟩

/-- The version of a session has all its files. -/
theorem VersionsState.Follows.intact (hfollows : state.Follows blocks store)
    (hmanager : state.sessions session = some manager) :
    ∃ entries, blocks.Intact state.files manager.versionMetadataPath manager.regionMaxCapacity
      entries := by
  obtain ⟨copy, hcopy, hworks⟩ := hfollows.exists_copy hmanager
  have hdenotes : (denotedBlocks blocks.build state.files manager.versionMetadataPath).isSome := by
    rw [hfollows.versions, Option.isSome_map, ← hworks.name]
    exact (hfollows.kept session copy hcopy).2
  obtain ⟨capacity, entries, hintact⟩ :=
    hfollows.settled.orderly.consistent.intact_of_denotes hdenotes
  have hcapacity := (hfollows.settled.orderly.live session manager hmanager).capacity
  cases hintact.capacityText.symm.trans hcapacity
  exact ⟨entries, hintact⟩

section Requests

variable {operation : Operation} {result : List Byte × SigactionVirtualMemoryManager Hash}

theorem VersionsStep.perform_returned
    (hstep : VersionsStep blocks runToEnd state (.perform session operation) next)
    (hmanager : state.sessions session = some manager)
    (hrun : (manager.perform blocks.build operation).run FileSystem.answer state.files =
      (.returned result, files')) :
    next.files = files' ∧ next.sessions session = some result.2 := by
  obtain ⟨manager', hmanager', -, outcome, final, hends, hafter⟩ := hstep
  cases hmanager.symm.trans hmanager'
  have hreturned := (Program.run_bind_of_returned hrun).symm.trans hends
  cases hreturned
  rw [show next = _ from hafter]
  exact ⟨rfl, Function.update_self _ _ _⟩

theorem VersionsStep.perform_exited
    (hstep : VersionsStep blocks runToEnd state (.perform session operation) next)
    (hmanager : state.sessions session = some manager)
    (hrun : (manager.perform blocks.build operation).run FileSystem.answer state.files =
      (.exited, files')) :
    next.sessions session = none := by
  obtain ⟨manager', hmanager', -, outcome, final, hends, hafter⟩ := hstep
  cases hmanager.symm.trans hmanager'
  have hexited := (Program.run_bind_of_exited hrun).symm.trans hends
  cases hexited
  rw [show next = _ from hafter]
  exact Function.update_self _ _ _

theorem VersionsState.Follows.read (hsound : blocks.build.Sound)
    (hcompression : blocks.build.useCompression = false) (hpos : 0 < blocks.blockSize)
    (hfollows : state.Follows blocks store) {offset : ℕ}
    (hstep : VersionsStep blocks runToEnd state (.perform session (.read offset)) next) :
    next.Follows blocks store := by
  obtain ⟨manager, hmanager, hwithin, -⟩ := id hstep
  obtain ⟨copy, hcopy, hworks⟩ := hfollows.exists_copy hmanager
  obtain ⟨manager', files', hrun, hworks'⟩ := hworks.run_read hsound hcompression hwithin
  obtain ⟨hfiles, hsession⟩ := hstep.perform_returned hmanager hrun
  refine hfollows.of_step hsound hpos hstep hfollows.kept (fun _ _ => rfl) ?_
    (fun _ _ => ⟨Iff.rfl, rfl⟩) ?_
  · rw [hfiles, VersionsRequest.session, hsession, hcopy]
    exact .some hworks'
  · rintro version ⟨_, _, hversion⟩
    cases hversion

theorem VersionsState.Follows.write (hsound : blocks.build.Sound)
    (hcompression : blocks.build.useCompression = false) (hpos : 0 < blocks.blockSize)
    (hfollows : state.Follows blocks store) {offset : ℕ} {byte : Byte}
    (hstep : VersionsStep blocks runToEnd state (.perform session (.write offset byte)) next) :
    next.Follows blocks (store.edit session (ByteRegion.write offset byte)) := by
  obtain ⟨manager, hmanager, hwithin, -⟩ := id hstep
  obtain ⟨copy, hcopy, hworks⟩ := hfollows.exists_copy hmanager
  have hnothing : ∀ version ∈ VersionsRequest.writes state
      (.perform session (.write offset byte)), False := by
    rintro version ⟨_, _, hversion⟩
    cases hversion
  unfold VersionStore.edit
  rw [hcopy]
  dsimp only
  cases hreadOnly : copy.readOnly with
  | true =>
      have hsession :=
        hstep.perform_exited hmanager (hworks.run_write_readOnly hreadOnly offset byte)
      rw [if_pos rfl]
      refine hfollows.of_step hsound hpos hstep hfollows.kept.drop
        (fun other hother => VersionStore.copies_drop_of_ne hother) ?_
        (fun _ _ => ⟨Iff.rfl, rfl⟩) fun version hversion => (hnothing version hversion).elim
      rw [VersionsRequest.session, hsession, VersionStore.copies_drop_self]
      exact .none
  | false =>
      obtain ⟨manager', files', hrun, hworks'⟩ :=
        hworks.run_write hsound hcompression hreadOnly hwithin byte
      obtain ⟨hfiles, hsession⟩ := hstep.perform_returned hmanager hrun
      obtain ⟨htaken, hversion⟩ := hfollows.kept session copy hcopy
      rw [if_neg Bool.false_ne_true, ← hreadOnly]
      refine hfollows.of_step hsound hpos hstep (hfollows.kept.checkOut htaken hversion)
        (fun other hother => VersionStore.copies_checkOut_of_ne hother) ?_
        (fun _ _ => ⟨Iff.rfl, rfl⟩) fun version hversion => (hnothing version hversion).elim
      rw [hfiles, VersionsRequest.session, hsession, VersionStore.copies_checkOut_self]
      exact .some hworks'

/-! ### Commits -/

/-- A version that was written denotes what was put under its name. -/
theorem VersionsState.Follows.of_put (hsound : blocks.build.Sound) (hpos : 0 < blocks.blockSize)
    (hfollows : state.Follows blocks store)
    (hstep : VersionsStep blocks killedAnywhere state request next)
    (hsettled : next.Settled blocks) {region : ByteRegion}
    {copies : ℕ → Option (WorkingCopy Path ByteRegion)}
    (hkept : VersionStore.Kept { store.put version region with copies := copies })
    (hothers : ∀ other, other ≠ request.session → copies other = store.copies other)
    (hcopy : Option.Rel (Works blocks next.files) (next.sessions request.session)
      (copies request.session))
    (hwrites : ∀ other, other ∈ request.writes state ↔ other = version)
    (htable : (next.files.metadata version).isSome)
    (hdenotes : denotedBlocks blocks.build next.files version =
      some (region.denoted blocks.blockSize)) :
    next.Follows blocks { store.put version region with copies := copies } := by
  refine hfollows.of_settled hsound hpos hstep hsettled hkept hothers hcopy ?_ ?_
  · intro other hother
    have hne : other ≠ version := fun hsame => hother ((hwrites other).mpr hsame)
    have htaken : other ∈ (store.put version region).taken ↔ other ∈ store.taken :=
      VersionStore.mem_taken_put_of_ne hne
    exact ⟨htaken, VersionStore.versions_put_of_ne hne⟩
  · intro other hother
    rw [(hwrites other).mp hother]
    refine ⟨iff_of_true (Set.mem_insert _ _) htable, hdenotes.trans ?_⟩
    exact congrArg (Option.map _) VersionStore.versions_put_self.symm

omit [DecidableEq Hash] in
theorem VersionsRequest.mem_writes_perform (hmanager : state.sessions session = some manager)
    (version : Path) : version ∈ VersionsRequest.writes state (.perform session operation) ↔
      version ∈ operation.writes manager := by
  constructor
  · rintro ⟨manager', hmanager', hversion⟩
    cases hmanager.symm.trans hmanager'
    exact hversion
  · exact fun hversion => ⟨manager, hmanager, hversion⟩

theorem VersionsState.Follows.msync (hsound : blocks.build.Sound)
    (hcompression : blocks.build.useCompression = false) (hpos : 0 < blocks.blockSize)
    (hfollows : state.Follows blocks store) {schedule : MsyncSchedule}
    (hstep : VersionsStep blocks runToEnd state (.perform session (.msync schedule)) next)
    (hcovers : ∀ manager, state.sessions session = some manager →
      manager.Covers blocks.build state.files) :
    next.Follows blocks (store.commit session) := by
  obtain ⟨manager, hmanager, -⟩ := id hstep
  obtain ⟨copy, hcopy, hworks⟩ := hfollows.exists_copy hmanager
  obtain ⟨entries, hintact⟩ := hfollows.intact hmanager
  obtain ⟨committed, final, hrun, hworks', htable, hdenotes⟩ :=
    hworks.run_msync hsound hcompression hintact (hcovers manager hmanager) schedule
  have hperform : (manager.perform blocks.build (.msync schedule)).run FileSystem.answer
      state.files = (.returned ([], committed), final) := Program.run_bind_of_returned hrun
  obtain ⟨hfiles, hsession⟩ := hstep.perform_returned hmanager hperform
  rw [← hworks.name] at htable hdenotes
  rw [VersionStore.commit, hcopy]
  refine hfollows.of_put hsound hpos hstep.killedAnywhere
    (hfollows.settled.step hsound hpos hstep) hfollows.kept.put (fun _ _ => rfl) ?_ ?_
    (hfiles ▸ htable) (hfiles ▸ hdenotes)
  · rw [hfiles, VersionsRequest.session, hsession, hcopy]
    exact .some hworks'
  · intro other
    rw [VersionsRequest.mem_writes_perform hmanager, hworks.name]
    exact Iff.rfl

theorem VersionsState.Follows.close (hsound : blocks.build.Sound)
    (hcompression : blocks.build.useCompression = false) (hpos : 0 < blocks.blockSize)
    (hfollows : state.Follows blocks store) {schedule : MsyncSchedule}
    (hstep : VersionsStep blocks runToEnd state (.close session schedule) next)
    (hcovers : ∀ manager, state.sessions session = some manager →
      manager.Covers blocks.build state.files) :
    next.Follows blocks ((store.commit session).drop session) := by
  obtain ⟨manager, hmanager, outcome, files', hends, hafter⟩ := id hstep
  obtain ⟨copy, hcopy, hworks⟩ := hfollows.exists_copy hmanager
  obtain ⟨entries, hintact⟩ := hfollows.intact hmanager
  obtain ⟨committed, final, hrun, hworks', htable, hdenotes⟩ :=
    hworks.run_msync hsound hcompression hintact (hcovers manager hmanager) schedule
  have hclose : (manager.close blocks.build schedule).run FileSystem.answer state.files =
      (.returned (), final) := Program.run_bind_of_returned hrun
  have hreturned := (Program.run_bind_of_returned hclose).symm.trans hends
  cases hreturned
  have hnext : next = ⟨files', Function.update state.sessions session none⟩ := hafter
  have hsession : next.sessions session = none := by
    rw [hnext]
    exact Function.update_self _ _ _
  rw [← hworks.name] at htable hdenotes
  rw [VersionStore.commit, hcopy]
  refine hfollows.of_put hsound hpos hstep.killedAnywhere
    (hfollows.settled.step hsound hpos hstep) hfollows.kept.put.drop
    (fun other hother => VersionStore.copies_drop_of_ne hother) ?_ ?_ (hnext ▸ htable)
    (hnext ▸ hdenotes)
  · rw [VersionsRequest.session, hsession, Function.update_self]
    exact .none
  · intro other
    constructor
    · rintro ⟨manager', hmanager', hversion⟩
      cases hmanager.symm.trans hmanager'
      exact hversion.trans hworks.name.symm
    · exact fun hversion => ⟨manager, hmanager, hversion.trans hworks.name⟩

/-! ### Snapshots -/

theorem VersionsState.Follows.snapshot (hsound : blocks.build.Sound)
    (hcompression : blocks.build.useCompression = false) (hpos : 0 < blocks.blockSize)
    (hfollows : state.Follows blocks store) {schedule : MsyncSchedule}
    (hstep : VersionsStep blocks runToEnd state
      (.perform session (.snapshot version schedule)) next)
    (hcovers : state.files.metadata version = none → ∀ manager,
      state.sessions session = some manager → manager.CoversZeros blocks.build state.files) :
    ∃ store', VersionsRequest.Effect blocks.blockSize store store'
      (.perform session (.snapshot version schedule) : VersionsRequest Hash) ∧
        next.Follows blocks store' := by
  obtain ⟨manager, hmanager, -⟩ := id hstep
  obtain ⟨copy, hcopy, hworks⟩ := hfollows.exists_copy hmanager
  cases htable : state.files.metadata version with
  | some table =>
      have hexists : (state.files.metadata version).isSome := by
        rw [htable]
        rfl
      have hdirectory := hfollows.settled.orderly.consistent.housed version hexists
      have hrun : (manager.snapshot blocks.build version schedule).run FileSystem.answer
          state.files = (.returned (false, manager), state.files) := by
        simp [SigactionVirtualMemoryManager.snapshot, FileSystem.answer, hdirectory, hexists]
      have hperform : (manager.perform blocks.build (.snapshot version schedule)).run
          FileSystem.answer state.files = (.returned ([], manager), state.files) :=
        Program.run_bind_of_returned hrun
      obtain ⟨hfiles, hsession⟩ := hstep.perform_returned hmanager hperform
      refine ⟨store, .inl ⟨(hfollows.taken version).mpr hexists, rfl⟩, ?_⟩
      refine hfollows.of_step hsound hpos hstep hfollows.kept (fun _ _ => rfl) ?_
        (fun _ _ => ⟨Iff.rfl, rfl⟩) fun other _ => ?_
      · rw [hfiles, VersionsRequest.session, hsession, hcopy]
        exact .some hworks
      · rw [hfiles]
        exact ⟨hfollows.taken other, hfollows.versions other⟩
  | none =>
      obtain ⟨entries, hintact⟩ := hfollows.intact hmanager
      obtain ⟨restored, final, hrun, hworks', hmade, hdenotes⟩ := hworks.run_snapshot hsound
        hcompression hintact.granularity htable (hcovers htable manager hmanager) schedule
      have hperform : (manager.perform blocks.build (.snapshot version schedule)).run
          FileSystem.answer state.files = (.returned ([], restored), final) :=
        Program.run_bind_of_returned hrun
      obtain ⟨hfiles, hsession⟩ := hstep.perform_returned hmanager hperform
      have huntaken : version ∉ store.taken := by
        rw [hfollows.taken, htable]
        exact Bool.false_ne_true
      refine ⟨_, .inr ⟨huntaken, rfl⟩, ?_⟩
      rw [VersionStore.publish, hcopy]
      refine hfollows.of_put hsound hpos hstep.killedAnywhere
        (hfollows.settled.step hsound hpos hstep) hfollows.kept.put (fun _ _ => rfl) ?_ ?_
        (hfiles ▸ hmade) (hfiles ▸ hdenotes)
      · rw [hfiles, VersionsRequest.session, hsession, hcopy]
        exact .some hworks'
      · exact fun other => VersionsRequest.mem_writes_perform hmanager other

end Requests

theorem VersionsState.Follows.kill (hsound : blocks.build.Sound) (hpos : 0 < blocks.blockSize)
    (hfollows : state.Follows blocks store)
    (hstep : VersionsStep blocks runToEnd state (.kill session) next) :
    next.Follows blocks (store.drop session) := by
  have hnext : next = ⟨state.files, Function.update state.sessions session none⟩ := hstep
  refine hfollows.of_step hsound hpos hstep hfollows.kept.drop
    (fun other hother => VersionStore.copies_drop_of_ne hother) ?_ (fun _ _ => ⟨Iff.rfl, rfl⟩)
    fun version hversion => by cases hversion
  have hsession : next.sessions session = none := by
    rw [hnext]
    exact Function.update_self _ _ _
  rw [VersionsRequest.session, hsession, VersionStore.copies_drop_self]
  exact .none

/-! ## Failing -/

/-- Whatever a version denotes is the contents of a region. -/
theorem BlocksDirectory.Consistent.exists_region (hsound : blocks.build.Sound)
    (hcompression : blocks.build.useCompression = false) (hpos : 0 < blocks.blockSize)
    (hconsistent : blocks.Consistent files) (version : Path) :
    ∃ content : Option ByteRegion, denotedBlocks blocks.build files version =
      content.map (ByteRegion.denoted blocks.blockSize) := by
  cases hdenotes : denotedBlocks blocks.build files version with
  | none => exact ⟨none, rfl⟩
  | some contents =>
      obtain ⟨capacity, entries, hintact⟩ :=
        hconsistent.intact_of_denotes (by rw [hdenotes]; rfl)
      choose contents' hcontents using hintact.exists_names
      let bytes : ℕ → Byte := fun offset =>
        (contents' (offset / blocks.blockSize)).getD (offset % blocks.blockSize) 0
      have hblock : ∀ block, blockOf blocks.blockSize bytes block = contents' block := by
        intro block
        apply blockOf_eq_of_getD (hcontents block).length
        intro position hposition
        have hdiv : (block * blocks.blockSize + position) / blocks.blockSize = block := by
          rw [Nat.add_comm, Nat.add_mul_div_right _ _ hpos, Nat.div_eq_of_lt hposition,
            Nat.zero_add]
        have hmod : (block * blocks.blockSize + position) % blocks.blockSize = position := by
          rw [Nat.add_comm, Nat.add_mul_mod_self_right, Nat.mod_eq_of_lt hposition]
        change (contents' _).getD _ 0 = _
        rw [hdiv, hmod]
      refine ⟨some ⟨capacity / blocks.blockSize, bytes⟩, ?_⟩
      rw [← hdenotes]
      refine (BlocksDirectory.denotedBlocks_eq_some_iff hsound hcompression hconsistent.named
        hintact.toHasVersion _).mpr fun block _ => ?_
      rw [hblock]
      exact hcontents block

theorem VersionsState.Follows.copies_eq_none (hfollows : state.Follows blocks store)
    (hsession : state.sessions session = none) : store.copies session = none := by
  have hrelated := hfollows.copies session
  rw [hsession] at hrelated
  revert hrelated
  generalize store.copies session = copy
  intro hrelated
  cases hrelated
  rfl

/-- A request that ends its session, and may have begun new versions, leaves the names in use
alone. -/
theorem VersionsState.Follows.fails (hsound : blocks.build.Sound)
    (hcompression : blocks.build.useCompression = false) (hpos : 0 < blocks.blockSize)
    (hfollows : state.Follows blocks store)
    (hstep : VersionsStep blocks killedAnywhere state request next)
    (hsettled : next.Settled blocks)
    (hcreates : ∀ version, version ∈ request.writes state ↔ version ∈ request.creates)
    (hexists : ∀ version ∈ request.creates, (state.files.metadata version).isSome →
      next.files = state.files)
    (hsession : next.sessions request.session = none) :
    ∃ left, store.Fails request.creates left ∧
      next.Follows blocks (left.drop request.session) := by
  have hkept : ∀ version, (version ∈ request.creates → version ∈ store.taken) →
      next.files.metadata version = state.files.metadata version ∧
        denotedBlocks blocks.build next.files version =
          denotedBlocks blocks.build state.files version := by
    intro version htaken
    by_cases hcreated : version ∈ request.creates
    · rw [hexists version hcreated ((hfollows.taken version).mp (htaken hcreated))]
      exact ⟨rfl, rfl⟩
    · exact hfollows.settled.elsewhere hsound hpos hstep fun hwrites =>
        hcreated ((hcreates version).mp hwrites)
  have hcontents : ∀ version, ∃ content : Option ByteRegion,
      denotedBlocks blocks.build next.files version =
        content.map (ByteRegion.denoted blocks.blockSize) ∧
      ((version ∈ request.creates → version ∈ store.taken) →
        content = store.versions version) := by
    intro version
    by_cases htaken : version ∈ request.creates → version ∈ store.taken
    · exact ⟨store.versions version, (hkept version htaken).2.trans (hfollows.versions version),
        fun _ => rfl⟩
    · obtain ⟨content, hcontent⟩ :=
        hsettled.orderly.consistent.exists_region hsound hcompression hpos version
      exact ⟨content, hcontent, fun h => absurd h htaken⟩
  choose contents hdenotes hsame using hcontents
  let left : RegionStore :=
    ⟨{version | (next.files.metadata version).isSome}, contents, store.copies⟩
  have hfails : store.Fails request.creates left := by
    refine ⟨rfl, fun version htaken => ⟨?_, hsame version htaken⟩⟩
    rw [hfollows.taken, ← (hkept version htaken).1]
    exact Iff.rfl
  refine ⟨left, hfails, hfollows.of_settled hsound hpos hstep hsettled
    (hfollows.kept.fails hfails).drop
    (fun other hother => VersionStore.copies_drop_of_ne hother) ?_ ?_
    fun version _ => ⟨Iff.rfl, hdenotes version⟩⟩
  · rw [hsession, VersionStore.copies_drop_self]
    exact .none
  · exact fun version hversion => hfails.2 version fun hcreated =>
      absurd ((hcreates version).mpr hcreated) hversion

end Privateer
