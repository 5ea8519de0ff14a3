import Privateer.Datastore.BothBuilds
import Privateer.Datastore.PlainSessions
import Privateer.Datastore.StoredRegions

/-!
# Sessions of both builds in turn

A datastore outlives the programs that use it, and these need not be built alike: one session
may run on the SIGACTION manager and the next on the USERFAULTFD manager, on the same or on
another version, with another limit and another number of handling threads.  As long as each
session fits in memory, the datastore shows plain regions throughout, with or without
compression and on one tier or two.
-/

namespace Privateer

variable {Hash : Type}

/-! ## Sessions -/

/-- How a session starts: on a new version, or on one that is there. -/
inductive SessionStart where
  | create (regionMaxCapacity : ℕ) (allowOverwrite : Bool)
  | «open» (readOnly : Bool)

def SessionStart.readOnly : SessionStart → Bool
  | .create _ _ => false
  | .open readOnly => readOnly

/-- The manager that a program was built with, and what it asks of its region. -/
inductive Backend where
  | sigaction (operations : List Operation)
  | userfaultfd (regionStartAddress numHandlingThreads : ℕ) (requests : List UffdRequest)

def Backend.calls : Backend → List SessionCall
  | .sigaction operations => operations.map Operation.call
  | .userfaultfd _ _ requests => requests.map UffdRequest.call

/-- There is a handling thread. -/
def Backend.Handled : Backend → Prop
  | .sigaction _ => True
  | .userfaultfd _ numHandlingThreads _ => 0 < numHandlingThreads

structure BuildSession where
  version : Path
  start : SessionStart
  maxMemBlocks : ℕ
  backend : Backend

/-- What a program asks of its region, on what the constructor of the base class left, with the
bytes of all reads. -/
def Backend.program [DecidableEq Hash] (build : Build Hash) (base : VirtualMemoryManagerBase Hash) :
    Backend → StorageProgram Hash (List Byte)
  | .sigaction operations => do
      let result ← SigactionVirtualMemoryManager.performAll build operations (.initial base)
      return result.1
  | .userfaultfd regionStartAddress numHandlingThreads requests => do
      let result ← UffdVirtualMemoryManager.performRequests build requests
        (.initial base regionStartAddress numHandlingThreads)
      return result.1

namespace BuildSession

/-- The constructor of the base class. -/
def base (blocks : BlocksDirectory Hash) (stashPath : Path) (session : BuildSession) :
    StorageProgram Hash (VirtualMemoryManagerBase Hash) :=
  match session.start with
  | .create regionMaxCapacity allowOverwrite =>
      VirtualMemoryManagerBase.create blocks.build regionMaxCapacity blocks.blockSize
        session.maxMemBlocks session.version blocks.location stashPath allowOverwrite
  | .open readOnly =>
      VirtualMemoryManagerBase.open blocks.build session.version stashPath session.maxMemBlocks
        readOnly

/-- A whole session. -/
def program [DecidableEq Hash] (blocks : BlocksDirectory Hash) (stashPath : Path)
    (session : BuildSession) : StorageProgram Hash (List Byte) := do
  let base ← session.base blocks stashPath
  session.backend.program blocks.build base

end BuildSession

/-- One session after the other. -/
def runSessions [DecidableEq Hash] (blocks : BlocksDirectory Hash) (stashPath : Path) :
    List BuildSession → StorageProgram Hash (List Byte)
  | [] => return []
  | session :: rest => do
      let bytes ← session.program blocks stashPath
      let others ← runSessions blocks stashPath rest
      return bytes ++ others

/-! ## The same on plain regions -/

/-- Only a session that may write does. -/
def SessionCall.Permitted (readOnly : Bool) : SessionCall → Prop
  | .write _ _ => readOnly = false
  | .read _ | .msync | .snapshot _ => True

instance (size : ℕ) (call : SessionCall) : Decidable (call.Within size) :=
  match call with
  | .read offset => inferInstanceAs (Decidable (offset < size))
  | .write offset _ => inferInstanceAs (Decidable (offset < size))
  | .msync => .isTrue trivial
  | .snapshot _ => .isTrue trivial

instance (readOnly : Bool) (call : SessionCall) : Decidable (call.Permitted readOnly) :=
  match call with
  | .read _ => .isTrue trivial
  | .write _ _ => inferInstanceAs (Decidable (readOnly = false))
  | .msync => .isTrue trivial
  | .snapshot _ => .isTrue trivial

/-- The region that a session starts on. -/
def SessionStart.region (blockSize : ℕ) (version : Path) (versions : PlainVersions) :
    SessionStart → Option ByteRegion
  | .create regionMaxCapacity _ =>
      some (.zeros ((regionMaxCapacity + (blockSize - 1)) / blockSize))
  | .open _ => versions version

/-- The accesses lie in the region and may be made, and all blocks that they touch fit in
memory at once. -/
def BuildSession.Proper (blockSize numBlocks : ℕ) (session : BuildSession) : Prop :=
  (∀ call ∈ session.backend.calls,
    call.Within (numBlocks * blockSize) ∧ call.Permitted session.start.readOnly) ∧
  (touchedBlocks blockSize session.backend.calls).card ≤
    if session.maxMemBlocks = 0 then maxMemDefaultBlocks
    else session.maxMemBlocks

instance (blockSize numBlocks : ℕ) (session : BuildSession) :
    Decidable (session.Proper blockSize numBlocks) :=
  inferInstanceAs (Decidable (_ ∧ _))

/-- A session on plain regions: the bytes that it reads, and the versions that it leaves. -/
def BuildSession.plain (blockSize : ℕ) (session : BuildSession) (versions : PlainVersions) :
    Option (List Byte × PlainVersions) := do
  let copy ← session.start.region blockSize session.version versions
  if session.Proper blockSize copy.numBlocks then
    let started := Function.update versions session.version (some copy)
    let result := PlainSession.performAll blockSize session.version session.backend.calls
      ⟨started, copy, ∅⟩
    return (result.1, result.2.versions)
  else none

/-- One session after the other. -/
def plainSessions (blockSize : ℕ) :
    List BuildSession → PlainVersions → Option (List Byte × PlainVersions)
  | [], versions => return ([], versions)
  | session :: rest, versions => do
      let first ← session.plain blockSize versions
      let others ← plainSessions blockSize rest first.2
      return (first.1 ++ others.1, others.2)

/-! ## Starts -/

variable [DecidableEq Hash] {blocks : BlocksDirectory Hash} {files files' : FileSystem Hash}
variable {versions versions' : PlainVersions} {stashPath : Path} {session : BuildSession}
variable {base : VirtualMemoryManagerBase Hash} {copy : ByteRegion}

/-- What a constructor leaves of a session: its fields, and a working set that follows the
plain copy. -/
structure BuildSession.Started (blocks : BlocksDirectory Hash) (stashPath : Path)
    (session : BuildSession) (files : FileSystem Hash) (versions : PlainVersions)
    (copy : ByteRegion) (base : VirtualMemoryManagerBase Hash) (files' : FileSystem Hash) :
    Prop where
  starts : UffdVirtualMemoryManager.Starts blocks files base files' copy.bytes
  follows : (WorkingSet.initial copy.bytes base.blocksIds).Follows blocks base files'
    ⟨Function.update versions session.version (some copy), copy, ∅⟩
  version : base.versionMetadataPath = session.version
  blockSize : base.blockSize = blocks.blockSize
  maxMemSize : base.maxMemSize =
    (if session.maxMemBlocks = 0 then maxMemDefaultBlocks else session.maxMemBlocks) *
      blocks.blockSize
  readOnly : base.readOnly = session.start.readOnly
  storage : base.blockStorage = .initial blocks.location stashPath blocks.blockSize

omit [DecidableEq Hash] in
/-- A version that is created holds zeros, and the others stay. -/
theorem BlocksDirectory.Shows.created (hshows : blocks.Shows files versions) {version : Path}
    (hversion : version ≠ blocks.location) (hother : stashPath ≠ blocks.location)
    (capacity : ℕ) :
    blocks.Shows (storageFiles ((files.setDirectory (.path version)).writeVersion version []
        blocks.location capacity) blocks.location stashPath blocks.blockSize)
      (Function.update versions version (some (.zeros (capacity / blocks.blockSize)))) := by
  obtain ⟨hthere, hdirectory⟩ := created_hasVersion capacity hversion hother hshows.granularity
  have hlocated : (storageFiles ((files.setDirectory (.path version)).writeVersion version []
      blocks.location capacity) blocks.location stashPath blocks.blockSize).directories
        (.path blocks.location) := blocksDirectory_storageFiles
  refine ⟨fun other hnone => ?_, fun other region hregion => ?_, fun _ => hthere.granularity⟩
  · by_cases hsame : other = version
    · rw [hsame, Function.update_self] at hnone
      cases hnone
    · rw [Function.update_of_ne hsame] at hnone
      rw [metadata_storageFiles, FileSystem.metadata_writeVersion_of_ne hsame]
      exact hshows.missing other hnone
  · by_cases hsame : other = version
    · rw [hsame, Function.update_self, Option.some.injEq] at hregion
      rw [hsame, ← hregion]
      refine ⟨hdirectory, hlocated, capacity, rfl, [], hthere, fun block _ => .inl ⟨rfl, ?_⟩⟩
      simp [blockOf, ByteRegion.zeros]
    · rw [Function.update_of_ne hsame] at hregion
      obtain ⟨hhoused, hblocks, capacity', hcapacity', hdenotes⟩ :=
        hshows.denoted other region hregion
      have hleaves : blocks.LeavesOthers version files (storageFiles _ _ stashPath _) :=
        created_leavesOthers capacity hblocks
      exact ⟨hleaves.directories _ hhoused, hlocated, capacity', hcapacity',
        hdenotes.leave hleaves hsame⟩

/-- A session that was started follows its copy. -/
theorem BuildSession.started (hpos : 0 < blocks.blockSize) (hstash : stashPath ≠ [])
    (hother : stashPath ≠ blocks.location) (hversion : session.version ≠ blocks.location)
    (hshows : blocks.Shows files versions)
    (hcopy : session.start.region blocks.blockSize session.version versions = some copy)
    (hrun : (session.base blocks stashPath).run FileSystem.answer files =
      (.returned base, files')) :
    session.Started blocks stashPath files versions copy base files' := by
  obtain ⟨version, start, maxMemBlocks, backend⟩ := session
  cases start with
  | create regionMaxCapacity allowOverwrite =>
      cases hcopy
      have hstarts : UffdVirtualMemoryManager.Starts blocks files base files' fun _ => 0 :=
        .create hstash hversion hother hshows.granularity hrun
      obtain ⟨hrounded, -⟩ := VirtualMemoryManagerBase.create_capacity hrun
      obtain ⟨capacity, -, rfl, rfl⟩ := VirtualMemoryManagerBase.create_returned hstash hrun
      have hnum : capacity / blocks.blockSize =
          (regionMaxCapacity + (blocks.blockSize - 1)) / blocks.blockSize := by
        rw [show capacity = _ from hrounded]
        exact div_roundedUp hpos
      have hcreated := hshows.created hversion hother capacity
      obtain ⟨hthere, hdirectory⟩ :=
        created_hasVersion capacity hversion hother hshows.granularity
      rw [hnum] at hcreated
      have hzeros : ∀ block, blockOf blocks.blockSize (fun _ => (0 : Byte)) block =
          List.replicate blocks.blockSize 0 := fun block => by simp [blockOf]
      refine ⟨hstarts, ?_, rfl, rfl, rfl, rfl, rfl⟩
      exact .initial hcreated hnum.symm hdirectory blocksDirectory_storageFiles hthere
        (fun _ => rfl) fun block _ => .inl ⟨rfl, hzeros block⟩
  | «open» readOnly =>
      obtain ⟨hdirectory, hlocated, capacity, hcapacity, entries, hthere, hnames⟩ :=
        hshows.denoted version copy hcopy
      have hstarts : UffdVirtualMemoryManager.Starts blocks files base files' copy.bytes :=
        .open hstash hthere hdirectory hnames hrun
      obtain ⟨rfl, rfl⟩ := VirtualMemoryManagerBase.open_returned hstash hthere hrun
      have hsame : Function.update versions version (some copy) = versions := by
        rw [← show versions version = some copy from hcopy, Function.update_eq_self]
      refine ⟨hstarts, ?_, rfl, rfl, rfl, rfl, rfl⟩
      rw [hsame]
      refine WorkingSet.Follows.setDirectory ?_ _
      exact .initial hshows hcapacity.symm hdirectory hlocated hthere (fun _ => rfl) hnames

/-! ## Whole sessions -/

omit [DecidableEq Hash] in
/-- The tiers of a session that goes on. -/
theorem tiers_of_sameSession {final : VirtualMemoryManagerBase Hash}
    (hsame : base.SameSession final)
    (hbase : final.blockStorage.baseDirectory = base.blockStorage.baseDirectory) :
    final.blockStorage.tiers = base.blockStorage.tiers := by
  unfold BlockStorage.tiers BlockStorage.isMultiTiered
  rw [hsame.stashDirectory, hbase]

variable {bytes bytes' : List Byte}

/-- A program that returns has done what the working set says, whichever manager it ran on. -/
theorem Backend.performs_of_returned (hsound : blocks.build.Sound) (hpos : 0 < blocks.blockSize)
    {backend : Backend} (hhandled : backend.Handled) {between : FileSystem Hash} {region : ℕ → Byte}
    (hstarts : UffdVirtualMemoryManager.Starts blocks files base between region)
    (hnamed : blocks.TiersNamed base.blockStorage.tiers files)
    (hwithin : ∀ call ∈ backend.calls, call.Within (base.numBlocks * blocks.blockSize))
    (hreadWrite : ∀ offset byte, .write offset byte ∈ backend.calls → base.readOnly = false)
    (hfits : (touchedBlocks blocks.blockSize backend.calls).card * blocks.blockSize ≤
      base.maxMemSize)
    (hrun : (backend.program blocks.build base).run FileSystem.answer between =
      (.returned bytes, files')) :
    ∃ set, WorkingSet.PerformsAll blocks base (.initial region base.blocksIds) between
        backend.calls bytes set files' ∧
      blocks.TiersNamed base.blockStorage.tiers files' := by
  have hroom : ((WorkingSet.initial region base.blocksIds).touched ∪
      touchedBlocks blocks.blockSize backend.calls).card * blocks.blockSize ≤
        base.maxMemSize := by
    rwa [WorkingSet.initial, Finset.empty_union]
  cases backend with
  | sigaction operations =>
      obtain ⟨result, final, hperformed, hlast⟩ := Program.run_bind_returned hrun
      cases hlast
      have htwins := Twins.of_start hpos hstarts hnamed 0 Nat.one_pos
      have hlocation := htwins.sigaction.unevicted.baseDirectory
      obtain ⟨set, hperforms, hsession⟩ := htwins.sigaction.performAll_returned hsound hpos
        htwins.directory htwins.metadata
        (fun operation hoperation => hwithin _ (List.mem_map_of_mem hoperation)) hroom hperformed
      have htiers := tiers_of_sameSession hsession.session
        (hsession.unevicted.baseDirectory.trans hlocation.symm)
      exact ⟨set, hperforms, htiers ▸ hsession.unevicted.named⟩
  | userfaultfd regionStartAddress numHandlingThreads requests =>
      obtain ⟨result, final, hperformed, hlast⟩ := Program.run_bind_returned hrun
      cases hlast
      have htwins := Twins.of_start hpos hstarts hnamed regionStartAddress hhandled
      have hlocation := htwins.uffd.unevicted.baseDirectory
      obtain ⟨reads, manager, set, final, hreturned, hperforms, hsession⟩ :=
        htwins.uffd.run_performRequests hsound hpos htwins.directory htwins.metadata hwithin hroom
          hreadWrite
      cases hreturned.symm.trans hperformed
      have htiers := tiers_of_sameSession hsession.session
        (hsession.unevicted.baseDirectory.trans hlocation.symm)
      exact ⟨set, hperforms, htiers ▸ hsession.unevicted.named⟩

/-- A session of either build does to the datastore what it does to plain regions. -/
theorem BuildSession.follows (hsound : blocks.build.Sound) (hpos : 0 < blocks.blockSize)
    (hstash : stashPath ≠ []) (hother : stashPath ≠ blocks.location)
    (hversion : session.version ≠ blocks.location) (hhandled : session.backend.Handled)
    (hnamed : blocks.TiersNamed
      (BlockStorage.initial blocks.location stashPath blocks.blockSize : BlockStorage Hash).tiers
        files)
    (hshows : blocks.Shows files versions)
    (hplain : session.plain blocks.blockSize versions = some (bytes, versions'))
    (hrun : (session.program blocks stashPath).run FileSystem.answer files =
      (.returned bytes', files')) :
    bytes' = bytes ∧ blocks.Shows files' versions' ∧ blocks.TiersNamed
      (BlockStorage.initial blocks.location stashPath blocks.blockSize : BlockStorage Hash).tiers
        files' := by
  obtain ⟨copy, hcopy, hrest⟩ := Option.bind_eq_some_iff.mp hplain
  dsimp only at hrest
  split_ifs at hrest with hproper
  cases hrest
  obtain ⟨base, between, hbase, hlast⟩ := Program.run_bind_returned hrun
  have hstarted := session.started hpos hstash hother hversion hshows hcopy hbase
  have hfollows := hstarted.follows
  have hnum : copy.numBlocks = base.numBlocks := hfollows.numBlocks
  obtain ⟨hcalls, hcard⟩ := hproper
  rw [hnum] at hcalls
  have hwithin : ∀ call ∈ session.backend.calls,
      call.Within (base.numBlocks * blocks.blockSize) := fun call hcall => (hcalls call hcall).1
  have hreadWrite : ∀ offset byte, .write offset byte ∈ session.backend.calls →
      base.readOnly = false := fun offset byte hwrite =>
    hstarted.readOnly.trans (hcalls _ hwrite).2
  have hfits : (touchedBlocks blocks.blockSize session.backend.calls).card * blocks.blockSize ≤
      base.maxMemSize := by
    rw [hstarted.maxMemSize]
    exact Nat.mul_le_mul_right _ hcard
  rw [← hstarted.storage] at hnamed ⊢
  obtain ⟨set, hperforms, hkept⟩ := Backend.performs_of_returned hsound hpos hhandled
    hstarted.starts hnamed hwithin hreadWrite hfits hlast
  obtain ⟨hbytes, hfinal⟩ := hfollows.performAll hsound hpos hstarted.blockSize hperforms hwithin
  rw [hstarted.version] at hbytes hfinal
  exact ⟨hbytes, hfinal.shows, hkept⟩

/-- A datastore is shared by programs of both builds: whatever sessions use it, one after the
other, each reads what it would read from plain regions, and in the end every version denotes
its plain region. -/
theorem sessions_follow_plain (hsound : blocks.build.Sound) (hpos : 0 < blocks.blockSize)
    (hstash : stashPath ≠ []) (hother : stashPath ≠ blocks.location)
    (hnamed : blocks.TiersNamed
      (BlockStorage.initial blocks.location stashPath blocks.blockSize : BlockStorage Hash).tiers
        files)
    (hshows : blocks.Shows files versions) {sessions : List BuildSession}
    (hsessions : ∀ session ∈ sessions,
      session.version ≠ blocks.location ∧ session.backend.Handled)
    (hplain : plainSessions blocks.blockSize sessions versions = some (bytes, versions'))
    (hrun : (runSessions blocks stashPath sessions).run FileSystem.answer files =
      (.returned bytes', files')) :
    bytes' = bytes ∧ blocks.Shows files' versions' := by
  induction sessions generalizing files versions bytes bytes' with
  | nil =>
      cases hplain
      cases hrun
      exact ⟨rfl, hshows⟩
  | cons session rest ih =>
      obtain ⟨hversion, hhandled⟩ := hsessions session List.mem_cons_self
      obtain ⟨first, hfirst, hlater⟩ := Option.bind_eq_some_iff.mp hplain
      obtain ⟨others, hothers, hlast⟩ := Option.bind_eq_some_iff.mp hlater
      cases hlast
      obtain ⟨reads, between, hreads, hrest⟩ := Program.run_bind_returned hrun
      obtain ⟨laterReads, final, hlaterReads, hend⟩ := Program.run_bind_returned hrest
      cases hend
      obtain ⟨rfl, hbetween, hnamed'⟩ := session.follows hsound hpos hstash hother hversion hhandled
        hnamed hshows hfirst hreads
      obtain ⟨rfl, hfinal⟩ := ih hnamed' hbetween
        (fun later hmember => hsessions later (List.mem_cons_of_mem _ hmember)) hothers hlaterReads
      exact ⟨rfl, hfinal⟩

/-- A new version is written, committed and copied in one build, written and committed in the
other, and its copy is read. -/
def threeSessions : List BuildSession :=
  [⟨['/', 'v'], .create 2 false, 2,
      .sigaction [.write 1 7, .msync ⟨[], []⟩, .snapshot ['/', 'w'] ⟨[], []⟩, .write 0 5]⟩,
    ⟨['/', 'v'], .open false, 2, .userfaultfd 0 2
      [.perform (.read 1), .perform (.read 0), .perform (.write 0 9),
        .perform (.msync fun _ => ⟨[], []⟩)]⟩,
    ⟨['/', 'w'], .open true, 0, .sigaction [.read 1, .read 0]⟩]

theorem sessions_follow_plain_threeSessions :
    ∃ files' versions', (runSessions byteBlocks ['/', 's'] threeSessions).run FileSystem.answer
        FileSystem.empty = (.returned [7, 0, 7, 0], files') ∧
      plainSessions 1 threeSessions (fun _ => none) = some ([7, 0, 7, 0], versions') ∧
      byteBlocks.Shows files' versions' := by
  have hshows : byteBlocks.Shows FileSystem.empty fun _ => none :=
    ⟨fun _ _ => rfl, fun _ _ hregion => (by cases hregion), fun hdirectory => (by cases hdirectory)⟩
  have hplain : plainSessions 1 threeSessions (fun _ => none) = some ([7, 0, 7, 0], _) := rfl
  have hrun : (runSessions byteBlocks ['/', 's'] threeSessions).run FileSystem.answer
      FileSystem.empty = (.returned [7, 0, 7, 0], _) := rfl
  have hsessions : ∀ session ∈ threeSessions,
      session.version ≠ byteBlocks.location ∧ session.backend.Handled := by
    simp [threeSessions, byteBlocks, Backend.Handled]
  exact ⟨_, _, hrun, hplain, (sessions_follow_plain Build.transparent_sound (by decide) (by decide)
    (by decide) (fun _ _ _ _ _ hbytes => by cases hbytes) hshows hsessions hplain hrun).2⟩

end Privateer
