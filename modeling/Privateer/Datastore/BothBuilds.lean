import Privateer.Sigaction.WorkingSession
import Privateer.Uffd.WorkingSession

/-!
# The two builds agree

The library is built with one of two managers that handle faults in different ways: by a
signal handler in the thread that faults, or by handling threads of which each has a part of
the blocks.  A program whose blocks fit in memory cannot tell which one it runs on, and
neither can a reader of its datastore: both carry out the same working set, and what a working
set does to a datastore does not depend on who carries it out.
-/

namespace Privateer

variable {Hash : Type} [DecidableEq Hash] {blocks : BlocksDirectory Hash}
variable {files files' left left' right : FileSystem Hash}
variable {start base : VirtualMemoryManagerBase Hash} {set : WorkingSet Hash}
variable {manager : SigactionVirtualMemoryManager Hash}
variable {other : UffdVirtualMemoryManager Hash} {region : ℕ → Byte}

/-- A session of each build that carry out the same working set, each on a datastore of its
own. -/
structure Twins (blocks : BlocksDirectory Hash) (start : VirtualMemoryManagerBase Hash)
    (set : WorkingSet Hash) (manager : SigactionVirtualMemoryManager Hash)
    (left : FileSystem Hash) (other : UffdVirtualMemoryManager Hash) (right : FileSystem Hash) :
    Prop where
  sigaction : manager.WorkingSession blocks start set left
  uffd : other.WorkingSession blocks start set right
  same : blocks.SameDatastore left right
  directory : left.directories (.path start.versionMetadataPath)
  metadata : (left.metadata start.versionMetadataPath).isSome

/-- A program that returns in one build returns in the other, with the same bytes. -/
theorem Twins.run (hsound : blocks.build.Sound) (hpos : 0 < blocks.blockSize)
    (htwins : Twins blocks start set manager left other right) {operations : List Operation}
    {requests : List UffdRequest}
    (hcalls : operations.map Operation.call = requests.map UffdRequest.call)
    (hwithin : ∀ operation ∈ operations,
      operation.call.Within (start.numBlocks * blocks.blockSize))
    (hfits : (set.touched ∪ touchedBlocks blocks.blockSize
      (operations.map Operation.call)).card * blocks.blockSize ≤ start.maxMemSize)
    {bytes : List Byte} {manager' : SigactionVirtualMemoryManager Hash}
    (hrun : (SigactionVirtualMemoryManager.performAll blocks.build operations manager).run
      FileSystem.answer left = (.returned (bytes, manager'), left')) :
    ∃ other' right', (UffdVirtualMemoryManager.performRequests blocks.build requests
        other).run FileSystem.answer right = (.returned (bytes, other'), right') ∧
      blocks.SameDatastore left' right' := by
  obtain ⟨set', hperforms, -⟩ := htwins.sigaction.performAll_returned hsound hpos
    htwins.directory htwins.metadata hwithin hfits hrun
  have hdirectory : right.directories (.path start.versionMetadataPath) := by
    rw [htwins.same.directories]
    exact htwins.directory
  have hmetadata : (right.metadata start.versionMetadataPath).isSome := by
    rw [htwins.same.metadata]
    exact htwins.metadata
  have hwithin' : ∀ call ∈ operations.map Operation.call,
      call.Within (start.numBlocks * blocks.blockSize) := by
    intro call hcall
    obtain ⟨operation, hoperation, rfl⟩ := List.mem_map.mp hcall
    exact hwithin operation hoperation
  rw [hcalls] at hperforms hwithin' hfits
  obtain ⟨bytes', other', set'', right', hrun', hperforms', -⟩ :=
    htwins.uffd.run_performRequests hsound hpos hdirectory hmetadata hwithin' hfits
      fun offset byte hwrite => hperforms.readWrite hwrite
  obtain ⟨rfl, hsame⟩ := hperforms.same hperforms' htwins.same
  exact ⟨other', right', hrun', hsame⟩

/-- Both managers start on what the constructor of their base class leaves. -/
theorem Twins.of_start (hpos : 0 < blocks.blockSize)
    (hstarts : UffdVirtualMemoryManager.Starts blocks files base files' region)
    (hnamed : blocks.TiersNamed base.blockStorage.tiers files) (regionStartAddress : ℕ)
    {numHandlingThreads : ℕ} (hthreads : 0 < numHandlingThreads) :
    Twins blocks base (.initial region base.blocksIds) (.initial base) files'
      (.initial base regionStartAddress numHandlingThreads) files' := by
  have huffd := UffdVirtualMemoryManager.UnevictedSession.of_start hpos hstarts hnamed
    regionStartAddress hthreads
  have hsigaction : SigactionVirtualMemoryManager.Unevicted blocks
      (blockOf blocks.blockSize region) (.initial base) files' := by
    cases hstarts with
    | @create regionMaxCapacity maxMemBlocks version stashPath allowOverwrite hstash hversion
        hother hgranularity hrun =>
        have hconstructed : (SigactionVirtualMemoryManager.create blocks.build regionMaxCapacity
            blocks.blockSize maxMemBlocks version blocks.location stashPath allowOverwrite).run
              FileSystem.answer files = (.returned (.initial base), files') :=
          Program.run_bind_of_returned hrun
        obtain ⟨capacity, -, rfl, rfl⟩ := VirtualMemoryManagerBase.create_returned hstash hrun
        exact (SigactionVirtualMemoryManager.UnevictedSession.of_create hpos hstash hversion
          hother hgranularity hnamed hconstructed).1.unevicted
    | @«open» version stashPath capacity maxMemBlocks readOnly entries _ hstash hversion
        hdirectory hnames hrun =>
        have hconstructed : (SigactionVirtualMemoryManager.open blocks.build version stashPath
            maxMemBlocks readOnly).run FileSystem.answer files =
              (.returned (.initial base), files') :=
          Program.run_bind_of_returned hrun
        obtain ⟨rfl, rfl⟩ := VirtualMemoryManagerBase.open_returned hstash hversion hrun
        exact (SigactionVirtualMemoryManager.UnevictedSession.of_open hpos hstash
          ⟨entries, hversion, hnames⟩ hnamed hconstructed).1.unevicted
  obtain ⟨entries, htabled⟩ := huffd.table
  refine ⟨⟨hsigaction, .refl base, rfl, rfl, rfl, fun _ => rfl⟩, ⟨huffd.unevicted, .refl base,
    hthreads, fun block => ?_, fun block => ?_, rfl⟩, .refl blocks files', htabled.directory, ?_⟩
  · simp [UffdVirtualMemoryManager.initial, WorkingSet.initial]
  · simp [UffdVirtualMemoryManager.initial, WorkingSet.initial, UffdVirtualMemoryManager.Dirty]
  · have hmetadata := htabled.version.metadata
    exact Option.isSome_iff_exists.mpr ⟨entries, hmetadata⟩

/-- A program whose blocks fit in memory does the same in both builds: if it returns in the
SIGACTION build, it returns in the USERFAULTFD build with any number of handling threads, with
the same bytes, and leaves a datastore that no reader can tell apart. -/
theorem builds_agree (hsound : blocks.build.Sound) (hpos : 0 < blocks.blockSize)
    (hstarts : UffdVirtualMemoryManager.Starts blocks files base files' region)
    (hnamed : blocks.TiersNamed base.blockStorage.tiers files) (regionStartAddress : ℕ)
    {numHandlingThreads : ℕ} (hthreads : 0 < numHandlingThreads) {operations : List Operation}
    {requests : List UffdRequest}
    (hcalls : operations.map Operation.call = requests.map UffdRequest.call)
    (hwithin : ∀ operation ∈ operations,
      operation.call.Within (base.numBlocks * blocks.blockSize))
    (hfits : (touchedBlocks blocks.blockSize (operations.map Operation.call)).card *
      blocks.blockSize ≤ base.maxMemSize)
    {bytes : List Byte} {manager' : SigactionVirtualMemoryManager Hash}
    (hrun : (SigactionVirtualMemoryManager.performAll blocks.build operations (.initial base)).run
      FileSystem.answer files' = (.returned (bytes, manager'), left')) :
    ∃ other' right', (UffdVirtualMemoryManager.performRequests blocks.build requests
        (.initial base regionStartAddress numHandlingThreads)).run FileSystem.answer files' =
          (.returned (bytes, other'), right') ∧
      blocks.SameDatastore left' right' := by
  have htwins := Twins.of_start hpos hstarts hnamed regionStartAddress hthreads
  have hempty : ((WorkingSet.initial region base.blocksIds).touched ∪
      touchedBlocks blocks.blockSize (operations.map Operation.call)).card * blocks.blockSize ≤
        base.maxMemSize := by
    rwa [WorkingSet.initial, Finset.empty_union]
  exact htwins.run hsound hpos hcalls hwithin hempty hrun

/-- A write, a snapshot, a second write and a commit, with workers in some order. -/
def twoWrites : List Operation :=
  [.write 1 7, .read 1, .snapshot ['/', 'w'] ⟨[], []⟩, .write 0 5, .msync ⟨[0, 0], []⟩]

/-- The same calls for the other build, whose sub-regions have one block each. -/
def twoWritesOfUffd : List UffdRequest :=
  [.perform (.write 1 7), .perform (.read 1), .snapshot ['/', 'w'] fun _ => ⟨[0], []⟩,
    .perform (.write 0 5), .perform (.msync fun _ => ⟨[], []⟩)]

theorem builds_agree_twoWrites :
    ∃ other' right', (UffdVirtualMemoryManager.performRequests .transparent twoWritesOfUffd
        (.initial UffdVirtualMemoryManager.twoBytes 0 2)).run FileSystem.answer
          UffdVirtualMemoryManager.twoBytesFiles = (.returned ([7], other'), right') ∧
      byteBlocks.SameDatastore ((SigactionVirtualMemoryManager.performAll .transparent twoWrites
        (.initial UffdVirtualMemoryManager.twoBytes)).run FileSystem.answer
          UffdVirtualMemoryManager.twoBytesFiles).2 right' := by
  have hwithin : ∀ operation ∈ twoWrites, operation.call.Within (2 * 1) := by
    simp [twoWrites, Operation.call, SessionCall.Within]
  exact builds_agree Build.transparent_sound (by decide) UffdVirtualMemoryManager.starts_twoBytes
    (fun _ _ _ _ _ hbytes => by cases hbytes) 0 (by decide) rfl hwithin (by decide) rfl

end Privateer
