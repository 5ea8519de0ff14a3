import Privateer.Datastore.ObjectSpec
import Privateer.Logic.Runs
import Privateer.Sigaction.UnevictedCommits

/-!
# Destroying a `Privateer` object

An object creates and opens any number of versions, and the application reads and writes
the regions it was handed.  The destructor commits the region of one manager and takes it
out of the dispatcher.  An object that has made one region has then done all there is to
do.  An object that has made more leaves the others registered, and nothing of them is
committed.
-/

namespace Privateer

/-- What the application asks of an object. -/
inductive ObjectRequest where
  | create (version : Path) (regionSize maxMemBlocks : ℕ) (allowOverwrite : Bool)
      (address : ℕ)
  | «open» (version : Path) (maxMemBlocks : ℕ) (readOnly : Bool) (address : ℕ)
  | openImmutable (version newVersion : Path) (maxMemBlocks address : ℕ)
  | read (index offset : ℕ)
  | write (index offset : ℕ) (byte : Byte)
  | msync (schedule : MsyncSchedule)

/-- An object, the files, and a plain array beside each region. -/
structure ObjectState (Hash : Type) where
  object : PrivateerObject Hash
  files : FileSystem Hash
  contents : List (ℕ → Byte)

variable {Hash : Type} [DecidableEq Hash] {blocks : BlocksDirectory Hash}

open PrivateerObject (Tracks SameRegions starts_addManager)
open SigactionVirtualMemoryManager (UnevictedSession)

/-- The access lies in its region and nothing has to be evicted for it. -/
def PrivateerObject.Fits (object : PrivateerObject Hash) (index offset : ℕ) : Prop :=
  ∃ mapped, object.managers[index]? = some mapped ∧
    offset / mapped.blockSize < mapped.numBlocks ∧
      mapped.FindsRoom (offset / mapped.blockSize)

/-- One request that returns and evicts nothing.  The kernel maps a region where none of the
object is mapped; a version that is opened denotes something. -/
def ObjectStep (blocks : BlocksDirectory Hash) (state : ObjectState Hash) (request : ObjectRequest)
    (next : ObjectState Hash) : Prop :=
  match request with
  | .create version regionSize maxMemBlocks allowOverwrite address =>
      version ≠ blocksName ∧ address ∉ state.object.starts ∧
        (state.object.create blocks.build version regionSize maxMemBlocks allowOverwrite
          address).run FileSystem.answer state.files = (.returned next.object, next.files) ∧
        next.contents = state.contents ++ [fun _ : ℕ => (0 : Byte)]
  | .open version maxMemBlocks readOnly address =>
      address ∉ state.object.starts ∧
        (state.object.open blocks.build version maxMemBlocks readOnly address).run
          FileSystem.answer state.files = (.returned next.object, next.files) ∧
        ∃ (capacity : ℕ) (region : ℕ → Byte),
          blocks.Denotes state.files (state.object.versionPath version) capacity region ∧
            next.contents = state.contents ++ [region]
  | .openImmutable version newVersion maxMemBlocks address =>
      address ∉ state.object.starts ∧
        (state.object.openImmutable blocks.build version newVersion maxMemBlocks address).run
          FileSystem.answer state.files = (.returned next.object, next.files) ∧
        ∃ (capacity : ℕ) (region : ℕ → Byte),
          blocks.Denotes state.files (state.object.versionPath version) capacity region ∧
            next.contents = state.contents ++ [region]
  | .read index offset =>
      state.object.Fits index offset ∧
        (∃ byte : Byte, (state.object.readByte blocks.build index offset).run FileSystem.answer
          state.files = (.returned (byte, next.object), next.files)) ∧
        next.contents = state.contents
  | .write index offset byte =>
      state.object.Fits index offset ∧
        (state.object.writeByte blocks.build index offset byte).run FileSystem.answer
          state.files = (.returned next.object, next.files) ∧
        next.contents = state.contents.modify index fun region =>
          Function.update region offset byte
  | .msync schedule =>
      (state.object.msync blocks.build schedule).run FileSystem.answer state.files =
          (.returned next.object, next.files) ∧
        next.contents = state.contents

/-- The destructor returns, each version denotes the contents of its region, and no region
is registered any more. -/
def DestroyCommits (blocks : BlocksDirectory Hash) (state : ObjectState Hash)
    (schedule : MsyncSchedule) : Prop :=
  ∃ dispatcher final,
    (state.object.destroy blocks.build schedule).run FileSystem.answer state.files =
      (.returned dispatcher, final) ∧
    (∀ (index : ℕ) (mapped : MappedManager Hash) (region : ℕ → Byte),
      state.object.managers[index]? = some mapped → state.contents[index]? = some region →
        blocks.Denotes final mapped.versionMetadataPath mapped.regionMaxCapacity region) ∧
    ∀ mapped ∈ state.object.managers, ¬ dispatcher.Registers mapped.regionStartAddress

variable {state next : ObjectState Hash} {request : ObjectRequest}

/-! ## Every step -/

theorem open_returned {build : Build Hash}
    {object object' : PrivateerObject Hash}
    {files files' : FileSystem Hash} {version : Path} {maxMemBlocks address : ℕ} {readOnly : Bool}
    (hrun : (object.open build version maxMemBlocks readOnly address).run FileSystem.answer files =
      (.returned object', files')) :
    ∃ manager, (SigactionVirtualMemoryManager.open build (object.versionPath version)
        object.stashDirPath maxMemBlocks readOnly).run FileSystem.answer files =
          (.returned manager, files') ∧
      object' = object.addManager manager address manager.regionMaxCapacity := by
  obtain ⟨-, hopened⟩ := Program.run_ite_exit_returned hrun
  obtain ⟨manager, between, hopen, hlast⟩ := Program.run_bind_returned hopened
  cases (Prod.mk.inj hlast).1
  cases (Prod.mk.inj hlast).2
  exact ⟨manager, hopen, rfl⟩

theorem copyMetadata_succeeded {files : FileSystem Hash} {source target : Path}
    (hreply : (files.answer (.copyMetadata source target)).1 = true) :
    ∃ entries, files.metadata source = some entries ∧
      (files.answer (.copyMetadata source target)).2 =
        files.setMetadata target (some entries) := by
  simp only [FileSystem.answer] at hreply ⊢
  split at hreply
  · rename_i entries hsource htarget
    exact ⟨entries, hsource, rfl⟩
  · cases hreply

theorem copyText_succeeded {files : FileSystem Hash} {source target : TextFile}
    (hreply : (files.answer (.copyText source target)).1 = true) :
    ∃ text, files.texts source = some text ∧
      (files.answer (.copyText source target)).2 = files.setText target (some text) := by
  simp only [FileSystem.answer] at hreply ⊢
  split at hreply
  · rename_i text hsource htarget
    exact ⟨text, hsource, rfl⟩
  · cases hreply

/-- `open_immutable` has copied the three files and opened the copy. -/
theorem openImmutable_returned {object object' : PrivateerObject Hash}
    {files files' : FileSystem Hash} {version newVersion : Path} {maxMemBlocks address : ℕ}
    (hrun : (object.openImmutable blocks.build version newVersion maxMemBlocks address).run
      FileSystem.answer files = (.returned object', files')) :
    ∃ copied, (object.open blocks.build newVersion maxMemBlocks false address).run
        FileSystem.answer copied = (.returned object', files') ∧ copied.data = files.data ∧
      ∀ capacity region, blocks.Denotes files (object.versionPath version) capacity region →
        blocks.Denotes copied (object.versionPath newVersion) capacity region := by
  obtain ⟨-, hfound⟩ := Program.run_ite_exit_returned hrun
  change Program.run FileSystem.answer (if files.directories (.path _) = true then _ else _)
    files = _ at hfound
  split_ifs at hfound with hnew
  · cases (Prod.mk.inj hfound).1
  · obtain ⟨hcopy₁, hfound₁⟩ := Program.run_ite_exit_returned hfound
    obtain ⟨hcopy₂, hfound₂⟩ := Program.run_ite_exit_returned hfound₁
    obtain ⟨hcopy₃, hopen⟩ := Program.run_ite_exit_returned hfound₂
    obtain ⟨entries, hentries, hcopied₁⟩ := copyMetadata_succeeded hcopy₁
    rw [hcopied₁] at hcopy₂ hcopy₃ hopen
    obtain ⟨capacityText, hcapacity, hcopied₂⟩ := copyText_succeeded hcopy₂
    rw [hcopied₂] at hcopy₃ hopen
    obtain ⟨pathText, hpath, hcopied₃⟩ := copyText_succeeded hcopy₃
    rw [hcopied₃] at hopen
    refine ⟨_, hopen, rfl, ?_⟩
    rintro capacity region ⟨table, hversion, hnames⟩
    have htable : entries = table := Option.some.inj (hentries.symm.trans hversion.metadata)
    have hcapacityText : capacityText = some (.number capacity) :=
      Option.some.inj (hcapacity.symm.trans hversion.capacityText)
    have hpathText : pathText = some (.path blocks.location) := by
      rw [FileSystem.setText_of_ne _ (by simp)] at hpath
      exact Option.some.inj (hpath.symm.trans hversion.blocksPath)
    subst htable hcapacityText hpathText
    refine ⟨entries, ⟨FileSystem.setText_self _ _ _, ?_, ?_, ?_, hversion.length_le⟩,
      fun block hblock => (hnames block hblock).keep fun _ _ _ hbytes => hbytes⟩
    · rw [FileSystem.setText_of_ne _ (by simp)]
      exact FileSystem.setText_self _ _ _
    · rw [FileSystem.setText_of_ne _ (by simp), FileSystem.setText_of_ne _ (by simp)]
      exact hversion.granularity
    · exact FileSystem.setMetadata_self _ _ _

theorem create_returned {build : Build Hash} {object object' : PrivateerObject Hash}
    {files files' : FileSystem Hash} {version : Path} {regionSize maxMemBlocks address : ℕ}
    {allowOverwrite : Bool}
    (hrun : (object.create build version regionSize maxMemBlocks allowOverwrite address).run
      FileSystem.answer files = (.returned object', files')) :
    object.blockSize ≠ 0 ∧ ∃ manager, (SigactionVirtualMemoryManager.create build regionSize
        object.blockSize maxMemBlocks (object.versionPath version) object.blocksDirPath
        object.stashDirPath allowOverwrite).run FileSystem.answer files =
          (.returned manager, files') ∧
      object' = object.addManager manager address regionSize := by
  unfold PrivateerObject.create at hrun
  split_ifs at hrun with hzero
  · cases (Prod.mk.inj hrun).1
  · obtain ⟨manager, between, hcreate, hlast⟩ := Program.run_bind_returned hrun
    cases (Prod.mk.inj hlast).1
    cases (Prod.mk.inj hlast).2
    exact ⟨hzero, manager, hcreate, rfl⟩

/-- A request adds a region, or leaves the regions and their registrations alone. -/
theorem ObjectStep.regions (hstep : ObjectStep blocks state request next) :
    state.object.SameRegions next.object ∨ ∃ manager address length,
      address ∉ state.object.starts ∧
        next.object = state.object.addManager manager address length := by
  cases request with
  | create version regionSize maxMemBlocks allowOverwrite address =>
      obtain ⟨-, hunmapped, hrun, -⟩ := hstep
      obtain ⟨-, manager, -, hobject⟩ := create_returned hrun
      exact .inr ⟨manager, address, regionSize, hunmapped, hobject⟩
  | «open» version maxMemBlocks readOnly address =>
      obtain ⟨hunmapped, hrun, -⟩ := hstep
      obtain ⟨manager, -, hobject⟩ := open_returned hrun
      exact .inr ⟨manager, address, _, hunmapped, hobject⟩
  | openImmutable version newVersion maxMemBlocks address =>
      obtain ⟨hunmapped, hrun, -⟩ := hstep
      obtain ⟨copied, hopen, -⟩ := openImmutable_returned hrun
      obtain ⟨manager, -, hobject⟩ := open_returned hopen
      exact .inr ⟨manager, address, _, hunmapped, hobject⟩
  | read index offset =>
      obtain ⟨-, ⟨byte, hrun⟩, -⟩ := hstep
      obtain ⟨haccess, -⟩ := PrivateerObject.readByte_returned hrun
      exact .inl (PrivateerObject.sameRegions_of_access haccess)
  | write index offset byte =>
      obtain ⟨-, hrun, -⟩ := hstep
      obtain ⟨accessed, mapped, haccess, hmapped, hobject⟩ :=
        PrivateerObject.writeByte_returned hrun
      rw [hobject]
      exact .inl ((PrivateerObject.sameRegions_of_access haccess).trans
        (PrivateerObject.sameRegions_setManager hmapped _))
  | msync schedule =>
      obtain ⟨hrun, -⟩ := hstep
      obtain ⟨index, mapped, committed, hmapped, -, hobject⟩ :=
        PrivateerObject.msync_returned hrun
      rw [hobject]
      exact .inl (PrivateerObject.sameRegions_setManager hmapped committed)

theorem ObjectStep.tracks (hstep : ObjectStep blocks state request next)
    (htracks : state.object.Tracks) : next.object.Tracks := by
  rcases hstep.regions with hsame | ⟨manager, address, length, hunmapped, hobject⟩
  · exact htracks.keep hsame
  · rw [hobject]
    exact htracks.addManager hunmapped

omit [DecidableEq Hash] in
theorem PrivateerObject.length_starts (object : PrivateerObject Hash) :
    object.starts.length = object.managers.length :=
  List.length_map _

/-- No region is ever taken away. -/
theorem ObjectStep.length_le (hstep : ObjectStep blocks state request next) :
    state.object.managers.length ≤ next.object.managers.length := by
  rcases hstep.regions with hsame | ⟨manager, address, length, -, hobject⟩
  · rw [← PrivateerObject.length_starts, ← hsame.starts, PrivateerObject.length_starts]
  · rw [hobject, PrivateerObject.addManager, List.length_append]
    exact Nat.le_add_right _ _

/-! ## Objects with one region -/

/-- An object that was constructed on a datastore: it has no region yet. -/
structure PrivateerObject.Fresh (blocks : BlocksDirectory Hash) (object : PrivateerObject Hash)
    (files : FileSystem Hash) : Prop where
  managers : object.managers = []
  vmm : object.vmm = none
  location : object.blocksDirPath = blocks.location
  blocksDirPath : object.blocksDirPath = object.baseDirPath.below blocksName
  stashDirPath : ∃ stashBasePath, object.stashDirPath = Path.below stashBasePath stashName
  blockSize : object.blockSize = blocks.blockSize ∨ object.blockSize = 0
  blockSize_pos : 0 < blocks.blockSize
  granularity : files.directories (.path blocks.location) →
    files.texts (.granularity blocks.location) = some (some (.number blocks.blockSize))
  named : blocks.TiersNamed (BlockStorage.initial blocks.location object.stashDirPath
    blocks.blockSize : BlockStorage Hash).tiers files

omit [DecidableEq Hash] in
theorem PrivateerObject.Fresh.stash_ne {object : PrivateerObject Hash} {files : FileSystem Hash}
    (hfresh : object.Fresh blocks files) :
    object.stashDirPath ≠ [] ∧ object.stashDirPath ≠ blocks.location := by
  obtain ⟨stashBasePath, hstash⟩ := hfresh.stashDirPath
  rw [hstash, ← hfresh.location, hfresh.blocksDirPath]
  exact ⟨Path.below_ne_nil _ _, Path.stash_ne_blocks _ _⟩

/-- The one region of an object, in a session that evicts nothing. -/
structure SingleSession (blocks : BlocksDirectory Hash) (state : ObjectState Hash)
    (mapped : MappedManager Hash) (region : ℕ → Byte) : Prop where
  managers : state.object.managers = [mapped]
  contents : state.contents = [region]
  session : UnevictedSession blocks region mapped.manager state.files

/-- The first region of an object starts a session. -/
theorem SingleSession.of_fresh {object : PrivateerObject Hash}
    {files : FileSystem Hash} (hfresh : object.Fresh blocks files)
    (hstep : ObjectStep blocks ⟨object, files, []⟩ request next) :
    ∃ mapped region, SingleSession blocks next mapped region := by
  obtain ⟨hstash, hother⟩ := hfresh.stash_ne
  have hpos := hfresh.blockSize_pos
  have hadded : ∀ manager address length, (object.addManager manager address length).managers =
      [{ manager := manager, regionStartAddress := address }] := by
    intro manager address length
    rw [PrivateerObject.addManager, hfresh.managers]
    rfl
  cases request with
  | create version regionSize maxMemBlocks allowOverwrite address =>
      obtain ⟨hname, -, hrun, hcontents⟩ := hstep
      obtain ⟨hzero, manager, hcreate, hobject⟩ := create_returned hrun
      have hversion : object.versionPath version ≠ blocks.location := by
        rw [← hfresh.location, hfresh.blocksDirPath]
        exact fun hsame => hname (Path.below_injective hsame)
      rw [hfresh.blockSize.resolve_right hzero, hfresh.location] at hcreate
      obtain ⟨hsession, -⟩ := UnevictedSession.of_create hpos hstash hversion hother
        hfresh.granularity hfresh.named hcreate
      exact ⟨_, _, (congrArg _ hobject).trans (hadded _ _ _), hcontents, hsession⟩
  | «open» version maxMemBlocks readOnly address =>
      obtain ⟨-, hrun, capacity, region, hdenotes, hcontents⟩ := hstep
      obtain ⟨manager, hopen, hobject⟩ := open_returned hrun
      obtain ⟨hsession, -⟩ :=
        UnevictedSession.of_open hpos hstash hdenotes hfresh.named hopen
      exact ⟨_, _, (congrArg _ hobject).trans (hadded _ _ _), hcontents, hsession⟩
  | openImmutable version newVersion maxMemBlocks address =>
      obtain ⟨-, hrun, capacity, region, hdenotes, hcontents⟩ := hstep
      obtain ⟨copied, hrest, hdata, hcopied⟩ := openImmutable_returned hrun
      obtain ⟨manager, hopen, hobject⟩ := open_returned hrest
      have hnamed : blocks.TiersNamed (BlockStorage.initial blocks.location object.stashDirPath
          blocks.blockSize : BlockStorage Hash).tiers copied := by
        intro location hlocation subdirectory name bytes hbytes
        rw [hdata] at hbytes
        exact hfresh.named location hlocation subdirectory name bytes hbytes
      obtain ⟨hsession, -⟩ :=
        UnevictedSession.of_open hpos hstash (hcopied capacity region hdenotes) hnamed hopen
      exact ⟨_, _, (congrArg _ hobject).trans (hadded _ _ _), hcontents, hsession⟩
  | read index offset =>
      obtain ⟨⟨mapped, hmapped, -⟩, -⟩ := hstep
      rw [hfresh.managers] at hmapped
      cases hmapped
  | write index offset byte =>
      obtain ⟨⟨mapped, hmapped, -⟩, -⟩ := hstep
      rw [hfresh.managers] at hmapped
      cases hmapped
  | msync schedule =>
      obtain ⟨hrun, -⟩ := hstep
      obtain ⟨index, mapped, committed, hmapped, -⟩ := PrivateerObject.msync_returned hrun
      rw [hfresh.managers] at hmapped
      cases hmapped

/-- The requests that work on the regions an object has handed out. -/
def ObjectRequest.Accesses : ObjectRequest → Prop
  | .create _ _ _ _ _ => False
  | .open _ _ _ _ => False
  | .openImmutable _ _ _ _ => False
  | .read _ _ => True
  | .write _ _ _ => True
  | .msync _ => True

/-- An access or a commit keeps the session and leaves the other versions alone. -/
theorem SingleSession.accesses (hsound : blocks.build.Sound) {mapped : MappedManager Hash}
    {region : ℕ → Byte} (hsingle : SingleSession blocks state mapped region)
    (haccesses : request.Accesses) (hstep : ObjectStep blocks state request next) :
    ∃ mapped' region', SingleSession blocks next mapped' region' ∧
      mapped.base.SameSession mapped'.base ∧
      blocks.LeavesOthers mapped.versionMetadataPath state.files next.files := by
  have hmanagers := hsingle.managers
  cases request with
  | create version regionSize maxMemBlocks allowOverwrite address => exact haccesses.elim
  | «open» version maxMemBlocks readOnly address => exact haccesses.elim
  | openImmutable version newVersion maxMemBlocks address => exact haccesses.elim
  | read index offset =>
      obtain ⟨⟨other, hother, hoffset, hroom⟩, ⟨byte, hrun⟩, hcontents⟩ := hstep
      obtain ⟨-, rfl⟩ := PrivateerObject.getElem?_single hmanagers hother
      obtain ⟨haccess, -⟩ := PrivateerObject.readByte_returned hrun
      obtain ⟨-, accessed, hmanager, hnext⟩ := PrivateerObject.access_single hmanagers haccess
      obtain ⟨hsession, haccessed, -⟩ :=
        hsingle.session.access_returned hsound hoffset hroom hmanager
      exact ⟨_, region, ⟨hnext, hcontents.trans hsingle.contents, hsession⟩,
        haccessed.session, (haccessed.promises _).leavesOthers hsingle.session.named _⟩
  | write index offset byte =>
      obtain ⟨⟨other, hother, hoffset, hroom⟩, hrun, hcontents⟩ := hstep
      obtain ⟨rfl, rfl⟩ := PrivateerObject.getElem?_single hmanagers hother
      obtain ⟨object, mapped', haccess, hmapped', hobject⟩ :=
        PrivateerObject.writeByte_returned hrun
      obtain ⟨-, accessed, hmanager, hnext⟩ := PrivateerObject.access_single hmanagers haccess
      obtain ⟨-, rfl⟩ := PrivateerObject.getElem?_single hnext hmapped'
      obtain ⟨hsession, haccessed, hpermits⟩ :=
        hsingle.session.access_returned hsound hoffset hroom hmanager
      rw [← haccessed.session.blockSize] at hpermits
      let written : SigactionVirtualMemoryManager Hash :=
        { accessed with
          memory := Function.update accessed.memory (offset / accessed.blockSize)
            ((accessed.memory (offset / accessed.blockSize)).set (offset % accessed.blockSize)
              byte) }
      refine ⟨{ other with manager := written }, Function.update region offset byte,
        ⟨?_, ?_, hsession.write hpermits byte⟩, haccessed.session,
        (haccessed.promises _).leavesOthers hsingle.session.named _⟩
      · rw [hobject, PrivateerObject.setManager, hnext]
        rfl
      · rw [hcontents, hsingle.contents]
        rfl
  | msync schedule =>
      obtain ⟨hrun, hcontents⟩ := hstep
      obtain ⟨index, other, committed, hother, hmsync, hobject⟩ :=
        PrivateerObject.msync_returned hrun
      obtain ⟨rfl, rfl⟩ := PrivateerObject.getElem?_single hmanagers hother
      obtain ⟨committed', files', hmsync', hsession, hsame, -, hleaves, -⟩ :=
        hsingle.session.run_msync hsound schedule
      obtain ⟨hcommitted, hfiles⟩ := Prod.mk.inj (hmsync'.symm.trans hmsync)
      obtain rfl := Outcome.returned.inj hcommitted
      subst hfiles
      refine ⟨{ other with manager := committed' }, region,
        ⟨?_, hcontents.trans hsingle.contents, hsession⟩, hsame, hleaves⟩
      rw [hobject, PrivateerObject.setManager, hmanagers]
      rfl

/-- A request on an object with one region keeps the session or adds a second region. -/
theorem SingleSession.step (hsound : blocks.build.Sound) {mapped : MappedManager Hash}
    {region : ℕ → Byte} (hsingle : SingleSession blocks state mapped region)
    (hstep : ObjectStep blocks state request next) :
    (∃ mapped' region', SingleSession blocks next mapped' region') ∨
      2 ≤ next.object.managers.length := by
  have hadds : (∃ manager address length,
      next.object = state.object.addManager manager address length) →
        2 ≤ next.object.managers.length := by
    rintro ⟨manager, address, length, hobject⟩
    rw [hobject, PrivateerObject.addManager, hsingle.managers]
    exact le_rfl
  have hkeeps : request.Accesses → ∃ mapped' region', SingleSession blocks next mapped' region' := by
    intro haccesses
    obtain ⟨mapped', region', hnext, -⟩ := hsingle.accesses hsound haccesses hstep
    exact ⟨mapped', region', hnext⟩
  cases request with
  | create version regionSize maxMemBlocks allowOverwrite address =>
      obtain ⟨-, -, hrun, -⟩ := hstep
      obtain ⟨-, manager, -, hobject⟩ := create_returned hrun
      exact .inr (hadds ⟨manager, address, _, hobject⟩)
  | «open» version maxMemBlocks readOnly address =>
      obtain ⟨-, hrun, -⟩ := hstep
      obtain ⟨manager, -, hobject⟩ := open_returned hrun
      exact .inr (hadds ⟨manager, address, _, hobject⟩)
  | openImmutable version newVersion maxMemBlocks address =>
      obtain ⟨-, hrun, -⟩ := hstep
      obtain ⟨copied, hopen, -⟩ := openImmutable_returned hrun
      obtain ⟨manager, -, hobject⟩ := open_returned hopen
      exact .inr (hadds ⟨manager, address, _, hobject⟩)
  | read index offset => exact .inl (hkeeps trivial)
  | write index offset byte => exact .inl (hkeeps trivial)
  | msync schedule => exact .inl (hkeeps trivial)

/-! ## The destructor -/

/-- What every state of a run is: the one it started from, a session on one region, or one
with several regions. -/
structure Handed (blocks : BlocksDirectory Hash) (object : PrivateerObject Hash)
    (files : FileSystem Hash) (state : ObjectState Hash) : Prop where
  tracks : state.object.Tracks
  regions : state = ⟨object, files, []⟩ ∨
    (∃ mapped region, SingleSession blocks state mapped region) ∨
      2 ≤ state.object.managers.length

theorem Handed.step (hsound : blocks.build.Sound) {object : PrivateerObject Hash}
    {files : FileSystem Hash} (hfresh : object.Fresh blocks files)
    (hhanded : Handed blocks object files state) (hstep : ObjectStep blocks state request next) :
    Handed blocks object files next where
  tracks := hstep.tracks hhanded.tracks
  regions := by
    rcases hhanded.regions with rfl | ⟨mapped, region, hsingle⟩ | hseveral
    · exact .inr (.inl (SingleSession.of_fresh hfresh hstep))
    · exact .inr (hsingle.step hsound hstep)
    · exact .inr (.inr (hseveral.trans hstep.length_le))

/-- With one region, the destructor commits it and takes it out of the dispatcher. -/
theorem SingleSession.destroyCommits (hsound : blocks.build.Sound) {mapped : MappedManager Hash}
    {region : ℕ → Byte} (hsingle : SingleSession blocks state mapped region)
    (htracks : state.object.Tracks) (schedule : MsyncSchedule) :
    DestroyCommits blocks state schedule := by
  have hmanagers := hsingle.managers
  have hvmm : state.object.vmm = some 0 := by
    rw [htracks.vmm, PrivateerObject.starts, hmanagers]
    rfl
  have hmapped : state.object.managers[0]? = some mapped := by
    rw [hmanagers]
    rfl
  obtain ⟨committed, final, hmsync, -, -, hdenotes, -⟩ :=
    hsingle.session.run_msync hsound schedule
  refine ⟨state.object.dispatcher.removeVirtualMemoryManager mapped.regionStartAddress, final,
    ?_, ?_, ?_⟩
  · unfold PrivateerObject.destroy
    simp only [hvmm, hmapped]
    rw [SigactionVirtualMemoryManager.close, Program.bind_assoc,
      Program.run_bind_of_returned hmsync]
    rfl
  · intro index other contents hother hcontents
    obtain ⟨rfl, rfl⟩ := PrivateerObject.getElem?_single hmanagers hother
    rw [hsingle.contents] at hcontents
    obtain rfl := Option.some.inj hcontents
    exact hdenotes
  · intro other hother
    rw [hmanagers, List.mem_singleton] at hother
    rw [hother, SigsegvHandlerDispatcher.registers_removeVirtualMemoryManager]
    exact fun h => h.1 rfl

/-- With several regions, the first one stays registered. -/
theorem not_destroyCommits_of_several (htracks : state.object.Tracks)
    (hseveral : 2 ≤ state.object.managers.length) (schedule : MsyncSchedule) :
    ¬ DestroyCommits blocks state schedule := by
  rintro ⟨dispatcher, final, hrun, -, hunregistered⟩
  obtain ⟨index, mapped, hvmm, hmapped, -, rfl⟩ := PrivateerObject.destroy_returned hrun
  have hlength : state.object.starts.length = state.object.managers.length :=
    state.object.length_starts
  have hnonempty : state.object.starts ≠ [] := by
    rw [← List.length_pos_iff, hlength]
    omega
  have hindex : index = state.object.managers.length - 1 := by
    have hpointer := htracks.vmm
    rw [hvmm, if_neg hnonempty, hlength] at hpointer
    exact Option.some.inj hpointer
  have hfirst : 0 < state.object.managers.length := by omega
  let first := state.object.managers[0]
  have hstart : first.regionStartAddress ∈ state.object.starts :=
    List.mem_map_of_mem (List.getElem_mem hfirst)
  have hother : first.regionStartAddress ≠ mapped.regionStartAddress := by
    intro hsame
    have hlast : state.object.starts[index]? = some mapped.regionStartAddress := by
      rw [PrivateerObject.starts, List.getElem?_map, hmapped]
      rfl
    have hzero : state.object.starts[0]? = some mapped.regionStartAddress := by
      rw [PrivateerObject.starts, List.getElem?_map, List.getElem?_eq_getElem hfirst, ← hsame]
      rfl
    exact List.nodup_iff_getElem?_ne_getElem?.mp htracks.nodup 0 index (by omega) (by omega)
      (hzero.trans hlast.symm)
  exact hunregistered first (List.getElem_mem hfirst)
    (SigsegvHandlerDispatcher.registers_removeVirtualMemoryManager.mpr
      ⟨hother, htracks.registered _ hstart⟩)

/-- Without a region, the destructor follows a pointer that was never set. -/
theorem not_destroyCommits_of_none (hvmm : state.object.vmm = none) (schedule : MsyncSchedule) :
    ¬ DestroyCommits blocks state schedule := by
  rintro ⟨dispatcher, final, hrun, -⟩
  obtain ⟨index, mapped, hsome, -⟩ := PrivateerObject.destroy_returned hrun
  rw [hvmm] at hsome
  cases hsome

/-! ## Whole runs -/

/-- One of the constructors has made the object. -/
inductive Constructs (files : FileSystem Hash) (object : PrivateerObject Hash)
    (files' : FileSystem Hash) : Prop
  | plain {action blockSizeVariable numBlocksVariable : ℕ} {basePath : Path}
      (hrun : (PrivateerObject.construct action basePath blockSizeVariable numBlocksVariable).run
        FileSystem.answer files = (.returned object, files'))
  | withStash {action : ℕ} {basePath stashBasePath : Path}
      (hrun : (PrivateerObject.constructWithStash action basePath stashBasePath).run
        FileSystem.answer files = (.returned object, files'))

omit [DecidableEq Hash] in
theorem construct_returned {action blockSizeVariable numBlocksVariable : ℕ} {basePath : Path}
    {object : PrivateerObject Hash}
    (hreturns : (PrivateerObject.construct action basePath blockSizeVariable
      numBlocksVariable).Returns object) :
    ∃ blockSize, object = .initial basePath basePath blockSize := by
  unfold PrivateerObject.construct at hreturns
  split_ifs at hreturns with hcreate hopen
  · obtain ⟨found, hreturns⟩ := hreturns
    cases found with
    | true => exact ⟨_, hreturns.symm⟩
    | false =>
        obtain ⟨created, hreturns⟩ := hreturns
        cases created with
        | true => exact ⟨_, hreturns.symm⟩
        | false => exact hreturns.elim
  · obtain ⟨found, hreturns⟩ := hreturns
    cases found with
    | true => exact ⟨_, hreturns.symm⟩
    | false => exact hreturns.elim
  · exact hreturns.elim

omit [DecidableEq Hash] in
theorem constructWithStash_returned {action : ℕ} {basePath stashBasePath : Path}
    {object : PrivateerObject Hash}
    (hreturns : (PrivateerObject.constructWithStash action basePath stashBasePath).Returns
      object) : object = .initial basePath stashBasePath 0 := by
  unfold PrivateerObject.constructWithStash at hreturns
  split_ifs at hreturns with hcreate hopen
  · obtain ⟨found, hreturns⟩ := hreturns
    cases found with
    | true => exact hreturns.elim
    | false =>
        obtain ⟨created, hreturns⟩ := hreturns
        cases created with
        | false => exact hreturns.elim
        | true =>
            obtain ⟨found, hreturns⟩ := hreturns
            cases found with
            | true => exact hreturns.symm
            | false =>
                obtain ⟨created, hreturns⟩ := hreturns
                cases created with
                | true => exact hreturns.symm
                | false => exact hreturns.elim
  · obtain ⟨foundStash, hreturns⟩ := hreturns
    cases foundStash with
    | true =>
        obtain ⟨found, hreturns⟩ := hreturns
        cases found with
        | true => exact hreturns.symm
        | false => exact hreturns.elim
    | false =>
        obtain ⟨created, hreturns⟩ := hreturns
        cases created with
        | false => exact hreturns.elim
        | true =>
            obtain ⟨found, hreturns⟩ := hreturns
            cases found with
            | true => exact hreturns.symm
            | false => exact hreturns.elim
  · exact hreturns.elim

theorem Constructs.eq_initial {before files : FileSystem Hash} {object : PrivateerObject Hash}
    (hconstructs : Constructs before object files) :
    ∃ basePath stashBasePath blockSize, object = .initial basePath stashBasePath blockSize := by
  cases hconstructs with
  | plain hrun =>
      obtain ⟨blockSize, hobject⟩ := construct_returned (Program.returns_of_run hrun)
      exact ⟨_, _, blockSize, hobject⟩
  | withStash hrun =>
      exact ⟨_, _, 0, constructWithStash_returned (Program.returns_of_run hrun)⟩

/-- An object that was constructed on a datastore with this block size is fresh. -/
theorem Constructs.fresh {before files : FileSystem Hash} {object : PrivateerObject Hash}
    (hconstructs : Constructs before object files) (hpos : 0 < blocks.blockSize)
    (hlocation : object.blocksDirPath = blocks.location)
    (hblockSize : object.blockSize = blocks.blockSize ∨ object.blockSize = 0)
    (hgranularity : files.directories (.path blocks.location) →
      files.texts (.granularity blocks.location) = some (some (.number blocks.blockSize)))
    (hnamed : blocks.TiersNamed (BlockStorage.initial blocks.location object.stashDirPath
      blocks.blockSize : BlockStorage Hash).tiers files) : object.Fresh blocks files := by
  obtain ⟨basePath, stashBasePath, blockSize, hobject⟩ := hconstructs.eq_initial
  refine ⟨?_, ?_, hlocation, ?_, ?_, hblockSize, hpos, hgranularity, hnamed⟩
  · rw [hobject]
    rfl
  · rw [hobject]
    rfl
  · rw [hobject]
    rfl
  · rw [hobject]
    exact ⟨stashBasePath, rfl⟩

/-- Whatever an object was asked to create, open, read, write and commit, its destructor
commits and deregisters everything exactly when it was handed one region. -/
theorem destroy_commits_iff_one_region (hsound : blocks.build.Sound)
    (hpos : 0 < blocks.blockSize) {before files : FileSystem Hash}
    {object : PrivateerObject Hash} (hconstructs : Constructs before object files)
    (hlocation : object.blocksDirPath = blocks.location)
    (hblockSize : object.blockSize = blocks.blockSize ∨ object.blockSize = 0)
    (hgranularity : files.directories (.path blocks.location) →
      files.texts (.granularity blocks.location) = some (some (.number blocks.blockSize)))
    (hnamed : blocks.TiersNamed (BlockStorage.initial blocks.location object.stashDirPath
      blocks.blockSize : BlockStorage Hash).tiers files)
    {trace : List (ObjectRequest × ObjectState Hash)}
    (hrun : Run (ObjectStep blocks) ⟨object, files, []⟩ trace) :
    ∀ state ∈ Run.states ⟨object, files, []⟩ trace, ∀ schedule,
      DestroyCommits blocks state schedule ↔ state.object.managers.length = 1 := by
  have hfresh := hconstructs.fresh hpos hlocation hblockSize hgranularity hnamed
  have htracks : object.Tracks := by
    have hstarts : object.starts = [] := by
      rw [PrivateerObject.starts, hfresh.managers]
      rfl
    refine ⟨?_, ?_, ?_⟩
    · rw [hfresh.vmm, if_pos hstarts]
    · rw [hstarts]
      exact fun addr haddr => absurd haddr List.not_mem_nil
    · rw [hstarts]
      exact List.nodup_nil
  have hhanded := hrun.forall_states_of_step
    (fun state request next hstate hstep => Handed.step hsound hfresh hstate hstep)
    ⟨htracks, .inl rfl⟩
  intro state hstate schedule
  obtain ⟨htracks', hregions⟩ := hhanded state hstate
  rcases hregions with rfl | ⟨mapped, region, hsingle⟩ | hseveral
  · refine iff_of_false (not_destroyCommits_of_none hfresh.vmm schedule) ?_
    rw [hfresh.managers]
    exact Nat.zero_ne_one
  · refine iff_of_true (hsingle.destroyCommits hsound htracks' schedule) ?_
    rw [hsingle.managers]
    rfl
  · refine iff_of_false (not_destroyCommits_of_several htracks' hseveral schedule) ?_
    omega

/-- A datastore with blocks of one byte. -/
def smallDatastore : BlocksDirectory (Option (List Byte)) :=
  { byteBlocks with location := Path.below ['/', 'd'] blocksName }

/-- Its first object. -/
def smallObject : PrivateerObject (Option (List Byte)) :=
  .initial ['/', 'd'] ['/', 'd'] 1

/-- The files once the object was constructed. -/
def smallFiles : FileSystem (Option (List Byte)) :=
  FileSystem.empty.setDirectory (.path ['/', 'd'])

theorem constructs_smallObject : Constructs FileSystem.empty smallObject smallFiles := by
  have hrun : (PrivateerObject.construct PrivateerObject.createAction ['/', 'd'] 1 0).run
      FileSystem.answer FileSystem.empty = (.returned smallObject, smallFiles) := rfl
  exact .plain hrun

theorem destroy_commits_iff_one_region_small :
    ∃ trace, trace.map Prod.fst =
        [.create ['v'] 2 0 false 4096, .write 0 1 5, .create ['w'] 1 0 false 8192] ∧
      Run (ObjectStep smallDatastore) ⟨smallObject, smallFiles, []⟩ trace ∧
      ∀ state ∈ Run.states ⟨smallObject, smallFiles, []⟩ trace, ∀ schedule,
        DestroyCommits smallDatastore state schedule ↔ state.object.managers.length = 1 := by
  have hrun : Run (ObjectStep smallDatastore) ⟨smallObject, smallFiles, []⟩
      [(.create ['v'] 2 0 false 4096, ⟨_, _, _⟩), (.write 0 1 5, ⟨_, _, _⟩),
        (.create ['w'] 1 0 false 8192, ⟨_, _, _⟩)] :=
    .cons ⟨by decide, by decide, rfl, rfl⟩
      (.cons ⟨⟨_, rfl, by decide, .inr (by decide)⟩, rfl, rfl⟩
        (.cons ⟨by decide, by decide, rfl, rfl⟩ .nil))
  refine ⟨_, rfl, hrun, ?_⟩
  exact destroy_commits_iff_one_region Build.transparent_sound (by decide)
    constructs_smallObject rfl (.inl rfl)
    (fun hdirectory => by cases hdirectory) (fun _ _ _ _ _ hbytes => by cases hbytes) hrun

/-- Two versions on one object: the first region is never committed, and it stays
registered. -/
theorem destroy_forgets_first_region :
    ∃ trace, trace.map Prod.fst =
        [.create ['v'] 1 0 false 4096, .create ['w'] 1 0 false 8192, .write 0 0 5] ∧
      Run (ObjectStep smallDatastore) ⟨smallObject, smallFiles, []⟩ trace ∧
      ∃ state ∈ Run.states ⟨smallObject, smallFiles, []⟩ trace,
        ∃ region dispatcher final, state.contents[0]? = some region ∧ region 0 = 5 ∧
          (state.object.destroy .transparent ⟨[], []⟩).run FileSystem.answer state.files =
            (.returned dispatcher, final) ∧
          dispatcher.Registers 4096 ∧
          denotedBlocks .transparent final (smallObject.versionPath ['v']) = some [some [0]] ∧
          ¬ DestroyCommits smallDatastore state ⟨[], []⟩ := by
  refine ⟨[(.create ['v'] 1 0 false 4096, ⟨_, _, _⟩), (.create ['w'] 1 0 false 8192, ⟨_, _, _⟩),
      (.write 0 0 5, ⟨_, _, _⟩)], rfl,
    .cons ⟨by decide, by decide, rfl, rfl⟩ (.cons ⟨by decide, by decide, rfl, rfl⟩
      (.cons ⟨⟨_, rfl, by decide, .inr (by decide)⟩, rfl, rfl⟩ .nil)),
    _, .tail _ (.tail _ (.tail _ (.head _))), _, _, _, rfl, rfl, rfl, .inl (by decide),
    by decide +kernel, ?_⟩
  rintro ⟨dispatcher, final, hrun, -, hunregistered⟩
  have hdispatcher := Outcome.returned.inj (Prod.mk.inj hrun).1
  rw [← hdispatcher] at hunregistered
  exact hunregistered _ (List.mem_cons_self) (.inl (by decide))

end Privateer
