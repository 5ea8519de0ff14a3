import Privateer.Datastore.Destroy

/-!
# Sessions of one datastore, one after the other

Each session constructs an object on the same base directory, creates a version with the
block size that its environment asks for, works on the region and destroys the object.
The block size is recorded once, by the session that creates the blocks directory; a
session that uses another one writes a version that cannot be read back.  As long as every
session uses the recorded size, every version stays what its session committed.
-/

namespace Privateer

/-- A session that has ended: the version it made, the block size and the capacity that it
used, and the region at its end. -/
structure ClosedSession where
  version : Path
  blockSize : ℕ
  capacity : ℕ
  region : ℕ → Byte

structure DatastoreState (Hash : Type) where
  files : FileSystem Hash
  sessions : List ClosedSession

/-- What a session asks for, with the variables of its environment. -/
structure SessionRequest where
  blockSizeVariable : ℕ
  numBlocksVariable : ℕ
  version : Path
  regionSize : ℕ
  maxMemBlocks : ℕ
  allowOverwrite : Bool
  address : ℕ
  requests : List ObjectRequest
  schedule : MsyncSchedule

def SessionRequest.blockSize (request : SessionRequest) : ℕ :=
  initBlockSize request.blockSizeVariable request.numBlocksVariable

open SigactionVirtualMemoryManager (UnevictedSession)

variable {Hash : Type} [DecidableEq Hash] {build : Build Hash} {basePath : Path}

/-- The blocks of a datastore, read with some block size. -/
def datastoreBlocks (build : Build Hash) (basePath : Path) (blockSize : ℕ) :
    BlocksDirectory Hash where
  build := build
  location := basePath.below blocksName
  blockSize := blockSize

/-- A whole session: `Privateer(CREATE, base)`, `create`, accesses and commits, `~Privateer`.
The name of a version is new, and not that of the blocks directory. -/
def DatastoreStep (build : Build Hash) (basePath : Path) (state : DatastoreState Hash)
    (request : SessionRequest) (next : DatastoreState Hash) : Prop :=
  request.blockSize ≠ 0 ∧
    (∀ session ∈ state.sessions, session.version ≠ basePath.below request.version) ∧
    (∀ access ∈ request.requests, access.Accesses) ∧
    ∃ (object : PrivateerObject Hash) (opened : FileSystem Hash)
      (trace : List (ObjectRequest × ObjectState Hash)) (last : ObjectState Hash)
      (mapped : MappedManager Hash) (region : ℕ → Byte)
      (dispatcher : SigsegvHandlerDispatcher),
      (PrivateerObject.construct PrivateerObject.createAction basePath
        request.blockSizeVariable request.numBlocksVariable).run FileSystem.answer state.files =
          (.returned object, opened) ∧
      trace.map Prod.fst = .create request.version request.regionSize request.maxMemBlocks
        request.allowOverwrite request.address :: request.requests ∧
      Run (ObjectStep (datastoreBlocks build basePath request.blockSize)) ⟨object, opened, []⟩
        trace ∧
      last = Run.last ⟨object, opened, []⟩ trace ∧
      last.object.managers = [mapped] ∧ last.contents = [region] ∧
      (last.object.destroy build request.schedule).run FileSystem.answer last.files =
        (.returned dispatcher, next.files) ∧
      next.sessions = state.sessions ++
        [⟨mapped.versionMetadataPath, mapped.blockSize, mapped.regionMaxCapacity, region⟩]

/-- If there is a blocks directory, it records the block size of the session. -/
def UsesRecordedBlockSize (basePath : Path) (state : DatastoreState Hash)
    (request : SessionRequest) : Prop :=
  state.files.directories (.path (basePath.below blocksName)) →
    state.files.texts (.granularity (basePath.below blocksName)) =
      some (some (.number request.blockSize))

/-- The version of a session opens with the block size that the session used, all of its
table fits into `blocks_ids`, and its region is what the session committed. -/
def ReopensAs (build : Build Hash) (basePath : Path) (files : FileSystem Hash)
    (session : ClosedSession) : Prop :=
  ∀ (stashPath : Path) (maxMemBlocks : ℕ) (readOnly : Bool), stashPath ≠ [] →
    ∃ (manager : SigactionVirtualMemoryManager Hash) (files' : FileSystem Hash)
      (entries : List Hash),
      (SigactionVirtualMemoryManager.open build session.version stashPath maxMemBlocks
        readOnly).run FileSystem.answer files = (.returned manager, files') ∧
      manager.blockStorage.blockGranularity = session.blockSize ∧
      files.metadata session.version = some entries ∧
      (∀ index < entries.length, index < session.capacity / session.blockSize) ∧
      ∀ block < session.capacity / session.blockSize,
        (datastoreBlocks build basePath session.blockSize).Names files'
          (manager.blocksIds block) (blockOf session.blockSize session.region block)

/-- A datastore whose versions were all written with the block size that it records. -/
structure Consistent (blocks : BlocksDirectory Hash) (state : DatastoreState Hash) : Prop where
  directory : state.files.directories (.path blocks.location)
  granularity : state.files.texts (.granularity blocks.location) =
    some (some (.number blocks.blockSize))
  named : blocks.Named state.files
  blockSize : ∀ session ∈ state.sessions, session.blockSize = blocks.blockSize
  capacity : ∀ session ∈ state.sessions, session.capacity ≠ 0
  denotes : ∀ session ∈ state.sessions,
    blocks.Denotes state.files session.version session.capacity session.region

/-- A base directory without a blocks directory. -/
def WithoutBlocks (basePath : Path) (files : FileSystem Hash) : Prop :=
  files.directories (.path (basePath.below blocksName)) = false ∧
    ∀ subdirectory name, files.data (.block (basePath.below blocksName) subdirectory name) = none

/-! ## One session -/

omit [DecidableEq Hash] in
theorem pathPrefix_below {name : Path} (hname : '/' ∉ name) :
    pathPrefix (basePath.below name) = basePath := by
  have hslash : '/' ∈ basePath.below name := by simp [Path.below]
  have hdrop : (basePath.below name).reverse.dropWhile (· ≠ '/') = '/' :: basePath.reverse := by
    have hreverse : (basePath.below name).reverse = name.reverse ++ '/' :: basePath.reverse := by
      simp [Path.below]
    rw [hreverse, List.dropWhile_append_of_pos]
    · simp
    · intro character hcharacter
      have hne : character ≠ '/' := by
        rintro rfl
        exact hname (List.mem_reverse.mp hcharacter)
      simpa using hne
  rw [pathPrefix, if_pos hslash, hdrop]
  simp

/-- The constructor of a session leaves the files alone, but for the base directory. -/
theorem construct_create_returned {blockSizeVariable numBlocksVariable : ℕ}
    {object : PrivateerObject Hash} {files opened : FileSystem Hash}
    (hrun : (PrivateerObject.construct PrivateerObject.createAction basePath blockSizeVariable
      numBlocksVariable).run FileSystem.answer files = (.returned object, opened)) :
    object = .initial basePath basePath (initBlockSize blockSizeVariable numBlocksVariable) ∧
      opened = files.setDirectory (.path basePath) := by
  unfold PrivateerObject.construct at hrun
  rw [if_pos rfl] at hrun
  cases hdirectory : files.directories (.path basePath) with
  | true =>
      simp only [Program.request_bind, Program.run_call, FileSystem.answer, hdirectory, if_true,
        Program.pure_eq, Program.run_finish, Prod.mk.injEq, Outcome.returned.injEq] at hrun
      rw [FileSystem.setDirectory_of_directories hdirectory]
      exact ⟨hrun.1.symm, hrun.2.symm⟩
  | false =>
      simp only [Program.request_bind, Program.run_call, FileSystem.answer, hdirectory,
        Bool.false_eq_true, if_false, if_true, Program.pure_eq, Program.run_finish, Prod.mk.injEq,
        Outcome.returned.injEq] at hrun
      exact ⟨hrun.1.symm, hrun.2.symm⟩

omit [DecidableEq Hash] in
/-- The datastore of one directory has one tier. -/
theorem tiers_initial (basePath : Path) (blockSize : ℕ) :
    (BlockStorage.initial (basePath.below blocksName) (basePath.below stashName) blockSize :
      BlockStorage Hash).tiers = {basePath.below blocksName} := by
  have hsingle : (BlockStorage.initial (basePath.below blocksName) (basePath.below stashName)
      blockSize : BlockStorage Hash).isMultiTiered = false := by
    have hblocks : pathPrefix (basePath.below blocksName) = basePath :=
      pathPrefix_below (by decide)
    have hstash : pathPrefix (basePath.below stashName) = basePath := pathPrefix_below (by decide)
    simp [BlockStorage.isMultiTiered, BlockStorage.initial, hblocks, hstash]
  ext location
  rw [Set.mem_singleton_iff]
  constructor
  · rintro (hbase | ⟨hmulti, -⟩)
    · exact hbase
    · rw [hsingle] at hmulti
      cases hmulti
  · exact fun hbase => .inl hbase

omit [DecidableEq Hash] in
/-- The object of a session is fresh when its block size is the recorded one. -/
theorem fresh_initial {files : FileSystem Hash} {blockSize : ℕ} (hpos : blockSize ≠ 0)
    (hgranularity : files.directories (.path (basePath.below blocksName)) →
      files.texts (.granularity (basePath.below blocksName)) = some (some (.number blockSize)))
    (hnamed : (datastoreBlocks build basePath blockSize).Named files) :
    (PrivateerObject.initial basePath basePath blockSize).Fresh
      (datastoreBlocks build basePath blockSize) (files.setDirectory (.path basePath)) where
  managers := rfl
  vmm := rfl
  location := rfl
  blocksDirPath := rfl
  stashDirPath := ⟨basePath, rfl⟩
  blockSize := .inl rfl
  blockSize_pos := Nat.pos_of_ne_zero hpos
  granularity := by
    intro hdirectory
    apply hgranularity
    have hne : Directory.path (basePath.below blocksName) ≠ .path basePath := by
      simp [Path.below]
    exact (Function.update_of_ne hne _ _).symm.trans hdirectory
  named := by
    change BlocksDirectory.TiersNamed _ (BlockStorage.initial (basePath.below blocksName)
      (basePath.below stashName) blockSize : BlockStorage Hash).tiers _
    rw [tiers_initial]
    rintro location rfl
    exact hnamed

variable {blocks : BlocksDirectory Hash} {object : PrivateerObject Hash}

/-- Creating the version of a session. -/
theorem SingleSession.of_create {files : FileSystem Hash} {state : ObjectState Hash}
    {version : Path} {regionSize maxMemBlocks address : ℕ} {allowOverwrite : Bool}
    (hfresh : object.Fresh blocks files)
    (hstep : ObjectStep blocks ⟨object, files, []⟩
      (.create version regionSize maxMemBlocks allowOverwrite address) state) :
    ∃ mapped region, SingleSession blocks state mapped region ∧
      mapped.versionMetadataPath = object.versionPath version ∧ mapped.regionMaxCapacity ≠ 0 ∧
      state.files.directories (.path blocks.location) ∧
      (files.directories (.path blocks.location) →
        blocks.LeavesOthers (object.versionPath version) files state.files) := by
  obtain ⟨hstash, hother⟩ := hfresh.stash_ne
  obtain ⟨hname, -, hrun, hcontents⟩ := hstep
  obtain ⟨hzero, manager, hcreate, hobject⟩ := create_returned hrun
  have hversion : object.versionPath version ≠ blocks.location := by
    rw [← hfresh.location, hfresh.blocksDirPath]
    exact fun hsame => hname (Path.below_injective hsame)
  rw [hfresh.blockSize.resolve_right hzero, hfresh.location] at hcreate
  obtain ⟨hsession, hpath, hcapacity, hdirectory, hleaves⟩ :=
    UnevictedSession.of_create hfresh.blockSize_pos hstash hversion hother hfresh.granularity
      hfresh.named hcreate
  refine ⟨{ manager := manager, regionStartAddress := address }, fun _ => 0,
    ⟨?_, hcontents, hsession⟩, hpath, hcapacity, hdirectory, hleaves⟩
  rw [hobject, PrivateerObject.addManager, hfresh.managers]
  rfl

/-- Accesses and commits, one after the other. -/
theorem SingleSession.run (hsound : blocks.build.Sound) {state : ObjectState Hash}
    {trace : List (ObjectRequest × ObjectState Hash)} (hrun : Run (ObjectStep blocks) state trace)
    (haccesses : ∀ access ∈ trace.map Prod.fst, access.Accesses) {mapped : MappedManager Hash}
    {region : ℕ → Byte} (hsingle : SingleSession blocks state mapped region) :
    ∃ mapped' region', SingleSession blocks (Run.last state trace) mapped' region' ∧
      mapped.base.SameSession mapped'.base ∧
      blocks.LeavesOthers mapped.versionMetadataPath state.files (Run.last state trace).files := by
  induction hrun generalizing mapped region with
  | nil =>
      refine ⟨mapped, region, hsingle, .refl _, ?_⟩
      exact (BlocksDirectory.Promises.refl _).leavesOthers hsingle.session.named _
  | @cons state next label rest hstep hrest ih =>
      obtain ⟨middle, contents, hmiddle, hsame, hleaves⟩ :=
        hsingle.accesses hsound (haccesses label (by simp)) hstep
      obtain ⟨mapped', region', hlast, hsame', hleaves'⟩ := ih
        (fun access haccess => haccesses access (List.mem_cons_of_mem _ haccess)) hmiddle
      rw [Run.last_cons]
      rw [hsame.versionMetadataPath] at hleaves'
      exact ⟨mapped', region', hlast, hsame.trans hsame', hleaves.trans hleaves'⟩

/-- The destructor of an object with one region commits it. -/
theorem SingleSession.destroy_returned (hsound : blocks.build.Sound) {state : ObjectState Hash}
    {mapped : MappedManager Hash} {region : ℕ → Byte} {schedule : MsyncSchedule}
    {dispatcher : SigsegvHandlerDispatcher} {final : FileSystem Hash}
    (hsingle : SingleSession blocks state mapped region)
    (hrun : (state.object.destroy blocks.build schedule).run FileSystem.answer state.files =
      (.returned dispatcher, final)) :
    blocks.Denotes final mapped.versionMetadataPath mapped.regionMaxCapacity region ∧
      blocks.Named final ∧
      blocks.LeavesOthers mapped.versionMetadataPath state.files final := by
  obtain ⟨index, other, -, hother, hclose, -⟩ := PrivateerObject.destroy_returned hrun
  obtain ⟨-, rfl⟩ := PrivateerObject.getElem?_single hsingle.managers hother
  obtain ⟨committed, files', hmsync, hsession, -, hdenotes, hleaves, -⟩ :=
    hsingle.session.run_msync hsound schedule
  have hclosed : (SigactionVirtualMemoryManager.close blocks.build other.manager schedule).run
      FileSystem.answer state.files = (.returned (), files') := by
    rw [SigactionVirtualMemoryManager.close, Program.run_bind_of_returned hmsync]
    rfl
  obtain rfl : files' = final := congrArg Prod.snd (hclosed.symm.trans hclose)
  exact ⟨hdenotes, hsession.named, hleaves⟩

/-! ## Any number of sessions -/

/-- A state before the first session, or one whose versions are all consistent. -/
def Sequenced (build : Build Hash) (basePath : Path) (state : DatastoreState Hash) : Prop :=
  (WithoutBlocks basePath state.files ∧ state.sessions = []) ∨
    ∃ blockSize, Consistent (datastoreBlocks build basePath blockSize) state

/-- A session that uses the recorded block size leaves a consistent datastore. -/
theorem Sequenced.step (hsound : build.Sound) {state next : DatastoreState Hash}
    {request : SessionRequest} (hsequenced : Sequenced build basePath state)
    (hrecorded : UsesRecordedBlockSize basePath state request)
    (hstep : DatastoreStep build basePath state request next) :
    Consistent (datastoreBlocks build basePath request.blockSize) next := by
  obtain ⟨hpos, hdistinct, haccesses, object, opened, trace, last, mapped, region, dispatcher,
    hconstruct, hlabels, hrun, rfl, hmanagers, hcontents, hdestroy, hsessions⟩ := hstep
  let blocks := datastoreBlocks build basePath request.blockSize
  obtain ⟨hobject, rfl⟩ := construct_create_returned hconstruct
  -- The versions that are there were written with the block size of this session.
  have hbefore : blocks.Named state.files ∧
      (state.sessions = [] ∨ Consistent blocks state) := by
    rcases hsequenced with ⟨⟨-, hnone⟩, hempty⟩ | ⟨blockSize, hconsistent⟩
    · refine ⟨fun subdirectory name bytes hbytes => ?_, .inl hempty⟩
      exact absurd ((hnone subdirectory name).symm.trans hbytes) nofun
    · have hsame := hconsistent.granularity.symm.trans (hrecorded hconsistent.directory)
      have hsize : blockSize = request.blockSize :=
        Text.number.inj (Option.some.inj (Option.some.inj hsame))
      rw [hsize] at hconsistent
      exact ⟨hconsistent.named, .inr hconsistent⟩
  obtain ⟨hnamed, hold⟩ := hbefore
  have hfresh : object.Fresh blocks (state.files.setDirectory (.path basePath)) := by
    rw [hobject]
    exact fresh_initial hpos hrecorded hnamed
  cases hrun with
  | nil => simp at hlabels
  | @cons _ created _ rest hcreate hrest =>
      obtain ⟨rfl, hrests⟩ := List.cons.inj hlabels
      obtain ⟨first, zeros, hfirst, hversion, hcapacity, hdirectory, hcreated⟩ :=
        SingleSession.of_create hfresh hcreate
      have haccesses' : ∀ access ∈ rest.map Prod.fst, access.Accesses := by
        rw [hrests]
        exact haccesses
      obtain ⟨mapped', region', hlast, hsame, hleaves⟩ := hfirst.run hsound hrest haccesses'
      rw [Run.last_cons] at hmanagers hcontents hdestroy
      obtain rfl : mapped' = mapped := by
        have hsingle := hlast.managers.symm.trans hmanagers
        exact (List.cons.inj hsingle).1
      obtain rfl : region' = region := by
        have hsingle := hlast.contents.symm.trans hcontents
        exact (List.cons.inj hsingle).1
      obtain ⟨hdenotes, hnamed', hdestroyed⟩ := hlast.destroy_returned hsound hdestroy
      have hpath : mapped'.versionMetadataPath = basePath.below request.version := by
        rw [hsame.versionMetadataPath, hversion, hobject]
        rfl
      rw [← hsame.versionMetadataPath] at hleaves
      have hfinal := hleaves.trans hdestroyed
      -- What the whole session does to the versions that were there.
      have hothers : ∀ session ∈ state.sessions, session.blockSize = blocks.blockSize ∧
          session.capacity ≠ 0 ∧
            blocks.Denotes next.files session.version session.capacity session.region := by
        intro session hsession
        rcases hold with hempty | hconsistent
        · rw [hempty] at hsession
          exact absurd hsession List.not_mem_nil
        · have hne : session.version ≠ mapped'.versionMetadataPath := by
            rw [hpath]
            exact hdistinct session hsession
          have hdirectory' : (state.files.setDirectory (.path basePath)).directories
              (.path blocks.location) := FileSystem.directories_setDirectory hconsistent.directory
          have hwhole := hcreated hdirectory'
          rw [← hversion, ← hsame.versionMetadataPath] at hwhole
          obtain ⟨entries, hhas, hnames⟩ := hconsistent.denotes session hsession
          have hopened : blocks.Denotes (state.files.setDirectory (.path basePath))
              session.version session.capacity session.region :=
            ⟨entries, ⟨hhas.blocksPath, hhas.capacityText, hhas.granularity, hhas.metadata,
              hhas.length_le⟩, fun block hblock =>
                (hnames block hblock).keep fun _ _ _ hbytes => hbytes⟩
          exact ⟨hconsistent.blockSize session hsession, hconsistent.capacity session hsession,
            hopened.leave (hwhole.trans hfinal) hne⟩
      have hnew : mapped'.blockSize = blocks.blockSize := hlast.session.unevicted.blockSize
      have hall : ∀ session ∈ next.sessions, session.blockSize = blocks.blockSize ∧
          session.capacity ≠ 0 ∧
            blocks.Denotes next.files session.version session.capacity session.region := by
        intro session hsession
        rw [hsessions, List.mem_append, List.mem_singleton] at hsession
        rcases hsession with hearlier | rfl
        · exact hothers session hearlier
        · exact ⟨hnew, fun hzero => hcapacity (hsame.regionMaxCapacity.symm.trans hzero),
            hdenotes⟩
      obtain ⟨entries, hhas, -⟩ := hdenotes
      exact ⟨hfinal.directories _ hdirectory, hhas.granularity, hnamed',
        fun session hsession => (hall session hsession).1,
        fun session hsession => (hall session hsession).2.1,
        fun session hsession => (hall session hsession).2.2⟩

/-- In a consistent datastore, every version can be opened as it was written. -/
theorem Consistent.reopensAs {blockSize : ℕ} {state : DatastoreState Hash}
    (hconsistent : Consistent (datastoreBlocks build basePath blockSize) state) :
    ∀ session ∈ state.sessions, ReopensAs build basePath state.files session := by
  intro session hsession stashPath maxMemBlocks readOnly hstash
  obtain ⟨entries, hversion, hnames⟩ := hconsistent.denotes session hsession
  have hsize : session.blockSize = blockSize := hconsistent.blockSize session hsession
  have hopen := VirtualMemoryManagerBase.run_open hstash hversion hconsistent.directory
    (hconsistent.capacity session hsession) maxMemBlocks readOnly
  rw [hsize]
  refine ⟨.initial (.initial session.version session.capacity blockSize maxMemBlocks readOnly
      (BlockStorage.initial (basePath.below blocksName) stashPath blockSize)
        fun block => entries.getD block build.emptyBlockHash),
    state.files.setDirectory (.path stashPath), entries, ?_, rfl, hversion.metadata, ?_, ?_⟩
  · exact Program.run_bind_of_returned hopen
  · exact fun index hindex => hindex.trans_le hversion.length_le
  · exact fun block hblock => (hnames block hblock).keep fun _ _ _ hbytes => hbytes

/-- However many sessions there were, as long as each used the recorded block size, every
version opens with the block size of its session and as what the session committed. -/
theorem reopens_of_recorded_block_size (hsound : build.Sound) {files : FileSystem Hash}
    (hstart : WithoutBlocks basePath files ∨
      ∃ blockSize, Consistent (datastoreBlocks build basePath blockSize) ⟨files, []⟩)
    {trace : List (SessionRequest × DatastoreState Hash)}
    (hrun : Run (DatastoreStep build basePath) ⟨files, []⟩ trace)
    (heach : Run.Each (UsesRecordedBlockSize basePath) ⟨files, []⟩ trace) :
    ∀ state ∈ Run.states ⟨files, []⟩ trace, ∀ session ∈ state.sessions,
      ReopensAs build basePath state.files session := by
  have hsequenced : Sequenced build basePath ⟨files, []⟩ :=
    hstart.imp (fun hnone => ⟨hnone, rfl⟩) id
  have hstates := hrun.forall_states (fun state request next hstate hrecorded hstep =>
    .inr ⟨_, Sequenced.step hsound hstate hrecorded hstep⟩) hsequenced heach
  intro state hstate session hsession
  rcases hstates state hstate with ⟨-, hempty⟩ | ⟨blockSize, hconsistent⟩
  · rw [hempty] at hsession
    exact absurd hsession List.not_mem_nil
  · exact hconsistent.reopensAs session hsession

/-- A session with one region of four bytes, whose first byte it writes. -/
def shortSession (blockSize : ℕ) (version : Path) : SessionRequest where
  blockSizeVariable := blockSize
  numBlocksVariable := 0
  version := version
  regionSize := 4
  maxMemBlocks := 0
  allowOverwrite := false
  address := 4096
  requests := [.write 0 0 5]
  schedule := ⟨[], []⟩

theorem shortSession_accesses (blockSize : ℕ) (version : Path) :
    ∀ access ∈ (shortSession blockSize version).requests, access.Accesses := by
  intro access haccess
  rw [List.mem_singleton.mp haccess]
  trivial

theorem reopens_of_recorded_block_size_twice :
    ∃ trace, trace.map Prod.fst = [shortSession 2 ['v'], shortSession 2 ['w']] ∧
      Run (DatastoreStep .transparent ['/', 'd']) ⟨FileSystem.empty, []⟩ trace ∧
      ∀ state ∈ Run.states ⟨FileSystem.empty, []⟩ trace, ∀ session ∈ state.sessions,
        ReopensAs .transparent ['/', 'd'] state.files session := by
  have hrun : Run (DatastoreStep .transparent ['/', 'd']) ⟨FileSystem.empty, []⟩
      [(shortSession 2 ['v'], ⟨_, _⟩), (shortSession 2 ['w'], ⟨_, _⟩)] :=
    .cons ⟨by decide, nofun, shortSession_accesses _ _, _, _,
        [(.create ['v'] 4 0 false 4096, ⟨_, _, _⟩), (.write 0 0 5, ⟨_, _, _⟩)], _, _, _, _, rfl,
        rfl, .cons ⟨by decide, by decide, rfl, rfl⟩
          (.cons ⟨⟨_, rfl, by decide, .inr (by decide)⟩, rfl, rfl⟩ .nil), rfl, rfl, rfl, rfl, rfl⟩
      (.cons ⟨by decide, by decide, shortSession_accesses _ _, _, _,
        [(.create ['w'] 4 0 false 4096, ⟨_, _, _⟩), (.write 0 0 5, ⟨_, _, _⟩)], _, _, _, _, rfl,
        rfl, .cons ⟨by decide, by decide, rfl, rfl⟩
          (.cons ⟨⟨_, rfl, by decide, .inr (by decide)⟩, rfl, rfl⟩ .nil), rfl, rfl, rfl, rfl, rfl⟩
        .nil)
  refine ⟨_, rfl, hrun, ?_⟩
  refine reopens_of_recorded_block_size Build.transparent_sound (.inl ⟨rfl, fun _ _ => rfl⟩)
    hrun ?_
  exact ⟨nofun, fun _ => rfl, trivial⟩

/-- The second session doubles the block size.  Its version is read back with the block size
of the first. -/
theorem reopens_with_other_block_size :
    ∃ trace, trace.map Prod.fst = [shortSession 1 ['v'], shortSession 2 ['w']] ∧
      Run (DatastoreStep .transparent ['/', 'd']) ⟨FileSystem.empty, []⟩ trace ∧
      ∃ state ∈ Run.states ⟨FileSystem.empty, []⟩ trace, ∃ session ∈ state.sessions,
        session.blockSize = 2 ∧
          ¬ ReopensAs .transparent ['/', 'd'] state.files session := by
  refine ⟨[(shortSession 1 ['v'], ⟨_, _⟩), (shortSession 2 ['w'], ⟨_, _⟩)], rfl,
    .cons ⟨by decide, nofun, shortSession_accesses _ _, _, _,
        [(.create ['v'] 4 0 false 4096, ⟨_, _, _⟩), (.write 0 0 5, ⟨_, _, _⟩)], _, _, _, _, rfl,
        rfl, .cons ⟨by decide, by decide, rfl, rfl⟩
          (.cons ⟨⟨_, rfl, by decide, .inr (by decide)⟩, rfl, rfl⟩ .nil), rfl, rfl, rfl, rfl, rfl⟩
      (.cons ⟨by decide, by decide, shortSession_accesses _ _, _, _,
        [(.create ['w'] 4 0 false 4096, ⟨_, _, _⟩), (.write 0 0 5, ⟨_, _, _⟩)], _, _, _, _, rfl,
        rfl, .cons ⟨by decide, by decide, rfl, rfl⟩
          (.cons ⟨⟨_, rfl, by decide, .inr (by decide)⟩, rfl, rfl⟩ .nil), rfl, rfl, rfl, rfl, rfl⟩
        .nil),
    _, .tail _ (.tail _ (.head _)), _, .tail _ (.head _), rfl, ?_⟩
  intro hreopens
  obtain ⟨manager, files, entries, hopen, hgranularity, -⟩ :=
    hreopens ['/', 's'] 0 true (by decide)
  have hmanager := Outcome.returned.inj (Prod.mk.inj hopen).1
  rw [← hmanager] at hgranularity
  exact absurd hgranularity (by decide)

end Privateer
