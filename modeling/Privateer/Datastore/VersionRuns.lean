import Privateer.Datastore.Destroy
import Privateer.Datastore.VersionSessions

/-!
# Every table names blocks that are there

Any number of sessions create, open and copy versions of one datastore, access their
regions, commit, take snapshots and close, in any order.  A process may be killed between
any two system calls.  Whatever has happened, each entry of each table is the empty name or
the name of a block that can be read back: blocks are published before they are named, and
none is ever changed or removed.
-/

namespace Privateer

variable {Hash : Type} [DecidableEq Hash] {blocks : BlocksDirectory Hash}
variable {targets : Set Path} {grounds : Prop} {files files' : FileSystem Hash}
variable {owned : Set Resource}

open BlocksDirectory (versions_bind versions_finish versions_query versions_call
  versions_createDirectory develops_setMetadata develops_setText)
open SigactionVirtualMemoryManager (Live Held)

/-! ## Starting a session -/

/-- How a session is started on an object. -/
inductive Opening where
  | create (version : Path) (regionSize maxMemBlocks : ℕ) (allowOverwrite : Bool)
  | «open» (version : Path) (maxMemBlocks : ℕ) (readOnly : Bool)
  | openImmutable (version newVersion : Path) (maxMemBlocks : ℕ)

namespace Opening

/-- The session is the manager that the object has made last. -/
def program (build : Build Hash) (object : PrivateerObject Hash) (address : ℕ)
    (opening : Opening) : StorageProgram Hash (SigactionVirtualMemoryManager Hash) := do
  let opened ← match opening with
    | .create version regionSize maxMemBlocks allowOverwrite =>
        object.create build version regionSize maxMemBlocks allowOverwrite address
    | .open version maxMemBlocks readOnly =>
        object.open build version maxMemBlocks readOnly address
    | .openImmutable version newVersion maxMemBlocks =>
        object.openImmutable build version newVersion maxMemBlocks address
  match opened.managers.getLast? with
  | none => .undefined
  | some mapped => return mapped.manager

/-- The version that the session works on. -/
def version (object : PrivateerObject Hash) : Opening → Path
  | .create version _ _ _ => object.versionPath version
  | .open version _ _ => object.versionPath version
  | .openImmutable _ newVersion _ => object.versionPath newVersion

/-- The version that is made. -/
def creates (object : PrivateerObject Hash) : Opening → Set Path
  | .create version _ _ _ => {object.versionPath version}
  | .open _ _ _ => ∅
  | .openImmutable _ newVersion _ => {object.versionPath newVersion}

/-- A version that is created may be the first one of the datastore. -/
def Grounds (blocks : BlocksDirectory Hash) (files : FileSystem Hash) : Opening → Prop
  | .create _ _ _ _ => ¬ files.directories (.path blocks.location)
  | .open _ _ _ => False
  | .openImmutable _ _ _ => False

/-- A version is created with the block size of the datastore, and only once. -/
def Allowed (blocks : BlocksDirectory Hash) (object : PrivateerObject Hash)
    (files : FileSystem Hash) : Opening → Prop
  | .create version _ _ allowOverwrite => object.blockSize = blocks.blockSize ∧
      (allowOverwrite = true → files.metadata (object.versionPath version) = none)
  | .open _ _ _ => True
  | .openImmutable _ _ _ => True

end Opening

/-- An object of this datastore, with its stash directory on the same tier. -/
structure PrivateerObject.OnTier (blocks : BlocksDirectory Hash)
    (object : PrivateerObject Hash) : Prop where
  blocksDirPath : object.blocksDirPath = object.baseDirPath.below blocksName
  location : object.blocksDirPath = blocks.location
  stashDirPath : ∃ stashBasePath, object.stashDirPath = Path.below stashBasePath stashName
  singleTiered : pathPrefix blocks.location = pathPrefix object.stashDirPath

namespace PrivateerObject

variable {object : PrivateerObject Hash} {address maxMemBlocks : ℕ} {version : Path}

omit [DecidableEq Hash] in
theorem OnTier.stash_ne_nil (htier : object.OnTier blocks) : object.stashDirPath ≠ [] := by
  obtain ⟨stashBasePath, hstash⟩ := htier.stashDirPath
  rw [hstash]
  exact Path.below_ne_nil _ _

omit [DecidableEq Hash] in
theorem OnTier.stash_ne_location (htier : object.OnTier blocks) :
    object.stashDirPath ≠ blocks.location := by
  obtain ⟨stashBasePath, hstash⟩ := htier.stashDirPath
  rw [hstash, ← htier.location, htier.blocksDirPath]
  exact Path.stash_ne_blocks _ _

omit [DecidableEq Hash] in
@[simp]
theorem getLast?_addManager (manager : SigactionVirtualMemoryManager Hash) (address length : ℕ) :
    (object.addManager manager address length).managers.getLast? =
      some { manager := manager, regionStartAddress := address } := by
  simp [addManager]

/-- The object has made a session on a version that is live. -/
def Started (blocks : BlocksDirectory Hash) (object : PrivateerObject Hash) (version : Path)
    (owned : Set Resource) (files : FileSystem Hash) : Prop :=
  ∃ mapped, object.managers.getLast? = some mapped ∧ Live blocks mapped.manager owned files ∧
    mapped.manager.versionMetadataPath = version

theorem versions_open (hpos : 0 < blocks.blockSize) (htier : object.OnTier blocks)
    (howned : ∀ version ∈ targets, Resource.version version ∈ owned)
    (hconsistent : blocks.Consistent files) {readOnly : Bool} :
    (blocks.versions targets grounds).ensures
      (object.open blocks.build version maxMemBlocks readOnly address)
      (fun opened owned' files' =>
        opened.Started blocks (object.versionPath version) owned' files' ∧
          files' = files.setDirectory (.path object.stashDirPath))
      owned files := by
  unfold PrivateerObject.open
  simp only [Program.request_bind]
  apply versions_query (fun _ => rfl) rfl
  by_cases hdirectory : files.directories (.path (object.versionPath version))
  · rw [if_pos hdirectory]
    apply versions_bind (SigactionVirtualMemoryManager.versions_open hpos howned hconsistent
      htier.stash_ne_nil htier.singleTiered)
    rintro manager owned' files' ⟨hlive, hpath, hfiles⟩ -
    exact versions_finish ⟨⟨_, getLast?_addManager _ _ _, hlive, hpath⟩, hfiles⟩
  · rw [if_neg hdirectory]
    trivial

theorem versions_create (hpos : 0 < blocks.blockSize) (htier : object.OnTier blocks)
    (howned : ∀ version ∈ targets, Resource.version version ∈ owned)
    (hversion : object.versionPath version ∈ targets) (hconsistent : blocks.Consistent files)
    {regionSize : ℕ} {allowOverwrite : Bool} (hblockSize : object.blockSize = blocks.blockSize)
    (honce : allowOverwrite = true → files.metadata (object.versionPath version) = none)
    (hgrounds : grounds ∨ files.directories (.path blocks.location)) :
    (blocks.versions targets grounds).ensures
      (object.create blocks.build version regionSize maxMemBlocks allowOverwrite address)
      (fun created owned' files' =>
        created.Started blocks (object.versionPath version) owned' files')
      owned files := by
  unfold PrivateerObject.create
  rw [if_neg (hblockSize ▸ hpos.ne'), hblockSize, htier.location]
  apply versions_bind (SigactionVirtualMemoryManager.versions_create hpos howned hversion
    hconsistent htier.stash_ne_nil htier.singleTiered honce hgrounds)
  rintro manager owned' files' ⟨hlive, hpath⟩ -
  exact versions_finish ⟨_, getLast?_addManager _ _ _, hlive, hpath⟩

end PrivateerObject

/-! ## Copying a version -/

/-- The files of one version are what those of another were. -/
structure FileSystem.Copied (source target : Path) (files files' : FileSystem Hash) : Prop where
  metadata : files'.metadata target = files.metadata source
  capacity : files'.texts (.capacity target) = files.texts (.capacity source)
  blocksPath : files'.texts (.blocksPath target) = files.texts (.blocksPath source)

section Copies

variable {A : Type} {post : A → Set Resource → FileSystem Hash → Prop}
variable {next : Bool → StorageProgram Hash A}

/-- A table is copied where none was. -/
theorem versions_copyMetadata (howned : ∀ version ∈ targets, Resource.version version ∈ owned)
    {source target : Path} (htarget : target ∈ targets)
    (hdirectory : files.directories (.path target)) (hconsistent : blocks.Consistent files)
    (hcopied : ∀ entries, files.metadata source = some entries → files.metadata target = none →
      blocks.Develops targets grounds files (files.setMetadata target (some entries)) →
        (blocks.versions targets grounds).ensures (next true) post owned
          (files.setMetadata target (some entries)))
    (hfailed : (blocks.versions targets grounds).ensures (next false) post owned files) :
    (blocks.versions targets grounds).ensures (.call (.copyMetadata source target) next) post owned
      files := by
  cases hsource : files.metadata source with
  | none =>
      have hanswer : files.answer (.copyMetadata source target) = (false, files) := by
        simp [FileSystem.answer, hsource]
      exact versions_query (fun _ => rfl) hanswer hfailed
  | some entries =>
      cases htable : files.metadata target with
      | some table =>
          have hanswer : files.answer (.copyMetadata source target) = (false, files) := by
            simp [FileSystem.answer, hsource, htable]
          exact versions_query (fun _ => rfl) hanswer hfailed
      | none =>
          have hanswer : files.answer (.copyMetadata source target) =
              (true, files.setMetadata target (some entries)) := by
            simp [FileSystem.answer, hsource, htable]
          have hdevelops : blocks.Develops targets grounds files
              (files.setMetadata target (some entries)) := by
            refine develops_setMetadata htarget hdirectory
              (hconsistent.entries source entries hsource) ?_
                (.inr fun hlocated => hlocated source (by rw [hsource]; rfl))
            intro capacity hcapacity
            rw [(hconsistent.untouched target htable).1] at hcapacity
            cases hcapacity
          exact versions_call howned (fun _ => rfl) hanswer rfl rfl hdevelops
            (hcopied entries hsource htable hdevelops)

/-- A text file is copied where none was. -/
theorem versions_copyText (howned : ∀ version ∈ targets, Resource.version version ∈ owned)
    {source target : TextFile} (htouched : ∃ text, blocks.Suits targets grounds files target text)
    (hsuits : ∀ text, files.texts source = some (some text) →
      blocks.Suits targets grounds files target text)
    (hcopied : ∀ line, files.texts source = some line →
      blocks.Develops targets grounds files (files.setText target (some line)) →
        (blocks.versions targets grounds).ensures (next true) post owned
          (files.setText target (some line)))
    (hfailed : (blocks.versions targets grounds).ensures (next false) post owned files) :
    (blocks.versions targets grounds).ensures (.call (.copyText source target) next) post owned
      files := by
  cases hsource : files.texts source with
  | none =>
      have hanswer : files.answer (.copyText source target) = (false, files) := by
        simp [FileSystem.answer, hsource]
      exact versions_query (fun _ => rfl) hanswer hfailed
  | some line =>
      cases htext : files.texts target with
      | some text =>
          have hanswer : files.answer (.copyText source target) = (false, files) := by
            simp [FileSystem.answer, hsource, htext]
          exact versions_query (fun _ => rfl) hanswer hfailed
      | none =>
          have hanswer : files.answer (.copyText source target) =
              (true, files.setText target (some line)) := by
            simp [FileSystem.answer, hsource, htext]
          have hdevelops : blocks.Develops targets grounds files
              (files.setText target (some line)) := by
            refine develops_setText ?_ ?_ htouched
            · intro text
              rw [htext]
              exact fun hsome => by cases hsome
            · rintro text rfl
              exact hsuits text hsource
          exact versions_call howned (fun _ => rfl) hanswer rfl rfl hdevelops
            (hcopied line hsource hdevelops)

/-- A copy of a version starts a live session. -/
theorem PrivateerObject.versions_openImmutable {object : PrivateerObject Hash}
    {version newVersion : Path} {maxMemBlocks address : ℕ} (hpos : 0 < blocks.blockSize)
    (htier : object.OnTier blocks)
    (howned : ∀ version ∈ targets, Resource.version version ∈ owned)
    (hversion : object.versionPath newVersion ∈ targets) (hconsistent : blocks.Consistent files) :
    (blocks.versions targets grounds).ensures
      (object.openImmutable blocks.build version newVersion maxMemBlocks address)
      (fun opened owned' files' =>
        opened.Started blocks (object.versionPath newVersion) owned' files' ∧
          FileSystem.Copied (object.versionPath version) (object.versionPath newVersion) files
            files')
      owned files := by
  unfold PrivateerObject.openImmutable
  simp only [Program.request_bind]
  generalize object.versionPath version = source
  generalize htarget : object.versionPath newVersion = target at hversion ⊢
  apply versions_query (fun _ => rfl) rfl
  by_cases hsource : files.directories (.path source)
  · rw [if_pos hsource]
    apply versions_query (fun _ => rfl) rfl
    by_cases hexists : files.directories (.path target)
    · rw [if_pos hexists]
      trivial
    · rw [if_neg hexists]
      apply versions_createDirectory howned
      have hcreated : blocks.Consistent (files.setDirectory (.path target)) :=
        hconsistent.keep (BlocksDirectory.promises_createDirectory (.path target))
      have hdirectory := files.setDirectory_self (.path target)
      have hmetadata : (files.setDirectory (.path target)).metadata = files.metadata := rfl
      have htexts : (files.setDirectory (.path target)).texts = files.texts := rfl
      generalize files.setDirectory (.path target) = created
        at hcreated hdirectory hmetadata htexts
      refine versions_copyMetadata howned hversion hdirectory hcreated ?_ trivial
      intro entries hentries hmissing hdevelops₁
      have hcopied₁ := hdevelops₁.consistent hcreated
      have hother : source ≠ target := by
        rintro rfl
        cases hentries.symm.trans hmissing
      have htable : (created.setMetadata target (some entries)).metadata target = some entries :=
        FileSystem.setMetadata_self _ _ _
      have horiginal : (created.setMetadata target (some entries)).metadata source =
          some entries := (FileSystem.setMetadata_of_ne _ hother _).trans hentries
      have htexts₁ : (created.setMetadata target (some entries)).texts = files.texts := htexts
      generalize created.setMetadata target (some entries) = copied₁
        at hcopied₁ htable horiginal htexts₁
      have htable₁ : (copied₁.metadata target).isSome := by
        rw [htable]
        rfl
      rw [if_pos rfl]
      refine versions_copyText howned ⟨.path [], hversion, htable₁, nofun⟩ ?_ ?_ trivial
      · intro text htext
        refine ⟨hversion, htable₁, ?_⟩
        rintro table capacity hother' rfl
        cases htable.symm.trans hother'
        exact hcopied₁.length_le source entries capacity horiginal htext
      · intro line hline hdevelops₂
        have hcopied₂ := hdevelops₂.consistent hcopied₁
        rw [if_pos rfl]
        refine versions_copyText howned ⟨.path blocks.location, hversion, htable₁, rfl⟩ ?_ ?_
          trivial
        · exact fun text htext => ⟨hversion, htable₁, hcopied₂.location source text htext⟩
        · intro path hpath hdevelops₃
          rw [if_pos rfl]
          apply Contract.ensures_mono
            (versions_open hpos htier howned (hdevelops₃.consistent hcopied₂))
          let copied₂ := copied₁.setText (.capacity target) (some line)
          have hcapacity : (copied₂.setText (.blocksPath target) (some path)).texts
              (.capacity target) = some line := by
            rw [FileSystem.setText_of_ne _ (by simp)]
            exact FileSystem.setText_self _ _ _
          have hblocksPath : some path = files.texts (.blocksPath source) := by
            rw [← htexts₁, ← hpath, FileSystem.setText_of_ne _ (by simp)]
          rintro opened owned' files' ⟨hstarted, rfl⟩
          refine ⟨htarget ▸ hstarted, ?_, ?_, ?_⟩
          · exact htable.trans (hentries.symm.trans (congrFun hmetadata source))
          · exact hcapacity.trans (hline.symm.trans (congrFun htexts₁ _))
          · exact (FileSystem.setText_self copied₂ _ _).trans hblocksPath
  · rw [if_neg hsource]
    trivial

end Copies

/-- What the files of a new version are copied from. -/
def Opening.Copies (object : PrivateerObject Hash) (files files' : FileSystem Hash) :
    Opening → Prop
  | .create _ _ _ _ => True
  | .open _ _ _ => True
  | .openImmutable version newVersion _ =>
      FileSystem.Copied (object.versionPath version) (object.versionPath newVersion) files files'

/-- Every opening starts a live session. -/
theorem Opening.versions_program {object : PrivateerObject Hash} {address : ℕ}
    (hpos : 0 < blocks.blockSize) (htier : object.OnTier blocks)
    (hconsistent : blocks.Consistent files) {opening : Opening}
    (hallowed : opening.Allowed blocks object files)
    (howned : ∀ version ∈ opening.creates object, Resource.version version ∈ owned) :
    (blocks.versions (opening.creates object) (opening.Grounds blocks files)).ensures
      (opening.program blocks.build object address)
      (fun manager owned' files' => Live blocks manager owned' files' ∧
        manager.versionMetadataPath = opening.version object ∧ opening.Copies object files files')
      owned files := by
  have hopened : ∀ (opened : PrivateerObject Hash) (owned' : Set Resource)
      (files' : FileSystem Hash), opened.Started blocks (opening.version object) owned' files' ∧
        opening.Copies object files files' →
          blocks.Develops (opening.creates object) (opening.Grounds blocks files) files files' →
            (blocks.versions (opening.creates object) (opening.Grounds blocks files)).ensures
              (match opened.managers.getLast? with
                | none => .undefined
                | some mapped => .finish mapped.manager)
              (fun manager owned' files' => Live blocks manager owned' files' ∧
                manager.versionMetadataPath = opening.version object ∧
                  opening.Copies object files files') owned' files' := by
    rintro opened owned' files' ⟨⟨mapped, hlast, hlive, hpath⟩, hcopies⟩ -
    rw [hlast]
    exact versions_finish ⟨hlive, hpath, hcopies⟩
  cases opening with
  | create version regionSize maxMemBlocks allowOverwrite =>
      apply versions_bind (PrivateerObject.versions_create hpos htier howned
        (Set.mem_singleton _) hconsistent hallowed.1 hallowed.2 (Decidable.not_or_of_imp id))
      exact fun created owned' files' hstarted => hopened created owned' files' ⟨hstarted, trivial⟩
  | «open» version maxMemBlocks readOnly =>
      apply versions_bind (PrivateerObject.versions_open hpos htier howned hconsistent)
      exact fun opened owned' files' hstarted =>
        hopened opened owned' files' ⟨hstarted.1, trivial⟩
  | openImmutable version newVersion maxMemBlocks =>
      exact versions_bind (PrivateerObject.versions_openImmutable hpos htier howned
        (Set.mem_singleton _) hconsistent) hopened

/-! ## Runs -/

/-- The files of a datastore and the sessions at work, by their numbers. -/
structure VersionsState (Hash : Type) where
  files : FileSystem Hash
  sessions : ℕ → Option (SigactionVirtualMemoryManager Hash)

inductive VersionsRequest (Hash : Type) where
  | start (session : ℕ) (object : PrivateerObject Hash) (opening : Opening) (address : ℕ)
  | perform (session : ℕ) (operation : Operation)
  | close (session : ℕ) (schedule : MsyncSchedule)
  | kill (session : ℕ)

/-- How a request, which leaves a session or none, may end. -/
abbrev Ending (Hash : Type) :=
  StorageProgram Hash (Option (SigactionVirtualMemoryManager Hash)) → FileSystem Hash →
    Outcome (Option (SigactionVirtualMemoryManager Hash)) → FileSystem Hash → Prop

/-- The process may be killed before any call. -/
def killedAnywhere : Ending Hash := fun program files outcome files' =>
  program.RunsTo (fun call files reply files' => files.answer call = (reply, files')) files
    outcome files'

/-- Nobody is killed. -/
def runToEnd : Ending Hash := fun program files outcome files' =>
  program.run FileSystem.answer files = (outcome, files')

theorem killedAnywhere_of_runToEnd
    {program : StorageProgram Hash (Option (SigactionVirtualMemoryManager Hash))}
    {outcome : Outcome (Option (SigactionVirtualMemoryManager Hash))}
    (hends : runToEnd program files outcome files') :
    killedAnywhere program files outcome files' :=
  Program.runsTo_of_run (fun _ _ => rfl) hends

omit [DecidableEq Hash] in
/-- The state after a request of a session.  After undefined behaviour it may be any. -/
def VersionsState.After (state : VersionsState Hash) (session : ℕ) (files' : FileSystem Hash)
    (outcome : Outcome (Option (SigactionVirtualMemoryManager Hash)))
    (next : VersionsState Hash) : Prop :=
  match outcome with
  | .returned survivor => next = ⟨files', Function.update state.sessions session survivor⟩
  | .exited => next = ⟨files', Function.update state.sessions session none⟩
  | .undefined => True

/-- One request.  An access lies in its region. -/
def VersionsStep (blocks : BlocksDirectory Hash) (ends : Ending Hash)
    (state : VersionsState Hash) (request : VersionsRequest Hash) (next : VersionsState Hash) :
    Prop :=
  match request with
  | .start session object opening address =>
      state.sessions session = none ∧ object.OnTier blocks ∧
        opening.Allowed blocks object state.files ∧ ∃ outcome files',
          ends (do return some (← opening.program blocks.build object address)) state.files
            outcome files' ∧ state.After session files' outcome next
  | .perform session operation =>
      ∃ manager, state.sessions session = some manager ∧
        operation.Within (manager.numBlocks * blocks.blockSize) ∧ ∃ outcome files',
          ends (do return some (← manager.perform blocks.build operation).2) state.files outcome
            files' ∧ state.After session files' outcome next
  | .close session schedule =>
      ∃ manager, state.sessions session = some manager ∧ ∃ outcome files',
        ends (do
          manager.close blocks.build schedule
          return none) state.files outcome files' ∧ state.After session files' outcome next
  | .kill session =>
      next = ⟨state.files, Function.update state.sessions session none⟩

/-- The version that a session works on. -/
def VersionsState.version (state : VersionsState Hash) (session : ℕ) : Option Path :=
  (state.sessions session).map fun manager => manager.versionMetadataPath

/-- The request starts the session on the version. -/
def VersionsRequest.Starts (request : VersionsRequest Hash) (session : ℕ) (version : Path) :
    Prop :=
  ∃ object opening address, request = .start session object opening address ∧
    version = opening.version object

/-- The versions that an operation may write. -/
def Operation.writes (manager : SigactionVirtualMemoryManager Hash) : Operation → Set Path
  | .read _ => ∅
  | .write _ _ => ∅
  | .msync _ => {manager.versionMetadataPath}
  | .snapshot version _ => {version}

/-- The versions that a request may write. -/
def VersionsRequest.writes (state : VersionsState Hash) : VersionsRequest Hash → Set Path
  | .start _ object opening _ => opening.creates object
  | .perform session operation =>
      {version | ∃ manager, state.sessions session = some manager ∧
        version ∈ operation.writes manager}
  | .close session _ =>
      {version | ∃ manager, state.sessions session = some manager ∧
        version = manager.versionMetadataPath}
  | .kill _ => ∅

variable {state next : VersionsState Hash} {request : VersionsRequest Hash} {ends : Ending Hash}

/-- The request may create the blocks directory. -/
def VersionsRequest.Grounds (blocks : BlocksDirectory Hash) (state : VersionsState Hash) :
    VersionsRequest Hash → Prop
  | .start _ _ opening _ => opening.Grounds blocks state.files
  | .perform _ _ => False
  | .close _ _ => False
  | .kill _ => False

/-- The files are consistent, every session is live, and no two share a stash file. -/
structure VersionsState.Orderly (blocks : BlocksDirectory Hash) (state : VersionsState Hash) :
    Prop where
  consistent : blocks.Consistent state.files
  live : ∀ session manager, state.sessions session = some manager →
    Live blocks manager manager.blockStorage.stashFiles state.files
  disjoint : ∀ session other manager manager', session ≠ other →
    state.sessions session = some manager → state.sessions other = some manager' →
      Disjoint manager.blockStorage.stashFiles manager'.blockStorage.stashFiles

/-! ## One step -/

section Step

variable {manager : SigactionVirtualMemoryManager Hash}

theorem SigactionVirtualMemoryManager.Live.hold {owned' : Set Resource}
    (hlive : Live blocks manager owned files)
    (howned : manager.blockStorage.stashFiles ⊆ owned') : Live blocks manager owned' files where
  held := by
    obtain ⟨contents, hheld⟩ := hlive.held
    exact ⟨contents, hheld.coherent, howned⟩
  table := hlive.table
  capacity := hlive.capacity

theorem SigactionVirtualMemoryManager.Live.stashFiles_subset
    (hlive : Live blocks manager owned files) :
    manager.blockStorage.stashFiles ⊆ owned := by
  obtain ⟨contents, hheld⟩ := hlive.held
  exact hheld.owned

/-- What other sessions do keeps a session live. -/
theorem SigactionVirtualMemoryManager.Live.others
    (hlive : Live blocks manager manager.blockStorage.stashFiles files)
    (hguarantee : (blocks.versions targets grounds).Guarantee owned files files')
    (hdisjoint : Disjoint manager.blockStorage.stashFiles owned) :
    Live blocks manager manager.blockStorage.stashFiles files' where
  held := by
    obtain ⟨contents, hheld⟩ := hlive.held
    have hrely : (blocks.contract True).Rely manager.blockStorage.stashFiles files files' :=
      ⟨hguarantee.promised.tolerates, hguarantee.allocated, fun resource hresource =>
        hguarantee.others resource (hheld.coherent.backing.allocated hresource)
          (Set.disjoint_left.mp hdisjoint hresource)⟩
    exact ⟨contents, hheld.rely hrely⟩
  table := hguarantee.promised.tables _ hlive.table
  capacity := hguarantee.promised.texts _ _ hlive.capacity

/-- The resources of a program that works on some versions. -/
def holding (stashFiles : Set Resource) (targets : Set Path) : Set Resource :=
  stashFiles ∪ Resource.version '' targets

theorem version_mem_holding {stashFiles : Set Resource} :
    ∀ version ∈ targets, Resource.version version ∈ holding stashFiles targets :=
  fun _ hversion => .inr ⟨_, hversion, rfl⟩

omit [DecidableEq Hash] in
theorem disjoint_holding {stashFiles : Set Resource}
    (hdisjoint : Disjoint manager.blockStorage.stashFiles stashFiles) :
    Disjoint manager.blockStorage.stashFiles (holding stashFiles targets) := by
  refine Set.disjoint_union_right.mpr ⟨hdisjoint, ?_⟩
  rw [Set.disjoint_left]
  rintro _ ⟨block, uuid, -, rfl⟩ ⟨version, -, hsame⟩
  cases hsame

/-- What a program of one session, which works on `version`, leaves, however it ends. -/
theorem VersionsState.Orderly.after (horderly : state.Orderly blocks) {session : ℕ}
    {program : StorageProgram Hash (Option (SigactionVirtualMemoryManager Hash))}
    {stashFiles : Set Resource} {version : Path}
    (hmine : ∀ other manager, other ≠ session → state.sessions other = some manager →
      Disjoint manager.blockStorage.stashFiles stashFiles)
    (hensures : (blocks.versions targets grounds).ensures program
      (fun survivor owned' files' => ∀ manager, survivor = some manager →
        Live blocks manager owned' files' ∧ manager.versionMetadataPath = version)
      (holding stashFiles targets) state.files)
    {outcome : Outcome (Option (SigactionVirtualMemoryManager Hash))}
    (hruns : killedAnywhere program state.files outcome files')
    (hafter : state.After session files' outcome next) :
    next.Orderly blocks ∧ blocks.Develops targets grounds state.files next.files ∧
      ∀ other path, next.version other = some path →
        (other = session ∧ path = version) ∨ state.version other = some path := by
  obtain ⟨hguarantee, hdefined, hreturned⟩ :=
    Contract.runsTo_of_ensures_guarantee hensures hruns
  have hothers : ∀ other manager, other ≠ session → state.sessions other = some manager →
      Disjoint manager.blockStorage.stashFiles (holding stashFiles targets) :=
    fun other manager hother hmanager => disjoint_holding (hmine other manager hother hmanager)
  generalize holding stashFiles targets = owned at hguarantee hreturned hothers
  -- The session that is left is live, and holds nothing of the others.
  obtain ⟨survivor, hnext, hsurvivor⟩ : ∃ survivor,
      next = ⟨files', Function.update state.sessions session survivor⟩ ∧
        ∀ manager, survivor = some manager →
          Live blocks manager manager.blockStorage.stashFiles files' ∧
            (∀ resource ∈ manager.blockStorage.stashFiles,
              resource ∈ FileSystem.interface.allocated state.files → resource ∈ owned) ∧
              manager.versionMetadataPath = version := by
    cases outcome with
    | returned survivor =>
        obtain ⟨owned', hlive, hheld⟩ := hreturned survivor rfl
        refine ⟨survivor, hafter, fun manager hmanager => ?_⟩
        obtain ⟨hmine, hpath⟩ := hlive manager hmanager
        exact ⟨hmine.hold subset_rfl, fun resource hresource =>
          hheld resource (hmine.stashFiles_subset hresource), hpath⟩
    | exited => exact ⟨none, hafter, nofun⟩
    | undefined => exact absurd rfl hdefined
  have hseparate : ∀ other manager manager', other ≠ session →
      state.sessions other = some manager → survivor = some manager' →
        Disjoint manager.blockStorage.stashFiles manager'.blockStorage.stashFiles := by
    intro other manager manager' hother hmanager hmanager'
    obtain ⟨contents, hheld⟩ := (horderly.live other manager hmanager).held
    rw [Set.disjoint_left]
    intro resource hresource hresource'
    exact Set.disjoint_left.mp (hothers other manager hother hmanager) hresource
      ((hsurvivor manager' hmanager').2.1 resource hresource'
        (hheld.coherent.backing.allocated hresource))
  subst hnext
  have hself : Function.update state.sessions session survivor session = survivor :=
    Function.update_self _ _ _
  refine ⟨⟨hguarantee.promised.consistent horderly.consistent, ?_, ?_⟩, hguarantee.promised, ?_⟩
  · intro other manager hmanager
    by_cases hother : other = session
    · rw [hother] at hmanager
      exact (hsurvivor manager (hself.symm.trans hmanager)).1
    · have hold : state.sessions other = some manager :=
        (Function.update_of_ne hother _ _).symm.trans hmanager
      exact (horderly.live other manager hold).others hguarantee
        (hothers other manager hother hold)
  · intro first second manager manager' hne hfirst hsecond
    by_cases hone : first = session
    · have hother : second ≠ session := fun h => hne (hone.trans h.symm)
      rw [hone] at hfirst
      exact (hseparate second manager' manager hother
        ((Function.update_of_ne hother _ _).symm.trans hsecond)
        (hself.symm.trans hfirst)).symm
    · have hold := (Function.update_of_ne hone survivor state.sessions).symm.trans hfirst
      by_cases htwo : second = session
      · rw [htwo] at hsecond
        exact hseparate first manager manager' hone hold
          (hself.symm.trans hsecond)
      · exact horderly.disjoint first second manager manager' hne hold
          ((Function.update_of_ne htwo _ _).symm.trans hsecond)
  · intro other path hpath
    obtain ⟨manager, hmanager, hversion⟩ := Option.map_eq_some_iff.mp hpath
    by_cases hother : other = session
    · rw [hother] at hmanager
      have hsame := (hsurvivor manager (hself.symm.trans hmanager)).2.2
      exact .inl ⟨hother, hversion.symm.trans hsame⟩
    · have hold := (Function.update_of_ne hother survivor state.sessions).symm.trans hmanager
      exact .inr (Option.map_eq_some_iff.mpr ⟨manager, hold, hversion⟩)

/-- Every operation keeps its session live. -/
theorem SigactionVirtualMemoryManager.Live.versions_perform (hsound : blocks.build.Sound)
    (hlive : Live blocks manager owned files) {operation : Operation}
    (hwithin : operation.Within (manager.numBlocks * blocks.blockSize))
    (howned : ∀ version ∈ operation.writes manager, Resource.version version ∈ owned)
    (hconsistent : blocks.Consistent files) :
    (blocks.versions (operation.writes manager) grounds).ensures
      (manager.perform blocks.build operation)
      (fun result owned' files' => Live blocks result.2 owned' files' ∧
        result.2.versionMetadataPath = manager.versionMetadataPath)
      owned files := by
  cases operation with
  | read offset =>
      apply versions_bind (versions_readByte hsound hlive hwithin)
      exact fun _ _ _ hdone _ => versions_finish ⟨hdone.1, hdone.2.versionMetadataPath⟩
  | write offset byte =>
      apply versions_bind (versions_writeByte hsound hlive hwithin byte)
      exact fun _ _ _ hdone _ => versions_finish ⟨hdone.1, hdone.2.versionMetadataPath⟩
  | msync schedule =>
      apply versions_bind (hlive.versions_msync hsound howned rfl hconsistent schedule)
      exact fun _ _ _ hdone _ => versions_finish ⟨hdone.1, hdone.2.versionMetadataPath⟩
  | snapshot version schedule =>
      apply versions_bind (versions_snapshot hsound hlive howned rfl hconsistent schedule)
      exact fun _ _ _ hdone _ => versions_finish ⟨hdone.1, hdone.2.versionMetadataPath⟩

/-- An operation of a session leaves a session on the same version. -/
theorem VersionsState.Orderly.after_session (horderly : state.Orderly blocks) {session : ℕ}
    (hmanager : state.sessions session = some manager)
    {program : StorageProgram Hash (Option (SigactionVirtualMemoryManager Hash))}
    (hensures : (blocks.versions targets grounds).ensures program
      (fun survivor owned' files' => ∀ manager', survivor = some manager' →
        Live blocks manager' owned' files' ∧
          manager'.versionMetadataPath = manager.versionMetadataPath)
      (holding manager.blockStorage.stashFiles targets) state.files)
    {outcome : Outcome (Option (SigactionVirtualMemoryManager Hash))}
    (hruns : killedAnywhere program state.files outcome files')
    (hafter : state.After session files' outcome next) :
    next.Orderly blocks ∧ blocks.Develops targets grounds state.files next.files ∧
      ∀ other path, next.version other = some path → state.version other = some path := by
  obtain ⟨horderly', hdevelops, hversions⟩ := horderly.after (fun other manager' hother hmanager' =>
    horderly.disjoint other session manager' manager hother hmanager' hmanager) hensures hruns
      hafter
  refine ⟨horderly', hdevelops, fun other path hpath => ?_⟩
  rcases hversions other path hpath with ⟨hsame, hversion⟩ | hold
  · rw [hsame, hversion]
    exact Option.map_eq_some_iff.mpr ⟨manager, hmanager, rfl⟩
  · exact hold

/-- A request keeps the state orderly, touches the files of its targets only, and leaves each
session on its version. -/
theorem VersionsState.Orderly.step (hsound : blocks.build.Sound) (hpos : 0 < blocks.blockSize)
    (horderly : state.Orderly blocks)
    (hstep : VersionsStep blocks killedAnywhere state request next) :
    next.Orderly blocks ∧
      blocks.Develops (request.writes state) (request.Grounds blocks state) state.files
        next.files ∧
      ∀ session version, next.version session = some version →
        request.Starts session version ∨ state.version session = some version := by
  have hsurvives : ∀ (targets : Set Path) (grounds : Prop)
      (manager : SigactionVirtualMemoryManager Hash) (version : Path) (owned : Set Resource)
      (files : FileSystem Hash),
      Live blocks manager owned files ∧ manager.versionMetadataPath = version →
        (blocks.versions targets grounds).ensures (.finish (some manager))
          (fun survivor owned' files' => ∀ manager, survivor = some manager →
            Live blocks manager owned' files' ∧ manager.versionMetadataPath = version)
          owned files := by
    intro targets grounds manager version owned files hlive
    exact versions_finish fun _ hsame => Option.some.inj hsame ▸ hlive
  cases request with
  | start session object opening address =>
      obtain ⟨hfree, htier, hallowed, outcome, files', hends, hafter⟩ := hstep
      obtain ⟨horderly', hdevelops, hversions⟩ := horderly.after
        (fun _ _ _ _ => Set.disjoint_empty _) (versions_bind (opening.versions_program hpos htier
          horderly.consistent hallowed version_mem_holding) fun _ _ _ hstarted _ =>
            hsurvives _ _ _ _ _ _ ⟨hstarted.1, hstarted.2.1⟩) hends hafter
      refine ⟨horderly', hdevelops, fun other path hpath => ?_⟩
      refine (hversions other path hpath).imp_left ?_
      rintro ⟨hsame, hversion⟩
      exact ⟨object, opening, address, by rw [hsame], hversion⟩
  | perform session operation =>
      obtain ⟨manager, hmanager, hwithin, outcome, files', hends, hafter⟩ := hstep
      have hsubset : manager.blockStorage.stashFiles ⊆
          holding manager.blockStorage.stashFiles (operation.writes manager) :=
        Set.subset_union_left
      have hlive := (horderly.live session manager hmanager).hold hsubset
      have htargets : VersionsRequest.writes state (.perform session operation) =
          operation.writes manager := by
        ext version
        constructor
        · rintro ⟨other, hother, hversion⟩
          cases hmanager.symm.trans hother
          exact hversion
        · exact fun hversion => ⟨manager, hmanager, hversion⟩
      rw [htargets]
      obtain ⟨horderly', hdevelops, hversions⟩ := horderly.after_session hmanager
        (versions_bind (hlive.versions_perform hsound hwithin version_mem_holding
          horderly.consistent) fun _ _ _ hlive' _ => hsurvives _ _ _ _ _ _ hlive') hends hafter
      exact ⟨horderly', hdevelops, fun other path hpath => .inr (hversions other path hpath)⟩
  | close session schedule =>
      obtain ⟨manager, hmanager, outcome, files', hends, hafter⟩ := hstep
      have hsubset : manager.blockStorage.stashFiles ⊆
          holding manager.blockStorage.stashFiles {manager.versionMetadataPath} :=
        Set.subset_union_left
      have hlive := (horderly.live session manager hmanager).hold hsubset
      have htargets : VersionsRequest.writes state (.close session schedule) =
          {manager.versionMetadataPath} := by
        ext version
        constructor
        · rintro ⟨other, hother, hversion⟩
          cases hmanager.symm.trans hother
          exact hversion
        · exact fun hversion => ⟨manager, hmanager, hversion⟩
      rw [htargets]
      obtain ⟨horderly', hdevelops, hversions⟩ := horderly.after_session hmanager
        (versions_bind (hlive.versions_close hsound version_mem_holding rfl horderly.consistent
          schedule) fun _ _ _ _ _ => versions_finish fun _ hnone => by cases hnone) hends hafter
      exact ⟨horderly', hdevelops, fun other path hpath => .inr (hversions other path hpath)⟩
  | kill session =>
      obtain rfl := hstep
      have hkept : ∀ other manager, Function.update state.sessions session none other =
          some manager → state.sessions other = some manager := by
        intro other manager hmanager
        by_cases hother : other = session
        · rw [hother, Function.update_self] at hmanager
          cases hmanager
        · rwa [Function.update_of_ne hother] at hmanager
      refine ⟨⟨horderly.consistent, ?_, ?_⟩, BlocksDirectory.Develops.refl _, ?_⟩
      · exact fun other manager hmanager => horderly.live other manager (hkept _ _ hmanager)
      · exact fun first second manager manager' hne hfirst hsecond =>
          horderly.disjoint first second manager manager' hne (hkept _ _ hfirst)
            (hkept _ _ hsecond)
      · intro other path hpath
        obtain ⟨manager, hmanager, hversion⟩ := Option.map_eq_some_iff.mp hpath
        exact .inr (Option.map_eq_some_iff.mpr ⟨manager, hkept _ _ hmanager, hversion⟩)

end Step

/-! ## Whole runs -/

theorem VersionsState.orderly_start (hconsistent : blocks.Consistent files) :
    VersionsState.Orderly blocks ⟨files, fun _ => none⟩ :=
  ⟨hconsistent, nofun, nofun⟩

/-- Whatever the sessions did, and wherever a process was killed, every entry of every table
is empty or names a block that can be read back. -/
theorem tables_name_stored_blocks (hsound : blocks.build.Sound) (hpos : 0 < blocks.blockSize)
    (hconsistent : blocks.Consistent files)
    {trace : List (VersionsRequest Hash × VersionsState Hash)}
    (hrun : Run (VersionsStep blocks killedAnywhere) ⟨files, fun _ => none⟩ trace) :
    ∀ state ∈ Run.states ⟨files, fun _ => none⟩ trace,
      ∀ version table, state.files.metadata version = some table → ∀ name ∈ table,
        name = blocks.build.emptyBlockHash ∨
          ∃ content, blocks.Stored state.files name content := by
  have horderly := hrun.forall_states_of_step
    (fun state request next horderly hstep => (horderly.step hsound hpos hstep).1)
    (VersionsState.orderly_start hconsistent)
  intro state hstate version table htable name hname
  obtain ⟨content, ⟨hempty, -⟩ | hstored⟩ :=
    (horderly state hstate).consistent.entries version table htable name hname
  · exact .inl hempty
  · exact .inr ⟨content, hstored⟩

theorem smallObject_onTier : smallObject.OnTier smallDatastore where
  blocksDirPath := rfl
  location := rfl
  stashDirPath := ⟨_, rfl⟩
  singleTiered := by decide

theorem smallFiles_consistent : smallDatastore.Consistent smallFiles :=
  BlocksDirectory.consistent_of_empty (fun _ => rfl) (fun _ => rfl) (fun _ => rfl)

/-- A commit of a stashed and a dirty block, and another that is killed. -/
theorem tables_name_stored_blocks_killed :
    ∃ trace : List (VersionsRequest (Option (List Byte)) × VersionsState (Option (List Byte))),
      trace.map Prod.fst =
        [.start 0 smallObject (.create ['v'] 2 1 false) 4096, .perform 0 (.write 1 7),
          .perform 0 (.write 0 5), .perform 0 (.msync ⟨[], []⟩), .perform 0 (.write 0 6),
          .close 0 ⟨[], []⟩] ∧
      ∀ state ∈ Run.states ⟨smallFiles, fun _ => none⟩ trace,
        ∀ version table, state.files.metadata version = some table → ∀ name ∈ table,
          name = none ∨ ∃ content, smallDatastore.Stored state.files name content := by
  have hrun : Run (VersionsStep smallDatastore killedAnywhere) ⟨smallFiles, fun _ => none⟩
      [(.start 0 smallObject (.create ['v'] 2 1 false) 4096, ⟨_, _⟩),
        (.perform 0 (.write 1 7), ⟨_, _⟩), (.perform 0 (.write 0 5), ⟨_, _⟩),
        (.perform 0 (.msync ⟨[], []⟩), ⟨_, _⟩), (.perform 0 (.write 0 6), ⟨_, _⟩),
        (.close 0 ⟨[], []⟩, ⟨_, _⟩)] :=
    .cons ⟨rfl, smallObject_onTier, ⟨rfl, nofun⟩, _, _, killedAnywhere_of_runToEnd rfl, rfl⟩
      (.cons ⟨_, rfl, by decide, _, _, killedAnywhere_of_runToEnd rfl, rfl⟩
        (.cons ⟨_, rfl, by decide, _, _, killedAnywhere_of_runToEnd rfl, rfl⟩
          (.cons ⟨_, rfl, trivial, _, _, killedAnywhere_of_runToEnd rfl, rfl⟩
            (.cons ⟨_, rfl, by decide, _, _, killedAnywhere_of_runToEnd rfl, rfl⟩
              (.cons ⟨_, rfl, .exited, _, .inl ⟨rfl, rfl⟩, rfl⟩ .nil)))))
  refine ⟨_, ?_, tables_name_stored_blocks Build.transparent_sound (by decide)
    smallFiles_consistent hrun⟩
  rfl

end Privateer
