import Privateer.Logic.Runs
import Privateer.Sigaction.UnevictedCommits

/-!
# A read-only session next to a writer

A session that was opened for reading and one that was opened for writing work on the same
version.  The reader dirties nothing, but it commits like the writer: `msync` and `close`
write the names that it has for the blocks up to its highest resident one over the start
of the table.  These names are as old as the session.  The table stays what the writer
left exactly when they are the start of it at every commit of the reader.
-/

namespace Privateer

open SigactionVirtualMemoryManager (Unevicted UnevictedSession Tabled FindsRoom)

/-- The version that two sessions share, and the stash directories of their objects. -/
structure SharedSetup (Hash : Type) where
  blocks : BlocksDirectory Hash
  version : Path
  readerStash : Path
  writerStash : Path

/-- The files and the sessions that are open, with a plain array beside the writer, the
array that it committed last, and the table as it left it. -/
structure SharedVersion (Hash : Type) where
  files : FileSystem Hash
  reader : Option (SigactionVirtualMemoryManager Hash)
  writer : Option (SigactionVirtualMemoryManager Hash)
  region : ℕ → Byte
  committed : ℕ → Byte
  table : List Hash

inductive SharedOperation where
  | openReadOnly (maxMemBlocks : ℕ)
  | readerRead (offset : ℕ)
  | readerMsync (schedule : MsyncSchedule)
  | readerClose (schedule : MsyncSchedule)
  | openWriter (maxMemBlocks : ℕ)
  | writerRead (offset : ℕ)
  | writerWrite (offset : ℕ) (byte : Byte)
  | writerMsync (schedule : MsyncSchedule)
  | writerClose (schedule : MsyncSchedule)

variable {Hash : Type} [DecidableEq Hash] {setup : SharedSetup Hash}

/-- The access lies in the region and nothing has to be evicted for it. -/
def SigactionVirtualMemoryManager.Fits (manager : SigactionVirtualMemoryManager Hash)
    (offset : ℕ) : Prop :=
  offset / manager.blockSize < manager.numBlocks ∧
    manager.FindsRoom (offset / manager.blockSize)

open SigactionVirtualMemoryManager in
/-- One operation of one of the two sessions, which returns. -/
inductive SharedStep (setup : SharedSetup Hash) :
    SharedVersion Hash → SharedOperation → SharedVersion Hash → Prop
  | openReadOnly {state : SharedVersion Hash} {maxMemBlocks : ℕ}
      {manager : SigactionVirtualMemoryManager Hash} {files' : FileSystem Hash}
      (hclosed : state.reader = none)
      (hrun : (SigactionVirtualMemoryManager.open setup.blocks.build setup.version
        setup.readerStash maxMemBlocks true).run FileSystem.answer state.files =
          (.returned manager, files')) :
      SharedStep setup state (.openReadOnly maxMemBlocks)
        { state with files := files', reader := some manager }
  | readerRead {state : SharedVersion Hash} {offset : ℕ} {byte : Byte}
      {manager manager' : SigactionVirtualMemoryManager Hash} {files' : FileSystem Hash}
      (hopen : state.reader = some manager) (hfits : manager.Fits offset)
      (hrun : (readByte setup.blocks.build manager offset).run FileSystem.answer state.files =
        (.returned (byte, manager'), files')) :
      SharedStep setup state (.readerRead offset)
        { state with files := files', reader := some manager' }
  | readerMsync {state : SharedVersion Hash} {schedule : MsyncSchedule}
      {manager manager' : SigactionVirtualMemoryManager Hash} {files' : FileSystem Hash}
      (hopen : state.reader = some manager)
      (hrun : (msync setup.blocks.build manager schedule).run FileSystem.answer state.files =
        (.returned manager', files')) :
      SharedStep setup state (.readerMsync schedule)
        { state with files := files', reader := some manager' }
  | readerClose {state : SharedVersion Hash} {schedule : MsyncSchedule}
      {manager : SigactionVirtualMemoryManager Hash} {files' : FileSystem Hash}
      (hopen : state.reader = some manager)
      (hrun : (close setup.blocks.build manager schedule).run FileSystem.answer state.files =
        (.returned (), files')) :
      SharedStep setup state (.readerClose schedule)
        { state with files := files', reader := none }
  | openWriter {state : SharedVersion Hash} {maxMemBlocks capacity : ℕ} {region : ℕ → Byte}
      {manager : SigactionVirtualMemoryManager Hash} {files' : FileSystem Hash}
      (hclosed : state.writer = none)
      (hregion : setup.blocks.Denotes state.files setup.version capacity region)
      (hrun : (SigactionVirtualMemoryManager.open setup.blocks.build setup.version
        setup.writerStash maxMemBlocks false).run FileSystem.answer state.files =
          (.returned manager, files')) :
      SharedStep setup state (.openWriter maxMemBlocks)
        { state with files := files', writer := some manager, region := region }
  | writerRead {state : SharedVersion Hash} {offset : ℕ} {byte : Byte}
      {manager manager' : SigactionVirtualMemoryManager Hash} {files' : FileSystem Hash}
      (hopen : state.writer = some manager) (hfits : manager.Fits offset)
      (hrun : (readByte setup.blocks.build manager offset).run FileSystem.answer state.files =
        (.returned (byte, manager'), files')) :
      SharedStep setup state (.writerRead offset)
        { state with files := files', writer := some manager' }
  | writerWrite {state : SharedVersion Hash} {offset : ℕ} {byte : Byte}
      {manager manager' : SigactionVirtualMemoryManager Hash} {files' : FileSystem Hash}
      (hopen : state.writer = some manager) (hfits : manager.Fits offset)
      (hrun : (writeByte setup.blocks.build manager offset byte).run FileSystem.answer
        state.files = (.returned manager', files')) :
      SharedStep setup state (.writerWrite offset byte)
        { state with
          files := files'
          writer := some manager'
          region := Function.update state.region offset byte }
  | writerMsync {state : SharedVersion Hash} {schedule : MsyncSchedule} {table : List Hash}
      {manager manager' : SigactionVirtualMemoryManager Hash} {files' : FileSystem Hash}
      (hopen : state.writer = some manager)
      (hrun : (msync setup.blocks.build manager schedule).run FileSystem.answer state.files =
        (.returned manager', files'))
      (htable : files'.metadata setup.version = some table) :
      SharedStep setup state (.writerMsync schedule)
        { state with
          files := files'
          writer := some manager'
          committed := state.region
          table := table }
  | writerClose {state : SharedVersion Hash} {schedule : MsyncSchedule} {table : List Hash}
      {manager : SigactionVirtualMemoryManager Hash} {files' : FileSystem Hash}
      (hopen : state.writer = some manager)
      (hrun : (close setup.blocks.build manager schedule).run FileSystem.answer state.files =
        (.returned (), files'))
      (htable : files'.metadata setup.version = some table) :
      SharedStep setup state (.writerClose schedule)
        { state with
          files := files'
          writer := none
          committed := state.region
          table := table }

/-- When the reader commits, the names that it writes are the start of the table already. -/
def ReaderUpToDate (setup : SharedSetup Hash) (state : SharedVersion Hash) :
    SharedOperation → Prop
  | .readerMsync _ | .readerClose _ =>
      ∀ manager entries, state.reader = some manager →
        state.files.metadata setup.version = some entries →
          (List.range manager.occupiedBlocks).map manager.blocksIds <+: entries
  | _ => True

instance (setup : SharedSetup Hash) (state : SharedVersion Hash) (operation : SharedOperation) :
    Decidable (ReaderUpToDate setup state operation) :=
  have hcommit : Decidable (∀ manager entries, state.reader = some manager →
      state.files.metadata setup.version = some entries →
        (List.range manager.occupiedBlocks).map manager.blocksIds <+: entries) :=
    decidable_of_iff (∀ manager ∈ state.reader, ∀ entries ∈ state.files.metadata setup.version,
        (List.range manager.occupiedBlocks).map manager.blocksIds <+: entries)
      ⟨fun hall manager entries hreader hentries => hall manager hreader entries hentries,
        fun hall manager hreader entries hentries => hall manager entries hreader hentries⟩
  match operation with
  | .readerMsync _ | .readerClose _ => hcommit
  | .openReadOnly _ | .readerRead _ | .openWriter _ | .writerRead _ | .writerWrite _ _
  | .writerMsync _ | .writerClose _ => .isTrue trivial

/-- The table is what the writer left, and the version denotes what it committed. -/
structure SharedVersion.Undisturbed (setup : SharedSetup Hash) (capacity : ℕ)
    (state : SharedVersion Hash) : Prop where
  metadata : state.files.metadata setup.version = some state.table
  denotes : setup.blocks.Denotes state.files setup.version capacity state.committed

/-! ## Both sessions on the table that the writer left -/

/-- The reader has nothing to commit. -/
structure ReaderSession (setup : SharedSetup Hash)
    (manager : SigactionVirtualMemoryManager Hash) (files : FileSystem Hash) : Prop where
  unevicted : ∃ region, Unevicted setup.blocks (blockOf setup.blocks.blockSize region) manager files
  version : manager.versionMetadataPath = setup.version
  readOnly : manager.readOnly = true
  clean : manager.dirtyLru = []

/-- The stash directories that the sessions start with. -/
def SharedSetup.StashesNamed (setup : SharedSetup Hash) (files : FileSystem Hash) : Prop :=
  ∀ stash, stash = setup.readerStash ∨ stash = setup.writerStash →
    setup.blocks.TiersNamed (BlockStorage.initial setup.blocks.location stash
      setup.blocks.blockSize : BlockStorage Hash).tiers files

/-- Two sessions on a version that denotes what the writer committed. -/
structure SharedSessions (setup : SharedSetup Hash) (capacity : ℕ) (files : FileSystem Hash)
    (state : SharedVersion Hash) : Prop where
  denotes : setup.blocks.Denotes files setup.version capacity state.committed
  named : setup.StashesNamed files
  reader : ∀ manager, state.reader = some manager → ReaderSession setup manager files
  writer : ∀ manager, state.writer = some manager →
    UnevictedSession setup.blocks state.region manager files ∧
      manager.versionMetadataPath = setup.version

variable {capacity : ℕ} {files files' : FileSystem Hash} {state : SharedVersion Hash}
variable {manager mapped : SigactionVirtualMemoryManager Hash}

theorem ReaderSession.extend (hreader : ReaderSession setup manager files)
    (htolerates : ∀ location, (setup.blocks.at location).Tolerates files files') :
    ReaderSession setup manager files' := by
  obtain ⟨region, hunevicted⟩ := hreader.unevicted
  exact ⟨⟨region, hunevicted.extend htolerates⟩, hreader.version, hreader.readOnly, hreader.clean⟩

omit [DecidableEq Hash] in
theorem SharedSetup.StashesNamed.extend (hnamed : setup.StashesNamed files)
    (htolerates : ∀ location, (setup.blocks.at location).Tolerates files files') :
    setup.StashesNamed files' :=
  fun stash hstash location hlocation =>
    ((htolerates location).named (hnamed stash hstash location hlocation)).1

omit [DecidableEq Hash] in
theorem SharedSetup.StashesNamed.blocks (hnamed : setup.StashesNamed files) :
    setup.blocks.Named files :=
  hnamed setup.readerStash (.inl rfl) _ BlockStorage.baseDirectory_mem_tiers

/-- Adding blocks keeps both sessions. -/
theorem SharedSessions.extend (hsessions : SharedSessions setup capacity files state)
    (hpromises : ∀ location, (setup.blocks.at location).Promises files files') :
    SharedSessions setup capacity files' state where
  denotes := by
    have hbase : setup.blocks.Promises files files' := hpromises setup.blocks.location
    obtain ⟨entries, hversion, hnames⟩ := hsessions.denotes
    exact ⟨entries, hversion.keep hbase, fun block hblock =>
      (hnames block hblock).keep (hbase.named hsessions.named.blocks).2⟩
  named := hsessions.named.extend fun location => (hpromises location).toTolerates
  reader := fun manager hopen =>
    (hsessions.reader manager hopen).extend fun location => (hpromises location).toTolerates
  writer := fun manager hopen =>
    ⟨(hsessions.writer manager hopen).1.extend hpromises, (hsessions.writer manager hopen).2⟩

/-! ## Steps of the reader -/

/-- Opening leaves a session without resident blocks. -/
theorem SharedSessions.open_returned (hpos : 0 < setup.blocks.blockSize)
    (hsessions : SharedSessions setup capacity files state) {stash : Path} (hstash : stash ≠ [])
    (hsetup : stash = setup.readerStash ∨ stash = setup.writerStash) {maxMemBlocks : ℕ}
    {readOnly : Bool} {region : ℕ → Byte} {capacity' : ℕ}
    (hregion : setup.blocks.Denotes files setup.version capacity' region)
    (hrun : (SigactionVirtualMemoryManager.open setup.blocks.build setup.version stash
      maxMemBlocks readOnly).run FileSystem.answer files = (.returned manager, files')) :
    SharedSessions setup capacity files' state ∧
      UnevictedSession setup.blocks region manager files' ∧
      manager.versionMetadataPath = setup.version ∧ manager.readOnly = readOnly ∧
      manager.dirtyLru = [] ∧ files'.metadata = files.metadata := by
  obtain ⟨hsession, hversion⟩ := UnevictedSession.of_open hpos hstash hregion
    (hsessions.named stash hsetup) hrun
  obtain ⟨entries, hhas, -⟩ := hregion
  obtain ⟨base, middle, hbase, hinitial⟩ := Program.run_bind_returned hrun
  obtain ⟨rfl, rfl⟩ := VirtualMemoryManagerBase.open_returned hstash hhas hbase
  obtain ⟨hmanager, rfl⟩ := Prod.mk.inj hinitial
  obtain rfl := Outcome.returned.inj hmanager
  exact ⟨hsessions.extend fun _ => BlocksDirectory.promises_createDirectory _, hsession, hversion,
    rfl, rfl, rfl⟩

/-- A read of the reader. -/
theorem ReaderSession.read_returned (hsound : setup.blocks.build.Sound)
    (hreader : ReaderSession setup manager files) {offset : ℕ} (hfits : manager.Fits offset)
    {byte : Byte}
    (hrun : (manager.readByte setup.blocks.build offset).run FileSystem.answer files =
      (.returned (byte, mapped), files')) :
    ReaderSession setup mapped files' ∧
      ∀ location, (setup.blocks.at location).Promises files files' := by
  obtain ⟨other, between, haccess, hlast⟩ := Program.run_bind_returned hrun
  obtain ⟨hresult, rfl⟩ := Prod.mk.inj hlast
  obtain ⟨-, rfl⟩ := Prod.mk.inj (Outcome.returned.inj hresult)
  obtain ⟨region, hunevicted⟩ := hreader.unevicted
  obtain ⟨hmapped, haccessed, -⟩ := hunevicted.access_returned hsound hfits.1 hfits.2 haccess
  refine ⟨⟨⟨region, hmapped⟩, ?_, ?_, ?_⟩, haccessed.promises⟩
  · rw [haccessed.session.versionMetadataPath, hreader.version]
  · rw [haccessed.session.readOnly, hreader.readOnly]
  · rw [haccessed.dirty hreader.readOnly, hreader.clean]

/-- The reader's commit writes its names over the start of the table. -/
theorem ReaderSession.run_msync (hreader : ReaderSession setup manager files)
    {entries : List Hash} (hmetadata : files.metadata setup.version = some entries)
    (schedule : MsyncSchedule) :
    (manager.msync setup.blocks.build schedule).run FileSystem.answer files =
      (.returned manager, files.setMetadata setup.version
        (some (overwrite ((List.range manager.occupiedBlocks).map manager.blocksIds)
          entries))) := by
  obtain ⟨region, hunevicted⟩ := hreader.unevicted
  rw [← hreader.version] at hmetadata ⊢
  exact SigactionVirtualMemoryManager.run_msync_clean _ hreader.clean hunevicted.pages.stashSet
    hmetadata schedule

/-- A commit of the reader leaves the table alone exactly when it is up to date. -/
theorem SharedSessions.reader_commits (hsessions : SharedSessions setup capacity files state)
    (hmetadata : files.metadata setup.version = some state.table)
    (hopen : state.reader = some manager) {schedule : MsyncSchedule}
    (hrun : (manager.msync setup.blocks.build schedule).run FileSystem.answer files =
      (.returned mapped, files')) :
    mapped = manager ∧ files'.setMetadata setup.version (some state.table) = files ∧
      (files'.metadata setup.version = some state.table ↔
        (List.range manager.occupiedBlocks).map manager.blocksIds <+: state.table) := by
  have hwritten := (hsessions.reader manager hopen).run_msync hmetadata schedule
  obtain ⟨hmapped, rfl⟩ := Prod.mk.inj (hwritten.symm.trans hrun)
  refine ⟨(Outcome.returned.inj hmapped).symm, ?_, ?_⟩
  · rw [FileSystem.setMetadata_setMetadata, FileSystem.setMetadata_eq_self hmetadata]
  · rw [FileSystem.setMetadata_self, Option.some.injEq, overwrite_eq_self_iff]

/-! ## Steps of the writer -/

/-- An access of the writer. -/
theorem SharedSessions.writer_access (hsound : setup.blocks.build.Sound)
    (hsessions : SharedSessions setup capacity files state)
    (hopen : state.writer = some manager) {offset : ℕ} (hfits : manager.Fits offset)
    {isWrite : Bool}
    (hrun : (manager.access setup.blocks.build offset isWrite).run FileSystem.answer files =
      (.returned mapped, files')) :
    SharedSessions setup capacity files' state ∧
      UnevictedSession setup.blocks state.region mapped files' ∧
      mapped.versionMetadataPath = setup.version ∧
      (mapped.protection (offset / manager.blockSize)).permits isWrite ∧
      mapped.blockSize = manager.blockSize ∧ files'.metadata = files.metadata := by
  obtain ⟨hsession, hversion⟩ := hsessions.writer manager hopen
  obtain ⟨hmapped, haccessed, hpermits⟩ := hsession.access_returned hsound hfits.1 hfits.2 hrun
  exact ⟨hsessions.extend haccessed.promises, hmapped,
    haccessed.session.versionMetadataPath.trans hversion, hpermits, haccessed.session.blockSize,
    (haccessed.promises []).metadata⟩

/-- A commit of the writer is what the version denotes from then on. -/
theorem SharedSessions.writer_commits (hsound : setup.blocks.build.Sound)
    (hsessions : SharedSessions setup capacity files state)
    (hopen : state.writer = some manager) {schedule : MsyncSchedule}
    (hrun : (manager.msync setup.blocks.build schedule).run FileSystem.answer files =
      (.returned mapped, files')) :
    setup.blocks.Denotes files' setup.version capacity state.region ∧
      (∀ location, (setup.blocks.at location).Tolerates files files') ∧
      UnevictedSession setup.blocks state.region mapped files' ∧
      mapped.versionMetadataPath = setup.version := by
  obtain ⟨hsession, hversion⟩ := hsessions.writer manager hopen
  obtain ⟨committed, final, hmsync, hcommitted, hsame, hdenotes, -, htolerates⟩ :=
    hsession.run_msync hsound schedule
  obtain ⟨hmapped, rfl⟩ := Prod.mk.inj (hmsync.symm.trans hrun)
  obtain rfl := Outcome.returned.inj hmapped
  have hcapacity : manager.regionMaxCapacity = capacity := by
    obtain ⟨entries, htabled⟩ := hsession.table
    obtain ⟨entries', hhas, -⟩ := hsessions.denotes
    have htext := htabled.version.capacityText
    rw [hversion] at htext
    exact Text.number.inj (Option.some.inj (Option.some.inj
      (htext.symm.trans hhas.capacityText)))
  rw [hversion, hcapacity] at hdenotes
  exact ⟨hdenotes, htolerates, hcommitted, hsame.versionMetadataPath.trans hversion⟩

/-! ## Any number of operations -/

/-- What holds of the two sessions even when the reader has written over the table, were it
put back. -/
def SharedVersion.Attended (setup : SharedSetup Hash) (capacity : ℕ)
    (state : SharedVersion Hash) : Prop :=
  SharedSessions setup capacity (state.files.setMetadata setup.version (some state.table)) state

/-- The table is what the writer left after a step exactly when the reader was up to date. -/
theorem SharedSessions.step (hsound : setup.blocks.build.Sound)
    (hpos : 0 < setup.blocks.blockSize) (hreader : setup.readerStash ≠ [])
    (hwriter : setup.writerStash ≠ []) {next : SharedVersion Hash} {operation : SharedOperation}
    (hsessions : SharedSessions setup capacity state.files state)
    (hmetadata : state.files.metadata setup.version = some state.table)
    (hstep : SharedStep setup state operation next) :
    next.Attended setup capacity ∧
      (next.files.metadata setup.version = some next.table ↔
        ReaderUpToDate setup state operation) := by
  -- All but the commits of the reader leave the table as the writer knows it.
  have hkept : ∀ {next : SharedVersion Hash},
      SharedSessions setup capacity next.files next →
        next.files.metadata setup.version = some next.table → next.Attended setup capacity := by
    intro next hnext htable
    rw [SharedVersion.Attended, FileSystem.setMetadata_eq_self htable]
    exact hnext
  -- The reader's condition speaks of the table that is there.
  have htable : ∀ manager, state.reader = some manager →
      ((List.range manager.occupiedBlocks).map manager.blocksIds <+: state.table ↔
        ∀ manager entries, state.reader = some manager →
          state.files.metadata setup.version = some entries →
            (List.range manager.occupiedBlocks).map manager.blocksIds <+: entries) := by
    intro manager hopen
    constructor
    · intro hprefix other entries hother hentries
      obtain rfl := Option.some.inj (hopen.symm.trans hother)
      obtain rfl := Option.some.inj (hmetadata.symm.trans hentries)
      exact hprefix
    · exact fun hall => hall manager state.table hopen hmetadata
  cases hstep with
  | @openReadOnly maxMemBlocks manager files' hclosed hrun =>
      obtain ⟨hopened, hsession, hversion, hreadOnly, hclean, hsame⟩ :=
        hsessions.open_returned hpos hreader (.inl rfl) hsessions.denotes hrun
      have hmetadata' : files'.metadata setup.version = some state.table := by
        rw [hsame, hmetadata]
      refine ⟨hkept ⟨hopened.denotes, hopened.named, ?_, hopened.writer⟩ hmetadata',
        iff_of_true hmetadata' trivial⟩
      rintro other ⟨⟩
      exact ⟨⟨_, hsession.unevicted⟩, hversion, hreadOnly, hclean⟩
  | @readerRead offset byte manager manager' files' hopen hfits hrun =>
      obtain ⟨hread, hpromises⟩ :=
        (hsessions.reader manager hopen).read_returned hsound hfits hrun
      have hextended := hsessions.extend hpromises
      have hmetadata' : files'.metadata setup.version = some state.table := by
        rw [(hpromises []).metadata, hmetadata]
      refine ⟨hkept ⟨hextended.denotes, hextended.named, ?_, hextended.writer⟩ hmetadata',
        iff_of_true hmetadata' trivial⟩
      rintro other ⟨⟩
      exact hread
  | @readerMsync schedule manager manager' files' hopen hrun =>
      obtain ⟨rfl, hrestored, hexact⟩ := hsessions.reader_commits hmetadata hopen hrun
      refine ⟨?_, hexact.trans (htable manager' hopen)⟩
      rw [SharedVersion.Attended]
      dsimp only
      rw [hrestored]
      refine ⟨hsessions.denotes, hsessions.named, ?_, hsessions.writer⟩
      rintro other ⟨⟩
      exact hsessions.reader manager' hopen
  | @readerClose schedule manager files' hopen hrun =>
      obtain ⟨committed, between, hmsync, hlast⟩ := Program.run_bind_returned hrun
      obtain ⟨-, rfl⟩ := Prod.mk.inj hlast
      obtain ⟨rfl, hrestored, hexact⟩ := hsessions.reader_commits hmetadata hopen hmsync
      refine ⟨?_, hexact.trans (htable committed hopen)⟩
      rw [SharedVersion.Attended]
      dsimp only
      rw [hrestored]
      exact ⟨hsessions.denotes, hsessions.named, nofun, hsessions.writer⟩
  | @openWriter maxMemBlocks capacity' region manager files' hclosed hregion hrun =>
      obtain ⟨hopened, hsession, hversion, -, -, hsame⟩ :=
        hsessions.open_returned hpos hwriter (.inr rfl) hregion hrun
      have hmetadata' : files'.metadata setup.version = some state.table := by
        rw [hsame, hmetadata]
      refine ⟨hkept ⟨hopened.denotes, hopened.named, hopened.reader, ?_⟩ hmetadata',
        iff_of_true hmetadata' trivial⟩
      rintro other ⟨⟩
      exact ⟨hsession, hversion⟩
  | @writerRead offset byte manager manager' files' hopen hfits hrun =>
      obtain ⟨mapped, between, haccess, hlast⟩ := Program.run_bind_returned hrun
      obtain ⟨hresult, rfl⟩ := Prod.mk.inj hlast
      obtain ⟨-, rfl⟩ := Prod.mk.inj (Outcome.returned.inj hresult)
      obtain ⟨hextended, hsession, hversion, -, -, hsame⟩ :=
        hsessions.writer_access hsound hopen hfits haccess
      have hmetadata' : between.metadata setup.version = some state.table := by
        rw [hsame, hmetadata]
      refine ⟨hkept ⟨hextended.denotes, hextended.named, hextended.reader, ?_⟩ hmetadata',
        iff_of_true hmetadata' trivial⟩
      rintro other ⟨⟩
      exact ⟨hsession, hversion⟩
  | @writerWrite offset byte manager manager' files' hopen hfits hrun =>
      obtain ⟨mapped, between, haccess, hlast⟩ := Program.run_bind_returned hrun
      obtain ⟨hresult, rfl⟩ := Prod.mk.inj hlast
      obtain rfl := Outcome.returned.inj hresult
      obtain ⟨hextended, hsession, hversion, hpermits, hblockSize, hsame⟩ :=
        hsessions.writer_access hsound hopen hfits haccess
      have hmetadata' : between.metadata setup.version = some state.table := by
        rw [hsame, hmetadata]
      rw [← hblockSize] at hpermits
      refine ⟨hkept ⟨hextended.denotes, hextended.named, hextended.reader, ?_⟩ hmetadata',
        iff_of_true hmetadata' trivial⟩
      rintro other ⟨⟩
      exact ⟨hsession.write hpermits byte, hversion⟩
  | @writerMsync schedule table manager manager' files' hopen hrun htable' =>
      obtain ⟨hdenotes, htolerates, hcommitted, hversion⟩ :=
        hsessions.writer_commits hsound hopen hrun
      refine ⟨hkept ⟨hdenotes, hsessions.named.extend htolerates,
        fun other hother => (hsessions.reader other hother).extend htolerates, ?_⟩ htable',
        iff_of_true htable' trivial⟩
      rintro other ⟨⟩
      exact ⟨hcommitted, hversion⟩
  | @writerClose schedule table manager files' hopen hrun htable' =>
      obtain ⟨committed, between, hmsync, hlast⟩ := Program.run_bind_returned hrun
      obtain ⟨-, rfl⟩ := Prod.mk.inj hlast
      obtain ⟨hdenotes, htolerates, -, -⟩ := hsessions.writer_commits hsound hopen hmsync
      exact ⟨hkept ⟨hdenotes, hsessions.named.extend htolerates,
        fun other hother => (hsessions.reader other hother).extend htolerates, nofun⟩ htable',
        iff_of_true htable' trivial⟩

/-- However the two sessions take turns, the version stays what the writer committed exactly
as long as the reader is up to date whenever it commits. -/
theorem undisturbed_iff_reader_up_to_date (hsound : setup.blocks.build.Sound)
    (hpos : 0 < setup.blocks.blockSize) (hreader : setup.readerStash ≠ [])
    (hwriter : setup.writerStash ≠ []) {start : SharedVersion Hash}
    (hclosed : start.reader = none ∧ start.writer = none)
    (hnamed : setup.StashesNamed start.files) (hstart : start.Undisturbed setup capacity)
    {trace : List (SharedOperation × SharedVersion Hash)}
    (hrun : Run (SharedStep setup) start trace) :
    (∀ state ∈ Run.states start trace, state.Undisturbed setup capacity) ↔
      Run.Each (ReaderUpToDate setup) start trace := by
  have hsessions : SharedSessions setup capacity start.files start := by
    refine ⟨hstart.denotes, hnamed, fun manager hopen => ?_, fun manager hopen => ?_⟩
    · exact absurd (hclosed.1.symm.trans hopen) nofun
    · exact absurd (hclosed.2.symm.trans hopen) nofun
  have hattended : ∀ {state : SharedVersion Hash}, state.Attended setup capacity →
      state.files.metadata setup.version = some state.table →
        SharedSessions setup capacity state.files state := by
    intro state hattended htable
    rw [SharedVersion.Attended, FileSystem.setMetadata_eq_self htable] at hattended
    exact hattended
  refine hrun.forall_states_iff (fun state operation next halways hundisturbed hstep => ?_)
    (?_ : start.Attended setup capacity) hstart
  · obtain ⟨hnext, hexact⟩ := SharedSessions.step hsound hpos hreader hwriter
      (hattended halways hundisturbed.metadata) hundisturbed.metadata hstep
    refine ⟨hnext, ?_⟩
    rw [← hexact]
    exact ⟨fun hundisturbed' => hundisturbed'.metadata, fun htable =>
      ⟨htable, (hattended hnext htable).denotes⟩⟩
  · rw [SharedVersion.Attended, FileSystem.setMetadata_eq_self hstart.metadata]
    exact hsessions

/-- A new version with two blocks of one byte. -/
def sharedBytes : SharedSetup (Option (List Byte)) where
  blocks := byteBlocks
  version := ['/', 'v']
  readerStash := ['/', 'r']
  writerStash := ['/', 's']

def sharedBytesStart : SharedVersion (Option (List Byte)) where
  files := ((VirtualMemoryManagerBase.create byteBlocks.build 2 byteBlocks.blockSize 0
    ['/', 'v'] byteBlocks.location ['/', 's'] false).run FileSystem.answer FileSystem.empty).2
  reader := none
  writer := none
  region := fun _ => 0
  committed := fun _ => 0
  table := []

theorem sharedBytesStart_undisturbed : sharedBytesStart.Undisturbed sharedBytes 2 where
  metadata := rfl
  denotes := ⟨[], ⟨rfl, rfl, rfl, rfl, by decide⟩, fun _ _ => .inl ⟨rfl, rfl⟩⟩

theorem undisturbed_iff_reader_up_to_date_bytes :
    ∃ trace, trace.map Prod.fst = [.openWriter 0, .writerWrite 0 5, .writerMsync ⟨[], []⟩,
        .openReadOnly 0, .readerRead 0, .writerWrite 1 7, .readerMsync ⟨[], []⟩,
        .writerClose ⟨[], []⟩, .readerClose ⟨[], []⟩] ∧
      Run (SharedStep sharedBytes) sharedBytesStart trace ∧
      ∀ state ∈ Run.states sharedBytesStart trace, state.Undisturbed sharedBytes 2 := by
  have hrun : Run (SharedStep sharedBytes) sharedBytesStart
      [(.openWriter 0, _), (.writerWrite 0 5, _), (.writerMsync ⟨[], []⟩, _),
        (.openReadOnly 0, _), (.readerRead 0, _), (.writerWrite 1 7, _),
        (.readerMsync ⟨[], []⟩, _), (.writerClose ⟨[], []⟩, _), (.readerClose ⟨[], []⟩, _)] :=
    .cons (.openWriter rfl sharedBytesStart_undisturbed.denotes rfl)
      (.cons (.writerWrite rfl ⟨by decide, .inr (by decide)⟩ rfl)
        (.cons (.writerMsync rfl rfl rfl)
          (.cons (.openReadOnly rfl rfl)
            (.cons (.readerRead rfl ⟨by decide, .inr (by decide)⟩ rfl)
              (.cons (.writerWrite rfl ⟨by decide, .inr (by decide)⟩ rfl)
                (.cons (.readerMsync rfl rfl)
                  (.cons (.writerClose rfl rfl rfl) (.cons (.readerClose rfl rfl) .nil))))))))
  refine ⟨_, rfl, hrun, ?_⟩
  exact (undisturbed_iff_reader_up_to_date Build.transparent_sound (by decide) (by decide)
    (by decide) ⟨rfl, rfl⟩ (fun _ _ _ _ _ _ _ hbytes => by cases hbytes)
    sharedBytesStart_undisturbed hrun).mpr (by decide +kernel)

/-- A reader that read block 0 before the writer committed it takes the commit back when it
is closed. -/
theorem reader_reverts_commit :
    ∃ trace, trace.map Prod.fst = [.openWriter 0, .openReadOnly 0, .readerRead 0,
        .writerWrite 0 5, .writerClose ⟨[], []⟩, .readerClose ⟨[], []⟩] ∧
      Run (SharedStep sharedBytes) sharedBytesStart trace ∧
      ∃ state ∈ Run.states sharedBytesStart trace,
        state.reader = none ∧ state.writer = none ∧ state.committed 0 = 5 ∧
          denotedBlocks .transparent state.files ['/', 'v'] = some [some [0], some [0]] ∧
          ¬ state.Undisturbed sharedBytes 2 := by
  refine ⟨[(.openWriter 0, _), (.openReadOnly 0, _), (.readerRead 0, _), (.writerWrite 0 5, _),
        (.writerClose ⟨[], []⟩, _), (.readerClose ⟨[], []⟩, _)], rfl,
    .cons (.openWriter rfl sharedBytesStart_undisturbed.denotes rfl)
      (.cons (.openReadOnly rfl rfl)
        (.cons (.readerRead rfl ⟨by decide, .inr (by decide)⟩ rfl)
          (.cons (.writerWrite rfl ⟨by decide, .inr (by decide)⟩ rfl)
            (.cons (.writerClose rfl rfl rfl) (.cons (.readerClose rfl rfl) .nil))))),
    _, .tail _ (.tail _ (.tail _ (.tail _ (.tail _ (.tail _ (.head _)))))), rfl, rfl, rfl,
    by decide +kernel, fun hundisturbed => ?_⟩
  exact absurd hundisturbed.metadata (by decide +kernel)

end Privateer
