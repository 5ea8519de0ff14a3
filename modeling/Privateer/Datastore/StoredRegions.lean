import Privateer.Datastore.RegionStore
import Privateer.Datastore.Dispatch

/-!
# A datastore is a store of byte regions

A version that is created holds zeros, one that is opened shows what it denotes, and
`open_immutable` copies it.  So any number of sessions, with their resident, evicted, stashed
and committed blocks, follow a store of plain arrays of bytes.
-/

namespace Privateer

open BlocksDirectory (versions_bind versions_finish)
open SigactionVirtualMemoryManager (Coherent Live Works)
open VirtualMemoryManagerBase (Backing)

variable {Hash : Type} [DecidableEq Hash] {blocks : BlocksDirectory Hash}
variable {files files' : FileSystem Hash} {state next : VersionsState Hash}
variable {request : VersionsRequest Hash} {store store' : RegionStore} {session : ℕ}
variable {version : Path} {manager : SigactionVirtualMemoryManager Hash}

/-! ## Starts -/

section Starts

variable {object : PrivateerObject Hash} {opening : Opening} {address : ℕ}

/-- Either a session is there, or the process is gone. -/
theorem VersionsState.Orderly.start_cases (hpos : 0 < blocks.blockSize)
    (horderly : state.Orderly blocks)
    (hstep : VersionsStep blocks runToEnd state (.start session object opening address) next) :
    (∃ manager, (opening.program blocks.build object address).run FileSystem.answer state.files =
        (.returned manager, next.files) ∧ next.sessions session = some manager) ∨
      (opening.program blocks.build object address).run FileSystem.answer state.files =
        (.exited, next.files) ∧ next.sessions session = none := by
  obtain ⟨-, htier, hallowed, outcome, files', hends, hafter⟩ := hstep
  have howned : ∀ version ∈ opening.creates object,
      Resource.version version ∈ holding ∅ (opening.creates object) := version_mem_holding
  cases hrun : (opening.program blocks.build object address).run FileSystem.answer
      state.files with
  | mk ended final =>
      obtain ⟨-, hdefined, -⟩ := Contract.runsTo_of_ensures_guarantee
        (opening.versions_program hpos htier horderly.consistent hallowed howned)
        (Program.runsTo_of_run (fun _ _ => rfl) hrun)
      cases ended with
      | returned manager =>
          have hreturned := (Program.run_bind_of_returned hrun).symm.trans hends
          cases hreturned
          rw [show next = _ from hafter]
          exact .inl ⟨manager, rfl, Function.update_self _ _ _⟩
      | exited =>
          have hexited := (Program.run_bind_of_exited hrun).symm.trans hends
          cases hexited
          rw [show next = _ from hafter]
          exact .inr ⟨rfl, Function.update_self _ _ _⟩
      | undefined => exact absurd rfl hdefined

/-- The number of blocks of a new region. -/
theorem div_roundedUp {regionSize blockSize : ℕ} (hpos : 0 < blockSize) :
    (if regionSize % blockSize ≠ 0 ∧ regionSize ≠ 0 then
      (regionSize / blockSize + 1) * blockSize else regionSize) / blockSize =
        (regionSize + (blockSize - 1)) / blockSize := by
  have hdiv := Nat.div_add_mod regionSize blockSize
  have hmod := Nat.mod_lt regionSize hpos
  by_cases hmultiple : regionSize % blockSize = 0
  · rw [if_neg (fun h => h.1 hmultiple)]
    have hsum : regionSize + (blockSize - 1) =
        (blockSize - 1) + blockSize * (regionSize / blockSize) := by omega
    have hlast : blockSize - 1 < blockSize := Nat.sub_lt hpos Nat.one_pos
    rw [hsum, Nat.add_mul_div_left _ _ hpos, Nat.div_eq_of_lt hlast, Nat.zero_add]
  · have hne : regionSize ≠ 0 := by
      rintro rfl
      exact hmultiple (Nat.zero_mod _)
    rw [if_pos ⟨hmultiple, hne⟩, Nat.mul_div_cancel _ hpos]
    have hsum : regionSize + (blockSize - 1) =
        (regionSize % blockSize - 1) + blockSize * (regionSize / blockSize + 1) := by
      rw [Nat.mul_add, Nat.mul_one]
      omega
    have hlast : regionSize % blockSize - 1 < blockSize := (Nat.sub_le _ _).trans_lt hmod
    rw [hsum, Nat.add_mul_div_left _ _ hpos, Nat.div_eq_of_lt hlast, Nat.zero_add]

/-- What a version denotes says what its entries stand for. -/
theorem ByteRegion.names_of_denoted (hsound : blocks.build.Sound)
    (hcompression : blocks.build.useCompression = false) (hnamed : blocks.Named files)
    {capacity : ℕ} {entries : List Hash} (hintact : blocks.Intact files version capacity entries)
    {region : ByteRegion} (hdenotes : denotedBlocks blocks.build files version =
      some (region.denoted blocks.blockSize)) :
    region.numBlocks = capacity / blocks.blockSize ∧ ∀ block < capacity / blocks.blockSize,
      blocks.Names files (entries.getD block blocks.build.emptyBlockHash)
        (blockOf blocks.blockSize region.bytes block) := by
  choose contents hcontents using hintact.exists_names
  have hblocks := (BlocksDirectory.denotedBlocks_eq_some_iff hsound hcompression hnamed
    hintact.toHasVersion contents).mpr fun block _ => hcontents block
  have hsame : (List.range region.numBlocks).map (fun block =>
      some (blockOf blocks.blockSize region.bytes block)) =
        (List.range (capacity / blocks.blockSize)).map fun block => some (contents block) :=
    Option.some.inj (hdenotes.symm.trans hblocks)
  have hnum : region.numBlocks = capacity / blocks.blockSize := by
    simpa using congrArg List.length hsame
  refine ⟨hnum, ?_⟩
  rw [ByteRegion.denoted, hnum] at hdenotes
  exact (BlocksDirectory.denotedBlocks_eq_some_iff hsound hcompression hnamed
    hintact.toHasVersion _).mp hdenotes

/-- A session that was just started works on what its version denotes. -/
theorem SigactionVirtualMemoryManager.works_initial (hsound : blocks.build.Sound)
    (hcompression : blocks.build.useCompression = false) (hpos : 0 < blocks.blockSize)
    (hnamed : blocks.Named files) {stashPath : Path}
    (htier : pathPrefix blocks.location = pathPrefix stashPath)
    (hdirectory : files.directories (.path stashPath)) {capacity : ℕ} {entries : List Hash}
    (hintact : blocks.Intact files version capacity entries) {region : ByteRegion}
    (hdenotes : denotedBlocks blocks.build files version =
      some (region.denoted blocks.blockSize)) (maxMemBlocks : ℕ) (readOnly : Bool) :
    Works blocks files (.initial (.initial version capacity blocks.blockSize maxMemBlocks readOnly
      (BlockStorage.initial blocks.location stashPath blocks.blockSize)
        fun block => entries.getD block blocks.build.emptyBlockHash))
      ⟨version, region, readOnly⟩ := by
  obtain ⟨hnum, hnames⟩ := region.names_of_denoted hsound hcompression hnamed hintact hdenotes
  exact
    { name := rfl
      readOnly := rfl
      numBlocks := hnum
      clean := fun _ => rfl
      coherent := Coherent.of_backing rfl hpos
        (VirtualMemoryManagerBase.initial_limit _ _ _ _ _ _ _)
        (Backing.initial hnamed htier hdirectory (fun _ => length_blockOf _ _ _) hnames _ _ _) }

omit [DecidableEq Hash] in
/-- A version that has all its files can be opened. -/
theorem BlocksDirectory.Intact.openable {capacity : ℕ} {entries : List Hash}
    (hintact : blocks.Intact files version capacity entries) (hlocated : blocks.Located files)
    (hcapacity : capacity ≠ 0) :
    Openable version blocks.location blocks.blockSize capacity files where
  housed := hintact.directory
  located := ⟨_, hintact.blocksPath, rfl⟩
  directory := hlocated version (by rw [hintact.metadata]; rfl)
  granularity := hintact.granularity
  capacityText := hintact.capacityText
  capacity_ne := hcapacity
  table := ⟨entries, hintact.metadata, hintact.length_le⟩

/-- An object that opened a version works on what it denotes. -/
theorem PrivateerObject.works_of_open (hsound : blocks.build.Sound)
    (hcompression : blocks.build.useCompression = false) (hpos : 0 < blocks.blockSize)
    (htier : object.OnTier blocks) (hconsistent : blocks.Consistent files') {name : Path}
    {maxMemBlocks : ℕ} {readOnly : Bool} {opened : PrivateerObject Hash}
    (hrun : (object.open blocks.build name maxMemBlocks readOnly address).run FileSystem.answer
      files = (.returned opened, files')) {content : Option ByteRegion}
    (hdenotes : denotedBlocks blocks.build files' (object.versionPath name) =
      content.map (ByteRegion.denoted blocks.blockSize)) :
    ∃ mapped region, opened.managers.getLast? = some mapped ∧ content = some region ∧
      Works blocks files' mapped.manager ⟨object.versionPath name, region, readOnly⟩ := by
  obtain ⟨_, blocksPath, blockSize, capacity, -, hopenable, -, hkeeps⟩ :=
    openable_of_openObject hrun
  obtain ⟨text, hpath, hsame⟩ := hopenable.located
  cases hconsistent.location _ text hpath
  cases hsame
  cases hconsistent.granularity _ hopenable.granularity
  obtain ⟨entries, hentries, hlength⟩ := hopenable.table
  have hintact : blocks.Intact files' (object.versionPath name) capacity entries :=
    ⟨⟨hpath, hopenable.capacityText, hopenable.granularity, hentries, hlength⟩,
      hopenable.housed, hconsistent.entries _ entries hentries⟩
  have hbefore : blocks.HasVersion files (object.versionPath name) capacity entries :=
    { blocksPath := hkeeps.texts ▸ hpath
      capacityText := hkeeps.texts ▸ hopenable.capacityText
      granularity := hkeeps.texts ▸ hopenable.granularity
      metadata := hkeeps.metadata ▸ hentries
      length_le := hlength }
  obtain ⟨manager, hmanager, rfl⟩ := open_returned hrun
  obtain ⟨base, between, hbase, hlast⟩ := Program.run_bind_returned hmanager
  cases hlast
  obtain ⟨rfl, rfl⟩ := VirtualMemoryManagerBase.open_returned htier.stash_ne_nil hbefore hbase
  obtain ⟨region, hregion⟩ : ∃ region, content = some region := by
    choose contents hcontents using hintact.exists_names
    have hblocks := (BlocksDirectory.denotedBlocks_eq_some_iff hsound hcompression
      hconsistent.named hintact.toHasVersion contents).mpr fun block _ => hcontents block
    rw [hdenotes] at hblocks
    cases content with
    | none => cases hblocks
    | some region => exact ⟨region, rfl⟩
  subst hregion
  exact ⟨_, region, PrivateerObject.getLast?_addManager _ _ _, rfl,
    SigactionVirtualMemoryManager.works_initial hsound hcompression hpos hconsistent.named
      htier.singleTiered (files.setDirectory_self _) hintact hdenotes maxMemBlocks readOnly⟩

/-! ### Failing -/

/-- A start that failed leaves the names in use alone. -/
theorem VersionsState.Follows.start_fails (hsound : blocks.build.Sound)
    (hcompression : blocks.build.useCompression = false) (hpos : 0 < blocks.blockSize)
    (hfollows : state.Follows blocks store)
    (hstep : VersionsStep blocks runToEnd state (.start session object opening address) next)
    (hsession : next.sessions session = none) :
    ∃ store', store.Fails (opening.creates object) store' ∧ next.Follows blocks store' := by
  obtain ⟨left, hfails, hnext⟩ := hfollows.fails hsound hcompression hpos hstep.killedAnywhere
    (hfollows.settled.step hsound hpos hstep) (fun version => Iff.rfl)
    (fun version hcreates htable => hstep.files_eq_of_exists hpos
      hfollows.settled.orderly.consistent hcreates htable) hsession
  have hnone : left.copies session = none := by
    rw [hfails.1]
    exact hfollows.copies_eq_none hstep.1
  change next.Follows blocks (left.drop session) at hnext
  rw [VersionStore.drop_eq_self hnone] at hnext
  exact ⟨left, hfails, hnext⟩

/-- A new version of its own makes room, unless its directory is in the way. -/
theorem PrivateerObject.run_create_of_missing (hpos : 0 < blocks.blockSize)
    (htier : object.OnTier blocks) (hblockSize : object.blockSize = blocks.blockSize)
    {name : Path} (hmissing : files.metadata (object.versionPath name) = none)
    {regionSize : ℕ} (hsize : regionSize ≠ 0) (maxMemBlocks : ℕ) :
    ∃ created files', (object.create blocks.build name regionSize maxMemBlocks true address).run
      FileSystem.answer files = (.returned created, files') := by
  unfold PrivateerObject.create SigactionVirtualMemoryManager.create
    VirtualMemoryManagerBase.create
  rw [if_neg (hblockSize ▸ hpos.ne'), hblockSize, htier.location]
  have hcapacity : (if regionSize % blocks.blockSize ≠ 0 ∧ regionSize ≠ 0 then
      (regionSize / blocks.blockSize + 1) * blocks.blockSize else regionSize) ≠ 0 :=
    ((Nat.pos_of_ne_zero hsize).trans_le (regionSize_le_roundedUp hpos)).ne'
  generalize (if regionSize % blocks.blockSize ≠ 0 ∧ regionSize ≠ 0 then
    (regionSize / blocks.blockSize + 1) * blocks.blockSize else regionSize) = capacity at hcapacity
  obtain ⟨made, hmade⟩ : ∃ made, (createVersionMetadata (object.versionPath name) blocks.location
      capacity true).run FileSystem.answer files = (.returned (), made) := by
    rcases run_createVersionMetadata_of_missing hmissing with hreturned | hexited
    · exact hreturned
    · cases hdirectory : files.directories (.path (object.versionPath name)) with
      | false =>
          have hcreated := run_createMetadataFiles
            (files.setDirectory_self (.path (object.versionPath name))) hmissing
              blocks.location capacity
          simp [createVersionMetadata, FileSystem.answer, hdirectory, hcreated] at hexited
      | true =>
          have hcreated := run_createMetadataFiles hdirectory hmissing blocks.location capacity
          simp [createVersionMetadata, FileSystem.answer, hdirectory, hmissing, hcreated]
            at hexited
  simp only [Program.bind_assoc]
  rw [Program.run_bind_of_returned hmade,
    Program.run_bind_of_returned (run_createStorage htier.stash_ne_nil _ _)]
  have hmapped : decide (capacity ≠ 0) = true := by simpa using hcapacity
  simp only [Program.request_bind, Program.run_call, FileSystem.answer, hmapped, if_true]
  exact ⟨_, _, rfl⟩

/-- What keeps a session from being started. -/
theorem VersionsState.Follows.mayFail (hsound : blocks.build.Sound)
    (hcompression : blocks.build.useCompression = false) (hpos : 0 < blocks.blockSize)
    (hfollows : state.Follows blocks store) (htier : object.OnTier blocks)
    (hallowed : opening.Allowed blocks object state.files)
    (hrun : (opening.program blocks.build object address).run FileSystem.answer state.files =
      (.exited, files')) : opening.MayFail object store := by
  cases opening with
  | create name regionSize maxMemBlocks allowOverwrite =>
      by_contra hfails
      obtain ⟨hoverwrite, hsize⟩ := not_or.mp hfails
      rw [Bool.not_eq_false] at hoverwrite
      subst hoverwrite
      obtain ⟨created, between, hcreated⟩ := PrivateerObject.run_create_of_missing hpos htier
        hallowed.1 (hallowed.2 rfl) hsize maxMemBlocks
      obtain ⟨-, manager, -, rfl⟩ := create_returned hcreated
      have hreturned := (Program.run_bind_of_returned hcreated).symm.trans hrun
      dsimp only at hreturned
      rw [PrivateerObject.getLast?_addManager] at hreturned
      cases hreturned
  | «open» name maxMemBlocks readOnly =>
      intro region hregion
      by_contra hblocks
      have hdenotes := (hfollows.versions (object.versionPath name)).trans
        (congrArg (Option.map (ByteRegion.denoted blocks.blockSize)) hregion)
      have hconsistent := hfollows.settled.orderly.consistent
      obtain ⟨capacity, entries, hintact⟩ :=
        hconsistent.intact_of_denotes (by rw [hdenotes]; rfl)
      have hnum := (region.names_of_denoted hsound hcompression hconsistent.named hintact
        hdenotes).1
      have hcapacity : capacity ≠ 0 := by
        rintro rfl
        rw [Nat.zero_div] at hnum
        exact hblocks hnum
      obtain ⟨base, between, hopened, -⟩ :=
        (hintact.openable hfollows.settled.located hcapacity).run_openObject blocks.build
          maxMemBlocks address readOnly
      have hreturned := (Program.run_bind_of_returned hopened).symm.trans hrun
      dsimp only at hreturned
      rw [PrivateerObject.getLast?_addManager] at hreturned
      cases hreturned
  | openImmutable name newVersion maxMemBlocks => trivial

/-! ### Returning -/

/-- The session of an opening is the manager that the object has made last. -/
theorem Opening.run_program_returned {manager : SigactionVirtualMemoryManager Hash}
    {program : StorageProgram Hash (PrivateerObject Hash)}
    (hrun : (do
      let opened ← program
      match opened.managers.getLast? with
      | none => .undefined
      | some mapped => return mapped.manager).run FileSystem.answer files =
        (.returned manager, files')) :
    ∃ opened mapped, program.run FileSystem.answer files = (.returned opened, files') ∧
      opened.managers.getLast? = some mapped ∧ mapped.manager = manager := by
  obtain ⟨opened, between, hopened, hlast⟩ := Program.run_bind_returned hrun
  cases hmapped : opened.managers.getLast? with
  | none =>
      rw [hmapped] at hlast
      cases hlast
  | some mapped =>
      rw [hmapped] at hlast
      cases hlast
      exact ⟨opened, mapped, hopened, hmapped, rfl⟩

theorem VersionsState.Follows.untaken (hpos : 0 < blocks.blockSize)
    (hfollows : state.Follows blocks store)
    (hallowed : opening.Allowed blocks object state.files)
    (hrun : (opening.program blocks.build object address).run FileSystem.answer state.files =
      (.returned manager, files')) (hcreates : version ∈ opening.creates object) :
    version ∉ store.taken := by
  intro htaken
  have hexited : (opening.program blocks.build object address).run FileSystem.answer state.files =
      (.exited, state.files) := opening.run_program_of_exists hpos hallowed
    hfollows.settled.orderly.consistent hcreates ((hfollows.taken version).mp htaken)
  cases hexited.symm.trans hrun

theorem VersionsState.Follows.created (hsound : blocks.build.Sound)
    (hcompression : blocks.build.useCompression = false) (hpos : 0 < blocks.blockSize)
    (hfollows : state.Follows blocks store) {name : Path} {regionSize maxMemBlocks : ℕ}
    {allowOverwrite : Bool}
    (hstep : VersionsStep blocks runToEnd state
      (.start session object (.create name regionSize maxMemBlocks allowOverwrite) address) next)
    (hrecords : (Opening.create name regionSize maxMemBlocks allowOverwrite).Records object
      state.files)
    (hrun : ((Opening.create name regionSize maxMemBlocks allowOverwrite).program blocks.build
      object address).run FileSystem.answer state.files = (.returned manager, next.files))
    (hsession : next.sessions session = some manager) :
    ∃ store', (Opening.create name regionSize maxMemBlocks allowOverwrite).Effect blocks.blockSize
      object session store store' ∧ next.Follows blocks store' := by
  obtain ⟨-, htier, hallowed, -⟩ := id hstep
  have hconsistent := (hfollows.settled.step hsound hpos hstep).orderly.consistent
  have huntaken := hfollows.untaken hpos hallowed hrun (Set.mem_singleton _)
  obtain ⟨created, mapped, hcreated, hmapped, rfl⟩ := Opening.run_program_returned hrun
  obtain ⟨-, made, hmade, rfl⟩ := create_returned hcreated
  rw [PrivateerObject.getLast?_addManager, Option.some.injEq] at hmapped
  subst hmapped
  obtain ⟨base, between, hbase, hlast⟩ := Program.run_bind_returned hmade
  cases hlast
  rw [hallowed.1, htier.location] at hbase
  obtain ⟨hcapacity, -⟩ := VirtualMemoryManagerBase.create_capacity hbase
  obtain ⟨capacity, -, rfl, hfiles⟩ :=
    VirtualMemoryManagerBase.create_returned htier.stash_ne_nil hbase
  have hrecorded := hrecords.2
  rw [hallowed.1, htier.location] at hrecorded
  have hname : object.versionPath name ≠ blocks.location := by
    rw [← htier.location, htier.blocksDirPath]
    exact fun hsame => hrecords.1 (Path.below_injective hsame)
  obtain ⟨hthere, hhoused⟩ : blocks.HasVersion _ (object.versionPath name) capacity [] ∧ _ :=
    created_hasVersion capacity hname htier.stash_ne_location hrecorded
  rw [← hfiles] at hthere hhoused
  have hintact : blocks.Intact next.files (object.versionPath name) capacity [] :=
    ⟨hthere, hhoused, fun name hname => absurd hname List.not_mem_nil⟩
  have hnum : capacity / blocks.blockSize = (regionSize + (blocks.blockSize - 1)) /
      blocks.blockSize := by
    rw [show capacity = _ from hcapacity]
    exact div_roundedUp hpos
  let region := ByteRegion.zeros ((regionSize + (blocks.blockSize - 1)) / blocks.blockSize)
  have hdenotes : denotedBlocks blocks.build next.files (object.versionPath name) =
      some (region.denoted blocks.blockSize) := by
    rw [ByteRegion.denoted, show region.numBlocks = _ from hnum.symm]
    refine (BlocksDirectory.denotedBlocks_eq_some_iff hsound hcompression hconsistent.named
      hthere _).mpr fun block _ => .inl ⟨rfl, ?_⟩
    simp [blockOf, region, ByteRegion.zeros]
  have hworks := SigactionVirtualMemoryManager.works_initial hsound hcompression hpos
    hconsistent.named htier.singleTiered (hfiles ▸ stashDirectory_storageFiles) hintact hdenotes
      maxMemBlocks false
  refine ⟨_, ⟨huntaken, rfl⟩, ?_⟩
  refine hfollows.of_put hsound hpos hstep.killedAnywhere
    (hfollows.settled.step hsound hpos hstep)
    (hfollows.kept.put.checkOut (Set.mem_insert _ _) ?_)
    (fun other hother => Function.update_of_ne hother _ _) ?_ (fun other => Iff.rfl)
    (by rw [hthere.metadata]; rfl) hdenotes
  · rw [VersionStore.versions_put_self]
    rfl
  · rw [VersionsRequest.session, hsession, Function.update_self]
    exact .some hworks

theorem VersionsState.Follows.opened (hsound : blocks.build.Sound)
    (hcompression : blocks.build.useCompression = false) (hpos : 0 < blocks.blockSize)
    (hfollows : state.Follows blocks store) {name : Path} {maxMemBlocks : ℕ} {readOnly : Bool}
    (hstep : VersionsStep blocks runToEnd state
      (.start session object (.open name maxMemBlocks readOnly) address) next)
    (hrun : ((Opening.open name maxMemBlocks readOnly).program blocks.build object address).run
      FileSystem.answer state.files = (.returned manager, next.files))
    (hsession : next.sessions session = some manager) :
    ∃ store', (Opening.open name maxMemBlocks readOnly).Effect blocks.blockSize object session
      store store' ∧ next.Follows blocks store' := by
  obtain ⟨-, htier, -⟩ := id hstep
  have hconsistent := (hfollows.settled.step hsound hpos hstep).orderly.consistent
  obtain ⟨hmetadata, hdenotes⟩ := hfollows.settled.elsewhere hsound hpos
    hstep.killedAnywhere (fun hversion : object.versionPath name ∈ _ => by cases hversion)
  obtain ⟨opened, mapped, hopened, hmapped, rfl⟩ := Opening.run_program_returned hrun
  obtain ⟨mapped', region, hmapped', hregion, hworks⟩ := PrivateerObject.works_of_open hsound
    hcompression hpos htier hconsistent hopened (hdenotes.trans (hfollows.versions _))
  cases hmapped.symm.trans hmapped'
  have htaken : object.versionPath name ∈ store.taken := by
    rw [hfollows.taken, Option.isSome_iff_ne_none]
    intro hmissing
    have hnone := (hfollows.versions _).symm.trans (denotedBlocks_of_missing hmissing)
    rw [hregion] at hnone
    cases hnone
  refine ⟨_, ⟨region, hregion, rfl⟩, ?_⟩
  refine hfollows.of_step hsound hpos hstep (hfollows.kept.checkOut htaken (by rw [hregion]; rfl))
    (fun other hother => VersionStore.copies_checkOut_of_ne hother) ?_
    (fun _ _ => ⟨Iff.rfl, rfl⟩) fun version hversion => by cases hversion
  rw [VersionsRequest.session, hsession, VersionStore.copies_checkOut_self]
  exact .some hworks

theorem VersionsState.Follows.copied (hsound : blocks.build.Sound)
    (hcompression : blocks.build.useCompression = false) (hpos : 0 < blocks.blockSize)
    (hfollows : state.Follows blocks store) {name newVersion : Path} {maxMemBlocks : ℕ}
    (hstep : VersionsStep blocks runToEnd state
      (.start session object (.openImmutable name newVersion maxMemBlocks) address) next)
    (hrun : ((Opening.openImmutable name newVersion maxMemBlocks).program blocks.build object
      address).run FileSystem.answer state.files = (.returned manager, next.files))
    (hsession : next.sessions session = some manager) :
    ∃ store', (Opening.openImmutable name newVersion maxMemBlocks).Effect blocks.blockSize object
      session store store' ∧ next.Follows blocks store' := by
  obtain ⟨-, htier, hallowed, -⟩ := id hstep
  have hconsistent := (hfollows.settled.step hsound hpos hstep).orderly.consistent
  have huntaken := hfollows.untaken hpos hallowed hrun (Set.mem_singleton _)
  have hdenotes := hstep.denotedBlocks_openImmutable hpos hfollows.settled.orderly.consistent
    (by rw [hsession]; rfl)
  obtain ⟨opened, mapped, hopened, hmapped, rfl⟩ := Opening.run_program_returned hrun
  have himmutable : (object.openImmutable blocks.build name newVersion maxMemBlocks address).run
      FileSystem.answer state.files = (.returned opened, next.files) := hopened
  obtain ⟨copied, hcopied, -⟩ := openImmutable_returned himmutable
  obtain ⟨mapped', region, hmapped', hregion, hworks⟩ := PrivateerObject.works_of_open hsound
    hcompression hpos htier hconsistent hcopied (hdenotes.trans (hfollows.versions _))
  cases hmapped.symm.trans hmapped'
  rw [hfollows.versions, hregion] at hdenotes
  have htable : (next.files.metadata (object.versionPath newVersion)).isSome := by
    rw [Option.isSome_iff_ne_none]
    intro hmissing
    cases hdenotes.symm.trans (denotedBlocks_of_missing hmissing)
  refine ⟨_, ⟨huntaken, region, hregion, rfl⟩, ?_⟩
  refine hfollows.of_put hsound hpos hstep.killedAnywhere
    (hfollows.settled.step hsound hpos hstep)
    (hfollows.kept.put.checkOut (Set.mem_insert _ _) ?_)
    (fun other hother => Function.update_of_ne hother _ _) ?_ (fun other => Iff.rfl) htable hdenotes
  · rw [VersionStore.versions_put_self]
    rfl
  · rw [VersionsRequest.session, hsession, Function.update_self]
    exact .some hworks

theorem VersionsState.Follows.start (hsound : blocks.build.Sound)
    (hcompression : blocks.build.useCompression = false) (hpos : 0 < blocks.blockSize)
    (hfollows : state.Follows blocks store)
    (hstep : VersionsStep blocks runToEnd state (.start session object opening address) next)
    (hrecords : opening.Records object state.files) :
    ∃ store', VersionsRequest.Effect blocks.blockSize store store'
      (.start session object opening address) ∧ next.Follows blocks store' := by
  rcases hfollows.settled.orderly.start_cases hpos hstep with
    ⟨manager, hrun, hsession⟩ | ⟨hexited, hsession⟩
  · have hreturned : ∃ store', opening.Effect blocks.blockSize object session store store' ∧
        next.Follows blocks store' := by
      cases opening with
      | create name regionSize maxMemBlocks allowOverwrite =>
          exact hfollows.created hsound hcompression hpos hstep hrecords hrun hsession
      | «open» name maxMemBlocks readOnly =>
          exact hfollows.opened hsound hcompression hpos hstep hrun hsession
      | openImmutable name newVersion maxMemBlocks =>
          exact hfollows.copied hsound hcompression hpos hstep hrun hsession
    obtain ⟨store', heffect, hnext⟩ := hreturned
    exact ⟨store', .inl heffect, hnext⟩
  · obtain ⟨store', hfails, hnext⟩ := hfollows.start_fails hsound hcompression hpos hstep hsession
    exact ⟨store', .inr ⟨hfollows.mayFail hsound hcompression hpos hstep.2.1 hstep.2.2.1 hexited,
      hfails⟩, hnext⟩

end Starts

/-! ## Whole runs -/

/-- Each request does to the datastore what it does to the store. -/
theorem VersionsState.Follows.step (hsound : blocks.build.Sound)
    (hcompression : blocks.build.useCompression = false) (hpos : 0 < blocks.blockSize)
    (hfollows : state.Follows blocks store) (hcovered : request.Covered blocks state)
    (hstep : VersionsStep blocks runToEnd state request next) :
    ∃ store', request.Effect blocks.blockSize store store' ∧ next.Follows blocks store' := by
  cases request with
  | start session object opening address =>
      exact hfollows.start hsound hcompression hpos hstep hcovered
  | perform session operation =>
      cases operation with
      | read offset => exact ⟨store, rfl, hfollows.read hsound hcompression hpos hstep⟩
      | write offset byte => exact ⟨_, rfl, hfollows.write hsound hcompression hpos hstep⟩
      | msync schedule => exact ⟨_, rfl, hfollows.msync hsound hcompression hpos hstep hcovered⟩
      | snapshot version schedule =>
          exact hfollows.snapshot hsound hcompression hpos hstep hcovered
  | close session schedule =>
      exact ⟨_, rfl, hfollows.close hsound hcompression hpos hstep hcovered⟩
  | kill session => exact ⟨_, rfl, hfollows.kill hsound hpos hstep⟩

/-- The files of a datastore show a store that no session works on. -/
theorem BlocksDirectory.Consistent.exists_store (hsound : blocks.build.Sound)
    (hcompression : blocks.build.useCompression = false) (hpos : 0 < blocks.blockSize)
    (hconsistent : blocks.Consistent files) :
    ∃ store : RegionStore, VersionsState.Shows blocks ⟨files, fun _ => none⟩ store := by
  choose contents hcontents using hconsistent.exists_region hsound hcompression hpos
  refine ⟨⟨{version | (files.metadata version).isSome}, contents, fun _ => none⟩, ?_⟩
  exact
    { taken := fun _ => Iff.rfl
      versions := hcontents
      sessions := fun _ => rfl
      reads := fun _ _ _ _ hmanager => by cases hmanager }

theorem VersionsState.Shows.follows (hconsistent : blocks.Consistent files)
    (hlocated : blocks.Located files)
    (hshows : VersionsState.Shows blocks ⟨files, fun _ => none⟩ store) :
    VersionsState.Follows blocks ⟨files, fun _ => none⟩ store := by
  have hnone : ∀ session, store.copies session = none := by
    intro session
    have hsession := hshows.sessions session
    cases hcopy : store.copies session with
    | none => rfl
    | some copy =>
        rw [hcopy] at hsession
        cases hsession
  exact
    { settled := settled_start hconsistent hlocated
      kept := by
        intro session copy hcopy
        rw [hnone session] at hcopy
        cases hcopy
      taken := hshows.taken
      versions := hshows.versions
      copies := by
        intro session
        rw [hnone session]
        exact .none }

/-- A datastore is a store of byte regions: whatever its sessions do, in any order, it goes
through what the store goes through, as long as each commit finds the blocks above the highest
resident one in its table. -/
theorem datastore_follows_store (hsound : blocks.build.Sound)
    (hcompression : blocks.build.useCompression = false) (hpos : 0 < blocks.blockSize)
    (hconsistent : blocks.Consistent files) (hlocated : blocks.Located files)
    (hshows : VersionsState.Shows blocks ⟨files, fun _ => none⟩ store)
    {trace : List (VersionsRequest Hash × VersionsState Hash)}
    (hrun : Run (VersionsStep blocks runToEnd) ⟨files, fun _ => none⟩ trace)
    (hcovered : Run.Each (fun state request => request.Covered blocks state)
      ⟨files, fun _ => none⟩ trace) :
    ∃ followed : List (VersionsRequest Hash × RegionStore),
      Run (fun store request store' => request.Effect blocks.blockSize store store') store
        followed ∧
      List.Forall₂ (fun first second => first.1 = second.1 ∧ first.2.Shows blocks second.2) trace
        followed := by
  obtain ⟨followed, hfollowed, hall⟩ := hrun.simulate
    (fun state request next store hfollows hcovered hstep =>
      hfollows.step hsound hcompression hpos hcovered hstep)
    (hshows.follows hconsistent hlocated) hcovered
  exact ⟨followed, hfollowed, hall.imp fun _ _ hsame =>
    ⟨hsame.1, hsame.2.shows hsound hcompression⟩⟩

/-- The store of a datastore without versions. -/
def RegionStore.empty : RegionStore := ⟨∅, fun _ => none, fun _ => none⟩

theorem shows_smallFiles : VersionsState.Shows smallDatastore ⟨smallFiles, fun _ => none⟩
    RegionStore.empty where
  taken := fun _ => iff_of_false (Set.notMem_empty _) Bool.false_ne_true
  versions := fun _ => denotedBlocks_of_missing rfl
  sessions := fun _ => rfl
  reads := fun _ _ _ _ hmanager => by cases hmanager

/-- A version is written and committed, and a copy of it is read. -/
theorem datastore_follows_store_copy :
    ∃ trace : List (VersionsRequest (Option (List Byte)) × VersionsState (Option (List Byte))),
      trace.map Prod.fst = [.start 0 smallObject (.create ['v'] 1 1 false) 4096,
        .perform 0 (.write 0 7), .close 0 ⟨[], []⟩,
        .start 1 smallObject (.openImmutable ['v'] ['w'] 1) 4096, .perform 1 (.read 0)] ∧
      ∃ followed : List (VersionsRequest (Option (List Byte)) × RegionStore),
        Run (fun store request store' => request.Effect 1 store store') RegionStore.empty
          followed ∧
        List.Forall₂ (fun first second => first.1 = second.1 ∧
          first.2.Shows smallDatastore second.2) trace followed := by
  have hfollows : ∀ trace : List (VersionsRequest (Option (List Byte)) ×
        VersionsState (Option (List Byte))),
      Run (VersionsStep smallDatastore runToEnd) ⟨smallFiles, fun _ => none⟩ trace →
      Run.Each (fun state request => request.Covered smallDatastore state)
        ⟨smallFiles, fun _ => none⟩ trace → _ :=
    fun trace hrun hcovered => datastore_follows_store Build.transparent_sound rfl (by decide)
      smallFiles_consistent (fun _ htable => by cases htable) shows_smallFiles hrun hcovered
  refine ⟨[(_, ⟨_, _⟩), (_, ⟨_, _⟩), (_, ⟨_, _⟩), (_, ⟨_, _⟩), (_, ⟨_, _⟩)], rfl, hfollows _
    (.cons ⟨rfl, smallObject_onTier, ⟨rfl, fun h => by cases h⟩, _, _, rfl, rfl⟩
      (.cons ⟨_, rfl, by decide, _, _, rfl, rfl⟩ (.cons ⟨_, rfl, _, _, rfl, rfl⟩
        (.cons ⟨rfl, smallObject_onTier, trivial, _, _, rfl, rfl⟩
          (.cons ⟨_, rfl, by decide, _, _, rfl, rfl⟩ .nil)))))
    ⟨⟨by decide, fun h => by cases h⟩, trivial, ?_, trivial, trivial, trivial⟩⟩
  intro manager hmanager
  cases hmanager
  intro block habove hbelow
  exact absurd hbelow (Nat.not_lt.mpr habove)

end Privateer
