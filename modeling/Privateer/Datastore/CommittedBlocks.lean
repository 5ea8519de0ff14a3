import Privateer.Datastore.MsyncOrder
import Privateer.Sigaction.ModifiedBlocks

/-!
# What a commit stores

A commit adds the names of the modified blocks to the blocks directory.  If its process is
killed it adds no others: a block file is written under a temporary name, and the name that
it gets is that of the contents.
-/

namespace Privateer

variable {Hash : Type}

/-- The names that a block is stored under. -/
def BlocksDirectory.storedNames (blocks : BlocksDirectory Hash) (files : FileSystem Hash) :
    Set Hash :=
  {name | (files.data (blocks.blockFile name)).isSome}

variable [DecidableEq Hash] {blocks : BlocksDirectory Hash} {files files' : FileSystem Hash}
variable {name : Hash} {A : Type} {program : StorageProgram Hash A} {outcome : Outcome A}

/-- How a program may end whose process may be killed before any call. -/
abbrev MayEnd (program : StorageProgram Hash A) (files : FileSystem Hash) (outcome : Outcome A)
    (files' : FileSystem Hash) : Prop :=
  program.RunsTo (fun call files reply files' => files.answer call = (reply, files')) files outcome
    files'

theorem MayEnd.data_eq {file : DataFile Hash} (hends : MayEnd program files outcome files')
    (hlasts : file.Lasts) (hcalls : program.CallsOnly (Call.Leaves file)) :
    files'.data file = files.data file := by
  let unchanged : FileSystem Hash → Prop := fun between => between.data file = files.data file
  have hkept : unchanged files' := by
    refine hcalls.runsTo_keeps ?_ rfl hends
    intro call before reply after hleaves hbefore hanswer
    have hsame := data_answer_of_leaves hlasts hleaves before
    rw [hanswer] at hsame
    exact hsame.trans hbefore
  exact hkept

omit [DecidableEq Hash] in
theorem BlocksDirectory.storedNames_subset (hkeeps : blocks.Keeps files files') :
    blocks.storedNames files ⊆ blocks.storedNames files' := by
  intro name hname
  obtain ⟨bytes, hbytes⟩ := Option.isSome_iff_exists.mp hname
  exact Option.isSome_iff_exists.mpr ⟨bytes, hkeeps _ _ _ hbytes⟩

/-! ## Stashed and dirty blocks -/

/-- A commit of a stash file that is killed changes no block file but that of its contents. -/
theorem BlockStorage.commitStashBlock_mayEnd {storage : BlockStorage Hash}
    (hsingle : storage.SingleTiered blocks) {index uuid : ℕ}
    (hid : storage.stashBlockIds index = some uuid) {content : List Byte}
    (hdata : files.data (.stash storage.stashDirectory uuid) = some content)
    (hlength : content.length = blocks.blockSize)
    (hname : name ≠ blocks.build.computeHash content)
    {outcome : Outcome (Option Hash × BlockStorage Hash)}
    (hends : MayEnd (commitStashBlock blocks.build storage index) files outcome files') :
    files'.data (blocks.blockFile name) = files.data (blocks.blockFile name) := by
  have hlasts : (blocks.blockFile name).Lasts := Settles.lasts_blockFile name
  have hfile : blocks.blockFile name ≠ blocks.blockFile (blocks.build.computeHash content) :=
    fun hsame => hname (DataFile.block.inj hsame).2.2
  rw [commitStashBlock_eq hid] at hends
  rcases Program.RunsTo.bind_cases hends with ⟨stopped, hstopped⟩ | ⟨buffer, between, hread, hrest⟩
  · exact MayEnd.data_eq hstopped hlasts (leavesOthers_readStash _)
  · obtain ⟨_, _, hread', ⟨_, rfl, -⟩, -⟩ := BlocksDirectory.run_of_ensures
      (ensures_readStash hsingle rfl (Set.mem_singleton _) hdata hlength)
    cases hread'.symm.trans hread
    have hcommits : (commitContent blocks.build storage index
        (.stash storage.stashDirectory uuid) buffer).CallsOnly
          (Call.Leaves (blocks.blockFile name)) :=
      leavesOthers_commitContent hsingle hlasts hfile fun hsame => by cases hsame
    rw [MayEnd.data_eq hrest hlasts hcommits]
    exact data_run_of_leaves hlasts (leavesOthers_readStash _) hread

namespace VirtualMemoryManagerBase

variable {base : VirtualMemoryManagerBase Hash} {stashSet : Finset ℕ} {dirtyLru : List ℕ}
variable {region memory : ℕ → List Byte}

theorem leaves_storeDirtyBlocks (hbacking : Backing blocks base stashSet dirtyLru files region)
    (hmemory : ∀ block ∈ dirtyLru, memory block = region block)
    (hname : ∀ block ∈ dirtyLru, name ≠ blocks.build.computeHash (region block))
    (schedule : List ℕ) :
    (storeDirtyBlocks blocks.build base dirtyLru memory schedule).CallsOnly
      (Call.Leaves (blocks.blockFile name)) := by
  apply Program.callsOnly_interleave
  intro worker hworker
  obtain ⟨block, hblock, rfl⟩ := List.mem_map.mp hworker
  have hleaves : (BlockStorage.storeBlock blocks.build base.blockStorage (memory block) true
      block).CallsOnly (Call.Leaves (blocks.blockFile name)) := by
    apply BlockStorage.leavesOthers_storeBlock hbacking.storage (Settles.lasts_blockFile name)
    rw [hmemory block hblock]
    exact fun hsame => hname block hblock (DataFile.block.inj hsame).2.2
  apply hleaves.bind
  intro stored
  cases stored with
  | none => trivial
  | some stored => trivial

theorem commitStashed_mayEnd (hsound : blocks.build.Sound) {order : List ℕ} (hnodup : order.Nodup)
    (hbacking : Backing blocks base order.toFinset [] files region)
    (hname : ∀ block ∈ order, name ≠ blocks.build.computeHash (region block))
    {outcome : Outcome (VirtualMemoryManagerBase Hash)}
    (hends : MayEnd (commitStashed blocks.build order base) files outcome files') :
    files'.data (blocks.blockFile name) = files.data (blocks.blockFile name) := by
  induction order generalizing base files with
  | nil => exact congrArg (fun files => files.data (blocks.blockFile name)) hends.2
  | cons block rest ih =>
      rw [List.nodup_cons] at hnodup
      obtain ⟨uuid, hid⟩ : ∃ uuid, base.blockStorage.stashBlockIds block = some uuid :=
        (hbacking.stashed_iff block).mp (by simp)
      have hmember : Resource.file uuid ∈ base.blockStorage.stashFiles := ⟨block, uuid, hid, rfl⟩
      have hfirst : ∀ {outcome : Outcome (Option Hash × BlockStorage Hash)} {files'},
          MayEnd (base.blockStorage.commitStashBlock blocks.build block) files outcome files' →
            files'.data (blocks.blockFile name) = files.data (blocks.blockFile name) :=
        BlockStorage.commitStashBlock_mayEnd hbacking.storage hid (hbacking.stashed hid)
          (hbacking.length block) (hname block List.mem_cons_self)
      rcases Program.RunsTo.bind_cases hends with ⟨stopped, hstopped⟩ |
        ⟨result, between, hcommit, hlater⟩
      · exact hfirst hstopped
      · obtain ⟨_, _, hcommitted, ⟨_, rfl, hstored, -, hrely⟩, -⟩ :=
          BlocksDirectory.run_of_ensures (BlockStorage.ensures_commitStashBlock hsound
            hbacking.storage hid hmember (hbacking.stashed hid) (hbacking.length block)
            hbacking.allocated hbacking.named)
        cases hcommitted.symm.trans hcommit
        have hkept := hbacking.recordCommitted hnodup.1 hid hstored hrely
        rw [ih hnodup.2 hkept (fun other hother => hname other (List.mem_cons_of_mem _ hother))
          hlater]
        exact hfirst (Program.runsTo_of_run (fun _ _ => rfl) hcommit)

/-- A commit that is killed changes the block files of what it commits alone. -/
theorem commitBlocks_mayEnd (hsound : blocks.build.Sound)
    (hbacking : Backing blocks base stashSet dirtyLru files region) (hnodup : dirtyLru.Nodup)
    (hmemory : ∀ block ∈ dirtyLru, memory block = region block)
    (hname : ∀ block ∈ dirtyLru.toFinset ∪ stashSet,
      name ≠ blocks.build.computeHash (region block))
    {schedule : MsyncSchedule} {outcome : Outcome (List (ℕ × Hash) × VirtualMemoryManagerBase Hash)}
    (hends : MayEnd (commitBlocks blocks.build base dirtyLru memory stashSet schedule) files
      outcome files') :
    files'.data (blocks.blockFile name) = files.data (blocks.blockFile name) := by
  have hlasts : (blocks.blockFile name).Lasts := Settles.lasts_blockFile name
  have hstores := leaves_storeDirtyBlocks hbacking hmemory (fun block hblock =>
    hname block (Finset.mem_union_left _ (List.mem_toFinset.mpr hblock))) schedule.storing
  rcases Program.RunsTo.bind_cases hends with ⟨stopped, hstopped⟩ |
    ⟨stored, between, hstored, hrest⟩
  · exact MayEnd.data_eq hstopped hlasts hstores
  obtain ⟨outcome', hcommits⟩ := Program.RunsTo.of_bind_finish hrest
  obtain ⟨_, _, hstored', ⟨_, mine, rfl, -, ⟨hperm, hnames⟩, hrely⟩, -⟩ :=
    BlocksDirectory.run_of_ensures (Contract.ensures_frame_all BlocksDirectory.contract_mutual
      hbacking.allocated (ensures_storeDirtyBlocks hsound hbacking hmemory schedule.storing))
  cases hstored'.symm.trans hstored
  have hkept := (hbacking.rely subset_rfl hrely).recordStored hnodup hperm hnames
  generalize stored.foldl VirtualMemoryManagerBase.recordStored base = recorded
    at hkept hcommits
  have horder := toFinset_arrange_stashVector hkept schedule.committing
  have hdistinct : (Program.arrange schedule.committing (recorded.stashVector stashSet)).Nodup :=
    (Program.arrange_perm _ _).nodup_iff.mpr (List.nodup_range.filter _)
  rw [← horder] at hkept
  rw [commitStashed_mayEnd hsound hdistinct hkept (fun block hblock =>
    hname block (Finset.mem_union_right _ (horder ▸ List.mem_toFinset.mpr hblock))) hcommits]
  exact data_run_of_leaves hlasts hstores hstored

end VirtualMemoryManagerBase

/-! ## Sessions -/

namespace SigactionVirtualMemoryManager

variable {manager : SigactionVirtualMemoryManager Hash} {contents : ℕ → List Byte}
variable {version : Path} {schedule : MsyncSchedule} {block : ℕ}

/-- The names of what some blocks of a region show. -/
def shownNames (build : Build Hash) (manager : SigactionVirtualMemoryManager Hash)
    (files : FileSystem Hash) (written : Finset ℕ) : Set Hash :=
  {name | ∃ block ∈ written, ∃ content, manager.shownBlock build files block = some content ∧
    name = build.computeHash content}

/-- A modified block is in memory or in its stash file, so it shows its contents in both
builds. -/
theorem Coherent.shownBlock_of_modified (hcoherent : Coherent blocks manager files contents)
    (hmodified : block ∈ manager.modified) :
    manager.shownBlock blocks.build files block = some (contents block) := by
  unfold shownBlock
  by_cases hpresent : block ∈ manager.presentBlocks
  · rw [if_pos hpresent, hcoherent.residency.memory, if_pos hpresent]
  · have hclean : block ∉ manager.dirtyLru := fun hdirty =>
      hpresent ((hcoherent.residency.shared.mem_iff block).mpr (.inr hdirty))
    have hstashed := (mem_modified.mp hmodified).resolve_left hclean
    obtain ⟨uuid, hid⟩ := (hcoherent.backing.stashed_iff block).mp hstashed
    rw [if_neg hpresent, hid]
    exact hcoherent.backing.stashed hid

theorem Coherent.mem_shownNames (hcoherent : Coherent blocks manager files contents) :
    name ∈ manager.shownNames blocks.build files manager.modified ↔
      ∃ block ∈ manager.modified, name = blocks.build.computeHash (contents block) := by
  constructor
  · rintro ⟨block, hblock, content, hshown, rfl⟩
    rw [hcoherent.shownBlock_of_modified hblock, Option.some.injEq] at hshown
    exact ⟨block, hblock, by rw [hshown]⟩
  · rintro ⟨block, hblock, rfl⟩
    exact ⟨block, hblock, _, hcoherent.shownBlock_of_modified hblock, rfl⟩

omit [DecidableEq Hash] in
theorem leaves_updateMetadata (file : DataFile Hash) :
    (updateMetadata manager).CallsOnly (Call.Leaves file) := by
  unfold updateMetadata VirtualMemoryManagerBase.updateMetadata
  split
  · trivial
  · refine ⟨List.not_mem_nil, fun opened => ?_⟩
    cases opened with
    | false => trivial
    | true =>
        refine ⟨List.not_mem_nil, fun count => ?_⟩
        cases count with
        | none => trivial
        | some count =>
            refine ⟨List.not_mem_nil, fun closed => ?_⟩
            cases closed with
            | false => trivial
            | true => trivial

theorem msync_mayEnd (hsound : blocks.build.Sound)
    (hcoherent : Coherent blocks manager files contents)
    (hname : name ∉ manager.shownNames blocks.build files manager.modified)
    {outcome : Outcome (SigactionVirtualMemoryManager Hash)}
    (hends : MayEnd (msync blocks.build manager schedule) files outcome files') :
    files'.data (blocks.blockFile name) = files.data (blocks.blockFile name) := by
  have hshared := hcoherent.residency.shared
  have hmemory : ∀ block ∈ manager.dirtyLru, manager.memory block = contents block := by
    intro block hblock
    rw [hcoherent.residency.memory, if_pos ((hshared.mem_iff block).mpr (.inr hblock))]
  have hblocks : ∀ {outcome files'},
      MayEnd (msyncBlocks blocks.build manager schedule) files outcome files' →
        files'.data (blocks.blockFile name) = files.data (blocks.blockFile name) := by
    intro outcome files' hends
    obtain ⟨outcome', hcommits⟩ := Program.RunsTo.of_bind_finish hends
    exact VirtualMemoryManagerBase.commitBlocks_mayEnd hsound hcoherent.backing
      hshared.nodup_dirty hmemory (fun block hblock hsame =>
        hname (hcoherent.mem_shownNames.mpr ⟨block, hblock, hsame⟩)) hcommits
  rcases Program.RunsTo.bind_cases hends with ⟨stopped, hstopped⟩ |
    ⟨committed, between, hcommitted, hrest⟩
  · exact hblocks hstopped
  · obtain ⟨outcome', hupdate⟩ := Program.RunsTo.of_bind_finish hrest
    rw [MayEnd.data_eq hupdate (Settles.lasts_blockFile name) (leaves_updateMetadata _)]
    exact hblocks (Program.runsTo_of_run (fun _ _ => rfl) hcommitted)

omit [DecidableEq Hash] in
theorem leaves_writeTextFile (file : DataFile Hash) (text : TextFile) (line : Text) :
    (writeTextFile text line : StorageProgram Hash Unit).CallsOnly (Call.Leaves file) :=
  ⟨List.not_mem_nil, fun _ => ⟨List.not_mem_nil, fun _ => trivial⟩⟩

omit [DecidableEq Hash] in
/-- The part of a snapshot that follows its commit. -/
theorem leaves_snapshotTexts (file : DataFile Hash) (version : Path)
    (restored : SigactionVirtualMemoryManager Hash) :
    (do
      writeTextFile (.blocksPath version) (.path restored.blockStorage.baseDirectory)
      writeTextFile (.capacity version) (.number restored.regionMaxCapacity)
      return (true, restored) : StorageProgram Hash _).CallsOnly (Call.Leaves file) :=
  (leaves_writeTextFile file _ _).bind fun _ =>
    (leaves_writeTextFile file _ _).bind fun _ => trivial

/-- The files once the table of a new version is there. -/
theorem answer_openTable (hdirectory : files.directories (.path version)) :
    files.answer (.openMetadata version true false) =
      (true, files.setMetadata version (some ((files.metadata version).getD []))) := by
  cases hmetadata : files.metadata version with
  | none => simp [FileSystem.answer, hmetadata, hdirectory]
  | some entries =>
      simp [FileSystem.answer, hmetadata, FileSystem.setMetadata_eq_self hmetadata]

theorem takeSnapshot_mayEnd (hsound : blocks.build.Sound)
    (hcoherent : Coherent blocks manager files contents)
    (hdirectory : files.directories (.path version))
    (hname : name ∉ manager.shownNames blocks.build files manager.modified)
    {outcome : Outcome (Bool × SigactionVirtualMemoryManager Hash)}
    (hends : MayEnd (takeSnapshot blocks.build manager version schedule) files outcome files') :
    files'.data (blocks.blockFile name) = files.data (blocks.blockFile name) := by
  unfold takeSnapshot at hends
  simp only [Program.request_bind] at hends
  rcases hends with ⟨-, rfl⟩ | ⟨found, opened, hopened, hrest⟩
  · rfl
  cases (answer_openTable hdirectory).symm.trans hopened
  rcases hrest with ⟨-, rfl⟩ | ⟨_, closed, hclosed, hrest⟩
  · rfl
  cases hclosed
  let opened := files.setMetadata version (some ((files.metadata version).getD []))
  have hcoherent' : Coherent blocks { manager with versionMetadataPath := version } opened
      contents := (hcoherent.redirect version).of_data_eq (fun _ h => h) rfl rfl
  rcases Program.RunsTo.bind_cases hrest with ⟨stopped, hstopped⟩ |
    ⟨committed, between, hcommitted, htexts⟩
  · exact (msync_mayEnd hsound hcoherent' hname hstopped :)
  · have hlasts : (blocks.blockFile name).Lasts := Settles.lasts_blockFile name
    have htexts' := MayEnd.data_eq htexts hlasts (leaves_snapshotTexts _ _ _)
    have hcommit := msync_mayEnd hsound hcoherent' hname
      (Program.runsTo_of_run (fun _ _ => rfl) hcommitted)
    exact htexts'.trans hcommit

theorem snapshot_mayEnd (hsound : blocks.build.Sound)
    (hcoherent : Coherent blocks manager files contents)
    (hname : name ∉ manager.shownNames blocks.build files manager.modified)
    {outcome : Outcome (Bool × SigactionVirtualMemoryManager Hash)}
    (hends : MayEnd (snapshot blocks.build manager version schedule) files outcome files') :
    files'.data (blocks.blockFile name) = files.data (blocks.blockFile name) := by
  rcases hends with ⟨-, rfl⟩ | ⟨found, looked, hfound, hrest⟩
  · rfl
  cases hfound
  cases hdirectory : files.directories (.path version) with
  | true =>
      rw [hdirectory] at hrest
      rcases hrest with ⟨-, rfl⟩ | ⟨there, looked, hthere, hrest⟩
      · rfl
      cases hthere
      cases htable : (files.metadata version).isSome with
      | true =>
          rw [htable] at hrest
          rw [hrest.2]
      | false =>
          rw [htable] at hrest
          exact takeSnapshot_mayEnd hsound hcoherent hdirectory hname hrest
  | false =>
      rw [hdirectory] at hrest
      rcases hrest with ⟨-, rfl⟩ | ⟨made, created, hmade, hrest⟩
      · rfl
      cases hmade
      have hcoherent' : Coherent blocks manager (files.setDirectory (.path version)) contents :=
        hcoherent.of_data_eq
          (BlocksDirectory.promises_createDirectory _ : blocks.Promises files _).directories rfl rfl
      have htaken := takeSnapshot_mayEnd hsound hcoherent' (files.setDirectory_self _) hname hrest
      exact htaken

/-! ## Commits that run to their end -/

/-- A commit that runs to its end stores the contents of all modified blocks. -/
theorem run_msync_stored (hsound : blocks.build.Sound)
    (hcoherent : Coherent blocks manager files contents)
    (htable : (files.metadata manager.versionMetadataPath).isSome) (schedule : MsyncSchedule) :
    ∃ committed final, (msync blocks.build manager schedule).run FileSystem.answer files =
      (.returned committed, final) ∧
        manager.shownNames blocks.build files manager.modified ⊆ blocks.storedNames final := by
  obtain ⟨committed, final, hrun, hsettled⟩ :=
    run_msync_settled hsound hcoherent htable schedule
  refine ⟨committed, final, hrun, fun name hname => ?_⟩
  obtain ⟨block, hblock, rfl⟩ := hcoherent.mem_shownNames.mp hname
  exact Option.isSome_iff_exists.mpr
    ⟨_, (hsettled.data.stored _ ⟨block, hblock, rfl⟩).file⟩

theorem run_takeSnapshot_stored (hsound : blocks.build.Sound)
    (hcoherent : Coherent blocks manager files contents)
    (hdirectory : files.directories (.path version)) (schedule : MsyncSchedule) :
    ∃ result final, (takeSnapshot blocks.build manager version schedule).run FileSystem.answer
      files = (.returned result, final) ∧
        manager.shownNames blocks.build files manager.modified ⊆ blocks.storedNames final := by
  let opened := files.setMetadata version (some ((files.metadata version).getD []))
  let redirected := { manager with versionMetadataPath := version }
  have hcoherent' : Coherent blocks redirected opened contents :=
    (hcoherent.redirect version).of_data_eq (fun _ h => h) rfl rfl
  have htable : (opened.metadata redirected.versionMetadataPath).isSome := by
    rw [show opened.metadata version = _ from FileSystem.setMetadata_self _ _ _]
    rfl
  obtain ⟨committed, between, hcommitted, hstored⟩ :=
    run_msync_stored hsound hcoherent' htable schedule
  obtain ⟨restored, final, hrun, -⟩ := run_takeSnapshot hsound hcoherent hdirectory schedule
  refine ⟨_, _, hrun, ?_⟩
  unfold takeSnapshot at hrun
  simp only [Program.request_bind, Program.run_call, answer_openTable hdirectory] at hrun
  obtain ⟨committed', between', hmsync, htexts⟩ := Program.run_bind_returned hrun
  cases hcommitted.symm.trans hmsync
  intro name hname
  have hlasts : (blocks.blockFile name).Lasts := Settles.lasts_blockFile name
  have hkept := data_run_of_leaves hlasts (leaves_snapshotTexts _ _ _) htexts
  rw [BlocksDirectory.storedNames, Set.mem_ofPred_eq, hkept]
  exact hstored hname

/-- A snapshot under a name that is not in use is taken. -/
theorem run_snapshot_taken (blocks : BlocksDirectory Hash)
    (manager : SigactionVirtualMemoryManager Hash) (schedule : MsyncSchedule)
    (htable : files.metadata version = none) :
    ∃ ready : FileSystem Hash, (snapshot blocks.build manager version schedule).run
        FileSystem.answer files =
          (takeSnapshot blocks.build manager version schedule).run FileSystem.answer ready ∧
      ready.directories (.path version) ∧
        ∀ contents, Coherent blocks manager files contents →
          Coherent blocks manager ready contents := by
  cases hdirectory : files.directories (.path version) with
  | true =>
      refine ⟨files, ?_, hdirectory, fun _ hcoherent => hcoherent⟩
      simp [snapshot, FileSystem.answer, hdirectory, htable]
  | false =>
      refine ⟨files.setDirectory (.path version), ?_, files.setDirectory_self _, ?_⟩
      · simp [snapshot, FileSystem.answer, hdirectory]
      · exact fun contents hcoherent => hcoherent.of_data_eq
          (BlocksDirectory.promises_createDirectory _ : blocks.Promises files _).directories rfl rfl

/-- A snapshot under a name in use is not taken. -/
theorem run_snapshot_refused (hdirectory : files.directories (.path version))
    (htable : (files.metadata version).isSome) :
    (snapshot blocks.build manager version schedule).run FileSystem.answer files =
      (.returned (false, manager), files) := by
  simp [snapshot, FileSystem.answer, hdirectory, htable]

end SigactionVirtualMemoryManager

end Privateer
