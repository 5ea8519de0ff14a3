import Privateer.Datastore.OpenableVersions

/-!
# Versions of which a crash leaves a part

A new version is made of a directory and three files, one system call after the other.  This
module kills `snapshot` and `open_immutable` after any of their system calls and says when
the version can be opened after a restart, or made by the same call once more.
-/

namespace Privateer

variable {Hash : Type}

/-- No file of the version is there. -/
structure FreshVersion (version : Path) (files : FileSystem Hash) : Prop where
  directory : files.directories (.path version) = false
  metadata : files.metadata version = none
  capacity : files.texts (.capacity version) = none
  blocksPath : files.texts (.blocksPath version) = none

variable {version blocksPath stashPath : Path} {blockSize capacity : ℕ}
variable {files files' : FileSystem Hash}

/-! ## Snapshots -/

namespace FileSystem

variable [DecidableEq Hash]

/-- Every call is answered; a process that is killed ends in front of one. -/
def Answers (call : Call Hash) (files : FileSystem Hash) (reply : Reply call)
    (files' : FileSystem Hash) : Prop :=
  files.answer call = (reply, files')

end FileSystem

/-- Which part of a new version a call has left, by the first system call that makes some of
it and the last one. -/
inductive Remains (began finished : Prop) (untouched half whole : FileSystem Hash → Prop)
    (files' : FileSystem Hash) : Prop where
  | nothing (hnot : ¬ began) (huntouched : untouched files')
  | half (hbegan : began) (hnot : ¬ finished) (hhalf : half files')
  | all (hbegan : began) (hfinished : finished) (hwhole : whole files')

theorem Remains.congr {began began' finished finished' : Prop}
    {untouched half whole : FileSystem Hash → Prop}
    (hremains : Remains began finished untouched half whole files') (hbegan : began' ↔ began)
    (hfinished : finished' ↔ finished) :
    Remains began' finished' untouched half whole files' := by
  cases hremains with
  | nothing hnot huntouched => exact .nothing (fun h => hnot (hbegan.mp h)) huntouched
  | half hdid hnot hhalf => exact .half (hbegan.mpr hdid) (fun h => hnot (hfinished.mp h)) hhalf
  | all hdid hdone hwhole => exact .all (hbegan.mpr hdid) (hfinished.mpr hdone) hwhole

/-- A version whose table is there and whose capacity is not. -/
structure HalfVersion (version blocksPath : Path) (blockSize limit : ℕ)
    (files : FileSystem Hash) : Prop where
  housed : files.directories (.path version)
  directory : files.directories (.path blocksPath)
  granularity : files.texts (.granularity blocksPath) = some (some (.number blockSize))
  table : ∃ entries, files.metadata version = some entries ∧ entries.length ≤ limit
  size : ∀ text, files.texts (.capacity version) ≠ some (some text)

section Snapshots

variable [DecidableEq Hash] {limit : ℕ}

omit [DecidableEq Hash] in
theorem HalfVersion.keep (hhalf : HalfVersion version blocksPath blockSize limit files)
    (hkeeps : files.KeepsVersions files') :
    HalfVersion version blocksPath blockSize limit files' where
  housed := hkeeps.directories _ hhalf.housed
  directory := hkeeps.directories _ hhalf.directory
  granularity := by
    rw [hkeeps.texts]
    exact hhalf.granularity
  table := by
    rw [hkeeps.metadata]
    exact hhalf.table
  size := by
    rw [hkeeps.texts]
    exact hhalf.size

omit [DecidableEq Hash] in
theorem HalfVersion.setText (hhalf : HalfVersion version blocksPath blockSize limit files)
    {file : TextFile} {line : Option Text}
    (hfile : file = .blocksPath version ∨ (file = .capacity version ∧ line = none)) :
    HalfVersion version blocksPath blockSize limit (files.setText file (some line)) where
  housed := hhalf.housed
  directory := hhalf.directory
  granularity := by
    rw [FileSystem.setText_of_ne _ (by rcases hfile with rfl | ⟨rfl, -⟩ <;> simp)]
    exact hhalf.granularity
  table := hhalf.table
  size := by
    intro text
    rcases hfile with rfl | ⟨rfl, rfl⟩
    · rw [FileSystem.setText_of_ne _ (by simp)]
      exact hhalf.size text
    · rw [FileSystem.setText_self]
      exact nofun

theorem HalfVersion.answer (hhalf : HalfVersion version blocksPath blockSize limit files)
    {call : Call Hash} (hcall : call.PreparesVersion version limit) :
    HalfVersion version blocksPath blockSize limit (files.answer call).2 := by
  rcases hcall with (hspares | ⟨entries, hlength, rfl⟩) | rfl | ⟨text, rfl⟩ | rfl
  · exact hhalf.keep (FileSystem.keepsVersions_answer hspares files)
  · obtain ⟨table, htable, hlimit⟩ := hhalf.table
    simp only [FileSystem.answer, htable]
    refine ⟨hhalf.housed, hhalf.directory, hhalf.granularity,
      ⟨_, FileSystem.setMetadata_self _ _ _, ?_⟩, hhalf.size⟩
    rw [length_overwrite]
    exact max_le hlength hlimit
  · have hparent : files.directories (TextFile.blocksPath version).parent := hhalf.housed
    simp only [FileSystem.answer, hparent, if_true]
    exact hhalf.setText (.inl rfl)
  · simp only [FileSystem.answer]
    split
    · exact hhalf.setText (.inl rfl)
    · exact hhalf
  · have hparent : files.directories (TextFile.capacity version).parent := hhalf.housed
    simp only [FileSystem.answer, hparent, if_true]
    exact hhalf.setText (.inr ⟨rfl, rfl⟩)

omit [DecidableEq Hash] in
/-- A table that was just created is half a version. -/
theorem halfVersion_created (hsize : files.texts (.capacity version) = none)
    (hdirectory : files.directories (.path blocksPath))
    (hgranularity : files.texts (.granularity blocksPath) = some (some (.number blockSize))) :
    HalfVersion version blocksPath blockSize limit
      ((files.setDirectory (.path version)).setMetadata version (some [])) where
  housed := files.setDirectory_self _
  directory := FileSystem.directories_setDirectory hdirectory
  granularity := hgranularity
  table := ⟨[], FileSystem.setMetadata_self _ _ _, Nat.zero_le _⟩
  size := by
    intro text htext
    cases hsize.symm.trans htext

omit [DecidableEq Hash] in
/-- The version is whole once its capacity is written. -/
theorem HalfVersion.openable (hhalf : HalfVersion version blocksPath blockSize
    (capacity / blockSize) files) (hcapacity : capacity ≠ 0) :
    Openable version blocksPath blockSize capacity
      ((files.setText (.blocksPath version) (some (some (.path blocksPath)))).setText
        (.capacity version) (some (some (.number capacity)))) where
  housed := hhalf.housed
  located := by
    refine ⟨.path blocksPath, ?_, rfl⟩
    rw [FileSystem.setText_of_ne _ (by simp), FileSystem.setText_self]
  directory := hhalf.directory
  granularity := by
    rw [FileSystem.setText_of_ne _ (by simp), FileSystem.setText_of_ne _ (by simp)]
    exact hhalf.granularity
  capacityText := FileSystem.setText_self _ _ _
  capacity_ne := hcapacity
  table := hhalf.table

end Snapshots

namespace SigactionVirtualMemoryManager

variable [DecidableEq Hash] {build : Build Hash} {manager : SigactionVirtualMemoryManager Hash}
variable {schedule : MsyncSchedule} {trace : List (Σ call : Call Hash, Reply call)}

open FileSystem (Answers)

/-- The table of the new version is created. -/
def tableCreated (version : Path) : Σ call : Call Hash, Reply call :=
  ⟨.openMetadata version true false, true⟩

/-- The capacity of the new version is written. -/
def capacityWritten (version : Path) (capacity : ℕ) : Σ call : Call Hash, Reply call :=
  ⟨.writeText (.capacity version) (.number capacity), ()⟩

omit [DecidableEq Hash] in
/-- Before its last call a snapshot has not written the capacity. -/
theorem capacityWritten_not_mem (limit : ℕ) {value : ℕ}
    (hcalls : ∀ entry ∈ trace, Call.PreparesVersion version limit entry.1) :
    capacityWritten version value ∉ tableCreated version :: trace := by
  intro hmem
  rcases List.mem_cons.mp hmem with hsame | hmem
  · cases hsame
  · rcases hcalls _ hmem with (hspares | ⟨_, -, hcall⟩) | hcall | ⟨_, hcall⟩ | hcall
    · exact hspares
    all_goals cases hcall

/-- A half version stays one up to the last call of the snapshot. -/
theorem halfVersion_of_prepares {limit : ℕ} {A : Type} {program : StorageProgram Hash A}
    {outcome : Outcome A} (hcalls : program.CallsOnly (Call.PreparesVersion version limit))
    (hhalf : HalfVersion version blocksPath blockSize limit files)
    (hruns : program.RunsAlong Answers files trace outcome files') :
    HalfVersion version blocksPath blockSize limit files' := by
  refine hcalls.runsTo_keeps (fun call before reply after hcall hbefore hanswer => ?_) hhalf
    hruns.runsTo
  rw [← show (before.answer call).2 = after from congrArg Prod.snd hanswer]
  exact hbefore.answer hcall

/-- What the last call of a snapshot leaves. -/
theorem openable_of_texts (hhalf : HalfVersion version blocksPath blockSize
    (capacity / blockSize) files) (hcapacity : capacity ≠ 0) {prepared : FileSystem Hash}
    (hruns : (prepareTexts version blocksPath).RunsAlong Answers files trace (.returned ())
      prepared)
    (hwritten : prepared.answer (.writeText (.capacity version) (.number capacity)) =
      ((), files')) : Openable version blocksPath blockSize capacity files' := by
  let named := files.setText (.blocksPath version) (some (some (.path blocksPath)))
  have hnamed : (writeTextFile (.blocksPath version) (.path blocksPath)).run FileSystem.answer
      files = (.returned (), named) :=
    run_writeTextFile (show files.directories (TextFile.blocksPath version).parent from
      hhalf.housed) _
  have hparent : named.directories (TextFile.capacity version).parent := hhalf.housed
  have hrun := hruns.run_of_returned
  unfold prepareTexts at hrun
  rw [Program.run_bind_of_returned hnamed] at hrun
  simp only [systemCall, Program.request, Program.run_call, FileSystem.answer, hparent, if_true,
    Program.run_finish] at hrun
  cases hrun
  simp only [FileSystem.answer, FileSystem.setText_self, FileSystem.setText_setText] at hwritten
  cases hwritten
  exact hhalf.openable hcapacity

/-- A snapshot that is killed leaves nothing, half a version or all of it. -/
theorem takeSnapshot_remains (hsession : manager.Reopenable files)
    (hfresh : FreshVersion version files) {outcome : Outcome _}
    (hruns : (takeSnapshot build manager version schedule).RunsAlong Answers
      (files.setDirectory (.path version)) trace outcome files') :
    Remains (tableCreated version ∈ trace)
      (capacityWritten version manager.regionMaxCapacity ∈ trace) files.KeepsVersions
      (HalfVersion version manager.blockStorage.baseDirectory manager.blockSize
        manager.numBlocks)
      (Openable version manager.blockStorage.baseDirectory manager.blockSize
        manager.regionMaxCapacity) files' := by
  rw [takeSnapshot_eq] at hruns
  rcases hruns with ⟨rfl, -, rfl⟩ | ⟨opened, created, rest, rfl, hopened, hrest⟩
  · exact .nothing List.not_mem_nil (FileSystem.keepsVersions_setDirectory _)
  have hcreated : (files.setDirectory (.path version)).answer
      (.openMetadata version true false) =
        (true, (files.setDirectory (.path version)).setMetadata version (some [])) := by
    have hnone : (files.setDirectory (.path version)).metadata version = none := hfresh.metadata
    simp [FileSystem.answer, hnone]
  cases hcreated.symm.trans hopened
  have hhalf : HalfVersion version manager.blockStorage.baseDirectory manager.blockSize
      manager.numBlocks ((files.setDirectory (.path version)).setMetadata version (some [])) :=
    halfVersion_created hfresh.capacity hsession.openable.directory
      hsession.openable.granularity
  have hcommits : (commitSnapshot build manager version schedule).CallsOnly
      (Call.PreparesVersion version manager.numBlocks) := prepares_commitSnapshot hsession.kept
  rcases hrest.bind_cases with ⟨stopped, -, hstopped⟩ |
    ⟨restored, committed, first, second, rfl, hfirst, hsecond⟩
  · exact .half List.mem_cons_self (capacityWritten_not_mem _ (hcommits.runsAlong hstopped))
      (halfVersion_of_prepares hcommits hhalf hstopped)
  obtain ⟨hbase, hcapacity⟩ := commitSnapshot_returns hsession.kept hfirst.returns
  have hcommitted := halfVersion_of_prepares hcommits hhalf hfirst
  have hcalled := hcommits.runsAlong hfirst
  have htexts : (prepareTexts version restored.blockStorage.baseDirectory :
      StorageProgram Hash Unit).CallsOnly (Call.PreparesVersion version manager.numBlocks) :=
    prepares_prepareTexts _
  rcases hsecond.bind_cases with ⟨stopped, -, hstopped⟩ |
    ⟨⟨⟩, prepared, third, fourth, rfl, hthird, hlast⟩
  · refine .half List.mem_cons_self (capacityWritten_not_mem manager.numBlocks ?_)
      (halfVersion_of_prepares htexts hcommitted hstopped)
    exact List.forall_mem_append.mpr ⟨hcalled, htexts.runsAlong hstopped⟩
  rcases hlast with ⟨rfl, -, rfl⟩ | ⟨⟨⟩, written, rest, rfl, hwritten, -, -, rfl⟩
  · refine .half List.mem_cons_self (capacityWritten_not_mem manager.numBlocks ?_)
      (halfVersion_of_prepares htexts hcommitted hthird)
    rw [List.append_nil]
    exact List.forall_mem_append.mpr ⟨hcalled, htexts.runsAlong hthird⟩
  · rw [hbase] at hthird
    rw [hcapacity] at hwritten ⊢
    refine .all List.mem_cons_self (by simp [capacityWritten]) ?_
    exact openable_of_texts hcommitted hsession.openable.capacity_ne hthird hwritten

theorem snapshot_remains (hsession : manager.Reopenable files)
    (hfresh : FreshVersion version files) {outcome : Outcome _}
    (hruns : (snapshot build manager version schedule).RunsAlong Answers files trace outcome
      files') :
    Remains (tableCreated version ∈ trace)
      (capacityWritten version manager.regionMaxCapacity ∈ trace) files.KeepsVersions
      (HalfVersion version manager.blockStorage.baseDirectory manager.blockSize
        manager.numBlocks)
      (Openable version manager.blockStorage.baseDirectory manager.blockSize
        manager.regionMaxCapacity) files' := by
  rcases hruns with ⟨rfl, -, rfl⟩ | ⟨found, looked, rest, rfl, hfound, hrest⟩
  · exact .nothing List.not_mem_nil (.refl _)
  have hanswer : files.answer (.directoryExists (.path version)) = (false, files) := by
    rw [FileSystem.answer, hfresh.directory]
  cases hanswer.symm.trans hfound
  rcases hrest with ⟨rfl, -, rfl⟩ | ⟨made, created, rest, rfl, hmade, hrest⟩
  · exact .nothing (by simp [tableCreated]) (.refl _)
  cases hmade
  refine (takeSnapshot_remains hsession hfresh hrest).congr ?_ ?_
  · simp [tableCreated]
  · simp [capacityWritten]

/-! ## A snapshot after a restart -/

/-- A version without a table may have its directory. -/
theorem run_snapshot_of_missing (hmissing : files.metadata version = none) :
    (snapshot build manager version schedule).run FileSystem.answer files =
      (takeSnapshot build manager version schedule).run FileSystem.answer
        (files.setDirectory (.path version)) := by
  unfold snapshot
  cases hdirectory : files.directories (.path version) with
  | true =>
      rw [FileSystem.setDirectory_of_directories hdirectory]
      simp [FileSystem.answer, hdirectory, hmissing]
  | false => simp [FileSystem.answer, hdirectory]

/-- A manager that has just been constructed has nothing to commit. -/
theorem run_commitSnapshot_initial (base : VirtualMemoryManagerBase Hash) :
    (commitSnapshot build (initial base) version schedule).run FileSystem.answer files =
      (.returned (initial base), files) := by
  have hempty : ∀ base : VirtualMemoryManagerBase Hash, base.stashVector ∅ = [] := by
    intro base
    simp [VirtualMemoryManagerBase.stashVector]
  unfold commitSnapshot msync msyncBlocks VirtualMemoryManagerBase.commitBlocks
    VirtualMemoryManagerBase.storeDirtyBlocks updateMetadata
    VirtualMemoryManagerBase.updateMetadata
  simp [initial, hempty, VirtualMemoryManagerBase.commitStashed, Program.arrange_nil,
    FileSystem.answer]

/-- A session that has just been opened makes a snapshot that can be opened. -/
theorem run_snapshot_initial {base : VirtualMemoryManagerBase Hash} {other : Path}
    {maxMemBlocks : ℕ} (hbase : OpenedBase other blocksPath blockSize capacity maxMemBlocks base)
    (hopenable : Openable other blocksPath blockSize capacity files)
    (hmissing : files.metadata version = none)
    (hsize : files.texts (.capacity version) = none) :
    ∃ restored files', (snapshot build (initial base) version schedule).run FileSystem.answer
      files = (.returned (true, restored), files') ∧
        Openable version blocksPath blockSize capacity files' := by
  have hcreated : (files.setDirectory (.path version)).answer
      (.openMetadata version true false) =
        (true, (files.setDirectory (.path version)).setMetadata version (some [])) := by
    have hnone : (files.setDirectory (.path version)).metadata version = none := hmissing
    simp [FileSystem.answer, hnone]
  have hhalf : HalfVersion version blocksPath blockSize (capacity / blockSize)
      ((files.setDirectory (.path version)).setMetadata version (some [])) :=
    halfVersion_created hsize hopenable.directory hopenable.granularity
  refine ⟨initial base, _, ?_, hhalf.openable hopenable.capacity_ne⟩
  rw [run_snapshot_of_missing hmissing, takeSnapshot_eq, Program.run_call, hcreated,
    Program.run_bind_of_returned (run_commitSnapshot_initial base)]
  have htexts := run_writeTextFiles (files.setDirectory_self (.path version)) ([] : List Hash)
    base.blockStorage.baseDirectory base.regionMaxCapacity
      (.finish (true, initial base) :
        StorageProgram Hash (Bool × SigactionVirtualMemoryManager Hash))
  rw [hbase.baseDirectory, hbase.capacity] at htexts
  rw [show (initial base).blockStorage.baseDirectory = blocksPath from hbase.baseDirectory,
    show (initial base).regionMaxCapacity = capacity from hbase.capacity]
  exact htexts


end SigactionVirtualMemoryManager

/-! ## Copies -/

/-- A version whose directory is there and whose blocks path is not. -/
structure HalfCopied (version : Path) (files : FileSystem Hash) : Prop where
  housed : files.directories (.path version)
  blocksPath : files.texts (.blocksPath version) = none

section Copies

open FileSystem (Answers)

variable [DecidableEq Hash] {build : Build Hash} {object : PrivateerObject Hash}
variable {name newName : Path} {maxMemBlocks address : ℕ} {readOnly : Bool}
variable {trace : List (Σ call : Call Hash, Reply call)}

/-- The directory of the new version is made. -/
def directoryMade (target : Path) : Σ call : Call Hash, Reply call :=
  ⟨.createDirectory (.path target), true⟩

/-- The last file of the new version is copied. -/
def blocksPathCopied (source target : Path) : Σ call : Call Hash, Reply call :=
  ⟨.copyText (.blocksPath source) (.blocksPath target), true⟩

omit [DecidableEq Hash] in
theorem sparesVersions_openStorage (blocksPath stashPath : Path) :
    (BlockStorage.open blocksPath stashPath :
      StorageProgram Hash (BlockStorage Hash)).CallsOnly Call.SparesVersions := by
  have hprepare : (BlockStorage.prepareStashDirectory stashPath :
      StorageProgram Hash Unit).CallsOnly Call.SparesVersions := by
    unfold BlockStorage.prepareStashDirectory
    split
    · trivial
    · refine ⟨trivial, fun found => ?_⟩
      cases found with
      | true => trivial
      | false => exact ⟨trivial, fun made => by cases made <;> trivial⟩
  refine hprepare.bind fun _ => ⟨trivial, fun found => ?_⟩
  cases found with
  | true => exact ⟨trivial, fun text => by rcases text with _ | _ | _ | _ <;> trivial⟩
  | false => trivial

omit [DecidableEq Hash] in
theorem sparesVersions_openBase {version stashPath : Path} :
    (VirtualMemoryManagerBase.open build version stashPath maxMemBlocks readOnly).CallsOnly
      Call.SparesVersions := by
  have hlocated : (versionBlocksPath version : StorageProgram Hash Path).CallsOnly
      Call.SparesVersions :=
    ⟨trivial, fun text => by rcases text with _ | _ | _ | _ <;> trivial⟩
  have hcapacity : (versionCapacity version : StorageProgram Hash ℕ).CallsOnly
      Call.SparesVersions :=
    ⟨trivial, fun text => by rcases text with _ | _ | _ | _ <;> trivial⟩
  refine hlocated.bind fun located => ?_
  refine (sparesVersions_openStorage located stashPath).bind fun storage => ?_
  refine ⟨rfl, fun found => ?_⟩
  cases found with
  | false => trivial
  | true =>
      refine ⟨trivial, fun size => hcapacity.bind fun capacity => ?_⟩
      refine ⟨trivial, fun mapped => ?_⟩
      cases mapped with
      | false => trivial
      | true =>
          refine ⟨trivial, fun entries => ?_⟩
          cases entries with
          | none => trivial
          | some entries =>
              change Program.CallsOnly _ (if _ then _ else _)
              split <;> trivial

omit [DecidableEq Hash] in
/-- Opening a version writes no file of one. -/
theorem sparesVersions_openObject :
    (object.open build name maxMemBlocks readOnly address).CallsOnly Call.SparesVersions := by
  refine ⟨trivial, fun found => ?_⟩
  cases found with
  | false => trivial
  | true =>
      have hmanager : (SigactionVirtualMemoryManager.open build (object.versionPath name)
          object.stashDirPath maxMemBlocks readOnly).CallsOnly Call.SparesVersions :=
        sparesVersions_openBase.bind fun base =>
          show Program.CallsOnly _ (.finish _) from trivial
      exact hmanager.bind fun manager => trivial

omit [DecidableEq Hash] in
/-- A version with copies of the three files of one that can be opened. -/
theorem Openable.copied {source target : Path} {text : Text} {entries : List Hash}
    (hopenable : Openable source blocksPath blockSize capacity files)
    (htext : text.asPath = blocksPath) (hlength : entries.length ≤ capacity / blockSize) :
    Openable target blocksPath blockSize capacity
      ((((files.setDirectory (.path target)).setMetadata target (some entries)).setText
        (.capacity target) (some (some (.number capacity)))).setText (.blocksPath target)
          (some (some text))) where
  housed := files.setDirectory_self _
  located := ⟨text, FileSystem.setText_self _ _ _, htext⟩
  directory := FileSystem.directories_setDirectory hopenable.directory
  granularity := by
    rw [FileSystem.setText_of_ne _ (by simp), FileSystem.setText_of_ne _ (by simp)]
    exact hopenable.granularity
  capacityText := by
    rw [FileSystem.setText_of_ne _ (by simp), FileSystem.setText_self]
  capacity_ne := hopenable.capacity_ne
  table := ⟨entries, FileSystem.setMetadata_self _ _ _, hlength⟩

theorem answer_copyMetadata {source target : Path} {entries : List Hash}
    (hsource : files.metadata source = some entries) (htarget : files.metadata target = none) :
    files.answer (.copyMetadata source target) =
      (true, files.setMetadata target (some entries)) := by
  rw [FileSystem.answer, hsource, htarget]

theorem answer_copyText {source target : TextFile} {line : Option Text}
    (hsource : files.texts source = some line) (htarget : files.texts target = none) :
    files.answer (.copyText source target) = (true, files.setText target (some line)) := by
  rw [FileSystem.answer, hsource, htarget]

/-- The states of a copy, from the directory of the new version to its last file. -/
theorem Openable.answers_of_copy {source target : Path}
    (hopenable : Openable source blocksPath blockSize capacity files)
    (hfresh : FreshVersion target files) :
    ∃ tabled sized copied,
      (files.setDirectory (.path target)).answer (.copyMetadata source target) =
        (true, tabled) ∧
      tabled.answer (.copyText (.capacity source) (.capacity target)) = (true, sized) ∧
      sized.answer (.copyText (.blocksPath source) (.blocksPath target)) = (true, copied) ∧
      (∀ between ∈ [files.setDirectory (.path target), tabled, sized],
        HalfCopied target between) ∧
      Openable target blocksPath blockSize capacity copied := by
  obtain ⟨text, htext, hlocated⟩ := hopenable.located
  obtain ⟨entries, hentries, hlength⟩ := hopenable.table
  refine ⟨_, _, _, answer_copyMetadata hentries hfresh.metadata,
    answer_copyText hopenable.capacityText hfresh.capacity,
    answer_copyText htext hfresh.blocksPath, ?_, hopenable.copied hlocated hlength⟩
  have hhalf : HalfCopied target (files.setDirectory (.path target)) :=
    ⟨files.setDirectory_self _, hfresh.blocksPath⟩
  rw [List.forall_mem_cons, List.forall_mem_cons, List.forall_mem_singleton]
  exact ⟨hhalf, ⟨hhalf.housed, hhalf.blocksPath⟩, ⟨hhalf.housed, hhalf.blocksPath⟩⟩

/-- A copy that is killed leaves nothing, half a version or all of it. -/
theorem openImmutable_remains
    (hopenable : Openable (object.versionPath name) blocksPath blockSize capacity files)
    (hfresh : FreshVersion (object.versionPath newName) files) {outcome : Outcome _}
    (hruns : (object.openImmutable build name newName maxMemBlocks address).RunsAlong Answers
      files trace outcome files') :
    Remains (directoryMade (object.versionPath newName) ∈ trace)
      (blocksPathCopied (object.versionPath name) (object.versionPath newName) ∈ trace)
      (· = files) (HalfCopied (object.versionPath newName))
      (Openable (object.versionPath newName) blocksPath blockSize capacity) files' := by
  obtain ⟨tabled, sized, copied, htable, hsize, hcopy, hhalf, hwhole⟩ :=
    hopenable.answers_of_copy hfresh
  have hfound : files.answer (.directoryExists (.path (object.versionPath name))) =
      (true, files) := by
    rw [FileSystem.answer, hopenable.housed]
  have hmissing : files.answer (.directoryExists (.path (object.versionPath newName))) =
      (false, files) := by
    rw [FileSystem.answer, hfresh.directory]
  rcases hruns with ⟨rfl, -, rfl⟩ | ⟨_, _, rest, rfl, hanswer, hrest⟩
  · exact .nothing List.not_mem_nil rfl
  cases hfound.symm.trans hanswer
  rcases hrest with ⟨rfl, -, rfl⟩ | ⟨_, _, rest, rfl, hanswer, hrest⟩
  · exact .nothing (by simp [directoryMade]) rfl
  cases hmissing.symm.trans hanswer
  rcases hrest with ⟨rfl, -, rfl⟩ | ⟨_, _, rest, rfl, hanswer, hrest⟩
  · exact .nothing (by simp [directoryMade]) rfl
  cases hanswer
  -- from here on the directory is there
  rcases hrest with ⟨rfl, -, rfl⟩ | ⟨_, _, rest, rfl, hanswer, hrest⟩
  · exact .half (by simp [directoryMade]) (by simp [blocksPathCopied]) (hhalf _ (by simp))
  cases htable.symm.trans hanswer
  rcases hrest with ⟨rfl, -, rfl⟩ | ⟨_, _, rest, rfl, hanswer, hrest⟩
  · exact .half (by simp [directoryMade]) (by simp [blocksPathCopied]) (hhalf _ (by simp))
  cases hsize.symm.trans hanswer
  rcases hrest with ⟨rfl, -, rfl⟩ | ⟨_, _, rest, rfl, hanswer, hrest⟩
  · exact .half (by simp [directoryMade]) (by simp [blocksPathCopied]) (hhalf _ (by simp))
  cases hcopy.symm.trans hanswer
  refine .all (by simp [directoryMade]) (by simp [blocksPathCopied]) ?_
  refine sparesVersions_openObject.runsTo_keeps ?_ hwhole hrest.runsTo
  rintro call before reply after hspares hbefore hanswer
  rw [← show (before.answer call).2 = after from congrArg Prod.snd hanswer]
  exact hbefore.keep (FileSystem.keepsVersions_answer hspares before)

/-- A version that can be opened is copied under a fresh name. -/
theorem Openable.run_openImmutable
    (hopenable : Openable (object.versionPath name) blocksPath blockSize capacity files)
    (hfresh : FreshVersion (object.versionPath newName) files) (build : Build Hash)
    (maxMemBlocks address : ℕ) :
    ∃ opened files', (object.openImmutable build name newName maxMemBlocks address).run
      FileSystem.answer files = (.returned opened, files') ∧
        Openable (object.versionPath newName) blocksPath blockSize capacity files' := by
  obtain ⟨tabled, sized, copied, htable, hsize, hcopy, -, hwhole⟩ :=
    hopenable.answers_of_copy hfresh
  obtain ⟨base, files', hopen, -, hkeeps⟩ :=
    hwhole.run_openObject build maxMemBlocks address false
  refine ⟨object.addManager (.initial base) address base.regionMaxCapacity, files', ?_,
    hwhole.keep hkeeps⟩
  have hfound : files.answer (.directoryExists (.path (object.versionPath name))) =
      (true, files) := by
    rw [FileSystem.answer, hopenable.housed]
  have hmissing : files.answer (.directoryExists (.path (object.versionPath newName))) =
      (false, files) := by
    rw [FileSystem.answer, hfresh.directory]
  have hmade : files.answer (.createDirectory (.path (object.versionPath newName))) =
      (true, files.setDirectory (.path (object.versionPath newName))) := rfl
  unfold PrivateerObject.openImmutable
  simp only [Program.request_bind, Program.run_call, hfound, hmissing, hmade, htable, hsize,
    hcopy, if_true, Bool.false_eq_true, if_false]
  exact hopen

end Copies

/-! ## After a restart -/

/-- What a process that is started again on a datastore passes to its calls. -/
structure Restart where
  stashBasePath : Path
  blockSize : ℕ
  maxMemBlocks : ℕ
  readOnly : Bool
  address : ℕ
  schedule : MsyncSchedule

def Restart.object (restart : Restart) (basePath : Path) : PrivateerObject Hash :=
  .initial basePath restart.stashBasePath restart.blockSize

section Restarts

open FileSystem (Answers)

variable [DecidableEq Hash] {build : Build Hash} {restart : Restart}
variable {basePath own name : Path}

/-- All files of the version are there and complete, and it can be opened. -/
def Appears (build : Build Hash) (restart : Restart) (basePath name : Path)
    (files : FileSystem Hash) : Prop :=
  (∃ blocksPath blockSize capacity,
    Openable (basePath.below name) blocksPath blockSize capacity files) ∧
      ∃ opened files', ((restart.object basePath).open build name restart.maxMemBlocks
        restart.readOnly restart.address).run FileSystem.answer files =
          (.returned opened, files')

omit [DecidableEq Hash] in
/-- A process that is started again opens a version and takes a snapshot of it. -/
def snapshotAgain (build : Build Hash) (restart : Restart) (basePath own name : Path) :
    StorageProgram Hash Bool := do
  let manager ← (Opening.open own restart.maxMemBlocks restart.readOnly).program build
    (restart.object basePath) restart.address
  let taken ← manager.snapshot build (basePath.below name) restart.schedule
  return taken.1

/-- The snapshot succeeds after a restart, and the version is there. -/
def SnapshotRepeats (build : Build Hash) (restart : Restart) (basePath own name : Path)
    (files : FileSystem Hash) : Prop :=
  ∃ files', (snapshotAgain build restart basePath own name).run FileSystem.answer files =
    (.returned true, files') ∧ Appears build restart basePath name files'

/-- `open_immutable` succeeds after a restart, and the version is there. -/
def ImmutableRepeats (build : Build Hash) (restart : Restart) (basePath source name : Path)
    (files : FileSystem Hash) : Prop :=
  ∃ opened files', ((restart.object basePath).openImmutable build source name
    restart.maxMemBlocks restart.address).run FileSystem.answer files =
      (.returned opened, files') ∧ Appears build restart basePath name files'

theorem appears_of_openable
    (hopenable : Openable (basePath.below name) blocksPath blockSize capacity files) :
    Appears build restart basePath name files := by
  obtain ⟨base, files', hrun, -, -⟩ := (show Openable
    ((restart.object basePath : PrivateerObject Hash).versionPath name) _ _ _ _ from
      hopenable).run_openObject build restart.maxMemBlocks restart.address restart.readOnly
  exact ⟨⟨_, _, _, hopenable⟩, _, files', hrun⟩

omit [DecidableEq Hash] in
theorem HalfVersion.not_openable {limit : ℕ} {located : Path} {granularity : ℕ}
    (hhalf : HalfVersion version blocksPath blockSize limit files) :
    ¬ Openable version located granularity capacity files :=
  fun hopenable => hhalf.size _ hopenable.capacityText

omit [DecidableEq Hash] in
theorem HalfCopied.not_openable (hhalf : HalfCopied version files) :
    ¬ Openable version blocksPath blockSize capacity files := by
  intro hopenable
  obtain ⟨text, htext, -⟩ := hopenable.located
  cases hhalf.blocksPath.symm.trans htext

/-- The version of the session is there after a crash, so the snapshot is taken again. -/
theorem snapshotRepeats_of_missing
    (hopenable : Openable (basePath.below own) blocksPath blockSize capacity files)
    (hmissing : files.metadata (basePath.below name) = none)
    (hsize : files.texts (.capacity (basePath.below name)) = none) :
    SnapshotRepeats build restart basePath own name files := by
  obtain ⟨base, opened, hopen, hbase, hkeeps⟩ := (show Openable
    ((restart.object basePath : PrivateerObject Hash).versionPath own) _ _ _ _ from
      hopenable).run_openObject build restart.maxMemBlocks restart.address restart.readOnly
  have hmanager : ((Opening.open own restart.maxMemBlocks restart.readOnly).program build
      (restart.object basePath) restart.address).run FileSystem.answer files =
        (.returned (.initial base), opened) := by
    change Program.run _ ((restart.object basePath).open build own restart.maxMemBlocks
      restart.readOnly restart.address >>= _) files = _
    rw [Program.run_bind_of_returned hopen]
    beta_reduce
    rw [PrivateerObject.getLast?_addManager]
    rfl
  obtain ⟨restored, files', hsnapshot, hwhole⟩ :=
    SigactionVirtualMemoryManager.run_snapshot_initial hbase (hopenable.keep hkeeps)
      (by rw [hkeeps.metadata, hmissing]) (by rw [hkeeps.texts, hsize])
  refine ⟨files', ?_, appears_of_openable hwhole⟩
  unfold snapshotAgain
  rw [Program.run_bind_of_returned hmanager, Program.run_bind_of_returned hsnapshot]
  rfl

/-- A snapshot is not taken again once the table of its version is there. -/
theorem HalfVersion.not_snapshotRepeats {limit : ℕ}
    (hhalf : HalfVersion (basePath.below name) blocksPath blockSize limit files) :
    ¬ SnapshotRepeats build restart basePath own name files := by
  rintro ⟨files', hrun, -⟩
  obtain ⟨manager, started, hmanager, hrest⟩ := Program.run_bind_returned hrun
  obtain ⟨taken, final, hsnapshot, hlast⟩ := Program.run_bind_returned hrest
  obtain ⟨opened, between, hopen, hfirst⟩ := Program.run_bind_returned
    (show Program.run _ ((restart.object basePath).open build own restart.maxMemBlocks
      restart.readOnly restart.address >>= _) files = _ from hmanager)
  obtain ⟨base, _, _, _, hobject, -, -, hkeeps⟩ := openable_of_openObject hopen
  obtain ⟨rfl, rfl⟩ := Opening.session_of_last hobject hfirst
  have hthere := hhalf.keep hkeeps
  obtain ⟨entries, hentries, -⟩ := hthere.table
  unfold SigactionVirtualMemoryManager.snapshot at hsnapshot
  simp only [Program.request_bind, Program.run_call, FileSystem.answer, hthere.housed, hentries,
    if_true, Option.isSome_some] at hsnapshot
  cases hsnapshot
  cases hlast

/-- `open_immutable` ends the process once the directory of its version is there. -/
theorem HalfCopied.not_immutableRepeats {source : Path}
    (hhalf : HalfCopied (basePath.below name) files) :
    ¬ ImmutableRepeats build restart basePath source name files := by
  rintro ⟨opened, files', hrun, -⟩
  obtain ⟨-, hfound⟩ := Program.run_ite_exit_returned hrun
  have hthere : files.directories
      (.path ((restart.object basePath : PrivateerObject Hash).versionPath name)) :=
    hhalf.housed
  simp only [Program.request_bind, Program.run_call, FileSystem.answer, hthere, if_true] at hfound
  cases hfound

end Restarts

/-! ## When a version appears completely or not at all -/

/-- The name of the version that a session works on. -/
def Opening.name : Opening → Path
  | .create version _ _ _ => version
  | .open version _ _ => version
  | .openImmutable _ newVersion _ => newVersion

theorem Opening.version_eq (object : PrivateerObject Hash) (opening : Opening) :
    opening.version object = object.baseDirPath.below opening.name := by
  cases opening <;> rfl

theorem Remains.iff {began finished : Prop} {untouched half whole : FileSystem Hash → Prop}
    {goal : Prop} (hremains : Remains began finished untouched half whole files')
    (huntouched : untouched files' → goal) (hhalf : half files' → ¬ goal)
    (hwhole : whole files' → goal) : goal ↔ ¬ began ∨ finished := by
  cases hremains with
  | nothing hnot hfiles => exact iff_of_true (huntouched hfiles) (.inl hnot)
  | half hbegan hnot hfiles =>
      refine iff_of_false (hhalf hfiles) ?_
      rintro (hbegan' | hfinished)
      · exact hbegan' hbegan
      · exact hnot hfinished
  | all hbegan hfinished hfiles => exact iff_of_true (hwhole hfiles) (.inr hfinished)

section Crashes

open FileSystem (Answers)
open SigactionVirtualMemoryManager

variable [DecidableEq Hash] {build : Build Hash} {restart : Restart}
variable {basePath own name : Path} {manager : SigactionVirtualMemoryManager Hash}
variable {trace : List (Σ call : Call Hash, Reply call)}

/-- A snapshot that was killed is there, or can be taken again, if it was killed before the
table of the version was created or after its capacity was written. -/
theorem snapshot_killed_iff (hsession : manager.Reopenable files)
    (hown : manager.versionMetadataPath = basePath.below own)
    (hfresh : FreshVersion (basePath.below name) files) {schedule : MsyncSchedule}
    {outcome : Outcome _}
    (hruns : (manager.snapshot build (basePath.below name) schedule).RunsAlong Answers files
      trace outcome files') :
    Appears build restart basePath name files' ∨
        SnapshotRepeats build restart basePath own name files' ↔
      tableCreated (basePath.below name) ∉ trace ∨
        capacityWritten (basePath.below name) manager.regionMaxCapacity ∈ trace := by
  refine (snapshot_remains hsession hfresh hruns).iff (fun hkeeps => .inr ?_) ?_
    (fun hwhole => .inl (appears_of_openable hwhole))
  · have hopenable := hsession.openable.keep hkeeps
    rw [hown] at hopenable
    exact snapshotRepeats_of_missing hopenable (by rw [hkeeps.metadata, hfresh.metadata])
      (by rw [hkeeps.texts, hfresh.capacity])
  · rintro hhalf (⟨⟨_, _, _, hopenable⟩, -⟩ | hrepeats)
    · exact hhalf.not_openable hopenable
    · exact hhalf.not_snapshotRepeats hrepeats

/-- So it is with a copy, if it was killed before the directory of the version was made or
after its blocks path was copied. -/
theorem openImmutable_killed_iff {object : PrivateerObject Hash}
    (hobject : object.baseDirPath = basePath) {source : Path} {maxMemBlocks address : ℕ}
    (hopenable : Openable (basePath.below source) blocksPath blockSize capacity files)
    (hfresh : FreshVersion (basePath.below name) files) {outcome : Outcome _}
    (hruns : (object.openImmutable build source name maxMemBlocks address).RunsAlong Answers
      files trace outcome files') :
    Appears build restart basePath name files' ∨
        ImmutableRepeats build restart basePath source name files' ↔
      directoryMade (basePath.below name) ∉ trace ∨
        blocksPathCopied (basePath.below source) (basePath.below name) ∈ trace := by
  subst hobject
  refine (openImmutable_remains hopenable hfresh hruns).iff ?_ ?_
    (fun hwhole => .inl (appears_of_openable hwhole))
  · rintro rfl
    obtain ⟨opened, repeated, hrun, hwhole⟩ := (show Openable
      ((restart.object object.baseDirPath : PrivateerObject Hash).versionPath source) _ _ _ _
        from hopenable).run_openImmutable hfresh build restart.maxMemBlocks restart.address
    exact .inr ⟨opened, repeated, hrun, appears_of_openable hwhole⟩
  · rintro hhalf (⟨⟨_, _, _, hcopied⟩, -⟩ | hrepeats)
    · exact hhalf.not_openable hcopied
    · exact hhalf.not_immutableRepeats hrepeats

/-- After any operations of a session, a snapshot or a copy that is killed can be opened or
made again unless it was killed between the first call that makes some of the version and
the one that completes it. -/
theorem killed_version_recovers_iff {stashBasePath : Path} {blockSize address : ℕ}
    {opening : Opening} {started : SigactionVirtualMemoryManager Hash}
    {opened reached : FileSystem Hash} {operations : List Operation} {bytes : List Byte}
    (hrecords : opening.Records (.initial basePath stashBasePath blockSize) files)
    (hstarted : (opening.program build (.initial basePath stashBasePath blockSize) address).run
      FileSystem.answer files = (.returned started, opened))
    (hpos : 0 < started.blockSize)
    (hwithin : ∀ operation ∈ operations,
      operation.Within (started.numBlocks * started.blockSize))
    (hperformed : (performAll build operations started).run FileSystem.answer opened =
      (.returned (bytes, manager), reached))
    (hfresh : FreshVersion (basePath.below name) reached) (restart : Restart) :
    (∀ schedule trace outcome crashed,
      (manager.snapshot build (basePath.below name) schedule).RunsAlong Answers reached trace
        outcome crashed →
      (Appears build restart basePath name crashed ∨
          SnapshotRepeats build restart basePath opening.name name crashed ↔
        tableCreated (basePath.below name) ∉ trace ∨
          capacityWritten (basePath.below name) manager.regionMaxCapacity ∈ trace)) ∧
    ∀ (object : PrivateerObject Hash) source blocksPath granularity capacity maxMemBlocks
      address trace outcome crashed, object.baseDirPath = basePath →
      Openable (basePath.below source) blocksPath granularity capacity reached →
      (object.openImmutable build source name maxMemBlocks address).RunsAlong Answers reached
        trace outcome crashed →
      (Appears build restart basePath name crashed ∨
          ImmutableRepeats build restart basePath source name crashed ↔
        directoryMade (basePath.below name) ∉ trace ∨
          blocksPathCopied (basePath.below source) (basePath.below name) ∈ trace) := by
  obtain ⟨hsession, hversion⟩ := Opening.reopenable
    (constructed_initial basePath stashBasePath blockSize) hrecords hpos hstarted
  obtain ⟨hreached, hsame⟩ := hsession.performAll hwithin hperformed
  have hown : manager.versionMetadataPath = basePath.below opening.name :=
    (hsame.versionMetadataPath.trans hversion).trans (Opening.version_eq _ _)
  refine ⟨fun schedule trace outcome crashed hruns =>
    snapshot_killed_iff hreached hown hfresh hruns, ?_⟩
  intro object source blocksPath granularity capacity maxMemBlocks address trace outcome crashed
    hobject hopenable hruns
  exact openImmutable_killed_iff hobject hopenable hfresh hruns

/-- A restart with the paths and the block size of the first start. -/
def sameRestart : Restart where
  stashBasePath := ['d']
  blockSize := 1
  maxMemBlocks := 1
  readOnly := false
  address := 4096
  schedule := ⟨[], []⟩

/-- Two blocks are written to, the first is evicted, and the snapshot is killed once the
directory of its version is made: it is taken again. -/
theorem killed_version_recovers_iff_fresh :
    ∃ (started manager : SigactionVirtualMemoryManager (Option (List Byte)))
      (opened reached crashed : FileSystem (Option (List Byte)))
      (trace : List (Σ call, Reply call)),
      ((Opening.create ['v'] 2 1 false).program Build.transparent (.initial ['d'] ['d'] 1)
        4096).run FileSystem.answer FileSystem.empty = (.returned started, opened) ∧
      (performAll Build.transparent [.write 0 5, .write 1 7] started).run FileSystem.answer
        opened = (.returned ([], manager), reached) ∧
      manager.stashSet = {0} ∧
      (manager.snapshot Build.transparent ['d', '/', 'w'] ⟨[], []⟩).RunsAlong Answers reached
        trace .exited crashed ∧ directoryMade ['d', '/', 'w'] ∈ trace ∧
      (Appears Build.transparent sameRestart ['d'] ['w'] crashed ∨
        SnapshotRepeats Build.transparent sameRestart ['d'] ['v'] ['w'] crashed) := by
  refine ⟨_, _, _, _, _, [⟨.directoryExists (.path ['d', '/', 'w']), false⟩,
    ⟨.createDirectory (.path ['d', '/', 'w']), true⟩], rfl, rfl, by decide,
    .inr ⟨_, _, _, rfl, rfl, .inr ⟨_, _, _, rfl, rfl, .inl ⟨rfl, rfl, rfl⟩⟩⟩,
    List.mem_cons_of_mem _ List.mem_cons_self, ?_⟩
  refine ((@killed_version_recovers_iff _ FileSystem.empty _ Build.transparent ['d'] ['w'] _
    ['d'] 1 4096 (.create ['v'] 2 1 false) _ _ _ [.write 0 5, .write 1 7] []
      ⟨by decide, nofun⟩ rfl (by decide) ?_ rfl ⟨rfl, rfl, rfl, rfl⟩ sameRestart).1 ⟨[], []⟩
        [⟨.directoryExists (.path ['d', '/', 'w']), false⟩,
          ⟨.createDirectory (.path ['d', '/', 'w']), true⟩] .exited _
        (.inr ⟨_, _, _, rfl, rfl, .inr ⟨_, _, _, rfl, rfl, .inl ⟨rfl, rfl, rfl⟩⟩⟩)).mpr
          (.inl ?_)
  · intro operation hoperation
    fin_cases hoperation
    · exact Nat.zero_lt_two
    · exact Nat.one_lt_two
  · intro hcreated
    cases hcreated with
    | tail _ hcreated => cases hcreated with
      | tail _ hcreated => cases hcreated

/-- A snapshot that is killed once the table of its version is created can neither be opened
nor taken again. -/
theorem killed_snapshot_lost :
    ∃ (manager : SigactionVirtualMemoryManager (Option (List Byte)))
      (reached crashed : FileSystem (Option (List Byte))) (trace : List (Σ call, Reply call)),
      ((Opening.create ['v'] 1 1 false).program Build.transparent (.initial ['d'] ['d'] 1)
        4096).run FileSystem.answer FileSystem.empty = (.returned manager, reached) ∧
      FreshVersion ['d', '/', 'w'] reached ∧
      (manager.snapshot Build.transparent ['d', '/', 'w'] ⟨[], []⟩).RunsAlong Answers reached
        trace .exited crashed ∧
      ¬ Appears Build.transparent sameRestart ['d'] ['w'] crashed ∧
        ¬ SnapshotRepeats Build.transparent sameRestart ['d'] ['v'] ['w'] crashed := by
  have hlost : ∀ {crashed : FileSystem (Option (List Byte))},
      HalfVersion (Path.below ['d'] ['w']) ['d', '/', 'b', 'l', 'o', 'c', 'k', 's'] 1 1 crashed →
      ¬ Appears Build.transparent sameRestart ['d'] ['w'] crashed ∧
        ¬ SnapshotRepeats Build.transparent sameRestart ['d'] ['v'] ['w'] crashed := by
    intro crashed hhalf
    refine ⟨?_, hhalf.not_snapshotRepeats⟩
    rintro ⟨⟨_, _, _, hopenable⟩, -⟩
    exact hhalf.not_openable hopenable
  refine ⟨_, _, _, [⟨.directoryExists (.path ['d', '/', 'w']), false⟩,
    ⟨.createDirectory (.path ['d', '/', 'w']), true⟩, tableCreated ['d', '/', 'w']], rfl,
    ⟨rfl, rfl, rfl, rfl⟩, .inr ⟨_, _, _, rfl, rfl, .inr ⟨_, _, _, rfl, rfl,
      .inr ⟨_, _, _, rfl, rfl, .inl ⟨rfl, rfl, rfl⟩⟩⟩⟩, hlost ?_⟩
  exact ⟨rfl, rfl, rfl, ⟨[], rfl, Nat.zero_le _⟩, fun text htext => by cases htext⟩

end Crashes

end Privateer
