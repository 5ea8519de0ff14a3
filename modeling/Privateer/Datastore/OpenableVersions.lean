import Privateer.Datastore.VersionRuns
import Privateer.Sigaction.VersionCalls

/-!
# Versions that can be opened

A version can be opened if its three files and the granularity of its blocks directory are
there and fit together.  Every constructor starts a session on such a version, and whatever
one thread then does to the region, with one tier or two, the version stays one.
-/

namespace Privateer

variable {Hash : Type}

/-- The path that a line is read as. -/
def Text.asPath : Text → Path
  | .path value => value
  | .number value => Nat.toDigits 10 value

/-- A version whose files let it be opened, with the given blocks directory. -/
structure Openable (version blocksPath : Path) (blockSize capacity : ℕ)
    (files : FileSystem Hash) : Prop where
  housed : files.directories (.path version)
  located : ∃ text, files.texts (.blocksPath version) = some (some text) ∧
    text.asPath = blocksPath
  directory : files.directories (.path blocksPath)
  granularity : files.texts (.granularity blocksPath) = some (some (.number blockSize))
  capacityText : files.texts (.capacity version) = some (some (.number capacity))
  capacity_ne : capacity ≠ 0
  table : ∃ entries, files.metadata version = some entries ∧
    entries.length ≤ capacity / blockSize

variable {version blocksPath stashPath : Path} {blockSize capacity : ℕ}
variable {files files' : FileSystem Hash}

theorem Openable.keep (hopenable : Openable version blocksPath blockSize capacity files)
    (hkeeps : files.KeepsVersions files') :
    Openable version blocksPath blockSize capacity files' where
  housed := hkeeps.directories _ hopenable.housed
  located := by
    rw [hkeeps.texts]
    exact hopenable.located
  directory := hkeeps.directories _ hopenable.directory
  granularity := by
    rw [hkeeps.texts]
    exact hopenable.granularity
  capacityText := by
    rw [hkeeps.texts]
    exact hopenable.capacityText
  capacity_ne := hopenable.capacity_ne
  table := by
    rw [hkeeps.metadata]
    exact hopenable.table

section Runs

variable [DecidableEq Hash] {A : Type} {program : StorageProgram Hash A} {outcome : Outcome A}

theorem keepsVersions_of_run (hcalls : program.CallsOnly Call.SparesVersions)
    (hrun : program.run FileSystem.answer files = (outcome, files')) :
    files.KeepsVersions files' := by
  have hkept : files.KeepsVersions (program.run FileSystem.answer files).2 :=
    hcalls.run_keeps (fun call between hspares hbetween =>
      hbetween.trans (FileSystem.keepsVersions_answer hspares between)) (.refl files)
  rwa [hrun] at hkept

theorem Openable.of_run {allowed : Call Hash → Prop} (hcalls : program.CallsOnly allowed)
    (hkeep : ∀ call between, allowed call →
      Openable version blocksPath blockSize capacity between →
        Openable version blocksPath blockSize capacity (between.answer call).2)
    (hopenable : Openable version blocksPath blockSize capacity files)
    (hrun : program.run FileSystem.answer files = (outcome, files')) :
    Openable version blocksPath blockSize capacity files' := by
  have hkept : Openable version blocksPath blockSize capacity
      (program.run FileSystem.answer files).2 := hcalls.run_keeps hkeep hopenable
  rwa [hrun] at hkept

end Runs

/-! ## Opening -/

section Opening

variable [DecidableEq Hash] {build : Build Hash} {maxMemBlocks : ℕ} {readOnly : Bool}

theorem run_prepareStashDirectory_keeps (stashPath : Path) (files : FileSystem Hash) :
    ∃ files', (BlockStorage.prepareStashDirectory stashPath).run FileSystem.answer files =
      (.returned (), files') ∧ files.KeepsVersions files' := by
  unfold BlockStorage.prepareStashDirectory
  by_cases hstash : stashPath = []
  · rw [if_pos hstash]
    exact ⟨files, rfl, .refl _⟩
  · rw [if_neg hstash]
    cases hdirectory : files.directories (.path stashPath) with
    | true => exact ⟨files, by simp [FileSystem.answer, hdirectory], .refl _⟩
    | false =>
        exact ⟨files.setDirectory (.path stashPath), by simp [FileSystem.answer, hdirectory],
          FileSystem.keepsVersions_setDirectory _⟩

theorem run_versionBlocksPath {text : Text}
    (htext : files.texts (.blocksPath version) = some (some text)) :
    (versionBlocksPath version).run FileSystem.answer files =
      (.returned text.asPath, files) := by
  cases text with
  | path value => simp [versionBlocksPath, FileSystem.answer, htext, Text.asPath]
  | number value => simp [versionBlocksPath, FileSystem.answer, htext, Text.asPath]

/-- The fields of a manager that has just opened a version. -/
structure OpenedBase (version blocksPath : Path) (blockSize capacity maxMemBlocks : ℕ)
    (base : VirtualMemoryManagerBase Hash) : Prop where
  versionMetadataPath : base.versionMetadataPath = version
  baseDirectory : base.blockStorage.baseDirectory = blocksPath
  blockSize : base.blockSize = blockSize
  capacity : base.regionMaxCapacity = capacity
  limit : ∃ count, 0 < count ∧ base.maxMemSize = count * base.blockSize
  unstashed : ∀ block, base.blockStorage.stashBlockIds block = none

omit [DecidableEq Hash] in
theorem openedBase_initial (version blocksPath stashPath : Path)
    (blockSize capacity maxMemBlocks : ℕ) (readOnly : Bool) (blocksIds : ℕ → Hash) :
    OpenedBase version blocksPath blockSize capacity maxMemBlocks
      (.initial version capacity blockSize maxMemBlocks readOnly
        (BlockStorage.initial blocksPath stashPath blockSize) blocksIds) where
  versionMetadataPath := rfl
  baseDirectory := rfl
  blockSize := rfl
  capacity := rfl
  limit := by
    refine ⟨if maxMemBlocks = 0 then maxMemDefaultBlocks else maxMemBlocks, ?_, rfl⟩
    split_ifs with hzero
    · decide
    · exact Nat.pos_of_ne_zero hzero
  unstashed := fun _ => rfl

/-- A version that is openable is opened. -/
theorem Openable.run_open (hopenable : Openable version blocksPath blockSize capacity files)
    (build : Build Hash) (stashPath : Path) (maxMemBlocks : ℕ) (readOnly : Bool) :
    ∃ base files', (VirtualMemoryManagerBase.open build version stashPath maxMemBlocks
      readOnly).run FileSystem.answer files = (.returned base, files') ∧
        OpenedBase version blocksPath blockSize capacity maxMemBlocks base ∧
          files.KeepsVersions files' := by
  obtain ⟨text, htext, rfl⟩ := hopenable.located
  obtain ⟨prepared, hprepare, hkeeps⟩ := run_prepareStashDirectory_keeps stashPath files
  have hprepared := hopenable.keep hkeeps
  obtain ⟨entries, hentries, hlength⟩ := hprepared.table
  have hstorage : (BlockStorage.open text.asPath stashPath).run FileSystem.answer files =
      (.returned (BlockStorage.initial text.asPath stashPath blockSize : BlockStorage Hash),
        prepared) := by
    unfold BlockStorage.open
    rw [Program.run_bind_of_returned hprepare]
    simp [FileSystem.answer, hprepared.directory, hprepared.granularity]
  have hcapacity : (versionCapacity version).run FileSystem.answer prepared =
      (.returned capacity, prepared) := by
    simp [versionCapacity, FileSystem.answer, hprepared.capacityText]
  refine ⟨_, prepared, ?_, openedBase_initial version text.asPath stashPath blockSize capacity
    maxMemBlocks readOnly (fun block => entries.getD block build.emptyBlockHash), hkeeps⟩
  unfold VirtualMemoryManagerBase.open
  rw [Program.run_bind_of_returned (run_versionBlocksPath htext),
    Program.run_bind_of_returned hstorage]
  simp only [Program.request_bind, Program.run_call, FileSystem.answer, hentries,
    Bool.false_and, Bool.not_false, if_true]
  rw [Program.run_bind_of_returned hcapacity]
  simp [FileSystem.answer, hopenable.capacity_ne, hentries, BlockStorage.initial, hlength]

/-- A version that was opened is openable. -/
theorem openable_of_open {base : VirtualMemoryManagerBase Hash}
    (hhoused : files.directories (.path version))
    (hrun : (VirtualMemoryManagerBase.open build version stashPath maxMemBlocks readOnly).run
      FileSystem.answer files = (.returned base, files')) :
    ∃ blocksPath blockSize capacity,
      Openable version blocksPath blockSize capacity files' ∧
        OpenedBase version blocksPath blockSize capacity maxMemBlocks base ∧
          files.KeepsVersions files' := by
  obtain ⟨located, between, hpath, hrest⟩ := Program.run_bind_returned hrun
  have hline : ∃ text, files.texts (.blocksPath version) = some (some text) ∧
      text.asPath = located ∧ between = files := by
    simp only [versionBlocksPath, Program.request_bind, Program.run_call,
      FileSystem.answer] at hpath
    split at hpath
    · rename_i path htext
      cases hpath
      exact ⟨_, htext, rfl, rfl⟩
    · rename_i value htext
      cases hpath
      exact ⟨_, htext, rfl, rfl⟩
    · cases hpath
  obtain ⟨text, htext, rfl, rfl⟩ := hline
  obtain ⟨storage, opened, hstorage, hrest⟩ := Program.run_bind_returned hrest
  obtain ⟨prepared, hprepare, hkeeps⟩ := run_prepareStashDirectory_keeps stashPath between
  have hopens : prepared.directories (.path text.asPath) ∧ ∃ granularity,
      prepared.texts (.granularity text.asPath) = some (some (.number granularity)) ∧
        storage = .initial text.asPath stashPath granularity ∧ opened = prepared := by
    unfold BlockStorage.open at hstorage
    rw [Program.run_bind_of_returned hprepare] at hstorage
    simp only [Program.request_bind, Program.run_call, FileSystem.answer] at hstorage
    obtain ⟨hdirectory, hread⟩ := Program.run_ite_exit_returned hstorage
    refine ⟨hdirectory, ?_⟩
    simp only [Program.run_call, FileSystem.answer] at hread
    split at hread
    · rename_i granularity hgranularity
      cases hread
      exact ⟨granularity, hgranularity, rfl, rfl⟩
    · cases hread
  obtain ⟨hdirectory, granularity, hgranularity, rfl, rfl⟩ := hopens
  simp only [Program.request_bind, Program.run_call, FileSystem.answer] at hrest
  cases hentries : opened.metadata version with
  | none =>
      simp only [hentries, Bool.false_and, Bool.false_eq_true, if_false] at hrest
      cases hrest
  | some entries =>
      simp only [hentries, Bool.false_and, Bool.not_false, if_true, Program.run_call,
        FileSystem.answer, Option.getD_some] at hrest
      obtain ⟨capacity, measured, hcapacity, hrest⟩ := Program.run_bind_returned hrest
      have hsize : opened.texts (.capacity version) = some (some (.number capacity)) ∧
          measured = opened := by
        simp only [versionCapacity, Program.request_bind, Program.run_call,
          FileSystem.answer] at hcapacity
        split at hcapacity
        · rename_i value hvalue
          cases hcapacity
          exact ⟨hvalue, rfl⟩
        · cases hcapacity
      obtain ⟨hsize, rfl⟩ := hsize
      simp only [Program.run_call, FileSystem.answer] at hrest
      obtain ⟨hmapped, hread⟩ := Program.run_ite_exit_returned hrest
      simp only [Program.run_call, FileSystem.answer, hentries, Option.map_some,
        Option.getD_some, List.take_length] at hread
      let storage : BlockStorage Hash := .initial text.asPath stashPath granularity
      by_cases hlength : entries.length ≤ capacity / storage.blockGranularity
      · rw [if_pos hlength] at hread
        cases hread
        have hwhole : Openable version text.asPath granularity capacity files' :=
          { housed := hkeeps.directories _ hhoused
            located := ⟨text, by rw [hkeeps.texts, htext], rfl⟩
            directory := hdirectory
            granularity := hgranularity
            capacityText := hsize
            capacity_ne := of_decide_eq_true hmapped
            table := ⟨entries, hentries, hlength⟩ }
        exact ⟨_, granularity, capacity, hwhole, openedBase_initial _ _ _ _ _ _ _ _, hkeeps⟩
      · rw [if_neg hlength] at hread
        cases hread

end Opening

/-! ## Calls -/

/-- The calls of a snapshot in front of the last one. -/
def Call.PreparesVersion (version : Path) (limit : ℕ) (call : Call Hash) : Prop :=
  call.CommitsTo version limit ∨ call = .openText (.blocksPath version) ∨
    (∃ text, call = .writeText (.blocksPath version) text) ∨
      call = .openText (.capacity version)

section Calls

variable [DecidableEq Hash] {limit : ℕ} {other : Path} {call : Call Hash}

/-- A commit of the version keeps it openable. -/
theorem Openable.answer (hopenable : Openable version blocksPath blockSize capacity files)
    (hcall : call.CommitsTo version (capacity / blockSize)) :
    Openable version blocksPath blockSize capacity (files.answer call).2 := by
  rcases hcall with hspares | ⟨entries, hlength, rfl⟩
  · exact hopenable.keep (FileSystem.keepsVersions_answer hspares files)
  · obtain ⟨table, htable, hlimit⟩ := hopenable.table
    simp only [FileSystem.answer, htable]
    refine { hopenable with table := ⟨_, FileSystem.setMetadata_self _ _ _, ?_⟩ }
    rw [length_overwrite]
    exact max_le hlength hlimit

omit [DecidableEq Hash] in
/-- So does a line of the files of another version. -/
theorem Openable.setText_other (hopenable : Openable version blocksPath blockSize capacity files)
    {file : TextFile} (hblocksPath : file ≠ .blocksPath version)
    (hcapacity : file ≠ .capacity version) (hgranularity : ∀ path, file ≠ .granularity path)
    (line : Option (Option Text)) :
    Openable version blocksPath blockSize capacity (files.setText file line) where
  housed := hopenable.housed
  located := by
    rw [FileSystem.setText_of_ne _ hblocksPath.symm]
    exact hopenable.located
  directory := hopenable.directory
  granularity := by
    rw [FileSystem.setText_of_ne _ (hgranularity blocksPath).symm]
    exact hopenable.granularity
  capacityText := by
    rw [FileSystem.setText_of_ne _ hcapacity.symm]
    exact hopenable.capacityText
  capacity_ne := hopenable.capacity_ne
  table := hopenable.table

omit [DecidableEq Hash] in
theorem Openable.setMetadata_other
    (hopenable : Openable version blocksPath blockSize capacity files) (hother : version ≠ other)
    (entries : Option (List Hash)) :
    Openable version blocksPath blockSize capacity (files.setMetadata other entries) :=
  { hopenable with
    table := by
      rw [FileSystem.setMetadata_of_ne _ hother]
      exact hopenable.table }

theorem Openable.openText_other
    (hopenable : Openable version blocksPath blockSize capacity files)
    {file : TextFile} (hblocksPath : file ≠ .blocksPath version)
    (hcapacity : file ≠ .capacity version) (hgranularity : ∀ path, file ≠ .granularity path) :
    Openable version blocksPath blockSize capacity (files.answer (.openText file)).2 := by
  simp only [FileSystem.answer]
  split
  · exact hopenable.setText_other hblocksPath hcapacity hgranularity _
  · exact hopenable

theorem Openable.writeText_other
    (hopenable : Openable version blocksPath blockSize capacity files)
    {file : TextFile} (hblocksPath : file ≠ .blocksPath version)
    (hcapacity : file ≠ .capacity version) (hgranularity : ∀ path, file ≠ .granularity path)
    (text : Text) :
    Openable version blocksPath blockSize capacity (files.answer (.writeText file text)).2 := by
  simp only [FileSystem.answer]
  split
  · exact hopenable.setText_other hblocksPath hcapacity hgranularity _
  · exact hopenable

/-- All calls of a snapshot. -/
def Call.MakesVersion (version : Path) (limit : ℕ) (call : Call Hash) : Prop :=
  call = .openMetadata version true false ∨ call.PreparesVersion version limit ∨
    ∃ text, call = .writeText (.capacity version) text

/-- A snapshot keeps all other versions openable. -/
theorem Openable.answer_other (hopenable : Openable version blocksPath blockSize capacity files)
    (hother : version ≠ other) (hcall : call.MakesVersion other limit) :
    Openable version blocksPath blockSize capacity (files.answer call).2 := by
  have hpath : TextFile.blocksPath other ≠ .blocksPath version := by simp [hother.symm]
  have hsize : TextFile.capacity other ≠ .capacity version := by simp [hother.symm]
  rcases hcall with
    rfl | ((hspares | ⟨entries, -, rfl⟩) | rfl | ⟨text, rfl⟩ | rfl) | ⟨text, rfl⟩
  · simp only [FileSystem.answer]
    split
    · exact hopenable
    · split
      · exact hopenable.setMetadata_other hother _
      · exact hopenable
  · exact hopenable.keep (FileSystem.keepsVersions_answer hspares files)
  · simp only [FileSystem.answer]
    split
    · exact hopenable.setMetadata_other hother _
    · exact hopenable
  · exact hopenable.openText_other hpath (by simp) (by simp)
  · exact hopenable.writeText_other hpath (by simp) (by simp) text
  · exact hopenable.openText_other (by simp) hsize (by simp)
  · exact hopenable.writeText_other (by simp) hsize (by simp) text

end Calls

/-! ## Sessions -/

namespace SigactionVirtualMemoryManager

variable [DecidableEq Hash] {build : Build Hash} {manager : SigactionVirtualMemoryManager Hash}
variable {schedule : MsyncSchedule}

/-- A session whose version could be opened at any moment. -/
structure Reopenable (manager : SigactionVirtualMemoryManager Hash) (files : FileSystem Hash) :
    Prop where
  kept : manager.Bookkept files
  openable : Openable manager.versionMetadataPath manager.blockStorage.baseDirectory
    manager.blockSize manager.regionMaxCapacity files

omit [DecidableEq Hash] in
/-- The part of a snapshot between its first call and the text files. -/
def commitSnapshot (build : Build Hash) (manager : SigactionVirtualMemoryManager Hash)
    (version : Path) (schedule : MsyncSchedule) :
    StorageProgram Hash (SigactionVirtualMemoryManager Hash) := do
  let _ ← systemCall .close
  let committed ← msync build { manager with versionMetadataPath := version } schedule
  return { committed with versionMetadataPath := manager.versionMetadataPath }

omit [DecidableEq Hash] in
theorem takeSnapshot_eq : takeSnapshot build manager version schedule =
    .call (.openMetadata version true false) fun _ =>
      commitSnapshot build manager version schedule >>= fun restored =>
        (do
          writeTextFile (.blocksPath version) (.path restored.blockStorage.baseDirectory)
          systemCall (.openText (.capacity version)) : StorageProgram Hash Unit) >>= fun _ =>
            .call (.writeText (.capacity version) (.number restored.regionMaxCapacity)) fun _ =>
              .finish (true, restored) := by
  unfold takeSnapshot commitSnapshot
  simp only [Program.bind_assoc, Program.request_bind, Program.call_bind]
  rfl

omit [DecidableEq Hash] in
theorem prepares_commitSnapshot (hkept : manager.Bookkept files) :
    (commitSnapshot build manager version schedule).CallsOnly
      (Call.PreparesVersion version manager.numBlocks) := by
  refine ⟨.inl (.inl trivial), fun closed => ?_⟩
  have hcommits : (msync build { manager with versionMetadataPath := version }
      schedule).CallsOnly (Call.CommitsTo version manager.numBlocks) :=
    commitsTo_msync (hkept.redirect version) schedule
  exact (hcommits.mono fun call hcall => .inl hcall).bind fun committed => trivial

omit [DecidableEq Hash] in
/-- The directories and the capacity of the session are those of the snapshot. -/
theorem commitSnapshot_returns (hkept : manager.Bookkept files)
    {restored : SigactionVirtualMemoryManager Hash}
    (hreturns : (commitSnapshot build manager version schedule).Returns restored) :
    restored.blockStorage.baseDirectory = manager.blockStorage.baseDirectory ∧
      restored.regionMaxCapacity = manager.regionMaxCapacity := by
  simp only [commitSnapshot, Program.request_bind, Program.returns_call] at hreturns
  obtain ⟨closed, hrest⟩ := hreturns
  obtain ⟨committed, hcommitted, hlast⟩ := Program.returns_bind.mp hrest
  cases hlast
  have hbase := msync_baseDirectory hcommitted
  exact ⟨hbase, ((hkept.redirect version).msync hcommitted files).2.regionMaxCapacity⟩

/-- The first text file of a snapshot, and the second one while it is empty. -/
def prepareTexts (version blocksPath : Path) : StorageProgram Hash Unit := do
  writeTextFile (.blocksPath version) (.path blocksPath)
  systemCall (.openText (.capacity version))

omit [DecidableEq Hash] in
theorem prepares_prepareTexts (limit : ℕ) :
    (prepareTexts version blocksPath : StorageProgram Hash Unit).CallsOnly
      (Call.PreparesVersion version limit) :=
  ⟨.inr (.inl rfl), fun _ => ⟨.inr (.inr (.inl ⟨_, rfl⟩)), fun _ =>
    ⟨.inr (.inr (.inr rfl)), fun _ => trivial⟩⟩⟩

omit [DecidableEq Hash] in
theorem makes_takeSnapshot (hkept : manager.Bookkept files) :
    (takeSnapshot build manager version schedule).CallsOnly
      (Call.MakesVersion version manager.numBlocks) := by
  rw [takeSnapshot_eq]
  refine ⟨.inl rfl, fun _ => ?_⟩
  apply ((prepares_commitSnapshot hkept).mono fun _ hcall => .inr (.inl hcall)).bind
  intro restored
  apply ((prepares_prepareTexts _).mono fun _ hcall => .inr (.inl hcall)).bind
  exact fun _ => ⟨.inr (.inr ⟨_, rfl⟩), fun _ => trivial⟩

omit [DecidableEq Hash] in
theorem makes_snapshot (hkept : manager.Bookkept files) :
    (snapshot build manager version schedule).CallsOnly
      (Call.MakesVersion version manager.numBlocks) := by
  have hspares : ∀ {call : Call Hash}, call.SparesVersions →
      call.MakesVersion version manager.numBlocks := fun hcall => .inr (.inl (.inl (.inl hcall)))
  refine ⟨hspares trivial, fun found => ?_⟩
  cases found with
  | true =>
      refine ⟨hspares trivial, fun written => ?_⟩
      cases written with
      | true => trivial
      | false => exact makes_takeSnapshot hkept
  | false =>
      refine ⟨hspares trivial, fun made => ?_⟩
      cases made with
      | true => exact makes_takeSnapshot hkept
      | false => trivial

omit [DecidableEq Hash] in
theorem snapshot_baseDirectory (hkept : manager.Bookkept files)
    {result : Bool × SigactionVirtualMemoryManager Hash}
    (hreturns : (snapshot build manager version schedule).Returns result) :
    result.2.blockStorage.baseDirectory = manager.blockStorage.baseDirectory := by
  have htake : (takeSnapshot build manager version schedule).Returns result →
      result.2.blockStorage.baseDirectory = manager.blockStorage.baseDirectory := by
    intro hreturns
    rw [takeSnapshot_eq] at hreturns
    obtain ⟨_, hrest⟩ := hreturns
    obtain ⟨restored, hrestored, hrest⟩ := Program.returns_bind.mp hrest
    obtain ⟨⟨⟩, -, _, hlast⟩ := Program.returns_bind.mp hrest
    cases hlast
    exact (commitSnapshot_returns hkept hrestored).1
  obtain ⟨found, hrest⟩ := hreturns
  cases found with
  | true =>
      obtain ⟨written, hrest⟩ := hrest
      cases written with
      | true =>
          cases hrest
          rfl
      | false => exact htake hrest
  | false =>
      obtain ⟨made, hrest⟩ := hrest
      cases made with
      | true => exact htake hrest
      | false =>
          cases hrest
          rfl

theorem Reopenable.perform (hsession : manager.Reopenable files) {operation : Operation}
    (hwithin : operation.Within (manager.numBlocks * manager.blockSize))
    {result : List Byte × SigactionVirtualMemoryManager Hash}
    (hrun : (perform build manager operation).run FileSystem.answer files =
      (.returned result, files')) :
    result.2.Reopenable files' ∧ manager.base.SameSession result.2.base := by
  obtain ⟨hkept, hsame⟩ := hsession.kept.perform hwithin hrun
  have hkeep : result.2.blockStorage.baseDirectory = manager.blockStorage.baseDirectory ∧
      Openable manager.versionMetadataPath manager.blockStorage.baseDirectory manager.blockSize
        manager.regionMaxCapacity files' → result.2.Reopenable files' := by
    rintro ⟨hbase, hopenable⟩
    refine ⟨hkept, ?_⟩
    rw [hsame.versionMetadataPath, hbase, hsame.blockSize, hsame.regionMaxCapacity]
    exact hopenable
  refine ⟨hkeep ?_, hsame⟩
  cases operation with
  | read offset =>
      obtain ⟨byte, between, hread, hlast⟩ := Program.run_bind_returned hrun
      cases hlast
      obtain ⟨mapped, after, hmapped, hlast⟩ := Program.run_bind_returned hread
      cases hlast
      exact ⟨access_baseDirectory (Program.returns_of_run hmapped),
        hsession.openable.keep (keepsVersions_of_run (sparesVersions_access _ _) hmapped)⟩
  | write offset byte =>
      obtain ⟨written, between, hwrite, hlast⟩ := Program.run_bind_returned hrun
      cases hlast
      obtain ⟨mapped, after, hmapped, hlast⟩ := Program.run_bind_returned hwrite
      cases hlast
      have hbase := access_baseDirectory (Program.returns_of_run hmapped)
      exact ⟨hbase,
        hsession.openable.keep (keepsVersions_of_run (sparesVersions_access _ _) hmapped)⟩
  | msync schedule =>
      obtain ⟨committed, between, hmsync, hlast⟩ := Program.run_bind_returned hrun
      cases hlast
      exact ⟨msync_baseDirectory (Program.returns_of_run hmsync),
        .of_run (commitsTo_msync hsession.kept schedule)
          (fun _ _ hcall hbetween => hbetween.answer hcall) hsession.openable hmsync⟩
  | snapshot version schedule =>
      obtain ⟨taken, between, hsnapshot, hlast⟩ := Program.run_bind_returned hrun
      cases hlast
      refine ⟨snapshot_baseDirectory hsession.kept (Program.returns_of_run hsnapshot), ?_⟩
      by_cases hown : manager.versionMetadataPath = version
      · -- the session's own version is there already, so nothing is done
        obtain ⟨table, htable, -⟩ := hsession.openable.table
        rw [hown] at htable
        have hhoused := hsession.openable.housed
        rw [hown] at hhoused
        have hfiles : files' = files := by
          unfold snapshot at hsnapshot
          simp only [Program.request_bind, Program.run_call, FileSystem.answer, hhoused, htable,
            if_true, Option.isSome_some] at hsnapshot
          exact (Prod.mk.inj hsnapshot).2.symm
        rw [hfiles]
        exact hsession.openable
      · exact .of_run (makes_snapshot hsession.kept)
          (fun _ _ hcall hbetween => hbetween.answer_other hown hcall) hsession.openable hsnapshot

theorem Reopenable.performAll (hsession : manager.Reopenable files)
    {operations : List Operation}
    (hwithin : ∀ operation ∈ operations,
      operation.Within (manager.numBlocks * manager.blockSize))
    {result : List Byte × SigactionVirtualMemoryManager Hash}
    (hrun : (performAll build operations manager).run FileSystem.answer files =
      (.returned result, files')) :
    result.2.Reopenable files' ∧ manager.base.SameSession result.2.base := by
  induction operations generalizing manager files result with
  | nil =>
      cases hrun
      exact ⟨hsession, .refl _⟩
  | cons operation rest ih =>
      obtain ⟨first, between, hfirst, hothers⟩ := Program.run_bind_returned hrun
      obtain ⟨others, final, hrest, hlast⟩ := Program.run_bind_returned hothers
      cases hlast
      obtain ⟨hdone, hsame⟩ := hsession.perform (hwithin operation List.mem_cons_self) hfirst
      have hlater : ∀ later ∈ rest, later.Within (first.2.numBlocks * first.2.blockSize) := by
        intro later hlater
        rw [hsame.numBlocks, hsame.blockSize]
        exact hwithin later (List.mem_cons_of_mem _ hlater)
      obtain ⟨hlast, hsame'⟩ := ih hdone hlater hrest
      exact ⟨hlast, hsame.trans hsame'⟩

omit [DecidableEq Hash] in
theorem reopenable_initial {base : VirtualMemoryManagerBase Hash} {maxMemBlocks : ℕ}
    (hbase : OpenedBase version blocksPath blockSize capacity maxMemBlocks base)
    (hopenable : Openable version blocksPath blockSize capacity files)
    (hpos : 0 < base.blockSize) : (initial base).Reopenable files where
  kept := initial_bookkept hpos hbase.limit hbase.unstashed files
  openable := by
    change Openable base.versionMetadataPath base.blockStorage.baseDirectory base.blockSize
      base.regionMaxCapacity files
    rw [hbase.versionMetadataPath, hbase.baseDirectory, hbase.blockSize, hbase.capacity]
    exact hopenable

end SigactionVirtualMemoryManager

/-! ## Starting a session -/

section Starts

variable [DecidableEq Hash] {build : Build Hash} {object : PrivateerObject Hash} {name : Path}
variable {maxMemBlocks address : ℕ} {readOnly : Bool}

theorem openable_of_openObject {opened : PrivateerObject Hash}
    (hrun : (object.open build name maxMemBlocks readOnly address).run FileSystem.answer files =
      (.returned opened, files')) :
    ∃ base blocksPath blockSize capacity,
      opened = object.addManager (.initial base) address base.regionMaxCapacity ∧
        Openable (object.versionPath name) blocksPath blockSize capacity files' ∧
          OpenedBase (object.versionPath name) blocksPath blockSize capacity maxMemBlocks base ∧
            files.KeepsVersions files' := by
  unfold PrivateerObject.open at hrun
  simp only [Program.request_bind, Program.run_call, FileSystem.answer] at hrun
  obtain ⟨hhoused, hopen⟩ := Program.run_ite_exit_returned hrun
  obtain ⟨manager, between, hmanager, hlast⟩ := Program.run_bind_returned hopen
  cases hlast
  obtain ⟨base, between, hbase, hlast⟩ := Program.run_bind_returned hmanager
  cases hlast
  obtain ⟨blocksPath, blockSize, capacity, hopenable, hopened, hkeeps⟩ :=
    openable_of_open hhoused hbase
  exact ⟨base, blocksPath, blockSize, capacity, rfl, hopenable, hopened, hkeeps⟩

theorem Openable.run_openObject
    (hopenable : Openable (object.versionPath name) blocksPath blockSize capacity files)
    (build : Build Hash) (maxMemBlocks address : ℕ) (readOnly : Bool) :
    ∃ base files', (object.open build name maxMemBlocks readOnly address).run FileSystem.answer
        files = (.returned (object.addManager (.initial base) address base.regionMaxCapacity),
          files') ∧
      OpenedBase (object.versionPath name) blocksPath blockSize capacity maxMemBlocks base ∧
        files.KeepsVersions files' := by
  obtain ⟨base, files', hbase, hopened, hkeeps⟩ :=
    hopenable.run_open build object.stashDirPath maxMemBlocks readOnly
  refine ⟨base, files', ?_, hopened, hkeeps⟩
  have hmanager : (SigactionVirtualMemoryManager.open build (object.versionPath name)
      object.stashDirPath maxMemBlocks readOnly).run FileSystem.answer files =
        (.returned (.initial base), files') := by
    unfold SigactionVirtualMemoryManager.open
    rw [Program.run_bind_of_returned hbase]
    rfl
  unfold PrivateerObject.open
  simp only [Program.request_bind, Program.run_call, FileSystem.answer, hopenable.housed,
    if_true]
  rw [Program.run_bind_of_returned hmanager]
  rfl

/-- A version is created in a new blocks directory, or in one that records the block size. -/
def Opening.Records (object : PrivateerObject Hash) (files : FileSystem Hash) : Opening → Prop
  | .create version _ _ _ => version ≠ blocksName ∧
      (files.directories (.path object.blocksDirPath) →
        files.texts (.granularity object.blocksDirPath) = some (some (.number object.blockSize)))
  | .open _ _ _ => True
  | .openImmutable _ _ _ => True

/-- An object with the paths that its constructors give it. -/
structure PrivateerObject.Constructed (object : PrivateerObject Hash) : Prop where
  blocksDirPath : object.blocksDirPath = object.baseDirPath.below blocksName
  stashDirPath : ∃ stashBasePath, object.stashDirPath = Path.below stashBasePath stashName

omit [DecidableEq Hash] in
theorem constructed_initial (basePath stashBasePath : Path) (blockSize : ℕ) :
    (PrivateerObject.initial basePath stashBasePath blockSize :
      PrivateerObject Hash).Constructed :=
  ⟨rfl, _, rfl⟩

/-- The session of a constructor is the manager that it has made last. -/
theorem Opening.session_of_last {opened : PrivateerObject Hash}
    {base : VirtualMemoryManagerBase Hash} {length : ℕ}
    {manager : SigactionVirtualMemoryManager Hash}
    (hopened : opened = object.addManager (.initial base) address length)
    (hlast : (match opened.managers.getLast? with
      | none => (.undefined : StorageProgram Hash (SigactionVirtualMemoryManager Hash))
      | some mapped => return mapped.manager).run FileSystem.answer files =
        (.returned manager, files')) : manager = .initial base ∧ files' = files := by
  subst hopened
  rw [PrivateerObject.getLast?_addManager] at hlast
  cases hlast
  exact ⟨rfl, rfl⟩

theorem reopenable_of_openObject {opened : PrivateerObject Hash}
    {manager : SigactionVirtualMemoryManager Hash} {between : FileSystem Hash}
    (hrun : (object.open build name maxMemBlocks readOnly address).run FileSystem.answer files =
      (.returned opened, between))
    (hlast : (match opened.managers.getLast? with
      | none => (.undefined : StorageProgram Hash (SigactionVirtualMemoryManager Hash))
      | some mapped => return mapped.manager).run FileSystem.answer between =
        (.returned manager, files')) (hpos : 0 < manager.blockSize) :
    manager.Reopenable files' ∧ manager.versionMetadataPath = object.versionPath name := by
  obtain ⟨base, blocksPath, blockSize, capacity, hopened, hopenable, hbase, -⟩ :=
    openable_of_openObject hrun
  obtain ⟨rfl, rfl⟩ := Opening.session_of_last hopened hlast
  exact ⟨SigactionVirtualMemoryManager.reopenable_initial hbase hopenable hpos,
    hbase.versionMetadataPath⟩

theorem reopenable_of_createObject (hobject : object.Constructed) {regionSize : ℕ}
    {allowOverwrite : Bool} (hname : name ≠ blocksName)
    (hrecords : files.directories (.path object.blocksDirPath) →
      files.texts (.granularity object.blocksDirPath) = some (some (.number object.blockSize)))
    {opened : PrivateerObject Hash} {manager : SigactionVirtualMemoryManager Hash}
    {between : FileSystem Hash}
    (hrun : (object.create build name regionSize maxMemBlocks allowOverwrite address).run
      FileSystem.answer files = (.returned opened, between))
    (hlast : (match opened.managers.getLast? with
      | none => (.undefined : StorageProgram Hash (SigactionVirtualMemoryManager Hash))
      | some mapped => return mapped.manager).run FileSystem.answer between =
        (.returned manager, files')) (hpos : 0 < manager.blockSize) :
    manager.Reopenable files' ∧ manager.versionMetadataPath = object.versionPath name := by
  let blocks : BlocksDirectory Hash := ⟨build, object.blocksDirPath, object.blockSize⟩
  obtain ⟨stashBasePath, hstash⟩ := hobject.stashDirPath
  have hne : object.stashDirPath ≠ [] := hstash ▸ Path.below_ne_nil _ _
  have hother : object.stashDirPath ≠ object.blocksDirPath := by
    rw [hstash, hobject.blocksDirPath]
    exact Path.stash_ne_blocks _ _
  have hversion : object.versionPath name ≠ object.blocksDirPath := by
    rw [hobject.blocksDirPath]
    exact fun hsame => hname (Path.below_injective hsame)
  unfold PrivateerObject.create at hrun
  by_cases hzero : object.blockSize = 0
  · rw [if_pos hzero] at hrun
    cases hrun
  rw [if_neg hzero] at hrun
  obtain ⟨made, created, hcreate, hadded⟩ := Program.run_bind_returned hrun
  obtain ⟨base, created', hbase, hinitial⟩ := Program.run_bind_returned hcreate
  cases hinitial
  cases hadded
  obtain ⟨capacity, hcapacity, rfl, rfl⟩ := VirtualMemoryManagerBase.create_returned hne hbase
  obtain ⟨rfl, rfl⟩ := Opening.session_of_last rfl hlast
  obtain ⟨hthere, hhoused⟩ :
      blocks.HasVersion _ (object.versionPath name) capacity [] ∧ _ :=
    created_hasVersion capacity hversion hother hrecords
  have hopenable : Openable (object.versionPath name) object.blocksDirPath object.blockSize
      capacity _ :=
    { housed := hhoused
      located := ⟨_, hthere.blocksPath, rfl⟩
      directory := blocksDirectory_storageFiles
      granularity := hthere.granularity
      capacityText := hthere.capacityText
      capacity_ne := hcapacity
      table := ⟨[], hthere.metadata, hthere.length_le⟩ }
  exact ⟨SigactionVirtualMemoryManager.reopenable_initial
    (openedBase_initial _ _ _ _ _ _ _ _) hopenable hpos, rfl⟩

/-- Every constructor starts a session on a version that can be opened. -/
theorem Opening.reopenable (hobject : object.Constructed) {opening : Opening}
    (hrecords : opening.Records object files) {manager : SigactionVirtualMemoryManager Hash}
    (hpos : 0 < manager.blockSize)
    (hrun : (opening.program build object address).run FileSystem.answer files =
      (.returned manager, files')) :
    manager.Reopenable files' ∧ manager.versionMetadataPath = opening.version object := by
  cases opening with
  | create version regionSize maxMemBlocks allowOverwrite =>
      obtain ⟨opened, between, hopened, hlast⟩ := Program.run_bind_returned hrun
      exact reopenable_of_createObject hobject hrecords.1 hrecords.2 hopened hlast hpos
  | «open» version maxMemBlocks readOnly =>
      obtain ⟨opened, between, hopened, hlast⟩ := Program.run_bind_returned hrun
      exact reopenable_of_openObject hopened hlast hpos
  | openImmutable version newVersion maxMemBlocks =>
      let blocks : BlocksDirectory Hash := ⟨build, object.blocksDirPath, object.blockSize⟩
      obtain ⟨opened, between, hopened, hlast⟩ := Program.run_bind_returned hrun
      have himmutable : (object.openImmutable blocks.build version newVersion maxMemBlocks
          address).run FileSystem.answer files = (.returned opened, between) := hopened
      obtain ⟨copied, hopen, -⟩ := openImmutable_returned himmutable
      exact reopenable_of_openObject hopen hlast hpos

end Starts

end Privateer
