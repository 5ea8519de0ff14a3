import Privateer.Sigaction.Bookkeeping
import Privateer.Sigaction.LoadBack
import Privateer.Storage.CallRules

/-!
# What a session does to the files of versions

Accesses and commits of blocks work on block and stash files alone, with one tier or two.
Of the files of versions `msync` writes the table of its own, up to the highest resident
block.  The directories of a session stay.
-/

namespace Privateer

variable {Hash : Type}

/-- The calls that touch no file of a version and no granularity. -/
def Call.SparesVersions : Call Hash → Prop
  | .openMetadata _ create _ => create = false
  | .pwriteMetadata _ _ => False
  | .removeMetadata _ => False
  | .copyMetadata _ _ => False
  | .openText _ => False
  | .writeText _ _ => False
  | .copyText _ _ => False
  | _ => True

/-- The calls that besides write at most so many names over the table of a version. -/
def Call.CommitsTo (version : Path) (limit : ℕ) (call : Call Hash) : Prop :=
  call.SparesVersions ∨
    ∃ entries, entries.length ≤ limit ∧ call = .pwriteMetadata version entries

namespace FileSystem

/-- The files of all versions are kept, and no directory is lost. -/
structure KeepsVersions (files files' : FileSystem Hash) : Prop where
  metadata : files'.metadata = files.metadata
  texts : files'.texts = files.texts
  directories : ∀ directory, files.directories directory → files'.directories directory

variable {files files' files'' : FileSystem Hash}

theorem KeepsVersions.refl (files : FileSystem Hash) : files.KeepsVersions files :=
  ⟨rfl, rfl, fun _ => id⟩

theorem KeepsVersions.trans (hfirst : files.KeepsVersions files')
    (hsecond : files'.KeepsVersions files'') : files.KeepsVersions files'' where
  metadata := hsecond.metadata.trans hfirst.metadata
  texts := hsecond.texts.trans hfirst.texts
  directories := fun directory hdirectory =>
    hsecond.directories directory (hfirst.directories directory hdirectory)

theorem keepsVersions_setDirectory (directory : Directory) :
    files.KeepsVersions (files.setDirectory directory) :=
  ⟨rfl, rfl, fun _ => directories_setDirectory⟩

variable [DecidableEq Hash]

theorem keepsVersions_answer {call : Call Hash} (hspares : call.SparesVersions)
    (files : FileSystem Hash) : files.KeepsVersions (files.answer call).2 := by
  cases call with
  | createDirectory directory => exact keepsVersions_setDirectory directory
  | openFile file create =>
      simp only [answer]
      split
      · exact .refl _
      · split
        · exact ⟨rfl, rfl, fun _ => id⟩
        · exact .refl _
  | ftruncate file length =>
      simp only [answer]
      split
      · exact ⟨rfl, rfl, fun _ => id⟩
      · exact .refl _
  | pwrite file bytes =>
      simp only [answer]
      split
      · exact ⟨rfl, rfl, fun _ => id⟩
      · exact .refl _
  | rename source target =>
      simp only [answer]
      split
      · split
        · exact ⟨rfl, rfl, fun _ => id⟩
        · exact .refl _
      · exact .refl _
  | remove file =>
      simp only [answer]
      split
      · exact ⟨rfl, rfl, fun _ => id⟩
      · exact .refl _
  | mkstemp location subdirectory blockIndex =>
      simp only [answer]
      split
      · exact ⟨rfl, rfl, fun _ => id⟩
      · exact .refl _
  | randomUuid => exact ⟨rfl, rfl, fun _ => id⟩
  | copyFile source target =>
      simp only [answer]
      split
      · exact ⟨rfl, rfl, fun _ => id⟩
      · exact .refl _
  | openMetadata version create exclusive =>
      cases hspares
      simp only [answer]
      split
      · exact .refl _
      · simp only [Bool.false_and, Bool.false_eq_true, if_false]
        exact .refl _
  | pwriteMetadata version entries => exact hspares.elim
  | removeMetadata version => exact hspares.elim
  | copyMetadata source target => exact hspares.elim
  | openText file => exact hspares.elim
  | writeText file text => exact hspares.elim
  | copyText source target => exact hspares.elim
  | _ => exact .refl _

end FileSystem

/-! ## The block storage -/

namespace BlockStorage

variable {build : Build Hash} {storage storage' : BlockStorage Hash} {index : ℕ}

theorem permits_sparesVersions (name : Hash) (onStash : Bool) :
    storage.Permits build Call.SparesVersions name onStash where
  directoryExists := trivial
  createDirectory := trivial
  fileExists := trivial
  mkstemp := fun _ => trivial
  ftruncate := fun _ _ _ => trivial
  pwrite := fun _ _ _ => trivial
  rename := fun _ _ => trivial
  remove := fun _ _ => trivial
  close := trivial

theorem sparesVersions_commitStashBlock :
    (commitStashBlock build storage index).CallsOnly Call.SparesVersions := by
  apply permits_commitStashBlock
  intro uuid huuid
  exact
    { tiers := permits_sparesVersions
      openFile := trivial
      pread := fun _ => trivial
      remove := trivial
      rename := fun _ _ => trivial }

theorem sparesVersions_stashBlock (content : List Byte) :
    (stashBlock storage content index).CallsOnly Call.SparesVersions := by
  have hwrites : ∀ uuid fileExists,
      (writeStash storage content uuid fileExists).CallsOnly Call.SparesVersions := by
    intro uuid fileExists
    refine ⟨trivial, fun opened => ?_⟩
    cases opened with
    | false => trivial
    | true =>
        have hwrite : ∀ file : DataFile Hash, Program.CallsOnly Call.SparesVersions (do
            if (← systemCall (.pwrite file content)).isSome then systemCall .close
            else return false) := by
          refine fun file => ⟨trivial, fun written => ?_⟩
          cases written with
          | none => trivial
          | some count => exact ⟨trivial, fun _ => trivial⟩
        cases fileExists with
        | true => exact hwrite _
        | false =>
            refine ⟨trivial, fun sized => ?_⟩
            cases sized with
            | true => exact hwrite _
            | false => trivial
  unfold stashBlock
  cases storage.stashBlockIds index with
  | some uuid => exact (hwrites uuid true).bind fun _ => trivial
  | none => exact ⟨trivial, fun uuid => (hwrites uuid false).bind fun _ => trivial⟩

theorem sparesVersions_unstashBlock :
    (unstashBlock storage index).CallsOnly Call.SparesVersions := by
  unfold unstashBlock
  cases storage.stashBlockIds index with
  | none => trivial
  | some uuid =>
      refine ⟨trivial, fun removed => ?_⟩
      cases removed with
      | true => trivial
      | false => trivial

theorem unstashBlock_baseDirectory {status : Bool}
    (hreturns : (unstashBlock storage index).Returns (status, storage')) :
    storage'.baseDirectory = storage.baseDirectory := by
  unfold unstashBlock at hreturns
  cases huuid : storage.stashBlockIds index with
  | none =>
      rw [huuid] at hreturns
      cases hreturns
      rfl
  | some uuid =>
      rw [huuid] at hreturns
      obtain ⟨removed, hlast⟩ := hreturns
      cases removed with
      | true =>
          cases hlast
          rfl
      | false =>
          cases hlast
          rfl

theorem noteStored_baseDirectory (storage : BlockStorage Hash) (index : ℕ) :
    (storage.noteStored index).baseDirectory = storage.baseDirectory := by
  unfold noteStored
  split
  · rfl
  · rfl

end BlockStorage

/-! ## The part that managers share -/

namespace VirtualMemoryManagerBase

variable {build : Build Hash} {base base' : VirtualMemoryManagerBase Hash} {block : ℕ}

theorem sparesVersions_stash (content : List Byte) :
    (base.stash content block).CallsOnly Call.SparesVersions := by
  apply (BlockStorage.sparesVersions_stashBlock content).bind
  rintro ⟨status, storage⟩
  cases status with
  | true => trivial
  | false => trivial

theorem sparesVersions_unstash : (base.unstash block).CallsOnly Call.SparesVersions := by
  apply BlockStorage.sparesVersions_unstashBlock.bind
  rintro ⟨status, storage⟩
  cases status with
  | true => trivial
  | false => trivial

theorem stash_baseDirectory {content : List Byte}
    (hreturns : (base.stash content block).Returns base') :
    base'.blockStorage.baseDirectory = base.blockStorage.baseDirectory := by
  obtain ⟨⟨status, storage⟩, hstash, hlast⟩ := Program.returns_bind.mp hreturns
  cases status with
  | false => exact hlast.elim
  | true =>
      cases hlast
      rcases BlockStorage.stashBlock_returns hstash with rfl | ⟨uuid, rfl⟩
      · rfl
      · rfl

theorem unstash_baseDirectory (hreturns : (base.unstash block).Returns base') :
    base'.blockStorage.baseDirectory = base.blockStorage.baseDirectory := by
  obtain ⟨⟨status, storage⟩, hunstash, hlast⟩ := Program.returns_bind.mp hreturns
  cases status with
  | false => exact hlast.elim
  | true =>
      cases hlast
      exact BlockStorage.unstashBlock_baseDirectory hunstash

theorem sparesVersions_storeDirtyBlocks {dirtyLru schedule : List ℕ}
    {memory : ℕ → List Byte} :
    (storeDirtyBlocks build base dirtyLru memory schedule).CallsOnly Call.SparesVersions := by
  apply Program.callsOnly_interleave
  intro worker hworker
  obtain ⟨block, -, rfl⟩ := List.mem_map.mp hworker
  apply (BlockStorage.permits_storeBlock (BlockStorage.permits_sparesVersions _)).bind
  intro stored
  cases stored with
  | none => trivial
  | some name => trivial

theorem sparesVersions_commitStashed {order : List ℕ} :
    (commitStashed build order base).CallsOnly Call.SparesVersions := by
  induction order generalizing base with
  | nil => trivial
  | cons first rest ih =>
      apply BlockStorage.sparesVersions_commitStashBlock.bind
      rintro ⟨committed, storage⟩
      cases committed with
      | none => trivial
      | some name => exact ih

theorem sparesVersions_commitBlocks {dirtyLru : List ℕ} {memory : ℕ → List Byte}
    {stashSet : Finset ℕ} {schedule : MsyncSchedule} :
    (commitBlocks build base dirtyLru memory stashSet schedule).CallsOnly
      Call.SparesVersions := by
  apply sparesVersions_storeDirtyBlocks.bind
  exact fun stored => sparesVersions_commitStashed.bind fun committed => trivial

theorem foldl_recordStored_baseDirectory (stored : List (ℕ × Hash)) :
    (stored.foldl recordStored base).blockStorage.baseDirectory =
      base.blockStorage.baseDirectory := by
  induction stored generalizing base with
  | nil => rfl
  | cons first rest ih =>
      exact ih.trans (BlockStorage.noteStored_baseDirectory base.blockStorage first.1)

theorem commitStashed_baseDirectory {order : List ℕ}
    (hreturns : (commitStashed build order base).Returns base') :
    base'.blockStorage.baseDirectory = base.blockStorage.baseDirectory := by
  induction order generalizing base with
  | nil =>
      cases hreturns
      rfl
  | cons first rest ih =>
      obtain ⟨⟨result, storage⟩, hcommit, hrest⟩ := Program.returns_bind.mp hreturns
      cases result with
      | none => exact hrest.elim
      | some name =>
          obtain ⟨-, rfl⟩ := BlockStorage.commitStashBlock_returns hcommit
          have hlater := ih hrest
          exact hlater

theorem commitBlocks_baseDirectory {dirtyLru : List ℕ} {memory : ℕ → List Byte}
    {stashSet : Finset ℕ} {schedule : MsyncSchedule}
    {committed : List (ℕ × Hash) × VirtualMemoryManagerBase Hash}
    (hreturns : (commitBlocks build base dirtyLru memory stashSet schedule).Returns committed) :
    committed.2.blockStorage.baseDirectory = base.blockStorage.baseDirectory := by
  obtain ⟨stored, -, hrest⟩ := Program.returns_bind.mp hreturns
  obtain ⟨last, hstash, hlast⟩ := Program.returns_bind.mp hrest
  cases hlast
  exact (commitStashed_baseDirectory hstash).trans (foldl_recordStored_baseDirectory stored)

/-- The table is written up to the highest resident block. -/
theorem commitsTo_updateMetadata {presentBlocks : Finset ℕ} {limit : ℕ}
    (hlimit : occupiedBlocks presentBlocks ≤ limit) :
    (updateMetadata base presentBlocks).CallsOnly
      (Call.CommitsTo base.versionMetadataPath limit) := by
  unfold updateMetadata
  split
  · trivial
  · refine ⟨.inl rfl, fun opened => ?_⟩
    cases opened with
    | false => trivial
    | true =>
        refine ⟨.inr ⟨_, ?_, rfl⟩, fun written => ?_⟩
        · rw [List.length_map, List.length_range]
          exact hlimit
        · cases written with
          | none => trivial
          | some count =>
              refine ⟨.inl trivial, fun closed => ?_⟩
              cases closed with
              | true => trivial
              | false => trivial

end VirtualMemoryManagerBase

/-! ## The manager -/

namespace SigactionVirtualMemoryManager

variable {build : Build Hash} {manager manager' : SigactionVirtualMemoryManager Hash}
variable {block : ℕ}

theorem sparesVersions_evictIfNeeded :
    (evictIfNeeded manager).CallsOnly Call.SparesVersions := by
  unfold evictIfNeeded
  split
  · cases manager.cleanLru.getLast? with
    | some toEvict => trivial
    | none =>
        cases manager.dirtyLru.getLast? with
        | none => trivial
        | some toEvict =>
            exact (VirtualMemoryManagerBase.sparesVersions_stash _).bind fun _ => trivial
  · trivial

theorem evictIfNeeded_baseDirectory (hreturns : (evictIfNeeded manager).Returns manager') :
    manager'.blockStorage.baseDirectory = manager.blockStorage.baseDirectory := by
  unfold evictIfNeeded at hreturns
  split_ifs at hreturns
  · cases hclean : manager.cleanLru.getLast? with
    | some toEvict =>
        rw [hclean] at hreturns
        cases hreturns
        rfl
    | none =>
        rw [hclean] at hreturns
        cases hdirty : manager.dirtyLru.getLast? with
        | none =>
            rw [hdirty] at hreturns
            exact hreturns.elim
        | some toEvict =>
            simp only [hdirty] at hreturns
            obtain ⟨stashed, hstash, hlast⟩ := Program.returns_bind.mp hreturns
            cases hlast
            exact VirtualMemoryManagerBase.stash_baseDirectory hstash
  · cases hreturns
    rfl

theorem sparesVersions_readBacking (blockSize : ℕ) (backing : DataFile Hash) (fromStash : Bool) :
    (readBacking build blockSize backing fromStash).CallsOnly Call.SparesVersions :=
  callsOnly_readBacking trivial trivial (fun _ => trivial) trivial blockSize fromStash

theorem sparesVersions_unstash : (unstash manager block).CallsOnly Call.SparesVersions :=
  VirtualMemoryManagerBase.sparesVersions_unstash.bind fun _ => trivial

theorem unstash_baseDirectory (hreturns : (unstash manager block).Returns manager') :
    manager'.blockStorage.baseDirectory = manager.blockStorage.baseDirectory := by
  obtain ⟨base, hbase, hlast⟩ := Program.returns_bind.mp hreturns
  cases hlast
  exact VirtualMemoryManagerBase.unstash_baseDirectory hbase

theorem sparesVersions_handlePresent (isWriteFault : Bool) :
    (handlePresent manager block isWriteFault).CallsOnly Call.SparesVersions := by
  unfold handlePresent
  split
  · dsimp only
    split
    · exact sparesVersions_unstash.bind fun _ => trivial
    · trivial
  · trivial

theorem handlePresent_baseDirectory {isWriteFault : Bool}
    (hreturns : (handlePresent manager block isWriteFault).Returns manager') :
    manager'.blockStorage.baseDirectory = manager.blockStorage.baseDirectory := by
  unfold handlePresent at hreturns
  dsimp only at hreturns
  split_ifs at hreturns
  · obtain ⟨unstashed, hunstash, hlast⟩ := Program.returns_bind.mp hreturns
    cases hlast
    have hkept := unstash_baseDirectory hunstash
    exact hkept
  · cases hreturns
    rfl
  · cases hreturns
    rfl

theorem makeResident_baseDirectory (isWriteFault : Bool) :
    (manager.makeResident block isWriteFault).blockStorage.baseDirectory =
      manager.blockStorage.baseDirectory := by
  cases isWriteFault with
  | true => rfl
  | false => rfl

section Faults

variable [DecidableEq Hash]

theorem sparesVersions_loadAbsent (isWriteFault : Bool) :
    (loadAbsent build manager block isWriteFault).CallsOnly Call.SparesVersions := by
  unfold loadAbsent
  cases manager.blockStorage.getBlockStashPath block with
  | some file =>
      refine (sparesVersions_readBacking _ _ _).bind fun buffer => ?_
      dsimp only
      split
      · exact sparesVersions_unstash.bind fun _ => trivial
      · trivial
  | none =>
      dsimp only
      split
      · trivial
      · refine (BlockStorage.permits_getBlockFullPath (BlockStorage.permits_sparesVersions _)
          trivial).bind fun path => ?_
        exact (sparesVersions_readBacking _ _ _).bind fun buffer => trivial

theorem loadAbsent_baseDirectory {isWriteFault : Bool}
    (hreturns : (loadAbsent build manager block isWriteFault).Returns manager') :
    manager'.blockStorage.baseDirectory = manager.blockStorage.baseDirectory := by
  unfold loadAbsent at hreturns
  cases hpath : manager.blockStorage.getBlockStashPath block with
  | some file =>
      rw [hpath] at hreturns
      obtain ⟨buffer, -, hrest⟩ := Program.returns_bind.mp hreturns
      dsimp only at hrest
      split_ifs at hrest
      · obtain ⟨unstashed, hunstash, hlast⟩ := Program.returns_bind.mp hrest
        cases hlast
        have hkept := unstash_baseDirectory hunstash
        exact (makeResident_baseDirectory _).trans hkept
      · cases hrest
        exact makeResident_baseDirectory _
  | none =>
      rw [hpath] at hreturns
      dsimp only at hreturns
      split_ifs at hreturns
      · cases hreturns
        exact makeResident_baseDirectory _
      · obtain ⟨path, hfound, hrest⟩ := Program.returns_bind.mp hreturns
        obtain ⟨buffer, -, hlast⟩ := Program.returns_bind.mp hrest
        cases hlast
        exact (makeResident_baseDirectory _).trans
          (BlockStorage.getBlockFullPath_result hfound).2.1

theorem sparesVersions_access (offset : ℕ) (isWrite : Bool) :
    (access build manager offset isWrite).CallsOnly Call.SparesVersions := by
  unfold access
  dsimp only
  split
  · trivial
  · have hhandler : (handler build manager (offset / manager.blockSize) isWrite).CallsOnly
        Call.SparesVersions := by
      unfold handler
      split
      · trivial
      · split
        · exact sparesVersions_handlePresent isWrite
        · exact sparesVersions_evictIfNeeded.bind fun room => sparesVersions_loadAbsent isWrite
    refine hhandler.bind fun handled => ?_
    split
    · trivial
    · trivial

theorem access_baseDirectory {offset : ℕ} {isWrite : Bool}
    (hreturns : (access build manager offset isWrite).Returns manager') :
    manager'.blockStorage.baseDirectory = manager.blockStorage.baseDirectory := by
  unfold access at hreturns
  dsimp only at hreturns
  split_ifs at hreturns
  · cases hreturns
    rfl
  · obtain ⟨handled, hhandled, hlast⟩ := Program.returns_bind.mp hreturns
    split_ifs at hlast
    · cases hlast
      unfold handler at hhandled
      split_ifs at hhandled
      · exact hhandled.elim
      · exact handlePresent_baseDirectory hhandled
      · obtain ⟨room, hroom, hload⟩ := Program.returns_bind.mp hhandled
        exact (loadAbsent_baseDirectory hload).trans (evictIfNeeded_baseDirectory hroom)
    · exact hlast.elim

end Faults

/-! ## Commits -/

theorem msyncBlocks_baseDirectory {schedule : MsyncSchedule}
    (hreturns : (msyncBlocks build manager schedule).Returns manager') :
    manager'.blockStorage.baseDirectory = manager.blockStorage.baseDirectory := by
  obtain ⟨committed, hcommitted, hlast⟩ := Program.returns_bind.mp hreturns
  cases hlast
  exact VirtualMemoryManagerBase.commitBlocks_baseDirectory hcommitted

/-- The table that a commit writes is no longer than the region has blocks. -/
theorem commitsTo_msync {files : FileSystem Hash} (hkept : manager.Bookkept files)
    (schedule : MsyncSchedule) :
    (msync build manager schedule).CallsOnly
      (Call.CommitsTo manager.versionMetadataPath manager.numBlocks) := by
  have hspares : (msyncBlocks build manager schedule).CallsOnly Call.SparesVersions := by
    apply VirtualMemoryManagerBase.sparesVersions_commitBlocks.bind
    exact fun committed => trivial
  apply (hspares.mono fun _ => .inl).bind_of_returns
  intro flushed hflushed
  have hcommitted : (msync build manager schedule).Returns flushed := by
    refine Program.returns_bind.mpr ⟨flushed, hflushed, ?_⟩
    refine Program.returns_bind.mpr ⟨(), ?_, rfl⟩
    unfold updateMetadata VirtualMemoryManagerBase.updateMetadata
    split
    · rfl
    · exact ⟨true, some 0, true, rfl⟩
  obtain ⟨hdone, hsession⟩ := hkept.msync hcommitted files
  obtain ⟨region, hresidency⟩ := hdone.residency
  have hupdates : (updateMetadata flushed).CallsOnly
      (Call.CommitsTo flushed.versionMetadataPath manager.numBlocks) := by
    apply VirtualMemoryManagerBase.commitsTo_updateMetadata
    unfold VirtualMemoryManagerBase.occupiedBlocks
    split_ifs with hempty
    · exact Nat.zero_le _
    · refine Nat.succ_le_of_lt ?_
      rw [← hsession.numBlocks]
      obtain ⟨block, hblock, hlast⟩ :=
        Finset.exists_mem_eq_sup _ (Finset.nonempty_iff_ne_empty.mpr hempty) id
      rw [hlast]
      exact hresidency.resident_lt block hblock
  rw [hsession.versionMetadataPath] at hupdates
  exact hupdates.bind fun _ => trivial

theorem msync_baseDirectory {schedule : MsyncSchedule}
    (hreturns : (msync build manager schedule).Returns manager') :
    manager'.blockStorage.baseDirectory = manager.blockStorage.baseDirectory := by
  obtain ⟨flushed, hflushed, hwritten⟩ := Program.returns_bind.mp hreturns
  obtain ⟨⟨⟩, -, hsame⟩ := Program.returns_bind.mp hwritten
  cases hsame
  exact msyncBlocks_baseDirectory hflushed

end SigactionVirtualMemoryManager

end Privateer
