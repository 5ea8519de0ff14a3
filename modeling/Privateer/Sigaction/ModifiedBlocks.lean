import Privateer.Sigaction.VersionCalls
import Privateer.Sigaction.WorkingCopies
import Privateer.VirtualMemory.CommitOrder

/-!
# The blocks that a session has modified

A block that was written to is dirty or stashed until it is committed.  An access adds its
block to these if it is a write, whatever it evicts and loads, and a commit leaves none.  Only
commits touch the blocks directory: with one tier an access writes and removes stash files
alone.
-/

namespace Privateer

variable {Hash : Type}

/-- The call changes no file of a blocks directory. -/
def Call.SparesBlocks (call : Call Hash) : Prop :=
  ∀ location subdirectory name, call.Leaves (.block location subdirectory name)

theorem Call.sparesBlocks_of_changes {call : Call Hash} (hnone : call.changes = []) :
    call.SparesBlocks := by
  intro location subdirectory name hmember
  rw [hnone] at hmember
  exact absurd hmember List.not_mem_nil

theorem Call.sparesBlocks_of_stash {call : Call Hash} {location : Path} {uuid : ℕ}
    (honly : call.changes = [.stash location uuid]) : call.SparesBlocks := by
  intro location' subdirectory name hmember
  rw [honly] at hmember
  cases List.mem_singleton.mp hmember

/-! ## Stash files -/

namespace BlockStorage

variable {build : Build Hash} {storage : BlockStorage Hash} {index : ℕ}

theorem sparesBlocks_stashBlock (content : List Byte) :
    (stashBlock storage content index).CallsOnly Call.SparesBlocks := by
  have hwrites : ∀ uuid fileExists,
      (writeStash storage content uuid fileExists).CallsOnly Call.SparesBlocks := by
    intro uuid fileExists
    have hpwrite : (do
        if (← systemCall (.pwrite (.stash storage.stashDirectory uuid) content)).isSome then
          systemCall .close
        else return false : StorageProgram Hash Bool).CallsOnly Call.SparesBlocks := by
      refine ⟨Call.sparesBlocks_of_stash rfl, fun written => ?_⟩
      cases written with
      | none => trivial
      | some count => exact ⟨Call.sparesBlocks_of_changes rfl, fun _ => trivial⟩
    cases fileExists with
    | true =>
        refine ⟨Call.sparesBlocks_of_changes rfl, fun opened => ?_⟩
        cases opened with
        | false => trivial
        | true => exact hpwrite
    | false =>
        refine ⟨Call.sparesBlocks_of_stash rfl, fun opened => ?_⟩
        cases opened with
        | false => trivial
        | true =>
            refine ⟨Call.sparesBlocks_of_stash rfl, fun sized => ?_⟩
            cases sized with
            | true => exact hpwrite
            | false => trivial
  unfold stashBlock
  cases storage.stashBlockIds index with
  | some uuid => exact (hwrites uuid true).bind fun _ => trivial
  | none =>
      exact ⟨Call.sparesBlocks_of_changes rfl, fun uuid =>
        (hwrites uuid false).bind fun _ => trivial⟩

theorem sparesBlocks_unstashBlock :
    (unstashBlock storage index).CallsOnly Call.SparesBlocks := by
  unfold unstashBlock
  cases storage.stashBlockIds index with
  | none => trivial
  | some uuid =>
      refine ⟨Call.sparesBlocks_of_stash rfl, fun removed => ?_⟩
      cases removed with
      | true => trivial
      | false => trivial

/-- With one tier a block is looked up without a copy. -/
theorem sparesBlocks_getBlockFullPath (hsingle : storage.isMultiTiered = false) (name : Hash) :
    (getBlockFullPath build storage index name).CallsOnly Call.SparesBlocks := by
  have hsubdirectory : (getBlocksSubdirectory build storage name false).CallsOnly
      Call.SparesBlocks := by
    refine ⟨Call.sparesBlocks_of_changes rfl, fun found => ?_⟩
    cases found with
    | true => trivial
    | false =>
        refine ⟨Call.sparesBlocks_of_changes rfl, fun created => ?_⟩
        cases created with
        | true => trivial
        | false => trivial
  unfold getBlockFullPath
  rw [hsingle]
  exact hsubdirectory.bind fun baseSubdir => trivial

end BlockStorage

namespace VirtualMemoryManagerBase

variable {base stashed : VirtualMemoryManagerBase Hash} {block : ℕ} {content : List Byte}

theorem sparesBlocks_stash : (base.stash content block).CallsOnly Call.SparesBlocks := by
  refine (BlockStorage.sparesBlocks_stashBlock content).bind fun result => ?_
  split
  · trivial
  · trivial

theorem sparesBlocks_unstash : (base.unstash block).CallsOnly Call.SparesBlocks := by
  refine BlockStorage.sparesBlocks_unstashBlock.bind fun result => ?_
  split
  · trivial
  · trivial

theorem stash_isMultiTiered (hreturns : (base.stash content block).Returns stashed) :
    stashed.blockStorage.isMultiTiered = base.blockStorage.isMultiTiered := by
  obtain ⟨⟨status, storage⟩, hstash, hrest⟩ := Program.returns_bind.mp hreturns
  cases status with
  | false => exact hrest.elim
  | true =>
      cases hrest
      rcases BlockStorage.stashBlock_returns hstash with rfl | ⟨uuid, rfl⟩
      · rfl
      · rfl

end VirtualMemoryManagerBase

/-! ## Accesses -/

namespace SigactionVirtualMemoryManager

variable {build : Build Hash} {manager manager' : SigactionVirtualMemoryManager Hash}
variable {block : ℕ} {isWriteFault : Bool}

/-- The blocks that the next commit stores. -/
def modified (manager : SigactionVirtualMemoryManager Hash) : Finset ℕ :=
  manager.dirtyLru.toFinset ∪ manager.stashSet

theorem mem_modified {other : ℕ} :
    other ∈ manager.modified ↔ other ∈ manager.dirtyLru ∨ other ∈ manager.stashSet := by
  rw [modified, Finset.mem_union, List.mem_toFinset]

/-- A block that is dirty instead of stashed is modified as before. -/
theorem modified_unstashed {dirtyLru : List ℕ} {stashSet : Finset ℕ} :
    (block :: dirtyLru).toFinset ∪ stashSet.erase block =
      insert block (dirtyLru.toFinset ∪ stashSet) := by
  ext other
  simp only [Finset.mem_union, List.mem_toFinset, List.mem_cons, Finset.mem_erase,
    Finset.mem_insert]
  by_cases hsame : other = block
  · simp [hsame]
  · simp [hsame]

/-- A dirty block that is evicted is stashed. -/
theorem evictIfNeeded_modified (hreturns : (evictIfNeeded manager).Returns manager') :
    manager'.modified = manager.modified ∧
      manager'.blockStorage.isMultiTiered = manager.blockStorage.isMultiTiered := by
  unfold evictIfNeeded at hreturns
  split_ifs at hreturns
  · cases hclean : manager.cleanLru.getLast? with
    | some toEvict =>
        rw [hclean] at hreturns
        cases hreturns
        exact ⟨rfl, rfl⟩
    | none =>
        rw [hclean] at hreturns
        cases hdirty : manager.dirtyLru.getLast? with
        | none =>
            rw [hdirty] at hreturns
            exact hreturns.elim
        | some toEvict =>
            simp only [hdirty] at hreturns
            obtain ⟨stashed, hstash, hlast⟩ := Program.returns_bind.mp hreturns
            cases hlast
            refine ⟨?_, VirtualMemoryManagerBase.stash_isMultiTiered hstash⟩
            obtain ⟨front, hfront⟩ := List.getLast?_eq_some_iff.mp hdirty
            ext other
            rw [mem_modified, mem_modified]
            change other ∈ manager.dirtyLru.dropLast ∨ other ∈ insert toEvict manager.stashSet ↔ _
            rw [hfront, List.dropLast_concat, Finset.mem_insert, List.mem_append,
              List.mem_singleton, or_assoc]
  · cases hreturns
    exact ⟨rfl, rfl⟩

theorem sparesBlocks_evictIfNeeded : (evictIfNeeded manager).CallsOnly Call.SparesBlocks := by
  unfold evictIfNeeded
  split
  · cases manager.cleanLru.getLast? with
    | some toEvict => trivial
    | none =>
        cases manager.dirtyLru.getLast? with
        | none => trivial
        | some toEvict =>
            exact VirtualMemoryManagerBase.sparesBlocks_stash.bind fun _ => trivial
  · trivial

theorem sparesBlocks_unstash : (unstash manager block).CallsOnly Call.SparesBlocks :=
  VirtualMemoryManagerBase.sparesBlocks_unstash.bind fun _ => trivial

theorem sparesBlocks_handlePresent :
    (handlePresent manager block isWriteFault).CallsOnly Call.SparesBlocks := by
  unfold handlePresent
  split
  · dsimp only
    split
    · exact sparesBlocks_unstash.bind fun _ => trivial
    · trivial
  · trivial

/-- A write makes its block modified, and a read leaves what is. -/
def modifiedBy (manager : SigactionVirtualMemoryManager Hash) (block : ℕ) (isWrite : Bool) :
    Finset ℕ :=
  if isWrite then insert block manager.modified else manager.modified

theorem handlePresent_modified
    (hreturns : (handlePresent manager block isWriteFault).Returns manager') :
    manager'.modified = manager.modifiedBy block isWriteFault := by
  unfold handlePresent at hreturns
  cases isWriteFault with
  | true =>
      simp only [if_true] at hreturns
      split_ifs at hreturns
      · obtain ⟨unstashed, hunstash, hlast⟩ := Program.returns_bind.mp hreturns
        obtain ⟨forgotten, -, hsame⟩ := Program.returns_bind.mp hunstash
        cases hsame
        cases hlast
        exact modified_unstashed
      · cases hreturns
        change (block :: manager.dirtyLru).toFinset ∪ manager.stashSet = _
        rw [List.toFinset_cons, Finset.insert_union]
        rfl
  | false =>
      cases hreturns
      rfl

variable [DecidableEq Hash]

theorem sparesBlocks_loadAbsent (hsingle : manager.blockStorage.isMultiTiered = false) :
    (loadAbsent build manager block isWriteFault).CallsOnly Call.SparesBlocks := by
  have hreads : ∀ blockSize backing fromStash,
      (readBacking build blockSize backing fromStash).CallsOnly Call.SparesBlocks :=
    fun blockSize backing fromStash => callsOnly_readBacking (Call.sparesBlocks_of_changes rfl)
      (Call.sparesBlocks_of_changes rfl) (fun _ => Call.sparesBlocks_of_changes rfl)
      (Call.sparesBlocks_of_changes rfl) blockSize fromStash
  unfold loadAbsent
  cases manager.blockStorage.getBlockStashPath block with
  | some file =>
      refine (hreads _ _ _).bind fun buffer => ?_
      dsimp only
      split
      · exact sparesBlocks_unstash.bind fun _ => trivial
      · trivial
  | none =>
      dsimp only
      split
      · trivial
      · refine (BlockStorage.sparesBlocks_getBlockFullPath hsingle _).bind fun path => ?_
        exact (hreads _ _ _).bind fun buffer => trivial

theorem loadAbsent_modified
    (hreturns : (loadAbsent build manager block isWriteFault).Returns manager') :
    manager'.modified = manager.modifiedBy block isWriteFault := by
  have hjoins : ∀ loaded : SigactionVirtualMemoryManager Hash,
      loaded.dirtyLru = manager.dirtyLru → loaded.stashSet = manager.stashSet →
        (loaded.makeResident block isWriteFault).modified =
          manager.modifiedBy block isWriteFault := by
    intro loaded hdirty hstash
    rw [modifiedBy, modified, modified]
    cases isWriteFault with
    | true =>
        change (block :: loaded.dirtyLru).toFinset ∪ loaded.stashSet = _
        rw [hdirty, hstash, List.toFinset_cons, Finset.insert_union]
        rfl
    | false =>
        change loaded.dirtyLru.toFinset ∪ loaded.stashSet = _
        rw [hdirty, hstash]
        rfl
  unfold loadAbsent at hreturns
  cases hpath : manager.blockStorage.getBlockStashPath block with
  | some file =>
      rw [hpath] at hreturns
      obtain ⟨buffer, -, hrest⟩ := Program.returns_bind.mp hreturns
      cases isWriteFault with
      | true =>
          rw [if_pos rfl] at hrest
          obtain ⟨unstashed, hunstash, hlast⟩ := Program.returns_bind.mp hrest
          obtain ⟨forgotten, -, hsame⟩ := Program.returns_bind.mp hunstash
          cases hsame
          cases hlast
          exact modified_unstashed
      | false =>
          rw [if_neg Bool.false_ne_true] at hrest
          cases hrest
          exact hjoins _ rfl rfl
  | none =>
      simp only [hpath] at hreturns
      split_ifs at hreturns
      · cases hreturns
        exact hjoins _ rfl rfl
      · obtain ⟨path, -, hrest⟩ := Program.returns_bind.mp hreturns
        obtain ⟨buffer, -, hlast⟩ := Program.returns_bind.mp hrest
        cases hlast
        exact hjoins _ rfl rfl

/-- With one tier, accesses leave the blocks directory alone. -/
theorem sparesBlocks_access (hsingle : manager.blockStorage.isMultiTiered = false)
    (offset : ℕ) (isWrite : Bool) :
    (access build manager offset isWrite).CallsOnly Call.SparesBlocks := by
  unfold access
  dsimp only
  split
  · trivial
  · have hhandler : (handler build manager (offset / manager.blockSize) isWrite).CallsOnly
        Call.SparesBlocks := by
      unfold handler
      split
      · trivial
      · split
        · exact sparesBlocks_handlePresent
        · apply sparesBlocks_evictIfNeeded.bind_of_returns
          intro room hroom
          exact sparesBlocks_loadAbsent ((evictIfNeeded_modified hroom).2.trans hsingle)
    refine hhandler.bind fun handled => ?_
    split
    · trivial
    · trivial

theorem sparesBlocks_readByte (hsingle : manager.blockStorage.isMultiTiered = false)
    (offset : ℕ) : (readByte build manager offset).CallsOnly Call.SparesBlocks :=
  (sparesBlocks_access hsingle offset false).bind fun _ => trivial

theorem sparesBlocks_writeByte (hsingle : manager.blockStorage.isMultiTiered = false)
    (offset : ℕ) (byte : Byte) :
    (writeByte build manager offset byte).CallsOnly Call.SparesBlocks :=
  (sparesBlocks_access hsingle offset true).bind fun _ => trivial

/-- An access that needs no fault to write finds its block dirty. -/
theorem access_modified {blocks : BlocksDirectory Hash} {files : FileSystem Hash}
    {region : ℕ → List Byte} (hcoherent : Coherent blocks manager files region) {offset : ℕ}
    {isWrite : Bool} (hreturns : (access build manager offset isWrite).Returns manager') :
    manager'.modified = manager.modifiedBy (offset / blocks.blockSize) isWrite := by
  rw [← hcoherent.blockSize]
  unfold access at hreturns
  dsimp only at hreturns
  split_ifs at hreturns with hpermits
  · cases hreturns
    cases isWrite with
    | true =>
        have hdirty := hcoherent.dirty_of_permits hpermits
        exact (Finset.insert_eq_of_mem (mem_modified.mpr (.inl hdirty))).symm
    | false => rfl
  · obtain ⟨handled, hhandled, hlast⟩ := Program.returns_bind.mp hreturns
    split_ifs at hlast
    · cases hlast
      unfold handler at hhandled
      split_ifs at hhandled
      · exact hhandled.elim
      · exact handlePresent_modified hhandled
      · obtain ⟨room, hroom, hload⟩ := Program.returns_bind.mp hhandled
        rw [loadAbsent_modified hload, modifiedBy, modifiedBy, (evictIfNeeded_modified hroom).1]
    · exact hlast.elim

/-! ## Commits -/

omit [DecidableEq Hash] in
/-- A commit leaves no block modified. -/
theorem msync_modified {schedule : MsyncSchedule}
    (hreturns : (msync build manager schedule).Returns manager') : manager'.modified = ∅ := by
  obtain ⟨flushed, hflushed, hrest⟩ := Program.returns_bind.mp hreturns
  obtain ⟨⟨⟩, -, hsame⟩ := Program.returns_bind.mp hrest
  obtain ⟨committed, -, hlast⟩ := Program.returns_bind.mp hflushed
  cases hlast
  cases hsame
  rfl

omit [DecidableEq Hash] in
theorem takeSnapshot_modified {version : Path} {schedule : MsyncSchedule} {status : Bool}
    (hreturns : (takeSnapshot build manager version schedule).Returns (status, manager')) :
    manager'.modified = ∅ := by
  unfold takeSnapshot at hreturns
  simp only [Program.request_bind, Program.returns_call] at hreturns
  obtain ⟨-, -, hmsync⟩ := hreturns
  obtain ⟨committed, hcommits, hrest⟩ := Program.returns_bind.mp hmsync
  obtain ⟨-, -, hrest⟩ := Program.returns_bind.mp hrest
  obtain ⟨-, -, hlast⟩ := Program.returns_bind.mp hrest
  cases hlast
  have hclean := msync_modified hcommits
  exact hclean

end SigactionVirtualMemoryManager

end Privateer
