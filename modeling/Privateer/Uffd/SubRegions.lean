import Privateer.Uffd.Residency

/-!
# Commits and sub-regions

Fault events are routed by the index of their block, and so are the lists that the
handler threads keep.  `msync` picks the clean list of a block that it stored by the
address of the block instead.  This module says when the two agree.
-/

namespace Privateer

namespace UffdVirtualMemoryManager

variable {Hash : Type} {manager committed : UffdVirtualMemoryManager Hash} {subRegion : ℕ}

/-- The commit of a sub-region moves its dirty blocks to the front of its clean list and
touches no list of another sub-region. -/
structure KeepsSubRegions (manager : UffdVirtualMemoryManager Hash) (subRegion : ℕ)
    (committed : UffdVirtualMemoryManager Hash) : Prop where
  moved : ∃ moved, moved.Perm (manager.dirtyLru subRegion) ∧
    committed.cleanLru subRegion = moved ++ manager.cleanLru subRegion
  dirty : committed.dirtyLru subRegion = []
  stash : committed.stashSet subRegion = ∅
  others : ∀ other, other ≠ subRegion →
    committed.cleanLru other = manager.cleanLru other ∧
      committed.dirtyLru other = manager.dirtyLru other ∧
        committed.stashSet other = manager.stashSet other ∧
          committed.presentBlocks other = manager.presentBlocks other

/-! ## The lists after a commit -/

/-- What `msync` of a sub-region leaves in the lists, however the storage answers. -/
theorem msyncSubRegion_returns {build : Build Hash} {schedule : MsyncSchedule}
    (hreturns : (msyncSubRegion build manager subRegion schedule).Returns committed) :
    ∃ stored : List ℕ, stored.Perm (manager.dirtyLru subRegion) ∧
      (∀ list, committed.cleanLru list =
        (stored.filter fun block => manager.storedList block = list).reverse ++
          manager.cleanLru list) ∧
        committed.dirtyLru = Function.update manager.dirtyLru subRegion [] ∧
          committed.stashSet = Function.update manager.stashSet subRegion ∅ ∧
            committed.presentBlocks = manager.presentBlocks := by
  obtain ⟨marked, hblocks, hrest⟩ := Program.returns_bind.mp hreturns
  obtain ⟨_, -, hlast⟩ := Program.returns_bind.mp hrest
  cases hlast
  obtain ⟨result, hcommitted, hmarked⟩ := Program.returns_bind.mp hblocks
  rw [foldl_markStored_eq] at hmarked
  cases hmarked
  exact ⟨_, VirtualMemoryManagerBase.returns_commitBlocks hcommitted, fun _ => rfl, rfl, rfl, rfl⟩

/-- A commit keeps the sub-regions apart exactly if the address of every dirty block
leads to the list of its own sub-region. -/
theorem msync_keepsSubRegions_iff {build : Build Hash} {schedule : MsyncSchedule}
    (hreturns : (msyncSubRegion build manager subRegion schedule).Returns committed) :
    manager.KeepsSubRegions subRegion committed ↔
      ∀ block ∈ manager.dirtyLru subRegion,
        (manager.regionStartAddress + block * manager.blockSize) % manager.numHandlingThreads =
          subRegion := by
  obtain ⟨stored, hperm, hclean, hdirty, hstash, hpresent⟩ := msyncSubRegion_returns hreturns
  constructor
  · intro hkeeps block hblock
    by_contra hother
    have hstored : block ∈ stored.filter fun other =>
        manager.storedList other = manager.storedList block :=
      List.mem_filter.mpr ⟨hperm.mem_iff.mpr hblock, by simp⟩
    have hlist := (hkeeps.others (manager.storedList block) hother).1
    rw [hclean, List.append_left_eq_self, List.reverse_eq_nil_iff] at hlist
    rw [hlist] at hstored
    exact List.not_mem_nil hstored
  · intro hlists
    have hown : ∀ block ∈ stored, manager.storedList block = subRegion := fun block hblock =>
      hlists block (hperm.mem_iff.mp hblock)
    refine ⟨⟨stored.reverse, (List.reverse_perm stored).trans hperm, ?_⟩, ?_, ?_, ?_⟩
    · rw [hclean, List.filter_eq_self.mpr fun block hblock => by simpa using hown block hblock]
    · rw [hdirty, Function.update_self]
    · rw [hstash, Function.update_self]
    · intro other hne
      have hnone : (stored.filter fun block => manager.storedList block = other) = [] := by
        rw [List.filter_eq_nil_iff]
        intro block hblock
        simpa [hown block hblock] using Ne.symm hne
      refine ⟨?_, ?_, ?_, congrFun hpresent other⟩
      · rw [hclean, hnone]
        rfl
      · rw [hdirty, Function.update_of_ne hne]
      · rw [hstash, Function.update_of_ne hne]

/-- Two handling threads on two dirty blocks of a page each, which the index routes to
different sub-regions. -/
def twoPages : UffdVirtualMemoryManager (Option (List Byte)) :=
  { initial (.initial ['v'] 8192 4096 2 false
      (BlockStorage.initial ['d', '/', 'b'] ['d', '/', 's'] 4096) fun _ => none) 4096 2 with
    dirtyLru := fun subRegion => if subRegion < 2 then [subRegion] else []
    presentBlocks := fun subRegion => if subRegion < 2 then {subRegion} else ∅
    installed := fun block => block < 2 }

/-- The files of a version with an empty table. -/
def twoPagesFiles : FileSystem (Option (List Byte)) :=
  { FileSystem.empty with
    directories := fun _ => true
    metadata := fun _ => some [] }

/-- The first block of the two joins its own list, and the second one stays dirty in its. -/
theorem msync_keepsSubRegions_iff_firstPage :
    ∃ committed files', (msyncSubRegion .transparent twoPages 0 ⟨[], []⟩).run FileSystem.answer
        twoPagesFiles = (.returned committed, files') ∧
      twoPages.KeepsSubRegions 0 committed ∧
        committed.cleanLru 0 = [0] ∧ committed.dirtyLru 1 = [1] := by
  obtain ⟨committed, files', hrun, hclean, hdirty⟩ : ∃ committed files',
      (msyncSubRegion .transparent twoPages 0 ⟨[], []⟩).run FileSystem.answer twoPagesFiles =
        (.returned committed, files') ∧ committed.cleanLru 0 = [0] ∧ committed.dirtyLru 1 = [1] :=
    ⟨_, _, rfl, rfl, rfl⟩
  refine ⟨committed, files', hrun, ?_, hclean, hdirty⟩
  exact (msync_keepsSubRegions_iff (Program.returns_of_run hrun)).mpr (by decide)

/-- The second block joins the clean list of the first one's thread. -/
theorem second_page_joins_other_list :
    twoPages.subRegion 1 = 1 ∧ ∃ committed files',
      (msyncSubRegion .transparent twoPages 1 ⟨[], []⟩).run FileSystem.answer twoPagesFiles =
        (.returned committed, files') ∧
      committed.cleanLru 0 = [1] ∧ twoPages.cleanLru 0 = [] ∧ committed.cleanLru 1 = [] :=
  ⟨rfl, _, _, rfl, rfl, rfl, rfl⟩

end UffdVirtualMemoryManager

end Privateer
