import Privateer.Uffd.Lru
import Privateer.VirtualMemory.Backing

/-!
# What the UFFD manager keeps track of

`region` gives the contents that the application sees, `stored` those that the
storage side has.  They agree on every block whose writes raise an event or that is
on the dirty list.  A dirty block that is evicted becomes untracked: its pages stay
writable and no list has it.
-/

namespace Privateer

namespace UffdVirtualMemoryManager

open VirtualMemoryManagerBase (Backing SameSession)

variable {Hash : Type}

/-- The application can write to the block without a fault although it is not on the
dirty list. -/
structure Untracked (manager : UffdVirtualMemoryManager Hash) (block : ℕ) : Prop where
  installed : manager.installed block = true
  writable : manager.writeProtected block = false
  unlisted : block ∉ manager.dirtyLru 0

/-- The lists of one handling thread, and what the kernel lets the application do. -/
structure Tracking (manager : UffdVirtualMemoryManager Hash) : Prop where
  threads : manager.numHandlingThreads = 1
  nodup_clean : (manager.cleanLru 0).Nodup
  nodup_dirty : (manager.dirtyLru 0).Nodup
  clean : ∀ block ∈ manager.cleanLru 0,
    manager.installed block = true ∧ manager.writeProtected block = true
  dirty : ∀ block ∈ manager.dirtyLru 0,
    manager.installed block = true ∧ manager.writeProtected block = false
  present : ∀ block ∈ manager.presentBlocks 0,
    block ∈ manager.cleanLru 0 ∨ block ∈ manager.dirtyLru 0
  stashed : ∀ block ∈ manager.stashSet 0,
    manager.installed block = true ∧ manager.writeProtected block = false
  installed_lt : ∀ block, manager.installed block = true → block < manager.numBlocks

/-- The invariant of a session. -/
structure Coherent [DecidableEq Hash] (blocks : BlocksDirectory Hash)
    (manager : UffdVirtualMemoryManager Hash) (files : FileSystem Hash)
    (region stored : ℕ → List Byte) : Prop where
  blockSize : manager.blockSize = blocks.blockSize
  blockSize_pos : 0 < blocks.blockSize
  limit : manager.blockSize ≤ manager.maxMemSize
  tracking : manager.Tracking
  tempBuffer : (manager.tempBuffer 0).length ≤ blocks.blockSize
  memory : ∀ block, manager.installed block = true → manager.memory block = region block
  agrees : ∀ block, ¬ manager.Untracked block → stored block = region block
  length : ∀ block, (region block).length = blocks.blockSize
  backing : Backing blocks manager.base (manager.stashSet 0) (manager.dirtyLru 0) files stored

variable {manager manager' : UffdVirtualMemoryManager Hash} {block toEvict : ℕ}

/-! ## The lists -/

theorem Tracking.subRegion (htracking : manager.Tracking) (block : ℕ) :
    manager.subRegion block = 0 := by
  rw [UffdVirtualMemoryManager.subRegion, htracking.threads, Nat.mod_one]

theorem Tracking.mem_dropLast {members : List ℕ} (hlast : members.getLast? = some toEvict)
    (hmember : block ∈ members) (hne : block ≠ toEvict) : block ∈ members.dropLast := by
  obtain ⟨front, rfl⟩ := List.getLast?_eq_some_iff.mp hlast
  rw [List.dropLast_concat]
  rcases List.mem_append.mp hmember with hfront | hsingle
  · exact hfront
  · exact absurd (List.mem_singleton.mp hsingle) hne

/-- The oldest clean block leaves its list and keeps its protection. -/
theorem Tracking.evictClean (htracking : manager.Tracking)
    (hlast : (manager.cleanLru 0).getLast? = some toEvict) :
    Tracking (evicted
      { manager with
        cleanLru := Function.update manager.cleanLru 0 (manager.cleanLru 0).dropLast }
      0 toEvict) := by
  have hsublist := List.dropLast_sublist (manager.cleanLru 0)
  refine ⟨htracking.threads, ?_, htracking.nodup_dirty, ?_, htracking.dirty, ?_,
    htracking.stashed, htracking.installed_lt⟩
  · simpa [evicted] using htracking.nodup_clean.sublist hsublist
  · intro block hblock
    simp only [evicted, Function.update_self] at hblock
    exact htracking.clean block (hsublist.subset hblock)
  · intro block hblock
    simp only [evicted, Function.update_self, Finset.mem_erase] at hblock ⊢
    exact (htracking.present block hblock.2).imp_left fun hclean =>
      Tracking.mem_dropLast hlast hclean hblock.1

/-- The oldest dirty block moves to the stash and stays writable. -/
theorem Tracking.evictDirty (htracking : manager.Tracking)
    (hlast : (manager.dirtyLru 0).getLast? = some toEvict)
    {base : VirtualMemoryManagerBase Hash} (hbase : manager.base.SameSession base) :
    Tracking (evicted
      { manager with
        base := base
        dirtyLru := Function.update manager.dirtyLru 0 (manager.dirtyLru 0).dropLast
        stashSet := Function.update manager.stashSet 0
          (insert toEvict (manager.stashSet 0)) } 0 toEvict) := by
  have hsublist := List.dropLast_sublist (manager.dirtyLru 0)
  refine ⟨htracking.threads, htracking.nodup_clean, ?_, htracking.clean, ?_, ?_, ?_, ?_⟩
  · simpa [evicted] using htracking.nodup_dirty.sublist hsublist
  · intro block hblock
    simp only [evicted, Function.update_self] at hblock
    exact htracking.dirty block (hsublist.subset hblock)
  · intro block hblock
    simp only [evicted, Function.update_self, Finset.mem_erase] at hblock ⊢
    exact (htracking.present block hblock.2).imp_right fun hdirty =>
      Tracking.mem_dropLast hlast hdirty hblock.1
  · intro block hblock
    simp only [evicted, Function.update_self, Finset.mem_insert] at hblock
    rcases hblock with rfl | hstashed
    · exact htracking.dirty _ (List.mem_of_getLast? hlast)
    · exact htracking.stashed block hstashed
  · intro block hblock
    exact (htracking.installed_lt block hblock).trans_eq hbase.numBlocks.symm

/-- A block without pages gets them and joins one of the lists. -/
theorem Tracking.load (htracking : manager.Tracking) (hblock : block < manager.numBlocks)
    (habsent : manager.installed block = false) (content : List Byte) (isWriteFault : Bool) :
    Tracking (makePresent
      { manager with
        installed := Function.update manager.installed block true
        writeProtected := Function.update manager.writeProtected block (!isWriteFault)
        memory := Function.update manager.memory block content } 0 block isWriteFault) := by
  have hne : ∀ other, manager.installed other = true → other ≠ block := by
    rintro other hother rfl
    rw [habsent] at hother
    cases hother
  have hkept : ∀ other isProtected, manager.installed other = true ∧
      manager.writeProtected other = isProtected →
        Function.update manager.installed block true other = true ∧
          Function.update manager.writeProtected block (!isWriteFault) other = isProtected := by
    intro other isProtected hother
    rw [Function.update_of_ne (hne other hother.1), Function.update_of_ne (hne other hother.1)]
    exact hother
  have hnew : Function.update manager.installed block true block = true ∧
      Function.update manager.writeProtected block (!isWriteFault) block = !isWriteFault :=
    ⟨Function.update_self _ _ _, Function.update_self _ _ _⟩
  have hlt : ∀ other, Function.update manager.installed block true other = true →
      other < manager.numBlocks := by
    intro other hother
    by_cases hsame : other = block
    · exact hsame ▸ hblock
    · rw [Function.update_of_ne hsame] at hother
      exact htracking.installed_lt other hother
  cases isWriteFault with
  | true =>
      refine ⟨htracking.threads, htracking.nodup_clean, ?_,
        fun other hother => hkept other true (htracking.clean other hother), ?_, ?_,
        fun other hother => hkept other false (htracking.stashed other hother), hlt⟩
      · simp only [makePresent, if_true, Function.update_self, List.nodup_cons]
        exact ⟨fun h => hne block (htracking.dirty block h).1 rfl, htracking.nodup_dirty⟩
      · intro other hother
        simp only [makePresent, if_true, Function.update_self, List.mem_cons] at hother
        rcases hother with rfl | hother
        · exact hnew
        · exact hkept other false (htracking.dirty other hother)
      · intro other hother
        simp only [makePresent, if_true, Function.update_self, Finset.mem_insert,
          List.mem_cons] at hother ⊢
        rcases hother with rfl | hother
        · exact .inr (.inl rfl)
        · exact (htracking.present other hother).imp_right .inr
  | false =>
      refine ⟨htracking.threads, ?_, htracking.nodup_dirty, ?_,
        fun other hother => hkept other false (htracking.dirty other hother), ?_,
        fun other hother => hkept other false (htracking.stashed other hother), hlt⟩
      · simp only [makePresent, Bool.false_eq_true, if_false, Function.update_self,
          List.nodup_cons]
        exact ⟨fun h => hne block (htracking.clean block h).1 rfl, htracking.nodup_clean⟩
      · intro other hother
        simp only [makePresent, Bool.false_eq_true, if_false, Function.update_self,
          List.mem_cons] at hother
        rcases hother with rfl | hother
        · exact hnew
        · exact hkept other true (htracking.clean other hother)
      · intro other hother
        simp only [makePresent, Bool.false_eq_true, if_false, Function.update_self,
          Finset.mem_insert, List.mem_cons] at hother ⊢
        rcases hother with rfl | hother
        · exact .inl (.inl rfl)
        · exact (htracking.present other hother).imp_left .inr

/-- A write-protected block becomes dirty. -/
theorem Tracking.markDirty (htracking : manager.Tracking)
    (hinstalled : manager.installed block = true)
    (hprotected : manager.writeProtected block = true) :
    Tracking ((manager.moveToDirty 0 block).protect block false) := by
  have hkept : ∀ other, manager.installed other = true ∧ manager.writeProtected other = false →
      manager.installed other = true ∧
        Function.update manager.writeProtected block false other = false := by
    intro other hother
    refine ⟨hother.1, ?_⟩
    rw [Function.update_apply]
    split_ifs with hsame
    · rfl
    · exact hother.2
  have hclean : block ∉ manager.dirtyLru 0 := by
    intro hdirty
    rw [(htracking.dirty block hdirty).2] at hprotected
    cases hprotected
  refine ⟨htracking.threads, ?_, ?_, ?_, ?_, ?_,
    fun other hother => hkept other (htracking.stashed other hother), htracking.installed_lt⟩
  · simpa [protect, moveToDirty, removeAll] using htracking.nodup_clean.filter _
  · simpa [protect, moveToDirty] using ⟨hclean, htracking.nodup_dirty⟩
  · intro other hother
    simp only [protect, moveToDirty, Function.update_self, mem_removeAll] at hother ⊢
    rw [Function.update_of_ne hother.2]
    exact htracking.clean other hother.1
  · intro other hother
    simp only [protect, moveToDirty, Function.update_self, List.mem_cons] at hother
    rcases hother with rfl | hother
    · exact ⟨hinstalled, Function.update_self _ _ _⟩
    · exact hkept other (htracking.dirty other hother)
  · intro other hother
    simp only [protect, moveToDirty, Function.update_self, mem_removeAll, List.mem_cons]
    by_cases hsame : other = block
    · exact .inr (.inl hsame)
    · exact (htracking.present other hother).imp (⟨·, hsame⟩) .inr

/-- The dirty blocks become clean and write-protected. -/
theorem Tracking.flush (htracking : manager.Tracking) {stored : List ℕ}
    (hperm : stored.Perm (manager.dirtyLru 0)) {base : VirtualMemoryManagerBase Hash}
    (hbase : manager.base.SameSession base) :
    Tracking { (stored.foldl markStored manager).clearDirty 0 with
      base := base
      stashSet := Function.update manager.stashSet 0 ∅ } := by
  rw [foldl_markStored htracking.threads]
  refine ⟨htracking.threads, ?_, ?_, ?_, ?_, ?_, ?_, ?_⟩
  · simp only [clearDirty, Function.update_self]
    refine List.nodup_append.mpr ⟨?_, htracking.nodup_clean, ?_⟩
    · exact List.nodup_reverse.mpr (hperm.nodup_iff.mpr htracking.nodup_dirty)
    · rintro block hstored other hclean rfl
      rw [List.mem_reverse, hperm.mem_iff] at hstored
      have hwritable := (htracking.dirty block hstored).2
      rw [(htracking.clean block hclean).2] at hwritable
      cases hwritable
  · simp [clearDirty]
  · intro block hblock
    simp only [clearDirty, Function.update_self, List.mem_append, List.mem_reverse] at hblock ⊢
    rcases hblock with hstored | hclean
    · exact ⟨(htracking.dirty block (hperm.mem_iff.mp hstored)).1, by simp [hstored]⟩
    · exact ⟨(htracking.clean block hclean).1, by simp [(htracking.clean block hclean).2]⟩
  · intro block hblock
    simp [clearDirty] at hblock
  · intro block hblock
    simp only [clearDirty, Function.update_self, List.mem_append, List.mem_reverse,
      hperm.mem_iff]
    exact .inl (htracking.present block hblock).symm
  · intro block hblock
    simp at hblock
  · intro block hblock
    exact (htracking.installed_lt block hblock).trans_eq hbase.numBlocks.symm

/-! ## Changes of a session -/

variable [DecidableEq Hash] {blocks : BlocksDirectory Hash} {files files' : FileSystem Hash}
variable {region stored : ℕ → List Byte}

/-- A change that makes no untracked block look tracked. -/
theorem Coherent.of_tracking (hcoherent : Coherent blocks manager files region stored)
    (hbase : manager.base.SameSession manager'.base) (htracking : manager'.Tracking)
    (htempBuffer : (manager'.tempBuffer 0).length ≤ blocks.blockSize)
    (hmemory : ∀ block, manager'.installed block = true → manager'.memory block = region block)
    (huntracked : ∀ block, manager.Untracked block → manager'.Untracked block)
    (hbacking : Backing blocks manager'.base (manager'.stashSet 0) (manager'.dirtyLru 0) files'
      stored) : Coherent blocks manager' files' region stored where
  blockSize := hbase.blockSize.trans hcoherent.blockSize
  blockSize_pos := hcoherent.blockSize_pos
  limit := hbase.blockSize.le.trans (hcoherent.limit.trans hbase.maxMemSize.ge)
  tracking := htracking
  tempBuffer := htempBuffer
  memory := hmemory
  agrees := fun block hblock => hcoherent.agrees block fun h => hblock (huntracked block h)
  length := hcoherent.length
  backing := hbacking

/-- The files may change as long as the storage side is backed. -/
theorem Coherent.of_backing (hcoherent : Coherent blocks manager files region stored)
    (hbacking : Backing blocks manager.base (manager.stashSet 0) (manager.dirtyLru 0) files'
      stored) : Coherent blocks manager files' region stored :=
  hcoherent.of_tracking (SameSession.refl manager.base) hcoherent.tracking hcoherent.tempBuffer
    hcoherent.memory (fun _ h => h) hbacking

theorem Coherent.evictClean (hcoherent : Coherent blocks manager files region stored)
    (hlast : (manager.cleanLru 0).getLast? = some toEvict) :
    Coherent blocks (evicted
      { manager with
        cleanLru := Function.update manager.cleanLru 0 (manager.cleanLru 0).dropLast }
      0 toEvict) files region stored :=
  hcoherent.of_tracking (SameSession.refl manager.base) (hcoherent.tracking.evictClean hlast)
    hcoherent.tempBuffer hcoherent.memory
    (fun _ h => ⟨h.installed, h.writable, h.unlisted⟩) hcoherent.backing

/-- The block that is stashed becomes untracked. -/
theorem Coherent.evictDirty (hcoherent : Coherent blocks manager files region stored)
    (hlast : (manager.dirtyLru 0).getLast? = some toEvict)
    {base : VirtualMemoryManagerBase Hash} (hbase : manager.base.SameSession base)
    (hbacking : Backing blocks base (insert toEvict (manager.stashSet 0))
      (manager.dirtyLru 0).dropLast files' stored) :
    Coherent blocks (evicted
      { manager with
        base := base
        dirtyLru := Function.update manager.dirtyLru 0 (manager.dirtyLru 0).dropLast
        stashSet := Function.update manager.stashSet 0
          (insert toEvict (manager.stashSet 0)) } 0 toEvict) files' region stored := by
  apply hcoherent.of_tracking hbase (hcoherent.tracking.evictDirty hlast hbase)
    hcoherent.tempBuffer hcoherent.memory
  · intro block hblock
    refine ⟨hblock.installed, hblock.writable, ?_⟩
    simp only [evicted, Function.update_self]
    exact fun h => hblock.unlisted ((List.dropLast_sublist _).subset h)
  · simpa [evicted] using hbacking

/-- A block without pages is loaded with the contents that the application sees. -/
theorem Coherent.load (hcoherent : Coherent blocks manager files region stored)
    (hblock : block < manager.numBlocks) (habsent : manager.installed block = false)
    (isWriteFault : Bool)
    (hunstashed : block ∉ manager.stashSet 0) :
    Coherent blocks (makePresent
      { manager with
        installed := Function.update manager.installed block true
        writeProtected := Function.update manager.writeProtected block (!isWriteFault)
        memory := Function.update manager.memory block (region block) }
      0 block isWriteFault) files region stored := by
  have hne : ∀ other, manager.Untracked other → other ≠ block := by
    rintro other hother rfl
    rw [hother.installed] at habsent
    cases habsent
  have hmemory : ∀ other, Function.update manager.installed block true other = true →
      Function.update manager.memory block (region block) other = region other := by
    intro other hother
    by_cases hsame : other = block
    · rw [hsame, Function.update_self]
    · rw [Function.update_of_ne hsame] at hother ⊢
      exact hcoherent.memory other hother
  have htracking := hcoherent.tracking.load hblock habsent (region block) isWriteFault
  cases isWriteFault with
  | true =>
      refine hcoherent.of_tracking (SameSession.refl manager.base) htracking
        hcoherent.tempBuffer hmemory ?_ ?_
      · intro other hother
        have hother' := hne other hother
        refine ⟨?_, ?_, ?_⟩
        · simpa [makePresent, hother'] using hother.installed
        · simpa [makePresent, hother'] using hother.writable
        · simpa [makePresent, hother'] using hother.unlisted
      · simpa [makePresent] using hcoherent.backing.dirtied hunstashed
  | false =>
      refine hcoherent.of_tracking (SameSession.refl manager.base) htracking
        hcoherent.tempBuffer hmemory ?_ hcoherent.backing
      intro other hother
      have hother' := hne other hother
      refine ⟨?_, ?_, hother.unlisted⟩
      · simpa [makePresent, hother'] using hother.installed
      · simpa [makePresent, hother'] using hother.writable

/-- A write-protected block becomes dirty. -/
theorem Coherent.markDirty (hcoherent : Coherent blocks manager files region stored)
    (hinstalled : manager.installed block = true)
    (hprotected : manager.writeProtected block = true)
    (hunstashed : block ∉ manager.stashSet 0) :
    Coherent blocks ((manager.moveToDirty 0 block).protect block false) files region
      stored := by
  have htracking := hcoherent.tracking.markDirty hinstalled hprotected
  refine hcoherent.of_tracking (SameSession.refl manager.base) htracking hcoherent.tempBuffer
    hcoherent.memory ?_ ?_
  · intro other hother
    have hne : other ≠ block := by
      rintro rfl
      rw [hother.writable] at hprotected
      cases hprotected
    refine ⟨hother.installed, ?_, ?_⟩
    · simpa [protect, moveToDirty, hne] using hother.writable
    · simpa [protect, moveToDirty, hne] using hother.unlisted
  · simpa [protect, moveToDirty] using hcoherent.backing.dirtied hunstashed

/-- A write that raises no event.  It reaches the storage side with the next commit
exactly when the block is on the dirty list. -/
theorem Coherent.write (hcoherent : Coherent blocks manager files region stored)
    (hinstalled : manager.installed block = true)
    (hwritable : manager.writeProtected block = false) {content : List Byte}
    (hlength : content.length = blocks.blockSize) :
    Coherent blocks
      { manager with memory := Function.update manager.memory block content } files
      (Function.update region block content)
      (if block ∈ manager.dirtyLru 0 then Function.update stored block content
        else stored) := by
  have htracking : Tracking
      { manager with memory := Function.update manager.memory block content } :=
    ⟨hcoherent.tracking.threads, hcoherent.tracking.nodup_clean, hcoherent.tracking.nodup_dirty,
      hcoherent.tracking.clean, hcoherent.tracking.dirty, hcoherent.tracking.present,
      hcoherent.tracking.stashed, hcoherent.tracking.installed_lt⟩
  have hmemory : ∀ other, manager.installed other = true →
      Function.update manager.memory block content other =
        Function.update region block content other := by
    intro other hother
    by_cases hsame : other = block
    · rw [hsame, Function.update_self, Function.update_self]
    · rw [Function.update_of_ne hsame, Function.update_of_ne hsame]
      exact hcoherent.memory other hother
  have hlengths : ∀ other,
      (Function.update region block content other).length = blocks.blockSize := by
    intro other
    by_cases hsame : other = block
    · rw [hsame, Function.update_self, hlength]
    · rw [Function.update_of_ne hsame]
      exact hcoherent.length other
  have hother : ∀ other, other ≠ block → ¬ manager.Untracked other →
      stored other = Function.update region block content other := by
    intro other hne htracked
    rw [Function.update_of_ne hne]
    exact hcoherent.agrees other htracked
  by_cases hdirty : block ∈ manager.dirtyLru 0
  · rw [if_pos hdirty]
    refine ⟨hcoherent.blockSize, hcoherent.blockSize_pos, hcoherent.limit, htracking,
      hcoherent.tempBuffer, hmemory, ?_, hlengths, hcoherent.backing.write hdirty hlength⟩
    intro other htracked
    by_cases hsame : other = block
    · rw [hsame, Function.update_self, Function.update_self]
    · rw [Function.update_of_ne hsame]
      exact hother other hsame fun h => htracked ⟨h.installed, h.writable, h.unlisted⟩
  · rw [if_neg hdirty]
    refine ⟨hcoherent.blockSize, hcoherent.blockSize_pos, hcoherent.limit, htracking,
      hcoherent.tempBuffer, hmemory, ?_, hlengths, hcoherent.backing⟩
    intro other htracked
    have hne : other ≠ block := by
      rintro rfl
      exact htracked ⟨hinstalled, hwritable, hdirty⟩
    exact hother other hne fun h => htracked ⟨h.installed, h.writable, h.unlisted⟩

end UffdVirtualMemoryManager

end Privateer
