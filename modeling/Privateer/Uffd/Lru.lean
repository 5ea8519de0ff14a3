import Privateer.Logic.Runs
import Privateer.Uffd.Manager

/-!
# The lists of the UFFD manager

With one handling thread the two lists should share out the present blocks.  Every
operation keeps this but one: an event for a write-protected page moves its block
to the dirty list without looking whether it is still on the clean one.
-/

namespace Privateer

namespace UffdVirtualMemoryManager

variable {Hash : Type}

/-- The two lists have no duplicates, are disjoint and cover the present blocks. -/
def Partitioned (manager : UffdVirtualMemoryManager Hash) : Prop :=
  Shared (manager.cleanLru 0) (manager.dirtyLru 0) (manager.presentBlocks 0)

/-- The clean list that `msync` picks for a block that it stored. -/
def storedList (manager : UffdVirtualMemoryManager Hash) (block : ℕ) : ℕ :=
  manager.blockAddress block % manager.numHandlingThreads

/-- Managers with the same lists. -/
structure SameLists (manager manager' : UffdVirtualMemoryManager Hash) : Prop where
  numHandlingThreads : manager'.numHandlingThreads = manager.numHandlingThreads
  cleanLru : manager'.cleanLru = manager.cleanLru
  dirtyLru : manager'.dirtyLru = manager.dirtyLru
  presentBlocks : manager'.presentBlocks = manager.presentBlocks

variable {manager manager' : UffdVirtualMemoryManager Hash} {block : ℕ}

theorem SameLists.partitioned_iff (hsame : manager.SameLists manager') :
    manager'.Partitioned ↔ manager.Partitioned := by
  rw [Partitioned, Partitioned, hsame.cleanLru, hsame.dirtyLru, hsame.presentBlocks]

theorem initial_partitioned (base : VirtualMemoryManagerBase Hash) (start threads : ℕ) :
    (initial base start threads).Partitioned :=
  Shared.empty

/-! ## What the operations leave -/

/-- An eviction that returns has found room, or has dropped the oldest clean block, or
has stashed the oldest dirty one. -/
theorem evictIfNeeded_returns {subRegion : ℕ}
    (hreturns : (evictIfNeeded manager subRegion).Returns manager') :
    ((manager.presentBlocks subRegion).card * manager.blockSize < manager.maxMemSize ∧
        manager' = manager) ∨
      (manager.maxMemSize ≤ (manager.presentBlocks subRegion).card * manager.blockSize ∧
        ((∃ toEvict, (manager.cleanLru subRegion).getLast? = some toEvict ∧
            manager' = evicted
              { manager with
                cleanLru := Function.update manager.cleanLru subRegion
                  (manager.cleanLru subRegion).dropLast } subRegion toEvict) ∨
          (∃ toEvict storage, (manager.cleanLru subRegion).getLast? = none ∧
            (manager.dirtyLru subRegion).getLast? = some toEvict ∧
            manager' = evicted
              { manager with
                base := { manager.base with blockStorage := storage }
                dirtyLru := Function.update manager.dirtyLru subRegion
                  (manager.dirtyLru subRegion).dropLast
                stashSet := Function.update manager.stashSet subRegion
                  (insert toEvict (manager.stashSet subRegion)) } subRegion toEvict))) := by
  unfold evictIfNeeded at hreturns
  split_ifs at hreturns with hfull
  · refine .inr ⟨hfull, ?_⟩
    cases hclean : (manager.cleanLru subRegion).getLast? with
    | some toEvict =>
        rw [hclean] at hreturns
        cases hreturns
        exact .inl ⟨toEvict, rfl, rfl⟩
    | none =>
        rw [hclean] at hreturns
        cases hdirty : (manager.dirtyLru subRegion).getLast? with
        | none =>
            rw [hdirty] at hreturns
            exact hreturns.elim
        | some toEvict =>
            simp only [hdirty] at hreturns
            obtain ⟨stashed, hstash, hevicted⟩ := Program.returns_bind.mp hreturns
            cases hevicted
            obtain ⟨⟨status, storage⟩, -, hstatus⟩ := Program.returns_bind.mp hstash
            cases status with
            | false => exact hstatus.elim
            | true =>
                cases hstatus
                exact .inr ⟨toEvict, storage, rfl, rfl, rfl⟩
  · cases hreturns
    exact .inl ⟨not_le.mp hfull, rfl⟩

/-- An installed block had no pages. -/
theorem install_returns {content : List Byte} {isWriteFault : Bool}
    (hreturns : (install manager block content isWriteFault).Returns manager') :
    manager.installed block = false ∧ manager' =
      { manager with
        installed := Function.update manager.installed block true
        writeProtected := Function.update manager.writeProtected block (!isWriteFault)
        memory := Function.update manager.memory block content } := by
  unfold install at hreturns
  split_ifs at hreturns with hinstalled
  · exact hreturns.elim
  · cases hreturns
    exact ⟨Bool.eq_false_of_not_eq_true hinstalled, rfl⟩

/-- An event for a write-protected page makes its block dirty and writable. -/
theorem handleWpFault_returns {subRegion : ℕ}
    (hreturns : (handleWpFault manager subRegion block).Returns manager') :
    manager.readOnly = false ∧ ∃ storage, manager' =
      protect
        { manager.moveToDirty subRegion block with
          base := { manager.base with blockStorage := storage }
          stashSet := Function.update manager.stashSet subRegion
            ((manager.stashSet subRegion).erase block) } block false := by
  unfold handleWpFault at hreturns
  split_ifs at hreturns with hreadOnly hstashed
  · exact hreturns.elim
  · obtain ⟨unstashed, hunstash, hprotect⟩ := Program.returns_bind.mp hreturns
    cases hprotect
    obtain ⟨⟨status, storage⟩, -, hstatus⟩ := Program.returns_bind.mp hunstash
    cases status with
    | false => exact hstatus.elim
    | true =>
        cases hstatus
        exact ⟨Bool.eq_false_of_not_eq_true hreadOnly, storage, rfl⟩
  · cases hreturns
    refine ⟨Bool.eq_false_of_not_eq_true hreadOnly, manager.blockStorage, ?_⟩
    rw [Finset.erase_eq_of_notMem hstashed, Function.update_eq_self]
    rfl

section
variable [DecidableEq Hash] {build : Build Hash}

/-- Reading a block changes no more than its storage and the temporary buffers. -/
theorem loadContent_returns {subRegion : ℕ} {loaded : List Byte × UffdVirtualMemoryManager Hash}
    (hreturns : (loadContent build manager subRegion block).Returns loaded) :
    ∃ storage tempBuffer, loaded.2 =
      { manager with
        base := { manager.base with blockStorage := storage }
        tempBuffer := tempBuffer } := by
  unfold loadContent at hreturns
  cases hpath : manager.blockStorage.getBlockStashPath block with
  | some file =>
      rw [hpath] at hreturns
      obtain ⟨content, -, hloaded⟩ := Program.returns_bind.mp hreturns
      cases hloaded
      exact ⟨manager.blockStorage, _, rfl⟩
  | none =>
      simp only [hpath] at hreturns
      split_ifs at hreturns
      · cases hreturns
        exact ⟨manager.blockStorage, manager.tempBuffer, rfl⟩
      · obtain ⟨path, -, hrest⟩ := Program.returns_bind.mp hreturns
        obtain ⟨content, -, hloaded⟩ := Program.returns_bind.mp hrest
        cases hloaded
        exact ⟨path.2, _, rfl⟩

end

/-! ## Missing pages -/

/-- Eviction keeps the partition and makes no block present. -/
theorem Partitioned.evictIfNeeded (hpartitioned : manager.Partitioned)
    (hreturns : (evictIfNeeded manager 0).Returns manager') :
    manager'.Partitioned ∧ manager'.presentBlocks 0 ⊆ manager.presentBlocks 0 ∧
      manager'.numHandlingThreads = manager.numHandlingThreads := by
  rcases evictIfNeeded_returns hreturns with ⟨-, rfl⟩ | ⟨-, hevicted⟩
  · exact ⟨hpartitioned, subset_rfl, rfl⟩
  · rcases hevicted with ⟨toEvict, hclean, rfl⟩ | ⟨toEvict, storage, -, hdirty, rfl⟩
    · refine ⟨?_, ?_, rfl⟩
      · simpa [Partitioned, evicted] using hpartitioned.pop_clean hclean
      · simpa [evicted] using Finset.erase_subset _ _
    · refine ⟨?_, ?_, rfl⟩
      · simpa [Partitioned, evicted] using hpartitioned.pop_dirty hdirty
      · simpa [evicted] using Finset.erase_subset _ _

/-- A block that was not present joins one of the lists. -/
theorem Partitioned.makePresent (hpartitioned : manager.Partitioned)
    (habsent : block ∉ manager.presentBlocks 0) (isWriteFault : Bool) :
    (manager.makePresent 0 block isWriteFault).Partitioned := by
  cases isWriteFault with
  | true => simpa [Partitioned, UffdVirtualMemoryManager.makePresent] using
      hpartitioned.push_dirty habsent
  | false => simpa [Partitioned, UffdVirtualMemoryManager.makePresent] using
      hpartitioned.push_clean habsent

variable [DecidableEq Hash] {build : Build Hash}

/-- A missing page of a block that is not present. -/
theorem Partitioned.handleMissing (hpartitioned : manager.Partitioned)
    (habsent : block ∉ manager.presentBlocks 0) {isWriteFault : Bool}
    (hreturns : (handleMissing build manager 0 block isWriteFault).Returns manager') :
    manager'.Partitioned ∧ manager'.numHandlingThreads = manager.numHandlingThreads := by
  obtain ⟨room, hroom, hrest⟩ := Program.returns_bind.mp hreturns
  obtain ⟨⟨content, loaded⟩, hloaded, hrest⟩ := Program.returns_bind.mp hrest
  obtain ⟨filled, hfilled, hpresent⟩ := Program.returns_bind.mp hrest
  obtain ⟨hkept, hsubset, hthreads⟩ := hpartitioned.evictIfNeeded hroom
  obtain ⟨storage, tempBuffer, hread⟩ := loadContent_returns hloaded
  obtain ⟨-, hinstall⟩ := install_returns hfilled
  have hsame : room.SameLists filled := by
    rw [hinstall, hread]
    exact ⟨rfl, rfl, rfl, rfl⟩
  have habsent' : block ∉ filled.presentBlocks 0 := by
    rw [hsame.presentBlocks]
    exact fun h => habsent (hsubset h)
  have hfinal := hsame.partitioned_iff.mpr hkept
  cases hpresent
  refine ⟨hfinal.makePresent habsent' isWriteFault, ?_⟩
  have hcount : filled.numHandlingThreads = manager.numHandlingThreads :=
    hsame.numHandlingThreads.trans hthreads
  cases isWriteFault with
  | true => exact hcount
  | false => exact hcount

/-! ## Write-protected pages -/

omit [DecidableEq Hash] in
/-- The move keeps the partition exactly when the block was clean. -/
theorem Partitioned.moveToDirty_iff (hpartitioned : manager.Partitioned) :
    (manager.moveToDirty 0 block).Partitioned ↔ block ∈ manager.cleanLru 0 := by
  have hmoved : (manager.moveToDirty 0 block).Partitioned ↔
      Shared (removeAll block (manager.cleanLru 0)) (block :: manager.dirtyLru 0)
        (manager.presentBlocks 0) := by
    simp [Partitioned, moveToDirty]
  rw [hmoved]
  constructor
  · intro hshared
    by_contra hclean
    have hpresent : block ∈ manager.presentBlocks 0 :=
      (hshared.mem_iff block).mpr (.inr List.mem_cons_self)
    have hdirty : block ∈ manager.dirtyLru 0 :=
      ((hpartitioned.mem_iff block).mp hpresent).resolve_left hclean
    exact (List.nodup_cons.mp hshared.nodup_dirty).1 hdirty
  · exact hpartitioned.move

/-! ## Commits -/

omit [DecidableEq Hash] in
/-- The blocks that were stored are write-protected and join the clean lists that their
addresses give, the last one in front. -/
theorem foldl_markStored_eq (manager : UffdVirtualMemoryManager Hash) (stored : List ℕ) :
    stored.foldl markStored manager =
      { manager with
        writeProtected := fun block => decide (block ∈ stored) || manager.writeProtected block
        cleanLru := fun list =>
          (stored.filter fun block => manager.storedList block = list).reverse ++
            manager.cleanLru list } := by
  induction stored generalizing manager with
  | nil => simp
  | cons block rest ih =>
      have hlists : ∀ other, (manager.markStored block).storedList other =
          manager.storedList other := fun _ => rfl
      have hprotected : (fun other => decide (other ∈ rest) ||
          (manager.markStored block).writeProtected other) =
            fun other => decide (other ∈ block :: rest) || manager.writeProtected other := by
        funext other
        by_cases hsame : other = block
        · simp [markStored, pushClean, protect, hsame]
        · simp [markStored, pushClean, protect, hsame]
      have hclean : (fun list => (rest.filter fun other =>
          (manager.markStored block).storedList other = list).reverse ++
            (manager.markStored block).cleanLru list) = fun list =>
              ((block :: rest).filter fun other => manager.storedList other = list).reverse ++
                manager.cleanLru list := by
        funext list
        simp only [hlists]
        by_cases hsame : manager.storedList block = list
        · have hpushed : (manager.markStored block).cleanLru list =
              block :: manager.cleanLru list := by
            rw [← hsame]
            exact Function.update_self _ _ _
          rw [hpushed, List.filter_cons_of_pos (by simpa using hsame), List.reverse_cons,
            List.append_assoc]
          rfl
        · have hother : (manager.markStored block).cleanLru list = manager.cleanLru list :=
            Function.update_of_ne (Ne.symm hsame) _ _
          rw [hother, List.filter_cons_of_neg (by simpa using hsame)]
      rw [List.foldl_cons, ih, hprotected, hclean]
      rfl

omit [DecidableEq Hash] in
/-- With one handling thread the stored blocks all join the one clean list. -/
theorem foldl_markStored (hthreads : manager.numHandlingThreads = 1) (stored : List ℕ) :
    stored.foldl markStored manager =
      { manager with
        writeProtected := fun block => decide (block ∈ stored) || manager.writeProtected block
        cleanLru := Function.update manager.cleanLru 0
          (stored.reverse ++ manager.cleanLru 0) } := by
  have hlists : ∀ block, manager.storedList block = 0 := by
    intro block
    rw [storedList, hthreads, Nat.mod_one]
  have hclean : (fun list => (stored.filter fun block => manager.storedList block = list).reverse ++
      manager.cleanLru list) =
        Function.update manager.cleanLru 0 (stored.reverse ++ manager.cleanLru 0) := by
    funext list
    by_cases hzero : list = 0
    · simp [hzero, hlists]
    · simp [hzero, hlists, Ne.symm hzero]
  rw [foldl_markStored_eq, hclean]

omit [DecidableEq Hash] in
/-- A commit makes every dirty block clean. -/
theorem Partitioned.msync (hpartitioned : manager.Partitioned)
    (hthreads : manager.numHandlingThreads = 1) {schedule : ℕ → MsyncSchedule}
    (hreturns : (msync build manager schedule).Returns manager') :
    manager'.Partitioned ∧ manager'.numHandlingThreads = 1 := by
  unfold UffdVirtualMemoryManager.msync at hreturns
  rw [hthreads] at hreturns
  obtain ⟨committed, hcommitted, hlast⟩ := Program.returns_bind.mp hreturns
  cases hlast
  obtain ⟨flushed, hflushed, hwritten⟩ := Program.returns_bind.mp hcommitted
  obtain ⟨⟨⟩, -, hsame⟩ := Program.returns_bind.mp hwritten
  cases hsame
  obtain ⟨stored, hstored, hmarked⟩ := Program.returns_bind.mp hflushed
  cases hmarked
  have hperm := VirtualMemoryManagerBase.returns_commitBlocks hstored
  rw [foldl_markStored hthreads]
  have hflush := hpartitioned.flush ((List.reverse_perm _).trans hperm)
  exact ⟨by simpa [Partitioned, clearDirty] using hflush, hthreads⟩

/-! ## Runs -/

/-- What the handler thread is given: an event, or the lock of a commit. -/
inductive LruStep where
  | fault (event : FaultEvent)
  | msync (schedule : ℕ → MsyncSchedule)

/-- A whole iteration of `handler`, or a whole commit. -/
def LruStep.run (build : Build Hash) (manager : UffdVirtualMemoryManager Hash)
    (step : LruStep) (manager' : UffdVirtualMemoryManager Hash) : Prop :=
  match step with
  | .fault event =>
      (handleEvent build manager (manager.subRegion (manager.blockIndex event.address))
        event).Returns manager'
  | .msync schedule =>
      (UffdVirtualMemoryManager.msync build manager schedule).Returns manager'

/-- An event for a write-protected page finds its block clean. -/
def LruStep.FindsClean (manager : UffdVirtualMemoryManager Hash) : LruStep → Prop
  | .fault event => event.isWpFault = true →
      manager.blockIndex event.address ∈ manager.cleanLru 0
  | .msync _ => True

/-- One step keeps the partition exactly when it finds its block clean. -/
theorem LruStep.partitioned_iff (hthreads : manager.numHandlingThreads = 1)
    (hpartitioned : manager.Partitioned) {step : LruStep}
    (hstep : step.run build manager manager') :
    manager'.numHandlingThreads = 1 ∧ (manager'.Partitioned ↔ step.FindsClean manager) := by
  cases step with
  | msync schedule =>
      obtain ⟨hkept, hone⟩ := hpartitioned.msync hthreads hstep
      exact ⟨hone, iff_of_true hkept trivial⟩
  | fault event =>
      have hregion : manager.subRegion (manager.blockIndex event.address) = 0 := by
        rw [subRegion, hthreads, Nat.mod_one]
      rw [LruStep.run, hregion, handleEvent, skips] at hstep
      cases hwp : event.isWpFault with
      | true =>
          simp only [hwp, Bool.not_true, Bool.and_false, Bool.false_eq_true, if_false,
            if_true] at hstep
          obtain ⟨-, storage, hmanager'⟩ := handleWpFault_returns hstep
          have hmoved :
              (manager.moveToDirty 0 (manager.blockIndex event.address)).SameLists manager' := by
            rw [hmanager']
            exact ⟨rfl, rfl, rfl, rfl⟩
          refine ⟨hmoved.numHandlingThreads.trans hthreads, ?_⟩
          rw [hmoved.partitioned_iff, hpartitioned.moveToDirty_iff]
          exact ⟨fun hclean _ => hclean, fun hclean => hclean hwp⟩
      | false =>
          have hcondition : (LruStep.fault event).FindsClean manager := by
            intro h
            rw [hwp] at h
            cases h
          simp only [hwp, Bool.not_false, Bool.and_true, decide_eq_true_eq, Bool.false_eq_true,
            if_false] at hstep
          split_ifs at hstep with hpresent
          · cases hstep
            exact ⟨hthreads, iff_of_true hpartitioned hcondition⟩
          · obtain ⟨hkept, hone⟩ := hpartitioned.handleMissing hpresent hstep
            exact ⟨hone.trans hthreads, iff_of_true hkept hcondition⟩

/-- In every run from a constructor, the lists share out the present blocks in all
states exactly when every event for a write-protected page finds its block clean. -/
theorem lists_partition_iff {base : VirtualMemoryManagerBase Hash} {regionStartAddress : ℕ}
    {trace : List (LruStep × UffdVirtualMemoryManager Hash)}
    (hrun : Run (fun manager step manager' => LruStep.run build manager step manager')
      (initial base regionStartAddress 1) trace) :
    (∀ manager ∈ Run.states (initial base regionStartAddress 1) trace,
        manager.Partitioned) ↔
      Run.Each LruStep.FindsClean (initial base regionStartAddress 1) trace := by
  apply hrun.forall_states_iff
  · intro manager step manager' hthreads hpartitioned hstep
    exact LruStep.partitioned_iff hthreads hpartitioned hstep
  · rfl
  · exact initial_partitioned base regionStartAddress 1

/-- A region with one block of two pages. -/
def oneBlock : VirtualMemoryManagerBase (Option (List Byte)) :=
  .initial ['/', 'v'] 2 2 1 false (BlockStorage.initial ['/', 'b'] ['/', 's'] 2) fun _ => none

/-- Files with the blocks directory of the region and its table. -/
def oneBlockFiles : FileSystem (Option (List Byte)) :=
  (FileSystem.empty.setDirectory (.path ['/', 'b'])).setMetadata ['/', 'v'] (some [])

/-- A block is read, written and committed, and written once more. -/
theorem lists_partition_iff_oneBlock :
    ∃ trace : List (LruStep × UffdVirtualMemoryManager (Option (List Byte))),
      trace.map Prod.fst = [.fault ⟨0, false, false⟩, .fault ⟨0, true, false⟩,
        .msync fun _ => ⟨[], []⟩, .fault ⟨1, true, false⟩] ∧
      ∀ manager ∈ Run.states (initial oneBlock 0 1) trace, manager.Partitioned := by
  have hrun : Run (fun manager step manager' =>
      LruStep.run Build.transparent manager step manager') (initial oneBlock 0 1)
      [(.fault ⟨0, false, false⟩, _), (.fault ⟨0, true, false⟩, _),
        (.msync fun _ => ⟨[], []⟩, _), (.fault ⟨1, true, false⟩, _)] :=
    .cons rfl (.cons rfl (.cons
      (Program.returns_of_run (rfl : Program.run FileSystem.answer _ oneBlockFiles = _))
      (.cons rfl .nil)))
  refine ⟨_, rfl, (lists_partition_iff hrun).mpr ⟨?_, ?_, trivial, ?_, trivial⟩⟩
  · intro hwp
    cases hwp
  · exact fun _ => List.mem_cons_self
  · exact fun _ => List.mem_cons_self

/-- Two threads write to two pages of a block that was only read.  Their events are
handled one after the other, and the second one puts the block on the dirty list a
second time. -/
theorem second_wp_event_breaks_partition :
    ∃ trace : List (LruStep × UffdVirtualMemoryManager (Option (List Byte))),
      Run (fun manager step manager' => LruStep.run .transparent manager step manager')
        (initial oneBlock 0 1) trace ∧
      trace.map Prod.fst = [.fault ⟨0, false, false⟩, .fault ⟨0, true, false⟩,
        .fault ⟨1, true, false⟩] ∧
      ∃ manager ∈ Run.states (initial oneBlock 0 1) trace,
        manager.dirtyLru 0 = [0, 0] ∧ ¬ manager.Partitioned := by
  refine ⟨[(.fault ⟨0, false, false⟩, _), (.fault ⟨0, true, false⟩, _),
    (.fault ⟨1, true, false⟩, _)], .cons rfl (.cons rfl (.cons rfl .nil)), rfl, _,
    .tail _ (.tail _ (.tail _ (.head _))), rfl, ?_⟩
  intro hpartitioned
  exact absurd hpartitioned.nodup_dirty (by decide)

end UffdVirtualMemoryManager

end Privateer
