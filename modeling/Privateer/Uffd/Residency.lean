import Privateer.Uffd.Lru
import Privateer.VirtualMemory.Backing

/-!
# The resident blocks of the UFFD manager

Each handler thread compares the blocks of its own sub-region with the limit of the
whole manager, and evicts from its own lists.  A load keeps the total within the limit
exactly when there is room in the whole manager, or when the block that the sub-region
evicts is one of its present blocks.
-/

namespace Privateer

namespace UffdVirtualMemoryManager

variable {Hash : Type}

/-- The number of present blocks in all sub-regions. -/
def residentBlocks (manager : UffdVirtualMemoryManager Hash) : ℕ :=
  ∑ subRegion ∈ Finset.range manager.numHandlingThreads,
    (manager.presentBlocks subRegion).card

/-- The limit of the whole manager. -/
def WithinLimit (manager : UffdVirtualMemoryManager Hash) : Prop :=
  manager.residentBlocks * manager.blockSize ≤ manager.maxMemSize

/-- The block that a load evicts from a full sub-region. -/
def victim (manager : UffdVirtualMemoryManager Hash) (subRegion : ℕ) : Option ℕ :=
  if (manager.presentBlocks subRegion).card * manager.blockSize ≥ manager.maxMemSize then
    (manager.cleanLru subRegion).getLast?.or (manager.dirtyLru subRegion).getLast?
  else none

/-- What `manager` leaves when its sub-regions are left with the given blocks. -/
structure Leaves (manager : UffdVirtualMemoryManager Hash) (presentBlocks : ℕ → Finset ℕ)
    (manager' : UffdVirtualMemoryManager Hash) : Prop where
  numHandlingThreads : manager'.numHandlingThreads = manager.numHandlingThreads
  blockSize : manager'.blockSize = manager.blockSize
  maxMemSize : manager'.maxMemSize = manager.maxMemSize
  presentBlocks : manager'.presentBlocks = presentBlocks

variable {manager manager' : UffdVirtualMemoryManager Hash} {subRegion block : ℕ}

theorem Leaves.refl (manager : UffdVirtualMemoryManager Hash) :
    manager.Leaves manager.presentBlocks manager :=
  ⟨rfl, rfl, rfl, rfl⟩

theorem Leaves.trans {middle : UffdVirtualMemoryManager Hash}
    {presentBlocks presentBlocks' : ℕ → Finset ℕ} (hfirst : manager.Leaves presentBlocks middle)
    (hsecond : middle.Leaves presentBlocks' manager') : manager.Leaves presentBlocks' manager' :=
  ⟨hsecond.numHandlingThreads.trans hfirst.numHandlingThreads,
    hsecond.blockSize.trans hfirst.blockSize, hsecond.maxMemSize.trans hfirst.maxMemSize,
    hsecond.presentBlocks⟩

/-! ## Single operations -/

/-- The blocks that are left once the victim has gone. -/
def blocksLeft (manager : UffdVirtualMemoryManager Hash) (subRegion : ℕ) : Finset ℕ :=
  match manager.victim subRegion with
  | none => manager.presentBlocks subRegion
  | some toEvict => (manager.presentBlocks subRegion).erase toEvict

theorem leaves_evictIfNeeded (hreturns : (evictIfNeeded manager subRegion).Returns manager') :
    manager.Leaves
      (Function.update manager.presentBlocks subRegion (manager.blocksLeft subRegion))
      manager' := by
  rcases evictIfNeeded_returns hreturns with ⟨hroom, rfl⟩ | ⟨hfull, hevicted⟩
  · have hvictim : manager'.victim subRegion = none := if_neg (not_le.mpr hroom)
    rw [blocksLeft, hvictim, Function.update_eq_self]
    exact Leaves.refl manager'
  · rcases hevicted with ⟨toEvict, hclean, rfl⟩ | ⟨toEvict, storage, hclean, hdirty, rfl⟩
    · have hvictim : manager.victim subRegion = some toEvict := by
        rw [victim, if_pos hfull, hclean, Option.some_or]
      rw [blocksLeft, hvictim]
      exact ⟨rfl, rfl, rfl, rfl⟩
    · have hvictim : manager.victim subRegion = some toEvict := by
        rw [victim, if_pos hfull, hclean, hdirty, Option.none_or]
      rw [blocksLeft, hvictim]
      exact ⟨rfl, rfl, rfl, rfl⟩

theorem leaves_handleWpFault
    (hreturns : (handleWpFault manager subRegion block).Returns manager') :
    manager.Leaves manager.presentBlocks manager' := by
  obtain ⟨-, storage, hmanager'⟩ := handleWpFault_returns hreturns
  rw [hmanager']
  exact ⟨rfl, rfl, rfl, rfl⟩

theorem leaves_makePresent (isWriteFault : Bool) :
    manager.Leaves (Function.update manager.presentBlocks subRegion
      (insert block (manager.presentBlocks subRegion)))
      (manager.makePresent subRegion block isWriteFault) := by
  cases isWriteFault with
  | true => exact ⟨rfl, rfl, rfl, rfl⟩
  | false => exact ⟨rfl, rfl, rfl, rfl⟩

theorem leaves_foldl_markStored (stored : List ℕ) :
    manager.Leaves manager.presentBlocks (stored.foldl markStored manager) := by
  induction stored generalizing manager with
  | nil => exact Leaves.refl manager
  | cons block rest ih =>
      have hfirst : manager.Leaves manager.presentBlocks (manager.markStored block) :=
        ⟨rfl, rfl, rfl, rfl⟩
      exact hfirst.trans ih

variable [DecidableEq Hash] {build : Build Hash}

theorem leaves_handleMissing {isWriteFault : Bool}
    (hreturns : (handleMissing build manager subRegion block isWriteFault).Returns manager') :
    manager.Leaves (Function.update manager.presentBlocks subRegion
      (insert block (manager.blocksLeft subRegion))) manager' := by
  obtain ⟨room, hroom, hrest⟩ := Program.returns_bind.mp hreturns
  obtain ⟨⟨content, loaded⟩, hloaded, hrest⟩ := Program.returns_bind.mp hrest
  obtain ⟨filled, hfilled, hpresent⟩ := Program.returns_bind.mp hrest
  cases hpresent
  have hevicted := leaves_evictIfNeeded hroom
  obtain ⟨storage, tempBuffer, hread⟩ := loadContent_returns hloaded
  obtain ⟨-, hinstall⟩ := install_returns hfilled
  have hfilled' : room.Leaves room.presentBlocks filled := by
    rw [hinstall, hread]
    exact ⟨rfl, rfl, rfl, rfl⟩
  have hpresent : filled.presentBlocks =
      Function.update manager.presentBlocks subRegion (manager.blocksLeft subRegion) :=
    hfilled'.presentBlocks.trans hevicted.presentBlocks
  have hjoined : filled.Leaves (Function.update filled.presentBlocks subRegion
      (insert block (filled.presentBlocks subRegion)))
      (filled.makePresent subRegion block isWriteFault) := leaves_makePresent isWriteFault
  rw [hpresent, Function.update_self, Function.update_idem] at hjoined
  exact (hevicted.trans hfilled').trans hjoined

omit [DecidableEq Hash] in
theorem leaves_msyncSubRegion {schedule : MsyncSchedule}
    (hreturns : (msyncSubRegion build manager subRegion schedule).Returns manager') :
    manager.Leaves manager.presentBlocks manager' := by
  obtain ⟨committed, hcommitted, hrest⟩ := Program.returns_bind.mp hreturns
  obtain ⟨⟨⟩, -, hlast⟩ := Program.returns_bind.mp hrest
  cases hlast
  obtain ⟨stored, hstored, hmarked⟩ := Program.returns_bind.mp hcommitted
  cases hmarked
  have hsession := VirtualMemoryManagerBase.SameSession.commitBlocks hstored
  have hfold : manager.Leaves manager.presentBlocks
      ((stored.1.map Prod.fst).foldl markStored manager) := leaves_foldl_markStored _
  exact ⟨hfold.numHandlingThreads, hsession.blockSize, hsession.maxMemSize,
    hfold.presentBlocks⟩

omit [DecidableEq Hash] in
/-- A commit loads and evicts nothing. -/
theorem leaves_msyncSubRegions {schedule : ℕ → MsyncSchedule} {subRegions : List ℕ}
    (hreturns : (msyncSubRegions build schedule subRegions manager).Returns manager') :
    manager.Leaves manager.presentBlocks manager' := by
  induction subRegions generalizing manager with
  | nil =>
      cases hreturns
      exact Leaves.refl manager'
  | cons first rest ih =>
      obtain ⟨committed, hcommitted, hrest⟩ := Program.returns_bind.mp hreturns
      have hfirst := leaves_msyncSubRegion hcommitted
      have hlast := ih hrest
      rw [hfirst.presentBlocks] at hlast
      exact hfirst.trans hlast

/-! ## The total -/

omit [DecidableEq Hash] in
/-- Only the sub-region of a fault changes its share of the total. -/
theorem Leaves.residentBlocks_add {blocks : Finset ℕ}
    (hleaves : manager.Leaves (Function.update manager.presentBlocks subRegion blocks) manager')
    (hregion : subRegion < manager.numHandlingThreads) :
    manager'.residentBlocks + (manager.presentBlocks subRegion).card =
      manager.residentBlocks + blocks.card := by
  have hmember : subRegion ∈ Finset.range manager.numHandlingThreads :=
    Finset.mem_range.mpr hregion
  have hrest : ∑ other ∈ (Finset.range manager.numHandlingThreads).erase subRegion,
      (manager'.presentBlocks other).card =
        ∑ other ∈ (Finset.range manager.numHandlingThreads).erase subRegion,
          (manager.presentBlocks other).card := by
    apply Finset.sum_congr rfl
    intro other hother
    rw [hleaves.presentBlocks, Function.update_of_ne (Finset.ne_of_mem_erase hother)]
  have hshare : (manager'.presentBlocks subRegion).card = blocks.card := by
    rw [hleaves.presentBlocks, Function.update_self]
  calc manager'.residentBlocks + (manager.presentBlocks subRegion).card
      = (blocks.card + ∑ other ∈ (Finset.range manager.numHandlingThreads).erase subRegion,
          (manager.presentBlocks other).card) + (manager.presentBlocks subRegion).card := by
        rw [residentBlocks, hleaves.numHandlingThreads, ← Finset.add_sum_erase _ _ hmember,
          hshare, hrest]
    _ = ((manager.presentBlocks subRegion).card +
          ∑ other ∈ (Finset.range manager.numHandlingThreads).erase subRegion,
            (manager.presentBlocks other).card) + blocks.card := by ring
    _ = manager.residentBlocks + blocks.card := by
        rw [residentBlocks, ← Finset.add_sum_erase _ _ hmember]

omit [DecidableEq Hash] in
theorem Leaves.residentBlocks (hleaves : manager.Leaves manager.presentBlocks manager') :
    manager'.residentBlocks = manager.residentBlocks := by
  rw [UffdVirtualMemoryManager.residentBlocks, hleaves.numHandlingThreads,
    hleaves.presentBlocks]
  rfl

omit [DecidableEq Hash] in
theorem Leaves.withinLimit_iff {presentBlocks : ℕ → Finset ℕ}
    (hleaves : manager.Leaves presentBlocks manager') :
    manager'.WithinLimit ↔ manager'.residentBlocks * manager.blockSize ≤ manager.maxMemSize := by
  rw [WithinLimit, hleaves.blockSize, hleaves.maxMemSize]

/-- The sub-region is full and what it evicts is one of its present blocks. -/
def MakesRoom (manager : UffdVirtualMemoryManager Hash) (subRegion : ℕ) : Prop :=
  ∃ toEvict ∈ manager.presentBlocks subRegion, manager.victim subRegion = some toEvict

omit [DecidableEq Hash] in
theorem card_blocksLeft_of_makesRoom (hroom : manager.MakesRoom subRegion) :
    (manager.blocksLeft subRegion).card + 1 = (manager.presentBlocks subRegion).card := by
  obtain ⟨toEvict, hpresent, hvictim⟩ := hroom
  rw [blocksLeft, hvictim]
  exact Finset.card_erase_add_one hpresent

omit [DecidableEq Hash] in
theorem blocksLeft_of_not_makesRoom (hroom : ¬ manager.MakesRoom subRegion) :
    manager.blocksLeft subRegion = manager.presentBlocks subRegion := by
  cases hvictim : manager.victim subRegion with
  | none => rw [blocksLeft, hvictim]
  | some toEvict =>
      have habsent : toEvict ∉ manager.presentBlocks subRegion := fun hpresent =>
        hroom ⟨toEvict, hpresent, hvictim⟩
      rw [blocksLeft, hvictim]
      exact Finset.erase_eq_of_notMem habsent

omit [DecidableEq Hash] in
theorem blocksLeft_subset :
    manager.blocksLeft subRegion ⊆ manager.presentBlocks subRegion := by
  cases hvictim : manager.victim subRegion with
  | none => rw [blocksLeft, hvictim]
  | some toEvict =>
      rw [blocksLeft, hvictim]
      exact Finset.erase_subset _ _

/-- A load keeps the limit exactly when its sub-region makes room or the whole manager
has some. -/
theorem withinLimit_handleMissing_iff (hregion : subRegion < manager.numHandlingThreads)
    (hlimit : manager.WithinLimit) (habsent : block ∉ manager.presentBlocks subRegion)
    {isWriteFault : Bool}
    (hreturns : (handleMissing build manager subRegion block isWriteFault).Returns manager') :
    manager'.WithinLimit ↔ manager.MakesRoom subRegion ∨
      (manager.residentBlocks + 1) * manager.blockSize ≤ manager.maxMemSize := by
  have hleaves := leaves_handleMissing hreturns
  have htotal := hleaves.residentBlocks_add hregion
  rw [Finset.card_insert_of_notMem fun h => habsent (blocksLeft_subset h)] at htotal
  rw [hleaves.withinLimit_iff]
  by_cases hroom : manager.MakesRoom subRegion
  · rw [card_blocksLeft_of_makesRoom hroom] at htotal
    rw [Nat.add_right_cancel htotal]
    exact iff_of_true hlimit (.inl hroom)
  · rw [blocksLeft_of_not_makesRoom hroom] at htotal
    have hnext : manager'.residentBlocks = manager.residentBlocks + 1 := by omega
    rw [hnext]
    exact ⟨.inr, fun hcondition => hcondition.resolve_left hroom⟩

/-! ## Runs -/

/-- An event that loads a block finds room for it: in the whole manager, or in its own
sub-region once that has evicted a block. -/
def LruStep.FindsRoom (manager : UffdVirtualMemoryManager Hash) : LruStep → Prop
  | .fault event =>
      event.isWpFault = false →
      manager.blockIndex event.address ∉
        manager.presentBlocks (manager.subRegion (manager.blockIndex event.address)) →
      manager.MakesRoom (manager.subRegion (manager.blockIndex event.address)) ∨
        (manager.residentBlocks + 1) * manager.blockSize ≤ manager.maxMemSize
  | .msync _ => True

/-- One step keeps the limit exactly when it finds room. -/
theorem LruStep.withinLimit_iff (hthreads : 0 < manager.numHandlingThreads)
    (hlimit : manager.WithinLimit) {step : LruStep}
    (hstep : step.run build manager manager') :
    0 < manager'.numHandlingThreads ∧ (manager'.WithinLimit ↔ step.FindsRoom manager) := by
  have hunchanged : ∀ {condition : Prop}, condition →
      manager.Leaves manager.presentBlocks manager' →
        0 < manager'.numHandlingThreads ∧ (manager'.WithinLimit ↔ condition) := by
    intro condition hcondition hleaves
    have hkept : manager'.WithinLimit := by
      rw [hleaves.withinLimit_iff, hleaves.residentBlocks]
      exact hlimit
    exact ⟨hthreads.trans_eq hleaves.numHandlingThreads.symm, iff_of_true hkept hcondition⟩
  cases step with
  | msync schedule => exact hunchanged trivial (leaves_msyncSubRegions hstep)
  | fault event =>
      rw [LruStep.run, handleEvent, skips] at hstep
      cases hwp : event.isWpFault with
      | true =>
          simp only [hwp, Bool.not_true, Bool.and_false, Bool.false_eq_true, if_false,
            if_true] at hstep
          apply hunchanged _ (leaves_handleWpFault hstep)
          intro hmissing
          rw [hwp] at hmissing
          cases hmissing
      | false =>
          simp only [hwp, Bool.not_false, Bool.and_true, decide_eq_true_eq, Bool.false_eq_true,
            if_false] at hstep
          split_ifs at hstep with hpresent
          · cases hstep
            exact hunchanged (fun _ habsent => absurd hpresent habsent) (Leaves.refl manager)
          · have hregion : manager.subRegion (manager.blockIndex event.address) <
                manager.numHandlingThreads := Nat.mod_lt _ hthreads
            have hleaves := leaves_handleMissing hstep
            refine ⟨hthreads.trans_eq hleaves.numHandlingThreads.symm, ?_⟩
            rw [withinLimit_handleMissing_iff hregion hlimit hpresent hstep]
            exact ⟨fun hroom _ _ => hroom, fun hroom => hroom hwp hpresent⟩

omit [DecidableEq Hash] in
theorem initial_withinLimit (base : VirtualMemoryManagerBase Hash)
    (regionStartAddress numHandlingThreads : ℕ) :
    (initial base regionStartAddress numHandlingThreads).WithinLimit := by
  simp [WithinLimit, residentBlocks, initial]

/-- In every run from a constructor, the present blocks of all sub-regions stay within
the limit exactly when every event that loads a block finds room for it. -/
theorem resident_withinLimit_iff {base : VirtualMemoryManagerBase Hash}
    {regionStartAddress numHandlingThreads : ℕ} (hthreads : 0 < numHandlingThreads)
    {trace : List (LruStep × UffdVirtualMemoryManager Hash)}
    (hrun : Run (fun manager step manager' => LruStep.run build manager step manager')
      (initial base regionStartAddress numHandlingThreads) trace) :
    (∀ manager ∈ Run.states (initial base regionStartAddress numHandlingThreads) trace,
        manager.WithinLimit) ↔
      Run.Each LruStep.FindsRoom (initial base regionStartAddress numHandlingThreads) trace := by
  apply hrun.forall_states_iff
  · intro manager step manager' hthreads hlimit hstep
    exact LruStep.withinLimit_iff hthreads hlimit hstep
  · exact hthreads
  · exact initial_withinLimit base regionStartAddress numHandlingThreads

/-- A region with three blocks, one of which may be resident. -/
def oneOfThreeBlocks : VirtualMemoryManagerBase (Option (List Byte)) :=
  .initial ['/', 'v'] 3 1 1 false (BlockStorage.initial ['/', 'b'] ['/', 's'] 1) fun _ => none

/-- A sub-region that is full evicts a block for the next one, which is committed. -/
theorem resident_withinLimit_iff_evicted :
    ∃ trace : List (LruStep × UffdVirtualMemoryManager (Option (List Byte))),
      trace.map Prod.fst = [.fault ⟨0, false, false⟩, .fault ⟨2, false, true⟩,
        .msync fun _ => ⟨[], []⟩] ∧
      (Run.last (initial oneOfThreeBlocks 0 2) trace).presentBlocks 0 = {2} ∧
      ∀ manager ∈ Run.states (initial oneOfThreeBlocks 0 2) trace, manager.WithinLimit := by
  have hrun : Run (fun manager step manager' =>
      LruStep.run Build.transparent manager step manager') (initial oneOfThreeBlocks 0 2)
      [(.fault ⟨0, false, false⟩, _), (.fault ⟨2, false, true⟩, _),
        (.msync fun _ => ⟨[], []⟩, _)] :=
    .cons rfl (.cons rfl (.cons
      (Program.returns_of_run (rfl : Program.run FileSystem.answer _ oneBlockFiles = _)) .nil))
  refine ⟨_, rfl, rfl, (resident_withinLimit_iff (by decide) hrun).mpr ⟨?_, ?_, trivial, trivial⟩⟩
  · exact fun _ _ => .inr (by decide)
  · exact fun _ _ => .inl ⟨0, by decide, rfl⟩

/-- A region with two blocks, one of which may be resident. -/
def oneOfTwoBlocks : VirtualMemoryManagerBase (Option (List Byte)) :=
  .initial ['/', 'v'] 2 1 1 false (BlockStorage.initial ['/', 'b'] ['/', 's'] 1) fun _ => none

/-- Two handling threads may keep one block each where the manager may keep one. -/
theorem two_sub_regions_exceed_limit :
    ∃ trace : List (LruStep × UffdVirtualMemoryManager (Option (List Byte))),
      Run (fun manager step manager' => LruStep.run .transparent manager step manager')
        (initial oneOfTwoBlocks 0 2) trace ∧
      trace.map Prod.fst = [.fault ⟨0, false, false⟩, .fault ⟨1, false, false⟩] ∧
      ∃ manager ∈ Run.states (initial oneOfTwoBlocks 0 2) trace,
        manager.residentBlocks = 2 ∧ manager.maxMemSize = manager.blockSize ∧
          ¬ manager.WithinLimit := by
  refine ⟨[(.fault ⟨0, false, false⟩, _), (.fault ⟨1, false, false⟩, _)],
    .cons rfl (.cons rfl .nil), rfl, _, .tail _ (.tail _ (.head _)), rfl, rfl, ?_⟩
  exact (by decide : ¬ 2 * 1 ≤ 1)

end UffdVirtualMemoryManager

end Privateer
