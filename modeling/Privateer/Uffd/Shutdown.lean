import Privateer.Uffd.Convergence

/-!
# Destroying a `Privateer` object under UFFD

The destructor takes its region out of the userfaultfd before it deletes the manager, and
the manager commits when it is deleted.  `msync` write-protects every block that it has
stored, which fails on a region that is not registered any more.  So the destructor
commits exactly when there is nothing to store.
-/

namespace Privateer

/-- A manager with the region that it serves: whether the kernel still reports its faults,
how many regions share the listener, and which queues hold a stop event. -/
structure UffdRegion (Hash : Type) where
  manager : UffdVirtualMemoryManager Hash
  registered : Bool
  numHandlers : ℕ
  listening : Bool
  stopEvents : ℕ → Bool

namespace UffdVirtualMemoryManager

open VirtualMemoryManagerBase (SameSession storeDirty)

variable {Hash : Type}

/-! ## Commits of a region that may not be registered -/

/-- The worker of a dirty block.  `UFFDIO_WRITEPROTECT` fails on a range that is not
registered, and the failure terminates the process. -/
def storeAndProtect (build : Build Hash) (manager : UffdVirtualMemoryManager Hash)
    (registered : Bool) (blockIndex : ℕ) : StorageProgram Hash Hash := do
  let blockHash ← storeDirty build manager.base (manager.memory blockIndex) blockIndex
  if registered then return blockHash else .exit

/-- `msync` of a sub-region, before the table is written. -/
def msyncBlocksOn (build : Build Hash) (registered : Bool)
    (manager : UffdVirtualMemoryManager Hash) (subRegion : ℕ) (schedule : MsyncSchedule) :
    StorageProgram Hash (UffdVirtualMemoryManager Hash) := do
  let stored ← Program.interleave schedule.storing
    ((manager.dirtyLru subRegion).map fun blockIndex =>
      (blockIndex, storeAndProtect build manager registered blockIndex))
  let recorded := stored.foldl VirtualMemoryManagerBase.recordStored manager.base
  let committed ← VirtualMemoryManagerBase.commitStashed build
    (Program.arrange schedule.committing (recorded.stashVector (manager.stashSet subRegion)))
    recorded
  return { ((stored.map Prod.fst).foldl markStored manager).clearDirty subRegion with
    base := committed
    stashSet := Function.update manager.stashSet subRegion ∅ }

def msyncSubRegionOn (build : Build Hash) (registered : Bool)
    (manager : UffdVirtualMemoryManager Hash) (subRegion : ℕ) (schedule : MsyncSchedule) :
    StorageProgram Hash (UffdVirtualMemoryManager Hash) := do
  let committed ← msyncBlocksOn build registered manager subRegion schedule
  committed.base.updateMetadata (committed.presentBlocks subRegion)
  return committed

def msyncSubRegionsOn (build : Build Hash) (registered : Bool) (schedule : ℕ → MsyncSchedule) :
    List ℕ → UffdVirtualMemoryManager Hash →
      StorageProgram Hash (UffdVirtualMemoryManager Hash)
  | [], manager => return manager
  | subRegion :: rest, manager => do
      let committed ← msyncSubRegionOn build registered manager subRegion (schedule subRegion)
      msyncSubRegionsOn build registered schedule rest committed

def msyncOn (build : Build Hash) (registered : Bool) (manager : UffdVirtualMemoryManager Hash)
    (schedule : ℕ → MsyncSchedule) : StorageProgram Hash (UffdVirtualMemoryManager Hash) :=
  msyncSubRegionsOn build registered schedule (List.range manager.numHandlingThreads) manager

/-- `munmap` of the present blocks of every sub-region. -/
def unmapPresent (manager : UffdVirtualMemoryManager Hash) : UffdVirtualMemoryManager Hash :=
  { manager with
    installed := fun block => manager.installed block &&
      !(List.range manager.numHandlingThreads).any fun subRegion =>
        block ∈ manager.presentBlocks subRegion }

end UffdVirtualMemoryManager

namespace UffdRegion

variable {Hash : Type}

/-- A region after `create` or `open`, which start the listener and register it. -/
def opened (manager : UffdVirtualMemoryManager Hash) (others : ℕ) : UffdRegion Hash where
  manager := manager
  registered := true
  numHandlers := others + 1
  listening := true
  stopEvents := fun _ => false

/-- `UFFD::unregister_uffd_region` also puts a stop event into every queue. -/
def unregisterUffdRegion (region : UffdRegion Hash) : UffdRegion Hash :=
  { region with
    registered := false
    stopEvents := fun subRegion =>
      region.stopEvents subRegion || decide (subRegion < region.manager.numHandlingThreads) }

/-- `UFFD::stop_uffd`: the last region stops the listener. -/
def stopUffd (region : UffdRegion Hash) : UffdRegion Hash :=
  { region with
    numHandlers := region.numHandlers - 1
    listening := region.listening && decide (region.numHandlers - 1 ≠ 0) }

/-- The event with address 0 goes to the first queue; a thread without a stop event in its
queue is waited for without end. -/
def stopHandlerThread (region : UffdRegion Hash) : StorageProgram Hash (UffdRegion Hash) :=
  let stopEvents := Function.update region.stopEvents 0 true
  if (List.range region.manager.numHandlingThreads).all stopEvents then
    return { region with stopEvents := stopEvents }
  else .undefined

/-- `uffd_virtual_memory_manager::close`. -/
def close (build : Build Hash) (region : UffdRegion Hash) (schedule : ℕ → MsyncSchedule) :
    StorageProgram Hash (UffdRegion Hash) := do
  let committed ← region.manager.msyncOn build region.registered schedule
  stopHandlerThread { region with manager := committed.unmapPresent }

/-- `~Privateer`, which deletes the manager after it has unregistered its region. -/
def destroyPrivateer (build : Build Hash) (region : UffdRegion Hash)
    (schedule : ℕ → MsyncSchedule) : StorageProgram Hash (UffdRegion Hash) :=
  close build region.unregisterUffdRegion.stopUffd schedule

end UffdRegion

namespace UffdVirtualMemoryManager

variable {Hash : Type} {build : Build Hash} {manager committed : UffdVirtualMemoryManager Hash}
variable {registered : Bool} {subRegion : ℕ} {schedule : ℕ → MsyncSchedule}

/-! ## What the registration changes -/

/-- A sub-region of a registered region, or one without dirty blocks, is committed as usual. -/
theorem msyncSubRegionOn_eq (hstorable : registered = true ∨ manager.dirtyLru subRegion = [])
    (schedule : MsyncSchedule) :
    msyncSubRegionOn build registered manager subRegion schedule =
      msyncSubRegion build manager subRegion schedule := by
  have hworkers : ((manager.dirtyLru subRegion).map fun blockIndex =>
      (blockIndex, storeAndProtect build manager registered blockIndex)) =
        (manager.dirtyLru subRegion).map fun blockIndex =>
          (blockIndex, VirtualMemoryManagerBase.storeDirty build manager.base
            (manager.memory blockIndex) blockIndex) := by
    rcases hstorable with rfl | hclean
    · congr 1
      funext blockIndex
      exact congrArg (Prod.mk blockIndex) (Program.bind_pure _)
    · rw [hclean]
      rfl
  unfold msyncSubRegionOn msyncBlocksOn msyncSubRegion msyncBlocks
  unfold VirtualMemoryManagerBase.commitBlocks VirtualMemoryManagerBase.storeDirtyBlocks
  rw [hworkers]
  simp only [Program.bind_assoc]
  rfl

/-- With the region registered, `msync` is the usual one. -/
theorem msyncOn_registered (manager : UffdVirtualMemoryManager Hash)
    (schedule : ℕ → MsyncSchedule) :
    msyncOn build true manager schedule = msync build manager schedule := by
  have hall : ∀ (subRegions : List ℕ) (manager : UffdVirtualMemoryManager Hash),
      msyncSubRegionsOn build true schedule subRegions manager =
        msyncSubRegions build schedule subRegions manager := by
    intro subRegions
    induction subRegions with
    | nil => exact fun _ => rfl
    | cons subRegion rest ih =>
        intro manager
        rw [msyncSubRegionsOn, msyncSubRegionOn_eq (.inl rfl), msyncSubRegions]
        congr 1
        funext committed
        exact ih committed
  exact hall _ manager

/-- A sub-region that is not registered is only committed if it has no dirty blocks. -/
theorem dirtyLru_eq_nil_of_msyncSubRegionOn {schedule : MsyncSchedule}
    (hreturns : (msyncSubRegionOn build false manager subRegion schedule).Returns committed) :
    manager.dirtyLru subRegion = [] ∧
      committed.dirtyLru = Function.update manager.dirtyLru subRegion [] := by
  obtain ⟨stored, hstored, hrest⟩ := Program.returns_bind.mp hreturns
  obtain ⟨-, -, hlast⟩ := Program.returns_bind.mp hrest
  cases hlast
  obtain ⟨names, hnames, hrest⟩ := Program.returns_bind.mp hstored
  obtain ⟨base, -, hlast⟩ := Program.returns_bind.mp hrest
  have hclean : manager.dirtyLru subRegion = [] := by
    by_contra hdirty
    obtain ⟨block, hblock⟩ := List.exists_mem_of_ne_nil _ hdirty
    obtain ⟨name, hname⟩ := Program.exists_returns_of_interleave hnames _
      (List.mem_map_of_mem hblock)
    obtain ⟨_, -, hexit⟩ := Program.returns_bind.mp hname
    exact hexit.elim
  refine ⟨hclean, ?_⟩
  cases hlast
  have hlists : ∀ (stored : List ℕ) (manager : UffdVirtualMemoryManager Hash),
      (stored.foldl markStored manager).dirtyLru = manager.dirtyLru := by
    intro stored
    induction stored with
    | nil => exact fun _ => rfl
    | cons block rest ih => exact fun manager => ih (manager.markStored block)
  simp only [clearDirty, hlists]

theorem dirtyLru_eq_nil_of_msyncSubRegionsOn {subRegions : List ℕ}
    (hreturns : (msyncSubRegionsOn build false schedule subRegions manager).Returns committed) :
    ∀ subRegion ∈ subRegions, manager.dirtyLru subRegion = [] := by
  induction subRegions generalizing manager with
  | nil => exact fun subRegion hregion => absurd hregion List.not_mem_nil
  | cons first rest ih =>
      obtain ⟨middle, hfirst, hrest⟩ := Program.returns_bind.mp hreturns
      obtain ⟨hclean, hlists⟩ := dirtyLru_eq_nil_of_msyncSubRegionOn hfirst
      intro subRegion hregion
      by_cases hsame : subRegion = first
      · rw [hsame, hclean]
      · have hlater := ih hrest subRegion ((List.mem_cons.mp hregion).resolve_left hsame)
        rwa [hlists, Function.update_of_ne hsame] at hlater

variable [DecidableEq Hash] {blocks : BlocksDirectory Hash} {files files' : FileSystem Hash}

/-- Without dirty blocks it does not matter whether the region is registered. -/
theorem Unevicted.run_msyncSubRegionsOn (hsound : blocks.build.Sound) {region : ℕ → List Byte}
    {entries : List Hash} (schedule : ℕ → MsyncSchedule) (subRegions : List ℕ)
    (hunevicted : Unevicted blocks region manager files)
    (hmetadata : files.metadata manager.versionMetadataPath = some entries)
    (hclean : ∀ subRegion, manager.dirtyLru subRegion = []) :
    (msyncSubRegionsOn blocks.build registered schedule subRegions manager).run FileSystem.answer
        files =
      (msyncSubRegions blocks.build schedule subRegions manager).run FileSystem.answer files := by
  induction subRegions generalizing manager files entries with
  | nil => rfl
  | cons subRegion rest ih =>
      obtain ⟨middle, between, entries', hrun, hmiddle, hcommits⟩ :=
        hunevicted.run_msyncSubRegion hsound hmetadata subRegion (schedule subRegion)
      have hmetadata' : between.metadata middle.versionMetadataPath = some entries' := by
        rw [hcommits.metadata, hcommits.session.versionMetadataPath, Function.update_self]
      have hclean' : ∀ other, middle.dirtyLru other = [] := by
        intro other
        rw [List.eq_nil_iff_forall_not_mem]
        intro block hdirty
        have hblock := ((hcommits.dirty block).mp ((hmiddle.pages.dirty other block).mp hdirty).1).1
        have hlisted := (hunevicted.pages.dirty _ block).mpr ⟨hblock, rfl⟩
        rw [hclean] at hlisted
        exact List.not_mem_nil hlisted
      rw [msyncSubRegionsOn, msyncSubRegions, msyncSubRegionOn_eq (.inr (hclean subRegion)),
        Program.run_bind_of_returned hrun, Program.run_bind_of_returned hrun]
      exact ih hmiddle hmetadata' hclean'

end UffdVirtualMemoryManager

namespace UffdRegion

open UffdVirtualMemoryManager (UnevictedSession UnevictedStep SessionState Starts Tabled)

variable {Hash : Type} [DecidableEq Hash] {blocks : BlocksDirectory Hash}
variable {files files' : FileSystem Hash} {manager : UffdVirtualMemoryManager Hash}
variable {region : ℕ → Byte}

/-- The destructor returns, and the version then denotes the contents of the region. -/
def DestroyCommits (blocks : BlocksDirectory Hash) (manager : UffdVirtualMemoryManager Hash)
    (files : FileSystem Hash) (region : ℕ → Byte) (others : ℕ) (schedule : ℕ → MsyncSchedule) :
    Prop :=
  ∃ closed final entries, (destroyPrivateer blocks.build (opened manager others) schedule).run
      FileSystem.answer files = (.returned closed, final) ∧
    blocks.HasVersion final manager.versionMetadataPath manager.regionMaxCapacity entries ∧
    ∀ block < manager.numBlocks, blocks.Names final
      (entries.getD block blocks.build.emptyBlockHash) (blockOf blocks.blockSize region block)

omit [DecidableEq Hash] in
/-- Every handler thread has its stop event. -/
theorem stopHandlerThread_eq (stopped : UffdRegion Hash)
    (hstop : ∀ subRegion < stopped.manager.numHandlingThreads, stopped.stopEvents subRegion = true) :
    stopHandlerThread stopped =
      pure { stopped with stopEvents := Function.update stopped.stopEvents 0 true } := by
  unfold stopHandlerThread
  have hall : (List.range stopped.manager.numHandlingThreads).all
      (Function.update stopped.stopEvents 0 true) = true := by
    rw [List.all_eq_true]
    intro subRegion hregion
    by_cases hfirst : subRegion = 0
    · rw [hfirst, Function.update_self]
    · rw [Function.update_of_ne hfirst]
      exact hstop subRegion (List.mem_range.mp hregion)
  rw [if_pos hall]

/-- The destructor commits exactly when no block is dirty. -/
theorem destroyCommits_iff (hsound : blocks.build.Sound)
    (hsession : UnevictedSession blocks region manager files) (others : ℕ)
    (schedule : ℕ → MsyncSchedule) :
    DestroyCommits blocks manager files region others schedule ↔
      ∀ subRegion, manager.dirtyLru subRegion = [] := by
  constructor
  · rintro ⟨closed, final, entries, hrun, -⟩ subRegion
    obtain ⟨committed, hmsync, -⟩ := Program.returns_bind.mp (Program.returns_of_run hrun)
    by_cases hregion : subRegion < manager.numHandlingThreads
    · exact UffdVirtualMemoryManager.dirtyLru_eq_nil_of_msyncSubRegionsOn hmsync subRegion
        (List.mem_range.mpr hregion)
    · rw [List.eq_nil_iff_forall_not_mem]
      intro block hdirty
      obtain ⟨-, rfl⟩ := (hsession.unevicted.pages.dirty subRegion block).mp hdirty
      exact hregion (Nat.mod_lt _ hsession.threads)
  · intro hclean
    obtain ⟨entries, htabled⟩ := hsession.table
    obtain ⟨committed, final, entries', hmsync, -, hsame, hthreads, htabled', hnames⟩ :=
      hsession.run_msync hsound schedule
    have hunregistered : (UffdVirtualMemoryManager.msyncOn blocks.build false manager schedule).run
        FileSystem.answer files = (.returned committed, final) :=
      (hsession.unevicted.run_msyncSubRegionsOn hsound schedule
        (List.range manager.numHandlingThreads) htabled.version.metadata hclean).trans hmsync
    have hstop : ∀ subRegion < committed.unmapPresent.numHandlingThreads,
        (opened manager others).unregisterUffdRegion.stopUffd.stopEvents subRegion = true := by
      intro subRegion hregion
      have hlt : subRegion < manager.numHandlingThreads := hregion.trans_eq hthreads
      exact decide_eq_true hlt
    let stopped : UffdRegion Hash :=
      { (opened manager others).unregisterUffdRegion.stopUffd with
        manager := committed.unmapPresent }
    refine ⟨{ stopped with stopEvents := Function.update stopped.stopEvents 0 true }, final,
      entries', ?_, ?_, fun block hblock => ?_⟩
    · unfold destroyPrivateer close
      refine (Program.run_bind_of_returned hunregistered).trans ?_
      rw [stopHandlerThread_eq stopped hstop]
      rfl
    · rw [← hsame.versionMetadataPath, ← hsame.regionMaxCapacity]
      exact htabled'.version
    · obtain ⟨hentry, hname⟩ := hnames block hblock
      rw [hentry]
      exact hname

/-! ## Whole sessions -/

/-- At every point of a session that evicts nothing, the destructor commits the region
exactly when no block is dirty. -/
theorem destroy_commits_iff (hsound : blocks.build.Sound) (hpos : 0 < blocks.blockSize)
    {base : VirtualMemoryManagerBase Hash} (hstarts : Starts blocks files base files' region)
    (hnamed : blocks.TiersNamed base.blockStorage.tiers files) (regionStartAddress : ℕ)
    {numHandlingThreads : ℕ} (hthreads : 0 < numHandlingThreads)
    {trace : List (UffdRequest × SessionState Hash)}
    (hrun : Run (UnevictedStep blocks.build)
      ⟨.initial base regionStartAddress numHandlingThreads, files', region⟩ trace) :
    ∀ state ∈ Run.states
        ⟨.initial base regionStartAddress numHandlingThreads, files', region⟩ trace,
      ∀ others schedule,
        DestroyCommits blocks state.manager state.files state.region others schedule ↔
          ∀ subRegion, state.manager.dirtyLru subRegion = [] := by
  have hstart := UnevictedSession.of_start hpos hstarts hnamed regionStartAddress hthreads
  intro state hstate others schedule
  obtain ⟨hsession, -⟩ := UnevictedSession.run hsound hrun hstart state hstate
  exact destroyCommits_iff hsound hsession others schedule

theorem destroy_commits_iff_twoBytes :
    ∃ trace, trace.map Prod.fst = [.perform (.write 1 7), .snapshot ['/', 'w'] fun _ => ⟨[], []⟩] ∧
      Run (UnevictedStep .transparent)
        ⟨.initial UffdVirtualMemoryManager.twoBytes 0 2, UffdVirtualMemoryManager.twoBytesFiles,
          fun _ => 0⟩ trace ∧
      ∀ state ∈ Run.states ⟨.initial UffdVirtualMemoryManager.twoBytes 0 2,
          UffdVirtualMemoryManager.twoBytesFiles, fun _ => 0⟩ trace, ∀ others schedule,
        DestroyCommits byteBlocks state.manager state.files state.region others schedule ↔
          ∀ subRegion, state.manager.dirtyLru subRegion = [] := by
  have hrun : Run (UnevictedStep .transparent) ⟨.initial UffdVirtualMemoryManager.twoBytes 0 2,
        UffdVirtualMemoryManager.twoBytesFiles, fun _ => 0⟩
      [(.perform (.write 1 7), ⟨_, _, _⟩), (.snapshot ['/', 'w'] fun _ => ⟨[], []⟩, ⟨_, _, _⟩)] :=
    .cons ⟨⟨by decide, .inr (by decide), rfl⟩, Exists.intro [] rfl, rfl⟩
      (.cons ⟨rfl, rfl, rfl⟩ .nil)
  refine ⟨_, rfl, hrun, ?_⟩
  exact destroy_commits_iff Build.transparent_sound (by decide)
    UffdVirtualMemoryManager.starts_twoBytes (fun _ _ _ _ _ hbytes => by cases hbytes) 0
    (by decide) hrun

/-- One write, and the destructor ends the process before the table is written: the version
still denotes zeros. -/
theorem destroy_exits_with_dirty_block :
    ∃ trace, trace.map Prod.fst = [.perform (.write 0 5)] ∧
      Run (UnevictedStep .transparent)
        ⟨.initial UffdVirtualMemoryManager.twoBytes 0 1, UffdVirtualMemoryManager.twoBytesFiles,
          fun _ => 0⟩ trace ∧
      ∃ state ∈ Run.states ⟨.initial UffdVirtualMemoryManager.twoBytes 0 1,
          UffdVirtualMemoryManager.twoBytesFiles, fun _ => 0⟩ trace,
        ∃ final, (destroyPrivateer .transparent (opened state.manager 0) fun _ => ⟨[], []⟩).run
            FileSystem.answer state.files = (.exited, final) ∧
          byteBlocks.HasVersion final ['/', 'v'] 2 [] ∧ state.region 0 = 5 ∧
            ¬ DestroyCommits byteBlocks state.manager state.files state.region 0
              fun _ => ⟨[], []⟩ := by
  refine ⟨[(.perform (.write 0 5), ⟨_, _, _⟩)], rfl,
    .cons ⟨⟨by decide, .inr (by decide), rfl⟩, Exists.intro [] rfl, rfl⟩ .nil,
    _, .tail _ (.head _), _, rfl, ⟨rfl, rfl, rfl, rfl, by decide⟩, rfl, ?_⟩
  rintro ⟨closed, final, entries, hrun, -⟩
  cases (Prod.mk.inj hrun).1

end UffdRegion

end Privateer
