import Privateer.Logic.Accounting
import Privateer.Uffd.ConcurrentMsync

/-!
# What `msync` stores beside writers

Writers, handlers and workers take their steps in any order, and still `msync` of a
sub-region acts at one moment: when it returns, its blocks are stored with all that was
written to them by then.  What the application has written is the history of a run, and
memory and files together show it in every state, as long as no step goes wrong.
-/

namespace Privateer

variable {Hash : Type}

/-- A write changes its block of a region; no other step does. -/
def MsyncAction.edit : MsyncAction → (ℕ → List Byte) → ℕ → List Byte
  | .write block content, region => Function.update region block content
  | _, region => region

/-- The blocks of a region after the writes among the steps. -/
def editedRegion (region : ℕ → List Byte) (actions : List MsyncAction) : ℕ → List Byte :=
  actions.foldl (fun region action => action.edit region) region

namespace MsyncState

/-- The pages show the region, and the names of the other blocks stand for it. -/
structure Shows (blocks : BlocksDirectory Hash) (state : MsyncState Hash)
    (region : ℕ → List Byte) : Prop where
  memory : ∀ block, state.manager.installed block = true →
    state.manager.memory block = region block
  absent : ∀ block < state.manager.numBlocks, state.manager.installed block = false →
    blocks.Names state.files (state.manager.blocksIds block) (region block)

variable [DecidableEq Hash] {blocks : BlocksDirectory Hash} {state after : MsyncState Hash}
variable {action : MsyncAction} {region : ℕ → List Byte}

/-! ## One step -/

/-- No step that goes right removes or changes a block file. -/
theorem Guarded.keeps_step (hsound : blocks.build.Sound) (hguarded : Guarded blocks state)
    (hundisturbed : state.Undisturbed blocks.build action)
    (hstep : Step blocks.build state action after) : blocks.Keeps state.files after.files := by
  have hbacked := hguarded.backed
  have hnamed := hbacked.blocksNamed
  have hrefl : blocks.Keeps state.files state.files := fun _ _ _ hbytes => hbytes
  cases hstep with
  | @handle subRegion event events handled files' hthread hdequeue hroom hrun =>
      obtain ⟨⟨harises, -⟩, -⟩ := hguarded.delivers.dequeue hdequeue
        (state.manager.skips subRegion event)
      have hhandled := run_handleEvent hsound hbacked harises.block hroom hrun
      cases hhandled with
      | skipped _ => exact hrefl
      | unprotected _ _ => exact hrefl
      | filled _ _ _ _ _ _ _ hadvances => exact keeps_of_advances hadvances hnamed
  | writeTemporary hat hrun =>
      obtain ⟨hinstalled, -⟩ := hguarded.works.listed hguarded.lists hat
      have hadvances : blocks.Advances ∅ state.files _ :=
        (BlockStorage.prepareBlock_returned hbacked.granularity (hbacked.length _ hinstalled)
          (hundisturbed _ _ _ hat) hrun).1
      exact keeps_of_advances hadvances hnamed
  | rename hat hrun =>
      obtain ⟨hpending, -⟩ := hguarded.works.reached _ _ _ hat
      obtain ⟨number, -, hdrawn⟩ := hpending.drawn
      obtain ⟨-, hadvances, -⟩ := BlockStorage.publishPrepared_returned hsound hpending hdrawn hrun
      exact keeps_of_advances hadvances hnamed
  | write _ _ => exact hrefl
  | fault _ _ _ _ => exact hrefl
  | dispatch _ => exact hrefl
  | copy _ _ => exact hrefl
  | hash _ => exact hrefl
  | setBlocksId _ => exact hrefl
  | writeProtect _ => exact hrefl
  | pushClean _ => exact hrefl
  | clear _ _ => exact hrefl

omit [DecidableEq Hash] in
/-- A block that gets its pages gets the contents that its name stands for. -/
theorem Shows.load (hsound : blocks.build.Sound) (hshows : state.Shows blocks region)
    {files' : FileSystem Hash} (hkeeps : blocks.Keeps state.files files') {subRegion block : ℕ}
    {content : List Byte} {noted : ℕ → Option (Option Hash)} {tempBuffer : ℕ → List Byte}
    {isWriteFault : Bool} {queues : ℕ → EventQueue} (hblock : block < state.manager.numBlocks)
    (habsent : state.manager.installed block = false)
    (hnames : blocks.Names state.files (state.manager.blocksIds block) content) :
    Shows blocks { state with
      manager := loaded state.manager noted tempBuffer subRegion block content isWriteFault
      files := files'
      queues := queues } region := by
  obtain ⟨cleanLru, dirtyLru, presentBlocks, hloaded, -⟩ := loaded_eq noted tempBuffer subRegion
    block content isWriteFault
  have hcontent : content = region block :=
    hnames.unique hsound (hshows.absent block hblock habsent)
  rw [hloaded]
  refine ⟨fun other hinstalled => ?_, fun other hother hinstalled => ?_⟩
  · change Function.update state.manager.installed block true other = true at hinstalled
    change Function.update state.manager.memory block content other = region other
    by_cases hsame : other = block
    · rw [hsame, Function.update_self, hcontent]
    · rw [Function.update_of_ne hsame] at hinstalled
      rw [Function.update_of_ne hsame, hshows.memory other hinstalled]
  · change Function.update state.manager.installed block true other = false at hinstalled
    by_cases hsame : other = block
    · rw [hsame, Function.update_self] at hinstalled
      cases hinstalled
    · rw [Function.update_of_ne hsame] at hinstalled
      exact (hshows.absent other hother hinstalled).keep hkeeps

/-- Only a write changes what memory and files show. -/
theorem Shows.step (hsound : blocks.build.Sound) (hguarded : Guarded blocks state)
    (hshows : state.Shows blocks region) (hundisturbed : state.Undisturbed blocks.build action)
    (hstep : Step blocks.build state action after) :
    after.Shows blocks (action.edit region) := by
  have hkeeps := hguarded.keeps_step hsound hundisturbed hstep
  cases hstep with
  | @write block content hpermits hlength =>
      have hinstalled : state.manager.installed block = true := by
        simp only [UffdVirtualMemoryManager.permits, Bool.and_eq_true] at hpermits
        exact hpermits.1
      refine ⟨fun other hother => ?_, fun other hother habsent => ?_⟩
      · change Function.update state.manager.memory block content other =
          Function.update region block content other
        by_cases hsame : other = block
        · rw [hsame, Function.update_self, Function.update_self]
        · rw [Function.update_of_ne hsame, Function.update_of_ne hsame, hshows.memory other hother]
      · have hne : other ≠ block := by
          rintro rfl
          cases habsent.symm.trans hinstalled
        change blocks.Names _ _ (Function.update region block content other)
        rw [Function.update_of_ne hne]
        exact hshows.absent other hother habsent
  | @handle subRegion event events handled files' hthread hdequeue hroom hrun =>
      obtain ⟨⟨harises, -⟩, -⟩ := hguarded.delivers.dequeue hdequeue
        (state.manager.skips subRegion event)
      have hhandled := run_handleEvent hsound hguarded.backed harises.block hroom hrun
      cases hhandled with
      | skipped _ => exact ⟨hshows.memory, hshows.absent⟩
      | unprotected _ _ => exact ⟨hshows.memory, hshows.absent⟩
      | filled _ _ habsent _ hnames _ _ _ =>
          exact hshows.load hsound hkeeps harises.block habsent hnames
  | @setBlocksId worker block blockHash hat =>
      obtain ⟨hinstalled, -⟩ := hguarded.works.listed hguarded.lists hat
      obtain ⟨noted, hrecorded, -⟩ := recordStored_eq state.manager.base block blockHash
      rw [hrecorded]
      refine ⟨hshows.memory, fun other hother habsent => ?_⟩
      have hne : other ≠ block := by
        rintro rfl
        cases habsent.symm.trans hinstalled
      change blocks.Names _ (Function.update state.manager.blocksIds block blockHash other) _
      rw [Function.update_of_ne hne]
      exact hshows.absent other hother habsent
  | writeTemporary _ _ =>
      exact ⟨hshows.memory, fun other hother habsent =>
        (hshows.absent other hother habsent).keep hkeeps⟩
  | rename _ _ =>
      exact ⟨hshows.memory, fun other hother habsent =>
        (hshows.absent other hother habsent).keep hkeeps⟩
  | fault _ _ _ _ => exact ⟨hshows.memory, hshows.absent⟩
  | dispatch _ => exact ⟨hshows.memory, hshows.absent⟩
  | copy _ _ => exact ⟨hshows.memory, hshows.absent⟩
  | hash _ => exact ⟨hshows.memory, hshows.absent⟩
  | writeProtect _ => exact ⟨hshows.memory, hshows.absent⟩
  | pushClean _ => exact ⟨hshows.memory, hshows.absent⟩
  | clear _ _ => exact ⟨hshows.memory, hshows.absent⟩

/-! ## Runs -/

open UffdVirtualMemoryManager (Starts)

theorem Shows.of_unevicted {manager : UffdVirtualMemoryManager Hash} {files : FileSystem Hash}
    (hunevicted : UffdVirtualMemoryManager.Unevicted blocks region manager files) :
    (initial manager files).Shows blocks region where
  memory := hunevicted.memory
  absent := fun block hblock habsent => hunevicted.names block hblock
    (UffdVirtualMemoryManager.not_dirty_of_absent habsent)

/-- When `msync` of a sub-region returns, the names of all its blocks stand for what was
written to them so far, whatever the application, the handlers and the workers have done in
between, as long as no step went wrong. -/
theorem msync_stores_writes (hsound : blocks.build.Sound) (hpos : 0 < blocks.blockSize)
    {base : VirtualMemoryManagerBase Hash} {region : ℕ → Byte} {files files' : FileSystem Hash}
    (hstarts : Starts blocks files base files' region)
    (hnamed : blocks.TiersNamed base.blockStorage.tiers files) (regionStartAddress : ℕ)
    {numHandlingThreads : ℕ} (hthreads : 0 < numHandlingThreads)
    {trace : List (MsyncAction × MsyncState Hash)}
    (hrun : Run (Step blocks.build)
      (initial (.initial base regionStartAddress numHandlingThreads) files') trace)
    (hundisturbed : Run.Each (Undisturbed blocks.build)
      (initial (.initial base regionStartAddress numHandlingThreads) files') trace)
    {subRegion : ℕ} (hreturned : after.phase = .returned subRegion)
    (hreturns : Step blocks.build
      (Run.last (initial (.initial base regionStartAddress numHandlingThreads) files') trace)
        .clear after) :
    ∀ block < after.manager.numBlocks, after.manager.subRegion block = subRegion →
      blocks.Names after.files (after.manager.blocksIds block)
        (editedRegion (blockOf blocks.blockSize region)
          (trace.map Prod.fst) block) := by
  have hunevicted := (UffdVirtualMemoryManager.UnevictedSession.of_start hpos hstarts hnamed
    regionStartAddress hthreads).unevicted
  have hkeep : ∀ (state : MsyncState Hash) action next (region : ℕ → List Byte),
      Guarded blocks state ∧ state.Shows blocks region → state.Undisturbed blocks.build action →
        Step blocks.build state action next →
          Guarded blocks next ∧ next.Shows blocks (action.edit region) :=
    fun _ _ _ _ hbefore hundisturbed hstep => ⟨hbefore.1.step hsound hundisturbed hstep,
      hbefore.2.step hsound hbefore.1 hundisturbed hstep⟩
  have hlast := hrun.last_recording hkeep
    ⟨Guarded.of_unevicted hunevicted, Shows.of_unevicted hunevicted⟩ hundisturbed
  obtain ⟨hguarded, hshows⟩ := hkeep _ .clear after _ hlast trivial hreturns
  intro block hblock hregion
  cases hinstalled : after.manager.installed block with
  | false => exact hshows.absent block hblock hinstalled
  | true =>
      have hclean : block ∉ after.manager.dirtyLru (after.manager.subRegion block) := by
        rw [hregion]
        cases hreturns with
        | clear hphase hdone =>
            obtain rfl := MsyncPhase.returned.inj hreturned
            simp [UffdVirtualMemoryManager.clearDirty]
      obtain ⟨-, hnames⟩ := hguarded.lists.clean block hinstalled hclean
      rw [hshows.memory block hinstalled] at hnames
      exact hnames

open UffdVirtualMemoryManager (twoBytes twoBytesFiles starts_twoBytes)

/-- A region of two blocks of one byte, each in the sub-region of one of two handlers. -/
def twoRegionStart : MsyncState (Option (List Byte)) :=
  initial (.initial twoBytes 4096 2) twoBytesFiles

/-- While `msync` of one sub-region runs, its block is written once more before it is hashed,
and the block of the other one is written as well. -/
theorem msync_stores_writes_twoRegions :
    ∃ (trace : List (MsyncAction × MsyncState (Option (List Byte))))
        (after : MsyncState (Option (List Byte))),
      trace.map Prod.fst = [.fault 4096 true, .dispatch ⟨4096, false, true⟩, .handle 0,
        .write 0 [7], .copy 0, .fault 4097 true, .dispatch ⟨4097, false, true⟩, .handle 1,
        .write 0 [8], .hash 0, .writeTemporary 0, .write 1 [5], .rename 0, .setBlocksId 0,
        .writeProtect 0, .pushClean 0] ∧
      Step .transparent (Run.last twoRegionStart trace) .clear after ∧
      after.manager.numBlocks = 2 ∧ after.manager.subRegion 0 = 0 ∧
      ∀ block < after.manager.numBlocks, after.manager.subRegion block = 0 →
        byteBlocks.Names after.files (after.manager.blocksIds block)
          (editedRegion (blockOf 1 fun _ => 0) (trace.map Prod.fst) block) := by
  obtain ⟨trace, after, hlabels, hrun, hundisturbed, hreturns, hreturned, hblocks, hregion⟩ :
      ∃ (trace : List (MsyncAction × MsyncState (Option (List Byte))))
          (after : MsyncState (Option (List Byte))),
        trace.map Prod.fst = [.fault 4096 true, .dispatch ⟨4096, false, true⟩, .handle 0,
          .write 0 [7], .copy 0, .fault 4097 true, .dispatch ⟨4097, false, true⟩, .handle 1,
          .write 0 [8], .hash 0, .writeTemporary 0, .write 1 [5], .rename 0, .setBlocksId 0,
          .writeProtect 0, .pushClean 0] ∧
        Run (Step .transparent) twoRegionStart trace ∧
        Run.Each (Undisturbed .transparent) twoRegionStart trace ∧
        Step .transparent (Run.last twoRegionStart trace) .clear after ∧
        after.phase = .returned 0 ∧ after.manager.numBlocks = 2 ∧
        after.manager.subRegion 0 = 0 := by
    refine ⟨[(.fault 4096 true, _), (.dispatch ⟨4096, false, true⟩, _), (.handle 0, _),
        (.write 0 [7], _), (.copy 0, _), (.fault 4097 true, _),
        (.dispatch ⟨4097, false, true⟩, _), (.handle 1, _), (.write 0 [8], _), (.hash 0, _),
        (.writeTemporary 0, _), (.write 1 [5], _), (.rename 0, _), (.setBlocksId 0, _),
        (.writeProtect 0, _), (.pushClean 0, _)], _, rfl,
      .cons (.fault (by decide) (by decide) (by decide) rfl)
        (.cons (.dispatch (by decide))
          (.cons (.handle (by decide) rfl (fun _ _ => by decide) rfl)
            (.cons (.write rfl rfl) (.cons (.copy (by decide) fun _ _ _ h => by cases h)
              (.cons (.fault (by decide) (by decide) (by decide) rfl)
                (.cons (.dispatch (by decide))
                  (.cons (.handle (by decide) rfl (fun _ _ => by decide) rfl)
                    (.cons (.write rfl rfl)
                      (.cons (.hash ⟨rfl, rfl⟩) (.cons (.writeTemporary ⟨rfl, rfl⟩ rfl)
                        (.cons (.write rfl rfl)
                          (.cons (.rename ⟨rfl, rfl⟩ rfl) (.cons (.setBlocksId ⟨rfl, rfl⟩)
                            (.cons (.writeProtect ⟨rfl, rfl⟩)
                              (.cons (.pushClean ⟨rfl, rfl⟩) .nil))))))))))))))),
      ⟨trivial, trivial, ?_, trivial, trivial, trivial, trivial, ?_, trivial, trivial, ?_,
        trivial, trivial, trivial, ?_, trivial, trivial⟩,
      .clear rfl (done_of_single rfl), rfl, rfl, rfl⟩
    · exact fun _ _ _ _ _ hphase => by cases hphase
    · exact fun _ _ _ _ _ hphase => by cases hphase
    · exact undisturbed_of_hash _ ⟨rfl, rfl⟩
    · exact undisturbed_of_setBlocksId _ ⟨rfl, rfl⟩ rfl
  refine ⟨trace, after, hlabels, hreturns, hblocks, hregion, ?_⟩
  exact msync_stores_writes Build.transparent_sound (by decide) starts_twoBytes
    (fun _ _ _ _ _ hbytes => by cases hbytes) 4096 (by decide) hrun hundisturbed hreturned hreturns

end MsyncState

end Privateer
