import Privateer.Uffd.MsyncSystem

/-!
# `msync` beside writers

Every step of the application, of a handler and of a worker keeps what the workers rely on,
as long as it is none of those that go wrong: then the block files stay named by their
contents, and no change is dropped from the dirty list before it is stored.
-/

namespace Privateer

variable {Hash : Type}

namespace MsyncState

variable {blocks : BlocksDirectory Hash} {manager manager' : UffdVirtualMemoryManager Hash}
variable {files files' : FileSystem Hash} {phase : MsyncPhase Hash} {state : MsyncState Hash}
variable {mine : Set ℕ} {worker block : ℕ} {stage : WorkerStage Hash}

/-! ## The application -/

variable {content : List Byte}

/-- Events reach a manager of the same region that has at least the same pages. -/
theorem Delivers.keep {messages : List FaultEvent} {queues : ℕ → EventQueue}
    (hdelivers : Delivers manager messages queues)
    (hstart : manager'.regionStartAddress = manager.regionStartAddress)
    (hblockSize : manager'.blockSize = manager.blockSize)
    (hcapacity : manager'.regionMaxCapacity = manager.regionMaxCapacity)
    (hthreads : manager'.numHandlingThreads = manager.numHandlingThreads)
    (hinstalled : ∀ block, manager.installed block = true → manager'.installed block = true) :
    Delivers manager' messages queues := by
  have hindex : ∀ address, manager'.blockIndex address = manager.blockIndex address := by
    intro address
    rw [UffdVirtualMemoryManager.blockIndex, UffdVirtualMemoryManager.blockIndex, hstart,
      hblockSize]
  have hregion : ∀ block, manager'.subRegion block = manager.subRegion block := by
    intro block
    rw [UffdVirtualMemoryManager.subRegion, UffdVirtualMemoryManager.subRegion, hthreads]
  have hnumBlocks : manager'.numBlocks = manager.numBlocks := by
    rw [VirtualMemoryManagerBase.numBlocks, VirtualMemoryManagerBase.numBlocks, hcapacity,
      hblockSize]
  have harises : ∀ event, Arises manager event → Arises manager' event := fun event harises =>
    ⟨hstart ▸ harises.start, harises.word, by rw [hindex, hnumBlocks]; exact harises.block,
      fun hwp => by rw [hindex]; exact hinstalled _ (harises.installed hwp)⟩
  refine ⟨fun event hevent => harises event (hdelivers.messages event hevent), ?_⟩
  intro subRegion event hevent
  obtain ⟨hbefore, hrouted⟩ := hdelivers.queues subRegion event hevent
  refine ⟨harises event hbefore, ?_⟩
  rw [hindex, hregion, hrouted]

/-- A block that can be written to is on the dirty list of its sub-region, and no worker has
protected it. -/
theorem Guarded.write (hguarded : Guarded blocks state)
    (hpermits : state.manager.permits block true = true)
    (hlength : content.length = (state.manager.memory block).length) :
    Guarded blocks { state with manager := state.manager.writeBlock block content } := by
  obtain ⟨hinstalled, hwritable⟩ : state.manager.installed block = true ∧
      state.manager.writeProtected block = false := by
    simpa [UffdVirtualMemoryManager.permits] using hpermits
  have hself : (state.manager.writeBlock block content).memory block = content :=
    Function.update_self _ _ _
  have hother : ∀ other, state.manager.writeProtected other = true →
      (state.manager.writeBlock block content).memory other = state.manager.memory other := by
    intro other hprotected
    refine Function.update_of_ne ?_ _ _
    rintro rfl
    cases hprotected.symm.trans hwritable
  have hbacked := hguarded.backed
  refine ⟨⟨hbacked.blockSize, hbacked.baseDirectory, hbacked.granularity, hbacked.unstashed,
      hbacked.unnoted, hbacked.tempBuffer, hbacked.stashSet, hbacked.named, ?_, hbacked.absent⟩,
    hguarded.delivers.keep rfl rfl rfl rfl fun _ hpages => hpages, ⟨hguarded.lists.dirty, ?_⟩, ?_⟩
  · intro other hpages
    by_cases hsame : other = block
    · rw [hsame, hself, hlength, hbacked.length block hinstalled]
    · exact (congrArg List.length (Function.update_of_ne hsame _ _)).trans
        (hbacked.length other hpages)
  · intro other hpages hclean
    obtain ⟨hprotected, hnames⟩ := hguarded.lists.clean other hpages hclean
    refine ⟨hprotected, ?_⟩
    rw [hother other hprotected]
    exact hnames
  · exact hguarded.works.keep hbacked.blocksNamed (BlocksDirectory.Advances.refl ∅ _) rfl rfl
      (fun _ _ _ _ _ => Iff.rfl) fun worker other stage _ _ hprotected =>
        ⟨hprotected, hother other hprotected⟩

/-- An access that faults. -/
theorem Guarded.fault (hguarded : Guarded blocks state) {address : ℕ} {isWrite : Bool}
    (hstart : state.manager.regionStartAddress ≤ address) (hword : address < 2 ^ 64)
    (hblock : state.manager.blockIndex address < state.manager.numBlocks) :
    Guarded blocks
      { state with messages := state.messages ++ [state.manager.faultEvent address isWrite] } := by
  refine ⟨hguarded.backed, ⟨fun event hevent => ?_, hguarded.delivers.queues⟩, hguarded.lists,
    hguarded.works⟩
  rcases List.mem_append.mp hevent with hold | hnew
  · exact hguarded.delivers.messages event hold
  · rw [List.mem_singleton.mp hnew, UffdVirtualMemoryManager.faultEvent]
    split_ifs with hinstalled
    · exact ⟨hstart, hword, hblock, fun _ => hinstalled⟩
    · exact ⟨hstart, hword, hblock, fun hwp => by cases hwp⟩

/-- A message is read; the filter may drop it. -/
theorem Guarded.dispatch (hguarded : Guarded blocks state) {message : FaultEvent}
    (hmessage : message ∈ state.messages) :
    Guarded blocks
      { state with
        messages := state.messages.erase message
        queues := state.manager.addPageFaultEvent state.queues message } := by
  refine ⟨hguarded.backed, ⟨fun event hevent =>
    hguarded.delivers.messages event (List.mem_of_mem_erase hevent), ?_⟩, hguarded.lists,
    hguarded.works⟩
  have harises := hguarded.delivers.messages message hmessage
  have hregion := UffdVirtualMemoryManager.eventSubRegion_eq harises.start harises.word
  intro subRegion event hevent
  unfold UffdVirtualMemoryManager.addPageFaultEvent at hevent
  dsimp only at hevent
  split_ifs at hevent with hfound
  · exact hguarded.delivers.queues subRegion event hevent
  · by_cases hsame : subRegion = state.manager.eventSubRegion message.address
    · rw [hsame, Function.update_self] at hevent
      rcases List.mem_append.mp hevent with hold | hnew
      · rw [hsame]
        exact hguarded.delivers.queues _ event hold
      · rw [List.mem_singleton.mp hnew, hsame]
        exact ⟨harises, hregion.symm⟩
    · rw [Function.update_of_ne hsame] at hevent
      exact hguarded.delivers.queues subRegion event hevent

/-! ## The handlers -/

/-- The manager after a block got its pages. -/
def loaded (manager : UffdVirtualMemoryManager Hash) (noted : ℕ → Option (Option Hash))
    (tempBuffer : ℕ → List Byte) (subRegion block : ℕ) (content : List Byte)
    (isWriteFault : Bool) : UffdVirtualMemoryManager Hash :=
  UffdVirtualMemoryManager.makePresent
    { manager.looked noted tempBuffer with
      installed := Function.update manager.installed block true
      writeProtected := Function.update manager.writeProtected block (!isWriteFault)
      memory := Function.update manager.memory block content } subRegion block isWriteFault

/-- Only a write fault changes the dirty list. -/
theorem loaded_eq (noted : ℕ → Option (Option Hash)) (tempBuffer : ℕ → List Byte)
    (subRegion block : ℕ) (content : List Byte) (isWriteFault : Bool) :
    ∃ cleanLru dirtyLru presentBlocks,
      loaded manager noted tempBuffer subRegion block content isWriteFault =
        { manager.looked noted tempBuffer with
          cleanLru := cleanLru
          dirtyLru := dirtyLru
          presentBlocks := presentBlocks
          installed := Function.update manager.installed block true
          writeProtected := Function.update manager.writeProtected block (!isWriteFault)
          memory := Function.update manager.memory block content } ∧
      ∀ list other, other ∈ dirtyLru list ↔
        other ∈ manager.dirtyLru list ∨
          (isWriteFault = true ∧ other = block ∧ list = subRegion) := by
  cases isWriteFault with
  | false => exact ⟨_, _, _, rfl, fun list other => by simp [UffdVirtualMemoryManager.looked]⟩
  | true =>
      refine ⟨_, _, _, rfl, fun list other => ?_⟩
      exact UffdVirtualMemoryManager.mem_update_cons.trans
        (by simp [UffdVirtualMemoryManager.looked])

/-- What an iteration of a handler has done that found room. -/
inductive Handled (blocks : BlocksDirectory Hash) (manager : UffdVirtualMemoryManager Hash)
    (files : FileSystem Hash) (subRegion block : ℕ) (event : FaultEvent) :
    UffdVirtualMemoryManager Hash → FileSystem Hash → Prop
  | skipped (hskips : manager.skips subRegion event = true) :
      Handled blocks manager files subRegion block event manager files
  | unprotected (hskips : manager.skips subRegion event = false) (hwp : event.isWpFault = true) :
      Handled blocks manager files subRegion block event
        ((manager.moveToDirty subRegion block).protect block false) files
  | filled {noted : ℕ → Option (Option Hash)} {tempBuffer : ℕ → List Byte}
      {files' : FileSystem Hash} {content : List Byte}
      (hskips : manager.skips subRegion event = false) (hmissing : event.isWpFault = false)
      (habsent : manager.installed block = false) (hlength : content.length = blocks.blockSize)
      (hnames : blocks.Names files (manager.blocksIds block) content)
      (hnoted : ∀ other, other ≠ block →
        noted other = manager.blockStorage.stashCommittedBlockIds other)
      (hbuffers : ∀ other, (tempBuffer other).length = blocks.blockSize)
      (hadvances : blocks.Advances ∅ files files') :
      Handled blocks manager files subRegion block event
        (loaded manager noted tempBuffer subRegion block content event.isWriteFault) files'

theorem run_handleEvent [DecidableEq Hash] (hsound : blocks.build.Sound)
    (hbacked : Backed blocks manager files) {subRegion : ℕ} {event : FaultEvent}
    (hblock : manager.blockIndex event.address < manager.numBlocks)
    (hroom : manager.skips subRegion event = false → event.isWpFault = false →
      (manager.presentBlocks subRegion).card * manager.blockSize < manager.maxMemSize)
    (hrun : (UffdVirtualMemoryManager.handleEvent blocks.build manager subRegion event).run
      FileSystem.answer files = (.returned manager', files')) :
    Handled blocks manager files subRegion (manager.blockIndex event.address) event manager'
      files' := by
  unfold UffdVirtualMemoryManager.handleEvent at hrun
  generalize manager.blockIndex event.address = block at hblock hrun
  cases hskips : manager.skips subRegion event with
  | true =>
      rw [hskips, if_pos rfl] at hrun
      cases hrun
      exact .skipped hskips
  | false =>
      rw [hskips, if_neg Bool.false_ne_true] at hrun
      cases hwp : event.isWpFault with
      | true =>
          rw [hwp, if_pos rfl, UffdVirtualMemoryManager.handleWpFault] at hrun
          have hunstashed : block ∉ manager.stashSet subRegion := by
            rw [hbacked.stashSet]
            exact Finset.notMem_empty block
          split_ifs at hrun with hreadOnly
          · cases hrun
          · cases hrun
            exact .unprotected hskips hwp
      | false =>
          rw [hwp, if_neg Bool.false_ne_true, UffdVirtualMemoryManager.handleMissing] at hrun
          have hevict : (UffdVirtualMemoryManager.evictIfNeeded manager subRegion).run
              FileSystem.answer files = (.returned manager, files) := by
            rw [UffdVirtualMemoryManager.evictIfNeeded, if_neg (not_le.mpr (hroom hskips hwp))]
            rfl
          rw [Program.run_bind_of_returned hevict] at hrun
          have habsent : manager.installed block = false := by
            obtain ⟨⟨content, found⟩, between, hload, hrest⟩ := Program.run_bind_returned hrun
            obtain ⟨filled, between', hinstall, -⟩ := Program.run_bind_returned hrest
            obtain ⟨storage, tempBuffer, hfound⟩ :=
              UffdVirtualMemoryManager.loadContent_returns (Program.returns_of_run hload)
            have hfree := (UffdVirtualMemoryManager.install_returns
              (Program.returns_of_run hinstall)).1
            dsimp only at hfound hfree
            rwa [hfound] at hfree
          obtain ⟨content, hlength, hnames⟩ := hbacked.absent block hblock habsent
          obtain ⟨noted, tempBuffer, between, hload, hnoted, hbuffers, hadvances⟩ :=
            UffdVirtualMemoryManager.run_loadContent_of_names hsound hbacked.blockSize
              hbacked.baseDirectory (hbacked.unstashed block) (hbacked.unnoted block habsent)
              hbacked.tempBuffer hbacked.named hlength hnames subRegion
          rw [Program.run_bind_of_returned hload, UffdVirtualMemoryManager.install] at hrun
          have habsent' : (manager.looked noted tempBuffer).installed block = false := habsent
          simp only [habsent', Bool.false_eq_true, if_false] at hrun
          cases hrun
          exact .filled hskips hwp habsent hlength hnames hnoted hbuffers hadvances

/-- A handler takes the first event of its queue. -/
theorem Delivers.dequeue {messages : List FaultEvent} {queues : ℕ → EventQueue}
    (hdelivers : Delivers manager messages queues) {subRegion : ℕ} {event : FaultEvent}
    {events : EventQueue} (hdequeue : (queues subRegion).dequeue = some (event, events))
    (skipped : Bool) :
    (Arises manager event ∧ manager.subRegion (manager.blockIndex event.address) = subRegion) ∧
      Delivers manager messages (Function.update queues subRegion
        (if skipped then events else events.removeProcessed event)) := by
  have hqueue : (queues subRegion).queue = event :: events.queue := by
    unfold EventQueue.dequeue at hdequeue
    cases hwaiting : (queues subRegion).queue with
    | nil =>
        rw [hwaiting] at hdequeue
        cases hdequeue
    | cons first rest =>
        rw [hwaiting] at hdequeue
        cases hdequeue
        rfl
  have hrest : (if skipped then events else events.removeProcessed event).queue = events.queue := by
    cases skipped with
    | true => rfl
    | false => rfl
  refine ⟨hdelivers.queues subRegion event (by rw [hqueue]; exact List.mem_cons_self),
    hdelivers.messages, fun other waiting hwaiting => ?_⟩
  by_cases hsame : other = subRegion
  · subst hsame
    rw [Function.update_self, hrest] at hwaiting
    exact hdelivers.queues other waiting (by rw [hqueue]; exact List.mem_cons_of_mem _ hwaiting)
  · rw [Function.update_of_ne hsame] at hwaiting
    exact hdelivers.queues other waiting hwaiting

variable {subRegion : ℕ}

/-- A block of a sub-region is made writable.  If `msync` runs there, the block is in its
vector, and its workers have still to protect it. -/
theorem Guarded.unprotect (hguarded : Guarded blocks state)
    (hinstalled : state.manager.installed block = true)
    (hregion : state.manager.subRegion block = subRegion)
    (hawaits : ∀ dirtyLruVector stages, state.phase = .running subRegion dirtyLruVector stages →
      block ∈ dirtyLruVector ∧
        ∀ worker stage, state.phase.At worker block stage → stage.guarded = none) :
    Guarded blocks { state with
      manager := (state.manager.moveToDirty subRegion block).protect block false } := by
  have hbacked := hguarded.backed
  have hmem : ∀ list other, other ∈ Function.update state.manager.dirtyLru subRegion
      (block :: state.manager.dirtyLru subRegion) list ↔
        other ∈ state.manager.dirtyLru list ∨ (other = block ∧ list = subRegion) :=
    fun list other => UffdVirtualMemoryManager.mem_update_cons
  have hother : ∀ other, other ≠ block →
      Function.update state.manager.writeProtected block false other =
        state.manager.writeProtected other := fun other hne => Function.update_of_ne hne _ _
  refine ⟨⟨hbacked.blockSize, hbacked.baseDirectory, hbacked.granularity, hbacked.unstashed,
      hbacked.unnoted, hbacked.tempBuffer, hbacked.stashSet, hbacked.named, hbacked.length,
      hbacked.absent⟩, hguarded.delivers.keep rfl rfl rfl rfl fun _ hpages => hpages,
    ⟨fun list other hdirty => ?_, fun other hpages hclean => ?_⟩, ?_⟩
  · rcases (hmem list other).mp hdirty with hbefore | ⟨rfl, rfl⟩
    · exact hguarded.lists.dirty list other hbefore
    · exact ⟨hinstalled, hregion⟩
  · have hclean' := mt (hmem _ other).mpr hclean
    have hne : other ≠ block := fun hsame => hclean' (.inr ⟨hsame, by rw [hsame]; exact hregion⟩)
    obtain ⟨hprotected, hnames⟩ :=
      hguarded.lists.clean other hpages fun hbefore => hclean' (.inl hbefore)
    exact ⟨(hother other hne).trans hprotected, hnames⟩
  · refine hguarded.works.keep hbacked.blocksNamed (BlocksDirectory.Advances.refl ∅ _) rfl rfl
      (fun running dirtyLruVector stages hphase other => (hmem running other).trans ?_)
      fun worker other stage hat hstage hprotected => ⟨(hother other ?_).trans hprotected, rfl⟩
    · refine or_iff_left_of_imp ?_
      rintro ⟨rfl, rfl⟩
      exact (hguarded.works.vector _ _ _ hphase other).mp (hawaits _ _ hphase).1
    · rintro rfl
      obtain ⟨running, dirtyLruVector, stages, hphase, hmember⟩ := hat.running
      have hdirty := (hguarded.works.vector _ _ _ hphase other).mp hmember
      have hsame : running = subRegion := (hguarded.lists.dirty _ _ hdirty).2.symm.trans hregion
      subst hsame
      exact hstage ((hawaits _ _ hphase).2 worker stage hat)

/-- A block gets its pages.  If `msync` runs on its sub-region, it is not dirty. -/
theorem Guarded.load (hguarded : Guarded blocks state)
    {noted : ℕ → Option (Option Hash)} {tempBuffer : ℕ → List Byte} {isWriteFault : Bool}
    (habsent : state.manager.installed block = false)
    (hregion : state.manager.subRegion block = subRegion)
    (hlength : content.length = blocks.blockSize)
    (hnames : blocks.Names state.files (state.manager.blocksIds block) content)
    (hnoted : ∀ other, other ≠ block →
      noted other = state.manager.blockStorage.stashCommittedBlockIds other)
    (hbuffers : ∀ other, (tempBuffer other).length = blocks.blockSize)
    (hadvances : blocks.Advances ∅ state.files files')
    (hreads : ∀ dirtyLruVector stages, state.phase = .running subRegion dirtyLruVector stages →
      isWriteFault = false) :
    Guarded blocks { state with
      manager := loaded state.manager noted tempBuffer subRegion block content isWriteFault
      files := files' } := by
  have hbacked := hguarded.backed
  have hnamed := hbacked.blocksNamed
  have hkeeps := keeps_of_advances hadvances hnamed
  obtain ⟨cleanLru, dirtyLru, presentBlocks, hloaded, hmem⟩ := loaded_eq noted tempBuffer subRegion
    block content isWriteFault
  rw [hloaded]
  have hpages : ∀ other, Function.update state.manager.installed block true other = true →
      other = block ∨ (other ≠ block ∧ state.manager.installed other = true) := by
    intro other hother
    by_cases hsame : other = block
    · exact .inl hsame
    · rw [Function.update_of_ne hsame] at hother
      exact .inr ⟨hsame, hother⟩
  have hmissing : ∀ other, Function.update state.manager.installed block true other = false →
      other ≠ block ∧ state.manager.installed other = false := by
    intro other hother
    by_cases hsame : other = block
    · rw [hsame, Function.update_self] at hother
      cases hother
    · rw [Function.update_of_ne hsame] at hother
      exact ⟨hsame, hother⟩
  have hne : ∀ other, state.manager.installed other = true → other ≠ block := by
    rintro other hinstalled rfl
    cases habsent.symm.trans hinstalled
  have hinstalled : ∀ other, state.manager.installed other = true →
      Function.update state.manager.installed block true other = true := fun other hother =>
    (Function.update_of_ne (hne other hother) _ _).trans hother
  refine ⟨⟨hbacked.blockSize, hbacked.baseDirectory, hbacked.granularity, hbacked.unstashed,
      fun other hother => ?_, hbuffers, hbacked.stashSet, hadvances.named hbacked.named,
      fun other hother => ?_, fun other hlt hother => ?_⟩,
    hguarded.delivers.keep rfl rfl rfl rfl hinstalled,
    ⟨fun list other hdirty => ?_, fun other hother hclean => ?_⟩, ?_⟩
  · obtain ⟨hsame, hbefore⟩ := hmissing other hother
    exact (hnoted other hsame).trans (hbacked.unnoted other hbefore)
  · rcases hpages other hother with rfl | ⟨hsame, hbefore⟩
    · change (Function.update state.manager.memory other content other).length = blocks.blockSize
      rw [Function.update_self, hlength]
    · change (Function.update state.manager.memory block content other).length = blocks.blockSize
      rw [Function.update_of_ne hsame, hbacked.length other hbefore]
  · obtain ⟨content', hlength', hnames'⟩ := hbacked.absent other hlt (hmissing other hother).2
    exact ⟨content', hlength', hnames'.keep hkeeps⟩
  · rcases (hmem list other).mp hdirty with hbefore | ⟨-, rfl, rfl⟩
    · obtain ⟨hthere, hlist⟩ := hguarded.lists.dirty list other hbefore
      exact ⟨hinstalled other hthere, hlist⟩
    · exact ⟨Function.update_self _ _ _, hregion⟩
  · have hclean' := mt (hmem _ other).mpr hclean
    rcases hpages other hother with rfl | ⟨hsame, hbefore⟩
    · have hread : isWriteFault = false := by
        by_contra hwrite
        exact hclean' (.inr ⟨Bool.eq_true_of_not_eq_false hwrite, rfl, hregion⟩)
      subst hread
      refine ⟨Function.update_self _ _ _, ?_⟩
      change blocks.Names files' _ (Function.update state.manager.memory other content other)
      rw [Function.update_self]
      exact hnames.keep hkeeps
    · obtain ⟨hprotected, hnames'⟩ :=
        hguarded.lists.clean other hbefore fun hdirty => hclean' (.inl hdirty)
      refine ⟨(Function.update_of_ne hsame _ _).trans hprotected, ?_⟩
      change blocks.Names files' _ (Function.update state.manager.memory block content other)
      rw [Function.update_of_ne hsame]
      exact hnames'.keep hkeeps
  · refine hguarded.works.keep hnamed hadvances rfl rfl
      (fun running dirtyLruVector stages hphase other => (hmem running other).trans ?_)
      fun worker other stage hat hstage hprotected => ?_
    · refine or_iff_left_of_imp ?_
      rintro ⟨hwrite, -, rfl⟩
      cases hwrite.symm.trans (hreads _ _ hphase)
    · have hsame := hne other (hguarded.works.listed hguarded.lists hat).1
      exact ⟨(Function.update_of_ne hsame _ _).trans hprotected, Function.update_of_ne hsame _ _⟩

/-! ## The workers -/

variable {onStash : Bool} {name : Hash} {prepared : Prepared Hash}

theorem Guarded.hash (hguarded : Guarded blocks state)
    (hat : state.phase.At worker block (.hashing onStash)) (name : Hash) :
    Guarded blocks
      { state with phase := state.phase.advance worker (.writing onStash name) } :=
  ⟨hguarded.backed, hguarded.delivers, hguarded.lists,
    hguarded.works.advance hat hguarded.backed.blocksNamed (BlocksDirectory.Advances.refl ∅ _)
      (fun _ _ _ _ _ _ _ => ⟨Set.notMem_empty _, fun hdrawn => by cases hdrawn⟩) rfl rfl rfl
      (fun _ hprotected => hprotected) trivial (.inl ⟨rfl, rfl⟩)⟩

/-- The temporary file of a worker was drawn some time ago. -/
theorem Works.drawn_lt (hworks : Works blocks manager files phase)
    (hat : phase.At worker block stage) {number : ℕ} (hdrawn : stage.drawn = some number) :
    number < files.fresh := by
  cases stage with
  | publishing onStash name prepared =>
      obtain ⟨number', hlt, hnumber⟩ := (hworks.reached worker block _ hat).1.drawn
      cases hdrawn.symm.trans hnumber
      exact hlt
  | _ => cases hdrawn

/-- What was hashed is written, or a file of its name is there. -/
theorem Guarded.writeTemporary [DecidableEq Hash] (hguarded : Guarded blocks state)
    (hat : state.phase.At worker block (.writing onStash name))
    (hbuffer : (state.files.data
        (state.manager.blockStorage.tierFile blocks.build name onStash)).isSome ∨
      blocks.build.computeHash (state.manager.memory block) = name)
    (hrun : (BlockStorage.prepareBlock blocks.build state.manager.blockStorage
      (state.manager.memory block) block onStash name).run FileSystem.answer state.files =
        (.returned (some prepared), files')) :
    Guarded blocks { state with
      files := files'
      phase := state.phase.advance worker (.publishing onStash name prepared) } := by
  have hbacked := hguarded.backed
  have hnamed := hbacked.blocksNamed
  obtain ⟨hinstalled, -⟩ := hguarded.works.listed hguarded.lists hat
  obtain ⟨hadvances, hpending, hdrawn, hfound⟩ := BlockStorage.prepareBlock_returned
    hbacked.granularity (hbacked.length block hinstalled) hbuffer hrun
  refine ⟨hbacked.advance hadvances, hguarded.delivers, hguarded.lists.advance hnamed hadvances,
    hguarded.works.advance hat hnamed hadvances ?_ rfl rfl rfl (fun _ hprotected => hprotected)
      ⟨hpending, ?_⟩ (.inl ⟨rfl, rfl⟩)⟩
  · intro other block' stage' number _ hother hnumber
    refine ⟨Set.notMem_empty _, fun hsame => ?_⟩
    have hlt := hguarded.works.drawn_lt hother hnumber
    cases hdrawn.symm.trans hsame
    exact lt_irrefl _ hlt
  · rintro htaken rfl
    have hfile : blocks.blockFile name =
        state.manager.blockStorage.tierFile blocks.build name false := by
      rw [BlocksDirectory.blockFile, ← hbacked.baseDirectory]
      rfl
    obtain ⟨content, hstored⟩ := hnamed.stored (by rw [hfile]; exact hfound htaken)
    exact ⟨content, hstored.keep (keeps_of_advances hadvances hnamed)⟩

/-- A block gets its name; the base tier comes last. -/
theorem Guarded.rename [DecidableEq Hash] (hsound : blocks.build.Sound)
    (hguarded : Guarded blocks state)
    (hat : state.phase.At worker block (.publishing onStash name prepared)) {stored : Hash}
    (hrun : (BlockStorage.publishPrepared prepared name).run FileSystem.answer state.files =
      (.returned (some stored), files')) :
    Guarded blocks { state with
      files := files'
      phase := state.phase.advance worker
        (if onStash then .hashing false else .naming stored) } := by
  have hbacked := hguarded.backed
  have hnamed := hbacked.blocksNamed
  obtain ⟨hpending, hfound⟩ := hguarded.works.reached worker block _ hat
  obtain ⟨number, -, hdrawn⟩ := hpending.drawn
  obtain ⟨hresult, hadvances, hpublished⟩ :=
    BlockStorage.publishPrepared_returned hsound hpending hdrawn hrun
  cases hresult
  refine ⟨hbacked.advance hadvances, hguarded.delivers, hguarded.lists.advance hnamed hadvances,
    hguarded.works.advance hat hnamed hadvances ?_ rfl rfl rfl (fun _ hprotected => hprotected)
      ?_ (.inl ⟨rfl, ?_⟩)⟩
  · intro other block' stage' number' hne hother hnumber
    refine ⟨?_, fun hnext => ?_⟩
    · rintro rfl
      exact hne (hguarded.works.distinct _ _ _ _ _ _ number' hother hat hnumber hdrawn)
    · cases onStash with
      | true => cases hnext
      | false => cases hnext
  · cases onStash with
    | true => trivial
    | false =>
        cases htaken : prepared.found with
        | true =>
            obtain ⟨content, hstored⟩ := hfound htaken rfl
            exact ⟨content, hstored.keep (keeps_of_advances hadvances hnamed)⟩
        | false =>
            obtain ⟨content, hstored⟩ := hpublished htaken
            have hlocation : state.manager.blockStorage.tierDirectory false = blocks.location :=
              hbacked.baseDirectory
            rw [hlocation] at hstored
            exact ⟨content, hstored⟩
  · cases onStash with
    | true => rfl
    | false => rfl

/-- Recording a name touches the notes and the names of its block alone. -/
theorem recordStored_eq (base : VirtualMemoryManagerBase Hash) (block : ℕ) (name : Hash) :
    ∃ noted, base.recordStored (block, name) =
        { base with
          blockStorage := { base.blockStorage with stashCommittedBlockIds := noted }
          blocksIds := Function.update base.blocksIds block name } ∧
      ∀ other, other ≠ block → noted other = base.blockStorage.stashCommittedBlockIds other := by
  unfold VirtualMemoryManagerBase.recordStored BlockStorage.noteStored
  split_ifs with hnoted
  · exact ⟨_, rfl, fun _ _ => rfl⟩
  · exact ⟨_, rfl, fun other hother => Function.update_of_ne hother _ _⟩

theorem Guarded.setBlocksId (hguarded : Guarded blocks state)
    (hat : state.phase.At worker block (.naming name)) :
    Guarded blocks { state with
      manager := { state.manager with base := state.manager.base.recordStored (block, name) }
      phase := state.phase.advance worker (.protecting name) } := by
  have hbacked := hguarded.backed
  obtain ⟨hinstalled, hdirty⟩ := hguarded.works.listed hguarded.lists hat
  obtain ⟨noted, hrecorded, hnoted⟩ := recordStored_eq state.manager.base block name
  rw [hrecorded]
  have hids : ∀ other, other ≠ block →
      Function.update state.manager.blocksIds block name other = state.manager.blocksIds other :=
    fun other hother => Function.update_of_ne hother _ _
  refine ⟨⟨hbacked.blockSize, hbacked.baseDirectory, hbacked.granularity, hbacked.unstashed,
      fun other habsent => ?_, hbacked.tempBuffer, hbacked.stashSet, hbacked.named, hbacked.length,
      fun other hlt habsent => ?_⟩,
    hguarded.delivers.keep rfl rfl rfl rfl fun _ hpages => hpages,
    ⟨hguarded.lists.dirty, fun other hpages hclean => ?_⟩, ?_⟩
  · have hne : other ≠ block := by
      rintro rfl
      cases hinstalled.symm.trans habsent
    exact (hnoted other hne).trans (hbacked.unnoted other habsent)
  · have hne : other ≠ block := by
      rintro rfl
      cases hinstalled.symm.trans habsent
    obtain ⟨content, hlength, hnames⟩ := hbacked.absent other hlt habsent
    refine ⟨content, hlength, ?_⟩
    change blocks.Names state.files (Function.update state.manager.blocksIds block name other) _
    rw [hids other hne]
    exact hnames
  · have hne : other ≠ block := by
      rintro rfl
      exact hclean hdirty
    obtain ⟨hprotected, hnames⟩ := hguarded.lists.clean other hpages hclean
    refine ⟨hprotected, ?_⟩
    change blocks.Names state.files (Function.update state.manager.blocksIds block name other) _
    rw [hids other hne]
    exact hnames
  · exact hguarded.works.advance hat hbacked.blocksNamed (BlocksDirectory.Advances.refl ∅ _)
      (fun _ _ _ _ _ _ _ => ⟨Set.notMem_empty _, fun hdrawn => by cases hdrawn⟩) rfl rfl rfl
      (fun _ hprotected => hprotected) (hguarded.works.reached worker block _ hat)
      (.inr ⟨name, rfl, rfl⟩)

/-- A block is protected as it was hashed. -/
theorem Guarded.writeProtect (hguarded : Guarded blocks state)
    (hat : state.phase.At worker block (.protecting name))
    (hhash : blocks.build.computeHash (state.manager.memory block) = name) :
    Guarded blocks { state with
      manager := state.manager.protect block true
      phase := state.phase.advance worker (.pushing name) } := by
  have hbacked := hguarded.backed
  have hprotects : ∀ other, state.manager.writeProtected other = true →
      Function.update state.manager.writeProtected block true other = true := by
    intro other hprotected
    by_cases hsame : other = block
    · rw [hsame, Function.update_self]
    · rw [Function.update_of_ne hsame, hprotected]
  refine ⟨⟨hbacked.blockSize, hbacked.baseDirectory, hbacked.granularity, hbacked.unstashed,
      hbacked.unnoted, hbacked.tempBuffer, hbacked.stashSet, hbacked.named, hbacked.length,
      hbacked.absent⟩, hguarded.delivers.keep rfl rfl rfl rfl fun _ hpages => hpages,
    ⟨hguarded.lists.dirty, fun other hpages hclean => ?_⟩, ?_⟩
  · obtain ⟨hprotected, hnames⟩ := hguarded.lists.clean other hpages hclean
    exact ⟨hprotects other hprotected, hnames⟩
  · exact hguarded.works.advance hat hbacked.blocksNamed (BlocksDirectory.Advances.refl ∅ _)
      (fun _ _ _ _ _ _ _ => ⟨Set.notMem_empty _, fun hdrawn => by cases hdrawn⟩) rfl rfl rfl
      hprotects ⟨hguarded.works.reached worker block _ hat, Function.update_self _ _ _, hhash⟩
      (.inl ⟨rfl, rfl⟩)

theorem Guarded.pushClean (hguarded : Guarded blocks state)
    (hat : state.phase.At worker block (.pushing name)) :
    Guarded blocks { state with
      manager := state.manager.pushClean block
      phase := state.phase.advance worker (.done name) } := by
  have hbacked := hguarded.backed
  exact ⟨⟨hbacked.blockSize, hbacked.baseDirectory, hbacked.granularity, hbacked.unstashed,
      hbacked.unnoted, hbacked.tempBuffer, hbacked.stashSet, hbacked.named, hbacked.length,
      hbacked.absent⟩, hguarded.delivers.keep rfl rfl rfl rfl fun _ hpages => hpages,
    ⟨hguarded.lists.dirty, hguarded.lists.clean⟩,
    hguarded.works.advance hat hbacked.blocksNamed (BlocksDirectory.Advances.refl ∅ _)
      (fun _ _ _ _ _ _ _ => ⟨Set.notMem_empty _, fun hdrawn => by cases hdrawn⟩) rfl rfl rfl
      (fun _ hprotected => hprotected) (hguarded.works.reached worker block _ hat)
      (.inl ⟨rfl, rfl⟩)⟩

/-- A phase in which no worker runs has nothing to keep. -/
theorem Works.of_not_at (hphase : ∀ subRegion dirtyLruVector stages,
    phase ≠ .running subRegion dirtyLruVector stages) : Works blocks manager files phase where
  vector := fun subRegion dirtyLruVector stages hrunning =>
    absurd hrunning (hphase subRegion dirtyLruVector stages)
  reached := fun worker block stage hat => by
    obtain ⟨subRegion, dirtyLruVector, stages, hrunning, -⟩ := hat.running
    exact absurd hrunning (hphase _ _ _)
  recorded := fun worker block stage name hat => by
    obtain ⟨subRegion, dirtyLruVector, stages, hrunning, -⟩ := hat.running
    exact absurd hrunning (hphase _ _ _)
  distinct := fun worker block stage worker' block' stage' number hat => by
    obtain ⟨subRegion, dirtyLruVector, stages, hrunning, -⟩ := hat.running
    exact absurd hrunning (hphase _ _ _)

/-- The name of a block that all of its workers have protected stands for its contents. -/
theorem Works.names (hsound : blocks.build.Sound) (hworks : Works blocks manager files phase)
    (hdone : ∀ worker block stage, phase.At worker block stage → ∃ name, stage = .done name)
    (hat : phase.At worker block stage) :
    manager.writeProtected block = true ∧
      blocks.Names files (manager.blocksIds block) (manager.memory block) := by
  obtain ⟨name, rfl⟩ := hdone worker block stage hat
  obtain ⟨other, stage', hother, hrecorded⟩ := hworks.recorded worker block _ name hat rfl
  obtain ⟨name', rfl⟩ := hdone other block stage' hother
  obtain ⟨⟨content, hstored⟩, hprotected, hhash⟩ := hworks.reached other block _ hother
  have hname : name' = manager.blocksIds block := Option.some.inj hrecorded
  have hcontent : content = manager.memory block :=
    hsound.computeHash_injective (hstored.hash.trans hhash.symm)
  rw [← hname, ← hcontent]
  exact ⟨hprotected, .inr hstored⟩

/-- The clear drops blocks that their workers have protected. -/
theorem Guarded.clear (hsound : blocks.build.Sound) (hguarded : Guarded blocks state)
    {dirtyLruVector : List ℕ} {stages : ℕ → WorkerStage Hash}
    (hphase : state.phase = .running subRegion dirtyLruVector stages)
    (hdone : ∀ worker block stage, state.phase.At worker block stage → ∃ name, stage = .done name) :
    Guarded blocks { state with
      manager := state.manager.clearDirty subRegion
      phase := .returned subRegion } := by
  have hbacked := hguarded.backed
  refine ⟨⟨hbacked.blockSize, hbacked.baseDirectory, hbacked.granularity, hbacked.unstashed,
      hbacked.unnoted, hbacked.tempBuffer, hbacked.stashSet, hbacked.named, hbacked.length,
      hbacked.absent⟩, hguarded.delivers.keep rfl rfl rfl rfl fun _ hpages => hpages,
    ⟨fun list other hdirty => ?_, fun other hpages hclean => ?_⟩,
    Works.of_not_at fun _ _ _ hrunning => by cases hrunning⟩
  · change other ∈ Function.update state.manager.dirtyLru subRegion [] list at hdirty
    by_cases hsame : list = subRegion
    · rw [hsame, Function.update_self] at hdirty
      exact absurd hdirty List.not_mem_nil
    · rw [Function.update_of_ne hsame] at hdirty
      exact hguarded.lists.dirty list other hdirty
  · change other ∉ Function.update state.manager.dirtyLru subRegion []
      (state.manager.subRegion other) at hclean
    by_cases hdirty : other ∈ state.manager.dirtyLru (state.manager.subRegion other)
    · have hsame : state.manager.subRegion other = subRegion := by
        by_contra hne
        rw [Function.update_of_ne hne] at hclean
        exact hclean hdirty
      rw [hsame] at hdirty
      have hmember := (hguarded.works.vector _ _ _ hphase other).mpr hdirty
      obtain ⟨worker, hworker⟩ := List.mem_iff_getElem?.mp hmember
      have hat : state.phase.At worker other (stages worker) := by
        rw [hphase]
        exact ⟨hworker, rfl⟩
      have hnames := hguarded.works.names hsound hdone hat
      exact hnames
    · exact hguarded.lists.clean other hpages hdirty

theorem Guarded.copy (hguarded : Guarded blocks state) (subRegion : ℕ) (onStash : Bool) :
    Guarded blocks { state with
      phase := .running subRegion (state.manager.dirtyLru subRegion)
        fun _ => .hashing onStash } := by
  have hhashing : ∀ worker block stage, MsyncPhase.At (.running subRegion
      (state.manager.dirtyLru subRegion) fun _ => .hashing onStash) worker block stage →
        stage = (.hashing onStash : WorkerStage Hash) := fun _ _ _ hat => hat.2.symm
  refine ⟨hguarded.backed, hguarded.delivers, hguarded.lists,
    ⟨fun running dirtyLruVector stages hphase other => ?_, fun worker block stage hat => ?_,
      fun worker block stage name hat hrecorded => ?_,
      fun worker block stage worker' block' stage' number hat _ hdrawn => ?_⟩⟩
  · cases hphase
    exact Iff.rfl
  · rw [hhashing worker block stage hat]
    trivial
  · rw [hhashing worker block stage hat] at hrecorded
    cases hrecorded
  · rw [hhashing worker block stage hat] at hdrawn
    cases hdrawn

/-! ## Runs -/

variable [DecidableEq Hash] {action : MsyncAction} {after : MsyncState Hash}

/-- What a step keeps that is none of those that go wrong. -/
theorem Guarded.step (hsound : blocks.build.Sound) (hguarded : Guarded blocks state)
    (hundisturbed : state.Undisturbed blocks.build action)
    (hstep : Step blocks.build state action after) : Guarded blocks after := by
  cases hstep with
  | write hpermits hlength => exact hguarded.write hpermits hlength
  | fault hstart hword hblock hfaults => exact hguarded.fault hstart hword hblock
  | dispatch hmessage => exact hguarded.dispatch hmessage
  | @handle subRegion event events handled files' hthread hdequeue hroom hrun =>
      obtain ⟨⟨harises, hregion⟩, hdelivers⟩ := hguarded.delivers.dequeue hdequeue
        (state.manager.skips subRegion event)
      have hqueued : Guarded blocks { state with
          queues := Function.update state.queues subRegion
            (if state.manager.skips subRegion event then events
              else events.removeProcessed event) } :=
        ⟨hguarded.backed, hdelivers, hguarded.lists, hguarded.works⟩
      have hhandled := run_handleEvent hsound hguarded.backed harises.block hroom hrun
      cases hhandled with
      | skipped hskips => exact hqueued
      | unprotected hskips hwp =>
          refine hqueued.unprotect (harises.installed hwp) hregion
            fun dirtyLruVector stages hphase => ?_
          exact (hundisturbed event events _ _ hdequeue hphase hskips).2 hwp
      | filled hskips hmissing habsent hlength hnames hnoted hbuffers hadvances =>
          refine hqueued.load habsent hregion hlength hnames hnoted hbuffers hadvances
            fun dirtyLruVector stages hphase => ?_
          exact (hundisturbed event events _ _ hdequeue hphase hskips).1 hmissing
  | copy hthread hlock => exact hguarded.copy _ _
  | hash hat => exact hguarded.hash hat _
  | writeTemporary hat hrun =>
      exact hguarded.writeTemporary hat (hundisturbed _ _ _ hat) hrun
  | rename hat hrun => exact hguarded.rename hsound hat hrun
  | setBlocksId hat => exact hguarded.setBlocksId hat
  | writeProtect hat => exact hguarded.writeProtect hat (hundisturbed _ _ hat)
  | pushClean hat => exact hguarded.pushClean hat
  | clear hphase hdone => exact hguarded.clear hsound hphase hdone

/-- A session that has evicted nothing is between two calls of `msync`. -/
theorem Guarded.of_unevicted {region : ℕ → List Byte}
    (hunevicted : UffdVirtualMemoryManager.Unevicted blocks region manager files) :
    Guarded blocks (initial manager files) where
  backed :=
    { blockSize := hunevicted.blockSize
      baseDirectory := hunevicted.baseDirectory
      granularity := hunevicted.granularity
      unstashed := hunevicted.unstashed
      unnoted := hunevicted.unnoted
      tempBuffer := hunevicted.tempBuffer
      stashSet := hunevicted.pages.stashSet
      named := hunevicted.named
      length := fun block hinstalled => by
        rw [initial, hunevicted.memory block hinstalled, hunevicted.length]
      absent := fun block hblock habsent => ⟨region block, hunevicted.length block,
        hunevicted.names block hblock (UffdVirtualMemoryManager.not_dirty_of_absent habsent)⟩ }
  delivers := ⟨fun event hevent => absurd hevent List.not_mem_nil,
    fun _ event hevent => absurd hevent List.not_mem_nil⟩
  lists :=
    { dirty := fun subRegion block hdirty => by
        obtain ⟨hdirty, hregion⟩ := (hunevicted.pages.dirty subRegion block).mp hdirty
        exact ⟨hdirty.1, hregion⟩
      clean := fun block hinstalled hclean => by
        have hnot : ¬ manager.Dirty block := fun hdirty =>
          hclean ((hunevicted.pages.dirty _ block).mpr ⟨hdirty, rfl⟩)
        have hprotected : manager.writeProtected block = true :=
          Bool.eq_true_of_not_eq_false fun hwritable => hnot ⟨hinstalled, hwritable⟩
        refine ⟨hprotected, ?_⟩
        rw [initial, hunevicted.memory block hinstalled]
        exact hunevicted.names block (hunevicted.pages.installed_lt block hinstalled) hnot }
  works := Works.of_not_at fun _ _ _ hrunning => by cases hrunning

open UffdVirtualMemoryManager (Starts)

/-- Beside any writers, in every run that has no step of those that go wrong, the block
files are named by their contents, and `msync` forgets no block that has changed. -/
theorem msync_safe_beside_writers (hsound : blocks.build.Sound) (hpos : 0 < blocks.blockSize)
    {base : VirtualMemoryManagerBase Hash} {region : ℕ → Byte}
    (hstarts : Starts blocks files base files' region)
    (hnamed : blocks.TiersNamed base.blockStorage.tiers files) (regionStartAddress : ℕ)
    {numHandlingThreads : ℕ} (hthreads : 0 < numHandlingThreads)
    {trace : List (MsyncAction × MsyncState Hash)}
    (hrun : Run (Step blocks.build)
      (initial (.initial base regionStartAddress numHandlingThreads) files') trace)
    (hundisturbed : Run.Each (Undisturbed blocks.build)
      (initial (.initial base regionStartAddress numHandlingThreads) files') trace) :
    ∀ state ∈ Run.states
      (initial (.initial base regionStartAddress numHandlingThreads) files') trace,
        state.Safe blocks := by
  have hunevicted := (UffdVirtualMemoryManager.UnevictedSession.of_start hpos hstarts hnamed
    regionStartAddress hthreads).unevicted
  have hguarded := hrun.forall_states
    (fun _ _ _ hguarded hundisturbed hstep => hguarded.step hsound hundisturbed hstep)
    (Guarded.of_unevicted hunevicted) hundisturbed
  exact fun state hstate => (hguarded state hstate).safe

open UffdVirtualMemoryManager (twoBytes twoBytesFiles starts_twoBytes)

/-- A region of two blocks of one byte, before its first access. -/
def twoByteStart : MsyncState (Option (List Byte)) :=
  initial (.initial twoBytes 4096 1) twoBytesFiles

omit [DecidableEq Hash] in
/-- Where `msync` has one block, its only worker is the first. -/
theorem done_of_single {block : ℕ} {stages : ℕ → WorkerStage Hash} (hdone : stages 0 = .done name) :
    ∀ worker block' stage, (MsyncPhase.running subRegion [block] stages).At worker block' stage →
      ∃ blockHash, stage = .done blockHash := by
  rintro worker block' stage ⟨hblock, rfl⟩
  cases worker with
  | zero => exact ⟨name, hdone⟩
  | succ worker => cases hblock

omit [DecidableEq Hash] in
/-- A block that was just hashed is as it was hashed. -/
theorem undisturbed_of_hash (build : Build Hash)
    (hat : state.phase.At worker block (.hashing onStash)) :
    Undisturbed build
      { state with
        phase := state.phase.advance worker
          (.writing onStash (build.computeHash (state.manager.memory block))) }
      (.writeTemporary worker) := by
  intro block' onStash' blockHash hother
  rcases (MsyncPhase.at_advance_iff hat).mp hother with ⟨-, rfl, hstage⟩ | ⟨hne, -⟩
  · obtain ⟨-, rfl⟩ := WorkerStage.writing.inj hstage
    exact .inr rfl
  · exact absurd rfl hne

omit [DecidableEq Hash] in
/-- A block whose name was just recorded is as it was hashed if the name is its hash. -/
theorem undisturbed_of_setBlocksId (build : Build Hash)
    (hat : state.phase.At worker block (.naming name))
    (hhash : build.computeHash (state.manager.memory block) = name) :
    Undisturbed build
      { state with
        manager := { state.manager with base := state.manager.base.recordStored (block, name) }
        phase := state.phase.advance worker (.protecting name) } (.writeProtect worker) := by
  intro block' blockHash hother
  rcases (MsyncPhase.at_advance_iff hat).mp hother with ⟨-, rfl, hstage⟩ | ⟨hne, -⟩
  · rw [WorkerStage.protecting.inj hstage]
    exact hhash
  · exact absurd rfl hne

/-- While one byte is committed, the other one is read and the first is written once more
before its worker hashes it; a write that faults after it was protected is let in when
`msync` has returned. -/
theorem msync_safe_beside_writers_once :
    ∃ trace : List (MsyncAction × MsyncState (Option (List Byte))),
      trace.map Prod.fst = [.fault 4096 true, .dispatch ⟨4096, false, true⟩, .handle 0,
        .write 0 [7], .copy 0, .fault 4097 false, .dispatch ⟨4097, false, false⟩, .handle 0,
        .write 0 [8], .hash 0, .writeTemporary 0, .rename 0, .setBlocksId 0, .writeProtect 0,
        .fault 4096 true, .pushClean 0, .clear, .dispatch ⟨4096, true, false⟩, .handle 0,
        .write 0 [9]] ∧
      ∀ state ∈ Run.states twoByteStart trace, state.Safe byteBlocks := by
  obtain ⟨trace, hlabels, hrun, hundisturbed⟩ :
      ∃ trace : List (MsyncAction × MsyncState (Option (List Byte))),
        trace.map Prod.fst = [.fault 4096 true, .dispatch ⟨4096, false, true⟩, .handle 0,
          .write 0 [7], .copy 0, .fault 4097 false, .dispatch ⟨4097, false, false⟩, .handle 0,
          .write 0 [8], .hash 0, .writeTemporary 0, .rename 0, .setBlocksId 0, .writeProtect 0,
          .fault 4096 true, .pushClean 0, .clear, .dispatch ⟨4096, true, false⟩, .handle 0,
          .write 0 [9]] ∧
        Run (Step .transparent) twoByteStart trace ∧
        Run.Each (Undisturbed .transparent) twoByteStart trace := by
    refine ⟨[(.fault 4096 true, _), (.dispatch ⟨4096, false, true⟩, _), (.handle 0, _),
        (.write 0 [7], _), (.copy 0, _), (.fault 4097 false, _),
        (.dispatch ⟨4097, false, false⟩, _), (.handle 0, _), (.write 0 [8], _), (.hash 0, _),
        (.writeTemporary 0, _), (.rename 0, _), (.setBlocksId 0, _), (.writeProtect 0, _),
        (.fault 4096 true, _), (.pushClean 0, _), (.clear, _), (.dispatch ⟨4096, true, false⟩, _),
        (.handle 0, _), (.write 0 [9], _)], rfl,
      .cons (.fault (by decide) (by decide) (by decide) rfl)
        (.cons (.dispatch (by decide))
          (.cons (.handle (by decide) rfl (fun _ _ => by decide) rfl)
            (.cons (.write rfl rfl) (.cons (.copy (by decide) fun _ _ _ h => by cases h)
              (.cons (.fault (by decide) (by decide) (by decide) rfl)
                (.cons (.dispatch (by decide))
                  (.cons (.handle (by decide) rfl (fun _ _ => by decide) rfl)
                    (.cons (.write rfl rfl)
                      (.cons (.hash ⟨rfl, rfl⟩) (.cons (.writeTemporary ⟨rfl, rfl⟩ rfl)
                        (.cons (.rename ⟨rfl, rfl⟩ rfl) (.cons (.setBlocksId ⟨rfl, rfl⟩)
                          (.cons (.writeProtect ⟨rfl, rfl⟩)
                            (.cons (.fault (by decide) (by decide) (by decide) rfl)
                              (.cons (.pushClean ⟨rfl, rfl⟩)
                                (.cons (.clear rfl (done_of_single rfl))
                                  (.cons (.dispatch (by decide))
                                    (.cons (.handle (by decide) rfl (fun _ h => by cases h) rfl)
                                      (.cons (.write rfl rfl) .nil))))))))))))))))))),
      trivial, trivial, ?_, trivial, trivial, trivial, trivial, ?_, trivial, trivial, ?_, trivial,
      trivial, ?_, trivial, trivial, trivial, trivial, ?_, trivial, trivial⟩
    · exact fun _ _ _ _ _ hphase => by cases hphase
    · intro event events dirtyLruVector stages hdequeue _ _
      cases hdequeue
      exact ⟨fun _ => rfl, fun hwp => by cases hwp⟩
    · exact undisturbed_of_hash _ ⟨rfl, rfl⟩
    · exact undisturbed_of_setBlocksId _ ⟨rfl, rfl⟩ rfl
    · exact fun _ _ _ _ _ hphase => by cases hphase
  exact ⟨trace, hlabels, msync_safe_beside_writers Build.transparent_sound (by decide)
    starts_twoBytes (fun _ _ _ _ _ hbytes => by cases hbytes) 4096 (by decide) hrun hundisturbed⟩

/-- A write between the hash and the write of the file leaves a file under a wrong name.  A
write after the block was protected makes the block dirty again, and the clear drops it. -/
theorem msync_loses_writes :
    (∃ trace : List (MsyncAction × MsyncState (Option (List Byte))),
      Run (Step .transparent) twoByteStart trace ∧
      trace.map Prod.fst = [.fault 4096 true, .dispatch ⟨4096, false, true⟩, .handle 0,
        .write 0 [7], .copy 0, .hash 0, .write 0 [8], .writeTemporary 0, .rename 0] ∧
      ¬ (Run.last twoByteStart trace).Safe byteBlocks) ∧
    ∃ trace : List (MsyncAction × MsyncState (Option (List Byte))),
      Run (Step .transparent) twoByteStart trace ∧
      trace.map Prod.fst = [.fault 4096 true, .dispatch ⟨4096, false, true⟩, .handle 0,
        .write 0 [7], .copy 0, .hash 0, .writeTemporary 0, .rename 0, .setBlocksId 0,
        .writeProtect 0, .pushClean 0, .fault 4096 true, .dispatch ⟨4096, true, false⟩,
        .handle 0, .write 0 [8], .clear] ∧
      ¬ (Run.last twoByteStart trace).Safe byteBlocks := by
  constructor
  · refine ⟨[(.fault 4096 true, _), (.dispatch ⟨4096, false, true⟩, _), (.handle 0, _),
        (.write 0 [7], _), (.copy 0, _), (.hash 0, _), (.write 0 [8], _), (.writeTemporary 0, _),
        (.rename 0, _)],
      .cons (.fault (by decide) (by decide) (by decide) rfl)
        (.cons (.dispatch (by decide))
          (.cons (.handle (by decide) rfl (fun _ _ => by decide) rfl)
            (.cons (.write rfl rfl) (.cons (.copy (by decide) fun _ _ _ h => by cases h)
              (.cons (.hash ⟨rfl, rfl⟩) (.cons (.write rfl rfl)
                (.cons (.writeTemporary ⟨rfl, rfl⟩ rfl)
                  (.cons (.rename ⟨rfl, rfl⟩ rfl) .nil)))))))), rfl, ?_⟩
    rintro ⟨hnamed, -⟩
    obtain ⟨content, -, hhash, hbytes⟩ := hnamed ['/', 'b'] (.inl rfl) 0 (some [7]) [8] rfl
    obtain rfl : content = [7] := Option.some.inj hhash
    cases hbytes
  · refine ⟨[(.fault 4096 true, _), (.dispatch ⟨4096, false, true⟩, _), (.handle 0, _),
        (.write 0 [7], _), (.copy 0, _), (.hash 0, _), (.writeTemporary 0, _), (.rename 0, _),
        (.setBlocksId 0, _), (.writeProtect 0, _), (.pushClean 0, _), (.fault 4096 true, _),
        (.dispatch ⟨4096, true, false⟩, _), (.handle 0, _), (.write 0 [8], _), (.clear, _)],
      .cons (.fault (by decide) (by decide) (by decide) rfl)
        (.cons (.dispatch (by decide))
          (.cons (.handle (by decide) rfl (fun _ _ => by decide) rfl)
            (.cons (.write rfl rfl) (.cons (.copy (by decide) fun _ _ _ h => by cases h)
              (.cons (.hash ⟨rfl, rfl⟩) (.cons (.writeTemporary ⟨rfl, rfl⟩ rfl)
                (.cons (.rename ⟨rfl, rfl⟩ rfl) (.cons (.setBlocksId ⟨rfl, rfl⟩)
                  (.cons (.writeProtect ⟨rfl, rfl⟩) (.cons (.pushClean ⟨rfl, rfl⟩)
                    (.cons (.fault (by decide) (by decide) (by decide) rfl)
                      (.cons (.dispatch (by decide))
                        (.cons (.handle (by decide) rfl (fun _ h => by cases h) rfl)
                          (.cons (.write rfl rfl)
                            (.cons (.clear rfl (done_of_single rfl)) .nil))))))))))))))), rfl, ?_⟩
    rintro ⟨-, hlisted⟩
    have hdirty := hlisted 0 (fun _ _ hrunning => by cases hrunning) 0 rfl rfl ?_
    · exact List.not_mem_nil hdirty
    · rintro (⟨hempty, -⟩ | hstored)
      · cases hempty
      · have hhash := hstored.hash
        cases hhash

end MsyncState

end Privateer
