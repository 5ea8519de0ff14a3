import Privateer.Storage.StoreSteps
import Privateer.Uffd.Convergence
import Privateer.Uffd.EventQueue

/-!
# The steps of `msync` and of writers

`msync` of a sub-region holds a lock that neither the application nor the handler takes.
A block is hashed, written and named while it is still writable; it is write-protected
after that, and the dirty list is cleared last.  Here every one of these steps is a step of
the system, and accesses and iterations of the handlers fall between them in any way.

What goes wrong are three kinds of steps.  A block that changes after it was hashed is
written under the name of its old contents, or is protected and forgotten with its new
ones.  A block that is made writable after its worker protected it, or that becomes dirty
while `msync` runs without being in its vector, is dropped from the dirty list by the clear.
In runs without such steps the files stay named by their contents, and no change is lost.
-/

namespace Privateer

variable {Hash : Type}

/-! ## The system -/

/-- The application changes a block. -/
def UffdVirtualMemoryManager.writeBlock (manager : UffdVirtualMemoryManager Hash) (block : ℕ)
    (content : List Byte) : UffdVirtualMemoryManager Hash :=
  { manager with memory := Function.update manager.memory block content }

/-- How far a worker of `msync` has come with its block: what it is about to do, with what it
knows by then. -/
inductive WorkerStage (Hash : Type) where
  | hashing (onStash : Bool)
  | writing (onStash : Bool) (blockHash : Hash)
  | publishing (onStash : Bool) (blockHash : Hash) (prepared : Prepared Hash)
  | naming (blockHash : Hash)
  | protecting (blockHash : Hash)
  | pushing (blockHash : Hash)
  | done (blockHash : Hash)

/-- `msync` takes one sub-region at a time; a worker is a position of `dirty_lru_vector`. -/
inductive MsyncPhase (Hash : Type) where
  | idle
  | running (subRegion : ℕ) (dirtyLruVector : List ℕ) (stages : ℕ → WorkerStage Hash)
  | returned (subRegion : ℕ)

namespace WorkerStage

/-- The name that the worker has recorded for its block. -/
def recorded : WorkerStage Hash → Option Hash
  | .protecting blockHash | .pushing blockHash | .done blockHash => some blockHash
  | _ => none

/-- The name under which the block was stored that the worker has write-protected. -/
def guarded : WorkerStage Hash → Option Hash
  | .pushing blockHash | .done blockHash => some blockHash
  | _ => none

/-- The number of the temporary file that the worker has open. -/
def drawn : WorkerStage Hash → Option ℕ
  | .publishing _ _ prepared => prepared.temporary.drawn
  | _ => none

end WorkerStage

namespace MsyncPhase

/-- The worker handles the block, and is at the stage. -/
def At (phase : MsyncPhase Hash) (worker block : ℕ) (stage : WorkerStage Hash) : Prop :=
  match phase with
  | .running _ dirtyLruVector stages =>
      dirtyLruVector[worker]? = some block ∧ stages worker = stage
  | _ => False

/-- A worker goes on to another stage. -/
def advance (phase : MsyncPhase Hash) (worker : ℕ) (stage : WorkerStage Hash) :
    MsyncPhase Hash :=
  match phase with
  | .running subRegion dirtyLruVector stages =>
      .running subRegion dirtyLruVector (Function.update stages worker stage)
  | other => other

variable {phase : MsyncPhase Hash} {worker block : ℕ} {stage : WorkerStage Hash}

theorem At.running (hat : phase.At worker block stage) : ∃ subRegion dirtyLruVector stages,
    phase = .running subRegion dirtyLruVector stages ∧ block ∈ dirtyLruVector := by
  cases phase with
  | idle => exact hat.elim
  | running subRegion dirtyLruVector stages =>
      exact ⟨subRegion, dirtyLruVector, stages, rfl, List.mem_of_getElem? hat.1⟩
  | returned subRegion => exact hat.elim

theorem At.unique (hat : phase.At worker block stage) {block' : ℕ} {stage' : WorkerStage Hash}
    (hat' : phase.At worker block' stage') : block' = block ∧ stage' = stage := by
  cases phase with
  | idle => exact hat.elim
  | running subRegion dirtyLruVector stages =>
      exact ⟨Option.some.inj (hat'.1.symm.trans hat.1), hat'.2.symm.trans hat.2⟩
  | returned subRegion => exact hat.elim

/-- One worker has moved, the others are where they were. -/
theorem at_advance_iff (hat : phase.At worker block stage) {next : WorkerStage Hash}
    {other block' : ℕ} {stage' : WorkerStage Hash} :
    (phase.advance worker next).At other block' stage' ↔
      (other = worker ∧ block' = block ∧ stage' = next) ∨
        (other ≠ worker ∧ phase.At other block' stage') := by
  cases phase with
  | idle => exact hat.elim
  | running subRegion dirtyLruVector stages =>
      obtain ⟨hblock, -⟩ := hat
      by_cases hsame : other = worker
      · subst hsame
        simp only [advance, At, hblock, Function.update_self, Option.some.injEq, true_and,
          ne_eq, not_true_eq_false, false_and, or_false, @eq_comm _ block, @eq_comm _ next]
      · simp only [advance, At, Function.update_of_ne hsame, hsame, false_and, false_or, ne_eq,
          not_false_eq_true, true_and]
  | returned subRegion => exact hat.elim

theorem running_of_advance {next : WorkerStage Hash} {subRegion : ℕ} {dirtyLruVector : List ℕ}
    {stages : ℕ → WorkerStage Hash}
    (hphase : phase.advance worker next = .running subRegion dirtyLruVector stages) :
    ∃ stages', phase = .running subRegion dirtyLruVector stages' := by
  cases phase with
  | idle => cases hphase
  | running subRegion' dirtyLruVector' stages' =>
      cases hphase
      exact ⟨stages', rfl⟩
  | returned subRegion' => cases hphase

end MsyncPhase

/-- The region, its files, the messages of the kernel, the queues, and `msync`. -/
structure MsyncState (Hash : Type) where
  manager : UffdVirtualMemoryManager Hash
  files : FileSystem Hash
  messages : List FaultEvent
  queues : ℕ → EventQueue
  phase : MsyncPhase Hash

inductive MsyncAction where
  | write (block : ℕ) (content : List Byte)
  | fault (address : ℕ) (isWrite : Bool)
  | dispatch (message : FaultEvent)
  | handle (subRegion : ℕ)
  | copy (subRegion : ℕ)
  | hash (worker : ℕ)
  | writeTemporary (worker : ℕ)
  | rename (worker : ℕ)
  | setBlocksId (worker : ℕ)
  | writeProtect (worker : ℕ)
  | pushClean (worker : ℕ)
  | clear

namespace MsyncState

/-- A region before its first access. -/
def initial (manager : UffdVirtualMemoryManager Hash) (files : FileSystem Hash) :
    MsyncState Hash where
  manager := manager
  files := files
  messages := []
  queues := fun _ => EventQueue.empty
  phase := .idle

section

variable [DecidableEq Hash]

/-- The steps.  An application thread writes to a block that it may write to, or faults.  An
iteration of a handler is one step; it finds room for the block that it loads.  A storage
with two tiers stores a block on the stash tier first.  The end of `msync` that follows the
clear finds no stashed blocks, and writes a table that no step here reads. -/
inductive Step (build : Build Hash) : MsyncState Hash → MsyncAction → MsyncState Hash → Prop
  | write {state : MsyncState Hash} {block : ℕ} {content : List Byte}
      (hpermits : state.manager.permits block true = true)
      (hlength : content.length = (state.manager.memory block).length) :
      Step build state (.write block content)
        { state with manager := state.manager.writeBlock block content }
  | fault {state : MsyncState Hash} {address : ℕ} {isWrite : Bool}
      (hstart : state.manager.regionStartAddress ≤ address) (hword : address < 2 ^ 64)
      (hblock : state.manager.blockIndex address < state.manager.numBlocks)
      (hfaults : state.manager.permits (state.manager.blockIndex address) isWrite = false) :
      Step build state (.fault address isWrite)
        { state with messages := state.messages ++ [state.manager.faultEvent address isWrite] }
  | dispatch {state : MsyncState Hash} {message : FaultEvent}
      (hmessage : message ∈ state.messages) :
      Step build state (.dispatch message)
        { state with
          messages := state.messages.erase message
          queues := state.manager.addPageFaultEvent state.queues message }
  | handle {state : MsyncState Hash} {subRegion : ℕ} {event : FaultEvent} {events : EventQueue}
      {handled : UffdVirtualMemoryManager Hash} {files' : FileSystem Hash}
      (hthread : subRegion < state.manager.numHandlingThreads)
      (hdequeue : (state.queues subRegion).dequeue = some (event, events))
      (hroom : state.manager.skips subRegion event = false → event.isWpFault = false →
        (state.manager.presentBlocks subRegion).card * state.manager.blockSize <
          state.manager.maxMemSize)
      (hrun : (UffdVirtualMemoryManager.handleEvent build state.manager subRegion event).run
        FileSystem.answer state.files = (.returned handled, files')) :
      Step build state (.handle subRegion)
        { state with
          manager := handled
          files := files'
          queues := Function.update state.queues subRegion
            (if state.manager.skips subRegion event then events
              else events.removeProcessed event) }
  | copy {state : MsyncState Hash} {subRegion : ℕ}
      (hthread : subRegion < state.manager.numHandlingThreads)
      (hlock : ∀ other dirtyLruVector stages,
        state.phase ≠ .running other dirtyLruVector stages) :
      Step build state (.copy subRegion)
        { state with
          phase := .running subRegion (state.manager.dirtyLru subRegion) fun _ =>
            .hashing state.manager.blockStorage.isMultiTiered }
  | hash {state : MsyncState Hash} {worker block : ℕ} {onStash : Bool}
      (hat : state.phase.At worker block (.hashing onStash)) :
      Step build state (.hash worker)
        { state with
          phase := state.phase.advance worker
            (.writing onStash (build.computeHash (state.manager.memory block))) }
  | writeTemporary {state : MsyncState Hash} {worker block : ℕ} {onStash : Bool}
      {blockHash : Hash} {prepared : Prepared Hash} {files' : FileSystem Hash}
      (hat : state.phase.At worker block (.writing onStash blockHash))
      (hrun : (BlockStorage.prepareBlock build state.manager.blockStorage
        (state.manager.memory block) block onStash blockHash).run FileSystem.answer state.files =
          (.returned (some prepared), files')) :
      Step build state (.writeTemporary worker)
        { state with
          files := files'
          phase := state.phase.advance worker (.publishing onStash blockHash prepared) }
  | rename {state : MsyncState Hash} {worker block : ℕ} {onStash : Bool}
      {blockHash stored : Hash} {prepared : Prepared Hash} {files' : FileSystem Hash}
      (hat : state.phase.At worker block (.publishing onStash blockHash prepared))
      (hrun : (BlockStorage.publishPrepared prepared blockHash).run FileSystem.answer state.files =
        (.returned (some stored), files')) :
      Step build state (.rename worker)
        { state with
          files := files'
          phase := state.phase.advance worker
            (if onStash then .hashing false else .naming stored) }
  | setBlocksId {state : MsyncState Hash} {worker block : ℕ} {blockHash : Hash}
      (hat : state.phase.At worker block (.naming blockHash)) :
      Step build state (.setBlocksId worker)
        { state with
          manager := { state.manager with
            base := state.manager.base.recordStored (block, blockHash) }
          phase := state.phase.advance worker (.protecting blockHash) }
  | writeProtect {state : MsyncState Hash} {worker block : ℕ} {blockHash : Hash}
      (hat : state.phase.At worker block (.protecting blockHash)) :
      Step build state (.writeProtect worker)
        { state with
          manager := state.manager.protect block true
          phase := state.phase.advance worker (.pushing blockHash) }
  | pushClean {state : MsyncState Hash} {worker block : ℕ} {blockHash : Hash}
      (hat : state.phase.At worker block (.pushing blockHash)) :
      Step build state (.pushClean worker)
        { state with
          manager := state.manager.pushClean block
          phase := state.phase.advance worker (.done blockHash) }
  | clear {state : MsyncState Hash} {subRegion : ℕ} {dirtyLruVector : List ℕ}
      {stages : ℕ → WorkerStage Hash}
      (hphase : state.phase = .running subRegion dirtyLruVector stages)
      (hdone : ∀ worker block stage, state.phase.At worker block stage →
        ∃ blockHash, stage = .done blockHash) :
      Step build state .clear
        { state with
          manager := state.manager.clearDirty subRegion
          phase := .returned subRegion }

end

/-! ## What `msync` is for, and when it does it -/

/-- Every block file holds what its name is the hash of, and while `msync` of a sub-region does
not run, a block of it that differs from what its name stands for is on the dirty list. -/
def Safe (blocks : BlocksDirectory Hash) (state : MsyncState Hash) : Prop :=
  blocks.TiersNamed state.manager.blockStorage.tiers state.files ∧
    ∀ subRegion, (∀ dirtyLruVector stages,
        state.phase ≠ .running subRegion dirtyLruVector stages) → ∀ block,
      state.manager.installed block = true → state.manager.subRegion block = subRegion →
        ¬ blocks.Names state.files (state.manager.blocksIds block) (state.manager.memory block) →
          block ∈ state.manager.dirtyLru subRegion

/-- The step is none of those that go wrong.  When a worker writes its block, and when it
protects it, the block still is what was hashed; nothing is written where the file is there.
While `msync` runs, a handler of its sub-region makes no block writable but one that all of
its workers have still to protect. -/
def Undisturbed (build : Build Hash) (state : MsyncState Hash) : MsyncAction → Prop
  | .writeTemporary worker => ∀ block onStash blockHash,
      state.phase.At worker block (.writing onStash blockHash) →
        (state.files.data (state.manager.blockStorage.tierFile build blockHash onStash)).isSome ∨
          build.computeHash (state.manager.memory block) = blockHash
  | .writeProtect worker => ∀ block blockHash,
      state.phase.At worker block (.protecting blockHash) →
        build.computeHash (state.manager.memory block) = blockHash
  | .handle subRegion => ∀ event events dirtyLruVector stages,
      (state.queues subRegion).dequeue = some (event, events) →
        state.phase = .running subRegion dirtyLruVector stages →
          state.manager.skips subRegion event = false →
            (event.isWpFault = false → event.isWriteFault = false) ∧
              (event.isWpFault = true →
                state.manager.blockIndex event.address ∈ dirtyLruVector ∧
                  ∀ worker stage, state.phase.At worker
                    (state.manager.blockIndex event.address) stage → stage.guarded = none)
  | _ => True

/-! ## The invariant -/

variable {blocks : BlocksDirectory Hash} {manager manager' : UffdVirtualMemoryManager Hash}
variable {files files' : FileSystem Hash} {phase : MsyncPhase Hash} {state : MsyncState Hash}

/-- What a worker has done for its block by the time it is at a stage. -/
def Reached (blocks : BlocksDirectory Hash) (manager : UffdVirtualMemoryManager Hash)
    (files : FileSystem Hash) (block : ℕ) : WorkerStage Hash → Prop
  | .hashing _ | .writing _ _ => True
  | .publishing onStash blockHash prepared =>
      prepared.Pending (blocks.at (manager.blockStorage.tierDirectory onStash)) files blockHash ∧
        (prepared.found = true → onStash = false →
          ∃ content, blocks.Stored files blockHash content)
  | .naming blockHash | .protecting blockHash => ∃ content, blocks.Stored files blockHash content
  | .pushing blockHash | .done blockHash =>
      (∃ content, blocks.Stored files blockHash content) ∧
        manager.writeProtected block = true ∧
          blocks.build.computeHash (manager.memory block) = blockHash

/-- The storage side of a session that has evicted nothing. -/
structure Backed (blocks : BlocksDirectory Hash) (manager : UffdVirtualMemoryManager Hash)
    (files : FileSystem Hash) : Prop where
  blockSize : manager.blockSize = blocks.blockSize
  baseDirectory : manager.blockStorage.baseDirectory = blocks.location
  granularity : manager.blockStorage.blockGranularity = blocks.blockSize
  unstashed : ∀ block, manager.blockStorage.stashBlockIds block = none
  unnoted : ∀ block, manager.installed block = false →
    manager.blockStorage.stashCommittedBlockIds block = none
  tempBuffer : ∀ subRegion, (manager.tempBuffer subRegion).length = blocks.blockSize
  stashSet : ∀ subRegion, manager.stashSet subRegion = ∅
  named : blocks.TiersNamed manager.blockStorage.tiers files
  length : ∀ block, manager.installed block = true →
    (manager.memory block).length = blocks.blockSize
  absent : ∀ block < manager.numBlocks, manager.installed block = false →
    ∃ content, content.length = blocks.blockSize ∧
      blocks.Names files (manager.blocksIds block) content

/-- An event of a page of the region, and of a page that is there if it is write-protected. -/
structure Arises (manager : UffdVirtualMemoryManager Hash) (event : FaultEvent) : Prop where
  start : manager.regionStartAddress ≤ event.address
  word : event.address < 2 ^ 64
  block : manager.blockIndex event.address < manager.numBlocks
  installed : event.isWpFault = true →
    manager.installed (manager.blockIndex event.address) = true

/-- Events are on their way to the handlers of their blocks. -/
structure Delivers (manager : UffdVirtualMemoryManager Hash) (messages : List FaultEvent)
    (queues : ℕ → EventQueue) : Prop where
  messages : ∀ event ∈ messages, Arises manager event
  queues : ∀ subRegion, ∀ event ∈ (queues subRegion).queue,
    Arises manager event ∧ manager.subRegion (manager.blockIndex event.address) = subRegion

/-- A block that is not on the dirty list of its sub-region is write-protected, and its name
stands for its contents. -/
structure Lists (blocks : BlocksDirectory Hash) (manager : UffdVirtualMemoryManager Hash)
    (files : FileSystem Hash) : Prop where
  dirty : ∀ subRegion, ∀ block ∈ manager.dirtyLru subRegion,
    manager.installed block = true ∧ manager.subRegion block = subRegion
  clean : ∀ block, manager.installed block = true →
    block ∉ manager.dirtyLru (manager.subRegion block) →
      manager.writeProtected block = true ∧
        blocks.Names files (manager.blocksIds block) (manager.memory block)

/-- The workers of `msync`: they have the blocks of the dirty list, each the work of its
stage behind it, and each a temporary file of its own. -/
structure Works (blocks : BlocksDirectory Hash) (manager : UffdVirtualMemoryManager Hash)
    (files : FileSystem Hash) (phase : MsyncPhase Hash) : Prop where
  vector : ∀ subRegion dirtyLruVector stages,
    phase = .running subRegion dirtyLruVector stages →
      ∀ block, block ∈ dirtyLruVector ↔ block ∈ manager.dirtyLru subRegion
  reached : ∀ worker block stage, phase.At worker block stage →
    Reached blocks manager files block stage
  recorded : ∀ worker block stage blockHash, phase.At worker block stage →
    stage.recorded = some blockHash →
      ∃ other stage', phase.At other block stage' ∧
        stage'.recorded = some (manager.blocksIds block)
  distinct : ∀ worker block stage worker' block' stage' number,
    phase.At worker block stage → phase.At worker' block' stage' →
      stage.drawn = some number → stage'.drawn = some number → worker = worker'

/-- What runs without a step that goes wrong keep. -/
structure Guarded (blocks : BlocksDirectory Hash) (state : MsyncState Hash) : Prop where
  backed : Backed blocks state.manager state.files
  delivers : Delivers state.manager state.messages state.queues
  lists : Lists blocks state.manager state.files
  works : Works blocks state.manager state.files state.phase

theorem Guarded.safe (hguarded : Guarded blocks state) : state.Safe blocks := by
  refine ⟨hguarded.backed.named, fun subRegion _ block hinstalled hregion hdiffers => ?_⟩
  by_contra hclean
  rw [← hregion] at hclean
  exact hdiffers (hguarded.lists.clean block hinstalled hclean).2

variable {mine : Set ℕ} {worker block : ℕ} {stage next : WorkerStage Hash}

/-! ## What others do to the work of a worker -/

theorem keeps_of_advances (hadvances : blocks.Advances mine files files')
    (hnamed : blocks.Named files) : blocks.Keeps files files' :=
  ((hadvances.promises blocks.location).named hnamed).2

/-- Others leave the temporary file of the worker alone, and the block once it is
write-protected. -/
theorem Reached.keep (hreached : Reached blocks manager files block stage)
    (hnamed : blocks.Named files) (hadvances : blocks.Advances mine files files')
    (hmine : ∀ number, stage.drawn = some number → number ∉ mine)
    (htiers : manager'.blockStorage.tierDirectory = manager.blockStorage.tierDirectory)
    (hguarded : stage.guarded ≠ none → manager.writeProtected block = true →
      manager'.writeProtected block = true ∧ manager'.memory block = manager.memory block) :
    Reached blocks manager' files' block stage := by
  have hstored : ∀ blockHash, (∃ content, blocks.Stored files blockHash content) →
      ∃ content, blocks.Stored files' blockHash content := by
    rintro blockHash ⟨content, hstored⟩
    exact ⟨content, hstored.keep (keeps_of_advances hadvances hnamed)⟩
  cases stage with
  | hashing onStash => trivial
  | writing onStash blockHash => trivial
  | publishing onStash blockHash prepared =>
      obtain ⟨hpending, hfound⟩ := hreached
      refine ⟨?_, fun htaken hbase => hstored _ (hfound htaken hbase)⟩
      rw [htiers]
      exact hpending.advance hadvances hmine
  | naming blockHash => exact hstored _ hreached
  | protecting blockHash => exact hstored _ hreached
  | pushing blockHash =>
      obtain ⟨hfile, hprotected, hhash⟩ := hreached
      obtain ⟨hprotected', hmemory⟩ := hguarded (Option.some_ne_none blockHash) hprotected
      exact ⟨hstored _ hfile, hprotected', hmemory ▸ hhash⟩
  | done blockHash =>
      obtain ⟨hfile, hprotected, hhash⟩ := hreached
      obtain ⟨hprotected', hmemory⟩ := hguarded (Option.some_ne_none blockHash) hprotected
      exact ⟨hstored _ hfile, hprotected', hmemory ▸ hhash⟩

/-- A step of the application or of a handler. -/
theorem Works.keep (hworks : Works blocks manager files phase) (hnamed : blocks.Named files)
    (hadvances : blocks.Advances ∅ files files')
    (htiers : manager'.blockStorage.tierDirectory = manager.blockStorage.tierDirectory)
    (hids : manager'.blocksIds = manager.blocksIds)
    (hdirty : ∀ subRegion dirtyLruVector stages,
      phase = .running subRegion dirtyLruVector stages →
        ∀ block, block ∈ manager'.dirtyLru subRegion ↔ block ∈ manager.dirtyLru subRegion)
    (hguarded : ∀ worker block stage, phase.At worker block stage → stage.guarded ≠ none →
      manager.writeProtected block = true →
        manager'.writeProtected block = true ∧ manager'.memory block = manager.memory block) :
    Works blocks manager' files' phase where
  vector := fun subRegion dirtyLruVector stages hphase block =>
    (hworks.vector _ _ _ hphase block).trans (hdirty _ _ _ hphase block).symm
  reached := fun worker block stage hat => (hworks.reached worker block stage hat).keep hnamed
    hadvances (fun _ _ => Set.notMem_empty _) htiers (hguarded worker block stage hat)
  recorded := by
    rw [hids]
    exact hworks.recorded
  distinct := hworks.distinct

/-- A step of a worker. -/
theorem Works.advance (hworks : Works blocks manager files phase)
    (hat : phase.At worker block stage) (hnamed : blocks.Named files)
    (hadvances : blocks.Advances mine files files')
    (hothers : ∀ other block' stage' number, other ≠ worker → phase.At other block' stage' →
      stage'.drawn = some number → number ∉ mine ∧ next.drawn ≠ some number)
    (htiers : manager'.blockStorage.tierDirectory = manager.blockStorage.tierDirectory)
    (hdirty : manager'.dirtyLru = manager.dirtyLru) (hmemory : manager'.memory = manager.memory)
    (hprotected : ∀ block, manager.writeProtected block = true →
      manager'.writeProtected block = true)
    (hreached : Reached blocks manager' files' block next)
    (hrecorded : (manager'.blocksIds = manager.blocksIds ∧ next.recorded = stage.recorded) ∨
      ∃ blockHash, manager'.blocksIds = Function.update manager.blocksIds block blockHash ∧
        next.recorded = some blockHash) :
    Works blocks manager' files' (phase.advance worker next) where
  vector := by
    intro subRegion dirtyLruVector stages hphase
    obtain ⟨stages', hbefore⟩ := MsyncPhase.running_of_advance hphase
    rw [hdirty]
    exact hworks.vector _ _ _ hbefore
  reached := by
    intro other block' stage' hother
    rcases (MsyncPhase.at_advance_iff hat).mp hother with ⟨rfl, rfl, rfl⟩ | ⟨hne, hbefore⟩
    · exact hreached
    · exact (hworks.reached other block' stage' hbefore).keep hnamed hadvances
        (fun number hnumber => (hothers other block' stage' number hne hbefore hnumber).1) htiers
        fun _ hbefore => ⟨hprotected block' hbefore, congrFun hmemory block'⟩
  recorded := by
    intro other block' stage' name hother hname
    rcases hrecorded with ⟨hids, hsame⟩ | ⟨blockHash, hids, hnext⟩
    · obtain ⟨old, hold, hbefore⟩ :
          ∃ old, phase.At other block' old ∧ old.recorded = some name := by
        rcases (MsyncPhase.at_advance_iff hat).mp hother with ⟨rfl, rfl, rfl⟩ | ⟨-, hbefore⟩
        · exact ⟨stage, hat, hsame ▸ hname⟩
        · exact ⟨stage', hbefore, hname⟩
      obtain ⟨third, last, hthird, hlast⟩ := hworks.recorded other block' old name hold hbefore
      rw [hids]
      by_cases hmoved : third = worker
      · subst hmoved
        obtain ⟨rfl, rfl⟩ := hat.unique hthird
        exact ⟨third, next, (MsyncPhase.at_advance_iff hat).mpr (.inl ⟨rfl, rfl, rfl⟩),
          hsame.trans hlast⟩
      · exact ⟨third, last, (MsyncPhase.at_advance_iff hat).mpr (.inr ⟨hmoved, hthird⟩), hlast⟩
    · by_cases hblock : block' = block
      · subst hblock
        refine ⟨worker, next, (MsyncPhase.at_advance_iff hat).mpr (.inl ⟨rfl, rfl, rfl⟩), ?_⟩
        rw [hnext, hids, Function.update_self]
      · rcases (MsyncPhase.at_advance_iff hat).mp hother with ⟨-, hsame, -⟩ | ⟨-, hbefore⟩
        · exact absurd hsame hblock
        · obtain ⟨third, last, hthird, hlast⟩ :=
            hworks.recorded other block' stage' name hbefore hname
          have hmoved : third ≠ worker := by
            rintro rfl
            exact hblock (hat.unique hthird).1
          refine ⟨third, last, (MsyncPhase.at_advance_iff hat).mpr (.inr ⟨hmoved, hthird⟩), ?_⟩
          rw [hlast, hids, Function.update_of_ne hblock]
  distinct := by
    intro first block₁ stage₁ second block₂ stage₂ number hfirst hsecond hnumber₁ hnumber₂
    rcases (MsyncPhase.at_advance_iff hat).mp hfirst with ⟨rfl, rfl, rfl⟩ | ⟨hne₁, hbefore₁⟩
    · rcases (MsyncPhase.at_advance_iff hat).mp hsecond with ⟨rfl, -, -⟩ | ⟨hne₂, hbefore₂⟩
      · rfl
      · exact absurd hnumber₁ (hothers _ _ _ number hne₂ hbefore₂ hnumber₂).2
    · rcases (MsyncPhase.at_advance_iff hat).mp hsecond with ⟨rfl, rfl, rfl⟩ | ⟨hne₂, hbefore₂⟩
      · exact absurd hnumber₂ (hothers _ _ _ number hne₁ hbefore₁ hnumber₁).2
      · exact hworks.distinct _ _ _ _ _ _ number hbefore₁ hbefore₂ hnumber₁ hnumber₂

theorem Works.listed (hworks : Works blocks manager files phase)
    (hlists : Lists blocks manager files) (hat : phase.At worker block stage) :
    manager.installed block = true ∧ block ∈ manager.dirtyLru (manager.subRegion block) := by
  obtain ⟨subRegion, dirtyLruVector, stages, hphase, hblock⟩ := hat.running
  have hdirty := (hworks.vector _ _ _ hphase block).mp hblock
  obtain ⟨hinstalled, rfl⟩ := hlists.dirty subRegion block hdirty
  exact ⟨hinstalled, hdirty⟩

theorem Backed.blocksNamed (hbacked : Backed blocks manager files) : blocks.Named files := by
  have hnamed := hbacked.named _ BlockStorage.baseDirectory_mem_tiers
  rw [hbacked.baseDirectory] at hnamed
  exact hnamed

/-- Only files have changed. -/
theorem Backed.advance (hbacked : Backed blocks manager files)
    (hadvances : blocks.Advances mine files files') : Backed blocks manager files' :=
  { hbacked with
    named := hadvances.named hbacked.named
    absent := fun block hblock habsent => by
      obtain ⟨content, hlength, hnames⟩ := hbacked.absent block hblock habsent
      exact ⟨content, hlength, hnames.keep (keeps_of_advances hadvances hbacked.blocksNamed)⟩ }

theorem Lists.advance (hlists : Lists blocks manager files) (hnamed : blocks.Named files)
    (hadvances : blocks.Advances mine files files') : Lists blocks manager files' where
  dirty := hlists.dirty
  clean := fun block hinstalled hclean => by
    obtain ⟨hprotected, hnames⟩ := hlists.clean block hinstalled hclean
    exact ⟨hprotected, hnames.keep (keeps_of_advances hadvances hnamed)⟩

end MsyncState

end Privateer
