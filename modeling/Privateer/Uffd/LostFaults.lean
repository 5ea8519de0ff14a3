import Privateer.Uffd.EventFilter

/-!
# Threads that wait for a page

A thread that faults is stopped by the kernel, which posts a message.  The dispatcher adds
an event for it unless the filter finds one, and the handler thread of the block wakes the
threads of the block when it has loaded it or lifted its protection.  A thread is lost when
nothing of its block is on the way to a wake.  Only the filter can lose a thread, with a
message that it drops.
-/

namespace Privateer

namespace UffdVirtualMemoryManager

variable {Hash : Type} {manager manager' : UffdVirtualMemoryManager Hash}
variable {subRegion block : ℕ}

/-- What an iteration of a handler thread on a block leaves of the others. -/
structure Remaps (manager : UffdVirtualMemoryManager Hash) (block : ℕ)
    (manager' : UffdVirtualMemoryManager Hash) : Prop where
  regionStartAddress : manager'.regionStartAddress = manager.regionStartAddress
  blockSize : manager'.blockSize = manager.blockSize
  numHandlingThreads : manager'.numHandlingThreads = manager.numHandlingThreads
  installed : ∀ other, other ≠ block → manager'.installed other = manager.installed other
  kept : manager.installed block = true → manager'.installed block = true
  writeProtected : ∀ other, other ≠ block →
    manager'.writeProtected other = manager.writeProtected other
  present : ∀ subRegion, ∀ other ∈ manager'.presentBlocks subRegion,
    other ∈ manager.presentBlocks subRegion ∨ (other = block ∧ manager'.installed block = true)

theorem Remaps.blockIndex_eq (hremaps : manager.Remaps block manager') (address : ℕ) :
    manager'.blockIndex address = manager.blockIndex address := by
  rw [UffdVirtualMemoryManager.blockIndex, hremaps.regionStartAddress, hremaps.blockSize]
  rfl

theorem Remaps.subRegion_eq (hremaps : manager.Remaps block manager') (other : ℕ) :
    manager'.subRegion other = manager.subRegion other := by
  rw [UffdVirtualMemoryManager.subRegion, hremaps.numHandlingThreads]
  rfl

/-- Lifting the protection of a block. -/
theorem handleWpFault_remaps
    (hreturns : (handleWpFault manager subRegion block).Returns manager') :
    manager.Remaps block manager' := by
  obtain ⟨-, storage, rfl⟩ := handleWpFault_returns hreturns
  refine ⟨rfl, rfl, rfl, fun _ _ => rfl, id, ?_, fun _ _ hpresent => .inl hpresent⟩
  exact fun other hother => Function.update_of_ne hother _ _

theorem Remaps.trans {first second third : UffdVirtualMemoryManager Hash}
    (hfirst : first.Remaps block second) (hsecond : second.Remaps block third) :
    first.Remaps block third where
  regionStartAddress := hsecond.regionStartAddress.trans hfirst.regionStartAddress
  blockSize := hsecond.blockSize.trans hfirst.blockSize
  numHandlingThreads := hsecond.numHandlingThreads.trans hfirst.numHandlingThreads
  installed := fun other hother =>
    (hsecond.installed other hother).trans (hfirst.installed other hother)
  kept := fun hinstalled => hsecond.kept (hfirst.kept hinstalled)
  writeProtected := fun other hother =>
    (hsecond.writeProtected other hother).trans (hfirst.writeProtected other hother)
  present := by
    intro subRegion other hpresent
    rcases hsecond.present subRegion other hpresent with hold | hnew
    · refine (hfirst.present subRegion other hold).imp_right ?_
      exact fun hblock => ⟨hblock.1, hsecond.kept hblock.2⟩
    · exact .inr hnew

/-- Room is made without unmapping anything. -/
theorem evictIfNeeded_remaps (block : ℕ)
    (hreturns : (evictIfNeeded manager subRegion).Returns manager') :
    manager.Remaps block manager' := by
  have herase : ∀ toEvict other list,
      other ∈ Function.update manager.presentBlocks subRegion
        ((manager.presentBlocks subRegion).erase toEvict) list →
          other ∈ manager.presentBlocks list := by
    intro toEvict other list hother
    by_cases hsame : list = subRegion
    · rw [hsame, Function.update_self] at hother
      rw [hsame]
      exact Finset.mem_of_mem_erase hother
    · rwa [Function.update_of_ne hsame] at hother
  rcases evictIfNeeded_returns hreturns with ⟨-, rfl⟩ | ⟨-, hevicted⟩
  · exact ⟨rfl, rfl, rfl, fun _ _ => rfl, id, fun _ _ => rfl, fun _ _ hpresent => .inl hpresent⟩
  · rcases hevicted with ⟨toEvict, -, rfl⟩ | ⟨toEvict, storage, -, -, rfl⟩
    · exact ⟨rfl, rfl, rfl, fun _ _ => rfl, id, fun _ _ => rfl,
        fun _ _ hpresent => .inl (herase _ _ _ hpresent)⟩
    · exact ⟨rfl, rfl, rfl, fun _ _ => rfl, id, fun _ _ => rfl,
        fun _ _ hpresent => .inl (herase _ _ _ hpresent)⟩

theorem makePresent_remaps (hinstalled : manager.installed block = true) (isWriteFault : Bool) :
    manager.Remaps block (manager.makePresent subRegion block isWriteFault) := by
  have hinsert : ∀ list, ∀ other ∈ Function.update manager.presentBlocks subRegion
      (insert block (manager.presentBlocks subRegion)) list,
        other ∈ manager.presentBlocks list ∨ (other = block ∧ manager.installed block = true) := by
    intro list other hother
    by_cases hsame : list = subRegion
    · rw [hsame, Function.update_self, Finset.mem_insert] at hother
      rw [hsame]
      exact hother.symm.imp_right fun hblock => ⟨hblock, hinstalled⟩
    · rw [Function.update_of_ne hsame] at hother
      exact .inl hother
  cases isWriteFault with
  | true => exact ⟨rfl, rfl, rfl, fun _ _ => rfl, id, fun _ _ => rfl, hinsert⟩
  | false => exact ⟨rfl, rfl, rfl, fun _ _ => rfl, id, fun _ _ => rfl, hinsert⟩

/-- Loading a block, which had no pages. -/
theorem handleMissing_remaps [DecidableEq Hash] {build : Build Hash} {isWriteFault : Bool}
    (hreturns : (handleMissing build manager subRegion block isWriteFault).Returns manager') :
    manager.Remaps block manager' ∧ manager'.installed block = true := by
  obtain ⟨room, hroom, hrest⟩ := Program.returns_bind.mp hreturns
  obtain ⟨⟨content, loaded⟩, hloaded, hrest⟩ := Program.returns_bind.mp hrest
  obtain ⟨filled, hfilled, hpresent⟩ := Program.returns_bind.mp hrest
  obtain ⟨storage, tempBuffer, hread⟩ := loadContent_returns hloaded
  obtain ⟨-, hinstall⟩ := install_returns hfilled
  have hthere : filled.installed block = true := by
    rw [hinstall]
    exact Function.update_self _ _ _
  have hfill : room.Remaps block filled := by
    dsimp only at hread
    rw [hinstall, hread]
    exact ⟨rfl, rfl, rfl, fun _ hother => Function.update_of_ne hother _ _,
      fun _ => Function.update_self _ _ _, fun _ hother => Function.update_of_ne hother _ _,
      fun _ _ hpresent => .inl hpresent⟩
  have hmade : filled.Remaps block (filled.makePresent subRegion block isWriteFault) :=
    makePresent_remaps hthere isWriteFault
  cases hpresent
  exact ⟨((evictIfNeeded_remaps block hroom).trans hfill).trans hmade, hmade.kept hthere⟩

end UffdVirtualMemoryManager

/-- Where a handler thread is in its iteration. -/
inductive HandlerPosition where
  | idle
  | handling (event : FaultEvent)
  | unprotected (event : FaultEvent)
  | loaded (event : FaultEvent)
  | removed (event : FaultEvent)
  deriving DecidableEq

/-- The messages of the kernel that were not read yet, the event that the dispatcher is
about to enqueue, the queues and handler threads of the sub-regions, and the address of the
page that each stopped thread waits for. -/
structure FaultState (Hash Thread : Type) where
  manager : UffdVirtualMemoryManager Hash
  messages : List FaultEvent
  adding : Option FaultEvent
  queues : ℕ → EventQueue
  positions : ℕ → HandlerPosition
  waiting : Thread → Option ℕ

/-- A fault of a thread, a call of the dispatcher, or a step of the handler thread of a
sub-region. -/
inductive FaultAction (Thread : Type) where
  | fault (thread : Thread) (address : ℕ) (isWrite : Bool)
  | dispatch (message : FaultEvent)
  | enqueue
  | dequeue (subRegion : ℕ)
  | skip (subRegion : ℕ)
  | unprotect (subRegion : ℕ)
  | load (subRegion : ℕ)
  | removeProcessed (subRegion : ℕ)
  | wake (subRegion : ℕ)

/-- The event of the iteration. -/
def HandlerPosition.event : HandlerPosition → Option FaultEvent
  | .idle => none
  | .handling event => some event
  | .unprotected event => some event
  | .loaded event => some event
  | .removed event => some event

namespace FaultState

variable {Hash Thread : Type} [DecidableEq Hash] [DecidableEq Thread]

/-- Nobody waits, and no event has been posted. -/
def initial (manager : UffdVirtualMemoryManager Hash) : FaultState Hash Thread where
  manager := manager
  messages := []
  adding := none
  queues := fun _ => EventQueue.empty
  positions := fun _ => .idle
  waiting := fun _ => none

/-- The threads that still wait once a block was woken. -/
def woken (state : FaultState Hash Thread) (block : ℕ) : Thread → Option ℕ :=
  fun thread => (state.waiting thread).filter fun address =>
    state.manager.blockIndex address ≠ block

/-- The message has been read. -/
def read (state : FaultState Hash Thread) (message : FaultEvent) : FaultState Hash Thread :=
  { state with messages := state.messages.erase message }

def moveTo (state : FaultState Hash Thread) (subRegion : ℕ) (position : HandlerPosition) :
    FaultState Hash Thread :=
  { state with positions := Function.update state.positions subRegion position }

/-- What the filter says of a message: the queue is processing an event at its address. -/
def found (state : FaultState Hash Thread) (message : FaultEvent) : Bool :=
  (state.queues (state.manager.eventSubRegion message.address)).found message

/-- The steps.  Messages are read in any order.  An iteration of the handler takes the
branches of `handler`: a missing page of a present block is skipped, a protected block is
made writable, which wakes it, and its event removed, and a block that is loaded is woken
after its event was removed. -/
inductive Step (build : Build Hash) :
    FaultState Hash Thread → FaultAction Thread → FaultState Hash Thread → Prop
  | fault {state : FaultState Hash Thread} {thread : Thread} {address : ℕ} {isWrite : Bool}
      (hruns : state.waiting thread = none)
      (hstart : state.manager.regionStartAddress ≤ address)
      (hend : address < state.manager.regionStartAddress + state.manager.regionMaxCapacity)
      (hword : address < 2 ^ 64)
      (hfaults : state.manager.permits (state.manager.blockIndex address) isWrite = false) :
      Step build state (.fault thread address isWrite)
        { state with
          messages := state.messages ++ [state.manager.faultEvent address isWrite]
          waiting := Function.update state.waiting thread (some address) }
  | dispatch {state : FaultState Hash Thread} {message : FaultEvent}
      (hidle : state.adding = none) (hmessage : message ∈ state.messages) :
      Step build state (.dispatch message)
        { state.read message with adding := if state.found message then none else some message }
  | enqueue {state : FaultState Hash Thread} {event : FaultEvent}
      (hadding : state.adding = some event) :
      Step build state .enqueue
        { state with
          adding := none
          queues := Function.update state.queues (state.manager.eventSubRegion event.address)
            ((state.queues (state.manager.eventSubRegion event.address)).enqueue event) }
  | dequeue {state : FaultState Hash Thread} {subRegion : ℕ} {event : FaultEvent}
      {events : EventQueue} (hthread : subRegion < state.manager.numHandlingThreads)
      (hposition : state.positions subRegion = .idle)
      (hdequeue : (state.queues subRegion).dequeue = some (event, events)) :
      Step build state (.dequeue subRegion)
        { state.moveTo subRegion (.handling event) with
          queues := Function.update state.queues subRegion events }
  | skip {state : FaultState Hash Thread} {subRegion : ℕ} {event : FaultEvent}
      (hposition : state.positions subRegion = .handling event)
      (hskips : state.manager.skips subRegion event = true) :
      Step build state (.skip subRegion) (state.moveTo subRegion .idle)
  | unprotect {state : FaultState Hash Thread} {subRegion : ℕ} {event : FaultEvent}
      {handled : UffdVirtualMemoryManager Hash}
      (hposition : state.positions subRegion = .handling event)
      (hwp : event.isWpFault = true)
      (hreturns : (UffdVirtualMemoryManager.handleWpFault state.manager subRegion
        (state.manager.blockIndex event.address)).Returns handled) :
      Step build state (.unprotect subRegion)
        { state.moveTo subRegion (.unprotected event) with
          manager := handled
          waiting := state.woken (state.manager.blockIndex event.address) }
  | load {state : FaultState Hash Thread} {subRegion : ℕ} {event : FaultEvent}
      {handled : UffdVirtualMemoryManager Hash}
      (hposition : state.positions subRegion = .handling event)
      (hskips : state.manager.skips subRegion event = false) (hwp : event.isWpFault = false)
      (hreturns : (UffdVirtualMemoryManager.handleMissing build state.manager subRegion
        (state.manager.blockIndex event.address) event.isWriteFault).Returns handled) :
      Step build state (.load subRegion)
        { state.moveTo subRegion (.loaded event) with manager := handled }
  | removeUnprotected {state : FaultState Hash Thread} {subRegion : ℕ} {event : FaultEvent}
      (hposition : state.positions subRegion = .unprotected event) :
      Step build state (.removeProcessed subRegion)
        { state.moveTo subRegion .idle with
          queues := Function.update state.queues subRegion
            ((state.queues subRegion).removeProcessed event) }
  | removeLoaded {state : FaultState Hash Thread} {subRegion : ℕ} {event : FaultEvent}
      (hposition : state.positions subRegion = .loaded event) :
      Step build state (.removeProcessed subRegion)
        { state.moveTo subRegion (.removed event) with
          queues := Function.update state.queues subRegion
            ((state.queues subRegion).removeProcessed event) }
  | wake {state : FaultState Hash Thread} {subRegion : ℕ} {event : FaultEvent}
      (hposition : state.positions subRegion = .removed event) :
      Step build state (.wake subRegion)
        { state.moveTo subRegion .idle with
          waiting := state.woken (state.manager.blockIndex event.address) }

/-! ## Lost threads -/

section

omit [DecidableEq Hash] [DecidableEq Thread]

/-- The handling of the event will wake its block: the event is for a protected page, or
the block has no pages yet. -/
def Wakes (state : FaultState Hash Thread) (event : FaultEvent) : Prop :=
  event.isWpFault = true ∨
    state.manager.installed (state.manager.blockIndex event.address) = false

/-- The handler thread has loaded the block and has yet to wake it. -/
def WakeDue (state : FaultState Hash Thread) (block : ℕ) : Prop :=
  ∃ event, state.manager.blockIndex event.address = block ∧
    (state.positions (state.manager.subRegion block) = .loaded event ∨
      state.positions (state.manager.subRegion block) = .removed event)

/-- The event is in the queue of its block, or in the hands of the handler thread. -/
def Queued (state : FaultState Hash Thread) (event : FaultEvent) : Prop :=
  let subRegion := state.manager.subRegion (state.manager.blockIndex event.address)
  event ∈ (state.queues subRegion).queue ∨ state.positions subRegion = .handling event

/-- A message of the block has not been dispatched, or an event or an iteration of the
handler will wake it. -/
def Attended (state : FaultState Hash Thread) (block : ℕ) : Prop :=
  (∃ event, state.manager.blockIndex event.address = block ∧
    (event ∈ state.messages ∨ state.adding = some event ∨
      (state.Wakes event ∧ state.Queued event))) ∨ state.WakeDue block

/-- No thread is lost. -/
def AttendsAll (state : FaultState Hash Thread) : Prop :=
  ∀ thread address, state.waiting thread = some address →
    state.Attended (state.manager.blockIndex address)

/-- The event is on its way to the handler thread. -/
def Underway (state : FaultState Hash Thread) (event : FaultEvent) : Prop :=
  event ∈ state.messages ∨ state.adding = some event ∨ state.Queued event

/-- An event of the block will wake it, from wherever it is, or the wake is due. -/
def Answered (state : FaultState Hash Thread) (block : ℕ) : Prop :=
  (∃ event, state.manager.blockIndex event.address = block ∧ state.Wakes event ∧
    state.Underway event) ∨ state.WakeDue block

/-- The cause of the message is gone: the page is there, and no longer protected if that was
the cause. -/
def Outdated (state : FaultState Hash Thread) (message : FaultEvent) : Prop :=
  state.manager.permits (state.manager.blockIndex message.address) message.isWpFault = true

/-- A message that the filter drops is outdated, or its block is answered without it. -/
def DropsAnswered (state : FaultState Hash Thread) : FaultAction Thread → Prop
  | .dispatch message => state.found message = true →
      state.Outdated message ∨
        (state.read message).Answered (state.manager.blockIndex message.address)
  | _ => True

/-- What holds of a block that a thread waits in. -/
structure Waits (state : FaultState Hash Thread) (block : ℕ) : Prop where
  answered : state.Answered block
  fault : state.manager.installed block = false ∨ state.manager.writeProtected block = true ∨
    state.WakeDue block

/-- A step that does nothing for or against the threads of a block. -/
structure Keeps (state next : FaultState Hash Thread) (block : ℕ) : Prop where
  blockIndex : ∀ address, next.manager.blockIndex address = state.manager.blockIndex address
  subRegion : ∀ other, next.manager.subRegion other = state.manager.subRegion other
  installed : next.manager.installed block = state.manager.installed block
  writeProtected : next.manager.writeProtected block = state.manager.writeProtected block
  underway : ∀ event, state.manager.blockIndex event.address = block → state.Wakes event →
    state.Underway event → next.Underway event
  due : state.WakeDue block → next.WakeDue block

variable {state next : FaultState Hash Thread} {block : ℕ}

theorem Answered.keep (hanswered : state.Answered block) (hkeeps : state.Keeps next block) :
    next.Answered block := by
  rcases hanswered with ⟨event, hblock, hwakes, hunderway⟩ | hdue
  · refine .inl ⟨event, (hkeeps.blockIndex _).trans hblock, ?_,
      hkeeps.underway event hblock hwakes hunderway⟩
    rw [Wakes, hkeeps.blockIndex, hblock, hkeeps.installed, ← hblock]
    exact hwakes
  · exact .inr (hkeeps.due hdue)

theorem Waits.keep (hwaits : state.Waits block) (hkeeps : state.Keeps next block) :
    next.Waits block := by
  refine ⟨hwaits.answered.keep hkeeps, ?_⟩
  rw [hkeeps.installed, hkeeps.writeProtected]
  exact hwaits.fault.imp_right fun hfault => hfault.imp_right hkeeps.due

theorem Answered.attended (hanswered : state.Answered block) : state.Attended block := by
  refine hanswered.imp_left ?_
  rintro ⟨event, hblock, hwakes, hmessage | hadding | hqueued⟩
  · exact ⟨event, hblock, .inl hmessage⟩
  · exact ⟨event, hblock, .inr (.inl hadding)⟩
  · exact ⟨event, hblock, .inr (.inr ⟨hwakes, hqueued⟩)⟩

/-- Everyone who waits is tended to, events are with the threads of their blocks, and the
present blocks have pages. -/
structure Tended (state : FaultState Hash Thread) : Prop where
  waits : ∀ thread address, state.waiting thread = some address →
    state.Waits (state.manager.blockIndex address)
  posted : ∀ event, event ∈ state.messages ∨ state.adding = some event →
    state.manager.regionStartAddress ≤ event.address ∧ event.address < 2 ^ 64
  queued : ∀ subRegion, ∀ event ∈ (state.queues subRegion).queue,
    state.manager.subRegion (state.manager.blockIndex event.address) = subRegion
  held : ∀ subRegion event, (state.positions subRegion).event = some event →
    state.manager.subRegion (state.manager.blockIndex event.address) = subRegion
  present : ∀ subRegion, ∀ block ∈ state.manager.presentBlocks subRegion,
    state.manager.installed block = true

theorem Tended.initial (base : VirtualMemoryManagerBase Hash) (start threads : ℕ) :
    (FaultState.initial (.initial base start threads) : FaultState Hash Thread).Tended where
  waits := nofun
  posted := by
    rintro event (hmessage | hadding)
    · cases hmessage
    · cases hadding
  queued := nofun
  held := nofun
  present := fun _ block hblock => absurd hblock (Finset.notMem_empty block)

/-- The handler thread of a sub-region owes the block a wake. -/
def Owes (state : FaultState Hash Thread) (subRegion block : ℕ) : Prop :=
  ∃ event, state.manager.blockIndex event.address = block ∧
    (state.positions subRegion = .loaded event ∨ state.positions subRegion = .removed event ∨
      (state.positions subRegion = .handling event ∧ state.Wakes event))

theorem not_owes_of_ne {subRegion : ℕ} {event : FaultEvent}
    (hevent : (state.positions subRegion).event = some event)
    (hother : state.manager.blockIndex event.address ≠ block) : ¬ state.Owes subRegion block := by
  rintro ⟨owed, hblock, hposition | hposition | ⟨hposition, -⟩⟩
  · rw [hposition] at hevent
    cases hevent
    exact hother hblock
  · rw [hposition] at hevent
    cases hevent
    exact hother hblock
  · rw [hposition] at hevent
    cases hevent
    exact hother hblock

/-- A handler thread that owes the block no wake may move on. -/
theorem keeps_moveTo {subRegion : ℕ} {position : HandlerPosition}
    (howes : ¬ state.Owes subRegion block) :
    state.Keeps (state.moveTo subRegion position) block where
  blockIndex := fun _ => rfl
  subRegion := fun _ => rfl
  installed := rfl
  writeProtected := rfl
  underway := by
    rintro event hblock hwakes (hmessage | hadding | hqueue | hposition)
    · exact .inl hmessage
    · exact .inr (.inl hadding)
    · exact .inr (.inr (.inl hqueue))
    · have hne : state.manager.subRegion (state.manager.blockIndex event.address) ≠ subRegion := by
        intro hsame
        rw [hsame] at hposition
        exact howes ⟨event, hblock, .inr (.inr ⟨hposition, hwakes⟩)⟩
      exact .inr (.inr (.inr ((Function.update_of_ne hne _ _).trans hposition)))
  due := by
    rintro ⟨event, hblock, hposition⟩
    have hne : state.manager.subRegion block ≠ subRegion := by
      intro hsame
      rw [hsame] at hposition
      exact howes ⟨event, hblock, hposition.imp_right .inl⟩
    have hsame := Function.update_of_ne hne position state.positions
    exact ⟨event, hblock, hposition.imp hsame.trans hsame.trans⟩

/-- Taking an event off the set of those being processed changes no queue. -/
theorem keeps_removeProcessed {subRegion : ℕ} {event : FaultEvent} :
    state.Keeps
      { state with
        queues := Function.update state.queues subRegion
          ((state.queues subRegion).removeProcessed event) } block where
  blockIndex := fun _ => rfl
  subRegion := fun _ => rfl
  installed := rfl
  writeProtected := rfl
  underway := by
    rintro other - - (hmessage | hadding | hqueue | hposition)
    · exact .inl hmessage
    · exact .inr (.inl hadding)
    · refine .inr (.inr (.inl ?_))
      change other ∈ (Function.update state.queues subRegion _ _).queue
      by_cases hsame : state.manager.subRegion (state.manager.blockIndex other.address) = subRegion
      · rw [hsame, Function.update_self]
        rw [hsame] at hqueue
        exact hqueue
      · rw [Function.update_of_ne hsame]
        exact hqueue
    · exact .inr (.inr (.inr hposition))
  due := id

/-- An iteration on another block. -/
theorem keeps_remaps {other : ℕ} {handled : UffdVirtualMemoryManager Hash}
    (hremaps : state.manager.Remaps other handled) (hother : block ≠ other) :
    state.Keeps { state with manager := handled } block where
  blockIndex := hremaps.blockIndex_eq
  subRegion := hremaps.subRegion_eq
  installed := hremaps.installed block hother
  writeProtected := hremaps.writeProtected block hother
  underway := by
    rintro event - - (hmessage | hadding | hqueued)
    · exact .inl hmessage
    · exact .inr (.inl hadding)
    · refine .inr (.inr ?_)
      unfold Queued
      simp only [hremaps.blockIndex_eq, hremaps.subRegion_eq]
      exact hqueued
  due := by
    unfold WakeDue
    simp only [hremaps.blockIndex_eq, hremaps.subRegion_eq]
    exact id

/-- Who waits does not matter for what is on the way. -/
theorem keeps_waiting (waiting : Thread → Option ℕ) :
    state.Keeps { state with waiting := waiting } block where
  blockIndex := fun _ => rfl
  subRegion := fun _ => rfl
  installed := rfl
  writeProtected := rfl
  underway := fun _ _ _ => id
  due := id

theorem waiting_of_woken {thread : Thread} {address : ℕ}
    (hwoken : state.woken block thread = some address) :
    state.waiting thread = some address ∧ state.manager.blockIndex address ≠ block := by
  obtain ⟨hwaiting, hother⟩ := Option.filter_eq_some_iff.mp hwoken
  exact ⟨hwaiting, by simpa using hother⟩

/-- A queue that holds the events of its own blocks, or fewer. -/
theorem Tended.queued_update (htended : state.Tended) {subRegion : ℕ} {events : EventQueue}
    (hevents : ∀ event ∈ events.queue,
      state.manager.subRegion (state.manager.blockIndex event.address) = subRegion) :
    ∀ other, ∀ event ∈ (Function.update state.queues subRegion events other).queue,
      state.manager.subRegion (state.manager.blockIndex event.address) = other := by
  intro other event hevent
  by_cases hsame : other = subRegion
  · rw [hsame] at hevent ⊢
    rw [Function.update_self] at hevent
    exact hevents event hevent
  · rw [Function.update_of_ne hsame] at hevent
    exact htended.queued other event hevent

theorem Tended.held_moveTo (htended : state.Tended) {subRegion : ℕ} {position : HandlerPosition}
    (hposition : ∀ event, position.event = some event →
      state.manager.subRegion (state.manager.blockIndex event.address) = subRegion) :
    ∀ other event, ((state.moveTo subRegion position).positions other).event = some event →
      state.manager.subRegion (state.manager.blockIndex event.address) = other := by
  intro other event hevent
  change (Function.update state.positions subRegion position other).event = some event at hevent
  by_cases hsame : other = subRegion
  · rw [hsame] at hevent ⊢
    rw [Function.update_self] at hevent
    exact hposition event hevent
  · rw [Function.update_of_ne hsame] at hevent
    exact htended.held other event hevent

theorem present_remaps {other : ℕ} {handled : UffdVirtualMemoryManager Hash}
    (htended : state.Tended) (hremaps : state.manager.Remaps other handled) :
    ∀ subRegion, ∀ block ∈ handled.presentBlocks subRegion, handled.installed block = true := by
  intro subRegion block hblock
  by_cases hsame : block = other
  · rcases hremaps.present subRegion block hblock with hold | hnew
    · rw [hsame]
      exact hremaps.kept (hsame ▸ htended.present subRegion block hold)
    · rw [hsame]
      exact hnew.2
  · rcases hremaps.present subRegion block hblock with hold | hnew
    · rw [hremaps.installed block hsame]
      exact htended.present subRegion block hold
    · exact absurd hnew.1 hsame

end

/-! ## One step -/

variable {state next : FaultState Hash Thread} {action : FaultAction Thread} {build : Build Hash}
variable {message event : FaultEvent}

omit [DecidableEq Hash] [DecidableEq Thread] in
/-- Reading a message takes it from those on the way, and nothing else. -/
theorem keeps_read {block : ℕ} (hother : state.manager.blockIndex message.address = block →
    ¬ state.Wakes message) : state.Keeps (state.read message) block where
  blockIndex := fun _ => rfl
  subRegion := fun _ => rfl
  installed := rfl
  writeProtected := rfl
  underway := by
    rintro event hblock hwakes (hmessage | hadding | hqueued)
    · have hne : event ≠ message := by
        rintro rfl
        exact hother hblock hwakes
      exact .inl ((List.mem_erase_of_ne hne).mpr hmessage)
    · exact .inr (.inl hadding)
    · exact .inr (.inr hqueued)
  due := id

omit [DecidableEq Hash] [DecidableEq Thread] in
/-- A message that the filter drops leaves the threads of its block attended. -/
theorem Waits.drop (hdrop : state.Outdated message ∨
      (state.read message).Answered (state.manager.blockIndex message.address)) {block : ℕ}
    (hwaits : state.Waits block) : (state.read message).Waits block := by
  by_cases hblock : state.manager.blockIndex message.address = block
  · rcases hdrop with houtdated | hanswered
    · rw [Outdated, hblock] at houtdated
      unfold UffdVirtualMemoryManager.permits at houtdated
      rw [Bool.and_eq_true] at houtdated
      obtain ⟨hinstalled, hwritable⟩ := houtdated
      cases hwp : message.isWpFault with
      | false =>
          refine hwaits.keep (keeps_read fun _ hwakes => ?_)
          rcases hwakes with hwakes | hmissing
          · cases hwp.symm.trans hwakes
          · rw [hblock, hinstalled] at hmissing
            cases hmissing
      | true =>
          -- Nobody waits in a writable block, unless its wake is due.
          have hdue : state.WakeDue block := by
            rcases hwaits.fault with hmissing | hprotected | hdue
            · cases hinstalled.symm.trans hmissing
            · rw [hwp, hprotected] at hwritable
              cases hwritable
            · exact hdue
          exact ⟨.inr hdue, .inr (.inr hdue)⟩
    · exact ⟨hblock ▸ hanswered, hwaits.fault⟩
  · exact hwaits.keep (keeps_read fun hsame => absurd hsame hblock)

omit [DecidableEq Hash] [DecidableEq Thread] in
/-- A message that the filter lets through is on its way as before. -/
theorem keeps_add {block : ℕ} (hidle : state.adding = none) :
    state.Keeps { state.read message with adding := some message } block where
  blockIndex := fun _ => rfl
  subRegion := fun _ => rfl
  installed := rfl
  writeProtected := rfl
  underway := by
    rintro event - - (hmessage | hadding | hqueued)
    · by_cases hsame : event = message
      · exact .inr (.inl (congrArg some hsame.symm))
      · exact .inl ((List.mem_erase_of_ne hsame).mpr hmessage)
    · cases hidle.symm.trans hadding
    · exact .inr (.inr hqueued)
  due := id

omit [DecidableEq Hash] [DecidableEq Thread] in
theorem keeps_enqueue {block subRegion : ℕ} (hadding : state.adding = some event)
    (hregion : state.manager.subRegion (state.manager.blockIndex event.address) = subRegion) :
    state.Keeps
      { state with
        adding := none
        queues := Function.update state.queues subRegion
          ((state.queues subRegion).enqueue event) } block where
  blockIndex := fun _ => rfl
  subRegion := fun _ => rfl
  installed := rfl
  writeProtected := rfl
  underway := by
    rintro other - - (hmessage | hother | hqueue | hposition)
    · exact .inl hmessage
    · cases hadding.symm.trans hother
      refine .inr (.inr (.inl ?_))
      change event ∈ (Function.update state.queues subRegion _ _).queue
      rw [hregion, Function.update_self]
      exact List.mem_append_right _ List.mem_cons_self
    · refine .inr (.inr (.inl ?_))
      change other ∈ (Function.update state.queues subRegion _ _).queue
      by_cases hsame : state.manager.subRegion (state.manager.blockIndex other.address) = subRegion
      · rw [hsame] at hqueue ⊢
        rw [Function.update_self]
        exact List.mem_append_left _ hqueue
      · rw [Function.update_of_ne hsame]
        exact hqueue
    · exact .inr (.inr (.inr hposition))
  due := id

omit [DecidableEq Hash] [DecidableEq Thread] in
theorem keeps_dequeue {block subRegion : ℕ} {rest : List FaultEvent}
    (hposition : state.positions subRegion = .idle)
    (hqueue : (state.queues subRegion).queue = event :: rest)
    (hregion : state.manager.subRegion (state.manager.blockIndex event.address) = subRegion) :
    state.Keeps
      { state.moveTo subRegion (.handling event) with
        queues := Function.update state.queues subRegion
          { state.queues subRegion with queue := rest } } block where
  blockIndex := fun _ => rfl
  subRegion := fun _ => rfl
  installed := rfl
  writeProtected := rfl
  underway := by
    rintro other - - (hmessage | hadding | hother | hother)
    · exact .inl hmessage
    · exact .inr (.inl hadding)
    · refine .inr (.inr ?_)
      by_cases hsame : state.manager.subRegion (state.manager.blockIndex other.address) = subRegion
      · rw [hsame, hqueue] at hother
        rcases List.mem_cons.mp hother with rfl | hrest
        · refine .inr ?_
          change Function.update state.positions subRegion (.handling other)
            (state.manager.subRegion (state.manager.blockIndex other.address)) = _
          rw [hsame, Function.update_self]
        · refine .inl ?_
          change other ∈ (Function.update state.queues subRegion _
            (state.manager.subRegion (state.manager.blockIndex other.address))).queue
          rw [hsame, Function.update_self]
          exact hrest
      · refine .inl ?_
        change other ∈ (Function.update state.queues subRegion _
          (state.manager.subRegion (state.manager.blockIndex other.address))).queue
        rw [Function.update_of_ne hsame]
        exact hother
    · refine .inr (.inr (.inr ?_))
      have hne : state.manager.subRegion (state.manager.blockIndex other.address) ≠ subRegion := by
        intro hsame
        rw [hsame, hposition] at hother
        cases hother
      exact (Function.update_of_ne hne _ _).trans hother
  due := by
    intro hdue
    refine (keeps_moveTo ?_).due hdue
    rintro ⟨owed, -, howed | howed | ⟨howed, -⟩⟩
    · cases hposition.symm.trans howed
    · cases hposition.symm.trans howed
    · cases hposition.symm.trans howed

omit [DecidableEq Hash] [DecidableEq Thread] in
theorem faultEvent_address (manager : UffdVirtualMemoryManager Hash) (address : ℕ)
    (isWrite : Bool) : (manager.faultEvent address isWrite).address = address := by
  unfold UffdVirtualMemoryManager.faultEvent
  split_ifs
  · rfl
  · rfl

omit [DecidableEq Hash] in
/-- A thread that faults posts the message that answers it. -/
theorem waits_fault {thread : Thread} {address : ℕ} {isWrite : Bool}
    (hfaults : state.manager.permits (state.manager.blockIndex address) isWrite = false) :
    Waits
      { state with
        messages := state.messages ++ [state.manager.faultEvent address isWrite]
        waiting := Function.update state.waiting thread (some address) }
      (state.manager.blockIndex address) := by
  have haddress := faultEvent_address state.manager address isWrite
  unfold UffdVirtualMemoryManager.permits at hfaults
  refine ⟨.inl ⟨state.manager.faultEvent address isWrite, congrArg _ haddress, ?_,
    .inl (List.mem_append_right _ List.mem_cons_self)⟩, ?_⟩
  · cases hinstalled : state.manager.installed (state.manager.blockIndex address) with
    | true =>
        refine .inl ?_
        simp [UffdVirtualMemoryManager.faultEvent, hinstalled]
    | false =>
        refine .inr ?_
        rw [haddress]
        exact hinstalled
  · cases hinstalled : state.manager.installed (state.manager.blockIndex address) with
    | true =>
        rw [hinstalled, Bool.true_and, Bool.not_eq_false', Bool.and_eq_true] at hfaults
        exact .inr (.inl hfaults.2)
    | false => exact .inl rfl

omit [DecidableEq Hash] [DecidableEq Thread] in
/-- A handler thread moves on, perhaps after a wake. -/
theorem Tended.moveTo (htended : state.Tended) {subRegion : ℕ} {position : HandlerPosition}
    {waiting : Thread → Option ℕ}
    (hevent : ∀ event, position.event = some event →
      (state.positions subRegion).event = some event)
    (hwaits : ∀ thread address, waiting thread = some address →
      (state.moveTo subRegion position).Waits (state.manager.blockIndex address)) :
    Tended { state.moveTo subRegion position with waiting := waiting } where
  waits := fun thread address hwaiting => (hwaits thread address hwaiting).keep
    (keeps_waiting waiting)
  posted := htended.posted
  queued := htended.queued
  held := htended.held_moveTo fun event hposition =>
    htended.held subRegion event (hevent event hposition)
  present := htended.present

omit [DecidableEq Hash] [DecidableEq Thread] in
/-- A handler thread has worked on a block where threads wait for a due wake only. -/
theorem Tended.remap (htended : state.Tended) {block : ℕ}
    {handled : UffdVirtualMemoryManager Hash} (hremaps : state.manager.Remaps block handled)
    (hdue : ∀ thread address, state.waiting thread = some address →
      state.manager.blockIndex address = block → state.WakeDue block) :
    Tended { state with manager := handled } where
  waits := by
    intro thread address hwaiting
    have hindex : handled.blockIndex address = state.manager.blockIndex address :=
      hremaps.blockIndex_eq address
    change Waits { state with manager := handled } (handled.blockIndex address)
    rw [hindex]
    by_cases hblock : state.manager.blockIndex address = block
    · have hlater : WakeDue { state with manager := handled } block := by
        unfold WakeDue
        simp only [hremaps.blockIndex_eq, hremaps.subRegion_eq]
        exact hdue thread address hwaiting hblock
      rw [hblock]
      exact ⟨.inr hlater, .inr (.inr hlater)⟩
    · exact (htended.waits thread address hwaiting).keep (keeps_remaps hremaps hblock)
  posted := by
    rw [hremaps.regionStartAddress]
    exact htended.posted
  queued := by
    simp only [hremaps.blockIndex_eq, hremaps.subRegion_eq]
    exact htended.queued
  held := by
    simp only [hremaps.blockIndex_eq, hremaps.subRegion_eq]
    exact htended.held
  present := present_remaps htended hremaps

omit [DecidableEq Hash] [DecidableEq Thread] in
theorem Tended.removeProcessed (htended : state.Tended) (subRegion : ℕ) (event : FaultEvent) :
    Tended
      { state with
        queues := Function.update state.queues subRegion
          ((state.queues subRegion).removeProcessed event) } where
  waits := fun thread address hwaiting => (htended.waits thread address hwaiting).keep
    keeps_removeProcessed
  posted := htended.posted
  queued := htended.queued_update (htended.queued subRegion)
  held := htended.held
  present := htended.present

omit [DecidableEq Hash] [DecidableEq Thread] in
/-- A handler thread moves on to where it owes its block a wake. -/
theorem Tended.moveTo_due (htended : state.Tended) {subRegion : ℕ} {position : HandlerPosition}
    (hevent : (state.positions subRegion).event = some event)
    (hdue : position = .loaded event ∨ position = .removed event) :
    (state.moveTo subRegion position).Tended ∧
      (state.moveTo subRegion position).WakeDue (state.manager.blockIndex event.address) := by
  have hregion := htended.held subRegion event hevent
  have hlater : (state.moveTo subRegion position).WakeDue
      (state.manager.blockIndex event.address) := by
    refine ⟨event, rfl, ?_⟩
    change Function.update state.positions subRegion position
      (state.manager.subRegion (state.manager.blockIndex event.address)) = _ ∨
        Function.update state.positions subRegion position
          (state.manager.subRegion (state.manager.blockIndex event.address)) = _
    rw [hregion, Function.update_self]
    exact hdue
  refine ⟨htended.moveTo (fun other hother => ?_) ?_, hlater⟩
  · rcases hdue with rfl | rfl
    · exact hevent.trans hother
    · exact hevent.trans hother
  · intro thread address hwaiting
    by_cases hblock : state.manager.blockIndex event.address = state.manager.blockIndex address
    · exact hblock ▸ ⟨.inr hlater, .inr (.inr hlater)⟩
    · exact (htended.waits thread address hwaiting).keep
        (keeps_moveTo (not_owes_of_ne hevent hblock))

omit [DecidableEq Hash] [DecidableEq Thread] in
/-- A handler thread wakes its block. -/
theorem Tended.moveTo_woken (htended : state.Tended) {subRegion : ℕ} {position : HandlerPosition}
    (hevent : (state.positions subRegion).event = some event)
    (hposition : ∀ other, position.event = some other → other = event) :
    Tended { state.moveTo subRegion position with
      waiting := state.woken (state.manager.blockIndex event.address) } := by
  refine htended.moveTo (fun other hother => ?_) fun thread address hwaiting => ?_
  · rw [hposition other hother]
    exact hevent
  · obtain ⟨hold, hother⟩ := waiting_of_woken hwaiting
    exact (htended.waits thread address hold).keep
      (keeps_moveTo (not_owes_of_ne hevent (Ne.symm hother)))

/-- What a step keeps when a message that it drops is outdated or answered. -/
theorem Tended.step (htended : state.Tended) (hmeets : state.DropsAnswered action)
    (hstep : Step build state action next) : next.Tended := by
  cases hstep with
  | @fault thread address isWrite hruns hstart hend hword hfaults =>
      refine ⟨?_, ?_, htended.queued, htended.held, htended.present⟩
      · intro other address' hwaiting
        by_cases hsame : other = thread
        · subst hsame
          cases (Function.update_self other _ _).symm.trans hwaiting
          exact waits_fault hfaults
        · have hold := (Function.update_of_ne hsame _ _).symm.trans hwaiting
          refine (htended.waits other address' hold).keep ⟨fun _ => rfl, fun _ => rfl, rfl, rfl,
            ?_, id⟩
          rintro event - - (hmessage | hadding | hqueued)
          · exact .inl (List.mem_append_left _ hmessage)
          · exact .inr (.inl hadding)
          · exact .inr (.inr hqueued)
      · rintro event (hmessage | hadding)
        · rcases List.mem_append.mp hmessage with hold | hnew
          · exact htended.posted event (.inl hold)
          · rw [List.mem_singleton.mp hnew, faultEvent_address]
            exact ⟨hstart, hword⟩
        · exact htended.posted event (.inr hadding)
  | @dispatch message hidle hmessage =>
      refine ⟨?_, ?_, htended.queued, htended.held, htended.present⟩
      · intro thread address hwaiting
        have hwaits := htended.waits thread address hwaiting
        cases hfound : state.found message with
        | true =>
            have hdropped : ({ state.read message with
                adding := if (true : Bool) = true then none else some message } :
                  FaultState Hash Thread) = state.read message := by
              rw [if_pos rfl, ← hidle]
              rfl
            rw [hdropped]
            exact Waits.drop (hmeets hfound) hwaits
        | false => exact hwaits.keep (keeps_add hidle)
      · rintro event (hother | hadding)
        · exact htended.posted event (.inl (List.mem_of_mem_erase hother))
        · dsimp only at hadding
          split_ifs at hadding
          cases hadding
          exact htended.posted _ (.inl hmessage)
  | @enqueue event hadding =>
      obtain ⟨hstart, hword⟩ := htended.posted event (.inr hadding)
      have hregion : state.manager.eventSubRegion event.address =
          state.manager.subRegion (state.manager.blockIndex event.address) :=
        UffdVirtualMemoryManager.eventSubRegion_eq hstart hword
      refine ⟨?_, ?_, ?_, htended.held, htended.present⟩
      · exact fun thread address hwaiting => (htended.waits thread address hwaiting).keep
          (keeps_enqueue hadding hregion.symm)
      · rintro other (hmessage | hother)
        · exact htended.posted other (.inl hmessage)
        · cases hother
      · refine htended.queued_update fun other hother => ?_
        rcases List.mem_append.mp hother with hold | hnew
        · exact htended.queued _ other hold
        · rw [List.mem_singleton.mp hnew]
          exact hregion.symm
  | @dequeue subRegion event events hthread hposition hdequeue =>
      unfold EventQueue.dequeue at hdequeue
      cases hqueue : (state.queues subRegion).queue with
      | nil =>
          rw [hqueue] at hdequeue
          cases hdequeue
      | cons first rest =>
          simp only [hqueue, Option.some.injEq, Prod.mk.injEq] at hdequeue
          obtain ⟨rfl, rfl⟩ := hdequeue
          have hregion := htended.queued subRegion first (by rw [hqueue]; exact List.mem_cons_self)
          refine ⟨?_, htended.posted, ?_, ?_, htended.present⟩
          · exact fun thread address hwaiting => (htended.waits thread address hwaiting).keep
              (keeps_dequeue hposition hqueue hregion)
          · refine htended.queued_update fun other hother => ?_
            have hmember : other ∈ (state.queues subRegion).queue := by
              rw [hqueue]
              exact List.mem_cons_of_mem _ hother
            exact htended.queued subRegion other hmember
          · refine htended.held_moveTo fun other hother => ?_
            cases hother
            exact hregion
  | @skip subRegion event hposition hskips =>
      unfold UffdVirtualMemoryManager.skips at hskips
      rw [Bool.and_eq_true, decide_eq_true_eq, Bool.not_eq_true'] at hskips
      refine htended.moveTo (fun _ hnone => by cases hnone) fun thread address hwaiting =>
        (htended.waits thread address hwaiting).keep (keeps_moveTo ?_)
      rintro ⟨owed, -, howed | howed | ⟨howed, hwakes⟩⟩
      · cases hposition.symm.trans howed
      · cases hposition.symm.trans howed
      · cases hposition.symm.trans howed
        rcases hwakes with hwp | hmissing
        · cases hskips.2.symm.trans hwp
        · cases (htended.present subRegion _ hskips.1).symm.trans hmissing
  | @unprotect subRegion event handled hposition hwp hreturns =>
      have hremaps := UffdVirtualMemoryManager.handleWpFault_remaps hreturns
      have hmoved : Tended { state.moveTo subRegion (.unprotected event) with
          waiting := state.woken (state.manager.blockIndex event.address) } :=
        htended.moveTo_woken (by rw [hposition]; rfl) fun _ hother => (Option.some.inj hother).symm
      exact hmoved.remap hremaps fun thread address hwaiting hblock =>
        absurd hblock (waiting_of_woken hwaiting).2
  | @load subRegion event handled hposition hskips hwp hreturns =>
      obtain ⟨hremaps, -⟩ := UffdVirtualMemoryManager.handleMissing_remaps hreturns
      obtain ⟨hmoved, hdue⟩ := htended.moveTo_due (by rw [hposition]; rfl) (.inl rfl)
      exact hmoved.remap hremaps fun _ _ _ _ => hdue
  | @removeUnprotected subRegion event hposition =>
      have hmoved : (state.moveTo subRegion .idle).Tended := by
        refine htended.moveTo (fun _ hnone => by cases hnone) fun thread address hwaiting =>
          (htended.waits thread address hwaiting).keep (keeps_moveTo ?_)
        rintro ⟨owed, -, howed | howed | ⟨howed, -⟩⟩
        · cases hposition.symm.trans howed
        · cases hposition.symm.trans howed
        · cases hposition.symm.trans howed
      exact hmoved.removeProcessed subRegion event
  | @removeLoaded subRegion event hposition =>
      obtain ⟨hmoved, -⟩ := htended.moveTo_due (by rw [hposition]; rfl) (.inr rfl)
      exact hmoved.removeProcessed subRegion event
  | @wake subRegion event hposition =>
      exact htended.moveTo_woken (by rw [hposition]; rfl) fun _ hnone => by cases hnone

/-! ## Runs -/

/-- In every run whose dropped messages are outdated or answered, no thread is lost. -/
theorem no_fault_is_lost {base : VirtualMemoryManagerBase Hash}
    {regionStartAddress numHandlingThreads : ℕ}
    {trace : List (FaultAction Thread × FaultState Hash Thread)}
    (hrun : Run (Step build) (initial (.initial base regionStartAddress numHandlingThreads)) trace)
    (hmeets : Run.Each DropsAnswered
      (initial (.initial base regionStartAddress numHandlingThreads)) trace) :
    ∀ state ∈ Run.states (initial (.initial base regionStartAddress numHandlingThreads)) trace,
      state.AttendsAll := by
  have htended := hrun.forall_states
    (fun _ _ _ htended hmeets hstep => Tended.step htended hmeets hstep)
    (Tended.initial base regionStartAddress numHandlingThreads) hmeets
  intro state hstate thread address hwaiting
  exact ((htended state hstate).waits thread address hwaiting).answered.attended

/-- One thread reads a page of a block that is not there. -/
theorem no_fault_is_lost_once :
    ∃ trace : List (FaultAction ℕ × FaultState (Option (List Byte)) ℕ),
      trace.map Prod.fst = [.fault 0 4096 false, .dispatch ⟨4096, false, false⟩, .enqueue,
        .dequeue 0, .load 0, .removeProcessed 0, .wake 0] ∧
      ∀ state ∈ Run.states (initial FilterState.twoPageBlock) trace, state.AttendsAll := by
  obtain ⟨trace, hlabels, hrun, hmeets⟩ :
      ∃ trace : List (FaultAction ℕ × FaultState (Option (List Byte)) ℕ),
        trace.map Prod.fst = [.fault 0 4096 false, .dispatch ⟨4096, false, false⟩, .enqueue,
          .dequeue 0, .load 0, .removeProcessed 0, .wake 0] ∧
        Run (Step .transparent) (initial FilterState.twoPageBlock) trace ∧
        Run.Each DropsAnswered (initial FilterState.twoPageBlock) trace := by
    refine ⟨[(.fault 0 4096 false, _), (.dispatch ⟨4096, false, false⟩, _), (.enqueue, _),
        (.dequeue 0, _), (.load 0, _), (.removeProcessed 0, _), (.wake 0, _)], rfl,
      .cons (.fault rfl (by decide) (by decide) (by decide) rfl)
        (.cons (.dispatch rfl (by decide)) (.cons (.enqueue rfl)
          (.cons (.dequeue (by decide) rfl rfl) (.cons (.load rfl rfl rfl rfl)
            (.cons (.removeLoaded rfl) (.cons (.wake rfl) .nil)))))),
      trivial, ?_, trivial, trivial, trivial, trivial, trivial, trivial⟩
    exact fun hfound => by cases hfound
  exact ⟨trace, hlabels, no_fault_is_lost hrun hmeets⟩

omit [DecidableEq Hash] [DecidableEq Thread] in
/-- A thread is lost when it waits and nothing is on the way. -/
theorem not_attendsAll {thread : Thread} {address : ℕ}
    (hwaiting : state.waiting thread = some address) (hmessages : state.messages = [])
    (hadding : state.adding = none)
    (hqueue : (state.queues (state.manager.subRegion
      (state.manager.blockIndex address))).queue = [])
    (hposition : state.positions (state.manager.subRegion
      (state.manager.blockIndex address)) = .idle) : ¬ state.AttendsAll := by
  intro hattends
  rcases hattends thread address hwaiting with ⟨event, hblock, hmessage | hadded | ⟨-, hqueued⟩⟩ |
    ⟨event, -, hdue | hdue⟩
  · rw [hmessages] at hmessage
    exact List.not_mem_nil hmessage
  · cases hadding.symm.trans hadded
  · rcases hqueued with hqueued | hhandling
    · rw [hblock, hqueue] at hqueued
      exact List.not_mem_nil hqueued
    · rw [hblock] at hhandling
      cases hposition.symm.trans hhandling
  · cases hposition.symm.trans hdue
  · cases hposition.symm.trans hdue

/-- Two threads read two pages of one block.  The event of the second page is skipped and
stays in the set, so that the message of a later write to that page is dropped. -/
theorem write_after_skip_is_lost :
    ∃ trace : List (FaultAction ℕ × FaultState (Option (List Byte)) ℕ),
      Run (Step .transparent) (initial FilterState.twoPageBlock) trace ∧
      trace.map Prod.fst = [.fault 0 4096 false, .fault 1 4097 false,
        .dispatch ⟨4096, false, false⟩, .enqueue, .dispatch ⟨4097, false, false⟩, .enqueue,
        .dequeue 0, .load 0, .removeProcessed 0, .wake 0, .dequeue 0, .skip 0,
        .fault 1 4097 true, .dispatch ⟨4097, true, false⟩] ∧
      ¬ (Run.last (initial FilterState.twoPageBlock) trace).AttendsAll := by
  refine ⟨[(.fault 0 4096 false, _), (.fault 1 4097 false, _), (.dispatch ⟨4096, false, false⟩, _),
      (.enqueue, _), (.dispatch ⟨4097, false, false⟩, _), (.enqueue, _), (.dequeue 0, _),
      (.load 0, _), (.removeProcessed 0, _), (.wake 0, _), (.dequeue 0, _), (.skip 0, _),
      (.fault 1 4097 true, _), (.dispatch ⟨4097, true, false⟩, _)],
    .cons (.fault rfl (by decide) (by decide) (by decide) rfl)
      (.cons (.fault rfl (by decide) (by decide) (by decide) rfl)
        (.cons (.dispatch rfl (by decide)) (.cons (.enqueue rfl)
          (.cons (.dispatch rfl (by decide)) (.cons (.enqueue rfl)
            (.cons (.dequeue (by decide) rfl rfl) (.cons (.load rfl rfl rfl rfl)
              (.cons (.removeLoaded rfl) (.cons (.wake rfl)
                (.cons (.dequeue (by decide) rfl rfl) (.cons (.skip rfl rfl)
                  (.cons (.fault rfl (by decide) (by decide) (by decide) rfl)
                    (.cons (.dispatch rfl (by decide)) .nil))))))))))))), rfl, ?_⟩
  exact @not_attendsAll _ _ _ 1 4097 rfl rfl rfl rfl rfl

end FaultState

end Privateer
