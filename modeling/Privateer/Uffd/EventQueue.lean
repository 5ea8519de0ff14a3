import Privateer.Uffd.Shutdown

/-!
# The queues of fault events

Each handler thread takes its events from a queue of its own.  Beside the events that
wait, a queue keeps those that are being processed, in a set that is ordered by address
alone.  `add_page_fault_event` routes an event by its address, in 64-bit arithmetic; the
events that stop the handler threads take the same way.
-/

namespace Privateer

/-- The events of a sub-region: `queue` waits for the handler, `processing` is the
`std::set` of the events that were enqueued and not yet removed. -/
structure EventQueue where
  queue : List FaultEvent
  processing : List FaultEvent
  nonzero : ∀ event ∈ processing, event.address ≠ 0
  distinct : (processing.map FaultEvent.address).Nodup

namespace EventQueue

variable {events : EventQueue} {item event : FaultEvent}

def empty : EventQueue := ⟨[], [], nofun, List.nodup_nil⟩

/-- `found` looks the event up in the set, so by its address. -/
def found (events : EventQueue) (item : FaultEvent) : Bool :=
  events.processing.any fun event => event.address = item.address

theorem found_iff : events.found item = true ↔
    ∃ event ∈ events.processing, event.address = item.address := by
  simp [found]

/-- `std::set::insert`, which keeps an element that is there already. -/
def insertProcessing (events : EventQueue) (item : FaultEvent) : List FaultEvent :=
  if events.found item then events.processing else item :: events.processing

/-- `enqueue`; an event with address 0 does not join the set. -/
def enqueue (events : EventQueue) (item : FaultEvent) : EventQueue where
  queue := events.queue ++ [item]
  processing := if item.address = 0 then events.processing else events.insertProcessing item
  nonzero := by
    intro event hevent
    unfold insertProcessing at hevent
    split_ifs at hevent with hzero hfound
    · exact events.nonzero event hevent
    · exact events.nonzero event hevent
    · rcases List.mem_cons.mp hevent with rfl | hold
      · exact hzero
      · exact events.nonzero event hold
  distinct := by
    unfold insertProcessing
    split_ifs with hzero hfound
    · exact events.distinct
    · exact events.distinct
    · refine List.nodup_cons.mpr ⟨fun hmember => hfound ?_, events.distinct⟩
      obtain ⟨event, hevent, haddress⟩ := List.mem_map.mp hmember
      exact found_iff.mpr ⟨event, hevent, haddress⟩

/-- `dequeue` waits while there is no event. -/
def dequeue (events : EventQueue) : Option (FaultEvent × EventQueue) :=
  match events.queue with
  | [] => none
  | item :: rest => some (item, { events with queue := rest })

/-- `remove_processed` erases the element with the address of the event. -/
def removeProcessed (events : EventQueue) (item : FaultEvent) : EventQueue where
  queue := events.queue
  processing := events.processing.filter fun event => event.address ≠ item.address
  nonzero := fun event hevent => events.nonzero event (List.mem_of_mem_filter hevent)
  distinct := events.distinct.sublist (List.filter_sublist.map _)

/-- No event with address 0 is ever being processed. -/
theorem found_zero (isWpFault isWriteFault : Bool) :
    events.found ⟨0, isWpFault, isWriteFault⟩ = false := by
  rw [Bool.eq_false_iff]
  intro hfound
  obtain ⟨event, hevent, haddress⟩ := found_iff.mp hfound
  exact events.nonzero event hevent haddress

/-- The queue holds an event that stops its handler. -/
def HoldsStop (events : EventQueue) : Prop :=
  ∃ event ∈ events.queue, event.address = 0

end EventQueue

namespace UffdVirtualMemoryManager

variable {Hash : Type} {build : Build Hash} {manager closed : UffdVirtualMemoryManager Hash}
variable {queues queues' : ℕ → EventQueue} {schedule : ℕ → MsyncSchedule}

/-! ## Routing -/

/-- The sub-region of an address, as `add_page_fault_event` computes it. -/
def eventSubRegion (manager : UffdVirtualMemoryManager Hash) (address : ℕ) : ℕ :=
  (UInt64.ofNat address - UInt64.ofNat manager.regionStartAddress).toNat / manager.blockSize %
    manager.numHandlingThreads

/-- Inside a region that ends below `2 ^ 64`, an event goes to the sub-region of its block. -/
theorem eventSubRegion_eq {address : ℕ} (hstart : manager.regionStartAddress ≤ address)
    (hend : address < 2 ^ 64) :
    manager.eventSubRegion address = manager.subRegion (manager.blockIndex address) := by
  have hle : UInt64.ofNat manager.regionStartAddress ≤ UInt64.ofNat address := by
    rw [UInt64.le_iff_toNat_le, UInt64.toNat_ofNat_of_lt' hend,
      UInt64.toNat_ofNat_of_lt' (hstart.trans_lt hend)]
    exact hstart
  rw [eventSubRegion, UInt64.toNat_sub_of_le _ _ hle, UInt64.toNat_ofNat_of_lt' hend,
    UInt64.toNat_ofNat_of_lt' (hstart.trans_lt hend)]
  rfl

/-- `add_page_fault_event`, with both of its queue methods at once. -/
def addPageFaultEvent (manager : UffdVirtualMemoryManager Hash) (queues : ℕ → EventQueue)
    (event : FaultEvent) : ℕ → EventQueue :=
  let subRegion := manager.eventSubRegion event.address
  if (queues subRegion).found event then queues
  else Function.update queues subRegion ((queues subRegion).enqueue event)

/-! ## Closing -/

/-- The events that `stop_handler_thread` adds, one for each handler thread. -/
def addStopEvents (manager : UffdVirtualMemoryManager Hash) (queues : ℕ → EventQueue) :
    ℕ → EventQueue :=
  (List.range manager.numHandlingThreads).foldl
    (fun queues _ => manager.addPageFaultEvent queues ⟨0, false, false⟩) queues

/-- `close` of a manager whose region is registered, up to the joins. -/
def closeQueues (build : Build Hash) (manager : UffdVirtualMemoryManager Hash)
    (queues : ℕ → EventQueue) (schedule : ℕ → MsyncSchedule) :
    StorageProgram Hash (UffdVirtualMemoryManager Hash × (ℕ → EventQueue)) := do
  let committed ← msync build manager schedule
  let closed := { committed.unmapPresent with regionStartAddress := 0 }
  return (closed, closed.addStopEvents queues)

/-- With the start of the region reset, a stop event goes to the first queue. -/
theorem addPageFaultEvent_stop (hstart : manager.regionStartAddress = 0) :
    manager.addPageFaultEvent queues ⟨0, false, false⟩ =
      Function.update queues 0 ((queues 0).enqueue ⟨0, false, false⟩) := by
  have hregion : manager.eventSubRegion 0 = 0 := by
    simp [eventSubRegion, hstart]
  simp only [addPageFaultEvent, hregion, EventQueue.found_zero, Bool.false_eq_true, if_false]

/-- Each stop event joins the first queue and no other. -/
theorem holdsStop_foldl_addStopEvents (hstart : manager.regionStartAddress = 0)
    (threads : List ℕ) (subRegion : ℕ) :
    (threads.foldl (fun queues _ => manager.addPageFaultEvent queues ⟨0, false, false⟩) queues
      subRegion).HoldsStop ↔ (threads ≠ [] ∧ subRegion = 0) ∨ (queues subRegion).HoldsStop := by
  induction threads generalizing queues with
  | nil => simp
  | cons thread rest ih =>
      rw [List.foldl_cons, ih, addPageFaultEvent_stop hstart]
      by_cases hzero : subRegion = 0
      · simp [hzero, EventQueue.HoldsStop, EventQueue.enqueue]
      · simp [hzero]

theorem holdsStop_addStopEvents (hstart : manager.regionStartAddress = 0)
    (hthreads : 1 ≤ manager.numHandlingThreads) (subRegion : ℕ) :
    (manager.addStopEvents queues subRegion).HoldsStop ↔
      subRegion = 0 ∨ (queues subRegion).HoldsStop := by
  have hrange : List.range manager.numHandlingThreads ≠ [] := by
    rw [Ne, List.range_eq_nil]
    omega
  rw [addStopEvents, holdsStop_foldl_addStopEvents hstart]
  simp only [ne_eq, hrange, not_false_eq_true, true_and]

/-- The joins of `stop_handler_thread` end exactly if every queue holds a stop event. -/
theorem stopHandlerThread_returns_iff {region : UffdRegion Hash}
    (hstop : ∀ subRegion, region.stopEvents subRegion = true ↔ (queues subRegion).HoldsStop)
    (hstart : region.manager.regionStartAddress = 0)
    (hthreads : 1 ≤ region.manager.numHandlingThreads) :
    (∃ stopped, region.stopHandlerThread.Returns stopped) ↔
      ∀ subRegion < region.manager.numHandlingThreads,
        (region.manager.addStopEvents queues subRegion).HoldsStop := by
  have hqueues : ∀ subRegion, Function.update region.stopEvents 0 true subRegion = true ↔
      (region.manager.addStopEvents queues subRegion).HoldsStop := by
    intro subRegion
    rw [holdsStop_addStopEvents hstart hthreads, ← hstop]
    by_cases hzero : subRegion = 0
    · simp [hzero]
    · simp [hzero]
  simp only [← hqueues]
  unfold UffdRegion.stopHandlerThread
  dsimp only
  split_ifs with hall
  · exact iff_of_true ⟨_, rfl⟩ fun subRegion hlt =>
      List.all_eq_true.mp hall subRegion (List.mem_range.mpr hlt)
  · refine iff_of_false (by rintro ⟨stopped, hstopped⟩; exact hstopped) fun hevery => hall ?_
    exact List.all_eq_true.mpr fun subRegion hmember => hevery _ (List.mem_range.mp hmember)

theorem closeQueues_returns
    (hreturns : (closeQueues build manager queues schedule).Returns (closed, queues')) :
    closed.numHandlingThreads = manager.numHandlingThreads ∧ closed.regionStartAddress = 0 ∧
      queues' = closed.addStopEvents queues := by
  obtain ⟨committed, hcommitted, hlast⟩ := Program.returns_bind.mp hreturns
  cases hlast
  exact ⟨(leaves_msyncSubRegions hcommitted).numHandlingThreads, rfl, rfl⟩

/-- After the loop of `stop_handler_thread` every queue holds a stop event exactly if all
queues but the first one held one before. -/
theorem stop_events_reach_iff (hthreads : 1 ≤ manager.numHandlingThreads)
    (hreturns : (closeQueues build manager queues schedule).Returns (closed, queues')) :
    (∀ subRegion < manager.numHandlingThreads, (queues' subRegion).HoldsStop) ↔
      ∀ subRegion, 0 < subRegion → subRegion < manager.numHandlingThreads →
        (queues subRegion).HoldsStop := by
  obtain ⟨hsame, hstart, rfl⟩ := closeQueues_returns hreturns
  simp only [holdsStop_addStopEvents hstart (hthreads.trans_eq hsame.symm)]
  constructor
  · intro hall subRegion hpos hlt
    exact (hall subRegion hlt).resolve_left hpos.ne'
  · intro hothers subRegion hlt
    by_cases hzero : subRegion = 0
    · exact .inl hzero
    · exact .inr (hothers subRegion (Nat.pos_of_ne_zero hzero) hlt)

/-- The second of two handler threads has been stopped already. -/
def secondStopped : ℕ → EventQueue :=
  Function.update (fun _ => EventQueue.empty) 1 (EventQueue.empty.enqueue ⟨0, false, false⟩)

theorem stop_events_reach_iff_twoThreads :
    ∃ closed queues', (closeQueues .transparent (initial oneOfTwoBlocks 4096 2) secondStopped
        fun _ => ⟨[], []⟩).Returns (closed, queues') ∧
      ∀ subRegion < 2, (queues' subRegion).HoldsStop := by
  obtain ⟨closed, queues', hreturns⟩ : ∃ closed queues',
      (closeQueues .transparent (initial oneOfTwoBlocks 4096 2) secondStopped
        fun _ => ⟨[], []⟩).Returns (closed, queues') := ⟨_, _, rfl⟩
  refine ⟨closed, queues', hreturns, (stop_events_reach_iff (by decide) hreturns).mpr ?_⟩
  intro subRegion hpos hlt
  obtain rfl : subRegion = 1 := by
    have hle : subRegion < 2 := hlt
    omega
  exact ⟨⟨0, false, false⟩, List.mem_singleton_self _, rfl⟩

/-- The second of the two threads is left without a stop event. -/
theorem second_thread_gets_no_stop_event :
    ∃ closed queues', (closeQueues .transparent (initial oneOfTwoBlocks 4096 2)
        (fun _ => EventQueue.empty) fun _ => ⟨[], []⟩).Returns (closed, queues') ∧
      (queues' 0).queue = [⟨0, false, false⟩, ⟨0, false, false⟩] ∧ (queues' 1).queue = [] :=
  ⟨_, _, rfl, rfl, rfl⟩

end UffdVirtualMemoryManager

end Privateer
