import Privateer.Uffd.EventQueue

/-!
# The filter of fault events

The dispatcher drops an event when the queue is already processing one.  The set behind
this is ordered by address alone, so events of different kinds on one page are the same
to it, and the handler leaves an event in the set when it finds the block present.  When
neither happens, the set holds exactly the events that wait or are being handled.
-/

namespace Privateer

/-- A sub-region between two steps of its threads: `adding` is the event that the
dispatcher is about to enqueue, `handling` the event of the handler's iteration; the
handler waits in `dequeue` when there is none. -/
structure FilterState (Hash : Type) where
  manager : UffdVirtualMemoryManager Hash
  events : EventQueue
  adding : Option FaultEvent
  handling : Option FaultEvent

/-- The steps of the dispatcher (`add` calls `found`, `enqueue` follows when it is false),
of the handler (`finish` ends its iteration), and of everyone else. -/
inductive FilterStep where
  | add (event : FaultEvent)
  | enqueue
  | dequeue
  | finish
  | others

namespace FilterState

variable {Hash : Type} [DecidableEq Hash]

/-- The steps, each with one method of the queue.  The iteration of an event ends with
`remove_processed`, unless the block was there already. -/
inductive Step (build : Build Hash) (subRegion : ℕ) :
    FilterState Hash → FilterStep → FilterState Hash → Prop
  | add {state : FilterState Hash} {event : FaultEvent} (hidle : state.adding = none)
      (hnonzero : event.address ≠ 0) :
      Step build subRegion state (.add event)
        { state with adding := if state.events.found event then none else some event }
  | enqueue {state : FilterState Hash} {event : FaultEvent} (hadding : state.adding = some event) :
      Step build subRegion state .enqueue
        { state with
          events := state.events.enqueue event
          adding := none }
  | dequeue {state : FilterState Hash} {event : FaultEvent} {events : EventQueue}
      (hwaiting : state.handling = none)
      (hdequeue : state.events.dequeue = some (event, events)) :
      Step build subRegion state .dequeue
        { state with
          events := events
          handling := some event }
  | finish {state : FilterState Hash} {event : FaultEvent}
      {handled : UffdVirtualMemoryManager Hash} (hhandling : state.handling = some event)
      (hreturns : (UffdVirtualMemoryManager.handleEvent build state.manager subRegion
        event).Returns handled) :
      Step build subRegion state .finish
        { state with
          manager := handled
          events := if state.manager.skips subRegion event then state.events
            else state.events.removeProcessed event
          handling := none }
  | others {state : FilterState Hash} {manager : UffdVirtualMemoryManager Hash} :
      Step build subRegion state .others { state with manager := manager }

/-- A sub-region before its first event. -/
def initial (manager : UffdVirtualMemoryManager Hash) : FilterState Hash where
  manager := manager
  events := EventQueue.empty
  adding := none
  handling := none

variable {state next : FilterState Hash} {label : FilterStep} {build : Build Hash}
variable {subRegion : ℕ}

omit [DecidableEq Hash] in
/-- The event was enqueued, and the iteration for it has not ended. -/
def Pending (state : FilterState Hash) (event : FaultEvent) : Prop :=
  event ∈ state.events.queue ∨ state.handling = some event

omit [DecidableEq Hash] in
/-- A call that drops its event finds the same event pending. -/
def DropsDuplicate (state : FilterState Hash) : FilterStep → Prop
  | .add event => state.events.found event = true → state.Pending event
  | _ => True

omit [DecidableEq Hash] in
/-- Nothing is being processed once the handler waits on an empty queue. -/
def Settled (state : FilterState Hash) : Prop :=
  state.events.queue = [] → state.handling = none → state.events.processing = []

omit [DecidableEq Hash] in
/-- An event that is added is of the kind that is being processed at its address, if any,
and the handler does not find the block of its event present. -/
def Distinguishes (subRegion : ℕ) (state : FilterState Hash) : FilterStep → Prop
  | .add event => ∀ processed ∈ state.events.processing,
      processed.address = event.address → processed = event
  | .finish => ∀ event, state.handling = some event →
      state.manager.skips subRegion event = false
  | _ => True

/-! ## The invariant -/

/-- The set holds exactly the pending events, and not the one that is about to be
enqueued. -/
structure Tracks (state : FilterState Hash) : Prop where
  processing : state.events.processing.Perm (state.handling.toList ++ state.events.queue)
  adding : ∀ event, state.adding = some event →
    event.address ≠ 0 ∧ state.events.found event = false

omit [DecidableEq Hash] in
theorem Tracks.initial (manager : UffdVirtualMemoryManager Hash) :
    (FilterState.initial manager).Tracks :=
  ⟨List.Perm.nil, fun event hadding => by cases hadding⟩

omit [DecidableEq Hash] in
theorem Tracks.pending_iff (htracks : state.Tracks) {event : FaultEvent} :
    event ∈ state.events.processing ↔ state.Pending event := by
  rw [htracks.processing.mem_iff, List.mem_append, Option.mem_toList, or_comm]
  rfl

omit [DecidableEq Hash] in
theorem Tracks.settled (htracks : state.Tracks) : state.Settled := by
  intro hqueue hhandling
  have hprocessing := htracks.processing
  rw [hqueue, hhandling] at hprocessing
  exact hprocessing.eq_nil

/-- Removing the event of an iteration leaves the events that wait. -/
theorem removeProcessed_perm {events : EventQueue} {event : FaultEvent}
    (hprocessing : events.processing.Perm (event :: events.queue)) :
    (events.removeProcessed event).processing.Perm events.queue := by
  have hdistinct : ((event :: events.queue).map FaultEvent.address).Nodup :=
    (hprocessing.map _).nodup_iff.mp events.distinct
  have hothers : ∀ other ∈ events.queue, other.address ≠ event.address := by
    intro other hother hsame
    apply (List.nodup_cons.mp hdistinct).1
    rw [← hsame]
    exact List.mem_map_of_mem hother
  have hkept : (event :: events.queue).filter (fun other => other.address ≠ event.address) =
      events.queue := by
    rw [List.filter_cons_of_neg (by simp)]
    exact List.filter_eq_self.mpr fun other hother => by simpa using hothers other hother
  have hfilter := hprocessing.filter fun other => other.address ≠ event.address
  rwa [hkept] at hfilter

/-- What a step keeps when it meets the condition. -/
theorem Tracks.step (htracks : state.Tracks) (hmeets : Distinguishes subRegion state label)
    (hstep : Step build subRegion state label next) : next.Tracks := by
  cases hstep with
  | @add event hidle hnonzero =>
      refine ⟨htracks.processing, ?_⟩
      intro added hadded
      dsimp only at hadded
      split_ifs at hadded with hfound
      cases hadded
      exact ⟨hnonzero, by simpa using hfound⟩
  | @enqueue event hadding =>
      obtain ⟨hnonzero, hfound⟩ := htracks.adding event hadding
      refine ⟨?_, fun added hadded => by cases hadded⟩
      have hjoined : (state.events.enqueue event).processing =
          event :: state.events.processing := by
        simp [EventQueue.enqueue, EventQueue.insertProcessing, hnonzero, hfound]
      change (state.events.enqueue event).processing.Perm
        (state.handling.toList ++ (state.events.queue ++ [event]))
      rw [hjoined, ← List.append_assoc]
      exact (htracks.processing.cons event).trans (List.perm_append_singleton _ _).symm
  | @dequeue event events hwaiting hdequeue =>
      unfold EventQueue.dequeue at hdequeue
      cases hqueue : state.events.queue with
      | nil =>
          rw [hqueue] at hdequeue
          cases hdequeue
      | cons first rest =>
          simp only [hqueue, Option.some.injEq, Prod.mk.injEq] at hdequeue
          obtain ⟨rfl, rfl⟩ := hdequeue
          have hprocessing := htracks.processing
          rw [hwaiting, hqueue] at hprocessing
          exact ⟨hprocessing, htracks.adding⟩
  | @finish event handled hhandling hreturns =>
      have hskips := hmeets event hhandling
      have hprocessing := htracks.processing
      rw [hhandling] at hprocessing
      rw [hskips]
      refine ⟨removeProcessed_perm hprocessing, ?_⟩
      intro added hadded
      obtain ⟨hnonzero, hfound⟩ := htracks.adding added hadded
      refine ⟨hnonzero, ?_⟩
      rw [Bool.eq_false_iff] at hfound ⊢
      intro hstill
      obtain ⟨other, hother, haddress⟩ := EventQueue.found_iff.mp hstill
      exact hfound (EventQueue.found_iff.mpr ⟨other, List.mem_of_mem_filter hother, haddress⟩)
  | others => exact ⟨htracks.processing, htracks.adding⟩

omit [DecidableEq Hash] in
theorem Tracks.dropsDuplicate (htracks : state.Tracks)
    (hmeets : Distinguishes subRegion state label) : state.DropsDuplicate label := by
  cases label with
  | add event =>
      intro hfound
      obtain ⟨processed, hprocessed, haddress⟩ := EventQueue.found_iff.mp hfound
      rw [← hmeets processed hprocessed haddress]
      exact htracks.pending_iff.mp hprocessed
  | _ => trivial

/-! ## Runs -/

/-- In every run whose steps meet the condition, the dispatcher drops only duplicates of
pending events, and nothing is left in the set once the handler waits on an empty queue. -/
theorem filter_drops_duplicates {manager : UffdVirtualMemoryManager Hash}
    {trace : List (FilterStep × FilterState Hash)}
    (hrun : Run (Step build subRegion) (initial manager) trace)
    (hmeets : Run.Each (Distinguishes subRegion) (initial manager) trace) :
    Run.Each DropsDuplicate (initial manager) trace ∧
      ∀ state ∈ Run.states (initial manager) trace, state.Settled := by
  have hkeep : ∀ (state : FilterState Hash) label next, state.Tracks →
      Distinguishes subRegion state label → Step build subRegion state label next →
        next.Tracks :=
    fun _ _ _ htracks hmeets hstep => htracks.step hmeets hstep
  constructor
  · exact hrun.each_of_condition hkeep (fun _ _ htracks hmeets => htracks.dropsDuplicate hmeets)
      (Tracks.initial manager) hmeets
  · intro state hstate
    exact (hrun.forall_states hkeep (Tracks.initial manager) hmeets state hstate).settled

/-- One block of two pages, which no event has reached yet. -/
def twoPageBlock : UffdVirtualMemoryManager (Option (List Byte)) :=
  .initial (.initial ['v'] 2 2 1 false (BlockStorage.initial ['d', '/', 'b'] ['d', '/', 's'] 2)
    fun _ => none) 4096 1

/-- One event is added, handled and removed. -/
theorem filter_drops_duplicates_once :
    ∃ trace : List (FilterStep × FilterState (Option (List Byte))),
      trace.map Prod.fst = [.add ⟨4096, false, false⟩, .enqueue, .dequeue, .finish] ∧
        Run.Each DropsDuplicate (initial twoPageBlock) trace ∧
          ∀ state ∈ Run.states (initial twoPageBlock) trace, state.Settled := by
  obtain ⟨trace, hlabels, hrun, hmeets⟩ :
      ∃ trace : List (FilterStep × FilterState (Option (List Byte))),
        trace.map Prod.fst = [.add ⟨4096, false, false⟩, .enqueue, .dequeue, .finish] ∧
          Run (Step .transparent 0) (initial twoPageBlock) trace ∧
            Run.Each (Distinguishes 0) (initial twoPageBlock) trace :=
    ⟨[(.add ⟨4096, false, false⟩, _), (.enqueue, _), (.dequeue, _), (.finish, _)], rfl,
      .cons (.add rfl (by decide)) (.cons (.enqueue rfl) (.cons (.dequeue rfl rfl)
        (.cons (.finish rfl rfl) .nil))),
      nofun, trivial, trivial, fun event hevent => by cases hevent; rfl, trivial⟩
  exact ⟨trace, hlabels, filter_drops_duplicates hrun hmeets⟩

/-- A write to a page is dropped while a read of the page is being processed, and the
event of the second page of a loaded block stays in the set for good. -/
theorem filter_drops_write_and_keeps_processed :
    (∃ trace : List (FilterStep × FilterState (Option (List Byte))),
      Run (Step .transparent 0) (initial twoPageBlock) trace ∧
        trace.map Prod.fst =
          [.add ⟨4096, false, false⟩, .enqueue, .add ⟨4096, false, true⟩] ∧
        ¬ Run.Each DropsDuplicate (initial twoPageBlock) trace) ∧
      ∃ trace : List (FilterStep × FilterState (Option (List Byte))),
        Run (Step .transparent 0) (initial twoPageBlock) trace ∧
          trace.map Prod.fst =
            [.add ⟨4096, false, false⟩, .enqueue, .add ⟨4097, false, false⟩, .enqueue,
              .dequeue, .finish, .dequeue, .finish] ∧
          ¬ (Run.last (initial twoPageBlock) trace).Settled := by
  constructor
  · refine ⟨[(.add ⟨4096, false, false⟩, _), (.enqueue, _), (.add ⟨4096, false, true⟩, _)],
      .cons (.add rfl (by decide)) (.cons (.enqueue rfl) (.cons (.add rfl (by decide)) .nil)),
      rfl, ?_⟩
    rintro ⟨-, -, hdropped, -⟩
    rcases hdropped rfl with hqueued | hhandling
    · exact absurd hqueued (by decide)
    · cases hhandling
  · refine ⟨[(.add ⟨4096, false, false⟩, _), (.enqueue, _), (.add ⟨4097, false, false⟩, _),
        (.enqueue, _), (.dequeue, _), (.finish, _), (.dequeue, _), (.finish, _)],
      .cons (.add rfl (by decide)) (.cons (.enqueue rfl) (.cons (.add rfl (by decide))
        (.cons (.enqueue rfl) (.cons (.dequeue rfl rfl) (.cons (.finish rfl rfl)
          (.cons (.dequeue rfl rfl) (.cons (.finish rfl rfl) .nil))))))), rfl, ?_⟩
    intro hsettled
    have hprocessing := hsettled rfl rfl
    cases hprocessing

end FilterState

end Privateer
