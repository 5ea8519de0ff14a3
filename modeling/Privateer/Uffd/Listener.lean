import Privateer.Logic.Runs

/-!
# The listener of the UFFD build

All regions of a process share one userfaultfd object and the thread that listens to it.
`init_uffd` starts both for the first user and `stop_uffd` ends them after the last one.
The users are counted outside of the two mutexes, and starting and stopping use different
ones, so calls of several threads can fall between each other's steps.  A step is one
update of the counter, one test of `m_uffd` without a lock, or one body under a mutex; the
system calls of the bodies succeed.
-/

namespace Privateer

/-- Where a thread is: between calls, or before the next step of `init_uffd` or `stop_uffd`. -/
inductive UffdPosition where
  | idle
  | initBody
  | initCount
  | stopBody
  deriving DecidableEq

/-- A thread, with the number of its `init_uffd` calls that have returned and have had no
`stop_uffd` call yet. -/
structure UffdThread where
  position : UffdPosition
  held : ℕ

/-- The static members that the calls use.  `initialized` stands for `m_uffd != -1`; the
listeners are numbered in the order in which they start, `listenerThread` is the last one
or zero, and `joined` lists the ones joined. -/
structure UffdState (Thread : Type) where
  initialized : Bool
  numHandlers : ℤ
  listenerThread : ℕ
  joined : List ℕ
  threads : Thread → UffdThread

/-- One atomic step of a thread. -/
inductive UffdAction (Thread : Type) where
  | initTest (thread : Thread)
  | initBody (thread : Thread)
  | initCount (thread : Thread)
  | stopCount (thread : Thread)
  | stopBody (thread : Thread)

namespace UffdState

variable {Thread : Type}

/-- Nothing was started, and no thread is in a call. -/
def initial : UffdState Thread where
  initialized := false
  numHandlers := 0
  listenerThread := 0
  joined := []
  threads := fun _ => ⟨.idle, 0⟩

variable [DecidableEq Thread]

def setThread (state : UffdState Thread) (thread : Thread) (position : UffdPosition)
    (held : ℕ) : UffdState Thread :=
  { state with threads := Function.update state.threads thread ⟨position, held⟩ }

/-- The body of `init_uffd` under `init_mutex`. -/
def startListener (state : UffdState Thread) : UffdState Thread :=
  if state.initialized then state
  else
    { state with
      initialized := true
      listenerThread := state.listenerThread + 1 }

/-- The body of `stop_uffd` under `stop_mutex`. -/
def stopListener (state : UffdState Thread) : UffdState Thread :=
  if state.numHandlers = 0 then
    { state with
      initialized := false
      joined := state.listenerThread :: state.joined }
  else state

def perform (state : UffdState Thread) : UffdAction Thread → UffdState Thread
  | .initTest thread =>
      state.setThread thread (if state.initialized then .initCount else .initBody)
        (state.threads thread).held
  | .initBody thread =>
      state.startListener.setThread thread .initCount (state.threads thread).held
  | .initCount thread =>
      { state with numHandlers := state.numHandlers + 1 }.setThread thread .idle
        ((state.threads thread).held + 1)
  | .stopCount thread =>
      { state with numHandlers := state.numHandlers - 1 }.setThread thread .stopBody
        ((state.threads thread).held - 1)
  | .stopBody thread => state.stopListener.setThread thread .idle (state.threads thread).held

omit [DecidableEq Thread] in
/-- A thread takes the next step of its call, or begins one; it stops what it has started. -/
def Enabled (state : UffdState Thread) : UffdAction Thread → Prop
  | .initTest thread => (state.threads thread).position = .idle
  | .initBody thread => (state.threads thread).position = .initBody
  | .initCount thread => (state.threads thread).position = .initCount
  | .stopCount thread =>
      (state.threads thread).position = .idle ∧ 0 < (state.threads thread).held
  | .stopBody thread => (state.threads thread).position = .stopBody

def Step (state : UffdState Thread) (action : UffdAction Thread) (next : UffdState Thread) :
    Prop :=
  state.Enabled action ∧ next = state.perform action

omit [DecidableEq Thread] in
/-- A thread that may call `register_uffd_region`, which tests `m_uffd`. -/
def MayRegister (state : UffdState Thread) (thread : Thread) : Prop :=
  (state.threads thread).position = .idle ∧ 0 < (state.threads thread).held

omit [DecidableEq Thread] in
/-- The listener runs while it has users. -/
structure Serves (state : UffdState Thread) : Prop where
  running : (∀ thread, (state.threads thread).position = .idle) →
    (state.initialized = true ↔ 0 < state.numHandlers)
  joinedOnce : state.joined.Nodup
  registering : ∀ thread, state.MayRegister thread → state.initialized = true

omit [DecidableEq Thread] in
/-- A thread counts itself while the listener runs, and one that finds the counter at zero
finds the listener running. -/
def FindsListener (state : UffdState Thread) : UffdAction Thread → Prop
  | .initCount _ => state.initialized = true
  | .stopBody _ => state.numHandlers = 0 → state.initialized = true
  | _ => True

@[simp]
theorem setThread_self (state : UffdState Thread) (thread : Thread) (position : UffdPosition)
    (held : ℕ) : (state.setThread thread position held).threads thread = ⟨position, held⟩ :=
  Function.update_self _ _ _

theorem setThread_of_ne {state : UffdState Thread} {thread other : Thread}
    {position : UffdPosition} {held : ℕ} (hother : other ≠ thread) :
    (state.setThread thread position held).threads other = state.threads other :=
  Function.update_of_ne hother _ _

/-! ## The two bodies -/

section Bodies

omit [DecidableEq Thread]

variable {state : UffdState Thread}

theorem startListener_threads : state.startListener.threads = state.threads := by
  rw [startListener]
  split <;> rfl

theorem startListener_numHandlers : state.startListener.numHandlers = state.numHandlers := by
  rw [startListener]
  split <;> rfl

theorem startListener_joined : state.startListener.joined = state.joined := by
  rw [startListener]
  split <;> rfl

theorem startListener_initialized : state.startListener.initialized = true := by
  rw [startListener]
  split <;> first | assumption | rfl

theorem stopListener_threads : state.stopListener.threads = state.threads := by
  rw [stopListener]
  split <;> rfl

theorem stopListener_numHandlers : state.stopListener.numHandlers = state.numHandlers := by
  rw [stopListener]
  split <;> rfl

theorem stopListener_listenerThread :
    state.stopListener.listenerThread = state.listenerThread := by
  rw [stopListener]
  split <;> rfl

end Bodies

/-! ## Invariants -/

/-- What holds in every interleaving: the counter, the listeners joined so far, and who is
still to notice that the counter has come down to zero. -/
structure Consistent [Fintype Thread] (state : UffdState Thread) : Prop where
  counted : state.numHandlers = ∑ thread, ((state.threads thread).held : ℤ)
  bounded : ∀ listener ∈ state.joined, listener ≤ state.listenerThread
  fresh : state.initialized = true →
    state.listenerThread ≠ 0 ∧ state.listenerThread ∉ state.joined
  ended : state.initialized = false →
    state.listenerThread = 0 ∨ state.listenerThread ∈ state.joined
  begun : ∀ thread, (state.threads thread).position = .initCount ∨
    (state.threads thread).position = .stopBody ∨ 0 < (state.threads thread).held →
      state.listenerThread ≠ 0
  pending : state.initialized = true → state.numHandlers = 0 →
    ∃ thread, (state.threads thread).position = .initCount ∨
      (state.threads thread).position = .stopBody

section Invariants

variable [Fintype Thread] {state next : UffdState Thread} {action : UffdAction Thread}
variable {thread : Thread}

theorem sum_setThread {position : UffdPosition} {held : ℕ} :
    ∑ other, (((state.setThread thread position held).threads other).held : ℤ) =
      ∑ other, ((state.threads other).held : ℤ) - (state.threads thread).held + held := by
  have hrest : ∑ other ∈ Finset.univ.erase thread,
      (((state.setThread thread position held).threads other).held : ℤ) =
        ∑ other ∈ Finset.univ.erase thread, ((state.threads other).held : ℤ) :=
    Finset.sum_congr rfl fun other hother => by
      rw [setThread_of_ne (Finset.ne_of_mem_erase hother)]
  rw [← Finset.add_sum_erase _ _ (Finset.mem_univ thread), hrest, setThread_self,
    ← Finset.add_sum_erase _ (fun other => ((state.threads other).held : ℤ))
      (Finset.mem_univ thread)]
  ring

omit [DecidableEq Thread] in
/-- A user that is counted is one of the users. -/
theorem Consistent.held_le (hconsistent : state.Consistent) :
    ((state.threads thread).held : ℤ) ≤ state.numHandlers := by
  rw [hconsistent.counted]
  exact Finset.single_le_sum (fun other _ => Int.natCast_nonneg (state.threads other).held)
    (Finset.mem_univ thread)

omit [DecidableEq Thread] in
/-- After `init_uffd`'s body there is a listener that was never joined. -/
theorem startListener_fresh (hconsistent : state.Consistent) :
    state.startListener.listenerThread ≠ 0 ∧
      state.startListener.listenerThread ∉ state.joined ∧
      state.listenerThread ≤ state.startListener.listenerThread := by
  rw [startListener]
  split
  case isTrue hinitialized =>
      obtain ⟨hnonzero, hnotJoined⟩ := hconsistent.fresh hinitialized
      exact ⟨hnonzero, hnotJoined, le_rfl⟩
  case isFalse _ =>
      refine ⟨Nat.succ_ne_zero _, fun hjoined => ?_, Nat.le_succ _⟩
      exact Nat.not_succ_le_self _ (hconsistent.bounded _ hjoined)

theorem Consistent.initTest (hconsistent : state.Consistent)
    (henabled : state.Enabled (.initTest thread)) :
    (state.perform (.initTest thread)).Consistent where
  counted := by
    change state.numHandlers = _
    rw [perform, sum_setThread, hconsistent.counted]
    ring
  bounded := hconsistent.bounded
  fresh := hconsistent.fresh
  ended := hconsistent.ended
  begun := by
    intro other hother
    change state.listenerThread ≠ 0
    by_cases hsame : other = thread
    · subst hsame
      rw [perform, setThread_self] at hother
      cases hinitialized : state.initialized with
      | true => exact (hconsistent.fresh hinitialized).1
      | false =>
          have hheld : 0 < (state.threads other).held := by simpa [hinitialized] using hother
          exact hconsistent.begun other (.inr (.inr hheld))
    · rw [perform, setThread_of_ne hsame] at hother
      exact hconsistent.begun other hother
  pending := by
    intro hinitialized hzero
    obtain ⟨other, hother⟩ := hconsistent.pending hinitialized hzero
    refine ⟨other, ?_⟩
    have hne : other ≠ thread := by
      rintro rfl
      rw [Enabled] at henabled
      simp [henabled] at hother
    rwa [perform, setThread_of_ne hne]

theorem Consistent.initBody (hconsistent : state.Consistent) :
    (state.perform (.initBody thread)).Consistent where
  counted := by
    change state.startListener.numHandlers = _
    rw [perform, sum_setThread, startListener_threads, startListener_numHandlers,
      hconsistent.counted]
    ring
  bounded := by
    intro listener hlistener
    change listener ∈ state.startListener.joined at hlistener
    rw [startListener_joined] at hlistener
    exact (hconsistent.bounded listener hlistener).trans (startListener_fresh hconsistent).2.2
  fresh := by
    intro _
    change _ ∧ _ ∉ state.startListener.joined
    rw [startListener_joined]
    exact ⟨(startListener_fresh hconsistent).1, (startListener_fresh hconsistent).2.1⟩
  ended := by
    intro hended
    cases startListener_initialized.symm.trans hended
  begun := fun _ _ => (startListener_fresh hconsistent).1
  pending := by
    intro _ _
    exact ⟨thread, .inl (by rw [perform, setThread_self])⟩

theorem Consistent.initCount (hconsistent : state.Consistent)
    (henabled : state.Enabled (.initCount thread)) :
    (state.perform (.initCount thread)).Consistent where
  counted := by
    change state.numHandlers + 1 = _
    rw [perform, sum_setThread, hconsistent.counted]
    push_cast
    ring
  bounded := hconsistent.bounded
  fresh := hconsistent.fresh
  ended := hconsistent.ended
  begun := by
    intro other hother
    change state.listenerThread ≠ 0
    by_cases hsame : other = thread
    · exact hconsistent.begun thread (.inl henabled)
    · rw [perform, setThread_of_ne hsame] at hother
      exact hconsistent.begun other hother
  pending := by
    intro _ hzero
    change state.numHandlers + 1 = 0 at hzero
    have hheld : ((state.threads thread).held : ℤ) ≤ state.numHandlers := hconsistent.held_le
    omega

theorem Consistent.stopCount (hconsistent : state.Consistent)
    (henabled : state.Enabled (.stopCount thread)) :
    (state.perform (.stopCount thread)).Consistent where
  counted := by
    change state.numHandlers - 1 = _
    rw [perform, sum_setThread, hconsistent.counted, Nat.cast_sub henabled.2]
    push_cast
    ring
  bounded := hconsistent.bounded
  fresh := hconsistent.fresh
  ended := hconsistent.ended
  begun := by
    intro other hother
    change state.listenerThread ≠ 0
    by_cases hsame : other = thread
    · exact hconsistent.begun thread (.inr (.inr henabled.2))
    · rw [perform, setThread_of_ne hsame] at hother
      exact hconsistent.begun other hother
  pending := by
    intro _ _
    exact ⟨thread, .inr (by rw [perform, setThread_self])⟩

theorem Consistent.stopBody (hconsistent : state.Consistent)
    (henabled : state.Enabled (.stopBody thread)) :
    (state.perform (.stopBody thread)).Consistent where
  counted := by
    change state.stopListener.numHandlers = _
    rw [perform, sum_setThread, stopListener_threads, stopListener_numHandlers,
      hconsistent.counted]
    ring
  bounded := by
    intro listener hlistener
    change listener ∈ state.stopListener.joined at hlistener
    change listener ≤ state.stopListener.listenerThread
    rw [stopListener_listenerThread]
    by_cases hzero : state.numHandlers = 0
    · rw [stopListener, if_pos hzero, List.mem_cons] at hlistener
      rcases hlistener with rfl | hearlier
      · exact le_rfl
      · exact hconsistent.bounded listener hearlier
    · rw [stopListener, if_neg hzero] at hlistener
      exact hconsistent.bounded listener hlistener
  fresh := by
    intro hinitialized
    change state.stopListener.initialized = true at hinitialized
    change state.stopListener.listenerThread ≠ 0 ∧
      state.stopListener.listenerThread ∉ state.stopListener.joined
    by_cases hzero : state.numHandlers = 0
    · rw [stopListener, if_pos hzero] at hinitialized
      cases hinitialized
    · rw [stopListener, if_neg hzero] at hinitialized ⊢
      exact hconsistent.fresh hinitialized
  ended := by
    intro hinitialized
    change state.stopListener.initialized = false at hinitialized
    change state.stopListener.listenerThread = 0 ∨
      state.stopListener.listenerThread ∈ state.stopListener.joined
    by_cases hzero : state.numHandlers = 0
    · rw [stopListener, if_pos hzero]
      exact .inr List.mem_cons_self
    · rw [stopListener, if_neg hzero] at hinitialized ⊢
      exact hconsistent.ended hinitialized
  begun := by
    intro other hother
    change state.stopListener.listenerThread ≠ 0
    rw [stopListener_listenerThread]
    by_cases hsame : other = thread
    · exact hconsistent.begun thread (.inr (.inl henabled))
    · rw [perform, setThread_of_ne hsame, stopListener_threads] at hother
      exact hconsistent.begun other hother
  pending := by
    intro hinitialized hzero
    change state.stopListener.initialized = true at hinitialized
    change state.stopListener.numHandlers = 0 at hzero
    rw [stopListener_numHandlers] at hzero
    rw [stopListener, if_pos hzero] at hinitialized
    cases hinitialized

/-- Every step of every interleaving keeps the counter and the record of the listeners. -/
theorem Consistent.step (hconsistent : state.Consistent) (hstep : Step state action next) :
    next.Consistent := by
  obtain ⟨henabled, rfl⟩ := hstep
  cases action with
  | initTest thread => exact hconsistent.initTest henabled
  | initBody thread => exact hconsistent.initBody
  | initCount thread => exact hconsistent.initCount henabled
  | stopCount thread => exact hconsistent.stopCount henabled
  | stopBody thread => exact hconsistent.stopBody henabled

omit [DecidableEq Thread] in
theorem consistent_initial : (initial : UffdState Thread).Consistent where
  counted := by simp [initial]
  bounded := by simp [initial]
  fresh := by simp [initial]
  ended := by simp [initial]
  begun := by simp [initial]
  pending := by simp [initial]

/-- Users are served, and no listener is joined a second time. -/
def Sound (state : UffdState Thread) : Prop :=
  (0 < state.numHandlers → state.initialized = true) ∧ state.joined.Nodup

theorem Sound.step (hsound : state.Sound) (hconsistent : state.Consistent)
    (hfinds : state.FindsListener action) (hstep : Step state action next) : next.Sound := by
  obtain ⟨henabled, rfl⟩ := hstep
  obtain ⟨hserved, hnodup⟩ := hsound
  cases action with
  | initTest thread => exact ⟨hserved, hnodup⟩
  | initBody thread =>
      refine ⟨fun _ => startListener_initialized, ?_⟩
      change state.startListener.joined.Nodup
      rw [startListener_joined]
      exact hnodup
  | initCount thread => exact ⟨fun _ => hfinds, hnodup⟩
  | stopCount thread =>
      refine ⟨fun hpositive => hserved ?_, hnodup⟩
      change 0 < state.numHandlers - 1 at hpositive
      omega
  | stopBody thread =>
      change (0 < state.stopListener.numHandlers → state.stopListener.initialized = true) ∧
        state.stopListener.joined.Nodup
      rw [stopListener_numHandlers]
      by_cases hzero : state.numHandlers = 0
      · rw [stopListener, if_pos hzero]
        refine ⟨fun hpositive => absurd hzero hpositive.ne', ?_⟩
        exact List.nodup_cons.mpr ⟨(hconsistent.fresh (hfinds hzero)).2, hnodup⟩
      · rw [stopListener, if_neg hzero]
        exact ⟨hserved, hnodup⟩

omit [DecidableEq Thread] in
theorem Sound.serves (hsound : state.Sound) (hconsistent : state.Consistent) :
    state.Serves where
  running := by
    intro hidle
    refine ⟨fun hinitialized => ?_, hsound.1⟩
    have hnonnegative : 0 ≤ state.numHandlers := by
      rw [hconsistent.counted]
      exact Finset.sum_nonneg fun other _ => Int.natCast_nonneg _
    refine lt_of_le_of_ne hnonnegative fun hzero => ?_
    -- with the counter at zero, the thread that is to stop the listener is in a call
    obtain ⟨thread, hthread⟩ := hconsistent.pending hinitialized hzero.symm
    rw [hidle thread] at hthread
    rcases hthread with hposition | hposition <;> cases hposition
  joinedOnce := hsound.2
  registering := by
    intro thread hregisters
    have hheld : ((state.threads thread).held : ℤ) ≤ state.numHandlers := hconsistent.held_le
    have hpositive := hregisters.2
    exact hsound.1 (by omega)

/-- A step that does not find the listener is seen in the state that it leads to. -/
theorem Serves.findsListener (hserves : next.Serves) (hconsistent : state.Consistent)
    (hstep : Step state action next) : state.FindsListener action := by
  obtain ⟨henabled, rfl⟩ := hstep
  cases action with
  | initTest thread => trivial
  | initBody thread => trivial
  | initCount thread =>
      refine hserves.registering thread ?_
      rw [MayRegister, perform, setThread_self]
      exact ⟨rfl, Nat.succ_pos _⟩
  | stopCount thread => trivial
  | stopBody thread =>
      intro hzero
      cases hinitialized : state.initialized with
      | true => rfl
      | false =>
          have hnodup : state.stopListener.joined.Nodup := hserves.joinedOnce
          rw [stopListener, if_pos hzero] at hnodup
          rcases hconsistent.ended hinitialized with hnever | hjoined
          · exact absurd hnever (hconsistent.begun thread (.inr (.inl henabled)))
          · exact absurd hjoined (List.nodup_cons.mp hnodup).1

end Invariants

section Runs

variable [Fintype Thread] {trace : List (UffdAction Thread × UffdState Thread)}

/-- In every interleaving the listener serves its users in every state if and only if every
step that relies on it finds it. -/
theorem serves_iff (hrun : Run Step initial trace) :
    (∀ state ∈ Run.states initial trace, Serves state) ↔
      Run.Each FindsListener initial trace := by
  constructor
  · intro hserves
    refine hrun.each_of_states (fun state action next hconsistent hstep => ?_)
      consistent_initial hserves
    exact ⟨hconsistent.step hstep, fun hnext => hnext.findsListener hconsistent hstep⟩
  · intro hfinds
    have hstates := hrun.forall_states
      (fun state action next (hstate : Sound state ∧ Consistent state) hcondition hstep =>
        And.intro (hstate.1.step hstate.2 hcondition hstep) (hstate.2.step hstep))
      ⟨⟨fun hpositive => absurd hpositive (lt_irrefl 0), List.nodup_nil⟩, consistent_initial⟩
      hfinds
    intro state hstate
    exact (hstates state hstate).1.serves (hstates state hstate).2

/-- The run in which the threads take the given steps. -/
def runOf (state : UffdState Thread) :
    List (UffdAction Thread) → List (UffdAction Thread × UffdState Thread)
  | [] => []
  | action :: rest => (action, state.perform action) :: runOf (state.perform action) rest

omit [Fintype Thread] in
theorem run_runOf (state : UffdState Thread) (actions : List (UffdAction Thread))
    (henabled : Run.Each Enabled state (runOf state actions)) :
    Run Step state (runOf state actions) := by
  induction actions generalizing state with
  | nil => exact .nil
  | cons action rest ih => exact .cons ⟨henabled.1, rfl⟩ (ih _ henabled.2)

/-- Two threads use the listener at the same time, and the last one to go stops it. -/
theorem serves_iff_twoThreads :
    (∀ state ∈ Run.states (initial : UffdState (Fin 2)) (runOf initial
        [.initTest 0, .initBody 0, .initCount 0, .initTest 1, .initCount 1,
          .stopCount 0, .stopBody 0, .stopCount 1, .stopBody 1]), Serves state) ↔
      Run.Each FindsListener (initial : UffdState (Fin 2)) (runOf initial
        [.initTest 0, .initBody 0, .initCount 0, .initTest 1, .initCount 1,
          .stopCount 0, .stopBody 0, .stopCount 1, .stopBody 1]) := by
  refine serves_iff (run_runOf initial _ ?_)
  exact ⟨rfl, rfl, rfl, rfl, rfl, ⟨rfl, by decide⟩, rfl, ⟨rfl, by decide⟩, rfl, trivial⟩

/-- A thread that finds `m_uffd` set counts itself only after the last user has stopped the
listener; `register_uffd_region` then fails. -/
theorem not_serves_lateCount :
    ¬ ∀ trace : List (UffdAction (Fin 2) × UffdState (Fin 2)), Run Step initial trace →
      ∀ state ∈ Run.states initial trace, Serves state := by
  intro hserves
  have hrun : Run Step (initial : UffdState (Fin 2)) (runOf initial
      [.initTest 0, .initBody 0, .initCount 0, .stopCount 0, .initTest 1, .stopBody 0,
        .initCount 1]) := by
    refine run_runOf initial _ ?_
    exact ⟨rfl, rfl, rfl, ⟨rfl, by decide⟩, rfl, rfl, rfl, trivial⟩
  have hlast := hserves _ hrun _ Run.last_mem_states
  have hregistering := hlast.registering 1 ⟨rfl, by decide⟩
  exact absurd hregistering (by decide)

end Runs

end UffdState

end Privateer
