import Privateer.Logic.Runs
import Privateer.Sigaction.MsyncSpec

/-!
# Writable blocks under the SIGACTION manager

Several threads may fault on one block before the first of their faults is handled, so
a fault may be delivered for a block that is resident by then.  Every operation keeps
the writable blocks on the dirty list but two: a second write fault puts its block on
the dirty list again, and a second read fault makes a clean block writable.
-/

namespace Privateer

namespace SigactionVirtualMemoryManager

variable {Hash : Type}

/-- The lists share out the resident blocks, and the writable blocks are those that are
on the dirty list once. -/
structure Tracked (manager : SigactionVirtualMemoryManager Hash) : Prop where
  shared : Shared manager.cleanLru manager.dirtyLru manager.presentBlocks
  writable_iff : ∀ block, manager.protection block = .write ↔ manager.dirtyLru.count block = 1
  readOnly : manager.readOnly = true → ∀ block, manager.protection block ≠ .write

variable {manager manager' : SigactionVirtualMemoryManager Hash} {block : ℕ}

theorem count_eq_one_iff {members : List ℕ} (hnodup : members.Nodup) (member : ℕ) :
    members.count member = 1 ↔ member ∈ members := by
  constructor
  · intro hcount
    exact List.count_pos_iff.mp (by rw [hcount]; exact Nat.one_pos)
  · exact List.count_eq_one_of_mem hnodup

theorem Tracked.writable_mem_iff (htracked : manager.Tracked) (block : ℕ) :
    manager.protection block = .write ↔ block ∈ manager.dirtyLru := by
  rw [htracked.writable_iff, count_eq_one_iff htracked.shared.nodup_dirty]

theorem Tracked.of_mem
    (hshared : Shared manager.cleanLru manager.dirtyLru manager.presentBlocks)
    (hwritable : ∀ block, manager.protection block = .write ↔ block ∈ manager.dirtyLru)
    (hreadOnly : manager.readOnly = true → ∀ block, manager.protection block ≠ .write) :
    manager.Tracked where
  shared := hshared
  writable_iff := fun block => by
    rw [hwritable, count_eq_one_iff hshared.nodup_dirty]
  readOnly := hreadOnly

theorem initial_tracked (base : VirtualMemoryManagerBase Hash) : (initial base).Tracked where
  shared := Shared.empty
  writable_iff := fun _ => by simp [initial]
  readOnly := fun _ _ hwrite => by cases hwrite

/-! ## Eviction -/

/-- What the operations of a fault leave of a manager: its lists, the access to its
blocks and whether it is read-only. -/
structure SameTracking (manager manager' : SigactionVirtualMemoryManager Hash) : Prop where
  cleanLru : manager'.cleanLru = manager.cleanLru
  dirtyLru : manager'.dirtyLru = manager.dirtyLru
  presentBlocks : manager'.presentBlocks = manager.presentBlocks
  protection : manager'.protection = manager.protection
  readOnly : manager'.readOnly = manager.readOnly

theorem SameTracking.tracked_iff (hsame : manager.SameTracking manager') :
    manager'.Tracked ↔ manager.Tracked := by
  constructor
  · intro htracked
    have hshared := htracked.shared
    have hwritable := htracked.writable_iff
    have hreadOnly := htracked.readOnly
    rw [hsame.cleanLru, hsame.dirtyLru, hsame.presentBlocks] at hshared
    rw [hsame.protection, hsame.dirtyLru] at hwritable
    rw [hsame.protection, hsame.readOnly] at hreadOnly
    exact ⟨hshared, hwritable, hreadOnly⟩
  · intro htracked
    constructor
    · rw [hsame.cleanLru, hsame.dirtyLru, hsame.presentBlocks]
      exact htracked.shared
    · rw [hsame.protection, hsame.dirtyLru]
      exact htracked.writable_iff
    · rw [hsame.protection, hsame.readOnly]
      exact htracked.readOnly

/-- A block that leaves its list loses its access. -/
theorem Tracked.discard (htracked : manager.Tracked) {cleanLru dirtyLru : List ℕ}
    {toEvict : ℕ}
    (hshared : Shared cleanLru dirtyLru (manager.presentBlocks.erase toEvict))
    (hdirty : ∀ block, block ≠ toEvict → (block ∈ dirtyLru ↔ block ∈ manager.dirtyLru))
    {base : VirtualMemoryManagerBase Hash} (hbase : base.readOnly = manager.readOnly)
    (stashSet : Finset ℕ) :
    (SigactionVirtualMemoryManager.discard { manager with base, cleanLru, dirtyLru, stashSet }
      toEvict).Tracked := by
  have hgone : toEvict ∉ dirtyLru := by
    intro hmember
    have hpresent := (hshared.mem_iff toEvict).mpr (.inr hmember)
    exact absurd hpresent (Finset.notMem_erase _ _)
  apply Tracked.of_mem
  · exact hshared
  · intro block
    simp only [SigactionVirtualMemoryManager.discard, Function.update_apply]
    by_cases hsame : block = toEvict
    · simp [hsame, hgone]
    · simp [hsame, hdirty block hsame, htracked.writable_mem_iff]
  · intro hreadOnly block
    simp only [SigactionVirtualMemoryManager.discard, Function.update_apply]
    by_cases hsame : block = toEvict
    · simp [hsame]
    · rw [if_neg hsame]
      exact htracked.readOnly (hbase.symm.trans hreadOnly) block

theorem stash_returns {base stashed : VirtualMemoryManagerBase Hash} {content : List Byte}
    (hreturns : (base.stash content block).Returns stashed) :
    ∃ storage, stashed = { base with blockStorage := storage } := by
  obtain ⟨status, -, hrest⟩ := Program.returns_bind.mp hreturns
  split_ifs at hrest
  · cases hrest
    exact ⟨_, rfl⟩
  · exact hrest.elim

theorem unstash_returns {base unstashed : VirtualMemoryManagerBase Hash}
    (hreturns : (base.unstash block).Returns unstashed) :
    ∃ storage, unstashed = { base with blockStorage := storage } := by
  obtain ⟨status, -, hrest⟩ := Program.returns_bind.mp hreturns
  split_ifs at hrest
  · cases hrest
    exact ⟨_, rfl⟩
  · exact hrest.elim

/-- Eviction keeps the tracking and makes no block resident. -/
theorem Tracked.evictIfNeeded (htracked : manager.Tracked)
    (hreturns : (evictIfNeeded manager).Returns manager') :
    manager'.Tracked ∧ manager'.presentBlocks ⊆ manager.presentBlocks ∧
      manager'.readOnly = manager.readOnly := by
  have hshared := htracked.shared
  unfold SigactionVirtualMemoryManager.evictIfNeeded at hreturns
  split_ifs at hreturns with hfull
  · cases hclean : manager.cleanLru.getLast? with
    | some toEvict =>
        rw [hclean] at hreturns
        cases hreturns
        refine ⟨?_, Finset.erase_subset _ _, rfl⟩
        exact htracked.discard (hshared.pop_clean hclean) (fun _ _ => Iff.rfl) rfl
          manager.stashSet
    | none =>
        rw [hclean] at hreturns
        cases hdirty : manager.dirtyLru.getLast? with
        | none =>
            rw [hdirty] at hreturns
            exact hreturns.elim
        | some toEvict =>
            simp only [hdirty] at hreturns
            obtain ⟨stashed, hstash, hlast⟩ := Program.returns_bind.mp hreturns
            obtain ⟨storage, rfl⟩ := stash_returns hstash
            cases hlast
            have hlist := Shared.mem_dropLast_iff hshared.nodup_dirty hdirty
            refine ⟨?_, Finset.erase_subset _ _, rfl⟩
            refine htracked.discard (hshared.pop_dirty hdirty)
              (fun block hne => by simp [hlist, hne]) ?_ _
            rfl
  · cases hreturns
    exact ⟨htracked, subset_rfl, rfl⟩

/-! ## Loading -/

/-- A loaded block joins the list that belongs to its access. -/
theorem Tracked.load (htracked : manager.Tracked) (habsent : block ∉ manager.presentBlocks)
    {isWriteFault : Bool} (hreadOnly : manager.readOnly = true → isWriteFault = false)
    {base : VirtualMemoryManagerBase Hash} (hbase : base.readOnly = manager.readOnly)
    (memory : ℕ → List Byte) (stashSet : Finset ℕ) :
    (makeResident
      { manager with
        base := base
        stashSet := stashSet
        memory := memory
        protection := Function.update manager.protection block
          (faultProtection isWriteFault) } block isWriteFault).Tracked := by
  have hclean : block ∉ manager.dirtyLru := fun h =>
    habsent ((htracked.shared.mem_iff block).mpr (.inr h))
  cases isWriteFault with
  | true =>
      apply Tracked.of_mem
      · exact htracked.shared.push_dirty habsent
      · intro other
        simp only [makeResident, faultProtection, if_true, Function.update_apply,
          List.mem_cons]
        by_cases hsame : other = block
        · simp [hsame]
        · simp [hsame, htracked.writable_mem_iff]
      · intro hwritten
        exact absurd (hreadOnly (hbase.symm.trans hwritten)) (by decide)
  | false =>
      apply Tracked.of_mem
      · exact htracked.shared.push_clean habsent
      · intro other
        simp only [makeResident, faultProtection, Bool.false_eq_true, if_false,
          Function.update_apply]
        by_cases hsame : other = block
        · simp [hsame, hclean]
        · simp [hsame, htracked.writable_mem_iff]
      · intro hread other
        simp only [makeResident, faultProtection, Bool.false_eq_true, if_false,
          Function.update_apply]
        by_cases hsame : other = block
        · simp [hsame]
        · rw [if_neg hsame]
          exact htracked.readOnly (hbase.symm.trans hread) other

variable [DecidableEq Hash] {build : Build Hash}

theorem Tracked.loadAbsent (htracked : manager.Tracked)
    (habsent : block ∉ manager.presentBlocks) {isWriteFault : Bool}
    (hreadOnly : manager.readOnly = true → isWriteFault = false)
    (hreturns : (loadAbsent build manager block isWriteFault).Returns manager') :
    manager'.Tracked := by
  unfold SigactionVirtualMemoryManager.loadAbsent at hreturns
  cases hpath : manager.blockStorage.getBlockStashPath block with
  | some file =>
      rw [hpath] at hreturns
      obtain ⟨buffer, -, hrest⟩ := Program.returns_bind.mp hreturns
      split_ifs at hrest with hwrite
      · obtain ⟨unstashed, hunstash, hlast⟩ := Program.returns_bind.mp hrest
        obtain ⟨forgotten, hforget, hsame⟩ := Program.returns_bind.mp hunstash
        obtain ⟨storage, rfl⟩ := unstash_returns hforget
        cases hsame
        cases hlast
        refine htracked.load habsent hreadOnly ?_ _ _
        rfl
      · cases hrest
        refine htracked.load habsent hreadOnly ?_ _ _
        rfl
  | none =>
      simp only [hpath] at hreturns
      split_ifs at hreturns
      · cases hreturns
        refine htracked.load habsent hreadOnly ?_ _ _
        rfl
      · obtain ⟨path, -, hrest⟩ := Program.returns_bind.mp hreturns
        obtain ⟨buffer, -, hlast⟩ := Program.returns_bind.mp hrest
        cases hlast
        refine htracked.load habsent hreadOnly ?_ _ _
        rfl

/-! ## Faults on resident blocks -/

omit [DecidableEq Hash] in
/-- What a fault on a resident block does. -/
theorem handlePresent_returns {isWriteFault : Bool}
    (hreturns : (handlePresent manager block isWriteFault).Returns manager') :
    SameTracking ((if isWriteFault then manager.moveToDirty block else manager).protect block
      .write) manager' := by
  unfold handlePresent at hreturns
  cases isWriteFault with
  | true =>
      simp only [if_true] at hreturns ⊢
      split_ifs at hreturns
      · obtain ⟨unstashed, hunstash, hlast⟩ := Program.returns_bind.mp hreturns
        obtain ⟨forgotten, hforget, hsame⟩ := Program.returns_bind.mp hunstash
        obtain ⟨storage, rfl⟩ := unstash_returns hforget
        cases hsame
        cases hlast
        exact ⟨rfl, rfl, rfl, rfl, rfl⟩
      · cases hreturns
        exact ⟨rfl, rfl, rfl, rfl, rfl⟩
  | false =>
      cases hreturns
      exact ⟨rfl, rfl, rfl, rfl, rfl⟩

omit [DecidableEq Hash] in
/-- A read fault on a resident block makes it writable, so it has to be dirty. -/
theorem Tracked.protect_iff (htracked : manager.Tracked)
    (hpresent : block ∈ manager.presentBlocks) :
    (manager.protect block .write).Tracked ↔ block ∉ manager.cleanLru := by
  constructor
  · intro hprotected hclean
    have hwritable : (manager.protect block .write).protection block = .write :=
      Function.update_self _ _ _
    exact htracked.shared.not_mem_dirty hclean ((hprotected.writable_mem_iff block).mp hwritable)
  · intro hclean
    have hdirty : block ∈ manager.dirtyLru :=
      ((htracked.shared.mem_iff block).mp hpresent).resolve_left hclean
    have hwritable := (htracked.writable_mem_iff block).mpr hdirty
    have hsame : manager.protect block .write = manager := by
      rw [protect, ← hwritable, Function.update_eq_self]
    rw [hsame]
    exact htracked

omit [DecidableEq Hash] in
/-- A write fault on a resident block puts it on the dirty list, so it has to be clean. -/
theorem Tracked.moveToDirty_iff (htracked : manager.Tracked)
    (hpresent : block ∈ manager.presentBlocks) (hreadWrite : manager.readOnly = false) :
    ((manager.moveToDirty block).protect block .write).Tracked ↔ block ∈ manager.cleanLru := by
  constructor
  · intro hmoved
    have hnodup : (block :: manager.dirtyLru).Nodup := hmoved.shared.nodup_dirty
    have hdirty := (List.nodup_cons.mp hnodup).1
    exact ((htracked.shared.mem_iff block).mp hpresent).resolve_right hdirty
  · intro hclean
    apply Tracked.of_mem
    · exact htracked.shared.move hclean
    · intro other
      simp only [protect, moveToDirty, Function.update_apply, List.mem_cons]
      by_cases hsame : other = block
      · simp [hsame]
      · simp [hsame, htracked.writable_mem_iff]
    · intro hreadOnly
      exact absurd (hreadWrite.symm.trans hreadOnly) (by decide)

/-! ## Commits -/

omit [DecidableEq Hash] in
/-- Every dirty block becomes clean and loses its write access. -/
theorem Tracked.flush (htracked : manager.Tracked) {stored : List ℕ}
    (hperm : stored.Perm manager.dirtyLru) (base : VirtualMemoryManagerBase Hash)
    (stashSet : Finset ℕ) :
    Tracked { stored.foldl markStored manager with base, dirtyLru := [], stashSet } := by
  have hmarked := foldl_markStored manager stored
  have hwritable : ∀ block, (stored.foldl markStored manager).protection block ≠ .write := by
    intro block
    rw [hmarked.protection]
    by_cases hstored : block ∈ stored
    · simp [hstored]
    · simp [hstored, htracked.writable_mem_iff, ← hperm.mem_iff]
  apply Tracked.of_mem
  · change Shared (stored.foldl markStored manager).cleanLru []
      (stored.foldl markStored manager).presentBlocks
    rw [hmarked.cleanLru, hmarked.presentBlocks]
    exact htracked.shared.flush ((List.reverse_perm _).trans hperm)
  · intro block
    exact iff_of_false (hwritable block) List.not_mem_nil
  · exact fun _ block => hwritable block

omit [DecidableEq Hash] in
theorem Tracked.msync (htracked : manager.Tracked) {schedule : MsyncSchedule}
    (hreturns : (msync build manager schedule).Returns manager') : manager'.Tracked := by
  obtain ⟨flushed, hflushed, hwritten⟩ := Program.returns_bind.mp hreturns
  obtain ⟨⟨⟩, -, hsame⟩ := Program.returns_bind.mp hwritten
  cases hsame
  obtain ⟨committed, hcommitted, hmarked⟩ := Program.returns_bind.mp hflushed
  cases hmarked
  exact htracked.flush (VirtualMemoryManagerBase.returns_commitBlocks hcommitted) _ _

/-! ## Runs -/

/-- What is delivered to the manager: a fault, or a commit. -/
inductive FaultStep where
  | fault (block : ℕ) (isWriteFault : Bool)
  | msync (schedule : MsyncSchedule)

/-- A whole call of the handler, or a whole commit. -/
def FaultStep.run (build : Build Hash) (manager : SigactionVirtualMemoryManager Hash)
    (step : FaultStep) (manager' : SigactionVirtualMemoryManager Hash) : Prop :=
  match step with
  | .fault block isWriteFault => (handler build manager block isWriteFault).Returns manager'
  | .msync schedule =>
      (SigactionVirtualMemoryManager.msync build manager schedule).Returns manager'

/-- A fault on a resident block is a write fault exactly when the block is clean. -/
def FaultStep.MeetsList (manager : SigactionVirtualMemoryManager Hash) : FaultStep → Prop
  | .fault block isWriteFault => block ∈ manager.presentBlocks →
      (isWriteFault = true ↔ block ∈ manager.cleanLru)
  | .msync _ => True

/-- One step keeps the tracking exactly when its fault meets the list of its block. -/
theorem FaultStep.tracked_iff (htracked : manager.Tracked) {step : FaultStep}
    (hstep : step.run build manager manager') :
    manager'.Tracked ↔ step.MeetsList manager := by
  cases step with
  | msync schedule => exact iff_of_true (htracked.msync hstep) trivial
  | fault block isWriteFault =>
      rw [FaultStep.run, handler] at hstep
      split_ifs at hstep with hexit hpresent
      · exact hstep.elim
      · rw [(handlePresent_returns hstep).tracked_iff]
        cases isWriteFault with
        | true =>
            have hreadWrite : manager.readOnly = false := by simpa using hexit
            rw [if_pos rfl, htracked.moveToDirty_iff hpresent hreadWrite]
            simp [MeetsList, hpresent]
        | false =>
            rw [if_neg Bool.false_ne_true, htracked.protect_iff hpresent]
            simp [MeetsList, hpresent]
      · obtain ⟨room, hroom, hload⟩ := Program.returns_bind.mp hstep
        obtain ⟨hkept, hsubset, hreadOnly⟩ := htracked.evictIfNeeded hroom
        have habsent : block ∉ room.presentBlocks := fun h => hpresent (hsubset h)
        have hwrite : room.readOnly = true → isWriteFault = false := by
          intro hread
          rw [hreadOnly] at hread
          simpa [hread] using hexit
        have hmeets : (FaultStep.fault block isWriteFault).MeetsList manager :=
          fun h => absurd h hpresent
        exact iff_of_true (hkept.loadAbsent habsent hwrite hload) hmeets

/-- In every run from a constructor the writable blocks are tracked in all states exactly
when every fault on a resident block meets its list. -/
theorem writable_tracked_iff {base : VirtualMemoryManagerBase Hash}
    {trace : List (FaultStep × SigactionVirtualMemoryManager Hash)}
    (hrun : Run (fun manager step manager' => FaultStep.run build manager step manager')
      (initial base) trace) :
    (∀ manager ∈ Run.states (initial base) trace, manager.Tracked) ↔
      Run.Each FaultStep.MeetsList (initial base) trace := by
  have hexact : ∀ manager step manager', True → manager.Tracked →
      FaultStep.run build manager step manager' →
        True ∧ (manager'.Tracked ↔ step.MeetsList manager) := by
    intro manager step manager' _ htracked hstep
    exact ⟨trivial, FaultStep.tracked_iff htracked hstep⟩
  exact hrun.forall_states_iff hexact trivial (initial_tracked base)

/-- A new region with one block of one byte. -/
def oneByte : VirtualMemoryManagerBase (Option (List Byte)) :=
  .initial ['/', 'v'] 1 1 1 false (BlockStorage.initial ['/', 'b'] ['/', 's'] 1) fun _ => none

/-- Files with the blocks directory of the region and its table. -/
def oneByteFiles : FileSystem (Option (List Byte)) :=
  (FileSystem.empty.setDirectory (.path ['/', 'b'])).setMetadata ['/', 'v'] (some [])

/-- A block is read, written and committed, and written once more. -/
theorem writable_tracked_iff_oneByte :
    ∃ trace : List (FaultStep × SigactionVirtualMemoryManager (Option (List Byte))),
      trace.map Prod.fst =
        [.fault 0 false, .fault 0 true, .msync ⟨[], []⟩, .fault 0 true] ∧
      ∀ manager ∈ Run.states (initial oneByte) trace, manager.Tracked := by
  have hrun : Run (fun manager step manager' =>
      FaultStep.run Build.transparent manager step manager') (initial oneByte)
      [(.fault 0 false, _), (.fault 0 true, _), (.msync ⟨[], []⟩, _), (.fault 0 true, _)] :=
    .cons rfl (.cons rfl (.cons
      (Program.returns_of_run (rfl : Program.run FileSystem.answer _ oneByteFiles = _))
      (.cons rfl .nil)))
  refine ⟨_, rfl, (writable_tracked_iff hrun).mpr ⟨?_, ?_, trivial, ?_, trivial⟩⟩
  · exact fun hpresent => absurd hpresent (Finset.notMem_empty 0)
  · exact fun _ => iff_of_true rfl List.mem_cons_self
  · exact fun _ => iff_of_true rfl List.mem_cons_self

/-- Two threads read a block that is not resident.  The second of their faults makes it
writable although it is clean. -/
theorem second_read_fault_makes_clean_block_writable :
    ∃ trace : List (FaultStep × SigactionVirtualMemoryManager (Option (List Byte))),
      Run (fun manager step manager' => FaultStep.run .transparent manager step manager')
        (initial oneByte) trace ∧
      trace.map Prod.fst = [.fault 0 false, .fault 0 false] ∧
      ∃ manager ∈ Run.states (initial oneByte) trace,
        manager.protection 0 = .write ∧ manager.dirtyLru = [] ∧ ¬ manager.Tracked := by
  refine ⟨[(.fault 0 false, _), (.fault 0 false, _)], .cons rfl (.cons rfl .nil), rfl, _,
    .tail _ (.tail _ (.head _)), rfl, rfl, ?_⟩
  intro htracked
  exact absurd ((htracked.writable_iff 0).mp rfl) (by decide)

end SigactionVirtualMemoryManager

end Privateer
