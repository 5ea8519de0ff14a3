import Privateer.Sigaction.Tracking

/-!
# The order of eviction

Both lists of the manager have their blocks in the order of their last faults, the latest
first, as long as blocks join at the front with a fault.  A commit puts the dirty blocks in
front of the clean ones as well, one after the other and without a fault.  This module gives
each block the time of its last fault, follows the accesses and commits of one thread, and
says when the lists stay in order, so that an eviction takes the block of its list whose
last fault is the oldest.
-/

namespace Privateer

namespace SigactionVirtualMemoryManager

variable {Hash : Type} {build : Build Hash}
variable {manager manager' : SigactionVirtualMemoryManager Hash} {block : ℕ}

/-! ## What an eviction and a load do -/

/-- The block that an eviction takes from the list that it evicts from. -/
def EvictsFrom (manager : SigactionVirtualMemoryManager Hash) (members : List ℕ)
    (toEvict : ℕ) : Prop :=
  members.getLast? = some toEvict ∧
    (members = manager.cleanLru ∨ (manager.cleanLru = [] ∧ members = manager.dirtyLru))

/-- What is left after an eviction, which takes at most one block. -/
structure Evicted (manager room : SigactionVirtualMemoryManager Hash) : Prop where
  clean : room.cleanLru.Sublist manager.cleanLru
  dirty : room.dirtyLru.Sublist manager.dirtyLru
  present : room.presentBlocks ⊆ manager.presentBlocks
  protection : ∀ block ∈ room.presentBlocks, room.protection block = manager.protection block
  taken : ∀ block ∈ manager.presentBlocks, block ∉ room.presentBlocks →
    ∃ members, manager.EvictsFrom members block

theorem evictIfNeeded_evicts (hreturns : (evictIfNeeded manager).Returns manager') :
    manager.Evicted manager' := by
  unfold evictIfNeeded at hreturns
  have hprotection : ∀ (toEvict : ℕ) (block : ℕ), block ∈ manager.presentBlocks.erase toEvict →
      Function.update manager.protection toEvict .none block = manager.protection block :=
    fun toEvict block hblock => Function.update_of_ne (Finset.ne_of_mem_erase hblock) _ _
  have htaken : ∀ (toEvict : ℕ) (members : List ℕ), manager.EvictsFrom members toEvict →
      ∀ block ∈ manager.presentBlocks, block ∉ manager.presentBlocks.erase toEvict →
        ∃ members, manager.EvictsFrom members block := by
    intro toEvict members hevicts block hblock hgone
    have hsame : block = toEvict := by
      by_contra hne
      exact hgone (Finset.mem_erase.mpr ⟨hne, hblock⟩)
    exact ⟨members, hsame ▸ hevicts⟩
  split_ifs at hreturns with hfull
  · cases hclean : manager.cleanLru.getLast? with
    | some toEvict =>
        rw [hclean] at hreturns
        cases hreturns
        exact ⟨List.dropLast_sublist _, .refl _, Finset.erase_subset _ _, hprotection toEvict,
          htaken toEvict _ ⟨hclean, .inl rfl⟩⟩
    | none =>
        rw [hclean] at hreturns
        cases hdirty : manager.dirtyLru.getLast? with
        | none =>
            rw [hdirty] at hreturns
            exact hreturns.elim
        | some toEvict =>
            simp only [hdirty] at hreturns
            obtain ⟨stashed, hstash, hlast⟩ := Program.returns_bind.mp hreturns
            cases hlast
            exact ⟨.refl _, List.dropLast_sublist _, Finset.erase_subset _ _,
              hprotection toEvict,
              htaken toEvict _ ⟨hdirty, .inr ⟨List.getLast?_eq_none_iff.mp hclean, rfl⟩⟩⟩
  · cases hreturns
    exact ⟨.refl _, .refl _, subset_rfl, fun _ _ => rfl,
      fun block hblock hgone => absurd hblock hgone⟩

/-- A fault puts its block at the front of the list that belongs to its access. -/
structure Faulted (manager handled : SigactionVirtualMemoryManager Hash) (block : ℕ)
    (isWrite : Bool) : Prop where
  clean : ∃ members, members.Sublist manager.cleanLru ∧
    handled.cleanLru = if isWrite then members else block :: members
  dirty : ∃ members, members.Sublist manager.dirtyLru ∧
    handled.dirtyLru = if isWrite then block :: members else members
  present : ∀ other ∈ handled.presentBlocks, other ≠ block → other ∈ manager.presentBlocks
  protection : ∀ other ∈ handled.presentBlocks, other ≠ block →
    handled.protection other = manager.protection other
  mapped : handled.protection block ≠ .none

variable [DecidableEq Hash]

theorem loadAbsent_returns {isWrite : Bool}
    (hreturns : (loadAbsent build manager block isWrite).Returns manager') :
    manager.Faulted manager' block isWrite := by
  have hmapped : faultProtection isWrite ≠ .none := by
    cases isWrite with
    | true => exact nofun
    | false => exact nofun
  -- Each way to load the block ends in the same lists and protections.
  have hload : ∀ (base : VirtualMemoryManagerBase Hash) (stashSet : Finset ℕ)
      (memory : ℕ → List Byte), manager.Faulted (makeResident
        { manager with
          base := base
          stashSet := stashSet
          memory := memory
          protection := Function.update manager.protection block (faultProtection isWrite) }
        block isWrite) block isWrite := by
    intro base stashSet memory
    cases isWrite with
    | true =>
        refine ⟨⟨_, .refl _, rfl⟩, ⟨_, .refl _, rfl⟩, fun other hother hne => ?_,
          fun other _ hne => Function.update_of_ne hne _ _, ?_⟩
        · exact (Finset.mem_insert.mp hother).resolve_left hne
        · exact (Function.update_self _ _ _).trans_ne hmapped
    | false =>
        refine ⟨⟨_, .refl _, rfl⟩, ⟨_, .refl _, rfl⟩, fun other hother hne => ?_,
          fun other _ hne => Function.update_of_ne hne _ _, ?_⟩
        · exact (Finset.mem_insert.mp hother).resolve_left hne
        · exact (Function.update_self _ _ _).trans_ne hmapped
  unfold loadAbsent at hreturns
  cases hpath : manager.blockStorage.getBlockStashPath block with
  | some file =>
      rw [hpath] at hreturns
      obtain ⟨buffer, -, hrest⟩ := Program.returns_bind.mp hreturns
      split_ifs at hrest with hwrite
      · obtain ⟨unstashed, hunstash, hlast⟩ := Program.returns_bind.mp hrest
        obtain ⟨forgotten, hforget, hsame⟩ := Program.returns_bind.mp hunstash
        cases hsame
        cases hlast
        exact hload _ _ _
      · cases hrest
        exact hload _ _ _
  | none =>
      simp only [hpath] at hreturns
      split_ifs at hreturns
      · cases hreturns
        exact hload _ _ _
      · obtain ⟨path, -, hrest⟩ := Program.returns_bind.mp hreturns
        obtain ⟨buffer, -, hlast⟩ := Program.returns_bind.mp hrest
        cases hlast
        exact hload _ _ _

/-! ## Accesses of one thread -/

/-- Resident blocks are mapped with an access. -/
def Visible (manager : SigactionVirtualMemoryManager Hash) : Prop :=
  ∀ block ∈ manager.presentBlocks, manager.protection block ≠ .none

omit [DecidableEq Hash] in
/-- With one thread, a fault on a resident block is a write to a clean block. -/
theorem Tracked.clean_of_fault (htracked : manager.Tracked) (hvisible : manager.Visible)
    {isWrite : Bool} (hfault : (manager.protection block).permits isWrite = false)
    (hpresent : block ∈ manager.presentBlocks) :
    isWrite = true ∧ block ∈ manager.cleanLru := by
  have hmapped := hvisible block hpresent
  have hread : manager.protection block = .read ∧ isWrite = true := by
    cases hprotection : manager.protection block with
    | none => exact absurd hprotection hmapped
    | read =>
        rw [hprotection] at hfault
        exact ⟨rfl, by simpa [Protection.permits] using hfault⟩
    | write =>
        rw [hprotection] at hfault
        cases hfault
  refine ⟨hread.2, ((htracked.shared.mem_iff block).mp hpresent).resolve_right fun hdirty => ?_⟩
  rw [← htracked.writable_mem_iff, hread.1] at hdirty
  cases hdirty

theorem handler_returns (htracked : manager.Tracked) (hvisible : manager.Visible)
    {isWrite : Bool} (hfault : (manager.protection block).permits isWrite = false)
    (hreturns : (handler build manager block isWrite).Returns manager') :
    manager.Faulted manager' block isWrite := by
  unfold handler at hreturns
  split_ifs at hreturns with hexit hpresent
  · exact hreturns.elim
  · obtain ⟨rfl, -⟩ := htracked.clean_of_fault hvisible hfault hpresent
    have hsame := handlePresent_returns hreturns
    rw [if_pos rfl] at hsame
    refine ⟨⟨_, List.filter_sublist, hsame.cleanLru⟩, ⟨_, .refl _, hsame.dirtyLru⟩, ?_, ?_, ?_⟩
    · intro other hother _
      rw [hsame.presentBlocks] at hother
      exact hother
    · intro other _ hne
      rw [hsame.protection]
      exact Function.update_of_ne hne _ _
    · rw [hsame.protection]
      exact (Function.update_self _ _ _).trans_ne nofun
  · obtain ⟨room, hroom, hload⟩ := Program.returns_bind.mp hreturns
    have hevicted := evictIfNeeded_evicts hroom
    have hloaded := loadAbsent_returns hload
    obtain ⟨clean, hclean, hcleanLru⟩ := hloaded.clean
    obtain ⟨dirty, hdirty, hdirtyLru⟩ := hloaded.dirty
    refine ⟨⟨clean, hclean.trans hevicted.clean, hcleanLru⟩,
      ⟨dirty, hdirty.trans hevicted.dirty, hdirtyLru⟩, ?_, ?_, hloaded.mapped⟩
    · exact fun other hother hne => hevicted.present (hloaded.present other hother hne)
    · intro other hother hne
      rw [hloaded.protection other hother hne]
      exact hevicted.protection other (hloaded.present other hother hne)

theorem access_returns {offset : ℕ} {isWrite : Bool}
    (hreturns : (access build manager offset isWrite).Returns manager') :
    ((manager.protection (offset / manager.blockSize)).permits isWrite = true ∧
      manager' = manager) ∨
    ((manager.protection (offset / manager.blockSize)).permits isWrite = false ∧
      (handler build manager (offset / manager.blockSize) isWrite).Returns manager') := by
  unfold access at hreturns
  dsimp only at hreturns
  split_ifs at hreturns with hpermits
  · cases hreturns
    exact .inl ⟨hpermits, rfl⟩
  · obtain ⟨handled, hhandled, hlast⟩ := Program.returns_bind.mp hreturns
    split_ifs at hlast
    · cases hlast
      exact .inr ⟨Bool.eq_false_iff.mpr hpermits, hhandled⟩
    · exact hlast.elim

omit [DecidableEq Hash] in
/-- A commit in the order of the dirty list reverses that list in front of the clean one. -/
theorem msync_returns {committing : List ℕ}
    (hreturns : (msync build manager ⟨[], committing⟩).Returns manager') :
    manager'.cleanLru = manager.dirtyLru.reverse ++ manager.cleanLru ∧
      manager'.dirtyLru = [] ∧ manager'.presentBlocks = manager.presentBlocks ∧
      ∀ block ∈ manager.presentBlocks, manager.protection block ≠ .none →
        manager'.protection block ≠ .none := by
  obtain ⟨flushed, hflushed, hwritten⟩ := Program.returns_bind.mp hreturns
  obtain ⟨⟨⟩, -, hsame⟩ := Program.returns_bind.mp hwritten
  cases hsame
  obtain ⟨committed, hcommitted, hmarked⟩ := Program.returns_bind.mp hflushed
  cases hmarked
  have horder : committed.1.map Prod.fst = manager.dirtyLru := by
    obtain ⟨stored, hstored, hrest⟩ := Program.returns_bind.mp hcommitted
    obtain ⟨last, -, hlast⟩ := Program.returns_bind.mp hrest
    cases hlast
    have hlabels := Program.returns_inOrder hstored
    rw [List.map_map] at hlabels
    exact hlabels.trans (List.map_id _)
  have hmarked := foldl_markStored manager (committed.1.map Prod.fst)
  rw [horder] at hmarked ⊢
  refine ⟨hmarked.cleanLru, rfl, hmarked.presentBlocks, fun block _ hmapped => ?_⟩
  change (manager.dirtyLru.foldl markStored manager).protection block ≠ .none
  rw [hmarked.protection]
  split_ifs
  · exact nofun
  · exact hmapped

end SigactionVirtualMemoryManager

/-! ## Stamps -/

/-- A manager whose faults are counted, and the count at the last fault of each block. -/
structure StampedManager (Hash : Type) where
  manager : SigactionVirtualMemoryManager Hash
  clock : ℕ
  stamp : ℕ → ℕ

/-- What one thread asks for; a commit with the order in which it commits stash files. -/
inductive StampedRequest where
  | read (offset : ℕ)
  | write (offset : ℕ) (byte : Byte)
  | msync (committing : List ℕ)

namespace StampedManager

open SigactionVirtualMemoryManager (EvictsFrom evictIfNeeded)

variable {Hash : Type} [DecidableEq Hash] {build : Build Hash}

def initial (base : VirtualMemoryManagerBase Hash) : StampedManager Hash where
  manager := .initial base
  clock := 0
  stamp := fun _ => 0

/-- An access that the protection of its block forbids is a fault. -/
def accessed (state : StampedManager Hash) (manager' : SigactionVirtualMemoryManager Hash)
    (block : ℕ) (isWrite : Bool) : StampedManager Hash :=
  if (state.manager.protection block).permits isWrite then { state with manager := manager' }
  else
    { manager := manager'
      clock := state.clock + 1
      stamp := Function.update state.stamp block (state.clock + 1) }

/-- A commit stores the dirty blocks from the front of their list to its back. -/
inductive Step (build : Build Hash) :
    StampedManager Hash → StampedRequest → StampedManager Hash → Prop
  | read {state : StampedManager Hash} {offset : ℕ} {byte : Byte}
      {manager' : SigactionVirtualMemoryManager Hash}
      (hreturns : (state.manager.readByte build offset).Returns (byte, manager')) :
      Step build state (.read offset)
        (state.accessed manager' (offset / state.manager.blockSize) false)
  | write {state : StampedManager Hash} {offset : ℕ} {byte : Byte}
      {manager' : SigactionVirtualMemoryManager Hash}
      (hreturns : (state.manager.writeByte build offset byte).Returns manager') :
      Step build state (.write offset byte)
        (state.accessed manager' (offset / state.manager.blockSize) true)
  | msync {state : StampedManager Hash} {committing : List ℕ}
      {manager' : SigactionVirtualMemoryManager Hash}
      (hreturns : (SigactionVirtualMemoryManager.msync build state.manager
        ⟨[], committing⟩).Returns manager') :
      Step build state (.msync committing) { state with manager := manager' }

/-- The later a block was faulted, the earlier it comes. -/
def Decreasing (stamp : ℕ → ℕ) (blocks : List ℕ) : Prop :=
  blocks.Pairwise fun first second => stamp second < stamp first

/-- Both lists are in order, and the block that an eviction takes is the one of its list
whose last fault is the oldest. -/
structure LeastRecent (state : StampedManager Hash) : Prop where
  clean : Decreasing state.stamp state.manager.cleanLru
  dirty : Decreasing state.stamp state.manager.dirtyLru
  evicts : ∀ room, (evictIfNeeded state.manager).Returns room →
    ∀ evicted ∈ state.manager.presentBlocks, evicted ∉ room.presentBlocks →
      ∃ members, state.manager.EvictsFrom members evicted ∧
        ∀ other ∈ members, state.stamp evicted ≤ state.stamp other

/-- At most one block is dirty, and no clean block was faulted after it. -/
def Orderly (state : StampedManager Hash) : StampedRequest → Prop
  | .read _ => True
  | .write _ _ => True
  | .msync _ => state.manager.dirtyLru.length ≤ 1 ∧
      ∀ dirty ∈ state.manager.dirtyLru, ∀ clean ∈ state.manager.cleanLru,
        state.stamp clean < state.stamp dirty

instance (state : StampedManager Hash) (request : StampedRequest) :
    Decidable (Orderly state request) :=
  match request with
  | .read _ => .isTrue trivial
  | .write _ _ => .isTrue trivial
  | .msync _ => inferInstanceAs (Decidable (state.manager.dirtyLru.length ≤ 1 ∧
      ∀ dirty ∈ state.manager.dirtyLru, ∀ clean ∈ state.manager.cleanLru,
        state.stamp clean < state.stamp dirty))

variable {state next : StampedManager Hash} {request : StampedRequest}

omit [DecidableEq Hash] in
/-- The order of the lists is all there is to it. -/
theorem leastRecent_iff : state.LeastRecent ↔
    Decreasing state.stamp state.manager.cleanLru ∧
      Decreasing state.stamp state.manager.dirtyLru := by
  constructor
  · exact fun hrecent => ⟨hrecent.clean, hrecent.dirty⟩
  · rintro ⟨hclean, hdirty⟩
    refine ⟨hclean, hdirty, fun room hroom evicted hpresent hgone => ?_⟩
    obtain ⟨members, hevicts⟩ :=
      (SigactionVirtualMemoryManager.evictIfNeeded_evicts hroom).taken evicted hpresent hgone
    refine ⟨members, hevicts, fun other hother => ?_⟩
    have hordered : Decreasing state.stamp members := by
      rcases hevicts.2 with rfl | ⟨-, rfl⟩
      · exact hclean
      · exact hdirty
    obtain ⟨front, rfl⟩ := List.getLast?_eq_some_iff.mp hevicts.1
    rcases List.mem_append.mp hother with hfront | hlast
    · exact ((List.pairwise_append.mp hordered).2.2 other hfront evicted
        (List.mem_singleton.mpr rfl)).le
    · rw [List.mem_singleton.mp hlast]

/-! ## Steps -/

/-- A block that is not in a list may be stamped anew. -/
theorem Decreasing.update {stamp : ℕ → ℕ} {members kept : List ℕ} {block time : ℕ}
    (hordered : Decreasing stamp members) (hkept : kept.Sublist members)
    (habsent : block ∉ kept) : Decreasing (Function.update stamp block time) kept := by
  refine (hordered.sublist hkept).imp_of_mem ?_
  intro first second hfirst hsecond hlater
  rw [Function.update_of_ne (ne_of_mem_of_not_mem hfirst habsent),
    Function.update_of_ne (ne_of_mem_of_not_mem hsecond habsent)]
  exact hlater

/-- A block that is stamped with a new time comes first. -/
theorem Decreasing.cons {stamp : ℕ → ℕ} {members kept : List ℕ} {block clock : ℕ}
    (hordered : Decreasing stamp members) (hkept : kept.Sublist members)
    (habsent : block ∉ kept) (hstamped : ∀ other, stamp other ≤ clock) :
    Decreasing (Function.update stamp block (clock + 1)) (block :: kept) := by
  refine List.Pairwise.cons (fun other hother => ?_) (hordered.update hkept habsent)
  rw [Function.update_self, Function.update_of_ne (ne_of_mem_of_not_mem hother habsent)]
  exact Nat.lt_succ_of_le (hstamped other)

/-- What holds of every state of a run. -/
structure Kept (state : StampedManager Hash) : Prop where
  tracked : state.manager.Tracked
  visible : state.manager.Visible
  stamped : ∀ block, state.stamp block ≤ state.clock

open SigactionVirtualMemoryManager (SameTracking Tracked Faulted FaultStep)

theorem Kept.accessed (hkept : state.Kept) {offset : ℕ} {isWrite : Bool}
    {mapped manager' : SigactionVirtualMemoryManager Hash}
    (haccess : (state.manager.access build offset isWrite).Returns mapped)
    (hsame : SameTracking mapped manager') :
    (state.accessed manager' (offset / state.manager.blockSize) isWrite).Kept ∧
      (state.LeastRecent →
        (state.accessed manager' (offset / state.manager.blockSize) isWrite).LeastRecent) := by
  generalize hblock : offset / state.manager.blockSize = block
  rcases SigactionVirtualMemoryManager.access_returns haccess with
    ⟨hpermits, rfl⟩ | ⟨hfault, hhandled⟩
  · rw [hblock] at hpermits
    rw [StampedManager.accessed, if_pos hpermits]
    refine ⟨⟨hsame.tracked_iff.mpr hkept.tracked, fun other hother => ?_, hkept.stamped⟩,
      fun hrecent => leastRecent_iff.mpr ⟨?_, ?_⟩⟩
    · rw [hsame.presentBlocks] at hother
      rw [hsame.protection]
      exact hkept.visible other hother
    · rw [hsame.cleanLru]
      exact hrecent.clean
    · rw [hsame.dirtyLru]
      exact hrecent.dirty
  · rw [hblock] at hfault hhandled
    have hfaulted :=
      SigactionVirtualMemoryManager.handler_returns hkept.tracked hkept.visible hfault hhandled
    have hmeets : (FaultStep.fault block isWrite).MeetsList state.manager := by
      intro hpresent
      obtain ⟨hwrite, hclean⟩ :=
        hkept.tracked.clean_of_fault hkept.visible hfault hpresent
      exact iff_of_true hwrite hclean
    have hstep : FaultStep.run build state.manager (.fault block isWrite) mapped := hhandled
    have htracked : mapped.Tracked := (FaultStep.tracked_iff hkept.tracked hstep).mpr hmeets
    have hnodup := htracked.shared.nodup
    obtain ⟨clean, hclean, hcleanLru⟩ := hfaulted.clean
    obtain ⟨dirty, hdirty, hdirtyLru⟩ := hfaulted.dirty
    rw [hcleanLru, hdirtyLru] at hnodup
    rw [StampedManager.accessed, if_neg (Bool.eq_false_iff.mp hfault)]
    refine ⟨⟨hsame.tracked_iff.mpr htracked, fun other hother => ?_, fun other => ?_⟩,
      fun hrecent => leastRecent_iff.mpr ?_⟩
    · rw [hsame.presentBlocks] at hother
      rw [hsame.protection]
      by_cases hother' : other = block
      · rw [hother']
        exact hfaulted.mapped
      · rw [hfaulted.protection other hother hother']
        exact hkept.visible other (hfaulted.present other hother hother')
    · dsimp only
      rw [Function.update_apply]
      split_ifs
      · exact le_rfl
      · exact Nat.le_succ_of_le (hkept.stamped other)
    · dsimp only
      rw [hsame.cleanLru, hsame.dirtyLru, hcleanLru, hdirtyLru]
      cases isWrite with
      | true =>
          rw [if_pos rfl, if_pos rfl] at hnodup ⊢
          obtain ⟨-, hfront, hdisjoint⟩ := List.nodup_append.mp hnodup
          exact ⟨hrecent.clean.update hclean fun hmem =>
            hdisjoint _ hmem _ List.mem_cons_self rfl,
            hrecent.dirty.cons hdirty (List.nodup_cons.mp hfront).1 hkept.stamped⟩
      | false =>
          rw [if_neg Bool.false_ne_true, if_neg Bool.false_ne_true] at hnodup ⊢
          obtain ⟨hfront, -, hdisjoint⟩ := List.nodup_append.mp hnodup
          exact ⟨hrecent.clean.cons hclean (List.nodup_cons.mp hfront).1 hkept.stamped,
            hrecent.dirty.update hdirty fun hmem =>
              hdisjoint _ List.mem_cons_self _ hmem rfl⟩

omit [DecidableEq Hash] in
/-- A reversed list is in order only if it has at most one block. -/
theorem decreasing_reverse_append_iff {stamp : ℕ → ℕ} {dirty clean : List ℕ}
    (hdirty : Decreasing stamp dirty) (hclean : Decreasing stamp clean) :
    Decreasing stamp (dirty.reverse ++ clean) ↔ dirty.length ≤ 1 ∧
      ∀ block ∈ dirty, ∀ other ∈ clean, stamp other < stamp block := by
  rw [Decreasing, List.pairwise_append, List.pairwise_reverse]
  constructor
  · rintro ⟨hreversed, -, hfront⟩
    refine ⟨?_, fun block hblock other hother =>
      hfront block (List.mem_reverse.mpr hblock) other hother⟩
    match dirty, hdirty, hreversed with
    | [], _, _ => exact Nat.zero_le 1
    | [_], _, _ => exact le_rfl
    | first :: second :: rest, hdirty, hreversed =>
        have hbefore := List.rel_of_pairwise_cons hdirty List.mem_cons_self
        have hafter := List.rel_of_pairwise_cons hreversed List.mem_cons_self
        exact absurd hbefore (lt_asymm hafter)
  · rintro ⟨hlength, hfront⟩
    refine ⟨?_, hclean, fun block hblock other hother =>
      hfront block (List.mem_reverse.mp hblock) other hother⟩
    match dirty, hlength with
    | [], _ => exact List.Pairwise.nil
    | [_], _ => exact List.pairwise_singleton _ _

/-- Only commits can disturb the order, and those that are orderly do not. -/
theorem Step.leastRecent (hstep : Step build state request next) (hkept : state.Kept)
    (hrecent : state.LeastRecent) :
    next.Kept ∧ (next.LeastRecent ↔ Orderly state request) := by
  cases hstep with
  | @read offset byte manager' hreturns =>
      obtain ⟨mapped, haccess, hlast⟩ := Program.returns_bind.mp hreturns
      cases hlast
      obtain ⟨hkept', hkeeps⟩ := hkept.accessed haccess ⟨rfl, rfl, rfl, rfl, rfl⟩
      exact ⟨hkept', iff_of_true (hkeeps hrecent) trivial⟩
  | @write offset byte manager' hreturns =>
      obtain ⟨mapped, haccess, hlast⟩ := Program.returns_bind.mp hreturns
      have hsame : SameTracking mapped manager' := by
        cases hlast
        exact ⟨rfl, rfl, rfl, rfl, rfl⟩
      obtain ⟨hkept', hkeeps⟩ := hkept.accessed haccess hsame
      exact ⟨hkept', iff_of_true (hkeeps hrecent) trivial⟩
  | @msync committing manager' hreturns =>
      obtain ⟨hclean, hdirty, hpresent, hvisible⟩ :=
        SigactionVirtualMemoryManager.msync_returns hreturns
      refine ⟨⟨hkept.tracked.msync hreturns, fun block hblock => ?_, hkept.stamped⟩, ?_⟩
      · rw [hpresent] at hblock
        exact hvisible block hblock (hkept.visible block hblock)
      · rw [leastRecent_iff]
        dsimp only
        rw [hclean, hdirty, decreasing_reverse_append_iff hrecent.dirty hrecent.clean]
        exact ⟨fun hboth => hboth.1, fun horderly => ⟨horderly, List.Pairwise.nil⟩⟩

omit [DecidableEq Hash] in
theorem kept_initial (base : VirtualMemoryManagerBase Hash) : (initial base).Kept where
  tracked := SigactionVirtualMemoryManager.initial_tracked base
  visible := fun block hblock => absurd hblock (Finset.notMem_empty block)
  stamped := fun _ => le_rfl

/-- In every run of one thread the lists are in the order of the last faults, and evictions
take the oldest block, exactly if every commit finds at most one dirty block and no clean
block that was faulted after it. -/
theorem least_recent_iff_orderly {base : VirtualMemoryManagerBase Hash}
    {trace : List (StampedRequest × StampedManager Hash)}
    (hrun : Run (Step build) (initial base) trace) :
    (∀ state ∈ Run.states (initial base) trace, state.LeastRecent) ↔
      Run.Each Orderly (initial base) trace := by
  have hstart : (initial base).LeastRecent :=
    leastRecent_iff.mpr ⟨List.Pairwise.nil, List.Pairwise.nil⟩
  exact hrun.forall_states_iff (fun state request next hkept hrecent hstep =>
    hstep.leastRecent hkept hrecent) (kept_initial base) hstart

/-! ## A region of two blocks of one byte -/

def twoBytes : VirtualMemoryManagerBase (Option (List Byte)) :=
  .initial ['/', 'v'] 2 1 2 false (BlockStorage.initial ['/', 'b'] ['/', 's'] 1) fun _ => none

def newVersion : FileSystem (Option (List Byte)) :=
  FileSystem.empty.setMetadata ['/', 'v'] (some [])

theorem Step.write_of_run (files : FileSystem Hash) {files' : FileSystem Hash} {offset : ℕ}
    {byte : Byte} {manager' : SigactionVirtualMemoryManager Hash}
    (hrun : (state.manager.writeByte build offset byte).run FileSystem.answer files =
      (.returned manager', files')) :
    Step build state (.write offset byte)
      (state.accessed manager' (offset / state.manager.blockSize) true) :=
  .write (Program.returns_of_run hrun)

theorem Step.msync_of_run (files : FileSystem Hash) {files' : FileSystem Hash}
    {committing : List ℕ} {manager' : SigactionVirtualMemoryManager Hash}
    (hrun : (SigactionVirtualMemoryManager.msync build state.manager ⟨[], committing⟩).run
      FileSystem.answer files = (.returned manager', files')) :
    Step build state (.msync committing) { state with manager := manager' } :=
  .msync (Program.returns_of_run hrun)

/-- A region of three blocks of one byte, two of which may be resident. -/
def twoOfThreeBytes : VirtualMemoryManagerBase (Option (List Byte)) :=
  .initial ['/', 'v'] 3 1 2 false (BlockStorage.initial ['/', 'b'] ['/', 's'] 1) fun _ => none

/-- Each block is committed before the next one is written to, and the third one takes the
place of the first. -/
theorem least_recent_iff_orderly_oneDirty :
    ∃ trace, trace.map Prod.fst = [.write 0 7, .msync [], .write 1 8, .msync [], .write 2 9,
        .msync []] ∧
      Run (Step Build.transparent) (initial twoOfThreeBytes) trace ∧
      (Run.last (initial twoOfThreeBytes) trace).manager.cleanLru = [2, 1] ∧
      ∀ state ∈ Run.states (initial twoOfThreeBytes) trace, state.LeastRecent := by
  have hrun : Run (Step Build.transparent) (initial twoOfThreeBytes)
      [(.write 0 7, _), (.msync [], _), (.write 1 8, _), (.msync [], _), (.write 2 9, _),
        (.msync [], _)] :=
    .cons (.write_of_run newVersion rfl) <| .cons (.msync_of_run newVersion rfl) <|
      .cons (.write_of_run newVersion rfl) <| .cons (.msync_of_run newVersion rfl) <|
      .cons (.write_of_run newVersion rfl) <| .cons (.msync_of_run newVersion rfl) .nil
  exact ⟨_, rfl, hrun, rfl, (least_recent_iff_orderly hrun).mpr (by decide +kernel)⟩

/-- Two blocks are written and committed; the one that was written first comes first. -/
theorem commit_reverses_order :
    ∃ trace, trace.map Prod.fst = [.write 0 7, .write 1 8, .msync []] ∧
      Run (Step Build.transparent) (initial twoBytes) trace ∧
      ¬ (Run.last (initial twoBytes) trace).LeastRecent := by
  have hrun : Run (Step Build.transparent) (initial twoBytes)
      [(.write 0 7, _), (.write 1 8, _), (.msync [], _)] :=
    .cons (.write_of_run newVersion rfl) <| .cons (.write_of_run newVersion rfl) <|
      .cons (.msync_of_run newVersion rfl) .nil
  refine ⟨_, rfl, hrun, fun hrecent => ?_⟩
  have hordered : Decreasing _ [0, 1] := hrecent.clean
  have hlater := List.rel_of_pairwise_cons hordered List.mem_cons_self
  revert hlater
  decide

end StampedManager

end Privateer
