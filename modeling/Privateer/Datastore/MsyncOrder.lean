import Privateer.Datastore.VersionRuns
import Privateer.VirtualMemory.CommitOrder

/-!
# The order in which `msync` works on its blocks

The workers of `msync` store the dirty blocks in any interleaving of their system calls and
commit the stashed ones in any order.  Blocks with equal contents take different paths then,
but they leave the same files and the same manager, up to the order of the clean list.
-/

namespace Privateer

namespace SigactionVirtualMemoryManager

variable {Hash : Type} [DecidableEq Hash] {blocks : BlocksDirectory Hash}
variable {manager : SigactionVirtualMemoryManager Hash} {files : FileSystem Hash}
variable {contents : ℕ → List Byte}

/-- What `msync` does to the manager and to the files, from the contents of the region. -/
structure Settled (blocks : BlocksDirectory Hash) (contents : ℕ → List Byte)
    (manager : SigactionVirtualMemoryManager Hash) (files : FileSystem Hash)
    (committed : SigactionVirtualMemoryManager Hash) (final : FileSystem Hash) : Prop where
  blocksIds : committed.blocksIds = manager.base.namesAfter blocks contents
    (manager.dirtyLru.toFinset ∪ manager.stashSet)
  data : Settles blocks (contents '' (manager.dirtyLru.toFinset ∪ manager.stashSet : Finset ℕ))
    (manager.base.stashNumbers manager.stashSet) manager.blockStorage.stashDirectory files final
  metadata : final.metadata = (files.setMetadata manager.versionMetadataPath
    ((files.metadata manager.versionMetadataPath).map
      (overwrite ((List.range manager.occupiedBlocks).map committed.blocksIds)))).metadata
  stashBlockIds : ∀ block, committed.blockStorage.stashBlockIds block = none
  protection : ∀ block, committed.protection block =
    if block ∈ manager.dirtyLru then .read else manager.protection block
  cleanLru : committed.cleanLru.Perm (manager.dirtyLru ++ manager.cleanLru)

/-- `msync` returns under every schedule, and the schedule does not matter for this. -/
theorem run_msync_settled (hsound : blocks.build.Sound)
    (hcoherent : Coherent blocks manager files contents)
    (htable : (files.metadata manager.versionMetadataPath).isSome) (schedule : MsyncSchedule) :
    ∃ committed final, (msync blocks.build manager schedule).run FileSystem.answer files =
      (.returned committed, final) ∧ Settled blocks contents manager files committed final := by
  obtain ⟨entries, hmetadata⟩ := Option.isSome_iff_exists.mp htable
  obtain ⟨committed, between, hblocks, hcommitted, hoccupied⟩ :=
    run_msyncBlocks hsound hcoherent schedule
  refine ⟨committed, _, run_msync_of_msyncBlocks hblocks hcommitted hoccupied hmetadata, ?_⟩
  have hshared := hcoherent.residency.shared
  have hmemory : ∀ block ∈ manager.dirtyLru, manager.memory block = contents block := by
    intro block hblock
    rw [hcoherent.residency.memory, if_pos ((hshared.mem_iff block).mpr (.inr hblock))]
  obtain ⟨stored, after, hcommit, hlast⟩ := Program.run_bind_returned hblocks
  obtain ⟨hsettles, hids⟩ := VirtualMemoryManagerBase.commitBlocks_settles hsound
    hcoherent.backing hshared.nodup_dirty hmemory hcommit
  have hperm := VirtualMemoryManagerBase.returns_commitBlocks (Program.returns_of_run hcommit)
  have hmarked := foldl_markStored manager (stored.1.map Prod.fst)
  cases hlast
  refine ⟨hids, ⟨?_, hsettles.gone, hsettles.others⟩, ?_, ?_, ?_, ?_⟩
  · intro content hcontent
    have hstored := hsettles.stored content hcontent
    exact ⟨hstored.length, hstored.hash, hstored.file⟩
  · rw [hmetadata]
    funext version
    by_cases hversion : version = manager.versionMetadataPath
    · rw [hversion, FileSystem.setMetadata_self, FileSystem.setMetadata_self]
      rfl
    · rw [FileSystem.setMetadata_of_ne _ hversion, FileSystem.setMetadata_of_ne _ hversion,
        hcommitted.promises.metadata]
  · intro block
    exact hcommitted.coherent.backing.stashBlockIds_eq_none (Finset.notMem_empty block)
  · intro block
    refine (hmarked.protection block).trans ?_
    simp only [hperm.mem_iff]
  · have hclean : _ = _ := hmarked.cleanLru
    refine (List.Perm.of_eq hclean).trans ?_
    exact ((List.reverse_perm _).trans hperm).append_right _

/-- Two states after `msync`: they may differ in the order of the clean list and in
temporary files. -/
structure SameUpToOrder (first second : SigactionVirtualMemoryManager Hash)
    (files files' : FileSystem Hash) : Prop where
  blocksIds : first.blocksIds = second.blocksIds
  data : ∀ file : DataFile Hash, file.Lasts → files.data file = files'.data file
  metadata : files.metadata = files'.metadata
  stashBlockIds : first.blockStorage.stashBlockIds = second.blockStorage.stashBlockIds
  protection : first.protection = second.protection
  cleanLru : first.cleanLru.Perm second.cleanLru

omit [DecidableEq Hash] in
theorem Settled.sameUpToOrder {first second : SigactionVirtualMemoryManager Hash}
    {files₁ files₂ : FileSystem Hash} (hfirst : Settled blocks contents manager files first files₁)
    (hsecond : Settled blocks contents manager files second files₂) :
    SameUpToOrder first second files₁ files₂ := by
  have hids : first.blocksIds = second.blocksIds := hfirst.blocksIds.trans hsecond.blocksIds.symm
  refine ⟨hids, fun file hlasts => hfirst.data.unique hsecond.data hlasts, ?_, ?_, ?_, ?_⟩
  · rw [hfirst.metadata, hsecond.metadata, hids]
  · funext block
    rw [hfirst.stashBlockIds, hsecond.stashBlockIds]
  · funext block
    rw [hfirst.protection, hsecond.protection]
  · exact hfirst.cleanLru.trans hsecond.cleanLru.symm

end SigactionVirtualMemoryManager

open SigactionVirtualMemoryManager (SameUpToOrder)

variable {Hash : Type} [DecidableEq Hash] {blocks : BlocksDirectory Hash}
variable {files : FileSystem Hash}

/-- In every state that sessions may reach, `msync` returns under any two schedules and leaves
the same up to the order of the clean list. -/
theorem msync_order_independent (hsound : blocks.build.Sound) (hpos : 0 < blocks.blockSize)
    (hconsistent : blocks.Consistent files)
    {trace : List (VersionsRequest Hash × VersionsState Hash)}
    (hrun : Run (VersionsStep blocks killedAnywhere) ⟨files, fun _ => none⟩ trace) :
    ∀ state ∈ Run.states ⟨files, fun _ => none⟩ trace, ∀ session manager,
      state.sessions session = some manager → ∀ schedule schedule' : MsyncSchedule,
        ∃ committed final committed' final',
          (manager.msync blocks.build schedule).run FileSystem.answer state.files =
            (.returned committed, final) ∧
          (manager.msync blocks.build schedule').run FileSystem.answer state.files =
            (.returned committed', final') ∧ SameUpToOrder committed committed' final final' := by
  have horderly := hrun.forall_states_of_step
    (fun state request next horderly hstep => (horderly.step hsound hpos hstep).1)
    (VersionsState.orderly_start hconsistent)
  intro state hstate session manager hmanager schedule schedule'
  have hlive := (horderly state hstate).live session manager hmanager
  obtain ⟨contents, hheld⟩ := hlive.held
  obtain ⟨committed, final, hfirst, hsettled⟩ :=
    SigactionVirtualMemoryManager.run_msync_settled hsound hheld.coherent hlive.table schedule
  obtain ⟨committed', final', hsecond, hsettled'⟩ :=
    SigactionVirtualMemoryManager.run_msync_settled hsound hheld.coherent hlive.table schedule'
  exact ⟨committed, final, committed', final', hfirst, hsecond, hsettled.sameUpToOrder hsettled'⟩

/-- Two stashed blocks with equal contents and a dirty one, committed in both orders. -/
theorem msync_order_independent_equal :
    ∃ trace : List (VersionsRequest (Option (List Byte)) × VersionsState (Option (List Byte))),
      trace.map Prod.fst =
        [.start 0 smallObject (.create ['v'] 3 1 false) 4096, .perform 0 (.write 2 7),
          .perform 0 (.write 1 7), .perform 0 (.write 0 5)] ∧
      ∀ manager, (Run.last ⟨smallFiles, fun _ => none⟩ trace).sessions 0 = some manager →
        ∃ committed final committed' final',
          (manager.msync smallDatastore.build ⟨[], []⟩).run FileSystem.answer
              (Run.last ⟨smallFiles, fun _ => none⟩ trace).files =
            (.returned committed, final) ∧
          (manager.msync smallDatastore.build ⟨[], [1]⟩).run FileSystem.answer
              (Run.last ⟨smallFiles, fun _ => none⟩ trace).files =
            (.returned committed', final') ∧
          SameUpToOrder committed committed' final final' := by
  have hrun : Run (VersionsStep smallDatastore killedAnywhere) ⟨smallFiles, fun _ => none⟩
      [(.start 0 smallObject (.create ['v'] 3 1 false) 4096, ⟨_, _⟩),
        (.perform 0 (.write 2 7), ⟨_, _⟩), (.perform 0 (.write 1 7), ⟨_, _⟩),
        (.perform 0 (.write 0 5), ⟨_, _⟩)] :=
    .cons ⟨rfl, smallObject_onTier, ⟨rfl, nofun⟩, _, _, killedAnywhere_of_runToEnd rfl, rfl⟩
      (.cons ⟨_, rfl, by decide, _, _, killedAnywhere_of_runToEnd rfl, rfl⟩
        (.cons ⟨_, rfl, by decide, _, _, killedAnywhere_of_runToEnd rfl, rfl⟩
          (.cons ⟨_, rfl, by decide, _, _, killedAnywhere_of_runToEnd rfl, rfl⟩ .nil)))
  refine ⟨_, ?_, fun manager hmanager => msync_order_independent Build.transparent_sound
    (by decide) smallFiles_consistent hrun _ Run.last_mem_states 0 manager hmanager _ _⟩
  rfl

end Privateer
