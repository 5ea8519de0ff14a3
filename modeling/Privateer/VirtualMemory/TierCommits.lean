import Privateer.Storage.Tiers
import Privateer.VirtualMemory.Backing

/-!
# Committing the dirty blocks of a session on every tier

A session that has evicted nothing has no stash files, so its `msync` only stores dirty
blocks.  Each of them gets the hash of its contents as its name, and can be read back
under it on every tier of the storage.
-/

namespace Privateer

variable {Hash : Type} [DecidableEq Hash] {blocks : BlocksDirectory Hash}
variable {files : FileSystem Hash} {tiers : Set Path} {mayExit : Prop}

/-- A program that may not exit returns when it runs alone. -/
theorem BlocksDirectory.run_of_ensures_tiers {A : Type} {program : StorageProgram Hash A}
    {post : A → Set Resource → FileSystem Hash → Prop} {owned : Set Resource}
    (hensures : (blocks.tierContract tiers False).ensures program post owned files) :
    ∃ result files', program.run FileSystem.answer files = (.returned result, files') ∧
      (∃ owned', post result owned' files') ∧
        ∀ location ∈ tiers, (blocks.at location).Promises files files' := by
  have hanswer : ∀ call (state : FileSystem Hash),
      FileSystem.interface.answers call state (state.answer call).1 (state.answer call).2 :=
    fun _ _ => rfl
  obtain ⟨result, files', owned', hrun, hpost, hstep⟩ | ⟨hfalse, -⟩ :=
    Contract.run_of_ensures hanswer hensures
  · exact ⟨result, files', hrun, ⟨owned', hpost⟩, hstep.promised⟩
  · exact hfalse.elim

namespace VirtualMemoryManagerBase

variable {base : VirtualMemoryManagerBase Hash} {dirtyLru : List ℕ} {memory : ℕ → List Byte}

/-- What the worker of a dirty block leaves behind on every tier. -/
def TiersStoredAs (blocks : BlocksDirectory Hash) (tiers : Set Path) (memory : ℕ → List Byte)
    (block : ℕ) (name : Hash) (files : FileSystem Hash) : Prop :=
  blocks.TiersNamed tiers files ∧ blocks.TiersStored tiers files name (memory block)

theorem lasting_tiersStoredAs {stored : Set Path} (hsubset : stored ⊆ tiers) :
    (blocks.tierContract tiers mayExit).Lasting (TiersStoredAs blocks stored memory) := by
  intro block name state state' htolerated hstored
  refine ⟨BlockStorage.kept_tiersNamed hsubset _ _ htolerated hstored.1,
    fun location hlocation => ?_⟩
  exact BlockStorage.stored_of_tolerates htolerated (hsubset hlocation)
    (hstored.1 location hlocation) (hstored.2 location hlocation)

theorem ensures_storeDirty_tiers (hsound : blocks.build.Sound)
    (hsize : base.blockStorage.blockGranularity = blocks.blockSize)
    (hsubset : base.blockStorage.tiers ⊆ tiers)
    (hnamed : blocks.TiersNamed base.blockStorage.tiers files) {block : ℕ}
    (hlength : (memory block).length = blocks.blockSize) :
    (blocks.tierContract tiers mayExit).ensures
      (storeDirty blocks.build base (memory block) block)
      (fun name _ => TiersStoredAs blocks base.blockStorage.tiers memory block name)
      ∅ files := by
  apply Contract.ensures_bind_of (Contract.ensures_keep BlocksDirectory.tierContract_mutual
    (BlockStorage.kept_tiersNamed hsubset) hnamed
    (BlockStorage.ensures_storeOnTiers hsound hsize hlength hsubset hnamed))
  rintro _ owned' files' ⟨⟨rfl, hstored⟩, hnamed'⟩ final hfinal
  exact lasting_tiersStoredAs hsubset _ _ _ _ hfinal.tolerated ⟨hnamed', hstored⟩

/-- `msync` without stashed blocks keeps the promises on every directory of blocks. -/
theorem run_commitBlocks_tiers (hsound : blocks.build.Sound)
    (hsize : base.blockStorage.blockGranularity = blocks.blockSize)
    (hnamed : blocks.TiersNamed base.blockStorage.tiers files)
    (hlength : ∀ block ∈ dirtyLru, (memory block).length = blocks.blockSize)
    (schedule : MsyncSchedule) :
    ∃ stored files', (commitBlocks blocks.build base dirtyLru memory ∅ schedule).run
        FileSystem.answer files = (.returned (stored, stored.foldl recordStored base), files') ∧
      (stored.map Prod.fst).Perm dirtyLru ∧
      (∀ entry ∈ stored, blocks.TiersStored base.blockStorage.tiers files' entry.2
        (memory entry.1)) ∧
      ∀ location, (blocks.at location).Promises files files' := by
  have hsubset := Set.subset_univ base.blockStorage.tiers
  have hstore : (blocks.tierContract Set.univ False).ensures
      (storeDirtyBlocks blocks.build base dirtyLru memory schedule.storing) _ ∅ files :=
    ensures_storeDirtyBlocks_of BlocksDirectory.tierContract_mutual (lasting_tiersStoredAs hsubset)
      (fun block hblock =>
        ensures_storeDirty_tiers hsound hsize hsubset hnamed (hlength block hblock))
      schedule.storing
  obtain ⟨stored, files', hrun, ⟨owned, hperm, hstored⟩, hpromises⟩ :=
    BlocksDirectory.run_of_ensures_tiers hstore
  have hvector : ((stored.foldl recordStored base).stashVector ∅) = [] := by
    simp [stashVector]
  have horder : Program.arrange schedule.committing
      ((stored.foldl recordStored base).stashVector ∅) = [] := by
    rw [hvector, Program.arrange_nil]
  refine ⟨stored, files', ?_, hperm, fun entry hentry => (hstored entry hentry).2,
    fun location => hpromises location (Set.mem_univ location)⟩
  unfold commitBlocks
  rw [Program.run_bind_of_returned hrun]
  dsimp only
  rw [horder]
  rfl

omit [DecidableEq Hash] in
/-- Recording names changes nothing but the names and the entries of the stash tier, and
these only for the blocks that were stored. -/
theorem foldl_recordStored_eq (base : VirtualMemoryManagerBase Hash)
    (stored : List (ℕ × Hash)) :
    ∃ noted ids, stored.foldl recordStored base =
        { base with
          blockStorage := { base.blockStorage with stashCommittedBlockIds := noted }
          blocksIds := ids } ∧
      ∀ block, block ∉ stored.map Prod.fst →
        noted block = base.blockStorage.stashCommittedBlockIds block ∧
          ids block = base.blocksIds block := by
  induction stored generalizing base with
  | nil => exact ⟨_, _, rfl, fun _ _ => ⟨rfl, rfl⟩⟩
  | cons entry rest ih =>
      obtain ⟨noted, ids, hrest, hkept⟩ := ih (base.recordStored entry)
      have hstorage : ∃ first, base.blockStorage.noteStored entry.1 =
          { base.blockStorage with stashCommittedBlockIds := first } ∧
            ∀ block, block ≠ entry.1 →
              first block = base.blockStorage.stashCommittedBlockIds block := by
        unfold BlockStorage.noteStored
        split_ifs with hnoted
        · exact ⟨_, rfl, fun _ _ => rfl⟩
        · exact ⟨_, rfl, fun block hblock => Function.update_of_ne hblock _ _⟩
      obtain ⟨first, hfirst, hother⟩ := hstorage
      refine ⟨noted, ids, ?_, fun block hblock => ?_⟩
      · rw [List.foldl_cons, hrest, recordStored, hfirst]
      · rw [List.map_cons, List.mem_cons, not_or] at hblock
        obtain ⟨hnoted, hids⟩ := hkept block hblock.2
        rw [hnoted, hids, recordStored, hfirst]
        exact ⟨hother block hblock.1, Function.update_of_ne hblock.1 _ _⟩

end VirtualMemoryManagerBase

end Privateer
