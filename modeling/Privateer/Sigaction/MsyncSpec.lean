import Privateer.Sigaction.HandlerSpec

/-!
# Committing the blocks of a session

The first two parts of `msync` store every dirty block and every stashed block,
under every schedule of their workers.  Afterwards each name in `blocks_ids`
stands for the contents of its block; only the third part, `update_metadata`,
decides which of these names reach the table.
-/

namespace Privateer

namespace SigactionVirtualMemoryManager

variable {Hash : Type} [DecidableEq Hash] {blocks : BlocksDirectory Hash}
variable {manager : SigactionVirtualMemoryManager Hash} {files files' : FileSystem Hash}
variable {region : ℕ → List Byte} {mayExit : Prop} {owned : Set Resource}

open VirtualMemoryManagerBase (Backing SameSession)

/-! ## Marking the stored blocks -/

/-- What the workers change of the memory side. -/
structure Marked (manager marked : SigactionVirtualMemoryManager Hash) (stored : List ℕ) :
    Prop where
  cleanLru : marked.cleanLru = stored.reverse ++ manager.cleanLru
  presentBlocks : marked.presentBlocks = manager.presentBlocks
  memory : marked.memory = manager.memory
  protection : ∀ block, marked.protection block =
    if block ∈ stored then .read else manager.protection block

omit [DecidableEq Hash] in
theorem foldl_markStored (manager : SigactionVirtualMemoryManager Hash) (stored : List ℕ) :
    manager.Marked (stored.foldl markStored manager) stored := by
  induction stored generalizing manager with
  | nil => exact ⟨rfl, rfl, rfl, fun _ => rfl⟩
  | cons block rest ih =>
      have hrest := ih (manager.markStored block)
      refine ⟨?_, hrest.presentBlocks, hrest.memory, ?_⟩
      · rw [List.foldl_cons, hrest.cleanLru, List.reverse_cons, List.append_assoc]
        rfl
      · intro other
        rw [List.foldl_cons, hrest.protection]
        by_cases hmarked : other ∈ rest
        · simp [hmarked]
        · simp [hmarked, markStored, Function.update_apply]

omit [DecidableEq Hash] in
/-- The blocks that were dirty are clean once they are stored. -/
theorem Residency.flush (hresidency : manager.Residency region) {stored : List ℕ}
    (hperm : stored.Perm manager.dirtyLru) {base : VirtualMemoryManagerBase Hash}
    (hbase : manager.base.SameSession base) :
    Residency { stored.foldl markStored manager with base, dirtyLru := [], stashSet := ∅ }
      region := by
  have hmarked := foldl_markStored manager stored
  generalize stored.foldl markStored manager = marked at hmarked
  constructor
  · change Shared marked.cleanLru [] marked.presentBlocks
    rw [hmarked.cleanLru, hmarked.presentBlocks]
    exact hresidency.shared.flush ((List.reverse_perm _).trans hperm)
  · change ∀ block ∈ marked.presentBlocks, block < base.numBlocks
    rw [hmarked.presentBlocks, hbase.numBlocks]
    exact hresidency.resident_lt
  · intro block
    change marked.protection block =
      if block ∈ [] then .write else if block ∈ marked.cleanLru then .read else .none
    rw [hmarked.protection, hresidency.protection, hmarked.cleanLru]
    simp only [hperm.mem_iff, List.mem_append, List.mem_reverse, List.not_mem_nil, if_false]
    by_cases hdirty : block ∈ manager.dirtyLru
    · simp [hdirty]
    · simp [hdirty]
  · change ∀ block, marked.memory block =
      if block ∈ marked.presentBlocks then region block else List.replicate base.blockSize 0
    rw [hmarked.memory, hmarked.presentBlocks, hbase.blockSize]
    exact hresidency.memory

/-! ## Before the table -/

/-- The part of `msync` before the table is written: no block is left dirty or
stashed, so the name of every block stands for its contents. -/
theorem ensures_msyncBlocks (hsound : blocks.build.Sound)
    (hheld : Held blocks region manager owned files) (schedule : MsyncSchedule) :
    (blocks.contract mayExit).ensures (msyncBlocks blocks.build manager schedule)
      (fun committed owned' files' => Held blocks region committed owned' files' ∧
        (manager.base.SameSession committed.base ∧
          committed.presentBlocks = manager.presentBlocks ∧
            committed.dirtyLru = [] ∧ committed.stashSet = ∅))
      owned files := by
  have hcoherent := hheld.coherent
  have hshared := hcoherent.residency.shared
  have hmemory : ∀ block ∈ manager.dirtyLru, manager.memory block = region block := by
    intro block hblock
    rw [hcoherent.residency.memory, if_pos ((hshared.mem_iff block).mpr (.inr hblock))]
  refine ensures_of_stashFiles ?_ hheld.owned
  apply Contract.ensures_bind_of (VirtualMemoryManagerBase.ensures_commitBlocks hsound
    hcoherent.backing hshared.nodup_dirty hmemory schedule)
  rintro committed owned' files' ⟨hperm, hbacking, howned, hsession⟩ final hfinal
  have hresidency := hcoherent.residency.flush hperm hsession
  exact ⟨⟨hcoherent.of_base hsession hresidency (hbacking.rely howned hfinal), howned⟩, hsession,
    (foldl_markStored manager _).presentBlocks, rfl, rfl⟩

/-- With no block dirty or stashed, the names stand for the contents. -/
theorem Coherent.names (hcoherent : Coherent blocks manager files region)
    (hdirty : manager.dirtyLru = []) (hstash : manager.stashSet = ∅) {block : ℕ}
    (hblock : block < manager.numBlocks) :
    blocks.Names files (manager.blocksIds block) (region block) :=
  hcoherent.backing.names hblock (by simp [hdirty]) (by simp [hstash])

end SigactionVirtualMemoryManager

end Privateer
