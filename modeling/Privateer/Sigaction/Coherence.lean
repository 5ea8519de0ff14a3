import Privateer.Sigaction.Manager
import Privateer.VirtualMemory.Backing

/-!
# The invariant of a session

`region` gives the contents that the application should see in each block.  A
resident block has them in memory; every block that is not dirty is backed by them.
`Coherent` states this together with the shape of the manager's lists and
protections, and this module shows which changes of the manager keep it.
-/

namespace Privateer

variable {Hash : Type}

namespace SigactionVirtualMemoryManager

open VirtualMemoryManagerBase (Backing SameSession)

/-- The memory side: the two lists share out the resident blocks, the protection
of a block follows from its list, and resident blocks have their contents. -/
structure Residency (manager : SigactionVirtualMemoryManager Hash)
    (region : ℕ → List Byte) : Prop where
  shared : Shared manager.cleanLru manager.dirtyLru manager.presentBlocks
  resident_lt : ∀ block ∈ manager.presentBlocks, block < manager.numBlocks
  protection : ∀ block, manager.protection block =
    if block ∈ manager.dirtyLru then .write
    else if block ∈ manager.cleanLru then .read else .none
  memory : ∀ block, manager.memory block =
    if block ∈ manager.presentBlocks then region block
    else List.replicate manager.blockSize 0

/-- The invariant of a session. -/
structure Coherent [DecidableEq Hash] (blocks : BlocksDirectory Hash)
    (manager : SigactionVirtualMemoryManager Hash) (files : FileSystem Hash)
    (region : ℕ → List Byte) : Prop where
  blockSize : manager.blockSize = blocks.blockSize
  blockSize_pos : 0 < blocks.blockSize
  limit : manager.blockSize ≤ manager.maxMemSize
  residency : manager.Residency region
  backing : Backing blocks manager.base manager.stashSet manager.dirtyLru files region

/-- The manager once a block has lost its stash file. -/
def forgetStash (manager : SigactionVirtualMemoryManager Hash) (block : ℕ) :
    SigactionVirtualMemoryManager Hash :=
  { manager with
    base := manager.base.forgetStash block
    stashSet := manager.stashSet.erase block }

variable [DecidableEq Hash] {blocks : BlocksDirectory Hash}
variable {manager : SigactionVirtualMemoryManager Hash} {files files' : FileSystem Hash}
variable {region : ℕ → List Byte} {mayExit : Prop} {owned : Set Resource}

/-! ## Other threads -/

/-- Steps of other threads do not disturb a session that holds its stash files. -/
theorem Coherent.rely (hcoherent : Coherent blocks manager files region)
    (howned : manager.blockStorage.stashFiles ⊆ owned)
    (hrely : (blocks.contract mayExit).Rely owned files files') :
    Coherent blocks manager files' region :=
  ⟨hcoherent.blockSize, hcoherent.blockSize_pos, hcoherent.limit, hcoherent.residency,
    hcoherent.backing.rely howned hrely⟩

/-- A session that is coherent and holds its stash files. -/
structure Held (blocks : BlocksDirectory Hash) (region : ℕ → List Byte)
    (manager : SigactionVirtualMemoryManager Hash) (owned : Set Resource)
    (files : FileSystem Hash) : Prop where
  coherent : Coherent blocks manager files region
  owned : manager.blockStorage.stashFiles ⊆ owned

theorem Held.rely (hheld : Held blocks region manager owned files)
    (hrely : (blocks.contract mayExit).Rely owned files files') :
    Held blocks region manager owned files' :=
  ⟨hheld.coherent.rely hheld.owned hrely, hheld.owned⟩

/-- It is enough to prove an operation for a session that holds nothing else. -/
theorem ensures_of_stashFiles {A : Type} {program : StorageProgram Hash A}
    {session : A → SigactionVirtualMemoryManager Hash} {post : A → FileSystem Hash → Prop}
    (hensures : (blocks.contract mayExit).ensures program
      (fun result owned' files' => Held blocks region (session result) owned' files' ∧
        post result files') manager.blockStorage.stashFiles files)
    (howned : manager.blockStorage.stashFiles ⊆ owned) :
    (blocks.contract mayExit).ensures program
      (fun result owned' files' => Held blocks region (session result) owned' files' ∧
        post result files') owned files := by
  apply Contract.ensures_mono (Contract.ensures_enlarge hensures howned)
  rintro result larger files' ⟨smaller, hsubset, hheld, hpost⟩
  exact ⟨⟨hheld.coherent, hheld.owned.trans hsubset⟩, hpost⟩

/-! ## Changes of the memory side -/

section Residency

variable {base : VirtualMemoryManagerBase Hash} {block : ℕ} (stashSet : Finset ℕ)

omit [DecidableEq Hash] in
/-- A block leaves memory and the list it was on. -/
theorem Residency.discard (hresidency : manager.Residency region) {toEvict : ℕ}
    {cleanLru dirtyLru : List ℕ} (hbase : manager.base.SameSession base)
    (hshared : Shared cleanLru dirtyLru (manager.presentBlocks.erase toEvict))
    (hclean : ∀ block, block ≠ toEvict → (block ∈ cleanLru ↔ block ∈ manager.cleanLru))
    (hdirty : ∀ block, block ≠ toEvict → (block ∈ dirtyLru ↔ block ∈ manager.dirtyLru)) :
    (SigactionVirtualMemoryManager.discard { manager with base, cleanLru, dirtyLru, stashSet }
      toEvict).Residency region := by
  have hgone : toEvict ∉ cleanLru ∧ toEvict ∉ dirtyLru := by
    have hnot : toEvict ∉ manager.presentBlocks.erase toEvict := Finset.notMem_erase _ _
    rwa [hshared.mem_iff, not_or] at hnot
  constructor
  · exact hshared
  · intro block hblock
    exact (hresidency.resident_lt block (Finset.mem_of_mem_erase hblock)).trans_eq
      hbase.numBlocks.symm
  · intro block
    simp only [SigactionVirtualMemoryManager.discard, Function.update_apply]
    by_cases hsame : block = toEvict
    · simp [hsame, hgone]
    · simp [hsame, hresidency.protection block, hclean block hsame, hdirty block hsame]
  · intro block
    simp only [SigactionVirtualMemoryManager.discard, Function.update_apply, Finset.mem_erase,
      hbase.blockSize]
    by_cases hsame : block = toEvict
    · simp [hsame]
    · simp [hsame, hresidency.memory block]

omit [DecidableEq Hash] in
/-- A clean block that is written to moves to the dirty list. -/
theorem Residency.markDirty (hresidency : manager.Residency region)
    (hclean : block ∈ manager.cleanLru) (hbase : manager.base.SameSession base) :
    (protect { manager.moveToDirty block with base, stashSet } block .write).Residency
      region := by
  constructor
  · exact hresidency.shared.move hclean
  · intro other hother
    exact (hresidency.resident_lt other hother).trans_eq hbase.numBlocks.symm
  · intro other
    simp only [protect, moveToDirty, Function.update_apply]
    by_cases hsame : other = block
    · simp [hsame]
    · simp [hsame, hresidency.protection other]
  · intro other
    simp only [protect, moveToDirty, hbase.blockSize]
    exact hresidency.memory other

omit [DecidableEq Hash] in
/-- A block that was loaded joins one of the lists. -/
theorem Residency.load (hresidency : manager.Residency region)
    (hblock : block < manager.numBlocks) (habsent : block ∉ manager.presentBlocks)
    (isWriteFault : Bool) (hbase : manager.base.SameSession base) :
    (makeResident { manager.mapBlock block (region block) (faultProtection isWriteFault) with
      base, stashSet } block isWriteFault).Residency region := by
  have hlists : block ∉ manager.cleanLru ∧ block ∉ manager.dirtyLru := by
    rwa [hresidency.shared.mem_iff, not_or] at habsent
  have hresident : ∀ other ∈ insert block manager.presentBlocks, other < base.numBlocks := by
    intro other hother
    rw [hbase.numBlocks]
    rcases Finset.mem_insert.mp hother with rfl | hother
    · exact hblock
    · exact hresidency.resident_lt other hother
  have hmemory : ∀ other, Function.update manager.memory block (region block) other =
      if other ∈ insert block manager.presentBlocks then region other
      else List.replicate base.blockSize 0 := by
    intro other
    rw [Function.update_apply, hbase.blockSize]
    by_cases hsame : other = block
    · simp [hsame]
    · simp [hsame, hresidency.memory other]
  cases isWriteFault with
  | true =>
      refine ⟨hresidency.shared.push_dirty habsent, hresident, ?_, hmemory⟩
      intro other
      simp only [makeResident, mapBlock, faultProtection, Function.update_apply, if_true]
      by_cases hsame : other = block
      · simp [hsame]
      · simp [hsame, hresidency.protection other]
  | false =>
      refine ⟨hresidency.shared.push_clean habsent, hresident, ?_, hmemory⟩
      intro other
      simp only [makeResident, mapBlock, faultProtection, Function.update_apply,
        Bool.false_eq_true, if_false]
      by_cases hsame : other = block
      · simp [hsame, hlists.2]
      · simp [hsame, hresidency.protection other]

end Residency

/-! ## Changes of a session -/

/-- The oldest clean block is dropped. -/
theorem Coherent.evictClean (hcoherent : Coherent blocks manager files region) {toEvict : ℕ}
    (hlast : manager.cleanLru.getLast? = some toEvict) :
    Coherent blocks
      (discard { manager with cleanLru := manager.cleanLru.dropLast } toEvict) files region := by
  have hshared := hcoherent.residency.shared
  have hlist := Shared.mem_dropLast_iff (List.nodup_append.mp hshared.nodup).1 hlast
  refine ⟨hcoherent.blockSize, hcoherent.blockSize_pos, hcoherent.limit, ?_, hcoherent.backing⟩
  exact hcoherent.residency.discard _ (SameSession.refl manager.base)
    (hshared.pop_clean hlast) (fun block hne => by simp [hlist, hne]) fun _ _ => Iff.rfl

/-- The invariant of a manager whose storage side was replaced. -/
theorem Coherent.of_base (hcoherent : Coherent blocks manager files region)
    {manager' : SigactionVirtualMemoryManager Hash}
    (hbase : manager.base.SameSession manager'.base) {region' : ℕ → List Byte}
    (hresidency : manager'.Residency region')
    (hbacking : Backing blocks manager'.base manager'.stashSet manager'.dirtyLru files'
      region') : Coherent blocks manager' files' region' where
  blockSize := hbase.blockSize.trans hcoherent.blockSize
  blockSize_pos := hcoherent.blockSize_pos
  limit := hbase.blockSize.le.trans (hcoherent.limit.trans hbase.maxMemSize.ge)
  residency := hresidency
  backing := hbacking

end SigactionVirtualMemoryManager

end Privateer
