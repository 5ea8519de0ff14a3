import Privateer.Storage.BlockStorageSpec
import Privateer.Storage.StashFiles
import Privateer.Version.Denoted
import Privateer.VirtualMemory.Base

/-!
# Where the contents of a block are

`region` gives a content for each block.  A block that is not dirty has it in its
stash file, or, without one, under its name in the blocks directory.  `Backing`
states this for the storage side of a manager; this module shows that stashing,
unstashing, storing and committing blocks keep it.
-/

namespace Privateer

variable {Hash : Type}

/-- The files of the stashed blocks. -/
def BlockStorage.stashFiles (storage : BlockStorage Hash) : Set Resource :=
  {resource | ∃ block uuid, storage.stashBlockIds block = some uuid ∧ resource = .file uuid}

namespace VirtualMemoryManagerBase

/-- The contents of a block outside memory. -/
def Backs (blocks : BlocksDirectory Hash) (base : VirtualMemoryManagerBase Hash)
    (files : FileSystem Hash) (block : ℕ) (content : List Byte) : Prop :=
  match base.blockStorage.stashBlockIds block with
  | some uuid => files.data (.stash base.blockStorage.stashDirectory uuid) = some content
  | none => blocks.Names files (base.blocksIds block) content

/-- The storage side: every block that is not dirty is backed. -/
structure Backing [DecidableEq Hash] (blocks : BlocksDirectory Hash)
    (base : VirtualMemoryManagerBase Hash) (stashSet : Finset ℕ) (dirtyLru : List ℕ)
    (files : FileSystem Hash) (region : ℕ → List Byte) : Prop where
  storage : base.blockStorage.SingleTiered blocks
  stashDirectory : files.directories (.path base.blockStorage.stashDirectory)
  named : blocks.Named files
  stashed_iff : ∀ block, block ∈ stashSet ↔
    ∃ uuid, base.blockStorage.stashBlockIds block = some uuid
  stashed_lt : ∀ block ∈ stashSet, block < base.numBlocks
  stash_injective : ∀ block other uuid,
    base.blockStorage.stashBlockIds block = some uuid →
      base.blockStorage.stashBlockIds other = some uuid → block = other
  allocated : base.blockStorage.stashFiles ⊆ FileSystem.interface.allocated files
  dirty_unstashed : ∀ block ∈ dirtyLru, block ∉ stashSet
  length : ∀ block, (region block).length = blocks.blockSize
  backed : ∀ block < base.numBlocks, block ∉ dirtyLru →
    Backs blocks base files block (region block)

/-- The fields that no operation of a session changes. -/
structure SameSession (base base' : VirtualMemoryManagerBase Hash) : Prop where
  versionMetadataPath : base'.versionMetadataPath = base.versionMetadataPath
  regionMaxCapacity : base'.regionMaxCapacity = base.regionMaxCapacity
  blockSize : base'.blockSize = base.blockSize
  maxMemSize : base'.maxMemSize = base.maxMemSize
  readOnly : base'.readOnly = base.readOnly
  stashDirectory : base'.blockStorage.stashDirectory = base.blockStorage.stashDirectory

theorem SameSession.refl (base : VirtualMemoryManagerBase Hash) : base.SameSession base :=
  ⟨rfl, rfl, rfl, rfl, rfl, rfl⟩

theorem SameSession.trans {first second third : VirtualMemoryManagerBase Hash}
    (hfirst : first.SameSession second) (hsecond : second.SameSession third) :
    first.SameSession third :=
  ⟨hsecond.versionMetadataPath.trans hfirst.versionMetadataPath,
    hsecond.regionMaxCapacity.trans hfirst.regionMaxCapacity,
    hsecond.blockSize.trans hfirst.blockSize,
    hsecond.maxMemSize.trans hfirst.maxMemSize,
    hsecond.readOnly.trans hfirst.readOnly,
    hsecond.stashDirectory.trans hfirst.stashDirectory⟩

theorem SameSession.numBlocks {base base' : VirtualMemoryManagerBase Hash}
    (hsession : base.SameSession base') : base'.numBlocks = base.numBlocks := by
  unfold VirtualMemoryManagerBase.numBlocks
  rw [hsession.regionMaxCapacity, hsession.blockSize]

variable [DecidableEq Hash] {blocks : BlocksDirectory Hash}
variable {base : VirtualMemoryManagerBase Hash} {files files' : FileSystem Hash}
variable {stashSet : Finset ℕ} {dirtyLru dirtyLru' : List ℕ}
variable {region : ℕ → List Byte} {mayExit : Prop} {owned : Set Resource}

/-! ## Steps of other threads -/

theorem Backs.rely {block : ℕ} {content : List Byte} (hnamed : blocks.Named files)
    (hbacks : Backs blocks base files block content)
    (howned : ∀ uuid, base.blockStorage.stashBlockIds block = some uuid → .file uuid ∈ owned)
    (hrely : (blocks.contract mayExit).Rely owned files files') :
    Backs blocks base files' block content := by
  unfold Backs at hbacks ⊢
  cases huuid : base.blockStorage.stashBlockIds block with
  | some uuid =>
      rw [huuid] at hbacks
      exact (hrely.owned _ (howned uuid huuid) _ rfl).trans hbacks
  | none =>
      rw [huuid] at hbacks
      exact hbacks.keep (hrely.tolerated.named hnamed).2

/-- Steps of other threads do not disturb a session that holds its stash files. -/
theorem Backing.rely (hbacking : Backing blocks base stashSet dirtyLru files region)
    (howned : base.blockStorage.stashFiles ⊆ owned)
    (hrely : (blocks.contract mayExit).Rely owned files files') :
    Backing blocks base stashSet dirtyLru files' region where
  storage := hbacking.storage
  stashDirectory := hrely.tolerated.directories _ hbacking.stashDirectory
  named := (hrely.tolerated.named hbacking.named).1
  stashed_iff := hbacking.stashed_iff
  stashed_lt := hbacking.stashed_lt
  stash_injective := hbacking.stash_injective
  allocated := hbacking.allocated.trans hrely.allocated
  dirty_unstashed := hbacking.dirty_unstashed
  length := hbacking.length
  backed := fun block hblock hdirty =>
    (hbacking.backed block hblock hdirty).rely hbacking.named
      (fun uuid huuid => howned ⟨block, uuid, huuid, rfl⟩) hrely

/-! ## What a backing says -/

theorem Backing.stashed (hbacking : Backing blocks base stashSet dirtyLru files region)
    {block uuid : ℕ} (hid : base.blockStorage.stashBlockIds block = some uuid) :
    files.data (.stash base.blockStorage.stashDirectory uuid) = some (region block) := by
  have hmember := (hbacking.stashed_iff block).mpr ⟨uuid, hid⟩
  have hdirty : block ∉ dirtyLru := fun h => hbacking.dirty_unstashed block h hmember
  have hbacks := hbacking.backed block (hbacking.stashed_lt block hmember) hdirty
  rwa [Backs, hid] at hbacks

theorem Backing.stashBlockIds_eq_none
    (hbacking : Backing blocks base stashSet dirtyLru files region) {block : ℕ}
    (hunstashed : block ∉ stashSet) : base.blockStorage.stashBlockIds block = none := by
  rw [Option.eq_none_iff_forall_ne_some]
  exact fun uuid huuid => hunstashed ((hbacking.stashed_iff block).mpr ⟨uuid, huuid⟩)

/-- A block that is neither dirty nor stashed has its contents under its name. -/
theorem Backing.names (hbacking : Backing blocks base stashSet dirtyLru files region)
    {block : ℕ} (hblock : block < base.numBlocks) (hdirty : block ∉ dirtyLru)
    (hunstashed : block ∉ stashSet) :
    blocks.Names files (base.blocksIds block) (region block) := by
  have hbacks := hbacking.backed block hblock hdirty
  rwa [Backs, hbacking.stashBlockIds_eq_none hunstashed] at hbacks

/-- The stash files of the other blocks, when one block gives up its own. -/
theorem Backing.stashFile_mem_diff
    (hbacking : Backing blocks base stashSet dirtyLru files region) {block uuid : ℕ}
    (hid : base.blockStorage.stashBlockIds block = some uuid) {other number : ℕ}
    (hne : other ≠ block) (hother : base.blockStorage.stashBlockIds other = some number) :
    Resource.file number ∈ base.blockStorage.stashFiles \ {.file uuid} := by
  refine ⟨⟨other, number, hother, rfl⟩, ?_⟩
  intro hsame
  cases hsame
  exact hne (hbacking.stash_injective other block uuid hother hid)

theorem Backing.stashFiles_subset
    (hbacking : Backing blocks base stashSet dirtyLru files region) {block uuid : ℕ}
    (hid : base.blockStorage.stashBlockIds block = some uuid) :
    (base.blockStorage.setStashBlockId block none).stashFiles ⊆
      base.blockStorage.stashFiles \ {.file uuid} := by
  rintro _ ⟨other, number, hother, rfl⟩
  rw [BlockStorage.setStashBlockId_apply] at hother
  by_cases hsame : other = block
  · rw [if_pos hsame] at hother
    cases hother
  · rw [if_neg hsame] at hother
    exact hbacking.stashFile_mem_diff hid hsame hother

/-- A backing does not depend on the files of versions. -/
theorem Backing.of_data_eq (hbacking : Backing blocks base stashSet dirtyLru files region)
    (hdirectories : ∀ directory, files.directories directory → files'.directories directory)
    (hdata : files'.data = files.data) (hfresh : files'.fresh = files.fresh) :
    Backing blocks base stashSet dirtyLru files' region := by
  have hrely : (blocks.contract False).Rely base.blockStorage.stashFiles files files' := by
    constructor
    · exact BlocksDirectory.tolerates_of_blocks_eq hdirectories fun _ _ => by rw [hdata]
    · intro resource hresource
      cases resource with
      | file number =>
          change number < files'.fresh
          rw [hfresh]
          exact hresource
      | version path => trivial
    · rintro _ ⟨block, uuid, -, rfl⟩ file -
      rw [hdata]
  exact hbacking.rely subset_rfl hrely

/-! ## Changes of the storage side -/

/-- A dirty block may be written to. -/
theorem Backing.write (hbacking : Backing blocks base stashSet dirtyLru files region)
    {block : ℕ} (hdirty : block ∈ dirtyLru) {content : List Byte}
    (hlength : content.length = blocks.blockSize) :
    Backing blocks base stashSet dirtyLru files (Function.update region block content) := by
  refine ⟨hbacking.storage, hbacking.stashDirectory, hbacking.named, hbacking.stashed_iff,
    hbacking.stashed_lt, hbacking.stash_injective, hbacking.allocated,
    hbacking.dirty_unstashed, ?_, ?_⟩
  · intro other
    by_cases hsame : other = block
    · rw [hsame, Function.update_self, hlength]
    · rw [Function.update_of_ne hsame, hbacking.length other]
  · intro other hother hclean
    have hne : other ≠ block := fun hsame => hclean (hsame ▸ hdirty)
    rw [Function.update_of_ne hne]
    exact hbacking.backed other hother hclean

/-- The storage side does not depend on the path of the version. -/
theorem Backing.redirect (hbacking : Backing blocks base stashSet dirtyLru files region)
    (version : Path) :
    Backing blocks { base with versionMetadataPath := version } stashSet dirtyLru files
      region :=
  ⟨hbacking.storage, hbacking.stashDirectory, hbacking.named, hbacking.stashed_iff,
    hbacking.stashed_lt, hbacking.stash_injective, hbacking.allocated,
    hbacking.dirty_unstashed, hbacking.length, hbacking.backed⟩

/-- A block without a stash file may become dirty. -/
theorem Backing.dirtied (hbacking : Backing blocks base stashSet dirtyLru files region)
    {block : ℕ} (hunstashed : block ∉ stashSet) :
    Backing blocks base stashSet (block :: dirtyLru) files region := by
  refine ⟨hbacking.storage, hbacking.stashDirectory, hbacking.named, hbacking.stashed_iff,
    hbacking.stashed_lt, hbacking.stash_injective, hbacking.allocated, ?_, hbacking.length, ?_⟩
  · intro other hother
    cases hother with
    | head => exact hunstashed
    | tail _ hrest => exact hbacking.dirty_unstashed other hrest
  · exact fun other hother hclean =>
      hbacking.backed other hother fun h => hclean (List.mem_cons_of_mem _ h)

/-- A dirty block that leaves its list is backed by its new stash file. -/
theorem Backing.stash (hbacking : Backing blocks base stashSet dirtyLru files region)
    {toEvict uuid : ℕ} (hblock : toEvict < base.numBlocks)
    (hnew : Resource.file uuid ∉ base.blockStorage.stashFiles)
    (hallocated : .file uuid ∈ FileSystem.interface.allocated files)
    (hdata : files.data (.stash base.blockStorage.stashDirectory uuid) =
      some (region toEvict))
    (hdirty : ∀ block, block ∈ dirtyLru' ↔ block ∈ dirtyLru ∧ block ≠ toEvict) :
    Backing blocks
      { base with blockStorage := base.blockStorage.setStashBlockId toEvict (some uuid) }
      (insert toEvict stashSet) dirtyLru' files region := by
  have hfresh : ∀ block, base.blockStorage.stashBlockIds block ≠ some uuid :=
    fun block huuid => hnew ⟨block, uuid, huuid, rfl⟩
  have hentry : ∀ block number,
      (base.blockStorage.setStashBlockId toEvict (some uuid)).stashBlockIds block = some number →
        (block = toEvict ∧ number = uuid) ∨
          (block ≠ toEvict ∧ base.blockStorage.stashBlockIds block = some number) := by
    intro block number hnumber
    rw [BlockStorage.setStashBlockId_apply] at hnumber
    by_cases hsame : block = toEvict
    · rw [if_pos hsame, Option.some.injEq] at hnumber
      exact .inl ⟨hsame, hnumber.symm⟩
    · rw [if_neg hsame] at hnumber
      exact .inr ⟨hsame, hnumber⟩
  constructor
  · exact hbacking.storage.setStashBlockId _ _
  · exact hbacking.stashDirectory
  · exact hbacking.named
  · intro block
    rw [Finset.mem_insert, hbacking.stashed_iff]
    simp only [BlockStorage.setStashBlockId_apply]
    by_cases hsame : block = toEvict
    · simp [hsame]
    · simp [hsame]
  · intro block hmember
    rcases Finset.mem_insert.mp hmember with rfl | hstashed
    · exact hblock
    · exact hbacking.stashed_lt block hstashed
  · intro block other number hnumber hother
    rcases hentry block number hnumber with ⟨hsame, rfl⟩ | ⟨-, hold⟩
    · rcases hentry other number hother with ⟨hsame', -⟩ | ⟨-, hold'⟩
      · rw [hsame, hsame']
      · exact absurd hold' (hfresh other)
    · rcases hentry other number hother with ⟨-, rfl⟩ | ⟨-, hold'⟩
      · exact absurd hold (hfresh block)
      · exact hbacking.stash_injective block other number hold hold'
  · rintro _ ⟨block, number, hnumber, rfl⟩
    rcases hentry block number hnumber with ⟨-, rfl⟩ | ⟨-, hold⟩
    · exact hallocated
    · exact hbacking.allocated ⟨block, number, hold, rfl⟩
  · intro block hmember
    obtain ⟨hold, hne⟩ := (hdirty block).mp hmember
    rw [Finset.mem_insert, not_or]
    exact ⟨hne, hbacking.dirty_unstashed block hold⟩
  · exact hbacking.length
  · intro block hlt hnot
    unfold Backs
    rw [BlockStorage.setStashBlockId_apply]
    by_cases hsame : block = toEvict
    · rw [if_pos hsame, hsame]
      exact hdata
    · rw [if_neg hsame]
      exact hbacking.backed block hlt fun hmember => hnot ((hdirty block).mpr ⟨hmember, hsame⟩)

/-- A block may lose its stash file once it is dirty or its name stands for its
contents; the other blocks keep theirs. -/
theorem Backing.unstash (hbacking : Backing blocks base stashSet dirtyLru files region)
    {block : ℕ} {blocksIds : ℕ → Hash}
    (hrely : (blocks.contract mayExit).Rely owned files files')
    (howned : ∀ other uuid, other ≠ block →
      base.blockStorage.stashBlockIds other = some uuid → .file uuid ∈ owned)
    (hids : ∀ other, other ≠ block → blocksIds other = base.blocksIds other)
    (hdirty : ∀ other, other ≠ block → (other ∈ dirtyLru' ↔ other ∈ dirtyLru))
    (hblock : block ∉ dirtyLru' → blocks.Names files' (blocksIds block) (region block)) :
    Backing blocks
      { base with
        blockStorage := base.blockStorage.setStashBlockId block none
        blocksIds := blocksIds }
      (stashSet.erase block) dirtyLru' files' region := by
  have hentry : ∀ other uuid,
      (base.blockStorage.setStashBlockId block none).stashBlockIds other = some uuid →
        other ≠ block ∧ base.blockStorage.stashBlockIds other = some uuid := by
    intro other uuid hother
    rw [BlockStorage.setStashBlockId_apply] at hother
    by_cases hsame : other = block
    · rw [if_pos hsame] at hother
      cases hother
    · rw [if_neg hsame] at hother
      exact ⟨hsame, hother⟩
  constructor
  · exact hbacking.storage.setStashBlockId _ _
  · exact hrely.tolerated.directories _ hbacking.stashDirectory
  · exact (hrely.tolerated.named hbacking.named).1
  · intro other
    rw [Finset.mem_erase, hbacking.stashed_iff]
    constructor
    · rintro ⟨hne, uuid, huuid⟩
      exact ⟨uuid, by rw [BlockStorage.setStashBlockId_apply, if_neg hne, huuid]⟩
    · rintro ⟨uuid, huuid⟩
      obtain ⟨hne, huuid⟩ := hentry other uuid huuid
      exact ⟨hne, uuid, huuid⟩
  · exact fun other hother => hbacking.stashed_lt other (Finset.mem_of_mem_erase hother)
  · intro first second uuid hfirst hsecond
    exact hbacking.stash_injective first second uuid (hentry _ _ hfirst).2
      (hentry _ _ hsecond).2
  · rintro _ ⟨other, uuid, hother, rfl⟩
    exact hrely.allocated (hbacking.allocated ⟨other, uuid, (hentry _ _ hother).2, rfl⟩)
  · intro other hother
    rw [Finset.mem_erase, not_and]
    intro hne
    exact hbacking.dirty_unstashed other ((hdirty other hne).mp hother)
  · exact hbacking.length
  · intro other hother hnot
    unfold Backs
    rw [BlockStorage.setStashBlockId_apply]
    by_cases hsame : other = block
    · rw [if_pos hsame]
      exact hsame ▸ hblock (hsame ▸ hnot)
    · rw [if_neg hsame]
      have hclean : other ∉ dirtyLru := fun h => hnot ((hdirty other hsame).mpr h)
      have hbacks := (hbacking.backed other hother hclean).rely hbacking.named
        (fun uuid => howned other uuid hsame) hrely
      unfold Backs at hbacks
      cases huuid : base.blockStorage.stashBlockIds other with
      | some uuid =>
          rw [huuid] at hbacks
          exact hbacks
      | none =>
          rw [huuid] at hbacks
          change blocks.Names files' (blocksIds other) (region other)
          rw [hids other hsame]
          exact hbacks

/-! ## Stashing and unstashing -/

/-- Stashing a dirty block. -/
theorem ensures_stash (hbacking : Backing blocks base stashSet dirtyLru files region)
    {toEvict : ℕ} (hmember : toEvict ∈ dirtyLru) (hblock : toEvict < base.numBlocks)
    (hdirty : ∀ block, block ∈ dirtyLru' ↔ block ∈ dirtyLru ∧ block ≠ toEvict) :
    (blocks.contract mayExit).ensures (base.stash (region toEvict) toEvict)
      (fun stashed owned' files' =>
        Backing blocks stashed (insert toEvict stashSet) dirtyLru' files' region ∧
          stashed.blockStorage.stashFiles ⊆ owned' ∧ base.SameSession stashed ∧
            stashed.blocksIds = base.blocksIds)
      base.blockStorage.stashFiles files := by
  have hunstashed := hbacking.stashBlockIds_eq_none (hbacking.dirty_unstashed toEvict hmember)
  apply Contract.ensures_bind_of (BlockStorage.ensures_stashBlock hbacking.storage
    (hbacking.length toEvict) hunstashed hbacking.stashDirectory hbacking.allocated)
  rintro _ owned' files' ⟨uuid, rfl, hnew, hgained, howned', hallocated, hdata, hrely⟩
    final hfinal
  have hkept := hbacking.rely subset_rfl (hrely.trans (hfinal.anti howned'))
  refine ⟨hkept.stash hblock hnew (hfinal.allocated (hallocated hgained))
    ((hfinal.owned _ hgained _ rfl).trans hdata) hdirty, ?_, ⟨rfl, rfl, rfl, rfl, rfl, rfl⟩, rfl⟩
  rintro _ ⟨block, number, hnumber, rfl⟩
  rw [BlockStorage.setStashBlockId_apply] at hnumber
  by_cases hsame : block = toEvict
  · rw [if_pos hsame, Option.some.injEq] at hnumber
    exact hnumber ▸ hgained
  · rw [if_neg hsame] at hnumber
    exact howned' ⟨block, number, hnumber, rfl⟩

/-- Unstashing a block that becomes dirty. -/
theorem ensures_unstash (hbacking : Backing blocks base stashSet dirtyLru files region)
    {block : ℕ} (hstashed : block ∈ stashSet) :
    (blocks.contract mayExit).ensures (base.unstash block)
      (fun unstashed owned' files' => unstashed = base.forgetStash block ∧
        Backing blocks unstashed (stashSet.erase block) (block :: dirtyLru) files' region ∧
          unstashed.blockStorage.stashFiles ⊆ owned')
      base.blockStorage.stashFiles files := by
  obtain ⟨uuid, hid⟩ := (hbacking.stashed_iff block).mp hstashed
  have hmember : Resource.file uuid ∈ base.blockStorage.stashFiles := ⟨block, uuid, hid, rfl⟩
  apply Contract.ensures_bind_of (BlockStorage.ensures_unstashBlock hid hmember
    (hbacking.stashed hid) hbacking.allocated)
  rintro _ owned' files' ⟨rfl, howned', hrely⟩ final hfinal
  refine ⟨rfl, ?_, (hbacking.stashFiles_subset hid).trans howned'⟩
  refine hbacking.unstash (hrely.trans (hfinal.anti howned'))
    (fun other number => hbacking.stashFile_mem_diff hid) (fun _ _ => rfl) ?_ ?_
  · intro other hne
    rw [List.mem_cons, or_iff_right hne]
  · exact fun hnot => absurd List.mem_cons_self hnot

/-! ## Storing the dirty blocks -/

/-- What the worker of a dirty block leaves behind. -/
def StoredAs (blocks : BlocksDirectory Hash) (region : ℕ → List Byte) (block : ℕ)
    (name : Hash) (files : FileSystem Hash) : Prop :=
  blocks.Named files ∧ blocks.Stored files name (region block)

theorem lasting_storedAs : (blocks.contract mayExit).Lasting (StoredAs blocks region) := by
  intro block name state state' htolerated hstored
  obtain ⟨hnamed, hkeeps⟩ := htolerated.named hstored.1
  exact ⟨hnamed, hstored.2.keep hkeeps⟩

theorem ensures_storeDirty (hsound : blocks.build.Sound)
    (hbacking : Backing blocks base stashSet dirtyLru files region) (block : ℕ) :
    (blocks.contract mayExit).ensures (storeDirty blocks.build base (region block) block)
      (fun name _ => StoredAs blocks region block name) ∅ files := by
  apply Contract.ensures_bind_of (Contract.ensures_keep BlocksDirectory.contract_mutual
    BlocksDirectory.kept_named hbacking.named
    (BlockStorage.ensures_storeBlock hsound hbacking.storage (hbacking.length block) block
      hbacking.named))
  rintro _ owned' files' ⟨⟨rfl, hstored, -⟩, hnamed⟩ final hfinal
  exact lasting_storedAs _ _ _ _ hfinal.tolerated ⟨hnamed, hstored⟩

/-- The workers that store dirty blocks, under any contract that each of them keeps. -/
theorem ensures_storeDirtyBlocks_of
    {contract : Contract (FileSystem.interface : Interface (Call Hash) Reply _ _)}
    (hmutual : contract.Mutual) {build : Build Hash} {memory : ℕ → List Byte}
    {post : ℕ → Hash → FileSystem Hash → Prop} (hlasting : contract.Lasting post)
    (hworker : ∀ block ∈ dirtyLru, contract.ensures (storeDirty build base (memory block) block)
      (fun name _ => post block name) ∅ files) (schedule : List ℕ) :
    contract.ensures (storeDirtyBlocks build base dirtyLru memory schedule)
      (fun stored _ files' => (stored.map Prod.fst).Perm dirtyLru ∧
        ∀ entry ∈ stored, post entry.1 entry.2 files')
      ∅ files := by
  let worker : ℕ → Contract.Worker (Call Hash) Reply ℕ Hash Resource := fun block =>
    ⟨block, storeDirty build base (memory block) block, ∅⟩
  have hpool : contract.Pool post (dirtyLru.map worker) files := by
    constructor
    · intro member hmember
      obtain ⟨block, hblock, rfl⟩ := List.mem_map.mp hmember
      exact hworker block hblock
    · intro member hmember
      obtain ⟨block, -, rfl⟩ := List.mem_map.mp hmember
      exact Set.empty_subset _
    · rw [List.pairwise_map]
      exact List.pairwise_of_forall fun _ _ => Set.empty_disjoint _
  have howned : ∀ member ∈ dirtyLru.map worker, member.owned ⊆ ∅ := by
    intro member hmember
    obtain ⟨block, -, rfl⟩ := List.mem_map.mp hmember
    exact subset_rfl
  have hentries : (dirtyLru.map worker).map Contract.Worker.entry =
      dirtyLru.map fun block => (block, storeDirty build base (memory block) block) := by
    rw [List.map_map]
    rfl
  have hlabels : (dirtyLru.map worker).map Contract.Worker.label = dirtyLru := by
    rw [List.map_map]
    exact List.map_id _
  have hinterleave := Contract.ensures_interleave hmutual hlasting schedule hpool howned
  rw [hentries] at hinterleave
  apply Contract.ensures_mono hinterleave
  rintro stored owned' files' ⟨hperm, hstored⟩
  exact ⟨hlabels ▸ hperm, hstored⟩

/-- Every dirty block is stored, whatever the schedule. -/
theorem ensures_storeDirtyBlocks (hsound : blocks.build.Sound)
    (hbacking : Backing blocks base stashSet dirtyLru files region) {memory : ℕ → List Byte}
    (hmemory : ∀ block ∈ dirtyLru, memory block = region block) (schedule : List ℕ) :
    (blocks.contract mayExit).ensures
      (storeDirtyBlocks blocks.build base dirtyLru memory schedule)
      (fun stored _ files' => (stored.map Prod.fst).Perm dirtyLru ∧
        ∀ entry ∈ stored, StoredAs blocks region entry.1 entry.2 files')
      ∅ files := by
  apply ensures_storeDirtyBlocks_of BlocksDirectory.contract_mutual lasting_storedAs
  intro block hblock
  rw [hmemory block hblock]
  exact ensures_storeDirty hsound hbacking block

/-- What the workers record, whatever the order in which they end. -/
structure Recorded (base recorded : VirtualMemoryManagerBase Hash)
    (stored : List (ℕ × Hash)) : Prop where
  session : base.SameSession recorded
  blocksIds : ∀ block, block ∉ stored.map Prod.fst →
    recorded.blocksIds block = base.blocksIds block
  stashBlockIds : recorded.blockStorage.stashBlockIds = base.blockStorage.stashBlockIds
  singleTiered : ∀ blocks, base.blockStorage.SingleTiered blocks →
    recorded.blockStorage.SingleTiered blocks

omit [DecidableEq Hash] in
theorem recordStored_recorded (base : VirtualMemoryManagerBase Hash) (entry : ℕ × Hash) :
    base.Recorded (base.recordStored entry) [entry] := by
  have hids : ∀ block, block ∉ [entry].map Prod.fst →
      (base.recordStored entry).blocksIds block = base.blocksIds block := fun block hblock =>
    Function.update_of_ne (fun h => hblock (List.mem_singleton.mpr h)) _ _
  cases hnoted : base.blockStorage.stashCommittedBlockIds entry.1 with
  | some name =>
      have hsame : base.blockStorage.noteStored entry.1 = base.blockStorage := by
        simp [BlockStorage.noteStored, hnoted]
      exact ⟨⟨rfl, rfl, rfl, rfl, rfl, congrArg _ hsame⟩, hids, congrArg _ hsame,
        fun _ hsingle => by rwa [recordStored, hsame]⟩
  | none =>
      refine ⟨⟨rfl, rfl, rfl, rfl, rfl, ?_⟩, hids, ?_, fun _ hsingle => ⟨?_, ?_, ?_⟩⟩
      · simp [recordStored, BlockStorage.noteStored, hnoted]
      · simp [recordStored, BlockStorage.noteStored, hnoted]
      · simp [recordStored, BlockStorage.noteStored, hnoted, hsingle.baseDirectory]
      · simp [recordStored, BlockStorage.noteStored, hnoted, hsingle.granularity]
      · simpa [recordStored, BlockStorage.noteStored, hnoted, BlockStorage.isMultiTiered] using
          hsingle.tier

omit [DecidableEq Hash] in
theorem Recorded.trans {first second third : VirtualMemoryManagerBase Hash}
    {stored stored' : List (ℕ × Hash)} (hfirst : first.Recorded second stored)
    (hsecond : second.Recorded third stored') : first.Recorded third (stored ++ stored') where
  session := hfirst.session.trans hsecond.session
  blocksIds := fun block hblock => by
    rw [List.map_append, List.mem_append, not_or] at hblock
    rw [hsecond.blocksIds block hblock.2, hfirst.blocksIds block hblock.1]
  stashBlockIds := hsecond.stashBlockIds.trans hfirst.stashBlockIds
  singleTiered := fun blocks hsingle =>
    hsecond.singleTiered blocks (hfirst.singleTiered blocks hsingle)

omit [DecidableEq Hash] in
theorem foldl_recordStored (base : VirtualMemoryManagerBase Hash) (stored : List (ℕ × Hash)) :
    base.Recorded (stored.foldl recordStored base) stored := by
  induction stored generalizing base with
  | nil => exact ⟨SameSession.refl base, fun _ _ => rfl, rfl, fun _ hsingle => hsingle⟩
  | cons entry rest ih => exact (recordStored_recorded base entry).trans (ih _)

omit [DecidableEq Hash] in
/-- Each block is stored by one worker only, so it keeps the name it got. -/
theorem foldl_recordStored_blocksIds (base : VirtualMemoryManagerBase Hash)
    {stored : List (ℕ × Hash)} (hnodup : (stored.map Prod.fst).Nodup) :
    ∀ entry ∈ stored, (stored.foldl recordStored base).blocksIds entry.1 = entry.2 := by
  induction stored generalizing base with
  | nil => exact fun entry hentry => absurd hentry List.not_mem_nil
  | cons first rest ih =>
      rw [List.map_cons, List.nodup_cons] at hnodup
      intro entry hentry
      rw [List.foldl_cons]
      cases hentry with
      | head =>
          rw [(foldl_recordStored (base.recordStored first) rest).blocksIds _ hnodup.1]
          exact Function.update_self _ _ _
      | tail _ hrest => exact ih _ hnodup.2 entry hrest

/-- Once their names are recorded, the dirty blocks are backed. -/
theorem Backing.recordStored (hbacking : Backing blocks base stashSet dirtyLru files region)
    (hnodup : dirtyLru.Nodup) {stored : List (ℕ × Hash)}
    (hperm : (stored.map Prod.fst).Perm dirtyLru)
    (hstored : ∀ entry ∈ stored, StoredAs blocks region entry.1 entry.2 files) :
    Backing blocks (stored.foldl VirtualMemoryManagerBase.recordStored base) stashSet [] files
      region := by
  have hrecorded := foldl_recordStored base stored
  have hids := foldl_recordStored_blocksIds base (hperm.nodup_iff.mpr hnodup)
  generalize stored.foldl VirtualMemoryManagerBase.recordStored base = recorded at hrecorded hids
  constructor
  · exact hrecorded.singleTiered blocks hbacking.storage
  · rw [hrecorded.session.stashDirectory]
    exact hbacking.stashDirectory
  · exact hbacking.named
  · rw [hrecorded.stashBlockIds]
    exact hbacking.stashed_iff
  · rw [hrecorded.session.numBlocks]
    exact hbacking.stashed_lt
  · rw [hrecorded.stashBlockIds]
    exact hbacking.stash_injective
  · unfold BlockStorage.stashFiles
    rw [hrecorded.stashBlockIds]
    exact hbacking.allocated
  · exact fun block hblock => absurd hblock List.not_mem_nil
  · exact hbacking.length
  · intro block hblock _
    rw [hrecorded.session.numBlocks] at hblock
    unfold Backs
    rw [hrecorded.stashBlockIds, hrecorded.session.stashDirectory]
    by_cases hdirty : block ∈ dirtyLru
    · obtain ⟨entry, hentry, rfl⟩ := List.mem_map.mp (hperm.mem_iff.mpr hdirty)
      rw [hbacking.stashBlockIds_eq_none (hbacking.dirty_unstashed _ hdirty)]
      dsimp only
      rw [hids entry hentry]
      exact .inr (hstored entry hentry).2
    · have hbacks := hbacking.backed block hblock hdirty
      unfold Backs at hbacks
      rw [hrecorded.blocksIds block fun h => hdirty (hperm.mem_iff.mp h)]
      exact hbacks

/-! ## Committing the stashed blocks -/

/-- The base once a stashed block has been committed. -/
def recordCommitted (base : VirtualMemoryManagerBase Hash) (block : ℕ) (name : Hash) :
    VirtualMemoryManagerBase Hash :=
  { base.forgetStash block with blocksIds := Function.update base.blocksIds block name }

/-- A block that was committed is backed by its name. -/
theorem Backing.recordCommitted {block uuid : ℕ} {rest : List ℕ} (hnodup : block ∉ rest)
    (hbacking : Backing blocks base (block :: rest).toFinset [] files region)
    (hid : base.blockStorage.stashBlockIds block = some uuid)
    (hstored : blocks.Stored files' (blocks.build.computeHash (region block)) (region block))
    (hrely : (blocks.contract mayExit).Rely (base.blockStorage.stashFiles \ {.file uuid}) files
      files') :
    Backing blocks (base.recordCommitted block (blocks.build.computeHash (region block)))
      rest.toFinset [] files' region := by
  have herase : (block :: rest).toFinset.erase block = rest.toFinset := by
    rw [List.toFinset_cons, Finset.erase_insert (by simpa using hnodup)]
  have hnames : ∀ name, name = blocks.build.computeHash (region block) →
      blocks.Names files' (Function.update base.blocksIds block name block)
        (region block) := by
    rintro _ rfl
    rw [Function.update_self]
    exact .inr hstored
  have hkept := hbacking.unstash hrely (fun other number => hbacking.stashFile_mem_diff hid)
    (fun other hne => Function.update_of_ne hne
      (blocks.build.computeHash (region block)) base.blocksIds)
    (fun _ _ => Iff.rfl) fun _ => hnames _ rfl
  rw [herase] at hkept
  exact hkept

/-- The workers that commit stash files, in any order: each block they commit is
backed by its name. -/
theorem ensures_commitStashed (hsound : blocks.build.Sound) {order : List ℕ}
    (hnodup : order.Nodup) (hbacking : Backing blocks base order.toFinset [] files region) :
    (blocks.contract mayExit).ensures (commitStashed blocks.build order base)
      (fun committed owned' files' => Backing blocks committed ∅ [] files' region ∧
        committed.blockStorage.stashFiles ⊆ owned' ∧ base.SameSession committed)
      base.blockStorage.stashFiles files := by
  induction order generalizing base files with
  | nil =>
      intro final hfinal
      exact ⟨hbacking.rely subset_rfl hfinal, subset_rfl, SameSession.refl base⟩
  | cons block rest ih =>
      rw [List.nodup_cons] at hnodup
      obtain ⟨uuid, hid⟩ : ∃ uuid, base.blockStorage.stashBlockIds block = some uuid :=
        (hbacking.stashed_iff block).mp (by simp)
      have hmember : Resource.file uuid ∈ base.blockStorage.stashFiles := ⟨block, uuid, hid, rfl⟩
      apply Contract.ensures_bind_of (BlockStorage.ensures_commitStashBlock hsound
        hbacking.storage hid hmember (hbacking.stashed hid) (hbacking.length block)
        hbacking.allocated hbacking.named)
      rintro _ owned' files' ⟨rfl, hstored, hsubset, hrely⟩
      have hkept := hbacking.recordCommitted hnodup.1 hid hstored hrely
      have hfirst : base.SameSession
          (base.recordCommitted block (blocks.build.computeHash (region block))) :=
        ⟨rfl, rfl, rfl, rfl, rfl, rfl⟩
      apply Contract.ensures_mono (Contract.ensures_enlarge (ih hnodup.2 hkept)
        ((hbacking.stashFiles_subset hid).trans hsubset))
      rintro committed owned'' files'' ⟨smaller, hsmaller, hcommitted, howned, hsession⟩
      exact ⟨hcommitted, howned.trans hsmaller, hfirst.trans hsession⟩

/-! ## Both parts of a commit -/

/-- All stashed blocks are committed. -/
theorem toFinset_arrange_stashVector
    (hbacking : Backing blocks base stashSet dirtyLru files region) (committing : List ℕ) :
    (Program.arrange committing (base.stashVector stashSet)).toFinset = stashSet := by
  ext block
  rw [List.mem_toFinset, (Program.arrange_perm _ _).mem_iff, stashVector, List.mem_filter,
    List.mem_range, decide_eq_true_iff]
  exact and_iff_right_of_imp (hbacking.stashed_lt block)

/-- After a commit no block is dirty or stashed, whatever the schedule. -/
theorem ensures_commitBlocks (hsound : blocks.build.Sound)
    (hbacking : Backing blocks base stashSet dirtyLru files region) (hnodup : dirtyLru.Nodup)
    {memory : ℕ → List Byte} (hmemory : ∀ block ∈ dirtyLru, memory block = region block)
    (schedule : MsyncSchedule) :
    (blocks.contract mayExit).ensures
      (commitBlocks blocks.build base dirtyLru memory stashSet schedule)
      (fun committed owned' files' => (committed.1.map Prod.fst).Perm dirtyLru ∧
        Backing blocks committed.2 ∅ [] files' region ∧
          committed.2.blockStorage.stashFiles ⊆ owned' ∧ base.SameSession committed.2)
      base.blockStorage.stashFiles files := by
  apply Contract.ensures_bind_of (Contract.ensures_frame_all BlocksDirectory.contract_mutual
    hbacking.allocated (ensures_storeDirtyBlocks hsound hbacking hmemory schedule.storing))
  rintro stored _ files₁ ⟨mine, rfl, -, ⟨hperm, hstored⟩, hrely⟩
  have hkept := (hbacking.rely subset_rfl hrely).recordStored hnodup hperm hstored
  have hrecorded := foldl_recordStored base stored
  generalize stored.foldl VirtualMemoryManagerBase.recordStored base = recorded
    at hkept hrecorded ⊢
  let order := Program.arrange schedule.committing (recorded.stashVector stashSet)
  have horder : order.Perm _ := Program.arrange_perm _ _
  have hset : order.toFinset = stashSet := toFinset_arrange_stashVector hkept _
  have hsubset : recorded.blockStorage.stashFiles ⊆ mine ∪ base.blockStorage.stashFiles := by
    unfold BlockStorage.stashFiles
    rw [hrecorded.stashBlockIds]
    exact Set.subset_union_right
  rw [← hset] at hkept
  apply Contract.ensures_bind_of (Contract.ensures_enlarge (ensures_commitStashed hsound
    (horder.nodup_iff.mpr (List.nodup_range.filter _)) hkept) hsubset)
  rintro committed owned' files' ⟨smaller, hsmaller, hcommitted, howned, hsession⟩ final hfinal
  exact ⟨hperm, hcommitted.rely (howned.trans hsmaller) hfinal, howned.trans hsmaller,
    hrecorded.session.trans hsession⟩

/-! ## Writing the table -/

theorem occupiedBlocks_le {presentBlocks : Finset ℕ} {bound : ℕ}
    (hbound : ∀ block ∈ presentBlocks, block < bound) : occupiedBlocks presentBlocks ≤ bound := by
  unfold occupiedBlocks
  split_ifs with hempty
  · exact Nat.zero_le bound
  · obtain ⟨block, hblock, hsup⟩ := Finset.exists_mem_eq_sup presentBlocks
      (Finset.nonempty_iff_ne_empty.mpr hempty) id
    rw [hsup]
    exact hbound block hblock

theorem lt_occupiedBlocks {presentBlocks : Finset ℕ} {block : ℕ} (hblock : block ∈ presentBlocks) :
    block < occupiedBlocks presentBlocks := by
  rw [occupiedBlocks, if_neg (Finset.ne_empty_of_mem hblock)]
  have hle : id block ≤ presentBlocks.sup id := Finset.le_sup hblock
  exact Nat.lt_succ_of_le hle

omit [DecidableEq Hash] in
/-- An entry of a table whose start was written over. -/
theorem getD_overwrite_names (blocksIds : ℕ → Hash) (count : ℕ) (entries : List Hash) (block : ℕ)
    (default : Hash) :
    (overwrite ((List.range count).map blocksIds) entries).getD block default =
      if block < count then blocksIds block else entries.getD block default := by
  rw [getD_overwrite, List.length_map, List.length_range]
  split_ifs with hblock
  · simp [List.getD_eq_getElem?_getD, hblock]
  · rfl

/-- `update_metadata` overwrites the start of the table. -/
theorem run_updateMetadata (presentBlocks : Finset ℕ) {entries : List Hash}
    (hmetadata : files.metadata base.versionMetadataPath = some entries) :
    (base.updateMetadata presentBlocks).run FileSystem.answer files =
      (.returned (), files.setMetadata base.versionMetadataPath
        (some (overwrite ((List.range (occupiedBlocks presentBlocks)).map base.blocksIds)
          entries))) := by
  unfold updateMetadata
  by_cases hempty : presentBlocks = ∅
  · have hoccupied : occupiedBlocks presentBlocks = 0 := by rw [occupiedBlocks, if_pos hempty]
    rw [if_pos hempty, hoccupied]
    change (Outcome.returned (), files) = _
    rw [FileSystem.setMetadata_eq_self]
    exact hmetadata
  · simp [hempty, hmetadata, FileSystem.answer, BlockStorage.closeOrExit]

/-! ## Possible results of a commit -/

omit [DecidableEq Hash] in
/-- A commit of stash files finds each of them and takes it off the table. -/
theorem commitStashed_returns {build : Build Hash}
    {base committed : VirtualMemoryManagerBase Hash} {order : List ℕ}
    (hreturns : (commitStashed build order base).Returns committed) :
    base.SameSession committed ∧ ∀ block, committed.blockStorage.stashBlockIds block =
      if block ∈ order then none else base.blockStorage.stashBlockIds block := by
  induction order generalizing base with
  | nil =>
      cases hreturns
      exact ⟨SameSession.refl _, fun _ => by simp⟩
  | cons first rest ih =>
      obtain ⟨⟨result, storage⟩, hcommit, hrest⟩ := Program.returns_bind.mp hreturns
      cases result with
      | none => exact hrest.elim
      | some name =>
          obtain ⟨-, rfl⟩ := BlockStorage.commitStashBlock_returns hcommit
          obtain ⟨hsession, hids⟩ := ih hrest
          have hstep : base.SameSession
              { base with
                blockStorage := base.blockStorage.setStashBlockId first none
                blocksIds := Function.update base.blocksIds first name } :=
            ⟨rfl, rfl, rfl, rfl, rfl, rfl⟩
          refine ⟨hstep.trans hsession, fun block => ?_⟩
          rw [hids, BlockStorage.setStashBlockId_apply]
          by_cases hlater : block ∈ rest
          · simp [hlater]
          · by_cases hfirst : block = first
            · simp [hfirst]
            · simp [hlater, hfirst]

omit [DecidableEq Hash] in
/-- A commit keeps the fields of its session. -/
theorem SameSession.commitBlocks {build : Build Hash} {memory : ℕ → List Byte}
    {schedule : MsyncSchedule} {committed : List (ℕ × Hash) × VirtualMemoryManagerBase Hash}
    (hreturns : (commitBlocks build base dirtyLru memory stashSet schedule).Returns committed) :
    base.SameSession committed.2 := by
  obtain ⟨stored, -, hrest⟩ := Program.returns_bind.mp hreturns
  obtain ⟨last, hstash, hlast⟩ := Program.returns_bind.mp hrest
  cases hlast
  exact (foldl_recordStored base stored).session.trans (commitStashed_returns hstash).1

end VirtualMemoryManagerBase

end Privateer
