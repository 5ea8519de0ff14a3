import Privateer.Storage.CommitEffects
import Privateer.VirtualMemory.Backing

/-!
# The order of the blocks of a commit

A commit stores the dirty blocks in any interleaving and commits the stashed blocks in any
order.  Which files it leaves and which names it records depends on the contents of the
blocks alone.
-/

namespace Privateer

namespace VirtualMemoryManagerBase

variable {Hash : Type} [DecidableEq Hash] {blocks : BlocksDirectory Hash}
variable {base : VirtualMemoryManagerBase Hash} {files files' : FileSystem Hash}
variable {stashSet : Finset ℕ} {dirtyLru : List ℕ} {region : ℕ → List Byte}

omit [DecidableEq Hash] in
/-- The names after the given blocks were committed. -/
def namesAfter (blocks : BlocksDirectory Hash) (base : VirtualMemoryManagerBase Hash)
    (region : ℕ → List Byte) (committed : Finset ℕ) : ℕ → Hash :=
  fun block =>
    if block ∈ committed then blocks.build.computeHash (region block) else base.blocksIds block

omit [DecidableEq Hash] in
/-- Some blocks are committed, and then some more. -/
theorem namesAfter_union {between : VirtualMemoryManagerBase Hash} {first : Finset ℕ}
    (hfirst : between.blocksIds = base.namesAfter blocks region first) (second : Finset ℕ) :
    between.namesAfter blocks region second =
      base.namesAfter blocks region (first ∪ second) := by
  funext block
  unfold namesAfter
  rw [hfirst, namesAfter]
  by_cases hsecond : block ∈ second
  · rw [if_pos hsecond, if_pos (Finset.mem_union_right _ hsecond)]
  · simp only [if_neg hsecond, Finset.mem_union, or_iff_left hsecond]

/-! ## Dirty blocks -/

/-- Storing the dirty blocks settles their contents. -/
theorem storeDirtyBlocks_settles (hsound : blocks.build.Sound)
    (hbacking : Backing blocks base stashSet dirtyLru files region) {memory : ℕ → List Byte}
    (hmemory : ∀ block ∈ dirtyLru, memory block = region block) {schedule : List ℕ}
    {stored : List (ℕ × Hash)}
    (hrun : (storeDirtyBlocks blocks.build base dirtyLru memory schedule).run FileSystem.answer
      files = (.returned stored, files')) :
    Settles blocks (region '' dirtyLru.toFinset) ∅ base.blockStorage.stashDirectory
        files files' ∧
      (stored.map Prod.fst).Perm dirtyLru ∧
        ∀ entry ∈ stored, StoredAs blocks region entry.1 entry.2 files' := by
  obtain ⟨_, _, hstores, ⟨_, hperm, hstored⟩, -⟩ := BlocksDirectory.run_of_ensures
    (ensures_storeDirtyBlocks hsound hbacking hmemory schedule)
  cases hstores.symm.trans hrun
  refine ⟨⟨?_, fun _ huuid => huuid.elim, ?_⟩, hperm, hstored⟩
  · rintro _ ⟨block, hblock, rfl⟩
    have hdirty : block ∈ dirtyLru := List.mem_toFinset.mp hblock
    obtain ⟨entry, hentry, rfl⟩ := List.mem_map.mp (hperm.mem_iff.mpr hdirty)
    have hnamed := (hstored entry hentry).2
    rwa [hnamed.hash]
  · intro file hlasts hblocks _
    apply data_run_of_leaves hlasts _ hrun
    apply Program.callsOnly_interleave
    intro worker hworker
    obtain ⟨block, hblock, rfl⟩ := List.mem_map.mp hworker
    have hleaves : (BlockStorage.storeBlock blocks.build base.blockStorage (memory block) true
        block).CallsOnly (Call.Leaves file) := by
      apply BlockStorage.leavesOthers_storeBlock hbacking.storage hlasts
      rw [hmemory block hblock]
      exact hblocks _ ⟨block, List.mem_toFinset.mpr hblock, rfl⟩
    apply hleaves.bind
    intro name
    cases name with
    | none => trivial
    | some name => trivial

omit [DecidableEq Hash] in
/-- The workers record the names of the contents. -/
theorem foldl_recordStored_names {stored : List (ℕ × Hash)} (hnodup : dirtyLru.Nodup)
    (hperm : (stored.map Prod.fst).Perm dirtyLru)
    (hstored : ∀ entry ∈ stored, StoredAs blocks region entry.1 entry.2 files) :
    (stored.foldl recordStored base).blocksIds =
      base.namesAfter blocks region dirtyLru.toFinset := by
  funext block
  unfold namesAfter
  by_cases hdirty : block ∈ dirtyLru
  · obtain ⟨entry, hentry, rfl⟩ := List.mem_map.mp (hperm.mem_iff.mpr hdirty)
    rw [foldl_recordStored_blocksIds base (hperm.nodup_iff.mpr hnodup) entry hentry,
      if_pos (List.mem_toFinset.mpr hdirty), (hstored entry hentry).2.hash]
  · rw [(foldl_recordStored base stored).blocksIds block fun hmem =>
      hdirty (hperm.mem_iff.mp hmem), if_neg fun hmem => hdirty (List.mem_toFinset.mp hmem)]

/-! ## Stashed blocks -/

omit [DecidableEq Hash] in
theorem namesAfter_recordCommitted (block : ℕ) (committed : Finset ℕ) :
    (base.recordCommitted block (blocks.build.computeHash (region block))).namesAfter blocks
      region committed = base.namesAfter blocks region (insert block committed) := by
  have hone : (base.recordCommitted block (blocks.build.computeHash (region block))).blocksIds =
      base.namesAfter blocks region {block} := by
    funext other
    unfold namesAfter
    by_cases hsame : other = block
    · rw [hsame, if_pos (Finset.mem_singleton_self block)]
      exact Function.update_self _ _ _
    · rw [if_neg (by simpa using hsame)]
      exact Function.update_of_ne hsame _ _
  exact namesAfter_union hone committed

/-- The stash files of some blocks. -/
def stashNumbers (base : VirtualMemoryManagerBase Hash) (committed : Finset ℕ) : Set ℕ :=
  {uuid | ∃ block ∈ committed, base.blockStorage.stashBlockIds block = some uuid}

omit [DecidableEq Hash] in
theorem stashNumbers_insert {block uuid : ℕ} {committed : Finset ℕ} {name : Hash}
    (hblock : block ∉ committed) (hid : base.blockStorage.stashBlockIds block = some uuid) :
    base.stashNumbers (insert block committed) =
      {uuid} ∪ (base.recordCommitted block name).stashNumbers committed := by
  have hids : ∀ other ∈ committed,
      (base.recordCommitted block name).blockStorage.stashBlockIds other =
        base.blockStorage.stashBlockIds other := by
    intro other hother
    have hne : other ≠ block := fun hsame => hblock (hsame ▸ hother)
    exact Function.update_of_ne hne _ _
  ext number
  constructor
  · rintro ⟨other, hother, hnumber⟩
    rcases Finset.mem_insert.mp hother with rfl | hother
    · exact .inl (Option.some.inj (hnumber.symm.trans hid))
    · exact .inr ⟨other, hother, (hids other hother).trans hnumber⟩
  · rintro (rfl | ⟨other, hother, hnumber⟩)
    · exact ⟨block, Finset.mem_insert_self _ _, hid⟩
    · exact ⟨other, Finset.mem_insert_of_mem hother, (hids other hother).symm.trans hnumber⟩

/-- Committing the stashed blocks in any order settles their contents. -/
theorem commitStashed_settles (hsound : blocks.build.Sound) {order : List ℕ}
    (hnodup : order.Nodup) (hbacking : Backing blocks base order.toFinset [] files region)
    {committed : VirtualMemoryManagerBase Hash}
    (hrun : (commitStashed blocks.build order base).run FileSystem.answer files =
      (.returned committed, files')) :
    Settles blocks (region '' order.toFinset) (base.stashNumbers order.toFinset)
        base.blockStorage.stashDirectory files files' ∧
      committed.blocksIds = base.namesAfter blocks region order.toFinset := by
  induction order generalizing base files with
  | nil =>
      cases hrun
      have hnone : committed.stashNumbers ([] : List ℕ).toFinset = ∅ := by
        simp [stashNumbers]
      rw [hnone, List.toFinset_nil, Finset.coe_empty, Set.image_empty]
      exact ⟨.refl _, rfl⟩
  | cons block rest ih =>
      rw [List.nodup_cons] at hnodup
      have hrest : block ∉ rest.toFinset := fun hmem => hnodup.1 (List.mem_toFinset.mp hmem)
      obtain ⟨uuid, hid⟩ : ∃ uuid, base.blockStorage.stashBlockIds block = some uuid :=
        (hbacking.stashed_iff block).mp (by simp)
      have hmember : Resource.file uuid ∈ base.blockStorage.stashFiles := ⟨block, uuid, hid, rfl⟩
      obtain ⟨result, between, hcommit, hlater⟩ := Program.run_bind_returned hrun
      have hfirst := BlockStorage.commitStashBlock_settles hsound hbacking.storage hid
        (hbacking.stashed hid) (hbacking.length block) (hbacking.allocated hmember)
        hbacking.named hcommit
      obtain ⟨_, _, hcommitted, ⟨_, rfl, hstored, -, hrely⟩, -⟩ :=
        BlocksDirectory.run_of_ensures (BlockStorage.ensures_commitStashBlock hsound
          hbacking.storage hid hmember (hbacking.stashed hid) (hbacking.length block)
          hbacking.allocated hbacking.named)
      cases hcommitted.symm.trans hcommit
      have hkept := hbacking.recordCommitted hnodup.1 hid hstored hrely
      obtain ⟨hsecond, hids⟩ := ih hnodup.2 hkept hlater
      rw [List.toFinset_cons, stashNumbers_insert hrest hid, Finset.coe_insert,
        Set.image_insert_eq, Set.insert_eq]
      exact ⟨hfirst.trans hsound hsecond, hids.trans (namesAfter_recordCommitted _ _)⟩

/-! ## Both parts -/

/-- A commit settles the contents of the dirty and of the stashed blocks, whatever the
schedule. -/
theorem commitBlocks_settles (hsound : blocks.build.Sound)
    (hbacking : Backing blocks base stashSet dirtyLru files region) (hnodup : dirtyLru.Nodup)
    {memory : ℕ → List Byte} (hmemory : ∀ block ∈ dirtyLru, memory block = region block)
    {schedule : MsyncSchedule} {committed : List (ℕ × Hash) × VirtualMemoryManagerBase Hash}
    (hrun : (commitBlocks blocks.build base dirtyLru memory stashSet schedule).run
      FileSystem.answer files = (.returned committed, files')) :
    Settles blocks (region '' (dirtyLru.toFinset ∪ stashSet : Finset ℕ))
        (base.stashNumbers stashSet) base.blockStorage.stashDirectory files files' ∧
      committed.2.blocksIds = base.namesAfter blocks region (dirtyLru.toFinset ∪ stashSet) := by
  obtain ⟨stored, between, hstores, hrest⟩ := Program.run_bind_returned hrun
  obtain ⟨last, final, hcommits, hlast⟩ := Program.run_bind_returned hrest
  cases hlast
  obtain ⟨hfirst, hperm, hstored⟩ := storeDirtyBlocks_settles hsound hbacking hmemory hstores
  obtain ⟨_, _, hstores', ⟨_, mine, rfl, -, -, hrely⟩, -⟩ :=
    BlocksDirectory.run_of_ensures (Contract.ensures_frame_all BlocksDirectory.contract_mutual
      hbacking.allocated (ensures_storeDirtyBlocks hsound hbacking hmemory schedule.storing))
  cases hstores'.symm.trans hstores
  have hkept := (hbacking.rely subset_rfl hrely).recordStored hnodup hperm hstored
  have hrecorded := foldl_recordStored base stored
  have hnames : (stored.foldl VirtualMemoryManagerBase.recordStored base).blocksIds =
      base.namesAfter blocks region dirtyLru.toFinset :=
    foldl_recordStored_names hnodup hperm hstored
  generalize stored.foldl VirtualMemoryManagerBase.recordStored base = recorded
    at hkept hrecorded hnames hcommits
  have horder := toFinset_arrange_stashVector hkept schedule.committing
  rw [← horder] at hkept
  have hdistinct : (Program.arrange schedule.committing (recorded.stashVector stashSet)).Nodup :=
    (Program.arrange_perm _ _).nodup_iff.mpr (List.nodup_range.filter _)
  obtain ⟨hsecond, hids⟩ := commitStashed_settles hsound hdistinct hkept hcommits
  rw [horder] at hsecond hids
  have hnumbers : recorded.stashNumbers stashSet = base.stashNumbers stashSet := by
    unfold stashNumbers
    rw [hrecorded.stashBlockIds]
  rw [hnumbers, hrecorded.session.stashDirectory] at hsecond
  refine ⟨?_, hids.trans (namesAfter_union hnames stashSet)⟩
  rw [Finset.coe_union, Set.image_union, ← Set.empty_union (base.stashNumbers stashSet)]
  exact hfirst.trans hsound hsecond

end VirtualMemoryManagerBase

end Privateer
