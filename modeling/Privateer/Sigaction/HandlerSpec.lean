import Privateer.Sigaction.Coherence

/-!
# The fault handler

The handler of a fault that the protections do not allow keeps the session
coherent with the same region, and afterwards the access is allowed.  It
terminates the process only on a write to a read-only region, or, in the build
with compression, on a block whose compressed file is larger than the block.
-/

namespace Privateer

namespace SigactionVirtualMemoryManager

open FileSystem (ensures_query)
open BlockStorage (ensures_closeOrExit stored_of_rely)
open VirtualMemoryManagerBase (Backing SameSession ensures_stash ensures_unstash)

variable {Hash : Type} [DecidableEq Hash] {blocks : BlocksDirectory Hash}
variable {manager : SigactionVirtualMemoryManager Hash} {files files' : FileSystem Hash}
variable {region : ℕ → List Byte} {mayExit : Prop} {owned : Set Resource}

/-! ## Eviction -/

theorem Coherent.exists_resident (hcoherent : Coherent blocks manager files region)
    (hfull : manager.presentBlocks.card * manager.blockSize ≥ manager.maxMemSize)
    (hclean : manager.cleanLru.getLast? = none) :
    ∃ toEvict, manager.dirtyLru.getLast? = some toEvict := by
  have hpos : 0 < manager.blockSize := by
    rw [hcoherent.blockSize]
    exact hcoherent.blockSize_pos
  have hcard : manager.presentBlocks.card ≠ 0 := by
    intro hzero
    rw [hzero, Nat.zero_mul] at hfull
    have hlimit := hcoherent.limit
    omega
  obtain ⟨block, hblock⟩ := Finset.card_ne_zero.mp hcard
  have hlists := (hcoherent.residency.shared.mem_iff block).mp hblock
  rw [List.getLast?_eq_none_iff.mp hclean] at hlists
  have hdirty : manager.dirtyLru ≠ [] :=
    List.ne_nil_of_mem (hlists.resolve_left List.not_mem_nil)
  exact ⟨_, List.getLast?_eq_some_getLast hdirty⟩

/-- Eviction keeps the session coherent and makes no block resident. -/
theorem ensures_evictIfNeeded (hheld : Held blocks region manager owned files) :
    (blocks.contract mayExit).ensures (evictIfNeeded manager)
      (fun room owned' files' => Held blocks region room owned' files' ∧
        (manager.base.SameSession room.base ∧ room.presentBlocks ⊆ manager.presentBlocks))
      owned files := by
  have hcoherent := hheld.coherent
  have hshared := hcoherent.residency.shared
  refine ensures_of_stashFiles ?_ hheld.owned
  unfold evictIfNeeded
  split_ifs with hfull
  · cases hclean : manager.cleanLru.getLast? with
    | some toEvict =>
        intro files' hrely
        have hevicted := (hcoherent.rely subset_rfl hrely).evictClean hclean
        exact ⟨⟨hevicted, subset_rfl⟩, SameSession.refl manager.base, Finset.erase_subset _ _⟩
    | none =>
        obtain ⟨toEvict, hlast⟩ := hcoherent.exists_resident hfull hclean
        have hmember : toEvict ∈ manager.dirtyLru := List.mem_of_getLast? hlast
        have hresident : toEvict ∈ manager.presentBlocks :=
          (hshared.mem_iff toEvict).mpr (.inr hmember)
        have hmemory : manager.memory toEvict = region toEvict := by
          rw [hcoherent.residency.memory, if_pos hresident]
        have hlist := Shared.mem_dropLast_iff (List.nodup_append.mp hshared.nodup).2.1 hlast
        simp only [hlast, hmemory]
        apply Contract.ensures_bind_of (ensures_stash hcoherent.backing hmember
          (hcoherent.residency.resident_lt toEvict hresident) hlist)
        rintro stashed owned' files' ⟨hbacking, howned', hsession, -⟩ final hfinal
        have hresidency := hcoherent.residency.discard (insert toEvict manager.stashSet)
          hsession (hshared.pop_dirty hlast) (fun _ _ => Iff.rfl)
          fun block hne => by simp [hlist, hne]
        exact ⟨⟨hcoherent.of_base hsession hresidency (hbacking.rely howned' hfinal), howned'⟩,
          hsession, Finset.erase_subset _ _⟩
  · intro files' hrely
    exact ⟨⟨hcoherent.rely subset_rfl hrely, subset_rfl⟩, SameSession.refl manager.base,
      subset_rfl⟩

/-! ## Loading -/

/-- A stash file is read as it is, in both builds. -/
theorem ensures_readBacking_stash {file : DataFile Hash} {uuid : ℕ}
    (hdrawn : file.drawn = some uuid) (hmember : .file uuid ∈ owned) {content : List Byte}
    {blockSize : ℕ} (hdata : files.data file = some content)
    (hlength : content.length = blockSize) :
    (blocks.contract mayExit).ensures (readBacking blocks.build blockSize file true)
      (fun buffer owned' files' => buffer = content ∧ owned' = owned ∧
        (blocks.contract mayExit).Rely owned files files')
      owned files := by
  unfold readBacking
  simp only [Program.request_bind, Bool.not_true, Bool.and_false, Bool.false_eq_true, if_false]
  apply ensures_query (fun _ => rfl) fun files => files.answer_openFile_snd file
  intro before hbefore
  have hbeforeData := (hbefore.owned _ hmember _ hdrawn).trans hdata
  simp only [FileSystem.answer, hbeforeData, if_true]
  apply ensures_query (fun _ => rfl) (fun _ => rfl)
  intro middle hmiddle
  have hmiddleData := (hmiddle.owned _ hmember _ hdrawn).trans hbeforeData
  simp only [FileSystem.answer, hmiddleData, Option.map_some]
  apply ensures_closeOrExit
  intro final hfinal
  refine ⟨?_, rfl, (hbefore.trans hmiddle).trans hfinal⟩
  rw [List.take_of_length_le hlength.le, resize_of_length_eq 0 hlength]

/-- A named block is read and decoded. -/
theorem ensures_readBacking_named (hsound : blocks.build.Sound)
    (hexit : blocks.build.useCompression = true → mayExit) {blockSize : ℕ}
    (hblockSize : blockSize = blocks.blockSize) (hnamed : blocks.Named files)
    {name : Hash} {content : List Byte} (hstored : blocks.Stored files name content) :
    (blocks.contract mayExit).ensures
      (readBacking blocks.build blockSize (blocks.blockFile name) false)
      (fun buffer owned' files' => buffer = content ∧ owned' = owned ∧
        (blocks.contract mayExit).Rely owned files files')
      owned files := by
  subst hblockSize
  unfold readBacking
  simp only [Program.request_bind, Bool.not_false, Bool.and_true]
  apply ensures_query (fun _ => rfl) fun files => files.answer_openFile_snd _
  intro before hbefore
  have hbeforeNamed := BlockStorage.named_of_rely hnamed hbefore
  have hbeforeStored := stored_of_rely hnamed hbefore hstored
  simp only [FileSystem.answer, hbeforeStored.file, if_true]
  cases hcompression : blocks.build.useCompression with
  | true =>
      simp only [if_true]
      apply ensures_query (fun _ => rfl) (fun _ => rfl)
      intro middle hmiddle
      have hmiddleNamed := BlockStorage.named_of_rely hbeforeNamed hmiddle
      have hmiddleStored := stored_of_rely hbeforeNamed hmiddle hbeforeStored
      simp only [FileSystem.answer, hmiddleStored.file, Option.map_some]
      split_ifs with hlarge
      · exact hexit hcompression
      · apply ensures_query (fun _ => rfl) (fun _ => rfl)
        intro last hlast
        have hlastStored := stored_of_rely hmiddleNamed hlast hmiddleStored
        simp only [FileSystem.answer, hlastStored.file, Option.map_some, List.take_length]
        rw [BlocksDirectory.decodeBlock_encode hsound hstored.length fun _ => Nat.le_of_not_lt hlarge]
        apply ensures_closeOrExit
        intro final hfinal
        exact ⟨rfl, rfl, ((hbefore.trans hmiddle).trans hlast).trans hfinal⟩
  | false =>
      have hencode : blocks.build.encode content = content := by
        rw [Build.encode, hcompression]
        rfl
      simp only [Bool.false_eq_true, if_false]
      apply ensures_query (fun _ => rfl) (fun _ => rfl)
      intro middle hmiddle
      have hmiddleStored := stored_of_rely hbeforeNamed hmiddle hbeforeStored
      simp only [FileSystem.answer, hmiddleStored.file, hencode, Option.map_some]
      apply ensures_closeOrExit
      intro final hfinal
      refine ⟨?_, rfl, (hbefore.trans hmiddle).trans hfinal⟩
      rw [List.take_of_length_le hstored.length.le, resize_of_length_eq 0 hstored.length]

/-! ## The handler -/

/-- After a handled fault the block is resident and allows the access. -/
structure Handled (manager handled : SigactionVirtualMemoryManager Hash) (block : ℕ)
    (isWriteFault : Bool) : Prop where
  session : manager.base.SameSession handled.base
  resident : block ∈ handled.presentBlocks
  permits : (handled.protection block).permits isWriteFault

/-- A write to a clean resident block. -/
theorem ensures_handlePresent_write (hheld : Held blocks region manager owned files)
    {block : ℕ} (hclean : block ∈ manager.cleanLru) :
    (blocks.contract mayExit).ensures (handlePresent manager block true)
      (fun handled owned' files' => Held blocks region handled owned' files' ∧
        manager.Handled handled block true)
      owned files := by
  have hcoherent := hheld.coherent
  have hresident : block ∈ manager.presentBlocks :=
    (hcoherent.residency.shared.mem_iff block).mpr (.inl hclean)
  have hpermits : (Function.update manager.protection block .write block).permits true := by
    rw [Function.update_self]
    rfl
  refine ensures_of_stashFiles ?_ hheld.owned
  unfold handlePresent
  simp only [if_true]
  by_cases hstashed : block ∈ (manager.moveToDirty block).stashSet
  · rw [if_pos hstashed, unstash, Program.bind_assoc]
    apply Contract.ensures_bind_of (ensures_unstash hcoherent.backing hstashed)
    rintro _ owned' files' ⟨rfl, hbacking, howned'⟩ final hfinal
    have hsession : manager.base.SameSession (manager.base.forgetStash block) :=
      ⟨rfl, rfl, rfl, rfl, rfl, rfl⟩
    exact ⟨⟨hcoherent.of_base hsession (hcoherent.residency.markDirty _ hclean hsession)
      (hbacking.rely howned' hfinal), howned'⟩, hsession, hresident, hpermits⟩
  · rw [if_neg hstashed]
    intro final hfinal
    let marked := (manager.moveToDirty block).protect block .write
    have hsession : manager.base.SameSession marked.base := SameSession.refl manager.base
    have hresidency := hcoherent.residency.markDirty manager.stashSet hclean hsession
    have hmarked : Coherent blocks marked final region :=
      hcoherent.of_base hsession hresidency
        ((hcoherent.backing.dirtied hstashed).rely subset_rfl hfinal)
    exact ⟨⟨hmarked, subset_rfl⟩, hsession, hresident, hpermits⟩

/-- A block that was loaded, once the storage side is settled. -/
theorem Coherent.load (hcoherent : Coherent blocks manager files region) {block : ℕ}
    (hblock : block < manager.numBlocks) (habsent : block ∉ manager.presentBlocks)
    (isWriteFault : Bool) {base : VirtualMemoryManagerBase Hash} {stashSet : Finset ℕ}
    (hsession : manager.base.SameSession base)
    (hbacking : Backing blocks base stashSet
      (if isWriteFault then block :: manager.dirtyLru else manager.dirtyLru) files' region)
    (howned : base.blockStorage.stashFiles ⊆ owned) :
    Held blocks region
        (makeResident { manager.mapBlock block (region block) (faultProtection isWriteFault) with
          base, stashSet } block isWriteFault) owned files' ∧
      manager.Handled
        (makeResident { manager.mapBlock block (region block) (faultProtection isWriteFault) with
          base, stashSet } block isWriteFault) block isWriteFault := by
  have hresidency := hcoherent.residency.load stashSet hblock habsent isWriteFault hsession
  cases isWriteFault with
  | true =>
      refine ⟨⟨hcoherent.of_base hsession hresidency hbacking, howned⟩, hsession,
        Finset.mem_insert_self _ _, ?_⟩
      simp [makeResident, mapBlock, faultProtection, Protection.permits]
  | false =>
      refine ⟨⟨hcoherent.of_base hsession hresidency hbacking, howned⟩, hsession,
        Finset.mem_insert_self _ _, ?_⟩
      simp [makeResident, mapBlock, faultProtection, Protection.permits]

/-- Loading a block that has a stash file. -/
theorem ensures_loadAbsent_stash (hheld : Held blocks region manager owned files) {block : ℕ}
    (hblock : block < manager.numBlocks) (habsent : block ∉ manager.presentBlocks)
    (isWriteFault : Bool) {uuid : ℕ}
    (hid : manager.blockStorage.stashBlockIds block = some uuid) :
    (blocks.contract mayExit).ensures
      (loadAbsent blocks.build manager block isWriteFault)
      (fun handled owned' files' => Held blocks region handled owned' files' ∧
        manager.Handled handled block isWriteFault)
      owned files := by
  have hcoherent := hheld.coherent
  have hmember : Resource.file uuid ∈ manager.blockStorage.stashFiles := ⟨block, uuid, hid, rfl⟩
  have hstashed : block ∈ manager.stashSet :=
    (hcoherent.backing.stashed_iff block).mpr ⟨uuid, hid⟩
  refine ensures_of_stashFiles ?_ hheld.owned
  unfold loadAbsent BlockStorage.getBlockStashPath
  simp only [hid, Option.map_some]
  have hlength := (hcoherent.backing.length block).trans hcoherent.blockSize.symm
  apply Contract.ensures_bind_of
    (ensures_readBacking_stash rfl hmember (hcoherent.backing.stashed hid) hlength)
  rintro buffer owned₁ files₁ ⟨hbuffer, rfl, hrely₁⟩
  rw [hbuffer]
  have hkept := hcoherent.rely subset_rfl hrely₁
  cases isWriteFault with
  | true =>
      simp only [if_true]
      rw [unstash, Program.bind_assoc]
      apply Contract.ensures_bind_of (ensures_unstash hkept.backing hstashed)
      rintro _ owned₂ files₂ ⟨rfl, hbacking, howned₂⟩ final hfinal
      exact hcoherent.load hblock habsent true ⟨rfl, rfl, rfl, rfl, rfl, rfl⟩
        (hbacking.rely howned₂ hfinal) howned₂
  | false =>
      intro final hfinal
      exact hcoherent.load hblock habsent false (SameSession.refl manager.base)
        (hkept.backing.rely subset_rfl hfinal) subset_rfl

/-- Loading a block that has no stash file. -/
theorem ensures_loadAbsent_named (hsound : blocks.build.Sound)
    (hexit : blocks.build.useCompression = true → mayExit)
    (hheld : Held blocks region manager owned files) {block : ℕ}
    (hblock : block < manager.numBlocks) (habsent : block ∉ manager.presentBlocks)
    (isWriteFault : Bool) (hid : manager.blockStorage.stashBlockIds block = none) :
    (blocks.contract mayExit).ensures
      (loadAbsent blocks.build manager block isWriteFault)
      (fun handled owned' files' => Held blocks region handled owned' files' ∧
        manager.Handled handled block isWriteFault)
      owned files := by
  have hcoherent := hheld.coherent
  have hdirty : block ∉ manager.dirtyLru := fun h =>
    habsent ((hcoherent.residency.shared.mem_iff block).mpr (.inr h))
  have hunstashed : block ∉ manager.stashSet := by
    rw [hcoherent.backing.stashed_iff, hid]
    simp
  have hnames := hcoherent.backing.names hblock hdirty hunstashed
  have hloaded : ∀ files', Backing blocks manager.base manager.stashSet manager.dirtyLru files'
      region → Backing blocks manager.base manager.stashSet
        (if isWriteFault then block :: manager.dirtyLru else manager.dirtyLru) files' region := by
    intro files' hbacking
    cases isWriteFault with
    | true => exact hbacking.dirtied hunstashed
    | false => exact hbacking
  refine ensures_of_stashFiles ?_ hheld.owned
  unfold loadAbsent BlockStorage.getBlockStashPath
  simp only [hid, Option.map_none]
  split_ifs with hempty
  · intro final hfinal
    have hkept := hcoherent.rely subset_rfl hfinal
    have hzero : region block = List.replicate manager.blockSize 0 := by
      have hnamed : blocks.Names files (manager.blocksIds block)
          (List.replicate blocks.blockSize 0) := .inl ⟨hempty, rfl⟩
      rw [hcoherent.blockSize]
      exact BlocksDirectory.Names.unique hsound hnames hnamed
    have hmemory : Function.update manager.memory block (region block) = manager.memory := by
      rw [hzero, Function.update_eq_self_iff, hcoherent.residency.memory, if_neg habsent]
    have hload := hkept.load hblock habsent isWriteFault (SameSession.refl manager.base)
      (hloaded final hkept.backing) subset_rfl
    rw [mapBlock, hmemory] at hload
    exact hload
  · have hstored : blocks.Stored files (manager.blocksIds block) (region block) :=
      hnames.resolve_left fun h => hempty h.1
    apply Contract.ensures_bind_of
      (BlockStorage.ensures_getBlockFullPath hcoherent.backing.storage block _)
    rintro _ owned₁ files₁ ⟨rfl, rfl, hrely₁⟩
    apply Contract.ensures_bind_of (ensures_readBacking_named hsound hexit
      hcoherent.blockSize (BlockStorage.named_of_rely hcoherent.backing.named hrely₁)
      (stored_of_rely hcoherent.backing.named hrely₁ hstored))
    rintro buffer owned₂ files₂ ⟨hbuffer, rfl, hrely₂⟩ final hfinal
    rw [hbuffer]
    have hkept := hcoherent.rely subset_rfl ((hrely₁.trans hrely₂).trans hfinal)
    exact hkept.load hblock habsent isWriteFault (SameSession.refl manager.base)
      (hloaded final hkept.backing) subset_rfl

/-- A fault that the protection of its block does not allow: the handler keeps the
session coherent and lets the access through. -/
theorem ensures_handler (hsound : blocks.build.Sound)
    (hheld : Held blocks region manager owned files) {block : ℕ}
    (hblock : block < manager.numBlocks) {isWriteFault : Bool}
    (hforbidden : ¬ (manager.protection block).permits isWriteFault)
    (hexit : blocks.build.useCompression = true ∨
      (manager.readOnly = true ∧ isWriteFault = true) → mayExit) :
    (blocks.contract mayExit).ensures (handler blocks.build manager block isWriteFault)
      (fun handled owned' files' => Held blocks region handled owned' files' ∧
        manager.Handled handled block isWriteFault)
      owned files := by
  have hresidency := hheld.coherent.residency
  unfold handler
  split_ifs with hreadOnly hpresent
  · rw [Bool.and_eq_true] at hreadOnly
    exact hexit (.inr hreadOnly)
  · -- A resident block that refuses an access is clean, and the access is a write.
    have hdirty : block ∉ manager.dirtyLru := by
      intro hmember
      rw [hresidency.protection, if_pos hmember] at hforbidden
      exact hforbidden rfl
    have hclean : block ∈ manager.cleanLru :=
      ((hresidency.shared.mem_iff block).mp hpresent).resolve_right hdirty
    rw [hresidency.protection, if_neg hdirty, if_pos hclean] at hforbidden
    cases isWriteFault with
    | true => exact ensures_handlePresent_write hheld hclean
    | false => exact absurd rfl hforbidden
  · apply Contract.ensures_bind_of (ensures_evictIfNeeded hheld)
    rintro room owned' files' ⟨hroom, hsession, hsubset⟩
    have habsent : block ∉ room.presentBlocks := fun h => hpresent (hsubset h)
    have hblock' : block < room.numBlocks := hblock.trans_eq hsession.numBlocks.symm
    have hload : (blocks.contract mayExit).ensures
        (loadAbsent blocks.build room block isWriteFault)
        (fun handled owned' files' => Held blocks region handled owned' files' ∧
          room.Handled handled block isWriteFault) owned' files' := by
      cases hid : room.blockStorage.stashBlockIds block with
      | some uuid => exact ensures_loadAbsent_stash hroom hblock' habsent isWriteFault hid
      | none =>
          exact ensures_loadAbsent_named hsound (fun h => hexit (.inl h)) hroom hblock'
            habsent isWriteFault hid
    apply Contract.ensures_mono hload
    rintro handled owned'' files'' ⟨hhandled, hsession', hresident, hpermits⟩
    exact ⟨hhandled, hsession.trans hsession', hresident, hpermits⟩

/-! ## Accesses -/

theorem Coherent.resident_of_permits (hcoherent : Coherent blocks manager files region)
    {block : ℕ} {isWrite : Bool} (hpermits : (manager.protection block).permits isWrite) :
    block ∈ manager.presentBlocks := by
  by_contra habsent
  rw [hcoherent.residency.shared.mem_iff, not_or] at habsent
  rw [hcoherent.residency.protection, if_neg habsent.2, if_neg habsent.1] at hpermits
  cases hpermits

theorem Coherent.dirty_of_permits (hcoherent : Coherent blocks manager files region)
    {block : ℕ} (hpermits : (manager.protection block).permits true) :
    block ∈ manager.dirtyLru := by
  by_contra hclean
  rw [hcoherent.residency.protection, if_neg hclean] at hpermits
  split_ifs at hpermits
  · cases hpermits
  · cases hpermits

/-- Every access inside the region goes through, after at most one fault. -/
theorem ensures_access (hsound : blocks.build.Sound)
    (hheld : Held blocks region manager owned files) {offset : ℕ}
    (hoffset : offset / manager.blockSize < manager.numBlocks)
    {isWrite : Bool}
    (hexit : blocks.build.useCompression = true ∨
      (manager.readOnly = true ∧ isWrite = true) → mayExit) :
    (blocks.contract mayExit).ensures (access blocks.build manager offset isWrite)
      (fun mapped owned' files' => Held blocks region mapped owned' files' ∧
        manager.Handled mapped (offset / manager.blockSize) isWrite)
      owned files := by
  unfold access
  dsimp only
  split_ifs with hpermits
  · intro final hfinal
    exact ⟨hheld.rely hfinal, SameSession.refl manager.base,
      hheld.coherent.resident_of_permits hpermits, hpermits⟩
  · apply Contract.ensures_bind_of (ensures_handler hsound hheld hoffset hpermits hexit)
    rintro handled owned' files' ⟨hheld', hhandled⟩
    rw [if_pos hhandled.permits]
    intro final hfinal
    exact ⟨hheld'.rely hfinal, hhandled⟩

/-- A read returns the byte of the region. -/
theorem ensures_readByte (hsound : blocks.build.Sound)
    (hheld : Held blocks region manager owned files) {offset : ℕ}
    (hoffset : offset / manager.blockSize < manager.numBlocks)
    (hexit : blocks.build.useCompression = true → mayExit) :
    (blocks.contract mayExit).ensures (readByte blocks.build manager offset)
      (fun result owned' files' => Held blocks region result.2 owned' files' ∧
        (result.1 = (region (offset / blocks.blockSize)).getD (offset % blocks.blockSize) 0 ∧
          manager.base.SameSession result.2.base))
      owned files := by
  have hexit' : blocks.build.useCompression = true ∨
      (manager.readOnly = true ∧ false = true) → mayExit := by
    rintro (hcompression | ⟨-, hfalse⟩)
    · exact hexit hcompression
    · cases hfalse
  unfold readByte
  apply Contract.ensures_bind_of (ensures_access hsound hheld hoffset hexit')
  rintro mapped owned' files' ⟨hmapped, hsession, hresident, -⟩ final hfinal
  refine ⟨hmapped.rely hfinal, ?_, hsession⟩
  have hblockSize := hmapped.coherent.blockSize
  rw [hsession.blockSize.symm, hblockSize] at hresident
  change (mapped.memory (offset / mapped.blockSize)).getD _ _ = _
  rw [hblockSize, hmapped.coherent.residency.memory, if_pos hresident]

/-- The region after a write to a byte. -/
def writeRegion (blockSize : ℕ) (region : ℕ → List Byte) (offset : ℕ) (byte : Byte) :
    ℕ → List Byte :=
  Function.update region (offset / blockSize)
    ((region (offset / blockSize)).set (offset % blockSize) byte)

/-- A write to a block that allows it changes the memory of that block only. -/
theorem Coherent.writeMemory (hcoherent : Coherent blocks manager files region)
    {block : ℕ} (hpermits : (manager.protection block).permits true) {content : List Byte}
    (hlength : content.length = blocks.blockSize) :
    Coherent blocks
      { manager with memory := Function.update manager.memory block content } files
      (Function.update region block content) := by
  have hdirty := hcoherent.dirty_of_permits hpermits
  have hresident := hcoherent.resident_of_permits hpermits
  refine ⟨hcoherent.blockSize, hcoherent.blockSize_pos, hcoherent.limit, ?_, ?_⟩
  · refine ⟨hcoherent.residency.shared, hcoherent.residency.resident_lt,
      hcoherent.residency.protection, ?_⟩
    intro other
    simp only [Function.update_apply]
    by_cases hsame : other = block
    · simp [hsame, hresident]
    · simp [hsame, hcoherent.residency.memory other]
  · exact hcoherent.backing.write hdirty hlength

/-- A write changes one byte of the region. -/
theorem ensures_writeByte (hsound : blocks.build.Sound)
    (hheld : Held blocks region manager owned files) {offset : ℕ}
    (hoffset : offset / manager.blockSize < manager.numBlocks)
    (byte : Byte)
    (hexit : blocks.build.useCompression = true ∨ manager.readOnly = true → mayExit) :
    (blocks.contract mayExit).ensures (writeByte blocks.build manager offset byte)
      (fun written owned' files' =>
        Held blocks (writeRegion blocks.blockSize region offset byte) written owned' files' ∧
          manager.base.SameSession written.base)
      owned files := by
  unfold writeByte
  apply Contract.ensures_bind_of (ensures_access hsound hheld hoffset
    fun h => hexit (h.imp_right And.left))
  rintro mapped owned' files' ⟨hmapped, hsession, hresident, hpermits⟩ final hfinal
  have hkept := hmapped.rely hfinal
  have hblockSize := hmapped.coherent.blockSize
  rw [← hsession.blockSize] at hresident hpermits
  have hmemory := hkept.coherent.residency.memory (offset / mapped.blockSize)
  rw [if_pos hresident] at hmemory
  have hlength : ((region (offset / mapped.blockSize)).set
      (offset % mapped.blockSize) byte).length = blocks.blockSize := by
    rw [List.length_set, hkept.coherent.backing.length]
  refine ⟨⟨?_, hkept.owned⟩, hsession.trans ⟨rfl, rfl, rfl, rfl, rfl, rfl⟩⟩
  have hwritten := hkept.coherent.writeMemory hpermits hlength
  rw [← hmemory] at hwritten
  rw [writeRegion, ← hblockSize, ← hmemory]
  exact hwritten

end SigactionVirtualMemoryManager

end Privateer
