import Privateer.Uffd.Coherence

/-!
# Accesses under the UFFD manager

When every fault of the application is handled before its next access, a missing
page always belongs to a block without any pages, and a write-protected page to a
block that is neither dirty nor stashed.  So each access goes through after at most
one event, and leaves a coherent session.
-/

namespace Privateer

namespace UffdVirtualMemoryManager

open VirtualMemoryManagerBase (SameSession)

variable {Hash : Type} [DecidableEq Hash] {blocks : BlocksDirectory Hash}
variable {manager : UffdVirtualMemoryManager Hash} {files : FileSystem Hash}
variable {region stored : ℕ → List Byte} {block : ℕ}

/-! ## Eviction -/

theorem Coherent.exists_present (hcoherent : Coherent blocks manager files region stored)
    (hfull : (manager.presentBlocks 0).card * manager.blockSize ≥ manager.maxMemSize)
    (hclean : (manager.cleanLru 0).getLast? = none) :
    ∃ toEvict, (manager.dirtyLru 0).getLast? = some toEvict := by
  have hpos : 0 < manager.blockSize := by
    rw [hcoherent.blockSize]
    exact hcoherent.blockSize_pos
  have hcard : (manager.presentBlocks 0).card ≠ 0 := by
    intro hzero
    rw [hzero, Nat.zero_mul] at hfull
    have hlimit := hcoherent.limit
    omega
  obtain ⟨block, hblock⟩ := Finset.card_ne_zero.mp hcard
  have hlists := hcoherent.tracking.present block hblock
  rw [List.getLast?_eq_none_iff.mp hclean] at hlists
  have hdirty : manager.dirtyLru 0 ≠ [] :=
    List.ne_nil_of_mem (hlists.resolve_left List.not_mem_nil)
  exact ⟨_, List.getLast?_eq_some_getLast hdirty⟩

/-- What a step of a session leaves of its blocks directory and of its kernel state. -/
structure Stepped (blocks : BlocksDirectory Hash) (manager manager' : UffdVirtualMemoryManager Hash)
    (files files' : FileSystem Hash) : Prop where
  session : manager.base.SameSession manager'.base
  blocksIds : manager'.blocksIds = manager.blocksIds
  installed : manager'.installed = manager.installed
  writeProtected : manager'.writeProtected = manager.writeProtected
  regionStartAddress : manager'.regionStartAddress = manager.regionStartAddress
  promises : blocks.Promises files files'

/-- Eviction changes neither the pages nor their protection. -/
theorem run_evictIfNeeded (hcoherent : Coherent blocks manager files region stored) :
    ∃ room files', (evictIfNeeded manager 0).run FileSystem.answer files =
        (.returned room, files') ∧ Coherent blocks room files' region stored ∧
          Stepped blocks manager room files files' := by
  unfold evictIfNeeded
  split_ifs with hfull
  · cases hclean : (manager.cleanLru 0).getLast? with
    | some toEvict =>
        exact ⟨_, files, rfl, hcoherent.evictClean hclean, SameSession.refl manager.base, rfl,
          rfl, rfl, rfl, BlocksDirectory.Promises.refl files⟩
    | none =>
        obtain ⟨toEvict, hlast⟩ := hcoherent.exists_present hfull hclean
        have hmember : toEvict ∈ manager.dirtyLru 0 := List.mem_of_getLast? hlast
        obtain ⟨hinstalled, hwritable⟩ := hcoherent.tracking.dirty toEvict hmember
        have hmemory : manager.memory toEvict = stored toEvict := by
          rw [hcoherent.memory toEvict hinstalled]
          exact (hcoherent.agrees toEvict fun h => h.unlisted hmember).symm
        have hlist := Shared.mem_dropLast_iff hcoherent.tracking.nodup_dirty hlast
        obtain ⟨stashed, files', hrun, ⟨owned, hbacking, -, hsession, hids⟩, hpromises⟩ :=
          BlocksDirectory.run_of_ensures (VirtualMemoryManagerBase.ensures_stash
            hcoherent.backing hmember (hcoherent.tracking.installed_lt toEvict hinstalled) hlist)
        simp only [hlast, hmemory]
        rw [Program.run_bind_of_returned hrun]
        exact ⟨_, files', rfl, hcoherent.evictDirty hlast hsession hbacking, hsession, hids, rfl,
          rfl, rfl, hpromises⟩
  · exact ⟨manager, files, rfl, hcoherent, SameSession.refl manager.base, rfl, rfl, rfl, rfl,
      BlocksDirectory.Promises.refl files⟩

/-! ## Loading -/

/-- A named block fills the temporary buffer. -/
theorem run_readBacking (hcompression : blocks.build.useCompression = false) {name : Hash}
    {content buffer : List Byte} (hstored : blocks.Stored files name content)
    (hbuffer : buffer.length ≤ blocks.blockSize) :
    (readBacking blocks.build blocks.blockSize (blocks.blockFile name) buffer).run
      FileSystem.answer files = (.returned content, files) := by
  have hfile : files.data (blocks.blockFile name) = some content := by
    rw [hstored.file, Build.encode, hcompression]
    rfl
  have htake : content.take blocks.blockSize = content :=
    List.take_of_length_le hstored.length.le
  have hoverwrite : overwrite content buffer = content :=
    overwrite_of_length_le (hbuffer.trans hstored.length.ge)
  simp [readBacking, FileSystem.answer, hfile, hcompression, htake, hoverwrite,
    BlockStorage.closeOrExit]

/-- A block without a stash file is loaded with what its name stands for. -/
theorem run_loadContent (hsound : blocks.build.Sound)
    (hcompression : blocks.build.useCompression = false)
    (hcoherent : Coherent blocks manager files region stored) {content : List Byte}
    (hunstashed : manager.blockStorage.stashBlockIds block = none)
    (hnames : blocks.Names files (manager.blocksIds block) content) :
    ∃ loaded files', (loadContent blocks.build manager 0 block).run FileSystem.answer files =
        (.returned (content, loaded), files') ∧
      Coherent blocks loaded files' region stored ∧ Stepped blocks manager loaded files files' ∧
        loaded.stashSet = manager.stashSet := by
  unfold loadContent BlockStorage.getBlockStashPath
  simp only [hunstashed, Option.map_none]
  split_ifs with hempty
  · have hzero : List.replicate manager.blockSize 0 = content := by
      have hnamed : blocks.Names files (manager.blocksIds block)
          (List.replicate blocks.blockSize 0) := .inl ⟨hempty, rfl⟩
      rw [hcoherent.blockSize]
      exact hnamed.unique hsound hnames
    rw [hzero]
    exact ⟨manager, files, rfl, hcoherent,
      ⟨SameSession.refl manager.base, rfl, rfl, rfl, rfl, BlocksDirectory.Promises.refl files⟩, rfl⟩
  · have hstored : blocks.Stored files (manager.blocksIds block) content :=
      hnames.resolve_left fun h => hempty h.1
    have hensures : (blocks.contract False).ensures (manager.blockStorage.getBlockFullPath
        blocks.build block (manager.blocksIds block)) _ manager.blockStorage.stashFiles files :=
      BlockStorage.ensures_getBlockFullPath hcoherent.backing.storage block _
    obtain ⟨path, files', hrun, ⟨owned, rfl, rfl, hrely⟩, hpromises⟩ :=
      BlocksDirectory.run_of_ensures hensures
    have hkept := hstored.keep (hpromises.named hcoherent.backing.named).2
    have hread := run_readBacking hcompression hkept hcoherent.tempBuffer
    rw [BlocksDirectory.blockFile, ← hcoherent.blockSize] at hread
    rw [Program.run_bind_of_returned hrun, Program.run_bind_of_returned hread]
    have hloaded := hcoherent.of_backing (hcoherent.backing.rely subset_rfl hrely)
    refine ⟨_, files', rfl, hloaded.of_tracking (SameSession.refl manager.base) ?_ ?_
      hloaded.memory (fun _ h => ⟨h.installed, h.writable, h.unlisted⟩) hloaded.backing,
      ⟨SameSession.refl manager.base, rfl, rfl, rfl, rfl, hpromises⟩, rfl⟩
    · exact ⟨hloaded.tracking.threads, hloaded.tracking.nodup_clean, hloaded.tracking.nodup_dirty,
        hloaded.tracking.clean, hloaded.tracking.dirty, hloaded.tracking.present,
        hloaded.tracking.stashed, hloaded.tracking.installed_lt⟩
    · simpa using hstored.length.le

/-! ## The handler -/

/-- After its fault was handled an access goes through.  A write finds its block on the
dirty list unless the block was untracked. -/
structure Handled (blocks : BlocksDirectory Hash) (manager handled : UffdVirtualMemoryManager Hash)
    (files files' : FileSystem Hash) (block : ℕ) (isWrite : Bool) : Prop where
  session : manager.base.SameSession handled.base
  permits : handled.permits block isWrite
  dirty : isWrite = true → (block ∈ handled.dirtyLru 0 ↔ ¬ manager.Untracked block)
  promises : blocks.Promises files files'

/-- A block without pages is loaded. -/
theorem run_handleMissing (hsound : blocks.build.Sound)
    (hcompression : blocks.build.useCompression = false)
    (hcoherent : Coherent blocks manager files region stored)
    (hblock : block < manager.numBlocks) (habsent : manager.installed block = false)
    (isWriteFault : Bool) :
    ∃ handled files', (handleMissing blocks.build manager 0 block isWriteFault).run
        FileSystem.answer files = (.returned handled, files') ∧
      Coherent blocks handled files' region stored ∧
        Handled blocks manager handled files files' block isWriteFault := by
  obtain ⟨room, files₁, hevict, hroom, hstepped₁⟩ := run_evictIfNeeded hcoherent
  have habsent₁ : room.installed block = false := by rwa [hstepped₁.installed]
  have hblock₁ : block < room.numBlocks := hblock.trans_eq hstepped₁.session.numBlocks.symm
  have huntracked : ¬ room.Untracked block := by
    intro h
    rw [h.installed] at habsent₁
    cases habsent₁
  have hunstashed : block ∉ room.stashSet 0 := by
    intro h
    rw [(hroom.tracking.stashed block h).1] at habsent₁
    cases habsent₁
  have hclean : block ∉ room.dirtyLru 0 := by
    intro h
    rw [(hroom.tracking.dirty block h).1] at habsent₁
    cases habsent₁
  have hnames := hroom.backing.names hblock₁ hclean hunstashed
  rw [hroom.agrees block huntracked] at hnames
  obtain ⟨loaded, files₂, hload, hloaded, hstepped₂, hstash⟩ := run_loadContent hsound
    hcompression hroom (hroom.backing.stashBlockIds_eq_none hunstashed) hnames
  have habsent₂ : loaded.installed block = false := by rwa [hstepped₂.installed]
  have hblock₂ : block < loaded.numBlocks := hblock₁.trans_eq hstepped₂.session.numBlocks.symm
  have hunstashed₂ : block ∉ loaded.stashSet 0 := by rwa [hstash]
  have hfinal := hloaded.load hblock₂ habsent₂ isWriteFault hunstashed₂
  unfold handleMissing
  rw [Program.run_bind_of_returned hevict, Program.run_bind_of_returned hload, install]
  simp only [habsent₂, Bool.false_eq_true, if_false]
  have hpromises := hstepped₁.promises.trans hstepped₂.promises
  have hsession := hstepped₁.session.trans hstepped₂.session
  have huntracked' : ¬ manager.Untracked block := by
    intro h
    rw [h.installed] at habsent
    cases habsent
  refine ⟨_, files₂, rfl, hfinal, ?_⟩
  cases isWriteFault with
  | true =>
      refine ⟨hsession, ?_, ?_, hpromises⟩
      · simp [permits, makePresent]
      · simp [makePresent, huntracked']
  | false =>
      refine ⟨hsession, ?_, ?_, hpromises⟩
      · simp [permits, makePresent]
      · exact fun hwrite => absurd hwrite Bool.false_ne_true

/-- A write-protected block becomes writable. -/
theorem run_handleWpFault (hcoherent : Coherent blocks manager files region stored)
    (hreadWrite : manager.readOnly = false) (hinstalled : manager.installed block = true)
    (hprotected : manager.writeProtected block = true) :
    ∃ handled files', (handleWpFault manager 0 block).run FileSystem.answer files =
        (.returned handled, files') ∧ Coherent blocks handled files' region stored ∧
          Handled blocks manager handled files files' block true := by
  have hunstashed : block ∉ manager.stashSet 0 := by
    intro h
    rw [(hcoherent.tracking.stashed block h).2] at hprotected
    cases hprotected
  unfold handleWpFault
  simp only [hreadWrite, Bool.false_eq_true, if_false, hunstashed]
  refine ⟨_, files, rfl, hcoherent.markDirty hinstalled hprotected hunstashed,
    SameSession.refl manager.base, ?_, ?_, BlocksDirectory.Promises.refl files⟩
  · simp [permits, protect, moveToDirty, hinstalled]
  · intro hwrite
    have huntracked : ¬ manager.Untracked block := by
      intro h
      rw [h.writable] at hprotected
      cases hprotected
    simp [protect, moveToDirty, huntracked]

/-- Every access inside the region goes through, after at most one event. -/
theorem run_access (hsound : blocks.build.Sound)
    (hcompression : blocks.build.useCompression = false)
    (hcoherent : Coherent blocks manager files region stored)
    (hreadWrite : manager.readOnly = false) {offset : ℕ}
    (hoffset : offset / manager.blockSize < manager.numBlocks) (isWrite : Bool) :
    ∃ mapped files', (access blocks.build manager offset isWrite).run FileSystem.answer files =
        (.returned mapped, files') ∧ Coherent blocks mapped files' region stored ∧
          Handled blocks manager mapped files files' (offset / manager.blockSize) isWrite := by
  have hindex : manager.blockIndex (manager.regionStartAddress + offset) =
      offset / manager.blockSize := by
    rw [blockIndex, Nat.add_sub_cancel_left]
  unfold access
  dsimp only
  rw [hcoherent.tracking.subRegion]
  split_ifs with hpermits
  · refine ⟨manager, files, rfl, hcoherent, SameSession.refl manager.base, hpermits, ?_,
      BlocksDirectory.Promises.refl files⟩
    intro hwrite
    rw [permits, hwrite, Bool.true_and, Bool.and_eq_true, Bool.not_eq_true'] at hpermits
    refine ⟨fun hdirty huntracked => huntracked.unlisted hdirty, fun hnot => ?_⟩
    by_contra hdirty
    exact hnot ⟨hpermits.1, hpermits.2, hdirty⟩
  · have hhandled : ∃ handled files', (handleEvent blocks.build manager 0
        (manager.faultEvent (manager.regionStartAddress + offset) isWrite)).run
          FileSystem.answer files = (.returned handled, files') ∧
        Coherent blocks handled files' region stored ∧
          Handled blocks manager handled files files' (offset / manager.blockSize) isWrite := by
      cases hinstalled : manager.installed (offset / manager.blockSize) with
      | true =>
          rw [permits, hinstalled, Bool.true_and, Bool.not_eq_true', Bool.not_eq_false,
            Bool.and_eq_true] at hpermits
          obtain ⟨rfl, hprotected⟩ := hpermits
          rw [handleEvent, skips, faultEvent, hindex, hinstalled]
          simp only [if_true, Bool.not_true, Bool.and_false, Bool.false_eq_true, if_false, hindex]
          exact run_handleWpFault hcoherent hreadWrite hinstalled hprotected
      | false =>
          have habsent : offset / manager.blockSize ∉ manager.presentBlocks 0 := by
            intro hpresent
            rcases hcoherent.tracking.present _ hpresent with hclean | hdirty
            · rw [(hcoherent.tracking.clean _ hclean).1] at hinstalled
              cases hinstalled
            · rw [(hcoherent.tracking.dirty _ hdirty).1] at hinstalled
              cases hinstalled
          rw [handleEvent, skips, faultEvent, hindex, hinstalled]
          simp only [Bool.false_eq_true, if_false, hindex, habsent, decide_false, Bool.false_and]
          exact run_handleMissing hsound hcompression hcoherent hoffset hinstalled isWrite
    obtain ⟨handled, files', hrun, hkept, hdone⟩ := hhandled
    rw [Program.run_bind_of_returned hrun, if_pos hdone.permits]
    exact ⟨handled, files', rfl, hkept, hdone⟩

end UffdVirtualMemoryManager

end Privateer
