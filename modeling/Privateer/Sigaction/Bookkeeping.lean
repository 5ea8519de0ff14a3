import Privateer.Sigaction.Session
import Privateer.Sigaction.Tracking
import Privateer.Storage.StashFiles

/-!
# The bookkeeping of a session

The manager owns the two lists, the stash set and the resident blocks; its storage owns
the table of stash files.  Under the accesses of one thread they stay consistent, in
both builds and with one tier or two, whatever the files hold: the resident blocks
never exceed their limit, and the storage always finds what the manager expects there.
-/

namespace Privateer

namespace SigactionVirtualMemoryManager

open VirtualMemoryManagerBase (SameSession)

variable {Hash : Type} [DecidableEq Hash] {build : Build Hash}
variable {manager manager' : SigactionVirtualMemoryManager Hash}
variable {files files' : FileSystem Hash} {block : ℕ}

/-- The bookkeeping of a manager between two operations. -/
structure Bookkept (manager : SigactionVirtualMemoryManager Hash) (files : FileSystem Hash) :
    Prop where
  blockSize_pos : 0 < manager.blockSize
  limit : ∃ count, 0 < count ∧ manager.maxMemSize = count * manager.blockSize
  cap : manager.presentBlocks.card * manager.blockSize ≤ manager.maxMemSize
  residency : ∃ region, manager.Residency region
  stashed_iff : ∀ block, block ∈ manager.stashSet ↔
    ∃ uuid, manager.blockStorage.stashBlockIds block = some uuid
  stashed_lt : ∀ block ∈ manager.stashSet, block < manager.numBlocks
  dirty_unstashed : ∀ block ∈ manager.dirtyLru, block ∉ manager.stashSet
  stash : manager.blockStorage.StashKept files

omit [DecidableEq Hash] in
theorem Bookkept.shared (hkept : manager.Bookkept files) :
    Shared manager.cleanLru manager.dirtyLru manager.presentBlocks :=
  hkept.residency.choose_spec.shared

omit [DecidableEq Hash] in
theorem Bookkept.stashBlockIds_eq_none (hkept : manager.Bookkept files)
    (hunstashed : block ∉ manager.stashSet) :
    manager.blockStorage.stashBlockIds block = none := by
  rw [Option.eq_none_iff_forall_ne_some]
  exact fun uuid huuid => hunstashed ((hkept.stashed_iff block).mpr ⟨uuid, huuid⟩)

omit [DecidableEq Hash] in
/-- The contents of a block that is not resident do not matter. -/
theorem Residency.update_absent {region : ℕ → List Byte} (hresidency : manager.Residency region)
    (habsent : block ∉ manager.presentBlocks) (content : List Byte) :
    manager.Residency (Function.update region block content) where
  shared := hresidency.shared
  resident_lt := hresidency.resident_lt
  protection := hresidency.protection
  memory := by
    intro other
    rw [hresidency.memory]
    by_cases hother : other ∈ manager.presentBlocks
    · have hne : other ≠ block := fun hsame => habsent (hsame ▸ hother)
      rw [if_pos hother, if_pos hother, Function.update_of_ne hne]
    · rw [if_neg hother, if_neg hother]

/-! ## Eviction -/

omit [DecidableEq Hash] in
/-- A full cache has a block to evict. -/
theorem Bookkept.exists_resident (hkept : manager.Bookkept files)
    (hfull : manager.presentBlocks.card * manager.blockSize ≥ manager.maxMemSize)
    (hclean : manager.cleanLru.getLast? = none) :
    ∃ toEvict, manager.dirtyLru.getLast? = some toEvict := by
  obtain ⟨count, hcount, hlimit⟩ := hkept.limit
  have hmax : 0 < manager.maxMemSize := by
    rw [hlimit]
    exact Nat.mul_pos hcount hkept.blockSize_pos
  have hcard : manager.presentBlocks.card ≠ 0 := by
    intro hzero
    rw [hzero, Nat.zero_mul] at hfull
    omega
  obtain ⟨block, hblock⟩ := Finset.card_ne_zero.mp hcard
  have hlists := (hkept.shared.mem_iff block).mp hblock
  rw [List.getLast?_eq_none_iff.mp hclean] at hlists
  have hdirty : manager.dirtyLru ≠ [] :=
    List.ne_nil_of_mem (hlists.resolve_left List.not_mem_nil)
  exact ⟨_, List.getLast?_eq_some_getLast hdirty⟩

omit [DecidableEq Hash] in
/-- There is room again once a resident block has left. -/
theorem Bookkept.card_erase (hkept : manager.Bookkept files) {toEvict : ℕ}
    (hresident : toEvict ∈ manager.presentBlocks) :
    (manager.presentBlocks.erase toEvict).card * manager.blockSize < manager.maxMemSize := by
  have hcard : (manager.presentBlocks.erase toEvict).card < manager.presentBlocks.card :=
    Finset.card_erase_lt_of_mem hresident
  exact (Nat.mul_lt_mul_of_pos_right hcard hkept.blockSize_pos).trans_le hkept.cap

/-- What an eviction leaves: room for a block. -/
structure Room (manager room : SigactionVirtualMemoryManager Hash) (files' : FileSystem Hash) :
    Prop where
  kept : room.Bookkept files'
  free : room.presentBlocks.card * room.blockSize < room.maxMemSize
  subset : room.presentBlocks ⊆ manager.presentBlocks
  session : manager.base.SameSession room.base

theorem Bookkept.evictIfNeeded (hkept : manager.Bookkept files)
    (hrun : (evictIfNeeded manager).run FileSystem.answer files = (.returned manager', files')) :
    manager.Room manager' files' := by
  obtain ⟨region, hresidency⟩ := hkept.residency
  have hshared := hkept.shared
  unfold SigactionVirtualMemoryManager.evictIfNeeded at hrun
  split_ifs at hrun with hfull
  · cases hclean : manager.cleanLru.getLast? with
    | some toEvict =>
        rw [hclean] at hrun
        cases hrun
        have hmember : toEvict ∈ manager.presentBlocks :=
          (hshared.mem_iff toEvict).mpr (.inl (List.mem_of_getLast? hclean))
        have hlist := Shared.mem_dropLast_iff (List.nodup_append.mp hshared.nodup).1 hclean
        have hfree := hkept.card_erase hmember
        refine ⟨⟨hkept.blockSize_pos, hkept.limit, hfree.le, ⟨region, ?_⟩, hkept.stashed_iff,
          hkept.stashed_lt, hkept.dirty_unstashed, hkept.stash⟩, hfree,
          Finset.erase_subset _ _, SameSession.refl manager.base⟩
        exact hresidency.discard _ (SameSession.refl manager.base)
          (hshared.pop_clean hclean) (fun block hne => by simp [hlist, hne]) fun _ _ => Iff.rfl
    | none =>
        obtain ⟨toEvict, hlast⟩ := hkept.exists_resident hfull hclean
        simp only [hclean, hlast] at hrun
        have hdirty : toEvict ∈ manager.dirtyLru := List.mem_of_getLast? hlast
        have hmember : toEvict ∈ manager.presentBlocks :=
          (hshared.mem_iff toEvict).mpr (.inr hdirty)
        have hnone := hkept.stashBlockIds_eq_none (hkept.dirty_unstashed toEvict hdirty)
        obtain ⟨stashed, between, hstash, hrest⟩ := Program.run_bind_returned hrun
        cases hrest
        obtain ⟨⟨status, storage⟩, written, hwritten, hstatus⟩ := Program.run_bind_returned hstash
        cases status with
        | false => cases hstatus
        | true =>
            cases hstatus
            obtain ⟨⟨uuid, rfl⟩, hfiles⟩ := hkept.stash.stashBlock hnone hwritten
            have hlist := Shared.mem_dropLast_iff hshared.nodup_dirty hlast
            have hsession : manager.base.SameSession
                { manager.base with
                  blockStorage := manager.blockStorage.setStashBlockId toEvict (some uuid) } :=
              ⟨rfl, rfl, rfl, rfl, rfl, rfl⟩
            have hfree := hkept.card_erase hmember
            refine ⟨⟨hkept.blockSize_pos, hkept.limit, hfree.le, ⟨region, ?_⟩, ?_, ?_, ?_,
              hfiles⟩, hfree, Finset.erase_subset _ _, hsession⟩
            · exact hresidency.discard _ hsession (hshared.pop_dirty hlast)
                (fun _ _ => Iff.rfl) fun block hne => by simp [hlist, hne]
            · intro block
              simp only [discard, Finset.mem_insert, BlockStorage.setStashBlockId_apply,
                hkept.stashed_iff]
              by_cases hsame : block = toEvict
              · simp [hsame]
              · simp [hsame]
            · intro block hblock
              rcases Finset.mem_insert.mp hblock with rfl | hstashed
              · exact hresidency.resident_lt _ hmember
              · exact hkept.stashed_lt block hstashed
            · intro block hblock
              obtain ⟨hold, hne⟩ := (hlist block).mp hblock
              change block ∉ insert toEvict manager.stashSet
              rw [Finset.mem_insert, not_or]
              exact ⟨hne, hkept.dirty_unstashed block hold⟩
  · cases hrun
    exact ⟨hkept, not_le.mp hfull, subset_rfl, SameSession.refl manager.base⟩

/-! ## Loading -/

omit [DecidableEq Hash] in
/-- A backing file is opened, measured, read and closed. -/
theorem callsOnly_readBacking {allowed : Call Hash → Prop} {backing : DataFile Hash}
    (hopen : allowed (.openFile backing false)) (hsize : allowed (.fileSize backing))
    (hread : ∀ count, allowed (.pread backing count)) (hclose : allowed .close) (blockSize : ℕ)
    (fromStash : Bool) : (readBacking build blockSize backing fromStash).CallsOnly allowed := by
  refine ⟨hopen, fun opened => ?_⟩
  cases opened with
  | false => trivial
  | true =>
      cases hdecode : build.useCompression && !fromStash with
      | false =>
          refine ⟨hread _, fun bytes => ?_⟩
          cases bytes with
          | none => trivial
          | some bytes =>
              refine ⟨hclose, fun closed => ?_⟩
              cases closed with
              | true => trivial
              | false => trivial
      | true =>
          refine ⟨hsize, fun size => ?_⟩
          cases size with
          | none => trivial
          | some size =>
              change Program.CallsOnly _ (if size > blockSize then _ else _)
              split_ifs
              · trivial
              · refine ⟨hread _, fun bytes => ?_⟩
                cases bytes with
                | none => trivial
                | some bytes =>
                    simp only [Program.bind]
                    cases decodeBlock build blockSize bytes with
                    | none => trivial
                    | some buffer =>
                        refine ⟨hclose, fun closed => ?_⟩
                        cases closed with
                        | true => trivial
                        | false => trivial

omit [DecidableEq Hash] in
/-- A block joins the resident ones, where there is room for it. -/
theorem Bookkept.load (hkept : manager.Bookkept files)
    (hfree : manager.presentBlocks.card * manager.blockSize < manager.maxMemSize)
    (hblock : block < manager.numBlocks) (habsent : block ∉ manager.presentBlocks)
    (isWriteFault : Bool) (buffer : List Byte) {base : VirtualMemoryManagerBase Hash}
    {stashSet : Finset ℕ} (hbase : manager.base.SameSession base)
    (hstashed : ∀ block, block ∈ stashSet ↔
      ∃ uuid, base.blockStorage.stashBlockIds block = some uuid)
    (hsubset : stashSet ⊆ manager.stashSet)
    (hdirty : isWriteFault = true → block ∉ stashSet)
    (hfiles : base.blockStorage.StashKept files') :
    Bookkept (makeResident { manager.mapBlock block buffer (faultProtection isWriteFault) with
      base, stashSet } block isWriteFault) files' := by
  obtain ⟨region, hresidency⟩ := hkept.residency
  have hloaded := (hresidency.update_absent habsent buffer).load stashSet hblock habsent
    isWriteFault hbase
  rw [Function.update_self] at hloaded
  obtain ⟨count, hcount, hlimit⟩ := hkept.limit
  have hcard : (insert block manager.presentBlocks).card * manager.blockSize ≤
      manager.maxMemSize := by
    rw [hlimit] at hfree ⊢
    rw [Finset.card_insert_of_notMem habsent]
    exact Nat.mul_le_mul_right _ (Nat.lt_of_mul_lt_mul_right hfree)
  have hnew : ∀ other ∈ manager.dirtyLru, other ∉ stashSet := fun other hother hmember =>
    hkept.dirty_unstashed other hother (hsubset hmember)
  have hlt : ∀ other ∈ stashSet, other < base.numBlocks := fun other hother =>
    (hkept.stashed_lt other (hsubset hother)).trans_eq hbase.numBlocks.symm
  have hpos : 0 < base.blockSize := hkept.blockSize_pos.trans_eq hbase.blockSize.symm
  have hcap : (insert block manager.presentBlocks).card * base.blockSize ≤ base.maxMemSize := by
    rw [hbase.blockSize, hbase.maxMemSize]
    exact hcard
  have hmultiple : ∃ count, 0 < count ∧ base.maxMemSize = count * base.blockSize := by
    rw [hbase.blockSize, hbase.maxMemSize]
    exact hkept.limit
  cases isWriteFault with
  | true =>
      refine ⟨hpos, hmultiple, hcap, ⟨_, hloaded⟩, hstashed, hlt, ?_, hfiles⟩
      intro other hother
      cases hother with
      | head => exact hdirty rfl
      | tail _ hrest => exact hnew other hrest
  | false => exact ⟨hpos, hmultiple, hcap, ⟨_, hloaded⟩, hstashed, hlt, hnew, hfiles⟩

/-- What a handled fault leaves: the block is resident. -/
structure FaultHandled (manager handled : SigactionVirtualMemoryManager Hash) (block : ℕ)
    (files' : FileSystem Hash) : Prop where
  kept : handled.Bookkept files'
  resident : block ∈ handled.presentBlocks
  session : manager.base.SameSession handled.base

omit [DecidableEq Hash] in
theorem mem_presentBlocks_makeResident (isWriteFault : Bool) :
    block ∈ (makeResident manager block isWriteFault).presentBlocks := by
  cases isWriteFault with
  | true => exact Finset.mem_insert_self block _
  | false => exact Finset.mem_insert_self block _

theorem Bookkept.loadAbsent (hkept : manager.Bookkept files)
    (hfree : manager.presentBlocks.card * manager.blockSize < manager.maxMemSize)
    (hblock : block < manager.numBlocks) (habsent : block ∉ manager.presentBlocks)
    {isWriteFault : Bool}
    (hrun : (loadAbsent build manager block isWriteFault).run FileSystem.answer files =
      (.returned manager', files')) : manager.FaultHandled manager' block files' := by
  unfold SigactionVirtualMemoryManager.loadAbsent at hrun
  have hread : ∀ {backing : DataFile Hash} {fromStash : Bool} {buffer : List Byte}
      {before after : FileSystem Hash}, manager.blockStorage.StashKept before →
      (readBacking build manager.blockSize backing fromStash).run FileSystem.answer before =
        (.returned buffer, after) → manager.blockStorage.StashKept after := by
    intro backing fromStash buffer before after hbefore hbuffer
    have hcalls : ∀ other uuid, manager.blockStorage.stashBlockIds other = some uuid →
        (readBacking build manager.blockSize backing fromStash).CallsOnly
          (Call.Spares (.stash manager.blockStorage.stashDirectory uuid)) :=
      fun other uuid _ => callsOnly_readBacking trivial trivial (fun _ => trivial) trivial _ _
    have hspared := hbefore.of_spares hcalls
    rwa [hbuffer] at hspared
  cases hpath : manager.blockStorage.getBlockStashPath block with
  | some file =>
      rw [hpath] at hrun
      obtain ⟨buffer, between, hbuffer, hrest⟩ := Program.run_bind_returned hrun
      have hbetween := hread hkept.stash hbuffer
      cases isWriteFault with
      | true =>
          obtain ⟨unstashed, final, hunstash, hlast⟩ := Program.run_bind_returned hrest
          cases hlast
          obtain ⟨base, after, hforget, hsame⟩ := Program.run_bind_returned hunstash
          cases hsame
          obtain ⟨⟨status, storage⟩, removed, hremoved, hstatus⟩ :=
            Program.run_bind_returned hforget
          cases status with
          | false => cases hstatus
          | true =>
              cases hstatus
              obtain ⟨rfl, hfiles⟩ := hbetween.unstashBlock hremoved
              have hsession : manager.base.SameSession (manager.base.forgetStash block) :=
                ⟨rfl, rfl, rfl, rfl, rfl, rfl⟩
              refine ⟨hkept.load hfree hblock habsent true buffer hsession ?_
                (Finset.erase_subset block manager.stashSet)
                (fun _ => Finset.notMem_erase _ _) hfiles,
                mem_presentBlocks_makeResident true, hsession⟩
              intro other
              simp only [mapBlock, Finset.mem_erase, BlockStorage.setStashBlockId_apply,
                hkept.stashed_iff]
              by_cases hsame : other = block
              · simp [hsame]
              · simp [hsame]
      | false =>
          cases hrest
          exact ⟨hkept.load hfree hblock habsent false buffer (SameSession.refl manager.base)
            hkept.stashed_iff subset_rfl (fun h => absurd h Bool.false_ne_true) hbetween,
            mem_presentBlocks_makeResident false, SameSession.refl manager.base⟩
  | none =>
      have hunstashed : block ∉ manager.stashSet := by
        rw [hkept.stashed_iff]
        rintro ⟨uuid, huuid⟩
        rw [BlockStorage.getBlockStashPath, huuid] at hpath
        cases hpath
      simp only [hpath] at hrun
      split_ifs at hrun
      · cases hrun
        obtain ⟨region, hresidency⟩ := hkept.residency
        have hzero := hresidency.memory block
        rw [if_neg habsent] at hzero
        have hloaded := hkept.load hfree hblock habsent isWriteFault
          (List.replicate manager.blockSize 0) (SameSession.refl manager.base)
          hkept.stashed_iff subset_rfl (fun _ => hunstashed) hkept.stash
        have hsame : manager.mapBlock block (List.replicate manager.blockSize 0)
            (faultProtection isWriteFault) =
              manager.protect block (faultProtection isWriteFault) := by
          rw [mapBlock, ← hzero, Function.update_eq_self]
          rfl
        rw [hsame] at hloaded
        refine ⟨hloaded, mem_presentBlocks_makeResident _, ?_⟩
        cases isWriteFault with
        | true => exact SameSession.refl manager.base
        | false => exact SameSession.refl manager.base
      · obtain ⟨path, between, hlookup, hrest⟩ := Program.run_bind_returned hrun
        obtain ⟨buffer, final, hbuffer, hlast⟩ := Program.run_bind_returned hrest
        cases hlast
        obtain ⟨hids, hdirectory⟩ :=
          BlockStorage.getBlockFullPath_returns (Program.returns_of_run hlookup)
        have hcalls : ∀ other uuid, manager.blockStorage.stashBlockIds other = some uuid →
            (BlockStorage.getBlockFullPath build manager.blockStorage block
              (manager.blocksIds block)).CallsOnly
              (Call.Spares (.stash manager.blockStorage.stashDirectory uuid)) :=
          fun other uuid _ => BlockStorage.callsOnly_getBlockFullPath _ _ _
        have hlooked := hkept.stash.of_spares hcalls
        rw [hlookup] at hlooked
        have hsession : manager.base.SameSession { manager.base with blockStorage := path.2 } :=
          ⟨rfl, rfl, rfl, rfl, rfl, hdirectory⟩
        have hfinal := (hread hlooked hbuffer).of_eq hids hdirectory
        have hstashed : ∀ other, other ∈ manager.stashSet ↔
            ∃ uuid, path.2.stashBlockIds other = some uuid := by
          rw [hids]
          exact hkept.stashed_iff
        refine ⟨hkept.load hfree hblock habsent isWriteFault buffer hsession hstashed subset_rfl
          (fun _ => hunstashed) hfinal, mem_presentBlocks_makeResident _, ?_⟩
        cases isWriteFault with
        | true => exact hsession
        | false => exact hsession

/-! ## Writing to a clean block -/

/-- A clean block that is written to becomes dirty and loses its stash file. -/
theorem Bookkept.handlePresent (hkept : manager.Bookkept files)
    (hclean : block ∈ manager.cleanLru)
    (hrun : (handlePresent manager block true).run FileSystem.answer files =
      (.returned manager', files')) : manager.FaultHandled manager' block files' := by
  obtain ⟨region, hresidency⟩ := hkept.residency
  have hresident := (hkept.shared.mem_iff block).mpr (.inl hclean)
  have hstays : ∀ stashSet ⊆ manager.stashSet, block ∉ stashSet →
      ∀ other ∈ block :: manager.dirtyLru, other ∉ stashSet := by
    intro stashSet hsubset hunstashed other hother
    cases hother with
    | head => exact hunstashed
    | tail _ hrest => exact fun h => hkept.dirty_unstashed other hrest (hsubset h)
  unfold SigactionVirtualMemoryManager.handlePresent at hrun
  simp only [if_true] at hrun
  split_ifs at hrun with hstashed
  · obtain ⟨unstashed, between, hunstash, hlast⟩ := Program.run_bind_returned hrun
    cases hlast
    obtain ⟨base, after, hforget, hsame⟩ := Program.run_bind_returned hunstash
    cases hsame
    obtain ⟨⟨status, storage⟩, removed, hremoved, hstatus⟩ := Program.run_bind_returned hforget
    cases status with
    | false => cases hstatus
    | true =>
        cases hstatus
        obtain ⟨rfl, hfiles⟩ := hkept.stash.unstashBlock hremoved
        have hsession : manager.base.SameSession (manager.base.forgetStash block) :=
          ⟨rfl, rfl, rfl, rfl, rfl, rfl⟩
        have hsubset := Finset.erase_subset block manager.stashSet
        refine ⟨⟨hkept.blockSize_pos, hkept.limit, hkept.cap,
          ⟨region, hresidency.markDirty (manager.stashSet.erase block) hclean hsession⟩, ?_,
          fun other hother => hkept.stashed_lt other (hsubset hother),
          hstays _ hsubset (Finset.notMem_erase _ _), hfiles⟩, hresident, hsession⟩
        intro other
        simp only [protect, moveToDirty, Finset.mem_erase, BlockStorage.setStashBlockId_apply,
          hkept.stashed_iff]
        by_cases hsame : other = block
        · simp [hsame]
        · simp [hsame]
  · cases hrun
    exact ⟨⟨hkept.blockSize_pos, hkept.limit, hkept.cap,
      ⟨region, hresidency.markDirty manager.stashSet hclean (SameSession.refl manager.base)⟩,
      hkept.stashed_iff, hkept.stashed_lt, hstays _ subset_rfl hstashed, hkept.stash⟩,
      hresident, SameSession.refl manager.base⟩

/-! ## Accesses -/

omit [DecidableEq Hash] in
/-- Only a write to a clean block faults on a resident one. -/
theorem Bookkept.clean_of_fault (hkept : manager.Bookkept files) {isWrite : Bool}
    (hresident : block ∈ manager.presentBlocks)
    (hfault : (manager.protection block).permits isWrite = false) :
    block ∈ manager.cleanLru ∧ isWrite = true := by
  obtain ⟨region, hresidency⟩ := hkept.residency
  rw [hresidency.protection] at hfault
  by_cases hdirty : block ∈ manager.dirtyLru
  · rw [if_pos hdirty] at hfault
    cases hfault
  · have hclean := ((hkept.shared.mem_iff block).mp hresident).resolve_right hdirty
    rw [if_neg hdirty, if_pos hclean] at hfault
    exact ⟨hclean, by simpa [Protection.permits] using hfault⟩

omit [DecidableEq Hash] in
theorem Bookkept.resident_of_permits (hkept : manager.Bookkept files) {isWrite : Bool}
    (hpermits : (manager.protection block).permits isWrite = true) :
    block ∈ manager.presentBlocks := by
  obtain ⟨region, hresidency⟩ := hkept.residency
  rw [hkept.shared.mem_iff]
  rw [hresidency.protection] at hpermits
  split_ifs at hpermits with hdirty hclean
  · exact .inr hdirty
  · exact .inl hclean
  · cases hpermits

theorem Bookkept.access (hkept : manager.Bookkept files) {offset : ℕ}
    (hoffset : offset / manager.blockSize < manager.numBlocks) {isWrite : Bool}
    (hrun : (access build manager offset isWrite).run FileSystem.answer files =
      (.returned manager', files')) :
    manager.FaultHandled manager' (offset / manager.blockSize) files' := by
  unfold SigactionVirtualMemoryManager.access at hrun
  dsimp only at hrun
  cases hpermits : (manager.protection (offset / manager.blockSize)).permits isWrite with
  | true =>
      rw [if_pos hpermits] at hrun
      cases hrun
      exact ⟨hkept, hkept.resident_of_permits hpermits, SameSession.refl manager.base⟩
  | false =>
      rw [if_neg (by rw [hpermits]; exact Bool.false_ne_true)] at hrun
      obtain ⟨handled, between, hhandled, hlast⟩ := Program.run_bind_returned hrun
      split_ifs at hlast
      · cases hlast
        unfold handler at hhandled
        split_ifs at hhandled with hexit hresident
        · cases hhandled
        · obtain ⟨hclean, rfl⟩ := hkept.clean_of_fault hresident hpermits
          exact hkept.handlePresent hclean hhandled
        · obtain ⟨room, emptied, hroom, hload⟩ := Program.run_bind_returned hhandled
          have hevicted := hkept.evictIfNeeded hroom
          have habsent := fun h => hresident (hevicted.subset h)
          have hblock := hoffset.trans_eq hevicted.session.numBlocks.symm
          have hloaded := hevicted.kept.loadAbsent hevicted.free hblock habsent hload
          exact ⟨hloaded.kept, hloaded.resident, hevicted.session.trans hloaded.session⟩
      · cases hlast

omit [DecidableEq Hash] in
/-- The contents of a resident block do not matter either. -/
theorem Bookkept.writeMemory (hkept : manager.Bookkept files)
    (hresident : block ∈ manager.presentBlocks) (content : List Byte) :
    Bookkept { manager with memory := Function.update manager.memory block content } files := by
  obtain ⟨region, hresidency⟩ := hkept.residency
  refine ⟨hkept.blockSize_pos, hkept.limit, hkept.cap,
    ⟨Function.update region block content, hresidency.shared, hresidency.resident_lt,
      hresidency.protection, ?_⟩, hkept.stashed_iff, hkept.stashed_lt, hkept.dirty_unstashed,
    hkept.stash⟩
  intro other
  by_cases hsame : other = block
  · simp [hsame, hresident]
  · simp only [Function.update_of_ne hsame]
    exact hresidency.memory other

/-! ## Commits -/

omit [DecidableEq Hash] in
theorem Bookkept.mem_stashVector (hkept : manager.Bookkept files)
    {base : VirtualMemoryManagerBase Hash} (hbase : manager.base.SameSession base)
    (schedule : List ℕ) (block : ℕ) :
    block ∈ Program.arrange schedule (base.stashVector manager.stashSet) ↔
      block ∈ manager.stashSet := by
  rw [(Program.arrange_perm schedule _).mem_iff, VirtualMemoryManagerBase.stashVector,
    List.mem_filter, List.mem_range, decide_eq_true_eq, hbase.numBlocks]
  exact ⟨fun h => h.2, fun h => ⟨hkept.stashed_lt block h, h⟩⟩

omit [DecidableEq Hash] in
/-- After a commit no block is dirty or stashed. -/
theorem Bookkept.msync (hkept : manager.Bookkept files) {schedule : MsyncSchedule}
    (hreturns : (msync build manager schedule).Returns manager') (final : FileSystem Hash) :
    manager'.Bookkept final ∧ manager.base.SameSession manager'.base := by
  obtain ⟨region, hresidency⟩ := hkept.residency
  obtain ⟨flushed, hflushed, hwritten⟩ := Program.returns_bind.mp hreturns
  obtain ⟨⟨⟩, -, hsame⟩ := Program.returns_bind.mp hwritten
  cases hsame
  obtain ⟨committed, hcommitted, hmarked⟩ := Program.returns_bind.mp hflushed
  cases hmarked
  have hperm := VirtualMemoryManagerBase.returns_commitBlocks hcommitted
  obtain ⟨stored, -, hrest⟩ := Program.returns_bind.mp hcommitted
  obtain ⟨base, hstash, hlast⟩ := Program.returns_bind.mp hrest
  cases hlast
  have hrecorded := VirtualMemoryManagerBase.foldl_recordStored manager.base stored
  obtain ⟨hsession, hids⟩ := VirtualMemoryManagerBase.commitStashed_returns hstash
  have hall := hrecorded.session.trans hsession
  have hnone : ∀ block, base.blockStorage.stashBlockIds block = none := by
    intro block
    rw [hids, hrecorded.stashBlockIds]
    split_ifs with hmember
    · rfl
    · rw [hkept.mem_stashVector hrecorded.session] at hmember
      exact hkept.stashBlockIds_eq_none hmember
  have hpresent := (foldl_markStored manager (stored.map Prod.fst)).presentBlocks
  refine ⟨⟨hkept.blockSize_pos.trans_eq hall.blockSize.symm, ?_, ?_,
    ⟨region, hresidency.flush hperm hall⟩, ?_, ?_, ?_, BlockStorage.StashKept.of_none hnone⟩,
    hall⟩
  · change ∃ count, 0 < count ∧ base.maxMemSize = count * base.blockSize
    rw [hall.blockSize, hall.maxMemSize]
    exact hkept.limit
  · change (stored.map Prod.fst |>.foldl markStored manager).presentBlocks.card *
      base.blockSize ≤ base.maxMemSize
    rw [hpresent, hall.blockSize, hall.maxMemSize]
    exact hkept.cap
  · intro block
    change block ∈ (∅ : Finset ℕ) ↔ ∃ uuid, base.blockStorage.stashBlockIds block = some uuid
    simp [hnone]
  · exact fun block hblock => absurd hblock (Finset.notMem_empty block)
  · exact fun block hblock => absurd hblock List.not_mem_nil

omit [DecidableEq Hash] in
/-- The bookkeeping does not depend on the path of the version. -/
theorem Bookkept.redirect (hkept : manager.Bookkept files) (version : Path) :
    Bookkept { manager with versionMetadataPath := version } files := by
  obtain ⟨region, hresidency⟩ := hkept.residency
  exact ⟨hkept.blockSize_pos, hkept.limit, hkept.cap,
    ⟨region, hresidency.shared, hresidency.resident_lt, hresidency.protection,
      hresidency.memory⟩, hkept.stashed_iff, hkept.stashed_lt, hkept.dirty_unstashed,
    hkept.stash⟩

omit [DecidableEq Hash] in
theorem Bookkept.takeSnapshot (hkept : manager.Bookkept files) {version : Path}
    {schedule : MsyncSchedule} {result : Bool × SigactionVirtualMemoryManager Hash}
    (hreturns : (takeSnapshot build manager version schedule).Returns result)
    (final : FileSystem Hash) :
    result.2.Bookkept final ∧ manager.base.SameSession result.2.base := by
  simp only [SigactionVirtualMemoryManager.takeSnapshot, Program.request_bind,
    Program.returns_call] at hreturns
  obtain ⟨opened, closed, hrest⟩ := hreturns
  obtain ⟨committed, hcommitted, hrest⟩ := Program.returns_bind.mp hrest
  obtain ⟨⟨⟩, -, hrest⟩ := Program.returns_bind.mp hrest
  obtain ⟨⟨⟩, -, hlast⟩ := Program.returns_bind.mp hrest
  cases hlast
  obtain ⟨hdone, hsession⟩ := (hkept.redirect version).msync hcommitted final
  exact ⟨hdone.redirect _, rfl, hsession.regionMaxCapacity, hsession.blockSize,
    hsession.maxMemSize, hsession.readOnly, hsession.stashDirectory⟩

theorem Bookkept.snapshot (hkept : manager.Bookkept files) {version : Path}
    {schedule : MsyncSchedule} {result : Bool × SigactionVirtualMemoryManager Hash}
    (hrun : (snapshot build manager version schedule).run FileSystem.answer files =
      (.returned result, files')) :
    result.2.Bookkept files' ∧ manager.base.SameSession result.2.base := by
  unfold SigactionVirtualMemoryManager.snapshot at hrun
  cases hdirectory : files.directories (.path version) with
  | true =>
      cases hmetadata : (files.metadata version).isSome with
      | true =>
          simp [FileSystem.answer, hdirectory, hmetadata] at hrun
          obtain ⟨rfl, rfl⟩ := hrun
          exact ⟨hkept, SameSession.refl manager.base⟩
      | false =>
          simp only [Program.request_bind, Program.run_call, FileSystem.answer, hdirectory,
            hmetadata, if_true, Bool.false_eq_true, if_false] at hrun
          exact hkept.takeSnapshot (Program.returns_of_run hrun) files'
  | false =>
      simp only [Program.request_bind, Program.run_call, FileSystem.answer, hdirectory,
        Bool.false_eq_true, if_false, if_true] at hrun
      exact hkept.takeSnapshot (Program.returns_of_run hrun) files'

/-! ## Sessions -/

theorem Bookkept.perform (hkept : manager.Bookkept files) {operation : Operation}
    (hwithin : operation.Within (manager.numBlocks * manager.blockSize))
    {result : List Byte × SigactionVirtualMemoryManager Hash}
    (hrun : (perform build manager operation).run FileSystem.answer files =
      (.returned result, files')) :
    result.2.Bookkept files' ∧ manager.base.SameSession result.2.base := by
  have hinside : ∀ offset < manager.numBlocks * manager.blockSize,
      offset / manager.blockSize < manager.numBlocks := by
    intro offset hoffset
    exact Nat.div_lt_of_lt_mul (by rwa [Nat.mul_comm])
  cases operation with
  | read offset =>
      obtain ⟨byte, between, hread, hlast⟩ := Program.run_bind_returned hrun
      cases hlast
      obtain ⟨mapped, after, haccess, hlast⟩ := Program.run_bind_returned hread
      cases hlast
      have hhandled := hkept.access (hinside offset hwithin) haccess
      exact ⟨hhandled.kept, hhandled.session⟩
  | write offset byte =>
      obtain ⟨written, between, hwrite, hlast⟩ := Program.run_bind_returned hrun
      cases hlast
      obtain ⟨mapped, after, haccess, hlast⟩ := Program.run_bind_returned hwrite
      cases hlast
      have hhandled := hkept.access (hinside offset hwithin) haccess
      have hresident := hhandled.resident
      rw [← hhandled.session.blockSize] at hresident
      exact ⟨hhandled.kept.writeMemory hresident _, hhandled.session⟩
  | msync schedule =>
      obtain ⟨committed, between, hmsync, hlast⟩ := Program.run_bind_returned hrun
      cases hlast
      exact hkept.msync (Program.returns_of_run hmsync) _
  | snapshot version schedule =>
      obtain ⟨taken, between, hsnapshot, hlast⟩ := Program.run_bind_returned hrun
      cases hlast
      exact hkept.snapshot hsnapshot

theorem Bookkept.performAll (hkept : manager.Bookkept files) {operations : List Operation}
    (hwithin : ∀ operation ∈ operations,
      operation.Within (manager.numBlocks * manager.blockSize))
    {result : List Byte × SigactionVirtualMemoryManager Hash}
    (hrun : (performAll build operations manager).run FileSystem.answer files =
      (.returned result, files')) : result.2.Bookkept files' := by
  induction operations generalizing manager files result with
  | nil =>
      cases hrun
      exact hkept
  | cons operation rest ih =>
      obtain ⟨first, between, hfirst, hothers⟩ := Program.run_bind_returned hrun
      obtain ⟨others, final, hrest, hlast⟩ := Program.run_bind_returned hothers
      cases hlast
      obtain ⟨hdone, hsession⟩ := hkept.perform (hwithin operation List.mem_cons_self) hfirst
      have hlater : ∀ later ∈ rest,
          later.Within (first.2.numBlocks * first.2.blockSize) := by
        intro later hlater
        rw [hsession.numBlocks, hsession.blockSize]
        exact hwithin later (List.mem_cons_of_mem _ hlater)
      have hlast := ih hdone hlater hrest
      exact hlast

omit [DecidableEq Hash] in
/-- A session starts without resident, dirty or stashed blocks. -/
theorem initial_bookkept {base : VirtualMemoryManagerBase Hash} (hpos : 0 < base.blockSize)
    (hlimit : ∃ count, 0 < count ∧ base.maxMemSize = count * base.blockSize)
    (hstash : ∀ block, base.blockStorage.stashBlockIds block = none)
    (files : FileSystem Hash) : (initial base).Bookkept files where
  blockSize_pos := hpos
  limit := hlimit
  cap := by
    change (∅ : Finset ℕ).card * base.blockSize ≤ base.maxMemSize
    simp
  residency := ⟨fun _ => [],
    { shared := Shared.empty
      resident_lt := fun block hblock => absurd hblock (Finset.notMem_empty block)
      protection := fun _ => rfl
      memory := fun _ => rfl }⟩
  stashed_iff := fun block => by simp [initial, hstash]
  stashed_lt := fun block hblock => absurd hblock (Finset.notMem_empty block)
  dirty_unstashed := fun block hblock => absurd hblock List.not_mem_nil
  stash := BlockStorage.StashKept.of_none hstash

/-- What the lists, the sets and the storage of a manager agree on between two operations,
and what the next operation will find in the storage. -/
structure Consistent (build : Build Hash) (manager : SigactionVirtualMemoryManager Hash)
    (files : FileSystem Hash) : Prop where
  cap : manager.presentBlocks.card * manager.blockSize ≤ manager.maxMemSize
  shared : Shared manager.cleanLru manager.dirtyLru manager.presentBlocks
  stashed_iff : ∀ block, block ∈ manager.stashSet ↔
    ∃ uuid, manager.blockStorage.stashBlockIds block = some uuid
  stashFile : ∀ block uuid, manager.blockStorage.stashBlockIds block = some uuid →
    (files.data (.stash manager.blockStorage.stashDirectory uuid)).isSome
  dirty_unstashed : ∀ block ∈ manager.dirtyLru, block ∉ manager.stashSet
  /-- An eviction takes the last block of a list that has one, and stashes no block that
  has a stash file already. -/
  evicts : manager.presentBlocks.card * manager.blockSize ≥ manager.maxMemSize →
    manager.cleanLru.getLast? = none → ∃ toEvict, manager.dirtyLru.getLast? = some toEvict ∧
      manager.blockStorage.stashBlockIds toEvict = none
  /-- A write to a block of the stash set finds the stash file that it removes. -/
  unstashes : ∀ block ∈ manager.stashSet, manager.blockStorage.stashBlockIds block ≠ none
  /-- So does each step of the loop over the stash set in a commit. -/
  commits : ∀ (stored : List (ℕ × Hash)) schedule done block rest committed,
    Program.arrange schedule ((stored.foldl VirtualMemoryManagerBase.recordStored
      manager.base).stashVector manager.stashSet) = done ++ block :: rest →
    (VirtualMemoryManagerBase.commitStashed build done
      (stored.foldl VirtualMemoryManagerBase.recordStored manager.base)).Returns committed →
    committed.blockStorage.stashBlockIds block ≠ none

omit [DecidableEq Hash] in
theorem Bookkept.consistent (hkept : manager.Bookkept files) (build : Build Hash) :
    manager.Consistent build files where
  cap := hkept.cap
  shared := hkept.shared
  stashed_iff := hkept.stashed_iff
  stashFile := fun block uuid huuid => (hkept.stash.file block uuid huuid).1
  dirty_unstashed := hkept.dirty_unstashed
  evicts := by
    intro hfull hclean
    obtain ⟨toEvict, hlast⟩ := hkept.exists_resident hfull hclean
    have hdirty := List.mem_of_getLast? hlast
    exact ⟨toEvict, hlast, hkept.stashBlockIds_eq_none (hkept.dirty_unstashed toEvict hdirty)⟩
  unstashes := by
    intro block hblock hnone
    obtain ⟨uuid, huuid⟩ := (hkept.stashed_iff block).mp hblock
    rw [hnone] at huuid
    cases huuid
  commits := by
    intro stored schedule done block rest committed horder hreturns hnone
    have hrecorded := VirtualMemoryManagerBase.foldl_recordStored manager.base stored
    have hmember : block ∈ manager.stashSet := by
      rw [← hkept.mem_stashVector hrecorded.session schedule, horder]
      exact List.mem_append_right _ List.mem_cons_self
    have hnodup : (done ++ block :: rest).Nodup := by
      rw [← horder, (Program.arrange_perm schedule _).nodup_iff]
      exact List.nodup_range.filter _
    have hlater : block ∉ done := fun hdone =>
      List.disjoint_of_nodup_append hnodup hdone List.mem_cons_self
    obtain ⟨uuid, huuid⟩ := (hkept.stashed_iff block).mp hmember
    rw [(VirtualMemoryManagerBase.commitStashed_returns hreturns).2, if_neg hlater,
      hrecorded.stashBlockIds, huuid] at hnone
    cases hnone

/-- Whatever one thread has done with a region, the bookkeeping of its manager is
consistent. -/
theorem session_consistent {base : VirtualMemoryManagerBase Hash} (hpos : 0 < base.blockSize)
    (hlimit : ∃ count, 0 < count ∧ base.maxMemSize = count * base.blockSize)
    (hstash : ∀ block, base.blockStorage.stashBlockIds block = none)
    {operations : List Operation}
    (hwithin : ∀ operation ∈ operations, operation.Within (base.numBlocks * base.blockSize))
    {reads : List Byte}
    (hrun : (performAll build operations (initial base)).run FileSystem.answer files =
      (.returned (reads, manager), files')) : manager.Consistent build files' :=
  ((initial_bookkept hpos hlimit hstash files).performAll hwithin hrun).consistent build

/-- A region of two blocks of one byte, of which one is resident at a time. -/
def oneOfTwoBytes : VirtualMemoryManagerBase (Option (List Byte)) :=
  .initial ['/', 'v'] 2 1 1 false (BlockStorage.initial ['/', 'b'] ['/', 's'] 1) fun _ => none

/-- Files with the directories of the region and its table. -/
def oneOfTwoBytesFiles : FileSystem (Option (List Byte)) :=
  ((FileSystem.empty.setDirectory (.path ['/', 'b'])).setDirectory
    (.path ['/', 's'])).setMetadata ['/', 'v'] (some [])

/-- Blocks are evicted dirty and clean, stashed, unstashed by a write and committed from the
stash, and at the end one is stashed. -/
theorem session_consistent_oneOfTwoBytes :
    ∃ last files, (performAll .transparent [.write 0 5, .write 1 7, .write 0 6, .read 1,
        .msync ⟨[], []⟩, .read 0, .write 0 8, .snapshot ['/', 'w'] ⟨[], []⟩, .read 1, .write 1 9,
        .read 0] (initial oneOfTwoBytes)).run FileSystem.answer oneOfTwoBytesFiles =
          (.returned ([7, 6, 7, 8], last), files) ∧
      last.cleanLru = [0] ∧ last.stashSet = {1} ∧ last.Consistent .transparent files := by
  have hpos : 0 < oneOfTwoBytes.blockSize := by decide
  have hlimit : ∃ count, 0 < count ∧
      oneOfTwoBytes.maxMemSize = count * oneOfTwoBytes.blockSize := ⟨1, by decide, rfl⟩
  have hrun : (performAll .transparent [.write 0 5, .write 1 7, .write 0 6, .read 1,
      .msync ⟨[], []⟩, .read 0, .write 0 8, .snapshot ['/', 'w'] ⟨[], []⟩, .read 1, .write 1 9,
      .read 0] (initial oneOfTwoBytes)).run FileSystem.answer oneOfTwoBytesFiles =
        (.returned ([7, 6, 7, 8], _), _) := rfl
  exact ⟨_, _, hrun, rfl, rfl,
    session_consistent hpos hlimit (fun _ => rfl) (by decide) hrun⟩

end SigactionVirtualMemoryManager

end Privateer
