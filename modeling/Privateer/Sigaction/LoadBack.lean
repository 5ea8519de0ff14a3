import Privateer.Sigaction.HandlerSpec
import Privateer.Storage.StashMap

/-!
# Loading a compressed block back

The writer of a block compresses it into a buffer of `ZSTD_compressBound` bytes and
stores whatever comes out.  The handler refuses to read a file that is larger than a
block.  This module shows that the two agree exactly on the contents whose compressed
form is no longer than the block itself.
-/

namespace Privateer

variable {Hash : Type} [DecidableEq Hash] {blocks : BlocksDirectory Hash}
variable {files later : FileSystem Hash} {name : Hash} {content : List Byte}

/-! ## Stored blocks -/

namespace BlockStorage

/-- The call returned `name` for `content`, by `store_block`, or by
`commit_stash_block` after the calls `events` that stashed it. -/
def StashEvent.Stores (events : List (StashEvent Hash)) (content : List Byte) (name : Hash) :
    StashEvent Hash → Prop
  | .store stored _ returned => stored = content ∧ returned = name
  | .commit blockIndex returned => LastStashed events blockIndex content ∧ returned = name
  | .stash _ _ => False
  | .unstash _ => False

/-- What was stored can be found under the name that was returned. -/
theorem StashMap.stored (hsound : blocks.build.Sound) {start : FileSystem Hash}
    {events : List (StashEvent Hash)} {event : StashEvent Hash}
    {state next : BlockStorage Hash × FileSystem Hash}
    (hmap : StashMap blocks start (stashedContents events) state.1 state.2)
    (hperforms : Performs blocks.build state event next)
    (hstores : event.Stores events content name) : blocks.Stored next.2 name content := by
  cases hperforms with
  | @stash storage storage' files files' stashed block hlength hrun => exact hstores.elim
  | @unstash storage storage' files files' block hstashed hrun => exact hstores.elim
  | @commit storage storage' files files' block returned hstashed hrun =>
      obtain ⟨hlast, rfl⟩ := hstores
      obtain ⟨_, hcommitted, hstored, -⟩ :=
        hmap.commit hsound (stashedContents_eq_some_iff.mpr hlast)
      cases hrun.symm.trans hcommitted
      exact hstored
  | @store storage files files' stored block returned hlength hrun =>
      obtain ⟨rfl, rfl⟩ := hstores
      obtain ⟨_, hreturned, hstored, -⟩ := hmap.store hsound hlength block
      cases hrun.symm.trans hreturned
      exact hstored

omit [DecidableEq Hash] in
theorem stashBlock_returns {storage storage' : BlockStorage Hash} {block : ℕ} {status : Bool}
    (hreturns : (storage.stashBlock content block).Returns (status, storage')) :
    storage' = storage ∨ ∃ uuid, storage' = storage.setStashBlockId block uuid := by
  unfold stashBlock at hreturns
  cases hid : storage.stashBlockIds block with
  | some uuid =>
      rw [hid] at hreturns
      obtain ⟨_, -, hlast⟩ := Program.returns_bind.mp hreturns
      cases hlast
      exact .inl rfl
  | none =>
      rw [hid] at hreturns
      obtain ⟨uuid, -, hrest⟩ := Program.returns_bind.mp hreturns
      obtain ⟨_, -, hlast⟩ := Program.returns_bind.mp hrest
      cases hlast
      exact .inr ⟨some uuid, rfl⟩

end BlockStorage

namespace SigactionVirtualMemoryManager

open BlockStorage (StashEvent Performs StashMap)

variable {manager : SigactionVirtualMemoryManager Hash} {region : ℕ → List Byte} {block : ℕ}

/-! ## The handler on a compressed block -/

/-- A compressed block is read exactly if its file is no larger than a block. -/
theorem run_readBacking_compressed (hsound : blocks.build.Sound)
    (hcompression : blocks.build.useCompression = true) {file : DataFile Hash}
    (hlength : content.length = blocks.blockSize)
    (hfile : files.data file = some (blocks.build.compress content)) :
    (readBacking blocks.build blocks.blockSize file false).run FileSystem.answer files =
      (if (blocks.build.compress content).length ≤ blocks.blockSize then .returned content
        else .exited, files) := by
  have hencode : blocks.build.encode content = blocks.build.compress content := by
    rw [Build.encode, hcompression]
    rfl
  simp only [readBacking, Program.request_bind, Program.run_call, FileSystem.answer, hfile,
    if_true, hcompression, Bool.not_false, Bool.and_self, Option.map_some]
  by_cases hfits : (blocks.build.compress content).length ≤ blocks.blockSize
  · have hdecode : decodeBlock blocks.build blocks.blockSize (blocks.build.compress content) =
        some content := by
      rw [← hencode]
      exact BlocksDirectory.decodeBlock_encode hsound hlength fun _ => hencode ▸ hfits
    rw [if_neg (Nat.not_lt.mpr hfits), if_pos hfits]
    simp only [Program.run_call, FileSystem.answer, hfile, Option.map_some, List.take_length,
      hdecode]
    rfl
  · rw [if_pos (Nat.lt_of_not_le hfits), if_neg hfits]
    rfl

/-- A fault on a block that is neither resident nor stashed, once there is room. -/
theorem run_loadAbsent_compressed (hsound : blocks.build.Sound)
    (hcompression : blocks.build.useCompression = true)
    (hsingle : manager.blockStorage.SingleTiered blocks)
    (hblockSize : manager.blockSize = blocks.blockSize) (hnamed : blocks.Named files)
    (hid : manager.blockStorage.stashBlockIds block = none)
    (hstored : blocks.Stored files (manager.blocksIds block) content) (isWriteFault : Bool) :
    ∃ files', (loadAbsent blocks.build manager block isWriteFault).run FileSystem.answer files =
      (if (blocks.build.compress content).length ≤ blocks.blockSize then
        .returned ((manager.mapBlock block content (faultProtection isWriteFault)).makeResident
          block isWriteFault)
        else .exited, files') := by
  have hname : manager.blocksIds block ≠ blocks.build.emptyBlockHash := by
    rw [← hstored.hash]
    exact hsound.computeHash_ne_empty content
  have hencode : blocks.build.encode content = blocks.build.compress content := by
    rw [Build.encode, hcompression]
    rfl
  have hensures : (blocks.contract False).ensures (manager.blockStorage.getBlockFullPath
      blocks.build block (manager.blocksIds block)) _ ∅ files :=
    BlockStorage.ensures_getBlockFullPath hsingle block _
  obtain ⟨path, files', hpath, ⟨_, rfl, -⟩, hpromises⟩ := BlocksDirectory.run_of_ensures hensures
  have hfile := (hstored.keep (hpromises.named hnamed).2).file
  rw [hencode] at hfile
  have hread := run_readBacking_compressed hsound hcompression hstored.length hfile
  rw [← hblockSize] at hread
  refine ⟨files', ?_⟩
  unfold loadAbsent BlockStorage.getBlockStashPath
  simp only [hid, Option.map_none, if_neg hname]
  rw [Program.run_bind_of_returned hpath, ← hblockSize]
  by_cases hfits : (blocks.build.compress content).length ≤ manager.blockSize
  · rw [if_pos hfits] at hread ⊢
    exact Program.run_bind_of_returned hread
  · rw [if_neg hfits] at hread ⊢
    exact Program.run_bind_of_exited hread

omit [DecidableEq Hash] in
/-- Eviction leaves the names, and what is stashed of any other block. -/
theorem evictIfNeeded_returns {room : SigactionVirtualMemoryManager Hash}
    (hresidency : manager.Residency region) (habsent : block ∉ manager.presentBlocks)
    (hreturns : (evictIfNeeded manager).Returns room) :
    room.blocksIds = manager.blocksIds ∧
      room.blockStorage.stashBlockIds block = manager.blockStorage.stashBlockIds block := by
  unfold evictIfNeeded at hreturns
  split_ifs at hreturns
  · cases hclean : manager.cleanLru.getLast? with
    | some toEvict =>
        rw [hclean] at hreturns
        cases hreturns
        exact ⟨rfl, rfl⟩
    | none =>
        rw [hclean] at hreturns
        cases hdirty : manager.dirtyLru.getLast? with
        | none =>
            rw [hdirty] at hreturns
            exact hreturns.elim
        | some toEvict =>
            rw [hdirty] at hreturns
            have hresident : toEvict ∈ manager.presentBlocks :=
              (hresidency.shared.mem_iff toEvict).mpr (.inr (List.mem_of_getLast? hdirty))
            have hne : block ≠ toEvict := fun hsame => habsent (hsame ▸ hresident)
            obtain ⟨stashed, hstash, hlast⟩ := Program.returns_bind.mp hreturns
            cases hlast
            obtain ⟨result, hresult, hrest⟩ := Program.returns_bind.mp hstash
            split_ifs at hrest
            · cases hrest
              rcases BlockStorage.stashBlock_returns hresult with hsame | ⟨uuid, hset⟩
              · exact ⟨rfl, congrArg (fun storage => storage.stashBlockIds block) hsame⟩
              · refine ⟨rfl, ?_⟩
                change result.2.stashBlockIds block = _
                rw [hset, BlockStorage.setStashBlockId_apply, if_neg hne]
            · exact hrest.elim
  · cases hreturns
    exact ⟨rfl, rfl⟩

/-- A fault that loads a compressed block returns exactly if the file is no larger than
the block, and then the block has its contents. -/
theorem run_handler_compressed (hsound : blocks.build.Sound)
    (hcompression : blocks.build.useCompression = true)
    (hcoherent : Coherent blocks manager files region) {isWriteFault : Bool}
    (hallowed : manager.readOnly = true → isWriteFault = false)
    (habsent : block ∉ manager.presentBlocks)
    (hid : manager.blockStorage.stashBlockIds block = none)
    (hstored : blocks.Stored files (manager.blocksIds block) content) :
    (∃ handled files', (handler blocks.build manager block isWriteFault).run FileSystem.answer
        files = (.returned handled, files') ∧ handled.memory block = content) ↔
      (blocks.build.compress content).length ≤ blocks.blockSize := by
  have hensures : (blocks.contract False).ensures (evictIfNeeded manager) _
      manager.blockStorage.stashFiles files := ensures_evictIfNeeded ⟨hcoherent, subset_rfl⟩
  obtain ⟨room, files₁, hevict, ⟨_, ⟨hroom, -⟩, hsession, -⟩, hpromises⟩ :=
    BlocksDirectory.run_of_ensures hensures
  obtain ⟨hids, hstash⟩ := evictIfNeeded_returns hcoherent.residency habsent
    (Program.returns_of_run hevict)
  have hstored₁ : blocks.Stored files₁ (room.blocksIds block) content := by
    rw [hids]
    exact hstored.keep (hpromises.named hcoherent.backing.named).2
  obtain ⟨files', hload⟩ := run_loadAbsent_compressed hsound hcompression hroom.backing.storage
    hroom.blockSize hroom.backing.named (hstash.trans hid) hstored₁ isWriteFault
  have hguard : ¬ (manager.readOnly && isWriteFault) = true := by
    rw [Bool.and_eq_true]
    rintro ⟨hreadOnly, hwrite⟩
    rw [hallowed hreadOnly] at hwrite
    cases hwrite
  rw [handler, if_neg hguard, if_neg habsent, Program.run_bind_of_returned hevict, hload]
  by_cases hfits : (blocks.build.compress content).length ≤ blocks.blockSize
  · rw [if_pos hfits]
    refine iff_of_true ⟨_, files', rfl, ?_⟩ hfits
    cases isWriteFault with
    | true => exact Function.update_self _ _ _
    | false => exact Function.update_self _ _ _
  · rw [if_neg hfits]
    refine iff_of_false ?_ hfits
    rintro ⟨handled, last, hreturned, -⟩
    cases (Prod.mk.inj hreturned).1

/-! ## Storing and loading -/

/-- After any calls on a storage, a block that one more call stored is loaded back by a
later fault exactly if its compressed form is no longer than a block. -/
theorem loads_back_iff (hsound : blocks.build.Sound)
    (hcompression : blocks.build.useCompression = true) {storage : BlockStorage Hash}
    (hsingle : storage.SingleTiered blocks)
    (hdirectory : files.directories (.path storage.stashDirectory))
    (hnamed : blocks.Named files) (hnone : ∀ block, storage.stashBlockIds block = none)
    {trace : List (StashEvent Hash × (BlockStorage Hash × FileSystem Hash))}
    (hrun : Run (Performs blocks.build) (storage, files) trace) {event : StashEvent Hash}
    {next : BlockStorage Hash × FileSystem Hash}
    (hperforms : Performs blocks.build (Run.last (storage, files) trace) event next)
    (hstores : event.Stores (trace.map Prod.fst) content name)
    (hlater : blocks.Tolerates next.2 later)
    (hcoherent : Coherent blocks manager later region) (hname : manager.blocksIds block = name)
    (habsent : block ∉ manager.presentBlocks)
    (hid : manager.blockStorage.stashBlockIds block = none) {isWriteFault : Bool}
    (hallowed : manager.readOnly = true → isWriteFault = false) :
    (∃ handled final, (handler blocks.build manager block isWriteFault).run FileSystem.answer
        later = (.returned handled, final) ∧ handled.memory block = content) ↔
      (blocks.build.compress content).length ≤ blocks.blockSize := by
  have hstart := StashMap.of_none hsingle hdirectory hnamed hnone
  have hmap : StashMap blocks files (BlockStorage.stashedContents (trace.map Prod.fst)) _ _ :=
    StashMap.run hsound hrun hstart
  have hstored := hmap.stored hsound hperforms hstores
  have hnext := (hmap.step hsound hperforms).named
  have hkept : blocks.Stored later (manager.blocksIds block) content := by
    rw [hname]
    exact hstored.keep (hlater.named hnext).2
  exact run_handler_compressed hsound hcompression hcoherent hallowed habsent hid hkept

/-- A compressor that has a short form for one block only. -/
def framing : Build (Option (List Byte)) :=
  { Build.transparent with
    useCompression := true
    compress := fun content => if content = [0] then [] else 0 :: content
    decompress := fun frame => if frame = [] then some [0] else some frame.tail }

theorem framing_sound : framing.Sound where
  computeHash_injective := Option.some_injective _
  computeHash_ne_empty := fun content => Option.some_ne_none content
  decompress_compress := by
    intro _ content
    by_cases hzero : content = [0]
    · simp [framing, hzero]
    · simp [framing, hzero]

/-- Blocks of one byte. -/
def framedBlocks : BlocksDirectory (Option (List Byte)) := ⟨framing, ['d', '/', 'b'], 1⟩

/-- A new storage of framed blocks and its files. -/
def framedStart : BlockStorage (Option (List Byte)) × FileSystem (Option (List Byte)) :=
  (.initial ['d', '/', 'b'] ['d', '/', 's'] 1,
    { FileSystem.empty with directories := fun _ => true })

/-- A session whose only block has the name of a byte. -/
def framedManager (byte : Byte) : SigactionVirtualMemoryManager (Option (List Byte)) :=
  initial (.initial ['v'] 1 1 1 false framedStart.1 fun _ => some [byte])

/-- The files once the byte was stored. -/
def framedFiles (byte : Byte) : FileSystem (Option (List Byte)) :=
  ((framedStart.1.storeBlock framing [byte] true 0).run FileSystem.answer framedStart.2).2

/-- The new storage maps nothing. -/
theorem framedStart_map :
    StashMap framedBlocks framedStart.2 (fun _ => none) framedStart.1 framedStart.2 :=
  StashMap.of_none ⟨rfl, rfl, rfl⟩ rfl (fun _ _ _ hbytes => by cases hbytes) fun _ => rfl

theorem framed_store (byte : Byte) :
    Performs framing framedStart (.store [byte] 0 (some [byte]))
      (framedStart.1.noteStored 0, framedFiles byte) := by
  have hlength : [byte].length = framedStart.1.blockGranularity := rfl
  obtain ⟨files', hrun, -⟩ := framedStart_map.store framing_sound hlength 0
  have hfiles : framedFiles byte = files' := congrArg Prod.snd hrun
  rw [hfiles]
  exact .store rfl hrun

theorem framedManager_coherent (byte : Byte) :
    Coherent framedBlocks (framedManager byte) (framedFiles byte) fun _ => [byte] := by
  have hmap := framedStart_map.step framing_sound (framed_store byte)
  have hstored : framedBlocks.Stored (framedFiles byte) (some [byte]) [byte] := by
    have hstores : (StashEvent.store [byte] 0 (some [byte])).Stores [] [byte] (some [byte]) :=
      ⟨rfl, rfl⟩
    exact framedStart_map.stored framing_sound (framed_store byte) hstores
  have hstarted : VirtualMemoryManagerBase.Backing framedBlocks (framedManager byte).base ∅ []
      (framedFiles byte) fun _ => [byte] :=
    { storage := ⟨rfl, rfl, rfl⟩
      stashDirectory := hmap.directory
      named := hmap.named
      stashed_iff := by
        intro block
        simp [framedManager, initial, VirtualMemoryManagerBase.initial, framedStart,
          BlockStorage.initial]
      stashed_lt := fun block hblock => absurd hblock (Finset.notMem_empty block)
      stash_injective := by
        intro block other uuid huuid
        cases huuid
      allocated := by
        rintro _ ⟨block, uuid, huuid, -⟩
        cases huuid
      dirty_unstashed := fun block hblock => absurd hblock List.not_mem_nil
      length := fun _ => rfl
      backed := fun _ _ _ => .inr hstored }
  exact ⟨rfl, Nat.one_pos, le_rfl, ⟨Shared.empty, fun block hblock =>
    absurd hblock (Finset.notMem_empty block), fun _ => rfl, fun _ => rfl⟩, hstarted⟩

/-- The block that the compressor shortens is loaded back. -/
theorem loads_back_iff_short :
    (∃ handled final, (handler framing (framedManager 0) 0 false).run FileSystem.answer
        (framedFiles 0) = (.returned handled, final) ∧ handled.memory 0 = [0]) ↔
      (framing.compress [0]).length ≤ 1 := by
  have hrun : Run (Performs framedBlocks.build) (framedStart.1, framedStart.2) [] := .nil
  have hperforms : Performs framedBlocks.build framedStart (.store [0] 0 (some [0]))
      (framedStart.1.noteStored 0, framedFiles 0) := framed_store 0
  exact loads_back_iff framing_sound rfl framedStart_map.single rfl framedStart_map.named
    (fun _ => rfl) hrun hperforms ⟨rfl, rfl⟩ (BlocksDirectory.Tolerates.refl _)
    (framedManager_coherent 0) rfl (Finset.notMem_empty 0) rfl fun _ => rfl

/-- The file of any other block is larger than a block, and the fault that loads it
terminates the process. -/
theorem incompressible_block_exits :
    Performs framing framedStart (.store [5] 0 (some [5]))
        (framedStart.1.noteStored 0, framedFiles 5) ∧
      Coherent framedBlocks (framedManager 5) (framedFiles 5) (fun _ => [5]) ∧
        ((handler framing (framedManager 5) 0 false).run FileSystem.answer
          (framedFiles 5)).1 = .exited :=
  ⟨framed_store 5, framedManager_coherent 5, rfl⟩

end SigactionVirtualMemoryManager

end Privateer
