import Privateer.Logic.VersionStore
import Privateer.Sigaction.Durability

/-!
# Sessions on a copy of a version

A session works on a copy of its version: reads show the copy, writes change it, and a commit
makes the version denote it, provided that the blocks above the highest resident one are in the
table already.  Unlike a read-write session, one that may only read ends when it writes.
-/

namespace Privateer

variable {Hash : Type}

/-! ## Regions -/

/-- The bytes of a region of whole blocks. -/
structure ByteRegion where
  numBlocks : ℕ
  bytes : ℕ → Byte

namespace ByteRegion

def zeros (numBlocks : ℕ) : ByteRegion where
  numBlocks := numBlocks
  bytes := fun _ => 0

def write (offset : ℕ) (byte : Byte) (region : ByteRegion) : ByteRegion :=
  { region with bytes := Function.update region.bytes offset byte }

/-- The contents of the blocks, as a version denotes them. -/
def denoted (blockSize : ℕ) (region : ByteRegion) : List (Option (List Byte)) :=
  regionBlocks blockSize region.numBlocks region.bytes

end ByteRegion

namespace SigactionVirtualMemoryManager

open VirtualMemoryManagerBase (Backing SameSession)

/-! ## What a region shows -/

section Shown

variable [DecidableEq Hash]

/-- The contents of a block that an access would find: in memory, in its stash file, or under
its name. -/
def shownBlock (build : Build Hash) (manager : SigactionVirtualMemoryManager Hash)
    (files : FileSystem Hash) (block : ℕ) : Option (List Byte) :=
  if block ∈ manager.presentBlocks then some (manager.memory block)
  else
    match manager.blockStorage.stashBlockIds block with
    | some uuid => files.data (.stash manager.blockStorage.stashDirectory uuid)
    | none => loadName build files manager.blockStorage.baseDirectory manager.blockSize
        (manager.blocksIds block)

/-- The blocks above the highest resident one are in the table already. -/
def Covers (build : Build Hash) (manager : SigactionVirtualMemoryManager Hash)
    (files : FileSystem Hash) : Prop :=
  ∀ block, manager.occupiedBlocks ≤ block → block < manager.numBlocks →
    denotedBlock build files manager.versionMetadataPath block =
      manager.shownBlock build files block

/-- A new table leaves these blocks out, so they must be zero. -/
def CoversZeros (build : Build Hash) (manager : SigactionVirtualMemoryManager Hash)
    (files : FileSystem Hash) : Prop :=
  ∀ block, manager.occupiedBlocks ≤ block → block < manager.numBlocks →
    manager.shownBlock build files block = some (List.replicate manager.blockSize 0)

end Shown

variable [DecidableEq Hash] {blocks : BlocksDirectory Hash}
variable {manager : SigactionVirtualMemoryManager Hash} {files files' : FileSystem Hash}
variable {contents : ℕ → List Byte} {copy : WorkingCopy Path ByteRegion}
variable {version : Path}

theorem Coherent.shownBlock_eq (hsound : blocks.build.Sound)
    (hcompression : blocks.build.useCompression = false)
    (hcoherent : Coherent blocks manager files contents) {block : ℕ}
    (hblock : block < manager.numBlocks) :
    manager.shownBlock blocks.build files block = some (contents block) := by
  unfold shownBlock
  by_cases hpresent : block ∈ manager.presentBlocks
  · rw [if_pos hpresent, hcoherent.residency.memory, if_pos hpresent]
  · have hclean : block ∉ manager.dirtyLru := fun hdirty =>
      hpresent ((hcoherent.residency.shared.mem_iff block).mpr (.inr hdirty))
    have hbacked := hcoherent.backing.backed block hblock hclean
    unfold VirtualMemoryManagerBase.Backs at hbacked
    rw [if_neg hpresent]
    cases huuid : manager.blockStorage.stashBlockIds block with
    | some uuid =>
        rw [huuid] at hbacked
        exact hbacked
    | none =>
        rw [huuid] at hbacked
        rw [hcoherent.backing.storage.baseDirectory, hcoherent.blockSize]
        exact (BlocksDirectory.loadName_eq_some_iff hsound hcompression
          hcoherent.backing.named).mpr hbacked

/-! ## A session and its copy -/

/-- A session works on its copy. -/
structure Works (blocks : BlocksDirectory Hash) (files : FileSystem Hash)
    (manager : SigactionVirtualMemoryManager Hash) (copy : WorkingCopy Path ByteRegion) :
    Prop where
  name : copy.name = manager.versionMetadataPath
  readOnly : copy.readOnly = manager.readOnly
  numBlocks : copy.content.numBlocks = manager.numBlocks
  clean : manager.readOnly = true → manager.dirtyLru = []
  coherent : Coherent blocks manager files (blockOf blocks.blockSize copy.content.bytes)

/-- Another manager of the same session works on what it shows. -/
theorem Works.next (hworks : Works blocks files manager copy)
    {manager' : SigactionVirtualMemoryManager Hash} {bytes : ℕ → Byte}
    (hsame : manager.base.SameSession manager'.base)
    (hclean : manager'.readOnly = true → manager'.dirtyLru = [])
    (hcoherent : Coherent blocks manager' files' (blockOf blocks.blockSize bytes)) :
    Works blocks files' manager'
      { copy with content := { copy.content with bytes := bytes } } where
  name := hworks.name.trans hsame.versionMetadataPath.symm
  readOnly := hworks.readOnly.trans hsame.readOnly.symm
  numBlocks := hworks.numBlocks.trans hsame.numBlocks.symm
  clean := hclean
  coherent := hcoherent

/-- What others do does not disturb a session. -/
theorem Works.rely
    (hworks : Works blocks files manager copy)
    (hrely : (blocks.contract True).Rely manager.blockStorage.stashFiles files files') :
    Works blocks files' manager copy where
  name := hworks.name
  readOnly := hworks.readOnly
  numBlocks := hworks.numBlocks
  clean := hworks.clean
  coherent := hworks.coherent.rely subset_rfl hrely

theorem Works.createDirectory
    (hworks : Works blocks files manager copy) (directory : Directory) :
    Works blocks (files.setDirectory directory) manager copy where
  name := hworks.name
  readOnly := hworks.readOnly
  numBlocks := hworks.numBlocks
  clean := hworks.clean
  coherent := hworks.coherent.of_data_eq
    (BlocksDirectory.promises_createDirectory directory : blocks.Promises files _).directories
      rfl rfl

/-! ## Accesses -/

theorem Works.div_lt (hworks : Works blocks files manager copy) {offset : ℕ}
    (hoffset : offset < manager.numBlocks * blocks.blockSize) :
    offset / manager.blockSize < manager.numBlocks := by
  rw [hworks.coherent.blockSize]
  exact Nat.div_lt_of_lt_mul (by rwa [Nat.mul_comm])

/-- A read makes nothing dirty. -/
theorem access_clean {build : Build Hash} {offset : ℕ}
    {mapped : SigactionVirtualMemoryManager Hash} (hclean : manager.dirtyLru = [])
    (hreturns : (access build manager offset false).Returns mapped) : mapped.dirtyLru = [] := by
  unfold access at hreturns
  dsimp only at hreturns
  split_ifs at hreturns
  · cases hreturns
    exact hclean
  · obtain ⟨handled, hhandler, hlast⟩ := Program.returns_bind.mp hreturns
    have hhandled : handled.dirtyLru = [] := by
      unfold handler at hhandler
      rw [Bool.and_false, if_neg Bool.false_ne_true] at hhandler
      split_ifs at hhandler
      · cases hhandler
        exact hclean
      · obtain ⟨room, hevict, hload⟩ := Program.returns_bind.mp hhandler
        have hroom : room.dirtyLru = [] := by
          unfold evictIfNeeded at hevict
          split_ifs at hevict
          · cases hlru : manager.cleanLru.getLast? with
            | some toEvict =>
                rw [hlru] at hevict
                cases hevict
                exact hclean
            | none =>
                rw [hlru, hclean] at hevict
                cases hevict
          · cases hevict
            exact hclean
        unfold loadAbsent at hload
        cases hpath : room.blockStorage.getBlockStashPath (offset / manager.blockSize) with
        | some path =>
            simp only [hpath, Bool.false_eq_true, if_false] at hload
            obtain ⟨buffer, -, hloaded⟩ := Program.returns_bind.mp hload
            cases hloaded
            exact hroom
        | none =>
            simp only [hpath] at hload
            split_ifs at hload
            · cases hload
              exact hroom
            · obtain ⟨path, -, hrest⟩ := Program.returns_bind.mp hload
              obtain ⟨buffer, -, hloaded⟩ := Program.returns_bind.mp hrest
              cases hloaded
              exact hroom
    split_ifs at hlast
    · cases hlast
      exact hhandled
    · cases hlast

/-- A read gives the byte of the copy. -/
theorem Works.run_read (hsound : blocks.build.Sound)
    (hcompression : blocks.build.useCompression = false)
    (hworks : Works blocks files manager copy) {offset : ℕ}
    (hoffset : offset < manager.numBlocks * blocks.blockSize) :
    ∃ manager' files', (perform blocks.build manager (.read offset)).run FileSystem.answer files =
        (.returned ([copy.content.bytes offset], manager'), files') ∧
      Works blocks files' manager' copy := by
  have hpos := hworks.coherent.blockSize_pos
  have huncompressed : blocks.build.useCompression = true → False := by
    rw [hcompression]
    exact Bool.false_ne_true
  obtain ⟨result, files', hrun, ⟨owned', hheld', hbyte, hsame⟩, -⟩ :=
    BlocksDirectory.run_of_ensures (ensures_readByte hsound ⟨hworks.coherent, subset_rfl⟩
      (hworks.div_lt hoffset) huncompressed)
  rw [getD_blockOf hpos] at hbyte
  refine ⟨result.2, files', ?_, hworks.next hsame ?_ hheld'.coherent⟩
  · rw [perform, Program.run_bind_of_returned hrun, hbyte]
    rfl
  · rw [hsame.readOnly]
    intro hreadOnly
    obtain ⟨mapped, haccess, hlast⟩ := Program.returns_bind.mp (Program.returns_of_run hrun)
    cases hlast
    exact access_clean (hworks.clean hreadOnly) haccess

/-- A write changes the byte of the copy. -/
theorem Works.run_write (hsound : blocks.build.Sound)
    (hcompression : blocks.build.useCompression = false)
    (hworks : Works blocks files manager copy) (hreadWrite : copy.readOnly = false) {offset : ℕ}
    (hoffset : offset < manager.numBlocks * blocks.blockSize) (byte : Byte) :
    ∃ manager' files', (perform blocks.build manager (.write offset byte)).run FileSystem.answer
        files = (.returned ([], manager'), files') ∧
      Works blocks files' manager' { copy with content := copy.content.write offset byte } := by
  have hpos := hworks.coherent.blockSize_pos
  rw [hworks.readOnly] at hreadWrite
  have hexit : blocks.build.useCompression = true ∨ manager.readOnly = true → False := by
    rw [hcompression, hreadWrite]
    exact fun h => h.elim Bool.false_ne_true Bool.false_ne_true
  obtain ⟨written, files', hrun, ⟨owned', hheld', hsame⟩, -⟩ :=
    BlocksDirectory.run_of_ensures (ensures_writeByte hsound ⟨hworks.coherent, subset_rfl⟩
      (hworks.div_lt hoffset) byte hexit)
  have hregion : writeRegion blocks.blockSize (blockOf blocks.blockSize copy.content.bytes) offset
      byte = blockOf blocks.blockSize (Function.update copy.content.bytes offset byte) :=
    (blockOf_update hpos copy.content.bytes offset byte).symm
  rw [hregion] at hheld'
  refine ⟨written, files', ?_, hworks.next hsame ?_ hheld'.coherent⟩
  · rw [perform, Program.run_bind_of_returned hrun]
    rfl
  · rw [hsame.readOnly, hreadWrite]
    exact fun hfalse => absurd hfalse Bool.false_ne_true

/-- A write ends a session that may only read, and changes nothing. -/
theorem Works.run_write_readOnly (hworks : Works blocks files manager copy)
    (hreadOnly : copy.readOnly = true) (offset : ℕ) (byte : Byte) :
    (perform blocks.build manager (.write offset byte)).run FileSystem.answer files =
      (.exited, files) := by
  rw [hworks.readOnly] at hreadOnly
  have hforbids : (manager.protection (offset / manager.blockSize)).permits true = false := by
    rw [hworks.coherent.residency.protection, hworks.clean hreadOnly,
      if_neg List.not_mem_nil]
    split_ifs
    · rfl
    · rfl
  have hhandler : handler blocks.build manager (offset / manager.blockSize) true = .exit := by
    rw [handler, hreadOnly]
    rfl
  have haccess : (access blocks.build manager offset true).run FileSystem.answer files =
      (.exited, files) := by
    unfold access
    dsimp only
    rw [hforbids, if_neg Bool.false_ne_true, hhandler]
    rfl
  exact Program.run_bind_of_exited (Program.run_bind_of_exited haccess)

/-! ## Commits -/

omit [DecidableEq Hash] in
theorem msync_clean {build : Build Hash} {committed : SigactionVirtualMemoryManager Hash}
    {schedule : MsyncSchedule} (hreturns : (msync build manager schedule).Returns committed) :
    committed.dirtyLru = [] := by
  obtain ⟨stored, hstored, hrest⟩ := Program.returns_bind.mp hreturns
  obtain ⟨-, -, hlast⟩ := Program.returns_bind.mp hrest
  obtain ⟨result, -, hresult⟩ := Program.returns_bind.mp hstored
  cases hresult
  cases hlast
  rfl

/-- The names that a commit writes stand for the copy. -/
theorem Works.run_msync (hsound : blocks.build.Sound)
    (hcompression : blocks.build.useCompression = false)
    (hworks : Works blocks files manager copy) {entries : List Hash}
    (hintact : blocks.Intact files manager.versionMetadataPath manager.regionMaxCapacity entries)
    (hcovers : manager.Covers blocks.build files) (schedule : MsyncSchedule) :
    ∃ committed final, (msync blocks.build manager schedule).run FileSystem.answer files =
        (.returned committed, final) ∧
      Works blocks final committed copy ∧
        (final.metadata manager.versionMetadataPath).isSome ∧
          denotedBlocks blocks.build final manager.versionMetadataPath =
            some (copy.content.denoted blocks.blockSize) := by
  have hcoherent := hworks.coherent
  have hnamed := hcoherent.backing.named
  obtain ⟨committed, between, hrun, hcommitted⟩ :=
    SigactionVirtualMemoryManager.run_msync hsound hcoherent hintact.metadata schedule
  have hsame := hcommitted.session
  have hoccupied : ((List.range manager.occupiedBlocks).map committed.blocksIds).length =
      manager.occupiedBlocks := by rw [List.length_map, List.length_range]
  have hnum : manager.numBlocks = manager.regionMaxCapacity / blocks.blockSize := by
    rw [VirtualMemoryManagerBase.numBlocks, hcoherent.blockSize]
  have hle : manager.occupiedBlocks ≤ manager.regionMaxCapacity / blocks.blockSize :=
    (VirtualMemoryManagerBase.occupiedBlocks_le hcoherent.residency.resident_lt).trans_eq hnum
  refine ⟨committed, _, hrun, hworks.next hsame (fun _ => msync_clean (Program.returns_of_run hrun))
    (hcommitted.coherent.of_data_eq (fun _ h => h) rfl rfl), ?_, ?_⟩
  · rw [FileSystem.setMetadata_self]
    rfl
  rw [ByteRegion.denoted, hworks.numBlocks, hnum]
  change denotedBlocks blocks.build _ _ = some ((List.range _).map fun block =>
    some (blockOf blocks.blockSize copy.content.bytes block))
  rw [BlocksDirectory.denotedBlocks_overwrite_iff hsound hcompression
    (hcommitted.promises.named hnamed).1 (hintact.keep hnamed hcommitted.promises)
    (hoccupied.trans_le hle) (hcommitted.getD_names hcoherent.residency.resident_lt), hoccupied]
  intro block habove hbelow
  rw [hintact.names_iff hsound (hcommitted.promises.named hnamed).2,
    ← BlocksDirectory.denotedBlock_eq_some_iff hsound hcompression hnamed hintact.toHasVersion,
    hcovers block habove (hbelow.trans_eq hnum.symm)]
  exact hcoherent.shownBlock_eq hsound hcompression (hbelow.trans_eq hnum.symm)

/-- A snapshot under a fresh name denotes the copy. -/
theorem Works.run_takeSnapshot (hsound : blocks.build.Sound)
    (hcompression : blocks.build.useCompression = false)
    (hworks : Works blocks files manager copy)
    (hgranularity : files.texts (.granularity blocks.location) =
      some (some (.number blocks.blockSize))) {version : Path}
    (hfresh : files.metadata version = none) (hdirectory : files.directories (.path version))
    (hcovers : manager.CoversZeros blocks.build files) (schedule : MsyncSchedule) :
    ∃ restored final, (takeSnapshot blocks.build manager version schedule).run FileSystem.answer
        files = (.returned (true, restored), final) ∧
      Works blocks final restored copy ∧ (final.metadata version).isSome ∧
        denotedBlocks blocks.build final version =
          some (copy.content.denoted blocks.blockSize) := by
  have hcoherent := hworks.coherent
  obtain ⟨restored, between, hrun, hcommitted⟩ :=
    SigactionVirtualMemoryManager.run_takeSnapshot hsound hcoherent hdirectory schedule
  rw [hfresh, Option.getD_none, overwrite_nil] at hrun
  have hpromises := hcommitted.promises
  have hoccupied : ((List.range manager.occupiedBlocks).map restored.blocksIds).length =
      manager.occupiedBlocks := by rw [List.length_map, List.length_range]
  have hnum : manager.numBlocks = manager.regionMaxCapacity / blocks.blockSize := by
    rw [VirtualMemoryManagerBase.numBlocks, hcoherent.blockSize]
  have hle : manager.occupiedBlocks ≤ manager.regionMaxCapacity / blocks.blockSize :=
    (VirtualMemoryManagerBase.occupiedBlocks_le hcoherent.residency.resident_lt).trans_eq hnum
  have hgranularity' : between.texts (.granularity blocks.location) =
      some (some (.number blocks.blockSize)) := by
    rw [hpromises.texts]
    exact hgranularity
  have hclean : restored.readOnly = true → restored.dirtyLru = [] := by
    intro _
    have hreturns := Program.returns_of_run hrun
    unfold takeSnapshot at hreturns
    simp only [Program.request_bind, Program.returns_call] at hreturns
    obtain ⟨-, -, hmsync⟩ := hreturns
    obtain ⟨committed, hcommits, hrest⟩ := Program.returns_bind.mp hmsync
    obtain ⟨-, -, hrest⟩ := Program.returns_bind.mp hrest
    obtain ⟨-, -, hlast⟩ := Program.returns_bind.mp hrest
    cases hlast
    have hstored := msync_clean hcommits
    exact hstored
  refine ⟨restored, _, hrun, hworks.next hcommitted.session hclean
    (hcommitted.coherent.of_data_eq (fun _ h => h) rfl rfl), ?_, ?_⟩
  · rw [FileSystem.metadata_writeVersion]
    rfl
  rw [ByteRegion.denoted, hworks.numBlocks, hnum, hcommitted.coherent.backing.storage.baseDirectory,
    hcommitted.session.regionMaxCapacity]
  change denotedBlocks blocks.build _ _ = some ((List.range _).map fun block =>
    some (blockOf blocks.blockSize copy.content.bytes block))
  rw [BlocksDirectory.denotedBlocks_writeVersion_iff hsound hcompression
    (hpromises.named hcoherent.backing.named).1 (hpromises.directories _ hdirectory) hgranularity'
    (hoccupied.trans_le hle) (hcommitted.getD_names hcoherent.residency.resident_lt), hoccupied]
  intro block habove hbelow
  have hblock := hbelow.trans_eq hnum.symm
  rw [← hcoherent.blockSize, ← Option.some.injEq, ← hcovers block habove hblock,
    hcoherent.blockSize]
  exact (hcoherent.shownBlock_eq hsound hcompression hblock).symm

/-- A snapshot under a fresh name, whether or not its directory is there. -/
theorem Works.run_snapshot (hsound : blocks.build.Sound)
    (hcompression : blocks.build.useCompression = false)
    (hworks : Works blocks files manager copy)
    (hgranularity : files.texts (.granularity blocks.location) =
      some (some (.number blocks.blockSize)))
    (hfresh : files.metadata version = none) (hcovers : manager.CoversZeros blocks.build files)
    (schedule : MsyncSchedule) :
    ∃ restored final, (snapshot blocks.build manager version schedule).run FileSystem.answer
        files = (.returned (true, restored), final) ∧
      Works blocks final restored copy ∧ (final.metadata version).isSome ∧
        denotedBlocks blocks.build final version =
          some (copy.content.denoted blocks.blockSize) := by
  cases hdirectory : files.directories (.path version) with
  | true =>
      obtain ⟨restored, final, hrun, hdone⟩ := hworks.run_takeSnapshot hsound hcompression
        hgranularity hfresh hdirectory hcovers schedule
      refine ⟨restored, final, ?_, hdone⟩
      rw [← hrun]
      simp [snapshot, FileSystem.answer, hdirectory, hfresh]
  | false =>
      obtain ⟨restored, final, hrun, hdone⟩ :=
        (hworks.createDirectory (.path version)).run_takeSnapshot hsound hcompression hgranularity
          hfresh (files.setDirectory_self _) hcovers schedule
      refine ⟨restored, final, ?_, hdone⟩
      rw [← hrun]
      simp [snapshot, FileSystem.answer, hdirectory]

end SigactionVirtualMemoryManager

end Privateer
