import Privateer.Storage.Tiers

/-!
# The calls of storing and of looking up

Which system calls `store_block` and `get_block_full_path` make follows from the location of
a tier, the subdirectory of a name and the index of the block alone.  The rules here reduce a
statement about all their calls to one about these few kinds of calls.
-/

namespace Privateer

variable {Hash : Type}

/-- The calls on one tier with which a block is stored under a name. -/
structure TierPermits (allowed : Call Hash → Prop) (location : Path) (subdirectory : ℕ)
    (name : Hash) : Prop where
  directoryExists : allowed (.directoryExists (.subdirectory location subdirectory))
  createDirectory : allowed (.createDirectory (.subdirectory location subdirectory))
  fileExists : allowed (.fileExists (.block location subdirectory name))
  mkstemp : ∀ index, allowed (.mkstemp location subdirectory index)
  ftruncate : ∀ index suffix length,
    allowed (.ftruncate (.temporary location subdirectory index suffix) length)
  pwrite : ∀ index suffix bytes,
    allowed (.pwrite (.temporary location subdirectory index suffix) bytes)
  rename : ∀ index suffix, allowed (.rename (.temporary location subdirectory index suffix)
    (.block location subdirectory name))
  remove : ∀ index suffix, allowed (.remove (.temporary location subdirectory index suffix))
  close : allowed .close

namespace BlockStorage

variable {build : Build Hash} {storage : BlockStorage Hash} {allowed : Call Hash → Prop}
variable {name : Hash} {onStash : Bool} {A : Type}

/-- The directory of a tier. -/
def tierDirectory (storage : BlockStorage Hash) (onStash : Bool) : Path :=
  if onStash then storage.stashDirectory else storage.baseDirectory

/-- All calls on the tier with which a block is stored under the name are allowed. -/
def Permits (build : Build Hash) (storage : BlockStorage Hash) (allowed : Call Hash → Prop)
    (name : Hash) (onStash : Bool) : Prop :=
  TierPermits allowed (storage.tierDirectory onStash) (build.prefixIndex name % numSubdirs) name

theorem callsOnly_closeOrExit (hclose : allowed .close) {next : StorageProgram Hash A}
    (hnext : next.CallsOnly allowed) :
    Program.CallsOnly allowed (closeOrExit >>= fun _ => next) := by
  refine ⟨hclose, fun closed => ?_⟩
  cases closed with
  | true => exact hnext
  | false => trivial

/-- The subdirectory of a name is looked for and made if need be. -/
theorem permits_getBlocksSubdirectory (hpermits : storage.Permits build allowed name onStash) :
    (getBlocksSubdirectory build storage name onStash).CallsOnly allowed := by
  refine ⟨hpermits.directoryExists, fun found => ?_⟩
  cases found with
  | true => trivial
  | false =>
      refine ⟨hpermits.createDirectory, fun created => ?_⟩
      cases created with
      | true => trivial
      | false => trivial

/-- A block is stored through a temporary file of its subdirectory. -/
theorem permits_storeBlockOn {buffer : List Byte} {writeToFile : Bool} {index : ℕ}
    {preComputedHash : Option Hash}
    (hpermits : storage.Permits build allowed
      (preComputedHash.getD (build.computeHash buffer)) onStash) :
    (storeBlockOn build storage buffer writeToFile index onStash preComputedHash).CallsOnly
      allowed := by
  unfold storeBlockOn
  generalize preComputedHash.getD (build.computeHash buffer) = name at hpermits ⊢
  apply Program.CallsOnly.bind_of_returns (permits_getBlocksSubdirectory hpermits)
  intro directory hdirectory
  have htier : TierPermits allowed directory.1 directory.2 name := by
    rw [getBlocksSubdirectory_returns hdirectory]
    exact hpermits
  have hcreates : (createTemporaryUniqueBlock build storage directory.1 directory.2
      index).CallsOnly allowed := by
    refine ⟨htier.mkstemp index, fun drawn => ?_⟩
    cases drawn with
    | none => trivial
    | some suffix =>
        cases hcompression : build.useCompression with
        | true => trivial
        | false =>
            refine ⟨htier.ftruncate index suffix _, fun sized => ?_⟩
            cases sized with
            | true => trivial
            | false => trivial
  apply Program.CallsOnly.bind_of_returns hcreates
  intro temporary htemporary
  obtain ⟨suffix, rfl⟩ := createTemporaryUniqueBlock_returns htemporary
  have hpublishes : (publishTemporary (.temporary directory.1 directory.2 index suffix)
      (.block directory.1 directory.2 name) name).CallsOnly allowed := by
    refine ⟨htier.rename index suffix, fun renamed => ?_⟩
    cases renamed with
    | true => exact callsOnly_closeOrExit htier.close trivial
    | false =>
        refine ⟨htier.fileExists, fun found => ?_⟩
        cases found with
        | false => exact callsOnly_closeOrExit htier.close trivial
        | true =>
            refine ⟨htier.remove index suffix, fun removed => ?_⟩
            cases removed with
            | true => exact callsOnly_closeOrExit htier.close trivial
            | false => trivial
  have hwrites : (writeTemporary build (.temporary directory.1 directory.2 index suffix)
      buffer).CallsOnly allowed := by
    unfold writeTemporary
    cases hcompression : build.useCompression with
    | true =>
        refine ⟨htier.ftruncate index suffix _, fun sized => ?_⟩
        cases sized with
        | true => exact ⟨htier.pwrite index suffix _, fun _ => trivial⟩
        | false => trivial
    | false => exact ⟨htier.pwrite index suffix _, fun _ => trivial⟩
  refine ⟨htier.fileExists, fun found => ?_⟩
  cases found with
  | true =>
      refine ⟨htier.remove index suffix, fun removed => ?_⟩
      cases removed with
      | true => exact callsOnly_closeOrExit htier.close trivial
      | false => exact callsOnly_closeOrExit htier.close trivial
  | false =>
      cases writeToFile with
      | false => exact hpublishes
      | true =>
          apply hwrites.bind
          intro written
          cases written with
          | true => exact hpublishes
          | false => trivial

theorem permits_storeBlock {buffer : List Byte} {writeToFile : Bool} {index : ℕ}
    (hpermits : ∀ onStash, storage.Permits build allowed (build.computeHash buffer) onStash) :
    (storeBlock build storage buffer writeToFile index).CallsOnly allowed := by
  unfold storeBlock
  cases htier : storage.isMultiTiered with
  | false => exact permits_storeBlockOn (hpermits false)
  | true =>
      apply (permits_storeBlockOn (hpermits true)).bind
      intro stored
      cases stored with
      | none => trivial
      | some stored => exact permits_storeBlockOn (hpermits false)

/-- A block is looked up in its subdirectories, and copied between them. -/
theorem permits_getBlockFullPath {index : ℕ}
    (hpermits : ∀ onStash, storage.Permits build allowed name onStash)
    (hcopy : allowed (.copyFile
      (.block storage.baseDirectory (build.prefixIndex name % numSubdirs) name)
      (.block storage.stashDirectory (build.prefixIndex name % numSubdirs) name))) :
    (getBlockFullPath build storage index name).CallsOnly allowed := by
  unfold getBlockFullPath
  apply Program.CallsOnly.bind_of_returns (permits_getBlocksSubdirectory (hpermits false))
  intro baseSubdir hbase
  cases htier : storage.isMultiTiered with
  | false => trivial
  | true =>
      apply Program.CallsOnly.bind_of_returns (permits_getBlocksSubdirectory (hpermits true))
      intro stashSubdir hstash
      rw [getBlocksSubdirectory_returns hbase, getBlocksSubdirectory_returns hstash]
      by_cases hrecorded : (storage.stashCommittedBlockIds index).isSome = true
      · simp only [hrecorded, if_true]
        trivial
      · simp only [hrecorded]
        apply Program.CallsOnly.bind
        · refine ⟨(hpermits true).fileExists, fun found => ?_⟩
          cases found with
          | true => trivial
          | false => exact ⟨hcopy, fun _ => trivial⟩
        · intro copied
          cases copied with
          | true => trivial
          | false => trivial

/-- The calls with which the stash file of a block is read and committed. -/
structure CommitPermits (build : Build Hash) (storage : BlockStorage Hash)
    (allowed : Call Hash → Prop) (file : DataFile Hash) : Prop where
  tiers : ∀ name onStash, storage.Permits build allowed name onStash
  openFile : allowed (.openFile file false)
  pread : ∀ count, allowed (.pread file count)
  remove : allowed (.remove file)
  rename : ∀ name onStash, allowed (.rename file
    (.block (storage.tierDirectory onStash) (build.prefixIndex name % numSubdirs) name))

theorem permits_readStash {file : DataFile Hash}
    (hpermits : storage.CommitPermits build allowed file) :
    (readStash storage file).CallsOnly allowed := by
  refine ⟨hpermits.openFile, fun opened => ?_⟩
  cases opened with
  | false => trivial
  | true =>
      refine ⟨hpermits.pread _, fun bytes => ?_⟩
      cases bytes with
      | none => trivial
      | some bytes =>
          exact callsOnly_closeOrExit (hpermits.tiers build.emptyBlockHash false).close trivial

/-- The part of a commit that follows once the stash file is read. -/
def commitContent (build : Build Hash) (storage : BlockStorage Hash) (index : ℕ)
    (file : DataFile Hash) (buffer : List Byte) :
    StorageProgram Hash (Option Hash × BlockStorage Hash) := do
  let blockHash := build.computeHash buffer
  let directory ← getBlocksSubdirectory build storage blockHash storage.isMultiTiered
  let published := DataFile.block directory.1 directory.2 blockHash
  if ← systemCall (.fileExists published) then
    if ← systemCall (.remove file) then
      return (some blockHash, storage.setStashBlockId index none)
    else return (none, storage)
  else if build.useCompression then commitByStore build storage buffer index file blockHash
  else commitByRename build storage buffer index file published blockHash

theorem commitStashBlock_eq {index uuid : ℕ} (huuid : storage.stashBlockIds index = some uuid) :
    commitStashBlock build storage index =
      readStash storage (.stash storage.stashDirectory uuid) >>=
        commitContent build storage index (.stash storage.stashDirectory uuid) := by
  rw [commitStashBlock, huuid]
  rfl

/-- A commit stores the block that it has read, or renames its stash file. -/
theorem permits_commitContent {index : ℕ} {file : DataFile Hash} {buffer : List Byte}
    (hbase : storage.Permits build allowed (build.computeHash buffer) false)
    (htier : storage.Permits build allowed (build.computeHash buffer) storage.isMultiTiered)
    (hremove : allowed (.remove file))
    (hrename : allowed (.rename file (.block (storage.tierDirectory storage.isMultiTiered)
      (build.prefixIndex (build.computeHash buffer) % numSubdirs) (build.computeHash buffer)))) :
    (commitContent build storage index file buffer).CallsOnly allowed := by
  apply Program.CallsOnly.bind_of_returns (permits_getBlocksSubdirectory htier)
  intro directory hdirectory
  rw [getBlocksSubdirectory_returns hdirectory]
  have hstores : (storeBlockOn build storage buffer true index false
      (some (build.computeHash buffer))).CallsOnly allowed :=
    permits_storeBlockOn hbase
  refine ⟨htier.fileExists, fun found => ?_⟩
  cases found with
  | true =>
      refine ⟨hremove, fun removed => ?_⟩
      cases removed with
      | true => trivial
      | false => trivial
  | false =>
      cases hcompression : build.useCompression with
      | true =>
          apply hstores.bind
          intro stored
          cases stored with
          | none => trivial
          | some stored =>
              refine ⟨hremove, fun removed => ?_⟩
              cases removed with
              | true => trivial
              | false => trivial
      | false =>
          refine ⟨hrename, fun renamed => ?_⟩
          cases renamed with
          | true =>
              apply hstores.bind
              intro stored
              cases stored with
              | none => trivial
              | some stored => trivial
          | false =>
              refine ⟨htier.fileExists, fun found => ?_⟩
              cases found with
              | false => trivial
              | true =>
                  refine ⟨hremove, fun removed => ?_⟩
                  cases removed with
                  | false => trivial
                  | true =>
                      change Program.CallsOnly _
                        (if storage.isMultiTiered = true then _ else _)
                      cases hmulti : storage.isMultiTiered with
                      | false => trivial
                      | true => exact hstores.bind fun stored => trivial

theorem permits_commitStashBlock {index : ℕ}
    (hpermits : ∀ uuid, storage.stashBlockIds index = some uuid →
      storage.CommitPermits build allowed (.stash storage.stashDirectory uuid)) :
    (commitStashBlock build storage index).CallsOnly allowed := by
  cases huuid : storage.stashBlockIds index with
  | none =>
      rw [commitStashBlock, huuid]
      trivial
  | some uuid =>
      have hfile := hpermits uuid huuid
      rw [commitStashBlock_eq huuid]
      exact (permits_readStash hfile).bind fun buffer =>
        permits_commitContent (hfile.tiers _ _) (hfile.tiers _ _) hfile.remove
          (hfile.rename _ _)

/-- A block is found in the subdirectory of its name, with two tiers on the stash tier; the
directories of the storage stay. -/
theorem getBlockFullPath_result {index : ℕ} {found : (Path × ℕ) × BlockStorage Hash}
    (hreturns : (getBlockFullPath build storage index name).Returns found) :
    found.1 = (storage.tierDirectory storage.isMultiTiered, build.prefixIndex name % numSubdirs) ∧
      found.2.baseDirectory = storage.baseDirectory ∧
      found.2.stashDirectory = storage.stashDirectory := by
  obtain ⟨baseSubdir, hbase, hrest⟩ := Program.returns_bind.mp hreturns
  cases htier : storage.isMultiTiered with
  | false =>
      rw [htier] at hrest
      cases hrest
      exact ⟨getBlocksSubdirectory_returns hbase, rfl, rfl⟩
  | true =>
      rw [htier] at hrest
      obtain ⟨stashSubdir, hstash, hlast⟩ := Program.returns_bind.mp hrest
      have hdirectory := getBlocksSubdirectory_returns hstash
      by_cases hrecorded : (storage.stashCommittedBlockIds index).isSome = true
      · simp only [hrecorded, if_true] at hlast
        cases hlast
        exact ⟨hdirectory, rfl, rfl⟩
      · simp only [hrecorded] at hlast
        obtain ⟨copied, -, hcopied⟩ := Program.returns_bind.mp hlast
        cases copied with
        | true =>
            cases hcopied
            exact ⟨hdirectory, rfl, rfl⟩
        | false => exact hcopied.elim

end BlockStorage

end Privateer
