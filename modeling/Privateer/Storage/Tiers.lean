import Privateer.Storage.ConcurrentCommits

/-!
# Storing blocks on every tier

A storage has one tier or two, each a directory of blocks.  Storing a block puts it on
every tier, under its hash, whatever other threads store at the same time: what a call
does on one tier leaves the blocks of the other alone.
-/

namespace Privateer

variable {Hash : Type}

/-- The call changes no block at the location, and no version. -/
def Call.Avoids (location : Path) : Call Hash → Prop
  | .directoryExists _ => True
  | .createDirectory _ => True
  | .fileExists _ => True
  | .ftruncate file _ => ∀ subdirectory name, file ≠ .block location subdirectory name
  | .pwrite file _ => ∀ subdirectory name, file ≠ .block location subdirectory name
  | .close => True
  | .rename source target =>
      (∀ subdirectory name, source ≠ .block location subdirectory name) ∧
        ∀ subdirectory name, target ≠ .block location subdirectory name
  | .remove file => ∀ subdirectory name, file ≠ .block location subdirectory name
  | .mkstemp _ _ _ => True
  | _ => False

/-- The same blocks in another directory. -/
def BlocksDirectory.at (blocks : BlocksDirectory Hash) (location : Path) :
    BlocksDirectory Hash :=
  { blocks with location := location }

/-- The directories that a storage keeps its blocks in. -/
def BlockStorage.tiers (storage : BlockStorage Hash) : Set Path :=
  {location | location = storage.baseDirectory ∨
    (storage.isMultiTiered = true ∧ location = storage.stashDirectory)}

variable [DecidableEq Hash] {blocks : BlocksDirectory Hash} {files : FileSystem Hash}
variable {location : Path} {tiers : Set Path}

namespace BlocksDirectory

theorem promises_setData {file : DataFile Hash} {content : Option (List Byte)}
    (hfile : ∀ subdirectory name, file ≠ .block blocks.location subdirectory name) :
    blocks.Promises files (files.setData file content) :=
  ⟨tolerates_of_blocks_eq (fun _ h => h) fun subdirectory name =>
    FileSystem.setData_of_ne files (hfile subdirectory name).symm content, rfl, rfl⟩

/-- A call that avoids a directory of blocks keeps the promises on it. -/
theorem promises_of_avoids {call : Call Hash} (hcall : call.Avoids blocks.location) :
    blocks.Promises files (files.answer call).2 := by
  cases call with
  | createDirectory directory => exact promises_createDirectory directory
  | ftruncate file length =>
      simp only [FileSystem.answer]
      split
      · exact promises_setData hcall
      · exact Promises.refl files
  | pwrite file bytes =>
      simp only [FileSystem.answer]
      split
      · exact promises_setData hcall
      · exact Promises.refl files
  | rename source target =>
      simp only [FileSystem.answer]
      split
      · split
        · exact (promises_setData hcall.1).trans (promises_setData hcall.2)
        · exact Promises.refl files
      · exact Promises.refl files
  | remove file =>
      simp only [FileSystem.answer]
      split
      · exact promises_setData hcall
      · exact Promises.refl files
  | mkstemp location subdirectory blockIndex =>
      simp only [FileSystem.answer]
      split
      · have hset : blocks.Promises files
            (files.setData (.temporary location subdirectory blockIndex files.fresh) (some [])) :=
          promises_setData fun _ _ => by simp
        exact ⟨⟨hset.directories, hset.named⟩, rfl, rfl⟩
      · exact Promises.refl files
  | directoryExists directory => exact Promises.refl files
  | fileExists file => exact Promises.refl files
  | close => exact Promises.refl files
  | _ => exact hcall.elim

/-- What the step of a thread leaves to the others: the directories of blocks keep the
promises, and of the numbers drawn so far only the thread's own have other files. -/
structure Advances (blocks : BlocksDirectory Hash) (mine : Set ℕ)
    (files files' : FileSystem Hash) : Prop where
  promises : ∀ location, (blocks.at location).Promises files files'
  fresh : files.fresh ≤ files'.fresh
  temporaries : ∀ file number, file.drawn = some number → number < files.fresh → number ∉ mine →
    files'.data file = files.data file

omit [DecidableEq Hash] in
theorem Advances.refl (mine : Set ℕ) (files : FileSystem Hash) : blocks.Advances mine files files :=
  ⟨fun _ => Promises.refl files, le_rfl, fun _ _ _ _ _ => rfl⟩

omit [DecidableEq Hash] in
theorem Advances.trans {mine : Set ℕ} {middle files' : FileSystem Hash}
    (hfirst : blocks.Advances mine files middle) (hsecond : blocks.Advances mine middle files') :
    blocks.Advances mine files files' where
  promises := fun location => (hfirst.promises location).trans (hsecond.promises location)
  fresh := hfirst.fresh.trans hsecond.fresh
  temporaries := fun file number hdrawn hlt hmine =>
    (hsecond.temporaries file number hdrawn (hlt.trans_le hfirst.fresh) hmine).trans
      (hfirst.temporaries file number hdrawn hlt hmine)

omit [DecidableEq Hash] in
theorem advances_createDirectory (mine : Set ℕ) (directory : Directory) :
    blocks.Advances mine files (files.setDirectory directory) :=
  ⟨fun _ => promises_createDirectory directory, le_rfl, fun _ _ _ _ _ => rfl⟩

/-- The contract of a storage with several directories of blocks. -/
def tierContract (blocks : BlocksDirectory Hash) (tiers : Set Path) (mayExit : Prop) :
    Contract (FileSystem.interface : Interface (Call Hash) Reply _ _) where
  tolerates := fun files files' => ∀ location ∈ tiers, (blocks.at location).Tolerates files files'
  promises := fun files files' => ∀ location ∈ tiers, (blocks.at location).Promises files files'
  mayExit := mayExit
  tolerates_refl := fun files _ _ => Tolerates.refl files
  tolerates_trans := fun _ _ _ hfirst hsecond location hlocation =>
    (hfirst location hlocation).trans (hsecond location hlocation)
  promises_refl := fun files _ _ => Promises.refl files
  promises_trans := fun _ _ _ hfirst hsecond location hlocation =>
    (hfirst location hlocation).trans (hsecond location hlocation)

theorem tierContract_mutual {mayExit : Prop} : (blocks.tierContract tiers mayExit).Mutual :=
  fun _ _ hpromises location hlocation => (hpromises location hlocation).toTolerates

/-- The blocks on every tier hold what their names are hashes of. -/
def TiersNamed (blocks : BlocksDirectory Hash) (tiers : Set Path) (files : FileSystem Hash) :
    Prop :=
  ∀ location ∈ tiers, (blocks.at location).Named files

/-- The block can be read back on every tier. -/
def TiersStored (blocks : BlocksDirectory Hash) (tiers : Set Path) (files : FileSystem Hash)
    (name : Hash) (content : List Byte) : Prop :=
  ∀ location ∈ tiers, (blocks.at location).Stored files name content

end BlocksDirectory

namespace BlockStorage

variable {build : Build Hash} {storage : BlockStorage Hash} {name : Hash} {index : ℕ}

/-! ## The calls on one tier -/

omit [DecidableEq Hash]

theorem avoids_closeOrExit {A : Type} (result : A) :
    Program.CallsOnly (Call.Avoids location)
      (do closeOrExit; return result : StorageProgram Hash A) := by
  refine ⟨trivial, fun closed => ?_⟩
  cases closed with
  | true => trivial
  | false => trivial

theorem avoids_getBlocksSubdirectory (onStash : Bool) :
    (getBlocksSubdirectory build storage name onStash).CallsOnly (Call.Avoids location) := by
  refine ⟨trivial, fun found => ?_⟩
  cases found with
  | true => trivial
  | false =>
      refine ⟨trivial, fun created => ?_⟩
      cases created with
      | true => trivial
      | false => trivial

theorem createTemporaryUniqueBlock_returns {directory : Path} {subdirectory : ℕ}
    {temporary : DataFile Hash}
    (hreturns : (createTemporaryUniqueBlock build storage directory subdirectory index).Returns
      temporary) : ∃ suffix, temporary = .temporary directory subdirectory index suffix := by
  obtain ⟨drawn, hdrawn⟩ := hreturns
  cases drawn with
  | none => exact hdrawn.elim
  | some suffix =>
      refine ⟨suffix, ?_⟩
      cases hcompression : build.useCompression with
      | true =>
          simp only [hcompression, if_true] at hdrawn
          exact hdrawn.symm
      | false =>
          simp only [hcompression, Bool.false_eq_true, if_false] at hdrawn
          obtain ⟨sized, hsized⟩ := hdrawn
          cases sized with
          | true => exact hsized.symm
          | false => exact hsized.elim

theorem avoids_createTemporaryUniqueBlock (directory : Path) (subdirectory : ℕ) :
    (createTemporaryUniqueBlock build storage directory subdirectory index).CallsOnly
      (Call.Avoids location) := by
  refine ⟨trivial, fun drawn => ?_⟩
  cases drawn with
  | none => trivial
  | some suffix =>
      cases hcompression : build.useCompression with
      | true => trivial
      | false =>
          refine ⟨fun _ _ => by simp, fun sized => ?_⟩
          cases sized with
          | true => trivial
          | false => trivial

theorem avoids_writeTemporary {temporary : DataFile Hash} (buffer : List Byte)
    (htemporary : ∀ subdirectory name, temporary ≠ .block location subdirectory name) :
    (writeTemporary build temporary buffer).CallsOnly (Call.Avoids location) := by
  unfold writeTemporary
  cases hcompression : build.useCompression with
  | true =>
      refine ⟨htemporary, fun sized => ?_⟩
      cases sized with
      | true => exact ⟨htemporary, fun _ => trivial⟩
      | false => trivial
  | false => exact ⟨htemporary, fun _ => trivial⟩

theorem avoids_publishTemporary {temporary published : DataFile Hash}
    (htemporary : ∀ subdirectory name, temporary ≠ .block location subdirectory name)
    (hpublished : ∀ subdirectory name, published ≠ .block location subdirectory name) :
    (publishTemporary temporary published name).CallsOnly (Call.Avoids location) := by
  refine ⟨⟨htemporary, hpublished⟩, fun renamed => ?_⟩
  cases renamed with
  | true => exact avoids_closeOrExit _
  | false =>
      refine ⟨trivial, fun found => ?_⟩
      cases found with
      | false => exact avoids_closeOrExit _
      | true =>
          refine ⟨htemporary, fun removed => ?_⟩
          cases removed with
          | true => exact avoids_closeOrExit _
          | false => trivial

/-- Storing on one tier avoids the blocks of the others. -/
theorem avoids_storeBlockOn {buffer : List Byte} {onStash : Bool} {preComputedHash : Option Hash}
    (hother : (if onStash then storage.stashDirectory else storage.baseDirectory) ≠ location) :
    (storeBlockOn build storage buffer true index onStash preComputedHash).CallsOnly
      (Call.Avoids location) := by
  unfold storeBlockOn
  generalize preComputedHash.getD (build.computeHash buffer) = name
  apply Program.CallsOnly.bind_of_returns (avoids_getBlocksSubdirectory onStash)
  intro directory hdirectory
  have hlocation : directory.1 ≠ location := by
    rw [getBlocksSubdirectory_returns hdirectory]
    exact hother
  have hpublished : ∀ subdirectory other,
      DataFile.block directory.1 directory.2 name ≠ .block location subdirectory other :=
    fun subdirectory other hsame => hlocation (DataFile.block.inj hsame).1
  apply Program.CallsOnly.bind_of_returns (avoids_createTemporaryUniqueBlock _ _)
  intro temporary htemporary
  obtain ⟨suffix, rfl⟩ := createTemporaryUniqueBlock_returns htemporary
  refine ⟨trivial, fun found => ?_⟩
  cases found with
  | true =>
      refine ⟨fun _ _ => by simp, fun removed => ?_⟩
      cases removed with
      | true => exact avoids_closeOrExit _
      | false => exact avoids_closeOrExit _
  | false =>
      apply Program.CallsOnly.bind (avoids_writeTemporary buffer fun _ _ => by simp)
      intro written
      cases written with
      | true => exact avoids_publishTemporary (fun _ _ => by simp) hpublished
      | false => trivial

/-! ## Every tier -/

variable [DecidableEq Hash] {mayExit : Prop} {owned : Set Resource} {buffer : List Byte}

/-- A block is stored on one tier; the others are left alone. -/
theorem ensures_storeOnTier (hsound : blocks.build.Sound) (onStash : Bool)
    (hsize : storage.blockGranularity = blocks.blockSize)
    (hlocation : (if onStash then storage.stashDirectory else storage.baseDirectory) = location)
    (hmember : location ∈ tiers) (hlength : buffer.length = blocks.blockSize)
    (hnamed : (blocks.at location).Named files) :
    (blocks.tierContract tiers mayExit).ensures
      (storeBlockOn blocks.build storage buffer true index onStash none)
      (fun result _ files' => result = some (blocks.build.computeHash buffer) ∧
        (blocks.at location).Stored files' (blocks.build.computeHash buffer) buffer)
      owned files := by
  -- The same program with the tier in question as the only one.
  let single : BlockStorage Hash :=
    { storage with
      baseDirectory := location
      stashDirectory := location }
  have hsame : storeBlockOn blocks.build storage buffer true index onStash none =
      storeBlockOn blocks.build single buffer true index false none := by
    subst hlocation
    cases onStash with
    | true => rfl
    | false => rfl
  have hsingle : single.SingleTiered (blocks.at location) :=
    ⟨rfl, hsize, by simp [isMultiTiered, single]⟩
  have hsound' : (blocks.at location).build.Sound := hsound
  have hone : ((blocks.at location).contract mayExit).ensures
      (storeBlockOn (blocks.at location).build single buffer true index false none) _
      owned files :=
    ensures_storeBlockOn hsound' hsingle hlength index rfl hnamed
  have hcalls : (storeBlockOn (blocks.at location).build single buffer true index false
      none).CallsOnly fun call => ∀ other, location ≠ other → call.Avoids other :=
    Program.CallsOnly.all fun other hother => avoids_storeBlockOn hother
  have htolerates : ∀ files files', (blocks.tierContract tiers mayExit).tolerates files files' →
      ((blocks.at location).contract mayExit).tolerates files files' :=
    fun files files' htolerated => htolerated location hmember
  have hpromises : ∀ (call : Call Hash) (files : FileSystem Hash) reply files',
      (∀ other, location ≠ other → call.Avoids other) →
        FileSystem.interface.answers call files reply files' →
          ((blocks.at location).contract mayExit).promises files files' →
            (blocks.tierContract tiers mayExit).promises files files' := by
    intro call files reply files' hcall hanswer hpromised other hother
    by_cases hsame : location = other
    · rw [← hsame]
      exact hpromised
    · have hfiles : (files.answer call).2 = files' := by
        rw [show files.answer call = (reply, files') from hanswer]
      rw [← hfiles]
      exact BlocksDirectory.promises_of_avoids (hcall other hsame)
  rw [hsame]
  apply Contract.ensures_mono
    (Contract.ensures_strengthen htolerates hpromises id hcalls hone)
  rintro result owned' files' ⟨hresult, hstored, -⟩
  exact ⟨hresult, hstored⟩

omit [DecidableEq Hash] in
theorem baseDirectory_mem_tiers : storage.baseDirectory ∈ storage.tiers :=
  .inl rfl

theorem kept_tiersNamed {kept : Set Path} (hsubset : kept ⊆ tiers)
    (files files' : FileSystem Hash)
    (hstep : (blocks.tierContract tiers mayExit).tolerates files files')
    (hnamed : blocks.TiersNamed kept files) : blocks.TiersNamed kept files' :=
  fun location hlocation =>
    ((hstep location (hsubset hlocation)).named (hnamed location hlocation)).1

/-- A block that is stored on a tier stays there. -/
theorem stored_of_tolerates {files' : FileSystem Hash} {content : List Byte}
    (hstep : (blocks.tierContract tiers mayExit).tolerates files files')
    (hmember : location ∈ tiers) (hnamed : (blocks.at location).Named files)
    (hstored : (blocks.at location).Stored files name content) :
    (blocks.at location).Stored files' name content :=
  hstored.keep ((hstep location hmember).named hnamed).2

/-- A block is stored on every tier of its storage; other directories of blocks are left
alone. -/
theorem ensures_storeOnTiers (hsound : blocks.build.Sound)
    (hsize : storage.blockGranularity = blocks.blockSize)
    (hlength : buffer.length = blocks.blockSize) (hsubset : storage.tiers ⊆ tiers)
    (hnamed : blocks.TiersNamed storage.tiers files) :
    (blocks.tierContract tiers mayExit).ensures
      (storeBlock blocks.build storage buffer true index)
      (fun result _ files' => result = some (blocks.build.computeHash buffer) ∧
        blocks.TiersStored storage.tiers files' (blocks.build.computeHash buffer) buffer)
      owned files := by
  have hmutual : (blocks.tierContract tiers mayExit).Mutual :=
    BlocksDirectory.tierContract_mutual
  have hbase : storage.baseDirectory ∈ storage.tiers := baseDirectory_mem_tiers
  unfold storeBlock
  cases htier : storage.isMultiTiered with
  | false =>
      apply Contract.ensures_mono (ensures_storeOnTier hsound false hsize rfl (hsubset hbase)
        hlength (hnamed _ hbase))
      rintro result owned' files' ⟨hresult, hstored⟩
      refine ⟨hresult, ?_⟩
      rintro location (rfl | ⟨hmulti, -⟩)
      · exact hstored
      · rw [htier] at hmulti
        cases hmulti
  | true =>
      have hstash : storage.stashDirectory ∈ storage.tiers := .inr ⟨htier, rfl⟩
      apply Contract.ensures_bind_of (Contract.ensures_keep hmutual (kept_tiersNamed hsubset)
        hnamed (ensures_storeOnTier hsound true hsize rfl (hsubset hstash) hlength
          (hnamed _ hstash)))
      rintro _ owned₁ files₁ ⟨⟨rfl, hstored⟩, hnamed₁⟩
      have hkept : ∀ files files', (blocks.tierContract tiers mayExit).tolerates files
          files' → (blocks.TiersNamed storage.tiers files ∧
            (blocks.at storage.stashDirectory).Stored files
              (blocks.build.computeHash buffer) buffer) →
          blocks.TiersNamed storage.tiers files' ∧
            (blocks.at storage.stashDirectory).Stored files'
              (blocks.build.computeHash buffer) buffer := fun files files' hstep hfiles =>
        ⟨kept_tiersNamed hsubset files files' hstep hfiles.1,
          stored_of_tolerates hstep (hsubset hstash) (hfiles.1 _ hstash) hfiles.2⟩
      apply Contract.ensures_mono (Contract.ensures_keep hmutual hkept ⟨hnamed₁, hstored⟩
        (ensures_storeOnTier hsound false hsize rfl (hsubset hbase) hlength (hnamed₁ _ hbase)))
      rintro result owned' files' ⟨⟨hresult, hstored'⟩, -, hstash'⟩
      refine ⟨hresult, ?_⟩
      rintro location (rfl | ⟨-, rfl⟩)
      · exact hstored'
      · exact hstash'

/-! ## Reading -/

theorem run_getBlocksSubdirectory_eq (onStash : Bool) :
    (getBlocksSubdirectory build storage name onStash).run FileSystem.answer files =
      (.returned (if onStash then storage.stashDirectory else storage.baseDirectory,
          build.prefixIndex name % numSubdirs),
        files.setDirectory (.subdirectory
          (if onStash then storage.stashDirectory else storage.baseDirectory)
          (build.prefixIndex name % numSubdirs))) := by
  generalize hbase : (if onStash then storage.stashDirectory else storage.baseDirectory) = base
  cases hdirectory : files.directories
      (.subdirectory base (build.prefixIndex name % numSubdirs)) with
  | true =>
      rw [FileSystem.setDirectory_of_directories hdirectory]
      simp [getBlocksSubdirectory, hbase, FileSystem.answer, hdirectory]
  | false => simp [getBlocksSubdirectory, hbase, FileSystem.answer, hdirectory]

/-- A copy that is there already is the same. -/
theorem run_copyToStash_eq {baseBlock stashBlock : DataFile Hash} {bytes : List Byte}
    (hbase : files.data baseBlock = some bytes)
    (hcopy : ∀ other, files.data stashBlock = some other → other = bytes) :
    (copyToStash baseBlock stashBlock).run FileSystem.answer files =
      (.returned true, files.setData stashBlock (some bytes)) := by
  cases hfound : files.data stashBlock with
  | some other =>
      obtain rfl := hcopy other hfound
      have hsame : files.setData stashBlock (some other) = files := by
        rw [FileSystem.setData, ← hfound, Function.update_eq_self]
      rw [hsame]
      simp [copyToStash, FileSystem.answer, hfound]
  | none => simp [copyToStash, FileSystem.answer, hfound, hbase, systemCall, Program.request]

/-- Putting a block under its hash keeps the promises on a tier. -/
theorem promises_copy (hsound : blocks.build.Sound) {content : List Byte}
    (hlength : content.length = blocks.blockSize)
    (hhash : blocks.build.computeHash content = name) :
    blocks.Promises files
      (files.setData (blocks.blockFile name) (some (blocks.build.encode content))) := by
  refine ⟨⟨fun _ h => h, fun hnamed => ⟨?_, ?_⟩⟩, rfl, rfl⟩
  · intro subdirectory other bytes hbytes
    by_cases hsame : DataFile.block blocks.location subdirectory other = blocks.blockFile name
    · rw [hsame, FileSystem.setData_self, Option.some.injEq] at hbytes
      exact ⟨content, hlength, hhash.trans (DataFile.block.inj hsame).2.2.symm, hbytes.symm⟩
    · rw [FileSystem.setData_of_ne _ hsame] at hbytes
      exact hnamed _ _ _ hbytes
  · intro subdirectory other bytes hbytes
    by_cases hsame : DataFile.block blocks.location subdirectory other = blocks.blockFile name
    · obtain ⟨old, -, hold, rfl⟩ := hnamed _ _ _ hbytes
      have hcontent : content = old := hsound.computeHash_injective
        (hhash.trans ((DataFile.block.inj hsame).2.2.symm.trans hold.symm))
      rw [hsame, FileSystem.setData_self, hcontent]
    · rw [FileSystem.setData_of_ne _ hsame]
      exact hbytes

/-- A thread puts a block under its hash. -/
theorem advances_copy (hsound : blocks.build.Sound) (mine : Set ℕ) (location : Path)
    {content : List Byte} (hlength : content.length = blocks.blockSize)
    (hhash : blocks.build.computeHash content = name) :
    blocks.Advances mine files (files.setData ((blocks.at location).blockFile name)
      (some (blocks.build.encode content))) where
  promises := fun other => by
    by_cases hsame : location = other
    · subst hsame
      have hsound' : (blocks.at location).build.Sound := hsound
      exact promises_copy hsound' hlength hhash
    · exact BlocksDirectory.promises_setData fun subdirectory name' hfile =>
        hsame (DataFile.block.inj hfile).1
  fresh := le_rfl
  temporaries := fun other number hother _ _ =>
    FileSystem.setData_of_ne files (BlocksDirectory.block_ne_of_drawn hother _ _ _).symm _

/-- The path that a storage gives out for a block that it has not looked up before leads
to the block. -/
theorem run_getBlockFullPath_advances (hsound : blocks.build.Sound)
    (hlocation : storage.baseDirectory = blocks.location)
    (hnamed : blocks.TiersNamed storage.tiers files)
    (hunnoted : storage.stashCommittedBlockIds index = none) {content : List Byte}
    (hstored : blocks.Stored files name content) :
    ∃ path noted files', (getBlockFullPath blocks.build storage index name).run
        FileSystem.answer files = (.returned (path,
          { storage with
            stashCommittedBlockIds :=
              Function.update storage.stashCommittedBlockIds index noted }), files') ∧
      files'.data (.block path.1 path.2 name) = some (blocks.build.encode content) ∧
        blocks.Advances ∅ files files' := by
  let baseSubdir : Directory :=
    .subdirectory storage.baseDirectory (blocks.build.prefixIndex name % numSubdirs)
  let stashSubdir : Directory :=
    .subdirectory storage.stashDirectory (blocks.build.prefixIndex name % numSubdirs)
  have hfile : files.data (.block storage.baseDirectory
      (blocks.build.prefixIndex name % numSubdirs) name) =
        some (blocks.build.encode content) := by
    rw [hlocation]
    exact hstored.file
  unfold getBlockFullPath
  rw [Program.run_bind_of_returned (run_getBlocksSubdirectory_eq false)]
  cases htier : storage.isMultiTiered with
  | false =>
      refine ⟨(storage.baseDirectory, blocks.build.prefixIndex name % numSubdirs),
        storage.stashCommittedBlockIds index, files.setDirectory baseSubdir, ?_, hfile,
        BlocksDirectory.advances_createDirectory ∅ baseSubdir⟩
      rw [Function.update_eq_self]
      rfl
  | true =>
      have hmember : storage.stashDirectory ∈ storage.tiers := .inr ⟨htier, rfl⟩
      let prepared := (files.setDirectory baseSubdir).setDirectory stashSubdir
      have hprepared : blocks.Advances ∅ files prepared :=
        (BlocksDirectory.advances_createDirectory ∅ baseSubdir).trans
          (BlocksDirectory.advances_createDirectory ∅ stashSubdir)
      have hcopy : ∀ other, prepared.data (.block storage.stashDirectory
          (blocks.build.prefixIndex name % numSubdirs) name) = some other →
            other = blocks.build.encode content := by
        intro other hother
        obtain ⟨old, -, hold, rfl⟩ := hnamed _ hmember _ _ _ hother
        rw [hsound.computeHash_injective (hold.trans hstored.hash.symm)]
        rfl
      have hbase : prepared.data (.block storage.baseDirectory
          (blocks.build.prefixIndex name % numSubdirs) name) =
            some (blocks.build.encode content) := hfile
      have hcopied := run_copyToStash_eq hbase hcopy
      have hunnoted' : (storage.stashCommittedBlockIds index).isSome = false := by
        rw [hunnoted]
        rfl
      simp only [if_true]
      rw [Program.run_bind_of_returned (run_getBlocksSubdirectory_eq true)]
      simp only [hunnoted', Bool.false_eq_true, if_false]
      refine ⟨(storage.stashDirectory, blocks.build.prefixIndex name % numSubdirs),
        some (some name), _, Program.run_bind_of_returned hcopied, FileSystem.setData_self _ _ _,
        hprepared.trans
          (advances_copy hsound ∅ storage.stashDirectory hstored.length hstored.hash)⟩

theorem run_getBlockFullPath_of_stored (hsound : blocks.build.Sound)
    (hlocation : storage.baseDirectory = blocks.location)
    (hnamed : blocks.TiersNamed storage.tiers files)
    (hunnoted : storage.stashCommittedBlockIds index = none) {content : List Byte}
    (hstored : blocks.Stored files name content) :
    ∃ path noted files', (getBlockFullPath blocks.build storage index name).run
        FileSystem.answer files = (.returned (path,
          { storage with
            stashCommittedBlockIds :=
              Function.update storage.stashCommittedBlockIds index noted }), files') ∧
      files'.data (.block path.1 path.2 name) = some (blocks.build.encode content) ∧
        ∀ location, (blocks.at location).Promises files files' := by
  obtain ⟨path, noted, files', hrun, hfile, hadvances⟩ :=
    run_getBlockFullPath_advances hsound hlocation hnamed hunnoted hstored
  exact ⟨path, noted, files', hrun, hfile, hadvances.promises⟩

end BlockStorage

end Privateer
