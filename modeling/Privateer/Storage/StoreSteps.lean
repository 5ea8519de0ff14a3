import Privateer.Storage.CallRules

/-!
# The steps of storing a block

`store_block` reads its buffer twice: once for the hash, and once for the bytes that it
writes to the temporary file, before the file gets its name.  Here the two ends of the call
are programs of their own, so that a buffer may change between them, and what each does to
the files is stated for a thread that runs it without interruption.
-/

namespace Privateer

variable {Hash : Type}

/-- A temporary file and the name that it is to get; `found` tells that a file of this name
was there already, so that nothing was written. -/
structure Prepared (Hash : Type) where
  temporary : DataFile Hash
  published : DataFile Hash
  found : Bool

namespace BlockStorage

variable {build : Build Hash} {storage : BlockStorage Hash} {buffer : List Byte}
variable {index : ℕ} {onStash : Bool} {name : Hash}

/-- `store_block` from the hash to the end of the write. -/
def prepareBlock (build : Build Hash) (storage : BlockStorage Hash) (buffer : List Byte)
    (blockIndex : ℕ) (onStash : Bool) (blockHash : Hash) :
    StorageProgram Hash (Option (Prepared Hash)) := do
  let directory ← getBlocksSubdirectory build storage blockHash onStash
  let temporary ← createTemporaryUniqueBlock build storage directory.1 directory.2 blockIndex
  let published := DataFile.block directory.1 directory.2 blockHash
  if ← systemCall (.fileExists published) then return some ⟨temporary, published, true⟩
  else if ← writeTemporary build temporary buffer then
    return some ⟨temporary, published, false⟩
  else return none

/-- The rest of `store_block`: the temporary file gets its name, or is removed. -/
def publishPrepared (prepared : Prepared Hash) (blockHash : Hash) :
    StorageProgram Hash (Option Hash) :=
  if prepared.found then do
    if ← systemCall (.remove prepared.temporary) then
      closeOrExit
      return some blockHash
    else
      closeOrExit
      return none
  else publishTemporary prepared.temporary prepared.published blockHash

/-- With a buffer that nobody changes, the two parts are `store_block`. -/
theorem storeBlockOn_eq (preComputedHash : Option Hash) :
    storeBlockOn build storage buffer true index onStash preComputedHash =
      prepareBlock build storage buffer index onStash
          (preComputedHash.getD (build.computeHash buffer)) >>= fun prepared =>
        match prepared with
        | none => return none
        | some prepared =>
            publishPrepared prepared (preComputedHash.getD (build.computeHash buffer)) := by
  unfold storeBlockOn prepareBlock
  simp only [Program.bind_assoc]
  congr 1
  funext directory
  congr 1
  funext temporary
  simp only [Program.request_bind]
  congr 1
  funext found
  cases found with
  | true => rfl
  | false =>
      simp only [Bool.false_eq_true, if_false, if_true, Program.bind_assoc]
      congr 1
      funext written
      cases written with
      | true => rfl
      | false => rfl

/-! ## What they do to the files -/

variable [DecidableEq Hash] {files : FileSystem Hash} {blocks : BlocksDirectory Hash}

/-- The files with one more under a number that is drawn for its name. -/
def drawFile (files : FileSystem Hash) (file : DataFile Hash) (bytes : List Byte) :
    FileSystem Hash :=
  { files.setData file (some bytes) with fresh := files.fresh + 1 }

theorem setData_drawFile (file : DataFile Hash) (old bytes : List Byte) :
    (drawFile files file old).setData file (some bytes) = drawFile files file bytes := by
  rw [drawFile, drawFile, FileSystem.setData, FileSystem.setData, FileSystem.setData,
    Function.update_idem]

theorem run_createTemporaryUniqueBlock (build : Build Hash) (storage : BlockStorage Hash)
    (index : ℕ) {location : Path} {subdirectory : ℕ}
    (hdirectory : files.directories (.subdirectory location subdirectory) = true) :
    ∃ bytes, (createTemporaryUniqueBlock build storage location subdirectory index).run
        FileSystem.answer files = (.returned (.temporary location subdirectory index files.fresh),
          drawFile files (.temporary location subdirectory index files.fresh) bytes) ∧
      (build.useCompression = false → bytes.length = storage.blockGranularity) := by
  cases hcompression : build.useCompression with
  | true =>
      refine ⟨[], ?_, fun hplain => by cases hplain⟩
      simp [createTemporaryUniqueBlock, FileSystem.answer, hdirectory, hcompression, drawFile]
  | false =>
      refine ⟨resize 0 storage.blockGranularity [], ?_, fun _ => length_resize _ _ _⟩
      simp [createTemporaryUniqueBlock, FileSystem.answer, hdirectory, hcompression, drawFile,
        FileSystem.setData]

theorem run_writeTemporary (build : Build Hash) {temporary : DataFile Hash} {old : List Byte}
    (hdata : files.data temporary = some old)
    (hlength : build.useCompression = false → old.length = buffer.length) :
    (writeTemporary build temporary buffer).run FileSystem.answer files =
      (.returned true, files.setData temporary (some (build.encode buffer))) := by
  cases hcompression : build.useCompression with
  | true =>
      have hoverwrite : overwrite (build.compress buffer)
          (resize 0 (build.compress buffer).length old) = build.compress buffer :=
        overwrite_of_length_le (by simp)
      simp [writeTemporary, Build.encode, FileSystem.answer, hdata, hcompression, hoverwrite,
        FileSystem.setData]
  | false =>
      have hoverwrite : overwrite buffer old = buffer :=
        overwrite_of_length_le (hlength hcompression).le
      simp [writeTemporary, Build.encode, FileSystem.answer, hdata, hcompression, hoverwrite]

/-- The subdirectory of a name is there, and one new temporary file; it holds the buffer
unless the name was taken. -/
theorem run_prepareBlock (build : Build Hash) (files : FileSystem Hash) (index : ℕ)
    (onStash : Bool) (name : Hash) (hlength : buffer.length = storage.blockGranularity) :
    ∃ bytes, (prepareBlock build storage buffer index onStash name).run FileSystem.answer files =
        (.returned (some ⟨.temporary (storage.tierDirectory onStash)
              (build.prefixIndex name % numSubdirs) index files.fresh,
            storage.tierFile build name onStash,
            (files.data (storage.tierFile build name onStash)).isSome⟩),
          drawFile (files.setDirectory (storage.tierFile build name onStash).parent)
            (.temporary (storage.tierDirectory onStash) (build.prefixIndex name % numSubdirs)
              index files.fresh) bytes) ∧
      (files.data (storage.tierFile build name onStash) = none → bytes = build.encode buffer) := by
  let prepared := files.setDirectory (storage.tierFile build name onStash).parent
  let temporary : DataFile Hash := .temporary (storage.tierDirectory onStash)
    (build.prefixIndex name % numSubdirs) index files.fresh
  have hdirectory := FileSystem.setDirectory_self files
    (storage.tierFile build name onStash).parent
  obtain ⟨old, hcreate, hold⟩ := run_createTemporaryUniqueBlock build storage index hdirectory
  have hne : storage.tierFile build name onStash ≠ temporary := by simp [tierFile, temporary]
  have hpublished : (drawFile prepared temporary old).data (storage.tierFile build name onStash) =
      files.data (storage.tierFile build name onStash) :=
    FileSystem.setData_of_ne prepared hne (some old)
  cases hfound : files.data (storage.tierFile build name onStash) with
  | some bytes =>
      refine ⟨old, ?_, fun hnone => by cases hnone⟩
      refine (Program.run_bind_of_returned (run_getBlocksSubdirectory_eq onStash)).trans ?_
      refine (Program.run_bind_of_returned hcreate).trans ?_
      have hexists : ((drawFile prepared temporary old).data
          (storage.tierFile build name onStash)).isSome = true := by
        rw [hpublished, hfound]
        rfl
      exact (congrArg (fun program : StorageProgram Hash (Option (Prepared Hash)) =>
        program.run FileSystem.answer (drawFile prepared temporary old)) (if_pos hexists)).trans rfl
  | none =>
      refine ⟨build.encode buffer, ?_, fun _ => rfl⟩
      refine (Program.run_bind_of_returned (run_getBlocksSubdirectory_eq onStash)).trans ?_
      refine (Program.run_bind_of_returned hcreate).trans ?_
      have hexists : ¬ ((drawFile prepared temporary old).data
          (storage.tierFile build name onStash)).isSome = true := by
        rw [hpublished, hfound]
        exact Bool.false_ne_true
      have hdata : (drawFile prepared temporary old).data temporary = some old :=
        FileSystem.setData_self prepared temporary (some old)
      have hwrite := run_writeTemporary build hdata fun hplain =>
        (hold hplain).trans hlength.symm
      refine (congrArg (fun program : StorageProgram Hash (Option (Prepared Hash)) =>
        program.run FileSystem.answer (drawFile prepared temporary old)) (if_neg hexists)).trans ?_
      refine (Program.run_bind_of_returned hwrite).trans ?_
      rw [setData_drawFile]
      rfl

end BlockStorage

/-! ## Beside other threads -/

/-- A temporary file that waits for its name; unless the name was taken, it holds a block
that the name belongs to. -/
structure Prepared.Pending (prepared : Prepared Hash) (blocks : BlocksDirectory Hash)
    (files : FileSystem Hash) (name : Hash) : Prop where
  published : prepared.published = blocks.blockFile name
  directory : files.directories prepared.published.parent = true
  drawn : ∃ number < files.fresh, prepared.temporary.drawn = some number
  written : ∃ bytes, files.data prepared.temporary = some bytes ∧
    (prepared.found = false → ∃ content, content.length = blocks.blockSize ∧
      blocks.build.computeHash content = name ∧ bytes = blocks.build.encode content)

namespace BlocksDirectory

variable {blocks : BlocksDirectory Hash} {files files' : FileSystem Hash} {mine : Set ℕ}
variable {file : DataFile Hash} {number : ℕ}

theorem Advances.named (hadvances : blocks.Advances mine files files') {tiers : Set Path}
    (hnamed : blocks.TiersNamed tiers files) : blocks.TiersNamed tiers files' :=
  fun location hlocation => ((hadvances.promises location).named (hnamed location hlocation)).1

/-- A thread makes a new file under the next number. -/
theorem advances_drawFile [DecidableEq Hash] (directory : Directory)
    (hdrawn : file.drawn = some files.fresh) (bytes : List Byte) :
    blocks.Advances mine files
      (BlockStorage.drawFile (files.setDirectory directory) file bytes) where
  promises := fun location => by
    have hmade : (blocks.at location).Promises files (files.setDirectory directory) :=
      promises_createDirectory directory
    have hset : (blocks.at location).Promises (files.setDirectory directory)
        ((files.setDirectory directory).setData file (some bytes)) :=
      promises_setData fun subdirectory name =>
        (block_ne_of_drawn hdrawn location subdirectory name).symm
    have hboth := hmade.trans hset
    exact ⟨⟨hboth.directories, hboth.named⟩, hboth.metadata, hboth.texts⟩
  fresh := Nat.le_succ _
  temporaries := fun other number hother hlt _ => by
    have hne : other ≠ file := by
      rintro rfl
      rw [hdrawn, Option.some.injEq] at hother
      exact hlt.ne hother.symm
    exact FileSystem.setData_of_ne (files.setDirectory directory) hne (some bytes)

/-- A thread removes its own file. -/
theorem advances_remove [DecidableEq Hash] (hdrawn : file.drawn = some number) :
    blocks.Advances {number} files (files.setData file none) where
  promises := fun location => promises_setData fun subdirectory name =>
    (block_ne_of_drawn hdrawn location subdirectory name).symm
  fresh := le_rfl
  temporaries := fun other number' hother _ hnumber => by
    refine FileSystem.setData_of_ne files ?_ none
    rintro rfl
    rw [hdrawn, Option.some.injEq] at hother
    exact hnumber hother.symm

end BlocksDirectory

section Steps

variable {blocks : BlocksDirectory Hash} {files files' : FileSystem Hash} {mine : Set ℕ}
variable {storage : BlockStorage Hash} {buffer : List Byte} {index number : ℕ} {onStash : Bool}
variable {name : Hash} {prepared : Prepared Hash} {location : Path}

/-- The steps of others leave a temporary file that waits for its name. -/
theorem Prepared.Pending.advance (hpending : prepared.Pending (blocks.at location) files name)
    (hadvances : blocks.Advances mine files files')
    (hmine : ∀ number, prepared.temporary.drawn = some number → number ∉ mine) :
    prepared.Pending (blocks.at location) files' name := by
  obtain ⟨number, hlt, hdrawn⟩ := hpending.drawn
  obtain ⟨bytes, hbytes, hwritten⟩ := hpending.written
  refine ⟨hpending.published, (hadvances.promises location).directories _ hpending.directory,
    ⟨number, hlt.trans_le hadvances.fresh, hdrawn⟩, bytes, ?_, hwritten⟩
  rw [hadvances.temporaries _ number hdrawn hlt (hmine number hdrawn), hbytes]

variable [DecidableEq Hash]

/-- Where the name is the hash of the buffer, or is taken, the write leaves a temporary
file that waits for it. -/
theorem BlockStorage.prepareBlock_returned
    (hgranularity : storage.blockGranularity = blocks.blockSize)
    (hlength : buffer.length = blocks.blockSize)
    (hbuffer : (files.data (storage.tierFile blocks.build name onStash)).isSome ∨
      blocks.build.computeHash buffer = name)
    (hrun : (prepareBlock blocks.build storage buffer index onStash name).run FileSystem.answer
      files = (.returned (some prepared), files')) :
    blocks.Advances mine files files' ∧
      prepared.Pending (blocks.at (storage.tierDirectory onStash)) files' name ∧
        prepared.temporary.drawn = some files.fresh ∧
          (prepared.found = true →
            (files.data (storage.tierFile blocks.build name onStash)).isSome) := by
  obtain ⟨bytes, hprepare, hbytes⟩ := run_prepareBlock blocks.build files index onStash name
    (hlength.trans hgranularity.symm)
  rw [hprepare, Prod.mk.injEq, Outcome.returned.injEq, Option.some.injEq] at hrun
  obtain ⟨rfl, rfl⟩ := hrun
  refine ⟨BlocksDirectory.advances_drawFile _ rfl bytes, ⟨rfl, FileSystem.setDirectory_self _ _,
    ⟨files.fresh, Nat.lt_succ_self _, rfl⟩, bytes, FileSystem.setData_self _ _ _, ?_⟩, rfl, id⟩
  intro hfree
  have hnone : files.data (storage.tierFile blocks.build name onStash) = none :=
    Option.not_isSome_iff_eq_none.mp fun hsome => by
      rw [show (files.data (storage.tierFile blocks.build name onStash)).isSome = false from hfree]
        at hsome
      cases hsome
  have hname : blocks.build.computeHash buffer = name := by
    refine hbuffer.resolve_left ?_
    rw [hnone]
    exact Bool.false_ne_true
  exact ⟨buffer, hlength, hname, hbytes hnone⟩

/-- A temporary file that waits for its name gets it, and leaves the others alone. -/
theorem BlockStorage.publishPrepared_returned (hsound : blocks.build.Sound) {result : Option Hash}
    (hpending : prepared.Pending (blocks.at location) files name)
    (hdrawn : prepared.temporary.drawn = some number)
    (hrun : (publishPrepared prepared name).run FileSystem.answer files =
      (.returned result, files')) :
    result = some name ∧ blocks.Advances {number} files files' ∧
      (prepared.found = false → ∃ content, (blocks.at location).Stored files' name content) := by
  obtain ⟨bytes, hbytes, hwritten⟩ := hpending.written
  cases hfound : prepared.found with
  | true =>
      have hremove : (publishPrepared prepared name).run FileSystem.answer files =
          (.returned (some name), files.setData prepared.temporary none) := by
        simp [publishPrepared, hfound, FileSystem.answer, hbytes, closeOrExit]
      rw [hremove, Prod.mk.injEq, Outcome.returned.injEq] at hrun
      obtain ⟨rfl, rfl⟩ := hrun
      exact ⟨rfl, BlocksDirectory.advances_remove hdrawn, fun hfree => by cases hfree⟩
  | false =>
      obtain ⟨content, hlength, rfl, rfl⟩ := hwritten hfound
      have hpublish : (publishPrepared prepared
          ((blocks.at location).build.computeHash content)).run FileSystem.answer files =
            (.returned (some ((blocks.at location).build.computeHash content)),
              (files.setData prepared.temporary none).setData prepared.published
                (some ((blocks.at location).build.encode content))) := by
        simp [publishPrepared, publishTemporary, hfound, FileSystem.answer, hbytes, closeOrExit,
          hpending.directory]
      rw [hpublish, Prod.mk.injEq, Outcome.returned.injEq] at hrun
      obtain ⟨rfl, rfl⟩ := hrun
      rw [hpending.published]
      refine ⟨rfl, (BlocksDirectory.advances_remove hdrawn).trans
        (advances_copy hsound {number} location hlength rfl), fun _ => ⟨content, hlength, rfl,
          FileSystem.setData_self _ _ _⟩⟩

end Steps

end Privateer
