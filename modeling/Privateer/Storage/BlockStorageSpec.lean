import Privateer.Storage.BlockFiles

/-!
# What the block storage ensures

In a single-tiered datastore every operation of the block storage succeeds,
whatever other threads do within the storage contract: storing a block names it
by its hash, stashing keeps it in an own file, and committing a stash file stores
its content.
-/

namespace Privateer

variable {Hash A : Type} [DecidableEq Hash]

namespace FileSystem

variable {contract : Contract (interface : Interface (Call Hash) Reply _ _)}
variable {post : A → Set Resource → FileSystem Hash → Prop}
variable {owned : Set Resource} {files : FileSystem Hash}

/-- A system call that hands out nothing. -/
theorem ensures_systemCall {call : Call Hash} {next : Reply call → StorageProgram Hash A}
    (hgains : ∀ reply, Resource.gains call reply = ∅)
    (hcall : ∀ before, contract.Rely owned files before →
      contract.Guarantee owned before (before.answer call).2 ∧
        contract.ensures (next (before.answer call).1) post owned (before.answer call).2) :
    contract.ensures (.call call next) post owned files := by
  apply Contract.ensures_call hgains
  intro before hbefore reply after hanswer
  have hcalled := hcall before hbefore
  rw [show before.answer call = (reply, after) from hanswer] at hcalled
  exact hcalled

/-- A system call that only looks. -/
theorem ensures_query {call : Call Hash} {next : Reply call → StorageProgram Hash A}
    (hgains : ∀ reply, Resource.gains call reply = ∅)
    (hquery : ∀ files : FileSystem Hash, (files.answer call).2 = files)
    (hnext : ∀ before, contract.Rely owned files before →
      contract.ensures (next (before.answer call).1) post owned before) :
    contract.ensures (.call call next) post owned files := by
  apply ensures_systemCall hgains
  intro before hbefore
  rw [hquery]
  exact ⟨Contract.Guarantee.refl owned before, hnext before hbefore⟩

end FileSystem

/-- A program that may not exit returns when it runs alone. -/
theorem BlocksDirectory.run_of_ensures {program : StorageProgram Hash A}
    {post : A → Set Resource → FileSystem Hash → Prop} {owned : Set Resource}
    {files : FileSystem Hash} {blocks : BlocksDirectory Hash}
    (hensures : (blocks.contract False).ensures program post owned files) :
    ∃ result files', program.run FileSystem.answer files = (.returned result, files') ∧
      (∃ owned', post result owned' files') ∧ blocks.Promises files files' := by
  have hanswer : ∀ call (state : FileSystem Hash),
      FileSystem.interface.answers call state (state.answer call).1 (state.answer call).2 :=
    fun _ _ => rfl
  obtain ⟨result, files', owned', hrun, hpost, hstep⟩ | ⟨hfalse, -⟩ :=
    Contract.run_of_ensures hanswer hensures
  · exact ⟨result, files', hrun, ⟨owned', hpost⟩, hstep.promised⟩
  · exact hfalse.elim

namespace BlockStorage

open FileSystem (ensures_systemCall ensures_query)

/-- The storage works on one tier of the given blocks directory. -/
structure SingleTiered (storage : BlockStorage Hash) (blocks : BlocksDirectory Hash) :
    Prop where
  baseDirectory : storage.baseDirectory = blocks.location
  granularity : storage.blockGranularity = blocks.blockSize
  tier : storage.isMultiTiered = false

omit [DecidableEq Hash] in
theorem SingleTiered.setStashBlockId {storage : BlockStorage Hash}
    {blocks : BlocksDirectory Hash} (hsingle : storage.SingleTiered blocks) (blockIndex : ℕ)
    (uuid : Option ℕ) : (storage.setStashBlockId blockIndex uuid).SingleTiered blocks :=
  ⟨hsingle.baseDirectory, hsingle.granularity, hsingle.tier⟩

variable {blocks : BlocksDirectory Hash} {mayExit : Prop}
variable {storage : BlockStorage Hash} {owned : Set Resource} {files : FileSystem Hash}

/-- Closing a file and returning. -/
theorem ensures_closeOrExit {result : A}
    {post : A → Set Resource → FileSystem Hash → Prop}
    (hpost : ∀ files', (blocks.contract mayExit).Rely owned files files' →
      post result owned files') :
    (blocks.contract mayExit).ensures
      (do closeOrExit; return result) post owned files := by
  apply ensures_query (fun _ => rfl) (fun _ => rfl)
  intro before hbefore after hafter
  exact hpost after (hbefore.trans hafter)

theorem named_of_rely {files' : FileSystem Hash} (hnamed : blocks.Named files)
    (hrely : (blocks.contract mayExit).Rely owned files files') : blocks.Named files' :=
  (hrely.tolerated.named hnamed).1

theorem stored_of_rely {files' : FileSystem Hash} (hnamed : blocks.Named files)
    (hrely : (blocks.contract mayExit).Rely owned files files') {name : Hash}
    {content : List Byte} (hstored : blocks.Stored files name content) :
    blocks.Stored files' name content :=
  hstored.keep (hrely.tolerated.named hnamed).2

theorem rely_createDirectory {directory : Directory} :
    (blocks.contract mayExit).Rely owned files (files.setDirectory directory) where
  tolerated := (BlocksDirectory.promises_createDirectory directory).toTolerates
  allocated := subset_rfl
  owned := fun resource _ => by
    cases resource with
    | file number => exact fun _ _ => rfl
    | version path => exact .inr ⟨rfl, rfl, rfl⟩

theorem ensures_getBlocksSubdirectory (hsingle : storage.SingleTiered blocks) (name : Hash) :
    (blocks.contract mayExit).ensures
      (getBlocksSubdirectory blocks.build storage name false)
      (fun directory owned' files' =>
        directory = (blocks.location, blocks.build.prefixIndex name % numSubdirs) ∧
          owned' = owned ∧ (blocks.contract mayExit).Rely owned files files' ∧
            files'.directories (blocks.blockFile name).parent)
      owned files := by
  apply ensures_query (fun _ => rfl) (fun _ => rfl)
  intro before hbefore
  rw [if_neg (by simp), hsingle.baseDirectory]
  by_cases hexists : before.directories (.subdirectory blocks.location
      (blocks.build.prefixIndex name % numSubdirs))
  · simp only [FileSystem.answer, hexists]
    intro after hafter
    exact ⟨rfl, rfl, hbefore.trans hafter, hafter.tolerated.directories _ hexists⟩
  · simp only [FileSystem.answer, hexists]
    apply ensures_systemCall (fun _ => rfl)
    intro middle hmiddle
    refine ⟨BlocksDirectory.guarantee_createDirectory, ?_⟩
    intro after hafter
    refine ⟨rfl, rfl, (hbefore.trans hmiddle).trans (rely_createDirectory.trans hafter), ?_⟩
    exact hafter.tolerated.directories _ (Function.update_self _ _ _)

/-- A new temporary file is an own file; without compression it has the size of
a block. -/
theorem ensures_createTemporaryUniqueBlock (hsingle : storage.SingleTiered blocks)
    {location : Path} {subdirectory : ℕ} (blockIndex : ℕ)
    (hdirectory : files.directories (.subdirectory location subdirectory)) :
    (blocks.contract mayExit).ensures
      (createTemporaryUniqueBlock blocks.build storage location subdirectory blockIndex)
      (fun temporary owned' files' => ∃ number content,
        temporary = .temporary location subdirectory blockIndex number ∧
          .file number ∈ owned' ∧ files'.data temporary = some content ∧
            (blocks.build.useCompression = false → content.length = blocks.blockSize) ∧
              ∀ other, .file other ∈ owned' → .file other ∈ owned ∨ other = number)
      owned files := by
  intro before hbefore reply after hanswer
  have hexists := hbefore.tolerated.directories _ hdirectory
  simp only [FileSystem.interface, FileSystem.answer, hexists, if_true, Prod.mk.injEq]
    at hanswer
  obtain ⟨rfl, rfl⟩ := hanswer
  refine ⟨BlocksDirectory.guarantee_draw rfl, ?_⟩
  have hmember : Resource.file before.fresh ∈ owned ∪ Resource.gains
      (.mkstemp location subdirectory blockIndex : Call Hash) (some before.fresh) :=
    .inr ⟨_, rfl, rfl⟩
  have hdrawn : ∀ other, Resource.file other ∈ owned ∪ Resource.gains
      (.mkstemp location subdirectory blockIndex : Call Hash) (some before.fresh) →
        .file other ∈ owned ∨ other = before.fresh := by
    rintro other (hother | ⟨number, hnumber, hother⟩)
    · exact .inl hother
    · cases hnumber
      cases hother
      exact .inr rfl
  cases hcompression : blocks.build.useCompression with
  | true =>
      simp only [if_true]
      intro final hfinal
      refine ⟨before.fresh, [], rfl, hmember, ?_, by simp, hdrawn⟩
      rw [hfinal.owned _ hmember _ rfl]
      exact FileSystem.setData_self _ _ _
  | false =>
      simp only [Bool.false_eq_true, if_false]
      apply ensures_systemCall (fun _ => rfl)
      intro middle hmiddle
      have hempty : middle.data (.temporary location subdirectory blockIndex before.fresh) =
          some [] := by
        rw [hmiddle.owned _ hmember _ rfl]
        exact FileSystem.setData_self _ _ _
      simp only [FileSystem.answer, hempty]
      refine ⟨BlocksDirectory.guarantee_setData rfl hmember, ?_⟩
      intro final hfinal
      refine ⟨before.fresh, resize 0 storage.blockGranularity [], rfl, hmember, ?_, ?_, hdrawn⟩
      · rw [hfinal.owned _ hmember _ rfl]
        exact FileSystem.setData_self _ _ _
      · intro _
        rw [length_resize, hsingle.granularity]

/-- Writing a block into an own file of the right size. -/
theorem ensures_writeTemporary {temporary : DataFile Hash} {number : ℕ}
    (hdrawn : temporary.drawn = some number) (howned : .file number ∈ owned)
    {old buffer : List Byte} (hold : files.data temporary = some old)
    (hlength : blocks.build.useCompression = false → old.length = buffer.length) :
    (blocks.contract mayExit).ensures (writeTemporary blocks.build temporary buffer)
      (fun status owned' files' => status = true ∧ owned' = owned ∧
        files'.data temporary = some (blocks.build.encode buffer))
      owned files := by
  unfold writeTemporary Build.encode
  cases hcompression : blocks.build.useCompression with
  | true =>
      simp only [if_true]
      apply ensures_systemCall (fun _ => rfl)
      intro before hbefore
      have hbeforeData := (hbefore.owned _ howned _ hdrawn).trans hold
      simp only [FileSystem.answer, hbeforeData]
      refine ⟨BlocksDirectory.guarantee_setData hdrawn howned, ?_⟩
      apply ensures_systemCall (fun _ => rfl)
      intro middle hmiddle
      have hmiddleData : middle.data temporary =
          some (resize 0 (blocks.build.compress buffer).length old) := by
        rw [hmiddle.owned _ howned _ hdrawn]
        exact FileSystem.setData_self _ _ _
      simp only [FileSystem.answer, hmiddleData]
      refine ⟨BlocksDirectory.guarantee_setData hdrawn howned, ?_⟩
      intro final hfinal
      refine ⟨rfl, rfl, ?_⟩
      rw [hfinal.owned _ howned _ hdrawn]
      rw [overwrite_of_length_le (by simp)]
      exact FileSystem.setData_self _ _ _
  | false =>
      simp only [Bool.false_eq_true, if_false]
      apply ensures_systemCall (fun _ => rfl)
      intro before hbefore
      have hbeforeData := (hbefore.owned _ howned _ hdrawn).trans hold
      simp only [FileSystem.answer, hbeforeData]
      refine ⟨BlocksDirectory.guarantee_setData hdrawn howned, ?_⟩
      intro final hfinal
      refine ⟨rfl, rfl, ?_⟩
      rw [hfinal.owned _ howned _ hdrawn]
      rw [overwrite_of_length_le (hlength hcompression).le]
      exact FileSystem.setData_self _ _ _

/-- Publishing an own file that holds a block stores the block. -/
theorem ensures_publishTemporary (hsound : blocks.build.Sound) {temporary : DataFile Hash}
    {number : ℕ} (hdrawn : temporary.drawn = some number) (howned : .file number ∈ owned)
    {buffer : List Byte} (hlength : buffer.length = blocks.blockSize)
    (hdata : files.data temporary = some (blocks.build.encode buffer))
    (hnamed : blocks.Named files)
    (hdirectory : files.directories
      (blocks.blockFile (blocks.build.computeHash buffer)).parent) :
    (blocks.contract mayExit).ensures
      (publishTemporary temporary (blocks.blockFile (blocks.build.computeHash buffer))
        (blocks.build.computeHash buffer))
      (fun result owned' files' => result = some (blocks.build.computeHash buffer) ∧
        blocks.Stored files' (blocks.build.computeHash buffer) buffer ∧
          owned' = owned ∧ files'.data temporary = none)
      owned files := by
  apply ensures_systemCall (fun _ => rfl)
  intro before hbefore
  have hbeforeData := (hbefore.owned _ howned _ hdrawn).trans hdata
  have hexists := hbefore.tolerated.directories _ hdirectory
  simp only [FileSystem.answer, hbeforeData, hexists, if_true]
  have hstep : (blocks.contract mayExit).Guarantee owned before _ :=
    BlocksDirectory.guarantee_publish hsound hdrawn howned hlength
  refine ⟨hstep, ?_⟩
  have hnamed' := (hstep.promised.named (named_of_rely hnamed hbefore)).1
  have hne : temporary ≠ blocks.blockFile (blocks.build.computeHash buffer) :=
    (BlocksDirectory.block_ne_of_drawn hdrawn _ _ _).symm
  apply ensures_closeOrExit
  intro final hfinal
  refine ⟨rfl, stored_of_rely hnamed' hfinal ⟨hlength, rfl, ?_⟩, rfl, ?_⟩
  · exact FileSystem.setData_self _ _ _
  · rw [hfinal.owned _ howned _ hdrawn, FileSystem.setData_of_ne _ hne]
    exact FileSystem.setData_self _ _ _

/-- Changing an own file leaves the other own files alone. -/
theorem rely_setData {file : DataFile Hash} {number : ℕ} {content : Option (List Byte)}
    (hdrawn : file.drawn = some number) :
    (blocks.contract mayExit).Rely (owned \ {.file number}) files
      (files.setData file content) where
  tolerated := by
    have hstep : (blocks.contract mayExit).Guarantee {.file number} files
        (files.setData file content) :=
      BlocksDirectory.guarantee_setData hdrawn (Set.mem_singleton _)
    exact hstep.promised.toTolerates
  allocated := subset_rfl
  owned := fun resource hresource => by
    cases resource with
    | file other =>
        intro target htarget
        have hne : target ≠ file := by
          rintro rfl
          rw [hdrawn] at htarget
          cases htarget
          exact hresource.2 rfl
        exact FileSystem.setData_of_ne files hne content
    | version path => exact .inr ⟨rfl, rfl, rfl⟩

/-- Removing an own file. -/
theorem ensures_remove {file : DataFile Hash} {number : ℕ}
    (hdrawn : file.drawn = some number) (howned : .file number ∈ owned)
    {content : List Byte} (hdata : files.data file = some content)
    {next : Bool → StorageProgram Hash A}
    {post : A → Set Resource → FileSystem Hash → Prop}
    (hnext : ∀ files', (blocks.contract mayExit).Rely (owned \ {.file number}) files files' →
      files'.data file = none →
        (blocks.contract mayExit).ensures (next true) post owned files') :
    (blocks.contract mayExit).ensures (.call (.remove file) next) post owned files := by
  apply ensures_systemCall (fun _ => rfl)
  intro before hbefore
  have hbeforeData := (hbefore.owned _ howned _ hdrawn).trans hdata
  simp only [FileSystem.answer, hbeforeData]
  refine ⟨BlocksDirectory.guarantee_setData hdrawn howned, hnext _ ?_
    (FileSystem.setData_self _ _ _)⟩
  exact (hbefore.anti Set.sdiff_subset).trans (rely_setData hdrawn)

/-- Storing a block names it by its hash. -/
theorem ensures_storeBlockOn (hsound : blocks.build.Sound)
    (hsingle : storage.SingleTiered blocks) {buffer : List Byte}
    (hlength : buffer.length = blocks.blockSize) (blockIndex : ℕ)
    {preComputedHash : Option Hash}
    (hhash : preComputedHash.getD (blocks.build.computeHash buffer) =
      blocks.build.computeHash buffer)
    (hnamed : blocks.Named files) :
    (blocks.contract mayExit).ensures
      (storeBlockOn blocks.build storage buffer true blockIndex false preComputedHash)
      (fun result owned' files' => result = some (blocks.build.computeHash buffer) ∧
        blocks.Stored files' (blocks.build.computeHash buffer) buffer ∧
          ∀ number, .file number ∈ owned' → .file number ∈ owned ∨
            files'.data (blocks.temporaryFile (blocks.build.computeHash buffer) blockIndex
              number) = none)
      owned files := by
  unfold storeBlockOn
  generalize preComputedHash.getD (blocks.build.computeHash buffer) = name at hhash
  subst hhash
  apply Contract.ensures_bind_of (Contract.ensures_keep BlocksDirectory.contract_mutual
    BlocksDirectory.kept_named hnamed (ensures_getBlocksSubdirectory hsingle _))
  rintro _ owned₁ files₁ ⟨⟨rfl, rfl, -, hdirectory⟩, hnamed₁⟩
  apply Contract.ensures_bind_of (Contract.ensures_keep BlocksDirectory.contract_mutual
    BlocksDirectory.kept_ready ⟨hnamed₁, hdirectory⟩
    (ensures_createTemporaryUniqueBlock hsingle blockIndex hdirectory))
  rintro _ owned₂ files₂ ⟨⟨number, content, rfl, hmember, hcontent, hsize, hdrawn⟩, hready₂⟩
  simp only [Program.request_bind]
  apply ensures_query (fun _ => rfl) (fun _ => rfl)
  intro before hbefore
  have hready := BlocksDirectory.kept_ready _ _ hbefore.tolerated hready₂
  have hbeforeContent := (hbefore.owned _ hmember _ rfl).trans hcontent
  simp only [FileSystem.answer, if_true]
  split_ifs with hpublished
  · -- Another copy of the block is there: the temporary file is dropped.
    obtain ⟨stored, hstored⟩ := hready.1.stored hpublished
    have hsame : stored = buffer := hsound.computeHash_injective hstored.hash
    subst hsame
    apply ensures_remove rfl hmember hbeforeContent
    intro after hafter hgone
    apply ensures_closeOrExit
    intro final hfinal
    have hrely := hafter.trans (hfinal.anti Set.sdiff_subset)
    refine ⟨rfl, stored_of_rely hready.1 hrely hstored, fun other hother => ?_⟩
    rcases hdrawn other hother with hown | rfl
    · exact .inl hown
    · exact .inr ((hfinal.owned _ hmember _ rfl).trans hgone)
  · apply Contract.ensures_bind_of (Contract.ensures_keep BlocksDirectory.contract_mutual
      BlocksDirectory.kept_ready hready
      (ensures_writeTemporary rfl hmember hbeforeContent ?_))
    · rintro _ owned₃ files₃ ⟨⟨rfl, rfl, hdata⟩, hnamed₃, hdirectory₃⟩
      apply Contract.ensures_mono
        (ensures_publishTemporary hsound rfl hmember hlength hdata hnamed₃ hdirectory₃)
      rintro result owned' files' ⟨hresult, hstored, rfl, hgone⟩
      refine ⟨hresult, hstored, fun other hother => ?_⟩
      rcases hdrawn other hother with hown | rfl
      · exact .inl hown
      · exact .inr hgone
    · intro hcompression
      rw [hsize hcompression, hlength]

theorem ensures_storeBlock (hsound : blocks.build.Sound)
    (hsingle : storage.SingleTiered blocks) {buffer : List Byte}
    (hlength : buffer.length = blocks.blockSize) (blockIndex : ℕ)
    (hnamed : blocks.Named files) :
    (blocks.contract mayExit).ensures
      (storeBlock blocks.build storage buffer true blockIndex)
      (fun result owned' files' => result = some (blocks.build.computeHash buffer) ∧
        blocks.Stored files' (blocks.build.computeHash buffer) buffer ∧
          ∀ number, .file number ∈ owned' → .file number ∈ owned ∨
            files'.data (blocks.temporaryFile (blocks.build.computeHash buffer) blockIndex
              number) = none)
      owned files := by
  unfold storeBlock
  rw [hsingle.tier]
  exact ensures_storeBlockOn hsound hsingle hlength blockIndex rfl hnamed

/-! ## Stash files -/

theorem ensures_writeStash (hsingle : storage.SingleTiered blocks) {block : List Byte}
    (hlength : block.length = blocks.blockSize) {uuid : ℕ} (howned : .file uuid ∈ owned)
    (hdirectory : files.directories (.path storage.stashDirectory)) :
    (blocks.contract mayExit).ensures (writeStash storage block uuid false)
      (fun status owned' files' => status = true ∧ owned' = owned ∧
        files'.data (.stash storage.stashDirectory uuid) = some block)
      owned files := by
  have hdrawn : (DataFile.stash storage.stashDirectory uuid : DataFile Hash).drawn =
      some uuid := rfl
  unfold writeStash
  simp only [Program.request_bind, Bool.false_eq_true, if_false]
  apply ensures_systemCall (fun _ => rfl)
  intro before hbefore
  have hexists := hbefore.tolerated.directories _ hdirectory
  -- The file may exist already: whatever it holds is cut and overwritten.
  obtain ⟨opened, hopened, content, hcontent, hstep⟩ : ∃ opened,
      before.answer (.openFile (.stash storage.stashDirectory uuid) (!false)) =
        (true, opened) ∧
        ∃ content, opened.data (.stash storage.stashDirectory uuid) = some content ∧
          (blocks.contract mayExit).Guarantee owned before opened := by
    cases hdata : before.data (.stash storage.stashDirectory uuid) with
    | some content =>
        refine ⟨before, ?_, content, hdata, Contract.Guarantee.refl owned before⟩
        simp only [FileSystem.answer, hdata]
    | none =>
        refine ⟨before.setData (.stash storage.stashDirectory uuid) (some []), ?_, [],
          FileSystem.setData_self _ _ _, BlocksDirectory.guarantee_setData hdrawn howned⟩
        simp only [FileSystem.answer, hdata, DataFile.parent, hexists, Bool.not_false,
          Bool.true_and, if_true]
  rw [hopened]
  refine ⟨hstep, ?_⟩
  simp only [if_true]
  apply ensures_systemCall (fun _ => rfl)
  intro sized hsized
  have hsizedContent := (hsized.owned _ howned _ hdrawn).trans hcontent
  simp only [FileSystem.answer, hsizedContent, if_true]
  refine ⟨BlocksDirectory.guarantee_setData hdrawn howned, ?_⟩
  apply ensures_systemCall (fun _ => rfl)
  intro written hwritten
  have hwrittenContent := (hwritten.owned _ howned _ hdrawn).trans
    (FileSystem.setData_self _ _ _)
  simp only [FileSystem.answer, hwrittenContent, Option.isSome_some, if_true]
  refine ⟨BlocksDirectory.guarantee_setData hdrawn howned, ?_⟩
  apply ensures_query (fun _ => rfl) (fun _ => rfl)
  intro closed hclosed final hfinal
  refine ⟨rfl, rfl, ?_⟩
  rw [hfinal.owned _ howned _ hdrawn, hclosed.owned _ howned _ hdrawn,
    FileSystem.setData_self, overwrite_of_length_le]
  rw [length_resize, hsingle.granularity, hlength]

/-- Stashing a block that has no stash file keeps it in a new own file. -/
theorem ensures_stashBlock (hsingle : storage.SingleTiered blocks) {block : List Byte}
    (hlength : block.length = blocks.blockSize) {blockIndex : ℕ}
    (hnew : storage.stashBlockIds blockIndex = none)
    (hdirectory : files.directories (.path storage.stashDirectory))
    (hallocated : owned ⊆ FileSystem.interface.allocated files) :
    (blocks.contract mayExit).ensures (stashBlock storage block blockIndex)
      (fun result owned' files' => ∃ uuid,
        result = (true, storage.setStashBlockId blockIndex (some uuid)) ∧
          .file uuid ∉ owned ∧ .file uuid ∈ owned' ∧ owned ⊆ owned' ∧
            owned' ⊆ FileSystem.interface.allocated files' ∧
              files'.data (.stash storage.stashDirectory uuid) = some block ∧
                (blocks.contract mayExit).Rely owned files files')
      owned files := by
  have hcore : (blocks.contract mayExit).ensures (stashBlock storage block blockIndex)
      (fun result mine files' => ∃ uuid,
        result = (true, storage.setStashBlockId blockIndex (some uuid)) ∧
          .file uuid ∈ mine ∧
            files'.data (.stash storage.stashDirectory uuid) = some block) ∅ files := by
    unfold stashBlock
    rw [hnew]
    intro before hbefore uuid after hanswer
    obtain ⟨rfl, rfl⟩ := Prod.mk.inj hanswer
    refine ⟨BlocksDirectory.guarantee_randomUuid, ?_⟩
    have hmember : Resource.file before.fresh ∈ (∅ : Set Resource) ∪
        FileSystem.interface.gains (.randomUuid : Call Hash) before.fresh := .inr rfl
    have hexists : FileSystem.directories { before with fresh := before.fresh + 1 }
        (.path storage.stashDirectory) := hbefore.tolerated.directories _ hdirectory
    apply Contract.ensures_bind_of (ensures_writeStash hsingle hlength hmember hexists)
    rintro status mine files' ⟨rfl, rfl, hdata⟩ final hfinal
    exact ⟨before.fresh, rfl, hmember, (hfinal.owned _ hmember _ rfl).trans hdata⟩
  apply Contract.ensures_mono (Contract.ensures_allocated hallocated
    (Contract.ensures_frame_all BlocksDirectory.contract_mutual hallocated hcore))
  rintro result owned' files'
    ⟨⟨mine, rfl, hdisjoint, ⟨uuid, hresult, hmine, hdata⟩, hrely⟩, hallocated'⟩
  exact ⟨uuid, hresult, Set.disjoint_left.mp hdisjoint hmine, .inl hmine,
    Set.subset_union_right, hallocated', hdata, hrely⟩

/-- Unstashing a block removes its stash file and no other. -/
theorem ensures_unstashBlock {blockIndex uuid : ℕ}
    (hid : storage.stashBlockIds blockIndex = some uuid) (hmember : .file uuid ∈ owned)
    {content : List Byte}
    (hdata : files.data (.stash storage.stashDirectory uuid) = some content)
    (hallocated : owned ⊆ FileSystem.interface.allocated files) :
    (blocks.contract mayExit).ensures (unstashBlock storage blockIndex)
      (fun result owned' files' => result = (true, storage.setStashBlockId blockIndex none) ∧
        owned \ {.file uuid} ⊆ owned' ∧
          (blocks.contract mayExit).Rely (owned \ {.file uuid}) files files')
      owned files := by
  have hcore : (blocks.contract mayExit).ensures (unstashBlock storage blockIndex)
      (fun result _ _ => result = (true, storage.setStashBlockId blockIndex none))
      {.file uuid} files := by
    unfold unstashBlock
    rw [hid]
    apply ensures_remove rfl (Set.mem_singleton _) hdata
    intro after _ _ final _
    rfl
  apply Contract.ensures_mono (Contract.ensures_frame_one BlocksDirectory.contract_mutual
    hmember hallocated hcore)
  rintro result owned' files' ⟨howned', ⟨_, hresult⟩, hrely⟩
  exact ⟨hresult, howned', hrely⟩

theorem ensures_readStash (hsingle : storage.SingleTiered blocks) {file : DataFile Hash}
    {uuid : ℕ} (hdrawn : file.drawn = some uuid) (hmember : .file uuid ∈ owned)
    {content : List Byte} (hdata : files.data file = some content)
    (hlength : content.length = blocks.blockSize) :
    (blocks.contract mayExit).ensures (readStash storage file)
      (fun buffer owned' files' => buffer = content ∧ owned' = owned ∧
        (blocks.contract mayExit).Rely owned files files')
      owned files := by
  have hgranularity : content.length = storage.blockGranularity := by
    rw [hlength, hsingle.granularity]
  unfold readStash
  simp only [Program.request_bind]
  apply ensures_query (fun _ => rfl) fun files => files.answer_openFile_snd file
  intro before hbefore
  have hbeforeData := (hbefore.owned _ hmember _ hdrawn).trans hdata
  simp only [FileSystem.answer, hbeforeData, if_true]
  apply ensures_query (fun _ => rfl) (fun _ => rfl)
  intro middle hmiddle
  have hmiddleData := (hmiddle.owned _ hmember _ hdrawn).trans hbeforeData
  simp only [FileSystem.answer, hmiddleData, Option.map_some]
  apply ensures_closeOrExit
  intro final hfinal
  refine ⟨?_, rfl, (hbefore.trans hmiddle).trans hfinal⟩
  rw [List.take_of_length_le hgranularity.le, resize_of_length_eq 0 hgranularity]

/-- Neither the stash file nor a temporary file of a commit is left. -/
structure Tidied (blocks : BlocksDirectory Hash) (storage : BlockStorage Hash)
    (name : Hash) (blockIndex uuid : ℕ) (owned : Set Resource) (files : FileSystem Hash) :
    Prop where
  held : .file uuid ∈ owned
  stash : files.data (.stash storage.stashDirectory uuid) = none
  temporary : ∀ number, .file number ∈ owned → number = uuid ∨
    files.data (blocks.temporaryFile name blockIndex number) = none

theorem ensures_commitByStore (hsound : blocks.build.Sound)
    (hsingle : storage.SingleTiered blocks) {blockIndex uuid : ℕ}
    {content : List Byte} (hlength : content.length = blocks.blockSize)
    (hdata : files.data (.stash storage.stashDirectory uuid) = some content)
    (hallocated : .file uuid ∈ FileSystem.interface.allocated files)
    (hnamed : blocks.Named files) :
    (blocks.contract mayExit).ensures
      (commitByStore blocks.build storage content blockIndex
        (.stash storage.stashDirectory uuid) (blocks.build.computeHash content))
      (fun result owned' files' =>
        result = (some (blocks.build.computeHash content),
          storage.setStashBlockId blockIndex none) ∧
        blocks.Stored files' (blocks.build.computeHash content) content ∧
        Tidied blocks storage (blocks.build.computeHash content) blockIndex uuid owned' files')
      {.file uuid} files := by
  have hmutual : (blocks.contract mayExit).Mutual := BlocksDirectory.contract_mutual
  have hstore := Contract.ensures_frame_all hmutual (Set.singleton_subset_iff.mpr hallocated)
    (Contract.ensures_keep hmutual BlocksDirectory.kept_named hnamed
      (ensures_storeBlockOn hsound hsingle hlength blockIndex
        (rfl : (some (blocks.build.computeHash content)).getD _ = _) hnamed))
  apply Contract.ensures_bind_of hstore
  rintro _ owned' files' ⟨mine, rfl, -, ⟨⟨rfl, hstored, hgone⟩, hnamed'⟩, hrely⟩
  apply ensures_remove rfl (.inr rfl) ((hrely.owned _ rfl _ rfl).trans hdata)
  intro after hafter hstash final hfinal
  have hrely' := hafter.trans (hfinal.anti Set.sdiff_subset)
  refine ⟨rfl, stored_of_rely hnamed' hrely' hstored, .inr rfl, ?_, ?_⟩
  · exact (hfinal.owned _ (.inr rfl) _ rfl).trans hstash
  · intro number hnumber
    by_cases hsame : number = uuid
    · exact .inl hsame
    · have hne : Resource.file number ≠ .file uuid := fun h => hsame (Resource.file.inj h)
      have hmine : Resource.file number ∈ mine := hnumber.resolve_right hne
      have htemporary := (hgone number hmine).resolve_left (Set.notMem_empty _)
      exact .inr ((hrely'.owned _ ⟨hnumber, hne⟩ _ rfl).trans htemporary)

/-- The stash file itself becomes the file of the block. -/
theorem ensures_commitByRename (hsound : blocks.build.Sound)
    (hsingle : storage.SingleTiered blocks) (hcompression : blocks.build.useCompression = false)
    {blockIndex uuid : ℕ} {content : List Byte}
    (hlength : content.length = blocks.blockSize)
    (hdata : files.data (.stash storage.stashDirectory uuid) = some content)
    (hallocated : .file uuid ∈ FileSystem.interface.allocated files)
    (hnamed : blocks.Named files)
    (hdirectory : files.directories
      (blocks.blockFile (blocks.build.computeHash content)).parent) :
    (blocks.contract mayExit).ensures
      (commitByRename blocks.build storage content blockIndex
        (.stash storage.stashDirectory uuid)
        (blocks.blockFile (blocks.build.computeHash content))
        (blocks.build.computeHash content))
      (fun result owned' files' =>
        result = (some (blocks.build.computeHash content),
          storage.setStashBlockId blockIndex none) ∧
        blocks.Stored files' (blocks.build.computeHash content) content ∧
        Tidied blocks storage (blocks.build.computeHash content) blockIndex uuid owned' files')
      {.file uuid} files := by
  have hmutual : (blocks.contract mayExit).Mutual := BlocksDirectory.contract_mutual
  have hdrawn : (DataFile.stash storage.stashDirectory uuid : DataFile Hash).drawn = some uuid :=
    rfl
  unfold commitByRename
  simp only [Program.request_bind]
  apply ensures_systemCall (fun _ => rfl)
  intro before hbefore
  have hbeforeData := (hbefore.owned _ (Set.mem_singleton _) _ rfl).trans hdata
  have hexists := hbefore.tolerated.directories _ hdirectory
  simp only [FileSystem.answer, hbeforeData, hexists, if_true]
  have hencode : blocks.build.encode content = content := by
    rw [Build.encode, hcompression]
    rfl
  have hstep : (blocks.contract mayExit).Guarantee {.file uuid} before _ :=
    BlocksDirectory.guarantee_publish hsound hdrawn (Set.mem_singleton _) hlength
  rw [hencode] at hstep
  refine ⟨hstep, ?_⟩
  have hnamed' := (hstep.promised.named (named_of_rely hnamed hbefore)).1
  have hallocated' := hstep.allocated (hbefore.allocated hallocated)
  have hne : DataFile.stash storage.stashDirectory uuid ≠
      blocks.blockFile (blocks.build.computeHash content) :=
    (BlocksDirectory.block_ne_of_drawn hdrawn _ _ _).symm
  apply Contract.ensures_bind_of (Contract.ensures_frame_all hmutual
    (Set.singleton_subset_iff.mpr hallocated') (Contract.ensures_keep hmutual
      BlocksDirectory.kept_named hnamed'
      (ensures_storeBlockOn hsound hsingle hlength blockIndex rfl hnamed')))
  rintro _ owned' files' ⟨mine, rfl, -, ⟨⟨rfl, hstored, hgone⟩, hnamed''⟩, hrely⟩ final hfinal
  refine ⟨rfl, stored_of_rely hnamed'' hfinal hstored, .inr rfl, ?_, ?_⟩
  · rw [hfinal.owned _ (.inr rfl) _ rfl, hrely.owned _ rfl _ rfl,
      FileSystem.setData_of_ne _ hne]
    exact FileSystem.setData_self _ _ _
  · rintro number (hmine | hsame)
    · have htemporary := (hgone number hmine).resolve_left (Set.notMem_empty _)
      exact .inr ((hfinal.owned _ (.inl hmine) _ rfl).trans htemporary)
    · exact .inl (Resource.file.inj hsame)

/-- Committing a stash file stores its content and leaves no file of its own. -/
theorem ensures_commitStashBlock_tidied (hsound : blocks.build.Sound)
    (hsingle : storage.SingleTiered blocks) {blockIndex uuid : ℕ}
    (hid : storage.stashBlockIds blockIndex = some uuid) {content : List Byte}
    (hdata : files.data (.stash storage.stashDirectory uuid) = some content)
    (hlength : content.length = blocks.blockSize)
    (hallocated : .file uuid ∈ FileSystem.interface.allocated files)
    (hnamed : blocks.Named files) :
    (blocks.contract mayExit).ensures (commitStashBlock blocks.build storage blockIndex)
      (fun result owned' files' =>
        result = (some (blocks.build.computeHash content),
          storage.setStashBlockId blockIndex none) ∧
        blocks.Stored files' (blocks.build.computeHash content) content ∧
        Tidied blocks storage (blocks.build.computeHash content) blockIndex uuid owned' files')
      {.file uuid} files := by
  unfold commitStashBlock
  rw [hid]
  simp only [hsingle.tier]
  apply Contract.ensures_bind_of (Contract.ensures_keep BlocksDirectory.contract_mutual
    BlocksDirectory.kept_named hnamed
    (ensures_readStash hsingle rfl (Set.mem_singleton _) hdata hlength))
  rintro buffer owned₁ files₁ ⟨⟨hbuffer, rfl, hrely₁⟩, hnamed₁⟩
  rw [hbuffer]
  apply Contract.ensures_bind_of (Contract.ensures_keep BlocksDirectory.contract_mutual
    BlocksDirectory.kept_named hnamed₁ (ensures_getBlocksSubdirectory hsingle _))
  rintro directory owned₂ files₂ ⟨⟨rfl, rfl, hrely₂, hdirectory⟩, hnamed₂⟩
  simp only [Program.request_bind]
  apply ensures_query (fun _ => rfl) (fun _ => rfl)
  intro before hbefore
  have hready := BlocksDirectory.kept_ready _ _ hbefore.tolerated ⟨hnamed₂, hdirectory⟩
  have hrely := (hrely₁.trans hrely₂).trans hbefore
  have hbeforeData := (hrely.owned _ (Set.mem_singleton _) _ rfl).trans hdata
  change (blocks.contract mayExit).ensures
    (if (before.data (blocks.blockFile (blocks.build.computeHash content))).isSome
      then _ else _) _ _ _
  by_cases hpublished :
      (before.data (blocks.blockFile (blocks.build.computeHash content))).isSome
  · rw [if_pos hpublished]
    obtain ⟨stored, hstored⟩ := hready.1.stored hpublished
    have hsame : stored = content := hsound.computeHash_injective hstored.hash
    subst hsame
    apply ensures_remove rfl (Set.mem_singleton _) hbeforeData
    intro after hafter hgone final hfinal
    have hrely := hafter.trans (hfinal.anti Set.sdiff_subset)
    refine ⟨rfl, stored_of_rely hready.1 hrely hstored, Set.mem_singleton _,
      (hfinal.owned _ (Set.mem_singleton _) _ rfl).trans hgone, ?_⟩
    exact fun number hnumber => .inl (Resource.file.inj hnumber)
  · rw [if_neg hpublished]
    cases hcompression : blocks.build.useCompression with
    | true =>
        simp only [if_true]
        exact ensures_commitByStore hsound hsingle hlength hbeforeData
          (hrely.allocated hallocated) hready.1
    | false =>
        simp only [Bool.false_eq_true, if_false]
        exact ensures_commitByRename hsound hsingle hcompression hlength hbeforeData
          (hrely.allocated hallocated) hready.1 hready.2

/-- Committing a stash file stores its content and removes no other stash file. -/
theorem ensures_commitStashBlock (hsound : blocks.build.Sound)
    (hsingle : storage.SingleTiered blocks) {blockIndex uuid : ℕ}
    (hid : storage.stashBlockIds blockIndex = some uuid) (hmember : .file uuid ∈ owned)
    {content : List Byte}
    (hdata : files.data (.stash storage.stashDirectory uuid) = some content)
    (hlength : content.length = blocks.blockSize)
    (hallocated : owned ⊆ FileSystem.interface.allocated files)
    (hnamed : blocks.Named files) :
    (blocks.contract mayExit).ensures (commitStashBlock blocks.build storage blockIndex)
      (fun result owned' files' =>
        result = (some (blocks.build.computeHash content),
          storage.setStashBlockId blockIndex none) ∧
        blocks.Stored files' (blocks.build.computeHash content) content ∧
        owned \ {.file uuid} ⊆ owned' ∧
          (blocks.contract mayExit).Rely (owned \ {.file uuid}) files files')
      owned files := by
  apply Contract.ensures_mono (Contract.ensures_frame_one BlocksDirectory.contract_mutual
    hmember hallocated (ensures_commitStashBlock_tidied hsound hsingle hid hdata hlength
      (hallocated hmember) hnamed))
  rintro result owned' files' ⟨howned', ⟨_, hresult, hstored, -⟩, hrely⟩
  exact ⟨hresult, hstored, howned', hrely⟩

/-- With one tier a block is read from the blocks directory. -/
theorem ensures_getBlockFullPath (hsingle : storage.SingleTiered blocks) (blockIndex : ℕ)
    (name : Hash) :
    (blocks.contract mayExit).ensures (getBlockFullPath blocks.build storage blockIndex name)
      (fun path owned' files' =>
        path = ((blocks.location, blocks.build.prefixIndex name % numSubdirs), storage) ∧
          owned' = owned ∧ (blocks.contract mayExit).Rely owned files files')
      owned files := by
  unfold getBlockFullPath
  simp only [hsingle.tier]
  apply Contract.ensures_bind_of (ensures_getBlocksSubdirectory hsingle name)
  rintro _ owned' files' ⟨rfl, rfl, hrely, -⟩ final hfinal
  exact ⟨rfl, rfl, hrely.trans hfinal⟩

end BlockStorage

end Privateer
