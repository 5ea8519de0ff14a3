import Privateer.Storage.Faults

/-!
# Two tiers

A storage with its stash on another disk stores a block on both tiers.  This module says
how each call of such a storage ends when its system calls may fail: what becomes of the
stash files, and what the base directory has where a name is returned.  One branch of
`commit_stash_block` takes a block that the stash tier has for one that the base directory
has as well.
-/

namespace Privateer

variable {Hash : Type}

namespace BlockStorage

open FileSystem (keepingBasesUnder FailsCleanly KeepsBases ensures_done ensures_fallible
  ensures_clean ensures_clean_query)

/-- The block that committing a stash file stores: its bytes, filled up with zeros. -/
def heldBlock (storage : BlockStorage Hash) (files : FileSystem Hash) (uuid : ℕ) : List Byte :=
  resize 0 storage.blockGranularity
    (((files.data (.stash storage.stashDirectory uuid)).getD []).take storage.blockGranularity)

theorem heldBlock_of_data {storage : BlockStorage Hash} {files : FileSystem Hash} {uuid : ℕ}
    {content : List Byte} (hlength : content.length = storage.blockGranularity)
    (hdata : files.data (.stash storage.stashDirectory uuid) = some content) :
    storage.heldBlock files uuid = content := by
  rw [heldBlock, hdata, Option.getD_some, List.take_of_length_le hlength.le,
    resize_of_length_eq 0 hlength]

/-- The stash file is not longer than a block. -/
def Fits (storage : BlockStorage Hash) (files : FileSystem Hash) (uuid : ℕ) : Prop :=
  ∀ bytes, files.data (.stash storage.stashDirectory uuid) = some bytes →
    bytes.length ≤ storage.blockGranularity

/-- The stash files of all blocks but one. -/
def otherStashes (storage : BlockStorage Hash) (block : ℕ) : Set (DataFile Hash) :=
  {file | ∃ other uuid, other ≠ block ∧ storage.stashBlockIds other = some uuid ∧
    file = .stash storage.stashDirectory uuid}

theorem isStash_otherStashes {storage : BlockStorage Hash} {block : ℕ} :
    ∀ file ∈ storage.otherStashes block, file.IsStash := by
  rintro file ⟨other, uuid, -, -, rfl⟩
  trivial

theorem exists_noteStored {storage : BlockStorage Hash} {block : ℕ} (stored : Bool) :
    ∃ committed, (if stored then storage.noteStored block else storage) =
      { storage with stashCommittedBlockIds := committed } := by
  cases stored with
  | false => exact ⟨_, rfl⟩
  | true =>
      simp only [if_true, noteStored]
      split
      · exact ⟨_, rfl⟩
      · exact ⟨_, rfl⟩

theorem stash_notMem_otherStashes {storage : BlockStorage Hash} {block uuid : ℕ}
    (hnot : ∀ other, other ≠ block → storage.stashBlockIds other ≠ some uuid) :
    .stash storage.stashDirectory uuid ∉ storage.otherStashes block := by
  rintro ⟨other, number, hother, hnumber, hsame⟩
  rw [(DataFile.stash.inj hsame).2] at hnot
  exact hnot other hother hnumber

variable [DecidableEq Hash] {build : Build Hash} {bases : Set Path}
variable {framed : Set (DataFile Hash)} {storage : BlockStorage Hash}
variable {files : FileSystem Hash} {owned : Set Empty} {name : Hash}
variable {buffer : List Byte} {block uuid : ℕ} {A : Type}
variable {answers : (call : Call Hash) → FileSystem Hash → Reply call → FileSystem Hash → Prop}

omit [DecidableEq Hash] in
/-- Promising more is promising. -/
theorem ensures_fewerFramed (larger : Set (DataFile Hash)) (hsubset : framed ⊆ larger)
    {program : StorageProgram Hash A} {post : A → Set Empty → FileSystem Hash → Prop}
    (hensures : (keepingBasesUnder answers build bases larger).ensures program post owned files) :
    (keepingBasesUnder answers build bases framed).ensures program post owned files := by
  have hpromises : ∀ files files',
      (keepingBasesUnder answers build bases larger).promises files files' →
        (keepingBasesUnder answers build bases framed).promises files files' :=
    fun files files' hkeeps => ⟨hkeeps.named,
      fun file hfile => hkeeps.framed file (hsubset hfile), hkeeps.fresh, hkeeps.drawn⟩
  have htolerates : ∀ files files',
      (keepingBasesUnder answers build bases framed).tolerates files files' →
        (keepingBasesUnder answers build bases larger).tolerates files files' :=
    fun _ _ hsame => hsame
  exact Contract.ensures_weaken htolerates hpromises id hensures

/-- Storing a block leaves every stash file alone. -/
theorem keeps_storeBlockOn_stashes (hframed : ∀ file ∈ framed, file.IsStash)
    (hclean : FailsCleanly answers) (hsound : build.Sound)
    (hnamed : files.BasesNamed build bases)
    (hwrites : ∀ files' : FileSystem Hash,
      files.KeepsBases build bases {file | file.IsStash} files' →
      answers (.fileExists (storage.tierFile build (build.computeHash buffer) false)) files'
        false files' →
      WritesTemporaries answers build bases {file | file.IsStash} storage buffer
        storage.baseDirectory block) :
    (keepingBasesUnder answers build bases framed).ensures
      (storeBlockOn build storage buffer true block false (some (build.computeHash buffer)))
      (fun result _ files' => StoresAs build bases storage.baseDirectory
        (build.prefixIndex (build.computeHash buffer) % numSubdirs) buffer result files' ∧
          ∀ uuid, files'.data (.stash storage.stashDirectory uuid) =
            files.data (.stash storage.stashDirectory uuid)) owned files := by
  apply ensures_fewerFramed {file | file.IsStash} hframed
  apply Contract.ensures_mono (ensures_keepsBases
    (keeps_storeBlockOn (fun _ hstash => hstash) hclean hsound hnamed hwrites rfl))
  rintro result owned' files' ⟨hstores, hkeeps⟩
  exact ⟨hstores, fun uuid => hkeeps.framed _ trivial⟩

/-! ## Stashing -/

/-- A stash file that is not framed may change. -/
theorem keepsBases_stash {content : Option (List Byte)}
    (hmember : .stash storage.stashDirectory uuid ∉ framed) (huuid : uuid < files.fresh) :
    files.KeepsBases build bases framed
      (files.setData (.stash storage.stashDirectory uuid) content) := by
  apply KeepsBases.setData (fun _ _ _ _ => by simp) hmember
  rintro location number hsame -
  exact .inl ((DataFile.stash.inj hsame).2 ▸ huuid)

/-- A write to a stash file changes nothing, or leaves a file that fits; where `whole` holds
and the write is reported, the file holds the buffer. -/
def WritesStash
    (answers : (call : Call Hash) → FileSystem Hash → Reply call → FileSystem Hash → Prop)
    (storage : BlockStorage Hash) (buffer : List Byte) (whole : Prop) : Prop :=
  ∀ {uuid : ℕ} {files files' : FileSystem Hash} {reply : Option ℕ}, storage.Fits files uuid →
    answers (.pwrite (.stash storage.stashDirectory uuid) buffer) files reply files' →
    reply = none ∧ files' = files ∨
      ∃ content, content.length ≤ storage.blockGranularity ∧
        files' = files.setData (.stash storage.stashDirectory uuid) (some content) ∧
          (whole → content = buffer)

/-- A write that may fail, but not be short. -/
theorem writesStash (hlength : buffer.length = storage.blockGranularity) :
    WritesStash (@FileSystem.AnswersOrFails Hash _) storage buffer True := by
  intro uuid files files' reply hfits hreply
  cases reply with
  | none => exact .inl ⟨rfl, FileSystem.eq_of_fails hreply rfl⟩
  | some count =>
      obtain ⟨old, hold, rfl⟩ := FileSystem.pwrite_succeeded hreply
      have hcovers : overwrite buffer old = buffer :=
        overwrite_of_length_le ((hfits old hold).trans hlength.ge)
      exact .inr ⟨_, by rw [hcovers, hlength], rfl, fun _ => hcovers⟩

section Stashing

variable {whole : Prop} (hclean : FailsCleanly answers)
include hclean

/-- The last two calls of stashing. -/
theorem keeps_pwriteStash (hwrites : WritesStash answers storage buffer whole)
    (hmember : .stash storage.stashDirectory uuid ∉ framed) (huuid : uuid < files.fresh)
    (hfits : storage.Fits files uuid) :
    (keepingBasesUnder answers build bases framed).ensures
      (do
        if (← systemCall (.pwrite (.stash storage.stashDirectory uuid) buffer)).isSome then
          systemCall .close
        else return false)
      (fun status _ files' => storage.Fits files' uuid ∧ (whole → status = true →
        files'.data (.stash storage.stashDirectory uuid) = some buffer)) owned files := by
  apply ensures_fallible
  intro written files' hwritten
  rcases hwrites hfits hwritten with ⟨rfl, rfl⟩ | ⟨content, hlength, rfl, hwhole⟩
  · exact ⟨KeepsBases.refl _, ensures_done ⟨hfits, by simp⟩⟩
  · have hfits' : storage.Fits (files.setData (.stash storage.stashDirectory uuid)
        (some content)) uuid := by
      intro bytes hbytes
      rw [FileSystem.setData_self, Option.some.injEq] at hbytes
      exact hbytes ▸ hlength
    refine ⟨keepsBases_stash hmember huuid, ?_⟩
    cases written with
    | none => exact ensures_done ⟨hfits', by simp⟩
    | some count =>
        apply ensures_clean_query hclean (by simp) rfl
        intro closed _
        apply ensures_done
        refine ⟨hfits', fun hcomplete _ => ?_⟩
        rw [FileSystem.setData_self, hwhole hcomplete]

theorem keeps_writeStash {fileExists : Bool} (hwrites : WritesStash answers storage buffer whole)
    (hmember : .stash storage.stashDirectory uuid ∉ framed) (huuid : uuid < files.fresh)
    (hfits : storage.Fits files uuid) :
    (keepingBasesUnder answers build bases framed).ensures
      (writeStash storage buffer uuid fileExists)
      (fun status _ files' => storage.Fits files' uuid ∧ (whole → status = true →
        files'.data (.stash storage.stashDirectory uuid) = some buffer)) owned files := by
  unfold writeStash
  apply ensures_clean hclean (by simp)
  intro opened files' hopened
  cases opened with
  | false =>
      rw [FileSystem.eq_of_fails hopened rfl]
      exact ⟨KeepsBases.refl files, ensures_done ⟨hfits, by simp⟩⟩
  | true =>
      have hsame : files' = files ∨
          files' = files.setData (.stash storage.stashDirectory uuid) (some []) := by
        rcases hopened with hanswer | ⟨-, rfl⟩
        · simp only [FileSystem.answer] at hanswer
          split at hanswer
          · exact .inl (congrArg Prod.snd hanswer).symm
          · split at hanswer
            · exact .inr (congrArg Prod.snd hanswer).symm
            · simp at hanswer
        · exact .inl rfl
      have hkeeps : files.KeepsBases build bases framed files' := by
        rcases hsame with rfl | rfl
        · exact KeepsBases.refl _
        · exact keepsBases_stash hmember huuid
      have hfits' : storage.Fits files' uuid := by
        rcases hsame with rfl | rfl
        · exact hfits
        · intro bytes hbytes
          rw [FileSystem.setData_self, Option.some.injEq] at hbytes
          simp [← hbytes]
      have huuid' := huuid.trans_le hkeeps.fresh
      refine ⟨hkeeps, ?_⟩
      cases fileExists with
      | true => exact keeps_pwriteStash hclean hwrites hmember huuid' hfits'
      | false =>
          apply ensures_clean hclean (by simp)
          intro sized files'' hsized
          cases sized with
          | false =>
              rw [FileSystem.eq_of_fails hsized rfl]
              exact ⟨KeepsBases.refl files', ensures_done ⟨hfits', by simp⟩⟩
          | true =>
              obtain ⟨old, -, rfl⟩ := FileSystem.ftruncate_succeeded hsized
              refine ⟨keepsBases_stash hmember huuid', ?_⟩
              have hsizes : storage.Fits (files'.setData (.stash storage.stashDirectory uuid)
                  (some (resize 0 storage.blockGranularity old))) uuid := by
                intro bytes hbytes
                rw [FileSystem.setData_self, Option.some.injEq] at hbytes
                rw [← hbytes, length_resize]
              exact keeps_pwriteStash hclean hwrites hmember huuid' hsizes

/-- A stashed block has a stash file that no other block has. -/
theorem keeps_stashBlock (hwrites : WritesStash answers storage buffer whole)
    (hdrawn : files.StashesDrawn)
    (hids : ∀ other uuid, storage.stashBlockIds other = some uuid → uuid < files.fresh)
    (hinjective : ∀ other uuid, storage.stashBlockIds other = some uuid →
      storage.stashBlockIds block = some uuid → other = block)
    (hfits : ∀ uuid, storage.stashBlockIds block = some uuid → storage.Fits files uuid) :
    (keepingBasesUnder answers build bases (storage.otherStashes block)).ensures
      (stashBlock storage buffer block)
      (fun result _ files' => ∃ uuid, result.2 = storage.setStashBlockId block (some uuid) ∧
        uuid < files'.fresh ∧ storage.Fits files' uuid ∧
          (∀ other, other ≠ block → storage.stashBlockIds other ≠ some uuid) ∧
            (whole → result.1 = true →
              files'.data (.stash storage.stashDirectory uuid) = some buffer)) owned files := by
  unfold stashBlock
  cases hid : storage.stashBlockIds block with
  | some uuid =>
      have hnot : ∀ other, other ≠ block → storage.stashBlockIds other ≠ some uuid :=
        fun other hother hsame => hother (hinjective other uuid hsame hid)
      apply Contract.ensures_bind_of (ensures_keepsBases (keeps_writeStash hclean hwrites
        (stash_notMem_otherStashes hnot) (hids block uuid hid) (hfits uuid hid)))
      rintro status owned' files' ⟨⟨hfits', hdata⟩, hkeeps⟩
      apply ensures_done
      exact ⟨uuid, (setStashBlockId_eq_self hid).symm,
        (hids block uuid hid).trans_le hkeeps.fresh, hfits', hnot, hdata⟩
  | none =>
      apply ensures_clean hclean (by simp)
      intro uuid files' huuid
      obtain ⟨rfl, rfl⟩ : files.fresh = uuid ∧
          ({ files with fresh := files.fresh + 1 } : FileSystem Hash) = files' := by
        rcases huuid with hanswer | ⟨hfails, -⟩
        · exact ⟨congrArg Prod.fst hanswer, congrArg Prod.snd hanswer⟩
        · exact hfails.elim
      refine ⟨KeepsBases.of_data_eq rfl (Nat.le_succ _), ?_⟩
      have hnot : ∀ other, other ≠ block → storage.stashBlockIds other ≠ some files.fresh :=
        fun other _ hsame => absurd (hids other _ hsame) (lt_irrefl _)
      have hnone : storage.Fits { files with fresh := files.fresh + 1 } files.fresh := by
        intro bytes hbytes
        exact absurd (hdrawn _ _ (Option.isSome_of_eq_some hbytes)) (lt_irrefl _)
      apply Contract.ensures_bind_of (ensures_keepsBases (keeps_writeStash hclean hwrites
        (stash_notMem_otherStashes hnot) (Nat.lt_succ_self _) hnone))
      rintro status owned' files' ⟨⟨hfits', hdata⟩, hkeeps⟩
      apply ensures_done
      exact ⟨files.fresh, rfl, (Nat.lt_succ_self _).trans_le hkeeps.fresh, hfits', hnot, hdata⟩

/-- Unstashing a block removes its stash file, or nothing. -/
theorem keeps_unstashBlock
    (hids : ∀ other uuid, storage.stashBlockIds other = some uuid → uuid < files.fresh)
    (hinjective : ∀ other uuid, storage.stashBlockIds other = some uuid →
      storage.stashBlockIds block = some uuid → other = block) :
    (keepingBasesUnder answers build bases (storage.otherStashes block)).ensures
      (unstashBlock storage block)
      (fun result _ files' => result = (true, storage.setStashBlockId block none) ∨
        result = (false, storage) ∧ files' = files) owned files := by
  unfold unstashBlock
  cases hid : storage.stashBlockIds block with
  | none => exact ensures_done (.inr ⟨rfl, rfl⟩)
  | some uuid =>
      apply ensures_clean hclean (by simp)
      intro removed files' hremoved
      cases removed with
      | false =>
          rw [FileSystem.eq_of_fails hremoved rfl]
          exact ⟨KeepsBases.refl files, ensures_done (.inr ⟨rfl, rfl⟩)⟩
      | true =>
          rw [FileSystem.remove_succeeded hremoved]
          refine ⟨keepsBases_stash ?_ (hids block uuid hid), ensures_done (.inl rfl)⟩
          rintro ⟨other, number, hother, hnumber, hsame⟩
          rw [← (DataFile.stash.inj hsame).2] at hnumber
          exact hother (hinjective other uuid hnumber hid)

end Stashing

/-! ## Committing -/

theorem keeps_readStash (hclean : FailsCleanly answers) :
    (keepingBasesUnder answers build bases framed).ensures
      (readStash storage (.stash storage.stashDirectory uuid))
      (fun buffer _ files' => (files.data (.stash storage.stashDirectory uuid)).isSome ∧
        buffer = storage.heldBlock files uuid ∧ files = files') owned files := by
  apply ensures_clean_query hclean (by simp) (FileSystem.answer_openFile_snd files _)
  intro opened _
  cases opened with
  | false => trivial
  | true =>
      apply ensures_clean_query hclean (by simp) rfl
      intro bytes hbytes
      cases bytes with
      | none => trivial
      | some bytes =>
          apply keeps_closeOrExit hclean
          have hread : (files.data (.stash storage.stashDirectory uuid)).map
              (List.take storage.blockGranularity) = some bytes := by
            rcases hbytes with hanswer | ⟨hfails, -⟩
            · exact congrArg Prod.fst hanswer
            · exact absurd hfails (Option.some_ne_none bytes)
          obtain ⟨content, hcontent, rfl⟩ := Option.map_eq_some_iff.mp hread
          refine ⟨Option.isSome_of_eq_some hcontent, ?_, rfl⟩
          rw [heldBlock, hcontent, Option.getD_some]

section CommitRules

variable {post : Option Hash × BlockStorage Hash → FileSystem Hash → Prop}

/-- How a commit without compression ends: it renames the stash file and stores its content,
or finds the block there all the same and removes the stash file, or changes nothing. -/
theorem ensures_commitByRename_of (hclean : FailsCleanly answers) {published : DataFile Hash}
    (hstill : post (none, storage) files)
    (hrenamed : ∀ content, files.data (.stash storage.stashDirectory uuid) = some content →
      files.KeepsBases build bases framed
          ((files.setData (.stash storage.stashDirectory uuid) none).setData published
            (some content)) ∧
        (keepingBasesUnder answers build bases framed).ensures
          (storeBlockOn build storage buffer true block false (some name))
          (fun result _ files' => (result = none → post (none, storage) files') ∧
            ∀ stored, result = some stored →
              post (some stored, storage.setStashBlockId block none) files') owned
          ((files.setData (.stash storage.stashDirectory uuid) none).setData published
            (some content)))
    (hremoved : (files.data published).isSome →
      files.KeepsBases build bases framed
          (files.setData (.stash storage.stashDirectory uuid) none) ∧
        (keepingBasesUnder answers build bases framed).ensures
          (if storage.isMultiTiered then do
            let stored ← storeBlockOn build storage buffer true block false (some name)
            return (stored, storage.setStashBlockId block none)
          else return (some name, storage.setStashBlockId block none))
          (fun result _ files' => post result files') owned
          (files.setData (.stash storage.stashDirectory uuid) none)) :
    (keepingBasesUnder answers build bases framed).ensures
      (commitByRename build storage buffer block (.stash storage.stashDirectory uuid) published
        name) (fun result _ files' => post result files') owned files := by
  apply ensures_clean hclean (by simp)
  intro renamed files' hreply
  cases renamed with
  | true =>
      obtain ⟨content, hcontent, rfl⟩ := FileSystem.rename_succeeded hreply
      obtain ⟨hkeeps, hstores⟩ := hrenamed content hcontent
      refine ⟨hkeeps, ?_⟩
      apply Contract.ensures_bind_of hstores
      rintro result owned' files'' ⟨hnone, hsome⟩
      cases result with
      | none => exact ensures_done (hnone rfl)
      | some stored => exact ensures_done (hsome stored rfl)
  | false =>
      rw [FileSystem.eq_of_fails hreply rfl]
      refine ⟨KeepsBases.refl files, ?_⟩
      apply ensures_clean_query hclean (by simp) rfl
      intro found hfound
      cases found with
      | false => exact ensures_done hstill
      | true =>
          apply ensures_clean hclean (by simp)
          intro removed files'' hreply'
          cases removed with
          | false =>
              rw [FileSystem.eq_of_fails hreply' rfl]
              exact ⟨KeepsBases.refl files, ensures_done hstill⟩
          | true =>
              rw [FileSystem.remove_succeeded hreply']
              exact hremoved (FileSystem.fileExists_succeeded hfound)

/-- A commit reads the stash file, and removes it if its block is stored already. -/
theorem ensures_commitStashBlock_of (hclean : FailsCleanly answers)
    (hid : storage.stashBlockIds block = some uuid)
    (hstored : ∀ files₁ : FileSystem Hash, files.KeepsBases build bases framed files₁ →
      files₁.data = files.data → (files.data (.stash storage.stashDirectory uuid)).isSome →
        (files.data (storage.tierFile build (build.computeHash (storage.heldBlock files uuid))
          storage.isMultiTiered)).isSome →
        post (none, storage) files₁ ∧
          files₁.KeepsBases build bases framed
            (files₁.setData (.stash storage.stashDirectory uuid) none) ∧
          post (some (build.computeHash (storage.heldBlock files uuid)),
              storage.setStashBlockId block none)
            (files₁.setData (.stash storage.stashDirectory uuid) none))
    (hmissing : ∀ owned₁ : Set Empty, ∀ files₁ : FileSystem Hash,
      files.KeepsBases build bases framed files₁ → files₁.data = files.data →
      (files.data (.stash storage.stashDirectory uuid)).isSome →
        (keepingBasesUnder answers build bases framed).ensures
          (if build.useCompression then
            commitByStore build storage (storage.heldBlock files uuid) block
              (.stash storage.stashDirectory uuid)
              (build.computeHash (storage.heldBlock files uuid))
          else
            commitByRename build storage (storage.heldBlock files uuid) block
              (.stash storage.stashDirectory uuid)
              (storage.tierFile build (build.computeHash (storage.heldBlock files uuid))
                storage.isMultiTiered)
              (build.computeHash (storage.heldBlock files uuid)))
          (fun result _ files' => post result files') owned₁ files₁) :
    (keepingBasesUnder answers build bases framed).ensures (commitStashBlock build storage block)
      (fun result _ files' => post result files') owned files := by
  unfold commitStashBlock
  rw [hid]
  apply Contract.ensures_bind_of (keeps_readStash hclean)
  rintro buffer owned₁ _ ⟨hthere, rfl, rfl⟩
  apply Contract.ensures_bind_of (ensures_keepsBases (keeps_getBlocksSubdirectory hclean))
  rintro directory owned₂ files₁ ⟨⟨hdirectory, hdata⟩, hkeeps⟩
  simp only [Program.request_bind]
  rw [hdirectory]
  apply ensures_clean_query hclean (by simp) rfl
  intro found hfound
  cases found with
  | false => exact hmissing owned₂ files₁ hkeeps hdata hthere
  | true =>
      have hblock := FileSystem.fileExists_succeeded hfound
      rw [hdata] at hblock
      obtain ⟨hstill, hremoves, hends⟩ := hstored files₁ hkeeps hdata hthere hblock
      apply ensures_clean hclean (by simp)
      intro removed files₂ hremoved
      cases removed with
      | false =>
          rw [FileSystem.eq_of_fails hremoved rfl]
          exact ⟨KeepsBases.refl files₁, ensures_done hstill⟩
      | true =>
          rw [FileSystem.remove_succeeded hremoved]
          exact ⟨hremoves, ensures_done hends⟩

end CommitRules

/-- How committing the stash file of a block ends: the block is stored under the name
returned, and the stash file is as it was or gone. -/
structure CommitEnds (build : Build Hash) (bases : Set Path) (storage : BlockStorage Hash)
    (block uuid : ℕ) (buffer : List Byte) (files : FileSystem Hash)
    (result : Option Hash × BlockStorage Hash) (files' : FileSystem Hash) : Prop where
  table : result.2 = storage ∨ result.2 = storage.setStashBlockId block none
  stored : StoresAs build bases storage.baseDirectory
    (build.prefixIndex (build.computeHash buffer) % numSubdirs) buffer result.1 files'
  stash : ∀ bytes, files'.data (.stash storage.stashDirectory uuid) = some bytes →
    files.data (.stash storage.stashDirectory uuid) = some bytes

/-- Removing the stash file of a block that was stored ends its commit. -/
theorem commitEnds_removed {files' : FileSystem Hash}
    (hstores : StoresAs build bases storage.baseDirectory
      (build.prefixIndex (build.computeHash buffer) % numSubdirs) buffer (some name) files') :
    CommitEnds build bases storage block uuid buffer files
      (some name, storage.setStashBlockId block none)
      (files'.setData (.stash storage.stashDirectory uuid) none) := by
  refine ⟨.inr rfl, fun stored hstored => ?_, fun bytes hbytes => ?_⟩
  · refine ⟨(hstores stored hstored).1, fun hbase => ?_⟩
    rw [FileSystem.setData_of_ne _ (by simp)]
    exact (hstores stored hstored).2 hbase
  · rw [FileSystem.setData_self] at hbytes
    cases hbytes

section Committing

variable (hsound : build.Sound) (hnamed : files.BasesNamed build bases)
variable (hstash : storage.stashDirectory ∉ bases)
variable (hframed : ∀ file ∈ framed, file.IsStash)
variable (hmember : .stash storage.stashDirectory uuid ∉ framed) (huuid : uuid < files.fresh)

include hsound hnamed hframed hmember huuid

/-- The content of the stash file is stored, and the file removed. -/
theorem keeps_commitByStore (hclean : FailsCleanly answers)
    (hwrites : ∀ files' : FileSystem Hash,
      files.KeepsBases build bases {file | file.IsStash} files' →
      answers (.fileExists (storage.tierFile build (build.computeHash buffer) false)) files'
        false files' →
      WritesTemporaries answers build bases {file | file.IsStash} storage buffer
        storage.baseDirectory block) :
    (keepingBasesUnder answers build bases framed).ensures
      (commitByStore build storage buffer block (.stash storage.stashDirectory uuid)
        (build.computeHash buffer))
      (fun result _ files' => CommitEnds build bases storage block uuid buffer files result
        files') owned files := by
  apply Contract.ensures_bind_of (ensures_keepsBases
    (keeps_storeBlockOn_stashes hframed hclean hsound hnamed hwrites))
  rintro result owned' files' ⟨⟨hstores, hstashes⟩, hkeeps⟩
  cases result with
  | none =>
      apply ensures_done
      exact ⟨.inl rfl, storesAs_none, fun bytes hbytes => hstashes uuid ▸ hbytes⟩
  | some stored =>
      apply ensures_clean hclean (by simp)
      intro removed files'' hremoved
      cases removed with
      | false =>
          rw [FileSystem.eq_of_fails hremoved rfl]
          refine ⟨KeepsBases.refl files', ensures_done ?_⟩
          exact ⟨.inr rfl, storesAs_none, fun bytes hbytes => hstashes uuid ▸ hbytes⟩
      | true =>
          rw [FileSystem.remove_succeeded hremoved]
          exact ⟨keepsBases_stash hmember (huuid.trans_le hkeeps.fresh),
            ensures_done (commitEnds_removed hstores)⟩

include hstash

/-- The stash file becomes a block of the stash tier, and its content one of the base. -/
theorem keeps_commitByRename (hclean : FailsCleanly answers)
    (htier : storage.isMultiTiered = true) {subdirectory : ℕ}
    (hwrites : WritesTemporaries answers build bases {file | file.IsStash} storage buffer
      storage.baseDirectory block) :
    (keepingBasesUnder answers build bases framed).ensures
      (commitByRename build storage buffer block (.stash storage.stashDirectory uuid)
        (.block storage.stashDirectory subdirectory (build.computeHash buffer))
        (build.computeHash buffer))
      (fun result _ files' => CommitEnds build bases storage block uuid buffer files result
        files') owned files := by
  -- After the stash file is gone the content is stored in the base directory.
  have hstore : ∀ {files' : FileSystem Hash}, files.KeepsBases build bases framed files' →
      files'.data (.stash storage.stashDirectory uuid) = none →
      (keepingBasesUnder answers build bases framed).ensures
        (storeBlockOn build storage buffer true block false (some (build.computeHash buffer)))
        (fun result _ files'' => StoresAs build bases storage.baseDirectory
          (build.prefixIndex (build.computeHash buffer) % numSubdirs) buffer result files'' ∧
            ∀ bytes, files''.data (.stash storage.stashDirectory uuid) = some bytes →
              files.data (.stash storage.stashDirectory uuid) = some bytes) owned files' := by
    intro files' hkeeps hgone
    apply Contract.ensures_mono
      (keeps_storeBlockOn_stashes hframed hclean hsound (hkeeps.named hnamed).1
        fun _ _ _ => hwrites)
    rintro result owned' files'' ⟨hstores, hstashes⟩
    refine ⟨hstores, fun bytes hbytes => ?_⟩
    rw [hstashes uuid, hgone] at hbytes
    cases hbytes
  apply ensures_commitByRename_of hclean
  · exact ⟨.inl rfl, storesAs_none, fun _ hbytes => hbytes⟩
  · intro content _
    have hkeeps : files.KeepsBases build bases framed
        ((files.setData (.stash storage.stashDirectory uuid) none).setData
          (.block storage.stashDirectory subdirectory (build.computeHash buffer))
          (some content)) := by
      apply (keepsBases_stash hmember huuid).trans
      have hblock : ∀ location ∈ bases, ∀ other name,
          DataFile.block storage.stashDirectory subdirectory (build.computeHash buffer) ≠
            .block location other name := by
        intro location hlocation other name hsame
        exact hstash ((DataFile.block.inj hsame).1 ▸ hlocation)
      exact KeepsBases.setData hblock (fun hframe => hframed _ hframe) (by simp)
    refine ⟨hkeeps, Contract.ensures_mono (hstore hkeeps ?_) ?_⟩
    · rw [FileSystem.setData_of_ne _ (by simp), FileSystem.setData_self]
    · rintro result owned' files'' ⟨hstores, hgone⟩
      exact ⟨fun _ => ⟨.inl rfl, storesAs_none, hgone⟩,
        fun stored hstored => ⟨.inr rfl, hstored ▸ hstores, hgone⟩⟩
  · intro _
    rw [if_pos htier]
    refine ⟨keepsBases_stash hmember huuid, ?_⟩
    apply Contract.ensures_bind_of
      (hstore (keepsBases_stash hmember huuid) (FileSystem.setData_self _ _ _))
    rintro result owned' files'' ⟨hstores, hgone⟩
    exact ensures_done ⟨.inr rfl, hstores, hgone⟩

end Committing

/-- A commit that finds its block on the stash tier has to find it in the base directory. -/
def MatchesBase (build : Build Hash) (storage : BlockStorage Hash) (files : FileSystem Hash)
    (uuid : ℕ) : Prop :=
  (files.data (storage.tierFile build
      (build.computeHash (storage.heldBlock files uuid)) true)).isSome →
    (files.data (storage.tierFile build
      (build.computeHash (storage.heldBlock files uuid)) false)).isSome

theorem keeps_commitStashBlock (hclean : FailsCleanly answers) (hsound : build.Sound)
    (hnamed : files.BasesNamed build bases)
    (hstash : storage.stashDirectory ∉ bases) (htier : storage.isMultiTiered = true)
    (hframed : ∀ file ∈ framed, file.IsStash)
    (hid : storage.stashBlockIds block = some uuid)
    (hmember : .stash storage.stashDirectory uuid ∉ framed) (huuid : uuid < files.fresh)
    (hmatches : storage.MatchesBase build files uuid)
    (hwrites : WritesTemporaries answers build bases {file | file.IsStash} storage
      (storage.heldBlock files uuid) storage.baseDirectory block) :
    (keepingBasesUnder answers build bases framed).ensures (commitStashBlock build storage block)
      (fun result _ files' => CommitEnds build bases storage block uuid
        (storage.heldBlock files uuid) files result files') owned files := by
  apply ensures_commitStashBlock_of hclean hid
  · intro files₁ hkeeps hdata _ hfound
    rw [htier] at hfound
    have hbase := hmatches hfound
    rw [← hdata] at hbase
    have hstores := storesAs_of_isSome hsound (hkeeps.named hnamed).1 hbase
    exact ⟨⟨.inl rfl, storesAs_none, fun _ hbytes => hdata ▸ hbytes⟩,
      keepsBases_stash hmember (huuid.trans_le hkeeps.fresh), commitEnds_removed hstores⟩
  · intro owned₁ files₁ hkeeps hdata _
    have hnamed₁ := (hkeeps.named hnamed).1
    have huuid₁ := huuid.trans_le hkeeps.fresh
    have hfinish : ∀ {result files'}, CommitEnds build bases storage block uuid
        (storage.heldBlock files uuid) files₁ result files' →
          CommitEnds build bases storage block uuid (storage.heldBlock files uuid) files result
            files' := by
      intro result files' hends
      exact ⟨hends.table, hends.stored, fun bytes hbytes => hdata ▸ hends.stash bytes hbytes⟩
    cases hcompression : build.useCompression with
    | true =>
        simp only [if_true]
        apply Contract.ensures_mono
          (keeps_commitByStore hsound hnamed₁ hframed hmember huuid₁ hclean
            fun _ _ _ => hwrites)
        exact fun result owned' files' hends => hfinish hends
    | false =>
        simp only [Bool.false_eq_true, if_false, htier]
        apply Contract.ensures_mono
          (keeps_commitByRename hsound hnamed₁ hstash hframed hmember huuid₁ hclean htier
            hwrites)
        exact fun result owned' files' hends => hfinish hends

/-! ## Loading and opening -/

section Opening

variable (hclean : FailsCleanly answers)
include hclean

/-- A file that is no block of a base directory may be copied to. -/
theorem keeps_copyToStash {baseBlock : DataFile Hash} {location : Path} {subdirectory : ℕ}
    (hframed : ∀ file ∈ framed, file.IsStash) (hlocation : location ∉ bases) :
    (keepingBasesUnder answers build bases framed).ensures
      (copyToStash baseBlock (.block location subdirectory name))
      (fun _ _ _ => True) owned files := by
  apply ensures_clean_query hclean (by simp) rfl
  intro found _
  cases found with
  | true => exact ensures_done trivial
  | false =>
      apply ensures_clean hclean (by simp)
      intro copied files' hcopied
      have hblock : ∀ other ∈ bases, ∀ index name',
          DataFile.block location subdirectory name ≠ .block other index name' := by
        intro other hother index name' hsame
        exact hlocation ((DataFile.block.inj hsame).1 ▸ hother)
      refine ⟨?_, ensures_done trivial⟩
      rcases hcopied with hanswer | ⟨-, rfl⟩
      · simp only [FileSystem.answer] at hanswer
        split at hanswer
        · obtain ⟨-, rfl⟩ := Prod.mk.inj hanswer
          exact KeepsBases.setData hblock (fun hframe => hframed _ hframe) (by simp)
        · obtain ⟨-, rfl⟩ := Prod.mk.inj hanswer
          exact KeepsBases.refl _
      · exact KeepsBases.refl files'

/-- Loading a block copies it to the stash tier at most. -/
theorem keeps_getBlockFullPath (hframed : ∀ file ∈ framed, file.IsStash)
    (hstash : storage.stashDirectory ∉ bases) :
    (keepingBasesUnder answers build bases framed).ensures
      (getBlockFullPath build storage block name) (fun result _ _ => ∃ committed,
        result.2 = { storage with stashCommittedBlockIds := committed }) owned files := by
  unfold getBlockFullPath
  have hbase : (keepingBasesUnder answers build bases framed).ensures
      (getBlocksSubdirectory build storage name false) _ owned files :=
    keeps_getBlocksSubdirectory hclean
  apply Contract.ensures_bind_of hbase
  rintro baseSubdir owned₁ files₁ -
  cases htier : storage.isMultiTiered with
  | false => exact ensures_done ⟨_, rfl⟩
  | true =>
      apply Contract.ensures_bind_of (keeps_getBlocksSubdirectory hclean)
      rintro stashSubdir owned₂ files₂ ⟨hsubdir, -⟩
      cases hcommitted : (storage.stashCommittedBlockIds block).isSome with
      | true => exact ensures_done ⟨_, rfl⟩
      | false =>
          have hlocation := (DataFile.block.inj hsubdir).1
          simp only [if_true] at hlocation
          simp only [Bool.false_eq_true, if_false, hlocation]
          apply Contract.ensures_bind_of (keeps_copyToStash hclean hframed hstash)
          rintro copied owned₃ files₃ -
          cases copied with
          | true => exact ensures_done ⟨_, rfl⟩
          | false => trivial

/-- A call that reaches no data file. -/
theorem ensures_ofData {call : Call Hash} {next : Reply call → StorageProgram Hash A}
    {post : A → Set Empty → FileSystem Hash → Prop}
    (hcall : ∀ file bytes, call ≠ .pwrite file bytes)
    (hdata : ∀ files : FileSystem Hash, (files.answer call).2.data = files.data ∧
      (files.answer call).2.fresh = files.fresh)
    (hnext : ∀ reply files', (keepingBasesUnder answers build bases framed).ensures (next reply)
      post owned files') :
    (keepingBasesUnder answers build bases framed).ensures (.call call next) post owned files := by
  apply ensures_clean hclean hcall
  intro reply files' hreply
  refine ⟨?_, hnext reply files'⟩
  rcases hreply with hanswer | ⟨-, rfl⟩
  · have hfiles : (files.answer call).2 = files' := by rw [hanswer]
    rw [← hfiles]
    exact KeepsBases.of_data_eq (hdata files).1 (hdata files).2.ge
  · exact KeepsBases.refl files'

theorem keeps_prepareStashDirectory {stashDirectory : Path} :
    (keepingBasesUnder answers build bases framed).ensures (prepareStashDirectory stashDirectory)
      (fun _ _ _ => True) owned files := by
  unfold prepareStashDirectory
  by_cases hempty : stashDirectory = []
  · rw [if_pos hempty]
    exact ensures_done trivial
  · rw [if_neg hempty]
    apply ensures_ofData hclean (by simp) (fun _ => ⟨rfl, rfl⟩)
    intro found files'
    cases found with
    | true => exact ensures_done trivial
    | false =>
        apply ensures_ofData hclean (by simp) (fun _ => ⟨rfl, rfl⟩)
        intro created files''
        cases created with
        | true => exact ensures_done trivial
        | false => trivial

/-- A created storage has the directories and the granularity asked for. -/
theorem keeps_create {baseDirectory stashDirectory : Path} {blockGranularity : ℕ} :
    (keepingBasesUnder answers build bases framed).ensures
      (create baseDirectory stashDirectory blockGranularity)
      (fun storage _ _ => storage = initial baseDirectory stashDirectory blockGranularity)
      owned files := by
  have htext : ∀ (call : Call Hash) (files : FileSystem Hash), (∃ file, call = .openText file) ∨
      (∃ file text, call = .writeText file text) →
      (files.answer call).2.data = files.data ∧ (files.answer call).2.fresh = files.fresh := by
    rintro call files (⟨file, rfl⟩ | ⟨file, text, rfl⟩)
    · simp only [FileSystem.answer]
      split <;> exact ⟨rfl, rfl⟩
    · simp only [FileSystem.answer]
      split <;> exact ⟨rfl, rfl⟩
  apply Contract.ensures_bind_of (keeps_prepareStashDirectory hclean)
  rintro _ owned' files' -
  apply ensures_ofData hclean (by simp) (fun _ => ⟨rfl, rfl⟩)
  intro found files₁
  cases found with
  | true => exact ensures_done rfl
  | false =>
      apply ensures_ofData hclean (by simp) (fun _ => ⟨rfl, rfl⟩)
      intro created files₂
      cases created with
      | false => trivial
      | true =>
          apply ensures_ofData hclean (by simp) fun files => htext _ files (.inl ⟨_, rfl⟩)
          intro _ files₃
          apply ensures_ofData hclean (by simp) fun files => htext _ files (.inr ⟨_, _, rfl⟩)
          intro _ files₄
          exact ensures_done rfl

/-- An opened storage has the directories asked for and the granularity found. -/
theorem keeps_open {baseDirectory stashDirectory : Path} :
    (keepingBasesUnder answers build bases framed).ensures («open» baseDirectory stashDirectory)
      (fun storage _ _ => ∃ blockGranularity,
        storage = initial baseDirectory stashDirectory blockGranularity) owned files := by
  apply Contract.ensures_bind_of (keeps_prepareStashDirectory hclean)
  rintro _ owned' files' -
  apply ensures_ofData hclean (by simp) (fun _ => ⟨rfl, rfl⟩)
  intro found files₁
  cases found with
  | false => trivial
  | true =>
      apply ensures_ofData hclean (by simp) (fun _ => ⟨rfl, rfl⟩)
      intro text files₂
      rcases text with _ | (_ | (blockGranularity | path))
      · trivial
      · trivial
      · exact ensures_done ⟨_, rfl⟩
      · trivial

end Opening

end BlockStorage

end Privateer
