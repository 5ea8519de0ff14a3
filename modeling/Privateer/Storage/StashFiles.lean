import Privateer.Storage.BlockStorage

/-!
# The stash files of a session

`stash_block_ids` gives each stashed block a file of its own.  Stashing a block adds
one, unstashing or committing it removes it, and nothing else removes or renames a
stash file.  This holds in both builds and with one tier or two.
-/

namespace Privateer

variable {Hash : Type}

/-- The call neither removes nor renames the file. -/
def Call.Spares (file : DataFile Hash) : Call Hash → Prop
  | .remove other => other ≠ file
  | .rename source _ => source ≠ file
  | _ => True

namespace BlockStorage

variable [DecidableEq Hash] {storage storage' : BlockStorage Hash}
variable {files files' : FileSystem Hash} {build : Build Hash} {block : ℕ}

/-- A call that spares a file leaves it in place, and no number is drawn twice. -/
theorem isSome_answer {file : DataFile Hash} {number : ℕ} (call : Call Hash)
    (files : FileSystem Hash) (hspares : call.Spares file)
    (hfile : (files.data file).isSome ∧ number < files.fresh) :
    ((files.answer call).2.data file).isSome ∧ number < (files.answer call).2.fresh := by
  obtain ⟨hdata, hfresh⟩ := hfile
  have hset : ∀ other content, ((files.setData other (some content)).data file).isSome := by
    intro other content
    by_cases hsame : file = other
    · rw [hsame, FileSystem.setData_self]
      rfl
    · rw [FileSystem.setData_of_ne files hsame]
      exact hdata
  cases call with
  | remove other =>
      have hother : ((files.setData other none).data file).isSome := by
        rw [FileSystem.setData_of_ne files (Ne.symm hspares)]
        exact hdata
      simp only [FileSystem.answer]
      split
      · exact ⟨hother, hfresh⟩
      · exact ⟨hdata, hfresh⟩
  | rename source target =>
      have hmoved : ∀ content,
          (((files.setData source none).setData target (some content)).data file).isSome := by
        intro content
        by_cases hsame : file = target
        · rw [hsame, FileSystem.setData_self]
          rfl
        · rw [FileSystem.setData_of_ne _ hsame, FileSystem.setData_of_ne _ (Ne.symm hspares)]
          exact hdata
      simp only [FileSystem.answer]
      split
      · split
        · exact ⟨hmoved _, hfresh⟩
        · exact ⟨hdata, hfresh⟩
      · exact ⟨hdata, hfresh⟩
  | mkstemp location subdirectory blockIndex =>
      simp only [FileSystem.answer]
      split
      · exact ⟨hset _ _, Nat.lt_succ_of_lt hfresh⟩
      · exact ⟨hdata, hfresh⟩
  | randomUuid => exact ⟨hdata, Nat.lt_succ_of_lt hfresh⟩
  | _ =>
      simp only [FileSystem.answer]
      (repeat' split) <;> first | exact ⟨hdata, hfresh⟩ | exact ⟨hset _ _, hfresh⟩

/-- Each stashed block has a stash file of its own. -/
structure StashKept (storage : BlockStorage Hash) (files : FileSystem Hash) : Prop where
  file : ∀ block uuid, storage.stashBlockIds block = some uuid →
    (files.data (.stash storage.stashDirectory uuid)).isSome ∧ uuid < files.fresh
  injective : ∀ block other uuid, storage.stashBlockIds block = some uuid →
    storage.stashBlockIds other = some uuid → block = other

omit [DecidableEq Hash] in
/-- Without stashed blocks there is nothing to keep. -/
theorem StashKept.of_none (hnone : ∀ block, storage.stashBlockIds block = none) :
    storage.StashKept files where
  file := fun block uuid huuid => by
    rw [hnone] at huuid
    cases huuid
  injective := fun block other uuid huuid _ => by
    rw [hnone] at huuid
    cases huuid

/-- A program that spares the stash files keeps them. -/
theorem StashKept.of_spares (hkept : storage.StashKept files) {A : Type}
    {program : StorageProgram Hash A}
    (hcalls : ∀ block uuid, storage.stashBlockIds block = some uuid →
      program.CallsOnly (Call.Spares (.stash storage.stashDirectory uuid))) :
    storage.StashKept (program.run FileSystem.answer files).2 where
  file := fun block uuid huuid =>
    (hcalls block uuid huuid).run_keeps isSome_answer (hkept.file block uuid huuid)
  injective := hkept.injective

omit [DecidableEq Hash] in
/-- The stash files of a storage with the same table. -/
theorem StashKept.of_eq (hkept : storage.StashKept files)
    (hids : storage'.stashBlockIds = storage.stashBlockIds)
    (hdirectory : storage'.stashDirectory = storage.stashDirectory) :
    storage'.StashKept files := by
  constructor
  · rw [hids, hdirectory]
    exact hkept.file
  · rw [hids]
    exact hkept.injective

/-! ## Stashing -/

omit [DecidableEq Hash] in
theorem callsOnly_writeStash (content : List Byte) (uuid : ℕ) (fileExists : Bool)
    (file : DataFile Hash) :
    (writeStash storage content uuid fileExists).CallsOnly (Call.Spares file) := by
  unfold writeStash
  cases fileExists with
  | true =>
      refine ⟨trivial, fun opened => ?_⟩
      cases opened with
      | true =>
          refine ⟨trivial, fun written => ?_⟩
          cases written with
          | none => trivial
          | some count => exact ⟨trivial, fun _ => trivial⟩
      | false => trivial
  | false =>
      refine ⟨trivial, fun opened => ?_⟩
      cases opened with
      | true =>
          refine ⟨trivial, fun sized => ?_⟩
          cases sized with
          | true =>
              refine ⟨trivial, fun written => ?_⟩
              cases written with
              | none => trivial
              | some count => exact ⟨trivial, fun _ => trivial⟩
          | false => trivial
      | false => trivial

/-- A new stash file is there once it was written. -/
theorem isSome_writeStash {content : List Byte} {uuid number : ℕ} (hnumber : number < files.fresh)
    (hrun : (writeStash storage content uuid false).run FileSystem.answer files =
      (.returned true, files')) :
    (files'.data (.stash storage.stashDirectory uuid)).isSome ∧ number < files'.fresh := by
  have hcalls : (writeStash storage content uuid false).CallsOnly
      (Call.Spares (.stash storage.stashDirectory uuid)) :=
    callsOnly_writeStash content uuid false _
  have hopened : ∀ opened, files.answer (.openFile (.stash storage.stashDirectory uuid) true) =
      (true, opened) → (opened.data (.stash storage.stashDirectory uuid)).isSome ∧
        number < opened.fresh := by
    intro opened hanswer
    simp only [FileSystem.answer] at hanswer
    split at hanswer
    · rename_i old hold
      cases hanswer
      exact ⟨by rw [hold]; rfl, hnumber⟩
    · split at hanswer
      · cases hanswer
        exact ⟨by rw [FileSystem.setData_self]; rfl, hnumber⟩
      · cases hanswer
  unfold writeStash at hrun hcalls
  have hrest := hcalls.2 true
  obtain ⟨reply, opened, hopen, hwritten⟩ := Program.run_bind_returned hrun
  change (_, _) = _ at hopen
  simp only [Prod.mk.injEq, Outcome.returned.injEq] at hopen
  cases reply with
  | true =>
      have hkept := hrest.run_keeps isSome_answer (hopened opened (Prod.ext hopen.1 hopen.2))
      obtain rfl : _ = files' := congrArg Prod.snd hwritten
      exact hkept
  | false => cases hwritten

/-- Stashing a block that has no stash file gives it one. -/
theorem StashKept.stashBlock (hkept : storage.StashKept files)
    (hnone : storage.stashBlockIds block = none) {content : List Byte}
    (hrun : (storage.stashBlock content block).run FileSystem.answer files =
      (.returned (true, storage'), files')) :
    (∃ uuid, storage' = storage.setStashBlockId block (some uuid)) ∧
      storage'.StashKept files' := by
  unfold BlockStorage.stashBlock at hrun
  rw [hnone] at hrun
  simp only [Program.request_bind, Program.run_call] at hrun
  have hfresh : files.fresh < (files.answer .randomUuid).2.fresh := Nat.lt_succ_self _
  have hdrawn : storage.StashKept (files.answer .randomUuid).2 :=
    ⟨fun other uuid huuid => isSome_answer _ _ trivial (hkept.file other uuid huuid),
      hkept.injective⟩
  change Program.run FileSystem.answer ((writeStash storage content files.fresh false) >>= _)
    (files.answer .randomUuid).2 = _ at hrun
  obtain ⟨status, between, hwritten, hlast⟩ := Program.run_bind_returned hrun
  simp only [Program.pure_eq, Program.run_finish, Prod.mk.injEq, Outcome.returned.injEq] at hlast
  obtain ⟨⟨rfl, rfl⟩, rfl⟩ := hlast
  have hnew := isSome_writeStash hfresh hwritten
  have hothers : storage.StashKept between := by
    have hcalls : ∀ other uuid, storage.stashBlockIds other = some uuid →
        (writeStash storage content files.fresh false).CallsOnly
          (Call.Spares (.stash storage.stashDirectory uuid)) :=
      fun other uuid _ => callsOnly_writeStash content files.fresh false _
    have hspared := hdrawn.of_spares hcalls
    rwa [hwritten] at hspared
  refine ⟨⟨files.fresh, rfl⟩, ?_, ?_⟩
  · intro other uuid huuid
    rw [setStashBlockId_apply] at huuid
    split_ifs at huuid with hsame
    · cases huuid
      exact hnew
    · exact hothers.file other uuid huuid
  · intro first second uuid hfirst hsecond
    have hne : ∀ other, storage.stashBlockIds other ≠ some files.fresh := fun other hother =>
      absurd (hkept.file other _ hother).2 (lt_irrefl _)
    rw [setStashBlockId_apply] at hfirst hsecond
    split_ifs at hfirst hsecond with hsame hsame' hsame'
    · rw [hsame, hsame']
    · rw [← hfirst] at hsecond
      exact absurd hsecond (hne second)
    · rw [← hsecond] at hfirst
      exact absurd hfirst (hne first)
    · exact hkept.injective first second uuid hfirst hsecond

/-- Unstashing a block takes its stash file away and leaves the others. -/
theorem StashKept.unstashBlock (hkept : storage.StashKept files)
    (hrun : (storage.unstashBlock block).run FileSystem.answer files =
      (.returned (true, storage'), files')) :
    storage' = storage.setStashBlockId block none ∧ storage'.StashKept files' := by
  unfold BlockStorage.unstashBlock at hrun
  cases huuid : storage.stashBlockIds block with
  | none =>
      rw [huuid] at hrun
      cases hrun
  | some uuid =>
      rw [huuid] at hrun
      simp only [Program.request_bind, Program.run_call] at hrun
      cases hreply : (files.answer (.remove (.stash storage.stashDirectory uuid))).1 with
      | false =>
          rw [hreply] at hrun
          cases hrun
      | true =>
          rw [hreply] at hrun
          simp only [if_true, Program.pure_eq, Program.run_finish, Prod.mk.injEq,
            Outcome.returned.injEq, true_and] at hrun
          obtain ⟨rfl, rfl⟩ := hrun
          refine ⟨rfl, ?_, ?_⟩
          · intro other number hnumber
            rw [setStashBlockId_apply] at hnumber
            split_ifs at hnumber with hsame
            apply isSome_answer _ _ _ (hkept.file other number hnumber)
            intro hfile
            cases hfile
            exact hsame (hkept.injective other block uuid hnumber huuid)
          · intro first second number hfirst hsecond
            rw [setStashBlockId_apply] at hfirst hsecond
            split_ifs at hfirst hsecond
            exact hkept.injective first second number hfirst hsecond

/-! ## Loading and committing -/

omit [DecidableEq Hash] in
theorem callsOnly_getBlocksSubdirectory (name : Hash) (onStash : Bool) (file : DataFile Hash) :
    (getBlocksSubdirectory build storage name onStash).CallsOnly (Call.Spares file) := by
  refine ⟨trivial, fun found => ?_⟩
  cases found with
  | true => trivial
  | false =>
      refine ⟨trivial, fun created => ?_⟩
      cases created with
      | true => trivial
      | false => trivial

omit [DecidableEq Hash] in
theorem callsOnly_copyToStash (baseBlock stashBlock file : DataFile Hash) :
    (copyToStash baseBlock stashBlock).CallsOnly (Call.Spares file) := by
  refine ⟨trivial, fun found => ?_⟩
  cases found with
  | true => trivial
  | false => exact ⟨trivial, fun _ => trivial⟩

omit [DecidableEq Hash] in
/-- Looking up a block spares every file and leaves the stash table as it is. -/
theorem callsOnly_getBlockFullPath (block : ℕ) (name : Hash) (file : DataFile Hash) :
    (getBlockFullPath build storage block name).CallsOnly (Call.Spares file) := by
  unfold getBlockFullPath
  refine (callsOnly_getBlocksSubdirectory name false file).bind fun baseSubdir => ?_
  cases htier : storage.isMultiTiered with
  | false => trivial
  | true =>
      refine (callsOnly_getBlocksSubdirectory name true file).bind fun stashSubdir => ?_
      cases hcommitted : (storage.stashCommittedBlockIds block).isSome with
      | true => trivial
      | false =>
          refine (callsOnly_copyToStash _ _ file).bind fun copied => ?_
          cases copied with
          | true => trivial
          | false => trivial

omit [DecidableEq Hash] in
theorem getBlockFullPath_returns {name : Hash} {path : (Path × ℕ) × BlockStorage Hash}
    (hreturns : (getBlockFullPath build storage block name).Returns path) :
    path.2.stashBlockIds = storage.stashBlockIds ∧
      path.2.stashDirectory = storage.stashDirectory := by
  obtain ⟨baseSubdir, -, hrest⟩ := Program.returns_bind.mp hreturns
  cases htier : storage.isMultiTiered with
  | false =>
      rw [htier] at hrest
      cases hrest
      exact ⟨rfl, rfl⟩
  | true =>
      rw [htier] at hrest
      obtain ⟨stashSubdir, -, hrest⟩ := Program.returns_bind.mp hrest
      cases hcommitted : (storage.stashCommittedBlockIds block).isSome with
      | true =>
          rw [hcommitted] at hrest
          cases hrest
          exact ⟨rfl, rfl⟩
      | false =>
          rw [hcommitted] at hrest
          obtain ⟨copied, -, hlast⟩ := Program.returns_bind.mp hrest
          cases copied with
          | true =>
              cases hlast
              exact ⟨rfl, rfl⟩
          | false => exact hlast.elim

omit [DecidableEq Hash] in
theorem commitByStore_returns {buffer : List Byte} {file : DataFile Hash} {name stored : Hash}
    (hreturns : (commitByStore build storage buffer block file name).Returns
      (some stored, storage')) : storage' = storage.setStashBlockId block none := by
  obtain ⟨result, -, hrest⟩ := Program.returns_bind.mp hreturns
  cases result with
  | none => cases hrest
  | some stored' =>
      obtain ⟨removed, hlast⟩ := hrest
      cases removed with
      | true =>
          cases hlast
          rfl
      | false => cases hlast

omit [DecidableEq Hash] in
theorem commitByRename_returns {buffer : List Byte} {file published : DataFile Hash}
    {name stored : Hash}
    (hreturns : (commitByRename build storage buffer block file published name).Returns
      (some stored, storage')) : storage' = storage.setStashBlockId block none := by
  simp only [commitByRename, Program.request_bind, Program.returns_call] at hreturns
  obtain ⟨renamed, hrest⟩ := hreturns
  cases renamed with
  | true =>
      rw [if_pos rfl] at hrest
      obtain ⟨result, -, hlast⟩ := Program.returns_bind.mp hrest
      cases result with
      | none => cases hlast
      | some stored' =>
          cases hlast
          rfl
  | false =>
      obtain ⟨found, hrest⟩ := hrest
      cases found with
      | false => cases hrest
      | true =>
          obtain ⟨removed, hrest⟩ := hrest
          cases removed with
          | false => cases hrest
          | true =>
              change Program.Returns (if storage.isMultiTiered = true then _ else _) _ at hrest
              split_ifs at hrest
              · obtain ⟨result, -, hlast⟩ := Program.returns_bind.mp hrest
                cases hlast
                rfl
              · cases hrest
                rfl

omit [DecidableEq Hash] in
/-- A commit that names its block has found a stash file and takes it off the table. -/
theorem commitStashBlock_returns {name : Hash}
    (hreturns : (commitStashBlock build storage block).Returns (some name, storage')) :
    (∃ uuid, storage.stashBlockIds block = some uuid) ∧
      storage' = storage.setStashBlockId block none := by
  unfold commitStashBlock at hreturns
  cases huuid : storage.stashBlockIds block with
  | none =>
      rw [huuid] at hreturns
      exact hreturns.elim
  | some uuid =>
      rw [huuid] at hreturns
      refine ⟨⟨uuid, rfl⟩, ?_⟩
      obtain ⟨buffer, -, hrest⟩ := Program.returns_bind.mp hreturns
      obtain ⟨directory, -, hrest⟩ := Program.returns_bind.mp hrest
      obtain ⟨found, hrest⟩ := hrest
      cases found with
      | true =>
          obtain ⟨removed, hlast⟩ := hrest
          cases removed with
          | true =>
              cases hlast
              rfl
          | false => cases hlast
      | false =>
          change Program.Returns (if build.useCompression = true then _ else _) _ at hrest
          split_ifs at hrest
          · exact commitByStore_returns hrest
          · exact commitByRename_returns hrest

end BlockStorage

end Privateer
