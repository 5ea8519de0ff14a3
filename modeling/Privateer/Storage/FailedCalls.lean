import Privateer.Storage.TwoTiers

/-!
# Calls that fail

Each call of the block storage updates its map and one or two files in several steps, any
of which may fail.  This module compares the storage after a call that reports failure
with the storage before it.  Storing a block has made a temporary file by then and leaves
it behind; unstashing has changed nothing; stashing and committing change nothing only if
they fail before their first step that succeeds in changing something.
-/

namespace Privateer

variable {Hash : Type}

/-- The call changes which files there are. -/
def Call.Moves : (call : Call Hash) → Reply call → Prop
  | .mkstemp _ _ _, reply => reply ≠ none
  | .rename _ _, reply => reply = true
  | .remove _, reply => reply = true
  | _, _ => False

/-- The call writes to a file. -/
def Call.Writes : (call : Call Hash) → Reply call → Prop
  | .pwrite _ _, reply => reply ≠ none
  | _, _ => False

/-- A call of the block storage, with its arguments. -/
inductive StorageOperation where
  | storeBlock (buffer : List Byte) (writeToFile : Bool) (block : ℕ)
  | stashBlock (buffer : List Byte) (block : ℕ)
  | unstashBlock (block : ℕ)
  | commitStashBlock (block : ℕ)

namespace BlockStorage

open FileSystem (AnswersOrFails keepingBases failsCleanly_answersOrFails KeepsBases ensures_done
  ensures_fallible ensures_clean_query)

/-- Whether the operation succeeds, and the storage after it. -/
def perform (build : Build Hash) (storage : BlockStorage Hash) :
    StorageOperation → StorageProgram Hash (Bool × BlockStorage Hash)
  | .storeBlock buffer writeToFile block => do
      let result ← storeBlock build storage buffer writeToFile block
      return (result.isSome, if result.isSome then storage.noteStored block else storage)
  | .stashBlock buffer block => storage.stashBlock buffer block
  | .unstashBlock block => storage.unstashBlock block
  | .commitStashBlock block => do
      let result ← commitStashBlock build storage block
      return (result.1.isSome, result.2)

/-- The stash files in use and the files of the block directories are as before. -/
structure Unchanged (storage : BlockStorage Hash) (files : FileSystem Hash)
    (storage' : BlockStorage Hash) (files' : FileSystem Hash) : Prop where
  ids : storage'.stashBlockIds = storage.stashBlockIds
  paths : ∀ block, storage'.getBlockStashPath block = storage.getBlockStashPath block
  stashes : ∀ block file, storage.getBlockStashPath block = some file →
    files'.data file = files.data file
  blocks : ∀ file, ¬ file.IsStash → files'.data file = files.data file

/-- Where an operation that fails leaves everything as it was: it fails before it has
changed a file, or it writes what the stash file holds already. -/
def FailsEarly (storage : BlockStorage Hash) (files : FileSystem Hash)
    (trace : List (Σ call : Call Hash, Reply call)) : StorageOperation → Prop
  | .storeBlock _ _ _ => False
  | .stashBlock buffer block => ∃ uuid, storage.stashBlockIds block = some uuid ∧
      ((∀ entry ∈ trace, ¬ entry.1.Writes entry.2) ∨
        ∀ old, files.data (.stash storage.stashDirectory uuid) = some old →
          overwrite buffer old = old)
  | .unstashBlock _ => True
  | .commitStashBlock _ => ∀ entry ∈ trace, ¬ entry.1.Moves entry.2

/-- `mkstemp` has not given out the numbers from `fresh` on. -/
def TemporariesDrawn (files : FileSystem Hash) : Prop :=
  ∀ location subdirectory index suffix,
    (files.data (.temporary location subdirectory index suffix)).isSome → suffix < files.fresh

/-- There is a temporary file that `mkstemp` made since. -/
def LeavesTemporary (files files' : FileSystem Hash) : Prop :=
  ∃ location subdirectory index suffix, files.fresh ≤ suffix ∧
    (files'.data (.temporary location subdirectory index suffix)).isSome

variable {build : Build Hash} {storage storage' : BlockStorage Hash}
variable {files files' : FileSystem Hash} {block uuid : ℕ} {name : Hash}
variable {trace : List (Σ call : Call Hash, Reply call)}

theorem LeavesTemporary.not_unchanged (hleaves : LeavesTemporary files files')
    (hdrawn : TemporariesDrawn files) : ¬ Unchanged storage files storage' files' := by
  obtain ⟨location, subdirectory, index, suffix, hfresh, hthere⟩ := hleaves
  intro hunchanged
  rw [hunchanged.blocks _ id] at hthere
  exact absurd (hdrawn _ _ _ _ hthere) hfresh.not_gt

theorem LeavesTemporary.of_fresh_le {earlier : FileSystem Hash}
    (hleaves : LeavesTemporary files files') (hfresh : earlier.fresh ≤ files.fresh) :
    LeavesTemporary earlier files' := by
  obtain ⟨location, subdirectory, index, suffix, hsuffix, hthere⟩ := hleaves
  exact ⟨location, subdirectory, index, suffix, hfresh.trans hsuffix, hthere⟩

/-- A block that loses or gains a stash file is noticed. -/
theorem not_unchanged_setStashBlockId {number : Option ℕ}
    (hnumber : storage.stashBlockIds block ≠ number) :
    ¬ Unchanged storage files (storage.setStashBlockId block number) files' := by
  intro hunchanged
  have hsame := congrFun hunchanged.ids block
  rw [setStashBlockId_apply, if_pos rfl] at hsame
  exact hnumber hsame.symm

theorem unchanged_of_data_eq (hdata : files'.data = files.data) :
    Unchanged storage files storage files' :=
  ⟨rfl, fun _ => rfl, fun _ file _ => congrFun hdata file, fun file _ => congrFun hdata file⟩

variable [DecidableEq Hash] {owned : Set Empty} {buffer : List Byte} {onStash : Bool}

/-! ## Storing -/

omit [DecidableEq Hash] in
theorem isStash_of_mem : ∀ file ∈ ({file | file.IsStash} : Set (DataFile Hash)), file.IsStash :=
  fun _ hstash => hstash

/-- A new temporary file has a number that was not drawn before. -/
theorem leaves_createTemporaryUniqueBlock {location : Path} {subdirectory : ℕ} :
    (keepingBases build ∅ {file | file.IsStash}).ensures
      (createTemporaryUniqueBlock build storage location subdirectory block)
      (fun temporary _ files' => ∃ suffix, files.fresh ≤ suffix ∧
        temporary = .temporary location subdirectory block suffix ∧
          (files'.data temporary).isSome) owned files := by
  apply ensures_fallible
  intro drawn files₁ hdrawn
  cases drawn with
  | none =>
      rw [FileSystem.eq_of_fails hdrawn rfl]
      exact ⟨KeepsBases.refl files, trivial⟩
  | some suffix =>
      have hfresh : files.fresh = suffix := by
        rcases hdrawn with hanswer | ⟨hfails, -⟩
        · simp only [FileSystem.answer] at hanswer
          split at hanswer
          · exact Option.some.inj (Prod.mk.inj hanswer).1
          · cases (Prod.mk.inj hanswer).1
        · cases hfails
      have hthere : (files₁.data (.temporary location subdirectory block suffix)).isSome := by
        rw [FileSystem.mkstemp_succeeded hdrawn]
        exact Option.isSome_of_eq_some (FileSystem.setData_self _ _ _)
      have hkeeps : files.KeepsBases build ∅ {file | file.IsStash} files₁ := by
        rw [FileSystem.mkstemp_succeeded hdrawn]
        exact (keepsBases_temporary isStash_of_mem).trans
          (KeepsBases.of_data_eq rfl (Nat.le_succ _))
      refine ⟨hkeeps, ?_⟩
      cases hcompression : build.useCompression with
      | true => exact ensures_done ⟨suffix, hfresh.le, rfl, hthere⟩
      | false =>
          apply ensures_fallible
          intro sized files₂ hsized
          cases sized with
          | false =>
              rw [FileSystem.eq_of_fails hsized rfl]
              exact ⟨KeepsBases.refl files₁, trivial⟩
          | true =>
              obtain ⟨old, -, rfl⟩ := FileSystem.ftruncate_succeeded hsized
              refine ⟨keepsBases_temporary isStash_of_mem, ensures_done ?_⟩
              exact ⟨suffix, hfresh.le, rfl,
                Option.isSome_of_eq_some (FileSystem.setData_self _ _ _)⟩

section Temporary

variable {location : Path} {subdirectory suffix : ℕ}
variable (hthere : (files.data (.temporary location subdirectory block suffix)).isSome)

include hthere

/-- Writing to a temporary file does not remove it. -/
theorem leaves_writeTemporary :
    (keepingBases build ∅ {file | file.IsStash}).ensures
      (writeTemporary build (.temporary location subdirectory block suffix) buffer)
      (fun _ _ files' => (files'.data (.temporary location subdirectory block suffix)).isSome)
      owned files := by
  have hwrite : ∀ {files : FileSystem Hash} {bytes : List Byte},
      (files.data (.temporary location subdirectory block suffix)).isSome →
      (keepingBases build ∅ {file | file.IsStash}).ensures
        (do return (← systemCall
          (.pwrite (.temporary location subdirectory block suffix) bytes)).isSome)
        (fun _ _ files' => (files'.data (.temporary location subdirectory block suffix)).isSome)
        owned files := by
    intro files bytes hthere
    apply ensures_fallible
    intro reply files₁ hreply
    cases reply with
    | none =>
        rw [FileSystem.eq_of_fails hreply rfl]
        exact ⟨KeepsBases.refl files, ensures_done hthere⟩
    | some count =>
        obtain ⟨old, -, rfl⟩ := FileSystem.pwrite_succeeded hreply
        exact ⟨keepsBases_temporary isStash_of_mem,
          ensures_done (Option.isSome_of_eq_some (FileSystem.setData_self _ _ _))⟩
  unfold writeTemporary
  cases hcompression : build.useCompression with
  | false => exact hwrite hthere
  | true =>
      simp only [if_true]
      apply ensures_fallible
      intro sized files₁ hsized
      cases sized with
      | false =>
          rw [FileSystem.eq_of_fails hsized rfl]
          exact ⟨KeepsBases.refl files, trivial⟩
      | true =>
          obtain ⟨old, -, rfl⟩ := FileSystem.ftruncate_succeeded hsized
          exact ⟨keepsBases_temporary isStash_of_mem,
            hwrite (Option.isSome_of_eq_some (FileSystem.setData_self _ _ _))⟩

/-- A temporary file that does not get its final name stays. -/
theorem leaves_publishTemporary {target : Path} {index : ℕ} :
    (keepingBases build ∅ {file | file.IsStash}).ensures
      (publishTemporary (.temporary location subdirectory block suffix)
        (.block target index name) name)
      (fun result _ files' => result = none →
        (files'.data (.temporary location subdirectory block suffix)).isSome) owned files := by
  apply ensures_fallible
  intro renamed files₁ hrenamed
  cases renamed with
  | true =>
      obtain ⟨content, -, rfl⟩ := FileSystem.rename_succeeded hrenamed
      have hgone : files.KeepsBases build ∅ {file | file.IsStash}
          (files.setData (.temporary location subdirectory block suffix) none) :=
        keepsBases_temporary isStash_of_mem
      refine ⟨hgone.trans ?_, keeps_closeOrExit failsCleanly_answersOrFails nofun⟩
      exact KeepsBases.setData (fun _ hlocation => hlocation.elim) id nofun
  | false =>
      rw [FileSystem.eq_of_fails hrenamed rfl]
      refine ⟨KeepsBases.refl files, ?_⟩
      apply ensures_clean_query failsCleanly_answersOrFails (by simp) rfl
      intro found _
      cases found with
      | false => exact keeps_closeOrExit failsCleanly_answersOrFails fun _ => hthere
      | true =>
          apply ensures_fallible
          intro removed files₂ hremoved
          cases removed with
          | true =>
              rw [FileSystem.remove_succeeded hremoved]
              exact ⟨keepsBases_temporary isStash_of_mem,
                keeps_closeOrExit failsCleanly_answersOrFails nofun⟩
          | false =>
              rw [FileSystem.eq_of_fails hremoved rfl]
              exact ⟨KeepsBases.refl files, ensures_done fun _ => hthere⟩

end Temporary

/-- Storing on a tier leaves a temporary file behind when it fails. -/
theorem leaves_storeBlockOn {writeToFile : Bool} {preComputedHash : Option Hash} :
    (keepingBases build ∅ {file | file.IsStash}).ensures
      (storeBlockOn build storage buffer writeToFile block onStash preComputedHash)
      (fun result _ files' => result = none → LeavesTemporary files files') owned files := by
  unfold storeBlockOn
  apply Contract.ensures_bind_of (ensures_keepsBases
    (keeps_getBlocksSubdirectory failsCleanly_answersOrFails))
  rintro directory owned₁ files₁ ⟨-, hkeeps₁⟩
  apply Contract.ensures_bind_of leaves_createTemporaryUniqueBlock
  rintro _ owned₂ files₂ ⟨suffix, hfresh, rfl, hthere⟩
  have hleaves : ∀ {files' : FileSystem Hash},
      (files'.data (.temporary directory.1 directory.2 block suffix)).isSome →
        LeavesTemporary files files' :=
    fun hthere => ⟨_, _, _, suffix, hkeeps₁.fresh.trans hfresh, hthere⟩
  apply ensures_clean_query failsCleanly_answersOrFails (by simp) rfl
  intro found _
  cases found with
  | true =>
      apply ensures_fallible
      intro removed files₃ hremoved
      cases removed with
      | true =>
          rw [FileSystem.remove_succeeded hremoved]
          exact ⟨keepsBases_temporary isStash_of_mem,
            keeps_closeOrExit failsCleanly_answersOrFails nofun⟩
      | false =>
          rw [FileSystem.eq_of_fails hremoved rfl]
          exact ⟨KeepsBases.refl files₂,
            keeps_closeOrExit failsCleanly_answersOrFails fun _ => hleaves hthere⟩
  | false =>
      cases writeToFile with
      | false =>
          apply Contract.ensures_mono (leaves_publishTemporary hthere)
          exact fun result owned' files' hstays hnone => hleaves (hstays hnone)
      | true =>
          apply Contract.ensures_bind_of (leaves_writeTemporary hthere)
          intro written owned₃ files₃ hthere₃
          cases written with
          | false => exact ensures_done fun _ => hleaves hthere₃
          | true =>
              apply Contract.ensures_mono (leaves_publishTemporary hthere₃)
              exact fun result owned' files' hstays hnone => hleaves (hstays hnone)

theorem leaves_storeBlock {writeToFile : Bool} :
    (keepingBases build ∅ {file | file.IsStash}).ensures
      (storeBlock build storage buffer writeToFile block)
      (fun result _ files' => result = none → LeavesTemporary files files') owned files := by
  unfold storeBlock
  cases htier : storage.isMultiTiered with
  | false => exact leaves_storeBlockOn
  | true =>
      apply Contract.ensures_bind_of (ensures_keepsBases leaves_storeBlockOn)
      rintro first owned₁ files₁ ⟨hfirst, hkeeps⟩
      cases first with
      | none => exact ensures_done hfirst
      | some stored =>
          apply Contract.ensures_mono leaves_storeBlockOn
          exact fun result owned' files' hleaves hnone =>
            (hleaves hnone).of_fresh_le hkeeps.fresh

/-- A block that is not stored has left a temporary file behind. -/
theorem not_unchanged_storeBlock {writeToFile : Bool} (hdrawn : TemporariesDrawn files)
    (hruns : (storeBlock build storage buffer writeToFile block).RunsTo AnswersOrFails files
      (.returned none) files') : ¬ Unchanged storage files storage' files' := by
  have hensures : (keepingBases build ∅ {file | file.IsStash}).ensures
      (storeBlock build storage buffer writeToFile block) _ ∅ files := leaves_storeBlock
  obtain ⟨-, -, hend⟩ := Contract.runsTo_of_ensures hensures hruns
  obtain ⟨_, hleaves⟩ := hend none rfl
  exact (hleaves rfl).not_unchanged hdrawn

/-! ## Stashing and unstashing -/

theorem unchanged_unstashBlock
    (hruns : (unstashBlock storage block).RunsTo AnswersOrFails files
      (.returned (false, storage')) files') : Unchanged storage files storage' files' := by
  unfold unstashBlock at hruns
  cases hid : storage.stashBlockIds block with
  | none =>
      rw [hid] at hruns
      obtain ⟨hresult, rfl⟩ := hruns
      cases hresult
      exact unchanged_of_data_eq rfl
  | some uuid =>
      rw [hid] at hruns
      rcases hruns with ⟨hkilled, -⟩ | ⟨removed, files₁, hremoved, hrest⟩
      · cases hkilled
      · cases removed with
        | true =>
            obtain ⟨hresult, -⟩ := hrest
            cases hresult
        | false =>
            obtain ⟨hresult, rfl⟩ := hrest
            cases hresult
            rw [FileSystem.eq_of_fails hremoved rfl]
            exact unchanged_of_data_eq rfl

/-- Writing to a stash file that exists fails before the write, or in closing the file. -/
theorem fails_writeStash
    (hruns : (writeStash storage buffer uuid true).RunsAlong AnswersOrFails files trace
      (.returned false) files') :
    (files' = files ∧ ∀ entry ∈ trace, ¬ entry.1.Writes entry.2) ∨
      ∃ old, files.data (.stash storage.stashDirectory uuid) = some old ∧
        files' = files.setData (.stash storage.stashDirectory uuid)
          (some (overwrite buffer old)) ∧ ∃ entry ∈ trace, entry.1.Writes entry.2 := by
  unfold writeStash at hruns
  rcases hruns with ⟨-, hkilled, -⟩ | ⟨opened, files₁, rest, rfl, hopened, hrest⟩
  · cases hkilled
  · obtain rfl : files₁ = files :=
      FileSystem.eq_of_query hopened (FileSystem.answer_openFile_snd files _)
    cases opened with
    | false =>
        obtain ⟨rfl, -, rfl⟩ := hrest
        exact .inl ⟨rfl, by simp [Call.Writes]⟩
    | true =>
        rcases hrest with ⟨-, hkilled, -⟩ | ⟨reply, files₂, rest', rfl, hwritten, hclose⟩
        · cases hkilled
        · cases reply with
          | none =>
              obtain ⟨rfl, -, rfl⟩ := hclose
              rw [FileSystem.eq_of_fails hwritten rfl]
              exact .inl ⟨rfl, by simp [Call.Writes]⟩
          | some count =>
              obtain ⟨old, hold, rfl⟩ := FileSystem.pwrite_succeeded hwritten
              rcases hclose with ⟨-, hkilled, -⟩ | ⟨closed, files₃, rest'', rfl, hclosed, hend⟩
              · cases hkilled
              · obtain ⟨-, hresult, rfl⟩ := hend
                cases hresult
                rw [FileSystem.eq_of_fails hclosed rfl]
                exact .inr ⟨old, hold, rfl, _, List.mem_cons_of_mem _ List.mem_cons_self,
                  by simp [Call.Writes]⟩

/-- A failed stashing leaves everything as it was if the block had a stash file and nothing
was written to it, or nothing new. -/
theorem unchanged_stashBlock_iff
    (hruns : (stashBlock storage buffer block).RunsAlong AnswersOrFails files trace
      (.returned (false, storage')) files') :
    Unchanged storage files storage' files' ↔
      FailsEarly storage files trace (.stashBlock buffer block) := by
  unfold stashBlock at hruns
  cases hid : storage.stashBlockIds block with
  | none =>
      rw [hid] at hruns
      obtain ⟨uuid, files₁, first, second, rfl, -, hrest⟩ := hruns.of_bind
      obtain ⟨status, files₂, first', second', rfl, -, -, hresult, -⟩ := hrest.of_bind
      cases hresult
      refine iff_of_false (not_unchanged_setStashBlockId ?_) ?_
      · rw [hid]
        exact nofun
      · rintro ⟨uuid', huuid, -⟩
        cases hid.symm.trans huuid
  | some uuid =>
      rw [hid] at hruns
      obtain ⟨status, files₁, first, second, rfl, hwrites, rfl, hresult, rfl⟩ := hruns.of_bind
      cases hresult
      rw [List.append_nil]
      have hpath : storage.getBlockStashPath block =
          some (.stash storage.stashDirectory uuid) := by
        rw [getBlockStashPath, hid, Option.map_some]
      rcases fails_writeStash hwrites with ⟨rfl, hnothing⟩ | ⟨old, hold, rfl, entry, hentry, hwrite⟩
      · exact iff_of_true (unchanged_of_data_eq rfl) ⟨uuid, hid, .inl hnothing⟩
      · constructor
        · intro hunchanged
          have hdata := hunchanged.stashes block _ hpath
          rw [FileSystem.setData_self, hold, Option.some.injEq] at hdata
          refine ⟨uuid, hid, .inr fun content hcontent => ?_⟩
          rw [hold, Option.some.injEq] at hcontent
          exact hcontent ▸ hdata
        · rintro ⟨uuid', huuid, hnothing | hsame⟩
          · exact absurd hwrite (hnothing entry hentry)
          · obtain rfl := Option.some.inj (hid.symm.trans huuid)
            rw [hsame old hold, FileSystem.setData_eq_self hold]
            exact unchanged_of_data_eq rfl

/-! ## Committing -/

omit [DecidableEq Hash] in
theorem Unchanged.of_data_eq {earlier : FileSystem Hash}
    (hunchanged : Unchanged storage files storage' files') (hdata : files.data = earlier.data) :
    Unchanged storage earlier storage' files' :=
  ⟨hunchanged.ids, hunchanged.paths,
    fun block file hfile => hdata ▸ hunchanged.stashes block file hfile,
    fun file hfile => hdata ▸ hunchanged.blocks file hfile⟩

omit [DecidableEq Hash] in
/-- Reading a stash file moves no file. -/
theorem still_readStash {file : DataFile Hash} :
    (readStash storage file).CallsOnly fun call => ∀ reply, ¬ call.Moves reply := by
  refine ⟨fun _ => id, fun opened => ?_⟩
  cases opened with
  | false => trivial
  | true =>
      refine ⟨fun _ => id, fun bytes => ?_⟩
      cases bytes with
      | none => trivial
      | some bytes =>
          refine ⟨fun _ => id, fun closed => ?_⟩
          cases closed with
          | true => trivial
          | false => trivial

omit [DecidableEq Hash] in
theorem still_getBlocksSubdirectory :
    (getBlocksSubdirectory build storage name onStash).CallsOnly
      fun call => ∀ reply, ¬ call.Moves reply := by
  refine ⟨fun _ => id, fun found => ?_⟩
  cases found with
  | true => trivial
  | false =>
      refine ⟨fun _ => id, fun created => ?_⟩
      cases created with
      | true => trivial
      | false => trivial

/-- Storing on a tier leaves the stash files alone. -/
theorem fails_storeBlockOn {writeToFile : Bool} {preComputedHash result : Option Hash}
    (hruns : (storeBlockOn build storage buffer writeToFile block onStash
      preComputedHash).RunsAlong AnswersOrFails files trace (.returned result) files') :
    (∀ file, file.IsStash → files'.data file = files.data file) ∧
      (result = none → LeavesTemporary files files') := by
  have hensures : (keepingBases build ∅ {file | file.IsStash}).ensures
      (storeBlockOn build storage buffer writeToFile block onStash preComputedHash) _ ∅ files :=
    leaves_storeBlockOn
  obtain ⟨hkeeps, -, hend⟩ := Contract.runsTo_of_ensures hensures hruns.runsTo
  obtain ⟨_, hleaves⟩ := hend _ rfl
  exact ⟨hkeeps.framed, hleaves⟩

/-- Storing on a tier makes a temporary file. -/
theorem moves_storeBlockOn {writeToFile : Bool} {preComputedHash result : Option Hash}
    (hruns : (storeBlockOn build storage buffer writeToFile block onStash
      preComputedHash).RunsAlong AnswersOrFails files trace (.returned result) files') :
    ∃ entry ∈ trace, entry.1.Moves entry.2 := by
  unfold storeBlockOn at hruns
  obtain ⟨directory, files₁, first, second, rfl, -, hrest⟩ := hruns.of_bind
  obtain ⟨temporary, files₂, first', second', rfl, hcreates, -⟩ := hrest.of_bind
  rcases hcreates with ⟨-, hkilled, -⟩ | ⟨drawn, files₃, rest, rfl, -, hsized⟩
  · cases hkilled
  · cases drawn with
    | none => cases hsized.2.1
    | some suffix =>
        refine ⟨_, List.mem_append_right _ (List.mem_append_left _ List.mem_cons_self), ?_⟩
        exact Option.some_ne_none suffix

section Committing

variable (hid : storage.stashBlockIds block = some uuid)

include hid

/-- With compression a failed commit has made a temporary file, and left it behind or
forgotten the stash file. -/
theorem fails_commitByStore (hdrawn : TemporariesDrawn files)
    (hruns : (commitByStore build storage buffer block (.stash storage.stashDirectory uuid)
      name).RunsAlong AnswersOrFails files trace (.returned (none, storage')) files') :
    ¬ Unchanged storage files storage' files' ∧ ∃ entry ∈ trace, entry.1.Moves entry.2 := by
  unfold commitByStore at hruns
  obtain ⟨result, files₁, first, second, rfl, hstores, hrest⟩ := hruns.of_bind
  obtain ⟨entry, hentry, hmoves⟩ := moves_storeBlockOn hstores
  refine ⟨?_, entry, List.mem_append_left _ hentry, hmoves⟩
  cases result with
  | none =>
      obtain ⟨-, hresult, rfl⟩ := hrest
      exact ((fails_storeBlockOn hstores).2 rfl).not_unchanged hdrawn
  | some stored =>
      rcases hrest with ⟨-, hkilled, -⟩ | ⟨removed, files₂, rest, rfl, hremoved, hlast⟩
      · cases hkilled
      · cases removed with
        | true => cases (Prod.mk.inj (Outcome.returned.inj hlast.2.1)).1
        | false =>
            obtain ⟨-, hresult, -⟩ := hlast
            cases hresult
            refine not_unchanged_setStashBlockId ?_
            rw [hid]
            exact Option.some_ne_none uuid

/-- Without compression it has changed something if it moved a file. -/
theorem fails_commitByRename {subdirectory : ℕ} {location : Path}
    (hthere : (files.data (.stash storage.stashDirectory uuid)).isSome)
    (hruns : (commitByRename build storage buffer block (.stash storage.stashDirectory uuid)
      (.block location subdirectory name) name).RunsAlong AnswersOrFails files trace
        (.returned (none, storage')) files') :
    Unchanged storage files storage' files' ↔ ∀ entry ∈ trace, ¬ entry.1.Moves entry.2 := by
  unfold commitByRename at hruns
  simp only [Program.request_bind] at hruns
  rcases hruns with ⟨-, hkilled, -⟩ | ⟨renamed, files₁, rest, rfl, hrenamed, hrest⟩
  · cases hkilled
  · cases renamed with
    | true =>
        refine iff_of_false ?_ fun hstill => hstill _ List.mem_cons_self rfl
        obtain ⟨content, -, rfl⟩ := FileSystem.rename_succeeded hrenamed
        obtain ⟨result, files₂, first, second, rfl, hstores, hlast⟩ := hrest.of_bind
        cases result with
        | some stored => cases (Prod.mk.inj (Outcome.returned.inj hlast.2.1)).1
        | none =>
            obtain ⟨-, hresult, rfl⟩ := hlast
            have hgone : files'.data (.stash storage.stashDirectory uuid) = none := by
              rw [(fails_storeBlockOn hstores).1 (.stash storage.stashDirectory uuid) trivial,
                FileSystem.setData_of_ne _ (by simp), FileSystem.setData_self]
            intro hunchanged
            have hpath : storage.getBlockStashPath block =
                some (.stash storage.stashDirectory uuid) := by
              rw [getBlockStashPath, hid, Option.map_some]
            rw [← hunchanged.stashes block _ hpath, hgone] at hthere
            cases hthere
    | false =>
        rw [FileSystem.eq_of_fails hrenamed rfl] at hrest
        rcases hrest with ⟨-, hkilled, -⟩ | ⟨found, files₂, rest', rfl, hfound, hlast⟩
        · cases hkilled
        · obtain rfl : files₂ = files := FileSystem.eq_of_query hfound rfl
          cases found with
          | false =>
              obtain ⟨rfl, hresult, rfl⟩ := hlast
              cases hresult
              exact iff_of_true (unchanged_of_data_eq rfl) (by simp [Call.Moves])
          | true =>
              rcases hlast with ⟨-, hkilled, -⟩ | ⟨removed, files₃, rest'', rfl, hremoved, hend⟩
              · cases hkilled
              · cases removed with
                | false =>
                    obtain ⟨rfl, hresult, rfl⟩ := hend
                    cases hresult
                    rw [FileSystem.eq_of_fails hremoved rfl]
                    exact iff_of_true (unchanged_of_data_eq rfl) (by simp [Call.Moves])
                | true =>
                    refine iff_of_false ?_ fun hstill => hstill _
                      (List.mem_cons_of_mem _ (List.mem_cons_of_mem _ List.mem_cons_self)) rfl
                    have hnone : storage' = storage.setStashBlockId block none := by
                      change (if storage.isMultiTiered = true then _ else _ :
                        StorageProgram Hash _).RunsAlong _ _ _ _ _ at hend
                      split at hend
                      · obtain ⟨stored, files₄, first, second, -, -, -, hresult, -⟩ := hend.of_bind
                        cases hresult
                        rfl
                      · cases hend.2.1
                    rw [hnone]
                    refine not_unchanged_setStashBlockId ?_
                    rw [hid]
                    exact Option.some_ne_none uuid

end Committing

/-- A failed commit leaves everything as it was if it has moved no file. -/
theorem unchanged_commitStashBlock_iff (hdrawn : TemporariesDrawn files)
    (hruns : (commitStashBlock build storage block).RunsAlong AnswersOrFails files trace
      (.returned (none, storage')) files') :
    Unchanged storage files storage' files' ↔
      FailsEarly storage files trace (.commitStashBlock block) := by
  unfold commitStashBlock at hruns
  cases hid : storage.stashBlockIds block with
  | none =>
      rw [hid] at hruns
      cases hruns.2.1
  | some uuid =>
      rw [hid] at hruns
      obtain ⟨buffer, files₁, first, rest, rfl, hreads, hrest⟩ := hruns.of_bind
      obtain ⟨directory, files₂, second, last, rfl, hdirectory, hlast⟩ := hrest.of_bind
      have hearly : ∀ entry ∈ first ++ second, ¬ entry.1.Moves entry.2 := by
        intro entry hentry
        rcases List.mem_append.mp hentry with hfirst | hsecond
        · exact still_readStash.runsAlong hreads entry hfirst entry.2
        · exact still_getBlocksSubdirectory.runsAlong hdirectory entry hsecond entry.2
      have hread : (keepingBases build ∅ ∅).ensures
          (readStash storage (.stash storage.stashDirectory uuid)) _ ∅ files :=
        keeps_readStash failsCleanly_answersOrFails
      obtain ⟨-, -, hend⟩ := Contract.runsTo_of_ensures hread hreads.runsTo
      obtain ⟨_, hthere, -, rfl⟩ := hend _ rfl
      have hmakes : (keepingBases build ∅ ∅).ensures
          (getBlocksSubdirectory build storage (build.computeHash buffer) storage.isMultiTiered)
          _ ∅ files :=
        keeps_getBlocksSubdirectory failsCleanly_answersOrFails
      obtain ⟨hkeeps, -, hend'⟩ := Contract.runsTo_of_ensures hmakes hdirectory.runsTo
      obtain ⟨_, -, hdata⟩ := hend' _ rfl
      have hiff : Unchanged storage files₂ storage' files' ↔
          ∀ entry ∈ last, ¬ entry.1.Moves entry.2 := by
        rcases hlast with ⟨-, hkilled, -⟩ | ⟨found, files₃, final, rfl, hfound, hfinal⟩
        · cases hkilled
        · obtain rfl : files₃ = files₂ := FileSystem.eq_of_query hfound rfl
          rw [List.forall_mem_cons, and_iff_right (by exact id)]
          cases found with
          | true =>
              rcases hfinal with ⟨-, hkilled, -⟩ | ⟨removed, files₄, none', rfl, hremoved, hend⟩
              · cases hkilled
              · cases removed with
                | true => cases (Prod.mk.inj (Outcome.returned.inj hend.2.1)).1
                | false =>
                    obtain ⟨rfl, hresult, rfl⟩ := hend
                    cases hresult
                    rw [FileSystem.eq_of_fails hremoved rfl]
                    exact iff_of_true (unchanged_of_data_eq rfl) (by simp [Call.Moves])
          | false =>
              cases hcompression : build.useCompression with
              | true =>
                  have hdrawn₂ : TemporariesDrawn files₃ := by
                    intro location subdirectory index suffix hsome
                    rw [hdata] at hsome
                    exact (hdrawn location subdirectory index suffix hsome).trans_le hkeeps.fresh
                  simp only [hcompression, if_true] at hfinal
                  obtain ⟨hchanged, entry, hentry, hmoves⟩ :=
                    fails_commitByStore hid hdrawn₂ hfinal
                  exact iff_of_false hchanged fun hstill => hstill entry hentry hmoves
              | false =>
                  simp only [hcompression] at hfinal
                  rw [← hdata] at hthere
                  exact fails_commitByRename hid hthere hfinal
      have hwhole : Unchanged storage files storage' files' ↔
          Unchanged storage files₂ storage' files' :=
        ⟨fun hunchanged => hunchanged.of_data_eq hdata.symm,
          fun hunchanged => hunchanged.of_data_eq hdata⟩
      rw [hwhole, hiff, FailsEarly, ← List.append_assoc]
      constructor
      · intro hstill entry hentry
        rcases List.mem_append.mp hentry with hbefore | hafter
        · exact hearly entry hbefore
        · exact hstill entry hafter
      · exact fun hstill entry hentry => hstill entry (List.mem_append_right _ hentry)

/-! ## Any call -/

/-- A call that reports failure leaves the storage as it was if and only if it fails early. -/
theorem unchanged_iff_failsEarly {operation : StorageOperation}
    (hdrawn : TemporariesDrawn files)
    (hruns : (perform build storage operation).RunsAlong AnswersOrFails files trace
      (.returned (false, storage')) files') :
    Unchanged storage files storage' files' ↔ FailsEarly storage files trace operation := by
  cases operation with
  | storeBlock buffer writeToFile block =>
      obtain ⟨result, files₁, first, second, -, hstores, -, hresult, rfl⟩ := hruns.of_bind
      cases result with
      | some name => cases (Prod.mk.inj (Outcome.returned.inj hresult)).1
      | none => exact iff_of_false (not_unchanged_storeBlock hdrawn hstores.runsTo) id
  | stashBlock buffer block => exact unchanged_stashBlock_iff hruns
  | unstashBlock block => exact iff_of_true (unchanged_unstashBlock hruns.runsTo) trivial
  | commitStashBlock block =>
      obtain ⟨⟨result, after⟩, files₁, first, second, rfl, hcommits, rfl, hresult, rfl⟩ :=
        hruns.of_bind
      rw [List.append_nil]
      cases result with
      | some name => cases (Prod.mk.inj (Outcome.returned.inj hresult)).1
      | none =>
          cases hresult
          exact unchanged_commitStashBlock_iff hdrawn hcommits

/-- A stash file is read, the subdirectory of its block is made, and the rename fails. -/
theorem unchanged_iff_failsEarly_rename :
    ∃ (storage storage' : BlockStorage (Option (List Byte)))
      (files files' : FileSystem (Option (List Byte)))
      (trace : List (Σ call : Call (Option (List Byte)), Reply call)),
      (perform Build.transparent storage (.commitStashBlock 0)).RunsAlong AnswersOrFails files
          trace (.returned (false, storage')) files' ∧
        ⟨.createDirectory (.subdirectory ['/', 'b'] 0), true⟩ ∈ trace ∧
          Unchanged storage files storage' files' := by
  let storage : BlockStorage (Option (List Byte)) :=
    (initial ['/', 'b'] ['/', 's'] 1).setStashBlockId 0 (some 0)
  let files : FileSystem (Option (List Byte)) :=
    FileSystem.empty.setData (.stash ['/', 's'] 0) (some [5])
  let made : FileSystem (Option (List Byte)) := files.setDirectory (.subdirectory ['/', 'b'] 0)
  let published : DataFile (Option (List Byte)) := .block ['/', 'b'] 0 (some [5])
  have hruns : (perform Build.transparent storage (.commitStashBlock 0)).RunsAlong AnswersOrFails
      files [⟨.openFile (.stash ['/', 's'] 0) false, true⟩,
        ⟨.pread (.stash ['/', 's'] 0) 1, some [5]⟩, ⟨.close, true⟩,
        ⟨.directoryExists (.subdirectory ['/', 'b'] 0), false⟩,
        ⟨.createDirectory (.subdirectory ['/', 'b'] 0), true⟩, ⟨.fileExists published, false⟩,
        ⟨.rename (.stash ['/', 's'] 0) published, false⟩, ⟨.fileExists published, false⟩]
      (.returned (false, storage)) made :=
    .inr ⟨_, files, _, rfl, .inl rfl, .inr ⟨_, files, _, rfl, .inl rfl,
      .inr ⟨_, files, _, rfl, .inl rfl, .inr ⟨_, files, _, rfl, .inl rfl,
      .inr ⟨_, made, _, rfl, .inl rfl, .inr ⟨_, made, _, rfl, .inl rfl,
      .inr ⟨_, made, _, rfl, .inr ⟨rfl, rfl⟩, .inr ⟨_, made, _, rfl, .inl rfl,
      rfl, rfl, rfl⟩⟩⟩⟩⟩⟩⟩⟩
  refine ⟨storage, storage, files, made, _, hruns, by simp,
    (unchanged_iff_failsEarly ?_ hruns).mpr ?_⟩
  · intro location subdirectory index suffix hsome
    cases hsome
  · simp [FailsEarly, Call.Moves]

/-- A block whose write fails is not stored, but its temporary file stays. -/
theorem store_leaves_temporary :
    ¬ ∀ (storage storage' : BlockStorage (Option (List Byte)))
      (files files' : FileSystem (Option (List Byte))) (operation : StorageOperation)
      (trace : List (Σ call : Call (Option (List Byte)), Reply call)),
      TemporariesDrawn files →
        (perform Build.transparent storage operation).RunsAlong AnswersOrFails files trace
          (.returned (false, storage')) files' → Unchanged storage files storage' files' := by
  intro hunchanged
  let storage : BlockStorage (Option (List Byte)) := initial ['/', 'b'] ['/', 's'] 1
  let temporary : DataFile (Option (List Byte)) := .temporary ['/', 'b'] 0 0 0
  let made : FileSystem (Option (List Byte)) :=
    FileSystem.empty.setDirectory (.subdirectory ['/', 'b'] 0)
  let drawn : FileSystem (Option (List Byte)) :=
    { made.setData temporary (some []) with fresh := 1 }
  let sized : FileSystem (Option (List Byte)) := drawn.setData temporary (some [0])
  have hruns : (perform Build.transparent storage (.storeBlock [7] true 0)).RunsTo
      AnswersOrFails FileSystem.empty (.returned (false, storage)) sized :=
    .inr ⟨false, FileSystem.empty, .inl rfl, .inr ⟨true, made, .inl rfl,
      .inr ⟨some 0, drawn, .inl rfl, .inr ⟨true, sized, .inl rfl,
        .inr ⟨false, sized, .inl rfl, .inr ⟨none, sized, .inr ⟨rfl, rfl⟩, rfl, rfl⟩⟩⟩⟩⟩⟩
  obtain ⟨trace, htrace⟩ := Program.runsTo_iff_exists_runsAlong.mp hruns
  have hstays := (hunchanged storage storage FileSystem.empty sized _ trace
    (fun _ _ _ _ hsome => by cases hsome) htrace).blocks temporary id
  cases hstays

end BlockStorage

end Privateer
