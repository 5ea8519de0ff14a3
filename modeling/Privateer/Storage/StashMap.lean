import Privateer.Logic.Runs
import Privateer.Storage.BlockStorageSpec

/-!
# The stash as a finite map

Seen from outside, the stash files of a single-tiered storage are a map from block
indices to contents: stashing sets an entry, unstashing and committing remove one.
The storage reuses, renames or removes files to this end, depending on what is
stored already and on the build; this module shows that none of it is visible.
-/

namespace Privateer

variable {Hash : Type}

/-! ## Calls that make files -/

/-- The call may put a new file in the place of `file`. -/
def Call.Makes (file : DataFile Hash) : Call Hash → Prop
  | .openFile other create => create = true ∧ other = file
  | .mkstemp location subdirectory blockIndex =>
      ∃ suffix, DataFile.temporary location subdirectory blockIndex suffix = file
  | .rename _ target => target = file
  | .copyFile _ target => target = file
  | _ => False

/-- Without a call that makes it, a file that is not there does not appear. -/
theorem FileSystem.data_answer_eq_none [DecidableEq Hash] {file : DataFile Hash}
    (call : Call Hash) (files : FileSystem Hash) (hmakes : ¬ call.Makes file)
    (hfile : files.data file = none) : (files.answer call).2.data file = none := by
  have hchanged : ∀ other content, files.data other = some content → ∀ replacement,
      (files.setData other replacement).data file = none := by
    intro other content hother replacement
    have hne : file ≠ other := by
      rintro rfl
      rw [hfile] at hother
      cases hother
    rw [FileSystem.setData_of_ne files hne, hfile]
  have hmade : ∀ other, other ≠ file → ∀ replacement,
      (files.setData other replacement).data file = none := by
    intro other hne replacement
    rw [FileSystem.setData_of_ne files (Ne.symm hne), hfile]
  cases call with
  | openFile other create =>
      simp only [FileSystem.answer]
      cases hother : files.data other with
      | some content => exact hfile
      | none =>
          split_ifs with hcreate
          · rw [Bool.and_eq_true] at hcreate
            exact hmade other (fun hsame => hmakes ⟨hcreate.1, hsame⟩) _
          · exact hfile
  | rename source target =>
      simp only [FileSystem.answer]
      cases hsource : files.data source with
      | some content =>
          split_ifs
          · have hne : file ≠ target := fun hsame => hmakes hsame.symm
            change ((files.setData source none).setData target _).data file = none
            rw [FileSystem.setData_of_ne _ hne]
            exact hchanged source content hsource none
          · exact hfile
      | none => exact hfile
  | mkstemp location subdirectory blockIndex =>
      simp only [FileSystem.answer]
      split_ifs
      · exact hmade _ (fun hsame => hmakes ⟨_, hsame⟩) _
      · exact hfile
  | copyFile source target =>
      simp only [FileSystem.answer]
      split
      · exact hmade target hmakes _
      · exact hfile
  | ftruncate other length =>
      simp only [FileSystem.answer]
      cases hother : files.data other with
      | some content => exact hchanged other content hother _
      | none => exact hfile
  | pwrite other bytes =>
      simp only [FileSystem.answer]
      cases hother : files.data other with
      | some content => exact hchanged other content hother _
      | none => exact hfile
  | remove other =>
      simp only [FileSystem.answer]
      cases hother : files.data other with
      | some content => exact hchanged other content hother _
      | none => exact hfile
  | _ =>
      simp only [FileSystem.answer]
      (repeat' split) <;> exact hfile

namespace BlockStorage

section Calls

variable {build : Build Hash} {storage : BlockStorage Hash} {location : Path} {uuid : ℕ}

/-- The program makes no stash file in the given directory. -/
abbrev MakesNoStash {A : Type} (location : Path) (uuid : ℕ) (program : StorageProgram Hash A) :
    Prop :=
  program.CallsOnly fun call => ¬ call.Makes (.stash location uuid)

theorem makesNoStash_closeOrExit :
    MakesNoStash location uuid (closeOrExit : StorageProgram Hash Unit) := by
  refine ⟨id, fun closed => ?_⟩
  cases closed with
  | true => trivial
  | false => trivial

theorem makesNoStash_getBlocksSubdirectory (name : Hash) (onStash : Bool) :
    MakesNoStash location uuid (getBlocksSubdirectory build storage name onStash) := by
  refine ⟨id, fun found => ?_⟩
  cases found with
  | true => trivial
  | false =>
      refine ⟨id, fun created => ?_⟩
      cases created with
      | true => trivial
      | false => trivial

theorem makesNoStash_createTemporaryUniqueBlock (directory : Path)
    (subdirectory blockIndex : ℕ) :
    MakesNoStash location uuid
      (createTemporaryUniqueBlock build storage directory subdirectory blockIndex) := by
  refine ⟨nofun, fun suffix => ?_⟩
  cases suffix with
  | none => trivial
  | some suffix =>
      cases hcompression : build.useCompression with
      | true => trivial
      | false =>
          refine ⟨id, fun sized => ?_⟩
          cases sized with
          | true => trivial
          | false => trivial

theorem makesNoStash_writeTemporary (temporary : DataFile Hash) (buffer : List Byte) :
    MakesNoStash location uuid (writeTemporary build temporary buffer) := by
  unfold writeTemporary
  cases hcompression : build.useCompression with
  | true =>
      refine ⟨id, fun sized => ?_⟩
      cases sized with
      | true => exact ⟨id, fun _ => trivial⟩
      | false => trivial
  | false => exact ⟨id, fun _ => trivial⟩

theorem makesNoStash_publishTemporary (temporary : DataFile Hash) (directory : Path)
    (subdirectory : ℕ) (name : Hash) :
    MakesNoStash location uuid
      (publishTemporary temporary (.block directory subdirectory name) name) := by
  refine ⟨nofun, fun renamed => ?_⟩
  cases renamed with
  | true => exact makesNoStash_closeOrExit.bind fun _ => trivial
  | false =>
      refine ⟨id, fun found => ?_⟩
      cases found with
      | true =>
          refine ⟨id, fun removed => ?_⟩
          cases removed with
          | true => exact makesNoStash_closeOrExit.bind fun _ => trivial
          | false => trivial
      | false => exact makesNoStash_closeOrExit.bind fun _ => trivial

theorem makesNoStash_storeBlockOn (buffer : List Byte) (writeToFile : Bool) (blockIndex : ℕ)
    (onStash : Bool) (preComputedHash : Option Hash) :
    MakesNoStash location uuid
      (storeBlockOn build storage buffer writeToFile blockIndex onStash preComputedHash) := by
  unfold storeBlockOn
  refine (makesNoStash_getBlocksSubdirectory _ onStash).bind fun directory => ?_
  refine (makesNoStash_createTemporaryUniqueBlock _ _ blockIndex).bind fun temporary => ?_
  refine ⟨id, fun found => ?_⟩
  cases found with
  | true =>
      refine ⟨id, fun removed => ?_⟩
      cases removed with
      | true => exact makesNoStash_closeOrExit.bind fun _ => trivial
      | false => exact makesNoStash_closeOrExit.bind fun _ => trivial
  | false =>
      cases writeToFile with
      | true =>
          refine (makesNoStash_writeTemporary temporary buffer).bind fun written => ?_
          cases written with
          | true => exact makesNoStash_publishTemporary _ _ _ _
          | false => trivial
      | false => exact makesNoStash_publishTemporary _ _ _ _

theorem makesNoStash_storeBlock (buffer : List Byte) (writeToFile : Bool) (blockIndex : ℕ) :
    MakesNoStash location uuid (storeBlock build storage buffer writeToFile blockIndex) := by
  unfold storeBlock
  cases htier : storage.isMultiTiered with
  | true =>
      refine (makesNoStash_storeBlockOn _ _ _ _ _).bind fun stored => ?_
      cases stored with
      | none => trivial
      | some _ => exact makesNoStash_storeBlockOn _ _ _ _ _
  | false => exact makesNoStash_storeBlockOn _ _ _ _ _

theorem makesNoStash_readStash (file : DataFile Hash) :
    MakesNoStash location uuid (readStash storage file) := by
  refine ⟨nofun, fun opened => ?_⟩
  cases opened with
  | false => trivial
  | true =>
      refine ⟨id, fun bytes => ?_⟩
      cases bytes with
      | none => trivial
      | some bytes => exact makesNoStash_closeOrExit.bind fun _ => trivial

theorem makesNoStash_commitByStore (buffer : List Byte) (blockIndex : ℕ)
    (file : DataFile Hash) (name : Hash) :
    MakesNoStash location uuid (commitByStore build storage buffer blockIndex file name) := by
  unfold commitByStore
  refine (makesNoStash_storeBlockOn _ _ _ _ _).bind fun stored => ?_
  cases stored with
  | none => trivial
  | some stored =>
      refine ⟨id, fun removed => ?_⟩
      cases removed with
      | true => trivial
      | false => trivial

theorem makesNoStash_commitByRename (buffer : List Byte) (blockIndex : ℕ)
    (file : DataFile Hash) (directory : Path) (subdirectory : ℕ) (name : Hash) :
    MakesNoStash location uuid (commitByRename build storage buffer blockIndex file
      (.block directory subdirectory name) name) := by
  refine ⟨nofun, fun renamed => ?_⟩
  cases renamed with
  | true =>
      refine (makesNoStash_storeBlockOn _ _ _ _ _).bind fun stored => ?_
      cases stored with
      | none => trivial
      | some stored => trivial
  | false =>
      refine ⟨id, fun found => ?_⟩
      cases found with
      | false => trivial
      | true =>
          refine ⟨id, fun removed => ?_⟩
          cases removed with
          | false => trivial
          | true =>
              cases htier : storage.isMultiTiered with
              | true => exact (makesNoStash_storeBlockOn _ _ _ _ _).bind fun _ => trivial
              | false => trivial

theorem makesNoStash_commitStashBlock (blockIndex : ℕ) :
    MakesNoStash location uuid (commitStashBlock build storage blockIndex) := by
  unfold commitStashBlock
  cases hid : storage.stashBlockIds blockIndex with
  | none => trivial
  | some number =>
      refine (makesNoStash_readStash _).bind fun buffer => ?_
      refine (makesNoStash_getBlocksSubdirectory _ _).bind fun directory => ?_
      refine ⟨id, fun found => ?_⟩
      cases found with
      | true =>
          refine ⟨id, fun removed => ?_⟩
          cases removed with
          | true => trivial
          | false => trivial
      | false =>
          cases hcompression : build.useCompression with
          | true => exact makesNoStash_commitByStore _ _ _ _
          | false => exact makesNoStash_commitByRename _ _ _ _ _ _

end Calls

/-! ## Runs of the operations -/

/-- A successful call of the block storage, with the name that it returned. -/
inductive StashEvent (Hash : Type) where
  | stash (content : List Byte) (blockIndex : ℕ)
  | unstash (blockIndex : ℕ)
  | commit (blockIndex : ℕ) (name : Hash)
  | store (content : List Byte) (blockIndex : ℕ) (name : Hash)

/-- What a call does to the map. -/
def StashEvent.apply (contents : ℕ → Option (List Byte)) :
    StashEvent Hash → ℕ → Option (List Byte)
  | .stash content blockIndex => Function.update contents blockIndex (some content)
  | .unstash blockIndex => Function.update contents blockIndex none
  | .commit blockIndex _ => Function.update contents blockIndex none
  | .store _ _ _ => contents

/-- The map after calls that started with no stashed block. -/
def stashedContents (events : List (StashEvent Hash)) : ℕ → Option (List Byte) :=
  events.foldl StashEvent.apply fun _ => none

/-- The call sets or removes the entry of the block. -/
def StashEvent.Touches (block : ℕ) : StashEvent Hash → Prop
  | .stash _ blockIndex => blockIndex = block
  | .unstash blockIndex => blockIndex = block
  | .commit blockIndex _ => blockIndex = block
  | .store _ _ _ => False

/-- `content` was stashed for the block, and since then the block was neither stashed
again nor unstashed nor committed. -/
def LastStashed (events : List (StashEvent Hash)) (block : ℕ) (content : List Byte) : Prop :=
  ∃ before after, events = before ++ StashEvent.stash content block :: after ∧
    ∀ event ∈ after, ¬ event.Touches block

theorem lastStashed_concat {events : List (StashEvent Hash)} {event : StashEvent Hash}
    {block : ℕ} {content : List Byte} :
    LastStashed (events ++ [event]) block content ↔
      event = .stash content block ∨ (¬ event.Touches block ∧ LastStashed events block content) := by
  constructor
  · rintro ⟨before, after, hevents, hafter⟩
    rcases List.eq_nil_or_concat after with rfl | ⟨rest, last, rfl⟩
    · exact .inl (List.singleton_inj.mp (List.append_inj' hevents rfl).2)
    · rw [List.concat_eq_append] at hevents hafter
      rw [← List.cons_append, ← List.append_assoc] at hevents
      obtain ⟨hbefore, hlast⟩ := List.append_inj' hevents rfl
      rw [List.singleton_inj] at hlast
      refine .inr ⟨?_, before, rest, hbefore, fun event hevent =>
        hafter event (List.mem_append_left _ hevent)⟩
      rw [hlast]
      exact hafter last (List.mem_append_right _ (List.mem_singleton_self last))
  · rintro (rfl | ⟨huntouched, before, after, rfl, hafter⟩)
    · exact ⟨events, [], rfl, fun event hevent => absurd hevent List.not_mem_nil⟩
    · refine ⟨before, after ++ [event], by simp, ?_⟩
      intro other hother
      rcases List.mem_append.mp hother with hold | hnew
      · exact hafter other hold
      · rw [List.mem_singleton.mp hnew]
        exact huntouched

/-- The map holds what was stashed last. -/
theorem stashedContents_eq_some_iff {events : List (StashEvent Hash)} {block : ℕ}
    {content : List Byte} :
    stashedContents events block = some content ↔ LastStashed events block content := by
  induction events using List.reverseRecOn with
  | nil => simp [stashedContents, LastStashed]
  | append_singleton events event ih =>
      rw [lastStashed_concat, ← ih, stashedContents, List.foldl_append]
      change event.apply (stashedContents events) block = some content ↔ _
      cases event with
      | stash stashed blockIndex =>
          by_cases hsame : blockIndex = block
          · simp [StashEvent.apply, StashEvent.Touches, hsame]
          · simp [StashEvent.apply, StashEvent.Touches, hsame,
              Function.update_of_ne (Ne.symm hsame)]
      | unstash blockIndex =>
          by_cases hsame : blockIndex = block
          · simp [StashEvent.apply, StashEvent.Touches, hsame]
          · simp [StashEvent.apply, StashEvent.Touches, hsame,
              Function.update_of_ne (Ne.symm hsame)]
      | commit blockIndex name =>
          by_cases hsame : blockIndex = block
          · simp [StashEvent.apply, StashEvent.Touches, hsame]
          · simp [StashEvent.apply, StashEvent.Touches, hsame,
              Function.update_of_ne (Ne.symm hsame)]
      | store stored blockIndex name => simp [StashEvent.apply, StashEvent.Touches]

variable [DecidableEq Hash]

/-- A call on a storage.  Blocks have the size of the storage, and only stashed blocks
are unstashed or committed. -/
inductive Performs (build : Build Hash) : BlockStorage Hash × FileSystem Hash →
    StashEvent Hash → BlockStorage Hash × FileSystem Hash → Prop
  | stash {storage storage' : BlockStorage Hash} {files files' : FileSystem Hash}
      {content : List Byte} {blockIndex : ℕ}
      (hlength : content.length = storage.blockGranularity)
      (hrun : (storage.stashBlock content blockIndex).run FileSystem.answer files =
        (.returned (true, storage'), files')) :
      Performs build (storage, files) (.stash content blockIndex) (storage', files')
  | unstash {storage storage' : BlockStorage Hash} {files files' : FileSystem Hash}
      {blockIndex : ℕ} (hstashed : (storage.getBlockStashPath blockIndex).isSome)
      (hrun : (storage.unstashBlock blockIndex).run FileSystem.answer files =
        (.returned (true, storage'), files')) :
      Performs build (storage, files) (.unstash blockIndex) (storage', files')
  | commit {storage storage' : BlockStorage Hash} {files files' : FileSystem Hash}
      {blockIndex : ℕ} {name : Hash}
      (hstashed : (storage.getBlockStashPath blockIndex).isSome)
      (hrun : (commitStashBlock build storage blockIndex).run FileSystem.answer files =
        (.returned (some name, storage'), files')) :
      Performs build (storage, files) (.commit blockIndex name) (storage', files')
  | store {storage : BlockStorage Hash} {files files' : FileSystem Hash}
      {content : List Byte} {blockIndex : ℕ} {name : Hash}
      (hlength : content.length = storage.blockGranularity)
      (hrun : (storeBlock build storage content true blockIndex).run FileSystem.answer files =
        (.returned (some name), files')) :
      Performs build (storage, files) (.store content blockIndex name)
        (storage.noteStored blockIndex, files')

/-! ## The invariant -/

/-- Writing a stash file under a new number, whatever the file held. -/
theorem run_writeStash_new {storage : BlockStorage Hash} {files : FileSystem Hash}
    {content : List Byte} (hlength : content.length = storage.blockGranularity)
    (hdirectory : files.directories (.path storage.stashDirectory)) (uuid : ℕ) :
    (writeStash storage content uuid false).run FileSystem.answer files =
      (.returned true,
        files.setData (.stash storage.stashDirectory uuid) (some content)) := by
  have hwhole : ∀ old, overwrite content (resize 0 storage.blockGranularity old) = content :=
    fun old => overwrite_of_length_le (by rw [length_resize, hlength])
  cases hdata : files.data (.stash storage.stashDirectory uuid) with
  | some old =>
      simp only [writeStash, Program.request_bind, Program.run_call, FileSystem.answer, hdata,
        if_true, Bool.false_eq_true, if_false, FileSystem.setData_self, Option.isSome_some,
        hwhole, FileSystem.setData_setData]
      rfl
  | none =>
      simp only [writeStash, Program.request_bind, Program.run_call, FileSystem.answer, hdata,
        DataFile.parent, hdirectory, Bool.not_false, Bool.and_self, if_true,
        Bool.false_eq_true, if_false, FileSystem.setData_self, Option.isSome_some, hwhole,
        FileSystem.setData_setData]
      rfl

/-- The stash files hold the map `contents`: each entry has a file of its own, and any
other stash file was there at the start. -/
structure StashMap (blocks : BlocksDirectory Hash) (start : FileSystem Hash)
    (contents : ℕ → Option (List Byte)) (storage : BlockStorage Hash)
    (files : FileSystem Hash) : Prop where
  single : storage.SingleTiered blocks
  directory : files.directories (.path storage.stashDirectory)
  named : blocks.Named files
  unmapped : ∀ block, contents block = none → storage.stashBlockIds block = none
  mapped : ∀ block content, contents block = some content →
    content.length = blocks.blockSize ∧ ∃ uuid, storage.stashBlockIds block = some uuid ∧
      uuid < files.fresh ∧ files.data (.stash storage.stashDirectory uuid) = some content
  injective : ∀ block other uuid, storage.stashBlockIds block = some uuid →
    storage.stashBlockIds other = some uuid → block = other
  remaining : ∀ uuid, (∀ block, storage.stashBlockIds block ≠ some uuid) →
    start.data (.stash storage.stashDirectory uuid) = none →
      files.data (.stash storage.stashDirectory uuid) = none

namespace StashMap

variable {blocks : BlocksDirectory Hash} {start files files' : FileSystem Hash}
variable {contents : ℕ → Option (List Byte)} {storage storage' : BlockStorage Hash}
variable {block uuid : ℕ} {content : List Byte}

omit [DecidableEq Hash] in
/-- A storage without stashed blocks. -/
theorem of_none (hsingle : storage.SingleTiered blocks)
    (hdirectory : start.directories (.path storage.stashDirectory))
    (hnamed : blocks.Named start) (hnone : ∀ block, storage.stashBlockIds block = none) :
    StashMap blocks start (fun _ => none) storage start where
  single := hsingle
  directory := hdirectory
  named := hnamed
  unmapped := fun block _ => hnone block
  mapped := fun _ _ hcontent => by cases hcontent
  injective := fun block _ uuid huuid _ => by
    rw [hnone block] at huuid
    cases huuid
  remaining := fun _ _ hstart => hstart

omit [DecidableEq Hash] in
/-- A block with a stash file is in the map. -/
theorem content_of_id (hmap : StashMap blocks start contents storage files)
    (hid : storage.stashBlockIds block = some uuid) : ∃ content, contents block = some content ∧
      content.length = blocks.blockSize ∧ uuid < files.fresh ∧
        files.data (.stash storage.stashDirectory uuid) = some content := by
  cases hcontent : contents block with
  | none =>
      rw [hmap.unmapped block hcontent] at hid
      cases hid
  | some content =>
      obtain ⟨hlength, number, hnumber, hfresh, hdata⟩ := hmap.mapped block content hcontent
      rw [hid, Option.some.injEq] at hnumber
      rw [← hnumber] at hfresh hdata
      exact ⟨content, rfl, hlength, hfresh, hdata⟩

omit [DecidableEq Hash] in
theorem isSome_path (hmap : StashMap blocks start contents storage files) (block : ℕ) :
    (storage.getBlockStashPath block).isSome ↔ ∃ content, contents block = some content := by
  rw [getBlockStashPath, Option.isSome_map, Option.isSome_iff_exists]
  constructor
  · rintro ⟨uuid, hid⟩
    obtain ⟨content, hcontent, -⟩ := hmap.content_of_id hid
    exact ⟨content, hcontent⟩
  · rintro ⟨content, hcontent⟩
    obtain ⟨-, uuid, hid, -⟩ := hmap.mapped block content hcontent
    exact ⟨uuid, hid⟩

/-- A step that owns one stash file leaves the others as they are. -/
theorem kept (hmap : StashMap blocks start contents storage files)
    (hstep : (blocks.contract False).Guarantee {.file uuid} files files')
    {other number : ℕ} (hother : storage.stashBlockIds other = some number)
    (hne : number ≠ uuid) :
    number < files'.fresh ∧ files'.data (.stash storage.stashDirectory number) =
      files.data (.stash storage.stashDirectory number) := by
  obtain ⟨_, -, -, hfresh, -⟩ := hmap.content_of_id hother
  have hallocated : Resource.file number ∈ FileSystem.interface.allocated files := hfresh
  refine ⟨hstep.allocated hallocated, hstep.others (.file number) hallocated ?_ _ rfl⟩
  exact fun hsame => hne (Resource.file.inj hsame)

/-- An entry of the map is set. -/
theorem put (hmap : StashMap blocks start contents storage files)
    (hstep : (blocks.contract False).Guarantee {.file uuid} files files')
    (howner : ∀ other, storage.stashBlockIds other = some uuid → other = block)
    (hlength : content.length = blocks.blockSize) (hfresh : uuid < files'.fresh)
    (hdata : files'.data (.stash storage.stashDirectory uuid) = some content)
    (hold : ∀ number, storage.stashBlockIds block = some number → number = uuid)
    (hmade : ∀ number, number ≠ uuid →
      files.data (.stash storage.stashDirectory number) = none →
        files'.data (.stash storage.stashDirectory number) = none) :
    StashMap blocks start (Function.update contents block (some content))
      (storage.setStashBlockId block (some uuid)) files' where
  single := hmap.single.setStashBlockId block (some uuid)
  directory := hstep.promised.directories _ hmap.directory
  named := (hstep.promised.named hmap.named).1
  unmapped := by
    intro other hother
    rw [Function.update_apply] at hother
    rw [setStashBlockId_apply]
    split_ifs at hother ⊢
    exact hmap.unmapped other hother
  mapped := by
    intro other stashed hother
    rw [Function.update_apply] at hother
    rw [setStashBlockId_apply]
    split_ifs at hother ⊢ with hsame
    · cases hother
      exact ⟨hlength, uuid, rfl, hfresh, hdata⟩
    · obtain ⟨hlength', number, hnumber, -, hdata'⟩ := hmap.mapped other stashed hother
      have hne : number ≠ uuid := fun h => hsame (howner other (h ▸ hnumber))
      obtain ⟨hfresh', hkept⟩ := hmap.kept hstep hnumber hne
      exact ⟨hlength', number, hnumber, hfresh', hkept.trans hdata'⟩
  injective := by
    intro first second number hfirst hsecond
    rw [setStashBlockId_apply] at hfirst hsecond
    split_ifs at hfirst hsecond with hsame hsame' hsame'
    · rw [hsame, hsame']
    · rw [hsame, howner second (hsecond.trans hfirst.symm)]
    · rw [hsame', howner first (hfirst.trans hsecond.symm)]
    · exact hmap.injective first second number hfirst hsecond
  remaining := by
    intro number hnumber hstart
    have hne : number ≠ uuid := by
      rintro rfl
      apply hnumber block
      rw [setStashBlockId_apply, if_pos rfl]
    refine hmade number hne (hmap.remaining number (fun other hother => ?_) hstart)
    by_cases hsame : other = block
    · exact hne (hold number (hsame ▸ hother))
    · apply hnumber other
      rw [setStashBlockId_apply, if_neg hsame]
      exact hother

/-- An entry of the map is removed. -/
theorem remove (hmap : StashMap blocks start contents storage files)
    (hid : storage.stashBlockIds block = some uuid)
    (hstep : (blocks.contract False).Guarantee {.file uuid} files files')
    (hgone : files'.data (.stash storage.stashDirectory uuid) = none)
    (hmade : ∀ number, files.data (.stash storage.stashDirectory number) = none →
      files'.data (.stash storage.stashDirectory number) = none) :
    StashMap blocks start (Function.update contents block none)
      (storage.setStashBlockId block none) files' where
  single := hmap.single.setStashBlockId block none
  directory := hstep.promised.directories _ hmap.directory
  named := (hstep.promised.named hmap.named).1
  unmapped := by
    intro other hother
    rw [Function.update_apply] at hother
    rw [setStashBlockId_apply]
    split_ifs at hother ⊢ with hsame
    · rfl
    · exact hmap.unmapped other hother
  mapped := by
    intro other stashed hother
    rw [Function.update_apply] at hother
    rw [setStashBlockId_apply]
    split_ifs at hother ⊢ with hsame
    obtain ⟨hlength', number, hnumber, -, hdata'⟩ := hmap.mapped other stashed hother
    have hne : number ≠ uuid := fun h => hsame (hmap.injective other block uuid (h ▸ hnumber) hid)
    obtain ⟨hfresh', hkept⟩ := hmap.kept hstep hnumber hne
    exact ⟨hlength', number, hnumber, hfresh', hkept.trans hdata'⟩
  injective := by
    intro first second number hfirst hsecond
    rw [setStashBlockId_apply] at hfirst hsecond
    split_ifs at hfirst hsecond
    exact hmap.injective first second number hfirst hsecond
  remaining := by
    intro number hnumber hstart
    by_cases hsame : number = uuid
    · rw [hsame]
      exact hgone
    · refine hmade number (hmap.remaining number (fun other hother => ?_) hstart)
      apply hnumber other
      rw [setStashBlockId_apply, if_neg, hother]
      rintro rfl
      rw [hid, Option.some.injEq] at hother
      exact hsame hother.symm

/-- A step that owns no stash file keeps the map. -/
theorem keep (hmap : StashMap blocks start contents storage files)
    (hstep : (blocks.contract False).Guarantee ∅ files files')
    (hmade : ∀ number, files.data (.stash storage.stashDirectory number) = none →
      files'.data (.stash storage.stashDirectory number) = none) :
    StashMap blocks start contents storage files' where
  single := hmap.single
  directory := hstep.promised.directories _ hmap.directory
  named := (hstep.promised.named hmap.named).1
  unmapped := hmap.unmapped
  mapped := by
    intro other stashed hother
    obtain ⟨hlength, number, hnumber, hfresh, hdata⟩ := hmap.mapped other stashed hother
    have hallocated : Resource.file number ∈ FileSystem.interface.allocated files := hfresh
    have hkept := hstep.others _ hallocated (Set.notMem_empty _) (.stash storage.stashDirectory
      number) rfl
    exact ⟨hlength, number, hnumber, hstep.allocated hallocated, hkept.trans hdata⟩
  injective := hmap.injective
  remaining := fun number hnumber hstart =>
    hmade number (hmap.remaining number hnumber hstart)

/-! ## The operations -/

/-- Stashing sets the entry of its block, in the file that the block has or in a new one. -/
theorem stash (hmap : StashMap blocks start contents storage files)
    (hlength : content.length = storage.blockGranularity) (block : ℕ) :
    ∃ storage' files', (storage.stashBlock content block).run FileSystem.answer files =
        (.returned (true, storage'), files') ∧
      StashMap blocks start (Function.update contents block (some content)) storage' files' := by
  have hsize : content.length = blocks.blockSize := hlength.trans hmap.single.granularity
  cases hid : storage.stashBlockIds block with
  | some uuid =>
      obtain ⟨old, -, hold, hfresh, hdata⟩ := hmap.content_of_id hid
      have hwhole : overwrite content old = content :=
        overwrite_of_length_le (hold.trans hsize.symm).le
      have hrun : (storage.stashBlock content block).run FileSystem.answer files =
          (.returned (true, storage),
            files.setData (.stash storage.stashDirectory uuid) (some content)) := by
        simp only [stashBlock, hid, writeStash, Program.request_bind, Program.run_call,
          FileSystem.answer, hdata, if_true, Option.isSome_some, hwhole, Program.call_bind]
        rfl
      have hstep : (blocks.contract False).Guarantee {.file uuid} files
          (files.setData (.stash storage.stashDirectory uuid) (some content)) :=
        BlocksDirectory.guarantee_setData rfl (Set.mem_singleton _)
      have hput := hmap.put hstep (fun other hother => hmap.injective other block uuid hother hid)
        hsize hfresh (FileSystem.setData_self _ _ _)
        (fun number hnumber => Option.some.inj (hnumber.symm.trans hid)) fun number hne hnone => by
          rw [FileSystem.setData_of_ne files fun h => hne (DataFile.stash.inj h).2, hnone]
      rw [setStashBlockId_eq_self hid] at hput
      exact ⟨storage, _, hrun, hput⟩
  | none =>
      let drawn := { files with fresh := files.fresh + 1 }
      let file : DataFile Hash := .stash storage.stashDirectory files.fresh
      have hrun : (storage.stashBlock content block).run FileSystem.answer files =
          (.returned (true, storage.setStashBlockId block (some files.fresh)),
            drawn.setData file (some content)) := by
        have hwritten := @run_writeStash_new _ _ storage drawn content hlength hmap.directory
          files.fresh
        simp only [stashBlock, hid, Program.request_bind, Program.run_call]
        exact Program.run_bind_of_returned hwritten
      have hstep : (blocks.contract False).Guarantee {.file files.fresh} files
          (drawn.setData file (some content)) :=
        (BlocksDirectory.guarantee_draw rfl).mono (Set.empty_subset _)
      refine ⟨_, _, hrun, hmap.put hstep ?_ hsize (Nat.lt_succ_self _)
        (FileSystem.setData_self _ _ _) ?_ ?_⟩
      · intro other hother
        obtain ⟨_, -, -, hfresh, -⟩ := hmap.content_of_id hother
        exact absurd hfresh (lt_irrefl _)
      · intro number hnumber
        rw [hid] at hnumber
        cases hnumber
      · intro number hne hnone
        rw [FileSystem.setData_of_ne _ fun h => hne (DataFile.stash.inj h).2]
        exact hnone

/-- Unstashing removes the entry of its block. -/
theorem unstash (hmap : StashMap blocks start contents storage files)
    (hstashed : (storage.getBlockStashPath block).isSome) :
    ∃ files', (storage.unstashBlock block).run FileSystem.answer files =
        (.returned (true, storage.setStashBlockId block none), files') ∧
      StashMap blocks start (Function.update contents block none)
        (storage.setStashBlockId block none) files' := by
  obtain ⟨uuid, hid⟩ := Option.isSome_iff_exists.mp (by simpa [getBlockStashPath] using hstashed)
  obtain ⟨old, -, -, -, hdata⟩ := hmap.content_of_id hid
  have hrun : (storage.unstashBlock block).run FileSystem.answer files =
      (.returned (true, storage.setStashBlockId block none),
        files.setData (.stash storage.stashDirectory uuid) none) := by
    simp only [unstashBlock, hid, Program.request_bind, Program.run_call, FileSystem.answer,
      hdata, if_true]
    rfl
  have hstep : (blocks.contract False).Guarantee {.file uuid} files
      (files.setData (.stash storage.stashDirectory uuid) none) :=
    BlocksDirectory.guarantee_setData rfl (Set.mem_singleton _)
  refine ⟨_, hrun, hmap.remove hid hstep (FileSystem.setData_self _ _ _) ?_⟩
  intro number hnone
  by_cases hsame : number = uuid
  · rw [hsame]
    exact FileSystem.setData_self _ _ _
  · rw [FileSystem.setData_of_ne files fun h => hsame (DataFile.stash.inj h).2, hnone]

/-- A run of a program that makes no stash file. -/
theorem data_stash_of_run {A : Type} {program : StorageProgram Hash A} {location : Path}
    {number : ℕ} (hcalls : MakesNoStash location number program)
    (hnone : files.data (.stash location number) = none) {outcome : Outcome A}
    (hrun : program.run FileSystem.answer files = (outcome, files')) :
    files'.data (.stash location number) = none := by
  let absent : FileSystem Hash → Prop := fun files => files.data (.stash location number) = none
  have hkept : absent (program.run FileSystem.answer files).2 :=
    hcalls.run_keeps (fun call files => FileSystem.data_answer_eq_none call files) hnone
  rwa [hrun] at hkept

/-- Committing names the block by its contents, stores it and removes its entry. -/
theorem commit (hsound : blocks.build.Sound)
    (hmap : StashMap blocks start contents storage files)
    (hcontent : contents block = some content) :
    ∃ files', (commitStashBlock blocks.build storage block).run FileSystem.answer files =
        (.returned (some (blocks.build.computeHash content),
          storage.setStashBlockId block none), files') ∧
      blocks.Stored files' (blocks.build.computeHash content) content ∧
        StashMap blocks start (Function.update contents block none)
          (storage.setStashBlockId block none) files' := by
  obtain ⟨hlength, uuid, hid, hfresh, hdata⟩ := hmap.mapped block content hcontent
  have hensures : (blocks.contract False).ensures (commitStashBlock blocks.build storage block)
      _ {.file uuid} files :=
    ensures_commitStashBlock_tidied hsound hmap.single hid hdata hlength hfresh hmap.named
  obtain ⟨result, files', owned', hrun, ⟨rfl, hstored, htidied⟩, hstep⟩ | ⟨hexit, -⟩ :=
    Contract.run_of_ensures (fun _ _ => rfl) hensures
  · refine ⟨files', hrun, hstored, hmap.remove hid hstep htidied.stash ?_⟩
    exact fun number hnone => data_stash_of_run (makesNoStash_commitStashBlock block) hnone hrun
  · exact hexit.elim

/-- Storing a block keeps the map. -/
theorem store (hsound : blocks.build.Sound)
    (hmap : StashMap blocks start contents storage files)
    (hlength : content.length = storage.blockGranularity) (block : ℕ) :
    ∃ files', (storeBlock blocks.build storage content true block).run FileSystem.answer files =
        (.returned (some (blocks.build.computeHash content)), files') ∧
      blocks.Stored files' (blocks.build.computeHash content) content ∧
        StashMap blocks start contents storage files' := by
  have hensures : (blocks.contract False).ensures
      (storeBlock blocks.build storage content true block) _ ∅ files :=
    ensures_storeBlock hsound hmap.single (hlength.trans hmap.single.granularity) block hmap.named
  obtain ⟨result, files', owned', hrun, ⟨rfl, hstored, -⟩, hstep⟩ | ⟨hexit, -⟩ :=
    Contract.run_of_ensures (fun _ _ => rfl) hensures
  · refine ⟨files', hrun, hstored, hmap.keep hstep ?_⟩
    exact fun number hnone => data_stash_of_run (makesNoStash_storeBlock _ _ block) hnone hrun
  · exact hexit.elim

/-! ## Runs -/

omit [DecidableEq Hash] in
theorem noteStored (hmap : StashMap blocks start contents storage files) (block : ℕ) :
    StashMap blocks start contents (storage.noteStored block) files := by
  unfold BlockStorage.noteStored
  split_ifs
  · exact hmap
  · exact ⟨⟨hmap.single.baseDirectory, hmap.single.granularity, hmap.single.tier⟩,
      hmap.directory, hmap.named, hmap.unmapped, hmap.mapped, hmap.injective, hmap.remaining⟩

/-- What a call keeps: the files hold the map that the call leads to. -/
theorem step (hsound : blocks.build.Sound) {state next : BlockStorage Hash × FileSystem Hash}
    {event : StashEvent Hash} (hmap : StashMap blocks start contents state.1 state.2)
    (hperforms : Performs blocks.build state event next) :
    StashMap blocks start (event.apply contents) next.1 next.2 := by
  cases hperforms with
  | @stash storage storage' files files' content block hlength hrun =>
      obtain ⟨_, _, hstashed, hnext⟩ := hmap.stash hlength block
      cases hrun.symm.trans hstashed
      exact hnext
  | @unstash storage storage' files files' block hstashed hrun =>
      obtain ⟨_, hunstashed, hnext⟩ := hmap.unstash hstashed
      cases hrun.symm.trans hunstashed
      exact hnext
  | @commit storage storage' files files' block name hstashed hrun =>
      obtain ⟨content, hcontent⟩ := (hmap.isSome_path block).mp hstashed
      obtain ⟨_, hcommitted, -, hnext⟩ := hmap.commit hsound hcontent
      cases hrun.symm.trans hcommitted
      exact hnext
  | @store storage files files' content block name hlength hrun =>
      obtain ⟨_, hstored, -, hnext⟩ := hmap.store hsound hlength block
      cases hrun.symm.trans hstored
      exact hnext.noteStored block

theorem run (hsound : blocks.build.Sound) {state : BlockStorage Hash × FileSystem Hash}
    {trace : List (StashEvent Hash × (BlockStorage Hash × FileSystem Hash))}
    (hrun : Run (Performs blocks.build) state trace)
    (hmap : StashMap blocks start contents state.1 state.2) :
    StashMap blocks start ((trace.map Prod.fst).foldl StashEvent.apply contents)
      (Run.last state trace).1 (Run.last state trace).2 := by
  induction hrun generalizing contents with
  | nil => exact hmap
  | cons hstep hrest ih =>
      rw [Run.last_cons]
      exact ih (hmap.step hsound hstep)

omit [DecidableEq Hash] in
/-- A call that removes an entry leaves the files of the others. -/
theorem others (hmap : StashMap blocks start contents storage files)
    (hnext : StashMap blocks start (Function.update contents block none)
      (storage.setStashBlockId block none) files') {other : ℕ} (hne : other ≠ block) :
    (storage.setStashBlockId block none).getBlockStashPath other =
        storage.getBlockStashPath other ∧
      ∀ file, storage.getBlockStashPath other = some file → files'.data file = files.data file := by
  have hids : (storage.setStashBlockId block none).stashBlockIds other =
      storage.stashBlockIds other := by
    rw [setStashBlockId_apply, if_neg hne]
  refine ⟨by rw [getBlockStashPath, hids]; rfl, ?_⟩
  intro file hfile
  obtain ⟨uuid, hid, rfl⟩ := Option.map_eq_some_iff.mp hfile
  obtain ⟨content, hcontent, -, -, hdata⟩ := hmap.content_of_id hid
  obtain ⟨content', hcontent', -, -, hdata'⟩ := hnext.content_of_id (hids.trans hid)
  rw [Function.update_of_ne hne, hcontent, Option.some.injEq] at hcontent'
  rw [hdata, hcontent']
  exact hdata'

end StashMap

/-! ## The map as the caller sees it -/

/-- After the calls `events` the stash is the map of what was stashed last. -/
structure ShowsMap (blocks : BlocksDirectory Hash) (start : FileSystem Hash)
    (events : List (StashEvent Hash)) (state : BlockStorage Hash × FileSystem Hash) : Prop where
  path : ∀ block, (state.1.getBlockStashPath block).isSome ↔
    ∃ content, LastStashed events block content
  content : ∀ block content, LastStashed events block content →
    ∃ file, state.1.getBlockStashPath block = some file ∧ state.2.data file = some content
  remaining : (∀ block, state.1.getBlockStashPath block = none) →
    ∀ uuid, start.data (.stash state.1.stashDirectory uuid) = none →
      state.2.data (.stash state.1.stashDirectory uuid) = none
  commit : ∀ block name next, Performs blocks.build state (.commit block name) next →
    ∃ content, LastStashed events block content ∧
      name = blocks.build.computeHash content ∧ blocks.Stored next.2 name content
  others : ∀ block event next, (event = .unstash block ∨ ∃ name, event = .commit block name) →
    Performs blocks.build state event next → ∀ other, other ≠ block →
      next.1.getBlockStashPath other = state.1.getBlockStashPath other ∧
        ∀ file, state.1.getBlockStashPath other = some file →
          next.2.data file = state.2.data file
  succeeds : ∀ block content, content.length = blocks.blockSize →
    (∃ next, Performs blocks.build state (.stash content block) next) ∧
      (∃ name next, Performs blocks.build state (.store content block name) next) ∧
        ((state.1.getBlockStashPath block).isSome →
          (∃ next, Performs blocks.build state (.unstash block) next) ∧
            ∃ name next, Performs blocks.build state (.commit block name) next)

theorem StashMap.showsMap {blocks : BlocksDirectory Hash} {start : FileSystem Hash}
    {events : List (StashEvent Hash)} {state : BlockStorage Hash × FileSystem Hash}
    (hsound : blocks.build.Sound)
    (hmap : StashMap blocks start (stashedContents events) state.1 state.2) :
    ShowsMap blocks start events state where
  path := by
    intro block
    simp only [hmap.isSome_path block, stashedContents_eq_some_iff]
  content := by
    intro block content hlast
    obtain ⟨-, uuid, hid, -, hdata⟩ :=
      hmap.mapped block content (stashedContents_eq_some_iff.mpr hlast)
    exact ⟨_, by rw [getBlockStashPath, hid]; rfl, hdata⟩
  remaining := by
    intro hnone uuid hstart
    refine hmap.remaining uuid (fun block hid => ?_) hstart
    have hpath := hnone block
    rw [getBlockStashPath, hid] at hpath
    cases hpath
  commit := by
    intro block name next hperforms
    cases hperforms with
    | commit hstashed hrun =>
        obtain ⟨content, hcontent⟩ := (hmap.isSome_path block).mp hstashed
        obtain ⟨_, hcommitted, hstored, -⟩ := hmap.commit hsound hcontent
        cases hrun.symm.trans hcommitted
        exact ⟨content, stashedContents_eq_some_iff.mp hcontent, rfl, hstored⟩
  others := by
    rintro block event next (rfl | ⟨name, rfl⟩) hperforms other hne
    · cases hperforms with
      | unstash hstashed hrun =>
          obtain ⟨_, hunstashed, hnext⟩ := hmap.unstash hstashed
          cases hrun.symm.trans hunstashed
          exact hmap.others hnext hne
    · cases hperforms with
      | commit hstashed hrun =>
          obtain ⟨content, hcontent⟩ := (hmap.isSome_path block).mp hstashed
          obtain ⟨_, hcommitted, -, hnext⟩ := hmap.commit hsound hcontent
          cases hrun.symm.trans hcommitted
          exact hmap.others hnext hne
  succeeds := by
    intro block content hlength
    have hgranularity : content.length = state.1.blockGranularity :=
      hlength.trans hmap.single.granularity.symm
    refine ⟨?_, ?_, fun hstashed => ⟨?_, ?_⟩⟩
    · obtain ⟨storage', files', hrun, -⟩ := hmap.stash hgranularity block
      exact ⟨(storage', files'), .stash hgranularity hrun⟩
    · obtain ⟨files', hrun, -⟩ := hmap.store hsound hgranularity block
      exact ⟨_, (_, files'), .store hgranularity hrun⟩
    · obtain ⟨files', hrun, -⟩ := hmap.unstash hstashed
      exact ⟨(_, files'), .unstash hstashed hrun⟩
    · obtain ⟨stashed, hstashed'⟩ := (hmap.isSome_path block).mp hstashed
      obtain ⟨files', hrun, -⟩ := hmap.commit hsound hstashed'
      exact ⟨_, (_, files'), .commit hstashed hrun⟩

/-- The stash of a single-tiered storage, from its opening on, is a finite map from block
indices to contents: after every sequence of successful calls, in both builds. -/
theorem stash_shows_map {blocks : BlocksDirectory Hash} (hsound : blocks.build.Sound)
    {storage : BlockStorage Hash} {files : FileSystem Hash}
    (hsingle : storage.SingleTiered blocks)
    (hdirectory : files.directories (.path storage.stashDirectory))
    (hnamed : blocks.Named files) (hnone : ∀ block, storage.stashBlockIds block = none)
    {trace : List (StashEvent Hash × (BlockStorage Hash × FileSystem Hash))}
    (hrun : Run (Performs blocks.build) (storage, files) trace) :
    ShowsMap blocks files (trace.map Prod.fst) (Run.last (storage, files) trace) := by
  have hstart := StashMap.of_none hsingle hdirectory hnamed hnone
  exact (StashMap.run hsound hrun hstart).showsMap hsound

/-- A new storage in which block 0 is stashed, stashed again and committed. -/
theorem stash_shows_map_twice :
    ∃ trace : List (StashEvent (Option (List Byte)) ×
        (BlockStorage (Option (List Byte)) × FileSystem (Option (List Byte)))),
      trace.map Prod.fst = [.stash [5] 0, .stash [6] 0, .commit 0 (some [6])] ∧
        ShowsMap ⟨Build.transparent, ['d', '/', 'b'], 1⟩
          { FileSystem.empty with directories := fun _ => true } (trace.map Prod.fst)
          (Run.last (initial ['d', '/', 'b'] ['d', '/', 's'] 1,
            { FileSystem.empty with directories := fun _ => true }) trace) :=
  ⟨_, rfl, stash_shows_map Build.transparent_sound ⟨rfl, rfl, rfl⟩ rfl
    (fun _ _ _ hbytes => by cases hbytes) (fun _ => rfl)
    (.cons (.stash rfl rfl) (.cons (.stash rfl rfl) (.cons (.commit rfl rfl) .nil)))⟩

end BlockStorage

end Privateer
