import Privateer.Storage.BlockStorageSpec
import Privateer.Storage.CallRules

/-!
# What commits do to the data files

A commit of a block leaves its contents under their name, removes its stash file, and
changes no other file but temporary ones.  Two commits of the same blocks, in any order and
with any contents in common, therefore leave the same files.
-/

namespace Privateer

variable {Hash : Type}

/-- The file is not a temporary one. -/
def DataFile.Lasts (file : DataFile Hash) : Prop :=
  ∀ location subdirectory index suffix, file ≠ .temporary location subdirectory index suffix

/-- The files that a call may change, but for a temporary one that it may make. -/
def Call.changes : Call Hash → List (DataFile Hash)
  | .openFile file create => if create then [file] else []
  | .ftruncate file _ | .pwrite file _ | .remove file => [file]
  | .rename source target => [source, target]
  | .copyFile _ target => [target]
  | _ => []

/-- The call leaves the file as it is. -/
def Call.Leaves (file : DataFile Hash) (call : Call Hash) : Prop :=
  file ∉ call.changes

section Leaves

variable [DecidableEq Hash] {file : DataFile Hash}

theorem data_answer_of_leaves (hlasts : file.Lasts) {call : Call Hash}
    (hleaves : call.Leaves file) (files : FileSystem Hash) :
    (files.answer call).2.data file = files.data file := by
  cases call with
  | openFile other create =>
      simp only [FileSystem.answer]
      split
      · rfl
      · cases create with
        | false => rfl
        | true =>
            split
            · exact FileSystem.setData_of_ne _ (List.ne_of_not_mem_cons hleaves) _
            · rfl
  | ftruncate other length =>
      simp only [FileSystem.answer]
      split
      · exact FileSystem.setData_of_ne _ (List.ne_of_not_mem_cons hleaves) _
      · rfl
  | pwrite other bytes =>
      simp only [FileSystem.answer]
      split
      · exact FileSystem.setData_of_ne _ (List.ne_of_not_mem_cons hleaves) _
      · rfl
  | rename source target =>
      have hsource := List.ne_of_not_mem_cons hleaves
      have htarget := List.ne_of_not_mem_cons (List.not_mem_of_not_mem_cons hleaves)
      simp only [FileSystem.answer]
      split
      · split
        · exact (FileSystem.setData_of_ne _ htarget _).trans
            (FileSystem.setData_of_ne _ hsource _)
        · rfl
      · rfl
  | remove other =>
      simp only [FileSystem.answer]
      split
      · exact FileSystem.setData_of_ne _ (List.ne_of_not_mem_cons hleaves) _
      · rfl
  | mkstemp location subdirectory index =>
      simp only [FileSystem.answer]
      split
      · exact FileSystem.setData_of_ne _ (hlasts _ _ _ _) _
      · rfl
  | copyFile source target =>
      simp only [FileSystem.answer]
      split
      · exact FileSystem.setData_of_ne _ (List.ne_of_not_mem_cons hleaves) _
      · rfl
  | openMetadata _ _ _ | pwriteMetadata _ _ | removeMetadata _ | copyMetadata _ _ | openText _
  | writeText _ _ | copyText _ _ =>
      simp only [FileSystem.answer]
      (repeat' split) <;> rfl
  | _ => rfl

theorem data_run_of_leaves {A : Type} {program : StorageProgram Hash A} (hlasts : file.Lasts)
    (hcalls : program.CallsOnly (Call.Leaves file)) {files files' : FileSystem Hash}
    {outcome : Outcome A} (hrun : program.run FileSystem.answer files = (outcome, files')) :
    files'.data file = files.data file := by
  have hkept : (program.run FileSystem.answer files).2.data file = files.data file :=
    hcalls.run_keeps (fun call between hleaves hbetween =>
      (data_answer_of_leaves hlasts hleaves between).trans hbetween) rfl
  rwa [hrun] at hkept

end Leaves

/-- The files that a commit of some contents leaves: the blocks are there under their names,
the stash files are gone, and nothing else has changed. -/
structure Settles (blocks : BlocksDirectory Hash) (contents : Set (List Byte))
    (uuids : Set ℕ) (stashDirectory : Path) (files files' : FileSystem Hash) : Prop where
  stored : ∀ content ∈ contents,
    blocks.Stored files' (blocks.build.computeHash content) content
  gone : ∀ uuid ∈ uuids, files'.data (.stash stashDirectory uuid) = none
  others : ∀ file : DataFile Hash, file.Lasts →
    (∀ content ∈ contents, file ≠ blocks.blockFile (blocks.build.computeHash content)) →
      (∀ uuid ∈ uuids, file ≠ .stash stashDirectory uuid) → files'.data file = files.data file

namespace Settles

variable {blocks : BlocksDirectory Hash} {contents contents' : Set (List Byte)}
variable {uuids uuids' : Set ℕ} {stashDirectory : Path} {files files' files'' : FileSystem Hash}

theorem lasts_blockFile (name : Hash) : (blocks.blockFile name).Lasts := nofun

theorem lasts_stash (location : Path) (uuid : ℕ) :
    (DataFile.stash location uuid : DataFile Hash).Lasts := nofun

/-- Files with different contents have different names. -/
theorem eq_of_blockFile_eq (hsound : blocks.build.Sound) {content content' : List Byte}
    (hsame : blocks.blockFile (blocks.build.computeHash content) =
      blocks.blockFile (blocks.build.computeHash content')) : content = content' :=
  hsound.computeHash_injective (DataFile.block.inj hsame).2.2

theorem refl (files : FileSystem Hash) : Settles blocks ∅ ∅ stashDirectory files files where
  stored := fun _ hcontent => hcontent.elim
  gone := fun _ huuid => huuid.elim
  others := fun _ _ _ _ => rfl

/-- One commit after the other. -/
theorem trans (hsound : blocks.build.Sound)
    (hfirst : Settles blocks contents uuids stashDirectory files files')
    (hsecond : Settles blocks contents' uuids' stashDirectory files' files'') :
    Settles blocks (contents ∪ contents') (uuids ∪ uuids') stashDirectory files files'' where
  stored := by
    rintro content (hcontent | hcontent)
    · by_cases hmember : content ∈ contents'
      · exact hsecond.stored content hmember
      · have hstored := hfirst.stored content hcontent
        refine ⟨hstored.length, hstored.hash, ?_⟩
        rw [hsecond.others _ (lasts_blockFile _) ?_ nofun]
        · exact hstored.file
        · intro other hother hsame
          exact hmember (eq_of_blockFile_eq hsound hsame ▸ hother)
    · exact hsecond.stored content hcontent
  gone := by
    rintro uuid (huuid | huuid)
    · by_cases hmember : uuid ∈ uuids'
      · exact hsecond.gone uuid hmember
      · rw [hsecond.others _ (lasts_stash _ _) nofun ?_]
        · exact hfirst.gone uuid huuid
        · intro other hother hsame
          cases hsame
          exact hmember hother
    · exact hsecond.gone uuid huuid
  others := by
    intro file hlasts hcontents huuids
    rw [hsecond.others file hlasts (fun content hcontent => hcontents content (.inr hcontent))
      fun uuid huuid => huuids uuid (.inr huuid)]
    exact hfirst.others file hlasts (fun content hcontent => hcontents content (.inl hcontent))
      fun uuid huuid => huuids uuid (.inl huuid)

/-- Commits of the same contents leave the same files. -/
theorem unique (hfirst : Settles blocks contents uuids stashDirectory files files')
    (hsecond : Settles blocks contents uuids stashDirectory files files'')
    {file : DataFile Hash} (hlasts : file.Lasts) : files'.data file = files''.data file := by
  by_cases hblock : ∃ content ∈ contents,
      file = blocks.blockFile (blocks.build.computeHash content)
  · obtain ⟨content, hcontent, rfl⟩ := hblock
    rw [(hfirst.stored content hcontent).file, (hsecond.stored content hcontent).file]
  by_cases hstash : ∃ uuid ∈ uuids, file = .stash stashDirectory uuid
  · obtain ⟨uuid, huuid, rfl⟩ := hstash
    rw [hfirst.gone uuid huuid, hsecond.gone uuid huuid]
  have hblocks : ∀ content ∈ contents,
      file ≠ blocks.blockFile (blocks.build.computeHash content) :=
    fun content hcontent hsame => hblock ⟨content, hcontent, hsame⟩
  have hstashes : ∀ uuid ∈ uuids, file ≠ .stash stashDirectory uuid :=
    fun uuid huuid hsame => hstash ⟨uuid, huuid, hsame⟩
  rw [hfirst.others file hlasts hblocks hstashes, hsecond.others file hlasts hblocks hstashes]

end Settles

/-! ## Single blocks -/

namespace BlockStorage

variable {build : Build Hash} {storage : BlockStorage Hash} {file : DataFile Hash}
variable {name : Hash} {onStash : Bool}

theorem permits_leaves (hlasts : file.Lasts)
    (hname : file ≠ .block (storage.tierDirectory onStash) (build.prefixIndex name % numSubdirs)
      name) : storage.Permits build (Call.Leaves file) name onStash where
  directoryExists := List.not_mem_nil
  createDirectory := List.not_mem_nil
  fileExists := List.not_mem_nil
  mkstemp := fun _ => List.not_mem_nil
  ftruncate := fun _ _ _ hfile => hlasts _ _ _ _ (List.mem_singleton.mp hfile)
  pwrite := fun _ _ _ hfile => hlasts _ _ _ _ (List.mem_singleton.mp hfile)
  rename := by
    rintro index suffix hfile
    rcases List.mem_cons.mp hfile with hfile | hfile
    · exact hlasts _ _ _ _ hfile
    · exact hname (List.mem_singleton.mp hfile)
  remove := fun _ _ hfile => hlasts _ _ _ _ (List.mem_singleton.mp hfile)
  close := List.not_mem_nil

theorem leavesOthers_readStash (other : DataFile Hash) :
    (readStash storage other).CallsOnly (Call.Leaves file) := by
  refine ⟨List.not_mem_nil, fun opened => ?_⟩
  cases opened with
  | false => trivial
  | true =>
      refine ⟨List.not_mem_nil, fun bytes => ?_⟩
      cases bytes with
      | none => trivial
      | some bytes => exact callsOnly_closeOrExit List.not_mem_nil trivial

variable [DecidableEq Hash] {blocks : BlocksDirectory Hash} {files files' : FileSystem Hash}

omit [DecidableEq Hash] in
theorem permits_leaves_single (hsingle : storage.SingleTiered blocks) (hlasts : file.Lasts)
    (hname : file ≠ blocks.blockFile name) :
    storage.Permits blocks.build (Call.Leaves file) name false := by
  apply permits_leaves hlasts
  rw [tierDirectory, if_neg Bool.false_ne_true, hsingle.baseDirectory]
  exact hname

omit [DecidableEq Hash] in
/-- Storing a block changes no file but its own. -/
theorem leavesOthers_storeBlock (hsingle : storage.SingleTiered blocks) (hlasts : file.Lasts)
    {buffer : List Byte} {index : ℕ}
    (hfile : file ≠ blocks.blockFile (blocks.build.computeHash buffer)) :
    (storeBlock blocks.build storage buffer true index).CallsOnly (Call.Leaves file) := by
  rw [storeBlock, hsingle.tier]
  exact permits_storeBlockOn (permits_leaves_single hsingle hlasts hfile)

omit [DecidableEq Hash] in
/-- So does what follows in a commit once the stash file is read, but for that file. -/
theorem leavesOthers_commitContent (hsingle : storage.SingleTiered blocks) (hlasts : file.Lasts)
    {index : ℕ} {stashFile : DataFile Hash} {buffer : List Byte}
    (hfile : file ≠ blocks.blockFile (blocks.build.computeHash buffer))
    (hstash : file ≠ stashFile) :
    (commitContent blocks.build storage index stashFile buffer).CallsOnly (Call.Leaves file) := by
  have hpermits := permits_leaves_single hsingle hlasts hfile
  apply permits_commitContent hpermits
  · rw [hsingle.tier]
    exact hpermits
  · exact fun hmember => hstash (List.mem_singleton.mp hmember)
  · intro hmember
    rcases List.mem_cons.mp hmember with hmember | hmember
    · exact hstash hmember
    · rw [hsingle.tier, tierDirectory, if_neg Bool.false_ne_true, hsingle.baseDirectory] at hmember
      exact hfile (List.mem_singleton.mp hmember)

/-- A commit of a stash file settles its contents. -/
theorem commitStashBlock_settles (hsound : blocks.build.Sound)
    (hsingle : storage.SingleTiered blocks) {index uuid : ℕ}
    (hid : storage.stashBlockIds index = some uuid) {content : List Byte}
    (hdata : files.data (.stash storage.stashDirectory uuid) = some content)
    (hlength : content.length = blocks.blockSize)
    (hallocated : .file uuid ∈ FileSystem.interface.allocated files)
    (hnamed : blocks.Named files) {result : Option Hash × BlockStorage Hash}
    (hrun : (commitStashBlock blocks.build storage index).run FileSystem.answer files =
      (.returned result, files')) :
    Settles blocks {content} {uuid} storage.stashDirectory files files' := by
  obtain ⟨_, _, hcommitted, ⟨_, -, hstored, htidied⟩, -⟩ := BlocksDirectory.run_of_ensures
    (ensures_commitStashBlock_tidied hsound hsingle hid hdata hlength hallocated hnamed)
  cases hcommitted.symm.trans hrun
  refine ⟨?_, ?_, ?_⟩
  · rintro _ rfl
    exact hstored
  · rintro _ rfl
    exact htidied.stash
  · intro file hlasts hblocks hstashes
    rw [commitStashBlock_eq hid] at hrun
    obtain ⟨buffer, between, hread, hrest⟩ := Program.run_bind_returned hrun
    obtain ⟨_, _, hread', ⟨_, rfl, -⟩, -⟩ := BlocksDirectory.run_of_ensures
      (ensures_readStash hsingle rfl (Set.mem_singleton _) hdata hlength)
    cases hread'.symm.trans hread
    rw [data_run_of_leaves hlasts (leavesOthers_commitContent hsingle hlasts (hblocks _ rfl)
      (hstashes _ rfl)) hrest]
    exact data_run_of_leaves hlasts (leavesOthers_readStash _) hread

end BlockStorage

end Privateer
