import Privateer.Storage.StashMap
import Privateer.Storage.Tiers
import Privateer.Storage.TwoTiers

/-!
# Where blocks are loaded from

With two tiers a block is loaded from the stash tier.  `get_block_full_path` copies it
there, but only the first time that an index is used: the record it looks into has one
entry for an index, whatever block the index has.  This module follows the calls of a
storage that is alone with its two directories.  All of them leave a recorded block on the
stash tier, but for a commit in the build with compression, which stores the block in the
base directory only.
-/

namespace Privateer

variable {Hash : Type}

namespace BlockStorage

open FileSystem (keepingBases AnswersOrFails failsCleanly_answersOrFails KeepsBases ensures_done
  ensures_fallible ensures_clean_query)

/-- The tier has a file of that name. -/
def OnTier (build : Build Hash) (storage : BlockStorage Hash) (files : FileSystem Hash)
    (name : Hash) (onStash : Bool) : Prop :=
  (files.data (storage.tierFile build name onStash)).isSome = true

/-- The index is in the record of blocks on the stash tier. -/
def Recorded (storage : BlockStorage Hash) (block : ℕ) : Prop :=
  (storage.stashCommittedBlockIds block).isSome = true

/-- The stash files in use have numbers of their own, and hold whole blocks. -/
structure StashesWhole (storage : BlockStorage Hash) (files : FileSystem Hash) : Prop where
  drawn : ∀ block uuid, storage.stashBlockIds block = some uuid → uuid < files.fresh
  injective : ∀ block other uuid, storage.stashBlockIds block = some uuid →
    storage.stashBlockIds other = some uuid → block = other
  whole : ∀ block uuid bytes, storage.stashBlockIds block = some uuid →
    files.data (.stash storage.stashDirectory uuid) = some bytes →
      bytes.length = storage.blockGranularity

variable {build : Build Hash} {bases : Set Path} {storage : BlockStorage Hash}
variable {framed : Set (DataFile Hash)} {files files' : FileSystem Hash} {name : Hash}
variable {block uuid : ℕ} {onStash : Bool}

theorem OnTier.keep (hfound : OnTier build storage files name onStash)
    (hlocation : (if onStash then storage.stashDirectory else storage.baseDirectory) ∈ bases)
    (hkept : files.BasesKept bases files') : OnTier build storage files' name onStash := by
  obtain ⟨bytes, hbytes⟩ := Option.isSome_iff_exists.mp hfound
  exact Option.isSome_of_eq_some (hkept _ hlocation _ _ _ hbytes)

theorem onTier_setData [DecidableEq Hash] {content : List Byte} :
    OnTier build storage
      (files.setData (storage.tierFile build name onStash) (some content)) name onStash :=
  Option.isSome_of_eq_some (FileSystem.setData_self _ _ _)

/-- A new storage has no stash files. -/
theorem stashesWhole_initial {baseDirectory stashDirectory : Path} {blockGranularity : ℕ} :
    (initial baseDirectory stashDirectory blockGranularity).StashesWhole files where
  drawn := fun _ _ huuid => by cases huuid
  injective := fun _ _ _ huuid => by cases huuid
  whole := fun _ _ _ huuid => by cases huuid

/-- A call that leaves all stash files alone. -/
theorem StashesWhole.keep (hwhole : storage.StashesWhole files)
    (hkeeps : files.KeepsBases build bases {file | file.IsStash} files') :
    storage.StashesWhole files' where
  drawn := fun block uuid huuid => (hwhole.drawn block uuid huuid).trans_le hkeeps.fresh
  injective := hwhole.injective
  whole := fun block uuid bytes huuid hbytes => by
    rw [hkeeps.framed (.stash storage.stashDirectory uuid) trivial] at hbytes
    exact hwhole.whole block uuid bytes huuid hbytes

/-- A call that changes the stash file of one block. -/
theorem StashesWhole.change (hwhole : storage.StashesWhole files)
    (hkeeps : files.KeepsBases build bases (storage.otherStashes block) files')
    {number : Option ℕ}
    (hnew : ∀ uuid, number = some uuid → uuid < files'.fresh ∧
      (∀ other, other ≠ block → storage.stashBlockIds other ≠ some uuid) ∧
        ∀ bytes, files'.data (.stash storage.stashDirectory uuid) = some bytes →
          bytes.length = storage.blockGranularity) :
    (storage.setStashBlockId block number).StashesWhole files' where
  drawn := by
    intro other uuid huuid
    rw [setStashBlockId_apply] at huuid
    split_ifs at huuid with hsame
    · exact (hnew uuid huuid).1
    · exact (hwhole.drawn other uuid huuid).trans_le hkeeps.fresh
  injective := by
    intro first second uuid hfirst hsecond
    rw [setStashBlockId_apply] at hfirst hsecond
    split_ifs at hfirst hsecond with hsame hsame' hsame'
    · rw [hsame, hsame']
    · exact absurd hsecond ((hnew uuid hfirst).2.1 second hsame')
    · exact absurd hfirst ((hnew uuid hsecond).2.1 first hsame)
    · exact hwhole.injective first second uuid hfirst hsecond
  whole := by
    intro other uuid bytes huuid hbytes
    rw [setStashBlockId_apply] at huuid
    split_ifs at huuid with hsame
    · exact (hnew uuid huuid).2.2 bytes hbytes
    · have hother := hkeeps.framed _ ⟨other, uuid, hsame, huuid, rfl⟩
      exact hwhole.whole other uuid bytes huuid (hother ▸ hbytes)

/-! ## The calls -/

section Calls

variable [DecidableEq Hash] {owned : Set Empty} {buffer : List Byte}
variable (hsound : build.Sound) (hnamed : files.BasesNamed build bases)
variable (hbase : storage.baseDirectory ∈ bases) (hstash : storage.stashDirectory ∈ bases)
variable (htier : storage.isMultiTiered = true)
variable (hframed : ∀ file ∈ framed, file.IsStash)

include hsound hnamed hframed

section Storing

include hstash htier

/-- A block whose name is returned was stored on the stash tier too. -/
theorem loads_storeBlock (hlength : buffer.length = storage.blockGranularity) :
    (keepingBases build bases framed).ensures (storeBlock build storage buffer true block)
      (fun result _ files' => ∀ name, result = some name →
        OnTier build storage files' name true) owned files := by
  have hwrites : ∀ {location : Path}, WritesTemporaries (@AnswersOrFails Hash _) build bases
      framed storage buffer location block := writesTemporaries hframed hlength
  unfold storeBlock
  simp only [htier, if_true]
  apply Contract.ensures_bind_of (ensures_keepsBases (keeps_storeBlockOn hframed
    failsCleanly_answersOrFails hsound hnamed (fun _ _ _ => hwrites) rfl))
  rintro first owned₁ files₁ ⟨hfirst, hkeeps₁⟩
  cases first with
  | none => exact ensures_done (fun name hname => by cases hname)
  | some stored =>
      obtain ⟨rfl, hdata⟩ := hfirst stored rfl
      have hnamed₁ := (hkeeps₁.named hnamed).1
      apply Contract.ensures_mono (ensures_keepsBases (keeps_storeBlockOn hframed
        failsCleanly_answersOrFails hsound hnamed₁ (fun _ _ _ => hwrites) rfl))
      rintro result owned₂ files₂ ⟨hstores, hkeeps₂⟩ name hname
      obtain ⟨rfl, -⟩ := hstores name hname
      have hfound : OnTier build storage files₁ (build.computeHash buffer) true :=
        Option.isSome_of_eq_some (hdata hstash)
      exact hfound.keep hstash (hkeeps₂.named hnamed₁).2

end Storing

section Loading

include hbase

/-- A copy is made of a block that the base directory has. -/
theorem loads_copyToStash :
    (keepingBases build bases framed).ensures
      (copyToStash (storage.tierFile build name false) (storage.tierFile build name true))
      (fun copied _ files' => copied = true → OnTier build storage files' name true)
      owned files := by
  apply ensures_clean_query failsCleanly_answersOrFails (by simp) rfl
  intro found hfound
  cases found with
  | true => exact ensures_done fun _ => FileSystem.fileExists_succeeded hfound
  | false =>
      apply ensures_fallible
      intro copied files' hcopied
      cases copied with
      | false =>
          rw [FileSystem.eq_of_fails hcopied rfl]
          exact ⟨KeepsBases.refl files, ensures_done nofun⟩
      | true =>
          obtain ⟨bytes, hbytes, rfl⟩ := FileSystem.copyFile_succeeded hcopied
          obtain ⟨content, rfl, rfl⟩ := hnamed _ hbase _ _ _ hbytes
          refine ⟨KeepsBases.publish hsound fun hmember => hframed _ hmember, ?_⟩
          exact ensures_done fun _ => onTier_setData

include htier in
/-- A block is recorded, and copied to the stash tier, unless its index is recorded. -/
theorem loads_getBlockFullPath :
    (keepingBases build bases framed).ensures (getBlockFullPath build storage block name)
      (fun result _ files' =>
        DataFile.block result.1.1 result.1.2 name = storage.tierFile build name true ∧
          (storage.Recorded block ∧ result.2 = storage ∨
            OnTier build storage files' name true ∧
              result.2 =
                { storage with
                  stashCommittedBlockIds :=
                    Function.update storage.stashCommittedBlockIds block (some (some name)) }))
      owned files := by
  unfold getBlockFullPath
  apply Contract.ensures_bind_of (ensures_keepsBases
    (keeps_getBlocksSubdirectory failsCleanly_answersOrFails))
  rintro baseSubdir owned₁ files₁ ⟨⟨hbaseSubdir, -⟩, hkeeps₁⟩
  simp only [htier, if_true]
  apply Contract.ensures_bind_of (ensures_keepsBases
    (keeps_getBlocksSubdirectory failsCleanly_answersOrFails))
  rintro stashSubdir owned₂ files₂ ⟨⟨hstashSubdir, -⟩, hkeeps₂⟩
  have hnamed₂ := ((hkeeps₁.trans hkeeps₂).named hnamed).1
  cases hrecorded : (storage.stashCommittedBlockIds block).isSome with
  | true => exact ensures_done ⟨hstashSubdir, .inl ⟨hrecorded, rfl⟩⟩
  | false =>
      simp only [Bool.false_eq_true, if_false]
      rw [hbaseSubdir, hstashSubdir]
      apply Contract.ensures_bind_of (loads_copyToStash hsound hnamed₂ hbase hframed)
      rintro copied owned₃ files₃ hcopied
      cases copied with
      | true => exact ensures_done ⟨hstashSubdir, .inr ⟨hcopied rfl, rfl⟩⟩
      | false => trivial

end Loading

/-- How a commit ends on two tiers.  The build with compression may leave the block in the
base directory alone. -/
structure CommitLoads (build : Build Hash) (storage : BlockStorage Hash) (block uuid : ℕ)
    (buffer : List Byte) (files : FileSystem Hash)
    (result : Option Hash × BlockStorage Hash) (files' : FileSystem Hash) : Prop where
  table : result.2 = storage ∨ result.2 = storage.setStashBlockId block none
  stored : ∀ name, result.1 = some name → name = build.computeHash buffer ∧
    (OnTier build storage files' name true ∨
      build.useCompression = true ∧ OnTier build storage files' name false)
  stash : ∀ bytes, files'.data (.stash storage.stashDirectory uuid) = some bytes →
    files.data (.stash storage.stashDirectory uuid) = some bytes

omit hsound hnamed hframed in
/-- Removing the stash file of a block that is on the stash tier ends its commit. -/
theorem commitLoads_removed
    (hfound : OnTier build storage files' (build.computeHash buffer) true) :
    CommitLoads build storage block uuid buffer files
      (some (build.computeHash buffer), storage.setStashBlockId block none)
      (files'.setData (.stash storage.stashDirectory uuid) none) := by
  refine ⟨.inr rfl, fun name hname => ?_, fun bytes hbytes => ?_⟩
  · obtain rfl := Option.some.inj hname
    refine ⟨rfl, .inl ?_⟩
    rw [OnTier, FileSystem.setData_of_ne _ (by simp [tierFile])]
    exact hfound
  · rw [FileSystem.setData_self] at hbytes
    cases hbytes

section Committing

variable (hmember : .stash storage.stashDirectory uuid ∉ framed) (huuid : uuid < files.fresh)

include hbase hstash htier hmember huuid

omit hbase in
/-- The stash file becomes a block of the stash tier before its content is stored in the
base directory. -/
theorem loads_commitByRename (hcompression : build.useCompression = false)
    (hlength : buffer.length = storage.blockGranularity)
    (hdata : files.data (.stash storage.stashDirectory uuid) = some buffer) :
    (keepingBases build bases framed).ensures
      (commitByRename build storage buffer block (.stash storage.stashDirectory uuid)
        (storage.tierFile build (build.computeHash buffer) true) (build.computeHash buffer))
      (fun result _ files' => CommitLoads build storage block uuid buffer files result files')
      owned files := by
  have hencode : build.encode buffer = buffer := by
    simp [Build.encode, hcompression]
  -- With the block on the stash tier its content is stored in the base directory.
  have hstore : ∀ {files' : FileSystem Hash}, files.KeepsBases build bases framed files' →
      OnTier build storage files' (build.computeHash buffer) true →
      files'.data (.stash storage.stashDirectory uuid) = none →
      (keepingBases build bases framed).ensures
        (storeBlockOn build storage buffer true block false (some (build.computeHash buffer)))
        (fun result _ files'' => (∀ name, result = some name → name = build.computeHash buffer ∧
          OnTier build storage files'' name true) ∧
            ∀ bytes, files''.data (.stash storage.stashDirectory uuid) = some bytes →
              files.data (.stash storage.stashDirectory uuid) = some bytes) owned files' := by
    intro files' hkeeps hfound hgone
    have hnamed' := (hkeeps.named hnamed).1
    apply Contract.ensures_mono (ensures_keepsBases
      (keeps_storeBlockOn_stashes hframed failsCleanly_answersOrFails hsound hnamed'
        fun _ _ _ => writesTemporaries (fun _ hstash => hstash) hlength))
    rintro result owned' files'' ⟨⟨hstores, hstashes⟩, hkeeps'⟩
    refine ⟨fun name hname => ?_, fun bytes hbytes => ?_⟩
    · obtain ⟨rfl, -⟩ := hstores name hname
      exact ⟨rfl, hfound.keep hstash (hkeeps'.named hnamed').2⟩
    · rw [hstashes uuid, hgone] at hbytes
      cases hbytes
  apply ensures_commitByRename_of failsCleanly_answersOrFails
  · exact ⟨.inl rfl, (fun _ hname => by cases hname), fun _ hbytes => hbytes⟩
  · intro content hcontent
    obtain rfl : buffer = content := Option.some.inj (hdata.symm.trans hcontent)
    have hpublish : (files.setData (.stash storage.stashDirectory uuid) none).KeepsBases build
        bases framed ((files.setData (.stash storage.stashDirectory uuid) none).setData
          (storage.tierFile build (build.computeHash buffer) true)
          (some (build.encode buffer))) :=
      KeepsBases.publish hsound fun hmember => hframed _ hmember
    rw [hencode] at hpublish
    have hkeeps := (keepsBases_stash hmember huuid).trans hpublish
    refine ⟨hkeeps, Contract.ensures_mono (hstore hkeeps onTier_setData ?_) ?_⟩
    · rw [FileSystem.setData_of_ne _ (by simp [tierFile]), FileSystem.setData_self]
    · rintro result owned' files'' ⟨hstored, hgone⟩
      refine ⟨fun _ => ⟨.inl rfl, (fun _ hname => by cases hname), hgone⟩,
        fun stored hresult => ⟨.inr rfl, fun name hname => ?_, hgone⟩⟩
      obtain ⟨rfl, hfound⟩ := hstored name (hresult.trans hname)
      exact ⟨rfl, .inl hfound⟩
  · intro hpublished
    have hkeeps : files.KeepsBases build bases framed
        (files.setData (.stash storage.stashDirectory uuid) none) :=
      keepsBases_stash hmember huuid
    have hfound : OnTier build storage
        (files.setData (.stash storage.stashDirectory uuid) none)
        (build.computeHash buffer) true :=
      OnTier.keep hpublished hstash (hkeeps.named hnamed).2
    rw [if_pos htier]
    refine ⟨hkeeps, ?_⟩
    apply Contract.ensures_bind_of (hstore hkeeps hfound (FileSystem.setData_self _ _ _))
    rintro result owned' last ⟨hstored, hgone⟩
    refine ensures_done ⟨.inr rfl, fun name hname => ?_, hgone⟩
    exact ⟨(hstored name hname).1, .inl (hstored name hname).2⟩

/-- A committed block is on the stash tier, or in the base directory. -/
theorem loads_commitStashBlock (hid : storage.stashBlockIds block = some uuid)
    (hwhole : ∀ bytes, files.data (.stash storage.stashDirectory uuid) = some bytes →
      bytes.length = storage.blockGranularity) :
    (keepingBases build bases framed).ensures (commitStashBlock build storage block)
      (fun result _ files' => CommitLoads build storage block uuid
        (storage.heldBlock files uuid) files result files') owned files := by
  have hblock : (files.data (.stash storage.stashDirectory uuid)).isSome →
      files.data (.stash storage.stashDirectory uuid) = some (storage.heldBlock files uuid) := by
    intro hthere
    obtain ⟨bytes, hdata⟩ := Option.isSome_iff_exists.mp hthere
    rw [heldBlock_of_data (hwhole bytes hdata) hdata, hdata]
  have hlength : (storage.heldBlock files uuid).length = storage.blockGranularity :=
    length_resize _ _ _
  apply ensures_commitStashBlock_of failsCleanly_answersOrFails hid
  · intro files₁ hkeeps hdata _ hfound
    rw [htier, ← hdata] at hfound
    exact ⟨⟨.inl rfl, nofun, fun _ hbytes => hdata ▸ hbytes⟩,
      keepsBases_stash hmember (huuid.trans_le hkeeps.fresh), commitLoads_removed hfound⟩
  · intro owned₁ files₁ hkeeps hdata hthere
    have hnamed₁ := (hkeeps.named hnamed).1
    have huuid₁ := huuid.trans_le hkeeps.fresh
    have hfinish : ∀ {result files'}, CommitLoads build storage block uuid
        (storage.heldBlock files uuid) files₁ result files' →
          CommitLoads build storage block uuid (storage.heldBlock files uuid) files result
            files' := by
      intro result files' hends
      exact ⟨hends.table, hends.stored, fun bytes hbytes => hdata ▸ hends.stash bytes hbytes⟩
    cases hcompression : build.useCompression with
    | true =>
        simp only [if_true]
        apply Contract.ensures_mono (keeps_commitByStore hsound hnamed₁ hframed hmember huuid₁
          failsCleanly_answersOrFails
            fun _ _ _ => writesTemporaries (fun _ hstash => hstash) hlength)
        intro result owned' files' hends
        refine hfinish ⟨hends.table, fun name hname => ?_, hends.stash⟩
        obtain ⟨rfl, hstored⟩ := hends.stored name hname
        exact ⟨rfl, .inr ⟨hcompression, Option.isSome_of_eq_some (hstored hbase)⟩⟩
    | false =>
        simp only [Bool.false_eq_true, if_false, htier]
        have hheld := hblock hthere
        rw [← hdata] at hheld
        apply Contract.ensures_mono (loads_commitByRename hsound hnamed₁ hstash htier
          hframed hmember huuid₁ hcompression hlength hheld)
        exact fun result owned' files' hends => hfinish hends

end Committing

end Calls

/-! ## Blocks that a commit does not put on the stash tier -/

section Missing

variable {file : DataFile Hash} {A : Type}

/-- A call that avoids a directory of blocks makes no block there. -/
theorem not_makes_of_avoids {location : Path} {subdirectory : ℕ} {call : Call Hash}
    (hcall : call.Avoids location) : ¬ call.Makes (.block location subdirectory name) := by
  cases call with
  | rename source target => exact hcall.2 subdirectory name
  | mkstemp location subdirectory blockIndex => exact nofun
  | openFile file create => exact hcall.elim
  | copyFile source target => exact hcall.elim
  | _ => exact id

theorem notMakes_readStash :
    (readStash storage file).CallsOnly
      fun call => ¬ call.Makes (storage.tierFile build name true) := by
  refine ⟨nofun, fun opened => ?_⟩
  cases opened with
  | false => trivial
  | true =>
      refine ⟨id, fun bytes => ?_⟩
      cases bytes with
      | none => trivial
      | some bytes =>
          refine ⟨id, fun closed => ?_⟩
          cases closed with
          | true => trivial
          | false => trivial

/-- In the build with compression a commit makes no block on the stash tier. -/
theorem notMakes_commitStashBlock (hcompression : build.useCompression = true)
    (hdirectories : storage.baseDirectory ≠ storage.stashDirectory) :
    (commitStashBlock build storage block).CallsOnly
      fun call => ¬ call.Makes (storage.tierFile build name true) := by
  have havoids : ∀ {B : Type} {program : StorageProgram Hash B},
      program.CallsOnly (Call.Avoids storage.stashDirectory) →
        program.CallsOnly fun call => ¬ call.Makes (storage.tierFile build name true) :=
    fun hcalls => hcalls.mono fun call hcall => not_makes_of_avoids hcall
  unfold commitStashBlock
  cases hid : storage.stashBlockIds block with
  | none => trivial
  | some uuid =>
      refine notMakes_readStash.bind fun buffer => ?_
      refine (havoids (avoids_getBlocksSubdirectory _)).bind fun directory => ?_
      refine ⟨id, fun found => ?_⟩
      cases found with
      | true =>
          refine ⟨id, fun removed => ?_⟩
          cases removed with
          | true => trivial
          | false => trivial
      | false =>
          simp only [hcompression, if_true]
          unfold commitByStore
          have hstores : (storeBlockOn build storage buffer true block false
              (some (build.computeHash buffer))).CallsOnly
              (Call.Avoids storage.stashDirectory) :=
            avoids_storeBlockOn (by simpa using hdirectories)
          refine (havoids hstores).bind fun stored => ?_
          cases stored with
          | none => trivial
          | some stored =>
              refine ⟨id, fun removed => ?_⟩
              cases removed with
              | true => trivial
              | false => trivial

/-- A file that no call makes does not appear. -/
theorem data_eq_none_of_runsTo [DecidableEq Hash] {program : StorageProgram Hash A}
    (hcalls : program.CallsOnly fun call => ¬ call.Makes file)
    (hnone : files.data file = none) {outcome : Outcome A}
    (hruns : program.RunsTo AnswersOrFails files outcome files') : files'.data file = none := by
  let absent : FileSystem Hash → Prop := fun files => files.data file = none
  have hkeep : ∀ (call : Call Hash) (files : FileSystem Hash) reply files', ¬ call.Makes file →
      absent files → AnswersOrFails call files reply files' → absent files' := by
    intro call files reply files' hmakes hnone hreply
    rcases hreply with hanswer | ⟨-, rfl⟩
    · have hfiles : (files.answer call).2 = files' := by rw [hanswer]
      rw [← hfiles]
      exact FileSystem.data_answer_eq_none call files hmakes hnone
    · exact hnone
  exact hcalls.runsTo_keeps hkeep hnone hruns

end Missing

end BlockStorage

/-! ## Runs -/

/-- A call of the storage that succeeds. -/
inductive LoadCall where
  | storeBlock (buffer : List Byte) (block : ℕ)
  | stashBlock (buffer : List Byte) (block : ℕ)
  | unstashBlock (block : ℕ)
  | commitStashBlock (block : ℕ)
  | getBlockFullPath (block : ℕ)

/-- A storage with its files, and the name that its manager has for each index. -/
structure LoadState (Hash : Type) where
  storage : BlockStorage Hash
  files : FileSystem Hash
  blocksIds : ℕ → Option Hash

namespace LoadState

open BlockStorage
open FileSystem (AnswersOrFails)

variable [DecidableEq Hash]

/-- The successful calls.  A system call may fail in them as long as they report success,
and a block is loaded by the name that the manager has for it. -/
inductive Step (build : Build Hash) : LoadState Hash → LoadCall → LoadState Hash → Prop
  | storeBlock {state : LoadState Hash} {buffer : List Byte} {block : ℕ} {name : Hash}
      {files : FileSystem Hash} (hlength : buffer.length = state.storage.blockGranularity)
      (hruns : (BlockStorage.storeBlock build state.storage buffer true block).RunsTo
        AnswersOrFails state.files (.returned (some name)) files) :
      Step build state (.storeBlock buffer block) ⟨state.storage.noteStored block, files,
        Function.update state.blocksIds block (some name)⟩
  | stashBlock {state : LoadState Hash} {buffer : List Byte} {block : ℕ}
      {storage : BlockStorage Hash} {files : FileSystem Hash}
      (hlength : buffer.length = state.storage.blockGranularity)
      (hruns : (state.storage.stashBlock buffer block).RunsTo AnswersOrFails state.files
        (.returned (true, storage)) files) :
      Step build state (.stashBlock buffer block) ⟨storage, files, state.blocksIds⟩
  | unstashBlock {state : LoadState Hash} {block : ℕ} {storage : BlockStorage Hash}
      {files : FileSystem Hash}
      (hruns : (state.storage.unstashBlock block).RunsTo AnswersOrFails state.files
        (.returned (true, storage)) files) :
      Step build state (.unstashBlock block) ⟨storage, files, state.blocksIds⟩
  | commitStashBlock {state : LoadState Hash} {block : ℕ} {name : Hash}
      {storage : BlockStorage Hash} {files : FileSystem Hash}
      (hruns : (BlockStorage.commitStashBlock build state.storage block).RunsTo AnswersOrFails
        state.files (.returned (some name, storage)) files) :
      Step build state (.commitStashBlock block) ⟨storage, files,
        Function.update state.blocksIds block (some name)⟩
  | getBlockFullPath {state : LoadState Hash} {block : ℕ} {name : Hash}
      {path : Path × ℕ} {storage : BlockStorage Hash} {files : FileSystem Hash}
      (hname : state.blocksIds block = some name)
      (hruns : (BlockStorage.getBlockFullPath build state.storage block name).RunsTo
        AnswersOrFails state.files (.returned (path, storage)) files) :
      Step build state (.getBlockFullPath block) ⟨storage, files, state.blocksIds⟩

/-- For each index with a name `get_block_full_path` returns, if no system call fails, and
wherever it returns the path leads to a block of that name. -/
def LoadsExist (build : Build Hash) (state : LoadState Hash) : Prop :=
  ∀ block name, state.blocksIds block = some name →
    (∃ result files', (BlockStorage.getBlockFullPath build state.storage block name).run
        FileSystem.answer state.files = (.returned result, files')) ∧
      ∀ path storage files', (BlockStorage.getBlockFullPath build state.storage block name).RunsTo
          AnswersOrFails state.files (.returned (path, storage)) files' →
        ∃ bytes, files'.data (.block path.1 path.2 name) = some bytes ∧ build.Names name bytes

/-- With compression, the block of a recorded index is committed only if the stash tier has
it already. -/
def CommitsFound (build : Build Hash) (state : LoadState Hash) : LoadCall → Prop
  | .commitStashBlock block => build.useCompression = true → state.storage.Recorded block →
      ∀ uuid, state.storage.stashBlockIds block = some uuid →
        OnTier build state.storage state.files
          (build.computeHash (state.storage.heldBlock state.files uuid)) true
  | _ => True

/-- What every step keeps. -/
structure Lawful (build : Build Hash) (baseDirectory stashDirectory : Path)
    (state : LoadState Hash) : Prop where
  base : state.storage.baseDirectory = baseDirectory
  stash : state.storage.stashDirectory = stashDirectory
  named : state.files.BasesNamed build {baseDirectory, stashDirectory}
  drawn : state.files.StashesDrawn
  stashes : state.storage.StashesWhole state.files
  stored : ∀ block name, state.blocksIds block = some name →
    OnTier build state.storage state.files name true ∨
      OnTier build state.storage state.files name false

/-- The blocks with a recorded index are on the stash tier. -/
def Recordings (build : Build Hash) (state : LoadState Hash) : Prop :=
  ∀ block name, state.blocksIds block = some name → state.storage.Recorded block →
    OnTier build state.storage state.files name true

variable {build : Build Hash} {baseDirectory stashDirectory : Path}
variable {state next : LoadState Hash} {call : LoadCall} {files : FileSystem Hash}
variable {storage : BlockStorage Hash} {blocksIds : ℕ → Option Hash} {block : ℕ} {name : Hash}
variable {framed : Set (DataFile Hash)} {onStash : Bool}

omit [DecidableEq Hash] in
theorem Lawful.tiers (hlawful : state.Lawful build baseDirectory stashDirectory)
    (hdisks : pathPrefix baseDirectory ≠ pathPrefix stashDirectory) :
    state.storage.isMultiTiered = true := by
  rw [isMultiTiered, hlawful.base, hlawful.stash]
  exact bne_iff_ne.mpr hdisks

omit [DecidableEq Hash] in
/-- Either tier is one of the two directories. -/
theorem Lawful.location_mem (hlawful : state.Lawful build baseDirectory stashDirectory)
    (onStash : Bool) :
    (if onStash then state.storage.stashDirectory else state.storage.baseDirectory) ∈
      ({baseDirectory, stashDirectory} : Set Path) := by
  cases onStash with
  | true => exact .inr hlawful.stash
  | false => exact .inl hlawful.base

/-! ### The path of a recorded index -/

theorem run_getBlockFullPath_recorded (htier : state.storage.isMultiTiered = true)
    (hrecorded : state.storage.Recorded block) :
    ∃ path files', (BlockStorage.getBlockFullPath build state.storage block name).run
        FileSystem.answer state.files = (.returned (path, state.storage), files') ∧
      DataFile.block path.1 path.2 name = state.storage.tierFile build name true ∧
        files'.data = state.files.data := by
  unfold BlockStorage.getBlockFullPath
  rw [Program.run_bind_of_returned (run_getBlocksSubdirectory_eq false)]
  simp only [htier, if_true]
  rw [Program.run_bind_of_returned (run_getBlocksSubdirectory_eq true)]
  rw [Recorded] at hrecorded
  simp only [hrecorded, if_true]
  exact ⟨_, _, rfl, rfl, rfl⟩

theorem run_getBlockFullPath_unrecorded (htier : state.storage.isMultiTiered = true)
    (hrecorded : ¬ state.storage.Recorded block)
    (hstored : OnTier build state.storage state.files name true ∨
      OnTier build state.storage state.files name false) :
    ∃ result files', (BlockStorage.getBlockFullPath build state.storage block name).run
      FileSystem.answer state.files = (.returned result, files') := by
  have hcopies : ∀ files : FileSystem Hash, files.data = state.files.data →
      ∃ files', (copyToStash (state.storage.tierFile build name false)
        (state.storage.tierFile build name true)).run FileSystem.answer files =
          (.returned true, files') := by
    intro files hdata
    cases hfound : files.data (state.storage.tierFile build name true) with
    | some bytes => exact ⟨files, by simp [copyToStash, FileSystem.answer, hfound]⟩
    | none =>
        have hbase : OnTier build state.storage state.files name false := by
          rcases hstored with hstash | hbase
          · rw [OnTier, ← hdata, hfound] at hstash
            cases hstash
          · exact hbase
        obtain ⟨bytes, hbytes⟩ := Option.isSome_iff_exists.mp hbase
        rw [← hdata] at hbytes
        exact ⟨_, run_copyToStash_eq hbytes fun other hother => by cases hfound.symm.trans hother⟩
  unfold BlockStorage.getBlockFullPath
  rw [Program.run_bind_of_returned (run_getBlocksSubdirectory_eq false)]
  simp only [htier, if_true]
  rw [Program.run_bind_of_returned (run_getBlocksSubdirectory_eq true)]
  rw [Recorded] at hrecorded
  rw [if_neg hrecorded]
  let based := state.files.setDirectory
    (.subdirectory state.storage.baseDirectory (build.prefixIndex name % numSubdirs))
  let stashed := based.setDirectory
    (.subdirectory state.storage.stashDirectory (build.prefixIndex name % numSubdirs))
  obtain ⟨files', hcopy⟩ := hcopies stashed rfl
  exact ⟨_, files', Program.run_bind_of_returned hcopy⟩

/-- Every path leads to a block if and only if the recorded blocks are on the stash tier. -/
theorem loadsExist_iff (hsound : build.Sound)
    (hdisks : pathPrefix baseDirectory ≠ pathPrefix stashDirectory)
    (hlawful : state.Lawful build baseDirectory stashDirectory) :
    state.LoadsExist build ↔ state.Recordings build := by
  have htier := hlawful.tiers hdisks
  constructor
  · intro hloads block name hname hrecorded
    obtain ⟨path, files', hrun, hpath, hdata⟩ := run_getBlockFullPath_recorded htier hrecorded
    have hruns := Program.runsTo_of_run FileSystem.answersOrFails_answer hrun
    obtain ⟨bytes, hbytes, -⟩ := (hloads block name hname).2 _ _ _ hruns
    rw [hpath, hdata] at hbytes
    exact Option.isSome_of_eq_some hbytes
  · intro hrecordings block name hname
    constructor
    · by_cases hrecorded : state.storage.Recorded block
      · obtain ⟨path, files', hrun, -⟩ := run_getBlockFullPath_recorded htier hrecorded
        exact ⟨_, _, hrun⟩
      · exact run_getBlockFullPath_unrecorded htier hrecorded (hlawful.stored block name hname)
    · intro path storage files' hruns
      have hensures : (FileSystem.keepingBases build {baseDirectory, stashDirectory} ∅).ensures
          (BlockStorage.getBlockFullPath build state.storage block name) _ ∅ state.files :=
        loads_getBlockFullPath hsound hlawful.named (hlawful.location_mem false) htier nofun
      obtain ⟨hkeeps, -, hend⟩ := Contract.runsTo_of_ensures hensures hruns
      obtain ⟨_, hpath, hended⟩ := hend _ rfl
      have hnamed := hkeeps.named hlawful.named
      have hfound : OnTier build state.storage files' name true := by
        rcases hended with ⟨hrecorded, -⟩ | ⟨hfound, -⟩
        · exact (hrecordings block name hname hrecorded).keep (hlawful.location_mem true)
            hnamed.2
        · exact hfound
      obtain ⟨bytes, hbytes⟩ := Option.isSome_iff_exists.mp hfound
      refine ⟨bytes, ?_, hnamed.1 _ (hlawful.location_mem true) _ _ _ hbytes⟩
      exact (congrArg files'.data hpath).trans hbytes

/-! ### What a call leaves -/

omit [DecidableEq Hash] in
/-- A call that keeps the directories and the blocks keeps the laws, if each name is an old
one or that of a block on a tier. -/
theorem Lawful.after (hlawful : state.Lawful build baseDirectory stashDirectory)
    (hkeeps : state.files.KeepsBases build {baseDirectory, stashDirectory} framed files)
    (hbase : storage.baseDirectory = state.storage.baseDirectory)
    (hstash : storage.stashDirectory = state.storage.stashDirectory)
    (hstashes : storage.StashesWhole files)
    (hnew : ∀ block name, blocksIds block = some name → state.blocksIds block = some name ∨
      OnTier build state.storage files name true ∨ OnTier build state.storage files name false) :
    Lawful build baseDirectory stashDirectory ⟨storage, files, blocksIds⟩ where
  base := hbase.trans hlawful.base
  stash := hstash.trans hlawful.stash
  named := (hkeeps.named hlawful.named).1
  drawn := hkeeps.drawn hlawful.drawn
  stashes := hstashes
  stored := by
    intro block name hname
    have hkept := (hkeeps.named hlawful.named).2
    have htiers : ∀ onStash, OnTier build storage files name onStash ↔
        OnTier build state.storage files name onStash := by
      intro onStash
      rw [OnTier, OnTier, tierFile, tierFile, hbase, hstash]
    simp only [htiers]
    rcases hnew block name hname with hold | hfound
    · exact (hlawful.stored block name hold).imp
        (fun hfound => hfound.keep (hlawful.location_mem true) hkept)
        fun hfound => hfound.keep (hlawful.location_mem false) hkept
    · exact hfound

omit [DecidableEq Hash] in
/-- Recorded blocks stay on the stash tier if each is an old one or was put there. -/
theorem Recordings.after (hrecordings : state.Recordings build)
    (hlawful : state.Lawful build baseDirectory stashDirectory)
    (hkeeps : state.files.KeepsBases build {baseDirectory, stashDirectory} framed files)
    (hstash : storage.stashDirectory = state.storage.stashDirectory)
    (hnew : ∀ block name, blocksIds block = some name → storage.Recorded block →
      (state.blocksIds block = some name ∧ state.storage.Recorded block) ∨
        OnTier build state.storage files name true) :
    Recordings build ⟨storage, files, blocksIds⟩ := by
  intro block name hname hrecorded
  have hfound : OnTier build state.storage files name true := by
    rcases hnew block name hname hrecorded with ⟨hold, hrecorded'⟩ | hfound
    · exact (hrecordings block name hold hrecorded').keep (hlawful.location_mem true)
        (hkeeps.named hlawful.named).2
    · exact hfound
  rw [OnTier, tierFile, if_pos rfl] at hfound ⊢
  rw [hstash]
  exact hfound

section Steps

variable (hsound : build.Sound) (hdisks : pathPrefix baseDirectory ≠ pathPrefix stashDirectory)
variable (hlawful : state.Lawful build baseDirectory stashDirectory)

include hlawful

section Storing

include hsound hdisks

theorem step_storeBlock {buffer : List Byte}
    (hlength : buffer.length = state.storage.blockGranularity)
    (hruns : (BlockStorage.storeBlock build state.storage buffer true block).RunsTo
      AnswersOrFails state.files (.returned (some name)) files)
    (hnext : next = ⟨state.storage.noteStored block, files,
      Function.update state.blocksIds block (some name)⟩) :
    next.Lawful build baseDirectory stashDirectory ∧
      (state.Recordings build → next.Recordings build) := by
  have hensures : (FileSystem.keepingBases build {baseDirectory, stashDirectory}
      {file | file.IsStash}).ensures
        (BlockStorage.storeBlock build state.storage buffer true block) _ ∅ state.files :=
    loads_storeBlock hsound hlawful.named (hlawful.location_mem true) (hlawful.tiers hdisks)
      (fun _ hstash => hstash) hlength
  obtain ⟨hkeeps, -, hend⟩ := Contract.runsTo_of_ensures hensures hruns
  obtain ⟨_, hstored⟩ := hend _ rfl
  have hfound := hstored name rfl
  obtain ⟨committed, hnoted⟩ := @exists_noteStored Hash state.storage block true
  rw [if_pos rfl] at hnoted
  subst hnext
  constructor
  · rw [hnoted]
    refine hlawful.after hkeeps rfl rfl ?_ ?_
    · have hwhole := hlawful.stashes.keep hkeeps
      exact ⟨hwhole.drawn, hwhole.injective, hwhole.whole⟩
    · intro other stored hother
      by_cases hsame : other = block
      · rw [hsame, Function.update_self, Option.some.injEq] at hother
        exact .inr (.inl (hother ▸ hfound))
      · rw [Function.update_of_ne hsame] at hother
        exact .inl hother
  · intro hrecordings
    refine hrecordings.after hlawful hkeeps (by rw [hnoted]) ?_
    intro other stored hother hrecorded
    by_cases hsame : other = block
    · rw [hsame, Function.update_self, Option.some.injEq] at hother
      exact .inr (hother ▸ hfound)
    · rw [Function.update_of_ne hsame] at hother
      refine .inl ⟨hother, ?_⟩
      rw [Recorded, noteStored] at hrecorded
      split at hrecorded
      · exact hrecorded
      · rw [Recorded]
        simpa only [Function.update_of_ne hsame] using hrecorded

end Storing

theorem step_stashBlock {buffer : List Byte}
    (hlength : buffer.length = state.storage.blockGranularity)
    (hruns : (state.storage.stashBlock buffer block).RunsTo AnswersOrFails state.files
      (.returned (true, storage)) files) :
    Lawful build baseDirectory stashDirectory ⟨storage, files, state.blocksIds⟩ ∧
      (state.Recordings build → Recordings build ⟨storage, files, state.blocksIds⟩) := by
  have hensures : (FileSystem.keepingBases build {baseDirectory, stashDirectory}
      (state.storage.otherStashes block)).ensures
        (state.storage.stashBlock buffer block) _ ∅ state.files :=
    keeps_stashBlock FileSystem.failsCleanly_answersOrFails (writesStash hlength) hlawful.drawn
      hlawful.stashes.drawn (fun other uuid => hlawful.stashes.injective other block uuid)
      (fun uuid huuid bytes hbytes => (hlawful.stashes.whole block uuid bytes huuid hbytes).le)
  obtain ⟨hkeeps, -, hend⟩ := Contract.runsTo_of_ensures hensures hruns
  obtain ⟨_, uuid, rfl, huuid, -, hnot, hdata⟩ := hend _ rfl
  constructor
  · refine hlawful.after hkeeps rfl rfl (hlawful.stashes.change hkeeps ?_)
      fun _ _ hname => .inl hname
    intro number hnumber
    obtain rfl := Option.some.inj hnumber
    refine ⟨huuid, hnot, fun bytes hbytes => ?_⟩
    rw [hdata trivial rfl, Option.some.injEq] at hbytes
    exact hbytes ▸ hlength
  · intro hrecordings
    exact hrecordings.after hlawful hkeeps rfl fun _ _ hname hrecorded => .inl ⟨hname, hrecorded⟩

theorem step_unstashBlock
    (hruns : (state.storage.unstashBlock block).RunsTo AnswersOrFails state.files
      (.returned (true, storage)) files) :
    Lawful build baseDirectory stashDirectory ⟨storage, files, state.blocksIds⟩ ∧
      (state.Recordings build → Recordings build ⟨storage, files, state.blocksIds⟩) := by
  have hensures : (FileSystem.keepingBases build {baseDirectory, stashDirectory}
      (state.storage.otherStashes block)).ensures
        (state.storage.unstashBlock block) _ ∅ state.files :=
    keeps_unstashBlock FileSystem.failsCleanly_answersOrFails hlawful.stashes.drawn
      fun other uuid => hlawful.stashes.injective other block uuid
  obtain ⟨hkeeps, -, hend⟩ := Contract.runsTo_of_ensures hensures hruns
  obtain ⟨_, hremoved | ⟨hfailed, -⟩⟩ := hend _ rfl
  · obtain rfl : storage = state.storage.setStashBlockId block none := (Prod.mk.inj hremoved).2
    constructor
    · refine hlawful.after hkeeps rfl rfl (hlawful.stashes.change hkeeps ?_)
        fun _ _ hname => .inl hname
      intro number hnumber
      cases hnumber
    · intro hrecordings
      exact hrecordings.after hlawful hkeeps rfl fun _ _ hname hrecorded => .inl ⟨hname, hrecorded⟩
  · cases (Prod.mk.inj hfailed).1

include hsound hdisks

theorem step_getBlockFullPath {path : Path × ℕ} (hname : state.blocksIds block = some name)
    (hruns : (BlockStorage.getBlockFullPath build state.storage block name).RunsTo
      AnswersOrFails state.files (.returned (path, storage)) files) :
    Lawful build baseDirectory stashDirectory ⟨storage, files, state.blocksIds⟩ ∧
      (state.Recordings build → Recordings build ⟨storage, files, state.blocksIds⟩) := by
  have hensures : (FileSystem.keepingBases build {baseDirectory, stashDirectory}
      {file | file.IsStash}).ensures
        (BlockStorage.getBlockFullPath build state.storage block name) _ ∅ state.files :=
    loads_getBlockFullPath hsound hlawful.named (hlawful.location_mem false)
      (hlawful.tiers hdisks) fun _ hstash => hstash
  obtain ⟨hkeeps, -, hend⟩ := Contract.runsTo_of_ensures hensures hruns
  have hwhole := hlawful.stashes.keep hkeeps
  obtain ⟨_, -, ⟨-, hsame⟩ | ⟨hfound, hsame⟩⟩ := hend _ rfl
  · obtain rfl : storage = state.storage := hsame
    constructor
    · exact hlawful.after hkeeps rfl rfl hwhole fun _ _ hname => .inl hname
    · intro hrecordings
      exact hrecordings.after hlawful hkeeps rfl fun _ _ hname hrecorded => .inl ⟨hname, hrecorded⟩
  · obtain rfl : storage = _ := hsame
    constructor
    · refine hlawful.after hkeeps rfl rfl ?_ fun _ _ hname => .inl hname
      exact ⟨hwhole.drawn, hwhole.injective, hwhole.whole⟩
    · intro hrecordings
      refine hrecordings.after hlawful hkeeps rfl ?_
      intro other stored hother hrecorded
      by_cases hsame : other = block
      · rw [hsame, hname, Option.some.injEq] at hother
        exact .inr (hother ▸ hfound)
      · rw [Recorded] at hrecorded
        refine .inl ⟨hother, ?_⟩
        rw [Recorded]
        simpa only [Function.update_of_ne hsame] using hrecorded

/-- A commit puts its block on the stash tier, but with compression it does not. -/
theorem step_commitStashBlock
    (hruns : (BlockStorage.commitStashBlock build state.storage block).RunsTo AnswersOrFails
      state.files (.returned (some name, storage)) files)
    (hnext : next = ⟨storage, files, Function.update state.blocksIds block (some name)⟩) :
    next.Lawful build baseDirectory stashDirectory ∧
      (state.Recordings build →
        (next.Recordings build ↔ state.CommitsFound build (.commitStashBlock block))) := by
  cases hid : state.storage.stashBlockIds block with
  | none =>
      have hexit : BlockStorage.commitStashBlock build state.storage block = .exit := by
        unfold BlockStorage.commitStashBlock
        rw [hid]
      rw [hexit] at hruns
      cases hruns.1
  | some uuid =>
      have hnot : ∀ other, other ≠ block → state.storage.stashBlockIds other ≠ some uuid :=
        fun other hother hsame => hother (hlawful.stashes.injective other block uuid hsame hid)
      have hensures : (FileSystem.keepingBases build {baseDirectory, stashDirectory}
          (state.storage.otherStashes block)).ensures
            (BlockStorage.commitStashBlock build state.storage block) _ ∅ state.files :=
        loads_commitStashBlock hsound hlawful.named (hlawful.location_mem false)
          (hlawful.location_mem true) (hlawful.tiers hdisks) isStash_otherStashes
          (stash_notMem_otherStashes hnot) (hlawful.stashes.drawn block uuid hid) hid
          fun bytes hbytes => hlawful.stashes.whole block uuid bytes hid hbytes
      obtain ⟨hkeeps, -, hend⟩ := Contract.runsTo_of_ensures hensures hruns
      obtain ⟨_, htable, hstored, hstash⟩ := hend _ rfl
      obtain ⟨hname, hfound⟩ := hstored name rfl
      obtain ⟨hids, hstashes⟩ : (∃ number, storage = state.storage.setStashBlockId block number) ∧
          storage.StashesWhole files := by
        rcases htable with hsame | hremoved
        · obtain rfl : storage = state.storage := hsame
          have hself := setStashBlockId_eq_self hid
          refine ⟨⟨_, hself.symm⟩, ?_⟩
          rw [← hself]
          refine hlawful.stashes.change hkeeps fun number hnumber => ?_
          obtain rfl := Option.some.inj hnumber
          refine ⟨(hlawful.stashes.drawn block uuid hid).trans_le hkeeps.fresh, hnot, ?_⟩
          exact fun bytes hbytes =>
            hlawful.stashes.whole block uuid bytes hid (hstash bytes hbytes)
        · obtain rfl : storage = state.storage.setStashBlockId block none := hremoved
          exact ⟨⟨none, rfl⟩, hlawful.stashes.change hkeeps nofun⟩
      obtain ⟨number, rfl⟩ := hids
      subst hnext
      constructor
      · refine hlawful.after hkeeps rfl rfl hstashes fun other stored hother => ?_
        by_cases hsame : other = block
        · rw [hsame, Function.update_self, Option.some.injEq] at hother
          exact .inr (hother ▸ hfound.imp_right And.right)
        · rw [Function.update_of_ne hsame] at hother
          exact .inl hother
      · intro hrecordings
        constructor
        · intro hafter hcompression hrecorded other hother
          obtain rfl := Option.some.inj (hid.symm.trans hother)
          rw [← hname]
          by_contra hmissing
          have hnone : state.files.data (state.storage.tierFile build name true) = none :=
            Option.not_isSome_iff_eq_none.mp hmissing
          have hdirectories : state.storage.baseDirectory ≠ state.storage.stashDirectory := by
            rw [hlawful.base, hlawful.stash]
            exact fun hsame => hdisks (congrArg pathPrefix hsame)
          have hgone := data_eq_none_of_runsTo
            (notMakes_commitStashBlock hcompression hdirectories) hnone hruns
          have hthere := hafter block name (Function.update_self _ _ _) hrecorded
          exact absurd hthere (Option.not_isSome_iff_eq_none.mpr hgone)
        · intro hcommits
          refine hrecordings.after hlawful hkeeps rfl fun other stored hother hrecorded => ?_
          by_cases hsame : other = block
          · rw [hsame] at hother hrecorded
            rw [Function.update_self, Option.some.injEq] at hother
            subst hother
            rcases hfound with hfound | ⟨hcompression, -⟩
            · exact .inr hfound
            · have hbefore := hcommits hcompression hrecorded uuid hid
              rw [← hname] at hbefore
              exact .inr (hbefore.keep (hlawful.location_mem true)
                (hkeeps.named hlawful.named).2)
          · rw [Function.update_of_ne hsame] at hother
            exact .inl ⟨hother, hrecorded⟩

end Steps

/-- One call keeps the laws, and keeps the recorded blocks on the stash tier if and only if
it meets the condition. -/
theorem step_iff (hsound : build.Sound)
    (hdisks : pathPrefix baseDirectory ≠ pathPrefix stashDirectory)
    (hlawful : state.Lawful build baseDirectory stashDirectory)
    (hstep : Step build state call next) :
    next.Lawful build baseDirectory stashDirectory ∧
      (state.Recordings build → (next.Recordings build ↔ state.CommitsFound build call)) := by
  cases hstep with
  | storeBlock hlength hruns =>
      obtain ⟨hlawful', hkeep⟩ := step_storeBlock hsound hdisks hlawful hlength hruns rfl
      exact ⟨hlawful', fun hrecordings => iff_of_true (hkeep hrecordings) trivial⟩
  | stashBlock hlength hruns =>
      obtain ⟨hlawful', hkeep⟩ := step_stashBlock hlawful hlength hruns
      exact ⟨hlawful', fun hrecordings => iff_of_true (hkeep hrecordings) trivial⟩
  | unstashBlock hruns =>
      obtain ⟨hlawful', hkeep⟩ := step_unstashBlock hlawful hruns
      exact ⟨hlawful', fun hrecordings => iff_of_true (hkeep hrecordings) trivial⟩
  | commitStashBlock hruns => exact step_commitStashBlock hsound hdisks hlawful hruns rfl
  | getBlockFullPath hname hruns =>
      obtain ⟨hlawful', hkeep⟩ := step_getBlockFullPath hsound hdisks hlawful hname hruns
      exact ⟨hlawful', fun hrecordings => iff_of_true (hkeep hrecordings) trivial⟩

/-- In every run of a storage that is alone with its two directories, every path leads to a
block if and only if every commit with compression finds its block on the stash tier or its
index not recorded. -/
theorem paths_lead_to_blocks_iff (hsound : build.Sound) {blockGranularity : ℕ}
    {trace : List (LoadCall × LoadState Hash)}
    (hdisks : pathPrefix baseDirectory ≠ pathPrefix stashDirectory)
    (hnamed : files.BasesNamed build {baseDirectory, stashDirectory})
    (hdrawn : files.StashesDrawn)
    (hmetadata : ∀ block name, blocksIds block = some name →
      OnTier build (initial baseDirectory stashDirectory blockGranularity) files name false)
    (hrun : Run (Step build)
      ⟨initial baseDirectory stashDirectory blockGranularity, files, blocksIds⟩ trace) :
    (∀ state ∈ Run.states
      ⟨initial baseDirectory stashDirectory blockGranularity, files, blocksIds⟩ trace,
        LoadsExist build state) ↔
      Run.Each (CommitsFound build)
        ⟨initial baseDirectory stashDirectory blockGranularity, files, blocksIds⟩ trace := by
  have hstart : Lawful build baseDirectory stashDirectory
      ⟨initial baseDirectory stashDirectory blockGranularity, files, blocksIds⟩ :=
    ⟨rfl, rfl, hnamed, hdrawn, stashesWhole_initial,
      fun block name hname => .inr (hmetadata block name hname)⟩
  have hunrecorded : Recordings build
      ⟨initial baseDirectory stashDirectory blockGranularity, files, blocksIds⟩ :=
    fun block name _ hrecorded => by cases hrecorded
  have hlaws := hrun.forall_states_of_step
    (fun state call next hlawful hstep => (step_iff hsound hdisks hlawful hstep).1) hstart
  have hexact := hrun.forall_states_iff (fun state call next hlawful hrecordings hstep =>
    (step_iff hsound hdisks hlawful hstep).imp_right fun hiff => hiff hrecordings)
    hstart hunrecorded
  rw [← hexact]
  exact forall₂_congr fun state hstate => loadsExist_iff hsound hdisks (hlaws state hstate)

/-- A build whose compressor puts a byte in front of a block. -/
def tagging : Build (Option (List Byte)) :=
  { Build.transparent with
    useCompression := true
    compress := fun content => 0 :: content
    decompress := fun bytes => some bytes.tail }

theorem tagging_sound : tagging.Sound where
  computeHash_injective := Option.some_injective _
  computeHash_ne_empty := fun content => Option.some_ne_none content
  decompress_compress := fun _ _ => rfl

/-- A new storage of blocks of one byte on two disks. -/
def twoDisks : LoadState (Option (List Byte)) where
  storage := .initial ['/', 'b', '/', 'x'] ['/', 's', '/', 'x'] 1
  files := FileSystem.empty.setDirectory (.path ['/', 's', '/', 'x'])
  blocksIds := fun _ => none

/-- A block that is committed as it was stored before is found where it was. -/
theorem paths_lead_to_blocks_iff_sameBlock :
    ∃ trace, Run (Step tagging) twoDisks trace ∧ trace.length = 4 ∧
      ((∀ state ∈ Run.states twoDisks trace, LoadsExist tagging state) ↔
        Run.Each (CommitsFound tagging) twoDisks trace) := by
  have hrun : Run (Step tagging) twoDisks
      [(.storeBlock [5] 0, _), (.stashBlock [5] 0, _), (.commitStashBlock 0, _),
        (.getBlockFullPath 0, _)] :=
    .cons (.storeBlock rfl (Program.runsTo_of_run FileSystem.answersOrFails_answer rfl)) <|
    .cons (.stashBlock rfl (Program.runsTo_of_run FileSystem.answersOrFails_answer rfl)) <|
    .cons (.commitStashBlock (Program.runsTo_of_run FileSystem.answersOrFails_answer rfl)) <|
    .cons (.getBlockFullPath rfl
      (Program.runsTo_of_run FileSystem.answersOrFails_answer rfl)) .nil
  refine ⟨_, hrun, rfl, paths_lead_to_blocks_iff tagging_sound ?_ ?_ ?_ ?_ hrun⟩
  · decide
  · intro location _ subdirectory name bytes hbytes
    cases hbytes
  · intro location uuid hsome
    cases hsome
  · intro block name hname
    cases hname

/-- With compression a second block of an index is committed in the base directory only, and
is looked for on the stash tier. -/
theorem path_leads_nowhere :
    ∃ trace, Run (Step tagging) twoDisks trace ∧
      ¬ (Run.last twoDisks trace).LoadsExist tagging := by
  have hrun : Run (Step tagging) twoDisks
      [(.storeBlock [5] 0, _), (.stashBlock [7] 0, _), (.commitStashBlock 0, _)] :=
    .cons (.storeBlock rfl (Program.runsTo_of_run FileSystem.answersOrFails_answer rfl)) <|
    .cons (.stashBlock rfl (Program.runsTo_of_run FileSystem.answersOrFails_answer rfl)) <|
    .cons (.commitStashBlock (Program.runsTo_of_run FileSystem.answersOrFails_answer rfl)) .nil
  refine ⟨_, hrun, fun hloads => ?_⟩
  have hpath := (hloads 0 (some [7]) rfl).2 _ _ _
    (Program.runsTo_of_run FileSystem.answersOrFails_answer rfl)
  obtain ⟨bytes, hbytes, -⟩ := hpath
  cases hbytes

end LoadState

end Privateer
