import Privateer.Storage.TwoTiers

/-!
# Short writes

On a full disk `pwrite` transfers only the first bytes it was given and returns their
number.  The block storage takes every number but `-1` for success.  Its files are sized
before they are written, so a short write leaves zeros or older bytes where are sized
before they are written, so a short write leaves zeros or older bytes where the rest of
the block should be.  This module follows a storage with one tier through all ways in
which its writes may end, and says when a block is complete all the same.  Where writes
are short and calls fail besides, the writes to the base directory alone have to be whole.
-/

namespace Privateer

variable {Hash : Type}

/-- The file `old` after a write of `bytes` at its start that transferred the given number
of bytes, or failed. -/
def written : Option ℕ → List Byte → List Byte → List Byte
  | none, _, old => old
  | some count, bytes, old => overwrite (bytes.take count) old

theorem length_written {transferred : Option ℕ} {bytes old : List Byte}
    (hlength : bytes.length = old.length) :
    (written transferred bytes old).length = old.length := by
  cases transferred with
  | none => rfl
  | some count =>
      rw [written, length_overwrite, List.length_take]
      omega

theorem length_written_le {transferred : Option ℕ} {bytes old : List Byte} {limit : ℕ}
    (hbytes : bytes.length ≤ limit) (hold : old.length ≤ limit) :
    (written transferred bytes old).length ≤ limit := by
  cases transferred with
  | none => exact hold
  | some count =>
      rw [written, length_overwrite, List.length_take]
      omega

/-- A write to a file of as many zeros fails, or leaves all of its bytes there. -/
def WritesWhole (transferred : Option ℕ) (bytes : List Byte) : Prop :=
  transferred = none ∨ written transferred bytes (List.replicate bytes.length 0) = bytes

/-- The base or stash directory that a file is in. -/
def DataFile.location : DataFile Hash → Path
  | .block location _ _ => location
  | .temporary location _ _ _ => location
  | .stash location _ => location

namespace FileSystem

variable [DecidableEq Hash]

/-- The effect of a system call when writes of data transfer the given number of bytes, or
fail. -/
def transfer (transferred : Option ℕ) :
    (call : Call Hash) → FileSystem Hash → Reply call × FileSystem Hash
  | .pwrite file bytes, files =>
      match transferred with
      | none => (none, files)
      | some count => files.answer (.pwrite file (bytes.take count))
  | call, files => files.answer call

/-- The answers of a file system whose disk may be full; only writes of data notice. -/
def Transfers (transferred : Option ℕ) (call : Call Hash) (files : FileSystem Hash)
    (reply : Reply call) (files' : FileSystem Hash) : Prop :=
  files.transfer transferred call = (reply, files')

variable {transferred : Option ℕ} {files files' : FileSystem Hash}

theorem failsCleanly_transfers : FailsCleanly (@Transfers Hash _ transferred) := by
  intro call hcall files reply files' hreply
  cases call with
  | pwrite file bytes => exact absurd rfl (hcall file bytes)
  | _ => exact .inl hreply

/-- A write to a file that exists. -/
theorem pwrite_transfers {file : DataFile Hash} {bytes old : List Byte} {reply : Option ℕ}
    (hreply : Transfers transferred (.pwrite file bytes) files reply files')
    (hold : files.data file = some old) :
    reply.isSome = transferred.isSome ∧
      files' = files.setData file (some (written transferred bytes old)) := by
  cases transferred with
  | none =>
      obtain ⟨rfl, rfl⟩ := Prod.mk.inj hreply
      exact ⟨rfl, (setData_eq_self hold).symm⟩
  | some count =>
      simp only [Transfers, transfer, answer, hold] at hreply
      obtain ⟨rfl, rfl⟩ := Prod.mk.inj hreply
      exact ⟨rfl, rfl⟩

/-- A write to a file that does not exist fails. -/
theorem pwrite_transfers_missing {file : DataFile Hash} {bytes : List Byte} {reply : Option ℕ}
    (hreply : Transfers transferred (.pwrite file bytes) files reply files')
    (hmissing : files.data file = none) : reply = none ∧ files' = files := by
  cases transferred with
  | none =>
      obtain ⟨rfl, rfl⟩ := Prod.mk.inj hreply
      exact ⟨rfl, rfl⟩
  | some count =>
      simp only [Transfers, transfer, answer, hmissing] at hreply
      obtain ⟨rfl, rfl⟩ := Prod.mk.inj hreply
      exact ⟨rfl, rfl⟩

/-- The effect of a system call when the writes to the files of a directory transfer the number
of bytes given for it. -/
def transferIn (transferred : Path → Option ℕ) :
    (call : Call Hash) → FileSystem Hash → Reply call × FileSystem Hash
  | .pwrite file bytes, files => files.transfer (transferred file.location) (.pwrite file bytes)
  | call, files => files.answer call

/-- The answers of a file system whose disks may be full and whose calls may fail. -/
def FailsOrTransfers (transferred : Path → Option ℕ) (call : Call Hash)
    (files : FileSystem Hash) (reply : Reply call) (files' : FileSystem Hash) : Prop :=
  files.transferIn transferred call = (reply, files') ∨ (call.Fails reply ∧ files' = files)

section FailsOrTransfers

variable {transferred : Path → Option ℕ}

theorem failsOrTransfers_transferIn (call : Call Hash) (files : FileSystem Hash) :
    FailsOrTransfers transferred call files (files.transferIn transferred call).1
      (files.transferIn transferred call).2 :=
  .inl rfl

theorem failsCleanly_failsOrTransfers : FailsCleanly (@FailsOrTransfers Hash _ transferred) := by
  intro call hcall files reply files' hreply
  cases call with
  | pwrite file bytes => exact absurd rfl (hcall file bytes)
  | _ => exact hreply

/-- A write fails, or it transfers what is given for its directory. -/
theorem pwrite_failsOrTransfers {file : DataFile Hash} {bytes : List Byte} {reply : Option ℕ}
    (hreply : FailsOrTransfers transferred (.pwrite file bytes) files reply files') :
    reply = none ∧ files' = files ∨
      Transfers (transferred file.location) (.pwrite file bytes) files reply files' := by
  rcases hreply with htransfers | hfails
  · exact .inr htransfers
  · exact .inl hfails

end FailsOrTransfers

/-- Whether a file exists is never answered wrongly. -/
theorem fileExists_transfers {file : DataFile Hash} {found : Bool}
    (hreply : Transfers transferred (.fileExists file) files found files') :
    (files.data file).isSome = found :=
  congrArg Prod.fst hreply

end FileSystem

namespace BlockStorage

open FileSystem (keepingBasesUnder Transfers failsCleanly_transfers KeepsBases ensures_done
  ensures_fallible ensures_clean ensures_clean_query)

variable [DecidableEq Hash] {build : Build Hash} {bases : Set Path}
variable {framed : Set (DataFile Hash)} {storage : BlockStorage Hash}
variable {files : FileSystem Hash} {owned : Set Empty} {transferred : Option ℕ}
variable {buffer : List Byte} {block uuid : ℕ}

/-! ## The calls -/

theorem writesTemporaries_transfers (hframed : ∀ file ∈ framed, file.IsStash)
    (hlength : buffer.length = storage.blockGranularity)
    (hwhole : WritesWhole transferred (build.encode buffer)) :
    WritesTemporaries (@Transfers Hash _ transferred) build bases framed storage buffer
      storage.baseDirectory block := by
  apply writesTemporaries_of hframed failsCleanly_transfers hlength
  intro subdirectory suffix files files' reply hold hreply
  obtain ⟨hstatus, rfl⟩ := FileSystem.pwrite_transfers hreply hold
  refine ⟨_, rfl, fun hsome _ => ?_⟩
  rcases hwhole with rfl | hwhole
  · rw [hstatus] at hsome
    cases hsome
  · exact hwhole

/-- A block that is in the base directory is not written again. -/
theorem writesTemporaries_found (hnamed : files.BasesNamed build bases)
    (hbase : storage.baseDirectory ∈ bases)
    (hfound : (files.data (storage.tierFile build (build.computeHash buffer) false)).isSome) :
    ∀ files' : FileSystem Hash, files.KeepsBases build bases framed files' →
      Transfers transferred (.fileExists (storage.tierFile build (build.computeHash buffer)
        false)) files' false files' →
      WritesTemporaries (@Transfers Hash _ transferred) build bases framed storage buffer
        storage.baseDirectory block := by
  intro files' hkeeps hmissing
  obtain ⟨bytes, hbytes⟩ := Option.isSome_iff_exists.mp hfound
  have hblock := (hkeeps.named hnamed).2 _ hbase _ _ _ hbytes
  have hnone := FileSystem.fileExists_transfers hmissing
  rw [BlockStorage.tierFile, if_neg (by simp), hblock] at hnone
  cases hnone

/-- A write that fails, is not made because the block is there, or leaves the whole block. -/
def StoresWhole (build : Build Hash) (storage : BlockStorage Hash) (files : FileSystem Hash)
    (transferred : Option ℕ) (content : List Byte) : Prop :=
  (files.data (storage.tierFile build (build.computeHash content) false)).isSome = true ∨
    WritesWhole transferred (build.encode content)

theorem StoresWhole.writesTemporaries (hnamed : files.BasesNamed build bases)
    (hbase : storage.baseDirectory ∈ bases) (hframed : ∀ file ∈ framed, file.IsStash)
    (hlength : buffer.length = storage.blockGranularity)
    (hwhole : StoresWhole build storage files transferred buffer) :
    ∀ files' : FileSystem Hash, files.KeepsBases build bases framed files' →
      Transfers transferred (.fileExists (storage.tierFile build (build.computeHash buffer)
        false)) files' false files' →
      WritesTemporaries (@Transfers Hash _ transferred) build bases framed storage buffer
        storage.baseDirectory block := by
  rcases hwhole with hfound | hwhole
  · exact writesTemporaries_found hnamed hbase hfound
  · exact fun _ _ _ => writesTemporaries_transfers hframed hlength hwhole

theorem whole_storeBlock (hframed : ∀ file ∈ framed, file.IsStash) (hsound : build.Sound)
    (hnamed : files.BasesNamed build bases) (hbase : storage.baseDirectory ∈ bases)
    (hsingle : storage.isMultiTiered = false)
    (hlength : buffer.length = storage.blockGranularity)
    (hwhole : StoresWhole build storage files transferred buffer) :
    (keepingBasesUnder (@Transfers Hash _ transferred) build bases framed).ensures
      (storeBlock build storage buffer true block)
      (fun result _ files' => StoresAs build bases storage.baseDirectory
        (build.prefixIndex (build.computeHash buffer) % numSubdirs) buffer result files')
      owned files := by
  unfold storeBlock
  simp only [hsingle, Bool.false_eq_true, if_false]
  exact keeps_storeBlockOn hframed failsCleanly_transfers hsound hnamed
    (hwhole.writesTemporaries hnamed hbase hframed hlength) rfl

section FailsOrTransfers

open FileSystem (FailsOrTransfers failsCleanly_failsOrTransfers)

variable {transfers : Path → Option ℕ}

/-- Only the writes to a base directory have to leave all of their bytes. -/
theorem writesTemporaries_failsOrTransfers {location : Path}
    (hframed : ∀ file ∈ framed, file.IsStash)
    (hlength : buffer.length = storage.blockGranularity)
    (hwhole : location ∈ bases → WritesWhole (transfers location) (build.encode buffer)) :
    WritesTemporaries (@FailsOrTransfers Hash _ transfers) build bases framed storage buffer
      location block := by
  apply writesTemporaries_of hframed failsCleanly_failsOrTransfers hlength
  intro subdirectory suffix files files' reply hold hreply
  rcases FileSystem.pwrite_failsOrTransfers hreply with ⟨rfl, rfl⟩ | htransfers
  · exact ⟨_, (FileSystem.setData_eq_self hold).symm, by simp⟩
  · obtain ⟨hstatus, rfl⟩ := FileSystem.pwrite_transfers htransfers hold
    refine ⟨_, rfl, fun hsome hbase => ?_⟩
    rcases hwhole hbase with hnone | hwhole
    · rw [hstatus, DataFile.location, hnone] at hsome
      cases hsome
    · exact hwhole

/-- A stash file does not outgrow the block, whatever is transferred to it. -/
theorem writesStash_failsOrTransfers (hlength : buffer.length = storage.blockGranularity) :
    WritesStash (@FailsOrTransfers Hash _ transfers) storage buffer False := by
  intro uuid files files' reply hfits hreply
  rcases FileSystem.pwrite_failsOrTransfers hreply with hfails | htransfers
  · exact .inl hfails
  · cases hold : files.data (.stash storage.stashDirectory uuid) with
    | none => exact .inl (FileSystem.pwrite_transfers_missing htransfers hold)
    | some old =>
        obtain ⟨-, rfl⟩ := FileSystem.pwrite_transfers htransfers hold
        refine .inr ⟨_, ?_, rfl, False.elim⟩
        exact length_written_le hlength.le (hfits old hold)

end FailsOrTransfers

/-- The last two calls of stashing leave in the stash file what the write transferred. -/
theorem written_pwriteStash (hmember : .stash storage.stashDirectory uuid ∉ framed)
    (huuid : uuid < files.fresh) {old : List Byte}
    (hold : files.data (.stash storage.stashDirectory uuid) = some old) :
    (keepingBasesUnder (@Transfers Hash _ transferred) build bases framed).ensures
      (do
        if (← systemCall (.pwrite (.stash storage.stashDirectory uuid) buffer)).isSome then
          systemCall .close
        else return false)
      (fun _ _ files' => files'.data (.stash storage.stashDirectory uuid) =
        some (written transferred buffer old)) owned files := by
  apply ensures_fallible
  intro reply files' hreply
  obtain ⟨-, rfl⟩ := FileSystem.pwrite_transfers hreply hold
  refine ⟨keepsBases_stash hmember huuid, ?_⟩
  cases reply with
  | none => exact ensures_done (FileSystem.setData_self _ _ _)
  | some count =>
      apply ensures_clean_query failsCleanly_transfers (by simp) rfl
      intro closed _
      exact ensures_done (FileSystem.setData_self _ _ _)

/-- A stash file, if there is one, holds what its writes have transferred. -/
theorem written_writeStash (hmember : .stash storage.stashDirectory uuid ∉ framed)
    (huuid : uuid < files.fresh) {fileExists : Bool} {old : List Byte}
    (hold : ∀ bytes, files.data (.stash storage.stashDirectory uuid) = some bytes →
      fileExists = true ∧ bytes = old)
    (hnew : fileExists = false → old = List.replicate storage.blockGranularity 0) :
    (keepingBasesUnder (@Transfers Hash _ transferred) build bases framed).ensures
      (writeStash storage buffer uuid fileExists)
      (fun _ _ files' => ∀ bytes,
        files'.data (.stash storage.stashDirectory uuid) = some bytes →
          bytes = written transferred buffer old) owned files := by
  have hpwrite : ∀ files' : FileSystem Hash, files'.fresh = files.fresh →
      files'.data (.stash storage.stashDirectory uuid) = some old →
      (keepingBasesUnder (@Transfers Hash _ transferred) build bases framed).ensures
        (do
          if (← systemCall (.pwrite (.stash storage.stashDirectory uuid) buffer)).isSome then
            systemCall .close
          else return false)
        (fun _ _ files'' => ∀ bytes,
          files''.data (.stash storage.stashDirectory uuid) = some bytes →
            bytes = written transferred buffer old) owned files' := by
    intro files' hfresh hdata
    apply Contract.ensures_mono (written_pwriteStash hmember (hfresh ▸ huuid) hdata)
    intro status owned' files'' hwritten bytes hbytes
    exact Option.some.inj (hbytes.symm.trans hwritten)
  unfold writeStash
  cases hdata : files.data (.stash storage.stashDirectory uuid) with
  | some bytes =>
      obtain ⟨rfl, rfl⟩ := hold bytes hdata
      apply ensures_fallible
      intro opened files' hopened
      simp only [Transfers, FileSystem.transfer, FileSystem.answer, hdata] at hopened
      obtain ⟨rfl, rfl⟩ := Prod.mk.inj hopened
      refine ⟨KeepsBases.refl files, ?_⟩
      exact hpwrite files rfl hdata
  | none =>
      have hmissing : ∀ bytes, files.data (.stash storage.stashDirectory uuid) = some bytes →
          bytes = written transferred buffer old := by
        intro bytes hbytes
        cases hdata.symm.trans hbytes
      apply ensures_clean failsCleanly_transfers (by simp)
      intro opened files' hopened
      cases opened with
      | false =>
          rw [FileSystem.eq_of_fails hopened rfl]
          exact ⟨KeepsBases.refl files, ensures_done hmissing⟩
      | true =>
          have hcreated : fileExists = false ∧
              files' = files.setData (.stash storage.stashDirectory uuid) (some []) := by
            rcases hopened with hanswer | ⟨hfails, -⟩
            · simp only [FileSystem.answer, hdata] at hanswer
              split at hanswer
              · rename_i hcreate
                exact ⟨by simp_all, (congrArg Prod.snd hanswer).symm⟩
              · cases (Prod.mk.inj hanswer).1
            · cases hfails
          obtain ⟨rfl, rfl⟩ := hcreated
          refine ⟨keepsBases_stash hmember huuid, ?_⟩
          apply ensures_fallible
          intro sized files'' hsized
          simp only [Transfers, FileSystem.transfer, FileSystem.answer, FileSystem.setData_self]
            at hsized
          obtain ⟨rfl, rfl⟩ := Prod.mk.inj hsized
          refine ⟨keepsBases_stash hmember huuid, ?_⟩
          have hzeros : resize 0 storage.blockGranularity [] = old := by
            rw [hnew rfl]
            simp [resize]
          rw [hzeros]
          exact hpwrite _ rfl (FileSystem.setData_self _ _ _)

/-- What the stash file of a block holds before the block is stashed again; a new one is
filled with zeros. -/
def stashBase (storage : BlockStorage Hash) (block : ℕ) (content : List Byte) : List Byte :=
  if (storage.stashBlockIds block).isSome then content
  else List.replicate storage.blockGranularity 0

omit [DecidableEq Hash] in
theorem length_stashBase {content : List Byte}
    (hlength : ∀ uuid, storage.stashBlockIds block = some uuid →
      content.length = storage.blockGranularity) :
    (storage.stashBase block content).length = storage.blockGranularity := by
  unfold stashBase
  cases hid : storage.stashBlockIds block with
  | none => simp
  | some uuid => exact hlength uuid hid

theorem written_stashBlock {content : List Byte} (hdrawn : files.StashesDrawn)
    (hids : ∀ other uuid, storage.stashBlockIds other = some uuid → uuid < files.fresh)
    (hinjective : ∀ other uuid, storage.stashBlockIds other = some uuid →
      storage.stashBlockIds block = some uuid → other = block)
    (hcontent : ∀ uuid bytes, storage.stashBlockIds block = some uuid →
      files.data (.stash storage.stashDirectory uuid) = some bytes → bytes = content) :
    (keepingBasesUnder (@Transfers Hash _ transferred) build bases
      (storage.otherStashes block)).ensures (stashBlock storage buffer block)
      (fun result _ files' => ∃ uuid, result.2 = storage.setStashBlockId block (some uuid) ∧
        uuid < files'.fresh ∧
          (∀ other, other ≠ block → storage.stashBlockIds other ≠ some uuid) ∧
            ∀ bytes, files'.data (.stash storage.stashDirectory uuid) = some bytes →
              bytes = written transferred buffer (storage.stashBase block content))
      owned files := by
  unfold stashBlock
  cases hid : storage.stashBlockIds block with
  | some uuid =>
      have hnot : ∀ other, other ≠ block → storage.stashBlockIds other ≠ some uuid :=
        fun other hother hsame => hother (hinjective other uuid hsame hid)
      have hstorage := (setStashBlockId_eq_self hid).symm
      have hbase : storage.stashBase block content = content := by
        rw [stashBase, hid, Option.isSome_some, if_pos rfl]
      apply Contract.ensures_bind_of (ensures_keepsBases (written_writeStash
        (stash_notMem_otherStashes hnot) (hids block uuid hid)
        (fun bytes hbytes => ⟨rfl, hcontent uuid bytes hid hbytes⟩) (by simp)))
      rintro status owned' files' ⟨hwritten, hkeeps⟩
      apply ensures_done
      exact ⟨uuid, hstorage, (hids block uuid hid).trans_le hkeeps.fresh, hnot,
        hbase.symm ▸ hwritten⟩
  | none =>
      apply ensures_clean failsCleanly_transfers (by simp)
      intro uuid files' huuid
      obtain ⟨rfl, rfl⟩ : files.fresh = uuid ∧
          ({ files with fresh := files.fresh + 1 } : FileSystem Hash) = files' := by
        rcases huuid with hanswer | ⟨hfails, -⟩
        · exact ⟨congrArg Prod.fst hanswer, congrArg Prod.snd hanswer⟩
        · exact hfails.elim
      refine ⟨KeepsBases.of_data_eq rfl (Nat.le_succ _), ?_⟩
      have hnot : ∀ other, other ≠ block → storage.stashBlockIds other ≠ some files.fresh :=
        fun other _ hsame => absurd (hids other _ hsame) (lt_irrefl _)
      have hnone : ∀ bytes, ({ files with fresh := files.fresh + 1 } : FileSystem Hash).data
          (.stash storage.stashDirectory files.fresh) ≠ some bytes := by
        intro bytes hbytes
        exact absurd (hdrawn _ _ (Option.isSome_of_eq_some hbytes)) (lt_irrefl _)
      have hbase : storage.stashBase block content =
          List.replicate storage.blockGranularity 0 := by
        simp [stashBase, hid]
      apply Contract.ensures_bind_of (ensures_keepsBases (written_writeStash
        (stash_notMem_otherStashes hnot) (Nat.lt_succ_self _)
        (fun bytes hbytes => absurd hbytes (hnone bytes)) (fun _ => hbase)))
      rintro status owned' files' ⟨hwritten, hkeeps⟩
      apply ensures_done
      exact ⟨files.fresh, rfl, (Nat.lt_succ_self _).trans_le hkeeps.fresh, hnot, hwritten⟩

section Committing

variable (hsound : build.Sound) (hnamed : files.BasesNamed build bases)
variable (hbase : storage.baseDirectory ∈ bases) (hsingle : storage.isMultiTiered = false)
variable (hframed : ∀ file ∈ framed, file.IsStash)
variable (hmember : .stash storage.stashDirectory uuid ∉ framed) (huuid : uuid < files.fresh)

include hsound hnamed hbase hsingle hframed hmember huuid

/-- The stash file becomes the block; storing its content again finds it there. -/
theorem whole_commitByRename (hcompression : build.useCompression = false)
    (hdata : files.data (.stash storage.stashDirectory uuid) = some buffer) :
    (keepingBasesUnder (@Transfers Hash _ transferred) build bases framed).ensures
      (commitByRename build storage buffer block (.stash storage.stashDirectory uuid)
        (storage.tierFile build (build.computeHash buffer) false) (build.computeHash buffer))
      (fun result _ files' => CommitEnds build bases storage block uuid buffer files result
        files') owned files := by
  have hencode : build.encode buffer = buffer := by
    simp [Build.encode, hcompression]
  apply ensures_commitByRename_of failsCleanly_transfers
  · exact ⟨.inl rfl, storesAs_none, fun _ hbytes => hbytes⟩
  · intro content hcontent
    obtain rfl : buffer = content := Option.some.inj (hdata.symm.trans hcontent)
    have hpublish : (files.setData (.stash storage.stashDirectory uuid) none).KeepsBases build
        bases framed ((files.setData (.stash storage.stashDirectory uuid) none).setData
          (storage.tierFile build (build.computeHash buffer) false)
          (some (build.encode buffer))) :=
      KeepsBases.publish hsound fun hmember => hframed _ hmember
    rw [hencode] at hpublish
    have hkeeps := (keepsBases_stash hmember huuid).trans hpublish
    have hnamed' := (hkeeps.named hnamed).1
    refine ⟨hkeeps, Contract.ensures_mono
      (keeps_storeBlockOn_stashes hframed failsCleanly_transfers hsound hnamed'
        (writesTemporaries_found hnamed' hbase
          (Option.isSome_of_eq_some (FileSystem.setData_self _ _ _)))) ?_⟩
    rintro result owned' files'' ⟨hstores, hstashes⟩
    have hgone : ∀ bytes, files''.data (.stash storage.stashDirectory uuid) = some bytes →
        files.data (.stash storage.stashDirectory uuid) = some bytes := by
      intro bytes hbytes
      rw [hstashes uuid, FileSystem.setData_of_ne _ (by simp [BlockStorage.tierFile]),
        FileSystem.setData_self] at hbytes
      cases hbytes
    exact ⟨fun _ => ⟨.inl rfl, storesAs_none, hgone⟩,
      fun stored hstored => ⟨.inr rfl, hstored ▸ hstores, hgone⟩⟩
  · intro hfound
    have hstores := storesAs_of_isSome hsound hnamed hfound
    refine ⟨keepsBases_stash hmember huuid, ?_⟩
    rw [hsingle, if_neg Bool.false_ne_true]
    exact ensures_done (commitEnds_removed hstores)

/-- A stash file is committed under the hash of its content. -/
theorem whole_commitStashBlock {content : List Byte}
    (hlength : content.length = storage.blockGranularity)
    (hid : storage.stashBlockIds block = some uuid)
    (hcontent : ∀ bytes, files.data (.stash storage.stashDirectory uuid) = some bytes →
      bytes = content)
    (hwhole : build.useCompression = true →
      StoresWhole build storage files transferred content) :
    (keepingBasesUnder (@Transfers Hash _ transferred) build bases framed).ensures
      (commitStashBlock build storage block)
      (fun result _ files' => CommitEnds build bases storage block uuid content files result
        files') owned files := by
  have hblock : (files.data (.stash storage.stashDirectory uuid)).isSome →
      files.data (.stash storage.stashDirectory uuid) = some content ∧
        storage.heldBlock files uuid = content := by
    intro hthere
    obtain ⟨bytes, hdata⟩ := Option.isSome_iff_exists.mp hthere
    obtain rfl := hcontent bytes hdata
    exact ⟨hdata, heldBlock_of_data hlength hdata⟩
  apply ensures_commitStashBlock_of failsCleanly_transfers hid
  · intro files₁ hkeeps hdata hthere hfound
    rw [(hblock hthere).2, hsingle, ← hdata] at hfound
    rw [(hblock hthere).2]
    have hstores := storesAs_of_isSome hsound (hkeeps.named hnamed).1 hfound
    exact ⟨⟨.inl rfl, storesAs_none, fun _ hbytes => hdata ▸ hbytes⟩,
      keepsBases_stash hmember (huuid.trans_le hkeeps.fresh), commitEnds_removed hstores⟩
  · intro owned₁ files₁ hkeeps hdata hthere
    obtain ⟨hstash, hheld⟩ := hblock hthere
    rw [hheld]
    have hnamed₁ := (hkeeps.named hnamed).1
    have huuid₁ := huuid.trans_le hkeeps.fresh
    have hfinish : ∀ {result files'}, CommitEnds build bases storage block uuid content files₁
        result files' → CommitEnds build bases storage block uuid content files result files' := by
      intro result files' hends
      exact ⟨hends.table, hends.stored, fun bytes hbytes => hdata ▸ hends.stash bytes hbytes⟩
    cases hcompression : build.useCompression with
    | true =>
        simp only [if_true]
        have hwhole₁ : StoresWhole build storage files₁ transferred content := by
          rw [StoresWhole, hdata]
          exact hwhole hcompression
        apply Contract.ensures_mono (keeps_commitByStore hsound hnamed₁ hframed hmember huuid₁
          failsCleanly_transfers
            (hwhole₁.writesTemporaries hnamed₁ hbase (fun _ hstash => hstash) hlength))
        exact fun result owned' files' hends => hfinish hends
    | false =>
        simp only [Bool.false_eq_true, if_false, hsingle]
        rw [← hdata] at hstash
        apply Contract.ensures_mono (whole_commitByRename hsound hnamed₁ hbase hsingle hframed
          hmember huuid₁ hcompression hstash)
        exact fun result owned' files' hends => hfinish hends

end Committing

end BlockStorage

end Privateer
