import Privateer.Storage.BlockFiles

/-!
# A block storage whose system calls may fail

Any system call may report failure, which then changed nothing, and the process may be
killed before any of them.  The block storage still keeps its promises on the files of
the base directories: they are named by their contents, and none is changed or removed.
A storage works on a base directory and on the stash directory of another disk.
-/

namespace Privateer

variable {Hash : Type}

/-- The replies by which the calls of a block storage report failure. -/
def Call.Fails : (call : Call Hash) → Reply call → Prop
  | .directoryExists _, reply => reply = false
  | .createDirectory _, reply => reply = false
  | .fileExists _, reply => reply = false
  | .openFile _ _, reply => reply = false
  | .ftruncate _ _, reply => reply = false
  | .pwrite _ _, reply => reply = none
  | .pread _ _, reply => reply = none
  | .close, reply => reply = false
  | .rename _ _, reply => reply = false
  | .remove _, reply => reply = false
  | .mkstemp _ _ _, reply => reply = none
  | .copyFile _ _, reply => reply = false
  | _, _ => False

attribute [grind =] Call.Fails

/-- The bytes are what the build writes to the file of that name. -/
def Build.Names (build : Build Hash) (name : Hash) (bytes : List Byte) : Prop :=
  ∃ content, build.computeHash content = name ∧ bytes = build.encode content

theorem Build.Names.unique {build : Build Hash} (hsound : build.Sound) {content : List Byte}
    {bytes : List Byte} (hnames : build.Names (build.computeHash content) bytes) :
    bytes = build.encode content := by
  obtain ⟨other, hhash, rfl⟩ := hnames
  rw [hsound.computeHash_injective hhash]

/-- The files with a name that `stash_block` draws. -/
def DataFile.IsStash : DataFile Hash → Prop
  | .stash _ _ => True
  | _ => False

namespace FileSystem

/-- The blocks in the given directories hold what their names are hashes of. -/
def BasesNamed (build : Build Hash) (bases : Set Path) (files : FileSystem Hash) : Prop :=
  ∀ location ∈ bases, ∀ subdirectory name bytes,
    files.data (.block location subdirectory name) = some bytes → build.Names name bytes

def BasesKept (bases : Set Path) (files files' : FileSystem Hash) : Prop :=
  ∀ location ∈ bases, ∀ subdirectory name bytes,
    files.data (.block location subdirectory name) = some bytes →
      files'.data (.block location subdirectory name) = some bytes

/-- No stash file has a number that was not drawn yet. -/
def StashesDrawn (files : FileSystem Hash) : Prop :=
  ∀ location uuid, (files.data (.stash location uuid)).isSome → uuid < files.fresh

/-- What every call of a block storage keeps; it leaves the `framed` files alone. -/
structure KeepsBases (build : Build Hash) (bases : Set Path) (framed : Set (DataFile Hash))
    (files files' : FileSystem Hash) : Prop where
  named : files.BasesNamed build bases →
    files'.BasesNamed build bases ∧ files.BasesKept bases files'
  framed : ∀ file ∈ framed, files'.data file = files.data file
  fresh : files.fresh ≤ files'.fresh
  drawn : files.StashesDrawn → files'.StashesDrawn

variable {build : Build Hash} {bases : Set Path} {framed : Set (DataFile Hash)}
variable {files files' files'' : FileSystem Hash}

theorem KeepsBases.refl (files : FileSystem Hash) : files.KeepsBases build bases framed files :=
  ⟨fun hnamed => ⟨hnamed, fun _ _ _ _ _ hbytes => hbytes⟩, fun _ _ => rfl, le_rfl, id⟩

theorem KeepsBases.trans (hfirst : files.KeepsBases build bases framed files')
    (hsecond : files'.KeepsBases build bases framed files'') :
    files.KeepsBases build bases framed files'' where
  named := fun hnamed => by
    obtain ⟨hnamed', hkept⟩ := hfirst.named hnamed
    obtain ⟨hnamed'', hkept'⟩ := hsecond.named hnamed'
    refine ⟨hnamed'', fun location hlocation subdirectory name bytes hbytes => ?_⟩
    exact hkept' _ hlocation _ _ _ (hkept _ hlocation _ _ _ hbytes)
  framed := fun file hfile => (hsecond.framed file hfile).trans (hfirst.framed file hfile)
  fresh := hfirst.fresh.trans hsecond.fresh
  drawn := hsecond.drawn ∘ hfirst.drawn

/-- Changes that reach no data file. -/
theorem KeepsBases.of_data_eq (hdata : files'.data = files.data)
    (hfresh : files.fresh ≤ files'.fresh) : files.KeepsBases build bases framed files' where
  named := fun hnamed => by
    refine ⟨fun location hlocation subdirectory name bytes hbytes => ?_,
      fun location hlocation subdirectory name bytes hbytes => ?_⟩
    · rw [hdata] at hbytes
      exact hnamed _ hlocation _ _ _ hbytes
    · rw [hdata]
      exact hbytes
  framed := fun file _ => congrFun hdata file
  fresh := hfresh
  drawn := fun hdrawn location uuid hsome => by
    rw [hdata] at hsome
    exact (hdrawn location uuid hsome).trans_le hfresh

variable [DecidableEq Hash]

/-- A call is answered, or it fails and changes nothing. -/
def AnswersOrFails (call : Call Hash) (files : FileSystem Hash) (reply : Reply call)
    (files' : FileSystem Hash) : Prop :=
  files.answer call = (reply, files') ∨ (call.Fails reply ∧ files' = files)

theorem answersOrFails_answer (call : Call Hash) (files : FileSystem Hash) :
    AnswersOrFails call files (files.answer call).1 (files.answer call).2 :=
  .inl rfl

/-- A call that only looks has changed nothing, answered or failed. -/
theorem eq_of_query {call : Call Hash} {reply : Reply call}
    (hreply : AnswersOrFails call files reply files') (hquery : (files.answer call).2 = files) :
    files' = files := by
  rcases hreply with hanswer | ⟨-, hsame⟩
  · rw [hanswer] at hquery
    exact hquery
  · exact hsame

/-- A file that is no block of a base directory may change. -/
theorem KeepsBases.setData {file : DataFile Hash} {content : Option (List Byte)}
    (hblock : ∀ location ∈ bases, ∀ subdirectory name, file ≠ .block location subdirectory name)
    (hframed : file ∉ framed)
    (hstash : ∀ location uuid, file = .stash location uuid → content.isSome →
      uuid < files.fresh ∨ (files.data file).isSome) :
    files.KeepsBases build bases framed (files.setData file content) where
  named := fun hnamed => by
    refine ⟨fun location hlocation subdirectory name bytes hbytes => ?_,
      fun location hlocation subdirectory name bytes hbytes => ?_⟩
    · rw [setData_of_ne _ (hblock location hlocation subdirectory name).symm] at hbytes
      exact hnamed _ hlocation _ _ _ hbytes
    · rw [setData_of_ne _ (hblock location hlocation subdirectory name).symm]
      exact hbytes
  framed := fun other hother => by
    have hne : other ≠ file := by
      rintro rfl
      exact hframed hother
    exact setData_of_ne files hne content
  fresh := le_rfl
  drawn := fun hdrawn location uuid hsome => by
    by_cases hsame : DataFile.stash location uuid = file
    · rw [hsame, setData_self] at hsome
      rcases hstash location uuid hsame.symm hsome with hlt | hold
      · exact hlt
      · exact hdrawn location uuid (hsame ▸ hold)
    · rw [setData_of_ne _ hsame] at hsome
      exact hdrawn location uuid hsome

/-- A block may be written under the hash of its content, over itself if need be. -/
theorem KeepsBases.publish (hsound : build.Sound) {location : Path} {subdirectory : ℕ}
    {content : List Byte}
    (hframed : .block location subdirectory (build.computeHash content) ∉ framed) :
    files.KeepsBases build bases framed
      (files.setData (.block location subdirectory (build.computeHash content))
        (some (build.encode content))) where
  named := fun hnamed => by
    refine ⟨fun other hother subdirectory' name bytes hbytes => ?_,
      fun other hother subdirectory' name bytes hbytes => ?_⟩
    · by_cases hsame : DataFile.block other subdirectory' name =
          .block location subdirectory (build.computeHash content)
      · rw [hsame, setData_self, Option.some.injEq] at hbytes
        exact ⟨content, (DataFile.block.inj hsame).2.2.symm, hbytes.symm⟩
      · rw [setData_of_ne _ hsame] at hbytes
        exact hnamed _ hother _ _ _ hbytes
    · by_cases hsame : DataFile.block other subdirectory' name =
          .block location subdirectory (build.computeHash content)
      · have hnames := hnamed _ hother _ _ _ hbytes
        rw [(DataFile.block.inj hsame).2.2] at hnames
        rw [hsame, setData_self, hnames.unique hsound]
      · rw [setData_of_ne _ hsame]
        exact hbytes
  framed := fun other hother => by
    have hne : other ≠ .block location subdirectory (build.computeHash content) := by
      rintro rfl
      exact hframed hother
    exact setData_of_ne files hne _
  fresh := le_rfl
  drawn := fun hdrawn other uuid hsome => by
    rw [setData_of_ne _ (by simp)] at hsome
    exact hdrawn other uuid hsome

/-- The contract of a block storage that is alone with its files. -/
def keepingBases (build : Build Hash) (bases : Set Path) (framed : Set (DataFile Hash)) :
    Contract (Interface.alone (@AnswersOrFails Hash _)) :=
  Contract.alone _ (KeepsBases build bases framed) KeepsBases.refl fun _ _ _ => KeepsBases.trans

/-- The same contract where the calls are answered in some other way. -/
def keepingBasesUnder
    (answers : (call : Call Hash) → FileSystem Hash → Reply call → FileSystem Hash → Prop)
    (build : Build Hash) (bases : Set Path) (framed : Set (DataFile Hash)) :
    Contract (Interface.alone answers) :=
  Contract.alone _ (KeepsBases build bases framed) KeepsBases.refl fun _ _ _ => KeepsBases.trans

/-- Every call but a write of data is answered, or it fails and changes nothing. -/
def FailsCleanly
    (answers : (call : Call Hash) → FileSystem Hash → Reply call → FileSystem Hash → Prop) :
    Prop :=
  ∀ call : Call Hash, (∀ file bytes, call ≠ .pwrite file bytes) →
    ∀ files reply files', answers call files reply files' →
      AnswersOrFails call files reply files'

theorem failsCleanly_answersOrFails : FailsCleanly (@AnswersOrFails Hash _) :=
  fun _ _ _ _ _ hreply => hreply

variable {answers : (call : Call Hash) → FileSystem Hash → Reply call → FileSystem Hash → Prop}
variable {A : Type} {post : A → Set Empty → FileSystem Hash → Prop} {owned : Set Empty}

omit [DecidableEq Hash] in
theorem rely_keepingBases
    (hrely : (keepingBasesUnder answers build bases framed).Rely owned files files') :
    files' = files :=
  hrely.tolerated.symm

omit [DecidableEq Hash] in
theorem ensures_done {result : A} (hpost : post result owned files) :
    (keepingBasesUnder answers build bases framed).ensures
      (.finish result : StorageProgram Hash A) post owned files := by
  intro files' hrely
  rw [rely_keepingBases hrely]
  exact hpost

omit [DecidableEq Hash] in
/-- A system call, answered or failed. -/
theorem ensures_fallible {call : Call Hash} {next : Reply call → StorageProgram Hash A}
    (hnext : ∀ reply files', answers call files reply files' →
      files.KeepsBases build bases framed files' ∧
        (keepingBasesUnder answers build bases framed).ensures (next reply) post owned files') :
    (keepingBasesUnder answers build bases framed).ensures (.call call next)
      post owned files := by
  apply Contract.ensures_call (fun _ => rfl)
  intro before hbefore reply after hreply
  rw [rely_keepingBases hbefore] at hreply ⊢
  obtain ⟨hkeeps, hensures⟩ := hnext reply after hreply
  exact ⟨⟨hkeeps, subset_rfl, fun _ hnone _ => hnone.elim⟩, hensures⟩

/-- A system call that is answered, or fails and changes nothing. -/
theorem ensures_clean (hclean : FailsCleanly answers) {call : Call Hash}
    {next : Reply call → StorageProgram Hash A}
    (hcall : ∀ file bytes, call ≠ .pwrite file bytes)
    (hnext : ∀ reply files', AnswersOrFails call files reply files' →
      files.KeepsBases build bases framed files' ∧
        (keepingBasesUnder answers build bases framed).ensures (next reply) post owned files') :
    (keepingBasesUnder answers build bases framed).ensures (.call call next)
      post owned files :=
  ensures_fallible fun reply files' hanswers =>
    hnext reply files' (hclean call hcall files reply files' hanswers)

/-- A system call that only looks. -/
theorem ensures_clean_query (hclean : FailsCleanly answers) {call : Call Hash}
    {next : Reply call → StorageProgram Hash A}
    (hcall : ∀ file bytes, call ≠ .pwrite file bytes) (hquery : (files.answer call).2 = files)
    (hnext : ∀ reply, AnswersOrFails call files reply files →
      (keepingBasesUnder answers build bases framed).ensures (next reply) post owned files) :
    (keepingBasesUnder answers build bases framed).ensures (.call call next)
      post owned files := by
  apply ensures_clean hclean hcall
  intro reply files' hreply
  obtain rfl : files' = files := eq_of_query hreply hquery
  exact ⟨KeepsBases.refl _, hnext reply hreply⟩

omit [DecidableEq Hash] in
/-- A call that reports failure has changed nothing. -/
theorem eq_of_fails [DecidableEq Hash] {call : Call Hash} {reply : Reply call}
    (hreply : AnswersOrFails call files reply files') (hfails : call.Fails reply) :
    files' = files := by
  rcases hreply with hanswer | ⟨-, rfl⟩
  · cases call <;> simp only [Call.Fails] at hfails <;> subst hfails <;>
      simp only [answer] at hanswer <;> (repeat' split at hanswer) <;> simp_all
  · rfl

section Succeeded

variable {file source target : DataFile Hash} {length count : ℕ} {bytes : List Byte}

theorem createDirectory_keeps {directory : Directory} {created : Bool}
    (hreply : AnswersOrFails (.createDirectory directory) files created files') :
    files'.data = files.data ∧ files'.fresh = files.fresh := by
  rcases hreply with hanswer | ⟨-, rfl⟩
  · have hfiles : files.setDirectory directory = files' := congrArg Prod.snd hanswer
    rw [← hfiles]
    exact ⟨rfl, rfl⟩
  · exact ⟨rfl, rfl⟩

theorem ftruncate_succeeded (hreply : AnswersOrFails (.ftruncate file length) files true files') :
    ∃ old, files.data file = some old ∧
      files' = files.setData file (some (resize 0 length old)) := by
  rcases hreply with hanswer | ⟨hfails, -⟩
  · simp only [answer] at hanswer
    split at hanswer
    · rename_i old hold
      exact ⟨old, hold, (congrArg Prod.snd hanswer).symm⟩
    · simp at hanswer
  · simp [Call.Fails] at hfails

theorem pwrite_succeeded
    (hreply : AnswersOrFails (.pwrite file bytes) files (some count) files') :
    ∃ old, files.data file = some old ∧
      files' = files.setData file (some (overwrite bytes old)) := by
  rcases hreply with hanswer | ⟨hfails, -⟩
  · simp only [answer] at hanswer
    split at hanswer
    · rename_i old hold
      exact ⟨old, hold, (congrArg Prod.snd hanswer).symm⟩
    · simp at hanswer
  · simp [Call.Fails] at hfails

theorem rename_succeeded (hreply : AnswersOrFails (.rename source target) files true files') :
    ∃ content, files.data source = some content ∧
      files' = (files.setData source none).setData target (some content) := by
  rcases hreply with hanswer | ⟨hfails, -⟩
  · simp only [answer] at hanswer
    split at hanswer
    · rename_i content hcontent
      split at hanswer
      · exact ⟨content, hcontent, (congrArg Prod.snd hanswer).symm⟩
      · simp at hanswer
    · simp at hanswer
  · simp [Call.Fails] at hfails

theorem remove_succeeded (hreply : AnswersOrFails (.remove file) files true files') :
    files' = files.setData file none := by
  rcases hreply with hanswer | ⟨hfails, -⟩
  · simp only [answer] at hanswer
    split at hanswer
    · exact (congrArg Prod.snd hanswer).symm
    · simp at hanswer
  · simp [Call.Fails] at hfails

theorem copyFile_succeeded
    (hreply : AnswersOrFails (.copyFile source target) files true files') :
    ∃ content, files.data source = some content ∧
      files' = files.setData target (some content) := by
  rcases hreply with hanswer | ⟨hfails, -⟩
  · simp only [answer] at hanswer
    split at hanswer
    · rename_i content hcontent _
      exact ⟨content, hcontent, (congrArg Prod.snd hanswer).symm⟩
    · simp at hanswer
  · simp [Call.Fails] at hfails

theorem mkstemp_succeeded {location : Path} {subdirectory block suffix : ℕ}
    (hreply : AnswersOrFails (.mkstemp location subdirectory block) files (some suffix) files') :
    files' = { files.setData (.temporary location subdirectory block suffix) (some [])
      with fresh := files.fresh + 1 } := by
  rcases hreply with hanswer | ⟨hfails, -⟩
  · simp only [answer] at hanswer
    split at hanswer
    · simp only [Prod.mk.injEq, Option.some.injEq] at hanswer
      rw [← hanswer.2, hanswer.1]
    · simp at hanswer
  · simp [Call.Fails] at hfails

theorem fileExists_succeeded (hreply : AnswersOrFails (.fileExists file) files true files') :
    (files.data file).isSome := by
  rcases hreply with hanswer | ⟨hfails, -⟩
  · exact congrArg Prod.fst hanswer
  · simp [Call.Fails] at hfails

end Succeeded

end FileSystem

namespace BlockStorage

open FileSystem (keepingBasesUnder FailsCleanly failsCleanly_answersOrFails
  KeepsBases ensures_done ensures_fallible ensures_clean ensures_clean_query)

variable [DecidableEq Hash] {build : Build Hash} {bases : Set Path}
variable {framed : Set (DataFile Hash)} {storage : BlockStorage Hash}
variable {files : FileSystem Hash} {owned : Set Empty} {name : Hash} {onStash : Bool}
variable {buffer : List Byte} {block : ℕ} {A : Type}
variable {answers : (call : Call Hash) → FileSystem Hash → Reply call → FileSystem Hash → Prop}

omit [DecidableEq Hash] in
/-- Every end of a program is related to its start by the promises. -/
theorem ensures_keepsBases {program : StorageProgram Hash A}
    {post : A → Set Empty → FileSystem Hash → Prop}
    (hensures : (keepingBasesUnder answers build bases framed).ensures program post owned files) :
    (keepingBasesUnder answers build bases framed).ensures program
      (fun result owned' files' => post result owned' files' ∧
        files.KeepsBases build bases framed files') owned files :=
  Contract.ensures_promises (fun _ _ hsame => hsame ▸ KeepsBases.refl _) hensures

/-! ## Storing -/

theorem keeps_getBlocksSubdirectory (hclean : FailsCleanly answers) :
    (keepingBasesUnder answers build bases framed).ensures
      (getBlocksSubdirectory build storage name onStash)
      (fun directory _ files' =>
        DataFile.block directory.1 directory.2 name = storage.tierFile build name onStash ∧
          files'.data = files.data) owned files := by
  apply ensures_clean_query hclean (by simp) rfl
  intro found _
  cases found with
  | true => exact ensures_done ⟨rfl, rfl⟩
  | false =>
      apply ensures_clean hclean (by simp)
      intro created files' hcreated
      obtain ⟨hdata, hfresh⟩ := FileSystem.createDirectory_keeps hcreated
      refine ⟨KeepsBases.of_data_eq hdata hfresh.ge, ?_⟩
      cases created with
      | true => exact ensures_done ⟨rfl, hdata⟩
      | false => trivial

theorem keeps_closeOrExit (hclean : FailsCleanly answers) {result : A}
    {post : A → Set Empty → FileSystem Hash → Prop}
    (hpost : post result owned files) :
    (keepingBasesUnder answers build bases framed).ensures (do closeOrExit; return result)
      post owned files := by
  apply ensures_clean_query hclean (by simp) rfl
  intro closed _
  cases closed with
  | true => exact ensures_done hpost
  | false => trivial

variable (hframed : ∀ file ∈ framed, file.IsStash)
include hframed

/-- A temporary file may change. -/
theorem keepsBases_temporary {location : Path} {subdirectory index suffix : ℕ}
    {content : Option (List Byte)} :
    files.KeepsBases build bases framed
      (files.setData (.temporary location subdirectory index suffix) content) :=
  KeepsBases.setData (fun _ _ _ _ => by simp) (fun hmember => hframed _ hmember)
    (fun _ _ hstash => by simp at hstash)

omit [DecidableEq Hash] hframed in
/-- What a temporary file holds before it is written: it is sized at once only in the build
without compression. -/
def unwritten (build : Build Hash) (storage : BlockStorage Hash) : List Byte :=
  if build.useCompression then [] else List.replicate storage.blockGranularity 0

theorem keeps_createTemporaryUniqueBlock (hclean : FailsCleanly answers) {location : Path}
    {subdirectory : ℕ} :
    (keepingBasesUnder answers build bases framed).ensures
      (createTemporaryUniqueBlock build storage location subdirectory block)
      (fun temporary _ files' => ∃ suffix,
        temporary = .temporary location subdirectory block suffix ∧
          files'.data temporary = some (unwritten build storage)) owned files := by
  apply ensures_clean hclean (by simp)
  intro drawn files' hdrawn
  cases drawn with
  | none =>
      rw [FileSystem.eq_of_fails hdrawn rfl]
      exact ⟨KeepsBases.refl files, trivial⟩
  | some suffix =>
      rw [FileSystem.mkstemp_succeeded hdrawn]
      refine ⟨(keepsBases_temporary hframed).trans
        (KeepsBases.of_data_eq rfl (Nat.le_succ _)), ?_⟩
      rw [unwritten]
      cases hcompression : build.useCompression with
      | true => exact ensures_done ⟨suffix, rfl, FileSystem.setData_self _ _ _⟩
      | false =>
          apply ensures_clean hclean (by simp)
          intro sized files'' hsized
          cases sized with
          | false =>
              rw [FileSystem.eq_of_fails hsized rfl]
              exact ⟨KeepsBases.refl _, trivial⟩
          | true =>
              obtain ⟨old, hold, rfl⟩ := FileSystem.ftruncate_succeeded hsized
              obtain rfl : [] = old :=
                Option.some.inj ((FileSystem.setData_self _ _ _).symm.trans hold)
              refine ⟨keepsBases_temporary hframed, ensures_done ⟨suffix, rfl, ?_⟩⟩
              rw [FileSystem.setData_self]
              simp [resize]

/-- Where writing to a new temporary file of a base directory is reported, the file holds
the block; elsewhere it may hold anything. -/
def WritesTemporaries
    (answers : (call : Call Hash) → FileSystem Hash → Reply call → FileSystem Hash → Prop)
    (build : Build Hash) (bases : Set Path) (framed : Set (DataFile Hash))
    (storage : BlockStorage Hash) (buffer : List Byte) (location : Path) (block : ℕ) : Prop :=
  ∀ {files : FileSystem Hash} {owned : Set Empty} {subdirectory suffix : ℕ},
    files.data (.temporary location subdirectory block suffix) =
      some (unwritten build storage) →
    (keepingBasesUnder answers build bases framed).ensures
      (writeTemporary build (.temporary location subdirectory block suffix) buffer)
      (fun status _ files' => status = true → location ∈ bases →
        files'.data (.temporary location subdirectory block suffix) =
          some (build.encode buffer)) owned files

/-- It is enough that a successful write over zeros leaves all of its bytes. -/
theorem writesTemporaries_of (hclean : FailsCleanly answers) {location : Path}
    (hlength : buffer.length = storage.blockGranularity)
    (hpwrite : ∀ {subdirectory suffix : ℕ} {files files' : FileSystem Hash} {reply : Option ℕ},
      files.data (.temporary location subdirectory block suffix) =
        some (List.replicate (build.encode buffer).length 0) →
      answers (.pwrite (.temporary location subdirectory block suffix) (build.encode buffer))
        files reply files' →
      ∃ content,
        files' = files.setData (.temporary location subdirectory block suffix) (some content) ∧
          (reply.isSome = true → location ∈ bases → content = build.encode buffer)) :
    WritesTemporaries answers build bases framed storage buffer location block := by
  intro files owned subdirectory suffix hold
  have hwrite : ∀ {files : FileSystem Hash} {bytes : List Byte}, bytes = build.encode buffer →
      files.data (.temporary location subdirectory block suffix) =
        some (List.replicate bytes.length 0) →
      (keepingBasesUnder answers build bases framed).ensures
        (do return (← systemCall
          (.pwrite (.temporary location subdirectory block suffix) bytes)).isSome)
        (fun status _ files' => status = true → location ∈ bases →
          files'.data (.temporary location subdirectory block suffix) =
            some (build.encode buffer)) owned files := by
    rintro files bytes rfl hold
    apply ensures_fallible
    intro reply files' hreply
    obtain ⟨content, rfl, hcontent⟩ := hpwrite hold hreply
    refine ⟨keepsBases_temporary hframed, ensures_done fun hsome hbase => ?_⟩
    rw [FileSystem.setData_self, hcontent hsome hbase]
  unfold writeTemporary
  unfold unwritten at hold
  cases hcompression : build.useCompression with
  | true =>
      have hencode : build.compress buffer = build.encode buffer := by
        rw [Build.encode, hcompression, if_pos rfl]
      rw [hcompression, if_pos rfl] at hold
      simp only [if_true]
      apply ensures_clean hclean (by simp)
      intro sized files' hsized
      cases sized with
      | false =>
          rw [FileSystem.eq_of_fails hsized rfl]
          exact ⟨KeepsBases.refl files, trivial⟩
      | true =>
          obtain ⟨before, hbefore, rfl⟩ := FileSystem.ftruncate_succeeded hsized
          obtain rfl : [] = before := Option.some.inj (hold.symm.trans hbefore)
          refine ⟨keepsBases_temporary hframed, hwrite hencode ?_⟩
          rw [FileSystem.setData_self]
          simp [resize]
  | false =>
      have hencode : buffer = build.encode buffer := by
        simp [Build.encode, hcompression]
      simp only [hcompression, Bool.false_eq_true, if_false] at hold ⊢
      apply hwrite hencode
      rw [hold, hlength]

/-- A write that may fail, but not be short. -/
theorem writesTemporaries {location : Path}
    (hlength : buffer.length = storage.blockGranularity) :
    WritesTemporaries (@FileSystem.AnswersOrFails Hash _) build bases framed storage buffer
      location block := by
  apply writesTemporaries_of hframed failsCleanly_answersOrFails hlength
  intro subdirectory suffix files files' reply hold hreply
  cases reply with
  | none =>
      rw [FileSystem.eq_of_fails hreply rfl]
      exact ⟨_, (FileSystem.setData_eq_self hold).symm, by simp⟩
  | some count =>
      obtain ⟨before, hbefore, rfl⟩ := FileSystem.pwrite_succeeded hreply
      rw [hold, Option.some.injEq] at hbefore
      refine ⟨_, rfl, fun _ _ => overwrite_of_length_le ?_⟩
      rw [← hbefore, List.length_replicate]

/-- A result that is a name is the name of the block, under which a base directory has it. -/
def StoresAs (build : Build Hash) (bases : Set Path) (location : Path) (subdirectory : ℕ)
    (buffer : List Byte) (result : Option Hash) (files : FileSystem Hash) : Prop :=
  ∀ stored, result = some stored → stored = build.computeHash buffer ∧
    (location ∈ bases → files.data (.block location subdirectory (build.computeHash buffer)) =
      some (build.encode buffer))

omit [DecidableEq Hash] in
omit hframed in
theorem storesAs_none {location : Path} {subdirectory : ℕ} :
    StoresAs build bases location subdirectory buffer none files := by
  intro stored hstored
  cases hstored

omit [DecidableEq Hash] in
omit hframed in
/-- A block that is found under its name in a base directory is the block itself. -/
theorem storesAs_of_isSome (hsound : build.Sound) (hnamed : files.BasesNamed build bases)
    {location : Path} {subdirectory : ℕ}
    (hfound : (files.data (.block location subdirectory (build.computeHash buffer))).isSome) :
    StoresAs build bases location subdirectory buffer (some (build.computeHash buffer)) files := by
  intro stored hstored
  cases hstored
  refine ⟨rfl, fun hbase => ?_⟩
  obtain ⟨bytes, hbytes⟩ := Option.isSome_iff_exists.mp hfound
  rw [hbytes, (hnamed _ hbase _ _ _ hbytes).unique hsound]

omit hframed in
theorem StoresAs.setData_temporary {location : Path} {subdirectory index suffix : ℕ}
    {result : Option Hash} {content : Option (List Byte)}
    (hstores : StoresAs build bases location subdirectory buffer result files) :
    StoresAs build bases location subdirectory buffer result
      (files.setData (.temporary location subdirectory index suffix) content) := by
  intro stored hstored
  refine ⟨(hstores stored hstored).1, fun hbase => ?_⟩
  rw [FileSystem.setData_of_ne _ (by simp)]
  exact (hstores stored hstored).2 hbase

/-- A file that is published in a base directory has to hold its block. -/
theorem keepsBases_published (hsound : build.Sound) {location : Path} {subdirectory : ℕ}
    {content : List Byte} (hencoded : location ∈ bases → content = build.encode buffer) :
    files.KeepsBases build bases framed
      (files.setData (.block location subdirectory (build.computeHash buffer))
        (some content)) := by
  by_cases hbase : location ∈ bases
  · rw [hencoded hbase]
    exact KeepsBases.publish hsound fun hmember => hframed _ hmember
  · refine KeepsBases.setData ?_ (fun hmember => hframed _ hmember) (by simp)
    intro other hother index name hsame
    exact hbase ((DataFile.block.inj hsame).1 ▸ hother)

theorem keeps_publishTemporary (hclean : FailsCleanly answers) (hsound : build.Sound)
    (hnamed : files.BasesNamed build bases)
    {location : Path} {subdirectory suffix : ℕ}
    (hdata : location ∈ bases → files.data (.temporary location subdirectory block suffix) =
      some (build.encode buffer)) :
    (keepingBasesUnder answers build bases framed).ensures
      (publishTemporary (.temporary location subdirectory block suffix)
        (.block location subdirectory (build.computeHash buffer)) (build.computeHash buffer))
      (fun result _ files' =>
        StoresAs build bases location subdirectory buffer result files') owned files := by
  apply ensures_clean hclean (by simp)
  intro renamed files' hrenamed
  cases renamed with
  | true =>
      obtain ⟨content, hcontent, rfl⟩ := FileSystem.rename_succeeded hrenamed
      have hencoded : location ∈ bases → content = build.encode buffer := fun hbase =>
        Option.some.inj (hcontent.symm.trans (hdata hbase))
      refine ⟨(keepsBases_temporary hframed).trans
        (keepsBases_published hframed hsound hencoded), ?_⟩
      apply keeps_closeOrExit hclean
      intro stored hstored
      cases hstored
      exact ⟨rfl, fun hbase => by rw [FileSystem.setData_self, hencoded hbase]⟩
  | false =>
      rw [FileSystem.eq_of_fails hrenamed rfl]
      refine ⟨KeepsBases.refl files, ?_⟩
      apply ensures_clean_query hclean (by simp) rfl
      intro found hfound
      cases found with
      | false => exact keeps_closeOrExit hclean storesAs_none
      | true =>
          have hstores : StoresAs build bases location subdirectory buffer
              (some (build.computeHash buffer)) files :=
            storesAs_of_isSome hsound hnamed (FileSystem.fileExists_succeeded hfound)
          apply ensures_clean hclean (by simp)
          intro removed files'' hremoved
          cases removed with
          | false =>
              rw [FileSystem.eq_of_fails hremoved rfl]
              exact ⟨KeepsBases.refl files, ensures_done storesAs_none⟩
          | true =>
              rw [FileSystem.remove_succeeded hremoved]
              exact ⟨keepsBases_temporary hframed,
                keeps_closeOrExit hclean hstores.setData_temporary⟩

/-- A block is stored on a tier under the hash of its content; it is written only if it is
not found there. -/
theorem keeps_storeBlockOn (hclean : FailsCleanly answers) (hsound : build.Sound)
    (hnamed : files.BasesNamed build bases)
    (hwrites : ∀ files' : FileSystem Hash, files.KeepsBases build bases framed files' →
      answers (.fileExists (storage.tierFile build (build.computeHash buffer) onStash)) files'
        false files' →
      WritesTemporaries answers build bases framed storage buffer
        (if onStash then storage.stashDirectory else storage.baseDirectory) block)
    {preComputedHash : Option Hash}
    (hname : preComputedHash.getD (build.computeHash buffer) = build.computeHash buffer) :
    (keepingBasesUnder answers build bases framed).ensures
      (storeBlockOn build storage buffer true block onStash preComputedHash)
      (fun result _ files' => StoresAs build bases
        (if onStash then storage.stashDirectory else storage.baseDirectory)
        (build.prefixIndex (build.computeHash buffer) % numSubdirs) buffer result files')
      owned files := by
  unfold storeBlockOn
  rw [hname]
  apply Contract.ensures_bind_of (ensures_keepsBases (keeps_getBlocksSubdirectory hclean))
  rintro directory owned₁ files₁ ⟨⟨hdirectory, -⟩, hkeeps₁⟩
  obtain ⟨hlocation, hsubdirectory, -⟩ := DataFile.block.inj hdirectory
  rw [hlocation, hsubdirectory]
  have hnamed₁ := (hkeeps₁.named hnamed).1
  apply Contract.ensures_bind_of (ensures_keepsBases
    (keeps_createTemporaryUniqueBlock hframed hclean))
  rintro _ owned₂ files₂ ⟨⟨suffix, rfl, hold⟩, hkeeps₂⟩
  have hnamed₂ := (hkeeps₂.named hnamed₁).1
  apply ensures_fallible
  intro found files₃ hanswers
  have hfound := hclean _ (by simp) _ _ _ hanswers
  obtain rfl : files₃ = files₂ := FileSystem.eq_of_query hfound rfl
  refine ⟨KeepsBases.refl _, ?_⟩
  cases found with
  | true =>
      have hstores := storesAs_of_isSome hsound hnamed₂ (FileSystem.fileExists_succeeded hfound)
      apply ensures_clean hclean (by simp)
      intro removed files' hremoved
      cases removed with
      | false =>
          rw [FileSystem.eq_of_fails hremoved rfl]
          exact ⟨KeepsBases.refl _, keeps_closeOrExit hclean storesAs_none⟩
      | true =>
          rw [FileSystem.remove_succeeded hremoved]
          exact ⟨keepsBases_temporary hframed,
            keeps_closeOrExit hclean hstores.setData_temporary⟩
  | false =>
      have hmissing : answers (.fileExists (storage.tierFile build (build.computeHash buffer)
          onStash)) files₃ false files₃ := by
        rw [← hdirectory, hlocation, hsubdirectory]
        exact hanswers
      apply Contract.ensures_bind_of (ensures_keepsBases
        (hwrites _ (hkeeps₁.trans hkeeps₂) hmissing hold))
      rintro status owned₄ files₄ ⟨hwritten, hkeeps₃⟩
      cases status with
      | false => exact ensures_done storesAs_none
      | true =>
          exact keeps_publishTemporary hframed hclean hsound (hkeeps₃.named hnamed₂).1
            (hwritten rfl)

/-- With two tiers a block is stored on both, or no name is returned. -/
theorem keeps_storeBlock (hclean : FailsCleanly answers) (hsound : build.Sound)
    (hnamed : files.BasesNamed build bases)
    (hwrites : ∀ onStash : Bool, WritesTemporaries answers build bases framed storage buffer
      (if onStash then storage.stashDirectory else storage.baseDirectory) block) :
    (keepingBasesUnder answers build bases framed).ensures
      (storeBlock build storage buffer true block)
      (fun result _ files' => StoresAs build bases storage.baseDirectory
        (build.prefixIndex (build.computeHash buffer) % numSubdirs) buffer result files')
      owned files := by
  unfold storeBlock
  cases htier : storage.isMultiTiered with
  | false =>
      exact keeps_storeBlockOn hframed hclean hsound hnamed (fun _ _ _ => hwrites false) rfl
  | true =>
      apply Contract.ensures_bind_of (ensures_keepsBases (keeps_storeBlockOn hframed hclean hsound
        hnamed (fun _ _ _ => hwrites true) rfl))
      rintro result owned' files' ⟨-, hkeeps⟩
      cases result with
      | none => exact ensures_done storesAs_none
      | some stored =>
          exact keeps_storeBlockOn hframed hclean hsound (hkeeps.named hnamed).1
            (fun _ _ _ => hwrites false) rfl

end BlockStorage

end Privateer
