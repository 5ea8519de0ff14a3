import Privateer.Sigaction.VersionCalls
import Privateer.Storage.CommitEffects

/-!
# Equal datastores

A reader of a datastore sees the directories, texts and tables of its versions and the files
of its blocks; temporary, stash and cached files are no part of it.  Storing some contents
changes what is seen in one way only, whoever stores them and in whatever order: two
datastores that were equal before are equal afterwards.
-/

namespace Privateer

variable {Hash : Type}

namespace BlocksDirectory

/-- No reader can tell the two datastores apart. -/
structure SameDatastore (blocks : BlocksDirectory Hash) (files files' : FileSystem Hash) :
    Prop where
  directories : ∀ path, files'.directories (.path path) = files.directories (.path path)
  texts : files'.texts = files.texts
  metadata : files'.metadata = files.metadata
  stored : ∀ name, files'.data (blocks.blockFile name) = files.data (blocks.blockFile name)

/-- What a datastore becomes when some contents are stored in it and its tables become
`tables`. -/
structure Stores (blocks : BlocksDirectory Hash) (contents : Set (List Byte))
    (tables : Path → Option (List Hash)) (files files' : FileSystem Hash) : Prop where
  directories : ∀ path, files'.directories (.path path) = files.directories (.path path)
  texts : files'.texts = files.texts
  metadata : files'.metadata = tables
  stored : ∀ content ∈ contents,
    blocks.Stored files' (blocks.build.computeHash content) content
  others : ∀ name, (∀ content ∈ contents, name ≠ blocks.build.computeHash content) →
    files'.data (blocks.blockFile name) = files.data (blocks.blockFile name)

variable {blocks : BlocksDirectory Hash} {contents contents' : Set (List Byte)}
variable {tables tables' : Path → Option (List Hash)}
variable {files files' files'' left left' right right' : FileSystem Hash}

/-! ## Equal datastores stay equal -/

theorem SameDatastore.refl (blocks : BlocksDirectory Hash) (files : FileSystem Hash) :
    blocks.SameDatastore files files :=
  ⟨fun _ => rfl, rfl, rfl, fun _ => rfl⟩

/-- The same contents are stored on both sides. -/
theorem SameDatastore.stores (hsame : blocks.SameDatastore left right)
    (hleft : blocks.Stores contents tables left left')
    (hright : blocks.Stores contents tables right right') : blocks.SameDatastore left' right' where
  directories := fun path => by
    rw [hleft.directories, hright.directories, hsame.directories]
  texts := by rw [hleft.texts, hright.texts, hsame.texts]
  metadata := by rw [hleft.metadata, hright.metadata]
  stored := fun name => by
    by_cases hname : ∃ content ∈ contents, name = blocks.build.computeHash content
    · obtain ⟨content, hcontent, rfl⟩ := hname
      rw [(hleft.stored content hcontent).file, (hright.stored content hcontent).file]
    · have hother : ∀ content ∈ contents, name ≠ blocks.build.computeHash content :=
        fun content hcontent hsame => hname ⟨content, hcontent, hsame⟩
      rw [hleft.others name hother, hright.others name hother, hsame.stored]

theorem SameDatastore.setDirectory (hsame : blocks.SameDatastore left right)
    (directory : Directory) :
    blocks.SameDatastore (left.setDirectory directory) (right.setDirectory directory) where
  directories := fun path => by
    by_cases hpath : Directory.path path = directory
    · rw [hpath, FileSystem.setDirectory_self, FileSystem.setDirectory_self]
    · have hkept : ∀ files : FileSystem Hash,
          (files.setDirectory directory).directories (.path path) =
            files.directories (.path path) :=
        fun files => Function.update_of_ne hpath _ _
      rw [hkept, hkept, hsame.directories]
  texts := hsame.texts
  metadata := hsame.metadata
  stored := hsame.stored

theorem SameDatastore.setMetadata (hsame : blocks.SameDatastore left right) (version : Path)
    (entries : Option (List Hash)) :
    blocks.SameDatastore (left.setMetadata version entries)
      (right.setMetadata version entries) where
  directories := hsame.directories
  texts := hsame.texts
  metadata := by rw [FileSystem.setMetadata, FileSystem.setMetadata, hsame.metadata]
  stored := hsame.stored

theorem SameDatastore.setText (hsame : blocks.SameDatastore left right) (file : TextFile)
    (text : Option (Option Text)) :
    blocks.SameDatastore (left.setText file text) (right.setText file text) where
  directories := hsame.directories
  texts := by rw [FileSystem.setText, FileSystem.setText, hsame.texts]
  metadata := hsame.metadata
  stored := hsame.stored

theorem SameDatastore.writeVersion (hsame : blocks.SameDatastore left right) (version : Path)
    (entries : List Hash) (location : Path) (capacity : ℕ) :
    blocks.SameDatastore (left.writeVersion version entries location capacity)
      (right.writeVersion version entries location capacity) :=
  ((hsame.setMetadata _ _).setText _ _).setText _ _

/-! ## Storing contents -/

theorem Stores.refl (blocks : BlocksDirectory Hash) (files : FileSystem Hash) :
    blocks.Stores ∅ files.metadata files files :=
  ⟨fun _ => rfl, rfl, rfl, fun _ hcontent => hcontent.elim, fun _ _ => rfl⟩

/-- What was stored stays when more is stored. -/
theorem Stores.trans (hsound : blocks.build.Sound)
    (hfirst : blocks.Stores contents tables files files')
    (hsecond : blocks.Stores contents' tables' files' files'') :
    blocks.Stores (contents ∪ contents') tables' files files'' where
  directories := fun path => (hsecond.directories path).trans (hfirst.directories path)
  texts := hsecond.texts.trans hfirst.texts
  metadata := hsecond.metadata
  stored := by
    rintro content (hcontent | hcontent)
    · by_cases hmember : content ∈ contents'
      · exact hsecond.stored content hmember
      · have hstored := hfirst.stored content hcontent
        refine ⟨hstored.length, hstored.hash, ?_⟩
        rw [hsecond.others _ fun other hother hsame => hmember ?_, hstored.file]
        rwa [hsound.computeHash_injective hsame]
    · exact hsecond.stored content hcontent
  others := fun name hother => by
    rw [hsecond.others name fun content hcontent => hother content (.inr hcontent)]
    exact hfirst.others name fun content hcontent => hother content (.inl hcontent)

/-- A table is written. -/
theorem Stores.setMetadata (hstores : blocks.Stores contents tables files files') (version : Path)
    (entries : Option (List Hash)) :
    blocks.Stores contents (Function.update tables version entries) files
      (files'.setMetadata version entries) where
  directories := hstores.directories
  texts := hstores.texts
  metadata := by rw [FileSystem.setMetadata, hstores.metadata]
  stored := fun content hcontent =>
    (hstores.stored content hcontent).keep fun _ _ _ hbytes => hbytes
  others := hstores.others

end BlocksDirectory

/-! ## Calls that store blocks -/

/-- The call touches no file of a version, and of the block files those of some names. -/
def Call.StoresOnly (blocks : BlocksDirectory Hash) (names : Set Hash) (call : Call Hash) :
    Prop :=
  call.SparesVersions ∧ (∀ path, call ≠ .createDirectory (.path path)) ∧
    ∀ name ∉ names, call.Leaves (blocks.blockFile name)

variable {blocks : BlocksDirectory Hash} {names : Set Hash}

/-- The call changes no block file at all. -/
theorem Call.storesOnly_of_changes {call : Call Hash} (hspares : call.SparesVersions)
    (hdirectory : ∀ path, call ≠ .createDirectory (.path path))
    (hchanges : ∀ file ∈ call.changes, ∀ name, file ≠ blocks.blockFile name) :
    call.StoresOnly blocks names :=
  ⟨hspares, hdirectory, fun name _ hmember => hchanges _ hmember name rfl⟩

theorem Call.storesOnly_of_nothing {call : Call Hash} (hspares : call.SparesVersions)
    (hdirectory : ∀ path, call ≠ .createDirectory (.path path)) (hchanges : call.changes = []) :
    call.StoresOnly blocks names :=
  storesOnly_of_changes hspares hdirectory fun file hfile => by
    rw [hchanges] at hfile
    exact absurd hfile List.not_mem_nil

/-- The calls with which a block is stored under one of the names, on any tier. -/
theorem BlockStorage.permits_storesOnly {storage : BlockStorage Hash} {name : Hash}
    (hname : name ∈ names) (onStash : Bool) :
    storage.Permits blocks.build (Call.StoresOnly blocks names) name onStash := by
  have htemporary : ∀ {call : Call Hash} {location : Path} {subdirectory index suffix : ℕ},
      call.SparesVersions → (∀ path, call ≠ .createDirectory (.path path)) →
        call.changes = [.temporary location subdirectory index suffix] →
          call.StoresOnly blocks names := fun hspares hdirectory hchanges =>
    Call.storesOnly_of_changes hspares hdirectory fun file hfile name hsame => by
      rw [hchanges, List.mem_singleton, hsame] at hfile
      cases hfile
  have hrename : ∀ index suffix, ∀ other ∉ names, Call.Leaves (blocks.blockFile other)
      (.rename (.temporary (storage.tierDirectory onStash)
        (blocks.build.prefixIndex name % numSubdirs) index suffix)
        (.block (storage.tierDirectory onStash) (blocks.build.prefixIndex name % numSubdirs)
          name)) := by
    intro index suffix other hother hmember
    rcases List.mem_cons.mp hmember with hsame | hsame
    · cases hsame
    · rw [List.mem_singleton] at hsame
      obtain ⟨-, -, rfl⟩ := DataFile.block.inj hsame
      exact hother hname
  exact
    { directoryExists := Call.storesOnly_of_nothing trivial (fun _ h => by cases h) rfl
      createDirectory := Call.storesOnly_of_nothing trivial (fun _ h => by cases h) rfl
      fileExists := Call.storesOnly_of_nothing trivial (fun _ h => by cases h) rfl
      mkstemp := fun _ => Call.storesOnly_of_nothing trivial (fun _ h => by cases h) rfl
      ftruncate := fun _ _ _ => htemporary trivial (fun _ h => by cases h) rfl
      pwrite := fun _ _ _ => htemporary trivial (fun _ h => by cases h) rfl
      rename := fun index suffix =>
        ⟨trivial, (fun _ h => by cases h), hrename index suffix⟩
      remove := fun _ _ => htemporary trivial (fun _ h => by cases h) rfl
      close := Call.storesOnly_of_nothing trivial (fun _ h => by cases h) rfl }

variable [DecidableEq Hash] {files files' : FileSystem Hash} {A : Type}
variable {program : StorageProgram Hash A} {outcome : Outcome A}

/-- No other call makes the directory of a version. -/
theorem FileSystem.directories_answer {call : Call Hash} {path : Path}
    (hcall : call ≠ .createDirectory (.path path)) (files : FileSystem Hash) :
    (files.answer call).2.directories (.path path) = files.directories (.path path) := by
  cases call with
  | createDirectory directory =>
      exact Function.update_of_ne (fun hsame => hcall (by rw [hsame])) _ _
  | openFile _ _ | ftruncate _ _ | pwrite _ _ | rename _ _ | remove _ | mkstemp _ _ _
  | copyFile _ _ | openMetadata _ _ _ | pwriteMetadata _ _ | removeMetadata _
  | copyMetadata _ _ | openText _ | writeText _ _ | copyText _ _ =>
      simp only [answer]
      (repeat' split) <;> rfl
  | _ => rfl

/-- What a program does that stores blocks only. -/
theorem BlocksDirectory.stores_of_run {contents : Set (List Byte)}
    (hcalls : program.CallsOnly (Call.StoresOnly blocks (blocks.build.computeHash '' contents)))
    (hrun : program.run FileSystem.answer files = (outcome, files'))
    (hstored : ∀ content ∈ contents,
      blocks.Stored files' (blocks.build.computeHash content) content) :
    blocks.Stores contents files.metadata files files' := by
  have hversions : files.KeepsVersions files' := by
    have hkept : files.KeepsVersions (program.run FileSystem.answer files).2 :=
      hcalls.run_keeps (fun call between hcall hbetween =>
        hbetween.trans (FileSystem.keepsVersions_answer hcall.1 between)) (.refl files)
    rwa [hrun] at hkept
  refine ⟨fun path => ?_, hversions.texts, hversions.metadata, hstored, fun name hother => ?_⟩
  · have hkept : (program.run FileSystem.answer files).2.directories (.path path) =
        files.directories (.path path) :=
      hcalls.run_keeps (fun call between hcall hbetween =>
        (FileSystem.directories_answer (hcall.2.1 path) between).trans hbetween) rfl
    rwa [hrun] at hkept
  · apply data_run_of_leaves (Settles.lasts_blockFile name) (hcalls.mono fun call hcall => ?_) hrun
    refine hcall.2.2 name ?_
    rintro ⟨content, hcontent, rfl⟩
    exact hother content hcontent rfl

end Privateer
