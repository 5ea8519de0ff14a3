import Privateer.Datastore.Object
import Privateer.Datastore.VersionFiles

/-!
# What a session does to the versions of its datastore

A session is live when it is coherent with some contents and its version has a table and a
capacity.  Each constructor starts a live session, and each operation keeps it live, on
consistent files and at whatever moment the process may be killed.
-/

namespace Privateer

variable {Hash : Type} [DecidableEq Hash] {blocks : BlocksDirectory Hash}
variable {targets : Set Path} {grounds : Prop} {files files' : FileSystem Hash}
variable {owned : Set Resource}

open BlocksDirectory (Consistent Develops ensures_versions versions_bind versions_finish
  versions_query versions_call versions_createDirectory versions_writeTextFile
  develops_setMetadata develops_setText)

/-! ## Block storages -/

namespace BlockStorage

variable {stashPath : Path}

theorem versions_prepareStashDirectory
    (howned : ∀ version ∈ targets, Resource.version version ∈ owned) (hstash : stashPath ≠ []) :
    (blocks.versions targets grounds).ensures (prepareStashDirectory stashPath)
      (fun _ owned' files' => owned' = owned ∧ files' = files.setDirectory (.path stashPath))
      owned files := by
  unfold prepareStashDirectory
  simp only [if_neg hstash, Program.request_bind]
  apply versions_query (fun _ => rfl) rfl
  by_cases hdirectory : files.directories (.path stashPath)
  · rw [if_pos hdirectory]
    exact versions_finish ⟨rfl, (FileSystem.setDirectory_of_directories hdirectory).symm⟩
  · rw [if_neg hdirectory]
    exact versions_createDirectory howned (versions_finish ⟨rfl, rfl⟩)

/-- A blocks directory gets its granularity when it is created. -/
theorem versions_create (howned : ∀ version ∈ targets, Resource.version version ∈ owned)
    (hconsistent : blocks.Consistent files) (hstash : stashPath ≠ [])
    (hgrounds : grounds ∨ files.directories (.path blocks.location)) :
    (blocks.versions targets grounds).ensures
      (create blocks.location stashPath blocks.blockSize : StorageProgram Hash _)
      (fun storage owned' files' =>
        storage = initial blocks.location stashPath blocks.blockSize ∧ owned' = owned ∧
          files' = storageFiles files blocks.location stashPath blocks.blockSize)
      owned files := by
  unfold create
  apply versions_bind (versions_prepareStashDirectory howned hstash)
  rintro _ _ files₁ ⟨rfl, rfl⟩ hdevelops
  have hprepared := hdevelops.consistent hconsistent
  have hgrounds' := hgrounds.imp_right (hdevelops.tolerates.directories _)
  unfold storageFiles
  generalize files.setDirectory (.path stashPath) = prepared
    at hprepared hgrounds' ⊢
  simp only [Program.request_bind]
  apply versions_query (fun _ => rfl) rfl
  by_cases hdirectory : prepared.directories (.path blocks.location)
  · rw [if_pos hdirectory, if_pos hdirectory]
    exact versions_finish ⟨rfl, rfl, rfl⟩
  · rw [if_neg hdirectory, if_neg hdirectory]
    have hmissing : prepared.texts (.granularity blocks.location) = none := by
      by_contra htext
      exact hdirectory (hprepared.grounded htext)
    apply versions_createDirectory howned
    have hcreated := prepared.setDirectory_self (.path blocks.location)
    change (blocks.versions targets grounds).ensures (writeTextFile (.granularity blocks.location)
      (.number blocks.blockSize) >>= fun _ => .finish _) _ _ _
    apply versions_bind (versions_writeTextFile howned hcreated ?_ ?_)
    · rintro _ _ files₂ ⟨rfl, rfl⟩ -
      exact versions_finish ⟨rfl, rfl, rfl⟩
    · intro text htext
      rw [show (prepared.setDirectory (.path blocks.location)).texts _ = _ from hmissing] at htext
      cases htext
    · exact fun _ => ⟨hgrounds'.resolve_right hdirectory, hcreated, rfl⟩

/-- A storage that is opened uses the recorded block size. -/
theorem versions_open (howned : ∀ version ∈ targets, Resource.version version ∈ owned)
    (hconsistent : blocks.Consistent files) (hstash : stashPath ≠ []) :
    (blocks.versions targets grounds).ensures
      («open» blocks.location stashPath : StorageProgram Hash _)
      (fun storage owned' files' =>
        storage = initial blocks.location stashPath blocks.blockSize ∧ owned' = owned ∧
          files' = files.setDirectory (.path stashPath))
      owned files := by
  unfold «open»
  apply versions_bind (versions_prepareStashDirectory howned hstash)
  rintro _ _ files₁ ⟨rfl, rfl⟩ hdevelops
  have hprepared := hdevelops.consistent hconsistent
  generalize files.setDirectory (.path stashPath) = prepared at hprepared
  simp only [Program.request_bind]
  apply versions_query (fun _ => rfl) rfl
  by_cases hdirectory : prepared.directories (.path blocks.location)
  · rw [if_pos hdirectory]
    apply versions_query (fun _ => rfl) rfl
    split
    · rename_i blockGranularity htext
      cases hprepared.granularity _ htext
      exact versions_finish ⟨rfl, rfl, rfl⟩
    · trivial
  · rw [if_neg hdirectory]
    trivial

end BlockStorage

/-! ## The files of a version -/

section VersionFiles

variable {version : Path} {capacity : ℕ}

theorem versions_versionCapacity :
    (blocks.versions targets grounds).ensures (versionCapacity version)
      (fun capacity owned' files' =>
        files.texts (.capacity version) = some (some (.number capacity)) ∧ owned' = owned ∧
          files' = files)
      owned files := by
  unfold versionCapacity
  simp only [Program.request_bind]
  apply versions_query (fun _ => rfl) rfl
  split
  · rename_i capacity htext
    exact versions_finish ⟨htext, rfl, rfl⟩
  · trivial

theorem versions_versionBlocksPath (hconsistent : blocks.Consistent files) :
    (blocks.versions targets grounds).ensures (versionBlocksPath version)
      (fun path owned' files' => path = blocks.location ∧ owned' = owned ∧ files' = files)
      owned files := by
  unfold versionBlocksPath
  simp only [Program.request_bind]
  apply versions_query (fun _ => rfl) rfl
  split
  · rename_i path htext
    cases hconsistent.location version _ htext
    exact versions_finish ⟨rfl, rfl, rfl⟩
  · rename_i value htext
    cases hconsistent.location version _ htext
  · trivial

/-- The two text files of a version whose table is there and fits. -/
theorem versions_writeTextFiles {A : Type} {next : StorageProgram Hash A}
    {post : A → Set Resource → FileSystem Hash → Prop}
    (howned : ∀ version ∈ targets, Resource.version version ∈ owned) (hversion : version ∈ targets)
    (hdirectory : files.directories (.path version)) {table : List Hash}
    (hpath : files.texts (.blocksPath version) = none)
    (hcapacity : files.texts (.capacity version) = none)
    (hlength : table.length ≤ capacity / blocks.blockSize)
    (hnext : (blocks.versions targets grounds).ensures next post owned
      (files.writeVersion version table blocks.location capacity)) :
    (blocks.versions targets grounds).ensures
      (do
        writeTextFile (.blocksPath version) (.path blocks.location)
        writeTextFile (.capacity version) (.number capacity)
        next)
      post owned (files.setMetadata version (some table)) := by
  let created := files.setMetadata version (some table)
  have htable : created.metadata version = some table := FileSystem.setMetadata_self _ _ _
  have hpathSuits : blocks.Suits targets grounds created (.blocksPath version)
      (.path blocks.location) :=
    ⟨hversion, by rw [htable]; rfl, rfl⟩
  have hcapacitySuits : blocks.Suits targets grounds created (.capacity version)
      (.number capacity) := by
    refine ⟨hversion, by rw [htable]; rfl, ?_⟩
    intro entries number hentries hnumber
    cases hnumber
    cases htable.symm.trans hentries
    exact hlength
  have hcreatedPath : ∀ text, created.texts (.blocksPath version) ≠ some (some text) := by
    intro text htext
    rw [show created.texts _ = _ from hpath] at htext
    cases htext
  have hcreatedCapacity : ∀ text, (created.setText (.blocksPath version)
      (some (some (.path blocks.location)))).texts (.capacity version) ≠ some (some text) := by
    intro text htext
    rw [FileSystem.setText_of_ne _ (by simp), show created.texts _ = _ from hcapacity] at htext
    cases htext
  apply versions_bind (versions_writeTextFile howned hdirectory hcreatedPath hpathSuits)
  rintro _ _ files₁ ⟨rfl, rfl⟩ -
  apply versions_bind
    (versions_writeTextFile howned hdirectory hcreatedCapacity hcapacitySuits.setText)
  rintro _ _ files₂ ⟨rfl, rfl⟩ -
  exact hnext

/-- The three files of a version that was not there. -/
theorem versions_createMetadataFiles
    (howned : ∀ version ∈ targets, Resource.version version ∈ owned) (hversion : version ∈ targets)
    (hconsistent : blocks.Consistent files) (hdirectory : files.directories (.path version))
    (hgrounds : grounds ∨ files.directories (.path blocks.location)) :
    (blocks.versions targets grounds).ensures (createMetadataFiles version blocks.location capacity)
      (fun _ owned' files' => owned' = owned ∧
        files' = files.writeVersion version [] blocks.location capacity)
      owned files := by
  unfold createMetadataFiles
  simp only [Program.request_bind]
  cases htable : files.metadata version with
  | some table =>
      have hanswer : files.answer (.openMetadata version true true) = (false, files) := by
        simp [FileSystem.answer, htable]
      apply versions_query (fun _ => rfl) hanswer
      trivial
  | none =>
      have hanswer : files.answer (.openMetadata version true true) =
          (true, files.setMetadata version (some [])) := by
        simp [FileSystem.answer, htable, hdirectory]
      obtain ⟨hcapacity, hpath⟩ := hconsistent.untouched version htable
      apply versions_call howned (fun _ => rfl) hanswer rfl rfl
        (develops_setMetadata hversion hdirectory
          (fun name hname => absurd hname List.not_mem_nil) (fun _ _ => Nat.zero_le _)
          (hgrounds.imp_right fun hlocation _ => hlocation))
      have hlength : ([] : List Hash).length ≤ capacity / blocks.blockSize := Nat.zero_le _
      have hwritten : (blocks.versions targets grounds).ensures (.finish ())
          (fun _ owned' files' => owned' = owned ∧
            files' = files.writeVersion version [] blocks.location capacity)
          owned (files.writeVersion version [] blocks.location capacity) :=
        versions_finish ⟨rfl, rfl⟩
      exact versions_writeTextFiles howned hversion hdirectory hpath hcapacity hlength hwritten

/-- A version is created where none was, or not at all. -/
theorem versions_createVersionMetadata {allowOverwrite : Bool}
    (howned : ∀ version ∈ targets, Resource.version version ∈ owned) (hversion : version ∈ targets)
    (hconsistent : blocks.Consistent files)
    (honce : allowOverwrite = true → files.metadata version = none)
    (hgrounds : grounds ∨ files.directories (.path blocks.location)) :
    (blocks.versions targets grounds).ensures
      (createVersionMetadata version blocks.location capacity allowOverwrite)
      (fun _ owned' files' => owned' = owned ∧
        files' = (files.setDirectory (.path version)).writeVersion version [] blocks.location
          capacity)
      owned files := by
  unfold createVersionMetadata
  simp only [Program.request_bind]
  apply versions_query (fun _ => rfl) rfl
  by_cases hdirectory : files.directories (.path version)
  · rw [if_pos hdirectory]
    rw [FileSystem.setDirectory_of_directories hdirectory]
    cases allowOverwrite with
    | false => trivial
    | true =>
        have hanswer : files.answer (.metadataExists version) = (false, files) := by
          simp [FileSystem.answer, honce rfl]
        exact versions_query (fun _ => rfl) hanswer
          (versions_createMetadataFiles howned hversion hconsistent hdirectory hgrounds)
  · rw [if_neg hdirectory]
    have hdevelops : blocks.Develops targets grounds files (files.setDirectory (.path version)) :=
      (BlocksDirectory.promises_createDirectory (.path version)).develops
    exact versions_createDirectory howned (versions_createMetadataFiles howned hversion
      (hdevelops.consistent hconsistent) (files.setDirectory_self _)
      (hgrounds.imp_right (hdevelops.tolerates.directories _)))

end VersionFiles

/-! ## Sessions that are live -/

namespace SigactionVirtualMemoryManager

/-- A session at work, between two of its operations: it holds its stash files, and its
version is there. -/
structure Live (blocks : BlocksDirectory Hash) (manager : SigactionVirtualMemoryManager Hash)
    (owned : Set Resource) (files : FileSystem Hash) : Prop where
  held : ∃ contents, Held blocks contents manager owned files
  table : (files.metadata manager.versionMetadataPath).isSome
  capacity : files.texts (.capacity manager.versionMetadataPath) =
    some (some (.number manager.regionMaxCapacity))

variable {version stashPath : Path} {capacity maxMemBlocks : ℕ} {readOnly : Bool}

/-- A manager that was just constructed is live when its names stand for something. -/
theorem Live.initial (hpos : 0 < blocks.blockSize) (hnamed : blocks.Named files)
    (htier : pathPrefix blocks.location = pathPrefix stashPath)
    (hdirectory : files.directories (.path stashPath)) {blocksIds : ℕ → Hash}
    (hnames : ∀ block, ∃ content, blocks.Names files (blocksIds block) content)
    (htable : (files.metadata version).isSome)
    (hcapacity : files.texts (.capacity version) = some (some (.number capacity))) :
    Live blocks (SigactionVirtualMemoryManager.initial (VirtualMemoryManagerBase.initial version
      capacity blocks.blockSize maxMemBlocks readOnly
        (BlockStorage.initial blocks.location stashPath blocks.blockSize) blocksIds))
      owned files := by
  choose contents hcontents using hnames
  refine ⟨⟨contents, ?_, ?_⟩, htable, hcapacity⟩
  · exact Coherent.of_backing rfl hpos (VirtualMemoryManagerBase.initial_limit _ _ _ _ _ _ _)
      (VirtualMemoryManagerBase.Backing.initial hnamed htier hdirectory
        (fun block => (hcontents block).length) (fun block _ => hcontents block) _ _ _)
  · rintro _ ⟨block, uuid, huuid, -⟩
    cases huuid

/-! ## The constructors -/

/-- What the storage side of a version that is opened starts is live. -/
theorem versions_openBase (hpos : 0 < blocks.blockSize)
    (howned : ∀ version ∈ targets, Resource.version version ∈ owned)
    (hconsistent : blocks.Consistent files) (hstash : stashPath ≠ [])
    (htier : pathPrefix blocks.location = pathPrefix stashPath) :
    (blocks.versions targets grounds).ensures
      (VirtualMemoryManagerBase.open blocks.build version stashPath maxMemBlocks readOnly)
      (fun base owned' files' =>
        Live blocks (SigactionVirtualMemoryManager.initial base) owned' files' ∧
          base.versionMetadataPath = version ∧ owned' = owned ∧
            files' = files.setDirectory (.path stashPath))
      owned files := by
  unfold VirtualMemoryManagerBase.open
  apply versions_bind (versions_versionBlocksPath hconsistent)
  rintro _ owned₁ files₁ ⟨rfl, hsame₁, hfiles₁⟩ -
  rw [hsame₁, hfiles₁]
  apply versions_bind (BlockStorage.versions_open howned hconsistent hstash)
  rintro _ owned₂ files₂ ⟨rfl, hsame₂, hfiles₂⟩ hdevelops
  rw [hfiles₂] at hdevelops
  rw [hsame₂, hfiles₂]
  have hopened := hdevelops.consistent hconsistent
  have hdirectory := files.setDirectory_self (.path stashPath)
  generalize files.setDirectory (.path stashPath) = opened at hopened hdirectory
  simp only [Program.request_bind]
  cases htable : opened.metadata version with
  | none =>
      have hanswer : opened.answer (.openMetadata version false false) = (false, opened) := by
        simp [FileSystem.answer, htable]
      apply versions_query (fun _ => rfl) hanswer
      trivial
  | some table =>
      have hanswer : opened.answer (.openMetadata version false false) = (true, opened) := by
        simp [FileSystem.answer, htable]
      have hpread : opened.answer (.preadMetadata version table.length) =
          (some table, opened) := by
        simp [FileSystem.answer, htable]
      have hsize : opened.answer (.metadataSize version) = (table.length, opened) := by
        simp [FileSystem.answer, htable]
      apply versions_query (fun _ => rfl) hanswer
      apply versions_query (fun _ => rfl) hsize
      apply versions_bind versions_versionCapacity
      rintro capacity owned₃ files₃ ⟨hcapacity, hsame₃, hfiles₃⟩ -
      rw [hsame₃, hfiles₃]
      apply versions_query (fun _ => rfl) rfl
      by_cases hzero : capacity = 0
      · simp only [hzero, ne_eq, not_true_eq_false, decide_false, Bool.false_eq_true, if_false]
        trivial
      · simp only [hzero, ne_eq, not_false_eq_true, decide_true, if_true]
        apply versions_query (fun _ => rfl) hpread
        have hlength : table.length ≤ capacity /
            (BlockStorage.initial blocks.location stashPath blocks.blockSize :
              BlockStorage Hash).blockGranularity :=
          hopened.length_le version table capacity htable hcapacity
        simp only [if_pos hlength]
        exact versions_finish ⟨Live.initial hpos hopened.named htier hdirectory
          (BlocksDirectory.exists_names_getD (hopened.entries version table htable))
          (by rw [htable]; rfl) hcapacity, rfl, rfl, rfl⟩

/-- A version that is opened starts a live session. -/
theorem versions_open (hpos : 0 < blocks.blockSize)
    (howned : ∀ version ∈ targets, Resource.version version ∈ owned)
    (hconsistent : blocks.Consistent files) (hstash : stashPath ≠ [])
    (htier : pathPrefix blocks.location = pathPrefix stashPath) :
    (blocks.versions targets grounds).ensures
      («open» blocks.build version stashPath maxMemBlocks readOnly)
      (fun manager owned' files' => Live blocks manager owned' files' ∧
        manager.versionMetadataPath = version ∧ files' = files.setDirectory (.path stashPath))
      owned files := by
  apply versions_bind (versions_openBase hpos howned hconsistent hstash htier)
  rintro base owned' files' ⟨hlive, hversion, -, hfiles⟩ -
  exact versions_finish ⟨hlive, hversion, hfiles⟩

/-- A version that is created starts a live session. -/
theorem versions_create (hpos : 0 < blocks.blockSize) {regionSize : ℕ} {allowOverwrite : Bool}
    (howned : ∀ version ∈ targets, Resource.version version ∈ owned) (hversion : version ∈ targets)
    (hconsistent : blocks.Consistent files) (hstash : stashPath ≠ [])
    (htier : pathPrefix blocks.location = pathPrefix stashPath)
    (honce : allowOverwrite = true → files.metadata version = none)
    (hgrounds : grounds ∨ files.directories (.path blocks.location)) :
    (blocks.versions targets grounds).ensures
      (create blocks.build regionSize blocks.blockSize maxMemBlocks version blocks.location
        stashPath allowOverwrite)
      (fun manager owned' files' => Live blocks manager owned' files' ∧
        manager.versionMetadataPath = version)
      owned files := by
  unfold SigactionVirtualMemoryManager.create VirtualMemoryManagerBase.create
  generalize (if regionSize % blocks.blockSize ≠ 0 ∧ regionSize ≠ 0 then
    (regionSize / blocks.blockSize + 1) * blocks.blockSize else regionSize) = capacity
  simp only [Program.bind_assoc]
  apply versions_bind (versions_createVersionMetadata howned hversion hconsistent honce hgrounds)
  rintro _ owned₁ files₁ ⟨hsame₁, hfiles₁⟩ hdevelops₁
  let created := (files.setDirectory (.path version)).writeVersion version [] blocks.location
    capacity
  rw [hfiles₁] at hdevelops₁
  rw [hsame₁, hfiles₁]
  have hcreated : blocks.Consistent created := hdevelops₁.consistent hconsistent
  apply versions_bind (BlockStorage.versions_create howned hcreated hstash
    (hgrounds.imp_right (hdevelops₁.tolerates.directories _)))
  rintro _ owned₂ files₂ ⟨rfl, hsame₂, hfiles₂⟩ hdevelops₂
  rw [hfiles₂] at hdevelops₂
  rw [hsame₂, hfiles₂]
  have hprepared := hdevelops₂.consistent hcreated
  have htable : (storageFiles created blocks.location stashPath blocks.blockSize).metadata
      version = some [] :=
    (congrFun metadata_storageFiles _).trans FileSystem.metadata_writeVersion
  have hcapacity : (storageFiles created blocks.location stashPath blocks.blockSize).texts
      (.capacity version) = some (some (.number capacity)) :=
    (texts_storageFiles_of_ne (by simp)).trans FileSystem.capacity_writeVersion
  have hdirectory : (storageFiles created blocks.location stashPath
      blocks.blockSize).directories (.path stashPath) := stashDirectory_storageFiles
  simp only [Program.request_bind]
  apply versions_query (fun _ => rfl) rfl
  by_cases hzero : capacity = 0
  · simp only [hzero, ne_eq, not_true_eq_false, decide_false, Bool.false_eq_true, if_false]
    trivial
  · simp only [hzero, ne_eq, not_false_eq_true, decide_true, if_true]
    exact versions_finish ⟨Live.initial hpos hprepared.named htier hdirectory
      (fun _ => ⟨_, .inl ⟨rfl, rfl⟩⟩) (by rw [htable]; rfl) hcapacity, rfl⟩

/-! ## Accesses -/

section Operations

variable {manager : SigactionVirtualMemoryManager Hash}

open VirtualMemoryManagerBase (SameSession)

/-- A live session may go on when no version was touched. -/
theorem Live.step (hlive : Live blocks manager owned files)
    {manager' : SigactionVirtualMemoryManager Hash} {owned' : Set Resource}
    (hheld : ∃ contents, Held blocks contents manager' owned' files')
    (hsame : manager.base.SameSession manager'.base) (hpromises : blocks.Promises files files') :
    Live blocks manager' owned' files' where
  held := hheld
  table := by
    rw [hsame.versionMetadataPath, hpromises.metadata]
    exact hlive.table
  capacity := by
    rw [hsame.versionMetadataPath, hsame.regionMaxCapacity, hpromises.texts]
    exact hlive.capacity

/-- The number of the block of an offset in the region. -/
theorem Live.div_lt (hlive : Live blocks manager owned files) {offset : ℕ}
    (hoffset : offset < manager.numBlocks * blocks.blockSize) :
    offset / manager.blockSize < manager.numBlocks := by
  obtain ⟨contents, hheld⟩ := hlive.held
  rw [hheld.coherent.blockSize]
  exact Nat.div_lt_of_lt_mul (by rwa [Nat.mul_comm])

theorem versions_readByte (hsound : blocks.build.Sound) (hlive : Live blocks manager owned files)
    {offset : ℕ} (hoffset : offset < manager.numBlocks * blocks.blockSize) :
    (blocks.versions targets grounds).ensures (readByte blocks.build manager offset)
      (fun result owned' files' => Live blocks result.2 owned' files' ∧
        manager.base.SameSession result.2.base)
      owned files := by
  obtain ⟨contents, hheld⟩ := hlive.held
  apply Contract.ensures_mono (ensures_versions
    (ensures_readByte hsound hheld (hlive.div_lt hoffset) fun _ => trivial))
  rintro result owned' files' ⟨⟨hheld', -, hsame⟩, hpromises⟩
  exact ⟨hlive.step ⟨contents, hheld'⟩ hsame hpromises, hsame⟩

theorem versions_writeByte (hsound : blocks.build.Sound) (hlive : Live blocks manager owned files)
    {offset : ℕ} (hoffset : offset < manager.numBlocks * blocks.blockSize) (byte : Byte) :
    (blocks.versions targets grounds).ensures (writeByte blocks.build manager offset byte)
      (fun written owned' files' => Live blocks written owned' files' ∧
        manager.base.SameSession written.base)
      owned files := by
  obtain ⟨contents, hheld⟩ := hlive.held
  apply Contract.ensures_mono (ensures_versions
    (ensures_writeByte hsound hheld (hlive.div_lt hoffset) byte fun _ => trivial))
  rintro written owned' files' ⟨⟨hheld', hsame⟩, hpromises⟩
  exact ⟨hlive.step ⟨_, hheld'⟩ hsame hpromises, hsame⟩

/-! ## Commits -/

/-- The names of the region may be written over the start of a table that they fit in. -/
theorem versions_updateMetadata {presentBlocks : Finset ℕ}
    {base : VirtualMemoryManagerBase Hash} {table : List Hash}
    (howned : ∀ version ∈ targets, Resource.version version ∈ owned)
    (hversion : base.versionMetadataPath ∈ targets) (hconsistent : blocks.Consistent files)
    (htable : files.metadata base.versionMetadataPath = some table)
    (hnames : ∀ block < VirtualMemoryManagerBase.occupiedBlocks presentBlocks,
      ∃ content, blocks.Names files (base.blocksIds block) content)
    (hfits : ∀ capacity, files.texts (.capacity base.versionMetadataPath) =
      some (some (.number capacity)) →
        VirtualMemoryManagerBase.occupiedBlocks presentBlocks ≤ capacity / blocks.blockSize) :
    (blocks.versions targets grounds).ensures (base.updateMetadata presentBlocks)
      (fun _ owned' files' => owned' = owned ∧
        files' = files.setMetadata base.versionMetadataPath (some (overwrite
          ((List.range (VirtualMemoryManagerBase.occupiedBlocks presentBlocks)).map
            base.blocksIds) table)))
      owned files := by
  unfold VirtualMemoryManagerBase.updateMetadata
  by_cases hempty : presentBlocks = ∅
  · have hoccupied : VirtualMemoryManagerBase.occupiedBlocks presentBlocks = 0 := by
      rw [VirtualMemoryManagerBase.occupiedBlocks, if_pos hempty]
    rw [if_pos hempty, hoccupied]
    refine versions_finish ⟨rfl, ?_⟩
    exact (FileSystem.setMetadata_eq_self htable).symm
  · have hopen : files.answer (.openMetadata base.versionMetadataPath false false) =
        (true, files) := by
      simp [FileSystem.answer, htable]
    let names := (List.range (VirtualMemoryManagerBase.occupiedBlocks presentBlocks)).map
      base.blocksIds
    have hwrite : files.answer (.pwriteMetadata base.versionMetadataPath names) =
        (some names.length, files.setMetadata base.versionMetadataPath
          (some (overwrite names table))) := by
      simp [FileSystem.answer, htable]
    have hdevelops : blocks.Develops targets grounds files
        (files.setMetadata base.versionMetadataPath (some (overwrite names table))) := by
      refine develops_setMetadata hversion
        (hconsistent.housed _ (by rw [htable]; rfl)) ?_ ?_
          (.inr fun hlocated => hlocated _ (by rw [htable]; rfl))
      · intro name hname
        rcases mem_overwrite hname with hnew | hold
        · obtain ⟨block, hblock, rfl⟩ := List.mem_map.mp hnew
          exact hnames block (List.mem_range.mp hblock)
        · exact hconsistent.entries _ table htable name hold
      · intro capacity hcapacity
        rw [length_overwrite, List.length_map, List.length_range]
        exact max_le (hfits capacity hcapacity)
          (hconsistent.length_le _ table capacity htable hcapacity)
    simp only [if_neg hempty, Program.request_bind]
    apply versions_query (fun _ => rfl) hopen
    apply versions_call howned (fun _ => rfl) hwrite rfl rfl hdevelops
    exact versions_query (fun _ => rfl) rfl (versions_finish ⟨rfl, rfl⟩)

/-- A commit names blocks that are there, and writes the table of its version only. -/
theorem versions_msync (hsound : blocks.build.Sound) {contents : ℕ → List Byte}
    {table : List Hash} (howned : ∀ version ∈ targets, Resource.version version ∈ owned)
    (hversion : manager.versionMetadataPath ∈ targets) (hconsistent : blocks.Consistent files)
    (hheld : Held blocks contents manager owned files)
    (htable : files.metadata manager.versionMetadataPath = some table)
    (hfits : ∀ capacity, files.texts (.capacity manager.versionMetadataPath) =
      some (some (.number capacity)) → manager.numBlocks ≤ capacity / blocks.blockSize)
    (schedule : MsyncSchedule) :
    (blocks.versions targets grounds).ensures (msync blocks.build manager schedule)
      (fun committed owned' files' => Held blocks contents committed owned' files' ∧
        manager.base.SameSession committed.base ∧ owned ⊆ owned' ∧
          files'.texts = files.texts ∧
            (∀ directory, files.directories directory → files'.directories directory) ∧
              ∃ names : List Hash, names.length ≤ manager.numBlocks ∧
                files'.metadata = Function.update files.metadata manager.versionMetadataPath
                  (some (overwrite names table)))
      owned files := by
  unfold msync
  apply versions_bind (Contract.ensures_owned (ensures_versions
    (ensures_msyncBlocks hsound hheld schedule)))
  rintro committed owned₁ files₁ ⟨⟨⟨hcommitted, hsame, hpresent, hdirty, hstash⟩, hpromises⟩,
    hsubset⟩ -
  have hcoherent := hcommitted.coherent
  have hoccupied : committed.occupiedBlocks ≤ committed.numBlocks :=
    VirtualMemoryManagerBase.occupiedBlocks_le hcoherent.residency.resident_lt
  have htable₁ : files₁.metadata committed.versionMetadataPath = some table := by
    rw [hsame.versionMetadataPath, hpromises.metadata]
    exact htable
  have hnames : ∀ block < committed.occupiedBlocks,
      ∃ content, blocks.Names files₁ (committed.blocksIds block) content :=
    fun block hblock => ⟨_, hcoherent.names hdirty hstash (hblock.trans_le hoccupied)⟩
  have hfits₁ : ∀ capacity, files₁.texts (.capacity committed.versionMetadataPath) =
      some (some (.number capacity)) → committed.occupiedBlocks ≤ capacity / blocks.blockSize := by
    intro capacity hcapacity
    rw [hsame.versionMetadataPath, hpromises.texts] at hcapacity
    exact hoccupied.trans (hsame.numBlocks.le.trans (hfits capacity hcapacity))
  apply versions_bind (versions_updateMetadata
    (fun version hmember => hsubset (howned version hmember))
    (hsame.versionMetadataPath ▸ hversion) (hconsistent.keep hpromises) htable₁ hnames hfits₁)
  rintro _ owned₂ files₂ ⟨hsame₂, hfiles₂⟩ -
  rw [hsame₂, hfiles₂]
  refine versions_finish ⟨⟨hcoherent.of_data_eq (fun _ h => h) rfl rfl, hcommitted.owned⟩, hsame,
    hsubset, hpromises.texts, hpromises.directories,
    (List.range committed.occupiedBlocks).map committed.blocksIds, ?_, ?_⟩
  · rw [List.length_map, List.length_range, ← hsame.numBlocks]
    exact hoccupied
  · rw [FileSystem.setMetadata, hsame.versionMetadataPath, hpromises.metadata]
    rfl

/-- A live session commits and stays live. -/
theorem Live.versions_msync (hsound : blocks.build.Sound) (hlive : Live blocks manager owned files)
    (howned : ∀ version ∈ targets, Resource.version version ∈ owned)
    (hversion : manager.versionMetadataPath ∈ targets) (hconsistent : blocks.Consistent files)
    (schedule : MsyncSchedule) :
    (blocks.versions targets grounds).ensures (msync blocks.build manager schedule)
      (fun committed owned' files' => Live blocks committed owned' files' ∧
        manager.base.SameSession committed.base)
      owned files := by
  obtain ⟨contents, hheld⟩ := hlive.held
  obtain ⟨table, htable⟩ := Option.isSome_iff_exists.mp hlive.table
  have hfits : ∀ capacity, files.texts (.capacity manager.versionMetadataPath) =
      some (some (.number capacity)) → manager.numBlocks ≤ capacity / blocks.blockSize := by
    intro capacity hcapacity
    cases hlive.capacity.symm.trans hcapacity
    exact (congrArg (manager.regionMaxCapacity / ·) hheld.coherent.blockSize).le
  apply Contract.ensures_mono (SigactionVirtualMemoryManager.versions_msync hsound howned hversion
    hconsistent hheld htable hfits schedule)
  rintro committed owned' files' ⟨hheld', hsame, -, htexts, -, names, -, hmetadata⟩
  refine ⟨⟨⟨contents, hheld'⟩, ?_, ?_⟩, hsame⟩
  · rw [hsame.versionMetadataPath, hmetadata, Function.update_self]
    rfl
  · rw [hsame.versionMetadataPath, hsame.regionMaxCapacity, htexts]
    exact hlive.capacity

theorem Live.versions_close (hsound : blocks.build.Sound) (hlive : Live blocks manager owned files)
    (howned : ∀ version ∈ targets, Resource.version version ∈ owned)
    (hversion : manager.versionMetadataPath ∈ targets) (hconsistent : blocks.Consistent files)
    (schedule : MsyncSchedule) :
    (blocks.versions targets grounds).ensures (close blocks.build manager schedule)
      (fun _ _ _ => True) owned files := by
  apply versions_bind (hlive.versions_msync hsound howned hversion hconsistent schedule)
  rintro committed owned' files' - -
  exact versions_finish trivial

/-! ## Snapshots -/

/-- A snapshot writes a version that was not there. -/
theorem versions_takeSnapshot (hsound : blocks.build.Sound)
    (hlive : Live blocks manager owned files) {version : Path}
    (howned : ∀ version ∈ targets, Resource.version version ∈ owned) (hversion : version ∈ targets)
    (hconsistent : blocks.Consistent files) (hdirectory : files.directories (.path version))
    (hmissing : files.metadata version = none) (schedule : MsyncSchedule) :
    (blocks.versions targets grounds).ensures (takeSnapshot blocks.build manager version schedule)
      (fun result owned' files' => Live blocks result.2 owned' files' ∧
        manager.base.SameSession result.2.base)
      owned files := by
  obtain ⟨contents, hheld⟩ := hlive.held
  obtain ⟨hcapacity, hpath⟩ := hconsistent.untouched version hmissing
  have hother : manager.versionMetadataPath ≠ version := by
    intro hsame
    have htable := hlive.table
    rw [hsame, hmissing] at htable
    cases htable
  let opened := files.setMetadata version (some [])
  let redirected := { manager with versionMetadataPath := version }
  have hopen : files.answer (.openMetadata version true false) = (true, opened) := by
    simp [FileSystem.answer, hmissing, hdirectory, opened]
  have hdevelops : blocks.Develops targets grounds files opened :=
    develops_setMetadata hversion hdirectory (fun name hname => absurd hname List.not_mem_nil)
      (fun _ _ => Nat.zero_le _) (.inr fun hlocated => hlocated _ hlive.table)
  have hheld' : Held blocks contents redirected owned opened :=
    ⟨(hheld.coherent.redirect version).of_data_eq (fun _ h => h) rfl rfl, hheld.owned⟩
  have htable : opened.metadata redirected.versionMetadataPath = some [] :=
    FileSystem.setMetadata_self _ _ _
  have hfits : ∀ capacity, opened.texts (.capacity redirected.versionMetadataPath) =
      some (some (.number capacity)) → redirected.numBlocks ≤ capacity / blocks.blockSize := by
    intro capacity htext
    cases hcapacity.symm.trans htext
  unfold takeSnapshot
  simp only [Program.request_bind]
  apply versions_call howned (fun _ => rfl) hopen rfl rfl hdevelops
  apply versions_query (fun _ => rfl) rfl
  apply versions_bind (versions_msync hsound howned hversion (hdevelops.consistent hconsistent)
    hheld' htable hfits schedule)
  rintro committed owned₁ files₁ ⟨hcommitted, hsame, hsubset, htexts, hdirectories, names,
    hlength, hmetadata⟩ -
  have hlocation : committed.blockStorage.baseDirectory = blocks.location :=
    hcommitted.coherent.backing.storage.baseDirectory
  have hblocks : names.length ≤ committed.regionMaxCapacity / blocks.blockSize := by
    have hnum : committed.numBlocks = committed.regionMaxCapacity / blocks.blockSize :=
      congrArg (committed.regionMaxCapacity / ·) hcommitted.coherent.blockSize
    rw [← hnum, hsame.numBlocks]
    exact hlength
  have hnames : files₁ = files₁.setMetadata version (some names) := by
    refine (FileSystem.setMetadata_eq_self ?_).symm
    rw [hmetadata, overwrite_nil]
    exact Function.update_self _ _ _
  have hwritten : files₁.writeVersion version names blocks.location committed.regionMaxCapacity =
      (files₁.setText (.blocksPath version) (some (some (.path blocks.location)))).setText
        (.capacity version) (some (some (.number committed.regionMaxCapacity))) := by
    rw [FileSystem.writeVersion, ← hnames]
  rw [hlocation, hnames]
  apply versions_writeTextFiles (fun version hmember => hsubset (howned version hmember)) hversion
    (hdirectories _ hdirectory) ((congrFun htexts _).trans hpath)
    ((congrFun htexts _).trans hcapacity) hblocks
  rw [hwritten]
  refine versions_finish ⟨⟨⟨contents, ⟨?_, hcommitted.owned⟩⟩, ?_, ?_⟩, rfl,
    hsame.regionMaxCapacity, hsame.blockSize, hsame.maxMemSize, hsame.readOnly,
    hsame.stashDirectory⟩
  · exact (hcommitted.coherent.redirect manager.versionMetadataPath).of_data_eq (fun _ h => h)
      rfl rfl
  · change (files₁.metadata manager.versionMetadataPath).isSome
    rw [hmetadata, Function.update_of_ne hother]
    change ((files.setMetadata version (some [])).metadata _).isSome
    rw [FileSystem.setMetadata_of_ne _ hother]
    exact hlive.table
  · change FileSystem.texts _ (.capacity manager.versionMetadataPath) =
      some (some (.number committed.regionMaxCapacity))
    rw [FileSystem.setText_of_ne _ (by simpa using hother), FileSystem.setText_of_ne _ (by simp),
      htexts, hsame.regionMaxCapacity]
    exact hlive.capacity

/-- A snapshot under any name keeps the session live. -/
theorem versions_snapshot (hsound : blocks.build.Sound)
    (hlive : Live blocks manager owned files) {version : Path}
    (howned : ∀ version ∈ targets, Resource.version version ∈ owned) (hversion : version ∈ targets)
    (hconsistent : blocks.Consistent files) (schedule : MsyncSchedule) :
    (blocks.versions targets grounds).ensures (snapshot blocks.build manager version schedule)
      (fun result owned' files' => Live blocks result.2 owned' files' ∧
        manager.base.SameSession result.2.base)
      owned files := by
  unfold snapshot
  simp only [Program.request_bind]
  apply versions_query (fun _ => rfl) rfl
  by_cases hdirectory : files.directories (.path version)
  · rw [if_pos hdirectory]
    apply versions_query (fun _ => rfl) rfl
    by_cases htable : (files.metadata version).isSome
    · rw [if_pos htable]
      exact versions_finish ⟨hlive, SameSession.refl manager.base⟩
    · rw [if_neg htable]
      exact versions_takeSnapshot hsound hlive howned hversion hconsistent hdirectory
        (Option.not_isSome_iff_eq_none.mp htable) schedule
  · rw [if_neg hdirectory]
    have hmissing : files.metadata version = none := by
      rw [← Option.not_isSome_iff_eq_none]
      exact fun htable => hdirectory (hconsistent.housed version htable)
    have hpromises : blocks.Promises files (files.setDirectory (.path version)) :=
      BlocksDirectory.promises_createDirectory (.path version)
    obtain ⟨contents, hheld⟩ := hlive.held
    have hlive' : Live blocks manager owned (files.setDirectory (.path version)) :=
      hlive.step ⟨contents, hheld.coherent.of_data_eq hpromises.directories rfl rfl, hheld.owned⟩
        (SameSession.refl manager.base) hpromises
    exact versions_createDirectory howned (versions_takeSnapshot hsound hlive' howned hversion
      (hconsistent.keep hpromises) (files.setDirectory_self _) hmissing schedule)

end Operations

end SigactionVirtualMemoryManager

end Privateer
