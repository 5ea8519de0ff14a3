import Privateer.Datastore.Object

/-!
# A `create` that fails

The constructor for a new region removes the table of a version that it may overwrite,
and writes the three files of the new one, before it sets up the block storage and maps
the region.  This module follows a call of `create` over a version that is there, to each
of its exits, and says when the version still denotes what it did.
-/

namespace Privateer

variable {Hash : Type}

/-- The replies by which a system call refuses what a constructor asks for. -/
def Call.Refuses : (call : Call Hash) → Reply call → Prop
  | .createDirectory _, reply => reply = false
  | .removeMetadata _, reply => reply = false
  | .openMetadata _ _ _, reply => reply = false
  | .mmapRegion _, reply => reply = false
  | _, _ => False

/-! ## The files that a version is read from -/

namespace FileSystem

/-- Only directories have been added. -/
structure GainsDirectories (files files' : FileSystem Hash) : Prop where
  data : files'.data = files.data
  metadata : files'.metadata = files.metadata
  texts : files'.texts = files.texts
  directories : ∀ directory, files.directories directory → files'.directories directory

theorem GainsDirectories.refl (files : FileSystem Hash) : files.GainsDirectories files :=
  ⟨rfl, rfl, rfl, fun _ => id⟩

theorem GainsDirectories.setDirectory {files files' : FileSystem Hash}
    (hgains : files.GainsDirectories files') (directory : Directory) :
    files.GainsDirectories (files'.setDirectory directory) where
  data := hgains.data
  metadata := hgains.metadata
  texts := hgains.texts
  directories := fun other hother => directories_setDirectory (hgains.directories other hother)

variable [DecidableEq Hash]

/-- A call is answered, or it is refused and changes nothing. -/
def AnswersOrRefuses (call : Call Hash) (files : FileSystem Hash) (reply : Reply call)
    (files' : FileSystem Hash) : Prop :=
  files.answer call = (reply, files') ∨ (call.Refuses reply ∧ files' = files)

theorem answersOrRefuses_answer (call : Call Hash) (files : FileSystem Hash) :
    AnswersOrRefuses call files (files.answer call).1 (files.answer call).2 :=
  .inl rfl

end FileSystem

section Reading

variable [DecidableEq Hash] {build : Build Hash} {files files' : FileSystem Hash}
variable {version : Path} {table : VersionTable Hash}

omit [DecidableEq Hash] in
/-- What a version that can be read is read from. -/
theorem readVersion_eq_some (hread : readVersion files version = some table) :
    files.texts (.blocksPath version) = some (some (.path table.blocksPath)) ∧
      files.texts (.capacity version) = some (some (.number table.capacity)) ∧
        files.metadata version = some table.entries ∧
          files.texts (.granularity table.blocksPath) =
            some (some (.number table.blockSize)) := by
  unfold readVersion at hread
  split at hread
  · rename_i blocksPath capacity entries hpath hcapacity hentries
    split at hread
    · rename_i blockSize hgranularity
      split at hread
      · cases hread
        exact ⟨hpath, hcapacity, hentries, hgranularity⟩
      · cases hread
    · cases hread
  · cases hread

omit [DecidableEq Hash] in
theorem readVersion_of_gainsDirectories (hgains : files.GainsDirectories files') :
    readVersion files' version = readVersion files version := by
  simp only [readVersion, hgains.texts, hgains.metadata]

theorem block_of_gainsDirectories (hgains : files.GainsDirectories files') (block : ℕ) :
    table.block build files' block = table.block build files block := by
  simp only [VersionTable.block, loadName, hgains.data]

omit [DecidableEq Hash] in
/-- The version as it is read once its three files were written anew, without a name. -/
theorem readVersion_writeVersion (hread : readVersion files version = some table)
    (capacity : ℕ) :
    readVersion (files.writeVersion version [] table.blocksPath capacity) version =
      some ⟨table.blocksPath, table.blockSize, capacity, []⟩ := by
  obtain ⟨-, -, -, hgranularity⟩ := readVersion_eq_some hread
  have hkept : (files.writeVersion version [] table.blocksPath capacity).texts
      (.granularity table.blocksPath) = some (some (.number table.blockSize)) := by
    rw [FileSystem.texts_writeVersion_of_ne (by simp) (by simp), hgranularity]
  simp only [readVersion, FileSystem.blocksPath_writeVersion, FileSystem.capacity_writeVersion,
    FileSystem.metadata_writeVersion, hkept, List.length_nil, Nat.zero_le, if_true]

/-- Every block of the version is empty, or holds zeros. -/
def VersionTable.Blank (build : Build Hash) (files : FileSystem Hash)
    (table : VersionTable Hash) : Prop :=
  ∀ block < table.numBlocks,
    table.block build files block = some (List.replicate table.blockSize 0)

/-- Opening the version shows the same capacity and the same contents. -/
def ShowsSame (build : Build Hash) (version : Path) (files files' : FileSystem Hash) : Prop :=
  (readVersion files' version).map VersionTable.capacity =
      (readVersion files version).map VersionTable.capacity ∧
    denotedBlocks build files' version = denotedBlocks build files version

theorem showsSame_of_gainsDirectories (hgains : files.GainsDirectories files') :
    ShowsSame build version files files' := by
  have hblock : ∀ table : VersionTable Hash,
      table.block build files' = table.block build files := fun table =>
    funext fun block => block_of_gainsDirectories hgains block
  simp only [ShowsSame, denotedBlocks, readVersion_of_gainsDirectories hgains, hblock, and_self]

theorem ShowsSame.trans {files'' : FileSystem Hash} (hfirst : ShowsSame build version files files')
    (hsecond : ShowsSame build version files' files'') : ShowsSame build version files files'' :=
  ⟨hsecond.1.trans hfirst.1, hsecond.2.trans hfirst.2⟩

theorem ShowsSame.symm (hsame : ShowsSame build version files files') :
    ShowsSame build version files' files :=
  ⟨hsame.1.symm, hsame.2.symm⟩

/-- A version without its table cannot be opened. -/
theorem not_showsSame_setMetadata (hread : readVersion files version = some table) :
    ¬ ShowsSame build version files (files.setMetadata version none) := by
  rintro ⟨hcapacity, -⟩
  have hlost : readVersion (files.setMetadata version none) version = none := by
    unfold readVersion
    rw [FileSystem.setMetadata_self]
    split
    · rename_i hnone
      cases hnone
    · rfl
  rw [hlost, hread] at hcapacity
  cases hcapacity

/-- A version that was written anew shows the same if it was blank and as large. -/
theorem showsSame_writeVersion_iff (hread : readVersion files version = some table)
    (capacity : ℕ) :
    ShowsSame build version files (files.writeVersion version [] table.blocksPath capacity) ↔
      table.capacity = capacity ∧ table.Blank build files := by
  have hzeros : ∀ block,
      (VersionTable.mk table.blocksPath table.blockSize capacity []).block build
      (files.writeVersion version [] table.blocksPath capacity) block =
        some (List.replicate table.blockSize 0) := by
    intro block
    simp only [VersionTable.block, VersionTable.name, List.getD_nil, loadName, if_true]
  simp only [ShowsSame, denotedBlocks, readVersion_writeVersion hread, hread, Option.map_some,
    Option.some.injEq]
  constructor
  · rintro ⟨rfl, hblocks⟩
    refine ⟨rfl, fun block hblock => ?_⟩
    have hsame := List.map_inj_left.mp hblocks block (List.mem_range.mpr hblock)
    rw [← hsame, hzeros]
  · rintro ⟨rfl, hblank⟩
    refine ⟨rfl, List.map_inj_left.mpr fun block hblock => ?_⟩
    rw [hzeros, hblank block (List.mem_range.mp hblock)]

end Reading

/-! ## The exits of the constructor -/

section Exits

open FileSystem (AnswersOrRefuses)

variable [DecidableEq Hash] {build : Build Hash} {files files' : FileSystem Hash}
variable {version blocksPath : Path} {capacity : ℕ} {entries : List Hash}
variable {trace : List (Σ call : Call Hash, Reply call)}

/-- An answer of a call that is never refused. -/
theorem answer_of_not_refuses {call : Call Hash} {reply : Reply call}
    (hreply : AnswersOrRefuses call files reply files') (hnever : ¬ call.Refuses reply) :
    files.answer call = (reply, files') :=
  hreply.resolve_right fun hrefused => hnever hrefused.1

/-- A constructor only adds directories while it looks for its stash directory. -/
theorem prepareStashDirectory_gains {stashDirectory : Path} {outcome : Outcome Unit}
    (hruns : (BlockStorage.prepareStashDirectory stashDirectory).RunsAlong AnswersOrRefuses
      files trace outcome files') : files.GainsDirectories files' := by
  have hcalls : (BlockStorage.prepareStashDirectory stashDirectory :
      StorageProgram Hash Unit).CallsOnly
      fun call => ∃ directory, call = .directoryExists directory ∨
        call = .createDirectory directory := by
    unfold BlockStorage.prepareStashDirectory
    split
    · trivial
    · refine ⟨⟨_, .inl rfl⟩, fun exists? => ?_⟩
      cases exists? with
      | true => trivial
      | false =>
          refine ⟨⟨_, .inr rfl⟩, fun created => ?_⟩
          cases created with
          | true => trivial
          | false => trivial
  refine hcalls.runsTo_keeps ?_ (FileSystem.GainsDirectories.refl files) hruns.runsTo
  rintro call before reply after ⟨directory, rfl | rfl⟩ hgains (hanswer | ⟨-, rfl⟩)
  · cases hanswer
    exact hgains
  · exact hgains
  · cases hanswer
    exact hgains.setDirectory directory
  · exact hgains

/-- With its blocks directory there, a block storage is created without a granularity. -/
theorem create_gains {stashPath : Path} {blockSize : ℕ}
    (hblocks : files.directories (.path blocksPath)) :
    ((BlockStorage.create blocksPath stashPath blockSize :
        StorageProgram Hash (BlockStorage Hash)).ExitsAlong
        AnswersOrRefuses files trace files' → files.GainsDirectories files') ∧
      ∀ storage, (BlockStorage.create blocksPath stashPath blockSize).RunsAlong AnswersOrRefuses
        files trace (.returned storage) files' → files.GainsDirectories files' := by
  constructor
  · intro hexits
    rcases hexits.of_bind with hprepare | ⟨⟨⟩, between, first, second, -, hprepare, hrest⟩
    · exact prepareStashDirectory_gains hprepare.runsAlong
    · have hgains := prepareStashDirectory_gains hprepare
      obtain ⟨exists?, between', rest, -, hanswer | ⟨hrefuses, -⟩, hrest⟩ := hrest
      · rw [FileSystem.answer, hgains.directories _ hblocks] at hanswer
        cases hanswer
        exact hrest.elim
      · exact hrefuses.elim
  · intro storage hruns
    obtain ⟨⟨⟩, between, first, second, -, hprepare, hrest⟩ := hruns.of_bind
    have hgains := prepareStashDirectory_gains hprepare
    rcases hrest with ⟨-, hkilled, -⟩ |
      ⟨exists?, between', rest, -, hanswer | ⟨hrefuses, -⟩, hrest⟩
    · cases hkilled
    · rw [FileSystem.answer, hgains.directories _ hblocks] at hanswer
      cases hanswer
      exact hrest.2.2 ▸ hgains
    · exact hrefuses.elim

/-- What is left once the table is gone: the new one is created, or the process exits. -/
theorem createMetadataFiles_exits (hmetadata : files.metadata version = none)
    (hexits : (createMetadataFiles version blocksPath capacity).ExitsAlong AnswersOrRefuses
      files trace files') :
    files' = files ∧ ⟨.openMetadata version true true, true⟩ ∉ trace := by
  obtain ⟨opened, between, rest, rfl, hanswer, hrest⟩ := hexits
  cases opened with
  | true =>
      -- the two text files are written without a further exit
      obtain ⟨-, -, -, -, -, -, -, -, -, -, -, -, -, -, -, -, -, -, -, -, ⟨⟩⟩ := hrest
  | false =>
      obtain ⟨rfl, rfl⟩ := hrest
      refine ⟨?_, by simp⟩
      rcases hanswer with hanswer | ⟨-, hsame⟩
      · simp only [FileSystem.answer, hmetadata] at hanswer
        split at hanswer
        · cases hanswer
        · exact (congrArg Prod.snd hanswer).symm
      · exact hsame

/-- A version that is there loses its table before the constructor exits, or nothing. -/
theorem createVersionMetadata_exits {allowOverwrite : Bool}
    (hversion : files.directories (.path version))
    (hmetadata : files.metadata version = some entries)
    (hexits : (createVersionMetadata version blocksPath capacity allowOverwrite).ExitsAlong
      AnswersOrRefuses files trace files') :
    (files' = files ∧ ⟨.removeMetadata version, true⟩ ∉ trace) ∨
      (files' = files.setMetadata version none ∧ ⟨.removeMetadata version, true⟩ ∈ trace ∧
        ⟨.openMetadata version true true, true⟩ ∉ trace) := by
  obtain ⟨exists?, between, rest, rfl, hreply, hrest⟩ := hexits
  have hanswer := answer_of_not_refuses hreply id
  rw [FileSystem.answer, hversion] at hanswer
  cases hanswer
  cases allowOverwrite with
  | false =>
      obtain ⟨rfl, rfl⟩ := hrest
      exact .inl ⟨rfl, by simp⟩
  | true =>
      obtain ⟨found, between, rest, rfl, hreply, hrest⟩ := hrest
      have hanswer := answer_of_not_refuses hreply id
      rw [FileSystem.answer, hmetadata] at hanswer
      cases hanswer
      obtain ⟨removed, between, rest, rfl, hanswer, hrest⟩ := hrest
      cases removed with
      | false =>
          obtain ⟨rfl, rfl⟩ := hrest
          refine .inl ⟨?_, by simp⟩
          rcases hanswer with hanswer | ⟨-, hsame⟩
          · simp only [FileSystem.answer, hmetadata] at hanswer
            cases hanswer
          · exact hsame
      | true =>
          rcases hanswer with hanswer | ⟨hrefuses, -⟩
          swap
          · cases hrefuses
          simp only [FileSystem.answer, hmetadata] at hanswer
          cases hanswer
          obtain ⟨rfl, hopen⟩ :=
            createMetadataFiles_exits (FileSystem.setMetadata_self _ _ _) hrest
          exact .inr ⟨rfl, by simp, by simpa using hopen⟩

/-- The two text files are written once the directory is there. -/
theorem writeTextFile_returns {file : TextFile} {text : Text}
    (hdirectory : files.directories file.parent)
    (hruns : (writeTextFile file text).RunsAlong AnswersOrRefuses files trace (.returned ())
      files') : files' = files.setText file (some (some text)) := by
  rcases hruns with ⟨-, hkilled, -⟩ | ⟨⟨⟩, opened, rest, -, hopen, hrest⟩
  · cases hkilled
  rcases hrest with ⟨-, hkilled, -⟩ | ⟨⟨⟩, written, rest', -, hwrite, -, -, rfl⟩
  · cases hkilled
  have hopened := answer_of_not_refuses hopen id
  have hwritten := answer_of_not_refuses hwrite id
  simp only [FileSystem.answer, hdirectory, if_true] at hopened
  cases hopened
  simp only [FileSystem.answer, FileSystem.setText_self] at hwritten
  rw [← (Prod.mk.inj hwritten).2, FileSystem.setText_setText]

/-- A version that was overwritten has three new files. -/
theorem createVersionMetadata_overwrites {allowOverwrite : Bool}
    (hversion : files.directories (.path version))
    (hmetadata : files.metadata version = some entries)
    (hruns : (createVersionMetadata version blocksPath capacity allowOverwrite).RunsAlong
      AnswersOrRefuses files trace (.returned ()) files') :
    files' = files.writeVersion version [] blocksPath capacity ∧
      ⟨.removeMetadata version, true⟩ ∈ trace ∧
        ⟨.openMetadata version true true, true⟩ ∈ trace := by
  rcases hruns with ⟨-, hkilled, -⟩ | ⟨exists?, between, rest, rfl, hreply, hrest⟩
  · cases hkilled
  have hanswer := answer_of_not_refuses hreply id
  rw [FileSystem.answer, hversion] at hanswer
  cases hanswer
  cases allowOverwrite with
  | false => cases hrest.2.1
  | true =>
      rcases hrest with ⟨-, hkilled, -⟩ | ⟨found, between, rest, rfl, hreply, hrest⟩
      · cases hkilled
      have hanswer := answer_of_not_refuses hreply id
      rw [FileSystem.answer, hmetadata] at hanswer
      cases hanswer
      rcases hrest with ⟨-, hkilled, -⟩ | ⟨removed, between, rest, rfl, hreply, hrest⟩
      · cases hkilled
      cases removed with
      | false => cases hrest.2.1
      | true =>
          have hanswer := answer_of_not_refuses hreply (by simp [Call.Refuses])
          simp only [FileSystem.answer, hmetadata] at hanswer
          cases hanswer
          rcases hrest with ⟨-, hkilled, -⟩ | ⟨opened, between, rest, rfl, hreply, hrest⟩
          · cases hkilled
          cases opened with
          | false => cases hrest.2.1
          | true =>
              have hanswer := answer_of_not_refuses hreply (by simp [Call.Refuses])
              have hdirectory : (files.setMetadata version none).directories (.path version) :=
                hversion
              simp only [FileSystem.answer, FileSystem.setMetadata_self, hdirectory,
                Bool.and_self, if_true, FileSystem.setMetadata_setMetadata] at hanswer
              cases hanswer
              refine ⟨?_, by simp, by simp⟩
              have hwrites : (do
                  writeTextFile (.blocksPath version) (.path blocksPath)
                  writeTextFile (.capacity version) (.number capacity) :
                    StorageProgram Hash Unit).RunsAlong AnswersOrRefuses
                      (files.setMetadata version (some [])) rest (.returned ()) files' := hrest
              obtain ⟨⟨⟩, named, first, second, -, hpath, hcapacity⟩ := hwrites.of_bind
              have hnamed : named = (files.setMetadata version (some [])).setText
                  (.blocksPath version) (some (some (.path blocksPath))) :=
                writeTextFile_returns hversion hpath
              subst hnamed
              exact writeTextFile_returns hversion hcapacity

/-- The three files of a version were written anew in a call with these system calls. -/
structure Overwrites (version blocksPath : Path) (capacity : ℕ) (files : FileSystem Hash)
    (trace : List (Σ call : Call Hash, Reply call)) (files' : FileSystem Hash) : Prop where
  files : (files.writeVersion version [] blocksPath capacity).GainsDirectories files'
  removed : ⟨.removeMetadata version, true⟩ ∈ trace
  created : ⟨.openMetadata version true true, true⟩ ∈ trace

omit [DecidableEq Hash] in
theorem Overwrites.append {second : List (Σ call : Call Hash, Reply call)}
    (hoverwrites : Overwrites version blocksPath capacity files trace files') :
    Overwrites version blocksPath capacity files (trace ++ second) files' where
  files := hoverwrites.files
  removed := List.mem_append_left _ hoverwrites.removed
  created := List.mem_append_left _ hoverwrites.created

/-- Where a call that exits over a version that is there has left its files. -/
inductive FailsAt (version blocksPath : Path) (capacity : ℕ) (files : FileSystem Hash)
    (trace : List (Σ call : Call Hash, Reply call)) (files' : FileSystem Hash) : Prop where
  | untouched (hfiles : files' = files) (hkept : ⟨.removeMetadata version, true⟩ ∉ trace)
  | removed (hfiles : files' = files.setMetadata version none)
      (hremoved : ⟨.removeMetadata version, true⟩ ∈ trace)
      (hopened : ⟨.openMetadata version true true, true⟩ ∉ trace)
  | overwritten (hoverwrites : Overwrites version blocksPath capacity files trace files')

section Base

variable {regionMaxCapacity blockSize maxMemBlocks : ℕ} {stashPath : Path}
variable {allowOverwrite : Bool}

/-- The capacity of a new region: what was asked for, rounded up to blocks. -/
def roundedUpTo (regionMaxCapacity blockSize : ℕ) : ℕ :=
  if regionMaxCapacity % blockSize ≠ 0 ∧ regionMaxCapacity ≠ 0 then
    (regionMaxCapacity / blockSize + 1) * blockSize
  else regionMaxCapacity

theorem VirtualMemoryManagerBase.create_exits
    (hversion : files.directories (.path version))
    (hblocks : files.directories (.path blocksPath))
    (hmetadata : files.metadata version = some entries)
    (hexits : (VirtualMemoryManagerBase.create build regionMaxCapacity blockSize maxMemBlocks
      version blocksPath stashPath allowOverwrite).ExitsAlong AnswersOrRefuses files trace files') :
    FailsAt version blocksPath (roundedUpTo regionMaxCapacity blockSize) files trace files' := by
  rcases hexits.of_bind with hexits | ⟨⟨⟩, written, first, second, rfl, hwrites, hrest⟩
  · rcases createVersionMetadata_exits hversion hmetadata hexits with
      ⟨hfiles, hkept⟩ | ⟨hfiles, hremoved, hopened⟩
    · exact .untouched hfiles hkept
    · exact .removed hfiles hremoved hopened
  · obtain ⟨rfl, hremoved, hcreated⟩ :=
      createVersionMetadata_overwrites hversion hmetadata hwrites
    refine .overwritten (Overwrites.append ⟨?_, hremoved, hcreated⟩)
    have hthere : (files.writeVersion version [] blocksPath
        (roundedUpTo regionMaxCapacity blockSize)).directories (.path blocksPath) := hblocks
    rcases hrest.of_bind with hexits | ⟨storage, set, third, fourth, -, hcreates, hmaps⟩
    · exact (create_gains hthere).1 hexits
    · have hgains := (create_gains hthere).2 storage hcreates
      obtain ⟨mapped, between, rest, -, hreply, hrest⟩ := hmaps
      cases mapped with
      | true => exact hrest.elim
      | false =>
          obtain ⟨-, rfl⟩ := hrest
          rcases hreply with hanswer | ⟨-, rfl⟩
          · rw [← show set = files' from congrArg Prod.snd hanswer]
            exact hgains
          · exact hgains

theorem VirtualMemoryManagerBase.create_overwrites {base : VirtualMemoryManagerBase Hash}
    (hversion : files.directories (.path version))
    (hblocks : files.directories (.path blocksPath))
    (hmetadata : files.metadata version = some entries)
    (hruns : (VirtualMemoryManagerBase.create build regionMaxCapacity blockSize maxMemBlocks
      version blocksPath stashPath allowOverwrite).RunsAlong AnswersOrRefuses files trace
        (.returned base) files') :
    Overwrites version blocksPath (roundedUpTo regionMaxCapacity blockSize) files trace files' := by
  obtain ⟨⟨⟩, written, first, second, rfl, hwrites, hrest⟩ := hruns.of_bind
  obtain ⟨rfl, hremoved, hcreated⟩ :=
    createVersionMetadata_overwrites hversion hmetadata hwrites
  refine Overwrites.append ⟨?_, hremoved, hcreated⟩
  have hthere : (files.writeVersion version [] blocksPath
      (roundedUpTo regionMaxCapacity blockSize)).directories (.path blocksPath) := hblocks
  obtain ⟨storage, set, third, fourth, -, hcreates, hmaps⟩ := hrest.of_bind
  have hgains := (create_gains hthere).2 storage hcreates
  rcases hmaps with ⟨-, hkilled, -⟩ | ⟨mapped, between, rest, -, hreply, hrest⟩
  · cases hkilled
  cases mapped with
  | false => cases hrest.2.1
  | true =>
      obtain ⟨-, -, rfl⟩ := hrest
      have hanswer := answer_of_not_refuses hreply (by simp [Call.Refuses])
      rw [← show set = files' from congrArg Prod.snd hanswer]
      exact hgains

end Base

end Exits

/-! ## The call -/

namespace PrivateerObject

open FileSystem (AnswersOrRefuses)

variable [DecidableEq Hash] {build : Build Hash} {object : PrivateerObject Hash}
variable {files files' : FileSystem Hash} {version : Path} {table : VersionTable Hash}
variable {trace : List (Σ call : Call Hash, Reply call)}

/-- `create` with its other two exits: where the start address that was asked for is not
aligned, and where the handler of the signal cannot be installed. -/
def createAt (build : Build Hash) (object : PrivateerObject Hash) (pageSize startAddress : ℕ)
    (version : Path) (regionSize maxMemBlocks : ℕ) (allowOverwrite installs : Bool)
    (address : ℕ) : StorageProgram Hash (PrivateerObject Hash) := do
  if startAddress % pageSize ≠ 0 then .exit
  else
    let created ← object.create build version regionSize maxMemBlocks allowOverwrite address
    if installs then return created else .exit

variable {pageSize startAddress regionSize maxMemBlocks address : ℕ}
variable {allowOverwrite installs : Bool}

theorem createAt_exits (hversion : files.directories (.path (object.versionPath version)))
    (hblocks : files.directories (.path object.blocksDirPath))
    (hread : readVersion files (object.versionPath version) = some table)
    (hexits : (object.createAt build pageSize startAddress version regionSize maxMemBlocks
      allowOverwrite installs address).ExitsAlong AnswersOrRefuses files trace files') :
    FailsAt (object.versionPath version) object.blocksDirPath
      (roundedUpTo regionSize object.blockSize) files trace files' := by
  obtain ⟨-, -, hmetadata, -⟩ := readVersion_eq_some hread
  unfold createAt at hexits
  by_cases haligned : startAddress % pageSize ≠ 0
  · rw [if_pos haligned] at hexits
    obtain ⟨rfl, rfl⟩ := hexits
    exact .untouched rfl List.not_mem_nil
  rw [if_neg haligned] at hexits
  unfold create at hexits
  by_cases hblockSize : object.blockSize = 0
  · rw [if_pos hblockSize] at hexits
    exact hexits.elim
  rw [if_neg hblockSize] at hexits
  rcases hexits.of_bind with hcreate | ⟨created, between, first, second, rfl, hcreate, hinstall⟩
  · -- adding the manager to the object never exits
    rcases hcreate.of_bind with hmanager | ⟨_, _, _, _, -, -, hfalse⟩
    · rcases hmanager.of_bind with hbase | ⟨_, _, _, _, -, -, hfalse⟩
      · exact VirtualMemoryManagerBase.create_exits hversion hblocks hmetadata hbase
      · exact hfalse.elim
    · exact hfalse.elim
  · obtain ⟨manager, made, third, fourth, rfl, hmanager, -, -, rfl⟩ := hcreate.of_bind
    obtain ⟨base, made, fifth, sixth, rfl, hbase, -, -, rfl⟩ := hmanager.of_bind
    have hoverwrites := VirtualMemoryManagerBase.create_overwrites hversion hblocks hmetadata hbase
    cases installs with
    | true => exact hinstall.elim
    | false =>
        obtain ⟨rfl, rfl⟩ := hinstall
        exact .overwritten hoverwrites.append.append.append

/-- A call of `create` over a version of the datastore that exits leaves the version as it
was if it did not remove its table, or if it had made the new one and the version was blank
and as large as the new one. -/
theorem failed_create_keeps_iff
    (hversion : files.directories (.path (object.versionPath version)))
    (hblocks : files.directories (.path object.blocksDirPath))
    (hread : readVersion files (object.versionPath version) = some table)
    (hdatastore : table.blocksPath = object.blocksDirPath)
    (hexits : (object.createAt build pageSize startAddress version regionSize maxMemBlocks
      allowOverwrite installs address).ExitsAlong AnswersOrRefuses files trace files') :
    ShowsSame build (object.versionPath version) files files' ↔
      ⟨.removeMetadata (object.versionPath version), true⟩ ∉ trace ∨
        (⟨.openMetadata (object.versionPath version) true true, true⟩ ∈ trace ∧
          table.capacity = roundedUpTo regionSize object.blockSize ∧
            table.Blank build files) := by
  cases createAt_exits hversion hblocks hread hexits with
  | untouched hfiles hkept =>
      subst hfiles
      exact iff_of_true ⟨rfl, rfl⟩ (.inl hkept)
  | removed hfiles hremoved hopened =>
      subst hfiles
      refine iff_of_false (not_showsSame_setMetadata hread) ?_
      rintro (hkept | ⟨hcreated, -⟩)
      · exact hkept hremoved
      · exact hopened hcreated
  | overwritten hoverwrites =>
      have hlater : ShowsSame build (object.versionPath version)
          (files.writeVersion (object.versionPath version) [] table.blocksPath
            (roundedUpTo regionSize object.blockSize)) files' :=
        showsSame_of_gainsDirectories (hdatastore ▸ hoverwrites.files)
      have hwritten : ShowsSame build (object.versionPath version) files
          (files.writeVersion (object.versionPath version) [] table.blocksPath
            (roundedUpTo regionSize object.blockSize)) ↔ _ :=
        showsSame_writeVersion_iff hread _
      constructor
      · intro hsame
        exact .inr ⟨hoverwrites.created, hwritten.mp (hsame.trans hlater.symm)⟩
      · rintro (hkept | ⟨-, hblank⟩)
        · exact absurd hoverwrites.removed hkept
        · exact (hwritten.mpr hblank).trans hlater

/-- A datastore of one version of one block that was never written to. -/
def blankVersion : FileSystem (Option (List Byte)) :=
  (((FileSystem.empty.setDirectory (.path ['d', '/', 'v'])).setDirectory
    (.path ['d', '/', 'b', 'l', 'o', 'c', 'k', 's'])).writeVersion ['d', '/', 'v'] []
      ['d', '/', 'b', 'l', 'o', 'c', 'k', 's'] 1).setText
        (.granularity ['d', '/', 'b', 'l', 'o', 'c', 'k', 's']) (some (some (.number 1)))

/-- A version that nothing was written to is replaced by one of its size before the handler
of the signal cannot be installed. -/
theorem failed_create_keeps_iff_blank :
    ∃ trace files', (createAt Build.transparent (.initial ['d'] ['d'] 1) 4096 0 ['v'] 1 0 true
        false 0).ExitsAlong AnswersOrRefuses blankVersion trace files' ∧
      ⟨.removeMetadata ['d', '/', 'v'], true⟩ ∈ trace ∧
        ShowsSame Build.transparent ['d', '/', 'v'] blankVersion files' := by
  obtain ⟨trace, files', hexits, hremoved, hcreated⟩ : ∃ trace files',
      (createAt Build.transparent (.initial ['d'] ['d'] 1) 4096 0 ['v'] 1 0 true
        false 0).ExitsAlong AnswersOrRefuses blankVersion trace files' ∧
      ⟨.removeMetadata ['d', '/', 'v'], true⟩ ∈ trace ∧
        ⟨.openMetadata ['d', '/', 'v'] true true, true⟩ ∈ trace :=
    ⟨_, _, ⟨_, _, _, rfl, .inl rfl, _, _, _, rfl, .inl rfl, _, _, _, rfl, .inl rfl,
      _, _, _, rfl, .inl rfl, _, _, _, rfl, .inl rfl, _, _, _, rfl, .inl rfl,
      _, _, _, rfl, .inl rfl, _, _, _, rfl, .inl rfl, _, _, _, rfl, .inl rfl,
      _, _, _, rfl, .inl rfl, _, _, _, rfl, .inl rfl, _, _, _, rfl, .inl rfl, rfl, rfl⟩,
      .tail _ (.tail _ (.head _)), .tail _ (.tail _ (.tail _ (.head _)))⟩
  have hread : readVersion blankVersion ['d', '/', 'v'] =
      some ⟨['d', '/', 'b', 'l', 'o', 'c', 'k', 's'], 1, 1, []⟩ := rfl
  refine ⟨trace, files', hexits, hremoved, (failed_create_keeps_iff (by decide) (by decide)
    hread rfl hexits).mpr (.inr ⟨hcreated, rfl, ?_⟩)⟩
  intro block hblock
  obtain rfl : block = 0 := Nat.lt_one_iff.mp hblock
  rfl

/-- A datastore of one version of one block, which holds a seven. -/
def savedVersion : FileSystem (Option (List Byte)) :=
  ((((FileSystem.empty.setDirectory (.path ['d', '/', 'v'])).setDirectory
    (.path ['d', '/', 'b', 'l', 'o', 'c', 'k', 's'])).writeVersion ['d', '/', 'v'] [some [7]]
      ['d', '/', 'b', 'l', 'o', 'c', 'k', 's'] 1).setText
        (.granularity ['d', '/', 'b', 'l', 'o', 'c', 'k', 's']) (some (some (.number 1)))).setData
          (.block ['d', '/', 'b', 'l', 'o', 'c', 'k', 's'] 0 (some [7])) (some [7])

/-- A region of no bytes cannot be mapped, which is found out once the version is gone. -/
theorem create_of_nothing_destroys : ∃ trace files',
    (createAt Build.transparent (.initial ['d'] ['d'] 1) 4096 0 ['v'] 0 0 true true 0).ExitsAlong
        AnswersOrRefuses savedVersion trace files' ∧
      denotedBlocks Build.transparent savedVersion ['d', '/', 'v'] = some [some [7]] ∧
        ¬ ShowsSame Build.transparent ['d', '/', 'v'] savedVersion files' := by
  have hrun : (createAt Build.transparent (.initial ['d'] ['d'] 1) 4096 0 ['v'] 0 0 true true
      0).run FileSystem.answer savedVersion = (.exited, _) := rfl
  obtain ⟨trace, hexits⟩ := Program.exitsAlong_of_run
    FileSystem.answersOrRefuses_answer hrun
  exact ⟨trace, _, hexits, rfl, fun hsame => absurd hsame.1 (by decide)⟩

end PrivateerObject

end Privateer
