import Mathlib.Data.List.GetD
import Privateer.Data.Blocks
import Privateer.Storage.BlockFiles
import Privateer.Version.Metadata

/-!
# Names and what a version denotes

In a blocks directory whose files are named by their contents, a name stands for
at most one content, and a version denotes given contents exactly when the entry
of every block stands for the content of that block.
-/

namespace Privateer

variable {Hash : Type}

namespace BlocksDirectory

/-- The contents that a name stands for: zeros for the empty name. -/
def Names (blocks : BlocksDirectory Hash) (files : FileSystem Hash) (name : Hash)
    (content : List Byte) : Prop :=
  (name = blocks.build.emptyBlockHash ∧ content = List.replicate blocks.blockSize 0) ∨
    blocks.Stored files name content

variable {blocks : BlocksDirectory Hash} {files files' : FileSystem Hash} {name : Hash}
variable {content : List Byte}

theorem Names.keep (hnames : blocks.Names files name content)
    (hkeeps : blocks.Keeps files files') : blocks.Names files' name content := by
  rcases hnames with hempty | hstored
  · exact .inl hempty
  · exact .inr (hstored.keep hkeeps)

theorem Names.length (hnames : blocks.Names files name content) :
    content.length = blocks.blockSize := by
  rcases hnames with ⟨-, rfl⟩ | hstored
  · exact List.length_replicate
  · exact hstored.length

/-- The empty name stands for zeros only. -/
theorem names_empty_iff (hsound : blocks.build.Sound) :
    blocks.Names files blocks.build.emptyBlockHash content ↔
      content = List.replicate blocks.blockSize 0 := by
  constructor
  · rintro (⟨-, hzero⟩ | hstored)
    · exact hzero
    · exact absurd hstored.hash (hsound.computeHash_ne_empty _)
  · exact fun hzero => .inl ⟨rfl, hzero⟩

theorem Names.unique (hsound : blocks.build.Sound) {content' : List Byte}
    (hnames : blocks.Names files name content) (hnames' : blocks.Names files' name content') :
    content = content' := by
  rcases hnames with ⟨hempty, rfl⟩ | hstored
  · rcases hnames' with ⟨-, rfl⟩ | hstored'
    · rfl
    · exact absurd (hstored'.hash.trans hempty) (hsound.computeHash_ne_empty _)
  · rcases hnames' with ⟨hempty, -⟩ | hstored'
    · exact absurd (hstored.hash.trans hempty) (hsound.computeHash_ne_empty _)
    · exact hstored.unique hsound hstored'

/-- The table of a version is no part of the blocks directory. -/
@[simp]
theorem names_setMetadata {version : Path} {entries : Option (List Hash)} :
    blocks.Names (files.setMetadata version entries) name content ↔
      blocks.Names files name content := by
  constructor
  · intro hnames
    exact hnames.keep fun _ _ _ hbytes => hbytes
  · intro hnames
    exact hnames.keep fun _ _ _ hbytes => hbytes

theorem tolerates_setMetadata (version : Path) (entries : Option (List Hash)) :
    blocks.Tolerates files (files.setMetadata version entries) :=
  tolerates_of_blocks_eq (fun _ hdirectory => hdirectory) fun _ _ => rfl

/-- Decoding gives back the block that was encoded. -/
theorem decodeBlock_encode (hsound : blocks.build.Sound) {content : List Byte}
    (hlength : content.length = blocks.blockSize)
    (hfits : blocks.build.useCompression = true →
      (blocks.build.encode content).length ≤ blocks.blockSize) :
    decodeBlock blocks.build blocks.blockSize (blocks.build.encode content) = some content := by
  unfold decodeBlock
  cases hcompression : blocks.build.useCompression with
  | true =>
      have hencode : blocks.build.encode content = blocks.build.compress content := by
        rw [Build.encode, hcompression]
        rfl
      have hbound := hfits hcompression
      rw [hencode] at hbound ⊢
      simp only [if_true, hbound, hsound.decompress_compress hcompression content]
      rw [if_pos hlength.le, resize_of_length_eq 0 hlength]
  | false =>
      have hencode : blocks.build.encode content = content := by
        rw [Build.encode, hcompression]
        rfl
      rw [hencode, List.take_of_length_le hlength.le, resize_of_length_eq 0 hlength]
      rfl

variable [DecidableEq Hash]

/-- Loading a name gives the contents it stands for. -/
theorem loadName_eq_some_iff (hsound : blocks.build.Sound)
    (hcompression : blocks.build.useCompression = false) (hnamed : blocks.Named files) :
    loadName blocks.build files blocks.location blocks.blockSize name = some content ↔
      blocks.Names files name content := by
  have hdecode : ∀ stored, blocks.Stored files name stored →
      decodeBlock blocks.build blocks.blockSize (blocks.build.encode stored) = some stored :=
    fun stored hstored => decodeBlock_encode hsound hstored.length fun h => by
      rw [hcompression] at h
      cases h
  unfold loadName
  split_ifs with hempty
  · rw [Option.some.injEq]
    constructor
    · exact fun hzero => .inl ⟨hempty, hzero.symm⟩
    · intro hnames
      have hzero : blocks.Names files name (List.replicate blocks.blockSize 0) :=
        .inl ⟨hempty, rfl⟩
      exact hzero.unique hsound hnames
  · constructor
    · intro hload
      cases hdata : files.data (blocks.blockFile name) with
      | none =>
          rw [blockFile] at hdata
          rw [hdata] at hload
          cases hload
      | some bytes =>
          obtain ⟨stored, hstored⟩ := hnamed.stored (by rw [hdata]; rfl)
          have hfile := hstored.file
          rw [blockFile] at hfile
          rw [hfile] at hload
          have hsame : stored = content := by
            rw [← Option.some.injEq, ← hdecode stored hstored]
            exact hload
          exact .inr (hsame ▸ hstored)
    · rintro (⟨hname, -⟩ | hstored)
      · exact absurd hname hempty
      · have hfile := hstored.file
        rw [blockFile] at hfile
        rw [hfile]
        exact hdecode content hstored

/-- The table of a version of this datastore. -/
def table (blocks : BlocksDirectory Hash) (capacity : ℕ) (entries : List Hash) :
    VersionTable Hash :=
  ⟨blocks.location, blocks.blockSize, capacity, entries⟩

/-- The three files of a version, and the granularity of the blocks directory. -/
structure HasVersion (blocks : BlocksDirectory Hash) (files : FileSystem Hash)
    (version : Path) (capacity : ℕ) (entries : List Hash) : Prop where
  blocksPath : files.texts (.blocksPath version) = some (some (.path blocks.location))
  capacityText : files.texts (.capacity version) = some (some (.number capacity))
  granularity : files.texts (.granularity blocks.location) =
    some (some (.number blocks.blockSize))
  metadata : files.metadata version = some entries
  length_le : entries.length ≤ capacity / blocks.blockSize

omit [DecidableEq Hash] in
/-- Adding blocks to the blocks directory leaves the files of a version alone. -/
theorem HasVersion.keep {version : Path} {capacity : ℕ} {entries : List Hash}
    (hversion : blocks.HasVersion files version capacity entries)
    (hpromises : blocks.Promises files files') :
    blocks.HasVersion files' version capacity entries where
  blocksPath := hpromises.texts ▸ hversion.blocksPath
  capacityText := hpromises.texts ▸ hversion.capacityText
  granularity := hpromises.texts ▸ hversion.granularity
  metadata := hpromises.metadata ▸ hversion.metadata
  length_le := hversion.length_le

/-- A version in its directory whose entries all stand for something. -/
structure Intact (blocks : BlocksDirectory Hash) (files : FileSystem Hash)
    (version : Path) (capacity : ℕ) (entries : List Hash) : Prop
    extends blocks.HasVersion files version capacity entries where
  directory : files.directories (.path version)
  named : ∀ entry ∈ entries, ∃ content, blocks.Names files entry content

omit [DecidableEq Hash] in
/-- Adding blocks to the blocks directory leaves a version intact. -/
theorem Intact.keep {version : Path} {capacity : ℕ} {entries : List Hash}
    (hintact : blocks.Intact files version capacity entries)
    (hnamed : blocks.Named files) (hpromises : blocks.Promises files files') :
    blocks.Intact files' version capacity entries where
  toHasVersion := hintact.toHasVersion.keep hpromises
  directory := hpromises.directories _ hintact.directory
  named := fun entry hentry => by
    obtain ⟨content, hcontent⟩ := hintact.named entry hentry
    exact ⟨content, hcontent.keep (hpromises.named hnamed).2⟩

omit [DecidableEq Hash] in
/-- Blocks past the end of a table are empty. -/
theorem exists_names_getD {entries : List Hash}
    (hentries : ∀ entry ∈ entries, ∃ content, blocks.Names files entry content) (block : ℕ) :
    ∃ content, blocks.Names files (entries.getD block blocks.build.emptyBlockHash) content := by
  by_cases hblock : block < entries.length
  · rw [List.getD_eq_getElem _ _ hblock]
    exact hentries _ (List.getElem_mem hblock)
  · rw [List.getD_eq_default _ _ (Nat.le_of_not_lt hblock)]
    exact ⟨_, .inl ⟨rfl, rfl⟩⟩

omit [DecidableEq Hash] in
/-- The entry of every block of an intact version stands for something. -/
theorem Intact.exists_names {version : Path} {capacity : ℕ} {entries : List Hash}
    (hintact : blocks.Intact files version capacity entries) (block : ℕ) :
    ∃ content, blocks.Names files (entries.getD block blocks.build.emptyBlockHash) content :=
  exists_names_getD hintact.named block

omit [DecidableEq Hash] in
theorem readVersion_eq_some_iff {version : Path} {capacity : ℕ} {entries : List Hash} :
    readVersion files version = some (blocks.table capacity entries) ↔
      blocks.HasVersion files version capacity entries := by
  constructor
  · intro hread
    unfold readVersion at hread
    split at hread
    · rename_i blocksPath capacity' entries' hblocksPath hcapacity hmetadata
      split at hread
      · rename_i blockSize hgranularity
        split_ifs at hread with hlength
        rw [Option.some.injEq, table, VersionTable.mk.injEq] at hread
        obtain ⟨rfl, rfl, rfl, rfl⟩ := hread
        exact ⟨hblocksPath, hcapacity, hgranularity, hmetadata, hlength⟩
      · cases hread
    · cases hread
  · intro hversion
    unfold readVersion
    rw [hversion.blocksPath, hversion.capacityText, hversion.metadata]
    simp only [hversion.granularity, if_pos hversion.length_le]
    rfl

/-- A version denotes the contents that its entries stand for. -/
theorem denotedBlocks_eq_some_iff (hsound : blocks.build.Sound)
    (hcompression : blocks.build.useCompression = false) (hnamed : blocks.Named files)
    {version : Path} {capacity : ℕ} {entries : List Hash}
    (hversion : blocks.HasVersion files version capacity entries) (contents : ℕ → List Byte) :
    denotedBlocks blocks.build files version =
        some ((List.range (capacity / blocks.blockSize)).map fun block =>
          some (contents block)) ↔
      ∀ block < capacity / blocks.blockSize,
        blocks.Names files (entries.getD block blocks.build.emptyBlockHash) (contents block) := by
  unfold denotedBlocks
  rw [readVersion_eq_some_iff.mpr hversion, Option.map_some, Option.some.injEq]
  change (List.range (capacity / blocks.blockSize)).map _ = _ ↔ _
  rw [List.map_inj_left]
  simp only [List.mem_range]
  apply forall₂_congr
  intro block _
  exact loadName_eq_some_iff hsound hcompression hnamed

/-! ## Writing the start of a table -/

omit [DecidableEq Hash] in
/-- Overwriting the start of a table with names keeps the version intact. -/
theorem Intact.overwrite {version : Path} {capacity : ℕ} {entries names : List Hash}
    (hintact : blocks.Intact files version capacity entries)
    (hlength : names.length ≤ capacity / blocks.blockSize)
    (hnames : ∀ name ∈ names, ∃ content, blocks.Names files name content) :
    blocks.Intact (files.setMetadata version (some (Privateer.overwrite names entries)))
      version capacity (Privateer.overwrite names entries) where
  blocksPath := hintact.blocksPath
  capacityText := hintact.capacityText
  granularity := hintact.granularity
  metadata := FileSystem.setMetadata_self _ _ _
  length_le := by
    rw [length_overwrite]
    exact max_le hlength hintact.length_le
  directory := hintact.directory
  named := fun entry hentry => by
    simp only [names_setMetadata]
    rcases mem_overwrite hentry with hnew | hold
    · exact hnames entry hnew
    · exact hintact.named entry hold

/-- A table whose start was overwritten with the right names denotes the right
contents exactly when the rest of it did so before. -/
theorem denotedBlocks_overwrite_iff (hsound : blocks.build.Sound)
    (hcompression : blocks.build.useCompression = false) (hnamed : blocks.Named files)
    {version : Path} {capacity : ℕ} {entries names : List Hash}
    (hintact : blocks.Intact files version capacity entries)
    (hlength : names.length ≤ capacity / blocks.blockSize) {contents : ℕ → List Byte}
    (hnames : ∀ block < names.length,
      blocks.Names files (names.getD block blocks.build.emptyBlockHash) (contents block)) :
    denotedBlocks blocks.build
        (files.setMetadata version (some (Privateer.overwrite names entries))) version =
        some ((List.range (capacity / blocks.blockSize)).map fun block =>
          some (contents block)) ↔
      ∀ block, names.length ≤ block → block < capacity / blocks.blockSize →
        blocks.Names files (entries.getD block blocks.build.emptyBlockHash)
          (contents block) := by
  have hversion := (hintact.overwrite hlength fun name hname => by
    obtain ⟨block, hblock, rfl⟩ := List.getElem_of_mem hname
    have hentry := hnames block hblock
    rw [List.getD_eq_getElem _ _ hblock] at hentry
    exact ⟨_, hentry⟩).toHasVersion
  have hnamed' : blocks.Named
      (files.setMetadata version (some (Privateer.overwrite names entries))) := hnamed
  rw [denotedBlocks_eq_some_iff hsound hcompression hnamed' hversion]
  simp only [names_setMetadata]
  constructor
  · intro hall block hbeyond hblock
    have hentry := hall block hblock
    rw [getD_overwrite, if_neg (Nat.not_lt.mpr hbeyond)] at hentry
    exact hentry
  · intro hrest block hblock
    rw [getD_overwrite]
    by_cases hinside : block < names.length
    · rw [if_pos hinside]
      exact hnames block hinside
    · rw [if_neg hinside]
      exact hrest block (Nat.le_of_not_lt hinside) hblock

omit [DecidableEq Hash] in
/-- What an entry of an intact version stands for does not depend on blocks that
were added since. -/
theorem Intact.names_iff (hsound : blocks.build.Sound) {version : Path} {capacity : ℕ}
    {entries : List Hash} (hintact : blocks.Intact files version capacity entries)
    (hkeeps : blocks.Keeps files files') (block : ℕ) :
    blocks.Names files' (entries.getD block blocks.build.emptyBlockHash) content ↔
      blocks.Names files (entries.getD block blocks.build.emptyBlockHash) content := by
  constructor
  · intro hnames
    obtain ⟨stored, hstored⟩ := hintact.exists_names block
    rwa [hstored.unique hsound hnames] at hstored
  · exact fun hnames => hnames.keep hkeeps

theorem denotedBlock_eq_some_iff (hsound : blocks.build.Sound)
    (hcompression : blocks.build.useCompression = false) (hnamed : blocks.Named files)
    {version : Path} {capacity : ℕ} {entries : List Hash}
    (hversion : blocks.HasVersion files version capacity entries) (block : ℕ) :
    denotedBlock blocks.build files version block = some content ↔
      blocks.Names files (entries.getD block blocks.build.emptyBlockHash) content := by
  unfold denotedBlock
  rw [readVersion_eq_some_iff.mpr hversion]
  exact loadName_eq_some_iff hsound hcompression hnamed

/-! ## Writing a whole version -/

omit [DecidableEq Hash] in
theorem intact_writeVersion {version : Path} {capacity : ℕ} {entries : List Hash}
    (hdirectory : files.directories (.path version))
    (hgranularity : files.texts (.granularity blocks.location) =
      some (some (.number blocks.blockSize)))
    (hlength : entries.length ≤ capacity / blocks.blockSize)
    (hnames : ∀ name ∈ entries, ∃ content, blocks.Names files name content) :
    blocks.Intact (files.writeVersion version entries blocks.location capacity)
      version capacity entries where
  blocksPath := FileSystem.blocksPath_writeVersion
  capacityText := FileSystem.capacity_writeVersion
  granularity := by
    rw [FileSystem.texts_writeVersion_of_ne (by simp) (by simp), hgranularity]
  metadata := FileSystem.metadata_writeVersion
  length_le := hlength
  directory := hdirectory
  named := fun name hname => by
    obtain ⟨content, hcontent⟩ := hnames name hname
    exact ⟨content, hcontent.keep fun _ _ _ hbytes => hbytes⟩

/-- A new version with the right names at the start of its table denotes the right
contents exactly when the other blocks are zero. -/
theorem denotedBlocks_writeVersion_iff (hsound : blocks.build.Sound)
    (hcompression : blocks.build.useCompression = false) (hnamed : blocks.Named files)
    {version : Path} {capacity : ℕ} {names : List Hash}
    (hdirectory : files.directories (.path version)) (hgranularity :
      files.texts (.granularity blocks.location) = some (some (.number blocks.blockSize)))
    (hlength : names.length ≤ capacity / blocks.blockSize) {contents : ℕ → List Byte}
    (hnames : ∀ block < names.length,
      blocks.Names files (names.getD block blocks.build.emptyBlockHash) (contents block)) :
    denotedBlocks blocks.build (files.writeVersion version names blocks.location capacity) version =
        some ((List.range (capacity / blocks.blockSize)).map fun block =>
          some (contents block)) ↔
      ∀ block, names.length ≤ block → block < capacity / blocks.blockSize →
        contents block = List.replicate blocks.blockSize 0 := by
  have hempty : blocks.Intact (files.writeVersion version [] blocks.location capacity) version
      capacity [] := intact_writeVersion hdirectory hgranularity (Nat.zero_le _) fun name hname =>
    absurd hname List.not_mem_nil
  have hnamed' : blocks.Named (files.writeVersion version [] blocks.location capacity) := hnamed
  have hoverwrite := denotedBlocks_overwrite_iff hsound hcompression hnamed' hempty hlength
    fun block hblock => (hnames block hblock).keep fun _ _ _ hbytes => hbytes
  rw [overwrite_nil] at hoverwrite
  rw [FileSystem.writeVersion_eq_setMetadata, hoverwrite]
  simp only [List.getD_nil, names_empty_iff hsound]

omit [DecidableEq Hash] in
theorem Intact.setMetadata_of_ne {version other : Path} {capacity : ℕ} {entries : List Hash}
    {table : Option (List Hash)} (hother : other ≠ version)
    (hintact : blocks.Intact files other capacity entries) :
    blocks.Intact (files.setMetadata version table) other capacity entries where
  blocksPath := hintact.blocksPath
  capacityText := hintact.capacityText
  granularity := hintact.granularity
  metadata := (FileSystem.setMetadata_of_ne _ hother _).trans hintact.metadata
  length_le := hintact.length_le
  directory := hintact.directory
  named := fun name hname => by
    simp only [names_setMetadata]
    exact hintact.named name hname

omit [DecidableEq Hash] in
/-- Writing one version leaves the others intact. -/
theorem Intact.writeVersion {version other : Path} {capacity capacity' : ℕ}
    {entries entries' : List Hash} (hother : other ≠ version)
    (hintact : blocks.Intact files other capacity' entries') :
    blocks.Intact (files.writeVersion version entries blocks.location capacity)
      other capacity' entries' where
  blocksPath := by
    rw [FileSystem.texts_writeVersion_of_ne (by simp) (by simp [hother]), hintact.blocksPath]
  capacityText := by
    rw [FileSystem.texts_writeVersion_of_ne (by simp [hother]) (by simp), hintact.capacityText]
  granularity := by
    rw [FileSystem.texts_writeVersion_of_ne (by simp) (by simp), hintact.granularity]
  metadata := by
    rw [FileSystem.metadata_writeVersion_of_ne hother, hintact.metadata]
  length_le := hintact.length_le
  directory := hintact.directory
  named := fun name hname => by
    obtain ⟨content, hcontent⟩ := hintact.named name hname
    exact ⟨content, hcontent.keep fun _ _ _ hbytes => hbytes⟩

/-! ## Several versions -/

omit [DecidableEq Hash] in
/-- A version denotes a region when each of its entries stands for the block there. -/
def Denotes (blocks : BlocksDirectory Hash) (files : FileSystem Hash) (version : Path)
    (capacity : ℕ) (region : ℕ → Byte) : Prop :=
  ∃ entries, blocks.HasVersion files version capacity entries ∧
    ∀ block < capacity / blocks.blockSize, blocks.Names files
      (entries.getD block blocks.build.emptyBlockHash) (blockOf blocks.blockSize region block)

/-- In a build without compression, that is what opening the version reads. -/
theorem Denotes.denotedBlocks_eq (hsound : blocks.build.Sound)
    (hcompression : blocks.build.useCompression = false) (hnamed : blocks.Named files)
    {version : Path} {capacity : ℕ} {region : ℕ → Byte}
    (hdenotes : blocks.Denotes files version capacity region) :
    denotedBlocks blocks.build files version =
      some ((List.range (capacity / blocks.blockSize)).map fun block =>
        some (blockOf blocks.blockSize region block)) := by
  obtain ⟨entries, hversion, hnames⟩ := hdenotes
  exact (denotedBlocks_eq_some_iff hsound hcompression hnamed hversion _).mpr hnames

/-- What a session does to the files of a datastore: blocks stay, and so do the files of
all versions but its own. -/
structure LeavesOthers (blocks : BlocksDirectory Hash) (version : Path)
    (files files' : FileSystem Hash) : Prop where
  directories : ∀ directory, files.directories directory → files'.directories directory
  texts : ∀ file, file ≠ .blocksPath version → file ≠ .capacity version →
    files'.texts file = files.texts file
  metadata : ∀ other, other ≠ version → files'.metadata other = files.metadata other
  keeps : blocks.Keeps files files'

omit [DecidableEq Hash] in
theorem LeavesOthers.trans {version : Path} {first second third : FileSystem Hash}
    (hfirst : blocks.LeavesOthers version first second)
    (hsecond : blocks.LeavesOthers version second third) :
    blocks.LeavesOthers version first third where
  directories := fun directory hdirectory =>
    hsecond.directories directory (hfirst.directories directory hdirectory)
  texts := fun file hpath hcapacity =>
    (hsecond.texts file hpath hcapacity).trans (hfirst.texts file hpath hcapacity)
  metadata := fun other hother => (hsecond.metadata other hother).trans (hfirst.metadata other hother)
  keeps := fun subdirectory name bytes hbytes =>
    hsecond.keeps subdirectory name bytes (hfirst.keeps subdirectory name bytes hbytes)

omit [DecidableEq Hash] in
theorem Promises.leavesOthers (hpromises : blocks.Promises files files')
    (hnamed : blocks.Named files) (version : Path) : blocks.LeavesOthers version files files' where
  directories := hpromises.directories
  texts := fun _ _ _ => by rw [hpromises.texts]
  metadata := fun _ _ => by rw [hpromises.metadata]
  keeps := (hpromises.named hnamed).2

omit [DecidableEq Hash] in
/-- Another version denotes what it did before. -/
theorem Denotes.leave {version other : Path} {capacity : ℕ} {region : ℕ → Byte}
    (hdenotes : blocks.Denotes files other capacity region)
    (hleaves : blocks.LeavesOthers version files files') (hother : other ≠ version) :
    blocks.Denotes files' other capacity region := by
  obtain ⟨entries, hversion, hnames⟩ := hdenotes
  refine ⟨entries, ⟨?_, ?_, ?_, ?_, hversion.length_le⟩,
    fun block hblock => (hnames block hblock).keep hleaves.keeps⟩
  · rw [hleaves.texts _ (by simpa using hother) (by simp), hversion.blocksPath]
  · rw [hleaves.texts _ (by simp) (by simpa using hother), hversion.capacityText]
  · rw [hleaves.texts _ (by simp) (by simp), hversion.granularity]
  · rw [hleaves.metadata other hother, hversion.metadata]

end BlocksDirectory

end Privateer
