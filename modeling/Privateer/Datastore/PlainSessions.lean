import Privateer.Datastore.WorkingSet
import Privateer.Sigaction.WorkingCopies

/-!
# Sessions on plain regions

Beside its working set a session runs on plain arrays: a copy of its version, and the regions
of all versions of the datastore.  A commit writes the copy back.  A snapshot begins with an
empty table and ends at the highest block that was touched, so what it publishes is zero from
there on.
-/

namespace Privateer

open VirtualMemoryManagerBase (occupiedBlocks)

/-! ## Plain arrays -/

/-- What the names of a datastore stand for. -/
abbrev PlainVersions := Path → Option ByteRegion

/-- A session on plain arrays: its copy, and the blocks that it has touched. -/
structure PlainSession where
  versions : PlainVersions
  copy : ByteRegion
  touched : Finset ℕ

/-- The region with zeros above the blocks that a commit writes. -/
def ByteRegion.written (blockSize : ℕ) (touched : Finset ℕ) (region : ByteRegion) : ByteRegion :=
  { region with
    bytes := fun offset =>
      if offset / blockSize < occupiedBlocks touched then region.bytes offset else 0 }

namespace PlainSession

/-- What a call returns. -/
def reply (session : PlainSession) : SessionCall → List Byte
  | .read offset => [session.copy.bytes offset]
  | .write _ _ | .msync | .snapshot _ => []

/-- What a call does; `version` is the name that the session works on. -/
def perform (blockSize : ℕ) (version : Path) (session : PlainSession) :
    SessionCall → PlainSession
  | .read offset => { session with touched := insert (offset / blockSize) session.touched }
  | .write offset byte =>
      { session with
        copy := session.copy.write offset byte
        touched := insert (offset / blockSize) session.touched }
  | .msync =>
      { session with versions := Function.update session.versions version (some session.copy) }
  | .snapshot other =>
      if (session.versions other).isSome then session
      else
        { session with
          versions := Function.update session.versions other
            (some (session.copy.written blockSize session.touched)) }

/-- All calls, with the bytes of all reads. -/
def performAll (blockSize : ℕ) (version : Path) :
    List SessionCall → PlainSession → List Byte × PlainSession
  | [], session => ([], session)
  | call :: rest, session =>
      let others := performAll blockSize version rest (session.perform blockSize version call)
      (session.reply call ++ others.1, others.2)

end PlainSession

/-- The blocks of what a snapshot publishes. -/
theorem ByteRegion.blockOf_written {blockSize : ℕ} (hpos : 0 < blockSize) (touched : Finset ℕ)
    (region : ByteRegion) (block : ℕ) :
    blockOf blockSize (region.written blockSize touched).bytes block =
      if block < occupiedBlocks touched then blockOf blockSize region.bytes block
      else List.replicate blockSize 0 := by
  have hdiv : ∀ position < blockSize, (block * blockSize + position) / blockSize = block := by
    intro position hposition
    rw [Nat.add_comm, Nat.add_mul_div_right _ _ hpos, Nat.div_eq_of_lt hposition, Nat.zero_add]
  have hcell : ∀ position ∈ List.range blockSize,
      (region.written blockSize touched).bytes (block * blockSize + position) =
        if block < occupiedBlocks touched then region.bytes (block * blockSize + position)
        else 0 := by
    intro position hposition
    unfold written
    dsimp only
    rw [hdiv position (List.mem_range.mp hposition)]
  rw [blockOf, List.map_congr_left hcell]
  split_ifs with hblock
  · rfl
  · simp

/-! ## Datastores that show plain versions -/

variable {Hash : Type}

namespace BlocksDirectory

/-- Every version denotes its region, and there are no other versions. -/
structure Shows (blocks : BlocksDirectory Hash) (files : FileSystem Hash)
    (versions : PlainVersions) : Prop where
  missing : ∀ version, versions version = none → files.metadata version = none
  denoted : ∀ version region, versions version = some region →
    files.directories (.path version) ∧ files.directories (.path blocks.location) ∧
      ∃ capacity, capacity / blocks.blockSize = region.numBlocks ∧
        blocks.Denotes files version capacity region.bytes
  granularity : files.directories (.path blocks.location) →
    files.texts (.granularity blocks.location) = some (some (.number blocks.blockSize))

variable {blocks : BlocksDirectory Hash} {files files' : FileSystem Hash}
variable {versions : PlainVersions} {contents : Set (List Byte)} {version : Path}
variable {tables : Path → Option (List Hash)}

theorem Shows.metadata_isSome (hshows : blocks.Shows files versions) (version : Path) :
    (files.metadata version).isSome ↔ (versions version).isSome := by
  cases hversion : versions version with
  | none =>
      rw [hshows.missing version hversion]
      exact Iff.rfl
  | some region =>
      obtain ⟨-, -, capacity, -, entries, hentries, -⟩ := hshows.denoted version region hversion
      rw [hentries.metadata]
      exact Iff.rfl

/-! ### What stays when blocks are stored -/

/-- A name stands for what it did. -/
theorem Stores.keep_names (hsound : blocks.build.Sound)
    (hstores : blocks.Stores contents tables files files') {name : Hash} {content : List Byte}
    (hnames : blocks.Names files name content) : blocks.Names files' name content := by
  rcases hnames with hempty | hstored
  · exact .inl hempty
  · by_cases hname : ∃ other ∈ contents, name = blocks.build.computeHash other
    · obtain ⟨other, hother, hsame⟩ := hname
      have hcontent : content = other :=
        hsound.computeHash_injective (hstored.hash.trans hsame)
      rw [hsame, hcontent]
      exact .inr (hstores.stored other hother)
    · refine .inr ⟨hstored.length, hstored.hash, ?_⟩
      rw [hstores.others name fun other hother hsame => hname ⟨other, hother, hsame⟩]
      exact hstored.file

/-- The files of a version, with the table that was written. -/
theorem Stores.hasVersion (hstores : blocks.Stores contents tables files files') {capacity : ℕ}
    {entries entries' : List Hash} (hversion : blocks.HasVersion files version capacity entries)
    (htable : tables version = some entries')
    (hlength : entries'.length ≤ capacity / blocks.blockSize) :
    blocks.HasVersion files' version capacity entries' where
  blocksPath := by rw [hstores.texts, hversion.blocksPath]
  capacityText := by rw [hstores.texts, hversion.capacityText]
  granularity := by rw [hstores.texts, hversion.granularity]
  metadata := by rw [hstores.metadata, htable]
  length_le := hlength

/-- A version whose table was not written denotes what it did. -/
theorem Stores.denotes (hsound : blocks.build.Sound)
    (hstores : blocks.Stores contents tables files files') {capacity : ℕ} {region : ℕ → Byte}
    (htable : tables version = files.metadata version)
    (hdenotes : blocks.Denotes files version capacity region) :
    blocks.Denotes files' version capacity region := by
  obtain ⟨entries, hversion, hnames⟩ := hdenotes
  exact ⟨entries, hstores.hasVersion hversion (htable.trans hversion.metadata) hversion.length_le,
    fun block hblock => hstores.keep_names hsound (hnames block hblock)⟩

theorem Denotes.setDirectory {capacity : ℕ} {region : ℕ → Byte}
    (hdenotes : blocks.Denotes files version capacity region) (directory : Directory) :
    blocks.Denotes (files.setDirectory directory) version capacity region := by
  obtain ⟨entries, hversion, hnames⟩ := hdenotes
  exact ⟨entries, hversion.keep (promises_createDirectory directory),
    fun block hblock => (hnames block hblock).keep fun _ _ _ hbytes => hbytes⟩

/-- Writing one version leaves the others alone. -/
theorem Denotes.writeVersion {other : Path} (hother : other ≠ version) {capacity capacity' : ℕ}
    {region : ℕ → Byte} (hdenotes : blocks.Denotes files other capacity region)
    (entries : List Hash) :
    blocks.Denotes (files.writeVersion version entries blocks.location capacity') other capacity
      region := by
  refine hdenotes.leave ⟨fun _ hdirectory => hdirectory, fun file hpath hcapacity => ?_,
    fun _ hne => FileSystem.metadata_writeVersion_of_ne hne, fun _ _ _ hbytes => hbytes⟩ hother
  exact FileSystem.texts_writeVersion_of_ne hcapacity hpath

/-- Blocks are stored, and one version is written. -/
theorem Shows.put (hshows : blocks.Shows files versions) {region : ByteRegion}
    (hdirectories : ∀ path, files.directories (.path path) → files'.directories (.path path))
    (htexts : files'.texts (.granularity blocks.location) =
      files.texts (.granularity blocks.location))
    (hlocation : files.directories (.path blocks.location))
    (hmetadata : ∀ other, other ≠ version → files'.metadata other = files.metadata other)
    (hothers : ∀ other capacity region, other ≠ version →
      blocks.Denotes files other capacity region → blocks.Denotes files' other capacity region)
    (hdirectory : files'.directories (.path version)) {capacity : ℕ}
    (hcapacity : capacity / blocks.blockSize = region.numBlocks)
    (hdenotes : blocks.Denotes files' version capacity region.bytes) :
    blocks.Shows files' (Function.update versions version (some region)) where
  missing := by
    intro other hnone
    by_cases hother : other = version
    · rw [hother, Function.update_self] at hnone
      cases hnone
    · rw [Function.update_of_ne hother] at hnone
      rw [hmetadata other hother, hshows.missing other hnone]
  denoted := by
    intro other region' hregion
    by_cases hother : other = version
    · rw [hother, Function.update_self, Option.some.injEq] at hregion
      rw [hother, ← hregion]
      exact ⟨hdirectory, hdirectories _ hlocation, capacity, hcapacity, hdenotes⟩
    · rw [Function.update_of_ne hother] at hregion
      obtain ⟨hthere, hblocks, capacity', hcapacity', hdenotes'⟩ :=
        hshows.denoted other region' hregion
      exact ⟨hdirectories _ hthere, hdirectories _ hblocks, capacity', hcapacity',
        hothers other capacity' region'.bytes hother hdenotes'⟩
  granularity := fun _ => htexts.trans (hshows.granularity hlocation)

/-- Blocks are stored, and no version is written. -/
theorem Shows.stores (hsound : blocks.build.Sound) (hshows : blocks.Shows files versions)
    (hstores : blocks.Stores contents files.metadata files files') :
    blocks.Shows files' versions where
  missing := fun other hnone => by rw [hstores.metadata, hshows.missing other hnone]
  denoted := by
    intro other region hregion
    obtain ⟨hthere, hblocks, capacity, hcapacity, hdenotes⟩ := hshows.denoted other region hregion
    rw [hstores.directories, hstores.directories]
    exact ⟨hthere, hblocks, capacity, hcapacity, hstores.denotes hsound rfl hdenotes⟩
  granularity := by
    rw [hstores.directories, hstores.texts]
    exact hshows.granularity

end BlocksDirectory

/-! ## Working sets on plain arrays -/

namespace WorkingSet

/-- A working set that carries out a session on plain arrays: the names of clean blocks stand
for their contents, and the table has those of the blocks that were not touched. -/
structure Follows (blocks : BlocksDirectory Hash) (start : VirtualMemoryManagerBase Hash)
    (set : WorkingSet Hash) (files : FileSystem Hash) (session : PlainSession) : Prop where
  shows : blocks.Shows files session.versions
  bytes : session.copy.bytes = set.region
  numBlocks : session.copy.numBlocks = start.numBlocks
  touched : session.touched = set.touched
  touched_lt : ∀ block ∈ set.touched, block < start.numBlocks
  dirty : set.dirty ⊆ set.touched
  names : ∀ block < start.numBlocks, block ∉ set.dirty →
    blocks.Names files (set.blocksIds block) (blockOf blocks.blockSize set.region block)
  directory : files.directories (.path start.versionMetadataPath)
  located : files.directories (.path blocks.location)
  table : ∃ entries, blocks.HasVersion files start.versionMetadataPath start.regionMaxCapacity
      entries ∧
    ∀ block ∉ set.touched, entries.getD block blocks.build.emptyBlockHash = set.blocksIds block

variable {blocks : BlocksDirectory Hash} {files files' : FileSystem Hash}
variable {start : VirtualMemoryManagerBase Hash} {set set' : WorkingSet Hash}
variable {session : PlainSession} {bytes : List Byte} {call : SessionCall}

/-- A session that has touched nothing. -/
theorem Follows.initial {versions : PlainVersions} {copy : ByteRegion} {entries : List Hash}
    (hshows : blocks.Shows files versions) (hnum : copy.numBlocks = start.numBlocks)
    (hdirectory : files.directories (.path start.versionMetadataPath))
    (hlocated : files.directories (.path blocks.location))
    (hversion : blocks.HasVersion files start.versionMetadataPath start.regionMaxCapacity entries)
    (htable : ∀ block,
      entries.getD block blocks.build.emptyBlockHash = start.blocksIds block)
    (hnames : ∀ block < start.numBlocks, blocks.Names files (start.blocksIds block)
      (blockOf blocks.blockSize copy.bytes block)) :
    (WorkingSet.initial copy.bytes start.blocksIds).Follows blocks start files
      ⟨versions, copy, ∅⟩ where
  shows := hshows
  bytes := rfl
  numBlocks := hnum
  touched := rfl
  touched_lt := fun block hblock => absurd hblock (Finset.notMem_empty block)
  dirty := Finset.Subset.refl _
  names := fun block hblock _ => hnames block hblock
  directory := hdirectory
  located := hlocated
  table := ⟨entries, hversion, fun block _ => htable block⟩

/-! ### Commits -/

/-- A commit changes the names of touched blocks only. -/
theorem Follows.commit_blocksIds_of_notMem (hfollows : set.Follows blocks start files session)
    {block : ℕ} (htouched : block ∉ set.touched) :
    (set.commit blocks.build blocks.blockSize).blocksIds block = set.blocksIds block := by
  rw [commit_blocksIds, if_neg fun hdirty => htouched (hfollows.dirty hdirty)]

/-- After a commit every name stands for what its block shows. -/
theorem Follows.commit_names (hsound : blocks.build.Sound)
    (hfollows : set.Follows blocks start files session) {tables : Path → Option (List Hash)}
    (hstores : blocks.Stores (set.unsaved blocks.blockSize) tables files files') :
    ∀ block < start.numBlocks, blocks.Names files'
      ((set.commit blocks.build blocks.blockSize).blocksIds block)
        (blockOf blocks.blockSize set.region block) := by
  intro block hblock
  rw [commit_blocksIds]
  split_ifs with hdirty
  · exact .inr (hstores.stored _ (Set.mem_image_of_mem _ hdirty))
  · exact hstores.keep_names hsound (hfollows.names block hblock hdirty)

/-- What a written table has for a block. -/
theorem getD_table (set : WorkingSet Hash) (entries : List Hash) (block : ℕ) (default : Hash) :
    (set.table entries).getD block default =
      if block < occupiedBlocks set.touched then set.blocksIds block
      else entries.getD block default := by
  rw [table, getD_overwrite, List.length_map, List.length_range]
  split_ifs with hblock
  · simp [hblock]
  · rfl

theorem Follows.length_table_le (hfollows : set.Follows blocks start files session)
    (hsize : start.blockSize = blocks.blockSize) {entries : List Hash}
    (hlength : entries.length ≤ start.regionMaxCapacity / blocks.blockSize) :
    ((set.commit blocks.build blocks.blockSize).table entries).length ≤
      start.regionMaxCapacity / blocks.blockSize := by
  have hoccupied : occupiedBlocks set.touched ≤ start.numBlocks :=
    VirtualMemoryManagerBase.occupiedBlocks_le hfollows.touched_lt
  rw [VirtualMemoryManagerBase.numBlocks, hsize] at hoccupied
  rw [WorkingSet.table, length_overwrite, List.length_map, List.length_range]
  exact max_le hoccupied hlength

/-- The table of the session's version has the name of every block after a commit. -/
theorem Follows.getD_commit (hfollows : set.Follows blocks start files session)
    {entries : List Hash} (htable : ∀ block ∉ set.touched,
      entries.getD block blocks.build.emptyBlockHash = set.blocksIds block) (block : ℕ) :
    ((set.commit blocks.build blocks.blockSize).table entries).getD block
        blocks.build.emptyBlockHash =
      (set.commit blocks.build blocks.blockSize).blocksIds block := by
  rw [getD_table]
  split_ifs with hblock
  · rfl
  · have htouched : block ∉ set.touched := fun hmember =>
      hblock (lt_occupiedBlocks_iff.mpr ⟨block, hmember, le_rfl⟩)
    rw [htable block htouched, hfollows.commit_blocksIds_of_notMem htouched]

/-- The version of a session denotes its copy after a commit. -/
theorem Follows.msync (hsound : blocks.build.Sound) (hsize : start.blockSize = blocks.blockSize)
    (hfollows : set.Follows blocks start files session) {entries : List Hash}
    (hmetadata : files.metadata start.versionMetadataPath = some entries)
    (hstores : blocks.Stores (set.unsaved blocks.blockSize)
      (Function.update files.metadata start.versionMetadataPath
        (some ((set.commit blocks.build blocks.blockSize).table entries))) files files') :
    (set.commit blocks.build blocks.blockSize).Follows blocks start files'
      (session.perform blocks.blockSize start.versionMetadataPath .msync) := by
  obtain ⟨entries', hversion, htable⟩ := hfollows.table
  cases hmetadata.symm.trans hversion.metadata
  have hnames := hfollows.commit_names hsound hstores
  have hentries := hfollows.getD_commit htable
  have hversion' := hstores.hasVersion hversion (Function.update_self _ _ _)
    (hfollows.length_table_le hsize hversion.length_le)
  have hnum : start.regionMaxCapacity / blocks.blockSize = start.numBlocks := by
    rw [VirtualMemoryManagerBase.numBlocks, hsize]
  refine
    { shows := ?_
      bytes := hfollows.bytes
      numBlocks := hfollows.numBlocks
      touched := hfollows.touched
      touched_lt := hfollows.touched_lt
      dirty := Finset.empty_subset _
      names := fun block hblock _ => hnames block hblock
      directory := (hstores.directories _).trans hfollows.directory
      located := (hstores.directories _).trans hfollows.located
      table := ⟨_, hversion', fun block _ => hentries block⟩ }
  refine hfollows.shows.put (fun path hpath => (hstores.directories path).trans hpath)
    (congrFun hstores.texts _) hfollows.located (fun other hother => ?_)
    (fun other capacity region hother hdenotes => ?_)
    ((hstores.directories _).trans hfollows.directory) (hnum.trans hfollows.numBlocks.symm)
    ⟨_, hversion', fun block hblock => ?_⟩
  · rw [hstores.metadata, Function.update_of_ne hother]
  · exact hstores.denotes hsound (Function.update_of_ne hother _ _) hdenotes
  · rw [hentries, hfollows.bytes]
    exact hnames block (hblock.trans_eq hnum)

/-! ### The other calls -/

/-- An access only touches its block. -/
theorem Follows.access (hsound : blocks.build.Sound)
    (hfollows : set.Follows blocks start files session)
    (hstores : blocks.Stores ∅ files.metadata files files') {block : ℕ}
    (hblock : block < start.numBlocks) (isWrite : Bool) :
    (set.access block isWrite).Follows blocks start files'
      { session with touched := insert block session.touched } := by
  obtain ⟨entries, hversion, htable⟩ := hfollows.table
  refine
    { shows := hfollows.shows.stores hsound hstores
      bytes := hfollows.bytes
      numBlocks := hfollows.numBlocks
      touched := congrArg (insert block) hfollows.touched
      touched_lt := ?_
      dirty := ?_
      names := ?_
      directory := (hstores.directories _).trans hfollows.directory
      located := (hstores.directories _).trans hfollows.located
      table := ⟨entries, hstores.hasVersion hversion hversion.metadata hversion.length_le,
        fun other hother => htable other fun hmember => hother (Finset.mem_insert_of_mem hmember)⟩ }
  · intro other hother
    rcases Finset.mem_insert.mp hother with rfl | hmember
    · exact hblock
    · exact hfollows.touched_lt other hmember
  · intro other hother
    cases isWrite with
    | true =>
        rcases Finset.mem_insert.mp hother with rfl | hmember
        · exact Finset.mem_insert_self _ _
        · exact Finset.mem_insert_of_mem (hfollows.dirty hmember)
    | false => exact Finset.mem_insert_of_mem (hfollows.dirty hother)
  · intro other hlt hclean
    refine hstores.keep_names hsound (hfollows.names other hlt fun hdirty => hclean ?_)
    cases isWrite with
    | true => exact Finset.mem_insert_of_mem hdirty
    | false => exact hdirty

/-- A write changes a block that is dirty. -/
theorem Follows.write (hpos : 0 < blocks.blockSize)
    (hfollows : set.Follows blocks start files session) {offset : ℕ}
    (hdirty : offset / blocks.blockSize ∈ set.dirty) (byte : Byte) :
    (set.write offset byte).Follows blocks start files
      { session with copy := session.copy.write offset byte } where
  shows := hfollows.shows
  bytes := by
    change Function.update session.copy.bytes offset byte = Function.update set.region offset byte
    rw [hfollows.bytes]
  numBlocks := hfollows.numBlocks
  touched := hfollows.touched
  touched_lt := hfollows.touched_lt
  dirty := hfollows.dirty
  names := by
    intro block hblock hclean
    have hne : block ≠ offset / blocks.blockSize := fun hsame => hclean (hsame ▸ hdirty)
    have hnames := hfollows.names block hblock hclean
    rwa [← blockOf_update_of_ne hpos set.region hne byte] at hnames
  directory := hfollows.directory
  located := hfollows.located
  table := hfollows.table

/-- The directory of a version is made. -/
theorem Follows.setDirectory (hfollows : set.Follows blocks start files session)
    (directory : Directory) :
    set.Follows blocks start (files.setDirectory directory) session := by
  obtain ⟨entries, hversion, htable⟩ := hfollows.table
  have hshows := hfollows.shows
  exact
    { shows :=
        { missing := hshows.missing
          denoted := by
            intro version region hregion
            obtain ⟨hthere, hlocated, capacity, hcapacity, hdenotes⟩ :=
              hshows.denoted version region hregion
            exact ⟨FileSystem.directories_setDirectory hthere,
              FileSystem.directories_setDirectory hlocated, capacity, hcapacity,
              hdenotes.setDirectory directory⟩
          granularity := fun _ => hversion.granularity }
      bytes := hfollows.bytes
      numBlocks := hfollows.numBlocks
      touched := hfollows.touched
      touched_lt := hfollows.touched_lt
      dirty := hfollows.dirty
      names := fun block hblock hclean =>
        (hfollows.names block hblock hclean).keep fun _ _ _ hbytes => hbytes
      directory := FileSystem.directories_setDirectory hfollows.directory
      located := FileSystem.directories_setDirectory hfollows.located
      table := ⟨entries, hversion.keep (BlocksDirectory.promises_createDirectory directory),
        htable⟩ }

/-- A snapshot under a name that is not in use publishes what the commit writes. -/
theorem Follows.taken (hsound : blocks.build.Sound) (hpos : 0 < blocks.blockSize)
    (hsize : start.blockSize = blocks.blockSize)
    (hfollows : set.Follows blocks start files session) {version : Path}
    (hnew : session.versions version = none) (hdirectory : files.directories (.path version))
    (hstores : blocks.Stores (set.unsaved blocks.blockSize)
      (Function.update files.metadata version
        (some ((set.commit blocks.build blocks.blockSize).table []))) files files') :
    (set.commit blocks.build blocks.blockSize).Follows blocks start
      (files'.writeVersion version ((set.commit blocks.build blocks.blockSize).table [])
        blocks.location start.regionMaxCapacity)
      { session with
        versions := Function.update session.versions version
          (some (session.copy.written blocks.blockSize session.touched)) } := by
  obtain ⟨entries, hversion, htable⟩ := hfollows.table
  have hmissing := hfollows.shows.missing version hnew
  have hother : start.versionMetadataPath ≠ version := by
    rintro rfl
    cases hversion.metadata.symm.trans hmissing
  have hnum : start.regionMaxCapacity / blocks.blockSize = start.numBlocks := by
    rw [VirtualMemoryManagerBase.numBlocks, hsize]
  have hnames := hfollows.commit_names hsound hstores
  have hdirectories : ∀ path, files.directories (.path path) → files'.directories (.path path) :=
    fun path hpath => (hstores.directories path).trans hpath
  have hothers : ∀ other capacity region, other ≠ version →
      blocks.Denotes files other capacity region → blocks.Denotes (files'.writeVersion version
        ((set.commit blocks.build blocks.blockSize).table []) blocks.location
          start.regionMaxCapacity) other capacity region := by
    intro other capacity region hne hdenotes
    exact (hstores.denotes hsound (Function.update_of_ne hne _ _) hdenotes).writeVersion hne _
  have hpublished : blocks.HasVersion (files'.writeVersion version
      ((set.commit blocks.build blocks.blockSize).table []) blocks.location
        start.regionMaxCapacity) version start.regionMaxCapacity
          ((set.commit blocks.build blocks.blockSize).table []) :=
    { blocksPath := FileSystem.blocksPath_writeVersion
      capacityText := FileSystem.capacity_writeVersion
      granularity := by
        rw [FileSystem.texts_writeVersion_of_ne (by simp) (by simp), hstores.texts]
        exact hversion.granularity
      metadata := FileSystem.metadata_writeVersion
      length_le := hfollows.length_table_le hsize (Nat.zero_le _) }
  have hkept := hstores.hasVersion hversion
    ((Function.update_of_ne hother _ _).trans hversion.metadata) hversion.length_le
  refine
    { shows := ?_
      bytes := hfollows.bytes
      numBlocks := hfollows.numBlocks
      touched := hfollows.touched
      touched_lt := hfollows.touched_lt
      dirty := Finset.empty_subset _
      names := fun block hblock _ => (hnames block hblock).keep fun _ _ _ hbytes => hbytes
      directory := hdirectories _ hfollows.directory
      located := hdirectories _ hfollows.located
      table := ⟨entries, ⟨?_, ?_, ?_, ?_, hversion.length_le⟩, fun block htouched =>
        (htable block htouched).trans (hfollows.commit_blocksIds_of_notMem htouched).symm⟩ }
  · refine hfollows.shows.put hdirectories ?_ hfollows.located (fun other hne => ?_) hothers
      ((hstores.directories _).trans hdirectory)
      (hnum.trans hfollows.numBlocks.symm) ⟨_, hpublished, fun block hblock => ?_⟩
    · rw [FileSystem.texts_writeVersion_of_ne (by simp) (by simp), hstores.texts]
    · rw [FileSystem.metadata_writeVersion_of_ne hne, hstores.metadata, Function.update_of_ne hne]
    · rw [getD_table, ByteRegion.blockOf_written hpos, hfollows.touched, hfollows.bytes]
      change blocks.Names _ (if block < occupiedBlocks set.touched then _ else _) _
      split_ifs with hoccupied
      · exact (hnames block (hblock.trans_eq hnum)).keep fun _ _ _ hbytes => hbytes
      · exact .inl ⟨rfl, rfl⟩
  · rw [FileSystem.texts_writeVersion_of_ne (by simp) (by simp [hother])]
    exact hkept.blocksPath
  · rw [FileSystem.texts_writeVersion_of_ne (by simp [hother]) (by simp)]
    exact hkept.capacityText
  · rw [FileSystem.texts_writeVersion_of_ne (by simp) (by simp)]
    exact hkept.granularity
  · rw [FileSystem.metadata_writeVersion_of_ne hother]
    exact hkept.metadata

/-- A call does to the plain arrays what it does to the working set. -/
theorem Follows.perform (hsound : blocks.build.Sound) (hpos : 0 < blocks.blockSize)
    (hsize : start.blockSize = blocks.blockSize)
    (hfollows : set.Follows blocks start files session)
    (hwithin : call.Within (start.numBlocks * blocks.blockSize))
    (hperforms : Performs blocks start set files call bytes set' files') :
    bytes = session.reply call ∧ set'.Follows blocks start files'
      (session.perform blocks.blockSize start.versionMetadataPath call) := by
  have hinside : ∀ offset < start.numBlocks * blocks.blockSize,
      offset / blocks.blockSize < start.numBlocks := fun offset hoffset =>
    Nat.div_lt_of_lt_mul (by rwa [Nat.mul_comm])
  cases hperforms with
  | @read offset _ hstores =>
      refine ⟨?_, hfollows.access hsound hstores (hinside offset hwithin) false⟩
      rw [PlainSession.reply, hfollows.bytes]
  | @write offset byte _ hreadWrite hstores =>
      exact ⟨rfl, (hfollows.access hsound hstores (hinside offset hwithin) true).write hpos
        (Finset.mem_insert_self _ _) byte⟩
  | msync hmetadata hstores => exact ⟨rfl, hfollows.msync hsound hsize hmetadata hstores⟩
  | @refused version hdirectory hmetadata =>
      refine ⟨rfl, ?_⟩
      rw [PlainSession.perform, if_pos ((hfollows.shows.metadata_isSome version).mp hmetadata)]
      exact hfollows
  | @taken version between hnew hstores =>
      have huntaken : session.versions version = none := by
        by_contra hthere
        obtain ⟨region, hregion⟩ := Option.ne_none_iff_exists'.mp hthere
        refine hnew ⟨(hfollows.shows.denoted version region hregion).1, ?_⟩
        rw [hfollows.shows.metadata_isSome, hregion]
        rfl
      rw [hfollows.shows.missing version huntaken] at hstores ⊢
      refine ⟨rfl, ?_⟩
      rw [PlainSession.perform, huntaken, Option.isSome_none, if_neg Bool.false_ne_true]
      exact (hfollows.setDirectory _).taken hsound hpos hsize huntaken
        (files.setDirectory_self _) hstores

/-- Whole programs, by induction on their calls. -/
theorem Follows.performAll (hsound : blocks.build.Sound) (hpos : 0 < blocks.blockSize)
    (hsize : start.blockSize = blocks.blockSize) {calls : List SessionCall}
    (hperforms : PerformsAll blocks start set files calls bytes set' files')
    (hfollows : set.Follows blocks start files session)
    (hwithin : ∀ call ∈ calls, call.Within (start.numBlocks * blocks.blockSize)) :
    bytes = (PlainSession.performAll blocks.blockSize start.versionMetadataPath calls session).1 ∧
      set'.Follows blocks start files'
        (PlainSession.performAll blocks.blockSize start.versionMetadataPath calls session).2 := by
  induction hperforms generalizing session with
  | nil => exact ⟨rfl, hfollows⟩
  | cons hfirst hrest ih =>
      obtain ⟨rfl, hnext⟩ :=
        hfollows.perform hsound hpos hsize (hwithin _ List.mem_cons_self) hfirst
      obtain ⟨rfl, hlast⟩ := ih hnext fun call hcall => hwithin call (List.mem_cons_of_mem _ hcall)
      exact ⟨rfl, hlast⟩

end WorkingSet

end Privateer
