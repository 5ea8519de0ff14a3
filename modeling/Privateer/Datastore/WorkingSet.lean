import Privateer.Datastore.CommittedBlocks
import Privateer.Datastore.SameDatastore
import Privateer.VirtualMemory.TierCommits

/-!
# Sessions that fit in memory

A session that never has to evict a block is a small machine: it holds a region and
remembers which blocks were touched, which of them were written to since the last commit, and
the names of all blocks.  What it does to a datastore follows from these alone, up to what no
reader can tell apart.  Both managers carry this machine out, each with lists and maps of its
own.
-/

namespace Privateer

variable {Hash : Type}

/-- What a program asks of its session, however the workers of a commit are scheduled. -/
inductive SessionCall where
  | read (offset : ℕ)
  | write (offset : ℕ) (byte : Byte)
  | msync
  | snapshot (version : Path)

/-- The call of an operation with a schedule. -/
def Operation.call : Operation → SessionCall
  | .read offset => .read offset
  | .write offset byte => .write offset byte
  | .msync _ => .msync
  | .snapshot version _ => .snapshot version

/-- The access lies in the region. -/
def SessionCall.Within (size : ℕ) : SessionCall → Prop
  | .read offset | .write offset _ => offset < size
  | .msync | .snapshot _ => True

/-- The block that a call needs in memory. -/
def SessionCall.touches (blockSize : ℕ) : SessionCall → Finset ℕ
  | .read offset | .write offset _ => {offset / blockSize}
  | .msync | .snapshot _ => ∅

/-- The blocks that a program needs in memory. -/
def touchedBlocks (blockSize : ℕ) : List SessionCall → Finset ℕ
  | [] => ∅
  | call :: rest => call.touches blockSize ∪ touchedBlocks blockSize rest

/-- There is room for the blocks that a call needs. -/
def SessionCall.Fits (call : SessionCall) (blockSize maxMemSize : ℕ) (touched : Finset ℕ) : Prop :=
  (touched ∪ call.touches blockSize).card * blockSize ≤ maxMemSize

/-- A session that evicts nothing: its region and what it remembers of the blocks. -/
structure WorkingSet (Hash : Type) where
  region : ℕ → Byte
  touched : Finset ℕ
  dirty : Finset ℕ
  blocksIds : ℕ → Hash

namespace WorkingSet

open VirtualMemoryManagerBase (occupiedBlocks)

/-- Before the first access. -/
def initial (region : ℕ → Byte) (blocksIds : ℕ → Hash) : WorkingSet Hash :=
  ⟨region, ∅, ∅, blocksIds⟩

/-- An access to a block. -/
def access (set : WorkingSet Hash) (block : ℕ) (isWrite : Bool) : WorkingSet Hash :=
  { set with
    touched := insert block set.touched
    dirty := if isWrite then insert block set.dirty else set.dirty }

/-- A write of one byte, once its block can be written to. -/
def write (set : WorkingSet Hash) (offset : ℕ) (byte : Byte) : WorkingSet Hash :=
  { set with region := Function.update set.region offset byte }

/-- A commit gives the dirty blocks the names of their contents. -/
def commit (build : Build Hash) (blockSize : ℕ) (set : WorkingSet Hash) : WorkingSet Hash :=
  { set with
    dirty := ∅
    blocksIds := fun block =>
      if block ∈ set.dirty then build.computeHash (blockOf blockSize set.region block)
      else set.blocksIds block }

/-- The table that a commit writes over `entries`. -/
def table (set : WorkingSet Hash) (entries : List Hash) : List Hash :=
  overwrite ((List.range (occupiedBlocks set.touched)).map set.blocksIds) entries

/-- The contents that a commit stores. -/
def unsaved (set : WorkingSet Hash) (blockSize : ℕ) : Set (List Byte) :=
  blockOf blockSize set.region '' set.dirty

/-- What a call replies, what it makes of the session, and what it does to the datastore. -/
inductive Performs (blocks : BlocksDirectory Hash) (start : VirtualMemoryManagerBase Hash)
    (set : WorkingSet Hash) (files : FileSystem Hash) :
    SessionCall → List Byte → WorkingSet Hash → FileSystem Hash → Prop
  | read {offset : ℕ} {files' : FileSystem Hash}
      (hstores : blocks.Stores ∅ files.metadata files files') :
      Performs blocks start set files (.read offset) [set.region offset]
        (set.access (offset / blocks.blockSize) false) files'
  | write {offset : ℕ} {byte : Byte} {files' : FileSystem Hash}
      (hreadWrite : start.readOnly = false)
      (hstores : blocks.Stores ∅ files.metadata files files') :
      Performs blocks start set files (.write offset byte) []
        ((set.access (offset / blocks.blockSize) true).write offset byte) files'
  | msync {entries : List Hash} {files' : FileSystem Hash}
      (hmetadata : files.metadata start.versionMetadataPath = some entries)
      (hstores : blocks.Stores (set.unsaved blocks.blockSize)
        (Function.update files.metadata start.versionMetadataPath
          (some ((set.commit blocks.build blocks.blockSize).table entries))) files files') :
      Performs blocks start set files .msync [] (set.commit blocks.build blocks.blockSize) files'
  | refused {version : Path} (hdirectory : files.directories (.path version))
      (hmetadata : (files.metadata version).isSome) :
      Performs blocks start set files (.snapshot version) [] set files
  | taken {version : Path} {files' : FileSystem Hash}
      (hnew : ¬ (files.directories (.path version) ∧ (files.metadata version).isSome))
      (hstores : blocks.Stores (set.unsaved blocks.blockSize)
        (Function.update files.metadata version
          (some ((set.commit blocks.build blocks.blockSize).table
            ((files.metadata version).getD []))))
        (files.setDirectory (.path version)) files') :
      Performs blocks start set files (.snapshot version) []
        (set.commit blocks.build blocks.blockSize)
        (files'.writeVersion version
          ((set.commit blocks.build blocks.blockSize).table ((files.metadata version).getD []))
          blocks.location start.regionMaxCapacity)

/-- A call is answered alike, and does the same, on datastores that no reader can tell
apart. -/
theorem Performs.same {blocks : BlocksDirectory Hash} {start : VirtualMemoryManagerBase Hash}
    {set set' set'' : WorkingSet Hash} {left left' right right' : FileSystem Hash}
    {call : SessionCall} {bytes bytes' : List Byte}
    (hleft : Performs blocks start set left call bytes set' left')
    (hright : Performs blocks start set right call bytes' set'' right')
    (hsame : blocks.SameDatastore left right) :
    bytes = bytes' ∧ set' = set'' ∧ blocks.SameDatastore left' right' := by
  cases hleft with
  | read hstores =>
      cases hright with
      | read hstores' =>
          rw [hsame.metadata] at hstores'
          exact ⟨rfl, rfl, hsame.stores hstores hstores'⟩
  | write _ hstores =>
      cases hright with
      | write _ hstores' =>
          rw [hsame.metadata] at hstores'
          exact ⟨rfl, rfl, hsame.stores hstores hstores'⟩
  | msync hmetadata hstores =>
      cases hright with
      | msync hmetadata' hstores' =>
          rw [hsame.metadata] at hmetadata' hstores'
          cases hmetadata.symm.trans hmetadata'
          exact ⟨rfl, rfl, hsame.stores hstores hstores'⟩
  | refused hdirectory hmetadata =>
      cases hright with
      | refused _ _ => exact ⟨rfl, rfl, hsame⟩
      | taken hnew _ =>
          rw [hsame.directories, hsame.metadata] at hnew
          exact absurd ⟨hdirectory, hmetadata⟩ hnew
  | taken hnew hstores =>
      cases hright with
      | refused hdirectory hmetadata =>
          rw [hsame.directories] at hdirectory
          rw [hsame.metadata] at hmetadata
          exact absurd ⟨hdirectory, hmetadata⟩ hnew
      | taken _ hstores' =>
          rw [hsame.metadata] at hstores' ⊢
          exact ⟨rfl, rfl, ((hsame.setDirectory _).stores hstores hstores').writeVersion _ _ _ _⟩

/-- A call brings the block that it needs into memory, and no other. -/
theorem Performs.touched {blocks : BlocksDirectory Hash} {start : VirtualMemoryManagerBase Hash}
    {set set' : WorkingSet Hash} {files files' : FileSystem Hash} {call : SessionCall}
    {bytes : List Byte} (hperforms : Performs blocks start set files call bytes set' files') :
    set'.touched = set.touched ∪ call.touches blocks.blockSize := by
  cases hperforms with
  | read _ => exact (Finset.insert_eq _ _).trans (Finset.union_comm _ _)
  | write _ _ => exact (Finset.insert_eq _ _).trans (Finset.union_comm _ _)
  | msync _ _ => exact (Finset.union_empty _).symm
  | refused _ _ => exact (Finset.union_empty _).symm
  | taken _ _ => exact (Finset.union_empty _).symm

/-- The version of the session stays: a snapshot under its path is refused. -/
theorem Performs.version {blocks : BlocksDirectory Hash} {start : VirtualMemoryManagerBase Hash}
    {set set' : WorkingSet Hash} {files files' : FileSystem Hash} {call : SessionCall}
    {bytes : List Byte} (hperforms : Performs blocks start set files call bytes set' files')
    (hdirectory : files.directories (.path start.versionMetadataPath))
    (hmetadata : (files.metadata start.versionMetadataPath).isSome) :
    files'.directories (.path start.versionMetadataPath) ∧
      (files'.metadata start.versionMetadataPath).isSome := by
  cases hperforms with
  | read hstores =>
      rw [hstores.directories, hstores.metadata]
      exact ⟨hdirectory, hmetadata⟩
  | write _ hstores =>
      rw [hstores.directories, hstores.metadata]
      exact ⟨hdirectory, hmetadata⟩
  | msync _ hstores =>
      rw [hstores.directories, hstores.metadata, Function.update_self]
      exact ⟨hdirectory, rfl⟩
  | refused _ _ => exact ⟨hdirectory, hmetadata⟩
  | @taken version between hnew hstores =>
      have hother : start.versionMetadataPath ≠ version := by
        rintro rfl
        exact hnew ⟨hdirectory, hmetadata⟩
      have hkept := hstores.directories start.versionMetadataPath
      rw [FileSystem.directories_setDirectory hdirectory] at hkept
      refine ⟨hkept, ?_⟩
      rw [FileSystem.metadata_writeVersion_of_ne hother, hstores.metadata,
        Function.update_of_ne hother]
      exact hmetadata

/-! ## Whole programs -/

/-- The calls one after the other, with the bytes of all reads. -/
inductive PerformsAll (blocks : BlocksDirectory Hash) (start : VirtualMemoryManagerBase Hash) :
    WorkingSet Hash → FileSystem Hash → List SessionCall → List Byte → WorkingSet Hash →
      FileSystem Hash → Prop
  | nil {set : WorkingSet Hash} {files : FileSystem Hash} :
      PerformsAll blocks start set files [] [] set files
  | cons {set set' set'' : WorkingSet Hash} {files files' files'' : FileSystem Hash}
      {call : SessionCall} {rest : List SessionCall} {bytes bytes' : List Byte}
      (hfirst : Performs blocks start set files call bytes set' files')
      (hrest : PerformsAll blocks start set' files' rest bytes' set'' files'') :
      PerformsAll blocks start set files (call :: rest) (bytes ++ bytes') set'' files''

/-- A program is answered alike on datastores that no reader can tell apart. -/
theorem PerformsAll.same {blocks : BlocksDirectory Hash} {start : VirtualMemoryManagerBase Hash}
    {set set' set'' : WorkingSet Hash} {left left' right right' : FileSystem Hash}
    {calls : List SessionCall} {bytes bytes' : List Byte}
    (hleft : PerformsAll blocks start set left calls bytes set' left')
    (hright : PerformsAll blocks start set right calls bytes' set'' right')
    (hsame : blocks.SameDatastore left right) :
    bytes = bytes' ∧ blocks.SameDatastore left' right' := by
  induction hleft generalizing right bytes' with
  | nil =>
      cases hright with
      | nil => exact ⟨rfl, hsame⟩
  | cons hfirst hrest ih =>
      cases hright with
      | cons hfirst' hrest' =>
          obtain ⟨rfl, rfl, hbetween⟩ := hfirst.same hfirst' hsame
          obtain ⟨rfl, hlast⟩ := ih hrest' hbetween
          exact ⟨rfl, hlast⟩

/-- Only a session that may write has written. -/
theorem PerformsAll.readWrite {blocks : BlocksDirectory Hash}
    {start : VirtualMemoryManagerBase Hash} {set set' : WorkingSet Hash}
    {files files' : FileSystem Hash} {calls : List SessionCall} {bytes : List Byte}
    (hperforms : PerformsAll blocks start set files calls bytes set' files') {offset : ℕ}
    {byte : Byte} (hwrite : .write offset byte ∈ calls) : start.readOnly = false := by
  induction hperforms with
  | nil => cases hwrite
  | cons hfirst hrest ih =>
      rcases List.mem_cons.mp hwrite with hcall | hlater
      · subst hcall
        cases hfirst with
        | write hreadWrite _ => exact hreadWrite
      · exact ih hlater

theorem commit_blocksIds (build : Build Hash) (blockSize : ℕ) (set : WorkingSet Hash)
    (block : ℕ) : (set.commit build blockSize).blocksIds block =
      if block ∈ set.dirty then build.computeHash (blockOf blockSize set.region block)
      else set.blocksIds block := rfl

theorem lt_occupiedBlocks_iff {blocks : Finset ℕ} {block : ℕ} :
    block < occupiedBlocks blocks ↔ ∃ present ∈ blocks, block ≤ present := by
  unfold occupiedBlocks
  constructor
  · intro hblock
    split_ifs at hblock with hempty
    · exact absurd hblock (Nat.not_lt_zero block)
    · obtain ⟨last, hlast, hsup⟩ :=
        Finset.exists_mem_eq_sup _ (Finset.nonempty_iff_ne_empty.mpr hempty) id
      rw [hsup] at hblock
      exact ⟨last, hlast, Nat.le_of_lt_succ hblock⟩
  · rintro ⟨present, hpresent, hle⟩
    rw [if_neg (Finset.ne_empty_of_mem hpresent)]
    exact Nat.lt_succ_of_le (hle.trans (Finset.le_sup (f := id) hpresent))

end WorkingSet

variable [DecidableEq Hash] {blocks : BlocksDirectory Hash} {files files' : FileSystem Hash}

/-! ## The frame of a snapshot -/

section Snapshots

variable {Manager : Type} {version : Path} {manager committed : Manager}

/-- A snapshot is refused under the path of a version that is there. -/
theorem run_whereNew (version : Path) (manager : Manager)
    (take : StorageProgram Hash (Bool × Manager)) (files : FileSystem Hash) :
    (do
      if ← systemCall (.directoryExists (.path version)) then
        if ← systemCall (.metadataExists version) then return (false, manager) else take
      else if ← systemCall (.createDirectory (.path version)) then take
      else return (false, manager) : StorageProgram Hash (Bool × Manager)).run FileSystem.answer
        files =
      if files.directories (.path version) ∧ (files.metadata version).isSome then
        (.returned (false, manager), files)
      else take.run FileSystem.answer (files.setDirectory (.path version)) := by
  cases hdirectory : files.directories (.path version) with
  | true =>
      rw [FileSystem.setDirectory_of_directories hdirectory]
      cases hmetadata : files.metadata version with
      | some entries => simp [FileSystem.answer, hdirectory, hmetadata]
      | none => simp [FileSystem.answer, hdirectory, hmetadata]
  | false => simp [FileSystem.answer, hdirectory]

/-- A snapshot that is taken: the table is opened, the commit writes it, and the texts
follow. -/
theorem run_writeSnapshot {commit : StorageProgram Hash Manager} {written : List Hash}
    (hdirectory : files.directories (.path version))
    (hcommit : commit.run FileSystem.answer
      (files.setMetadata version (some ((files.metadata version).getD []))) =
        (.returned committed, files'))
    (hdirectory' : files'.directories (.path version))
    (hwritten : files'.metadata version = some written)
    {location : Manager → Path} {capacity : Manager → ℕ} {path : Path} {size : ℕ}
    (hlocation : location committed = path) (hcapacity : capacity committed = size)
    (restore : Manager → Manager) :
    (do
      let _ ← systemCall (.openMetadata version true false)
      let _ ← systemCall .close
      let committed ← commit
      writeTextFile (.blocksPath version) (.path (location committed))
      writeTextFile (.capacity version) (.number (capacity committed))
      return (true, restore committed) : StorageProgram Hash (Bool × Manager)).run
        FileSystem.answer files =
      (.returned (true, restore committed),
        files'.writeVersion version written path size) := by
  subst hlocation hcapacity
  simp only [Program.request_bind, Program.run_call,
    SigactionVirtualMemoryManager.answer_openTable hdirectory]
  simp only [FileSystem.answer]
  rw [Program.run_bind_of_returned hcommit]
  have htexts := run_writeTextFiles hdirectory' written (location committed) (capacity committed)
    (.finish (true, restore committed))
  rw [FileSystem.setMetadata_eq_self hwritten] at htexts
  exact htexts

end Snapshots

/-! ## What the block storage does -/

namespace BlockStorage

variable {storage : BlockStorage Hash}

omit [DecidableEq Hash] in
/-- A block is looked up under its name. -/
theorem storesOnly_getBlockFullPath (index : ℕ) (name : Hash) :
    (getBlockFullPath blocks.build storage index name).CallsOnly
      (Call.StoresOnly blocks {name}) := by
  apply permits_getBlockFullPath fun onStash => permits_storesOnly (Set.mem_singleton name) onStash
  refine ⟨trivial, (fun _ h => by cases h), fun other hother hmember => hother ?_⟩
  obtain ⟨-, -, rfl⟩ := DataFile.block.inj (List.mem_singleton.mp hmember)
  rfl

end BlockStorage

/-- A program that only looks up a block that is there changes nothing that is seen. -/
theorem BlocksDirectory.stores_of_lookup {name : Hash} {content : List Byte} {A : Type}
    {program : StorageProgram Hash A} {outcome : Outcome A}
    (hcalls : program.CallsOnly (Call.StoresOnly blocks {name}))
    (hstored : blocks.Stored files name content) (hkeeps : blocks.Keeps files files')
    (hrun : program.run FileSystem.answer files = (outcome, files')) :
    blocks.Stores ∅ files.metadata files files' := by
  have hnames : {name} = blocks.build.computeHash '' {content} := by
    rw [Set.image_singleton, hstored.hash]
  rw [hnames] at hcalls
  have hstores := stores_of_run hcalls hrun fun other hother => by
    rw [Set.mem_singleton_iff.mp hother, hstored.hash]
    exact hstored.keep hkeeps
  refine ⟨hstores.directories, hstores.texts, hstores.metadata,
    fun _ hcontent => hcontent.elim, fun other _ => ?_⟩
  by_cases hsame : other = name
  · rw [hsame, hstored.file, (hstored.keep hkeeps).file]
  · refine hstores.others other fun stored hmember => ?_
    rw [Set.mem_singleton_iff.mp hmember, hstored.hash]
    exact hsame

namespace VirtualMemoryManagerBase

variable {base : VirtualMemoryManagerBase Hash} {dirtyLru : List ℕ} {memory : ℕ → List Byte}

omit [DecidableEq Hash] in
theorem storesOnly_commitBlocks (schedule : MsyncSchedule) :
    (commitBlocks blocks.build base dirtyLru memory ∅ schedule).CallsOnly
      (Call.StoresOnly blocks
        (blocks.build.computeHash '' (memory '' {block | block ∈ dirtyLru}))) := by
  have hstores : (storeDirtyBlocks blocks.build base dirtyLru memory schedule.storing).CallsOnly
      (Call.StoresOnly blocks
        (blocks.build.computeHash '' (memory '' {block | block ∈ dirtyLru}))) := by
    apply Program.callsOnly_interleave
    intro worker hworker
    obtain ⟨block, hblock, rfl⟩ := List.mem_map.mp hworker
    have hname : blocks.build.computeHash (memory block) ∈
        blocks.build.computeHash '' (memory '' {block | block ∈ dirtyLru}) :=
      Set.mem_image_of_mem _ (Set.mem_image_of_mem _ hblock)
    apply (BlockStorage.permits_storeBlock fun onStash =>
      BlockStorage.permits_storesOnly hname onStash).bind
    intro stored
    cases stored with
    | none => trivial
    | some stored => trivial
  apply hstores.bind
  intro stored
  have hvector : (stored.foldl recordStored base).stashVector ∅ = [] := by
    simp [stashVector]
  dsimp only
  rw [hvector, Program.arrange_nil]
  trivial

/-- A commit without stashed blocks gives the dirty blocks the names of their contents, and
stores these. -/
theorem commitBlocks_stores (hsound : blocks.build.Sound)
    (hlocation : base.blockStorage.baseDirectory = blocks.location)
    (hsize : base.blockStorage.blockGranularity = blocks.blockSize)
    (hnamed : blocks.TiersNamed base.blockStorage.tiers files) (hnodup : dirtyLru.Nodup)
    (hlength : ∀ block ∈ dirtyLru, (memory block).length = blocks.blockSize)
    {schedule : MsyncSchedule} {committed : List (ℕ × Hash) × VirtualMemoryManagerBase Hash}
    (hrun : (commitBlocks blocks.build base dirtyLru memory ∅ schedule).run FileSystem.answer
      files = (.returned committed, files')) :
    (∀ block, committed.2.blocksIds block =
      if block ∈ dirtyLru then blocks.build.computeHash (memory block)
      else base.blocksIds block) ∧
    blocks.Stores (memory '' {block | block ∈ dirtyLru}) files.metadata files files' := by
  obtain ⟨stored, between, hrun', hperm, hnames, -⟩ :=
    run_commitBlocks_tiers hsound hsize hnamed hlength schedule
  cases hrun'.symm.trans hrun
  have hstored : ∀ block ∈ dirtyLru, ∃ entry ∈ stored, entry.1 = block ∧
      blocks.Stored files' entry.2 (memory block) := by
    intro block hblock
    obtain ⟨entry, hentry, rfl⟩ := List.mem_map.mp (hperm.mem_iff.mpr hblock)
    have htier := hnames entry hentry _ BlockStorage.baseDirectory_mem_tiers
    rw [hlocation] at htier
    exact ⟨entry, hentry, rfl, htier⟩
  refine ⟨fun block => ?_, BlocksDirectory.stores_of_run (storesOnly_commitBlocks schedule) hrun
    ?_⟩
  · split_ifs with hblock
    · obtain ⟨entry, hentry, rfl, hfile⟩ := hstored block hblock
      rw [hfile.hash]
      exact foldl_recordStored_blocksIds base (hperm.nodup_iff.mpr hnodup) entry hentry
    · obtain ⟨noted, blocksIds, hrecorded, hkept⟩ := foldl_recordStored_eq base stored
      change (stored.foldl recordStored base).blocksIds block = _
      rw [hrecorded]
      exact (hkept block (hperm.mem_iff.not.mpr hblock)).2
  · rintro _ ⟨block, hblock, rfl⟩
    obtain ⟨entry, -, -, hfile⟩ := hstored block hblock
    have hhash := hfile.hash
    rw [hhash]
    exact hfile

end VirtualMemoryManagerBase

end Privateer
