import Privateer.Storage.BlockStorage

/-!
# Ownership of files and the blocks directory

A thread owns the files whose numbers it drew and the versions it is still
creating.  Files in the blocks directory belong to nobody: every thread may add
one under its own hash, none may change or remove one.  The storage contract
states this, and each system call of the block storage is shown to keep it.
-/

namespace Privateer

variable {Hash : Type}

/-- What a thread may hold: the files with a drawn number, or a version. -/
inductive Resource where
  | file (number : ℕ)
  | version (path : Path)

namespace FileSystem

/-- A version is complete once both of its text files have their line. -/
def Complete (files : FileSystem Hash) (version : Path) : Prop :=
  (∃ text, files.texts (.capacity version) = some (some text)) ∧
    ∃ text, files.texts (.blocksPath version) = some (some text)

/-- The files of a version are the same in two states. -/
structure SameVersion (version : Path) (files files' : FileSystem Hash) : Prop where
  metadata : files'.metadata version = files.metadata version
  capacity : files'.texts (.capacity version) = files.texts (.capacity version)
  blocksPath : files'.texts (.blocksPath version) = files.texts (.blocksPath version)

theorem SameVersion.complete_iff {version : Path} {files files' : FileSystem Hash}
    (hsame : SameVersion version files files') :
    files'.Complete version ↔ files.Complete version := by
  rw [Complete, Complete, hsame.capacity, hsame.blocksPath]

theorem SameVersion.trans {version : Path} {first second third : FileSystem Hash}
    (hfirst : SameVersion version first second)
    (hsecond : SameVersion version second third) : SameVersion version first third :=
  ⟨hsecond.metadata.trans hfirst.metadata, hsecond.capacity.trans hfirst.capacity,
    hsecond.blocksPath.trans hfirst.blocksPath⟩

end FileSystem

namespace Resource

/-- A version can be held only until it is complete. -/
def Agrees : Resource → FileSystem Hash → FileSystem Hash → Prop
  | .file number, files, files' =>
      ∀ file : DataFile Hash, file.drawn = some number → files'.data file = files.data file
  | .version path, files, files' =>
      files.Complete path ∨ FileSystem.SameVersion path files files'

def Allocated (files : FileSystem Hash) : Set Resource
  | .file number => number < files.fresh
  | .version _ => True

@[simp]
theorem file_mem_allocated {number : ℕ} {files : FileSystem Hash} :
    Resource.file number ∈ Allocated files ↔ number < files.fresh := Iff.rfl

/-- The numbers that a reply hands out. -/
def gains : (call : Call Hash) → Reply call → Set Resource
  | .mkstemp _ _ _, reply => {resource | ∃ number, reply = some number ∧ resource = .file number}
  | .randomUuid, number => {.file number}
  | _, _ => ∅

theorem Agrees.refl (resource : Resource) (files : FileSystem Hash) :
    resource.Agrees files files := by
  cases resource with
  | file number => exact fun _ _ => rfl
  | version path => exact .inr ⟨rfl, rfl, rfl⟩

theorem Agrees.trans (resource : Resource) (first second third : FileSystem Hash)
    (hfirst : resource.Agrees first second) (hsecond : resource.Agrees second third) :
    resource.Agrees first third := by
  cases resource with
  | file number =>
      intro file hdrawn
      rw [hsecond file hdrawn, hfirst file hdrawn]
  | version path =>
      rcases hfirst with hcomplete | hsame
      · exact .inl hcomplete
      · rcases hsecond with hcomplete | hsame'
        · exact .inl (hsame.complete_iff.mp hcomplete)
        · exact .inr (hsame.trans hsame')

end Resource

namespace FileSystem

variable [DecidableEq Hash]

theorem mkstemp_some {location : Path} {subdirectory blockIndex : ℕ}
    {files files' : FileSystem Hash} {number : ℕ}
    (hanswer : files.answer (.mkstemp location subdirectory blockIndex) =
      (some number, files')) :
    number = files.fresh ∧ files'.fresh = files.fresh + 1 := by
  simp only [answer] at hanswer
  by_cases hdirectory : files.directories (.subdirectory location subdirectory)
  · rw [if_pos hdirectory, Prod.mk.injEq, Option.some.injEq] at hanswer
    exact ⟨hanswer.1.symm, by rw [← hanswer.2]⟩
  · rw [if_neg hdirectory] at hanswer
    simp at hanswer

/-- The file system as a shared state. -/
def interface : Interface (Call Hash) Reply (FileSystem Hash) Resource where
  answers := fun call files reply files' => files.answer call = (reply, files')
  gains := Resource.gains
  allocated := Resource.Allocated
  agrees := Resource.Agrees
  agrees_refl := Resource.Agrees.refl
  agrees_trans := Resource.Agrees.trans
  gains_fresh := by
    intro call files reply files' hanswer
    cases call with
    | mkstemp location subdirectory blockIndex =>
        rw [Set.disjoint_left]
        rintro _ ⟨number, rfl, rfl⟩ hallocated
        have hnumber := (mkstemp_some hanswer).1
        simp [hnumber] at hallocated
    | randomUuid =>
        rw [Set.disjoint_left]
        rintro _ rfl hallocated
        have hnumber : files.fresh = reply := congrArg Prod.fst hanswer
        simp [← hnumber] at hallocated
    | _ => exact Set.empty_disjoint _
  gains_allocated := by
    intro call files reply files' hanswer
    cases call with
    | mkstemp location subdirectory blockIndex =>
        rintro _ ⟨number, rfl, rfl⟩
        obtain ⟨hnumber, hfresh⟩ := mkstemp_some hanswer
        simp [hnumber, hfresh]
    | randomUuid =>
        rintro _ rfl
        have hnumber : files.fresh = reply := congrArg Prod.fst hanswer
        have hfresh : files.fresh + 1 = files'.fresh :=
          congrArg (fun result => result.2.fresh) hanswer
        simp [← hfresh, hnumber]
    | _ => exact Set.empty_subset _

end FileSystem

/-! ## The blocks directory -/

/-- What a build writes to the file of a block. -/
def Build.encode (build : Build Hash) (content : List Byte) : List Byte :=
  if build.useCompression then build.compress content else content

/-- The file of a name on one of the tiers. -/
def BlockStorage.tierFile (build : Build Hash) (storage : BlockStorage Hash) (name : Hash)
    (onStash : Bool) : DataFile Hash :=
  .block (if onStash then storage.stashDirectory else storage.baseDirectory)
    (build.prefixIndex name % numSubdirs) name

/-- The blocks directory of a datastore. -/
structure BlocksDirectory (Hash : Type) where
  build : Build Hash
  location : Path
  blockSize : ℕ

namespace BlocksDirectory

variable (blocks : BlocksDirectory Hash)

def blockFile (name : Hash) : DataFile Hash :=
  .block blocks.location (blocks.build.prefixIndex name % numSubdirs) name

/-- The file in which a block is written before it gets its name. -/
def temporaryFile (name : Hash) (blockIndex number : ℕ) : DataFile Hash :=
  .temporary blocks.location (blocks.build.prefixIndex name % numSubdirs) blockIndex number

/-- Every file of the blocks directory holds the block that its name is the
hash of. -/
def Named (files : FileSystem Hash) : Prop :=
  ∀ subdirectory name bytes,
    files.data (.block blocks.location subdirectory name) = some bytes →
      ∃ content, content.length = blocks.blockSize ∧
        blocks.build.computeHash content = name ∧ bytes = blocks.build.encode content

/-- The block `content` can be read back under `name`. -/
structure Stored (files : FileSystem Hash) (name : Hash) (content : List Byte) : Prop where
  length : content.length = blocks.blockSize
  hash : blocks.build.computeHash content = name
  file : files.data (blocks.blockFile name) = some (blocks.build.encode content)

def Keeps (files files' : FileSystem Hash) : Prop :=
  ∀ subdirectory name bytes,
    files.data (.block blocks.location subdirectory name) = some bytes →
      files'.data (.block blocks.location subdirectory name) = some bytes

/-- What a session accepts from the others: directories and files of the blocks
directory stay, and files stay named by their contents. -/
structure Tolerates (files files' : FileSystem Hash) : Prop where
  directories : ∀ directory, files.directories directory → files'.directories directory
  named : blocks.Named files → blocks.Named files' ∧ blocks.Keeps files files'

/-- The block storage also leaves the files of all versions alone. -/
structure Promises (files files' : FileSystem Hash) : Prop
    extends blocks.Tolerates files files' where
  metadata : files'.metadata = files.metadata
  texts : files'.texts = files.texts

variable {blocks}

theorem Named.stored {files : FileSystem Hash} (hnamed : blocks.Named files) {name : Hash}
    (hpresent : (files.data (blocks.blockFile name)).isSome) :
    ∃ content, blocks.Stored files name content := by
  obtain ⟨bytes, hbytes⟩ := Option.isSome_iff_exists.mp hpresent
  obtain ⟨content, hlength, hhash, rfl⟩ := hnamed _ _ _ hbytes
  exact ⟨content, hlength, hhash, hbytes⟩

theorem Stored.unique {files files' : FileSystem Hash} (hsound : blocks.build.Sound)
    {name : Hash} {content content' : List Byte} (hstored : blocks.Stored files name content)
    (hstored' : blocks.Stored files' name content') : content = content' :=
  hsound.computeHash_injective (hstored.hash.trans hstored'.hash.symm)

theorem Stored.keep {files files' : FileSystem Hash} {name : Hash} {content : List Byte}
    (hstored : blocks.Stored files name content) (hkeeps : blocks.Keeps files files') :
    blocks.Stored files' name content :=
  ⟨hstored.length, hstored.hash, hkeeps _ _ _ hstored.file⟩

theorem Keeps.refl (files : FileSystem Hash) : blocks.Keeps files files :=
  fun _ _ _ hbytes => hbytes

theorem Tolerates.refl (files : FileSystem Hash) : blocks.Tolerates files files :=
  ⟨fun _ hdirectory => hdirectory, fun hnamed => ⟨hnamed, Keeps.refl files⟩⟩

theorem Tolerates.trans {first second third : FileSystem Hash}
    (hfirst : blocks.Tolerates first second) (hsecond : blocks.Tolerates second third) :
    blocks.Tolerates first third where
  directories := fun _ hdirectory =>
    hsecond.directories _ (hfirst.directories _ hdirectory)
  named := fun hnamed => by
    obtain ⟨hnamed', hkeeps⟩ := hfirst.named hnamed
    obtain ⟨hnamed'', hkeeps'⟩ := hsecond.named hnamed'
    exact ⟨hnamed'', fun _ _ _ hbytes => hkeeps' _ _ _ (hkeeps _ _ _ hbytes)⟩

theorem Promises.refl (files : FileSystem Hash) : blocks.Promises files files :=
  ⟨Tolerates.refl files, rfl, rfl⟩

theorem Promises.trans {first second third : FileSystem Hash}
    (hfirst : blocks.Promises first second) (hsecond : blocks.Promises second third) :
    blocks.Promises first third :=
  ⟨hfirst.toTolerates.trans hsecond.toTolerates, hsecond.metadata.trans hfirst.metadata,
    hsecond.texts.trans hfirst.texts⟩

/-- A change that touches no file of the blocks directory. -/
theorem tolerates_of_blocks_eq {files files' : FileSystem Hash}
    (hdirectories : ∀ directory, files.directories directory → files'.directories directory)
    (hblocks : ∀ subdirectory name,
      files'.data (.block blocks.location subdirectory name) =
        files.data (.block blocks.location subdirectory name)) :
    blocks.Tolerates files files' where
  directories := hdirectories
  named := fun hnamed =>
    ⟨fun _ _ _ hbytes => hnamed _ _ _ (by rwa [hblocks] at hbytes),
      fun _ _ _ hbytes => by rwa [hblocks]⟩

theorem block_ne_of_drawn {file : DataFile Hash} {number : ℕ}
    (hdrawn : file.drawn = some number) (location : Path) (subdirectory : ℕ) (name : Hash) :
    DataFile.block location subdirectory name ≠ file := by
  rintro rfl
  cases hdrawn

variable (blocks) [DecidableEq Hash]

/-- The contract under which the block storage and the fault handler run. -/
def contract (mayExit : Prop) :
    Contract (FileSystem.interface : Interface (Call Hash) Reply _ _) where
  tolerates := blocks.Tolerates
  promises := blocks.Promises
  mayExit := mayExit
  tolerates_refl := Tolerates.refl
  tolerates_trans := fun _ _ _ => Tolerates.trans
  promises_refl := Promises.refl
  promises_trans := fun _ _ _ => Promises.trans

variable {blocks} {mayExit : Prop}

theorem contract_mutual : (blocks.contract mayExit).Mutual :=
  fun _ _ hpromises => hpromises.toTolerates

theorem kept_named (files files' : FileSystem Hash)
    (hstep : (blocks.contract mayExit).tolerates files files')
    (hnamed : blocks.Named files) : blocks.Named files' :=
  (hstep.named hnamed).1

theorem kept_ready {directory : Directory} (files files' : FileSystem Hash)
    (hstep : (blocks.contract mayExit).tolerates files files')
    (hready : blocks.Named files ∧ files.directories directory) :
    blocks.Named files' ∧ files'.directories directory :=
  ⟨(hstep.named hready.1).1, hstep.directories _ hready.2⟩

/-! ## The steps of the block storage -/

variable {files : FileSystem Hash} {owned : Set Resource}

theorem guarantee_setData {file : DataFile Hash} {number : ℕ} {content : Option (List Byte)}
    (hdrawn : file.drawn = some number) (howned : .file number ∈ owned) :
    (blocks.contract mayExit).Guarantee owned files (files.setData file content) where
  promised := by
    refine ⟨tolerates_of_blocks_eq (fun _ h => h) ?_, rfl, rfl⟩
    exact fun _ _ => Function.update_of_ne (block_ne_of_drawn hdrawn _ _ _) _ _
  allocated := subset_rfl
  others := by
    intro resource _ hresource
    cases resource with
    | file other =>
        intro target htarget
        have hne : target ≠ file := by
          rintro rfl
          rw [hdrawn] at htarget
          cases htarget
          exact hresource howned
        exact Function.update_of_ne hne _ _
    | version path => exact .inr ⟨rfl, rfl, rfl⟩

omit [DecidableEq Hash] in
theorem promises_createDirectory (directory : Directory) :
    blocks.Promises files (files.setDirectory directory) :=
  ⟨tolerates_of_blocks_eq (fun _ => FileSystem.directories_setDirectory) fun _ _ => rfl, rfl, rfl⟩

theorem guarantee_createDirectory {directory : Directory} :
    (blocks.contract mayExit).Guarantee owned files (files.setDirectory directory) where
  promised := promises_createDirectory directory
  allocated := subset_rfl
  others := fun resource _ _ => by
    cases resource with
    | file number => exact fun _ _ => rfl
    | version path => exact .inr ⟨rfl, rfl, rfl⟩

/-- Drawing a new number with a new file under it. -/
theorem guarantee_draw {file : DataFile Hash} {content : Option (List Byte)}
    (hdrawn : file.drawn = some files.fresh) :
    (blocks.contract mayExit).Guarantee owned files
      { files.setData file content with fresh := files.fresh + 1 } where
  promised := by
    refine ⟨tolerates_of_blocks_eq (fun _ h => h) ?_, rfl, rfl⟩
    exact fun _ _ => Function.update_of_ne (block_ne_of_drawn hdrawn _ _ _) _ _
  allocated := by
    intro resource hresource
    cases resource with
    | file number => exact Nat.lt_succ_of_lt hresource
    | version path => trivial
  others := by
    intro resource hallocated _
    cases resource with
    | file number =>
        intro target htarget
        have hne : target ≠ file := by
          rintro rfl
          rw [hdrawn] at htarget
          cases htarget
          exact absurd hallocated (Nat.lt_irrefl _)
        exact Function.update_of_ne hne _ _
    | version path => exact .inr ⟨rfl, rfl, rfl⟩

theorem guarantee_randomUuid :
    (blocks.contract mayExit).Guarantee owned files
      { files with fresh := files.fresh + 1 } where
  promised := ⟨tolerates_of_blocks_eq (fun _ h => h) fun _ _ => rfl, rfl, rfl⟩
  allocated := fun resource hresource => by
    cases resource with
    | file number => exact Nat.lt_succ_of_lt hresource
    | version path => trivial
  others := fun resource _ _ => by
    cases resource with
    | file number => exact fun _ _ => rfl
    | version path => exact .inr ⟨rfl, rfl, rfl⟩

/-- Renaming an own file that holds a block to the name of the block. -/
theorem guarantee_publish (hsound : blocks.build.Sound) {file : DataFile Hash} {number : ℕ}
    {content : List Byte} (hdrawn : file.drawn = some number)
    (howned : .file number ∈ owned) (hlength : content.length = blocks.blockSize) :
    (blocks.contract mayExit).Guarantee owned files
      ((files.setData file none).setData
        (blocks.blockFile (blocks.build.computeHash content))
        (some (blocks.build.encode content))) where
  promised := by
    refine ⟨⟨fun _ h => h, fun hnamed => ⟨?_, ?_⟩⟩, rfl, rfl⟩
    · intro subdirectory name bytes hbytes
      simp only [FileSystem.setData, Function.update_apply] at hbytes
      by_cases htarget : DataFile.block blocks.location subdirectory name =
          blocks.blockFile (blocks.build.computeHash content)
      · rw [if_pos htarget, Option.some.injEq] at hbytes
        have hname : name = blocks.build.computeHash content :=
          (DataFile.block.inj htarget).2.2
        exact ⟨content, hlength, hname.symm, hbytes.symm⟩
      · rw [if_neg htarget, if_neg (block_ne_of_drawn hdrawn _ _ _)] at hbytes
        exact hnamed _ _ _ hbytes
    · intro subdirectory name bytes hbytes
      simp only [FileSystem.setData, Function.update_apply]
      by_cases htarget : DataFile.block blocks.location subdirectory name =
          blocks.blockFile (blocks.build.computeHash content)
      · obtain ⟨old, -, hold, rfl⟩ := hnamed _ _ _ hbytes
        have hname : name = blocks.build.computeHash content :=
          (DataFile.block.inj htarget).2.2
        have hcontent : old = content := hsound.computeHash_injective (hold.trans hname)
        rw [if_pos htarget, hcontent]
      · rw [if_neg htarget, if_neg (block_ne_of_drawn hdrawn _ _ _)]
        exact hbytes
  allocated := subset_rfl
  others := by
    intro resource _ hresource
    cases resource with
    | file other =>
        intro target htarget
        have hne : target ≠ file := by
          rintro rfl
          rw [hdrawn] at htarget
          cases htarget
          exact hresource howned
        simp only [FileSystem.setData, Function.update_apply]
        rw [if_neg (fun h => block_ne_of_drawn htarget _ _ _ h.symm), if_neg hne]
    | version path => exact .inr ⟨rfl, rfl, rfl⟩

end BlocksDirectory

end Privateer
