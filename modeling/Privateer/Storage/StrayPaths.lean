import Privateer.Storage.CallRules
import Privateer.Storage.FailedCalls

/-!
# Storages without a stash

The constructors without a stash path leave the stash directory empty, and `is_multi_tiered`
compares the empty path with the parent of the base directory.  Unless that parent is empty
too, the storage works with a second tier at the root of the file system.  This module
follows the directories that calls make, put files into and return, with system calls that
may fail, and says when all of them lie under the base directory.
-/

namespace Privateer

variable {Hash : Type}

/-! ## Paths -/

def Directory.location : Directory → Path
  | .path location => location
  | .subdirectory location _ => location

/-- The path of a directory. -/
def Directory.text : Directory → Path
  | .path location => location
  | .subdirectory location index => location ++ '/' :: Nat.toDigits 10 index

/-- The directory is the base directory or lies under it, and so do its files. -/
def Directory.Within (base : Path) (directory : Directory) : Prop :=
  directory.text = base ∨ base ++ ['/'] <+: directory.text

theorem within_subdirectory (base : Path) (index : ℕ) :
    (Directory.subdirectory base index).Within base :=
  .inr ⟨Nat.toDigits 10 index, by rw [List.append_assoc]; rfl⟩

/-- The subdirectories of the empty path do not lie under a directory with a parent. -/
theorem not_within_root {base : Path} (hslash : '/' ∈ base) (hparent : pathPrefix base ≠ [])
    (index : ℕ) : ¬ (Directory.subdirectory [] index).Within base := by
  have hdigits : '/' ∉ Nat.toDigits 10 index := fun hmem =>
    absurd (Nat.isDigit_of_mem_toDigits (by decide) (by decide) hmem) (by decide)
  rintro (hsame | ⟨rest, hbelow⟩)
  · refine hparent ?_
    have hname : ∀ character ∈ (Nat.toDigits 10 index).reverse,
        decide (character ≠ '/') = true := by
      intro character hcharacter
      rw [decide_eq_true_iff]
      rintro rfl
      exact hdigits (List.mem_reverse.mp hcharacter)
    rw [← hsame, Directory.text, List.nil_append, pathPrefix, if_pos List.mem_cons_self,
      List.reverse_cons, List.dropWhile_append_of_pos hname]
    rfl
  · cases base with
    | nil => cases hslash
    | cons first base =>
        have hrest : base ++ ['/'] ++ rest = Nat.toDigits 10 index :=
          (List.cons.inj hbelow).2
        exact hdigits (hrest ▸ by simp)

/-- The directory that a system call has made or put a file into. -/
def Call.made : (call : Call Hash) → Reply call → List Directory
  | .createDirectory directory, true => [directory]
  | .mkstemp location subdirectory _, some _ => [.subdirectory location subdirectory]
  | .rename source target, true => [source.parent, target.parent]
  | .copyFile _ target, true => [target.parent]
  | _, _ => []

/-- The directories that a sequence of system calls has made or put files into. -/
def madeBy (events : List (Σ call : Call Hash, Reply call)) : List Directory :=
  events.flatMap fun event => event.1.made event.2

/-- The call makes nothing but in subdirectories of the two tiers. -/
def Call.MakesInTiers (storage : BlockStorage Hash) (call : Call Hash) : Prop :=
  ∀ reply, ∀ directory ∈ call.made reply, ∃ onStash index,
    directory = .subdirectory (storage.tierDirectory onStash) index

namespace BlockStorage

open FileSystem (AnswersOrFails)

variable {build : Build Hash} {storage : BlockStorage Hash}

theorem makesInTiers_none {call : Call Hash} (hnone : ∀ reply, call.made reply = []) :
    call.MakesInTiers storage := by
  intro reply directory hdirectory
  rw [hnone reply] at hdirectory
  cases hdirectory

theorem permits_makesInTiers (name : Hash) (onStash : Bool) :
    storage.Permits build (Call.MakesInTiers storage) name onStash where
  directoryExists := makesInTiers_none fun _ => rfl
  createDirectory := by
    rintro (_ | _) directory hdirectory
    · cases hdirectory
    · exact ⟨onStash, _, List.mem_singleton.mp hdirectory⟩
  fileExists := makesInTiers_none fun _ => rfl
  mkstemp := by
    rintro index (_ | suffix) directory hdirectory
    · cases hdirectory
    · exact ⟨onStash, _, List.mem_singleton.mp hdirectory⟩
  ftruncate := fun _ _ _ => makesInTiers_none fun _ => rfl
  pwrite := fun _ _ _ => makesInTiers_none fun _ => rfl
  rename := by
    rintro index suffix (_ | _) directory hdirectory
    · cases hdirectory
    · rcases List.mem_pair.mp hdirectory with rfl | rfl
      · exact ⟨onStash, _, rfl⟩
      · exact ⟨onStash, _, rfl⟩
  remove := fun _ _ => makesInTiers_none fun _ => rfl
  close := makesInTiers_none fun _ => rfl

/-- A directory in a tier of a storage without a stash is at the root or within the base
directory. -/
theorem within_of_makesInTiers {call : Call Hash} {reply : Reply call} {directory : Directory}
    (hempty : storage.stashDirectory = []) (hcall : call.MakesInTiers storage)
    (hmade : directory ∈ call.made reply) (hroot : directory.location ≠ []) :
    directory.Within storage.baseDirectory := by
  obtain ⟨onStash, index, rfl⟩ := hcall reply directory hmade
  cases onStash with
  | false => exact within_subdirectory _ index
  | true => exact absurd hempty hroot

/-- Storing a block with two tiers makes a temporary file on the stash tier. -/
theorem makes_storeBlock [DecidableEq Hash] (htier : storage.isMultiTiered = true)
    {buffer : List Byte} {writeToFile : Bool} {index : ℕ} {result : Option Hash}
    {files files' : FileSystem Hash} {events : List (Σ call : Call Hash, Reply call)}
    (hruns : (storeBlock build storage buffer writeToFile index).RunsAlong AnswersOrFails files
      events (.returned result) files') :
    ∃ subdirectory, .subdirectory storage.stashDirectory subdirectory ∈ madeBy events := by
  unfold storeBlock at hruns
  rw [htier] at hruns
  obtain ⟨first, files₁, events₁, events₂, rfl, hstored, -⟩ := hruns.of_bind
  unfold storeBlockOn at hstored
  obtain ⟨directory, files₂, events₃, events₄, rfl, hdirectory, hrest⟩ := hstored.of_bind
  obtain ⟨temporary, files₃, events₅, events₆, rfl, hcreates, -⟩ := hrest.of_bind
  rcases hcreates with ⟨-, hkilled, -⟩ | ⟨drawn, files₄, rest, rfl, -, hsized⟩
  · cases hkilled
  · cases drawn with
    | none => cases hsized.2.1
    | some suffix =>
        refine ⟨directory.2, List.mem_flatMap.mpr ⟨_, List.mem_append_left _
          (List.mem_append_right _ (List.mem_append_left _ List.mem_cons_self)), ?_⟩⟩
        rw [getBlocksSubdirectory_returns hdirectory.returns]
        exact List.mem_singleton_self _

end BlockStorage

/-! ## Runs of calls -/

/-- The calls whose paths are followed. -/
inductive PathCall (Hash : Type) where
  | storeBlock (buffer : List Byte) (blockIndex : ℕ)
  | getBlockFullPath (blockIndex : ℕ) (blockHash : Hash)

/-- A call with its sequence of system calls, and whether it returns; if it does not, the
process has ended. -/
structure PathRequest (Hash : Type) where
  call : PathCall Hash
  events : List (Σ call : Call Hash, Reply call)
  returns : Bool

/-- The directories that a call returns, and the storage after it. -/
def PathCall.program (build : Build Hash) (storage : BlockStorage Hash) :
    PathCall Hash → StorageProgram Hash (List Directory × BlockStorage Hash)
  | .storeBlock buffer blockIndex => do
      let result ← storage.storeBlock build buffer true blockIndex
      return ([], if result.isSome then storage.noteStored blockIndex else storage)
  | .getBlockFullPath blockIndex blockHash => do
      let found ← storage.getBlockFullPath build blockIndex blockHash
      return ([.subdirectory found.1.1 found.1.2], found.2)

/-- A storage, and the directories that the calls so far have made, put files into or
returned. -/
structure PathState (Hash : Type) where
  storage : BlockStorage Hash
  files : FileSystem Hash
  touched : List Directory
  running : Bool

namespace PathState

open FileSystem (AnswersOrFails)

variable [DecidableEq Hash] {build : Build Hash}

inductive Step (build : Build Hash) :
    PathState Hash → PathRequest Hash → PathState Hash → Prop
  | returned {state : PathState Hash} {call : PathCall Hash}
      {events : List (Σ call : Call Hash, Reply call)} {paths : List Directory}
      {storage' : BlockStorage Hash} {files' : FileSystem Hash} (hrunning : state.running)
      (hruns : (call.program build state.storage).RunsAlong AnswersOrFails state.files events
        (.returned (paths, storage')) files') :
      Step build state ⟨call, events, true⟩
        { storage := storage', files := files',
          touched := state.touched ++ (madeBy events ++ paths), running := true }
  | ended {state : PathState Hash} {call : PathCall Hash}
      {events : List (Σ call : Call Hash, Reply call)} {files' : FileSystem Hash}
      (hrunning : state.running)
      (hruns : (call.program build state.storage).RunsAlong AnswersOrFails state.files events
        .exited files') :
      Step build state ⟨call, events, false⟩
        { state with
          files := files', touched := state.touched ++ madeBy events, running := false }

/-- Everything that was touched lies under the base directory. -/
def StaysInside (base : Path) (state : PathState Hash) : Prop :=
  ∀ directory ∈ state.touched, directory.Within base

/-- The process ends in the call, and whatever the call tried at the root of the file system
has failed. -/
def Refused (_ : PathState Hash) (request : PathRequest Hash) : Prop :=
  request.returns = false ∧ ∀ directory ∈ madeBy request.events, directory.location ≠ []

/-- The directories of a storage without a stash. -/
structure NoStash (base : Path) (state : PathState Hash) : Prop where
  baseDirectory : state.storage.baseDirectory = base
  stashDirectory : state.storage.stashDirectory = []

variable {base : Path} {state next : PathState Hash} {request : PathRequest Hash}
variable {storage storage' : BlockStorage Hash} {call : PathCall Hash}

omit [DecidableEq Hash] in
/-- The directories of a storage stay. -/
theorem program_directories {paths : List Directory}
    (hreturns : (call.program build storage).Returns (paths, storage')) :
    storage'.baseDirectory = storage.baseDirectory ∧
      storage'.stashDirectory = storage.stashDirectory := by
  cases call with
  | storeBlock buffer blockIndex =>
      obtain ⟨result, -, hlast⟩ := Program.returns_bind.mp hreturns
      cases hlast
      cases result with
      | none => exact ⟨rfl, rfl⟩
      | some name =>
          rw [Option.isSome_some, if_pos rfl, BlockStorage.noteStored]
          split
          · exact ⟨rfl, rfl⟩
          · exact ⟨rfl, rfl⟩
  | getBlockFullPath blockIndex blockHash =>
      obtain ⟨found, hfound, hlast⟩ := Program.returns_bind.mp hreturns
      cases hlast
      exact (BlockStorage.getBlockFullPath_result hfound).2

omit [DecidableEq Hash] in
theorem callsOnly_program :
    (call.program build storage).CallsOnly (Call.MakesInTiers storage) := by
  cases call with
  | storeBlock buffer blockIndex =>
      apply (BlockStorage.permits_storeBlock
        (BlockStorage.permits_makesInTiers (build.computeHash buffer))).bind
      exact fun result => trivial
  | getBlockFullPath blockIndex blockHash =>
      refine (BlockStorage.permits_getBlockFullPath
        (BlockStorage.permits_makesInTiers blockHash) ?_).bind fun found => trivial
      rintro (_ | _) directory hdirectory
      · cases hdirectory
      · exact ⟨true, _, List.mem_singleton.mp hdirectory⟩

/-- A call that returns has touched the root. -/
theorem touches_root (htier : storage.isMultiTiered = true) (hempty : storage.stashDirectory = [])
    {files files' : FileSystem Hash} {events : List (Σ call : Call Hash, Reply call)}
    {paths : List Directory}
    (hruns : (call.program build storage).RunsAlong AnswersOrFails files events
      (.returned (paths, storage')) files') :
    ∃ index, .subdirectory [] index ∈ madeBy events ++ paths := by
  cases call with
  | storeBlock buffer blockIndex =>
      obtain ⟨result, between, first, second, rfl, hstores, -⟩ := hruns.of_bind
      obtain ⟨subdirectory, hmade⟩ := BlockStorage.makes_storeBlock htier hstores
      rw [hempty] at hmade
      refine ⟨subdirectory, List.mem_append_left _ ?_⟩
      rw [madeBy, List.flatMap_append]
      exact List.mem_append_left _ hmade
  | getBlockFullPath blockIndex blockHash =>
      obtain ⟨found, hfound, hlast⟩ := Program.returns_bind.mp hruns.returns
      cases hlast
      refine ⟨found.1.2, List.mem_append_right _ (List.mem_singleton.mpr ?_)⟩
      rw [(BlockStorage.getBlockFullPath_result hfound).1, htier]
      exact congrArg (Directory.subdirectory · _) hempty.symm

omit [DecidableEq Hash] in
/-- A storage without a stash takes the root for a second tier. -/
theorem NoStash.isMultiTiered (hstorage : state.NoStash base) (hparent : pathPrefix base ≠ []) :
    state.storage.isMultiTiered = true := by
  rw [BlockStorage.isMultiTiered, hstorage.baseDirectory, hstorage.stashDirectory,
    bne_iff_ne]
  exact hparent

/-- For one call the condition is exact. -/
theorem Step.staysInside (hslash : '/' ∈ base) (hparent : pathPrefix base ≠ [])
    (hstorage : state.NoStash base) (hinside : state.StaysInside base)
    (hstep : Step build state request next) :
    next.NoStash base ∧ (next.StaysInside base ↔ Refused state request) := by
  cases hstep with
  | @returned call events paths storage' files' hrunning hruns =>
      obtain ⟨hbase, hempty⟩ := program_directories hruns.returns
      refine ⟨⟨hbase.trans hstorage.baseDirectory, hempty.trans hstorage.stashDirectory⟩, ?_⟩
      refine iff_of_false (fun hstays => ?_) fun hrefused => by cases hrefused.1
      obtain ⟨index, htouched⟩ :=
        touches_root (hstorage.isMultiTiered hparent) hstorage.stashDirectory hruns
      exact not_within_root hslash hparent index (hstays _ (List.mem_append_right _ htouched))
  | @ended call events files' hrunning hruns =>
      refine ⟨⟨hstorage.baseDirectory, hstorage.stashDirectory⟩, ?_⟩
      have hmakes := callsOnly_program.runsAlong hruns
      constructor
      · intro hstays
        refine ⟨rfl, fun directory hmade hroot => ?_⟩
        obtain ⟨event, hevent, hdirectory⟩ := List.mem_flatMap.mp hmade
        obtain ⟨onStash, index, rfl⟩ := hmakes event hevent _ _ hdirectory
        rw [Directory.location] at hroot
        rw [hroot] at hmade
        exact not_within_root hslash hparent index (hstays _ (List.mem_append_right _ hmade))
      · rintro ⟨-, hroot⟩ directory htouched
        rcases List.mem_append.mp htouched with hbefore | hmade
        · exact hinside directory hbefore
        · obtain ⟨event, hevent, hdirectory⟩ := List.mem_flatMap.mp hmade
          have hwithin := BlockStorage.within_of_makesInTiers hstorage.stashDirectory
            (hmakes event hevent) hdirectory (hroot directory hmade)
          rwa [hstorage.baseDirectory] at hwithin

/-- A storage that a constructor without a stash path has set up. -/
def WithoutStash (base : Path) (storage : BlockStorage Hash) : Prop :=
  (∃ granularity, (BlockStorage.create base [] granularity : StorageProgram Hash _).Returns
    storage) ∨ (BlockStorage.open base [] : StorageProgram Hash _).Returns storage

def initial (storage : BlockStorage Hash) (files : FileSystem Hash) : PathState Hash where
  storage := storage
  files := files
  touched := []
  running := true

omit [DecidableEq Hash] in
theorem WithoutStash.noStash (hstorage : WithoutStash base storage) (files : FileSystem Hash) :
    (initial storage files).NoStash base := by
  have hinitial : ∃ granularity, storage = BlockStorage.initial base [] granularity := by
    rcases hstorage with ⟨granularity, hreturns⟩ | hreturns
    · obtain ⟨⟨⟩, -, found, hfound⟩ := Program.returns_bind.mp hreturns
      refine ⟨granularity, ?_⟩
      cases found with
      | true => exact hfound.symm
      | false =>
          obtain ⟨created, hcreated⟩ := hfound
          cases created with
          | false => exact hcreated.elim
          | true =>
              obtain ⟨⟨⟩, ⟨⟩, hlast⟩ := hcreated
              exact hlast.symm
    · obtain ⟨⟨⟩, -, found, hfound⟩ := Program.returns_bind.mp hreturns
      cases found with
      | false => exact hfound.elim
      | true =>
          obtain ⟨line, hline⟩ := hfound
          match line, hline with
          | some (some (.number granularity)), hline => exact ⟨granularity, hline.symm⟩
  obtain ⟨granularity, rfl⟩ := hinitial
  exact ⟨rfl, rfl⟩

/-- Whatever the calls of a storage without a stash make and return stays inside its base
directory exactly if every call ends the process and all that it tries at the root of the
file system fails; so it does after no call that returns. -/
theorem stays_inside_iff_refused (hslash : '/' ∈ base) (hparent : pathPrefix base ≠ [])
    (hstorage : WithoutStash base storage) {files : FileSystem Hash}
    {trace : List (PathRequest Hash × PathState Hash)}
    (hrun : Run (Step build) (initial storage files) trace) :
    (∀ state ∈ Run.states (initial storage files) trace, state.StaysInside base) ↔
      Run.Each Refused (initial storage files) trace := by
  have hstart : (initial storage files).NoStash base := hstorage.noStash files
  exact hrun.forall_states_iff (fun state request next hnostash hinside hstep =>
    hstep.staysInside hslash hparent hnostash hinside) hstart
      (fun directory hdirectory => absurd hdirectory List.not_mem_nil)

/-! ## A directory of blocks with a parent -/

def blocksDirectory : Path := ['/', 'd', '/', 'b']

def createdStorage : BlockStorage (Option (List Byte)) :=
  BlockStorage.initial blocksDirectory [] 1

theorem withoutStash_createdStorage : WithoutStash blocksDirectory createdStorage :=
  .inl ⟨1, true, rfl⟩

/-- A block is not stored, because no directory can be made at the root. -/
theorem stays_inside_iff_refused_once :
    ∃ trace, trace.map (·.1.call) = [.storeBlock [7] 0] ∧
      Run (Step Build.transparent) (initial createdStorage FileSystem.empty) trace ∧
      ∀ state ∈ Run.states (initial createdStorage FileSystem.empty) trace,
        state.StaysInside blocksDirectory := by
  have hrun : Run (Step Build.transparent) (initial createdStorage FileSystem.empty)
      [(⟨.storeBlock [7] 0, [⟨.directoryExists (.subdirectory [] 0), false⟩,
        ⟨.createDirectory (.subdirectory [] 0), false⟩], false⟩, _)] :=
    .cons (.ended rfl (.inr ⟨false, _, _, rfl, .inl rfl,
      .inr ⟨false, _, _, rfl, .inr ⟨rfl, rfl⟩, rfl, rfl, rfl⟩⟩)) .nil
  refine ⟨_, rfl, hrun, (stays_inside_iff_refused (by decide) (by decide)
    withoutStash_createdStorage hrun).mpr ⟨⟨rfl, ?_⟩, trivial⟩⟩
  decide

/-- A block is stored, and a copy of it at the root of the file system. -/
theorem stores_at_root :
    ∃ trace, trace.map (·.1.call) = [.storeBlock [7] 0] ∧
      Run (Step Build.transparent) (initial createdStorage FileSystem.empty) trace ∧
      ¬ (Run.last (initial createdStorage FileSystem.empty) trace).StaysInside
        blocksDirectory := by
  have hreturns : ((PathCall.storeBlock [7] 0).program Build.transparent createdStorage).run
      FileSystem.answer FileSystem.empty = (.returned ([], _), _) := rfl
  obtain ⟨events, hruns⟩ := Program.runsTo_iff_exists_runsAlong.mp
    (Program.runsTo_of_run FileSystem.answersOrFails_answer hreturns)
  refine ⟨_, rfl, .cons (.returned rfl hruns) .nil, fun hstays => ?_⟩
  obtain ⟨index, htouched⟩ := touches_root rfl rfl hruns
  exact not_within_root (by decide) (by decide) index
    (hstays _ (List.mem_append_right _ htouched))

end PathState

end Privateer
