import Privateer.Logic.Interleaving
import Privateer.Storage.BlockStorageSpec

/-!
# Concurrent commits

Threads and processes that share a blocks directory store blocks and commit stash files
at the same time, with no lock among them.  The system is a crew of calls that take
their system calls in any order.  In every state that it reaches the blocks directory
is named by contents, and a call that has returned has left its block and nothing else.
-/

namespace Privateer

variable {Hash : Type}

/-! ## Where blocks are placed -/

/-- A file of the blocks directory is in the subdirectory that its name belongs to. -/
def BlocksDirectory.WellPlaced (blocks : BlocksDirectory Hash) (file : DataFile Hash) : Prop :=
  ∀ subdirectory name, file = .block blocks.location subdirectory name →
    subdirectory = blocks.build.prefixIndex name % numSubdirs

/-- The call puts no file into a wrong subdirectory. -/
def Call.Places (blocks : BlocksDirectory Hash) : Call Hash → Prop
  | .openFile file create => create = true → blocks.WellPlaced file
  | .rename _ target => blocks.WellPlaced target
  | .copyFile _ target => blocks.WellPlaced target
  | _ => True

namespace BlocksDirectory

variable {blocks : BlocksDirectory Hash} {files : FileSystem Hash}

theorem wellPlaced_blockFile (name : Hash) : blocks.WellPlaced (blocks.blockFile name) := by
  intro subdirectory name' hfile
  cases hfile
  rfl

theorem wellPlaced_of_drawn {file : DataFile Hash} {number : ℕ}
    (hdrawn : file.drawn = some number) : blocks.WellPlaced file :=
  fun subdirectory name hfile =>
    absurd hfile.symm (block_ne_of_drawn hdrawn _ subdirectory name)

/-- All files of the blocks directory are in their places. -/
def Placed (blocks : BlocksDirectory Hash) (files : FileSystem Hash) : Prop :=
  ∀ file, (files.data file).isSome → blocks.WellPlaced file

/-- No block is in two files of the blocks directory. -/
def OneFileEach (blocks : BlocksDirectory Hash) (files : FileSystem Hash) : Prop :=
  ∀ subdirectory name subdirectory' name' bytes,
    files.data (.block blocks.location subdirectory name) = some bytes →
      files.data (.block blocks.location subdirectory' name') = some bytes →
        subdirectory = subdirectory' ∧ name = name'

theorem encode_injective (hsound : blocks.build.Sound) :
    Function.Injective blocks.build.encode := by
  intro content content' hsame
  cases hcompression : blocks.build.useCompression with
  | true =>
      simp only [Build.encode, hcompression, if_true] at hsame
      have hdecoded := congrArg blocks.build.decompress hsame
      rw [hsound.decompress_compress hcompression, hsound.decompress_compress hcompression]
        at hdecoded
      exact Option.some_injective _ hdecoded
  | false => simpa [Build.encode, hcompression] using hsame

/-- Names determine the places of their files, and contents determine the names. -/
theorem Placed.oneFileEach (hsound : blocks.build.Sound) (hplaced : blocks.Placed files)
    (hnamed : blocks.Named files) : blocks.OneFileEach files := by
  intro subdirectory name subdirectory' name' bytes hbytes hbytes'
  obtain ⟨content, -, hname, hencode⟩ := hnamed _ _ _ hbytes
  obtain ⟨content', -, hname', hencode'⟩ := hnamed _ _ _ hbytes'
  have hcontent : content = content' :=
    encode_injective hsound (hencode.symm.trans hencode')
  have hnames : name = name' := by rw [← hname, ← hname', hcontent]
  have hplace := hplaced _ (Option.isSome_of_eq_some hbytes) _ _ rfl
  have hplace' := hplaced _ (Option.isSome_of_eq_some hbytes') _ _ rfl
  exact ⟨by rw [hplace, hplace', hnames], hnames⟩

variable [DecidableEq Hash]

theorem Placed.setData (hplaced : blocks.Placed files) {file : DataFile Hash}
    (hfile : blocks.WellPlaced file) (content : Option (List Byte)) :
    blocks.Placed (files.setData file content) := by
  intro other hother
  by_cases hsame : other = file
  · exact hsame ▸ hfile
  · rw [FileSystem.setData_of_ne files hsame] at hother
    exact hplaced other hother

/-- A call that places its files keeps all files in their places. -/
theorem Placed.answer (hplaced : blocks.Placed files) {call : Call Hash}
    (hcall : call.Places blocks) : blocks.Placed (files.answer call).2 := by
  cases call with
  | openFile file create =>
      simp only [FileSystem.answer]
      split
      · exact hplaced
      · cases create with
        | false => exact hplaced
        | true =>
            split
            · exact hplaced.setData (hcall rfl) _
            · exact hplaced
  | ftruncate file length =>
      simp only [FileSystem.answer]
      split
      · rename_i content hcontent
        exact hplaced.setData (hplaced file (Option.isSome_of_eq_some hcontent)) _
      · exact hplaced
  | pwrite file bytes =>
      simp only [FileSystem.answer]
      split
      · rename_i content hcontent
        exact hplaced.setData (hplaced file (Option.isSome_of_eq_some hcontent)) _
      · exact hplaced
  | rename source target =>
      simp only [FileSystem.answer]
      split
      · rename_i content hcontent
        split
        · have hsource := hplaced source (Option.isSome_of_eq_some hcontent)
          exact (hplaced.setData hsource none).setData hcall _
        · exact hplaced
      · exact hplaced
  | remove file =>
      simp only [FileSystem.answer]
      split
      · rename_i content hcontent
        exact hplaced.setData (hplaced file (Option.isSome_of_eq_some hcontent)) _
      · exact hplaced
  | mkstemp location subdirectory blockIndex =>
      simp only [FileSystem.answer]
      split
      · exact hplaced.setData (wellPlaced_of_drawn rfl) _
      · exact hplaced
  | copyFile source target =>
      simp only [FileSystem.answer]
      split
      · exact hplaced.setData hcall _
      · exact hplaced
  | _ =>
      simp only [FileSystem.answer]
      (repeat' split) <;> exact hplaced

end BlocksDirectory

namespace BlockStorage

variable {build : Build Hash} {storage : BlockStorage Hash} {blocks : BlocksDirectory Hash}
variable {name : Hash} {index : ℕ}

theorem getBlocksSubdirectory_returns {onStash : Bool} {directory : Path × ℕ}
    (hreturns : (getBlocksSubdirectory build storage name onStash).Returns directory) :
    directory = (if onStash then storage.stashDirectory else storage.baseDirectory,
      build.prefixIndex name % numSubdirs) := by
  obtain ⟨found, hfound⟩ := hreturns
  cases found with
  | true => exact hfound.symm
  | false =>
      obtain ⟨created, hcreated⟩ := hfound
      cases created with
      | true => exact hcreated.symm
      | false => exact hcreated.elim

theorem places_getBlocksSubdirectory (onStash : Bool) :
    (getBlocksSubdirectory build storage name onStash).CallsOnly (Call.Places blocks) := by
  refine ⟨trivial, fun found => ?_⟩
  cases found with
  | true => trivial
  | false =>
      refine ⟨trivial, fun created => ?_⟩
      cases created with
      | true => trivial
      | false => trivial

theorem places_createTemporaryUniqueBlock (location : Path) (subdirectory : ℕ) :
    (createTemporaryUniqueBlock build storage location subdirectory index).CallsOnly
      (Call.Places blocks) := by
  refine ⟨trivial, fun drawn => ?_⟩
  cases drawn with
  | none => trivial
  | some suffix =>
      cases hcompression : build.useCompression with
      | true => trivial
      | false =>
          refine ⟨trivial, fun sized => ?_⟩
          cases sized with
          | true => trivial
          | false => trivial

theorem places_closeOrExit {A : Type} (result : A) :
    Program.CallsOnly (Call.Places blocks) (do closeOrExit; return result) := by
  refine ⟨trivial, fun closed => ?_⟩
  cases closed with
  | true => trivial
  | false => trivial

theorem places_writeTemporary (temporary : DataFile Hash) (buffer : List Byte) :
    (writeTemporary build temporary buffer).CallsOnly (Call.Places blocks) := by
  unfold writeTemporary
  cases hcompression : build.useCompression with
  | true =>
      refine ⟨trivial, fun sized => ?_⟩
      cases sized with
      | true => exact ⟨trivial, fun _ => trivial⟩
      | false => trivial
  | false => exact ⟨trivial, fun _ => trivial⟩

theorem places_publishTemporary (temporary : DataFile Hash) {published : DataFile Hash}
    (hpublished : blocks.WellPlaced published) :
    (publishTemporary temporary published name).CallsOnly (Call.Places blocks) := by
  refine ⟨hpublished, fun renamed => ?_⟩
  cases renamed with
  | true => exact places_closeOrExit _
  | false =>
      refine ⟨trivial, fun found => ?_⟩
      cases found with
      | false => exact places_closeOrExit _
      | true =>
          refine ⟨trivial, fun removed => ?_⟩
          cases removed with
          | true => exact places_closeOrExit _
          | false => trivial

theorem places_storeBlockOn (hbase : storage.baseDirectory = blocks.location)
    {buffer : List Byte} {preComputedHash : Option Hash} :
    (storeBlockOn blocks.build storage buffer true index false preComputedHash).CallsOnly
      (Call.Places blocks) := by
  unfold storeBlockOn
  generalize preComputedHash.getD (blocks.build.computeHash buffer) = name
  apply Program.CallsOnly.bind_of_returns (places_getBlocksSubdirectory false)
  intro directory hdirectory
  have hpublished : DataFile.block directory.1 directory.2 name = blocks.blockFile name := by
    rw [getBlocksSubdirectory_returns hdirectory]
    exact congrArg (fun location => DataFile.block location _ name) hbase
  apply Program.CallsOnly.bind (places_createTemporaryUniqueBlock _ _)
  intro temporary
  rw [hpublished]
  refine ⟨trivial, fun found => ?_⟩
  cases found with
  | true =>
      refine ⟨trivial, fun removed => ?_⟩
      cases removed with
      | true => exact places_closeOrExit _
      | false => exact places_closeOrExit _
  | false =>
      apply Program.CallsOnly.bind (places_writeTemporary temporary buffer)
      intro written
      cases written with
      | true =>
          exact places_publishTemporary temporary (BlocksDirectory.wellPlaced_blockFile name)
      | false => trivial

theorem places_readStash (file : DataFile Hash) :
    (readStash storage file).CallsOnly (Call.Places blocks) := by
  refine ⟨fun hcreate => absurd hcreate Bool.false_ne_true, fun opened => ?_⟩
  cases opened with
  | false => trivial
  | true =>
      refine ⟨trivial, fun bytes => ?_⟩
      cases bytes with
      | none => trivial
      | some bytes => exact places_closeOrExit _

theorem places_commitByStore (hbase : storage.baseDirectory = blocks.location)
    {buffer : List Byte} {file : DataFile Hash} :
    (commitByStore blocks.build storage buffer index file name).CallsOnly
      (Call.Places blocks) := by
  apply Program.CallsOnly.bind (places_storeBlockOn hbase)
  intro stored
  cases stored with
  | none => trivial
  | some stored =>
      refine ⟨trivial, fun removed => ?_⟩
      cases removed with
      | true => trivial
      | false => trivial

theorem places_commitByRename (hsingle : storage.SingleTiered blocks) {buffer : List Byte}
    {file published : DataFile Hash} (hpublished : blocks.WellPlaced published) :
    (commitByRename blocks.build storage buffer index file published name).CallsOnly
      (Call.Places blocks) := by
  refine ⟨hpublished, fun renamed => ?_⟩
  cases renamed with
  | true =>
      apply Program.CallsOnly.bind (places_storeBlockOn hsingle.baseDirectory)
      intro stored
      cases stored with
      | none => trivial
      | some stored => trivial
  | false =>
      refine ⟨trivial, fun found => ?_⟩
      cases found with
      | false => trivial
      | true =>
          refine ⟨trivial, fun removed => ?_⟩
          cases removed with
          | false => trivial
          | true =>
              change Program.CallsOnly _ (if storage.isMultiTiered = true then _ else _)
              rw [hsingle.tier]
              trivial

theorem places_commitStashBlock (hsingle : storage.SingleTiered blocks) :
    (commitStashBlock blocks.build storage index).CallsOnly (Call.Places blocks) := by
  unfold commitStashBlock
  cases huuid : storage.stashBlockIds index with
  | none => trivial
  | some uuid =>
      apply Program.CallsOnly.bind (places_readStash _)
      intro buffer
      apply Program.CallsOnly.bind_of_returns (places_getBlocksSubdirectory _)
      intro directory hdirectory
      have hpublished : blocks.WellPlaced (.block directory.1 directory.2
          (blocks.build.computeHash buffer)) := by
        rw [getBlocksSubdirectory_returns hdirectory, hsingle.tier, hsingle.baseDirectory]
        exact BlocksDirectory.wellPlaced_blockFile _
      refine ⟨trivial, fun found => ?_⟩
      cases found with
      | true =>
          refine ⟨trivial, fun removed => ?_⟩
          cases removed with
          | true => trivial
          | false => trivial
      | false =>
          cases hcompression : blocks.build.useCompression with
          | true => exact places_commitByStore hsingle.baseDirectory
          | false => exact places_commitByRename hsingle hpublished

/-! ## The calls -/

/-- A call of `store_block` or of `commit_stash_block`; the latter with the stash file
that it finds and with the contents of that file. -/
inductive CommitCall (Hash : Type) where
  | storeBlock (storage : BlockStorage Hash) (buffer : List Byte) (blockIndex : ℕ)
  | commitStashBlock (storage : BlockStorage Hash) (blockIndex uuid : ℕ) (content : List Byte)

namespace CommitCall

def program (build : Build Hash) : CommitCall Hash → StorageProgram Hash (Option Hash)
  | .storeBlock storage buffer blockIndex => storage.storeBlock build buffer true blockIndex
  | .commitStashBlock storage blockIndex _ _ => do
      let committed ← storage.commitStashBlock build blockIndex
      return committed.1

def content : CommitCall Hash → List Byte
  | .storeBlock _ buffer _ => buffer
  | .commitStashBlock _ _ _ content => content

def blockIndex : CommitCall Hash → ℕ
  | .storeBlock _ _ blockIndex => blockIndex
  | .commitStashBlock _ blockIndex _ _ => blockIndex

def stashFile : CommitCall Hash → Option (DataFile Hash)
  | .storeBlock _ _ _ => none
  | .commitStashBlock storage _ uuid _ => some (.stash storage.stashDirectory uuid)

/-- What the call holds before its first system call. -/
def held : CommitCall Hash → Set Resource
  | .storeBlock _ _ _ => ∅
  | .commitStashBlock _ _ uuid _ => {.file uuid}

/-- The storage of the call works on the directory and its block is one block long; the
stash file of a commit is there. -/
structure Ready (blocks : BlocksDirectory Hash) (files : FileSystem Hash)
    (call : CommitCall Hash) : Prop where
  singleTiered : match call with
    | .storeBlock storage _ _ => storage.SingleTiered blocks
    | .commitStashBlock storage _ _ _ => storage.SingleTiered blocks
  length : call.content.length = blocks.blockSize
  stash : match call with
    | .storeBlock _ _ _ => True
    | .commitStashBlock storage blockIndex uuid content =>
        storage.stashBlockIds blockIndex = some uuid ∧ uuid < files.fresh ∧
          files.data (.stash storage.stashDirectory uuid) = some content

/-- What a call that has returned has left, where `owned` are the numbers it was given. -/
structure Returned (blocks : BlocksDirectory Hash) (call : CommitCall Hash)
    (result : Option Hash) (owned : Set Resource) (files : FileSystem Hash) : Prop where
  result : result = some (blocks.build.computeHash call.content)
  stored : blocks.Stored files (blocks.build.computeHash call.content) call.content
  temporary : ∀ number, .file number ∈ owned → .file number ∈ call.held ∨
    files.data (blocks.temporaryFile (blocks.build.computeHash call.content) call.blockIndex
      number) = none
  stash : ∀ file, call.stashFile = some file → files.data file = none

variable {call : CommitCall Hash} {files : FileSystem Hash}

theorem Ready.places (hready : call.Ready blocks files) :
    (call.program blocks.build).CallsOnly (Call.Places blocks) := by
  cases call with
  | storeBlock storage buffer blockIndex =>
      have hsingle : storage.SingleTiered blocks := hready.singleTiered
      rw [program, BlockStorage.storeBlock, hsingle.tier]
      exact places_storeBlockOn hsingle.baseDirectory
  | commitStashBlock storage blockIndex uuid content =>
      apply Program.CallsOnly.bind (places_commitStashBlock hready.singleTiered)
      exact fun committed => trivial

variable [DecidableEq Hash]

theorem Ready.held_allocated (hready : call.Ready blocks files) :
    call.held ⊆ FileSystem.interface.allocated files := by
  cases call with
  | storeBlock storage buffer blockIndex => exact Set.empty_subset _
  | commitStashBlock storage blockIndex uuid content =>
      exact Set.singleton_subset_iff.mpr hready.stash.2.1

/-- Whatever other calls do meanwhile, a call returns the name of its block and leaves
no other file behind. -/
theorem Ready.ensures (hsound : blocks.build.Sound) (hnamed : blocks.Named files)
    (hready : call.Ready blocks files) :
    (blocks.contract False).ensures (call.program blocks.build) (call.Returned blocks) call.held
      files := by
  cases call with
  | storeBlock storage buffer blockIndex =>
      apply Contract.ensures_mono
        (ensures_storeBlock hsound hready.singleTiered hready.length blockIndex hnamed)
      rintro result owned files' ⟨hresult, hstored, hgone⟩
      exact ⟨hresult, hstored, hgone, fun file hfile => by cases hfile⟩
  | commitStashBlock storage blockIndex uuid content =>
      obtain ⟨hid, hfresh, hdata⟩ := hready.stash
      apply Contract.ensures_bind_of (Contract.ensures_keep BlocksDirectory.contract_mutual
        BlocksDirectory.kept_named hnamed (ensures_commitStashBlock_tidied hsound
          hready.singleTiered hid hdata hready.length hfresh hnamed))
      rintro _ owned files' ⟨⟨rfl, hstored, htidied⟩, hnamed'⟩ final hfinal
      refine ⟨rfl, stored_of_rely hnamed' hfinal hstored, ?_, ?_⟩
      · intro number hnumber
        rcases htidied.temporary number hnumber with rfl | htemporary
        · exact .inl rfl
        · exact .inr ((hfinal.owned _ hnumber _ rfl).trans htemporary)
      · intro file hfile
        cases hfile
        exact (hfinal.owned _ htidied.held _ rfl).trans htidied.stash

/-! ## The system -/

/-- The shared files and the calls in progress. -/
abbrev Commits (Hash : Type) : Type :=
  FileSystem Hash × List (Contract.Worker (Call Hash) Reply (CommitCall Hash) (Option Hash) Resource)

omit [DecidableEq Hash] in
/-- A call that has made none of its system calls. -/
def start (build : Build Hash) (call : CommitCall Hash) :
    Contract.Worker (Call Hash) Reply (CommitCall Hash) (Option Hash) Resource where
  label := call
  program := call.program build
  owned := call.held

/-- What holds whenever no system call is under way. -/
structure Safe (blocks : BlocksDirectory Hash) (calls : List (CommitCall Hash))
    (state : Commits Hash) : Prop where
  labels : state.2.map Contract.Worker.label = calls
  named : blocks.Named state.1
  oneFileEach : blocks.OneFileEach state.1
  running : ∀ worker ∈ state.2, worker.program ≠ .exit ∧ worker.program ≠ .undefined
  returned : ∀ worker ∈ state.2, ∀ result, worker.program = .finish result →
    worker.label.Returned blocks result worker.owned state.1

/-- The invariant: the calls in progress, and how each of them will end. -/
structure InProgress (blocks : BlocksDirectory Hash) (calls : List (CommitCall Hash))
    (state : Commits Hash) : Prop where
  labels : state.2.map Contract.Worker.label = calls
  named : blocks.Named state.1
  placed : blocks.Placed state.1
  places : ∀ worker ∈ state.2, worker.program.CallsOnly (Call.Places blocks)
  crew : (blocks.contract False).Crew (Returned blocks) state.2 state.1

theorem InProgress.safe (hsound : blocks.build.Sound) {calls : List (CommitCall Hash)}
    {state : Commits Hash} (hprogress : InProgress blocks calls state) :
    Safe blocks calls state where
  labels := hprogress.labels
  named := hprogress.named
  oneFileEach := hprogress.placed.oneFileEach hsound hprogress.named
  running := by
    intro worker hworker
    have hensures := hprogress.crew.ensures worker hworker
    constructor
    · intro hexit
      rw [hexit] at hensures
      exact hensures
    · intro hundefined
      rw [hundefined] at hensures
      exact hensures
  returned := by
    intro worker hworker result hresult
    have hensures := hprogress.crew.ensures worker hworker
    rw [hresult] at hensures
    exact hensures state.1 (Contract.Rely.refl _ _)

theorem InProgress.start (hsound : blocks.build.Sound) (hnamed : blocks.Named files)
    (hplaced : blocks.Placed files) {calls : List (CommitCall Hash)}
    (hready : ∀ call ∈ calls, call.Ready blocks files)
    (hown : calls.Pairwise fun left right => Disjoint left.held right.held) :
    InProgress blocks calls (files, calls.map (CommitCall.start blocks.build)) where
  labels := by
    rw [List.map_map]
    exact List.map_id calls
  named := hnamed
  placed := hplaced
  places := by
    intro worker hworker
    obtain ⟨call, hcall, rfl⟩ := List.mem_map.mp hworker
    exact (hready call hcall).places
  crew :=
    { ensures := by
        intro worker hworker
        obtain ⟨call, hcall, rfl⟩ := List.mem_map.mp hworker
        exact (hready call hcall).ensures hsound hnamed
      allocated := by
        intro worker hworker
        obtain ⟨call, hcall, rfl⟩ := List.mem_map.mp hworker
        exact (hready call hcall).held_allocated
      disjoint := List.pairwise_map.mpr hown }

/-- One system call of one of the calls keeps the invariant and every block. -/
theorem InProgress.step {calls : List (CommitCall Hash)} {state next : Commits Hash} {site : ℕ}
    (hprogress : InProgress blocks calls state)
    (hstep : Contract.CrewStep FileSystem.interface state site next) :
    InProgress blocks calls next ∧ blocks.Keeps state.1 next.1 := by
  have hlabels := hstep.labels.trans hprogress.labels
  cases hstep with
  | @call files after workers site request next reply hsite hprogram hanswers =>
      obtain ⟨hguarantee, hcrew⟩ :=
        hprogress.crew.step BlocksDirectory.contract_mutual hsite hprogram hanswers
      obtain ⟨hnamed, hkeeps⟩ := hguarantee.promised.named hprogress.named
      have hcalls := hprogress.places _ (List.getElem_mem hsite)
      rw [hprogram] at hcalls
      have hplaced := hprogress.placed.answer hcalls.1
      have hafter : (files.answer request).2 = after := congrArg Prod.snd hanswers
      rw [hafter] at hplaced
      refine ⟨⟨hlabels, hnamed, hplaced, ?_, hcrew⟩, hkeeps⟩
      intro worker hworker
      rcases Contract.mem_set_cases hworker with rfl | ⟨other, hother, -, rfl⟩
      · exact hcalls.2 reply
      · exact hprogress.places _ (List.getElem_mem hother)

/-- However the calls are interleaved, the blocks directory stays safe, and no block that
is there is ever removed or changed. -/
theorem concurrent_commits_safe (hsound : blocks.build.Sound) (hnamed : blocks.Named files)
    (hplaced : blocks.Placed files) {calls : List (CommitCall Hash)}
    (hready : ∀ call ∈ calls, call.Ready blocks files)
    (hown : calls.Pairwise fun left right => Disjoint left.held right.held)
    {trace : List (ℕ × Commits Hash)}
    (hrun : Run (Contract.CrewStep FileSystem.interface)
      (files, calls.map (CommitCall.start blocks.build)) trace) :
    (∀ state ∈ Run.states (files, calls.map (CommitCall.start blocks.build)) trace,
        Safe blocks calls state) ∧
      (Run.states (files, calls.map (CommitCall.start blocks.build)) trace).Pairwise
        fun earlier later => blocks.Keeps earlier.1 later.1 := by
  have hstart := InProgress.start hsound hnamed hplaced hready hown
  have hinvariant : ∀ state ∈ Run.states (files, calls.map (CommitCall.start blocks.build)) trace,
      InProgress blocks calls state :=
    hrun.forall_states_of_step (fun _ _ _ hprogress hstep => (hprogress.step hstep).1) hstart
  constructor
  · exact fun state hstate => (hinvariant state hstate).safe hsound
  · apply hrun.pairwise_states _ (fun _ _ _ hprogress hstep => (hprogress.step hstep).2) hinvariant
    intro first second third hfirst hsecond subdirectory name bytes hbytes
    exact hsecond _ _ _ (hfirst _ _ _ hbytes)

/-- A blocks directory with blocks of one byte. -/
def byteDirectory : BlocksDirectory (Option (List Byte)) := ⟨.transparent, ['/', 'b'], 1⟩

/-- Two threads that store the same block. -/
def sameBlockTwice : List (CommitCall (Option (List Byte))) :=
  [.storeBlock (.initial ['/', 'b'] ['/', 's'] 1) [7] 0,
    .storeBlock (.initial ['/', 'b'] ['/', 's'] 1) [7] 1]

def sameBlockTwiceStart : Commits (Option (List Byte)) :=
  (FileSystem.empty, sameBlockTwice.map (CommitCall.start .transparent))

/-- The first thread ends once the second one has looked for the block and missed it. -/
theorem run_sameBlockTwice :
    ∃ trace : List (ℕ × Commits (Option (List Byte))),
      Run (Contract.CrewStep FileSystem.interface) sameBlockTwiceStart trace ∧
      trace.map Prod.fst = [0, 1, 0, 1, 0, 1, 0, 1, 0, 1, 0, 0, 0] ∧
      (Run.last sameBlockTwiceStart trace).2.head?.map Contract.Worker.program =
        some (.finish (some (some [7]))) := by
  have hrun : Run (Contract.CrewStep FileSystem.interface) sameBlockTwiceStart
      [(0, _), (1, _), (0, _), (1, _), (0, _), (1, _), (0, _), (1, _), (0, _), (1, _), (0, _),
        (0, _), (0, _)] :=
    .cons (.call (by decide) rfl rfl) <| .cons (.call (by decide) rfl rfl) <|
    .cons (.call (by decide) rfl rfl) <| .cons (.call (by decide) rfl rfl) <|
    .cons (.call (by decide) rfl rfl) <| .cons (.call (by decide) rfl rfl) <|
    .cons (.call (by decide) rfl rfl) <| .cons (.call (by decide) rfl rfl) <|
    .cons (.call (by decide) rfl rfl) <| .cons (.call (by decide) rfl rfl) <|
    .cons (.call (by decide) rfl rfl) <| .cons (.call (by decide) rfl rfl) <|
    .cons (.call (by decide) rfl rfl) .nil
  exact ⟨_, hrun, rfl, rfl⟩

theorem concurrent_commits_safe_sameBlockTwice :
    ∃ trace : List (ℕ × Commits (Option (List Byte))),
      Run (Contract.CrewStep FileSystem.interface) sameBlockTwiceStart trace ∧
      trace.map Prod.fst = [0, 1, 0, 1, 0, 1, 0, 1, 0, 1, 0, 0, 0] ∧
      (Run.last sameBlockTwiceStart trace).2.head?.map Contract.Worker.program =
        some (.finish (some (some [7]))) ∧
      Safe byteDirectory sameBlockTwice (Run.last sameBlockTwiceStart trace) := by
  have hnamed : byteDirectory.Named FileSystem.empty := fun _ _ _ hbytes => by cases hbytes
  have hplaced : byteDirectory.Placed FileSystem.empty := fun _ hfile => by cases hfile
  have hready : ∀ call ∈ sameBlockTwice, call.Ready byteDirectory FileSystem.empty := by
    intro call hcall
    rcases List.mem_pair.mp hcall with rfl | rfl
    · exact ⟨⟨rfl, rfl, by decide⟩, rfl, trivial⟩
    · exact ⟨⟨rfl, rfl, by decide⟩, rfl, trivial⟩
  have hown : sameBlockTwice.Pairwise fun left right => Disjoint left.held right.held :=
    List.pairwise_pair.mpr (Set.disjoint_empty _)
  obtain ⟨trace, hrun, hturns, hended⟩ := run_sameBlockTwice
  have hsafe :=
    (concurrent_commits_safe Build.transparent_sound hnamed hplaced hready hown hrun).1
  exact ⟨trace, hrun, hturns, hended, hsafe _ Run.last_mem_states⟩

end CommitCall

end BlockStorage

end Privateer
