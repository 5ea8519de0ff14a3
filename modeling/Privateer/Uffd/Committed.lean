import Privateer.Uffd.HandlerSpec
import Privateer.VirtualMemory.Session

/-!
# What a commit of the UFFD manager names

One application thread reads and writes bytes and commits, each of its faults handled
before its next access.  It reads what a plain array holds.  A commit names the
contents of every block exactly when no block was changed after it became untracked:
an evicted dirty block stays writable, and a later write to it raises no event.
-/

namespace Privateer

/-- What the application does with an open region. -/
inductive UffdOperation where
  | read (offset : ℕ)
  | write (offset : ℕ) (byte : Byte)
  | msync (schedule : ℕ → MsyncSchedule)

/-- The same operation on a plain array. -/
def UffdOperation.flat : UffdOperation → Operation
  | .read offset => .read offset
  | .write offset byte => .write offset byte
  | .msync schedule => .msync (schedule 0)

/-- A write to an untracked block leaves its byte as it is. -/
def UffdOperation.FindsTracked {Hash : Type} (manager : UffdVirtualMemoryManager Hash) :
    UffdOperation → Prop
  | .read _ => True
  | .write offset byte => manager.Untracked (offset / manager.blockSize) →
      (manager.memory (offset / manager.blockSize)).getD (offset % manager.blockSize) 0 = byte
  | .msync _ => True

namespace UffdVirtualMemoryManager

open VirtualMemoryManagerBase (SameSession Started)

variable {Hash : Type} [DecidableEq Hash] {blocks : BlocksDirectory Hash}
variable {manager : UffdVirtualMemoryManager Hash} {files : FileSystem Hash}
variable {region : ℕ → Byte} {stored : ℕ → List Byte}

/-- One operation; a read gives its byte. -/
def perform (build : Build Hash) (manager : UffdVirtualMemoryManager Hash) :
    UffdOperation → StorageProgram Hash (List Byte × UffdVirtualMemoryManager Hash)
  | .read offset => do
      let result ← readByte build manager offset
      return ([result.1], result.2)
  | .write offset byte => do
      let written ← writeByte build manager offset byte
      return ([], written)
  | .msync schedule => do
      let committed ← msync build manager schedule
      return ([], committed)

/-- A read-write session of one thread whose region holds `region`. -/
structure Session (blocks : BlocksDirectory Hash) (region : ℕ → Byte)
    (stored : ℕ → List Byte) (manager : UffdVirtualMemoryManager Hash)
    (files : FileSystem Hash) : Prop where
  coherent : Coherent blocks manager files (blockOf blocks.blockSize region) stored
  readWrite : manager.readOnly = false
  version : ∃ entries, blocks.Intact files manager.versionMetadataPath
    manager.regionMaxCapacity entries

/-- An operation that keeps the files of versions keeps the session. -/
theorem Session.step (hsession : Session blocks region stored manager files)
    {manager' : UffdVirtualMemoryManager Hash} {files' : FileSystem Hash} {region' : ℕ → Byte}
    {stored' : ℕ → List Byte}
    (hcoherent : Coherent blocks manager' files' (blockOf blocks.blockSize region') stored')
    (hsame : manager.base.SameSession manager'.base) (hpromises : blocks.Promises files files') :
    Session blocks region' stored' manager' files' where
  coherent := hcoherent
  readWrite := hsame.readOnly.trans hsession.readWrite
  version := by
    obtain ⟨entries, hintact⟩ := hsession.version
    refine ⟨entries, ?_⟩
    rw [hsame.versionMetadataPath, hsame.regionMaxCapacity]
    exact hintact.keep hsession.coherent.backing.named hpromises

/-! ## Commits -/

/-- What a commit leaves: every name stands for what the storage side had. -/
structure Committed (blocks : BlocksDirectory Hash) (stored : ℕ → List Byte)
    (manager committed : UffdVirtualMemoryManager Hash) (files' : FileSystem Hash) : Prop where
  session : manager.base.SameSession committed.base
  names : ∀ block < manager.numBlocks,
    blocks.Names files' (committed.blocksIds block) (stored block)

/-- The part of a commit before the table is written. -/
theorem run_msyncBlocks (hsound : blocks.build.Sound) {contents : ℕ → List Byte}
    (hcoherent : Coherent blocks manager files contents stored) (schedule : MsyncSchedule) :
    ∃ committed files', (msyncBlocks blocks.build manager 0 schedule).run FileSystem.answer
        files = (.returned committed, files') ∧
      Coherent blocks committed files' contents stored ∧
        Committed blocks stored manager committed files' ∧ blocks.Promises files files' ∧
          committed.presentBlocks = manager.presentBlocks := by
  have htracking := hcoherent.tracking
  have hmemory : ∀ block ∈ manager.dirtyLru 0, manager.memory block = stored block := by
    intro block hblock
    rw [hcoherent.memory block (htracking.dirty block hblock).1]
    exact (hcoherent.agrees block fun h => h.unlisted hblock).symm
  have hcommit : (blocks.contract False).ensures _ _ _ files :=
    VirtualMemoryManagerBase.ensures_commitBlocks hsound hcoherent.backing
      htracking.nodup_dirty hmemory schedule
  obtain ⟨committed, files', hrun, ⟨owned, hperm, hbacking, -, hsession⟩, hpromises⟩ :=
    BlocksDirectory.run_of_ensures hcommit
  have hflush := htracking.flush hperm hsession
  have hmarked := foldl_markStored htracking.threads (committed.1.map Prod.fst)
  have hnames : ∀ block < manager.numBlocks,
      blocks.Names files' (committed.2.blocksIds block) (stored block) := by
    intro block hblock
    exact hbacking.names (hblock.trans_eq hsession.numBlocks.symm) List.not_mem_nil
      (Finset.notMem_empty block)
  unfold msyncBlocks
  rw [Program.run_bind_of_returned hrun]
  refine ⟨_, files', rfl, ?_, ⟨hsession, hnames⟩, hpromises, by rw [hmarked]; rfl⟩
  apply hcoherent.of_tracking hsession hflush
  · rw [hmarked]
    exact hcoherent.tempBuffer
  · rw [hmarked]
    exact hcoherent.memory
  · intro block hblock
    rw [hmarked]
    refine ⟨hblock.installed, ?_, ?_⟩
    · have hnot : block ∉ committed.1.map Prod.fst := fun h =>
        hblock.unlisted (hperm.mem_iff.mp h)
      simpa [clearDirty, hnot] using hblock.writable
    · simp [clearDirty]
  · simpa [hmarked, clearDirty] using hbacking

/-- A commit keeps the session, and what the storage side has gets its names. -/
theorem Session.run_msync (hsound : blocks.build.Sound)
    (hsession : Session blocks region stored manager files) (schedule : ℕ → MsyncSchedule) :
    ∃ committed files', (msync blocks.build manager schedule).run FileSystem.answer files =
        (.returned committed, files') ∧ Session blocks region stored committed files' ∧
          Committed blocks stored manager committed files' := by
  obtain ⟨committed, files', hrun, hkept, hcommitted, hpromises, hpresent⟩ :=
    run_msyncBlocks hsound hsession.coherent (schedule 0)
  obtain ⟨entries, hintact⟩ := hsession.version
  have hsame := hcommitted.session
  have hintact' : blocks.Intact files' committed.versionMetadataPath
      committed.regionMaxCapacity entries := by
    rw [hsame.versionMetadataPath, hsame.regionMaxCapacity]
    exact hintact.keep hsession.coherent.backing.named hpromises
  have hpresentLt : ∀ block ∈ committed.presentBlocks 0, block < manager.numBlocks := by
    intro block hblock
    rw [hpresent] at hblock
    have htracking := hsession.coherent.tracking
    rcases htracking.present block hblock with hclean | hdirty
    · exact htracking.installed_lt block (htracking.clean block hclean).1
    · exact htracking.installed_lt block (htracking.dirty block hdirty).1
  have hoccupied := VirtualMemoryManagerBase.occupiedBlocks_le hpresentLt
  let names := (List.range (VirtualMemoryManagerBase.occupiedBlocks
    (committed.presentBlocks 0))).map committed.blocksIds
  have hupdate := VirtualMemoryManagerBase.run_updateMetadata (committed.presentBlocks 0)
    hintact'.metadata
  refine ⟨committed, files'.setMetadata committed.versionMetadataPath
    (some (overwrite names entries)), ?_, ⟨?_, ?_, ⟨_, hintact'.overwrite ?_ ?_⟩⟩,
    hsame, ?_⟩
  · rw [msync, hsession.coherent.tracking.threads]
    change (msyncSubRegion blocks.build manager 0 (schedule 0) >>= _).run _ _ = _
    rw [msyncSubRegion, Program.bind_assoc, Program.run_bind_of_returned hrun,
      Program.bind_assoc, Program.run_bind_of_returned hupdate]
    rfl
  · exact hkept.of_backing (hkept.backing.of_data_eq (fun _ h => h) rfl rfl)
  · exact hsame.readOnly.trans hsession.readWrite
  · rw [List.length_map, List.length_range, ← hkept.blockSize]
    exact hoccupied.trans_eq hsame.numBlocks.symm
  · intro name hname
    obtain ⟨block, hblock, rfl⟩ := List.mem_map.mp hname
    exact ⟨_, hcommitted.names block ((List.mem_range.mp hblock).trans_le hoccupied)⟩
  · simp only [BlocksDirectory.names_setMetadata]
    exact hcommitted.names

/-! ## Steps of a session -/

/-- A session between two operations; `region` is the plain array beside it. -/
structure SessionState (Hash : Type) where
  manager : UffdVirtualMemoryManager Hash
  files : FileSystem Hash
  region : ℕ → Byte

/-- One operation inside the region, in the session and on the plain array. -/
def SessionStep (build : Build Hash) (state : SessionState Hash) (operation : UffdOperation)
    (next : SessionState Hash) : Prop :=
  operation.flat.Within (state.manager.numBlocks * state.manager.blockSize) ∧
  (perform build state.manager operation).run FileSystem.answer state.files =
      (.returned (flatReads [operation.flat] state.region, next.manager), next.files) ∧
    next.region = flatRegion [operation.flat] state.region

/-- A commit at this point returns, and every name then stands for what the
application sees in its block. -/
def CommitNames (blocks : BlocksDirectory Hash) (state : SessionState Hash) : Prop :=
  ∀ schedule, ∃ committed final,
    (msync blocks.build state.manager schedule).run FileSystem.answer state.files =
      (.returned committed, final) ∧
    ∀ block < state.manager.numBlocks,
      blocks.Names final (committed.blocksIds block)
        (blockOf blocks.blockSize state.region block)

/-- A commit names what the storage side has. -/
theorem Session.commitNames_iff (hsound : blocks.build.Sound)
    (hsession : Session blocks region stored manager files) :
    CommitNames blocks ⟨manager, files, region⟩ ↔
      ∀ block < manager.numBlocks, stored block = blockOf blocks.blockSize region block := by
  constructor
  · intro hnames block hblock
    obtain ⟨committed, final, hrun, hregion⟩ := hnames fun _ => ⟨[], []⟩
    obtain ⟨committed', final', hrun', -, hcommitted⟩ :=
      hsession.run_msync hsound fun _ => ⟨[], []⟩
    obtain ⟨hsame, rfl⟩ := Prod.mk.inj (hrun'.symm.trans hrun)
    cases hsame
    exact (hcommitted.names block hblock).unique hsound (hregion block hblock)
  · intro hstored schedule
    obtain ⟨committed, final, hrun, -, hcommitted⟩ := hsession.run_msync hsound schedule
    refine ⟨committed, final, hrun, fun block hblock => ?_⟩
    rw [← hstored block hblock]
    exact hcommitted.names block hblock

/-- A write of a byte that raises no event. -/
theorem Coherent.writeMemory {offset : ℕ}
    (hcoherent : Coherent blocks manager files (blockOf blocks.blockSize region) stored)
    (hpermits : manager.permits (offset / blocks.blockSize) true) (byte : Byte) :
    Coherent blocks (manager.writeMemory offset byte) files
      (blockOf blocks.blockSize (Function.update region offset byte))
      (if offset / blocks.blockSize ∈ manager.dirtyLru 0 then
        Function.update stored (offset / blocks.blockSize) (blockOf blocks.blockSize
          (Function.update region offset byte) (offset / blocks.blockSize))
      else stored) := by
  rw [permits, Bool.true_and, Bool.and_eq_true, Bool.not_eq_true'] at hpermits
  have hwritten := hcoherent.write hpermits.1 hpermits.2
    (length_blockOf blocks.blockSize (Function.update region offset byte)
      (offset / blocks.blockSize))
  have hcontent := blockOf_update_self blocks.blockSize region offset byte
  have hmemory : (manager.memory (offset / blocks.blockSize)).set (offset % blocks.blockSize)
      byte = blockOf blocks.blockSize (Function.update region offset byte)
        (offset / blocks.blockSize) := by
    rw [hcoherent.memory _ hpermits.1, hcontent]
  have hregion : Function.update (blockOf blocks.blockSize region) (offset / blocks.blockSize)
      (blockOf blocks.blockSize (Function.update region offset byte)
        (offset / blocks.blockSize)) =
      blockOf blocks.blockSize (Function.update region offset byte) := by
    rw [hcontent, ← blockOf_update hcoherent.blockSize_pos]
  rw [hregion] at hwritten
  rw [UffdVirtualMemoryManager.writeMemory, hcoherent.blockSize, hmemory]
  exact hwritten

omit [DecidableEq Hash] in
/-- A write reaches the storage side with the next commit exactly when it finds its
block tracked or changes nothing. -/
theorem agrees_write_iff {block offset : ℕ} {byte : Byte} (hpos : 0 < blocks.blockSize)
    (hblock : offset / blocks.blockSize < block)
    (hstored : ∀ other < block, stored other = blockOf blocks.blockSize region other)
    (listed : Prop) [Decidable listed] :
    (∀ other < block,
        (if listed then Function.update stored (offset / blocks.blockSize)
            (blockOf blocks.blockSize (Function.update region offset byte)
              (offset / blocks.blockSize))
          else stored) other =
          blockOf blocks.blockSize (Function.update region offset byte) other) ↔
      (¬ listed → region offset = byte) := by
  by_cases hlisted : listed
  · simp only [hlisted, if_true, not_true_eq_false, false_implies, iff_true]
    intro other hother
    by_cases hsame : other = offset / blocks.blockSize
    · rw [hsame, Function.update_self]
    · rw [Function.update_of_ne hsame, blockOf_update_of_ne hpos region hsame]
      exact hstored other hother
  · simp only [hlisted, if_false, not_false_eq_true, true_implies]
    constructor
    · intro hall
      have hsame := (hstored _ hblock).symm.trans (hall _ hblock)
      have hbyte := congrArg (fun content => content.getD (offset % blocks.blockSize) 0) hsame
      simpa only [getD_blockOf hpos, Function.update_self] using hbyte
    · rintro rfl other hother
      rw [Function.update_eq_self]
      exact hstored other hother

/-- Every operation inside the region goes through; it keeps the session, and the next
commit names the region after it exactly when it finds its block tracked. -/
theorem Session.run_perform (hsound : blocks.build.Sound)
    (hcompression : blocks.build.useCompression = false)
    (hsession : Session blocks region stored manager files) {operation : UffdOperation}
    (hwithin : operation.flat.Within (manager.numBlocks * blocks.blockSize)) :
    ∃ manager' files' stored', (perform blocks.build manager operation).run FileSystem.answer
        files = (.returned (flatReads [operation.flat] region, manager'), files') ∧
      Session blocks (flatRegion [operation.flat] region) stored' manager' files' ∧
      manager.base.SameSession manager'.base ∧
      ((∀ block < manager.numBlocks, stored block = blockOf blocks.blockSize region block) →
        ((∀ block < manager.numBlocks, stored' block =
            blockOf blocks.blockSize (flatRegion [operation.flat] region) block) ↔
          operation.FindsTracked manager)) := by
  have hcoherent := hsession.coherent
  have hpos := hcoherent.blockSize_pos
  have hinside : ∀ offset < manager.numBlocks * blocks.blockSize,
      offset / manager.blockSize < manager.numBlocks := by
    intro offset hoffset
    rw [hcoherent.blockSize]
    exact Nat.div_lt_of_lt_mul (by rwa [Nat.mul_comm])
  cases operation with
  | read offset =>
      obtain ⟨mapped, files', hrun, hmapped, hdone⟩ := run_access hsound hcompression hcoherent
        hsession.readWrite (hinside offset hwithin) false
      refine ⟨mapped, files', stored, ?_, hsession.step hmapped hdone.session hdone.promises,
        hdone.session, fun hstored => iff_of_true hstored trivial⟩
      have hinstalled : mapped.installed (offset / manager.blockSize) = true := by
        have hpermits := hdone.permits
        rw [UffdVirtualMemoryManager.permits, Bool.and_eq_true] at hpermits
        exact hpermits.1
      have hbyte : (mapped.memory (offset / mapped.blockSize)).getD
          (offset % mapped.blockSize) 0 = region offset := by
        rw [hdone.session.blockSize, hmapped.memory _ hinstalled, hcoherent.blockSize,
          getD_blockOf hpos]
      rw [perform, readByte, Program.bind_assoc, Program.run_bind_of_returned hrun]
      exact congrArg (fun byte => (Outcome.returned ([byte], mapped), files')) hbyte
  | write offset byte =>
      obtain ⟨mapped, files', hrun, hmapped, hdone⟩ := run_access hsound hcompression hcoherent
        hsession.readWrite (hinside offset hwithin) true
      have hindex : offset / manager.blockSize = offset / blocks.blockSize := by
        rw [hcoherent.blockSize]
      rw [hindex] at hdone
      have hwritten := hmapped.writeMemory hdone.permits byte
      refine ⟨mapped.writeMemory offset byte, files', _, ?_,
        hsession.step hwritten hdone.session hdone.promises, hdone.session, ?_⟩
      · rw [perform, writeByte, Program.bind_assoc, Program.run_bind_of_returned hrun]
        rfl
      · intro hstored
        have hblock := hinside offset hwithin
        rw [hindex] at hblock
        refine (agrees_write_iff hpos hblock hstored _).trans ?_
        rw [hdone.dirty rfl, not_not, UffdOperation.FindsTracked, hcoherent.blockSize]
        refine forall_congr' fun huntracked => ?_
        rw [hcoherent.memory _ huntracked.installed, getD_blockOf hpos]
  | msync schedule =>
      obtain ⟨committed, files', hrun, hkept, hcommitted⟩ := hsession.run_msync hsound schedule
      refine ⟨committed, files', stored, ?_, hkept, hcommitted.session,
        fun hstored => iff_of_true hstored trivial⟩
      rw [perform, Program.run_bind_of_returned hrun]
      rfl

/-- The operations of a session all go through. -/
theorem Session.exists_run (hsound : blocks.build.Sound)
    (hcompression : blocks.build.useCompression = false)
    (hsession : Session blocks region stored manager files) {operations : List UffdOperation}
    (hwithin : ∀ operation ∈ operations,
      operation.flat.Within (manager.numBlocks * manager.blockSize)) :
    ∃ trace, trace.map Prod.fst = operations ∧
      Run (SessionStep blocks.build) ⟨manager, files, region⟩ trace := by
  induction operations generalizing manager files region stored with
  | nil => exact ⟨[], rfl, .nil⟩
  | cons operation rest ih =>
      have hfirstWithin := hwithin operation List.mem_cons_self
      have hinside := hfirstWithin
      rw [hsession.coherent.blockSize] at hinside
      obtain ⟨middle, between, stored', hfirst, hmiddle, hsame, -⟩ :=
        hsession.run_perform hsound hcompression hinside
      obtain ⟨trace, hlabels, hrest⟩ := ih hmiddle fun later hlater => by
        rw [hsame.numBlocks, hsame.blockSize]
        exact hwithin later (List.mem_cons_of_mem _ hlater)
      refine ⟨(operation, ⟨middle, between, flatRegion [operation.flat] region⟩) :: trace,
        ?_, .cons ⟨hfirstWithin, hfirst, rfl⟩ hrest⟩
      rw [List.map_cons, hlabels]

/-- An operation leads to one state only. -/
theorem SessionStep.unique {state first second : SessionState Hash}
    {operation : UffdOperation} (hfirst : SessionStep blocks.build state operation first)
    (hsecond : SessionStep blocks.build state operation second) : first = second := by
  obtain ⟨-, hrun, hregion⟩ := hfirst
  obtain ⟨-, hrun', hregion'⟩ := hsecond
  obtain ⟨hvalue, hfiles⟩ := Prod.mk.inj (hrun.symm.trans hrun')
  have hmanager := congrArg Prod.snd (Outcome.returned.inj hvalue)
  cases first
  cases second
  dsimp only at hmanager hfiles hregion hregion'
  rw [hmanager, hfiles, hregion, hregion']

/-- One step keeps the session; a commit names the region after it exactly when the
step finds its block tracked. -/
theorem SessionStep.commitNames_iff (hsound : blocks.build.Sound)
    (hcompression : blocks.build.useCompression = false) {state next : SessionState Hash}
    {operation : UffdOperation}
    (hsession : ∃ stored, Session blocks state.region stored state.manager state.files)
    (hnames : CommitNames blocks state) (hstep : SessionStep blocks.build state operation next) :
    (∃ stored, Session blocks next.region stored next.manager next.files) ∧
      (CommitNames blocks next ↔ operation.FindsTracked state.manager) := by
  obtain ⟨stored, hstored⟩ := hsession
  obtain ⟨hwithin, hrun, hregion⟩ := hstep
  rw [hstored.coherent.blockSize] at hwithin
  obtain ⟨manager', files', stored', hrun', hnext, hsame, hiff⟩ :=
    hstored.run_perform hsound hcompression hwithin
  obtain ⟨hvalue, hfiles⟩ := Prod.mk.inj (hrun'.symm.trans hrun)
  have hmanager := congrArg Prod.snd (Outcome.returned.inj hvalue)
  dsimp only at hmanager
  rw [hmanager, hfiles, ← hregion] at hnext
  refine ⟨⟨stored', hnext⟩, ?_⟩
  have hafter := hnext.commitNames_iff hsound
  rw [← hmanager, hsame.numBlocks, hregion] at hafter
  have hbefore := (hstored.commitNames_iff hsound).mp hnames
  rw [← hiff hbefore, ← hafter, ← hregion, hmanager]

/-! ## Whole sessions -/

/-- A manager that was just constructed has no pages, so it is coherent with whatever
its storage side backs. -/
theorem Coherent.initial {base : VirtualMemoryManagerBase Hash} {contents : ℕ → List Byte}
    (hstarted : Started blocks base files contents) (regionStartAddress : ℕ) :
    Coherent blocks (UffdVirtualMemoryManager.initial base regionStartAddress 1) files contents
      contents where
  blockSize := hstarted.blockSize
  blockSize_pos := hstarted.blockSize_pos
  limit := hstarted.limit
  tracking :=
    { threads := rfl
      nodup_clean := List.nodup_nil
      nodup_dirty := List.nodup_nil
      clean := fun _ hblock => absurd hblock List.not_mem_nil
      dirty := fun _ hblock => absurd hblock List.not_mem_nil
      present := fun block hblock => absurd hblock (Finset.notMem_empty block)
      stashed := fun block hblock => absurd hblock (Finset.notMem_empty block)
      installed_lt := fun _ hinstalled => absurd hinstalled Bool.false_ne_true }
  tempBuffer := by
    rw [← hstarted.blockSize]
    exact (List.length_replicate).le
  memory := fun _ hinstalled => absurd hinstalled Bool.false_ne_true
  agrees := fun _ _ => rfl
  length := hstarted.backing.length
  backing := hstarted.backing

/-- A session on a manager with one handling thread that was just constructed. -/
def SessionState.first (base : VirtualMemoryManagerBase Hash) (regionStartAddress : ℕ)
    (files : FileSystem Hash) (region : ℕ → Byte) : SessionState Hash :=
  ⟨initial base regionStartAddress 1, files, region⟩

/-- In every session the commits name the region, whenever they are made, exactly when
every write finds its block tracked. -/
theorem commits_name_region_iff (hsound : blocks.build.Sound)
    (hcompression : blocks.build.useCompression = false) {start : Start}
    (hstart : start.WellFormed blocks files) {base : VirtualMemoryManagerBase Hash}
    {files' : FileSystem Hash}
    (hopen : (start.base blocks.build).run FileSystem.answer files = (.returned base, files'))
    (regionStartAddress : ℕ) {operations : List UffdOperation}
    (hwithin : ∀ operation ∈ operations,
      operation.flat.Within (base.numBlocks * base.blockSize)) :
    ∃ trace, trace.map Prod.fst = operations ∧
      Run (SessionStep blocks.build) (.first base regionStartAddress files'
        (start.region blocks.build files blocks.blockSize)) trace ∧
      ((∀ state ∈ Run.states (.first base regionStartAddress files'
          (start.region blocks.build files blocks.blockSize)) trace, CommitNames blocks state) ↔
        Run.Each (fun state operation => operation.FindsTracked state.manager)
          (.first base regionStartAddress files'
            (start.region blocks.build files blocks.blockSize)) trace) := by
  obtain ⟨hstarted, hreadWrite⟩ := Started.of_start hsound hcompression hstart hopen
  have hsession : Session blocks (start.region blocks.build files blocks.blockSize)
      (blockOf blocks.blockSize (start.region blocks.build files blocks.blockSize))
      (initial base regionStartAddress 1) files' :=
    ⟨Coherent.initial hstarted regionStartAddress, hreadWrite, hstarted.version⟩
  obtain ⟨trace, hlabels, hrun⟩ := hsession.exists_run hsound hcompression hwithin
  refine ⟨trace, hlabels, hrun, hrun.forall_states_iff
    (fun state operation next hstate hnames hstep =>
      hstep.commitNames_iff hsound hcompression hstate hnames) ⟨_, hsession⟩ ?_⟩
  exact (hsession.commitNames_iff hsound).mpr fun _ _ => rfl

/-- The first block is evicted dirty to make room for the second; later it is written to
without an event, but with the byte that it holds. -/
theorem commits_name_region_iff_twoBlocks :
    ∃ base files trace, (twoBlocks.base .transparent).run FileSystem.answer FileSystem.empty =
        (.returned base, files) ∧
      trace.map Prod.fst = [.write 0 5, .write 1 7, .read 0, .msync fun _ => ⟨[], []⟩,
        .write 1 8, .write 0 5] ∧
      Run (SessionStep .transparent) (.first base 0 files fun _ => 0) trace ∧
      ∀ state ∈ Run.states (.first base 0 files fun _ => 0) trace,
        CommitNames byteBlocks state := by
  have hopen : (twoBlocks.base .transparent).run FileSystem.answer FileSystem.empty =
      (.returned _, _) := rfl
  have hwithin : ∀ operation ∈ [UffdOperation.write 0 5, .write 1 7, .read 0,
      .msync fun _ => ⟨[], []⟩, .write 1 8, .write 0 5], operation.flat.Within 2 := by decide
  obtain ⟨trace, hlabels, hrun, hnames⟩ := commits_name_region_iff Build.transparent_sound rfl
    twoBlocks_wellFormed hopen 0 hwithin
  refine ⟨_, _, trace, hopen, hlabels, hrun, hnames.mpr ?_⟩
  have htrace : trace = [(.write 0 5, ⟨_, _, _⟩), (.write 1 7, ⟨_, _, _⟩), (.read 0, ⟨_, _, _⟩),
      (.msync fun _ => ⟨[], []⟩, ⟨_, _, _⟩), (.write 1 8, ⟨_, _, _⟩),
      (.write 0 5, ⟨_, _, _⟩)] :=
    hrun.eq_of_labels
      (.cons ⟨Nat.zero_lt_two, rfl, rfl⟩ <| .cons ⟨Nat.one_lt_two, rfl, rfl⟩ <|
        .cons ⟨Nat.zero_lt_two, rfl, rfl⟩ <| .cons ⟨trivial, rfl, rfl⟩ <|
        .cons ⟨Nat.one_lt_two, rfl, rfl⟩ <| .cons ⟨Nat.zero_lt_two, rfl, rfl⟩ .nil)
      SessionStep.unique hlabels
  rw [htrace]
  refine ⟨fun huntracked => ?_, fun huntracked => ?_, trivial, trivial, fun huntracked => ?_,
    fun _ => rfl, trivial⟩
  · exact absurd huntracked.installed (by decide)
  · exact absurd huntracked.installed (by decide)
  · exact absurd huntracked.writable (by decide)
/-- Block 0 is written to and evicted dirty to make room for block 1.  The second write to
it raises no event, so the commit names what it held when it was evicted. -/
theorem commit_loses_write_to_evicted_block :
    ∃ base files trace, (twoBlocks.base .transparent).run FileSystem.answer FileSystem.empty =
        (.returned base, files) ∧
      trace.map Prod.fst = [.write 0 5, .write 1 7, .write 0 9] ∧
      Run (SessionStep .transparent) (.first base 0 files fun _ => 0) trace ∧
      ∃ state ∈ Run.states (.first base 0 files fun _ => 0) trace,
        state.region 0 = 9 ∧ ¬ CommitNames byteBlocks state := by
  refine ⟨_, _, [(.write 0 5, ⟨_, _, _⟩), (.write 1 7, ⟨_, _, _⟩), (.write 0 9, ⟨_, _, _⟩)],
    rfl, rfl, .cons ⟨by decide, rfl, rfl⟩ (.cons ⟨by decide, rfl, rfl⟩
      (.cons ⟨by decide, rfl, rfl⟩ .nil)), _, .tail _ (.tail _ (.tail _ (.head _))), rfl, ?_⟩
  intro hnames
  obtain ⟨committed, final, hrun, hregion⟩ := hnames fun _ => ⟨[], []⟩
  have hname : committed.blocksIds 0 = some [5] := by
    have hids := congrArg (fun result => match result.1 with
      | Outcome.returned manager => manager.blocksIds 0
      | _ => none) hrun
    exact hids.symm.trans (by decide +kernel)
  rcases hregion 0 (by decide) with ⟨hempty, -⟩ | hstored
  · exact absurd (hname.symm.trans hempty) (Option.some_ne_none _)
  · exact absurd (hstored.hash.trans hname) (by decide +kernel)

end UffdVirtualMemoryManager

end Privateer
