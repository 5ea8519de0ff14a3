import Privateer.Datastore.CommittedBlocks
import Privateer.Datastore.KilledStores
import Privateer.Logic.Accounting

/-!
# What sessions have written

A manager keeps the blocks that it has to commit in two places, the list of dirty blocks and the
set of stashed ones, and evictions, loads and faults move blocks between them.  Seen over whole
runs they are the blocks that the session has written since it last committed.
-/

namespace Privateer

open BlocksDirectory (versions_bind versions_finish)
open SigactionVirtualMemoryManager (access_modified msync_modified takeSnapshot_modified
  run_snapshot_refused run_snapshot_taken)

variable {Hash : Type}

variable [DecidableEq Hash] {blocks : BlocksDirectory Hash} {files files' : FileSystem Hash}
variable {state next : VersionsState Hash} {request : VersionsRequest Hash} {session : ℕ}
variable {manager : SigactionVirtualMemoryManager Hash}

/-! ## What a request leaves of its session -/

section Requests

/-- Either the program of a request has run to its end, or its process is gone. -/
theorem VersionsState.After.returned_or_gone {A : Type} {program : StorageProgram Hash A}
    {survivor : A → Option (SigactionVirtualMemoryManager Hash)}
    {outcome : Outcome (Option (SigactionVirtualMemoryManager Hash))}
    (hafter : state.After session files' outcome next) (hdefined : outcome ≠ .undefined)
    (hends : killedAnywhere (program >>= fun result => .finish (survivor result)) state.files
      outcome files') :
    (∃ result, program.run FileSystem.answer state.files = (.returned result, next.files) ∧
      next.sessions session = survivor result) ∨
    next.sessions session = none ∧ ∃ stopped, MayEnd program state.files stopped next.files := by
  obtain rfl := hafter.files_eq hdefined
  cases outcome with
  | undefined => exact absurd rfl hdefined
  | exited => exact .inr ⟨hafter.exited.2, Program.RunsTo.of_bind_finish hends⟩
  | returned left =>
      rcases Program.RunsTo.run_or_exited hends with hrun | hexited
      · obtain ⟨result, between, hprogram, hlast⟩ := Program.run_bind_returned hrun
        cases hlast
        refine .inl ⟨result, hprogram, ?_⟩
        rw [show next = _ from hafter]
        exact Function.update_self _ _ _
      · cases hexited

theorem VersionsState.Orderly.started_or_gone (hpos : 0 < blocks.blockSize)
    (horderly : state.Orderly blocks) {object : PrivateerObject Hash} {opening : Opening}
    {address : ℕ} (hstep : VersionsStep blocks killedAnywhere state
      (.start session object opening address) next) :
    (∃ manager, (opening.program blocks.build object address).run FileSystem.answer state.files =
      (.returned manager, next.files) ∧ next.sessions session = some manager) ∨
    next.sessions session = none ∧ ∃ stopped,
      MayEnd (opening.program blocks.build object address) state.files stopped next.files := by
  obtain ⟨-, htier, hallowed, outcome, files', hends, hafter⟩ := hstep
  have hensures : (blocks.versions (opening.creates object)
      (opening.Grounds blocks state.files)).ensures
        (do return some (← opening.program blocks.build object address))
        (fun _ _ _ => True) (holding ∅ (opening.creates object)) state.files :=
    versions_bind (opening.versions_program hpos htier horderly.consistent hallowed
      version_mem_holding) fun _ _ _ _ _ => versions_finish trivial
  exact hafter.returned_or_gone (Contract.runsTo_of_ensures_guarantee hensures hends).2.1 hends

theorem VersionsState.Orderly.performed_or_gone (hsound : blocks.build.Sound)
    (horderly : state.Orderly blocks) {operation : Operation}
    (hstep : VersionsStep blocks killedAnywhere state (.perform session operation) next) :
    ∃ manager, state.sessions session = some manager ∧
      ((∃ result, (manager.perform blocks.build operation).run FileSystem.answer state.files =
        (.returned result, next.files) ∧ next.sessions session = some result.2) ∨
      next.sessions session = none ∧ ∃ stopped,
        MayEnd (manager.perform blocks.build operation) state.files stopped next.files) := by
  obtain ⟨manager, hmanager, hwithin, outcome, files', hends, hafter⟩ := hstep
  have hsubset : manager.blockStorage.stashFiles ⊆
      holding manager.blockStorage.stashFiles (operation.writes manager) := Set.subset_union_left
  have hlive := (horderly.live session manager hmanager).hold hsubset
  have hensures : (blocks.versions (operation.writes manager) False).ensures
      (do return some (← manager.perform blocks.build operation).2)
      (fun _ _ _ => True)
      (holding manager.blockStorage.stashFiles (operation.writes manager)) state.files :=
    versions_bind (hlive.versions_perform hsound hwithin version_mem_holding
      horderly.consistent) fun _ _ _ _ _ => versions_finish trivial
  exact ⟨manager, hmanager,
    hafter.returned_or_gone (Contract.runsTo_of_ensures_guarantee hensures hends).2.1 hends⟩

theorem VersionsState.Orderly.closed (hsound : blocks.build.Sound)
    (horderly : state.Orderly blocks) {schedule : MsyncSchedule}
    (hstep : VersionsStep blocks killedAnywhere state (.close session schedule) next) :
    ∃ manager, state.sessions session = some manager ∧ next.sessions session = none ∧
      ∃ stopped, MayEnd (manager.msync blocks.build schedule) state.files stopped next.files := by
  obtain ⟨manager, hmanager, outcome, files', hends, hafter⟩ := hstep
  have hsubset : manager.blockStorage.stashFiles ⊆
      holding manager.blockStorage.stashFiles {manager.versionMetadataPath} :=
    Set.subset_union_left
  have hlive := (horderly.live session manager hmanager).hold hsubset
  have hensures : (blocks.versions {manager.versionMetadataPath} False).ensures
      (do
        manager.close blocks.build schedule
        return (none : Option (SigactionVirtualMemoryManager Hash)))
      (fun _ _ _ => True)
      (holding manager.blockStorage.stashFiles {manager.versionMetadataPath}) state.files :=
    versions_bind (hlive.versions_close hsound version_mem_holding rfl horderly.consistent
      schedule) fun _ _ _ _ _ => versions_finish trivial
  have hdefined := (Contract.runsTo_of_ensures_guarantee hensures hends).2.1
  refine ⟨manager, hmanager, ?_⟩
  rcases hafter.returned_or_gone hdefined hends with ⟨_, hclose, hnone⟩ | ⟨hnone, stopped, hclose⟩
  · exact ⟨hnone, Program.RunsTo.of_bind_finish (Program.runsTo_of_run (fun _ _ => rfl) hclose)⟩
  · exact ⟨hnone, Program.RunsTo.of_bind_finish hclose⟩

end Requests

/-! ## What sessions have written -/

/-- The blocks that a session has written since it last committed; a snapshot under a name in
use commits nothing. -/
def VersionsRequest.track (blockSize : ℕ) (state : VersionsState Hash) (written : ℕ → Finset ℕ) :
    VersionsRequest Hash → ℕ → Finset ℕ
  | .start session _ _ _ => Function.update written session ∅
  | .perform _ (.read _) => written
  | .perform session (.write offset _) =>
      Function.update written session (insert (offset / blockSize) (written session))
  | .perform session (.msync _) => Function.update written session ∅
  | .perform session (.snapshot version _) =>
      if (state.files.metadata version).isSome then written
      else Function.update written session ∅
  | .close session _ => Function.update written session ∅
  | .kill session => Function.update written session ∅

/-- The dirty and the stashed blocks of each session are those that it has written. -/
def VersionsState.Tracks (state : VersionsState Hash) (written : ℕ → Finset ℕ) : Prop :=
  ∀ session manager, state.sessions session = some manager → manager.modified = written session

variable {written : ℕ → Finset ℕ}

omit [DecidableEq Hash] in
theorem VersionsRequest.track_of_ne {blockSize other : ℕ} (hother : other ≠ request.session) :
    request.track blockSize state written other = written other := by
  cases request with
  | start session object opening address => exact Function.update_of_ne hother _ _
  | perform session operation =>
      cases operation with
      | read offset => rfl
      | write offset byte => exact Function.update_of_ne hother _ _
      | msync schedule => exact Function.update_of_ne hother _ _
      | snapshot version schedule =>
          rw [track]
          split
          · rfl
          · exact Function.update_of_ne hother _ _
  | close session schedule => exact Function.update_of_ne hother _ _
  | kill session => exact Function.update_of_ne hother _ _

theorem Opening.modified_of_run {object : PrivateerObject Hash} {address : ℕ} {opening : Opening}
    (hrun : (opening.program blocks.build object address).run FileSystem.answer files =
      (.returned manager, files')) : manager.modified = ∅ := by
  have hopened : ∀ {name maxMemBlocks readOnly opened} {before : FileSystem Hash} {mapped},
      (object.open blocks.build name maxMemBlocks readOnly address).run FileSystem.answer before =
        (.returned opened, files') → opened.managers.getLast? = some mapped →
          mapped.manager.modified = ∅ := by
    intro name maxMemBlocks readOnly opened before mapped hopen hmapped
    obtain ⟨made, hmade, rfl⟩ := open_returned hopen
    obtain ⟨base, between, -, hlast⟩ := Program.run_bind_returned hmade
    cases hlast
    rw [PrivateerObject.getLast?_addManager, Option.some.injEq] at hmapped
    subst hmapped
    rfl
  cases opening with
  | create name regionSize maxMemBlocks allowOverwrite =>
      obtain ⟨opened, mapped, hprogram, hmapped, rfl⟩ := Opening.run_program_returned hrun
      obtain ⟨-, made, hmade, rfl⟩ := create_returned hprogram
      obtain ⟨base, between, -, hlast⟩ := Program.run_bind_returned hmade
      cases hlast
      rw [PrivateerObject.getLast?_addManager, Option.some.injEq] at hmapped
      subst hmapped
      rfl
  | «open» name maxMemBlocks readOnly =>
      obtain ⟨opened, mapped, hprogram, hmapped, rfl⟩ := Opening.run_program_returned hrun
      exact hopened hprogram hmapped
  | openImmutable name newVersion maxMemBlocks =>
      obtain ⟨opened, mapped, hprogram, hmapped, rfl⟩ := Opening.run_program_returned hrun
      have himmutable : (object.openImmutable blocks.build name newVersion maxMemBlocks
        address).run FileSystem.answer files = (.returned opened, files') := hprogram
      obtain ⟨copied, hcopied, -⟩ := openImmutable_returned himmutable
      exact hopened hcopied hmapped

/-- Whatever a request evicts, loads, stashes and commits, and wherever processes are killed,
the sessions that are left have modified what they have written. -/
theorem VersionsState.Tracks.step (hsound : blocks.build.Sound) (hpos : 0 < blocks.blockSize)
    (horderly : state.Orderly blocks) (htracks : state.Tracks written)
    (hstep : VersionsStep blocks killedAnywhere state request next) :
    next.Tracks (request.track blocks.blockSize state written) := by
  intro other manager' hmanager'
  by_cases hother : other = request.session
  swap
  · rw [VersionsRequest.track_of_ne hother]
    rw [(horderly.others_rely hsound hpos hstep hother).1] at hmanager'
    exact htracks other manager' hmanager'
  subst hother
  cases request with
  | start session object opening address =>
      rcases horderly.started_or_gone hpos hstep with ⟨manager, hrun, hsession⟩ | ⟨hnone, -⟩
      · cases hsession.symm.trans hmanager'
        exact (Opening.modified_of_run hrun).trans (Function.update_self session ∅ written).symm
      · cases hnone.symm.trans hmanager'
  | perform session operation =>
      obtain ⟨manager, hmanager, ⟨result, hrun, hsession⟩ | ⟨hnone, -⟩⟩ :=
        horderly.performed_or_gone hsound hstep
      swap
      · cases hnone.symm.trans hmanager'
      cases hsession.symm.trans hmanager'
      have hbefore := htracks session manager hmanager
      obtain ⟨contents, hheld⟩ := (horderly.live session manager hmanager).held
      have hcoherent := hheld.coherent
      cases operation with
      | read offset =>
          obtain ⟨value, between, hread, hlast⟩ := Program.run_bind_returned hrun
          cases hlast
          obtain ⟨mapped, between, haccess, hlast⟩ := Program.run_bind_returned hread
          cases hlast
          exact (access_modified hcoherent (Program.returns_of_run haccess)).trans hbefore
      | write offset byte =>
          obtain ⟨value, between, hwrite, hlast⟩ := Program.run_bind_returned hrun
          cases hlast
          obtain ⟨mapped, between, haccess, hlast⟩ := Program.run_bind_returned hwrite
          cases hlast
          have hinserted := access_modified hcoherent (Program.returns_of_run haccess)
          rw [SigactionVirtualMemoryManager.modifiedBy, if_pos rfl, hbefore] at hinserted
          exact hinserted.trans (Function.update_self session _ written).symm
      | msync schedule =>
          obtain ⟨value, between, hmsync, hlast⟩ := Program.run_bind_returned hrun
          cases hlast
          exact (msync_modified (Program.returns_of_run hmsync)).trans
            (Function.update_self session ∅ written).symm
      | snapshot version schedule =>
          obtain ⟨value, between, hsnapshot, hlast⟩ := Program.run_bind_returned hrun
          cases hlast
          rw [VersionsRequest.track]
          split
          next htable =>
            have hdirectory := horderly.consistent.housed version htable
            have hsame := (run_snapshot_refused hdirectory htable).symm.trans hsnapshot
            cases (Prod.mk.inj hsame).1
            exact hbefore
          next htable =>
            obtain ⟨ready, htaken, -, -⟩ := run_snapshot_taken blocks manager schedule
              (Option.not_isSome_iff_eq_none.mp htable)
            have hclean := takeSnapshot_modified
              (Program.returns_of_run (htaken.symm.trans hsnapshot))
            exact hclean.trans (Function.update_self session ∅ written).symm
  | close session schedule =>
      obtain ⟨-, -, hnone, -⟩ := horderly.closed hsound hstep
      cases hnone.symm.trans hmanager'
  | kill session =>
      obtain rfl := hstep
      cases (Function.update_self session _ _).symm.trans hmanager'

/-! ## Whole runs -/

/-- A datastore without sessions, none of which has written anything. -/
def trackedStart (files : FileSystem Hash) : VersionsState Hash × (ℕ → Finset ℕ) :=
  (⟨files, fun _ => none⟩, fun _ => ∅)

/-- A run from there with what its sessions have written. -/
def trackedTrace (blocks : BlocksDirectory Hash) (files : FileSystem Hash)
    (trace : List (VersionsRequest Hash × VersionsState Hash)) :
    List (VersionsRequest Hash × (VersionsState Hash × (ℕ → Finset ℕ))) :=
  Run.withHistory (fun state request written => request.track blocks.blockSize state written)
    ⟨files, fun _ => none⟩ (fun _ => ∅) trace

/-- One request with its history. -/
abbrev TrackedStep (blocks : BlocksDirectory Hash) (ends : Ending Hash) :
    VersionsState Hash × (ℕ → Finset ℕ) → VersionsRequest Hash →
      VersionsState Hash × (ℕ → Finset ℕ) → Prop :=
  Run.Recorded (VersionsStep blocks ends) fun state request written =>
    request.track blocks.blockSize state written

/-- The sessions are orderly and have modified what they have written. -/
def OrderlyTracks (blocks : BlocksDirectory Hash) (state : VersionsState Hash × (ℕ → Finset ℕ)) :
    Prop :=
  state.1.Orderly blocks ∧ state.1.Tracks state.2

theorem orderlyTracks_start (hconsistent : blocks.Consistent files) :
    OrderlyTracks blocks (trackedStart files) :=
  ⟨VersionsState.orderly_start hconsistent, fun session manager hmanager => by cases hmanager⟩

theorem OrderlyTracks.step (hsound : blocks.build.Sound) (hpos : 0 < blocks.blockSize)
    {state next : VersionsState Hash × (ℕ → Finset ℕ)} (hbefore : OrderlyTracks blocks state)
    (hstep : TrackedStep blocks killedAnywhere state request next) :
    OrderlyTracks blocks next := by
  obtain ⟨hrequest, hrecorded⟩ := hstep
  refine ⟨(hbefore.1.step hsound hpos hrequest).1, ?_⟩
  rw [hrecorded]
  exact hbefore.2.step hsound hpos hbefore.1 hrequest

variable {trace : List (VersionsRequest Hash × VersionsState Hash)}

/-- In every state that sessions may reach, the dirty and stashed blocks of a session are exactly
those that it has written since it was started or last committed: an eviction and a load lose
none, and a commit, a snapshot or a start forgets all. -/
theorem sessions_track_writes (hsound : blocks.build.Sound) (hpos : 0 < blocks.blockSize)
    (hconsistent : blocks.Consistent files)
    (hrun : Run (VersionsStep blocks killedAnywhere) ⟨files, fun _ => none⟩ trace) :
    ∀ state ∈ Run.states (trackedStart files) (trackedTrace blocks files trace),
      ∀ session manager, state.1.sessions session = some manager → ∀ block,
        block ∈ manager.dirtyLru ∨ block ∈ manager.stashSet ↔ block ∈ state.2 session := by
  have htracked : Run (TrackedStep blocks killedAnywhere) (trackedStart files)
      (trackedTrace blocks files trace) := hrun.recorded _
  have hall := htracked.forall_states_of_step
    (fun state request next hbefore hstep => OrderlyTracks.step hsound hpos hbefore hstep)
    (orderlyTracks_start hconsistent)
  intro state hstate session manager hmanager block
  rw [← SigactionVirtualMemoryManager.mem_modified,
    (hall state hstate).2 session manager hmanager]

/-- A block that was written is evicted and stashed, and a process is killed. -/
theorem sessions_track_writes_evicted :
    ∃ trace : List (VersionsRequest (Option (List Byte)) × VersionsState (Option (List Byte))),
      trace.map Prod.fst = [.start 0 smallObject (.create ['v'] 2 1 false) 4096,
        .perform 0 (.write 1 7), .perform 0 (.write 0 5),
        .perform 0 (.read 1), .start 1 smallObject (.create ['w'] 1 1 false) 4096,
        .perform 1 (.write 0 6), .close 1 ⟨[], []⟩] ∧
      ∀ state ∈ Run.states (trackedStart smallFiles)
          (trackedTrace smallDatastore smallFiles trace),
        ∀ session manager, state.1.sessions session = some manager → ∀ block,
          block ∈ manager.dirtyLru ∨ block ∈ manager.stashSet ↔ block ∈ state.2 session := by
  have hrun : Run (VersionsStep smallDatastore killedAnywhere) ⟨smallFiles, fun _ => none⟩
      [(.start 0 smallObject (.create ['v'] 2 1 false) 4096, ⟨_, _⟩),
        (.perform 0 (.write 1 7), ⟨_, _⟩), (.perform 0 (.write 0 5), ⟨_, _⟩),
        (.perform 0 (.read 1), ⟨_, _⟩),
        (.start 1 smallObject (.create ['w'] 1 1 false) 4096, ⟨_, _⟩),
        (.perform 1 (.write 0 6), ⟨_, _⟩), (.close 1 ⟨[], []⟩, ⟨_, _⟩)] :=
    .cons ⟨rfl, smallObject_onTier, ⟨rfl, fun h => by cases h⟩, _, _,
        killedAnywhere_of_runToEnd rfl, rfl⟩
      (.cons ⟨_, rfl, by decide, _, _, killedAnywhere_of_runToEnd rfl, rfl⟩
        (.cons ⟨_, rfl, by decide, _, _, killedAnywhere_of_runToEnd rfl, rfl⟩
          (.cons ⟨_, rfl, by decide, _, _, killedAnywhere_of_runToEnd rfl, rfl⟩
            (.cons ⟨rfl, smallObject_onTier, ⟨rfl, fun h => by cases h⟩, _, _,
                killedAnywhere_of_runToEnd rfl, rfl⟩
              (.cons ⟨_, rfl, by decide, _, _, killedAnywhere_of_runToEnd rfl, rfl⟩
                (.cons ⟨_, rfl, .exited, _, .inl ⟨rfl, rfl⟩, rfl⟩ .nil))))))
  refine ⟨_, ?_, sessions_track_writes Build.transparent_sound (by decide)
    smallFiles_consistent hrun⟩
  rfl

end Privateer
