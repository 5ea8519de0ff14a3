import Privateer.Logic.Runs
import Privateer.Storage.ShortWrites

/-!
# Runs with short writes

A storage with one tier stores, stashes and commits blocks while its writes fail, are
short or succeed.  At all times, also between the system calls of one operation, the
blocks directory holds whole blocks, and every name returned is the hash of the contents
that were given, as long as each block that is stored is written whole and each commit
finds in the stash file what was last passed to `stash_block`.
-/

namespace Privateer

variable {Hash : Type}

/-- A call of a storage whose writes may be short. -/
inductive WritingCall where
  | storeBlock (buffer : List Byte) (block : ℕ)
  | stashBlock (buffer : List Byte) (block : ℕ)
  | commitStashBlock (block : ℕ)

/-- A storage with what its caller did: the contents last passed to `stash_block`, the
names returned with the contents given for them, and what the writes to the stash file of
a block have made of it. -/
structure WritingSession (Hash : Type) where
  storage : BlockStorage Hash
  passed : ℕ → List Byte
  stashed : ℕ → List Byte
  returned : List (Hash × List Byte)

namespace WritingSession

/-- The session after a call that names a block, if it does. -/
def returning (session : WritingSession Hash) (result : Option Hash) (content : List Byte) :
    WritingSession Hash :=
  match result with
  | none => session
  | some name => { session with returned := (name, content) :: session.returned }

/-- What a call does in the program of a session, when its write transfers the given number
of bytes or fails.  No call of a storage with one tier makes two writes. -/
def perform (build : Build Hash) (session : WritingSession Hash) (transferred : Option ℕ) :
    WritingCall → StorageProgram Hash (WritingSession Hash)
  | .storeBlock buffer block => do
      let result ← BlockStorage.storeBlock build session.storage buffer true block
      let storage := if result.isSome then session.storage.noteStored block else session.storage
      return ({ session with storage := storage } : WritingSession Hash).returning result buffer
  | .stashBlock buffer block => do
      let result ← session.storage.stashBlock buffer block
      let content := written transferred buffer
        (session.storage.stashBase block (session.stashed block))
      return { session with
        storage := result.2
        passed := Function.update session.passed block buffer
        stashed := Function.update session.stashed block content }
  | .commitStashBlock block => do
      let result ← BlockStorage.commitStashBlock build session.storage block
      return ({ session with storage := result.2 } : WritingSession Hash).returning result.1
        (session.passed block)

/-- The storage has one tier, and each stash file holds what its writes have made of it. -/
structure Ready (bases : Set Path) (session : WritingSession Hash) (files : FileSystem Hash) :
    Prop where
  base : session.storage.baseDirectory ∈ bases
  single : session.storage.isMultiTiered = false
  drawn : ∀ block uuid, session.storage.stashBlockIds block = some uuid → uuid < files.fresh
  injective : ∀ block other uuid, session.storage.stashBlockIds block = some uuid →
    session.storage.stashBlockIds other = some uuid → block = other
  length : ∀ block uuid, session.storage.stashBlockIds block = some uuid →
    (session.stashed block).length = session.storage.blockGranularity
  content : ∀ block uuid bytes, session.storage.stashBlockIds block = some uuid →
    files.data (.stash session.storage.stashDirectory uuid) = some bytes →
      bytes = session.stashed block

/-- Every name returned is the hash of the contents it was returned for. -/
def Answered (build : Build Hash) (session : WritingSession Hash) : Prop :=
  ∀ entry ∈ session.returned, entry.1 = build.computeHash entry.2

/-- A caller passes buffers of one block. -/
def Allows (session : WritingSession Hash) : WritingCall → Prop
  | .storeBlock buffer _ => buffer.length = session.storage.blockGranularity
  | .stashBlock buffer _ => buffer.length = session.storage.blockGranularity
  | .commitStashBlock _ => True

variable [DecidableEq Hash]

/-- The write of a call that stores a block leaves it whole, and a commit finds what was
last passed to `stash_block` in the stash file. -/
def Whole (build : Build Hash) (session : WritingSession Hash) (files : FileSystem Hash)
    (transferred : Option ℕ) : WritingCall → Prop
  | .storeBlock buffer _ =>
      BlockStorage.StoresWhole build session.storage files transferred buffer
  | .stashBlock _ _ => True
  | .commitStashBlock block =>
      session.stashed block = session.passed block ∧ (build.useCompression = true →
        BlockStorage.StoresWhole build session.storage files transferred (session.passed block))

variable {build : Build Hash} {bases : Set Path} {session : WritingSession Hash}
variable {files files' : FileSystem Hash} {transferred : Option ℕ} {owned : Set Empty}
variable {block : ℕ}

omit [DecidableEq Hash] in
/-- A call that concerns one block leaves the stash files of the others ready. -/
theorem Ready.change (hready : session.Ready bases files) {after : WritingSession Hash}
    (hkeeps : files.KeepsBases build bases (session.storage.otherStashes block) files')
    (hbase : after.storage.baseDirectory = session.storage.baseDirectory)
    (hstash : after.storage.stashDirectory = session.storage.stashDirectory)
    (hsize : after.storage.blockGranularity = session.storage.blockGranularity)
    (hids : ∀ other, other ≠ block →
      after.storage.stashBlockIds other = session.storage.stashBlockIds other)
    (hstashed : ∀ other, other ≠ block → after.stashed other = session.stashed other)
    (hnew : ∀ uuid, after.storage.stashBlockIds block = some uuid → uuid < files'.fresh ∧
      (∀ other, other ≠ block → session.storage.stashBlockIds other ≠ some uuid) ∧
        (after.stashed block).length = session.storage.blockGranularity ∧
          ∀ bytes, files'.data (.stash session.storage.stashDirectory uuid) = some bytes →
            bytes = after.stashed block) :
    after.Ready bases files' := by
  refine ⟨hbase ▸ hready.base, ?_, ?_, ?_, ?_, ?_⟩
  · rw [BlockStorage.isMultiTiered, hbase, hstash]
    exact hready.single
  · intro other uuid huuid
    by_cases hsame : other = block
    · exact (hnew uuid (hsame ▸ huuid)).1
    · rw [hids other hsame] at huuid
      exact (hready.drawn other uuid huuid).trans_le hkeeps.fresh
  · intro first second uuid hfirst hsecond
    by_cases hsame : first = block
    · by_cases hsame' : second = block
      · rw [hsame, hsame']
      · rw [hids second hsame'] at hsecond
        exact absurd hsecond ((hnew uuid (hsame ▸ hfirst)).2.1 second hsame')
    · rw [hids first hsame] at hfirst
      by_cases hsame' : second = block
      · exact absurd hfirst ((hnew uuid (hsame' ▸ hsecond)).2.1 first hsame)
      · rw [hids second hsame'] at hsecond
        exact hready.injective first second uuid hfirst hsecond
  · intro other uuid huuid
    rw [hsize]
    by_cases hsame : other = block
    · rw [hsame] at huuid ⊢
      exact (hnew uuid huuid).2.2.1
    · rw [hids other hsame] at huuid
      rw [hstashed other hsame]
      exact hready.length other uuid huuid
  · intro other uuid bytes huuid hbytes
    rw [hstash] at hbytes
    by_cases hsame : other = block
    · rw [hsame] at huuid ⊢
      exact (hnew uuid huuid).2.2.2 bytes hbytes
    · rw [hids other hsame] at huuid
      rw [hkeeps.framed _ ⟨other, uuid, hsame, huuid, rfl⟩] at hbytes
      rw [hstashed other hsame]
      exact hready.content other uuid bytes huuid hbytes

omit [DecidableEq Hash] in
/-- A call that leaves the table and all stash files alone. -/
theorem Ready.keep (hready : session.Ready bases files) {after : WritingSession Hash}
    (hkeeps : files.KeepsBases build bases {file | file.IsStash} files')
    (hstorage : ∃ committed,
      after.storage = { session.storage with stashCommittedBlockIds := committed })
    (hstashed : after.stashed = session.stashed) : after.Ready bases files' := by
  obtain ⟨committed, hcommitted⟩ := hstorage
  refine ⟨?_, ?_, ?_, ?_, ?_, ?_⟩
  all_goals rw [hcommitted]
  · exact hready.base
  · exact hready.single
  · exact fun block uuid huuid => (hready.drawn block uuid huuid).trans_le hkeeps.fresh
  · exact hready.injective
  · rw [hstashed]
    exact hready.length
  · intro block uuid bytes huuid hbytes
    rw [hkeeps.framed (.stash session.storage.stashDirectory uuid) trivial] at hbytes
    rw [hstashed]
    exact hready.content block uuid bytes huuid hbytes

omit [DecidableEq Hash] in
theorem Ready.returning {result : Option Hash} {content : List Byte}
    (hready : session.Ready bases files) :
    (session.returning result content).Ready bases files := by
  cases result with
  | none => exact hready
  | some name => exact ⟨hready.base, hready.single, hready.drawn, hready.injective,
      hready.length, hready.content⟩

omit [DecidableEq Hash] in
theorem Answered.returning {result : Option Hash} {content : List Byte}
    (hanswered : session.Answered build)
    (hresult : ∀ name, result = some name → name = build.computeHash content) :
    (session.returning result content).Answered build := by
  cases result with
  | none => exact hanswered
  | some name =>
      intro entry hentry
      rcases List.mem_cons.mp hentry with rfl | hold
      · exact hresult name rfl
      · exact hanswered entry hold

/-- What a session is after a call. -/
def Goes (build : Build Hash) (bases : Set Path) (session : WritingSession Hash)
    (_ : Set Empty) (files : FileSystem Hash) : Prop :=
  session.Ready bases files ∧ session.Answered build

section Performing

open BlockStorage
open FileSystem (keepingBasesUnder Transfers ensures_done)

variable (hnamed : files.BasesNamed build bases) (hready : session.Ready bases files)
variable (hanswered : session.Answered build)

include hnamed hready hanswered

theorem goes_storeBlock (hsound : build.Sound) {buffer : List Byte}
    (hlength : buffer.length = session.storage.blockGranularity)
    (hwhole : StoresWhole build session.storage files transferred buffer) :
    (keepingBasesUnder (@Transfers Hash _ transferred) build bases ∅).ensures
      (session.perform build transferred (.storeBlock buffer block)) (Goes build bases)
      owned files := by
  apply ensures_fewerFramed {file | file.IsStash} (Set.empty_subset _)
  apply Contract.ensures_bind_of (ensures_keepsBases (whole_storeBlock (fun _ hstash => hstash)
    hsound hnamed hready.base hready.single hlength hwhole))
  rintro result owned' files' ⟨hstores, hkeeps⟩
  apply ensures_done
  refine ⟨Ready.returning (hready.keep hkeeps (exists_noteStored result.isSome) rfl), ?_⟩
  exact Answered.returning hanswered fun name hname => (hstores name hname).1

omit hnamed in
theorem goes_stashBlock {buffer : List Byte} (hdrawn : files.StashesDrawn)
    (hlength : buffer.length = session.storage.blockGranularity) :
    (keepingBasesUnder (@Transfers Hash _ transferred) build bases ∅).ensures
      (session.perform build transferred (.stashBlock buffer block)) (Goes build bases)
      owned files := by
  apply ensures_fewerFramed (session.storage.otherStashes block) (Set.empty_subset _)
  apply Contract.ensures_bind_of (ensures_keepsBases (written_stashBlock hdrawn hready.drawn
    (fun other uuid => hready.injective other block uuid)
    (fun uuid bytes => hready.content block uuid bytes)))
  rintro ⟨status, _⟩ owned' files' ⟨⟨uuid, rfl, huuid, hnot, hdata⟩, hkeeps⟩
  apply ensures_done
  refine ⟨hready.change hkeeps rfl rfl rfl ?_ ?_ ?_, hanswered⟩
  · exact fun other hother => Function.update_of_ne hother _ _
  · exact fun other hother => Function.update_of_ne hother _ _
  · intro number hnumber
    rw [setStashBlockId_apply, if_pos rfl, Option.some.injEq] at hnumber
    subst hnumber
    refine ⟨huuid, hnot, ?_, ?_⟩
    · have hbase := length_stashBase (hready.length block)
      simp only [Function.update_self]
      rw [length_written (hlength.trans hbase.symm)]
      exact hbase
    · simp only [Function.update_self]
      exact hdata

theorem goes_commitStashBlock (hsound : build.Sound)
    (hwhole : session.Whole build files transferred (.commitStashBlock block)) :
    (keepingBasesUnder (@Transfers Hash _ transferred) build bases ∅).ensures
      (session.perform build transferred (.commitStashBlock block)) (Goes build bases)
      owned files := by
  apply ensures_fewerFramed (session.storage.otherStashes block) (Set.empty_subset _)
  cases hid : session.storage.stashBlockIds block with
  | none =>
      have hexit : commitStashBlock build session.storage block = .exit := by
        unfold commitStashBlock
        rw [hid]
      change (keepingBasesUnder _ build bases _).ensures
        (commitStashBlock build session.storage block >>= _) _ _ _
      rw [hexit]
      trivial
  | some uuid =>
      have hnot : ∀ other, other ≠ block → session.storage.stashBlockIds other ≠ some uuid :=
        fun other hother hsame => hother (hready.injective other block uuid hsame hid)
      have hstores : build.useCompression = true →
          StoresWhole build session.storage files transferred (session.stashed block) := by
        rw [hwhole.1]
        exact hwhole.2
      apply Contract.ensures_bind_of (ensures_keepsBases (whole_commitStashBlock hsound hnamed
        hready.base hready.single isStash_otherStashes (stash_notMem_otherStashes hnot)
        (hready.drawn block uuid hid) (hready.length block uuid hid) hid
        (fun bytes => hready.content block uuid bytes hid) hstores))
      rintro ⟨result, storage⟩ owned' files' ⟨⟨htable, hstored, hstash⟩, hkeeps⟩
      apply ensures_done
      refine ⟨Ready.returning ?_, Answered.returning hanswered fun name hname => ?_⟩
      · rcases htable with rfl | rfl
        · refine hready.change hkeeps rfl rfl rfl (fun _ _ => rfl) (fun _ _ => rfl) ?_
          intro number hnumber
          obtain rfl := Option.some.inj (hid.symm.trans hnumber)
          exact ⟨(hready.drawn block uuid hid).trans_le hkeeps.fresh, hnot,
            hready.length block uuid hid,
            fun bytes hbytes => hready.content block uuid bytes hid (hstash bytes hbytes)⟩
        · refine hready.change hkeeps rfl rfl rfl ?_ (fun _ _ => rfl) ?_
          · exact fun other hother => Function.update_of_ne hother _ _
          · intro number hnumber
            rw [setStashBlockId_apply, if_pos rfl] at hnumber
            cases hnumber
      · rw [← hwhole.1]
        exact (hstored name hname).1

end Performing

end WritingSession

/-! ## Runs -/

/-- The files and the storage on them, until its process ends. -/
structure WritingState (Hash : Type) where
  session : WritingSession Hash
  files : FileSystem Hash
  running : Bool

namespace WritingState

open FileSystem (Transfers)

/-- A storage without stash files. -/
def initial (baseDirectory stashDirectory : Path) (blockGranularity : ℕ)
    (files : FileSystem Hash) : WritingState Hash where
  session :=
    ⟨BlockStorage.initial baseDirectory stashDirectory blockGranularity, fun _ => [],
      fun _ => [], []⟩
  files := files
  running := true

variable [DecidableEq Hash]

/-- A call, with what its write transfers, returns, or the process ends in it. -/
inductive Step (build : Build Hash) :
    WritingState Hash → WritingCall × Option ℕ → WritingState Hash → Prop
  | returned {state : WritingState Hash} {call : WritingCall} {transferred : Option ℕ}
      {session : WritingSession Hash} {files : FileSystem Hash} (hrunning : state.running = true)
      (hallows : state.session.Allows call)
      (hruns : (state.session.perform build transferred call).RunsTo (Transfers transferred)
        state.files (.returned session) files) :
      Step build state (call, transferred) ⟨session, files, true⟩
  | ended {state : WritingState Hash} {call : WritingCall} {transferred : Option ℕ}
      {files : FileSystem Hash} (hrunning : state.running = true)
      (hallows : state.session.Allows call)
      (hruns : (state.session.perform build transferred call).RunsTo (Transfers transferred)
        state.files .exited files) :
      Step build state (call, transferred) ⟨state.session, files, false⟩

/-- The blocks that the call stores are written whole, and a commit finds what was last
passed to `stash_block`. -/
def Whole (build : Build Hash) (state : WritingState Hash)
    (label : WritingCall × Option ℕ) : Prop :=
  state.session.Whole build state.files label.2 label.1

/-- The blocks directory holds whole blocks, and the names returned are those of the
contents given. -/
structure BlocksWhole (build : Build Hash) (state : WritingState Hash) : Prop where
  named : state.files.BasesNamed build {state.session.storage.baseDirectory}
  answered : state.session.Answered build

/-- What every step keeps. -/
structure Lawful (build : Build Hash) (baseDirectory : Path) (state : WritingState Hash) :
    Prop where
  base : state.session.storage.baseDirectory = baseDirectory
  named : state.files.BasesNamed build {baseDirectory}
  drawn : state.files.StashesDrawn
  ready : state.running = true → state.session.Ready {baseDirectory} state.files
  answered : state.session.Answered build

variable {build : Build Hash} {baseDirectory : Path} {state next : WritingState Hash}
variable {call : WritingCall} {transferred : Option ℕ}

/-- How the program of an allowed call ends. -/
theorem goes_perform (hsound : build.Sound) (hlawful : state.Lawful build baseDirectory)
    (hrunning : state.running = true) (hallows : state.session.Allows call)
    (hwhole : state.Whole build (call, transferred)) :
    (FileSystem.keepingBasesUnder (@Transfers Hash _ transferred) build {baseDirectory} ∅).ensures
      (state.session.perform build transferred call)
      (WritingSession.Goes build {baseDirectory}) ∅ state.files := by
  cases call with
  | storeBlock buffer block =>
      exact WritingSession.goes_storeBlock hlawful.named (hlawful.ready hrunning)
        hlawful.answered hsound hallows hwhole
  | stashBlock buffer block =>
      exact WritingSession.goes_stashBlock (hlawful.ready hrunning) hlawful.answered
        hlawful.drawn hallows
  | commitStashBlock block =>
      exact WritingSession.goes_commitStashBlock hlawful.named (hlawful.ready hrunning)
        hlawful.answered hsound hwhole

/-- One call keeps the laws, also when the process ends in it. -/
theorem lawful_step (hsound : build.Sound) {label : WritingCall × Option ℕ}
    (hlawful : state.Lawful build baseDirectory) (hwhole : state.Whole build label)
    (hstep : Step build state label next) : next.Lawful build baseDirectory := by
  cases hstep with
  | returned hrunning hallows hruns =>
      obtain ⟨hkeeps, -, hend⟩ := Contract.runsTo_of_ensures
        (goes_perform hsound hlawful hrunning hallows hwhole) hruns
      obtain ⟨_, hready, hanswered⟩ := hend _ rfl
      exact ⟨hready.base, (hkeeps.named hlawful.named).1, hkeeps.drawn hlawful.drawn,
        fun _ => hready, hanswered⟩
  | ended hrunning hallows hruns =>
      obtain ⟨hkeeps, -, -⟩ := Contract.runsTo_of_ensures
        (goes_perform hsound hlawful hrunning hallows hwhole) hruns
      exact ⟨hlawful.base, (hkeeps.named hlawful.named).1, hkeeps.drawn hlawful.drawn,
        (fun h => by cases h), hlawful.answered⟩

/-- In a run whose blocks are written whole, and whose commits find what was last passed to
`stash_block`, the blocks directory always holds whole blocks. -/
theorem blocks_whole (hsound : build.Sound) {stashDirectory : Path} {blockGranularity : ℕ}
    {files : FileSystem Hash} {trace : List ((WritingCall × Option ℕ) × WritingState Hash)}
    (hsingle : pathPrefix baseDirectory = pathPrefix stashDirectory)
    (hnamed : files.BasesNamed build {baseDirectory}) (hdrawn : files.StashesDrawn)
    (hrun : Run (Step build) (initial baseDirectory stashDirectory blockGranularity files) trace)
    (heach : Run.Each (Whole build)
      (initial baseDirectory stashDirectory blockGranularity files) trace) :
    ∀ state ∈ Run.states (initial baseDirectory stashDirectory blockGranularity files) trace,
      state.BlocksWhole build := by
  have hstart : (initial baseDirectory stashDirectory blockGranularity files).Lawful build
      baseDirectory := by
    refine ⟨rfl, hnamed, hdrawn, fun _ => ?_, fun _ hentry => by cases hentry⟩
    refine ⟨rfl, bne_eq_false_iff_eq.mpr hsingle, ?_, ?_, ?_, ?_⟩
    · exact fun _ _ huuid => by cases huuid
    · exact fun _ _ _ huuid => by cases huuid
    · exact fun _ _ huuid => by cases huuid
    · exact fun _ _ _ huuid => by cases huuid
  have hlaws := hrun.forall_states (fun _ _ _ hlawful hwhole hstep =>
    lawful_step hsound hlawful hwhole hstep) hstart heach
  intro state hstate
  have hlawful := hlaws state hstate
  exact ⟨hlawful.base.symm ▸ hlawful.named, hlawful.answered⟩

/-- A disk with a stash directory and no files. -/
def stashOnly : FileSystem (Option (List Byte)) :=
  FileSystem.empty.setDirectory (.path ['/', 's'])

/-- A short write publishes half a block; a failed one leaves an older block to commit. -/
theorem blocks_not_whole :
    (∃ trace, Run (Step Build.transparent) (initial ['/', 'b'] ['/', 's'] 2 stashOnly) trace ∧
      ¬ (Run.last (initial ['/', 'b'] ['/', 's'] 2 stashOnly) trace).BlocksWhole
        Build.transparent) ∧
      ∃ trace, Run (Step Build.transparent) (initial ['/', 'b'] ['/', 's'] 1 stashOnly) trace ∧
        ¬ (Run.last (initial ['/', 'b'] ['/', 's'] 1 stashOnly) trace).BlocksWhole
          Build.transparent := by
  constructor
  · have hrun : Run (Step Build.transparent) (initial ['/', 'b'] ['/', 's'] 2 stashOnly)
        [((.storeBlock [5, 7] 0, some 1), _)] :=
      .cons (.returned rfl (by rfl) (Program.runsTo_of_run (fun _ _ => rfl) rfl)) .nil
    refine ⟨_, hrun, fun hwhole => ?_⟩
    obtain ⟨content, hname, hbytes⟩ := hwhole.named _ rfl 0 (some [5, 7]) [5, 0] rfl
    cases hname
    cases hbytes
  · have hrun : Run (Step Build.transparent) (initial ['/', 'b'] ['/', 's'] 1 stashOnly)
        [((.stashBlock [5] 0, some 1), _), ((.stashBlock [7] 0, none), _),
          ((.commitStashBlock 0, none), _)] :=
      .cons (.returned rfl (by rfl) (Program.runsTo_of_run (fun _ _ => rfl) rfl)) <|
      .cons (.returned rfl (by rfl) (Program.runsTo_of_run (fun _ _ => rfl) rfl)) <|
      .cons (.returned rfl trivial (Program.runsTo_of_run (fun _ _ => rfl) rfl)) .nil
    refine ⟨_, hrun, fun hwhole => ?_⟩
    have hname := hwhole.answered (some [5], [7]) List.mem_cons_self
    cases hname

/-- A stash file that a short write has spoilt is whole again after a full one. -/
theorem blocks_whole_restashed :
    ∃ trace, Run (Step Build.transparent) (initial ['/', 'b'] ['/', 's'] 2 stashOnly) trace ∧
      trace.length = 4 ∧
        ∀ state ∈ Run.states (initial ['/', 'b'] ['/', 's'] 2 stashOnly) trace,
          state.BlocksWhole Build.transparent := by
  have hrun : Run (Step Build.transparent) (initial ['/', 'b'] ['/', 's'] 2 stashOnly)
      [((.storeBlock [5, 0] 0, some 1), _), ((.stashBlock [5, 7] 0, some 1), _),
        ((.stashBlock [5, 7] 0, some 2), _), ((.commitStashBlock 0, none), _)] :=
    .cons (.returned rfl (by rfl) (Program.runsTo_of_run (fun _ _ => rfl) rfl)) <|
    .cons (.returned rfl (by rfl) (Program.runsTo_of_run (fun _ _ => rfl) rfl)) <|
    .cons (.returned rfl (by rfl) (Program.runsTo_of_run (fun _ _ => rfl) rfl)) <|
    .cons (.returned rfl trivial (Program.runsTo_of_run (fun _ _ => rfl) rfl)) .nil
  refine ⟨_, hrun, rfl, blocks_whole Build.transparent_sound rfl ?_ ?_ hrun ?_⟩
  · intro location _ subdirectory name bytes hbytes
    cases hbytes
  · intro location uuid hsome
    cases hsome
  · refine ⟨.inr (.inr rfl), trivial, trivial, ⟨rfl, ?_⟩, trivial⟩
    intro hcompression
    cases hcompression

end WritingState

end Privateer
