import Privateer.Logic.Runs
import Privateer.Storage.ShortWrites

/-!
# Runs of two-tiered storages

Storages are opened one after the other, on any base directories and any stash
directories on other disks, and every call of a storage may fail, write only the first of
its bytes or end its process.  In such a run the base directory has every block whose name
was returned, as long as every block that is written to it is written whole, and every
commit finds what was stashed, and its block in the base directory where the stash tier
has it.
-/

namespace Privateer

variable {Hash : Type}

/-- A call of a storage, or the opening of the next one. -/
inductive TieredCall (Hash : Type) where
  | create (baseDirectory stashDirectory : Path) (blockGranularity : ℕ)
  | «open» (baseDirectory stashDirectory : Path)
  | storeBlock (buffer : List Byte) (block : ℕ)
  | stashBlock (buffer : List Byte) (block : ℕ)
  | unstashBlock (block : ℕ)
  | commitStashBlock (block : ℕ)
  | getBlockFullPath (block : ℕ) (name : Hash)

/-- A name that a storage returned, its base directory, and the content it was given;
the content of a stash file is not known after a failed call. -/
structure ReturnedName (Hash : Type) where
  baseDirectory : Path
  name : Hash
  content : Option (List Byte)

/-- A storage with what its caller knows: the blocks stashed by calls that succeeded, and
the names returned so far. -/
structure TieredSession (Hash : Type) where
  storage : BlockStorage Hash
  stashed : ℕ → Option (List Byte)
  returned : List (ReturnedName Hash)

namespace TieredSession

/-- The block is in the base directory under its name. -/
def HasBlock (build : Build Hash) (files : FileSystem Hash) (entry : ReturnedName Hash) :
    Prop :=
  ∃ content, build.computeHash content = entry.name ∧
    files.data (.block entry.baseDirectory (build.prefixIndex entry.name % numSubdirs)
      entry.name) = some (build.encode content) ∧
    ∀ given, entry.content = some given → given = content

/-- The storage after a call that names a block, if it does. -/
def returning (session : TieredSession Hash) (result : Option Hash)
    (content : Option (List Byte)) : TieredSession Hash :=
  match result with
  | none => session
  | some name =>
      { session with
        returned := ⟨session.storage.baseDirectory, name, content⟩ :: session.returned }

/-- What a call does in the program of a session; the first two open a new session. -/
def perform (build : Build Hash) (session : TieredSession Hash) :
    TieredCall Hash → StorageProgram Hash (TieredSession Hash)
  | .create baseDirectory stashDirectory blockGranularity => do
      let storage ← BlockStorage.create baseDirectory stashDirectory blockGranularity
      return ⟨storage, fun _ => none, session.returned⟩
  | .open baseDirectory stashDirectory => do
      let storage ← BlockStorage.open baseDirectory stashDirectory
      return ⟨storage, fun _ => none, session.returned⟩
  | .storeBlock buffer block => do
      let result ← BlockStorage.storeBlock build session.storage buffer true block
      let storage := if result.isSome then session.storage.noteStored block else session.storage
      return ({ session with storage := storage } : TieredSession Hash).returning result buffer
  | .stashBlock buffer block => do
      let result ← session.storage.stashBlock buffer block
      let content := if result.1 then some buffer else none
      return { session with
        storage := result.2
        stashed := Function.update session.stashed block content }
  | .unstashBlock block => do
      let result ← session.storage.unstashBlock block
      let content := if result.1 then none else session.stashed block
      return { session with
        storage := result.2
        stashed := Function.update session.stashed block content }
  | .commitStashBlock block => do
      let result ← BlockStorage.commitStashBlock build session.storage block
      let after : TieredSession Hash :=
        { session with
          storage := result.2
          stashed := Function.update session.stashed block none }
      return after.returning result.1 (session.stashed block)
  | .getBlockFullPath block name => do
      let result ← BlockStorage.getBlockFullPath build session.storage block name
      return { session with storage := result.2 }

/-- The base and the stash directory of a storage are on different disks, and no stash
directory serves as a base directory. -/
def Places (bases : Set Path) (baseDirectory stashDirectory : Path) : Prop :=
  baseDirectory ∈ bases ∧ stashDirectory ∉ bases ∧
    pathPrefix baseDirectory ≠ pathPrefix stashDirectory

/-- A caller passes buffers of one block and opens storages with two tiers. -/
def Allows (bases : Set Path) (session : TieredSession Hash) (running : Bool) :
    TieredCall Hash → Prop
  | .create baseDirectory stashDirectory _ => Places bases baseDirectory stashDirectory
  | .open baseDirectory stashDirectory => Places bases baseDirectory stashDirectory
  | .storeBlock buffer _ =>
      running = true ∧ buffer.length = session.storage.blockGranularity
  | .stashBlock buffer _ =>
      running = true ∧ buffer.length = session.storage.blockGranularity
  | _ => running = true

/-- A block that a call stores is written whole to the base directory.  A commit finds in the
stash file what was stashed, and its block in the base directory where the stash tier has
it. -/
def ReachesBase (build : Build Hash) (session : TieredSession Hash) (files : FileSystem Hash)
    (transferred : Path → Option ℕ) : TieredCall Hash → Prop
  | .storeBlock buffer _ =>
      WritesWhole (transferred session.storage.baseDirectory) (build.encode buffer)
  | .commitStashBlock block => ∀ uuid, session.storage.stashBlockIds block = some uuid →
      session.storage.MatchesBase build files uuid ∧
        (∀ content, session.stashed block = some content →
          files.data (.stash session.storage.stashDirectory uuid) = some content) ∧
        WritesWhole (transferred session.storage.baseDirectory)
          (build.encode (session.storage.heldBlock files uuid))
  | _ => True

/-- The storage and its stash files are as the calls so far leave them. -/
structure Ready (bases : Set Path) (session : TieredSession Hash) (files : FileSystem Hash) :
    Prop where
  base : session.storage.baseDirectory ∈ bases
  stash : session.storage.stashDirectory ∉ bases
  tiers : session.storage.isMultiTiered = true
  drawn : ∀ block uuid, session.storage.stashBlockIds block = some uuid → uuid < files.fresh
  injective : ∀ block other uuid, session.storage.stashBlockIds block = some uuid →
    session.storage.stashBlockIds other = some uuid → block = other
  fits : ∀ block uuid, session.storage.stashBlockIds block = some uuid →
    session.storage.Fits files uuid
  stashed : ∀ block content, session.stashed block = some content →
    content.length = session.storage.blockGranularity

/-- Every name returned so far is that of a block in its base directory. -/
def Reached (build : Build Hash) (bases : Set Path) (session : TieredSession Hash)
    (files : FileSystem Hash) : Prop :=
  ∀ entry ∈ session.returned, entry.baseDirectory ∈ bases ∧ HasBlock build files entry

variable [DecidableEq Hash] {build : Build Hash} {bases : Set Path}
variable {session : TieredSession Hash} {files files' : FileSystem Hash}
variable {framed : Set (DataFile Hash)} {owned : Set Empty} {block : ℕ}

omit [DecidableEq Hash] in
theorem HasBlock.keep {entry : ReturnedName Hash} (hblock : HasBlock build files entry)
    (hbase : entry.baseDirectory ∈ bases) (hkept : files.BasesKept bases files') :
    HasBlock build files' entry := by
  obtain ⟨content, hname, hdata, hgiven⟩ := hblock
  exact ⟨content, hname, hkept _ hbase _ _ _ hdata, hgiven⟩

omit [DecidableEq Hash] in
theorem Reached.keep (hreached : session.Reached build bases files)
    (hkept : files.BasesKept bases files') : session.Reached build bases files' :=
  fun entry hentry => ⟨(hreached entry hentry).1,
    (hreached entry hentry).2.keep (hreached entry hentry).1 hkept⟩

omit [DecidableEq Hash] in
/-- A name that a storage returns is reached as well. -/
theorem Reached.returning {buffer : List Byte} {content : Option (List Byte)}
    {result : Option Hash} (hreached : session.Reached build bases files)
    (hbase : session.storage.baseDirectory ∈ bases)
    (hstores : BlockStorage.StoresAs build bases session.storage.baseDirectory
      (build.prefixIndex (build.computeHash buffer) % numSubdirs) buffer result files)
    (hcontent : ∀ given, content = some given → given = buffer) :
    (session.returning result content).Reached build bases files := by
  cases result with
  | none => exact hreached
  | some name =>
      obtain ⟨rfl, hdata⟩ := hstores name rfl
      intro entry hentry
      rcases List.mem_cons.mp hentry with rfl | hold
      · exact ⟨hbase, buffer, rfl, hdata hbase, hcontent⟩
      · exact hreached entry hold

omit [DecidableEq Hash] in
/-- A call that concerns one block leaves the stash files of the others ready. -/
theorem Ready.change (hready : session.Ready bases files) {after : TieredSession Hash}
    (hkeeps : files.KeepsBases build bases (session.storage.otherStashes block) files')
    (hbase : after.storage.baseDirectory = session.storage.baseDirectory)
    (hstash : after.storage.stashDirectory = session.storage.stashDirectory)
    (hsize : after.storage.blockGranularity = session.storage.blockGranularity)
    (hids : ∀ other, other ≠ block →
      after.storage.stashBlockIds other = session.storage.stashBlockIds other)
    (hstashed : ∀ other, other ≠ block → after.stashed other = session.stashed other)
    (hnew : ∀ uuid, after.storage.stashBlockIds block = some uuid → uuid < files'.fresh ∧
      session.storage.Fits files' uuid ∧
        ∀ other, other ≠ block → session.storage.stashBlockIds other ≠ some uuid)
    (hcontent : ∀ content, after.stashed block = some content →
      content.length = session.storage.blockGranularity) :
    after.Ready bases files' := by
  have hother : ∀ other uuid, other ≠ block →
      session.storage.stashBlockIds other = some uuid →
        files'.data (.stash session.storage.stashDirectory uuid) =
          files.data (.stash session.storage.stashDirectory uuid) :=
    fun other uuid hne huuid => hkeeps.framed _ ⟨other, uuid, hne, huuid, rfl⟩
  refine ⟨hbase ▸ hready.base, hstash ▸ hready.stash, ?_, ?_, ?_, ?_, ?_⟩
  · rw [BlockStorage.isMultiTiered, hbase, hstash]
    exact hready.tiers
  · intro other uuid huuid
    by_cases hsame : other = block
    · exact (hnew uuid (hsame ▸ huuid)).1
    · rw [hids other hsame] at huuid
      exact (hready.drawn other uuid huuid).trans_le hkeeps.fresh
  · intro first second uuid hfirst hsecond
    by_cases hsame : first = block
    · by_cases hsame' : second = block
      · rw [hsame, hsame']
      · rw [hids second hsame'] at hsecond
        exact absurd hsecond ((hnew uuid (hsame ▸ hfirst)).2.2 second hsame')
    · rw [hids first hsame] at hfirst
      by_cases hsame' : second = block
      · exact absurd hfirst ((hnew uuid (hsame' ▸ hsecond)).2.2 first hsame)
      · rw [hids second hsame'] at hsecond
        exact hready.injective first second uuid hfirst hsecond
  · intro other uuid huuid bytes hbytes
    rw [hstash] at hbytes
    rw [hsize]
    by_cases hsame : other = block
    · exact (hnew uuid (hsame ▸ huuid)).2.1 bytes hbytes
    · rw [hids other hsame] at huuid
      rw [hother other uuid hsame huuid] at hbytes
      exact hready.fits other uuid huuid bytes hbytes
  · intro other content hcontent'
    rw [hsize]
    by_cases hsame : other = block
    · rw [hsame] at hcontent'
      exact hcontent content hcontent'
    · rw [hstashed other hsame] at hcontent'
      exact hready.stashed other content hcontent'

omit [DecidableEq Hash] in
/-- A call that leaves the table and all stash files alone. -/
theorem Ready.keep (hready : session.Ready bases files) {after : TieredSession Hash}
    (hkeeps : files.KeepsBases build bases {file | file.IsStash} files')
    (hstorage : ∃ committed,
      after.storage = { session.storage with stashCommittedBlockIds := committed })
    (hstashed : after.stashed = session.stashed) : after.Ready bases files' := by
  obtain ⟨committed, hcommitted⟩ := hstorage
  have hsame : ∀ uuid, files'.data (.stash session.storage.stashDirectory uuid) =
      files.data (.stash session.storage.stashDirectory uuid) := fun uuid =>
    hkeeps.framed (.stash session.storage.stashDirectory uuid) trivial
  refine ⟨?_, ?_, ?_, ?_, ?_, ?_, ?_⟩
  all_goals rw [hcommitted]
  · exact hready.base
  · exact hready.stash
  · exact hready.tiers
  · exact fun block uuid huuid => (hready.drawn block uuid huuid).trans_le hkeeps.fresh
  · exact hready.injective
  · intro block uuid huuid bytes hbytes
    rw [hsame] at hbytes
    exact hready.fits block uuid huuid bytes hbytes
  · intro block content hcontent
    rw [hstashed] at hcontent
    exact hready.stashed block content hcontent

omit [DecidableEq Hash] in
/-- A new storage has no stash files. -/
theorem ready_initial {baseDirectory stashDirectory : Path} {blockGranularity : ℕ}
    {returned : List (ReturnedName Hash)}
    (hplaces : Places bases baseDirectory stashDirectory) :
    (⟨BlockStorage.initial baseDirectory stashDirectory blockGranularity, fun _ => none,
      returned⟩ : TieredSession Hash).Ready bases files where
  base := hplaces.1
  stash := hplaces.2.1
  tiers := bne_iff_ne.mpr hplaces.2.2
  drawn := fun _ _ huuid => by cases huuid
  injective := fun _ _ _ huuid => by cases huuid
  fits := fun _ _ huuid => by cases huuid
  stashed := fun _ _ hcontent => by cases hcontent

/-- What a session is after a call. -/
def Goes (build : Build Hash) (bases : Set Path) (session : TieredSession Hash)
    (_ : Set Empty) (files : FileSystem Hash) : Prop :=
  session.Ready bases files ∧ session.Reached build bases files

omit [DecidableEq Hash] in
theorem Ready.returning {result : Option Hash} {content : Option (List Byte)}
    (hready : session.Ready bases files) :
    (session.returning result content).Ready bases files := by
  cases result with
  | none => exact hready
  | some name => exact ⟨hready.base, hready.stash, hready.tiers, hready.drawn,
      hready.injective, hready.fits, hready.stashed⟩

section Performing

open BlockStorage
open FileSystem (keepingBasesUnder FailsOrTransfers failsCleanly_failsOrTransfers ensures_done)

variable {transferred : Path → Option ℕ}
variable (hsound : build.Sound) (hnamed : files.BasesNamed build bases)
variable (hready : session.Ready bases files)
variable (hreached : session.Reached build bases files)

omit [DecidableEq Hash] in
/-- No other block has the number of a stash file. -/
theorem Ready.stash_notMem (hready : session.Ready bases files) {uuid : ℕ}
    (hid : session.storage.stashBlockIds block = some uuid) :
    .stash session.storage.stashDirectory uuid ∉ session.storage.otherStashes block := by
  rintro ⟨other, number, hother, hnumber, hsame⟩
  rw [← (DataFile.stash.inj hsame).2] at hnumber
  exact hother (hready.injective other block uuid hnumber hid)

include hnamed hready hreached

include hsound in
theorem goes_storeBlock {buffer : List Byte}
    (hlength : buffer.length = session.storage.blockGranularity)
    (hreaches : session.ReachesBase build files transferred (.storeBlock buffer block)) :
    (keepingBasesUnder (@FailsOrTransfers Hash _ transferred) build bases ∅).ensures
      (session.perform build (.storeBlock buffer block)) (Goes build bases) owned files := by
  have hwrites : ∀ onStash : Bool, WritesTemporaries (@FailsOrTransfers Hash _ transferred) build
      bases {file | file.IsStash} session.storage buffer
      (if onStash then session.storage.stashDirectory else session.storage.baseDirectory)
      block := by
    intro onStash
    apply writesTemporaries_failsOrTransfers (fun _ hstash => hstash) hlength
    intro hlocation
    cases onStash with
    | true => exact absurd hlocation hready.stash
    | false => exact hreaches
  apply ensures_fewerFramed {file | file.IsStash} (Set.empty_subset _)
  apply Contract.ensures_bind_of (ensures_keepsBases (keeps_storeBlock (fun _ hstash => hstash)
    failsCleanly_failsOrTransfers hsound hnamed hwrites))
  rintro result owned' files' ⟨hstores, hkeeps⟩
  apply ensures_done
  have hreached' := hreached.keep (hkeeps.named hnamed).2
  let storage := if result.isSome then session.storage.noteStored block else session.storage
  have hstorage : ∃ committed,
      storage = { session.storage with stashCommittedBlockIds := committed } :=
    exists_noteStored result.isSome
  have hmiddle : ({ session with storage := storage } : TieredSession Hash).Ready bases files' :=
    hready.keep hkeeps hstorage rfl
  have hbase : storage.baseDirectory = session.storage.baseDirectory := by
    obtain ⟨committed, hcommitted⟩ := hstorage
    rw [hcommitted]
  refine ⟨hmiddle.returning, ?_⟩
  have hnames : ({ session with storage := storage } : TieredSession Hash).Reached build bases
      files' := hreached'
  rw [← hbase] at hstores
  exact hnames.returning hmiddle.base hstores fun given hgiven => (Option.some.inj hgiven).symm

theorem goes_stashBlock {buffer : List Byte} (hdrawn : files.StashesDrawn)
    (hlength : buffer.length = session.storage.blockGranularity) :
    (keepingBasesUnder (@FailsOrTransfers Hash _ transferred) build bases ∅).ensures
      (session.perform build (.stashBlock buffer block)) (Goes build bases) owned files := by
  apply ensures_fewerFramed (session.storage.otherStashes block) (Set.empty_subset _)
  apply Contract.ensures_bind_of (ensures_keepsBases (keeps_stashBlock
    failsCleanly_failsOrTransfers (writesStash_failsOrTransfers hlength) hdrawn hready.drawn
    (fun other uuid => hready.injective other block uuid) (hready.fits block)))
  rintro ⟨status, _⟩ owned' files' ⟨⟨uuid, rfl, huuid, hfits, hnot, -⟩, hkeeps⟩
  apply ensures_done
  refine ⟨hready.change hkeeps rfl rfl rfl ?_ ?_ ?_ ?_, hreached.keep (hkeeps.named hnamed).2⟩
  · exact fun other hother => Function.update_of_ne hother _ _
  · exact fun other hother => Function.update_of_ne hother _ _
  · intro number hnumber
    rw [setStashBlockId_apply, if_pos rfl, Option.some.injEq] at hnumber
    subst hnumber
    exact ⟨huuid, hfits, hnot⟩
  · intro content hcontent
    simp only [Function.update_self] at hcontent
    cases status with
    | false => cases hcontent
    | true =>
        cases hcontent
        exact hlength

theorem goes_unstashBlock :
    (keepingBasesUnder (@FailsOrTransfers Hash _ transferred) build bases ∅).ensures
      (session.perform build (.unstashBlock block)) (Goes build bases) owned files := by
  apply ensures_fewerFramed (session.storage.otherStashes block) (Set.empty_subset _)
  apply Contract.ensures_bind_of (ensures_keepsBases (keeps_unstashBlock
    failsCleanly_failsOrTransfers hready.drawn
    (fun other uuid => hready.injective other block uuid)))
  rintro result owned' files' ⟨hresult, hkeeps⟩
  apply ensures_done
  refine ⟨?_, hreached.keep (hkeeps.named hnamed).2⟩
  rcases hresult with rfl | ⟨rfl, rfl⟩
  · refine hready.change hkeeps rfl rfl rfl ?_ ?_ ?_ ?_
    · exact fun other hother => Function.update_of_ne hother _ _
    · exact fun other hother => Function.update_of_ne hother _ _
    · intro number hnumber
      rw [setStashBlockId_apply, if_pos rfl] at hnumber
      cases hnumber
    · intro content hcontent
      simp at hcontent
  · have hsame : Function.update session.stashed block (session.stashed block) =
        session.stashed := Function.update_eq_self _ _
    simpa [hsame] using hready

include hsound in
theorem goes_commitStashBlock
    (hreaches : session.ReachesBase build files transferred (.commitStashBlock block)) :
    (keepingBasesUnder (@FailsOrTransfers Hash _ transferred) build bases ∅).ensures
      (session.perform build (.commitStashBlock block)) (Goes build bases) owned files := by
  apply ensures_fewerFramed (session.storage.otherStashes block) (Set.empty_subset _)
  cases hid : session.storage.stashBlockIds block with
  | none =>
      have hexit : commitStashBlock build session.storage block = .exit := by
        unfold commitStashBlock
        rw [hid]
      change (keepingBasesUnder _ build bases _).ensures
        (commitStashBlock build session.storage block >>= _) _ _ _
      rw [hexit]
      trivial
  | some uuid =>
      obtain ⟨hmatches, hheld, hwhole⟩ := hreaches uuid hid
      have hwrites : WritesTemporaries (@FailsOrTransfers Hash _ transferred) build bases
          {file | file.IsStash} session.storage (session.storage.heldBlock files uuid)
          session.storage.baseDirectory block :=
        writesTemporaries_failsOrTransfers (fun _ hstash => hstash) (length_resize _ _ _)
          fun _ => hwhole
      apply Contract.ensures_bind_of (ensures_keepsBases (keeps_commitStashBlock
        failsCleanly_failsOrTransfers hsound hnamed hready.stash hready.tiers
        isStash_otherStashes hid (hready.stash_notMem hid) (hready.drawn block uuid hid) hmatches
        hwrites))
      rintro ⟨result, storage⟩ owned' files' ⟨⟨htable, hstored, hstash⟩, hkeeps⟩
      apply ensures_done
      let after : TieredSession Hash :=
        { session with
          storage := storage
          stashed := Function.update session.stashed block none }
      have hready' : after.Ready bases files' := by
        rcases htable with rfl | rfl
        · refine hready.change hkeeps rfl rfl rfl (fun _ _ => rfl) ?_ ?_ ?_
          · exact fun other hother => Function.update_of_ne hother _ _
          · intro number hnumber
            rw [hid, Option.some.injEq] at hnumber
            subst hnumber
            refine ⟨(hready.drawn block uuid hid).trans_le hkeeps.fresh, ?_, ?_⟩
            · exact fun bytes hbytes => hready.fits block uuid hid bytes (hstash bytes hbytes)
            · exact fun other hother hsame =>
                hother (hready.injective other block uuid hsame hid)
          · intro content hcontent
            simp [after] at hcontent
        · refine hready.change hkeeps rfl rfl rfl ?_ ?_ ?_ ?_
          · exact fun other hother => Function.update_of_ne hother _ _
          · exact fun other hother => Function.update_of_ne hother _ _
          · intro number hnumber
            rw [setStashBlockId_apply, if_pos rfl] at hnumber
            cases hnumber
          · intro content hcontent
            simp [after] at hcontent
      have hreached' : after.Reached build bases files' := hreached.keep (hkeeps.named hnamed).2
      have hbase : storage.baseDirectory = session.storage.baseDirectory := by
        rcases htable with rfl | rfl
        · rfl
        · rfl
      rw [← hbase] at hstored
      refine ⟨hready'.returning, hreached'.returning hready'.base hstored ?_⟩
      intro given hgiven
      exact (heldBlock_of_data (hready.stashed block given hgiven) (hheld given hgiven)).symm

theorem goes_getBlockFullPath {name : Hash} :
    (keepingBasesUnder (@FailsOrTransfers Hash _ transferred) build bases ∅).ensures
      (session.perform build (.getBlockFullPath block name)) (Goes build bases) owned files := by
  apply ensures_fewerFramed {file | file.IsStash} (Set.empty_subset _)
  apply Contract.ensures_bind_of (ensures_keepsBases
    (keeps_getBlockFullPath failsCleanly_failsOrTransfers (fun _ hstash => hstash) hready.stash))
  rintro result owned' files' ⟨hstorage, hkeeps⟩
  apply ensures_done
  exact ⟨hready.keep hkeeps hstorage rfl, hreached.keep (hkeeps.named hnamed).2⟩

omit hready hnamed in
/-- A new storage has returned nothing yet. -/
theorem goes_create {baseDirectory stashDirectory : Path} {blockGranularity : ℕ}
    (hnamed : files.BasesNamed build bases)
    (hplaces : Places bases baseDirectory stashDirectory) :
    (keepingBasesUnder (@FailsOrTransfers Hash _ transferred) build bases ∅).ensures
      (session.perform build (.create baseDirectory stashDirectory blockGranularity))
      (Goes build bases) owned files := by
  apply Contract.ensures_bind_of (ensures_keepsBases
    (keeps_create failsCleanly_failsOrTransfers))
  rintro _ owned' files' ⟨rfl, hkeeps⟩
  apply ensures_done
  exact ⟨ready_initial hplaces, hreached.keep (hkeeps.named hnamed).2⟩

omit hready hnamed in
theorem goes_open {baseDirectory stashDirectory : Path}
    (hnamed : files.BasesNamed build bases)
    (hplaces : Places bases baseDirectory stashDirectory) :
    (keepingBasesUnder (@FailsOrTransfers Hash _ transferred) build bases ∅).ensures
      (session.perform build (.open baseDirectory stashDirectory))
      (Goes build bases) owned files := by
  apply Contract.ensures_bind_of (ensures_keepsBases
    (keeps_open failsCleanly_failsOrTransfers))
  rintro _ owned' files' ⟨⟨blockGranularity, rfl⟩, hkeeps⟩
  apply ensures_done
  exact ⟨ready_initial hplaces, hreached.keep (hkeeps.named hnamed).2⟩

end Performing

end TieredSession

/-! ## Runs -/

/-- The files, and the storage that runs on them or ran on them last. -/
structure TieredState (Hash : Type) where
  session : TieredSession Hash
  files : FileSystem Hash
  running : Bool

namespace TieredState

open FileSystem (FailsOrTransfers)

/-- No storage was opened yet. -/
def initial (files : FileSystem Hash) : TieredState Hash where
  session := ⟨BlockStorage.initial [] [] 0, fun _ => none, []⟩
  files := files
  running := false

variable [DecidableEq Hash]

/-- A call, with what its writes to each directory transfer, returns, or the process ends in
it. -/
inductive Step (build : Build Hash) (bases : Set Path) :
    TieredState Hash → TieredCall Hash × (Path → Option ℕ) → TieredState Hash → Prop
  | returned {state : TieredState Hash} {call : TieredCall Hash} {transferred : Path → Option ℕ}
      {session : TieredSession Hash} {files : FileSystem Hash}
      (hallows : state.session.Allows bases state.running call)
      (hruns : (state.session.perform build call).RunsTo (FailsOrTransfers transferred)
        state.files (.returned session) files) :
      Step build bases state (call, transferred) ⟨session, files, true⟩
  | ended {state : TieredState Hash} {call : TieredCall Hash} {transferred : Path → Option ℕ}
      {files : FileSystem Hash} (hallows : state.session.Allows bases state.running call)
      (hruns : (state.session.perform build call).RunsTo (FailsOrTransfers transferred)
        state.files .exited files) :
      Step build bases state (call, transferred) ⟨state.session, files, false⟩

/-- What a call stores is written whole to the base directory, and a commit finds what was
stashed, in the base directory too where the stash tier has it. -/
def ReachesBase (build : Build Hash) (state : TieredState Hash)
    (label : TieredCall Hash × (Path → Option ℕ)) : Prop :=
  state.session.ReachesBase build state.files label.2 label.1

/-- Every block whose name was returned is in its base directory. -/
def BaseComplete (build : Build Hash) (state : TieredState Hash) : Prop :=
  ∀ entry ∈ state.session.returned, TieredSession.HasBlock build state.files entry

/-- What every step keeps. -/
structure Lawful (build : Build Hash) (bases : Set Path) (state : TieredState Hash) : Prop where
  named : state.files.BasesNamed build bases
  drawn : state.files.StashesDrawn
  ready : state.running = true → state.session.Ready bases state.files
  reached : state.session.Reached build bases state.files

variable {build : Build Hash} {bases : Set Path} {state next : TieredState Hash}
variable {call : TieredCall Hash} {transferred : Path → Option ℕ}

/-- How the program of an allowed call ends. -/
theorem goes_perform (hsound : build.Sound) (hlawful : state.Lawful build bases)
    (hallows : state.session.Allows bases state.running call)
    (hreaches : state.ReachesBase build (call, transferred)) :
    (FileSystem.keepingBasesUnder (@FailsOrTransfers Hash _ transferred) build bases ∅).ensures
      (state.session.perform build call) (TieredSession.Goes build bases) ∅ state.files := by
  cases call with
  | create baseDirectory stashDirectory blockGranularity =>
      exact TieredSession.goes_create hlawful.reached hlawful.named hallows
  | «open» baseDirectory stashDirectory =>
      exact TieredSession.goes_open hlawful.reached hlawful.named hallows
  | storeBlock buffer block =>
      exact TieredSession.goes_storeBlock hsound hlawful.named (hlawful.ready hallows.1)
        hlawful.reached hallows.2 hreaches
  | stashBlock buffer block =>
      exact TieredSession.goes_stashBlock hlawful.named (hlawful.ready hallows.1)
        hlawful.reached hlawful.drawn hallows.2
  | unstashBlock block =>
      exact TieredSession.goes_unstashBlock hlawful.named (hlawful.ready hallows) hlawful.reached
  | commitStashBlock block =>
      exact TieredSession.goes_commitStashBlock hsound hlawful.named (hlawful.ready hallows)
        hlawful.reached hreaches
  | getBlockFullPath block name =>
      exact TieredSession.goes_getBlockFullPath hlawful.named (hlawful.ready hallows)
        hlawful.reached

/-- One call keeps the laws, also when the process ends in it. -/
theorem lawful_step (hsound : build.Sound) {label : TieredCall Hash × (Path → Option ℕ)}
    (hlawful : state.Lawful build bases) (hreaches : state.ReachesBase build label)
    (hstep : Step build bases state label next) : next.Lawful build bases := by
  cases hstep with
  | returned hallows hruns =>
      obtain ⟨hkeeps, -, hend⟩ := Contract.runsTo_of_ensures
        (goes_perform hsound hlawful hallows hreaches) hruns
      obtain ⟨_, hready, hreached⟩ := hend _ rfl
      exact ⟨(hkeeps.named hlawful.named).1, hkeeps.drawn hlawful.drawn, fun _ => hready,
        hreached⟩
  | ended hallows hruns =>
      obtain ⟨hkeeps, -, -⟩ := Contract.runsTo_of_ensures
        (goes_perform hsound hlawful hallows hreaches) hruns
      exact ⟨(hkeeps.named hlawful.named).1, hkeeps.drawn hlawful.drawn, (fun h => by cases h),
        hlawful.reached.keep (hkeeps.named hlawful.named).2⟩

/-- In a run whose blocks are written whole to the base directory, and whose commits find what
was stashed, in the base directory too where the stash tier has it, the base directory always
has every block whose name was returned. -/
theorem base_complete (hsound : build.Sound) {files : FileSystem Hash}
    {trace : List ((TieredCall Hash × (Path → Option ℕ)) × TieredState Hash)}
    (hnamed : files.BasesNamed build bases) (hdrawn : files.StashesDrawn)
    (hrun : Run (Step build bases) (initial files) trace)
    (heach : Run.Each (ReachesBase build) (initial files) trace) :
    ∀ state ∈ Run.states (initial files) trace, state.BaseComplete build := by
  have hstart : (initial files).Lawful build bases :=
    ⟨hnamed, hdrawn, (fun h => by cases h), fun _ hentry => by cases hentry⟩
  have hlaws := hrun.forall_states (fun _ _ _ hlawful hreaches hstep =>
    lawful_step hsound hlawful hreaches hstep) hstart heach
  exact fun state hstate entry hentry => ((hlaws state hstate).reached entry hentry).2

/-- A call whose program returns when its writes transfer what the label says. -/
theorem Step.returned_of_run {session : TieredSession Hash} {files : FileSystem Hash}
    (hallows : state.session.Allows bases state.running call)
    (hrun : (state.session.perform build call).run (FileSystem.transferIn transferred)
      state.files = (.returned session, files)) :
    Step build bases state (call, transferred) ⟨session, files, true⟩ :=
  .returned hallows (Program.runsTo_of_run FileSystem.failsOrTransfers_transferIn hrun)

/-- The directories of two storages that share their stash. -/
def twoBases : Set Path := {['/', 'b', '/', 'x'], ['/', 'c', '/', 'x']}

/-- All writes transfer the two bytes of a block. -/
def allBytes : Path → Option ℕ := fun _ => some 2

/-- A full disk below one of the base directories, where writes transfer one byte. -/
def oneByte : Path → Option ℕ :=
  fun location => if location = ['/', 'b', '/', 'x'] then some 1 else some 2

/-- A block that another storage stored is on the shared stash tier but not in this base; and
half of a block is in the base directory under the name of the whole. -/
theorem base_lacks_block :
    (∃ trace, Run (Step Build.transparent twoBases) (initial FileSystem.empty) trace ∧
      ¬ (Run.last (initial FileSystem.empty) trace).BaseComplete Build.transparent) ∧
      ∃ trace, Run (Step Build.transparent twoBases) (initial FileSystem.empty) trace ∧
        trace.length = 2 ∧
          ¬ (Run.last (initial FileSystem.empty) trace).BaseComplete Build.transparent := by
  constructor
  · have hrun : Run (Step Build.transparent twoBases) (initial FileSystem.empty)
        [((.create ['/', 'c', '/', 'x'] ['/', 's', '/', 'x'] 2, allBytes), _),
          ((.storeBlock [5, 7] 0, allBytes), _),
          ((.create ['/', 'b', '/', 'x'] ['/', 's', '/', 'x'] 2, allBytes), _),
          ((.stashBlock [5, 7] 0, allBytes), _), ((.commitStashBlock 0, allBytes), _)] :=
      .cons (.returned_of_run ⟨by simp [twoBases], by simp [twoBases], by decide⟩ rfl) <|
      .cons (.returned_of_run ⟨rfl, rfl⟩ rfl) <|
      .cons (.returned_of_run ⟨by simp [twoBases], by simp [twoBases], by decide⟩ rfl) <|
      .cons (.returned_of_run ⟨rfl, rfl⟩ rfl) <|
      .cons (.returned_of_run rfl rfl) .nil
    refine ⟨_, hrun, fun hcomplete => ?_⟩
    obtain ⟨content, -, hdata, -⟩ := hcomplete _ List.mem_cons_self
    cases hdata
  · have hrun : Run (Step Build.transparent twoBases) (initial FileSystem.empty)
        [((.create ['/', 'b', '/', 'x'] ['/', 's', '/', 'x'] 2, allBytes), _),
          ((.storeBlock [5, 7] 0, oneByte), _)] :=
      .cons (.returned_of_run ⟨by simp [twoBases], by simp [twoBases], by decide⟩ rfl) <|
      .cons (.returned_of_run ⟨rfl, rfl⟩ rfl) .nil
    refine ⟨_, hrun, rfl, fun hcomplete => ?_⟩
    obtain ⟨content, hname, hdata, -⟩ := hcomplete _ List.mem_cons_self
    cases hname
    cases hdata

/-- A storage alone with both of its directories: a block is stored, and another one, stashed
in part and then in full, is committed. -/
theorem base_complete_aloneOnBoth :
    ∃ trace, Run (Step Build.transparent {['/', 'b', '/', 'x']})
        (initial FileSystem.empty) trace ∧ trace.length = 6 ∧
      ∀ state ∈ Run.states (initial FileSystem.empty) trace,
        state.BaseComplete Build.transparent := by
  have hrun : Run (Step Build.transparent {['/', 'b', '/', 'x']}) (initial FileSystem.empty)
      [((.create ['/', 'b', '/', 'x'] ['/', 's', '/', 'x'] 2, allBytes), _),
        ((.storeBlock [3, 4] 1, allBytes), _), ((.stashBlock [5, 7] 0, fun _ => some 1), _),
        ((.stashBlock [5, 7] 0, allBytes), _), ((.commitStashBlock 0, allBytes), _),
        ((.storeBlock [5, 7] 2, fun _ => none), _)] :=
    .cons (.returned_of_run ⟨by simp, by simp, by decide⟩ rfl) <|
    .cons (.returned_of_run ⟨rfl, rfl⟩ rfl) <|
    .cons (.returned_of_run ⟨rfl, rfl⟩ rfl) <|
    .cons (.returned_of_run ⟨rfl, rfl⟩ rfl) <|
    .cons (.returned_of_run rfl rfl) <|
    .cons (.returned_of_run ⟨rfl, rfl⟩ rfl) .nil
  refine ⟨_, hrun, rfl, base_complete Build.transparent_sound ?_ ?_ hrun ?_⟩
  · intro location _ subdirectory name bytes hbytes
    cases hbytes
  · intro location uuid hsome
    cases hsome
  · refine ⟨trivial, .inr rfl, trivial, trivial, ?_, .inl rfl, trivial⟩
    intro uuid huuid
    cases huuid
    refine ⟨fun hfound => ?_, fun content hcontent => ?_, .inr rfl⟩
    · cases hfound
    · cases hcontent
      rfl

end TieredState

end Privateer
