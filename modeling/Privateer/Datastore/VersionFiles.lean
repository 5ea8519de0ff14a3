import Privateer.Sigaction.Session

/-!
# The files of all versions

At any moment, also between two system calls, the tables of a datastore name blocks that
are there, and a text file that has its line keeps it.  An operation works on the files of
few versions, its targets, and leaves those of the others alone.  `Develops` states this
for one change of the files, and the contract of the versions for every call of a program.
-/

namespace Privateer

variable {Hash : Type}

namespace BlocksDirectory

/-- The files of a datastore between any two system calls. -/
structure Consistent (blocks : BlocksDirectory Hash) (files : FileSystem Hash) : Prop where
  named : blocks.Named files
  entries : ∀ version table, files.metadata version = some table →
    ∀ name ∈ table, ∃ content, blocks.Names files name content
  length_le : ∀ version table capacity, files.metadata version = some table →
    files.texts (.capacity version) = some (some (.number capacity)) →
      table.length ≤ capacity / blocks.blockSize
  location : ∀ version text, files.texts (.blocksPath version) = some (some text) →
    text = .path blocks.location
  granularity : ∀ text, files.texts (.granularity blocks.location) = some (some text) →
    text = .number blocks.blockSize
  grounded : files.texts (.granularity blocks.location) ≠ none →
    files.directories (.path blocks.location)
  housed : ∀ version, (files.metadata version).isSome → files.directories (.path version)
  untouched : ∀ version, files.metadata version = none →
    files.texts (.capacity version) = none ∧ files.texts (.blocksPath version) = none

/-- A version is there only in a datastore that has its blocks directory. -/
def Located (blocks : BlocksDirectory Hash) (files : FileSystem Hash) : Prop :=
  ∀ version, (files.metadata version).isSome → files.directories (.path blocks.location)

/-- A datastore that is yet to be made. -/
theorem consistent_of_empty {blocks : BlocksDirectory Hash} {files : FileSystem Hash}
    (hdata : ∀ file, files.data file = none) (hmetadata : ∀ version, files.metadata version = none)
    (htexts : ∀ file, files.texts file = none) : blocks.Consistent files where
  named := fun name _ _ hbytes => by
    rw [hdata] at hbytes
    cases hbytes
  entries := fun version table htable => by
    rw [hmetadata] at htable
    cases htable
  length_le := fun version table _ htable => by
    rw [hmetadata] at htable
    cases htable
  location := fun version text htext => by
    rw [htexts] at htext
    cases htext
  granularity := fun text htext => by
    rw [htexts] at htext
    cases htext
  grounded := fun htext => absurd (htexts _) htext
  housed := fun version htable => by
    rw [hmetadata] at htable
    cases htable
  untouched := fun version _ => ⟨htexts _, htexts _⟩

/-- A change of the files that touches the versions in `targets` only.  A program that
grounds the datastore, by creating the blocks directory, may do so after its version. -/
structure Develops (blocks : BlocksDirectory Hash) (targets : Set Path) (grounds : Prop)
    (files files' : FileSystem Hash) : Prop where
  tolerates : blocks.Tolerates files files'
  consistent : blocks.Consistent files → blocks.Consistent files'
  tables : ∀ version, (files.metadata version).isSome → (files'.metadata version).isSome
  texts : ∀ file text, files.texts file = some (some text) →
    files'.texts file = some (some text)
  others : ∀ version ∉ targets, FileSystem.SameVersion version files files'
  granularity : grounds ∨
    files'.texts (.granularity blocks.location) = files.texts (.granularity blocks.location)
  located : grounds ∨ (blocks.Located files → blocks.Located files')

variable {blocks : BlocksDirectory Hash} {targets : Set Path} {grounds : Prop}
variable {files files' : FileSystem Hash}

theorem Develops.refl (files : FileSystem Hash) : blocks.Develops targets grounds files files where
  tolerates := Tolerates.refl files
  consistent := id
  tables := fun _ => id
  texts := fun _ _ => id
  others := fun _ _ => ⟨rfl, rfl, rfl⟩
  granularity := .inr rfl
  located := .inr id

theorem Develops.trans {first second third : FileSystem Hash}
    (hfirst : blocks.Develops targets grounds first second)
    (hsecond : blocks.Develops targets grounds second third) :
    blocks.Develops targets grounds first third where
  tolerates := hfirst.tolerates.trans hsecond.tolerates
  consistent := fun hconsistent => hsecond.consistent (hfirst.consistent hconsistent)
  tables := fun version htable => hsecond.tables version (hfirst.tables version htable)
  texts := fun file text htext => hsecond.texts file text (hfirst.texts file text htext)
  others := fun version hother =>
    (hfirst.others version hother).trans (hsecond.others version hother)
  granularity := by
    rcases hfirst.granularity with hgrounds | hkept
    · exact .inl hgrounds
    · exact hsecond.granularity.imp_right fun hkept' => hkept'.trans hkept
  located := by
    rcases hfirst.located with hgrounds | hkept
    · exact .inl hgrounds
    · exact hsecond.located.imp_right fun hkept' hlocated => hkept' (hkept hlocated)

/-! ## Changes that touch no version -/

/-- Blocks may be added and directories created beside consistent files. -/
theorem Consistent.keep (hconsistent : blocks.Consistent files)
    (hpromises : blocks.Promises files files') : blocks.Consistent files' where
  named := (hpromises.named hconsistent.named).1
  entries := by
    intro version table htable name hname
    rw [hpromises.metadata] at htable
    obtain ⟨content, hcontent⟩ := hconsistent.entries version table htable name hname
    exact ⟨content, hcontent.keep (hpromises.named hconsistent.named).2⟩
  length_le := by
    rw [hpromises.metadata, hpromises.texts]
    exact hconsistent.length_le
  location := by
    rw [hpromises.texts]
    exact hconsistent.location
  granularity := by
    rw [hpromises.texts]
    exact hconsistent.granularity
  grounded := by
    rw [hpromises.texts]
    exact fun htext => hpromises.directories _ (hconsistent.grounded htext)
  housed := by
    rw [hpromises.metadata]
    exact fun version htable => hpromises.directories _ (hconsistent.housed version htable)
  untouched := by
    rw [hpromises.metadata, hpromises.texts]
    exact hconsistent.untouched

theorem Promises.develops (hpromises : blocks.Promises files files') :
    blocks.Develops targets grounds files files' where
  tolerates := hpromises.toTolerates
  consistent := fun hconsistent => hconsistent.keep hpromises
  tables := fun version htable => by rwa [hpromises.metadata]
  texts := fun file text htext => by rwa [hpromises.texts]
  others := fun version _ => by
    refine ⟨?_, ?_, ?_⟩
    · rw [hpromises.metadata]
    · rw [hpromises.texts]
    · rw [hpromises.texts]
  granularity := .inr (by rw [hpromises.texts])
  located := .inr fun hlocated version htable =>
    hpromises.directories _ (hlocated version (hpromises.metadata ▸ htable))

/-! ## Writing a table -/

/-- The table of a target is replaced by one that names blocks and fits the capacity. -/
theorem develops_setMetadata {version : Path} {table : List Hash} (hversion : version ∈ targets)
    (hdirectory : files.directories (.path version))
    (hentries : ∀ name ∈ table, ∃ content, blocks.Names files name content)
    (hlength : ∀ capacity, files.texts (.capacity version) = some (some (.number capacity)) →
      table.length ≤ capacity / blocks.blockSize)
    (hlocated : grounds ∨ (blocks.Located files → files.directories (.path blocks.location))) :
    blocks.Develops targets grounds files (files.setMetadata version (some table)) where
  tolerates := tolerates_setMetadata version (some table)
  consistent := fun hconsistent =>
    { named := hconsistent.named
      entries := by
        intro other entries hother
        simp only [names_setMetadata]
        by_cases hsame : other = version
        · rw [hsame, FileSystem.setMetadata_self, Option.some.injEq] at hother
          exact hother ▸ hentries
        · rw [FileSystem.setMetadata_of_ne _ hsame] at hother
          exact hconsistent.entries other entries hother
      length_le := by
        intro other entries capacity hother hcapacity
        by_cases hsame : other = version
        · rw [hsame, FileSystem.setMetadata_self, Option.some.injEq] at hother
          rw [← hother]
          exact hlength capacity (hsame ▸ hcapacity)
        · rw [FileSystem.setMetadata_of_ne _ hsame] at hother
          exact hconsistent.length_le other entries capacity hother hcapacity
      location := hconsistent.location
      granularity := hconsistent.granularity
      grounded := hconsistent.grounded
      housed := by
        intro other hother
        by_cases hsame : other = version
        · rw [hsame]
          exact hdirectory
        · rw [FileSystem.setMetadata_of_ne _ hsame] at hother
          exact hconsistent.housed other hother
      untouched := by
        intro other hother
        by_cases hsame : other = version
        · rw [hsame, FileSystem.setMetadata_self] at hother
          cases hother
        · rw [FileSystem.setMetadata_of_ne _ hsame] at hother
          exact hconsistent.untouched other hother }
  tables := by
    intro other hother
    by_cases hsame : other = version
    · rw [hsame, FileSystem.setMetadata_self]
      rfl
    · rwa [FileSystem.setMetadata_of_ne _ hsame]
  texts := fun _ _ => id
  others := fun other hother =>
    ⟨FileSystem.setMetadata_of_ne _ (fun hsame : other = version => hother (hsame ▸ hversion)) _,
      rfl, rfl⟩
  granularity := .inr rfl
  located := hlocated.imp_right fun hlocated hfiles _ _ => hlocated hfiles

/-! ## Writing a text file -/

/-- What a text file of the datastore may say. -/
def Suits (blocks : BlocksDirectory Hash) (targets : Set Path) (grounds : Prop)
    (files : FileSystem Hash) : TextFile → Text → Prop
  | .blocksPath version, text =>
      version ∈ targets ∧ (files.metadata version).isSome ∧ text = .path blocks.location
  | .capacity version, text =>
      version ∈ targets ∧ (files.metadata version).isSome ∧
        ∀ table capacity, files.metadata version = some table → text = .number capacity →
          table.length ≤ capacity / blocks.blockSize
  | .granularity location, text =>
      location = blocks.location → grounds ∧ files.directories (.path location) ∧
        text = .number blocks.blockSize

/-- A text file without a line is emptied or gets a line that suits it. -/
theorem develops_setText {file : TextFile} {line : Option Text}
    (hnew : ∀ text, files.texts file ≠ some (some text))
    (hsuits : ∀ text, line = some text → blocks.Suits targets grounds files file text)
    (htouched : ∃ text, blocks.Suits targets grounds files file text) :
    blocks.Develops targets grounds files (files.setText file (some line)) where
  tolerates := tolerates_of_blocks_eq (fun _ h => h) fun _ _ => rfl
  consistent := fun hconsistent =>
    { named := hconsistent.named
      entries := by
        intro version table htable name hname
        obtain ⟨content, hcontent⟩ := hconsistent.entries version table htable name hname
        exact ⟨content, hcontent.keep fun _ _ _ hbytes => hbytes⟩
      length_le := by
        intro version table capacity htable hcapacity
        by_cases hsame : TextFile.capacity version = file
        · rw [← hsame, FileSystem.setText_self, Option.some.injEq] at hcapacity
          have hfits := hsuits _ hcapacity
          rw [← hsame] at hfits
          exact hfits.2.2 table capacity htable rfl
        · rw [FileSystem.setText_of_ne _ hsame] at hcapacity
          exact hconsistent.length_le version table capacity htable hcapacity
      location := by
        intro version text htext
        by_cases hsame : TextFile.blocksPath version = file
        · rw [← hsame, FileSystem.setText_self, Option.some.injEq] at htext
          have hfits := hsuits _ htext
          rw [← hsame] at hfits
          exact hfits.2.2
        · rw [FileSystem.setText_of_ne _ hsame] at htext
          exact hconsistent.location version text htext
      granularity := by
        intro text htext
        by_cases hsame : TextFile.granularity blocks.location = file
        · rw [← hsame, FileSystem.setText_self, Option.some.injEq] at htext
          have hfits := hsuits _ htext
          rw [← hsame] at hfits
          exact (hfits rfl).2.2
        · rw [FileSystem.setText_of_ne _ hsame] at htext
          exact hconsistent.granularity text htext
      grounded := by
        intro htext
        by_cases hsame : TextFile.granularity blocks.location = file
        · obtain ⟨text, hfits⟩ := htouched
          rw [← hsame] at hfits
          exact (hfits rfl).2.1
        · rw [FileSystem.setText_of_ne _ hsame] at htext
          exact hconsistent.grounded htext
      housed := hconsistent.housed
      untouched := by
        intro version htable
        obtain ⟨text, hfits⟩ := htouched
        have hmissing : ¬ (files.metadata version).isSome := by
          rw [show files.metadata version = none from htable]
          exact Bool.false_ne_true
        have hcapacity : TextFile.capacity version ≠ file := by
          rintro rfl
          exact hmissing hfits.2.1
        have hpath : TextFile.blocksPath version ≠ file := by
          rintro rfl
          exact hmissing hfits.2.1
        rw [FileSystem.setText_of_ne _ hcapacity, FileSystem.setText_of_ne _ hpath]
        exact hconsistent.untouched version htable }
  tables := fun _ => id
  texts := by
    intro other text htext
    have hother : other ≠ file := by
      rintro rfl
      exact hnew text htext
    rwa [FileSystem.setText_of_ne _ hother]
  others := by
    intro version hversion
    obtain ⟨text, hfits⟩ := htouched
    refine ⟨rfl, FileSystem.setText_of_ne _ ?_ _, FileSystem.setText_of_ne _ ?_ _⟩
    · rintro rfl
      exact hversion hfits.1
    · rintro rfl
      exact hversion hfits.1
  granularity := by
    by_cases hsame : TextFile.granularity blocks.location = file
    · obtain ⟨text, hfits⟩ := htouched
      rw [← hsame] at hfits
      exact .inl (hfits rfl).1
    · exact .inr (FileSystem.setText_of_ne _ hsame _)
  located := .inr id

/-- Other text files may be written in between. -/
theorem Suits.setText {file other : TextFile} {text : Text} {line : Option (Option Text)}
    (hsuits : blocks.Suits targets grounds files file text) :
    blocks.Suits targets grounds (files.setText other line) file text := by
  cases file with
  | blocksPath version => exact hsuits
  | capacity version => exact hsuits
  | granularity location => exact hsuits

/-! ## The contract -/

section Contract

variable [DecidableEq Hash]

variable (blocks targets grounds) in
/-- The contract of a program that works on some versions while nobody else does
anything. -/
def versions : Contract (FileSystem.interface : Interface (Call Hash) Reply _ _) where
  tolerates := Eq
  promises := blocks.Develops targets grounds
  mayExit := True
  tolerates_refl := fun _ => rfl
  tolerates_trans := fun _ _ _ => Eq.trans
  promises_refl := Develops.refl
  promises_trans := fun _ _ _ => Develops.trans

variable {A B : Type} {owned : Set Resource} {program : StorageProgram Hash A}
variable {post : A → Set Resource → FileSystem Hash → Prop}

/-- A program of the block storage touches no version. -/
theorem ensures_versions (hensures : (blocks.contract True).ensures program post owned files) :
    (blocks.versions targets grounds).ensures program
      (fun result owned' files' => post result owned' files' ∧ blocks.Promises files files')
      owned files := by
  let alone : Contract (FileSystem.interface : Interface (Call Hash) Reply _ _) :=
    { blocks.contract True with
      tolerates := Eq
      tolerates_refl := fun _ => rfl
      tolerates_trans := fun _ _ _ => Eq.trans }
  have halone : alone.ensures program post owned files := by
    refine Contract.ensures_weaken ?_ ?_ ?_ hensures
    · rintro state _ rfl
      exact Tolerates.refl state
    · exact fun _ _ => id
    · exact id
  have hpromises := Contract.ensures_promises
    (fun state _ (hsame : state = _) => hsame ▸ Promises.refl state) halone
  refine Contract.ensures_weaken ?_ ?_ ?_ hpromises
  · exact fun _ _ => id
  · exact fun _ _ => Promises.develops
  · exact id

/-- What comes after a program starts with files that have developed. -/
theorem versions_bind {next : A → StorageProgram Hash B}
    {middle : A → Set Resource → FileSystem Hash → Prop}
    {post : B → Set Resource → FileSystem Hash → Prop}
    (hfirst : (blocks.versions targets grounds).ensures program middle owned files)
    (hnext : ∀ result owned' files', middle result owned' files' →
      blocks.Develops targets grounds files files' →
        (blocks.versions targets grounds).ensures (next result) post owned' files') :
    (blocks.versions targets grounds).ensures (program >>= next) post owned files := by
  have hrefl : ∀ state state' : FileSystem Hash, state = state' →
      blocks.Develops targets grounds state state' :=
    fun state _ hsame => hsame ▸ Develops.refl state
  have hpromises := Contract.ensures_promises hrefl hfirst
  apply Contract.ensures_bind_of hpromises
  rintro result owned' files' ⟨hmiddle, hdevelops⟩
  exact hnext result owned' files' hmiddle hdevelops

theorem versions_finish {result : A} (hpost : post result owned files) :
    (blocks.versions targets grounds).ensures (.finish result) post owned files := by
  intro files' hrely
  rw [← hrely.tolerated]
  exact hpost

/-- A system call that only looks. -/
theorem versions_query {call : Call Hash} {reply : Reply call}
    {next : Reply call → StorageProgram Hash A}
    (hgains : ∀ reply, Resource.gains call reply = ∅)
    (hanswer : files.answer call = (reply, files))
    (hnext : (blocks.versions targets grounds).ensures (next reply) post owned files) :
    (blocks.versions targets grounds).ensures (.call call next) post owned files := by
  apply FileSystem.ensures_systemCall hgains
  intro before hbefore
  rw [← hbefore.tolerated, hanswer]
  exact ⟨Contract.Guarantee.refl owned files, hnext⟩

/-- A call on the files of a target that the program holds. -/
theorem versions_call {call : Call Hash} {reply : Reply call}
    {next : Reply call → StorageProgram Hash A}
    (howned : ∀ version ∈ targets, Resource.version version ∈ owned)
    (hgains : ∀ reply, Resource.gains call reply = ∅)
    (hanswer : files.answer call = (reply, files'))
    (hdata : files'.data = files.data) (hfresh : files'.fresh = files.fresh)
    (hdevelops : blocks.Develops targets grounds files files')
    (hnext : (blocks.versions targets grounds).ensures (next reply) post owned files') :
    (blocks.versions targets grounds).ensures (.call call next) post owned files := by
  apply FileSystem.ensures_systemCall hgains
  intro before hbefore
  rw [← hbefore.tolerated, hanswer]
  refine ⟨⟨hdevelops, ?_, ?_⟩, hnext⟩
  · intro resource hresource
    cases resource with
    | file number =>
        change number < files'.fresh
        rw [hfresh]
        exact hresource
    | version path => trivial
  · intro resource _ hresource
    cases resource with
    | file number =>
        intro file _
        rw [hdata]
    | version path =>
        exact .inr (hdevelops.others path fun htarget => hresource (howned path htarget))

theorem versions_createDirectory {directory : Directory} {next : Bool → StorageProgram Hash A}
    (howned : ∀ version ∈ targets, Resource.version version ∈ owned)
    (hnext : (blocks.versions targets grounds).ensures (next true) post owned
      (files.setDirectory directory)) :
    (blocks.versions targets grounds).ensures (.call (.createDirectory directory) next) post owned
      files :=
  versions_call howned (fun _ => rfl) rfl rfl rfl
    (promises_createDirectory directory).develops hnext

/-- Writing the line of a text file whose directory is there. -/
theorem versions_writeTextFile {file : TextFile} {text : Text}
    (howned : ∀ version ∈ targets, Resource.version version ∈ owned)
    (hdirectory : files.directories file.parent)
    (hnew : ∀ text, files.texts file ≠ some (some text))
    (hsuits : blocks.Suits targets grounds files file text) :
    (blocks.versions targets grounds).ensures (writeTextFile file text)
      (fun _ owned' files' => owned' = owned ∧ files' = files.setText file (some (some text)))
      owned files := by
  have hopened : files.answer (.openText file) = ((), files.setText file (some none)) := by
    simp [FileSystem.answer, hdirectory]
  have hwritten : (files.setText file (some none)).answer (.writeText file text) =
      ((), files.setText file (some (some text))) := by
    simp [FileSystem.answer, FileSystem.setText_setText]
  have hempty : ∀ text, (files.setText file (some none)).texts file ≠ some (some text) := by
    simp
  have hwrite : blocks.Develops targets grounds (files.setText file (some none))
      ((files.setText file (some none)).setText file (some (some text))) :=
    develops_setText hempty (fun _ hline => Option.some.inj hline ▸ hsuits.setText)
      ⟨text, hsuits.setText⟩
  rw [FileSystem.setText_setText] at hwrite
  unfold writeTextFile
  apply versions_call howned (fun _ => rfl) hopened rfl rfl
    (develops_setText hnew (fun _ hline => by cases hline) ⟨text, hsuits⟩)
  exact versions_call howned (fun _ => rfl) hwritten rfl rfl hwrite (versions_finish ⟨rfl, rfl⟩)

end Contract

end BlocksDirectory

end Privateer
