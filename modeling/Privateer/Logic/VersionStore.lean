import Mathlib.Logic.Function.Basic
import Mathlib.Data.Set.Insert

/-!
# Stores of named versions

A store holds contents under names.  A session works on a copy of one version: it edits the
copy, commits it to its version, or publishes it under another name.  A name may be in use
although nothing can be read under it.
-/

namespace Privateer

/-- What a session works on. -/
structure WorkingCopy (Name Content : Type*) where
  name : Name
  content : Content
  readOnly : Bool

structure VersionStore (Name Content : Type*) where
  taken : Set Name
  versions : Name → Option Content
  copies : ℕ → Option (WorkingCopy Name Content)

namespace VersionStore

variable {Name Content : Type*}

section Operations

variable [DecidableEq Name]

/-- The name is in use, and the version has this content. -/
def put (store : VersionStore Name Content) (name : Name) (content : Content) :
    VersionStore Name Content :=
  { store with
    taken := insert name store.taken
    versions := Function.update store.versions name (some content) }

end Operations

/-- The session works on this copy from now on. -/
def checkOut (store : VersionStore Name Content) (session : ℕ)
    (copy : WorkingCopy Name Content) : VersionStore Name Content :=
  { store with copies := Function.update store.copies session (some copy) }

/-- The session is over. -/
def drop (store : VersionStore Name Content) (session : ℕ) : VersionStore Name Content :=
  { store with copies := Function.update store.copies session none }

/-- A session that may only read is over when it edits. -/
def edit (store : VersionStore Name Content) (session : ℕ) (change : Content → Content) :
    VersionStore Name Content :=
  match store.copies session with
  | none => store
  | some copy =>
      if copy.readOnly = true then store.drop session
      else store.checkOut session { copy with content := change copy.content }

variable [DecidableEq Name]

/-- The copy is written to another name. -/
def publish (store : VersionStore Name Content) (session : ℕ) (name : Name) :
    VersionStore Name Content :=
  match store.copies session with
  | none => store
  | some copy => store.put name copy.content

/-- The copy is written back to its version. -/
def commit (store : VersionStore Name Content) (session : ℕ) : VersionStore Name Content :=
  match store.copies session with
  | none => store
  | some copy => store.put copy.name copy.content

/-- Something failed that would have made versions under these names: whatever was in use is as
it was. -/
def Fails (store : VersionStore Name Content) (names : Set Name)
    (store' : VersionStore Name Content) : Prop :=
  store'.copies = store.copies ∧ ∀ name, (name ∈ names → name ∈ store.taken) →
    (name ∈ store'.taken ↔ name ∈ store.taken) ∧ store'.versions name = store.versions name

/-! ## What is checked out is there -/

/-- Every session works on a copy of a version that can be read. -/
def Kept (store : VersionStore Name Content) : Prop :=
  ∀ session copy, store.copies session = some copy →
    copy.name ∈ store.taken ∧ (store.versions copy.name).isSome

variable {store store' : VersionStore Name Content} {session other : ℕ} {name : Name}
variable {content : Content} {copy : WorkingCopy Name Content}

theorem versions_put_self : (store.put name content).versions name = some content :=
  Function.update_self _ _ _

theorem versions_put_of_ne {version : Name} (hother : version ≠ name) :
    (store.put name content).versions version = store.versions version :=
  Function.update_of_ne hother _ _

theorem mem_taken_put_of_ne {version : Name} (hother : version ≠ name) :
    version ∈ (store.put name content).taken ↔ version ∈ store.taken := by
  constructor
  · intro htaken
    exact (Set.mem_insert_iff.mp htaken).resolve_left hother
  · exact Set.mem_insert_of_mem _

omit [DecidableEq Name] in
theorem copies_checkOut_self : (store.checkOut session copy).copies session = some copy :=
  Function.update_self _ _ _

omit [DecidableEq Name] in
theorem copies_checkOut_of_ne (hother : other ≠ session) :
    (store.checkOut session copy).copies other = store.copies other :=
  Function.update_of_ne hother _ _

omit [DecidableEq Name] in
theorem copies_drop_self : (store.drop session).copies session = none :=
  Function.update_self _ _ _

omit [DecidableEq Name] in
theorem copies_drop_of_ne (hother : other ≠ session) :
    (store.drop session).copies other = store.copies other :=
  Function.update_of_ne hother _ _

omit [DecidableEq Name] in
theorem drop_eq_self (hnone : store.copies session = none) : store.drop session = store := by
  have hcopies : Function.update store.copies session none = store.copies := by
    rw [← hnone]
    exact Function.update_eq_self _ _
  rw [drop, hcopies]

theorem Kept.put (hkept : store.Kept) : (store.put name content).Kept := by
  intro session copy hcopy
  obtain ⟨htaken, hversion⟩ := hkept session copy hcopy
  refine ⟨Set.mem_insert_of_mem _ htaken, ?_⟩
  by_cases hname : copy.name = name
  · rw [hname, versions_put_self]
    rfl
  · rw [versions_put_of_ne hname]
    exact hversion

omit [DecidableEq Name] in
theorem Kept.checkOut (hkept : store.Kept) (htaken : copy.name ∈ store.taken)
    (hversion : (store.versions copy.name).isSome) : (store.checkOut session copy).Kept := by
  intro other copy' hcopy'
  by_cases hother : other = session
  · rw [hother, copies_checkOut_self, Option.some.injEq] at hcopy'
    rw [← hcopy']
    exact ⟨htaken, hversion⟩
  · exact hkept other copy' ((copies_checkOut_of_ne hother).symm.trans hcopy')

omit [DecidableEq Name] in
theorem Kept.drop (hkept : store.Kept) : (store.drop session).Kept := by
  intro other copy' hcopy'
  by_cases hother : other = session
  · rw [hother, copies_drop_self] at hcopy'
    cases hcopy'
  · exact hkept other copy' ((copies_drop_of_ne hother).symm.trans hcopy')

omit [DecidableEq Name] in
theorem Kept.fails (hkept : store.Kept) {names : Set Name} (hfails : store.Fails names store') :
    store'.Kept := by
  intro other copy' hcopy'
  obtain ⟨hcopies, hnames⟩ := hfails
  obtain ⟨htaken, hversion⟩ := hkept other copy' (hcopies ▸ hcopy')
  obtain ⟨hsame, hcontent⟩ := hnames copy'.name fun _ => htaken
  exact ⟨hsame.mpr htaken, hcontent ▸ hversion⟩

end VersionStore

end Privateer
