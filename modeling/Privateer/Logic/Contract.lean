import Privateer.Logic.Program

/-!
# Rely and guarantee for programs over system calls

Several threads run programs against one shared state.  An `Interface` says how
the state answers a request, which resources a reply hands to the caller, and
when two states agree on a resource.  A `Contract` adds what a thread tolerates
from the others and what each of its own steps promises them.  `Contract.ensures`
is the weakest precondition of a program under a contract: it holds however the
steps of other threads fall between its calls.
-/

namespace Privateer

/-- How a shared state answers requests, with the resources that replies hand
out.  A resource handed out is new: nobody held it before. -/
structure Interface (Call : Type) (Reply : Call → Type) (State Resource : Type) where
  answers : (call : Call) → State → Reply call → State → Prop
  gains : (call : Call) → Reply call → Set Resource
  allocated : State → Set Resource
  agrees : Resource → State → State → Prop
  agrees_refl : ∀ resource state, agrees resource state state
  agrees_trans : ∀ resource first second third,
    agrees resource first second → agrees resource second third →
      agrees resource first third
  gains_fresh : ∀ call state reply state', answers call state reply state' →
    Disjoint (gains call reply) (allocated state)
  gains_allocated : ∀ call state reply state', answers call state reply state' →
    gains call reply ⊆ allocated state'

/-- A state that one program uses alone hands out nothing. -/
def Interface.alone {Call : Type} {Reply : Call → Type} {State : Type}
    (answers : (call : Call) → State → Reply call → State → Prop) :
    Interface Call Reply State Empty where
  answers := answers
  gains := fun _ _ => ∅
  allocated := fun _ => ∅
  agrees := fun _ _ _ => True
  agrees_refl := fun _ _ => trivial
  agrees_trans := fun _ _ _ _ _ _ => trivial
  gains_fresh := fun _ _ _ _ _ => Set.empty_disjoint _
  gains_allocated := fun _ _ _ _ _ => subset_rfl

/-- What a thread accepts from the others, what its own steps promise, and
whether it may terminate the process. -/
structure Contract {Call : Type} {Reply : Call → Type} {State Resource : Type}
    (interface : Interface Call Reply State Resource) where
  tolerates : State → State → Prop
  promises : State → State → Prop
  mayExit : Prop
  tolerates_refl : ∀ state, tolerates state state
  tolerates_trans : ∀ first second third,
    tolerates first second → tolerates second third → tolerates first third
  promises_refl : ∀ state, promises state state
  promises_trans : ∀ first second third,
    promises first second → promises second third → promises first third

namespace Contract

variable {Call : Type} {Reply : Call → Type} {State Resource A B : Type}
variable {interface : Interface Call Reply State Resource}

/-- Steps of the other threads, seen by the holder of `owned`. -/
structure Rely (contract : Contract interface) (owned : Set Resource)
    (state state' : State) : Prop where
  tolerated : contract.tolerates state state'
  allocated : interface.allocated state ⊆ interface.allocated state'
  owned : ∀ resource ∈ owned, interface.agrees resource state state'

/-- A step of the holder of `owned`: whatever was allocated and is not its own
stays as it was. -/
structure Guarantee (contract : Contract interface) (owned : Set Resource)
    (state state' : State) : Prop where
  promised : contract.promises state state'
  allocated : interface.allocated state ⊆ interface.allocated state'
  others : ∀ resource ∈ interface.allocated state, resource ∉ owned →
    interface.agrees resource state state'

variable {contract : Contract interface}

theorem Rely.refl (owned : Set Resource) (state : State) :
    contract.Rely owned state state :=
  ⟨contract.tolerates_refl state, subset_rfl,
    fun resource _ => interface.agrees_refl resource state⟩

theorem Rely.trans {owned : Set Resource} {first second third : State}
    (hfirst : contract.Rely owned first second)
    (hsecond : contract.Rely owned second third) :
    contract.Rely owned first third where
  tolerated := contract.tolerates_trans _ _ _ hfirst.tolerated hsecond.tolerated
  allocated := hfirst.allocated.trans hsecond.allocated
  owned := fun resource hresource => interface.agrees_trans _ _ _ _
    (hfirst.owned resource hresource) (hsecond.owned resource hresource)

theorem Rely.anti {smaller larger : Set Resource} {state state' : State}
    (hrely : contract.Rely larger state state') (hsubset : smaller ⊆ larger) :
    contract.Rely smaller state state' :=
  ⟨hrely.tolerated, hrely.allocated,
    fun resource hresource => hrely.owned resource (hsubset hresource)⟩

theorem Guarantee.refl (owned : Set Resource) (state : State) :
    contract.Guarantee owned state state :=
  ⟨contract.promises_refl state, subset_rfl,
    fun resource _ _ => interface.agrees_refl resource state⟩

theorem Guarantee.mono {smaller larger : Set Resource} {state state' : State}
    (hstep : contract.Guarantee smaller state state')
    (hsubset : smaller ⊆ larger) : contract.Guarantee larger state state' :=
  ⟨hstep.promised, hstep.allocated, fun resource hallocated hresource =>
    hstep.others resource hallocated fun hsmall => hresource (hsubset hsmall)⟩

/-- A contract whose promises are enough for what it tolerates can be held by
several threads at once. -/
def Mutual (contract : Contract interface) : Prop :=
  ∀ state state', contract.promises state state' → contract.tolerates state state'

/-- A step of one thread is a step of the environment for a thread that holds
other resources. -/
theorem Guarantee.rely (hmutual : contract.Mutual) {mine others : Set Resource}
    {state state' : State} (hstep : contract.Guarantee mine state state')
    (hdisjoint : Disjoint mine others)
    (hallocated : others ⊆ interface.allocated state) :
    contract.Rely others state state' where
  tolerated := hmutual _ _ hstep.promised
  allocated := hstep.allocated
  owned := fun resource hresource => hstep.others resource (hallocated hresource)
    fun hmine => Set.disjoint_left.mp hdisjoint hmine hresource

/-- The program ends only in results with `post`, and each of its steps keeps
the guarantee, when it starts with `owned` and other threads keep the rely. -/
def ensures (contract : Contract interface) :
    Program Call Reply A → (A → Set Resource → State → Prop) →
      Set Resource → State → Prop
  | .finish result, post, owned, state =>
      ∀ state', contract.Rely owned state state' → post result owned state'
  | .exit, _, _, _ => contract.mayExit
  | .undefined, _, _, _ => False
  | .call call next, post, owned, state =>
      ∀ before, contract.Rely owned state before →
        ∀ reply after, interface.answers call before reply after →
          contract.Guarantee owned before after ∧
            ensures contract (next reply) post
              (owned ∪ interface.gains call reply) after

theorem ensures_stable {program : Program Call Reply A}
    {post : A → Set Resource → State → Prop} {owned : Set Resource}
    {state state' : State} (hensures : contract.ensures program post owned state)
    (hrely : contract.Rely owned state state') :
    contract.ensures program post owned state' := by
  cases program with
  | finish result => exact fun after hafter => hensures after (hrely.trans hafter)
  | exit => exact hensures
  | undefined => exact hensures
  | call call next =>
      exact fun before hbefore => hensures before (hrely.trans hbefore)

theorem ensures_mono {program : Program Call Reply A}
    {post post' : A → Set Resource → State → Prop} {owned : Set Resource}
    {state : State} (hensures : contract.ensures program post owned state)
    (himplies : ∀ result owned' state', post result owned' state' →
      post' result owned' state') :
    contract.ensures program post' owned state := by
  induction program generalizing owned state with
  | finish result =>
      exact fun state' hrely => himplies _ _ _ (hensures state' hrely)
  | exit => exact hensures
  | undefined => exact hensures
  | call call next ih =>
      intro before hbefore reply after hanswers
      obtain ⟨hstep, hnext⟩ := hensures before hbefore reply after hanswers
      exact ⟨hstep, ih reply hnext⟩

/-- Sequencing: the second program starts wherever the first one ends. -/
theorem ensures_bind {program : Program Call Reply A}
    {next : A → Program Call Reply B} {post : B → Set Resource → State → Prop}
    {owned : Set Resource} {state : State}
    (hensures : contract.ensures program
      (fun result owned' state' => contract.ensures (next result) post owned' state')
      owned state) :
    contract.ensures (program >>= next) post owned state := by
  induction program generalizing owned state with
  | finish result => exact hensures state (Rely.refl owned state)
  | exit => exact hensures
  | undefined => exact hensures
  | call call rest ih =>
      intro before hbefore reply after hanswers
      obtain ⟨hstep, hrest⟩ := hensures before hbefore reply after hanswers
      exact ⟨hstep, ih reply hrest⟩

/-- Sequencing after a program with a known postcondition. -/
theorem ensures_bind_of {program : Program Call Reply A}
    {next : A → Program Call Reply B} {middle : A → Set Resource → State → Prop}
    {post : B → Set Resource → State → Prop} {owned : Set Resource} {state : State}
    (hfirst : contract.ensures program middle owned state)
    (hnext : ∀ result owned' state', middle result owned' state' →
      contract.ensures (next result) post owned' state') :
    contract.ensures (program >>= next) post owned state :=
  ensures_bind (ensures_mono hfirst hnext)

/-- A request that hands out nothing. -/
theorem ensures_call {call : Call} {next : Reply call → Program Call Reply A}
    {post : A → Set Resource → State → Prop} {owned : Set Resource} {state : State}
    (hgains : ∀ reply, interface.gains call reply = ∅)
    (hcall : ∀ before, contract.Rely owned state before →
      ∀ reply after, interface.answers call before reply after →
        contract.Guarantee owned before after ∧
          contract.ensures (next reply) post owned after) :
    contract.ensures (.call call next) post owned state := by
  intro before hbefore reply after hanswers
  rw [hgains reply, Set.union_empty]
  exact hcall before hbefore reply after hanswers

/-- The rule of constancy: resources that a program does not hold stay as they
are while it runs. -/
theorem ensures_frame (hmutual : contract.Mutual) {program : Program Call Reply A}
    {post : A → Set Resource → State → Prop} {owned framed : Set Resource}
    {state : State} (hdisjoint : Disjoint owned framed)
    (hallocated : framed ⊆ interface.allocated state)
    (hensures : contract.ensures program post owned state) :
    contract.ensures program
      (fun result owned' state' => ∃ mine, owned' = mine ∪ framed ∧
        Disjoint mine framed ∧ post result mine state' ∧
          contract.Rely framed state state')
      (owned ∪ framed) state := by
  suffices haux : ∀ origin, contract.Rely framed origin state →
      contract.ensures program
        (fun result owned' state' => ∃ mine, owned' = mine ∪ framed ∧
          Disjoint mine framed ∧ post result mine state' ∧
            contract.Rely framed origin state')
        (owned ∪ framed) state from haux state (Rely.refl framed state)
  intro origin horigin
  induction program generalizing owned state with
  | finish result =>
      intro state' hrely
      exact ⟨owned, rfl, hdisjoint,
        hensures state' (hrely.anti Set.subset_union_left),
        horigin.trans (hrely.anti Set.subset_union_right)⟩
  | exit => exact hensures
  | undefined => exact hensures
  | call call next ih =>
      intro before hbefore reply after hanswers
      obtain ⟨hstep, hnext⟩ := hensures before
        (hbefore.anti Set.subset_union_left) reply after hanswers
      have hframed : framed ⊆ interface.allocated before :=
        hallocated.trans hbefore.allocated
      have hkept : contract.Rely framed before after :=
        hstep.rely hmutual hdisjoint hframed
      have hgained : Disjoint (owned ∪ interface.gains call reply) framed :=
        Set.disjoint_union_left.mpr ⟨hdisjoint,
          (interface.gains_fresh _ _ _ _ hanswers).mono_right hframed⟩
      refine ⟨hstep.mono Set.subset_union_left, ?_⟩
      rw [Set.union_right_comm]
      exact ih reply hgained (hframed.trans hkept.allocated) hnext
        ((horigin.trans (hbefore.anti Set.subset_union_right)).trans hkept)

/-- A program that needs nothing leaves all that its caller holds alone. -/
theorem ensures_frame_all (hmutual : contract.Mutual) {program : Program Call Reply A}
    {post : A → Set Resource → State → Prop} {owned : Set Resource} {state : State}
    (hallocated : owned ⊆ interface.allocated state)
    (hensures : contract.ensures program post ∅ state) :
    contract.ensures program
      (fun result owned' state' => ∃ mine, owned' = mine ∪ owned ∧
        Disjoint mine owned ∧ post result mine state' ∧
          contract.Rely owned state state')
      owned state := by
  have hframed := ensures_frame hmutual (Set.empty_disjoint owned) hallocated hensures
  rwa [Set.empty_union] at hframed

/-- A program that needs one resource leaves the caller's other ones alone. -/
theorem ensures_frame_one (hmutual : contract.Mutual) {program : Program Call Reply A}
    {post : A → Set Resource → State → Prop} {owned : Set Resource} {resource : Resource}
    {state : State} (hresource : resource ∈ owned)
    (hallocated : owned ⊆ interface.allocated state)
    (hensures : contract.ensures program post {resource} state) :
    contract.ensures program
      (fun result owned' state' => owned \ {resource} ⊆ owned' ∧
        (∃ mine, post result mine state') ∧
          contract.Rely (owned \ {resource}) state state')
      owned state := by
  have hframed := ensures_frame hmutual Set.disjoint_sdiff_right
    (Set.sdiff_subset.trans hallocated) hensures
  rw [Set.union_sdiff_cancel (Set.singleton_subset_iff.mpr hresource)] at hframed
  apply ensures_mono hframed
  rintro result owned' state' ⟨mine, rfl, -, hpost, hrely⟩
  exact ⟨Set.subset_union_right, ⟨mine, hpost⟩, hrely⟩

/-- Holding more resources than the program needs does no harm. -/
theorem ensures_enlarge {program : Program Call Reply A}
    {post : A → Set Resource → State → Prop} {owned larger : Set Resource}
    {state : State} (hensures : contract.ensures program post owned state)
    (hsubset : owned ⊆ larger) :
    contract.ensures program
      (fun result larger' state' => ∃ owned' ⊆ larger', post result owned' state')
      larger state := by
  induction program generalizing owned larger state with
  | finish result =>
      exact fun state' hrely => ⟨owned, hsubset, hensures state' (hrely.anti hsubset)⟩
  | exit => exact hensures
  | undefined => exact hensures
  | call call next ih =>
      intro before hbefore reply after hanswers
      obtain ⟨hstep, hnext⟩ := hensures before (hbefore.anti hsubset) reply after hanswers
      exact ⟨hstep.mono hsubset, ih reply hnext (Set.union_subset_union_left _ hsubset)⟩

/-- What a program holds stays allocated. -/
theorem ensures_allocated {program : Program Call Reply A}
    {post : A → Set Resource → State → Prop} {owned : Set Resource} {state : State}
    (hallocated : owned ⊆ interface.allocated state)
    (hensures : contract.ensures program post owned state) :
    contract.ensures program
      (fun result owned' state' => post result owned' state' ∧
        owned' ⊆ interface.allocated state')
      owned state := by
  induction program generalizing owned state with
  | finish result =>
      exact fun state' hrely => ⟨hensures state' hrely, hallocated.trans hrely.allocated⟩
  | exit => exact hensures
  | undefined => exact hensures
  | call call next ih =>
      intro before hbefore reply after hanswers
      obtain ⟨hstep, hnext⟩ := hensures before hbefore reply after hanswers
      refine ⟨hstep, ih reply ?_ hnext⟩
      exact Set.union_subset
        ((hallocated.trans hbefore.allocated).trans hstep.allocated)
        (interface.gains_allocated _ _ _ _ hanswers)

/-- Nothing that a program holds is taken from it. -/
theorem ensures_owned {program : Program Call Reply A}
    {post : A → Set Resource → State → Prop} {owned : Set Resource} {state : State}
    (hensures : contract.ensures program post owned state) :
    contract.ensures program
      (fun result owned' state' => post result owned' state' ∧ owned ⊆ owned')
      owned state := by
  suffices haux : ∀ held, held ⊆ owned → contract.ensures program
      (fun result owned' state' => post result owned' state' ∧ held ⊆ owned')
      owned state from haux owned subset_rfl
  intro held hheld
  induction program generalizing owned state with
  | finish result => exact fun state' hrely => ⟨hensures state' hrely, hheld⟩
  | exit => exact hensures
  | undefined => exact hensures
  | call call next ih =>
      intro before hbefore reply after hanswers
      obtain ⟨hstep, hnext⟩ := hensures before hbefore reply after hanswers
      exact ⟨hstep, ih reply hnext (hheld.trans Set.subset_union_left)⟩

/-- A property that no tolerated step spoils still holds when the program ends. -/
theorem ensures_keep (hmutual : contract.Mutual) {kept : State → Prop}
    (hkept : ∀ state state', contract.tolerates state state' → kept state → kept state')
    {program : Program Call Reply A} {post : A → Set Resource → State → Prop}
    {owned : Set Resource} {state : State} (hstate : kept state)
    (hensures : contract.ensures program post owned state) :
    contract.ensures program
      (fun result owned' state' => post result owned' state' ∧ kept state')
      owned state := by
  induction program generalizing owned state with
  | finish result =>
      exact fun state' hrely =>
        ⟨hensures state' hrely, hkept _ _ hrely.tolerated hstate⟩
  | exit => exact hensures
  | undefined => exact hensures
  | call call next ih =>
      intro before hbefore reply after hanswers
      obtain ⟨hstep, hnext⟩ := hensures before hbefore reply after hanswers
      have hafter := hkept _ _ (hmutual _ _ hstep.promised)
        (hkept _ _ hbefore.tolerated hstate)
      exact ⟨hstep, ih reply hafter hnext⟩

/-- A program kept under one contract is kept under another that tolerates
less, promises less and may exit when the first may. -/
theorem ensures_weaken {weaker : Contract interface}
    (htolerates : ∀ state state', weaker.tolerates state state' →
      contract.tolerates state state')
    (hpromises : ∀ state state', contract.promises state state' →
      weaker.promises state state')
    (hexit : contract.mayExit → weaker.mayExit)
    {program : Program Call Reply A} {post : A → Set Resource → State → Prop}
    {owned : Set Resource} {state : State}
    (hensures : contract.ensures program post owned state) :
    weaker.ensures program post owned state := by
  have hrely : ∀ {owned state state'}, weaker.Rely owned state state' →
      contract.Rely owned state state' := fun h =>
    ⟨htolerates _ _ h.tolerated, h.allocated, h.owned⟩
  induction program generalizing owned state with
  | finish result => exact fun state' h => hensures state' (hrely h)
  | exit => exact hexit hensures
  | undefined => exact hensures
  | call call next ih =>
      intro before hbefore reply after hanswers
      obtain ⟨hstep, hnext⟩ := hensures before (hrely hbefore) reply after hanswers
      exact ⟨⟨hpromises _ _ hstep.promised, hstep.allocated, hstep.others⟩,
        ih reply hnext⟩

/-- A program kept under one contract is kept under one that promises more, if each of
its calls keeps the rest. -/
theorem ensures_strengthen {stronger : Contract interface} {allowed : Call → Prop}
    (htolerates : ∀ state state', stronger.tolerates state state' →
      contract.tolerates state state')
    (hpromises : ∀ call state reply state', allowed call →
      interface.answers call state reply state' → contract.promises state state' →
        stronger.promises state state')
    (hexit : contract.mayExit → stronger.mayExit)
    {program : Program Call Reply A} (hcalls : program.CallsOnly allowed)
    {post : A → Set Resource → State → Prop} {owned : Set Resource} {state : State}
    (hensures : contract.ensures program post owned state) :
    stronger.ensures program post owned state := by
  have hrely : ∀ {owned state state'}, stronger.Rely owned state state' →
      contract.Rely owned state state' := fun h =>
    ⟨htolerates _ _ h.tolerated, h.allocated, h.owned⟩
  induction program generalizing owned state with
  | finish result => exact fun state' h => hensures state' (hrely h)
  | exit => exact hexit hensures
  | undefined => exact hensures
  | call call next ih =>
      intro before hbefore reply after hanswers
      obtain ⟨hstep, hnext⟩ := hensures before (hrely hbefore) reply after hanswers
      refine ⟨⟨?_, hstep.allocated, hstep.others⟩, ih reply (hcalls.2 reply) hnext⟩
      exact hpromises call before reply after hcalls.1 hanswers hstep.promised

/-! ## A program that runs alone -/

/-- What a program ensures is true of its sequential run: it does not end
undefined, exits only where the contract lets it, and a returned result has the
postcondition. -/
theorem run_of_ensures {answer : (call : Call) → State → Reply call × State}
    (hanswer : ∀ call state, interface.answers call state
      (answer call state).1 (answer call state).2)
    {program : Program Call Reply A} {post : A → Set Resource → State → Prop}
    {owned : Set Resource} {state : State}
    (hensures : contract.ensures program post owned state) :
    (∃ result state' owned', program.run answer state = (.returned result, state') ∧
        post result owned' state' ∧ contract.Guarantee owned state state') ∨
      (contract.mayExit ∧ ∃ state', program.run answer state = (.exited, state') ∧
        contract.Guarantee owned state state') := by
  suffices haux : ∀ origin more, contract.Guarantee owned origin state →
      (∀ resource ∈ interface.allocated origin, resource ∉ owned → resource ∉ more) →
      contract.ensures program post more state →
      (∃ result state' owned', program.run answer state = (.returned result, state') ∧
          post result owned' state' ∧ contract.Guarantee owned origin state') ∨
        (contract.mayExit ∧ ∃ state', program.run answer state = (.exited, state') ∧
          contract.Guarantee owned origin state') from
    haux state owned (Guarantee.refl owned state) (fun _ _ h => h) hensures
  clear hensures
  induction program generalizing state with
  | finish result =>
      intro origin more horigin _ hensures
      exact .inl ⟨result, state, more, rfl, hensures state (Rely.refl more state), horigin⟩
  | exit =>
      intro origin more horigin _ hensures
      exact .inr ⟨hensures, state, rfl, horigin⟩
  | undefined => exact fun _ _ _ _ hensures => hensures.elim
  | call call next ih =>
      intro origin more horigin hnew hensures
      have hanswers := hanswer call state
      obtain ⟨hstep, hnext⟩ := hensures state (Rely.refl more state) _ _ hanswers
      have hafter : contract.Guarantee owned origin (answer call state).2 :=
        ⟨contract.promises_trans _ _ _ horigin.promised hstep.promised,
          horigin.allocated.trans hstep.allocated,
          fun resource hallocated hresource => interface.agrees_trans _ _ _ _
            (horigin.others resource hallocated hresource)
            (hstep.others resource (horigin.allocated hallocated)
              (hnew resource hallocated hresource))⟩
      -- What the reply hands out was not allocated, so it is nobody else's.
      refine ih _ origin _ hafter ?_ hnext
      rintro resource hallocated hresource (hold | hgained)
      · exact hnew resource hallocated hresource hold
      · exact Set.disjoint_left.mp (interface.gains_fresh _ _ _ _ hanswers) hgained
          (horigin.allocated hallocated)

/-- What a program ensures is true however it is answered: it does not end undefined,
has kept its guarantee wherever it ends, and a returned result has the postcondition.  What
it then holds it held before, or it is new. -/
theorem runsTo_of_ensures_guarantee {program : Program Call Reply A}
    {post : A → Set Resource → State → Prop} {owned : Set Resource} {state state' : State}
    {outcome : Outcome A} (hensures : contract.ensures program post owned state)
    (hruns : program.RunsTo interface.answers state outcome state') :
    contract.Guarantee owned state state' ∧ outcome ≠ .undefined ∧
      ∀ result, outcome = .returned result → ∃ owned', post result owned' state' ∧
        ∀ resource ∈ owned', resource ∈ interface.allocated state → resource ∈ owned := by
  suffices haux : ∀ origin more, contract.Guarantee owned origin state →
      (∀ resource ∈ more, resource ∈ interface.allocated origin → resource ∈ owned) →
      contract.ensures program post more state →
      contract.Guarantee owned origin state' ∧ outcome ≠ .undefined ∧
        ∀ result, outcome = .returned result → ∃ owned', post result owned' state' ∧
          ∀ resource ∈ owned', resource ∈ interface.allocated origin → resource ∈ owned from
    haux state owned (Guarantee.refl owned state) (fun _ h _ => h) hensures
  clear hensures
  induction program generalizing state with
  | finish result =>
      obtain ⟨rfl, rfl⟩ := hruns
      intro origin more horigin hnew hensures
      refine ⟨horigin, by simp, fun result' hresult => ?_⟩
      cases hresult
      exact ⟨more, hensures _ (Rely.refl more _), hnew⟩
  | exit =>
      obtain ⟨rfl, rfl⟩ := hruns
      exact fun _ _ horigin _ _ => ⟨horigin, by simp, by simp⟩
  | undefined => exact fun _ _ _ _ hensures => hensures.elim
  | call call next ih =>
      intro origin more horigin hnew hensures
      rcases hruns with ⟨rfl, rfl⟩ | ⟨reply, between, hanswers, hrest⟩
      · exact ⟨horigin, by simp, by simp⟩
      · obtain ⟨hstep, hnext⟩ := hensures state (Rely.refl more state) reply between hanswers
        have hbetween : contract.Guarantee owned origin between :=
          ⟨contract.promises_trans _ _ _ horigin.promised hstep.promised,
            horigin.allocated.trans hstep.allocated,
            fun resource hallocated hresource => interface.agrees_trans _ _ _ _
              (horigin.others resource hallocated hresource)
              (hstep.others resource (horigin.allocated hallocated)
                fun hmore => hresource (hnew resource hmore hallocated))⟩
        refine ih reply hrest origin _ hbetween ?_ hnext
        rintro resource (hold | hgained) hallocated
        · exact hnew resource hold hallocated
        · exact absurd (horigin.allocated hallocated)
            (Set.disjoint_left.mp (interface.gains_fresh _ _ _ _ hanswers) hgained)

/-- The same without what the program holds. -/
theorem runsTo_of_ensures {program : Program Call Reply A}
    {post : A → Set Resource → State → Prop} {owned : Set Resource} {state state' : State}
    {outcome : Outcome A} (hensures : contract.ensures program post owned state)
    (hruns : program.RunsTo interface.answers state outcome state') :
    contract.promises state state' ∧ outcome ≠ .undefined ∧
      ∀ result, outcome = .returned result → ∃ owned', post result owned' state' := by
  obtain ⟨hguarantee, hdefined, hreturned⟩ := runsTo_of_ensures_guarantee hensures hruns
  refine ⟨hguarantee.promised, hdefined, fun result hresult => ?_⟩
  obtain ⟨owned', hpost, -⟩ := hreturned result hresult
  exact ⟨owned', hpost⟩

/-- Where nobody disturbs a program more than its own promises allow, its end is related
to its start by them. -/
theorem ensures_promises (htolerates : ∀ state state', contract.tolerates state state' →
      contract.promises state state')
    {program : Program Call Reply A} {post : A → Set Resource → State → Prop}
    {owned : Set Resource} {state : State}
    (hensures : contract.ensures program post owned state) :
    contract.ensures program
      (fun result owned' state' => post result owned' state' ∧ contract.promises state state')
      owned state := by
  suffices haux : ∀ origin, contract.promises origin state →
      contract.ensures program
        (fun result owned' state' => post result owned' state' ∧ contract.promises origin state')
        owned state from haux state (contract.promises_refl state)
  intro origin horigin
  induction program generalizing owned state with
  | finish result =>
      exact fun state' hrely => ⟨hensures state' hrely,
        contract.promises_trans _ _ _ horigin (htolerates _ _ hrely.tolerated)⟩
  | exit => exact hensures
  | undefined => exact hensures
  | call call next ih =>
      intro before hbefore reply after hanswers
      obtain ⟨hstep, hnext⟩ := hensures before hbefore reply after hanswers
      refine ⟨hstep, ih reply hnext ?_⟩
      exact contract.promises_trans _ _ _ horigin
        (contract.promises_trans _ _ _ (htolerates _ _ hbefore.tolerated) hstep.promised)

/-- The contract of a program that nobody disturbs. -/
def alone (answers : (call : Call) → State → Reply call → State → Prop)
    (promises : State → State → Prop) (hrefl : ∀ state, promises state state)
    (htrans : ∀ first second third,
      promises first second → promises second third → promises first third) :
    Contract (Interface.alone answers) where
  tolerates := Eq
  promises := promises
  mayExit := True
  tolerates_refl := fun _ => rfl
  tolerates_trans := fun _ _ _ => Eq.trans
  promises_refl := hrefl
  promises_trans := htrans

end Contract

end Privateer
