import Privateer.Logic.Contract
import Privateer.Logic.Runs

/-!
# Interleaved workers

A routine that starts workers and waits for all of them behaves as some
interleaving of their programs, call by call.  `interleave schedule pool` is the
interleaving that a schedule picks; every interleaving has a schedule.  The
parallel rule proves the workers one by one and concludes for every schedule.
-/

namespace Privateer

namespace Program

variable {Call : Type} {Reply : Call → Type} {Label A : Type}

/-- Run the workers one after the other. -/
def inOrder : List (Label × Program Call Reply A) →
    Program Call Reply (List (Label × A))
  | [] => .finish []
  | worker :: pool => do
      let result ← worker.2
      let results ← inOrder pool
      return (worker.1, result) :: results

/-- Run the workers interleaved: each number of the schedule picks the worker
that makes the next call, and the workers left at the end of the schedule run in
order.  Results come in the order in which the workers end. -/
def interleave : List ℕ → List (Label × Program Call Reply A) →
    Program Call Reply (List (Label × A))
  | [], pool => inOrder pool
  | pick :: schedule, pool =>
      match pool[pick % pool.length]? with
      | none => .finish []
      | some (label, .finish result) => do
          let results ← interleave schedule (pool.eraseIdx (pick % pool.length))
          return (label, result) :: results
      | some (_, .exit) => .exit
      | some (_, .undefined) => .undefined
      | some (label, .call request next) => .call request fun reply =>
          interleave schedule (pool.set (pick % pool.length) (label, next reply))

/-- The order in which workers that run under one lock get it: each number of the
schedule picks the next one, and those left at its end come in order. -/
def arrange {A : Type*} : List ℕ → List A → List A
  | [], workers => workers
  | pick :: schedule, workers =>
      match workers[pick % workers.length]? with
      | none => []
      | some worker => worker :: arrange schedule (workers.eraseIdx (pick % workers.length))

@[simp]
theorem interleave_nil (schedule : List ℕ) :
    interleave schedule ([] : List (Label × Program Call Reply A)) = .finish [] := by
  cases schedule with
  | nil => rfl
  | cons pick schedule => rfl

@[simp]
theorem arrange_nil {A : Type*} (schedule : List ℕ) : arrange schedule ([] : List A) = [] := by
  cases schedule with
  | nil => rfl
  | cons pick schedule => rfl

theorem arrange_perm {A : Type*} (schedule : List ℕ) (workers : List A) :
    (arrange schedule workers).Perm workers := by
  induction schedule generalizing workers with
  | nil => exact .refl _
  | cons pick schedule ih =>
      rw [arrange]
      by_cases hempty : workers = []
      · subst hempty
        exact .refl _
      have hsite : pick % workers.length < workers.length :=
        Nat.mod_lt _ (List.length_pos_of_ne_nil hempty)
      rw [List.getElem?_eq_getElem hsite]
      exact ((ih _).cons _).trans (List.getElem_cons_eraseIdx_perm hsite)

theorem returns_inOrder {pool : List (Label × Program Call Reply A)}
    {results : List (Label × A)} (hreturns : (inOrder pool).Returns results) :
    results.map Prod.fst = pool.map Prod.fst := by
  induction pool generalizing results with
  | nil =>
      cases hreturns
      rfl
  | cons worker pool ih =>
      obtain ⟨result, -, hrest⟩ := returns_bind.mp hreturns
      obtain ⟨others, hothers, rfl⟩ := returns_bind.mp hrest
      rw [List.map_cons, List.map_cons, ih hothers]

/-- Every worker gives one result. -/
theorem returns_interleave {schedule : List ℕ} {pool : List (Label × Program Call Reply A)}
    {results : List (Label × A)} (hreturns : (interleave schedule pool).Returns results) :
    (results.map Prod.fst).Perm (pool.map Prod.fst) := by
  induction schedule generalizing pool results with
  | nil =>
      rw [returns_inOrder hreturns]
  | cons pick schedule ih =>
      rw [interleave] at hreturns
      by_cases hempty : pool = []
      · subst hempty
        cases hreturns
        rfl
      have hsite : pick % pool.length < pool.length :=
        Nat.mod_lt _ (List.length_pos_of_ne_nil hempty)
      generalize pick % pool.length = site at hsite hreturns
      rw [List.getElem?_eq_getElem hsite] at hreturns
      cases hworker : pool[site] with
      | mk label program =>
          rw [hworker] at hreturns
          cases program with
          | finish result =>
              obtain ⟨others, hothers, rfl⟩ := returns_bind.mp hreturns
              have hlabels := (List.getElem_cons_eraseIdx_perm hsite).map Prod.fst
              rw [hworker] at hlabels
              exact ((ih hothers).cons label).trans hlabels
          | exit => exact hreturns.elim
          | undefined => exact hreturns.elim
          | call request next =>
              obtain ⟨reply, hnext⟩ := hreturns
              have hsame : (pool.set site (label, next reply)).map Prod.fst =
                  pool.map Prod.fst := by
                have hlabel : (pool.map Prod.fst).get ⟨site, by simpa using hsite⟩ = label := by
                  simp [hworker]
                rw [List.map_set, ← hlabel]
                exact List.set_getElem_self _
              rw [← hsame]
              exact ih hnext

theorem exists_returns_of_inOrder {pool : List (Label × Program Call Reply A)}
    {results : List (Label × A)} (hreturns : (inOrder pool).Returns results) :
    ∀ worker ∈ pool, ∃ result, worker.2.Returns result := by
  induction pool generalizing results with
  | nil => exact fun worker hworker => absurd hworker List.not_mem_nil
  | cons first pool ih =>
      obtain ⟨result, hfirst, hrest⟩ := returns_bind.mp hreturns
      obtain ⟨others, hothers, -⟩ := returns_bind.mp hrest
      intro worker hworker
      rcases List.mem_cons.mp hworker with rfl | hlater
      · exact ⟨result, hfirst⟩
      · exact ih hothers worker hlater

/-- Workers only all end if each of them can. -/
theorem exists_returns_of_interleave {schedule : List ℕ}
    {pool : List (Label × Program Call Reply A)} {results : List (Label × A)}
    (hreturns : (interleave schedule pool).Returns results) :
    ∀ worker ∈ pool, ∃ result, worker.2.Returns result := by
  induction schedule generalizing pool results with
  | nil => exact exists_returns_of_inOrder hreturns
  | cons pick schedule ih =>
      rw [interleave] at hreturns
      by_cases hempty : pool = []
      · subst hempty
        exact fun worker hworker => absurd hworker List.not_mem_nil
      have hsite : pick % pool.length < pool.length :=
        Nat.mod_lt _ (List.length_pos_of_ne_nil hempty)
      generalize pick % pool.length = site at hsite hreturns
      rw [List.getElem?_eq_getElem hsite] at hreturns
      intro worker hworker
      obtain ⟨other, hother, rfl⟩ := List.getElem_of_mem hworker
      cases hpicked : pool[site] with
      | mk label program =>
          rw [hpicked] at hreturns
          cases program with
          | finish result =>
              obtain ⟨others, hothers, -⟩ := returns_bind.mp hreturns
              by_cases hsame : other = site
              · subst hsame
                exact ⟨result, by rw [hpicked]; rfl⟩
              · exact ih hothers _ (List.mem_eraseIdx_iff_getElem.mpr ⟨other, hother, hsame, rfl⟩)
          | exit => exact hreturns.elim
          | undefined => exact hreturns.elim
          | call request next =>
              obtain ⟨reply, hnext⟩ := hreturns
              have hall := ih hnext
              by_cases hsame : other = site
              · subst hsame
                obtain ⟨result, hresult⟩ := hall (label, next reply) (List.mem_set hsite _)
                exact ⟨result, by rw [hpicked]; exact ⟨reply, hresult⟩⟩
              · refine hall _ (List.mem_iff_getElem.mpr ⟨other, by simpa using hother, ?_⟩)
                exact List.getElem_set_ne (Ne.symm hsame) _

/-! ## The calls of a pool -/

variable {allowed : Call → Prop}

theorem callsOnly_inOrder {pool : List (Label × Program Call Reply A)}
    (hpool : ∀ worker ∈ pool, worker.2.CallsOnly allowed) : (inOrder pool).CallsOnly allowed := by
  induction pool with
  | nil => trivial
  | cons first pool ih =>
      apply (hpool first List.mem_cons_self).bind
      intro result
      exact (ih fun worker hworker => hpool worker (List.mem_cons_of_mem _ hworker)).bind
        fun _ => trivial

/-- The calls of an interleaving are those of its workers. -/
theorem callsOnly_interleave {schedule : List ℕ} {pool : List (Label × Program Call Reply A)}
    (hpool : ∀ worker ∈ pool, worker.2.CallsOnly allowed) :
    (interleave schedule pool).CallsOnly allowed := by
  induction schedule generalizing pool with
  | nil => exact callsOnly_inOrder hpool
  | cons pick schedule ih =>
      rw [interleave]
      generalize pick % pool.length = site
      cases hsite : pool[site]? with
      | none => trivial
      | some worker =>
          have hpicked := hpool worker (List.mem_of_getElem? hsite)
          obtain ⟨label, program⟩ := worker
          cases program with
          | finish result =>
              exact (ih fun worker hworker => hpool worker (List.mem_of_mem_eraseIdx hworker)).bind
                fun _ => trivial
          | exit => trivial
          | undefined => trivial
          | call request next =>
              refine ⟨hpicked.1, fun reply => ih fun worker hworker => ?_⟩
              rcases List.mem_or_eq_of_mem_set hworker with hold | rfl
              · exact hpool worker hold
              · exact hpicked.2 reply

end Program

namespace Contract

variable {Call : Type} {Reply : Call → Type} {State Resource Label A : Type}
variable {interface : Interface Call Reply State Resource}
variable {contract : Contract interface}

/-- A property of results that steps of other threads cannot spoil. -/
def Lasting (contract : Contract interface) (post : Label → A → State → Prop) :
    Prop :=
  ∀ label result state state', contract.tolerates state state' →
    post label result state → post label result state'

/-- A worker in progress: its label, the rest of its program and what it holds. -/
structure Worker (Call : Type) (Reply : Call → Type) (Label A Resource : Type) where
  label : Label
  program : Program Call Reply A
  owned : Set Resource

/-- Every worker will end in `post`, holds only allocated resources, and shares
none of them with another worker. -/
structure Pool (contract : Contract interface) (post : Label → A → State → Prop)
    (workers : List (Worker Call Reply Label A Resource)) (state : State) : Prop where
  ensures : ∀ worker ∈ workers, contract.ensures worker.program
    (fun result _ => post worker.label result) worker.owned state
  allocated : ∀ worker ∈ workers, worker.owned ⊆ interface.allocated state
  disjoint : workers.Pairwise fun left right => Disjoint left.owned right.owned

/-- Everything that some worker holds. -/
def poolOwned (workers : List (Worker Call Reply Label A Resource)) : Set Resource :=
  {resource | ∃ worker ∈ workers, resource ∈ worker.owned}

def Worker.entry (worker : Worker Call Reply Label A Resource) :
    Label × Program Call Reply A :=
  (worker.label, worker.program)

variable {post : Label → A → State → Prop}
variable {workers : List (Worker Call Reply Label A Resource)}

theorem Pool.stable {state state' : State} (hpool : contract.Pool post workers state)
    (hrely : ∀ worker ∈ workers, contract.Rely worker.owned state state') :
    contract.Pool post workers state' where
  ensures := fun worker hworker =>
    ensures_stable (hpool.ensures worker hworker) (hrely worker hworker)
  allocated := fun worker hworker =>
    (hpool.allocated worker hworker).trans (hrely worker hworker).allocated
  disjoint := hpool.disjoint

/-- All results are accounted for, one for each worker, and satisfy `post`. -/
def Collected (post : Label → A → State → Prop)
    (workers : List (Worker Call Reply Label A Resource))
    (results : List (Label × A)) (state : State) : Prop :=
  (results.map Prod.fst).Perm (workers.map Worker.label) ∧
    ∀ entry ∈ results, post entry.1 entry.2 state

theorem ensures_inOrder (hmutual : contract.Mutual) (hlasting : contract.Lasting post)
    {owned : Set Resource} {state : State} (hpool : contract.Pool post workers state)
    (howned : ∀ worker ∈ workers, worker.owned ⊆ owned) :
    contract.ensures (Program.inOrder (workers.map Worker.entry))
      (fun results _ => Collected post workers results) owned state := by
  induction workers generalizing owned state with
  | nil => exact fun _ _ => ⟨.refl _, by simp⟩
  | cons worker rest ih =>
      have hrest : contract.Pool post rest state :=
        ⟨fun other hother => hpool.ensures other (.tail _ hother),
          fun other hother => hpool.allocated other (.tail _ hother),
          hpool.disjoint.tail⟩
      have hdisjoint : Disjoint worker.owned (poolOwned rest) :=
        Set.disjoint_right.mpr fun resource ⟨other, hother, hresource⟩ hmine =>
          Set.disjoint_left.mp (List.rel_of_pairwise_cons hpool.disjoint hother)
            hmine hresource
      have hallocated : poolOwned rest ⊆ interface.allocated state :=
        fun resource ⟨other, hother, hresource⟩ => hrest.allocated other hother hresource
      have hsubset : worker.owned ∪ poolOwned rest ⊆ owned :=
        Set.union_subset (howned worker (.head _))
          fun resource ⟨other, hother, hresource⟩ =>
            howned other (.tail _ hother) hresource
      have hworker := ensures_enlarge (ensures_frame hmutual hdisjoint hallocated
        (hpool.ensures worker (.head _))) hsubset
      refine ensures_bind_of hworker ?_
      rintro result owned' state' ⟨held, hheld, mine, rfl, -, hresult, hkept⟩
      have hlater : contract.Pool post rest state' :=
        hrest.stable fun other hother =>
          hkept.anti fun resource hresource => ⟨other, hother, hresource⟩
      have howned' : ∀ other ∈ rest, other.owned ⊆ owned' :=
        fun other hother resource hresource =>
          hheld (.inr ⟨other, hother, hresource⟩)
      refine ensures_bind_of (ensures_keep hmutual
        (fun _ _ hstep => hlasting worker.label result _ _ hstep) hresult
        (ih hlater howned')) ?_
      rintro results owned'' state'' ⟨⟨hperm, hposts⟩, hposted⟩ after hafter
      refine ⟨hperm.cons worker.label, ?_⟩
      rintro entry (_ | ⟨_, hentry⟩)
      · exact hlasting _ _ _ _ hafter.tolerated hposted
      · exact hlasting _ _ _ _ hafter.tolerated (hposts entry hentry)

/-- What a worker becomes when its pending request is answered. -/
def Worker.resumed (interface : Interface Call Reply State Resource)
    (worker : Worker Call Reply Label A Resource) {request : Call}
    (next : Reply request → Program Call Reply A) (reply : Reply request) :
    Worker Call Reply Label A Resource :=
  { worker with
    program := next reply
    owned := worker.owned ∪ interface.gains request reply }

/-- Each worker keeps its label. -/
theorem labels_resumed {site : ℕ} (hsite : site < workers.length) {request : Call}
    (next : Reply request → Program Call Reply A) (reply : Reply request) :
    (workers.set site ((workers[site]).resumed interface next reply)).map Worker.label =
      workers.map Worker.label := by
  apply List.ext_getElem (by simp)
  intro index hindex _
  rw [List.getElem_map, List.getElem_map, List.getElem_set]
  by_cases hsame : site = index
  · subst hsame
    rw [if_pos rfl]
    rfl
  · rw [if_neg hsame]

theorem disjoint_of_ne
    (hdisjoint : workers.Pairwise fun left right => Disjoint left.owned right.owned)
    {left right : ℕ} (hleft : left < workers.length) (hright : right < workers.length)
    (hne : left ≠ right) :
    Disjoint (workers[left]).owned (workers[right]).owned := by
  have hpair := List.pairwise_iff_getElem.mp hdisjoint
  rcases Nat.lt_or_gt_of_ne hne with hlt | hgt
  · exact hpair left right hleft hright hlt
  · exact (hpair right left hright hleft hgt).symm

theorem mem_set_cases {site : ℕ} {replacement worker : Worker Call Reply Label A Resource}
    (hworker : worker ∈ workers.set site replacement) :
    worker = replacement ∨ ∃ other, ∃ hother : other < workers.length,
      site ≠ other ∧ worker = workers[other] := by
  obtain ⟨other, hother, rfl⟩ := List.getElem_of_mem hworker
  rw [List.length_set] at hother
  rw [List.getElem_set]
  by_cases hne : site = other
  · rw [if_pos hne]
    exact .inl rfl
  · rw [if_neg hne]
    exact .inr ⟨other, hother, hne, rfl⟩

/-- A pool whose postcondition may speak of what a worker holds when it ends. -/
structure Crew (contract : Contract interface) (post : Label → A → Set Resource → State → Prop)
    (workers : List (Worker Call Reply Label A Resource)) (state : State) : Prop where
  ensures : ∀ worker ∈ workers,
    contract.ensures worker.program (post worker.label) worker.owned state
  allocated : ∀ worker ∈ workers, worker.owned ⊆ interface.allocated state
  disjoint : workers.Pairwise fun left right => Disjoint left.owned right.owned

/-- One call of one worker keeps the crew, and is a step of that worker. -/
theorem Crew.step (hmutual : contract.Mutual) {post : Label → A → Set Resource → State → Prop}
    {state after : State} (hcrew : contract.Crew post workers state) {site : ℕ}
    (hsite : site < workers.length) {request : Call} {next : Reply request → Program Call Reply A}
    (hprogram : (workers[site]).program = .call request next) {reply : Reply request}
    (hanswers : interface.answers request state reply after) :
    contract.Guarantee (workers[site]).owned state after ∧
      contract.Crew post
        (workers.set site ((workers[site]).resumed interface next reply)) after := by
  have hmember : workers[site] ∈ workers := List.getElem_mem hsite
  have hensures := hcrew.ensures _ hmember
  rw [hprogram] at hensures
  obtain ⟨hstep, hnext⟩ := hensures state (Rely.refl _ state) reply after hanswers
  have hrely : ∀ other (hother : other < workers.length), site ≠ other →
      contract.Rely (workers[other]).owned state after := fun other hother hne =>
    hstep.rely hmutual (disjoint_of_ne hcrew.disjoint hsite hother hne)
      (hcrew.allocated _ (List.getElem_mem hother))
  have hdisjoint : ∀ other (hother : other < workers.length), site ≠ other →
      Disjoint ((workers[site]).resumed interface next reply).owned
        (workers[other]).owned := fun other hother hne =>
    Set.disjoint_union_left.mpr ⟨disjoint_of_ne hcrew.disjoint hsite hother hne,
      (interface.gains_fresh _ _ _ _ hanswers).mono_right
        (hcrew.allocated _ (List.getElem_mem hother))⟩
  refine ⟨hstep, ⟨?_, ?_, ?_⟩⟩
  · intro worker hworker
    rcases mem_set_cases hworker with rfl | ⟨other, hother, hne, rfl⟩
    · exact hnext
    · exact ensures_stable (hcrew.ensures _ (List.getElem_mem hother))
        (hrely other hother hne)
  · intro worker hworker
    rcases mem_set_cases hworker with rfl | ⟨other, hother, hne, rfl⟩
    · exact Set.union_subset ((hcrew.allocated _ hmember).trans hstep.allocated)
        (interface.gains_allocated _ _ _ _ hanswers)
    · exact (hcrew.allocated _ (List.getElem_mem hother)).trans hstep.allocated
  · rw [List.pairwise_iff_getElem]
    intro left right hleft hright hlt
    rw [List.length_set] at hleft hright
    rw [List.getElem_set, List.getElem_set]
    by_cases hl : site = left
    · have hr : site ≠ right := by omega
      rw [if_pos hl, if_neg hr]
      exact hdisjoint right hright hr
    · rw [if_neg hl]
      by_cases hr : site = right
      · rw [if_pos hr]
        exact (hdisjoint left hleft hl).symm
      · rw [if_neg hr]
        exact disjoint_of_ne hcrew.disjoint hleft hright (by omega)

/-- One call of one worker keeps the pool, and is a step of that worker. -/
theorem Pool.step (hmutual : contract.Mutual) {state after : State}
    (hpool : contract.Pool post workers state) {site : ℕ} (hsite : site < workers.length)
    {request : Call} {next : Reply request → Program Call Reply A}
    (hprogram : (workers[site]).program = .call request next) {reply : Reply request}
    (hanswers : interface.answers request state reply after) :
    contract.Guarantee (workers[site]).owned state after ∧
      contract.Pool post
        (workers.set site ((workers[site]).resumed interface next reply)) after := by
  have hcrew : contract.Crew (fun label result _ => post label result) workers state :=
    ⟨hpool.ensures, hpool.allocated, hpool.disjoint⟩
  obtain ⟨hstep, hcrew'⟩ := hcrew.step hmutual hsite hprogram hanswers
  exact ⟨hstep, hcrew'.ensures, hcrew'.allocated, hcrew'.disjoint⟩

/-- A worker that has ended leaves the pool. -/
theorem Pool.leave {state : State} (hpool : contract.Pool post workers state)
    (site : ℕ) : contract.Pool post (workers.eraseIdx site) state where
  ensures := fun worker hworker => hpool.ensures worker (List.mem_of_mem_eraseIdx hworker)
  allocated := fun worker hworker =>
    hpool.allocated worker (List.mem_of_mem_eraseIdx hworker)
  disjoint := hpool.disjoint.sublist (List.eraseIdx_sublist workers site)

/-- The parallel rule: workers proved one by one, each holding its own
resources, give their results under every schedule. -/
theorem ensures_interleave (hmutual : contract.Mutual)
    (hlasting : contract.Lasting post) (schedule : List ℕ) {owned : Set Resource}
    {state : State} (hpool : contract.Pool post workers state)
    (howned : ∀ worker ∈ workers, worker.owned ⊆ owned) :
    contract.ensures (Program.interleave schedule (workers.map Worker.entry))
      (fun results _ => Collected post workers results) owned state := by
  induction schedule generalizing workers owned state with
  | nil => exact ensures_inOrder hmutual hlasting hpool howned
  | cons pick schedule ih =>
      rw [Program.interleave, List.length_map, List.getElem?_map]
      by_cases hempty : workers = []
      · subst hempty
        exact fun _ _ => ⟨.refl _, by simp⟩
      have hsite : pick % workers.length < workers.length :=
        Nat.mod_lt _ (List.length_pos_of_ne_nil hempty)
      generalize pick % workers.length = site at hsite
      rw [List.getElem?_eq_getElem hsite, Option.map_some]
      have hmember : workers[site] ∈ workers := List.getElem_mem hsite
      cases hprogram : (workers[site]).program with
      | finish result =>
          have hresult := hpool.ensures _ hmember
          rw [hprogram] at hresult
          have hposted := hresult state (Rely.refl _ state)
          simp only [Worker.entry, hprogram, List.eraseIdx_map]
          refine ensures_bind_of (ensures_keep hmutual
            (fun _ _ hstep => hlasting _ result _ _ hstep) hposted
            (ih (hpool.leave site) fun worker hworker =>
              howned worker (List.mem_of_mem_eraseIdx hworker))) ?_
          rintro results owned' state' ⟨⟨hperm, hposts⟩, hkept⟩ after hafter
          refine ⟨?_, ?_⟩
          · have hlabels := (List.getElem_cons_eraseIdx_perm hsite).map Worker.label
            exact (hperm.cons _).trans hlabels
          · rintro entry (_ | ⟨_, hentry⟩)
            · exact hlasting _ _ _ _ hafter.tolerated hkept
            · exact hlasting _ _ _ _ hafter.tolerated (hposts entry hentry)
      | exit =>
          have hensures := hpool.ensures _ hmember
          rw [hprogram] at hensures
          simp only [Worker.entry, hprogram]
          exact hensures
      | undefined =>
          have hensures := hpool.ensures _ hmember
          rw [hprogram] at hensures
          exact hensures.elim
      | call request next =>
          simp only [Worker.entry, hprogram]
          intro before hbefore reply after hanswers
          have hbeforePool := hpool.stable fun worker hworker =>
            hbefore.anti (howned worker hworker)
          obtain ⟨hstep, hstepped⟩ :=
            hbeforePool.step hmutual hsite hprogram hanswers
          have howned' : ∀ worker ∈
              workers.set site ((workers[site]).resumed interface next reply),
              worker.owned ⊆ owned ∪ interface.gains request reply := by
            intro worker hworker
            rcases mem_set_cases hworker with rfl | ⟨other, hother, -, rfl⟩
            · exact Set.union_subset_union_left _ (howned _ hmember)
            · exact (howned _ (List.getElem_mem hother)).trans Set.subset_union_left
          have hlabels : (workers.set site ((workers[site]).resumed interface next reply)).map
              Worker.label = workers.map Worker.label := labels_resumed hsite next reply
          have hresumed := ih hstepped howned'
          rw [List.map_set] at hresumed
          refine ⟨hstep.mono (howned _ hmember), ensures_mono hresumed ?_⟩
          rintro results _ _ ⟨hperm, hposts⟩
          exact ⟨hlabels ▸ hperm, hposts⟩

/-! ## Runs of a crew -/

/-- One call of the worker at a site; what its reply hands out becomes its own. -/
inductive CrewStep (interface : Interface Call Reply State Resource) :
    State × List (Worker Call Reply Label A Resource) → ℕ →
      State × List (Worker Call Reply Label A Resource) → Prop
  | call {state after : State} {workers : List (Worker Call Reply Label A Resource)} {site : ℕ}
      {request : Call} {next : Reply request → Program Call Reply A} {reply : Reply request}
      (hsite : site < workers.length)
      (hprogram : (workers[site]).program = .call request next)
      (hanswers : interface.answers request state reply after) :
      CrewStep interface (state, workers) site
        (after, workers.set site ((workers[site]).resumed interface next reply))

theorem CrewStep.labels {start next : State × List (Worker Call Reply Label A Resource)}
    {site : ℕ} (hstep : CrewStep interface start site next) :
    next.2.map Worker.label = start.2.map Worker.label := by
  cases hstep with
  | call hsite hprogram hanswers => exact labels_resumed hsite _ _

end Contract

end Privateer
