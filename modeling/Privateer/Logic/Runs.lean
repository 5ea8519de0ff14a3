import Mathlib.Tactic

/-!
# Runs of a system of labelled steps

A run is the list of its steps, each with its label and the state it leads to.
Conditions on a run are conditions on every step, on the label and on the state
before it.  What one step keeps under such a condition, a whole run keeps; where
the condition is exact for one step, it is exact for runs.
-/

namespace Privateer

variable {State Label : Type*}

/-- `Run step start trace`: the steps of `trace`, one after the other from `start`. -/
inductive Run (step : State → Label → State → Prop) : State → List (Label × State) → Prop
  | nil {state : State} : Run step state []
  | cons {state next : State} {label : Label} {rest : List (Label × State)}
      (hstep : step state label next) (hrest : Run step next rest) :
      Run step state ((label, next) :: rest)

namespace Run

/-- The states that a run goes through. -/
def states (start : State) (trace : List (Label × State)) : List State :=
  start :: trace.map Prod.snd

/-- Every step of a run meets the condition. -/
def Each (condition : State → Label → Prop) : State → List (Label × State) → Prop
  | _, [] => True
  | state, (label, next) :: rest => condition state label ∧ Each condition next rest

instance decidableEach {condition : State → Label → Prop}
    [∀ state label, Decidable (condition state label)] :
    (start : State) → (trace : List (Label × State)) → Decidable (Each condition start trace)
  | _, [] => inferInstanceAs (Decidable True)
  | state, (label, next) :: rest =>
      have : Decidable (Each condition next rest) := decidableEach next rest
      inferInstanceAs (Decidable (condition state label ∧ Each condition next rest))

variable {step : State → Label → State → Prop} {condition : State → Label → Prop}
variable {invariant : State → Prop} {start : State} {trace : List (Label × State)}

theorem mem_states_cons {label : Label} {next state : State} {rest : List (Label × State)} :
    state ∈ states start ((label, next) :: rest) ↔ state = start ∨ state ∈ states next rest := by
  rw [states, List.mem_cons]
  rfl

/-- The induction rule for runs. -/
theorem forall_states (hrun : Run step start trace)
    (hkeep : ∀ state label next, invariant state → condition state label →
      step state label next → invariant next)
    (hstart : invariant start) (heach : Each condition start trace) :
    ∀ state ∈ states start trace, invariant state := by
  induction hrun with
  | nil =>
      intro state hstate
      rw [List.mem_singleton.mp hstate]
      exact hstart
  | cons hstep hrest ih =>
      intro state hstate
      rw [mem_states_cons] at hstate
      rcases hstate with rfl | hlater
      · exact hstart
      · exact ih (hkeep _ _ _ hstart heach.1 hstep) heach.2 state hlater

/-- What the invariant and the condition give for a step holds of every step of a run. -/
theorem each_of_condition {goal : State → Label → Prop} (hrun : Run step start trace)
    (hkeep : ∀ state label next, invariant state → condition state label →
      step state label next → invariant next)
    (hgoal : ∀ state label, invariant state → condition state label → goal state label)
    (hstart : invariant start) (heach : Each condition start trace) : Each goal start trace := by
  induction hrun with
  | nil => trivial
  | cons hstep hrest ih =>
      exact ⟨hgoal _ _ hstart heach.1, ih (hkeep _ _ _ hstart heach.1 hstep) heach.2⟩

/-- Where the state after a step shows that the step met the condition, a run whose states
show it has met the condition. -/
theorem each_of_states {always goal : State → Prop} (hrun : Run step start trace)
    (hstep : ∀ state label next, always state → step state label next →
      always next ∧ (goal next → condition state label))
    (halways : always start) (hgoal : ∀ state ∈ states start trace, goal state) :
    Each condition start trace := by
  induction hrun with
  | nil => trivial
  | cons hfirst hrest ih =>
      obtain ⟨hnext, hcondition⟩ := hstep _ _ _ halways hfirst
      refine ⟨hcondition (hgoal _ (mem_states_cons.mpr (.inr List.mem_cons_self))), ?_⟩
      exact ih hnext fun state hstate => hgoal state (mem_states_cons.mpr (.inr hstate))

/-- What every step keeps, a whole run keeps. -/
theorem forall_states_of_step (hrun : Run step start trace)
    (hkeep : ∀ state label next, invariant state → step state label next → invariant next)
    (hstart : invariant start) : ∀ state ∈ states start trace, invariant state := by
  have heach : ∀ (trace : List (Label × State)) start,
      Each (fun (_ : State) (_ : Label) => True) start trace := by
    intro trace
    induction trace with
    | nil => exact fun _ => trivial
    | cons first rest ih => exact fun _ => ⟨trivial, ih first.2⟩
  exact hrun.forall_states (fun state label next hinvariant _ => hkeep state label next hinvariant)
    hstart (heach trace start)

/-- The last state of a run. -/
def last (start : State) (trace : List (Label × State)) : State :=
  (trace.map Prod.snd).getLast?.getD start

theorem last_cons (label : Label) (next : State) (rest : List (Label × State)) :
    last start ((label, next) :: rest) = last next rest := by
  rw [last, last, List.map_cons, List.getLast?_cons, Option.getD_some]

theorem last_mem_states : last start trace ∈ states start trace := by
  rw [last, states, List.mem_cons]
  cases hlast : (trace.map Prod.snd).getLast? with
  | none => exact .inl rfl
  | some state => exact .inr (List.mem_of_getLast? hlast)

/-- Where the condition is exact for one step, it is exact for runs; `always` is kept
for as long as the invariant holds. -/
theorem forall_states_iff {always : State → Prop} (hrun : Run step start trace)
    (hexact : ∀ state label next, always state → invariant state → step state label next →
      always next ∧ (invariant next ↔ condition state label))
    (halways : always start) (hstart : invariant start) :
    (∀ state ∈ states start trace, invariant state) ↔ Each condition start trace := by
  induction hrun with
  | nil => exact iff_of_true (fun state hstate => List.mem_singleton.mp hstate ▸ hstart) trivial
  | cons hstep hrest ih =>
      obtain ⟨halways', hnext⟩ := hexact _ _ _ halways hstart hstep
      constructor
      · intro hall
        have hinvariant := hall _ (mem_states_cons.mpr (.inr List.mem_cons_self))
        refine ⟨hnext.mp hinvariant, (ih halways' hinvariant).mp ?_⟩
        exact fun state hstate => hall state (mem_states_cons.mpr (.inr hstate))
      · rintro ⟨hcondition, heach⟩ state hstate
        rw [mem_states_cons] at hstate
        rcases hstate with rfl | hlater
        · exact hstart
        · exact (ih halways' (hnext.mpr hcondition)).mpr heach state hlater

/-- The same where what runs keep is stronger than the goal: the goal after a step shows that
the step met the condition, and the condition keeps what is stronger. -/
theorem forall_states_iff_of_stronger {strong goal : State → Prop} (hrun : Run step start trace)
    (hgoal : ∀ state, strong state → goal state)
    (hexact : ∀ state label next, strong state → step state label next →
      (goal next → condition state label) ∧ (condition state label → strong next))
    (hstart : strong start) :
    (∀ state ∈ states start trace, goal state) ↔ Each condition start trace := by
  constructor
  · intro hall
    induction hrun with
    | nil => trivial
    | cons hstep hrest ih =>
        obtain ⟨hcondition, hnext⟩ := hexact _ _ _ hstart hstep
        have hmet := hcondition (hall _ (mem_states_cons.mpr (.inr List.mem_cons_self)))
        refine ⟨hmet, ih (hnext hmet) fun state hstate => ?_⟩
        exact hall state (mem_states_cons.mpr (.inr hstate))
  · intro heach state hstate
    exact hgoal state (hrun.forall_states (fun state label next hstrong hcondition hstep =>
      (hexact state label next hstrong hstep).2 hcondition) hstart heach state hstate)

/-- Where a label leaves a step no choice, a run is determined by its labels. -/
theorem eq_of_labels {other : List (Label × State)} (hrun : Run step start trace)
    (hother : Run step start other)
    (hunique : ∀ {state label first second}, step state label first → step state label second →
      first = second)
    (hlabels : trace.map Prod.fst = other.map Prod.fst) : trace = other := by
  induction hrun generalizing other with
  | nil => exact (List.map_eq_nil_iff.mp hlabels.symm).symm
  | cons hstep hrest ih =>
      cases hother with
      | nil => exact absurd hlabels (List.cons_ne_nil _ _)
      | cons hstep' hrest' =>
          obtain ⟨rfl, hlater⟩ := List.cons.inj hlabels
          obtain rfl := hunique hstep hstep'
          rw [ih hrest' hlater]

/-- A transitive relation that every step establishes holds between each state of a run
and all later ones. -/
theorem pairwise_states {relation : State → State → Prop}
    (htrans : ∀ first second third, relation first second → relation second third →
      relation first third) (hrun : Run step start trace)
    (hstep : ∀ state label next, invariant state → step state label next → relation state next)
    (hinvariant : ∀ state ∈ states start trace, invariant state) :
    (states start trace).Pairwise relation := by
  induction hrun with
  | nil => exact List.pairwise_singleton _ _
  | @cons state next label rest hfirst hrest ih =>
      have hlater : ∀ later ∈ states next rest, invariant later := fun later hlater =>
        hinvariant later (mem_states_cons.mpr (.inr hlater))
      have hnext : relation state next :=
        hstep _ _ _ (hinvariant state (mem_states_cons.mpr (.inl rfl))) hfirst
      have hpairwise := ih hlater
      refine List.Pairwise.cons ?_ hpairwise
      intro later hmember
      rcases List.mem_cons.mp hmember with rfl | htail
      · exact hnext
      · exact htrans _ _ _ hnext (List.rel_of_pairwise_cons hpairwise htail)

/-- Forward simulation: whatever one system does under the condition, another can do under the
same labels, and the states stay related. -/
theorem simulate {Abstract : Type*} {abstractStep : Abstract → Label → Abstract → Prop}
    {relation : State → Abstract → Prop} (hrun : Run step start trace)
    (hsimulates : ∀ state label next abstract, relation state abstract → condition state label →
      step state label next →
        ∃ abstract', abstractStep abstract label abstract' ∧ relation next abstract')
    {abstract : Abstract} (hstart : relation start abstract) (heach : Each condition start trace) :
    ∃ followed : List (Label × Abstract), Run abstractStep abstract followed ∧
      List.Forall₂ (fun first second => first.1 = second.1 ∧ relation first.2 second.2) trace
        followed := by
  induction hrun generalizing abstract with
  | nil => exact ⟨[], .nil, .nil⟩
  | cons hstep hrest ih =>
      obtain ⟨abstract', hfollows, hrelated⟩ := hsimulates _ _ _ _ hstart heach.1 hstep
      obtain ⟨followed, hrun', hall⟩ := ih hrelated heach.2
      exact ⟨(_, abstract') :: followed, .cons hfollows hrun', .cons ⟨rfl, hrelated⟩ hall⟩

end Run

end Privateer
