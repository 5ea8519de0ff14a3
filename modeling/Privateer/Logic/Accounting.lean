import Privateer.Logic.Runs
import Mathlib.Data.Set.Card

/-!
# Accounts of runs

What the steps of a run put into a set, and what it costs.  A store that grows by the items
that were pending, and forgets them as it takes them in, never holds more new items than were
ever made pending.  A history variable goes along with a run and remembers what its steps
forget.
-/

namespace Privateer

namespace Run

variable {State Label Item Pending : Type*}
variable {step : State → Label → State → Prop} {invariant : State → Prop}
variable {start : State} {trace : List (Label × State)}

/-- The items that the steps of a run collect. -/
def collected (collects : State → Label → Set Item) : State → List (Label × State) → Set Item
  | _, [] => ∅
  | state, (label, next) :: rest => collects state label ∪ collected collects next rest

/-- What the steps of a run cost. -/
def totalCost (cost : Label → ℕ) (trace : List (Label × State)) : ℕ :=
  (trace.map fun entry => cost entry.1).sum

/-- A set that each step extends by what it collects holds in the end what the run has
collected. -/
theorem eq_union_collected {held : State → Set Item} {collects : State → Label → Set Item}
    (hrun : Run step start trace)
    (hkeep : ∀ state label next, invariant state → step state label next →
      invariant next ∧ held next = held state ∪ collects state label)
    (hstart : invariant start) :
    held (last start trace) = held start ∪ collected collects start trace := by
  induction hrun with
  | nil => exact (Set.union_empty _).symm
  | cons hstep hrest ih =>
      obtain ⟨hnext, hheld⟩ := hkeep _ _ _ hstart hstep
      rw [last_cons, ih hnext, hheld, collected, Set.union_assoc]

/-- If each step pays for the new items out of the pending ones and its cost, so does a run. -/
theorem encard_gained_le {held : State → Set Item} {pending : State → Set Pending}
    {cost : Label → ℕ} (hrun : Run step start trace)
    (hkeep : ∀ state label next, invariant state → step state label next → invariant next ∧
      (held next \ held state).encard + (pending next).encard ≤
        (pending state).encard + cost label)
    (hstart : invariant start) :
    (held (last start trace) \ held start).encard + (pending (last start trace)).encard ≤
      (pending start).encard + totalCost cost trace := by
  induction hrun with
  | nil =>
      rw [last, List.map_nil, List.getLast?_nil, Option.getD_none, Set.sdiff_self,
        Set.encard_empty, zero_add]
      exact le_self_add
  | @cons state next label rest hstep hrest ih =>
      obtain ⟨hnext, hpaid⟩ := hkeep _ _ _ hstart hstep
      have hlater := ih hnext
      rw [last_cons]
      have hsplit : held (last next rest) \ held state ⊆
          (held (last next rest) \ held next) ∪ (held next \ held state) := by
        rintro item ⟨hitem, hold⟩
        by_cases hmiddle : item ∈ held next
        · exact .inr ⟨hmiddle, hold⟩
        · exact .inl ⟨hitem, hmiddle⟩
      have hgained := (Set.encard_le_encard hsplit).trans (Set.encard_union_le _ _)
      calc (held (last next rest) \ held state).encard + (pending (last next rest)).encard
          ≤ (held next \ held state).encard + ((held (last next rest) \ held next).encard +
              (pending (last next rest)).encard) := by
            rw [← add_assoc, add_comm (held next \ held state).encard]
            exact add_le_add_left hgained _
        _ ≤ (held next \ held state).encard + ((pending next).encard + totalCost cost rest) :=
            add_le_add_right hlater _
        _ ≤ (pending state).encard + cost label + totalCost cost rest := by
            rw [← add_assoc]
            exact add_le_add_left hpaid _
        _ = (pending state).encard + totalCost cost ((label, next) :: rest) := by
            have htotal : totalCost cost ((label, next) :: rest) =
                cost label + totalCost cost rest := List.sum_cons
            rw [htotal, Nat.cast_add, add_assoc]

/-! ## History variables -/

section Histories

variable {History : Type*} {record : State → Label → History → History}

/-- A step and what it adds to the history. -/
def Recorded (step : State → Label → State → Prop) (record : State → Label → History → History)
    (before : State × History) (label : Label) (after : State × History) : Prop :=
  step before.1 label after.1 ∧ after.2 = record before.1 label before.2

/-- A run with the history of its steps. -/
def withHistory (record : State → Label → History → History) :
    State → History → List (Label × State) → List (Label × (State × History))
  | _, _, [] => []
  | state, history, (label, next) :: rest =>
      (label, (next, record state label history)) ::
        withHistory record next (record state label history) rest

/-- A history never keeps a run from taking a step. -/
theorem recorded (hrun : Run step start trace) (history : History) :
    Run (Recorded step record) (start, history) (withHistory record start history trace) := by
  induction hrun generalizing history with
  | nil => exact .nil
  | cons hstep hrest ih => exact .cons ⟨hstep, rfl⟩ (ih _)

theorem last_withHistory (history : History) :
    (last (start, history) (withHistory record start history trace)).1 = last start trace := by
  induction trace generalizing start history with
  | nil => rfl
  | cons entry rest ih =>
      rw [withHistory, last_cons, last_cons]
      exact ih _

/-- What every step keeps of a state and of what its labels have recorded so far. -/
theorem last_recording {condition : State → Label → Prop} {recording : Label → History → History}
    {invariant : State → History → Prop} {history : History} (hrun : Run step start trace)
    (hkeep : ∀ state label next history, invariant state history → condition state label →
      step state label next → invariant next (recording label history))
    (hstart : invariant start history) (heach : Each condition start trace) :
    invariant (last start trace)
      ((trace.map Prod.fst).foldl (fun history label => recording label history) history) := by
  induction hrun generalizing history with
  | nil => exact hstart
  | cons hstep hrest ih =>
      rw [last_cons]
      exact ih (hkeep _ _ _ _ hstart heach.1 hstep) heach.2

end Histories

end Run

/-- Items that were pending are taken in, each under one name, and are pending no more; others
become pending. -/
theorem encard_taken_le {Item Pending : Type*} {held grown : Set Item}
    {pending left taken fresh : Set Pending} {name : Pending → Item}
    (hgrown : grown ⊆ held ∪ name '' taken) (htaken : taken ⊆ pending)
    (hleft : left ⊆ pending \ taken ∪ fresh) :
    (grown \ held).encard + left.encard ≤ pending.encard + fresh.encard := by
  have hnew : grown \ held ⊆ name '' taken := fun item hitem =>
    (hgrown hitem.1).resolve_left hitem.2
  have hnamed := (Set.encard_le_encard hnew).trans (Set.encard_image_le _ _)
  have hstill := (Set.encard_le_encard hleft).trans (Set.encard_union_le _ _)
  calc (grown \ held).encard + left.encard
      ≤ taken.encard + ((pending \ taken).encard + fresh.encard) := add_le_add hnamed hstill
    _ = pending.encard + fresh.encard := by
        rw [← add_assoc, add_comm taken.encard]
        rw [Set.encard_sdiff_add_encard_of_subset htaken]

end Privateer
