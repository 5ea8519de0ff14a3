import Mathlib.Tactic
import Mathlib.Order.CompletePartialOrder

/-!
# Programs over system calls

A routine that reaches a shared state only through system calls is the tree of
its calls: the next request may depend on every earlier reply.  One such tree
is run to its end by a sequential caller, stopped after any prefix by a crash,
and interleaved call by call with the trees of other threads.
-/

namespace Privateer

/-- A program that issues requests and receives replies.  It ends with a
result, by terminating the process, or at a point whose behaviour its language
leaves undefined. -/
inductive Program (Call : Type) (Reply : Call → Type) (Result : Type) where
  | finish (result : Result)
  | exit
  | undefined
  | call (request : Call) (next : Reply request → Program Call Reply Result)

/-- How a program that was run to its end has ended. -/
inductive Outcome (Result : Type) where
  | returned (result : Result)
  | exited
  | undefined
  deriving DecidableEq

namespace Program

variable {Call : Type} {Reply : Call → Type} {State A B C : Type}

def bind : Program Call Reply A → (A → Program Call Reply B) →
    Program Call Reply B
  | .finish result, next => next result
  | .exit, _ => .exit
  | .undefined, _ => .undefined
  | .call request rest, next => .call request fun reply => (rest reply).bind next

instance : Monad (Program Call Reply) where
  pure := .finish
  bind := bind

/-- The program that issues one request and returns its reply. -/
def request (call : Call) : Program Call Reply (Reply call) :=
  .call call .finish

@[simp]
theorem pure_eq (result : A) :
    (pure result : Program Call Reply A) = .finish result := rfl

@[simp]
theorem finish_bind (result : A) (next : A → Program Call Reply B) :
    (Program.finish result >>= next) = next result := rfl

@[simp]
theorem exit_bind (next : A → Program Call Reply B) :
    ((.exit : Program Call Reply A) >>= next) = .exit := rfl

@[simp]
theorem undefined_bind (next : A → Program Call Reply B) :
    ((.undefined : Program Call Reply A) >>= next) = .undefined := rfl

@[simp]
theorem call_bind (call : Call) (rest : Reply call → Program Call Reply A)
    (next : A → Program Call Reply B) :
    (Program.call call rest >>= next) =
      .call call fun reply => rest reply >>= next := rfl

@[simp]
theorem request_bind (call : Call) (next : Reply call → Program Call Reply B) :
    (request call >>= next) = .call call next := rfl

theorem bind_assoc (program : Program Call Reply A)
    (first : A → Program Call Reply B) (second : B → Program Call Reply C) :
    (program >>= first) >>= second =
      program >>= fun result => first result >>= second := by
  induction program with
  | finish result => rfl
  | exit => rfl
  | undefined => rfl
  | call request rest ih =>
      simp only [call_bind]
      congr 1
      funext reply
      exact ih reply

theorem bind_pure (program : Program Call Reply A) : (program >>= pure) = program := by
  induction program with
  | finish result => rfl
  | exit => rfl
  | undefined => rfl
  | call request rest ih =>
      rw [call_bind]
      congr 1
      funext reply
      exact ih reply

/-! ## Running a program alone -/

/-- Run a program to its end when `answer` serves every request. -/
def run (answer : (call : Call) → State → Reply call × State) :
    Program Call Reply A → State → Outcome A × State
  | .finish result, state => (.returned result, state)
  | .exit, state => (.exited, state)
  | .undefined, state => (.undefined, state)
  | .call request next, state =>
      run answer (next (answer request state).1) (answer request state).2

variable {answer : (call : Call) → State → Reply call × State}

@[simp]
theorem run_finish (result : A) (state : State) :
    run answer (.finish result : Program Call Reply A) state =
      (.returned result, state) := rfl

@[simp]
theorem run_call (call : Call) (next : Reply call → Program Call Reply A)
    (state : State) :
    run answer (.call call next) state =
      run answer (next (answer call state).1) (answer call state).2 := rfl

theorem run_bind_of_returned {program : Program Call Reply A}
    {next : A → Program Call Reply B} {state state' : State} {result : A}
    (hrun : run answer program state = (.returned result, state')) :
    run answer (program >>= next) state = run answer (next result) state' := by
  induction program generalizing state with
  | finish result' =>
      simp only [run_finish, Prod.mk.injEq, Outcome.returned.injEq] at hrun
      rw [finish_bind, hrun.1, hrun.2]
  | exit => simp [run] at hrun
  | undefined => simp [run] at hrun
  | call request rest ih =>
      simp only [call_bind, run_call] at hrun ⊢
      exact ih _ hrun

theorem run_bind_of_exited {program : Program Call Reply A} {next : A → Program Call Reply B}
    {state state' : State} (hrun : run answer program state = (.exited, state')) :
    run answer (program >>= next) state = (.exited, state') := by
  induction program generalizing state with
  | finish result => simp [run] at hrun
  | exit => simpa [run] using hrun
  | undefined => simp [run] at hrun
  | call request rest ih =>
      simp only [call_bind, run_call] at hrun ⊢
      exact ih _ hrun

/-- A bind that returns has run its first part to a result. -/
theorem run_bind_returned {program : Program Call Reply A}
    {next : A → Program Call Reply B} {state final : State} {result : B}
    (hrun : run answer (program >>= next) state = (.returned result, final)) :
    ∃ middle between, run answer program state = (.returned middle, between) ∧
      run answer (next middle) between = (.returned result, final) := by
  induction program generalizing state with
  | finish middle => exact ⟨middle, state, rfl, hrun⟩
  | exit => simp [run] at hrun
  | undefined => simp [run] at hrun
  | call request rest ih =>
      simp only [call_bind, run_call] at hrun ⊢
      exact ih _ hrun

/-- A program that goes on only if a condition holds, and returns, has met it. -/
theorem run_ite_exit_returned {condition : Prop} [Decidable condition]
    {next : Program Call Reply A} {state final : State} {result : A}
    (hrun : run answer (if condition then next else .exit) state = (.returned result, final)) :
    condition ∧ run answer next state = (.returned result, final) := by
  by_cases hcondition : condition
  · rw [if_pos hcondition] at hrun
    exact ⟨hcondition, hrun⟩
  · rw [if_neg hcondition] at hrun
    cases (Prod.mk.inj hrun).1

/-! ## Requests with more than one answer -/

/-- The program may end like this when `answers` allows several replies to a request.
A process that is killed before a request has exited as well. -/
def RunsTo (answers : (call : Call) → State → Reply call → State → Prop) :
    Program Call Reply A → State → Outcome A → State → Prop
  | .finish result, state, outcome, state' => outcome = .returned result ∧ state' = state
  | .exit, state, outcome, state' => outcome = .exited ∧ state' = state
  | .undefined, state, outcome, state' => outcome = .undefined ∧ state' = state
  | .call request next, state, outcome, state' =>
      (outcome = .exited ∧ state' = state) ∨
        ∃ reply between, answers request state reply between ∧
          (next reply).RunsTo answers between outcome state'

/-- A sequential run is one of the ways in which the program may end. -/
theorem runsTo_of_run {answers : (call : Call) → State → Reply call → State → Prop}
    (hanswer : ∀ call state, answers call state (answer call state).1 (answer call state).2)
    {program : Program Call Reply A} {state state' : State} {outcome : Outcome A}
    (hrun : program.run answer state = (outcome, state')) :
    program.RunsTo answers state outcome state' := by
  induction program generalizing state with
  | finish result => exact ⟨(congrArg Prod.fst hrun).symm, (congrArg Prod.snd hrun).symm⟩
  | exit => exact ⟨(congrArg Prod.fst hrun).symm, (congrArg Prod.snd hrun).symm⟩
  | undefined => exact ⟨(congrArg Prod.fst hrun).symm, (congrArg Prod.snd hrun).symm⟩
  | call request next ih => exact .inr ⟨_, _, hanswer request state, ih _ hrun⟩

/-- The program may end like this after the requests of `trace`, each with its reply. -/
def RunsAlong (answers : (call : Call) → State → Reply call → State → Prop) :
    Program Call Reply A → State → List (Σ call, Reply call) → Outcome A → State → Prop
  | .finish result, state, trace, outcome, state' =>
      trace = [] ∧ outcome = .returned result ∧ state' = state
  | .exit, state, trace, outcome, state' => trace = [] ∧ outcome = .exited ∧ state' = state
  | .undefined, state, trace, outcome, state' =>
      trace = [] ∧ outcome = .undefined ∧ state' = state
  | .call request next, state, trace, outcome, state' =>
      (trace = [] ∧ outcome = .exited ∧ state' = state) ∨
        ∃ reply between rest, trace = ⟨request, reply⟩ :: rest ∧
          answers request state reply between ∧
            (next reply).RunsAlong answers between rest outcome state'

section Traces

variable {answers : (call : Call) → State → Reply call → State → Prop}
variable {state state' : State} {trace : List (Σ call, Reply call)}

/-- Every way in which a program may end has a trace. -/
theorem runsTo_iff_exists_runsAlong {program : Program Call Reply A} {outcome : Outcome A} :
    program.RunsTo answers state outcome state' ↔
      ∃ trace, program.RunsAlong answers state trace outcome state' := by
  induction program generalizing state with
  | finish result => exact ⟨fun hruns => ⟨[], rfl, hruns⟩, fun ⟨_, _, hruns⟩ => hruns⟩
  | exit => exact ⟨fun hruns => ⟨[], rfl, hruns⟩, fun ⟨_, _, hruns⟩ => hruns⟩
  | undefined => exact ⟨fun hruns => ⟨[], rfl, hruns⟩, fun ⟨_, _, hruns⟩ => hruns⟩
  | call request next ih =>
      constructor
      · rintro (hkilled | ⟨reply, between, hanswers, hrest⟩)
        · exact ⟨[], .inl ⟨rfl, hkilled⟩⟩
        · obtain ⟨rest, hrest'⟩ := (ih reply).mp hrest
          exact ⟨_, .inr ⟨reply, between, rest, rfl, hanswers, hrest'⟩⟩
      · rintro ⟨trace, ⟨-, hkilled⟩ | ⟨reply, between, rest, -, hanswers, hrest⟩⟩
        · exact .inl hkilled
        · exact .inr ⟨reply, between, hanswers, (ih reply).mpr ⟨rest, hrest⟩⟩

theorem RunsAlong.runsTo {program : Program Call Reply A} {outcome : Outcome A}
    (hruns : program.RunsAlong answers state trace outcome state') :
    program.RunsTo answers state outcome state' :=
  runsTo_iff_exists_runsAlong.mpr ⟨trace, hruns⟩

/-- A sequence that returns consists of its parts. -/
theorem RunsAlong.of_bind {program : Program Call Reply A} {next : A → Program Call Reply B}
    {result : B}
    (hruns : (program >>= next).RunsAlong answers state trace (.returned result) state') :
    ∃ value between first second, trace = first ++ second ∧
      program.RunsAlong answers state first (.returned value) between ∧
        (next value).RunsAlong answers between second (.returned result) state' := by
  induction program generalizing state trace with
  | finish value => exact ⟨value, state, [], trace, rfl, ⟨rfl, rfl, rfl⟩, hruns⟩
  | exit => cases hruns.2.1
  | undefined => cases hruns.2.1
  | call request rest ih =>
      rcases hruns with ⟨-, hkilled, -⟩ | ⟨reply, middle, tail, rfl, hanswers, hrest⟩
      · cases hkilled
      · obtain ⟨value, between, first, second, rfl, hfirst, hsecond⟩ := ih reply hrest
        exact ⟨value, between, _, second, (List.cons_append).symm,
          .inr ⟨reply, middle, first, rfl, hanswers, hfirst⟩, hsecond⟩

/-- A sequence stops in its first part, or goes on after the first has returned. -/
theorem RunsAlong.bind_cases {program : Program Call Reply A}
    {next : A → Program Call Reply B} {outcome : Outcome B}
    (hruns : (program >>= next).RunsAlong answers state trace outcome state') :
    (∃ stopped : Outcome A, (∀ value, stopped ≠ .returned value) ∧
      program.RunsAlong answers state trace stopped state') ∨
      ∃ value between first second, trace = first ++ second ∧
        program.RunsAlong answers state first (.returned value) between ∧
          (next value).RunsAlong answers between second outcome state' := by
  induction program generalizing state trace with
  | finish value => exact .inr ⟨value, state, [], trace, rfl, ⟨rfl, rfl, rfl⟩, hruns⟩
  | exit => exact .inl ⟨.exited, nofun, hruns.1, rfl, hruns.2.2⟩
  | undefined => exact .inl ⟨.undefined, nofun, hruns.1, rfl, hruns.2.2⟩
  | call request rest ih =>
      rcases hruns with ⟨htrace, -, hsame⟩ | ⟨reply, middle, tail, rfl, hanswers, hrest⟩
      · exact .inl ⟨.exited, nofun, .inl ⟨htrace, rfl, hsame⟩⟩
      · rcases ih reply hrest with ⟨stopped, hstopped, hfirst⟩ |
          ⟨value, between, first, second, rfl, hfirst, hsecond⟩
        · exact .inl ⟨stopped, hstopped, .inr ⟨reply, middle, tail, rfl, hanswers, hfirst⟩⟩
        · exact .inr ⟨value, between, _, second, (List.cons_append).symm,
            .inr ⟨reply, middle, first, rfl, hanswers, hfirst⟩, hsecond⟩

/-- With one answer to each request, a program that returns has run to its end. -/
theorem RunsAlong.run_of_returned {program : Program Call Reply A} {result : A}
    (hruns : program.RunsAlong (fun call state reply state' => answer call state = (reply, state'))
      state trace (.returned result) state') :
    program.run answer state = (.returned result, state') := by
  induction program generalizing state trace with
  | finish value =>
      obtain ⟨-, hvalue, rfl⟩ := hruns
      rw [hvalue]
      rfl
  | exit => cases hruns.2.1
  | undefined => cases hruns.2.1
  | call request rest ih =>
      rcases hruns with ⟨-, hkilled, -⟩ | ⟨reply, middle, tail, rfl, hanswers, hrest⟩
      · cases hkilled
      · rw [run_call, hanswers]
        exact ih reply hrest

/-- A program that was not killed has run to its end. -/
theorem RunsTo.run_or_exited {program : Program Call Reply A} {outcome : Outcome A}
    (hruns : program.RunsTo
      (fun call state reply state' => answer call state = (reply, state')) state outcome state') :
    program.run answer state = (outcome, state') ∨ outcome = .exited := by
  induction program generalizing state with
  | finish result =>
      obtain ⟨rfl, rfl⟩ := hruns
      exact .inl rfl
  | exit => exact .inr hruns.1
  | undefined =>
      obtain ⟨rfl, rfl⟩ := hruns
      exact .inl rfl
  | call request next ih =>
      rcases hruns with ⟨hkilled, -⟩ | ⟨reply, between, hanswers, hrest⟩
      · exact .inr hkilled
      · rw [run_call, hanswers]
        exact ih reply hrest

/-- What comes after a program and calls nothing leaves what the program leaves. -/
theorem RunsTo.of_bind_finish {answers : (call : Call) → State → Reply call → State → Prop}
    {program : Program Call Reply A} {result : A → B} {outcome : Outcome B}
    (hruns : (program >>= fun value => .finish (result value)).RunsTo answers state outcome
      state') : ∃ outcome', program.RunsTo answers state outcome' state' := by
  obtain ⟨trace, halong⟩ := runsTo_iff_exists_runsAlong.mp hruns
  rcases halong.bind_cases with ⟨stopped, -, hstopped⟩ |
    ⟨value, between, first, second, -, hfirst, -, -, rfl⟩
  · exact ⟨stopped, hstopped.runsTo⟩
  · exact ⟨_, hfirst.runsTo⟩

/-- Nothing comes after a program that exits. -/
theorem RunsTo.of_bind_exited {program : Program Call Reply A} {next : A → Program Call Reply B}
    {outcome : Outcome B} {final : State} (hrun : program.run answer state = (.exited, final))
    (hruns : (program >>= next).RunsTo
      (fun call state reply state' => answer call state = (reply, state')) state outcome state') :
    ∃ outcome', program.RunsTo
      (fun call state reply state' => answer call state = (reply, state')) state outcome'
        state' := by
  obtain ⟨trace, halong⟩ := runsTo_iff_exists_runsAlong.mp hruns
  rcases halong.bind_cases with ⟨stopped, -, hstopped⟩ |
    ⟨value, between, first, second, -, hfirst, -⟩
  · exact ⟨stopped, hstopped.runsTo⟩
  · cases hrun.symm.trans hfirst.run_of_returned

/-- A sequence is stopped in its first part, or the first has run to its end. -/
theorem RunsTo.bind_cases {program : Program Call Reply A} {next : A → Program Call Reply B}
    {outcome : Outcome B}
    (hruns : (program >>= next).RunsTo
      (fun call state reply state' => answer call state = (reply, state')) state outcome state') :
    (∃ stopped, program.RunsTo
      (fun call state reply state' => answer call state = (reply, state')) state stopped state') ∨
      ∃ value between, program.run answer state = (.returned value, between) ∧
        (next value).RunsTo (fun call state reply state' => answer call state = (reply, state'))
          between outcome state' := by
  obtain ⟨trace, halong⟩ := runsTo_iff_exists_runsAlong.mp hruns
  rcases halong.bind_cases with ⟨stopped, -, hstopped⟩ |
    ⟨value, between, first, second, -, hfirst, hsecond⟩
  · exact .inl ⟨stopped, hstopped.runsTo⟩
  · exact .inr ⟨value, between, hfirst.run_of_returned, hsecond.runsTo⟩

end Traces

/-- The program may end the process like this, by an exit of its own. -/
def ExitsAlong (answers : (call : Call) → State → Reply call → State → Prop) :
    Program Call Reply A → State → List (Σ call, Reply call) → State → Prop
  | .finish _, _, _, _ => False
  | .exit, state, trace, state' => trace = [] ∧ state' = state
  | .undefined, _, _, _ => False
  | .call request next, state, trace, state' =>
      ∃ reply between rest, trace = ⟨request, reply⟩ :: rest ∧
        answers request state reply between ∧ (next reply).ExitsAlong answers between rest state'

section Exits

variable {answers : (call : Call) → State → Reply call → State → Prop}
variable {state state' : State} {trace : List (Σ call, Reply call)}

theorem ExitsAlong.runsAlong {program : Program Call Reply A}
    (hexits : program.ExitsAlong answers state trace state') :
    program.RunsAlong answers state trace .exited state' := by
  induction program generalizing state trace with
  | finish value => exact hexits.elim
  | exit => exact ⟨hexits.1, rfl, hexits.2⟩
  | undefined => exact hexits.elim
  | call request rest ih =>
      obtain ⟨reply, between, tail, htrace, hanswers, hrest⟩ := hexits
      exact .inr ⟨reply, between, tail, htrace, hanswers, ih reply hrest⟩

theorem exitsAlong_of_run (hanswer : ∀ call state,
      answers call state (answer call state).1 (answer call state).2)
    {program : Program Call Reply A} (hrun : program.run answer state = (.exited, state')) :
    ∃ trace, program.ExitsAlong answers state trace state' := by
  induction program generalizing state with
  | finish value => cases (Prod.mk.inj hrun).1
  | exit => exact ⟨[], rfl, (Prod.mk.inj hrun).2.symm⟩
  | undefined => cases (Prod.mk.inj hrun).1
  | call request rest ih =>
      obtain ⟨trace, hexits⟩ := ih _ hrun
      exact ⟨_, _, _, trace, rfl, hanswer request state, hexits⟩

/-- A sequence exits in its first part, or in the second after the first has returned. -/
theorem ExitsAlong.of_bind {program : Program Call Reply A} {next : A → Program Call Reply B}
    (hexits : (program >>= next).ExitsAlong answers state trace state') :
    program.ExitsAlong answers state trace state' ∨
      ∃ value between first second, trace = first ++ second ∧
        program.RunsAlong answers state first (.returned value) between ∧
          (next value).ExitsAlong answers between second state' := by
  induction program generalizing state trace with
  | finish value => exact .inr ⟨value, state, [], trace, rfl, ⟨rfl, rfl, rfl⟩, hexits⟩
  | exit => exact .inl hexits
  | undefined => exact .inl hexits
  | call request rest ih =>
      obtain ⟨reply, middle, tail, rfl, hanswers, hrest⟩ := hexits
      rcases ih reply hrest with hfirst | ⟨value, between, first, second, rfl, hfirst, hsecond⟩
      · exact .inl ⟨reply, middle, tail, rfl, hanswers, hfirst⟩
      · exact .inr ⟨value, between, _, second, (List.cons_append).symm,
          .inr ⟨reply, middle, first, rfl, hanswers, hfirst⟩, hsecond⟩

end Exits

/-! ## Possible results -/

/-- `program.Returns result`: some replies lead the program to `result`. -/
def Returns : Program Call Reply A → A → Prop
  | .finish value, result => value = result
  | .exit, _ => False
  | .undefined, _ => False
  | .call request next, result => ∃ reply : Reply request, (next reply).Returns result

@[simp]
theorem returns_finish {value result : A} :
    (Program.finish value : Program Call Reply A).Returns result ↔
      value = result := Iff.rfl

@[simp]
theorem returns_exit {result : A} :
    ¬ (Program.exit : Program Call Reply A).Returns result := id

@[simp]
theorem returns_undefined {result : A} :
    ¬ (Program.undefined : Program Call Reply A).Returns result := id

@[simp]
theorem returns_call {call : Call} {next : Reply call → Program Call Reply A}
    {result : A} :
    (Program.call call next).Returns result ↔
      ∃ reply : Reply call, (next reply).Returns result := Iff.rfl

theorem returns_bind {program : Program Call Reply A}
    {next : A → Program Call Reply B} {result : B} :
    (program >>= next).Returns result ↔
      ∃ middle, program.Returns middle ∧ (next middle).Returns result := by
  induction program with
  | finish value => simp
  | exit => simp
  | undefined => simp
  | call request rest ih =>
      simp only [call_bind, returns_call, ih]
      constructor
      · rintro ⟨reply, middle, hmiddle, hresult⟩
        exact ⟨middle, ⟨reply, hmiddle⟩, hresult⟩
      · rintro ⟨middle, ⟨reply, hmiddle⟩, hresult⟩
        exact ⟨reply, middle, hmiddle, hresult⟩

theorem returns_of_run {program : Program Call Reply A} {state state' : State}
    {result : A}
    (hrun : run answer program state = (.returned result, state')) :
    program.Returns result := by
  induction program generalizing state with
  | finish value =>
      simp only [run_finish, Prod.mk.injEq, Outcome.returned.injEq] at hrun
      exact hrun.1
  | exit => simp [run] at hrun
  | undefined => simp [run] at hrun
  | call request rest ih => exact ⟨_, ih _ hrun⟩

theorem RunsAlong.returns {answers : (call : Call) → State → Reply call → State → Prop}
    {program : Program Call Reply A} {state state' : State} {trace : List (Σ call, Reply call)}
    {result : A} (hruns : program.RunsAlong answers state trace (.returned result) state') :
    program.Returns result := by
  induction program generalizing state trace with
  | finish value => exact (Outcome.returned.inj hruns.2.1).symm
  | exit => cases hruns.2.1
  | undefined => cases hruns.2.1
  | call request rest ih =>
      rcases hruns with ⟨-, hkilled, -⟩ | ⟨reply, between, tail, -, -, hrest⟩
      · cases hkilled
      · exact ⟨reply, ih reply hrest⟩

/-! ## The calls of a program -/

/-- Every call that the program may issue is allowed. -/
def CallsOnly (allowed : Call → Prop) : Program Call Reply A → Prop
  | .finish _ => True
  | .exit => True
  | .undefined => True
  | .call request next => allowed request ∧ ∀ reply, (next reply).CallsOnly allowed

variable {allowed : Call → Prop}

theorem CallsOnly.bind_of_returns {program : Program Call Reply A}
    {next : A → Program Call Reply B} (hfirst : program.CallsOnly allowed)
    (hnext : ∀ result, program.Returns result → (next result).CallsOnly allowed) :
    (program >>= next).CallsOnly allowed := by
  induction program with
  | finish result => exact hnext result rfl
  | exit => trivial
  | undefined => trivial
  | call request rest ih =>
      exact ⟨hfirst.1, fun reply => ih reply (hfirst.2 reply) fun result hresult =>
        hnext result ⟨reply, hresult⟩⟩

theorem CallsOnly.bind {program : Program Call Reply A} {next : A → Program Call Reply B}
    (hfirst : program.CallsOnly allowed)
    (hnext : ∀ result, (next result).CallsOnly allowed) :
    (program >>= next).CallsOnly allowed :=
  hfirst.bind_of_returns fun result _ => hnext result

theorem CallsOnly.mono {permitted : Call → Prop} {program : Program Call Reply A}
    (hcalls : program.CallsOnly allowed) (hpermitted : ∀ call, allowed call → permitted call) :
    program.CallsOnly permitted := by
  induction program with
  | finish result => trivial
  | exit => trivial
  | undefined => trivial
  | call request rest ih =>
      exact ⟨hpermitted request hcalls.1, fun reply => ih reply (hcalls.2 reply)⟩

/-- Several restrictions on the calls of a program make one. -/
theorem CallsOnly.all {Index : Type} {condition : Index → Prop}
    {permitted : Index → Call → Prop} {program : Program Call Reply A}
    (hcalls : ∀ index, condition index → program.CallsOnly (permitted index)) :
    program.CallsOnly fun call => ∀ index, condition index → permitted index call := by
  induction program with
  | finish result => trivial
  | exit => trivial
  | undefined => trivial
  | call request rest ih =>
      exact ⟨fun index hindex => (hcalls index hindex).1,
        fun reply => ih reply fun index hindex => (hcalls index hindex).2 reply⟩

/-- What every allowed call keeps, a run keeps. -/
theorem CallsOnly.run_keeps {program : Program Call Reply A} {invariant : State → Prop}
    (hcalls : program.CallsOnly allowed)
    (hkeep : ∀ call state, allowed call → invariant state → invariant (answer call state).2)
    {state : State} (hstate : invariant state) : invariant (program.run answer state).2 := by
  induction program generalizing state with
  | finish result => exact hstate
  | exit => exact hstate
  | undefined => exact hstate
  | call request rest ih =>
      exact ih _ (hcalls.2 _) (hkeep request state hcalls.1 hstate)

/-- The requests of a run are among the allowed ones. -/
theorem CallsOnly.runsAlong {program : Program Call Reply A}
    {answers : (call : Call) → State → Reply call → State → Prop}
    (hcalls : program.CallsOnly allowed) {state state' : State}
    {trace : List (Σ call, Reply call)} {outcome : Outcome A}
    (hruns : program.RunsAlong answers state trace outcome state') :
    ∀ entry ∈ trace, allowed entry.1 := by
  induction program generalizing state trace with
  | finish result => exact hruns.1 ▸ nofun
  | exit => exact hruns.1 ▸ nofun
  | undefined => exact hruns.1 ▸ nofun
  | call request next ih =>
      rcases hruns with ⟨rfl, -⟩ | ⟨reply, between, rest, rfl, -, hrest⟩
      · nofun
      · intro entry hentry
        rcases List.mem_cons.mp hentry with rfl | htail
        · exact hcalls.1
        · exact ih reply (hcalls.2 reply) hrest entry htail

/-- What every allowed call keeps, however it is answered, is kept to the end. -/
theorem CallsOnly.runsTo_keeps {program : Program Call Reply A} {invariant : State → Prop}
    {answers : (call : Call) → State → Reply call → State → Prop}
    (hcalls : program.CallsOnly allowed)
    (hkeep : ∀ call state reply state', allowed call → invariant state →
      answers call state reply state' → invariant state')
    {state state' : State} {outcome : Outcome A} (hstate : invariant state)
    (hruns : program.RunsTo answers state outcome state') : invariant state' := by
  induction program generalizing state with
  | finish result => exact hruns.2 ▸ hstate
  | exit => exact hruns.2 ▸ hstate
  | undefined => exact hruns.2 ▸ hstate
  | call request next ih =>
      rcases hruns with ⟨-, rfl⟩ | ⟨reply, between, hanswers, hrest⟩
      · exact hstate
      · exact ih reply (hcalls.2 reply) (hkeep _ _ _ _ hcalls.1 hstate hanswers) hrest

end Program

end Privateer
