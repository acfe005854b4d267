import Mathlib.Data.List.Basic

set_option autoImplicit false

namespace Machines

/-- A labelled machine: `next s l` is `none` where label `l` cannot happen in state `s`. -/
structure Machine (State Label : Type) where
  next : State → Label → Option State

variable {State Label : Type}

namespace Machine

/-- Runs from `start` whose every step meets `allowed` in the state it is taken from. -/
inductive Run (machine : Machine State Label) (allowed : State → Label → Prop) (start : State) :
    List Label → State → Prop
  | nil : Run machine allowed start [] start
  | snoc {labels : List Label} {state after : State} (label : Label)
      (earlier : Run machine allowed start labels state) (meets : allowed state label)
      (step : machine.next state label = some after) :
      Run machine allowed start (labels ++ [label]) after

def anyStep (_ : State) (_ : Label) : Prop := True

instance (state : State) (label : Label) : Decidable (anyStep state label) := .isTrue trivial

def exec (machine : Machine State Label) (allowed : State → Label → Prop)
    [∀ state label, Decidable (allowed state label)] (start : State) : List Label → Option State
  | [] => some start
  | label :: rest =>
    if allowed start label then
      (machine.next start label).bind fun after => machine.exec allowed after rest
    else none

variable {machine : Machine State Label} {allowed other : State → Label → Prop}

theorem Run.invariant {start : State} (holds : State → Prop) (initially : holds start)
    (preserved : ∀ state label after, holds state → allowed state label →
      machine.next state label = some after → holds after)
    {labels : List Label} {state : State} (run : machine.Run allowed start labels state) :
    holds state := by
  induction run with
  | nil => exact initially
  | snoc label _ meets step ih => exact preserved _ _ _ ih meets step

theorem Run.strengthen {start : State} (holds : State → Prop) (initially : holds start)
    (preserved : ∀ state label after, holds state → allowed state label →
      machine.next state label = some after → holds after)
    (meetsOther : ∀ state label, holds state → allowed state label → other state label)
    {labels : List Label} {state : State} (run : machine.Run allowed start labels state) :
    machine.Run other start labels state := by
  induction run with
  | nil => exact .nil
  | snoc label earlier meets step ih =>
    have before := earlier.invariant holds initially preserved
    exact .snoc label ih (meetsOther _ _ before meets) step

theorem Run.append {start middle : State} {before later : List Label} {state : State}
    (first : machine.Run allowed start before middle)
    (second : machine.Run allowed middle later state) :
    machine.Run allowed start (before ++ later) state := by
  induction second with
  | nil => simpa using first
  | snoc label _ meets step ih =>
    rw [← List.append_assoc]
    exact .snoc label ih meets step

theorem run_of_exec [∀ state label, Decidable (allowed state label)] {start : State}
    {labels : List Label} {state : State}
    (executed : machine.exec allowed start labels = some state) :
    machine.Run allowed start labels state := by
  induction labels generalizing start with
  | nil =>
    obtain rfl : start = state := by simpa [exec] using executed
    exact .nil
  | cons label rest ih =>
    simp only [exec, Option.ite_none_right_eq_some, Option.bind_eq_some_iff] at executed
    obtain ⟨meets, middle, step, remaining⟩ := executed
    have first : machine.Run allowed start [label] middle := .snoc label .nil meets step
    exact first.append (ih remaining)

theorem exec_step {start after : State} {label : Label} (step : machine.next start label = some after)
    (rest : List Label) : machine.exec anyStep start (label :: rest) = machine.exec anyStep after rest := by
  simp [exec, anyStep, step]

structure Past (State : Type) where
  state : State
  earlier : List State := []

def Past.states (past : Past State) : List State := past.state :: past.earlier

def recorded (machine : Machine State Label) : Machine (Past State) Label :=
  ⟨fun past label => (machine.next past.state label).map fun after => ⟨after, past.states⟩⟩

end Machine

end Machines
