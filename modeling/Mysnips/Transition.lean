import Mathlib.Data.List.Basic
import Mathlib.Order.RelClasses

/-! Transition systems with executable steps. A component is its initial states
and a partial step function: an action that the component does not offer in a
state, or that ends in a fault, has no successor. Safety is proved once per step
and carried to every run by `Reachable.invariant`; a result about the runs that
avoid a known defect is a result about the restricted system. -/
namespace Mysnips.Transition

/-- The initial states, and what each action does to a state. -/
structure System (State : Type*) (Action : Type*) where
  initial : State → Prop
  next : State → Action → Option State

namespace System

variable {State Action : Type*} {M : System State Action}

/-- A run performs the actions of its trace in order, from an initial state. -/
inductive Run (M : System State Action) : List Action → State → Prop where
  | start {s : State} (begins : M.initial s) : Run M [] s
  | step {trace : List Action} {s s' : State} {a : Action} (before : Run M trace s)
      (moved : M.next s a = some s') : Run M (trace ++ [a]) s'

/-- The state is the last one of some run. -/
def Reachable (M : System State Action) (s : State) : Prop := ∃ trace, M.Run trace s

theorem Reachable.start {s : State} (begins : M.initial s) : M.Reachable s :=
  ⟨[], .start begins⟩

theorem Reachable.step {s s' : State} {a : Action} (before : M.Reachable s)
    (moved : M.next s a = some s') : M.Reachable s' := by
  obtain ⟨trace, run⟩ := before
  exact ⟨trace ++ [a], .step run moved⟩

/-- What holds initially and survives each step from a reachable state holds in
every reachable state. -/
theorem Reachable.invariant {P : State → Prop} {s : State} (reached : M.Reachable s)
    (begins : ∀ s, M.initial s → P s)
    (preserved : ∀ s a s', M.Reachable s → P s → M.next s a = some s' → P s') :
    P s := by
  obtain ⟨trace, run⟩ := reached
  induction run with
  | start begun => exact begins _ begun
  | step before moved ih => exact preserved _ _ _ ⟨_, before⟩ ih moved

/-- Perform a list of actions, stopping without a result at the first one that
the system does not offer. -/
def replay (M : System State Action) (s : State) (actions : List Action) : Option State :=
  actions.foldlM M.next s

theorem replay_singleton {s : State} {a : Action} : M.replay s [a] = M.next s a := by
  simp [System.replay]

theorem replay_append {s : State} (actions later : List Action) :
    M.replay s (actions ++ later) = (M.replay s actions).bind fun s' => M.replay s' later := by
  rw [System.replay, List.foldlM_append]
  rfl

/-- What survives each step of a list of actions survives the list. -/
theorem replay_invariant {P : State → Prop} {actions : List Action}
    (preserved : ∀ s, ∀ a ∈ actions, ∀ s', P s → M.next s a = some s' → P s') {s s' : State}
    (holds : P s) (replayed : M.replay s actions = some s') : P s' := by
  induction actions generalizing s with
  | nil =>
    simp only [System.replay, List.foldlM_nil] at replayed
    cases replayed
    exact holds
  | cons a rest ih =>
    simp only [System.replay, List.foldlM_cons] at replayed
    cases moved : M.next s a with
    | none => simp [moved] at replayed
    | some middle =>
      simp only [moved] at replayed
      refine ih (fun s b member => preserved s b (List.mem_cons_of_mem a member)) ?_ replayed
      exact preserved _ _ List.mem_cons_self _ holds moved

theorem Reachable.replay {s s' : State} (before : M.Reachable s) (actions : List Action)
    (replayed : M.replay s actions = some s') : M.Reachable s' :=
  replay_invariant (fun _ _ _ _ => Reachable.step) before replayed

/-- A list of actions that can be performed ends in a reachable state, which a check can
describe. -/
theorem Reachable.replay_check {s : State} (before : M.Reachable s) (actions : List Action)
    (check : State → Bool) (passed : (M.replay s actions).any check = true) :
    ∃ s', M.Reachable s' ∧ check s' = true := by
  cases replayed : M.replay s actions with
  | none => simp [replayed] at passed
  | some s' => exact ⟨s', before.replay actions replayed, by simpa [replayed] using passed⟩

/-- Where each state that has not come to the goal offers a step that brings it nearer, the goal
can be reached. -/
theorem replay_progress {Rank : Type*} [LT Rank] [WellFoundedLT Rank] {P : State → Prop}
    (goal : State → Prop) (allowed : Action → Prop) (distance : State → Rank)
    (nearer : ∀ s, P s → ¬ goal s → ∃ a s', allowed a ∧ M.next s a = some s' ∧ P s' ∧
      distance s' < distance s) {s : State} (holds : P s) :
    ∃ actions s', M.replay s actions = some s' ∧ (∀ a ∈ actions, allowed a) ∧ P s' ∧ goal s' := by
  induction far : distance s using WellFoundedLT.induction generalizing s with
  | ind n ih =>
    by_cases there : goal s
    · exact ⟨[], s, rfl, by simp, holds, there⟩
    · obtain ⟨a, middle, may, moved, kept, closer⟩ := nearer s holds there
      obtain ⟨actions, s', replayed, mays, rest⟩ := ih _ (far ▸ closer) kept rfl
      refine ⟨a :: actions, s', ?_, ?_, rest⟩
      · rw [System.replay, List.foldlM_cons, moved]
        exact replayed
      · intro b member
        rcases List.mem_cons.mp member with rfl | later
        · exact may
        · exact mays b later

/-- A system refines another when each of its steps is a step of the other, or none, for a relation
between their states. -/
theorem Reachable.refines {State' Action' : Type*} {N : System State' Action'}
    {R : State → State' → Prop} {s : State} (reached : M.Reachable s)
    (begins : ∀ s, M.initial s → ∃ t, N.initial t ∧ R s t)
    (steps : ∀ s a s' t, R s t → M.next s a = some s' →
      R s' t ∨ ∃ b t', N.next t b = some t' ∧ R s' t') : ∃ t, N.Reachable t ∧ R s t := by
  refine reached.invariant (P := fun s => ∃ t, N.Reachable t ∧ R s t) (fun s begun => ?_) ?_
  · obtain ⟨t, initial, related⟩ := begins s begun
    exact ⟨t, .start initial, related⟩
  · rintro s a s' - ⟨t, before, related⟩ moved
    rcases steps s a s' t related moved with still | ⟨b, t', stepped, related'⟩
    · exact ⟨t, before, still⟩
    · exact ⟨t', before.step stepped, related'⟩

/-- The system that takes only the steps meeting a condition on the state before
the step and on the action. -/
def restrict (M : System State Action) (allowed : State → Action → Prop)
    [∀ s a, Decidable (allowed s a)] : System State Action where
  initial := M.initial
  next s a := if allowed s a then M.next s a else none

theorem restrict_next {allowed : State → Action → Prop} [∀ s a, Decidable (allowed s a)]
    {s s' : State} {a : Action} :
    (M.restrict allowed).next s a = some s' ↔ allowed s a ∧ M.next s a = some s' := by
  by_cases met : allowed s a <;> simp [restrict, met]

/-- A run of the restricted system is a run of the system. -/
theorem Reachable.of_restrict {allowed : State → Action → Prop} [∀ s a, Decidable (allowed s a)]
    {s : State} (reached : (M.restrict allowed).Reachable s) : M.Reachable s :=
  reached.invariant (fun _ begins => .start begins)
    (fun _ _ _ _ before moved => before.step (restrict_next.mp moved).2)

/-- The system with a history beside each state, and with what each step adds to it. -/
def track {History : Type*} (M : System State Action) (blank : History)
    (extend : State → Action → State → History → History) : System (State × History) Action where
  initial tracked := M.initial tracked.1 ∧ tracked.2 = blank
  next tracked a := (M.next tracked.1 a).map fun s' => (s', extend tracked.1 a s' tracked.2)

/-- A history does not interfere with the steps. -/
theorem track_reachable {History : Type*} {blank : History}
    {extend : State → Action → State → History → History} {s : State} :
    (∃ history, (M.track blank extend).Reachable (s, history)) ↔ M.Reachable s := by
  constructor
  · rintro ⟨history, reached⟩
    refine reached.invariant (P := fun tracked : State × History => M.Reachable tracked.1)
      (fun _ begins => .start begins.1) fun tracked a tracked' _ before moved => ?_
    obtain ⟨s', stepped, rfl⟩ := Option.map_eq_some_iff.mp moved
    exact before.step stepped
  · intro reached
    refine reached.invariant (P := fun s => ∃ history, (M.track blank extend).Reachable (s, history))
      (fun _ begins => ⟨blank, .start ⟨begins, rfl⟩⟩) ?_
    rintro s a s' - ⟨history, before⟩ moved
    exact ⟨_, before.step (Option.map_eq_some_iff.mpr ⟨s', moved, rfl⟩)⟩

/-- The system with the operations that its steps have performed. -/
def recording {Operation : Type*} (M : System State Action)
    (performs : State → Action → List Operation) : System (State × List Operation) Action :=
  M.track [] fun s a _ performed => performed ++ performs s a

/-- Where each step of a system performs operations that another system can take, the operations
of a run are a run of the other. -/
theorem Reachable.replays {State' Operation : Type*} {N : System State' Operation}
    {performs : State → Action → List Operation} {R : State → State' → Prop} {s : State}
    {performed : List Operation} (reached : (M.recording performs).Reachable (s, performed))
    (begins : ∀ s, M.initial s → ∃ t, N.initial t ∧ R s t)
    (steps : ∀ s a s' t, R s t → M.next s a = some s' →
      ∃ t', N.replay t (performs s a) = some t' ∧ R s' t') :
    ∃ t₀ t, N.initial t₀ ∧ N.replay t₀ performed = some t ∧ R s t := by
  refine reached.invariant (P := fun tracked : State × List Operation => ∃ t₀ t, N.initial t₀ ∧
    N.replay t₀ tracked.2 = some t ∧ R tracked.1 t) ?_ ?_
  · rintro ⟨s, performed⟩ ⟨begun, rfl⟩
    obtain ⟨t, initial, related⟩ := begins s begun
    exact ⟨t, t, initial, rfl, related⟩
  · rintro ⟨s, performed⟩ a tracked' - ⟨t₀, t, initial, replayed, related⟩ moved
    obtain ⟨s', stepped, rfl⟩ := Option.map_eq_some_iff.mp moved
    obtain ⟨t', later, related'⟩ := steps s a s' t related stepped
    refine ⟨t₀, t', initial, ?_, related'⟩
    rw [replay_append, replayed]
    exact later

end System

section Faults

variable {Fault α β : Type*} {first : Except Fault α} {rest : α → Except Fault β} {fault : Fault}

/-- A sequence of operations that succeeds. -/
theorem bind_ok {result : β} (ran : Except.bind first rest = .ok result) :
    ∃ a, first = .ok a ∧ rest a = .ok result := by
  cases first with
  | error fault => cases ran
  | ok a => exact ⟨a, rfl, ran⟩

/-- A sequence of operations that stops: at the first one or behind it. -/
theorem bind_error (stopped : Except.bind first rest = .error fault) :
    first = .error fault ∨ ∃ a, first = .ok a ∧ rest a = .error fault := by
  cases first with
  | error fault =>
    cases stopped
    exact .inl rfl
  | ok a => exact .inr ⟨a, rfl, stopped⟩

theorem toOption_ok {a : α} (some : first.toOption = some a) : first = .ok a := by
  cases first with
  | error fault => cases some
  | ok b =>
    cases some
    rfl

end Faults

/-- An entry of a log that was extended is one of the old entries or one of the new ones. -/
theorem append_eq_append_cons {Entry : Type*} {log new before after : List Entry} {entry : Entry}
    (split : log ++ new = before ++ entry :: after) :
    (∃ rest, log = before ++ entry :: rest ∧ after = rest ++ new) ∨
      ∃ middle, before = log ++ middle ∧ new = middle ++ entry :: after := by
  rcases List.append_eq_append_iff.mp split with ⟨middle, rfl, rest⟩ | ⟨middle, rfl, rest⟩
  · exact .inr ⟨middle, rfl, rest⟩
  · cases middle with
    | nil => exact .inr ⟨[], by simp, rest.symm⟩
    | cons first middle =>
      obtain ⟨rfl, rfl⟩ := List.cons.inj rest
      exact .inl ⟨middle, rfl, rfl⟩

end Mysnips.Transition
