import Shiplog.Error

/-!
Actions on a state. An action ends with a value or an error and in either case
leaves a state, so what it changed before it failed stays changed.
-/
namespace Shiplog

/-- An action on a state of type `σ` that answers with an `α` or an error. -/
abbrev Action (σ : Type) := ExceptT Error (StateM σ)

namespace Action

variable {σ τ α : Type}

/-- The answer of an action started in a state, and the state it leaves. -/
def perform (act : Action σ α) (s : σ) : Except Error α × σ :=
  act.run.run s

/-- The action that answers with a given outcome and changes nothing. -/
def ofExcept (outcome : Except Error α) : Action σ α :=
  ExceptT.mk fun s => (outcome, s)

/-- The action with a given answer and successor for each state. -/
def ofStep (step : σ → Except Error α × σ) : Action σ α :=
  ExceptT.mk step

/-- The outcome of an action as a value, so that its error raises none. -/
def outcome (act : Action σ α) : Action σ (Except Error α) :=
  ExceptT.mk fun s => let (answer, s') := act.perform s; (.ok answer, s')

/-- An action on a part of the state, the rest kept. -/
def focus (part : σ → τ) (replace : σ → τ → σ) (act : Action τ α) : Action σ α :=
  ExceptT.mk fun s => let (answer, t) := act.perform (part s); (answer, replace s t)

/-- A function that reads the state and may fail. -/
def reading (look : σ → Except Error α) : Action σ α :=
  ExceptT.mk fun s => (look s, s)

/-! ## What performing an action gives -/

@[simp] theorem perform_pure (a : α) (s : σ) : (pure a : Action σ α).perform s = (.ok a, s) := rfl

@[simp] theorem perform_throw (e : Error) (s : σ) : (throw e : Action σ α).perform s = (.error e, s) := rfl

@[simp] theorem perform_ofExcept (outcome : Except Error α) (s : σ) :
    (ofExcept outcome).perform s = (outcome, s) := rfl

@[simp] theorem perform_ofStep (step : σ → Except Error α × σ) (s : σ) :
    (ofStep step).perform s = step s := rfl

@[simp] theorem perform_reading (look : σ → Except Error α) (s : σ) :
    (reading look).perform s = (look s, s) := rfl

@[simp] theorem perform_outcome (act : Action σ α) (s : σ) :
    act.outcome.perform s = (.ok (act.perform s).1, (act.perform s).2) := rfl

@[simp] theorem perform_focus (part : σ → τ) (replace : σ → τ → σ) (act : Action τ α) (s : σ) :
    (focus part replace act).perform s =
      ((act.perform (part s)).1, replace s (act.perform (part s)).2) := rfl

theorem perform_bind_ok {β : Type} {act : Action σ α} {next : α → Action σ β} {s s' : σ} {a : α}
    (first : act.perform s = (.ok a, s')) : (act >>= next).perform s = (next a).perform s' := by
  change act s = (.ok a, s') at first
  change (StateT.bind act (ExceptT.bindCont next)) s = next a s'
  simp [StateT.bind, first, ExceptT.bindCont, bind]

theorem perform_bind_error {β : Type} {act : Action σ α} {next : α → Action σ β} {s s' : σ} {e : Error}
    (first : act.perform s = (.error e, s')) : (act >>= next).perform s = (.error e, s') := by
  change act s = (.error e, s') at first
  change (StateT.bind act (ExceptT.bindCont next)) s = (.error e, s')
  simp only [StateT.bind, first, ExceptT.bindCont, bind]
  rfl

/-- An action in two parts ends well just when both parts do. -/
theorem perform_bind_eq_ok {β : Type} {act : Action σ α} {next : α → Action σ β} {s s₂ : σ} {b : β} :
    (act >>= next).perform s = (.ok b, s₂) ↔
      ∃ a s₁, act.perform s = (.ok a, s₁) ∧ (next a).perform s₁ = (.ok b, s₂) := by
  cases first : act.perform s with
  | mk answer s' =>
    cases answer with
    | error e => simp [perform_bind_error first]
    | ok a =>
      rw [perform_bind_ok first]
      constructor
      · exact fun second => ⟨a, s', rfl, second⟩
      · rintro ⟨_, _, same, second⟩
        cases same
        exact second

end Action
end Shiplog
