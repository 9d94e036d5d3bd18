import Mathlib
import Shiplog.Edit
import Shiplog.Mounted

/-!
What performing an action gives, part by part: the laws by which the programs of
the log, the engine and the node are followed step by step. An action in two parts
performs the second where the first left off (`perform_bind`), and every action on
a mounted value shows its answer, the tree and the value it leaves.
-/
namespace Shiplog
namespace Action

variable {σ τ α β : Type}

theorem perform_bind (act : Action σ α) (next : α → Action σ β) (s : σ) :
    (act >>= next).perform s =
      match act.perform s with
      | (.ok a, s') => (next a).perform s'
      | (.error e, s') => (.error e, s') := by
  cases first : act.perform s with
  | mk answer s' =>
    cases answer with
    | ok a => exact perform_bind_ok first
    | error e => exact perform_bind_error first

@[simp] theorem perform_map (f : α → β) (act : Action σ α) (s : σ) :
    (f <$> act).perform s = ((act.perform s).1.map f, (act.perform s).2) := by
  rw [map_eq_pure_bind, perform_bind]
  split <;> simp_all [Except.map]

theorem perform_tryCatch (act : Action σ α) (handler : Error → Action σ α) (s : σ) :
    (tryCatch act handler).perform s =
      match act.perform s with
      | (.ok a, s') => (.ok a, s')
      | (.error e, s') => (handler e).perform s' := by
  cases first : act.perform s with
  | mk answer s' =>
    change act s = (answer, s') at first
    cases answer with
    | ok a =>
      simp [tryCatch, tryCatchThe, MonadExceptOf.tryCatch, ExceptT.tryCatch, perform, ExceptT.run, ExceptT.mk,
        StateT.run, bind, StateT.bind, first, pure, StateT.pure]
    | error e =>
      simp [tryCatch, tryCatchThe, MonadExceptOf.tryCatch, ExceptT.tryCatch, perform, ExceptT.run, ExceptT.mk,
        StateT.run, bind, StateT.bind, first]

theorem perform_forM_cons (act : α → Action σ Unit) (a : α) (rest : List α) (s : σ) :
    ((a :: rest).forM act).perform s =
      match (act a).perform s with
      | (.ok (), s') => (rest.forM act).perform s'
      | (.error e, s') => (.error e, s') := by
  change (act a >>= fun _ => rest.forM act).perform s = _
  rw [perform_bind]
  rcases (act a).perform s with ⟨_ | _, _⟩ <;> rfl

/-! ## Actions that move a state in some way only -/

variable {R : σ → σ → Prop}

/-- An action that takes every state to a related one, whatever its answer. -/
def Obeys (R : σ → σ → Prop) (act : Action σ α) : Prop := ∀ s, R s (act.perform s).2

/-- An action in two parts, the first of which takes this state to a related one. -/
theorem Obeys.after [IsTrans σ R] {act : Action σ α} {next : α → Action σ β} {s : σ} (first : R s (act.perform s).2)
    (later : ∀ a, Obeys R (next a)) : R s ((act >>= next).perform s).2 := by
  rw [perform_bind]
  rcases done : act.perform s with ⟨_ | a, s'⟩
  · rw [done] at first
    exact first
  · rw [done] at first
    exact IsTrans.trans _ _ _ first (later a s')

theorem Obeys.bind [IsTrans σ R] {act : Action σ α} {next : α → Action σ β} (first : Obeys R act)
    (later : ∀ a, Obeys R (next a)) : Obeys R (act >>= next) := fun s => Obeys.after (first s) later

theorem Obeys.ofExcept [Std.Refl R] (outcome : Except Error α) : Obeys R (Action.ofExcept outcome : Action σ α) :=
  fun s => Std.Refl.refl s

theorem Obeys.reading [Std.Refl R] (look : σ → Except Error α) : Obeys R (Action.reading look) :=
  fun s => Std.Refl.refl s

theorem Obeys.tryCatch [IsTrans σ R] {act : Action σ α} {handler : Error → Action σ α} (first : Obeys R act)
    (later : ∀ e, Obeys R (handler e)) : Obeys R (tryCatch act handler) := by
  intro s
  have moved := first s
  rw [perform_tryCatch]
  rcases done : act.perform s with ⟨e | a, s'⟩
  · rw [done] at moved
    exact IsTrans.trans _ _ _ moved (later e s')
  · rw [done] at moved
    exact moved

theorem Obeys.outcome {act : Action σ α} (obeys : Obeys R act) : Obeys R act.outcome := obeys

theorem Obeys.forM_mem [IsPreorder σ R] {act : α → Action σ Unit} {items : List α}
    (each : ∀ a ∈ items, Obeys R (act a)) : Obeys R (items.forM act) := by
  induction items with
  | nil => exact .ofExcept (.ok ())
  | cons a rest ih => exact (each a List.mem_cons_self).bind fun _ => ih fun b member => each b (.tail a member)

theorem Obeys.forM [IsPreorder σ R] {act : α → Action σ Unit} (each : ∀ a, Obeys R (act a)) (items : List α) :
    Obeys R (items.forM act) := .forM_mem fun a _ => each a

end Action

namespace Mounted

variable {α β γ : Type} (m : Mounted α)

@[simp] theorem perform_current : (current : Action (Mounted α) α).perform m = (.ok m.item, m) := rfl

@[simp] theorem perform_update (f : α → α) :
    (update f).perform m = (.ok (), { m with item := f m.item }) := rfl

@[simp] theorem perform_look (f : FileTree → Except Fault γ) :
    (look f : Action (Mounted α) γ).perform m = ((f m.disk).mapError .io, m) := rfl

@[simp] theorem perform_reading (f : FileTree → α → Except Error γ) :
    (reading f).perform m = (f m.disk m.item, m) := rfl

theorem perform_change {f : FileTree → Except Fault FileTree} {disk : FileTree} (done : f m.disk = .ok disk) :
    (change f : Action (Mounted α) Unit).perform m = (.ok (), { m with disk }) := by
  simp [change, done]

@[simp] theorem perform_focus (part : α → β) (replace : α → β → α) (act : Action (Mounted β) γ) :
    (focus part replace act).perform m =
      ((act.perform ⟨m.disk, part m.item⟩).1,
        ⟨(act.perform ⟨m.disk, part m.item⟩).2.disk,
          replace m.item (act.perform ⟨m.disk, part m.item⟩).2.item⟩) := rfl

end Mounted

namespace Edit

theorem perform_change {f : FileTree → Except Fault FileTree} {disk disk' : FileTree} (done : f disk = .ok disk') :
    (change f).perform disk = (.ok (), disk') := by
  simp [change, done]

end Edit
end Shiplog
