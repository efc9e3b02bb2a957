import Mathlib.Data.List.Basic

/-!
# Properties along a run

A run takes a state through a list of events. What is asked of every event and the state that
event finds is asked along the run.
-/

namespace Indexterity.Library

section
universe u v
variable {σ : Type u} {ε : Type v}

def Along (step : σ → ε → σ) (holds : σ → ε → Prop) : σ → List ε → Prop
  | _, [] => True
  | s, event :: events => holds s event ∧ Along step holds (step s event) events

namespace Along

variable {step : σ → ε → σ} {holds other : σ → ε → Prop} {Inv : σ → Prop}

instance decidable [∀ s event, Decidable (holds s event)] :
    ∀ s events, Decidable (Along step holds s events)
  | _, [] => .isTrue trivial
  | s, event :: events =>
    have := decidable (step s event) events
    inferInstanceAs (Decidable (_ ∧ _))

theorem of_inv (hstep : ∀ s event, Inv s → holds s event → Inv (step s event))
    (hother : ∀ s event, Inv s → holds s event → other s event) {s : σ} {events : List ε}
    (hs : Inv s) (h : Along step holds s events) : Along step other s events := by
  induction events generalizing s with
  | nil => trivial
  | cons event events ih => exact ⟨hother s event hs h.1, ih (hstep s event hs h.1) h.2⟩

end Along

end

/-!
## Steps that may fail

A sequence of steps succeeds when each of them does.
-/

universe u v w
variable {ε : Type u} {α β : Type v}

theorem bind_eq_ok_iff {x : Except ε α} {f : α → Except ε β} {b : β} :
    (x >>= f) = .ok b ↔ ∃ a, x = .ok a ∧ f a = .ok b := by
  cases x with
  | error e => simp [bind, Except.bind]
  | ok a => simp [bind, Except.bind]

theorem map_eq_ok_iff {x : Except ε α} {f : α → β} {b : β} :
    x.map f = .ok b ↔ ∃ a, x = .ok a ∧ f a = b := by
  cases x with
  | error e => simp [Except.map]
  | ok a => simp [Except.map]

theorem forM_eq_ok_iff {γ : Type w} {f : γ → Except ε PUnit} {xs : List γ} :
    xs.forM f = .ok ⟨⟩ ↔ ∀ x ∈ xs, f x = .ok ⟨⟩ := by
  induction xs with
  | nil => simp [pure, Except.pure]
  | cons x xs ih =>
    have hstep : (x :: xs).forM f = f x >>= fun _ => xs.forM f := rfl
    rw [hstep, bind_eq_ok_iff, List.forall_mem_cons, ← ih]
    constructor
    · rintro ⟨⟨⟩, hx, hxs⟩
      exact ⟨hx, hxs⟩
    · rintro ⟨hx, hxs⟩
      exact ⟨⟨⟩, hx, hxs⟩

end Indexterity.Library
