-- SUMMARY: Straight-line programs that may be cut short: what holds wherever one stops.
import Mathlib.Data.List.Basic

/-!
# Programs that may be cut short

A program is a list of statements, and an execution that is cut short took the first
few. `Throughout` is the postcondition for that: it holds of the state that the
program finds, and of the state after each of its statements. The rules follow the
program from front to back, as those for an ordinary postcondition do.
-/

namespace Interrupted
variable {σ α : Type*} {step : σ → α → σ} {P : σ → Prop} {s : σ} {a : α} {as bs : List α}

/-- `P` holds wherever the program stops. -/
def Throughout (step : σ → α → σ) (P : σ → Prop) (s : σ) (as : List α) : Prop :=
  ∀ taken, P ((as.take taken).foldl step s)

theorem throughout_nil : Throughout step P s [] ↔ P s := by
  simp [Throughout]

theorem throughout_cons :
    Throughout step P s (a :: as) ↔ P s ∧ Throughout step P (step s a) as := by
  constructor
  · intro h
    exact ⟨h 0, fun taken => h (taken + 1)⟩
  · rintro ⟨hs, h⟩ taken
    cases taken with
    | zero => exact hs
    | succ taken => exact h taken

theorem throughout_append :
    Throughout step P s (as ++ bs) ↔
      Throughout step P s as ∧ Throughout step P (as.foldl step s) bs := by
  induction as generalizing s with
  | nil =>
      rw [throughout_nil, List.nil_append, List.foldl_nil]
      exact ⟨fun h => ⟨h 0, h⟩, And.right⟩
  | cons a as ih => rw [List.cons_append, throughout_cons, throughout_cons, ih, and_assoc,
      List.foldl_cons]

/-- It stops at its end if nothing cuts it short. -/
theorem Throughout.last (h : Throughout step P s as) : P (as.foldl step s) := by
  simpa using h as.length

/-- What every statement keeps holds throughout. -/
theorem throughout_of_invariant (hs : P s) (hstep : ∀ a ∈ as, ∀ s, P s → P (step s a)) :
    Throughout step P s as := by
  induction as generalizing s with
  | nil => exact throughout_nil.mpr hs
  | cons a as ih =>
      rw [throughout_cons]
      refine ⟨hs, ih (hstep a List.mem_cons_self s hs) ?_⟩
      exact fun b hb => hstep b (List.mem_cons_of_mem a hb)

end Interrupted
