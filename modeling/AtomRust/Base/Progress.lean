-- SUMMARY: Progress: what a transition system can still get to with a given set of actions.
import AtomRust.Base.Transition

/-!
# Progress

`Leads step A P s` says that some run from `s`, all of whose actions satisfy `A`, ends
with `P`. With it "is never stuck" is stated without a scheduler: whatever has happened so
far, the actions of `A` are enough to get there.

The rules are those of a reflexive and transitive reachability, the induction over a
measure, and the one for a component whose steps are steps of the whole.
-/

namespace Transition
variable {σ α τ β : Type*} {step : σ → α → Option σ} {A : α → Prop} {P Q : σ → Prop} {s s' : σ}
  {a : α}

def Leads (step : σ → α → Option σ) (A : α → Prop) (P : σ → Prop) (s : σ) : Prop :=
  ∃ as s', (∀ a ∈ as, A a) ∧ run step s as = some s' ∧ P s'

namespace Leads

theorem refl (h : P s) : Leads step A P s := ⟨[], s, nofun, rfl, h⟩

theorem cons (ha : A a) (hs : step s a = some s') (h : Leads step A P s') : Leads step A P s := by
  obtain ⟨as, t, has, hrun, ht⟩ := h
  exact ⟨a :: as, t, List.forall_mem_cons.mpr ⟨ha, has⟩, run_cons_eq_some.mpr ⟨s', hs, hrun⟩, ht⟩

theorem mono (h : Leads step A P s) (hPQ : ∀ t, P t → Q t) : Leads step A Q s := by
  obtain ⟨as, t, has, hrun, ht⟩ := h
  exact ⟨as, t, has, hrun, hPQ t ht⟩

theorem weaken {B : α → Prop} (h : Leads step A P s) (hAB : ∀ a, A a → B a) : Leads step B P s := by
  obtain ⟨as, t, has, hrun, ht⟩ := h
  exact ⟨as, t, fun a ha => hAB a (has a ha), hrun, ht⟩

theorem trans (h : Leads step A Q s) (hQ : ∀ t, Q t → Leads step A P t) : Leads step A P s := by
  obtain ⟨as, t, has, hrun, ht⟩ := h
  obtain ⟨bs, u, hbs, hrun', hu⟩ := hQ t ht
  refine ⟨as ++ bs, u, fun a ha => ?_, run_append_eq_some.mpr ⟨t, hrun, hrun'⟩, hu⟩
  rcases List.mem_append.mp ha with ha | ha
  · exact has a ha
  · exact hbs a ha

/-- From wherever it is not there yet, it gets there or nearer. -/
theorem of_measure (μ : σ → ℕ)
    (h : ∀ s, Q s → Leads step A (fun t => P t ∨ Q t ∧ μ t < μ s) s) (hs : Q s) :
    Leads step A P s := by
  generalize hn : μ s = n
  induction n using Nat.strongRecOn generalizing s with
  | ind n ih =>
      refine (h s hs).trans fun t ht => ?_
      rcases ht with hp | ⟨hq, hlt⟩
      · exact refl hp
      · exact ih (μ t) (hn ▸ hlt) hq rfl

/-- Every step of the component, which is at `t`, is a step of the whole, which is at `s`. -/
theorem embed {step' : τ → β → Option τ} {B : β → Prop} {R : σ → τ → Prop} {P' : τ → Prop} {t : τ}
    (hR : ∀ s t b t', R s t → B b → step' t b = some t' →
      ∃ a s', A a ∧ step s a = some s' ∧ R s' t')
    (hst : R s t) (h : Leads step' B P' t) : Leads step A (fun s' => ∃ t', R s' t' ∧ P' t') s := by
  obtain ⟨bs, t', hbs, hrun, hP⟩ := h
  induction bs generalizing s t with
  | nil =>
      obtain rfl : t = t' := Option.some.inj hrun
      exact refl ⟨t, hst, hP⟩
  | cons b bs ih =>
      obtain ⟨hb, hbs⟩ := List.forall_mem_cons.mp hbs
      obtain ⟨u, hu, hrun⟩ := run_cons_eq_some.mp hrun
      obtain ⟨a, s', ha, hs, hsu⟩ := hR s t b u hst hb hu
      exact cons ha hs (ih hsu hbs hrun)

end Leads

end Transition
