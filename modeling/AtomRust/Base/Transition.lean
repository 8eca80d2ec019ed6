-- SUMMARY: Deterministic labelled transition systems: runs, reachability, and the rules for invariants, histories and projections.
import Mathlib.Data.List.Induction

/-!
# Transition systems

A system is a predicate on initial states together with a partial step
function. The label of a step carries every choice that the system does not
make for itself (which task moves, what the environment answers), so that
`step` is a function and a run is determined by its first state and its labels.

The rules below package the inductions over runs. `run_history` is for an
invariant that relates the state to the labels taken so far,
`Reachable.invariant` for one that only reads the state, and `run_project` for
a component of a larger system, whose steps read as steps of a system of its
own.
-/

namespace Transition

/-- `step s a = none` says that the action `a` is not enabled in `s`. -/
structure System (σ α : Type*) where
  init : σ → Prop
  step : σ → α → Option σ

variable {σ α τ β : Type*}

/-- Take the actions in order, starting from `s`. -/
def run (step : σ → α → Option σ) : σ → List α → Option σ
  | s, [] => some s
  | s, a :: as => (step s a).bind fun t => run step t as

section Run
variable {step : σ → α → Option σ}

theorem run_cons (s : σ) (a : α) (as : List α) :
    run step s (a :: as) = (step s a).bind fun t => run step t as := rfl

theorem run_cons_eq_some {s s' : σ} {a : α} {as : List α} :
    run step s (a :: as) = some s' ↔ ∃ t, step s a = some t ∧ run step t as = some s' := by
  rw [run_cons, Option.bind_eq_some_iff]

theorem run_append (s : σ) (as bs : List α) :
    run step s (as ++ bs) = (run step s as).bind fun t => run step t bs := by
  induction as generalizing s with
  | nil => rfl
  | cons a as ih =>
      simp only [List.cons_append, run_cons]
      cases h : step s a with
      | none => rfl
      | some t => exact ih t

theorem run_append_eq_some {s s' : σ} {as bs : List α} :
    run step s (as ++ bs) = some s' ↔
      ∃ t, run step s as = some t ∧ run step t bs = some s' := by
  rw [run_append, Option.bind_eq_some_iff]

theorem run_singleton (s : σ) (a : α) : run step s [a] = step s a := by
  rw [run_cons]
  cases h : step s a <;> rfl

theorem run_concat_eq_some {s s' : σ} {as : List α} {a : α} :
    run step s (as ++ [a]) = some s' ↔ ∃ t, run step s as = some t ∧ step t a = some s' := by
  simp only [run_append_eq_some, run_singleton]

/-- Induction over a run from its last step: `I` may speak about the actions
taken so far as well as about the state they led to. -/
theorem run_history {s₀ : σ} {I : List α → σ → Prop} (nil : I [] s₀)
    (snoc : ∀ as s a s', run step s₀ as = some s → I as s → step s a = some s' →
      I (as ++ [a]) s') :
    ∀ as s, run step s₀ as = some s → I as s := by
  intro as
  induction as using List.reverseRecOn with
  | nil =>
      intro s h
      obtain rfl : s₀ = s := Option.some.inj h
      exact nil
  | append_singleton as a ih =>
      intro s' h
      obtain ⟨s, hs, ha⟩ := run_concat_eq_some.mp h
      exact snoc as s a s' hs (ih s hs) ha

/-- What every step keeps, every run keeps. -/
theorem run_invariant {I : σ → Prop} (hstep : ∀ s a s', I s → step s a = some s' → I s')
    {s s' : σ} {as : List α} (h : run step s as = some s') (hs : I s) : I s' :=
  run_history (I := fun _ t => I t) hs (fun _ t a t' _ ht ha => hstep t a t' ht ha) as s' h

/-- The same for steps whose action satisfies `P`. -/
theorem run_invariant_of {P : α → Prop} {I : σ → Prop}
    (hstep : ∀ s a s', P a → I s → step s a = some s' → I s') {s s' : σ} {as : List α}
    (hP : ∀ a ∈ as, P a) (h : run step s as = some s') (hs : I s) : I s' := by
  induction as generalizing s with
  | nil =>
      obtain rfl : s = s' := Option.some.inj h
      exact hs
  | cons a as ih =>
      obtain ⟨t, ha, ht⟩ := run_cons_eq_some.mp h
      exact ih (fun b hb => hP b (List.mem_cons_of_mem _ hb)) ht
        (hstep s a t (hP a List.mem_cons_self) hs ha)

/-- An action that leads from `P` to `P` can be repeated. -/
theorem exists_run_replicate {P : σ → Prop} {a : α}
    (hstep : ∀ s, P s → ∃ s', step s a = some s' ∧ P s') (n : Nat) {s : σ} (hs : P s) :
    ∃ s', run step s (List.replicate n a) = some s' ∧ P s' := by
  induction n generalizing s with
  | zero => exact ⟨s, rfl, hs⟩
  | succ n ih =>
      obtain ⟨t, ha, ht⟩ := hstep s hs
      obtain ⟨s', h, hs'⟩ := ih ht
      exact ⟨s', run_cons_eq_some.mpr ⟨t, ha, h⟩, hs'⟩

end Run

/-! ## The steps of a run -/

section Along
variable {step : σ → α → Option σ} {s₀ : σ} {as : List α} {a : α} {P : σ → α → Prop}

/-- Every step of the run meets `P`, seen in the state before it. -/
def Always (step : σ → α → Option σ) (s₀ : σ) (as : List α) (P : σ → α → Prop) : Prop :=
  ∀ bs a t, bs ++ [a] <+: as → run step s₀ bs = some t → P t a

/-- Some step of the run meets `P`. -/
def Sometime (step : σ → α → Option σ) (s₀ : σ) (as : List α) (P : σ → α → Prop) : Prop :=
  ∃ bs a t, bs ++ [a] <+: as ∧ run step s₀ bs = some t ∧ P t a

theorem always_nil : Always step s₀ [] P := by
  intro bs a t h
  simp at h

theorem always_cons :
    Always step s₀ (a :: as) P ↔ P s₀ a ∧ ∀ t, step s₀ a = some t → Always step t as P := by
  constructor
  · intro h
    refine ⟨h [] a s₀ (List.prefix_append [a] as) rfl, fun t ha bs b u hbs hu => ?_⟩
    exact h (a :: bs) b u ((List.prefix_cons_inj a).mpr hbs)
      (run_cons_eq_some.mpr ⟨t, ha, hu⟩)
  · rintro ⟨ha, h⟩ bs b u hbs hu
    cases bs with
    | nil =>
        cases hu
        obtain ⟨rfl, -⟩ := List.cons_prefix_cons.mp hbs
        exact ha
    | cons c bs =>
        obtain ⟨rfl, hbs'⟩ := List.cons_prefix_cons.mp hbs
        obtain ⟨t, hc, hu⟩ := run_cons_eq_some.mp hu
        exact h t hc bs b u hbs' hu

/-- One more step at the front of a run. -/
theorem always_run_cons {t s' : σ} (ha : step s₀ a = some t) (hP : P s₀ a)
    (h : run step t as = some s' ∧ Always step t as P) :
    run step s₀ (a :: as) = some s' ∧ Always step s₀ (a :: as) P := by
  refine ⟨run_cons_eq_some.mpr ⟨t, ha, h.1⟩, always_cons.mpr ⟨hP, fun u hu => ?_⟩⟩
  obtain rfl := Option.some.inj (ha.symm.trans hu)
  exact h.2

theorem always_run_append {t s' : σ} {bs : List α}
    (h : run step s₀ as = some t ∧ Always step s₀ as P)
    (h' : run step t bs = some s' ∧ Always step t bs P) :
    run step s₀ (as ++ bs) = some s' ∧ Always step s₀ (as ++ bs) P := by
  induction as generalizing s₀ with
  | nil =>
      cases h.1
      exact h'
  | cons a as ih =>
      obtain ⟨u, ha, hu⟩ := run_cons_eq_some.mp h.1
      obtain ⟨hP, hrest⟩ := always_cons.mp h.2
      exact always_run_cons ha hP (ih ⟨hu, hrest u ha⟩)

/-- What every step that meets `P` keeps, a run of such steps keeps. -/
theorem run_invariant_always {I : σ → Prop}
    (hstep : ∀ s a s', P s a → I s → step s a = some s' → I s') {s : σ}
    (h : run step s₀ as = some s) (hP : Always step s₀ as P) (h₀ : I s₀) : I s := by
  induction as generalizing s₀ with
  | nil =>
      cases h
      exact h₀
  | cons a as ih =>
      obtain ⟨t, ha, ht⟩ := run_cons_eq_some.mp h
      obtain ⟨hfirst, hrest⟩ := always_cons.mp hP
      exact ih ht (hrest t ha) (hstep s₀ a t hfirst h₀ ha)

theorem always_concat :
    Always step s₀ (as ++ [a]) P ↔
      Always step s₀ as P ∧ ∀ t, run step s₀ as = some t → P t a := by
  constructor
  · intro h
    exact ⟨fun bs b t hbs => h bs b t (hbs.trans (List.prefix_append as [a])),
      fun t => h as a t List.prefix_rfl⟩
  · rintro ⟨h, ha⟩ bs b t hbs ht
    rcases List.prefix_concat_iff.mp hbs with heq | hbs
    · obtain ⟨rfl, hb⟩ := List.append_inj' heq rfl
      obtain rfl := List.singleton_inj.mp hb
      exact ha t ht
    · exact h bs b t hbs ht

theorem sometime_iff_not_always :
    Sometime step s₀ as P ↔ ¬ Always step s₀ as fun t a => ¬ P t a := by
  simp only [Sometime, Always, not_forall, not_not, exists_prop]

theorem not_sometime_nil : ¬ Sometime step s₀ [] P := fun h =>
  sometime_iff_not_always.mp h always_nil

theorem sometime_concat :
    Sometime step s₀ (as ++ [a]) P ↔
      Sometime step s₀ as P ∨ ∃ t, run step s₀ as = some t ∧ P t a := by
  simp only [sometime_iff_not_always, always_concat, not_and_or, not_forall, not_not, exists_prop]

end Along

/-- If each step of the large system is, seen through `f`, a step of the small one
or no step at all, each run of the large system is a run of the small one. -/
theorem run_project {step : σ → α → Option σ} {step' : τ → β → Option τ} {f : σ → τ}
    (hstep : ∀ s a s', step s a = some s' → f s' = f s ∨ ∃ b, step' (f s) b = some (f s'))
    {s s' : σ} {as : List α} (h : run step s as = some s') :
    ∃ bs, run step' (f s) bs = some (f s') := by
  refine run_history (I := fun _ t => ∃ bs, run step' (f s) bs = some (f t)) ⟨[], rfl⟩ ?_ as s' h
  rintro _ t a t' _ ⟨bs, hbs⟩ ha
  rcases hstep t a t' ha with heq | ⟨b, hb⟩
  · exact ⟨bs, heq ▸ hbs⟩
  · exact ⟨bs ++ [b], run_concat_eq_some.mpr ⟨f t, hbs, hb⟩⟩

namespace System
variable {S : System σ α}

/-- The states that some run from an initial state ends in. -/
def Reachable (S : System σ α) (s : σ) : Prop :=
  ∃ s₀ as, S.init s₀ ∧ run S.step s₀ as = some s

theorem Reachable.init {s : σ} (h : S.init s) : S.Reachable s := ⟨s, [], h, rfl⟩

theorem Reachable.run {s s' : σ} {as : List α} (h : S.Reachable s)
    (hr : run S.step s as = some s') : S.Reachable s' := by
  obtain ⟨s₀, bs, h₀, hb⟩ := h
  exact ⟨s₀, bs ++ as, h₀, run_append_eq_some.mpr ⟨s, hb, hr⟩⟩

/-- A run that goes through reaches its last state. -/
theorem Reachable.of_run {s : σ} {as : List α} (h₀ : S.init s)
    (h : (Transition.run S.step s as).isSome) :
    S.Reachable ((Transition.run S.step s as).get h) :=
  ⟨s, as, h₀, (Option.some_get h).symm⟩

theorem Reachable.step {s s' : σ} {a : α} (h : S.Reachable s) (ha : S.step s a = some s') :
    S.Reachable s' := by
  obtain ⟨s₀, as, h₀, hr⟩ := h
  exact ⟨s₀, as ++ [a], h₀, run_concat_eq_some.mpr ⟨s, hr, ha⟩⟩

/-- A predicate that holds initially and that every step from a reachable state
keeps holds in every reachable state. -/
theorem Reachable.invariant {I : σ → Prop} (h₀ : ∀ s, S.init s → I s)
    (hstep : ∀ s a s', S.Reachable s → I s → S.step s a = some s' → I s') {s : σ}
    (h : S.Reachable s) : I s := by
  obtain ⟨s₀, as, hi, hr⟩ := h
  exact run_history (I := fun _ t => I t) (h₀ s₀ hi)
    (fun bs t a t' ht hIt ha => hstep t a t' ⟨s₀, bs, hi, ht⟩ hIt ha) as s hr

/-- A reachable state of the large system is, seen through `f`, a reachable state of
the small one. -/
theorem Reachable.project {T : System τ β} {f : σ → τ} (hinit : ∀ s, S.init s → T.init (f s))
    (hstep : ∀ s a s', S.step s a = some s' → f s' = f s ∨ ∃ b, T.step (f s) b = some (f s'))
    {s : σ} (h : S.Reachable s) : T.Reachable (f s) := by
  obtain ⟨s₀, as, h₀, hr⟩ := h
  obtain ⟨bs, hbs⟩ := run_project hstep hr
  exact ⟨f s₀, bs, hinit s₀ h₀, hbs⟩

/-- If one step keeps `P` exactly when it meets the condition `C`, a run keeps
`P` exactly when all its steps meet `C`. -/
theorem run_forall_iff {P : σ → Prop} {C : σ → α → Prop} {s₀ s : σ} {as : List α}
    (h₀ : S.init s₀) (hP : P s₀)
    (hstep : ∀ s a s', S.Reachable s → P s → S.step s a = some s' → (P s' ↔ C s a))
    (hrun : Transition.run S.step s₀ as = some s) :
    (∀ bs t, bs <+: as → Transition.run S.step s₀ bs = some t → P t) ↔
      ∀ bs a t, bs ++ [a] <+: as → Transition.run S.step s₀ bs = some t → C t a := by
  have hsome : ∀ bs a, bs ++ [a] <+: as → ∃ t t', Transition.run S.step s₀ bs = some t ∧
      S.step t a = some t' ∧ Transition.run S.step s₀ (bs ++ [a]) = some t' := by
    rintro bs a ⟨cs, rfl⟩
    obtain ⟨t', ht', -⟩ := run_append_eq_some.mp hrun
    obtain ⟨t, ht, ha⟩ := run_concat_eq_some.mp ht'
    exact ⟨t, t', ht, ha, ht'⟩
  constructor
  · intro hall bs a t hbs ht
    obtain ⟨u, t', hu, ha, ht'⟩ := hsome bs a hbs
    obtain rfl : t = u := Option.some.inj (ht.symm.trans hu)
    have hprev : P t := hall bs t ((List.prefix_append bs [a]).trans hbs) ht
    exact (hstep t a t' ⟨s₀, bs, h₀, ht⟩ hprev ha).mp (hall _ t' hbs ht')
  · intro hall bs
    induction bs using List.reverseRecOn with
    | nil =>
        intro t _ ht
        obtain rfl : s₀ = t := Option.some.inj ht
        exact hP
    | append_singleton bs a ih =>
        intro t' hbs ht'
        obtain ⟨t, ht, ha⟩ := run_concat_eq_some.mp ht'
        have hprev : P t := ih t ((List.prefix_append bs [a]).trans hbs) ht
        exact (hstep t a t' ⟨s₀, bs, h₀, ht⟩ hprev ha).mpr (hall bs a t hbs ht)

end System

end Transition
