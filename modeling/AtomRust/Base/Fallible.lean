-- SUMMARY: Computations that can fail: how a successful one splits into its steps.
import Mathlib.Data.Option.Basic

namespace Except
variable {ε α β : Type*}

/-- `Option::ok_or`. -/
def okOr (o : Option α) (e : ε) : Except ε α :=
  match o with
  | some a => .ok a
  | none => .error e

theorem okOr_eq_ok {o : Option α} {e : ε} {a : α} : okOr o e = .ok a ↔ o = some a := by
  cases o <;> simp [okOr]

theorem bind_eq_ok {x : Except ε α} {f : α → Except ε β} {b : β} :
    x.bind f = .ok b ↔ ∃ a, x = .ok a ∧ f a = .ok b := by
  cases x <;> simp [Except.bind]

/-- A loop whose passes all go through yields what they yield, in order. -/
theorem foldlM_filterMap {f : Nat → Except ε (Option α)} {g : Nat → Option α} {n : Nat}
    (h : ∀ i < n, f i = .ok (g i)) :
    (List.range n).foldlM (fun out i => do
        let o ← f i
        return out ++ o.toList) [] = .ok ((List.range n).filterMap g) := by
  induction n with
  | zero => rfl
  | succ n ih =>
      rw [List.range_succ, List.foldlM_append, ih fun i hi => h i (by omega), List.filterMap_append]
      simp only [List.foldlM_cons, List.foldlM_nil, h n (by omega), bind, Except.bind]
      cases hg : g n <;> simp [hg, pure, Except.pure]

/-- A loop that collects what its passes yield. It ends if all passes do. -/
theorem foldlM_collect {f : Nat → Except ε (Option α)} {n : Nat} (h : ∀ i < n, ∃ o, f i = .ok o) :
    ∃ out, (List.range n).foldlM (fun out i => do
        let o ← f i
        return out ++ o.toList) [] = .ok out ∧
      ∀ a, a ∈ out ↔ ∃ i < n, f i = .ok (some a) := by
  induction n with
  | zero => exact ⟨[], rfl, by simp⟩
  | succ n ih =>
      obtain ⟨out, hout, hmem⟩ := ih fun i hi => h i (by omega)
      obtain ⟨o, ho⟩ := h n (by omega)
      refine ⟨out ++ o.toList, ?_, fun a => ?_⟩
      · rw [List.range_succ, List.foldlM_append, hout]
        simp only [List.foldlM_cons, List.foldlM_nil, ho, bind, Except.bind]
        rfl
      · rw [List.mem_append, hmem, Option.mem_toList]
        constructor
        · rintro (⟨i, hi, ha⟩ | ha)
          · exact ⟨i, by omega, ha⟩
          · exact ⟨n, by omega, ho.trans (congrArg Except.ok ha)⟩
        · rintro ⟨i, hi, ha⟩
          by_cases hn : i = n
          · subst hn
            exact .inr (Except.ok.inj (ho.symm.trans ha))
          · exact .inl ⟨i, by omega, ha⟩

end Except
