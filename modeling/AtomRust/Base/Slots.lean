-- SUMMARY: Lists whose entries keep their place: what an update or a new entry does to the others.
import Mathlib.Data.List.Basic

namespace List
variable {α : Type*} {l : List α} {old new x : α} {c d : Nat}

theorem getElem?_set_of_some (h : l[c]? = some old) (d : Nat) :
    (l.set c new)[d]? = if d = c then some new else l[d]? := by
  have hlt : c < l.length := (List.getElem?_eq_some_iff.mp h).1
  by_cases hd : d = c
  · subst hd
    simp [hlt]
  · rw [if_neg hd]
    simp [Ne.symm hd]

theorem set_eq_self_of_some (h : l[c]? = some old) : l.set c old = l := by
  obtain ⟨hlt, rfl⟩ := List.getElem?_eq_some_iff.mp h
  exact List.set_getElem_self hlt

theorem getElem?_append_of_some (h : l[c]? = some old) (k : List α) :
    (l ++ k)[c]? = some old := by
  rw [List.getElem?_append_left (List.getElem?_eq_some_iff.mp h).1, h]

theorem getElem?_concat_eq_some (h : (l ++ [new])[d]? = some x) :
    l[d]? = some x ∧ d < l.length ∨ d = l.length ∧ x = new := by
  rw [List.getElem?_append] at h
  split at h
  next hlt => exact .inl ⟨h, hlt⟩
  next hlt =>
    obtain ⟨hd, rfl⟩ := List.getElem?_eq_some_iff.mp h
    simp only [List.length_singleton] at hd
    exact .inr ⟨by omega, by simp⟩

/-- After an update, what holds of the new entry and held of the others holds of all. -/
theorem forall_getElem?_set {P : Nat → α → Prop} (hc : l[c]? = some old) (hnew : P c new)
    (h : ∀ d x, d ≠ c → l[d]? = some x → P d x) : ∀ d x, (l.set c new)[d]? = some x → P d x := by
  intro d x hd
  rw [getElem?_set_of_some hc] at hd
  split at hd
  next hdc =>
    cases hd
    exact hdc ▸ hnew
  next hdc => exact h d x hdc hd

end List
