-- SUMMARY: The fields of a text: its nonempty pieces between separators, and how they change with the text.
import Mathlib.Data.List.DropRight

/-!
# Fields

A field is a nonempty piece of a list between two separators, or between one and an end
of the list. So it does not matter how many separators stand between two fields, or at
the ends.
-/

namespace Fields
variable {α : Type*} {p : α → Bool} {c : α} {l r w : List α} {ws : List (List α)}

def fields (p : α → Bool) (l : List α) : List (List α) := (l.splitOnP p).filter (· ≠ [])

@[simp] theorem fields_nil : fields p [] = [] := rfl

theorem fields_of_forall_not (h : ∀ c ∈ w, p c = false) (hw : w ≠ []) : fields p w = [w] := by
  rw [fields, List.splitOnP_eq_singleton h]
  simp [hw]

theorem fields_append_cons (hc : p c) (l r : List α) :
    fields p (l ++ c :: r) = fields p l ++ fields p r := by
  rw [fields, List.splitOnP_append_cons _ _ hc, List.filter_append]
  rfl

theorem fields_cons (hc : p c) (r : List α) : fields p (c :: r) = fields p r :=
  fields_append_cons hc [] r

theorem fields_concat (hc : p c) (l : List α) : fields p (l ++ [c]) = fields p l := by
  rw [fields_append_cons hc, fields_nil, List.append_nil]

/-- Separators in front of a text make no difference. -/
theorem fields_append_of_forall (hl : ∀ c ∈ l, p c) (r : List α) :
    fields p (l ++ r) = fields p r := by
  induction l with
  | nil => rfl
  | cons c l ih =>
      rw [List.cons_append, fields_cons (hl c List.mem_cons_self)]
      exact ih fun d hd => hl d (List.mem_cons_of_mem c hd)

/-- Neither do separators behind it. -/
theorem fields_append_of_forall' (hr : ∀ c ∈ r, p c) (l : List α) :
    fields p (l ++ r) = fields p l := by
  cases r with
  | nil => rw [List.append_nil]
  | cons c r =>
      have hnone : fields p r = [] := by
        have hsep : ∀ d ∈ r, p d := fun d hd => hr d (List.mem_cons_of_mem c hd)
        rw [← List.append_nil r, fields_append_of_forall hsep, fields_nil]
      rw [fields_append_cons (hr c List.mem_cons_self), hnone, List.append_nil]

theorem fields_append_append (hw : w ≠ []) (hsep : ∀ c ∈ w, p c) (l r : List α) :
    fields p (l ++ (w ++ r)) = fields p l ++ fields p r := by
  cases w with
  | nil => exact absurd rfl hw
  | cons c w =>
      rw [List.cons_append, fields_append_cons (hsep c List.mem_cons_self),
        fields_append_of_forall fun d hd => hsep d (List.mem_cons_of_mem c hd)]

theorem fields_dropWhile (l : List α) : fields p (l.dropWhile p) = fields p l := by
  induction l with
  | nil => rfl
  | cons c l ih =>
      by_cases hc : p c
      · rw [List.dropWhile_cons_of_pos hc, ih, fields_cons hc]
      · rw [List.dropWhile_cons_of_neg hc]

theorem fields_rdropWhile (l : List α) : fields p (l.rdropWhile p) = fields p l := by
  induction l using List.reverseRecOn with
  | nil => rfl
  | append_singleton l c ih =>
      by_cases hc : p c
      · rw [List.rdropWhile_concat_pos _ _ _ hc, ih, fields_concat hc]
      · rw [List.rdropWhile_concat_neg _ _ _ hc]

/-- What is put together with a separator comes apart again. -/
theorem fields_intercalate (hc : p c) (h : ∀ w ∈ ws, ∀ d ∈ w, p d = false) :
    fields p ([c].intercalate ws) = ws.filter (· ≠ []) := by
  have hfield : ∀ w ∈ ws, fields p w = [w].filter (· ≠ []) := by
    intro w hw
    rw [fields, List.splitOnP_eq_singleton (h w hw)]
  induction ws with
  | nil => rfl
  | cons w ws ih =>
      cases ws with
      | nil => rw [List.intercalate_singleton, hfield w List.mem_cons_self]
      | cons w' ws =>
          have hrest := ih (fun v hv => h v (List.mem_cons_of_mem w hv))
            fun v hv => hfield v (List.mem_cons_of_mem w hv)
          rw [List.intercalate_cons_cons, List.append_assoc, List.singleton_append,
            fields_append_cons hc, hfield w List.mem_cons_self, hrest, ← List.filter_append,
            List.singleton_append]

/-- The pieces between separators are made of what is not a separator. -/
theorem of_mem_splitOnP (h : w ∈ l.splitOnP p) : ∀ c ∈ w, c ∈ l ∧ p c = false := by
  induction l generalizing w with
  | nil =>
      obtain rfl := List.mem_singleton.mp h
      simp
  | cons d l ih =>
      have htail : w ∈ l.splitOnP p → ∀ c ∈ w, c ∈ d :: l ∧ p c = false := by
        intro hw c hc
        obtain ⟨hmem, hp⟩ := ih hw c hc
        exact ⟨List.mem_cons_of_mem d hmem, hp⟩
      rw [List.splitOnP_cons_eq_if_modifyHead] at h
      split at h
      next hd =>
        rcases List.mem_cons.mp h with rfl | h
        · simp
        · exact htail h
      next hd =>
        cases hsplit : l.splitOnP p with
        | nil => exact absurd hsplit (List.splitOnP_ne_nil p l)
        | cons v vs =>
            rw [hsplit, List.modifyHead_cons] at h
            rcases List.mem_cons.mp h with rfl | h
            · intro c hc
              rcases List.mem_cons.mp hc with rfl | hc
              · exact ⟨List.mem_cons_self, by simpa using hd⟩
              · obtain ⟨hmem, hp⟩ := ih (hsplit ▸ List.mem_cons_self) c hc
                exact ⟨List.mem_cons_of_mem d hmem, hp⟩
            · exact htail (hsplit ▸ List.mem_cons_of_mem v h)

theorem of_mem_intercalate {s : List α} (h : c ∈ s.intercalate ws) :
    c ∈ s ∨ ∃ w ∈ ws, c ∈ w := by
  induction ws with
  | nil => cases h
  | cons w ws ih =>
      cases ws with
      | nil =>
          rw [List.intercalate_singleton] at h
          exact .inr ⟨w, List.mem_cons_self, h⟩
      | cons v ws =>
          rw [List.intercalate_cons_cons, List.mem_append, List.mem_append] at h
          rcases h with (h | h) | h
          · exact .inr ⟨w, List.mem_cons_self, h⟩
          · exact .inl h
          · rcases ih h with h | ⟨u, hu, hc⟩
            · exact .inl h
            · exact .inr ⟨u, List.mem_cons_of_mem w hu, hc⟩

theorem ne_nil_of_mem_fields (h : w ∈ fields p l) : w ≠ [] :=
  of_decide_eq_true (List.mem_filter.mp h).2

theorem not_of_mem_fields (h : w ∈ fields p l) : ∀ c ∈ w, p c = false :=
  fun c hc => (of_mem_splitOnP (List.mem_filter.mp h).1 c hc).2

end Fields
