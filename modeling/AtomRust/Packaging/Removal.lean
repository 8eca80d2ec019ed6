-- SUMMARY: What `cmdline_del` leaves of `cmdline.txt`: which options remain on each line, and whether `cmdline_add` is undone.
import AtomRust.Base.Fields
import AtomRust.Packaging.Cmdline

/-!
# Removing the overlay option

`cmdline_del` takes the first of the options away that is `overlayroot=tmpfs`, on each
line, and keeps all others. What `overlay_configured` finds may be more than that: the
option a second time, or a word that has it as a part, such as
`overlayroot=tmpfs:recurse=0`.
-/

open Fields (fields fields_append_cons fields_dropWhile fields_nil fields_of_forall_not
  fields_rdropWhile)

namespace Cmdline
variable {line w : Line} {file : List Line}

/-- The options of a line, which blanks separate. -/
def options (line : Line) : List Line := fields (· = ' ') line

theorem options_of_not_mem (hw : ' ' ∉ w) : options w = if w = [] then [] else [w] := by
  split
  next h => rw [h]; rfl
  next h =>
    apply fields_of_forall_not _ h
    intro c hc
    simp only [decide_eq_false_iff_not]
    rintro rfl
    exact hw hc

theorem options_append_blank (l r : Line) : options (l ++ ' ' :: r) = options l ++ options r :=
  fields_append_cons rfl l r

theorem options_trim (line : Line) : options (trim line) = options line := by
  rw [options, trim, fields_rdropWhile, fields_dropWhile]
  rfl

theorem not_mem_options (hw : ' ' ∉ w) (h : w ≠ overlayOption) : overlayOption ∉ options w := by
  rw [options_of_not_mem hw]
  split
  · simp
  · simpa using Ne.symm h

theorem options_overlayOption : options overlayOption = [overlayOption] := by decide

/-- The first occurrence of the option is taken away, and nothing else. -/
theorem options_deleteOption (line : Line) :
    options (deleteOption true line) = (options line).erase overlayOption := by
  induction line using word_induction with
  | word w hw =>
      rw [deleteOption_word hw]
      split
      next h =>
        rw [h, options_overlayOption]
        decide
      next h =>
        rw [List.erase_of_not_mem (not_mem_options hw h)]
  | blank w r hw ih =>
      rw [deleteOption_append_blank hw, options_append_blank]
      split
      next h =>
        rw [h, options_overlayOption, List.singleton_append, List.erase_cons_head]
      next h =>
        rw [options_append_blank, ih, List.erase_append_right _ (not_mem_options hw h)]

/-- The options that `del` leaves on a line. -/
theorem options_del (line : Line) :
    options (trim (deleteOption true line)) = (options line).erase overlayOption := by
  rw [options_trim, options_deleteOption]

theorem erase_eq_filter {l : List Line} (h : l.count overlayOption ≤ 1) :
    l.erase overlayOption = l.filter (· ≠ overlayOption) := by
  induction l with
  | nil => rfl
  | cons w l ih =>
      by_cases hw : w = overlayOption
      · subst hw
        have hzero : overlayOption ∉ l := by
          rw [← List.count_eq_zero]
          simpa using h
        have hall : l.filter (· ≠ overlayOption) = l :=
          List.filter_eq_self.mpr fun v hv => decide_eq_true fun heq => hzero (heq ▸ hv)
        rw [List.erase_cons_head, List.filter_cons_of_neg (by simp), hall]
      · rw [List.count_cons_of_ne hw] at h
        rw [List.erase_cons_tail (by simpa using hw), ih h,
          List.filter_cons_of_pos (by simpa using hw)]

/-- A line without the option is not changed but for blanks at its ends. -/
theorem deleteOption_of_not_mem (h : overlayOption ∉ words line) :
    deleteOption true line = line := by
  induction line using word_induction with
  | word w hw =>
      rw [words_of_not_mem hw, List.mem_singleton] at h
      rw [deleteOption_word hw, if_neg (Ne.symm h)]
  | blank w r hw ih =>
      rw [words_append_blank hw, List.mem_cons, not_or] at h
      rw [deleteOption_append_blank hw, if_neg (Ne.symm h.1), ih h.2]

/-- `cmdline_del` undoes `cmdline_add`. -/
theorem del_add (h : ∀ line ∈ file, trim line = line ∧ overlayOption ∉ words line) :
    del (add file) = file := by
  have hdel : ∀ line ∈ file, trim (deleteOption true line) = line := by
    intro line hline
    rw [deleteOption_of_not_mem (h line hline).2, (h line hline).1]
  cases file with
  | nil => rfl
  | cons line file =>
      have hfirst : deleteOption true (overlayOption ++ ' ' :: line) = line := by
        rw [deleteOption_append_blank blank_not_mem_overlayOption, if_pos rfl]
      rw [add, del, List.map_cons, hfirst, (h line List.mem_cons_self).1,
        List.map_congr_left fun l hl => hdel l (List.mem_cons_of_mem line hl), List.map_id']

section Grep
variable [WordLocale]

/-- `grep -w` takes the option wherever it is an option of its own. -/
theorem count_options_le (line : Line) :
    (options line).count overlayOption ≤ count none line := by
  have hword : ∀ w, ' ' ∉ w → (options w).count overlayOption ≤ count none w := by
    intro w hw
    by_cases h : w = overlayOption
    · subst h
      rw [options_overlayOption, count_overlayOption]
      decide
    · rw [List.count_eq_zero_of_not_mem (not_mem_options hw h)]
      exact Nat.zero_le _
  induction line using word_induction with
  | word w hw => exact hword w hw
  | blank w r hw ih =>
      rw [options_append_blank, List.count_append, count_append_blank]
      exact Nat.add_le_add (hword w hw) ih

theorem count_le_one_of_deletable (h : Deletable line) :
    (options line).count overlayOption ≤ 1 := by
  have hle := count_options_le line
  rcases h with h | ⟨h, -⟩ <;> omega

/-- The removal is complete, and touches nothing else. -/
structure Removes (file : List Line) : Prop where
  complete : grep (del file) = false
  options : (del file).map options = file.map fun line => (options line).filter (· ≠ overlayOption)
  undone : (∀ line ∈ file, trim line = line ∧ overlayOption ∉ words line) → del (add file) = file

/-- The removal is complete if and only if on every line `grep -w` takes nothing, or just
one occurrence that is an option of its own. -/
theorem removes_iff (file : List Line) : Removes file ↔ ∀ line ∈ file, Deletable line := by
  constructor
  · intro h
    exact (grep_del_eq_false_iff file).mp h.complete
  · intro h
    refine ⟨(grep_del_eq_false_iff file).mpr h, ?_, del_add⟩
    rw [del, List.map_map]
    apply List.map_congr_left
    intro line hline
    have hone := count_le_one_of_deletable (h line hline)
    rw [Function.comp_apply, options_del, erase_eq_filter hone]

end Grep

section Posix
attribute [local instance] WordLocale.posix

/-- The line has the option twice. -/
theorem not_removes_twice : ¬ Removes [overlayOption ++ ' ' :: overlayOption] := by
  intro h
  exact absurd h.complete (by decide)

end Posix

end Cmdline
