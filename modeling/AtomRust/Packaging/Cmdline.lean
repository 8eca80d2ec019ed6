-- SUMMARY: The text of `cmdline.txt`: how `grep -w` looks for the overlay option, how `sed` adds and deletes it, and when a deletion leaves nothing to find.
import Mathlib.Data.List.DropRight

/-!
# The kernel command line

A file is the list of its lines, and a line the list of its characters. `grep -w`
takes an occurrence whose neighbours are not word characters, while `sed` deletes
the first one that stands between blanks or at an end of the line, so the two do not
always see the same. Which characters are word characters is up to the locale.
-/

/-- The locale of the environment that the script runs in. -/
class WordLocale where
  /-- The word characters of `grep`: letters, digits and the underscore. -/
  isWord : Char → Bool
  /-- No locale has the blank among them. -/
  blank : isWord ' ' = false

/-- The POSIX locale. -/
@[reducible] def WordLocale.posix : WordLocale where
  isWord c := c.isAlphanum || c = '_'
  blank := by decide

namespace Cmdline

open WordLocale (isWord)

abbrev Line := List Char

/-- The pattern of `grep` and `sed`, `overlayroot=tmpfs`. -/
def overlayOption : Line :=
  ['o', 'v', 'e', 'r', 'l', 'a', 'y', 'r', 'o', 'o', 't', '=', 't', 'm', 'p', 'f', 's']

/-! ## Looking for the option -/

section Grep
variable [WordLocale]

/-- `grep -w` matches at the beginning of `line`, with `before` in front of it. -/
def matchHere (before : Option Char) (line : Line) : Bool :=
  overlayOption.isPrefixOf line && !before.any isWord &&
    !(line.drop overlayOption.length).head?.any isWord

/-- `grep -qw 'overlayroot=tmpfs'` on the rest of a line. -/
def grepLine : Option Char → Line → Bool
  | _, [] => false
  | before, c :: line => matchHere before (c :: line) || grepLine (some c) line

def grep (file : List Line) : Bool := file.any (grepLine none)

/-- The occurrences that `grep -w` takes. -/
def count : Option Char → Line → Nat
  | _, [] => 0
  | before, c :: line => (matchHere before (c :: line)).toNat + count (some c) line

end Grep

/-! ## Editing -/

/-- `sed -i -E '1 s/^/overlayroot=tmpfs /'`. -/
def add : List Line → List Line
  | [] => []
  | line :: file => (overlayOption ++ ' ' :: line) :: file

/-- What `( |$)` leaves of the rest of a line. -/
def blankOrEnd : Line → Option Line
  | [] => some []
  | c :: line => if c = ' ' then some line else none

/-- `overlayroot=tmpfs( |$)`. -/
def optionHere (line : Line) : Option Line :=
  if overlayOption.isPrefixOf line then blankOrEnd (line.drop overlayOption.length) else none

/-- `s/(^| )overlayroot=tmpfs( |$)/\1/` on the rest of a line. `start` says that the
line begins here, or that a blank is in front. -/
def deleteOption : Bool → Line → Line
  | _, [] => []
  | start, c :: line =>
      match if start then optionHere (c :: line) else none with
      | some rest => rest
      | none => c :: deleteOption (c = ' ') line

/-- `s/^ +//; s/ +$//`. -/
def trim (line : Line) : Line := (line.dropWhile (· = ' ')).rdropWhile (· = ' ')

/-- `cmdline_del_at`. -/
def del (file : List Line) : List Line := file.map fun line => trim (deleteOption true line)

/-! ## What is left to find -/

theorem blank_not_mem_overlayOption : ' ' ∉ overlayOption := by decide

theorem prefix_append_blank {p w : Line} (hp : ' ' ∉ p) (r : Line) :
    p <+: w ++ ' ' :: r ↔ p <+: w := by
  refine ⟨fun h => ?_, fun h => h.trans (List.prefix_append w _)⟩
  induction w generalizing p with
  | nil =>
      cases p with
      | nil => exact List.nil_prefix
      | cons c p =>
          obtain rfl := (List.cons_prefix_cons.mp h).1
          exact absurd List.mem_cons_self hp
  | cons d w ih =>
      cases p with
      | nil => exact List.nil_prefix
      | cons c p =>
          obtain ⟨rfl, h'⟩ := List.cons_prefix_cons.mp h
          exact List.cons_prefix_cons.mpr
            ⟨rfl, ih (fun hmem => hp (List.mem_cons_of_mem _ hmem)) h'⟩

section Grep
variable [WordLocale]

theorem grepLine_eq_false_iff {before : Option Char} {line : Line} :
    grepLine before line = false ↔ count before line = 0 := by
  induction line generalizing before with
  | nil => simp [grepLine, count]
  | cons c line ih =>
      simp only [grepLine, count, Bool.or_eq_false_iff, ih, Nat.add_eq_zero_iff, Bool.toNat_eq_zero]

/-- No occurrence reaches over a blank. -/
theorem matchHere_append_blank (before : Option Char) (w r : Line) :
    matchHere before (w ++ ' ' :: r) = matchHere before w := by
  have hstart : overlayOption.isPrefixOf (w ++ ' ' :: r) = overlayOption.isPrefixOf w := by
    rw [Bool.eq_iff_iff, List.isPrefixOf_iff_prefix, List.isPrefixOf_iff_prefix,
      prefix_append_blank blank_not_mem_overlayOption]
  unfold matchHere
  rw [hstart]
  cases hmatch : overlayOption.isPrefixOf w with
  | false => rfl
  | true =>
      obtain ⟨t, rfl⟩ := List.isPrefixOf_iff_prefix.mp hmatch
      rw [List.append_assoc, List.drop_left, List.drop_left]
      -- A blank behind the occurrence is as good as the end of the line.
      cases t with
      | nil => simp [WordLocale.blank]
      | cons c t => rfl

/-- Behind a blank is as good as at the beginning of the line. -/
theorem count_blank (r : Line) : count (some ' ') r = count none r := by
  cases r with
  | nil => rfl
  | cons c r => simp [count, matchHere, WordLocale.blank]

theorem count_append_blank (before : Option Char) (w r : Line) :
    count before (w ++ ' ' :: r) = count before w + count none r := by
  induction w generalizing before with
  | nil =>
      have hnot : matchHere before (' ' :: r) = false := by
        simp [matchHere, overlayOption]
      simp [count, hnot, count_blank]
  | cons c w ih =>
      have hmatch := matchHere_append_blank before (c :: w) r
      rw [List.cons_append] at hmatch
      rw [List.cons_append, count, count, hmatch, ih, Nat.add_assoc]

/-- What `add` puts in front of the first line is found again. -/
theorem grep_add (file : List Line) : grep (add file) = !file.isEmpty := by
  cases file with
  | nil => rfl
  | cons line file =>
      have hmatch : matchHere none (overlayOption ++ ' ' :: line) = true := by
        rw [matchHere_append_blank]
        rfl
      have hline : grepLine none (overlayOption ++ ' ' :: line) = true :=
        Bool.or_eq_true_iff.mpr (.inl hmatch)
      rw [add, grep, List.any_cons, hline]
      rfl

end Grep

/-! ## Word by word -/

theorem optionHere_append (t : Line) : optionHere (overlayOption ++ t) = blankOrEnd t := by
  rw [optionHere, if_pos (List.isPrefixOf_iff_prefix.mpr (List.prefix_append _ t)), List.drop_left]

theorem optionHere_eq_none {line : Line} (h : ¬ overlayOption <+: line) :
    optionHere line = none :=
  if_neg (mt List.isPrefixOf_iff_prefix.mp h)

theorem optionHere_word {w : Line} (hw : ' ' ∉ w) :
    optionHere w = if w = overlayOption then some [] else none := by
  by_cases h : overlayOption <+: w
  · obtain ⟨t, rfl⟩ := h
    rw [optionHere_append]
    cases t with
    | nil => simp [blankOrEnd]
    | cons c t =>
        have hc : c ≠ ' ' := fun h => hw (by simp [h])
        simp [blankOrEnd, hc]
  · have hne : w ≠ overlayOption := fun heq => h (heq ▸ List.prefix_rfl)
    rw [optionHere_eq_none h, if_neg hne]

theorem optionHere_append_blank {w : Line} (hw : ' ' ∉ w) (r : Line) :
    optionHere (w ++ ' ' :: r) = if w = overlayOption then some r else none := by
  by_cases h : overlayOption <+: w
  · obtain ⟨t, rfl⟩ := h
    rw [List.append_assoc, optionHere_append]
    cases t with
    | nil => simp [blankOrEnd]
    | cons c t =>
        have hc : c ≠ ' ' := fun h => hw (by simp [h])
        simp [blankOrEnd, hc]
  · have hne : w ≠ overlayOption := fun heq => h (heq ▸ List.prefix_rfl)
    have hnot := mt (prefix_append_blank blank_not_mem_overlayOption r).mp h
    rw [optionHere_eq_none hnot, if_neg hne]

/-- Inside a word nothing is deleted. -/
theorem deleteOption_false_word {w : Line} (hw : ' ' ∉ w) : deleteOption false w = w := by
  induction w with
  | nil => rfl
  | cons c w ih =>
      have hc : c ≠ ' ' := fun h => hw (by simp [h])
      have hw' : ' ' ∉ w := fun h => hw (List.mem_cons_of_mem _ h)
      simp [deleteOption, hc, ih hw']

theorem deleteOption_false_append_blank {w : Line} (hw : ' ' ∉ w) (r : Line) :
    deleteOption false (w ++ ' ' :: r) = w ++ ' ' :: deleteOption true r := by
  induction w with
  | nil => rfl
  | cons c w ih =>
      have hc : c ≠ ' ' := fun h => hw (by simp [h])
      simp [deleteOption, hc, ih (fun h => hw (List.mem_cons_of_mem _ h))]

theorem deleteOption_word {w : Line} (hw : ' ' ∉ w) :
    deleteOption true w = if w = overlayOption then [] else w := by
  cases w with
  | nil => rfl
  | cons c w =>
      have hc : c ≠ ' ' := fun h => hw (by simp [h])
      have hw' : ' ' ∉ w := fun h => hw (List.mem_cons_of_mem _ h)
      simp only [deleteOption, if_true, optionHere_word hw]
      split
      next rest h =>
        split at h <;> cases h
        next heq => rw [if_pos heq]
      next h =>
        split at h <;> cases h
        next hne => rw [if_neg hne, decide_eq_false hc, deleteOption_false_word hw']

theorem deleteOption_append_blank {w : Line} (hw : ' ' ∉ w) (r : Line) :
    deleteOption true (w ++ ' ' :: r) =
      if w = overlayOption then r else w ++ ' ' :: deleteOption true r := by
  cases w with
  | nil => rfl
  | cons c w =>
      have hc : c ≠ ' ' := fun h => hw (by simp [h])
      have hw' : ' ' ∉ w := fun h => hw (List.mem_cons_of_mem _ h)
      have hoption := optionHere_append_blank hw r
      rw [List.cons_append] at hoption ⊢
      simp only [deleteOption, if_true, hoption]
      split
      next rest h =>
        split at h <;> cases h
        next heq => rw [if_pos heq]
      next h =>
        split at h <;> cases h
        next hne =>
          rw [if_neg hne, decide_eq_false hc, deleteOption_false_append_blank hw', List.cons_append]

/-! ## Lines that the deletion clears -/

/-- The options of a line. -/
def words (line : Line) : List Line := line.splitOn ' '

/-- Induction on a line, word by word. -/
theorem word_induction {P : Line → Prop} (word : ∀ w, ' ' ∉ w → P w)
    (blank : ∀ w r, ' ' ∉ w → P r → P (w ++ ' ' :: r)) (line : Line) : P line := by
  induction hn : line.length using Nat.strong_induction_on generalizing line with
  | _ n ih =>
      by_cases hmem : ' ' ∈ line
      · obtain ⟨w, r, rfl, hw⟩ := List.eq_append_cons_of_mem hmem
        exact blank w r hw (ih r.length (by grind) r rfl)
      · exact word line hmem

theorem words_of_not_mem {w : Line} (hw : ' ' ∉ w) : words w = [w] :=
  List.splitOn_eq_singleton hw

theorem words_append_blank {w : Line} (hw : ' ' ∉ w) (r : Line) :
    words (w ++ ' ' :: r) = w :: words r := by
  rw [words, List.splitOn_append_cons_self, List.splitOn_eq_singleton hw]
  rfl

section Deletable
variable [WordLocale]

/-- The option is an occurrence, and the only one in itself. -/
theorem count_overlayOption : count none overlayOption = 1 := by
  simp [count, matchHere, overlayOption]

/-- The deletion takes away one occurrence if the option is among the words. -/
theorem count_deleteOption (line : Line) :
    count none line =
      count none (deleteOption true line) + if overlayOption ∈ words line then 1 else 0 := by
  induction line using word_induction with
  | word w hw =>
      by_cases h : w = overlayOption
      · subst h
        simp [deleteOption_word hw, words_of_not_mem hw, count_overlayOption, count]
      · simp [deleteOption_word hw, words_of_not_mem hw, h, Ne.symm h]
  | blank w r hw ih =>
      by_cases h : w = overlayOption
      · subst h
        simp [deleteOption_append_blank hw, words_append_blank hw, count_append_blank,
          count_overlayOption, Nat.add_comm]
      · simp [deleteOption_append_blank hw, words_append_blank hw, count_append_blank, h,
          Ne.symm h, ih, Nat.add_assoc]

theorem count_dropWhile (line : Line) :
    count none (line.dropWhile (· = ' ')) = count none line := by
  induction line with
  | nil => rfl
  | cons c line ih =>
      by_cases h : c = ' '
      · subst h
        rw [List.dropWhile_cons_of_pos rfl, ih]
        exact ((count_append_blank none [] line).trans (Nat.zero_add _)).symm
      · rw [List.dropWhile_cons_of_neg (by simpa using h)]

theorem count_rdropWhile (line : Line) :
    count none (line.rdropWhile (· = ' ')) = count none line := by
  induction line using List.reverseRecOn with
  | nil => rfl
  | append_singleton line c ih =>
      by_cases h : c = ' '
      · subst h
        rw [List.rdropWhile_concat_pos _ _ _ rfl, ih, count_append_blank]
        rfl
      · rw [List.rdropWhile_concat_neg _ _ _ (by simpa using h)]

theorem count_trim (line : Line) : count none (trim line) = count none line := by
  rw [trim, count_rdropWhile, count_dropWhile]

/-- `grep -w` takes nothing in the line, or one occurrence that is an option of its
own. -/
def Deletable (line : Line) : Prop :=
  count none line = 0 ∨ count none line = 1 ∧ overlayOption ∈ words line

instance (line : Line) : Decidable (Deletable line) :=
  inferInstanceAs (Decidable (_ ∨ _))

theorem grepLine_del_eq_false_iff (line : Line) :
    grepLine none (trim (deleteOption true line)) = false ↔ Deletable line := by
  rw [grepLine_eq_false_iff, count_trim, Deletable, count_deleteOption line]
  by_cases h : overlayOption ∈ words line
  · simp [h]
  · simp [h]

/-- The deletion leaves nothing to find just on these lines. -/
theorem grep_del_eq_false_iff (file : List Line) :
    grep (del file) = false ↔ ∀ line ∈ file, Deletable line := by
  simp only [grep, del, List.any_map, List.any_eq_false, Function.comp_apply, Bool.not_eq_true,
    grepLine_del_eq_false_iff]

theorem grep_del_of_grep_eq_false {file : List Line} (h : grep file = false) :
    grep (del file) = false := by
  refine (grep_del_eq_false_iff file).mpr fun line hline => .inl ?_
  have hnone := List.any_eq_false.mp h line hline
  exact grepLine_eq_false_iff.mp (Bool.eq_false_iff.mpr hnone)

end Deletable

end Cmdline
